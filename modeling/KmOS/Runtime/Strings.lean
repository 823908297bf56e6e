/-
# `KmOS.Runtime.Strings` — `strlen`, `strcpy`, `strcat`, `strcmp`, `strncmp` and `strrchr`

A string that is only read is the list of its bytes.  A buffer that is written is
a `LoggedArray` without an end: what stops `strlen` is a zero, wherever the memory
has one, so that it takes the number of turns it may make.

`strcat` copies `strlen(src)` bytes, and no terminator.  So what it leaves is a
string only where the memory behind the bytes it writes has a 0 already
(`zeros_of_strcat`, `stringAt_storeAll`).
-/
import KmOS.Lib.Strings

namespace KmOS

/-! ## The functions -/

/-- `while (*s++) i++;` from `b[s]` on. -/
def strlen (b : Nat → UInt8) : Nat → Nat → Option Nat
  | 0, _ => none
  | fuel + 1, s => if b s = 0 then some 0 else (strlen b fuel (s + 1)).map (· + 1)

def strcpy (dst : LoggedArray UInt8) (src : List UInt8) : LoggedArray UInt8 :=
  dst.storeAll 0 (src ++ [0])

/-- `memcpy(dest + strlen(dest), src, strlen(src))`. -/
def strcat (dest : LoggedArray UInt8) (src : List UInt8) (fuel : Nat) : Option (LoggedArray UInt8) :=
  (strlen dest.val fuel 0).map fun n => dest.storeAll n src

/-- `strncmp`, on `char`s, which are signed; the byte that ends a string is read as
often as the others. -/
def strncmp (s1 s2 : List UInt8) : Nat → Int
  | 0 => 0
  | c + 1 =>
      let result := (s1.headD 0).toInt8.toInt - (s2.headD 0).toInt8.toInt
      if result ≠ 0 ∨ s1.headD 0 = 0 then result else strncmp s1.tail s2.tail c

/-- `strcmp`, which does not say which of the two is less. -/
def strcmp : List UInt8 → List UInt8 → Int
  | dst, [] => if dst.headD 0 = 0 then 0 else 1
  | dst, c :: src =>
      if dst.headD 0 = c then (if c = 0 then 0 else strcmp dst.tail src) else 1

/-- What a function reads that is given `b + s`. -/
def loadString (b : Nat → UInt8) : Nat → Nat → Option (List UInt8)
  | 0, _ => none
  | fuel + 1, s => if b s = 0 then some [] else (loadString b fuel (s + 1)).map (b s :: ·)

/-- The loop of `strrchr`, at the index `i`. -/
def strrchrLoop (ch : UInt8) : List UInt8 → Nat → Option Nat → Option Nat
  | [], _, last => last
  | c :: s, i, last => strrchrLoop ch s (i + 1) (if c = ch then some i else last)

/-- `strrchr`, as an index into the string. -/
def strrchr (s : List UInt8) (ch : UInt8) : Option Nat :=
  let last := strrchrLoop ch s 0 none
  if ch = 0 then some s.length else last

/-! ## What they do -/

variable {b : Nat → UInt8} {m r : LoggedArray UInt8} {i n fuel : Nat} {s u file : List UInt8}

theorem strlen_eq (h : StringAt b i s) (hf : s.length < fuel) : strlen b fuel i = some s.length := by
  induction s generalizing i fuel with
  | nil =>
      obtain ⟨fuel, rfl⟩ := Nat.exists_eq_add_of_lt hf
      exact if_pos (StringAt.nil_iff.mp h)
  | cons c s ih =>
      obtain ⟨hc, hi, hrest⟩ := StringAt.cons_iff.mp h
      cases fuel with
      | zero => exact absurd hf (Nat.not_lt_zero _)
      | succ fuel =>
          rw [strlen, if_neg (hi ▸ hc), ih hrest (Nat.lt_of_succ_lt_succ hf)]
          rfl

theorem exists_stringAt_of_strlen (h : strlen b fuel i = some n) :
    ∃ s, StringAt b i s ∧ s.length = n := by
  induction fuel generalizing i n with
  | zero => exact nomatch h
  | succ fuel ih =>
      rw [strlen] at h
      by_cases hz : b i = 0
      · rw [if_pos hz] at h
        exact ⟨[], StringAt.nil_iff.mpr hz, Option.some.inj h⟩
      · rw [if_neg hz] at h
        obtain ⟨k, hk, rfl⟩ := Option.map_eq_some_iff.mp h
        obtain ⟨s, hs, rfl⟩ := ih hk
        exact ⟨b i :: s, StringAt.cons_iff.mpr ⟨hz, rfl, hs⟩, rfl⟩

theorem strcpy_stringAt (hs : 0 ∉ s) : StringAt (strcpy m s).val 0 s :=
  ⟨hs, LoggedArray.storeAll_listAt⟩

theorem strcpy_outside {j : Nat} (hj : s.length < j) : (strcpy m s).val j = m.val j := by
  refine LoggedArray.storeAll_outside (.inr ?_)
  rw [List.length_append, List.length_singleton]
  omega

/-- No byte of a list without zeros ends a string that starts where it does. -/
theorem length_le_of_listAt (hu : 0 ∉ u) (hl : ListAt b i u) (hs : StringAt b i s) :
    u.length ≤ s.length := by
  refine Nat.le_of_not_lt fun hlt => ?_
  have hget := ListAt.iff_getElem?.mp hl s.length hlt
  rw [hs.zero] at hget
  exact hu (List.mem_of_getElem? hget)

theorem storeAll_append_listAt (hl : ListAt m.val 0 u) :
    ListAt (m.storeAll u.length file).val 0 (u ++ file) := by
  rw [ListAt.append_iff, Nat.zero_add]
  refine ⟨hl.congr fun j _ hj => LoggedArray.storeAll_outside (.inl ?_), LoggedArray.storeAll_listAt⟩
  rwa [Nat.zero_add] at hj

/-- On a string it starts at the terminator. -/
theorem strcat_eq (hs : StringAt m.val 0 s) (hf : s.length < fuel) :
    strcat m file fuel = some (m.storeAll s.length file) := by
  rw [strcat, strlen_eq hs hf]
  rfl

theorem eq_of_strcat (hs : StringAt m.val 0 s) (hr : strcat m file fuel = some r) :
    r = m.storeAll s.length file := by
  obtain ⟨n, hlen, rfl⟩ := Option.map_eq_some_iff.mp hr
  obtain ⟨t, ht, rfl⟩ := exists_stringAt_of_strlen hlen
  rw [ht.unique hs]

/-- **`strcat`** on a buffer that starts with `u` makes the string `u ++ file` of it
only if `u` was a string, and what is read behind the bytes to come is 0 … -/
theorem zeros_of_strcat (hn : 0 ∉ u ++ file) (hl : ListAt m.val 0 u)
    (hr : strcat m file fuel = some r) (hright : StringAt r.val 0 (u ++ file)) :
    m.val u.length = 0 ∧ m.val (u.length + file.length) = 0 := by
  have hu : 0 ∉ u := fun h => hn (List.mem_append_left file h)
  have hfile : 0 ∉ file := fun h => hn (List.mem_append_right u h)
  obtain ⟨n, hlen, rfl⟩ := Option.map_eq_some_iff.mp hr
  obtain ⟨s, hs, rfl⟩ := exists_stringAt_of_strlen hlen
  -- the file went behind `s`, and no string there is shorter than both
  have hle := length_le_of_listAt hu hl hs
  have hge : s.length ≤ u.length := by
    have hsf : 0 ∉ s ++ file := fun h => (List.mem_append.mp h).elim hs.1 hfile
    have h := length_le_of_listAt hsf (storeAll_append_listAt hs.listAt) hright
    rw [List.length_append, List.length_append] at h
    omega
  have heq : s.length = u.length := Nat.le_antisymm hge hle
  have hz := hright.zero
  have hsz := hs.zero
  rw [Nat.zero_add, heq] at hsz
  rw [Nat.zero_add, List.length_append, heq,
    LoggedArray.storeAll_outside (.inr (Nat.le_refl _))] at hz
  exact ⟨hsz, hz⟩

/-- … and then it does. -/
theorem stringAt_storeAll (hn : 0 ∉ u ++ file) (hl : ListAt m.val 0 u)
    (hend : m.val (u.length + file.length) = 0) :
    StringAt (m.storeAll u.length file).val 0 (u ++ file) := by
  refine .mk' hn (storeAll_append_listAt hl) ?_
  rw [Nat.zero_add, List.length_append, LoggedArray.storeAll_outside (.inr (Nat.le_refl _))]
  exact hend

theorem loadString_eq (h : StringAt b i s) (hf : s.length < fuel) : loadString b fuel i = some s := by
  induction s generalizing i fuel with
  | nil =>
      obtain ⟨fuel, rfl⟩ := Nat.exists_eq_add_of_lt hf
      exact if_pos (StringAt.nil_iff.mp h)
  | cons c s ih =>
      obtain ⟨hc, hi, hrest⟩ := StringAt.cons_iff.mp h
      cases fuel with
      | zero => exact absurd hf (Nat.not_lt_zero _)
      | succ fuel =>
          rw [loadString, if_neg (hi ▸ hc), ih hrest (Nat.lt_of_succ_lt_succ hf), hi]
          rfl

/-! ## `strcmp` -/

theorem strcmp_eq_zero_iff {dst src : List UInt8} (hd : 0 ∉ dst) (hs : 0 ∉ src) :
    strcmp dst src = 0 ↔ dst = src := by
  induction src generalizing dst with
  | nil =>
      cases dst with
      | nil => exact iff_of_true rfl rfl
      | cons d dst =>
          have hne : d ≠ 0 := fun h => hd (h ▸ List.mem_cons_self)
          rw [strcmp, List.headD_cons, if_neg hne]
          exact iff_of_false (by decide) (List.cons_ne_nil d dst)
  | cons c src ih =>
      have hc : c ≠ 0 := fun h => hs (h ▸ List.mem_cons_self)
      have hsrc : 0 ∉ src := fun h => hs (List.mem_cons_of_mem c h)
      cases dst with
      | nil =>
          rw [strcmp, List.headD_nil, if_neg (Ne.symm hc)]
          exact iff_of_false (by decide) (List.cons_ne_nil c src).symm
      | cons d dst =>
          rw [strcmp, List.headD_cons, List.tail_cons]
          by_cases hdc : d = c
          · rw [if_pos hdc, if_neg hc, ih (fun h => hd (List.mem_cons_of_mem d h)) hsrc, hdc,
              List.cons.injEq]
            exact (and_iff_right rfl).symm
          · rw [if_neg hdc]
            exact iff_of_false (by decide) fun h => hdc (List.cons.inj h).1

/-! ## `strncmp` -/

theorem signed_sub_eq_zero {c d : UInt8} : c.toInt8.toInt - d.toInt8.toInt = 0 ↔ c = d := by
  rw [Int.sub_eq_zero, Int8.toInt_inj]
  exact ⟨fun h => UInt8.toBitVec_inj.mp (Int8.toBitVec_inj.mpr h), congrArg _⟩

theorem strncmp_cons {c d : UInt8} {s1 s2 : List UInt8} :
    strncmp (d :: s1) (c :: s2) (n + 1) =
      if d.toInt8.toInt - c.toInt8.toInt ≠ 0 ∨ d = 0 then d.toInt8.toInt - c.toInt8.toInt
      else strncmp s1 s2 n := rfl

/-- Bounded by the length of the second string, it says whether that is a prefix of
the first. -/
theorem strncmp_length_eq_zero_iff (s1 : List UInt8) {s2 : List UInt8} (hn : 0 ∉ s2) :
    strncmp s1 s2 s2.length = 0 ↔ s2 <+: s1 := by
  induction s2 generalizing s1 with
  | nil => exact iff_of_true rfl List.nil_prefix
  | cons c s2 ih =>
      obtain ⟨hc, hn'⟩ := not_or.mp (mt List.mem_cons.mpr hn)
      rw [List.length_cons]
      cases s1 with
      | nil =>
          -- the terminator against a character
          have hne : (0 : UInt8).toInt8.toInt - c.toInt8.toInt ≠ 0 := mt signed_sub_eq_zero.mp hc
          exact iff_of_false (fun h => hne ((if_pos (.inl hne)).symm.trans h))
            (fun h => nomatch List.prefix_nil.mp h)
      | cons d s1 =>
          rw [strncmp_cons, List.cons_prefix_cons]
          by_cases hcd : d = c
          · subst hcd
            have hd : ¬(d.toInt8.toInt - d.toInt8.toInt ≠ 0 ∨ d = 0) :=
              not_or.mpr ⟨not_not.mpr (Int.sub_self _), Ne.symm hc⟩
            rw [if_neg hd, ih _ hn']
            exact (and_iff_right rfl).symm
          · have hne : d.toInt8.toInt - c.toInt8.toInt ≠ 0 := mt signed_sub_eq_zero.mp hcd
            rw [if_pos (.inl hne)]
            exact iff_of_false hne (fun h => hcd h.1.symm)

/-! ## `strrchr` -/

theorem strrchrLoop_of_notMem {ch : UInt8} {last : Option Nat} (h : ch ∉ s) :
    strrchrLoop ch s i last = last := by
  induction s generalizing i last with
  | nil => rfl
  | cons c s ih =>
      rw [List.mem_cons, not_or] at h
      rw [strrchrLoop, if_neg fun e => h.1 e.symm, ih h.2]

/-- The last one is the one with none behind it. -/
theorem strrchr_append {ch : UInt8} (hch : ch ≠ 0) (h : ch ∉ u) :
    strrchr (s ++ ch :: u) ch = some s.length := by
  have hloop : ∀ i last, strrchrLoop ch (s ++ ch :: u) i last = some (i + s.length) := by
    induction s with
    | nil =>
        intro i last
        rw [List.nil_append, strrchrLoop, if_pos rfl, strrchrLoop_of_notMem h]
        rfl
    | cons c s ih =>
        intro i last
        rw [List.cons_append, strrchrLoop, ih, List.length_cons]
        congr 1
        omega
  rw [strrchr, if_neg hch, hloop, Nat.zero_add]

end KmOS
