/-
# `KmOS.Lib.Freelist` — free lists threaded through the objects of an array

An array of objects of equal size keeps its free objects in a singly linked
list, and the links lie in the objects themselves: the first word of a free
object is the address of the next, the second is a mark.  `Sll` is such a list
over any links.  `thread` is the loop that puts all objects of a fresh array on
the list, the last one first.
-/
import Mathlib.Data.List.Perm.Subperm
import KmOS.Lib.Bytes

namespace KmOS

/-- A search for what only `a` is. -/
theorem find?_getD_of_unique {α : Type} [DecidableEq α] {p : α → Bool} {a d : α} {l : List α}
    (ha : p a = true) (huniq : ∀ b ∈ l, p b = true → b = a) :
    (l.find? p).getD d = if a ∈ l then a else d := by
  cases hf : l.find? p with
  | none =>
      have hout : a ∉ l := fun hm => List.find?_eq_none.mp hf a hm ha
      rw [if_neg hout]
      rfl
  | some b =>
      have hb := List.mem_of_find?_eq_some hf
      have hba := huniq b hb (List.find?_some hf)
      subst hba
      rw [if_pos hb]
      rfl

/-- A search finds what is there once, if nothing in front of it will do. -/
theorem find?_append_cons_iff {α : Type} {p : α → Bool} {a : α} {l l' : List α}
    (hn : (l ++ a :: l').Nodup) :
    (l ++ a :: l').find? p = some a ↔ p a = true ∧ ∀ b ∈ l, ¬p b = true := by
  constructor
  · intro h
    refine ⟨List.find?_some h, fun b hb hp => ?_⟩
    obtain ⟨c, hc⟩ := Option.isSome_iff_exists.mp (List.find?_isSome.mpr ⟨b, hb, hp⟩)
    rw [List.find?_append, hc] at h
    obtain rfl : c = a := Option.some.inj h
    exact (List.nodup_append.mp hn).2.2 c (List.mem_of_find?_eq_some hc) c List.mem_cons_self rfl
  · rintro ⟨ha, hl⟩
    rw [List.find?_append, List.find?_eq_none.mpr hl]
    exact List.find?_cons_of_pos ha

/-! ## Singly linked lists -/

section Lists

variable {α : Type} {null : α} {next next' : α → α}

/-- The nodes `l`, reached from `h`. -/
def Sll (null : α) (next : α → α) : α → List α → Prop
  | h, [] => h = null
  | h, a :: l => h = a ∧ a ≠ null ∧ Sll null next (next a) l

namespace Sll

theorem head_eq_null_iff {h : α} {l : List α} (hl : Sll null next h l) : h = null ↔ l = [] := by
  cases l with
  | nil => exact ⟨fun _ => rfl, fun _ => hl⟩
  | cons a l =>
      obtain ⟨rfl, hne, _⟩ := hl
      exact ⟨fun h => absurd h hne, fun h => nomatch h⟩

/-- A head pointer that is not null names the first node, and its link the
rest. -/
theorem exists_cons {h : α} {l : List α} (hl : Sll null next h l) (hh : h ≠ null) :
    ∃ t, l = h :: t ∧ Sll null next (next h) t := by
  cases l with
  | nil => exact absurd hl hh
  | cons a l =>
      obtain ⟨rfl, _, ht⟩ := hl
      exact ⟨l, rfl, ht⟩

/-- No node leads to itself. -/
theorem next_ne_head {h : α} {l : List α} (hl : Sll null next h l) (hh : h ≠ null) : next h ≠ h := by
  intro e
  induction l with
  | nil => exact hh hl
  | cons a l ih =>
      obtain ⟨rfl, _, ht⟩ := hl
      rw [e] at ht
      exact ih ht

/-- Links and head determine the list. -/
theorem unique {h : α} {l k : List α} (hl : Sll null next h l) (hk : Sll null next h k) : l = k := by
  induction l generalizing h k with
  | nil => exact (hk.head_eq_null_iff.mp hl).symm
  | cons a l ih =>
      obtain ⟨rfl, ha, hl⟩ := hl
      obtain ⟨t, rfl, ht⟩ := hk.exists_cons ha
      rw [ih hl ht]

theorem ne_null {h : α} {l : List α} (hl : Sll null next h l) : ∀ a ∈ l, a ≠ null := by
  induction l generalizing h with
  | nil => intro a ha; exact nomatch ha
  | cons b l ih =>
      obtain ⟨rfl, hne, ht⟩ := hl
      intro a ha
      rcases List.mem_cons.mp ha with rfl | ha
      · exact hne
      · exact ih ht a ha

/-- A list reads only the links of its own nodes. -/
theorem congr {h : α} {l : List α} (hl : Sll null next h l) (hag : ∀ a ∈ l, next' a = next a) :
    Sll null next' h l := by
  induction l generalizing h with
  | nil => exact hl
  | cons a l ih =>
      obtain ⟨rfl, hne, ht⟩ := hl
      refine ⟨rfl, hne, ?_⟩
      rw [hag h List.mem_cons_self]
      exact ih ht (fun b hb => hag b (List.mem_cons_of_mem h hb))

/-- **Pushing** a node. -/
theorem push {h a : α} {l : List α} (hl : Sll null next h l) (ha : a ≠ null) (hn : next' a = h)
    (hag : ∀ b ∈ l, next' b = next b) : Sll null next' a (a :: l) := by
  refine ⟨rfl, ha, ?_⟩
  rw [hn]
  exact hl.congr hag

/-- The nodes behind one of the list. -/
theorem drop {h a : α} {l₁ l₂ : List α} (hl : Sll null next h (l₁ ++ a :: l₂)) :
    Sll null next (next a) l₂ := by
  induction l₁ generalizing h with
  | nil => exact hl.2.2
  | cons b l₁ ih => exact ih hl.2.2

/-- No node comes twice: its link would lead to two lists. -/
theorem nodup {h : α} {l : List α} (hl : Sll null next h l) : l.Nodup := by
  induction l generalizing h with
  | nil => exact List.nodup_nil
  | cons a l ih =>
      obtain ⟨rfl, _, ht⟩ := hl
      refine List.nodup_cons.mpr ⟨fun hm => ?_, ih ht⟩
      obtain ⟨l₁, l₂, rfl⟩ := List.append_of_mem hm
      have hlen := congrArg List.length (ht.drop.unique ht)
      rw [List.length_append, List.length_cons] at hlen
      omega

/-- A link leads to null or to another node. -/
theorem next_mem {h a : α} {l : List α} (hl : Sll null next h l) (ha : a ∈ l) :
    next a = null ∨ next a ∈ l := by
  induction l generalizing h with
  | nil => exact nomatch ha
  | cons b l ih =>
      obtain ⟨rfl, _, ht⟩ := hl
      rcases List.mem_cons.mp ha with rfl | ha
      · cases l with
        | nil => exact Or.inl ht
        | cons c l => exact Or.inr (List.mem_cons_of_mem _ (ht.1 ▸ List.mem_cons_self))
      · exact (ih ht ha).imp id (List.mem_cons_of_mem h)

/-- Two nodes do not lead to the same node. -/
theorem pred_unique {h a b : α} {l : List α} (hl : Sll null next h l) (hnd : l.Nodup) (ha : a ∈ l)
    (hb : b ∈ l) (hn : next a ≠ null) (he : next a = next b) : a = b := by
  induction l generalizing h with
  | nil => exact nomatch ha
  | cons c l ih =>
      obtain ⟨rfl, _, ht⟩ := hl
      obtain ⟨hc, hnd'⟩ := List.nodup_cons.mp hnd
      -- what `h` leads to is the first node of the rest, and no node of the rest leads to it
      have hfirst : ∀ d ∈ l, next d ≠ null → next h ≠ next d := by
        intro d hd hdn e
        cases l with
        | nil => exact nomatch hd
        | cons f l =>
            obtain ⟨e', _, ht'⟩ := ht
            obtain ⟨hf, _⟩ := List.nodup_cons.mp hnd'
            have hdf : next d = f := e ▸ e'
            rcases List.mem_cons.mp hd with rfl | hd
            · cases l with
              | nil => exact hdn ht'
              | cons g l => exact hf (hdf ▸ ht'.1 ▸ List.mem_cons_self)
            · rcases ht'.next_mem hd with h0 | hm
              · exact hdn h0
              · exact hf (hdf ▸ hm)
      rcases List.mem_cons.mp ha with ea | ha'
      · rcases List.mem_cons.mp hb with eb | hb'
        · rw [ea, eb]
        · exact absurd (ea ▸ he) (hfirst b hb' (he ▸ hn))
      · rcases List.mem_cons.mp hb with eb | hb'
        · exact absurd (eb ▸ he).symm (hfirst a ha' hn)
        · exact ih ht hnd' ha' hb'

/-- A list of addresses is shorter than there are addresses: none of its nodes
is at 0. -/
theorem length_lt {next : Nat → Nat} {h n : Nat} {l : List Nat} (hl : Sll 0 next h l)
    (hnd : l.Nodup) (hlt : ∀ a ∈ l, a < n) (hn : 0 < n) : l.length < n := by
  have hsub : (0 :: l).length ≤ (List.range n).length := by
    refine (List.Nodup.subperm ?_ (fun c hc => ?_)).length_le
    · exact List.nodup_cons.mpr ⟨fun h0 => hl.ne_null 0 h0 rfl, hnd⟩
    · rcases List.mem_cons.mp hc with rfl | hc
      · exact List.mem_range.mpr hn
      · exact List.mem_range.mpr (hlt c hc)
  rw [List.length_cons, List.length_range] at hsub
  exact hsub

/-- **Searching**: a loop `f` that follows the links until it meets a node it
looks for, or null, hands over the first such node, or null. -/
theorem search {β : Type} {f : Nat → α → β} {g : α → β} {p : α → Bool} {h : α} {l : List α}
    {fuel : Nat} (hl : Sll null next h l) (hfuel : l.length < fuel)
    (hnull : ∀ fuel, f (fuel + 1) null = g null)
    (hnode : ∀ fuel, ∀ a ∈ l, a ≠ null →
      f (fuel + 1) a = if p a then g a else f fuel (next a)) :
    f fuel h = g ((l.find? p).getD null) := by
  induction l generalizing h fuel with
  | nil =>
      obtain ⟨fuel, rfl⟩ := Nat.exists_eq_add_of_lt hfuel
      rw [show h = null from hl, hnull]
      rfl
  | cons a l ih =>
      obtain ⟨rfl, hne, ht⟩ := hl
      obtain ⟨fuel, rfl⟩ := Nat.exists_eq_add_of_lt hfuel
      rw [hnode _ h List.mem_cons_self hne]
      cases hp : p h with
      | true =>
          rw [List.find?_cons_of_pos hp]
          exact if_pos rfl
      | false =>
          rw [List.find?_cons_of_neg (by simp [hp])]
          refine (if_neg Bool.false_ne_true).trans (ih ht ?_ ?_)
          · rw [List.length_cons]
            omega
          · exact fun fuel b hb => hnode fuel b (List.mem_cons_of_mem h hb)

/-- **Bypassing** the node behind `b`. -/
theorem bypass {h a b : α} {l₁ l₂ : List α} (hl : Sll null next h (l₁ ++ b :: a :: l₂))
    (hb : next' b = next a) (hag : ∀ c, c ∈ l₁ ∨ c ∈ l₂ → next' c = next c) :
    Sll null next' h (l₁ ++ b :: l₂) := by
  induction l₁ generalizing h with
  | nil =>
      obtain ⟨rfl, hne, _, _, ht⟩ := hl
      refine ⟨rfl, hne, ?_⟩
      rw [hb]
      exact ht.congr (fun c hc => hag c (Or.inr hc))
  | cons c l₁ ih =>
      obtain ⟨rfl, hne, ht⟩ := hl
      refine ⟨rfl, hne, ?_⟩
      rw [hag h (Or.inl List.mem_cons_self)]
      exact ih ht (fun d hd => hag d (hd.imp_left (List.mem_cons_of_mem h)))

/-- **Unlinking** a node: what led to it now leads to what it led to. -/
theorem unlink [DecidableEq α] {h a : α} {l : List α} (hl : Sll null next h l) (hnd : l.Nodup)
    (ha : a ∈ l) (hag : ∀ b ∈ l.erase a, next' b = if next b = a then next a else next b) :
    Sll null next' (if h = a then next a else h) (l.erase a) := by
  induction l generalizing h with
  | nil => exact nomatch ha
  | cons b l ih =>
      obtain ⟨rfl, hne, ht⟩ := hl
      obtain ⟨hb, hnd'⟩ := List.nodup_cons.mp hnd
      by_cases e : h = a
      · subst e
        rw [List.erase_cons_head] at hag ⊢
        rw [if_pos rfl]
        refine ht.congr (fun c hc => ?_)
        rw [hag c hc, if_neg]
        intro hca
        rcases ht.next_mem hc with h0 | hm
        · exact hne (hca ▸ h0)
        · exact hb (hca ▸ hm)
      · rw [List.erase_cons_tail (by simpa using e)] at hag ⊢
        rw [if_neg e]
        refine ⟨rfl, hne, ?_⟩
        rw [hag h List.mem_cons_self]
        exact ih ht hnd' ((List.mem_cons.mp ha).resolve_left (Ne.symm e))
          (fun c hc => hag c (List.mem_cons_of_mem h hc))

end Sll

end Lists

/-! ## Arrays of objects -/

/-- The addresses of `n` objects of `size` bytes from `base` on. -/
def slots (base size n : Nat) : List Nat := (List.range n).map (fun i => base + i * size)

theorem mem_slots {base size n a : Nat} :
    a ∈ slots base size n ↔ ∃ i, i < n ∧ a = base + i * size := by
  simp only [slots, List.mem_map, List.mem_range]
  exact ⟨fun ⟨i, h, e⟩ => ⟨i, h, e.symm⟩, fun ⟨i, h, e⟩ => ⟨i, h, e.symm⟩⟩

theorem length_slots (base size n : Nat) : (slots base size n).length = n := by
  simp [slots]

theorem slots_succ (base size n : Nat) :
    slots base size (n + 1) = base :: slots (base + size) size n := by
  unfold slots
  rw [List.range_succ_eq_map, List.map_cons, List.map_map, Nat.zero_mul, Nat.add_zero]
  congr 1
  refine List.map_congr_left (fun i _ => ?_)
  simp only [Function.comp, Nat.succ_eq_add_one, Nat.add_mul]
  omega

/-- Each object lies inside the array. -/
theorem slots_bounds {base size n a : Nat} (ha : a ∈ slots base size n) :
    base ≤ a ∧ a + size ≤ base + n * size := by
  obtain ⟨i, hi, rfl⟩ := mem_slots.mp ha
  have : (i + 1) * size ≤ n * size := Nat.mul_le_mul_right size hi
  rw [Nat.add_mul] at this
  omega

/-- Two objects are one, or lie apart. -/
theorem slots_apart {base size n a b : Nat} (ha : a ∈ slots base size n)
    (hb : b ∈ slots base size n) : Memory.Apart size a b := by
  obtain ⟨i, _, rfl⟩ := mem_slots.mp ha
  obtain ⟨j, _, rfl⟩ := mem_slots.mp hb
  rcases Nat.lt_trichotomy i j with h | rfl | h
  · have : (i + 1) * size ≤ j * size := Nat.mul_le_mul_right size h
    rw [Nat.add_mul] at this
    exact Or.inr (Or.inl (by omega))
  · exact Or.inl rfl
  · have : (j + 1) * size ≤ i * size := Nat.mul_le_mul_right size h
    rw [Nat.add_mul] at this
    exact Or.inr (Or.inr (by omega))

theorem slots_nodup {base size n : Nat} (hs : 0 < size) : (slots base size n).Nodup := by
  induction n generalizing base with
  | zero => exact List.nodup_nil
  | succ n ih =>
      rw [slots_succ]
      refine List.nodup_cons.mpr ⟨fun hm => ?_, ih⟩
      have := (slots_bounds hm).1
      omega

/-! ## The links inside the objects -/

namespace Memory

/-- The link of the free object at `a`. -/
def link (m : Memory) (a : Nat) : Nat := m.load32 (a + 0)

/-- Its mark. -/
def mark (m : Memory) (a : Nat) : Nat := m.load32 (a + 4)

/-- Link and mark of an object are in its first eight bytes. -/
theorem link_mark_congr {m m' : Memory} {a : Nat} (h : ∀ c, a ≤ c → c < a + 8 → m' c = m c) :
    m'.link a = m.link a ∧ m'.mark a = m.mark a :=
  ⟨load32_congr (fun c h₁ h₂ => h c (by omega) (by omega)),
    load32_congr (fun c h₁ h₂ => h c (by omega) (by omega))⟩

/-- `put m a v` makes the object at `a` a free one that leads to `v`, with the
mark `t`, and touches nothing else. -/
structure PutsFree (put : Memory → Nat → Nat → Memory) (t : Nat) : Prop where
  link : ∀ m a v, v < 4294967296 → (put m a v).link a = v
  mark : ∀ m a v, (put m a v).mark a = t
  other : ∀ m a v c, c < a ∨ a + 8 ≤ c → put m a v c = m c

/-- The loop over a fresh array: `n` objects from `p` on go on the list in
front of `h`. -/
def thread (put : Memory → Nat → Nat → Memory) (size : Nat) :
    Nat → Memory → Nat → Nat → Memory × Nat
  | 0, m, _, h => (m, h)
  | n + 1, m, p, h => thread put size n (put m p h) ((p + size) % 4294967296) p

theorem thread_spec {put : Memory → Nat → Nat → Memory} {t size : Nat} (hput : PutsFree put t)
    (hsize : 8 ≤ size) :
    ∀ {n : Nat} {m : Memory} {p h : Nat} {l : List Nat}, p + n * size < 4294967296 → p ≠ 0 →
      Sll 0 m.link h l → (∀ a ∈ l, a + 8 ≤ p) → (∀ a ∈ l, m.mark a = t) →
      Sll 0 (thread put size n m p h).1.link (thread put size n m p h).2
          ((slots p size n).reverse ++ l) ∧
        (∀ a ∈ (slots p size n).reverse ++ l, (thread put size n m p h).1.mark a = t) ∧
        ∀ c, c < p ∨ p + n * size ≤ c → (thread put size n m p h).1 c = m c := by
  intro n
  induction n with
  | zero =>
      intro m p h l _ _ hl _ hmark
      exact ⟨hl, hmark, fun _ _ => rfl⟩
  | succ n ih =>
      intro m p h l hend hp hl hlow hmark
      rw [Nat.add_mul, Nat.one_mul] at hend
      have hh : h < 4294967296 := by
        by_cases hz : h = 0
        · omega
        · obtain ⟨t, ht, _⟩ := hl.exists_cons hz
          have := hlow h (by rw [ht]; exact List.mem_cons_self)
          omega
      have hkeep : ∀ a ∈ l, (put m p h).link a = m.link a ∧ (put m p h).mark a = m.mark a := by
        intro a ha
        have := hlow a ha
        exact link_mark_congr (fun c _ _ => hput.other m p h c (Or.inl (by omega)))
      have hl' : Sll 0 (put m p h).link p (p :: l) :=
        hl.push hp (hput.link m p h hh) (fun a ha => (hkeep a ha).1)
      have hmark' : ∀ a ∈ p :: l, (put m p h).mark a = t := by
        intro a ha
        rcases List.mem_cons.mp ha with rfl | ha
        · exact hput.mark m a h
        · rw [(hkeep a ha).2]
          exact hmark a ha
      have hlow' : ∀ a ∈ p :: l, a + 8 ≤ p + size := by
        intro a ha
        rcases List.mem_cons.mp ha with rfl | ha
        · omega
        · have := hlow a ha
          omega
      have hmod : (p + size) % 4294967296 = p + size := Nat.mod_eq_of_lt (by omega)
      obtain ⟨h₁, h₂, h₃⟩ := ih (m := put m p h) (p := p + size) (h := p) (l := p :: l)
        (by omega) (by omega) hl' hlow' hmark'
      rw [thread, hmod, slots_succ, List.reverse_cons, List.append_assoc, List.singleton_append]
      refine ⟨h₁, h₂, fun c hc => ?_⟩
      rw [Nat.add_mul, Nat.one_mul] at hc
      rw [h₃ c (by omega)]
      exact hput.other m p h c (by omega)

end Memory

end KmOS
