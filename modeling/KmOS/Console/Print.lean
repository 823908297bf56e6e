/-
# `KmOS.Console.Print` — `IO::print`

The format and the strings of `%s` are read from memory that the console does not
write to; the arguments are the words behind the format on the stack, and `va_arg`
takes the next one.  A number goes through the 16 bytes of `buf`: `itoa`, `strlen`,
and, if a width asks for more, the loop that moves the digits up and puts zeros in
front of them.

`0 - ival` is the machine's subtraction, so that the least `int` is written by its
absolute value as well.

The result is about one directive, wherever in the format it stands: what it writes
is the number, with as many digits as the width asks for (`number_formatting`).  No
format makes a directive leave the 16 bytes (`printLoop_only`).
-/
import KmOS.Console.Model
import KmOS.Runtime.Itoa
import KmOS.Runtime.Strings

namespace KmOS

/-! ## The function -/

/-- `if (buflen < size) for (i = size, j = buflen; i >= 0; i--, j--)
buf[i] = (j >= 0) ? buf[j] : '0';` -/
def pad (buf : LoggedArray UInt8) (size buflen : Nat) : LoggedArray UInt8 :=
  if buflen < size then .padLoop zeroChar (size + 1) buflen buf else buf

/-- `itoa`, `strlen` and the padding. -/
def convert (buf : LoggedArray UInt8) (uival base : UInt32) (size fuel : Nat) :
    Option (LoggedArray UInt8) := do
  let buf ← itoa buf uival base fuel
  let buflen ← strlen buf.val fuel 0
  some (pad buf size buflen)

/-- `for (int k = 0; buf[k]; k++) putc(buf[k]);` -/
def putString (b : Nat → UInt8) : Nat → Nat → Console → Option Console
  | 0, _, _ => none
  | fuel + 1, k, io => if b k = 0 then some io else putString b fuel (k + 1) (io.putc (b k))

/-- The console, and the variables of `print` that outlive a turn of its loop. -/
structure Printing where
  io : Console
  buf : LoggedArray UInt8
  s : UInt32
  ap : Nat

/-- A number with something in front of its digits. -/
def putNumber (fuel : Nat) (st : Printing) (front : List UInt8) (uival base : UInt32)
    (size : Nat) : Option Printing := do
  let buf ← convert st.buf uival base size fuel
  let io ← putString buf.val fuel 0 (st.io.putcs front)
  some { st with io := io, buf := buf, ap := st.ap + 1 }

def minusSign : List UInt8 := ['-'.toUInt8]

def hexPrefix : List UInt8 := ['0'.toUInt8, 'x'.toUInt8]

section
variable (memory : UInt32 → UInt8) (args : Nat → UInt32) (fuel : Nat)

/-- The directive with the letter `c`. -/
def conversion (c : UInt8) (size : Nat) (st : Printing) : Option Printing :=
  let arg := args st.ap
  if c = 'd'.toUInt8 then
    if arg.toInt32 < 0 then putNumber fuel st minusSign (0 - arg) 10 size
    else putNumber fuel st [] arg 10 size
  else if c = 'u'.toUInt8 then putNumber fuel st [] arg 10 size
  else if c = 'x'.toUInt8 ∨ c = 'X'.toUInt8 then putNumber fuel st hexPrefix arg 16 size
  else if c = 'p'.toUInt8 then putNumber fuel st hexPrefix arg 16 8
  else if c = 's'.toUInt8 then
    let io :=
      if arg = 0 then some st.io
      else putString (fun k => memory (arg + UInt32.ofNat k)) fuel 0 st.io
    io.map fun io => { st with io := io, ap := st.ap + 1 }
  else if c = 'c'.toUInt8 then some { st with io := st.io.putc arg.toUInt8, ap := st.ap + 1 }
  else some st

/-- The body of `while ((c = *s++))`. -/
def printTurn (c : UInt8) (st : Printing) : Option Printing :=
  if c = '%'.toUInt8 then
    let c := memory st.s
    let st := { st with s := st.s + 1 }
    if '0'.toUInt8 ≤ c ∧ c ≤ '9'.toUInt8 then
      let size := (c - '0'.toUInt8).toNat
      let c := memory st.s
      conversion memory args fuel c size { st with s := st.s + 1 }
    else conversion memory args fuel c 0 st
  else some { st with io := st.io.putc c }

def printLoop : Nat → Printing → Option Printing
  | 0, _ => none
  | turns + 1, st =>
      let c := memory st.s
      let st := { st with s := st.s + 1 }
      if c = 0 then some st else (printTurn memory args fuel c st).bind (printLoop turns)

/-- `IO::print`; `buf` is what the stack held where `buf` lies. -/
def print (io : Console) (s : UInt32) (buf : Nat → UInt8) : Option Console :=
  (printLoop memory args fuel fuel { io := io, buf := ⟨buf, []⟩, s := s, ap := 0 }).map Printing.io

end

/-! ## Numerals and padding -/

/-- `s` is how `n` is written in base `b`. -/
structure NumeralOf (b n : Nat) (s : List UInt8) : Prop where
  value : numeral b s = some n
  ne_nil : s ≠ []
  noLeadingZero : s.head? = some zeroChar → s = [zeroChar]

/-- With zeros in front. -/
def padded (size : Nat) (s : List UInt8) : List UInt8 :=
  List.replicate (size - s.length) zeroChar ++ s

variable {b n size fuel k : Nat} {s : List UInt8} {m : LoggedArray UInt8} {io : Console}
  {P : Nat → Prop}

theorem numeralOf_digitString (n : Nat) (hb : 1 < b) (hb' : b ≤ 36) :
    NumeralOf b n (digitString b n) :=
  ⟨numeral_digitString n hb hb', digitString_ne_nil n, head_digitString hb hb'⟩

theorem length_padded : (padded size s).length = max size s.length := by
  rw [padded, List.length_append, List.length_replicate]
  omega

theorem numeral_padded (hb : 0 < b) : numeral b (padded size s) = numeral b s := numeral_zeros hb

theorem pad_stringAt (size : Nat) (hs : StringAt m.val 0 s) :
    StringAt (pad m size s.length).val 0 (padded size s) := by
  unfold pad padded
  split
  · next hlt =>
      have hn : 0 ∉ List.replicate (size - s.length) zeroChar ++ s := by
        rw [List.mem_append, List.mem_replicate, not_or]
        exact ⟨fun h => absurd h.2 (by decide), hs.1⟩
      -- the terminator moves with the digits
      have hmoved := LoggedArray.padLoop_listAt zeroChar (Nat.sub_pos_of_lt hlt) hs.2
      have hcount : size - s.length + (s ++ [0]).length = size + 1 := by
        rw [List.length_append, List.length_singleton]
        omega
      have hlast : ((s ++ [0]).length : Int) - 1 = s.length := by
        rw [List.length_append, List.length_singleton]
        omega
      rw [hcount, hlast, ← List.append_assoc] at hmoved
      exact ⟨hn, hmoved⟩
  · next hge =>
      rw [Nat.sub_eq_zero_of_le (Nat.le_of_not_lt hge)]
      exact hs

theorem only_pad {buflen : Nat} (hm : m.Only P) (h : ∀ k ≤ size, P k) :
    (pad m size buflen).Only P := by
  unfold pad
  split
  · exact LoggedArray.only_padLoop hm fun k hk => h k (Nat.le_of_lt_succ hk)
  · exact hm

theorem putString_eq {c : Nat → UInt8} (hs : StringAt c k s) (hf : s.length < fuel) :
    putString c fuel k io = some (io.putcs s) := by
  induction s generalizing k fuel io with
  | nil =>
      obtain ⟨fuel, rfl⟩ := Nat.exists_eq_add_of_lt hf
      exact if_pos (StringAt.nil_iff.mp hs)
  | cons d s ih =>
      obtain ⟨hd, hk, hrest⟩ := StringAt.cons_iff.mp hs
      cases fuel with
      | zero => exact absurd hf (Nat.not_lt_zero _)
      | succ fuel =>
          rw [putString, if_neg (hk ▸ hd), ih hrest (Nat.lt_of_succ_lt_succ hf), hk]
          rfl

/-! ## One number -/

/-- **One number** with at most 15 digits, and a width below 16: what is written is
the numeral, padded, and the buffer is not left. -/
theorem putNumber_spec {base uival : UInt32} (st : Printing) (front : List UInt8)
    (hb : 1 < base.toNat) (hb' : base.toNat ≤ 36) (hsize : size < 16) (hf : 16 ≤ fuel)
    (hlen : (digitString base.toNat uival.toNat).length < 16) (hin : st.buf.Only (· < 16)) :
    ∃ buf : LoggedArray UInt8,
      StringAt buf.val 0 (padded size (digitString base.toNat uival.toNat)) ∧ buf.Only (· < 16) ∧
      putNumber fuel st front uival base size =
        some { st with
          io := st.io.putcs (front ++ padded size (digitString base.toNat uival.toNat))
          buf := buf
          ap := st.ap + 1 } := by
  obtain ⟨r, hr, hs, honly⟩ := itoa_spec st.buf uival hb hb' (Nat.le_trans (Nat.le_of_lt hlen) hf)
  generalize digitString base.toNat uival.toNat = ds at hlen hs honly ⊢
  have hstr := pad_stringAt size hs
  have hfit : (padded size ds).length < fuel := by
    rw [length_padded]
    omega
  have hput : putString (pad r size ds.length).val fuel 0 (st.io.putcs front) =
      some (st.io.putcs (front ++ padded size ds)) := by
    rw [putString_eq hstr hfit]
    exact congrArg some List.foldl_append.symm
  refine ⟨pad r size ds.length, hstr, ?_, ?_⟩
  · refine only_pad (honly _ hin fun k hk => ?_) fun k hk => ?_
    · exact Nat.lt_of_le_of_lt hk hlen
    · exact Nat.lt_of_le_of_lt hk hsize
  · have hconv : convert st.buf uival base size fuel = some (pad r size ds.length) := by
      unfold convert
      rw [hr, Option.bind_eq_bind, Option.bind_some, strlen_eq hs (by omega)]
      rfl
    unfold putNumber
    rw [hconv, Option.bind_eq_bind, Option.bind_some, hput]
    rfl

/-! ## The buffer, whatever the format -/

/-- What the bases of `print` have in common. -/
theorem base_spec {base : UInt32} (h : base = 10 ∨ base = 16) :
    1 < base.toNat ∧ base.toNat ≤ 36 ∧
      ∀ n : UInt32, (digitString base.toNat n.toNat).length < 16 := by
  have hten : 1 < base.toNat ∧ base.toNat ≤ 36 ∧ 2 ^ 32 ≤ base.toNat ^ 10 := by
    rcases h with rfl | rfl <;> decide
  refine ⟨hten.1, hten.2.1, fun n => ?_⟩
  exact Nat.lt_of_le_of_lt (length_digitString_le n hten.1 (by decide) hten.2.2) (by decide)

/-- A width is one digit. -/
theorem width_lt {c : UInt8} (h : '0'.toUInt8 ≤ c ∧ c ≤ '9'.toUInt8) :
    (c - '0'.toUInt8).toNat < 16 := by
  have h0 := UInt8.le_iff_toNat_le.mp h.1
  have h9 := UInt8.le_iff_toNat_le.mp h.2
  have hzero : ('0'.toUInt8).toNat = 48 := rfl
  have hnine : ('9'.toUInt8).toNat = 57 := rfl
  rw [UInt8.toNat_sub]
  omega

section
variable {memory : UInt32 → UInt8} {args : Nat → UInt32} {st st' : Printing}

theorem putNumber_only {front : List UInt8} {uival base : UInt32} (hf : 16 ≤ fuel)
    (hbase : base = 10 ∨ base = 16) (hsize : size < 16) (hin : st.buf.Only (· < 16))
    (h : putNumber fuel st front uival base size = some st') : st'.buf.Only (· < 16) := by
  obtain ⟨hb, hb', hlen⟩ := base_spec hbase
  obtain ⟨buf, _, honly, hput⟩ := putNumber_spec st front hb hb' hsize hf (hlen uival) hin
  obtain rfl := Option.some.inj (hput.symm.trans h)
  exact honly

theorem conversion_only {c : UInt8} (hf : 16 ≤ fuel) (hsize : size < 16)
    (hin : st.buf.Only (· < 16)) (h : conversion memory args fuel c size st = some st') :
    st'.buf.Only (· < 16) := by
  unfold conversion at h
  dsimp only at h
  split at h
  · -- `%d`, of either sign
    split at h
    · exact putNumber_only hf (Or.inl rfl) hsize hin h
    · exact putNumber_only hf (Or.inl rfl) hsize hin h
  split at h
  · exact putNumber_only hf (Or.inl rfl) hsize hin h
  split at h
  · exact putNumber_only hf (Or.inr rfl) hsize hin h
  split at h
  · exact putNumber_only hf (Or.inr rfl) (by decide) hin h
  split at h
  · obtain ⟨io, _, rfl⟩ := Option.map_eq_some_iff.mp h
    exact hin
  split at h
  · obtain rfl := Option.some.inj h
    exact hin
  · obtain rfl := Option.some.inj h
    exact hin

theorem printTurn_only {c : UInt8} (hf : 16 ≤ fuel) (hin : st.buf.Only (· < 16))
    (h : printTurn memory args fuel c st = some st') : st'.buf.Only (· < 16) := by
  unfold printTurn at h
  dsimp only at h
  split at h
  · split at h
    · next hdigit => exact conversion_only hf (width_lt hdigit) (by exact hin) h
    · exact conversion_only hf (by decide) (by exact hin) h
  · obtain rfl := Option.some.inj h
    exact hin

/-- **The 16 bytes are not left**, whatever the format and its arguments. -/
theorem printLoop_only {turns : Nat} (hf : 16 ≤ fuel) (hin : st.buf.Only (· < 16))
    (h : printLoop memory args fuel turns st = some st') : st'.buf.Only (· < 16) := by
  induction turns generalizing st with
  | zero => exact absurd h.symm (Option.some_ne_none _)
  | succ turns ih =>
      rw [printLoop] at h
      split at h
      · obtain rfl := Option.some.inj h
        exact hin
      · obtain ⟨st₁, hturn, hrest⟩ := Option.bind_eq_some_iff.mp h
        exact ih (printTurn_only hf (by exact hin) hturn) hrest

end

/-! ## The result -/

inductive NumberFormat where
  | d
  | u
  | x

namespace NumberFormat

def letter : NumberFormat → UInt8
  | d => 'd'.toUInt8
  | u => 'u'.toUInt8
  | x => 'x'.toUInt8

def base : NumberFormat → UInt32
  | d | u => 10
  | x => 16

/-- The number that the digits are to write. -/
def value : NumberFormat → UInt32 → Nat
  | d, arg => arg.toInt32.toInt.natAbs
  | u, arg | x, arg => arg.toNat

/-- What stands in front of the digits. -/
def front : NumberFormat → UInt32 → List UInt8
  | d, arg => if arg.toInt32 < 0 then minusSign else []
  | u, _ => []
  | x, _ => hexPrefix

end NumberFormat

theorem natAbs_toInt32 (arg : UInt32) :
    arg.toInt32.toInt.natAbs = (if arg.toInt32 < 0 then 0 - arg else arg).toNat := by
  have hlt := arg.toNat_lt
  have hint : arg.toInt32.toInt =
      if 2 * arg.toNat < 2 ^ 32 then (arg.toNat : Int) else arg.toNat - 2 ^ 32 :=
    BitVec.toInt_eq_toNat_cond _
  have hsign : arg.toInt32 < 0 ↔ arg.toInt32.toInt < 0 := Int32.lt_iff_toInt_lt
  by_cases hneg : arg.toInt32 < 0
  · rw [if_pos hneg, UInt32.toNat_sub]
    rw [hsign] at hneg
    have hzero : (0 : UInt32).toNat = 0 := rfl
    split at hint <;> omega
  · rw [if_neg hneg]
    rw [hsign] at hneg
    split at hint <;> omega

theorem isDigit_of_width {c : UInt8} (h : '1'.toUInt8 ≤ c ∧ c ≤ '9'.toUInt8) :
    '0'.toUInt8 ≤ c ∧ c ≤ '9'.toUInt8 := ⟨UInt8.le_trans (by decide) h.1, h.2⟩

/-- A digit between 1 and 9 in front of the letter. -/
theorem printTurn_of_width {memory : UInt32 → UInt8} {args : Nat → UInt32} {st : Printing}
    (h : '1'.toUInt8 ≤ memory st.s ∧ memory st.s ≤ '9'.toUInt8) :
    printTurn memory args fuel '%'.toUInt8 st =
      conversion memory args fuel (memory (st.s + 1)) (memory st.s - '0'.toUInt8).toNat
        { st with s := st.s + 2 } := by
  have hskip : st.s + 1 + 1 = st.s + 2 := UInt32.add_assoc st.s 1 1
  unfold printTurn
  rw [if_pos rfl]
  dsimp only
  rw [if_pos (isDigit_of_width h), hskip]

/-- The directive with the letter of `f`. -/
theorem conversion_letter (memory : UInt32 → UInt8) (args : Nat → UInt32) (fuel size : Nat)
    (st : Printing) (f : NumberFormat) :
    ∃ uival, uival.toNat = f.value (args st.ap) ∧
      conversion memory args fuel f.letter size st =
        putNumber fuel st (f.front (args st.ap)) uival f.base size := by
  cases f with
  | d =>
      refine ⟨_, (natAbs_toInt32 (args st.ap)).symm, ?_⟩
      have hd : NumberFormat.d.letter = 'd'.toUInt8 := rfl
      unfold conversion NumberFormat.front
      dsimp only
      rw [if_pos hd]
      split
      · rfl
      · rfl
  | u => exact ⟨_, rfl, rfl⟩
  | x => exact ⟨_, rfl, rfl⟩

/-- **Number formatting.**  `itoa` leaves the numeral of `n` in the base, as a string.
A directive with a width, wherever it stands in a format, puts out the numeral of its
argument with zeros in front, as long as the width asks for, and stays in its buffer. -/
theorem number_formatting :
    (∀ (buf : LoggedArray UInt8) (n base : UInt32) (fuel : Nat), 2 ≤ base → base ≤ 36 → 32 ≤ fuel →
      ∃ r s, itoa buf n base fuel = some r ∧ StringAt r.val 0 s ∧
        NumeralOf base.toNat n.toNat s) ∧
    ∀ (memory : UInt32 → UInt8) (args : Nat → UInt32) (fuel : Nat) (st : Printing)
      (f : NumberFormat),
      '1'.toUInt8 ≤ memory st.s ∧ memory st.s ≤ '9'.toUInt8 → memory (st.s + 1) = f.letter →
      st.buf.Only (· < 16) → 32 ≤ fuel →
      ∃ s t buf, NumeralOf f.base.toNat (f.value (args st.ap)) s ∧
        numeral f.base.toNat t = some (f.value (args st.ap)) ∧
        t.length = max (memory st.s - '0'.toUInt8).toNat s.length ∧
        StringAt buf.val 0 t ∧ buf.Only (· < 16) ∧
        printTurn memory args fuel '%'.toUInt8 st =
          some { io := st.io.putcs (f.front (args st.ap) ++ t), buf := buf, s := st.s + 2,
                 ap := st.ap + 1 } := by
  constructor
  · intro buf n base fuel hlo hhi hf
    have hb : 1 < base.toNat := UInt32.le_iff_toNat_le.mp hlo
    have hb' : base.toNat ≤ 36 := UInt32.le_iff_toNat_le.mp hhi
    have hlen : (digitString base.toNat n.toNat).length ≤ 32 :=
      length_digitString_le n hb (by decide) (Nat.pow_le_pow_left hb 32)
    obtain ⟨r, hr, hs, _⟩ := itoa_spec buf n hb hb' (Nat.le_trans hlen hf)
    exact ⟨r, _, hr, hs, numeralOf_digitString n.toNat hb hb'⟩
  · intro memory args fuel st f hwidth hletter hin hf
    obtain ⟨uival, hval, hconv⟩ := conversion_letter memory args fuel
      (memory st.s - '0'.toUInt8).toNat { st with s := st.s + 2 } f
    have hsize := width_lt (isDigit_of_width hwidth)
    have hbase : f.base = 10 ∨ f.base = 16 := by
      cases f with
      | d => exact Or.inl rfl
      | u => exact Or.inl rfl
      | x => exact Or.inr rfl
    obtain ⟨hb, hb', hlen⟩ := base_spec hbase
    have hnum := numeralOf_digitString uival.toNat hb hb'
    obtain ⟨buf, hbuf, honly, hput⟩ := putNumber_spec { st with s := st.s + 2 }
      (f.front (args st.ap)) hb hb' hsize (Nat.le_trans (by decide) hf) (hlen uival) hin
    rw [hval] at hbuf hput hnum
    refine ⟨_, _, buf, hnum, ?_, length_padded, hbuf, honly, ?_⟩
    · rw [numeral_padded (Nat.lt_of_succ_lt hb), hnum.value]
    · rw [printTurn_of_width hwidth, hletter, hconv, hput]

/-- `%5d` of -42, with more of the format behind it. -/
def widthFive : UInt32 → UInt8 := fun a =>
  if a = 0 then '5'.toUInt8 else if a = 1 then 'd'.toUInt8 else '!'.toUInt8

theorem number_formatting_five :
    (∃ r s, itoa ⟨fun _ => 1, []⟩ 255 16 32 = some r ∧ StringAt r.val 0 s ∧ NumeralOf 16 255 s) ∧
      ∃ s t buf, NumeralOf 10 42 s ∧ numeral 10 t = some 42 ∧ t.length = max 5 s.length ∧
        StringAt buf.val 0 t ∧ buf.Only (· < 16) ∧
        printTurn widthFive (fun _ => 0 - 42) 32 '%'.toUInt8
            ⟨.init fun _ => 0, ⟨fun _ => 1, []⟩, 0, 0⟩ =
          some ⟨(Console.init fun _ => 0).putcs (minusSign ++ t), buf, 2, 1⟩ :=
  ⟨number_formatting.1 ⟨fun _ => 1, []⟩ 255 16 32 (by decide) (by decide) (by decide),
    number_formatting.2 widthFive (fun _ => 0 - 42) 32 ⟨.init fun _ => 0, ⟨fun _ => 1, []⟩, 0, 0⟩ .d
      (by decide) rfl nofun (by decide)⟩

end KmOS
