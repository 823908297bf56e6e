/-
# `KmOS.Lib.Copy` — byte loops that fill and copy

`fillLoop` and `copyLoop` are loops that store one byte a turn, forwards, at
addresses that wrap at 2^32.  A filled range reads back as the value stored
(`fillLoop_inside`).

A forward copy changes nothing outside its destination (`copyLoop_outside`), but
reads bytes it may have written before.  Byte `i` of the source arrives as it was
as long as the destination does not start among the bytes before it
(`copyLoop_inside`); a destination that starts at byte `d` of the source receives
byte 0 again at its own byte `d` (`copyLoop_reread`).  So the first `k` bytes arrive
whatever the memory holds exactly if the loop has `k` turns and the destination
does not start inside them (`copyLoop_delivers_iff`).
-/
import KmOS.Lib.Bytes
import Mathlib.Tactic.Common

namespace KmOS

/-- The address `i` bytes after `a`. -/
def offset32 (a i : Nat) : Nat := (a + i) % 4294967296

/-- How far `b` lies after `a`. -/
def distance32 (a b : Nat) : Nat := (b + 4294967296 - a) % 4294967296

theorem offset32_zero {a : Nat} (ha : a < 4294967296) : offset32 a 0 = a := by
  unfold offset32
  omega

/-- Different offsets are different addresses. -/
theorem offset32_inj {a i j : Nat} (hi : i < 4294967296) (hj : j < 4294967296)
    (h : offset32 a i = offset32 a j) : i = j := by
  unfold offset32 at h
  omega

theorem offset32_distance32 {a b : Nat} (ha : a < 4294967296) (hb : b < 4294967296) :
    offset32 a (distance32 a b) = b := by
  unfold offset32 distance32
  omega

/-- Two ranges of addresses meet only at the distance of their starts. -/
theorem distance32_le_of_offset32_eq {a b i j : Nat} (hij : i < j) (hj : j < 4294967296)
    (h : offset32 b i = offset32 a j) : distance32 a b ≤ j := by
  unfold offset32 distance32 at *
  omega

theorem distance32_pos {a b : Nat} (ha : a < 4294967296) (hb : b < 4294967296) (h : b ≠ a) :
    0 < distance32 a b := by
  unfold distance32
  omega

namespace Memory

/-! ## Filling -/

/-- `n` turns of a loop that stores `v` from `a` on. -/
def fillLoop (m : Memory) (a : Nat) (v : UInt8) : Nat → Memory
  | 0 => m
  | n + 1 => (m.fillLoop a v n).store8 (offset32 a n) v

variable {m : Memory} {a b d s n i : Nat} {v : UInt8}

theorem fillLoop_inside (hi : i < n) : m.fillLoop a v n (offset32 a i) = v := by
  induction n with
  | zero => exact absurd hi i.not_lt_zero
  | succ n ih =>
      by_cases he : offset32 a i = offset32 a n
      · rw [he]
        exact store8_eq_self ..
      · have hlt : i < n := by
          rcases Nat.lt_succ_iff_lt_or_eq.mp hi with hlt | rfl
          · exact hlt
          · exact absurd rfl he
        exact (store8_eq_of_ne he).trans (ih hlt)

/-! ## Copying -/

/-- `n` turns of a loop that copies the bytes from `s` on to `d`. -/
def copyLoop (m : Memory) (d s : Nat) : Nat → Memory
  | 0 => m
  | n + 1 => (m.copyLoop d s n).store8 (offset32 d n) (m.copyLoop d s n (offset32 s n))

theorem copyLoop_outside (h : ∀ i < n, b ≠ offset32 d i) : m.copyLoop d s n b = m b := by
  induction n with
  | zero => rfl
  | succ n ih =>
      have hlast : b ≠ offset32 d n := h n n.lt_succ_self
      have hbefore : ∀ i < n, b ≠ offset32 d i := fun i hi => h i (Nat.lt_succ_of_lt hi)
      exact (store8_eq_of_ne hlast).trans (ih hbefore)

/-- What arrives at byte `i` is what turn `i` finds at the source. -/
theorem copyLoop_at (hi : i < n) (hn : n ≤ 4294967296) :
    m.copyLoop d s n (offset32 d i) = m.copyLoop d s i (offset32 s i) := by
  induction n with
  | zero => exact absurd hi i.not_lt_zero
  | succ n ih =>
      rcases Nat.lt_succ_iff_lt_or_eq.mp hi with hlt | rfl
      · have hne : offset32 d i ≠ offset32 d n := by
          intro he
          exact absurd (offset32_inj (Nat.lt_of_lt_of_le hi hn) hn he) (Nat.ne_of_lt hlt)
        exact (store8_eq_of_ne hne).trans (ih hlt (Nat.le_of_succ_le hn))
      · exact store8_eq_self ..

/-- **A byte arrives as it was** if the destination does not start among the
bytes of the source before it. -/
theorem copyLoop_inside (hi : i < n) (hn : n ≤ 4294967296) (h : i < distance32 s d) :
    m.copyLoop d s n (offset32 d i) = m (offset32 s i) := by
  rw [copyLoop_at hi hn]
  apply copyLoop_outside
  intro j hj he
  have hle := distance32_le_of_offset32_eq hj (Nat.lt_of_lt_of_le hi hn) he.symm
  exact absurd hle (Nat.not_le.mpr h)

/-- The byte at which the destination starts has been overwritten with the first
one when its turn comes. -/
theorem copyLoop_reread (hd : d < 4294967296) (hs : s < 4294967296) (hne : d ≠ s)
    (h : distance32 s d < n) (hn : n ≤ 4294967296) :
    m.copyLoop d s n (offset32 d (distance32 s d)) = m s := by
  have hpos : 0 < distance32 s d := distance32_pos hs hd hne
  have hstart : offset32 s (distance32 s d) = offset32 d 0 := by
    rw [offset32_distance32 hs hd, offset32_zero hd]
  rw [copyLoop_at h hn, hstart, copyLoop_inside hpos (Nat.le_trans (Nat.le_of_lt h) hn) hpos,
    offset32_zero hs]

/-- **When a copy delivers its first `k` bytes**, whatever they are. -/
theorem copyLoop_delivers_iff {k : Nat} (hd : d < 4294967296) (hs : s < 4294967296) (hne : d ≠ s)
    (hn : n < 4294967296) :
    (∀ m : Memory, ∀ i < k, m.copyLoop d s n (offset32 d i) = m (offset32 s i)) ↔
      k ≤ n ∧ k ≤ distance32 s d := by
  constructor
  · intro h
    have hkn : k ≤ n := by
      by_contra hlt
      -- byte `n` of the source is the only 1, and the loop stops before it
      have hat := h (store8 (fun _ => 0) (offset32 s n) 1) n (Nat.lt_of_not_le hlt)
      have hsame : offset32 d n ≠ offset32 s n := by
        unfold offset32
        omega
      have hout : ∀ i < n, offset32 d n ≠ offset32 d i := by
        intro i hi he
        unfold offset32 at he
        omega
      rw [copyLoop_outside hout, store8_eq_self, store8_eq_of_ne hsame] at hat
      exact absurd hat (by decide)
    refine ⟨hkn, ?_⟩
    by_contra hlt
    -- byte 0 of the source is the only 1, and it arrives twice
    have hdk : distance32 s d < k := Nat.lt_of_not_le hlt
    have hat := h (store8 (fun _ => 0) s 1) (distance32 s d) hdk
    rw [copyLoop_reread hd hs hne (Nat.lt_of_lt_of_le hdk hkn) (Nat.le_of_lt hn), offset32_distance32 hs hd,
      store8_eq_self, store8_eq_of_ne hne] at hat
    exact absurd hat (by decide)
  · rintro ⟨hkn, hkd⟩ m i hi
    exact copyLoop_inside (Nat.lt_of_lt_of_le hi hkn) (Nat.le_of_lt hn) (Nat.lt_of_lt_of_le hi hkd)

end Memory

end KmOS
