/-
# `KmOS.Lib.WriteLog` — memory that remembers where it was written

A claim that a program writes only here or there is about its writes, and not
about what the memory looks like afterwards: a byte may be written and not
change.  So a `LoggedMemory` keeps the addresses of all writes.  `Only` is the
claim, and every operation has a lemma that says what it adds to it.
-/
import Mathlib.Algebra.Ring.Nat
import Mathlib.Logic.Function.Basic
import Mathlib.Tactic.Common

namespace KmOS

/-- 32-bit memory, with the addresses written, the last one first. -/
structure LoggedMemory where
  bytes : UInt32 → UInt8
  written : List UInt32

namespace LoggedMemory

variable {m : LoggedMemory} {P : UInt32 → Prop} {a : UInt32}

def store (m : LoggedMemory) (a : UInt32) (v : UInt8) : LoggedMemory :=
  { bytes := Function.update m.bytes a v, written := a :: m.written }

@[simp] theorem store_bytes_self {v : UInt8} : (m.store a v).bytes a = v := Function.update_self ..

theorem store_bytes_of_ne {b : UInt32} {v : UInt8} (h : b ≠ a) :
    (m.store a v).bytes b = m.bytes b := Function.update_of_ne h ..

/-- All writes were to addresses in `P`. -/
def Only (m : LoggedMemory) (P : UInt32 → Prop) : Prop := ∀ a ∈ m.written, P a

instance [DecidablePred P] : Decidable (m.Only P) := List.decidableBAll P m.written

theorem only_store {v : UInt8} : (m.store a v).Only P ↔ P a ∧ m.Only P := List.forall_mem_cons

/-- `for (; n > 0; n--, i++) a[i] = v;`, where `v` may read the memory. -/
def storeRun (a : UInt32) (v : LoggedMemory → UInt32 → UInt8) :
    Nat → UInt32 → LoggedMemory → LoggedMemory
  | 0, _, m => m
  | n + 1, i, m => storeRun a v n (i + 1) (m.store (a + i) (v m i))

/-- The `j`-th address of the rest of a run. -/
theorem add_succ_ofNat (a i : UInt32) (j : Nat) :
    a + (i + 1) + UInt32.ofNat j = a + i + UInt32.ofNat (j + 1) := by
  rw [UInt32.ofNat_add, ← UInt32.add_assoc, UInt32.add_assoc, UInt32.add_comm 1]
  rfl

theorem only_storeRun {v : LoggedMemory → UInt32 → UInt8} {n : Nat} {i : UInt32} :
    (storeRun a v n i m).Only P ↔ m.Only P ∧ ∀ j < n, P (a + i + UInt32.ofNat j) := by
  induction n generalizing i m with
  | zero => exact ⟨fun h => ⟨h, nofun⟩, fun h => h.1⟩
  | succ n ih =>
      have hnext := add_succ_ofNat a i
      rw [storeRun, ih, only_store]
      constructor
      · rintro ⟨⟨hfirst, hm⟩, hrest⟩
        refine ⟨hm, fun j hj => ?_⟩
        cases j with
        | zero =>
            rw [show UInt32.ofNat 0 = 0 from rfl, UInt32.add_zero]
            exact hfirst
        | succ j =>
            rw [← hnext]
            exact hrest j (Nat.lt_of_succ_lt_succ hj)
      · rintro ⟨hm, hall⟩
        refine ⟨⟨?_, hm⟩, fun j hj => ?_⟩
        · have hfirst := hall 0 (Nat.succ_pos n)
          rwa [show UInt32.ofNat 0 = 0 from rfl, UInt32.add_zero] at hfirst
        · rw [hnext]
          exact hall (j + 1) (Nat.succ_lt_succ hj)

/-- A byte changes only where the log says so. -/
theorem storeRun_frame {v : LoggedMemory → UInt32 → UInt8} {n : Nat} {i b : UInt32}
    (hb : b ∉ (storeRun a v n i m).written) : (storeRun a v n i m).bytes b = m.bytes b := by
  induction n generalizing i m with
  | zero => rfl
  | succ n ih =>
      have hlog : (storeRun a v (n + 1) i m).Only (· ≠ b) := fun c hc e => hb (e ▸ hc)
      rw [storeRun, only_storeRun, only_store] at hlog
      exact (ih hb).trans (store_bytes_of_ne (Ne.symm hlog.1.1))

/-- … and nowhere but in the run. -/
theorem storeRun_outside {v : LoggedMemory → UInt32 → UInt8} {n : Nat} {i b : UInt32}
    (hb : ∀ j < n, b ≠ a + i + UInt32.ofNat j) : (storeRun a v n i m).bytes b = m.bytes b := by
  induction n generalizing i m with
  | zero => rfl
  | succ n ih =>
      have hfirst := hb 0 (Nat.succ_pos n)
      rw [show UInt32.ofNat 0 = 0 from rfl, UInt32.add_zero] at hfirst
      rw [storeRun, ih, store_bytes_of_ne hfirst]
      · intro j hj
        rw [add_succ_ofNat]
        exact hb (j + 1) (Nat.succ_lt_succ hj)

/-- **What a run stores**, if the values are the same whatever it has stored so far. -/
theorem storeRun_inside {v : LoggedMemory → UInt32 → UInt8} {w : Nat → UInt8} {n : Nat} {i : UInt32}
    (hn : n ≤ 4294967296)
    (hv : ∀ m' : LoggedMemory, (∀ b, (∀ j < n, b ≠ a + i + UInt32.ofNat j) → m'.bytes b = m.bytes b) →
      ∀ j < n, v m' (i + UInt32.ofNat j) = w j) {j : Nat} (hj : j < n) :
    (storeRun a v n i m).bytes (a + i + UInt32.ofNat j) = w j := by
  induction n generalizing i m w j with
  | zero => exact absurd hj (Nat.not_lt_zero j)
  | succ n ih =>
      have hzero := hv m (fun _ _ => rfl) 0 (Nat.succ_pos n)
      rw [show UInt32.ofNat 0 = 0 from rfl, UInt32.add_zero] at hzero
      rw [storeRun]
      cases j with
      | zero =>
          -- the rest of the run does not come back to the first address
          rw [show UInt32.ofNat 0 = 0 from rfl, UInt32.add_zero, storeRun_outside, store_bytes_self,
            hzero]
          intro j hj he
          rw [add_succ_ofNat] at he
          have hval : (UInt32.ofNat (j + 1)).toNat = 0 := by
            rw [UInt32.left_eq_add.mp he]
            rfl
          rw [UInt32.toNat_ofNat_of_lt' (Nat.lt_of_lt_of_le (Nat.succ_lt_succ hj) hn)] at hval
          exact Nat.succ_ne_zero j hval
      | succ j =>
          rw [← add_succ_ofNat]
          refine ih (w := fun j => w (j + 1)) (by omega) (fun m' hm' j hj => ?_)
            (Nat.lt_of_succ_lt_succ hj)
          have hstep := hv m' (fun b hb => ?_) (j + 1) (Nat.succ_lt_succ hj)
          · rwa [UInt32.ofNat_add, UInt32.add_comm (UInt32.ofNat j), ← UInt32.add_assoc] at hstep
          · have hfirst := hb 0 (Nat.succ_pos n)
            rw [show UInt32.ofNat 0 = 0 from rfl, UInt32.add_zero] at hfirst
            rw [hm', store_bytes_of_ne hfirst]
            intro k hk
            rw [add_succ_ofNat]
            exact hb (k + 1) (Nat.succ_lt_succ hk)

end LoggedMemory

/-- The addresses from `lo` on, before `hi`. -/
def Between (lo hi a : UInt32) : Prop := lo ≤ a ∧ a < hi

instance (lo hi : UInt32) : DecidablePred (Between lo hi) := by
  intro a
  unfold Between
  infer_instance

theorem toNat_add_ofNat {a : UInt32} {j : Nat} (h : a.toNat + j < 4294967296) :
    (a + UInt32.ofNat j).toNat = a.toNat + j := by
  have hsmall : j < UInt32.size := Nat.lt_of_le_of_lt (Nat.le_add_left j _) h
  rw [UInt32.toNat_add, UInt32.toNat_ofNat_of_lt' hsmall]
  exact Nat.mod_eq_of_lt h

/-- `n` addresses from `a` on lie between `lo` and `hi`: there are none, or they
end there, as numbers. -/
theorem run_between_iff {lo hi a : UInt32} {n : Nat} :
    (∀ j < n, Between lo hi (a + UInt32.ofNat j)) ↔
      n = 0 ∨ (lo ≤ a ∧ a.toNat + n ≤ hi.toNat) := by
  have hlt := hi.toNat_lt
  constructor
  · intro h
    rcases Nat.eq_zero_or_pos n with hn | hn
    · exact .inl hn
    · have hfirst := h 0 hn
      rw [show UInt32.ofNat 0 = 0 from rfl, UInt32.add_zero] at hfirst
      obtain ⟨hlo, hhi⟩ := hfirst
      rw [UInt32.lt_iff_toNat_lt] at hhi
      refine .inr ⟨hlo, Nat.le_of_not_lt fun hgt => ?_⟩
      -- the run goes on to `hi` itself
      have hstep := (h (hi.toNat - a.toNat) (by omega)).2
      rw [UInt32.lt_iff_toNat_lt, toNat_add_ofNat (by omega)] at hstep
      omega
  · rintro (rfl | ⟨hlo, hend⟩) j hj
    · exact absurd hj (Nat.not_lt_zero j)
    · have hval := toNat_add_ofNat (a := a) (j := j) (by omega)
      rw [UInt32.le_iff_toNat_le] at hlo
      refine ⟨UInt32.le_iff_toNat_le.mpr ?_, UInt32.lt_iff_toNat_lt.mpr ?_⟩
      · rw [hval]
        exact Nat.le_add_right_of_le hlo
      · rw [hval]
        omega

end KmOS
