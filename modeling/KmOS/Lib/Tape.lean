/-
# `KmOS.Lib.Tape` — answers that are given in advance

What a device answers to the requests of a run can be given as a tape, one
answer for each request, of which `true` is success; behind the end of the tape
all requests succeed.  A run that makes its requests in a fixed order may need
some of them to succeed and not others.  `Supplied needs tape` says that the tape
gives it all that it needs.
-/
import Mathlib.Data.List.Basic

namespace KmOS

/-- Where `needs` says so, the tape says yes. -/
def Supplied (needs tape : List Bool) : Prop :=
  ∀ i, needs.getD i false = true → tape.getD i true = true

theorem supplied_nil (tape : List Bool) : Supplied [] tape := fun _ h => nomatch h

theorem supplied_empty (needs : List Bool) : Supplied needs [] := fun _ _ => rfl

theorem getD_tail (tape : List Bool) (i : Nat) : tape.tail.getD i true = tape.getD (i + 1) true := by
  cases tape <;> rfl

theorem getD_zero (tape : List Bool) : tape.getD 0 true = tape.headD true := by
  cases tape <;> rfl

/-- The first request, and the others. -/
theorem supplied_cons_iff {need : Bool} {needs tape : List Bool} :
    Supplied (need :: needs) tape ↔
      (need = true → tape.headD true = true) ∧ Supplied needs tape.tail := by
  constructor
  · intro h
    refine ⟨fun hneed => ?_, fun i hi => ?_⟩
    · rw [← getD_zero]
      exact h 0 hneed
    · rw [getD_tail]
      exact h (i + 1) hi
  · rintro ⟨h0, h⟩ i hi
    cases i with
    | zero =>
        rw [getD_zero]
        exact h0 hi
    | succ i =>
        rw [← getD_tail]
        exact h i hi

/-- One run after another. -/
theorem supplied_append_iff {needs needs' tape : List Bool} :
    Supplied (needs ++ needs') tape ↔
      Supplied needs tape ∧ Supplied needs' (tape.drop needs.length) := by
  induction needs generalizing tape with
  | nil => exact ⟨fun h => ⟨supplied_nil tape, h⟩, fun h => h.2⟩
  | cons need needs ih =>
      rw [List.cons_append, supplied_cons_iff, supplied_cons_iff, ih, and_assoc, List.length_cons,
        List.drop_tail]

end KmOS
