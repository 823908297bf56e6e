/-
# `KmOS.Lib.Fuel` — calls that come back

A function whose recursion the source does not bound takes the number of turns
it may make, and answers `none` when they do not suffice.  It comes back when
some number suffices (`Ends`).  A loop never does when an invariant leads every
turn to another one (`not_ends_of_invariant`).
-/
import Mathlib.Logic.Basic

namespace KmOS

/-- Some number of turns suffices. -/
def Ends {ρ : Type} (call : Nat → Option ρ) : Prop := ∃ fuel r, call fuel = some r

section
variable {σ ρ : Type} {call call' : Nat → Option ρ}

theorem not_ends_iff : ¬ Ends call ↔ ∀ fuel, call fuel = none := by
  constructor
  · intro h fuel
    exact Option.eq_none_iff_forall_ne_some.mpr (fun r e => h ⟨fuel, r, e⟩)
  · rintro h ⟨fuel, r, e⟩
    exact nomatch (h fuel).symm.trans e

/-- **The rule for a loop that goes on**: a turn in a state of `I` is followed
by the loop from another state of `I`. -/
theorem not_ends_of_invariant {loop : Nat → σ → Option ρ} (I : σ → Prop)
    (zero : ∀ s, loop 0 s = none)
    (turn : ∀ fuel s, I s → ∃ t, I t ∧ loop (fuel + 1) s = loop fuel t) {s : σ} (hs : I s) :
    ¬ Ends (loop · s) := by
  rw [not_ends_iff]
  intro fuel
  induction fuel generalizing s with
  | zero => exact zero s
  | succ fuel ih =>
      obtain ⟨t, ht, he⟩ := turn fuel s hs
      exact he.trans (ih ht)

end

end KmOS
