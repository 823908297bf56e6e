/-
# `KmOS.Lib.Run` — runs of a partial step function

A component is driven by calls.  `step s a` is the state after the call `a`
made in `s`, and `none` when that call never comes back (or is not a call a
client may make in `s`).  `Reaches step ok s t` is a finite sequence of calls
from `s` to `t`, every one of them meeting the condition `ok` in the state in
which it is made.  An unconditional run takes `ok` to be `fun _ _ => True`.

The one rule every safety result of the development goes through is
`Reaches.invariant`: what holds at the start and survives each admitted call
holds in every state reached.  `Reaches.of_script` goes the other way: it
turns the evaluation of a list of calls into a run.

`foldlM_rel` runs two components side by side.
-/
import Mathlib.Logic.Basic

namespace KmOS

/-- A run from `s`: the calls are made one after another, each admitted by
`ok` and each returning. -/
inductive Reaches {σ α : Type} (step : σ → α → Option σ) (ok : σ → α → Prop) (s : σ) : σ → Prop
  | refl : Reaches step ok s s
  | tail {t u : σ} {a : α} :
      Reaches step ok s t → ok t a → step t a = some u → Reaches step ok s u

section
variable {σ α : Type} {step : σ → α → Option σ} {ok ok' : σ → α → Prop}

/-- **The invariant rule.** -/
theorem Reaches.invariant {I : σ → Prop} {s t : σ} (h0 : I s)
    (hstep : ∀ u a u', I u → ok u a → step u a = some u' → I u')
    (hr : Reaches step ok s t) : I t := by
  induction hr with
  | refl => exact h0
  | tail _ hok hs ih => exact hstep _ _ _ ih hok hs

/-- Weakening the admission condition keeps a run a run. -/
theorem Reaches.mono (hok : ∀ u a, ok u a → ok' u a) {s t : σ}
    (hr : Reaches step ok s t) : Reaches step ok' s t := by
  induction hr with
  | refl => exact .refl
  | tail _ h hs ih => exact .tail ih (hok _ _ h) hs

/-- A script that runs to a state with the property `p`, continued from a run. -/
theorem Reaches.of_script_from {p : σ → Bool} {s : σ} :
    ∀ (l : List α) (t : σ), Reaches step ok s t → (∀ u, ∀ a ∈ l, ok u a) →
      (l.foldlM step t).any p = true → ∃ u, Reaches step ok s u ∧ p u = true
  | [], t, hr, _, hp => ⟨t, hr, by simpa using hp⟩
  | a :: l, t, hr, hok, hp => by
      rw [List.foldlM_cons] at hp
      cases ht : step t a with
      | none =>
          rw [ht] at hp
          exact absurd hp (by simp)
      | some t' =>
          rw [ht] at hp
          have hr' : Reaches step ok s t' := hr.tail (hok t a List.mem_cons_self) ht
          exact Reaches.of_script_from l t' hr' (fun u b hb => hok u b (List.mem_cons_of_mem a hb)) hp

/-- **A concrete run**, by evaluating it. -/
theorem Reaches.of_script (step : σ → α → Option σ) (ok : σ → α → Prop) (s : σ) (p : σ → Bool)
    (l : List α) (hok : ∀ u, ∀ a ∈ l, ok u a)
    (hp : (l.foldlM step s).any p = true) : ∃ u, Reaches step ok s u ∧ p u = true :=
  Reaches.of_script_from l s .refl hok hp

/-- One call of a script, made only if it is admitted. -/
def checkedStep (step : σ → α → Option σ) (ok : σ → α → Prop) [∀ s a, Decidable (ok s a)]
    (s : σ) (a : α) : Option σ :=
  if ok s a then step s a else none

/-- A concrete run under a condition that can be evaluated. -/
theorem Reaches.of_checked_script (step : σ → α → Option σ) (ok : σ → α → Prop)
    [∀ s a, Decidable (ok s a)] (s : σ) (p : σ → Bool) (l : List α)
    (hp : (l.foldlM (checkedStep step ok) s).any p = true) :
    ∃ u, Reaches step ok s u ∧ p u = true := by
  obtain ⟨u, hr, hu⟩ := Reaches.of_script (checkedStep step ok) (fun _ _ => True) s p l
    (fun _ _ _ => True.intro) hp
  refine ⟨u, ?_, hu⟩
  clear hu
  induction hr with
  | refl => exact .refl
  | tail _ _ hs ih =>
      unfold checkedStep at hs
      split at hs
      · next hok => exact ih.tail hok hs
      · exact absurd hs (by simp)

end

/-- **Two step functions** that correspond, along one list of calls: both come back, in states
that correspond, or neither does. -/
theorem foldlM_rel {σ τ α : Type} {step : σ → α → Option σ} {step' : τ → α → Option τ}
    {R : σ → τ → Prop} {ok : α → Prop}
    (hstep : ∀ s t a, ok a → R s t → Option.Rel R (step s a) (step' t a)) {l : List α}
    (hl : ∀ a ∈ l, ok a) {s : σ} {t : τ} (h : R s t) :
    Option.Rel R (l.foldlM step s) (l.foldlM step' t) := by
  induction l generalizing s t with
  | nil => exact .some h
  | cons a l ih =>
      have hrest : ∀ a ∈ l, ok a := fun a ha => hl a (List.mem_cons_of_mem _ ha)
      have hrel := hstep s t a (hl a List.mem_cons_self) h
      rw [List.foldlM_cons, List.foldlM_cons]
      generalize step s a = x at hrel
      generalize step' t a = y at hrel
      cases hrel with
      | none => exact .none
      | some h' => exact ih hrest h'

end KmOS
