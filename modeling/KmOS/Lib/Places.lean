/-
# `KmOS.Lib.Places` — the places of a graph with names

In a graph whose edges have names, a list of names leads from the root to one place at
most (`placed`).  Two graphs whose edges agree have the same at each place
(`placed_rel`), and a graph that grows keeps its places (`placed_mono`).
-/
import Mathlib.Data.List.Forall2
import Mathlib.Data.Option.Defs

namespace KmOS

section
variable {α β L : Type} {child child' : α → L → Option α} {root : α} {child₂ : β → L → Option β}
  {root₂ : β} {c : L} {l : List L}

/-- What a list of names leads to, the last name first. -/
def placed (child : α → L → Option α) (root : α) : List L → Option α
  | [] => some root
  | c :: l => (placed child root l).bind fun a => child a c

theorem placed_cons {a : α} (h : placed child root l = some a) :
    placed child root (c :: l) = child a c := by
  show (placed child root l).bind _ = _
  rw [h, Option.bind_some]

theorem placed_cons_some {b : α} (h : placed child root (c :: l) = some b) :
    ∃ a, placed child root l = some a ∧ child a c = some b :=
  Option.bind_eq_some_iff.mp h

/-- What holds at the root and goes along the edges. -/
theorem placed_induct {P : α → Prop} (hroot : P root)
    (hchild : ∀ a c b, P a → child a c = some b → P b) {b : α} (h : placed child root l = some b) :
    P b := by
  induction l generalizing b with
  | nil =>
      cases h
      exact hroot
  | cons c l ih =>
      obtain ⟨a, ha, hb⟩ := placed_cons_some h
      exact hchild a c b (ih ha) hb

/-- **Two graphs**: what is at a place of the first one is there in the second one. -/
theorem placed_rel {R : α → β → Prop} (hroot : R root root₂)
    (hchild : ∀ a x c b, R a x → child a c = some b → ∃ y, child₂ x c = some y ∧ R b y) {b : α}
    (h : placed child root l = some b) : ∃ y, placed child₂ root₂ l = some y ∧ R b y := by
  induction l generalizing b with
  | nil =>
      cases h
      exact ⟨root₂, rfl, hroot⟩
  | cons c l ih =>
      obtain ⟨a, ha, hb⟩ := placed_cons_some h
      obtain ⟨x, hx, hax⟩ := ih ha
      rw [placed_cons hx]
      exact hchild a x c b hax hb

/-- **Growing** keeps what there is. -/
theorem placed_mono {P : α → Prop} (hroot : P root)
    (hchild : ∀ a c b, P a → child a c = some b → P b ∧ child' a c = some b) {b : α}
    (h : placed child root l = some b) : placed child' root l = some b := by
  obtain ⟨y, hy, rfl, -⟩ := placed_rel (R := fun a x => a = x ∧ P a) ⟨rfl, hroot⟩
    (fun a x c b h hb => by
      obtain ⟨rfl, ha⟩ := h
      obtain ⟨hb', hchild'⟩ := hchild a c b ha hb
      exact ⟨b, hchild', rfl, hb'⟩) h
  exact hy

end

/-- Searching two lists that correspond. -/
theorem find?_rel {α β : Type} {R : α → β → Prop} {p : α → Bool} {q : β → Bool} {l : List α}
    {l' : List β} (h : List.Forall₂ R l l') (hpq : ∀ a b, R a b → p a = q b) :
    Option.Rel R (l.find? p) (l'.find? q) := by
  induction h with
  | nil => exact .none
  | @cons a b l l' hab _ ih =>
      rw [List.find?_cons, List.find?_cons, ← hpq a b hab]
      cases p a with
      | true => exact .some hab
      | false => exact ih

end KmOS
