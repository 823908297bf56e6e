/-
# `KmOS.Lib.Chain` — tails and rounds of linked lists

Two uses of linked lists beyond `KmOS.Lib.Dll` and `KmOS.Lib.Freelist`.

A list that grows at its end keeps a pointer to its last node, null when it is
empty: that is `l.getLastD null`.  `Sll.append` and `Dll.append` put a node
behind the last one, `Dll.getLastD_erase` says where the pointer goes when a
node is unlinked.

A scan that starts over at the head when the links end goes round the list.
`Walk adv a l b` is a walk from `a` to `b` over the nodes of `l`, and
`Sll.walk_round` is the round from any node back to itself.
-/
import KmOS.Lib.Dll
import KmOS.Lib.Freelist

namespace KmOS

variable {α : Type} {null : α} {next prev next' prev' : α → α}

/-- A doubly linked list is a singly linked one. -/
theorem Dll.sll {p h : α} {l : List α} (hl : Dll null next prev p h l) : Sll null next h l := by
  induction l generalizing p h with
  | nil => exact hl
  | cons a l ih =>
      obtain ⟨rfl, hne, _, ht⟩ := hl
      exact ⟨rfl, hne, ih ht⟩

/-! ## The last node -/

/-- **Appending** a node. -/
theorem Sll.append {h c a : α} {l : List α} (hl : Sll null next h (l ++ [c])) (ha : a ≠ null)
    (hn : next' a = null) (hc : next' c = a) (hag : ∀ b ∈ l, next' b = next b) :
    Sll null next' h ((l ++ [c]) ++ [a]) := by
  induction l generalizing h with
  | nil =>
      obtain ⟨rfl, hne, _⟩ := hl
      exact ⟨rfl, hne, hc, ha, hn⟩
  | cons b l ih =>
      obtain ⟨rfl, hne, ht⟩ := hl
      refine ⟨rfl, hne, ?_⟩
      rw [hag h List.mem_cons_self]
      exact ih ht (fun b hb => hag b (List.mem_cons_of_mem h hb))

/-- **Appending** a node. -/
theorem Dll.append {p h c a : α} {l : List α} (hl : Dll null next prev p h (l ++ [c]))
    (ha : a ≠ null) (hn : next' a = null) (hp : prev' a = c) (hc : next' c = a)
    (hag : ∀ b ∈ l, next' b = next b) (hag' : ∀ b ∈ l ++ [c], prev' b = prev b) :
    Dll null next' prev' p h ((l ++ [c]) ++ [a]) := by
  induction l generalizing p h with
  | nil =>
      obtain ⟨rfl, hne, hph, _⟩ := hl
      exact ⟨rfl, hne, (hag' h List.mem_cons_self).trans hph, hc, ha, hp, hn⟩
  | cons b l ih =>
      obtain ⟨rfl, hne, hph, ht⟩ := hl
      refine ⟨rfl, hne, (hag' h List.mem_cons_self).trans hph, ?_⟩
      rw [hag h List.mem_cons_self]
      exact ih ht (fun b hb => hag b (List.mem_cons_of_mem h hb))
        (fun b hb => hag' b (List.mem_cons_of_mem h hb))

/-- The last node of a list that has lost one. -/
theorem Dll.getLastD_erase [DecidableEq α] {p h a : α} {l : List α}
    (hl : Dll null next prev p h l) (ha : a ∈ l) :
    (l.erase a).getLastD p = if next a = null then prev a else l.getLastD p := by
  induction l generalizing p h with
  | nil => exact nomatch ha
  | cons b l ih =>
      obtain ⟨rfl, _, hp, ht⟩ := hl
      by_cases e : h = a
      · subst e
        rw [List.erase_cons_head]
        cases l with
        | nil => exact ((if_pos (show next h = null from ht)).trans hp).symm
        | cons c l =>
            obtain ⟨hc, hne, _⟩ := ht
            rw [if_neg (fun e => hne (hc ▸ e))]
            simp only [List.getLastD_cons]
      · rw [List.erase_cons_tail (by simpa using e), List.getLastD_cons, List.getLastD_cons]
        exact ih ht ((List.mem_cons.mp ha).resolve_left (Ne.symm e))

/-- The last node is the one that leads nowhere. -/
theorem Dll.next_eq_null_iff {p h a : α} {l : List α} (hl : Dll null next prev p h l)
    (hnd : l.Nodup) (ha : a ∈ l) : next a = null ↔ a = l.getLastD p := by
  induction l generalizing p h with
  | nil => exact nomatch ha
  | cons b l ih =>
      obtain ⟨rfl, _, _, ht⟩ := hl
      obtain ⟨hhl, hndl⟩ := List.nodup_cons.mp hnd
      rw [List.getLastD_cons]
      rcases List.mem_cons.mp ha with rfl | hal
      · cases l with
        | nil => exact ⟨fun _ => rfl, fun _ => ht⟩
        | cons c l =>
            have hlast : (c :: l).getLastD a ∈ c :: l := by
              rw [List.getLastD_eq_getLast?, List.getLast?_eq_some_getLast (List.cons_ne_nil c l)]
              exact List.getLast_mem (List.cons_ne_nil c l)
            refine ⟨fun hz => absurd (ht.head_eq_null_iff.mp hz) (List.cons_ne_nil c l), fun he => ?_⟩
            exact absurd (he ▸ hlast) hhl
      · exact ih ht hndl hal

/-! ## Going round -/

/-- Following `adv` from `a` meets the nodes of `l`, and then `b`. -/
def Walk (adv : α → α) : α → List α → α → Prop
  | a, [], b => adv a = b
  | a, c :: l, b => adv a = c ∧ Walk adv c l b

variable {adv : α → α}

theorem Walk.append {a b c : α} {l k : List α} (h₁ : Walk adv a l c) (h₂ : Walk adv c k b) :
    Walk adv a (l ++ c :: k) b := by
  induction l generalizing a with
  | nil => exact ⟨h₁, h₂⟩
  | cons d l ih => exact ⟨h₁.1, ih h₁.2⟩

/-- From a node to a later one. -/
theorem Sll.walk_to {h a c : α} {l₁ l₂ : List α} (hl : Sll null next h (a :: l₁ ++ c :: l₂))
    (hadv : ∀ b, next b ≠ null → adv b = next b) : Walk adv a l₁ c := by
  induction l₁ generalizing h a with
  | nil =>
      obtain ⟨rfl, _, hc, hne, _⟩ := hl
      exact (hadv h (hc ▸ hne)).trans hc
  | cons b l₁ ih =>
      obtain ⟨rfl, _, hb, hne, ht⟩ := hl
      exact ⟨(hadv h (hb ▸ hne)).trans hb, ih (h := b) ⟨rfl, hne, ht⟩⟩

/-- From a node past the end and on to `b`, if the scan goes there when the
links end. -/
theorem Sll.walk_end {a b : α} {l : List α} (hl : Sll null next (next a) l)
    (hadv : ∀ c, next c ≠ null → adv c = next c) (hend : ∀ c, next c = null → adv c = b) :
    Walk adv a l b := by
  induction l generalizing a with
  | nil => exact hend a hl
  | cons c l ih =>
      obtain ⟨hc, hne, ht⟩ := hl
      exact ⟨(hadv a (hc ▸ hne)).trans hc, ih ht⟩

/-- **The round** from a node back to itself. -/
theorem Sll.walk_round {h c : α} {l₁ l₂ : List α} (hl : Sll null next h (l₁ ++ c :: l₂))
    (hadv : ∀ b, next b ≠ null → adv b = next b) (hend : ∀ b, next b = null → adv b = h) :
    Walk adv c (l₂ ++ l₁) c := by
  have hdrop : Walk adv c l₂ h := hl.drop.walk_end hadv hend
  cases l₁ with
  | nil =>
      rw [List.append_nil]
      obtain ⟨rfl, _⟩ := hl
      exact hdrop
  | cons a l₁ =>
      obtain ⟨rfl, _⟩ := id hl
      exact hdrop.append (hl.walk_to hadv)

end KmOS
