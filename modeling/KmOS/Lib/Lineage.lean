/-
# `KmOS.Lib.Lineage` — who is left of a family

Members come one by one, each with a parent among those that are there or without one,
and leave in any order.  A member whose parent leaves gets the parent of that one.  So the
parent is always the nearest ancestor that is still there (`Lineage.parent`).

The members stand in the order in which they came, and `rank` counts them: an ancestor has
the lower rank, which is why nobody is his own ancestor.
-/
import Mathlib.Data.List.Pairwise
import Mathlib.Logic.Function.Basic

namespace KmOS

variable {α : Type}

/-- `anc x` are the ancestors of `x` that are still there, the nearest first. -/
structure Lineage (order : List α) (rank : α → Nat) (anc : α → List α) (parent : α → Option α) :
    Prop where
  sorted : order.Pairwise fun x y => rank x < rank y
  parent : ∀ x ∈ order, parent x = (anc x).head?
  up : ∀ x ∈ order, ∀ y rest, anc x = y :: rest → y ∈ order ∧ anc y = rest ∧ rank y < rank x

namespace Lineage

variable {order : List α} {rank : α → Nat} {anc anc' : α → List α}
  {parent parent' : α → Option α} {x y z v : α}

theorem empty : Lineage [] rank anc parent :=
  ⟨.nil, List.forall_mem_nil _, List.forall_mem_nil _⟩

theorem nodup (h : Lineage order rank anc parent) : order.Nodup := by
  refine h.sorted.imp ?_
  rintro x _ hlt rfl
  exact Nat.lt_irrefl _ hlt

theorem congr (h : Lineage order rank anc parent) (hag : ∀ x ∈ order, parent' x = parent x) :
    Lineage order rank anc parent' :=
  ⟨h.sorted, fun x hx => (hag x hx).trans (h.parent x hx), h.up⟩

theorem congr_anc (h : Lineage order rank anc parent) (hag : ∀ x ∈ order, anc' x = anc x) :
    Lineage order rank anc' parent := by
  refine ⟨h.sorted, fun x hx => ?_, fun x hx y rest hl => ?_⟩
  · rw [hag x hx]
    exact h.parent x hx
  · rw [hag x hx] at hl
    obtain ⟨hy, hrest, hlt⟩ := h.up x hx y rest hl
    exact ⟨hy, (hag y hy).trans hrest, hlt⟩

/-- There is a rank for the next. -/
theorem exists_above (order : List α) (rank : α → Nat) : ∃ n, ∀ x ∈ order, rank x < n := by
  induction order with
  | nil => exact ⟨0, List.forall_mem_nil _⟩
  | cons y order ih =>
      obtain ⟨n, hn⟩ := ih
      refine ⟨rank y + n + 1, fun x hx => ?_⟩
      rcases List.mem_cons.mp hx with rfl | hx
      · omega
      · have := hn x hx
        omega

/-- **Ancestors are there**, and came before. -/
theorem mem_anc (h : Lineage order rank anc parent) (hx : x ∈ order) (hz : z ∈ anc x) :
    z ∈ order ∧ rank z < rank x := by
  induction hl : anc x generalizing x with
  | nil =>
      rw [hl] at hz
      cases hz
  | cons y rest ih =>
      obtain ⟨hy, hrest, hlt⟩ := h.up x hx y rest hl
      rw [hl] at hz
      cases hz with
      | head => exact ⟨hy, hlt⟩
      | tail _ hz =>
          rw [← hrest] at hz
          obtain ⟨hmem, hlt'⟩ := ih hy hz hrest
          exact ⟨hmem, Nat.lt_trans hlt' hlt⟩

/-- Nobody is his own ancestor. -/
theorem notMem_anc (h : Lineage order rank anc parent) (hx : x ∈ order) : x ∉ anc x := fun hz =>
  Nat.lt_irrefl _ (h.mem_anc hx hz).2

variable [DecidableEq α]

/-- **One leaves**, and whoever had him for a parent gets his. -/
theorem remove (h : Lineage order rank anc parent) (hv : v ∈ order)
    (hparent : ∀ x ∈ order, x ≠ v →
      parent' x = if parent x = some v then parent v else parent x) :
    Lineage (order.filter (· ≠ v)) rank (fun x => (anc x).filter (· ≠ v)) parent' := by
  have hself : ∀ l : List α, v ∉ l → l.filter (· ≠ v) = l := by
    intro l hl
    refine List.filter_eq_self.mpr fun z hz => decide_eq_true ?_
    rintro rfl
    exact hl hz
  refine ⟨h.sorted.filter _, fun x hx => ?_, fun x hx y rest hl => ?_⟩
  · obtain ⟨hxo, hxv⟩ := List.mem_filter.mp hx
    rw [hparent x hxo (of_decide_eq_true hxv), h.parent x hxo, h.parent v hv]
    cases hl : anc x with
    | nil => rfl
    | cons y rest =>
        rw [List.head?_cons]
        by_cases hy : y = v
        · subst hy
          rw [if_pos rfl, List.filter_cons_of_neg (by simp), ← (h.up x hxo y rest hl).2.1,
            hself _ (h.notMem_anc hv)]
        · rw [if_neg (fun e => hy (Option.some.inj e)), List.filter_cons_of_pos (by simpa using hy)]
          rfl
  · obtain ⟨hxo, -⟩ := List.mem_filter.mp hx
    have hmem : y ∈ (anc x).filter (· ≠ v) := hl ▸ List.mem_cons_self
    obtain ⟨hyx, hyv⟩ := List.mem_filter.mp hmem
    obtain ⟨hyo, hlt⟩ := h.mem_anc hxo hyx
    refine ⟨List.mem_filter.mpr ⟨hyo, hyv⟩, ?_, hlt⟩
    cases hanc : anc x with
    | nil =>
        rw [hanc] at hl
        cases hl
    | cons z r =>
        obtain ⟨hz, hr, -⟩ := h.up x hxo z r hanc
        rw [hanc] at hl
        by_cases hzv : z = v
        · -- the parent leaves, and the next ancestor takes his place
          subst hzv
          have hrself : r.filter (· ≠ z) = r := hself r (hr ▸ h.notMem_anc hv)
          rw [List.filter_cons_of_neg (by simp), hrself] at hl
          rw [(h.up z hv y rest (hr.trans hl)).2.1]
          rw [hl, List.filter_cons] at hrself
          split at hrself
          · exact (List.cons.inj hrself).2
          · exact absurd hyv ‹_›
        · rw [List.filter_cons_of_pos (by simpa using hzv)] at hl
          obtain ⟨rfl, hrest⟩ := List.cons.inj hl
          rw [hr, hrest]

/-- **One comes**, with a parent that is there, or without one. -/
theorem add (h : Lineage order rank anc parent) (hv : v ∉ order) {o : Option α}
    (ho : ∀ y, o = some y → y ∈ order) (hparent : ∀ x ∈ order, parent' x = parent x)
    (hnew : parent' v = o) :
    ∃ rank', Lineage (order ++ [v]) rank'
      (Function.update anc v (o.elim [] fun y => y :: anc y)) parent' := by
  obtain ⟨n, hn⟩ := exists_above order rank
  have hne : ∀ x ∈ order, x ≠ v := fun x hx e => hv (e ▸ hx)
  refine ⟨Function.update rank v n, ?_, fun x hx => ?_, fun x hx y rest hl => ?_⟩
  · rw [List.pairwise_append]
    refine ⟨h.sorted.imp_of_mem fun hx hy hlt => ?_, List.pairwise_singleton .., fun x hx y hy => ?_⟩
    · rwa [Function.update_of_ne (hne _ hx), Function.update_of_ne (hne _ hy)]
    · rw [List.mem_singleton.mp hy, Function.update_self, Function.update_of_ne (hne x hx)]
      exact hn x hx
  · rcases List.mem_append.mp hx with hx | hx
    · rw [Function.update_of_ne (hne x hx), hparent x hx, h.parent x hx]
    · rw [List.mem_singleton.mp hx, Function.update_self, hnew]
      cases o with
      | none => rfl
      | some y => rfl
  · rcases List.mem_append.mp hx with hx | hx
    · rw [Function.update_of_ne (hne x hx)] at hl
      obtain ⟨hy, hrest, hlt⟩ := h.up x hx y rest hl
      refine ⟨List.mem_append_left _ hy, ?_, ?_⟩
      · rw [Function.update_of_ne (hne y hy), hrest]
      · rwa [Function.update_of_ne (hne y hy), Function.update_of_ne (hne x hx)]
    · rw [List.mem_singleton.mp hx] at hl ⊢
      rw [Function.update_self] at hl ⊢
      cases o with
      | none => cases hl
      | some z =>
          obtain ⟨rfl, rfl⟩ := List.cons.inj hl
          have hz := ho z rfl
          refine ⟨List.mem_append_left _ hz, Function.update_of_ne (hne z hz) .., ?_⟩
          rw [Function.update_of_ne (hne z hz)]
          exact hn z hz

end Lineage

end KmOS
