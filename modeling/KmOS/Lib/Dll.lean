/-
# `KmOS.Lib.Dll` — null-terminated doubly linked lists

The nodes of a list carry a `next` and a `prev` link, and a head pointer names
the first of them.  `Dll null next prev p h l` says that, starting from the
head `h` and with `p` standing before it, the nodes met are exactly those of
`l`, in order, and that every `prev` link points back at the node before.

Allocators edit such lists in three ways: a node is pushed at the head
(`Dll.push`), put in behind another (`Dll.insert`), or unlinked wherever it
stands (`Dll.unlink`).
`Dll.congr` moves a list to links that agree on its nodes.
-/
import Mathlib.Data.List.Nodup
import Mathlib.Logic.Function.Basic

namespace KmOS

variable {α : Type} {null : α} {next prev next' prev' : α → α}

/-- The nodes `l`, reached from `h`, with `p` before the first of them. -/
def Dll (null : α) (next prev : α → α) : α → α → List α → Prop
  | _, h, [] => h = null
  | p, h, a :: l => h = a ∧ a ≠ null ∧ prev a = p ∧ Dll null next prev a (next a) l

namespace Dll

/-- The head pointer of an empty list is null, and only of that. -/
theorem head_eq_null_iff {p h : α} {l : List α} (hl : Dll null next prev p h l) :
    h = null ↔ l = [] := by
  cases l with
  | nil => exact ⟨fun _ => rfl, fun _ => hl⟩
  | cons a l =>
      obtain ⟨rfl, hne, _⟩ := hl
      exact ⟨fun h => absurd h hne, fun h => nomatch h⟩

/-- The head pointer, from the nodes. -/
theorem head_eq {p h : α} {l : List α} (hl : Dll null next prev p h l) : h = l.headD null := by
  cases l with
  | nil => exact hl
  | cons a l => exact hl.1

/-- A head pointer that is not null names the first node. -/
theorem exists_cons {p h : α} {l : List α} (hl : Dll null next prev p h l) (hh : h ≠ null) :
    ∃ t, l = h :: t := by
  cases l with
  | nil => exact absurd hl hh
  | cons a l => exact ⟨l, by rw [hl.1]⟩

/-- What stands before the first node. -/
theorem prev_head {p h : α} {l : List α} (hl : Dll null next prev p h l) (hh : h ≠ null) :
    prev h = p := by
  obtain ⟨t, rfl⟩ := hl.exists_cons hh
  exact hl.2.2.1

theorem ne_null {p h : α} {l : List α} (hl : Dll null next prev p h l) : ∀ a ∈ l, a ≠ null := by
  induction l generalizing p h with
  | nil => intro a ha; exact nomatch ha
  | cons b l ih =>
      obtain ⟨rfl, hne, _, ht⟩ := hl
      intro a ha
      rcases List.mem_cons.mp ha with rfl | ha
      · exact hne
      · exact ih ht a ha

/-- A list reads only the links of its own nodes. -/
theorem congr {p h : α} {l : List α} (hl : Dll null next prev p h l)
    (hag : ∀ a ∈ l, next' a = next a ∧ prev' a = prev a) : Dll null next' prev' p h l := by
  induction l generalizing p h with
  | nil => exact hl
  | cons a l ih =>
      obtain ⟨rfl, hne, hp, ht⟩ := hl
      obtain ⟨hn', hp'⟩ := hag h List.mem_cons_self
      refine ⟨rfl, hne, hp'.trans hp, ?_⟩
      rw [hn']
      exact ih ht (fun b hb => hag b (List.mem_cons_of_mem h hb))

/-- The node before a list may be replaced, if the first node is told. -/
theorem change_prev {p q h : α} {l : List α} (hl : Dll null next prev p h l) (hnd : l.Nodup)
    (hag : ∀ a ∈ l, next' a = next a ∧ (a ≠ h → prev' a = prev a)) (hq : h ≠ null → prev' h = q) :
    Dll null next' prev' q h l := by
  cases l with
  | nil => exact hl
  | cons a l =>
      obtain ⟨rfl, hne, hp, ht⟩ := hl
      have hout : h ∉ l := (List.nodup_cons.mp hnd).1
      refine ⟨rfl, hne, hq hne, ?_⟩
      rw [(hag h List.mem_cons_self).1]
      refine ht.congr (fun b hb => ?_)
      have hb' := hag b (List.mem_cons_of_mem h hb)
      exact ⟨hb'.1, hb'.2 (fun e => hout (e ▸ hb))⟩

/-- **Pushing** a node. -/
theorem push {h a : α} {l : List α} (hl : Dll null next prev null h l) (hnd : l.Nodup)
    (ha : a ≠ null) (hn : next' a = h) (hp : prev' a = null)
    (hh : h ≠ null → prev' h = a)
    (hag : ∀ b ∈ l, next' b = next b ∧ (b ≠ h → prev' b = prev b)) :
    Dll null next' prev' null a (a :: l) := by
  refine ⟨rfl, ha, hp, ?_⟩
  rw [hn]
  exact hl.change_prev hnd hag hh

/-- Inside a list, `next a` is null or a later node. -/
theorem next_mem {p h a : α} {l : List α} (hl : Dll null next prev p h l) (ha : a ∈ l) :
    next a = null ∨ next a ∈ l := by
  induction l generalizing p h with
  | nil => exact nomatch ha
  | cons b l ih =>
      obtain ⟨rfl, _, _, ht⟩ := hl
      rcases List.mem_cons.mp ha with rfl | ha
      · cases l with
        | nil => exact Or.inl ht
        | cons c l => exact Or.inr (by rw [ht.1]; simp)
      · exact (ih ht ha).imp id (List.mem_cons_of_mem h)

/-- The part of a list behind one of its nodes. -/
theorem drop {p h c : α} {l₁ l₂ : List α} (hl : Dll null next prev p h (l₁ ++ c :: l₂)) :
    Dll null next prev c (next c) l₂ := by
  induction l₁ generalizing p h with
  | nil => exact hl.1 ▸ hl.2.2.2
  | cons d l ih => exact ih hl.2.2.2

/-- The links after `a` has been put in behind `c`: `c` leads to it, what
followed `c` points back at it, and nothing else moves. -/
structure Inserted (null : α) (next prev next' prev' : α → α) (c a : α) (l : List α) : Prop where
  next_new : next' a = next c
  prev_new : prev' a = c
  next_before : next' c = a
  next_other : ∀ b ∈ l, b ≠ c → next' b = next b
  prev_after : next c ≠ null → prev' (next c) = a
  prev_other : ∀ b ∈ l, b ≠ next c → prev' b = prev b

/-- **Inserting** a node behind `c`. -/
theorem insert {p h c a : α} {l₁ l₂ : List α} (hl : Dll null next prev p h (l₁ ++ c :: l₂))
    (hnd : (l₁ ++ c :: l₂).Nodup) (ha : a ≠ null)
    (i : Inserted null next prev next' prev' c a (l₁ ++ c :: l₂)) :
    Dll null next' prev' p h (l₁ ++ c :: a :: l₂) := by
  induction l₁ generalizing p h with
  | nil =>
      obtain ⟨rfl, hne, hp, ht⟩ := hl
      obtain ⟨hhl, hndl⟩ := List.nodup_cons.mp hnd
      have hself : h ≠ next h := by
        intro e
        cases l₂ with
        | nil => exact hne (e.trans ht)
        | cons d l => exact hhl (by rw [e, ht.1]; simp)
      refine ⟨rfl, hne, (i.prev_other h List.mem_cons_self hself).trans hp, i.next_before, ha,
        i.prev_new, ?_⟩
      rw [i.next_new]
      refine ht.change_prev hndl (fun b hb => ?_) i.prev_after
      exact ⟨i.next_other b (List.mem_cons_of_mem h hb) (fun e => hhl (e ▸ hb)),
        i.prev_other b (List.mem_cons_of_mem h hb)⟩
  | cons d l ih =>
      obtain ⟨rfl, hne, hp, ht⟩ := hl
      obtain ⟨hhl, hndl⟩ := List.nodup_cons.mp hnd
      have hhc : h ≠ c := fun e => hhl (by rw [e]; simp)
      have hhn : h ≠ next c := by
        intro e
        rcases next_mem ht (List.mem_append_right l List.mem_cons_self) with hz | hm
        · exact hne (e.trans hz)
        · exact hhl (e ▸ hm)
      refine ⟨rfl, hne, (i.prev_other h List.mem_cons_self hhn).trans hp, ?_⟩
      have hnext : next' h = next h := i.next_other h List.mem_cons_self hhc
      rw [List.append_eq, hnext]
      exact ih ht hndl
        { next_new := i.next_new
          prev_new := i.prev_new
          next_before := i.next_before
          next_other := fun b hb => i.next_other b (List.mem_cons_of_mem h hb)
          prev_after := i.prev_after
          prev_other := fun b hb => i.prev_other b (List.mem_cons_of_mem h hb) }

/-- The links after `a` has been taken out: the node before it skips it, the
node after it points back past it, and nothing else moves. -/
structure Unlinked (null : α) (next prev next' prev' : α → α) (a : α) (l : List α) : Prop where
  next_before : prev a ≠ null → next' (prev a) = next a
  next_other : ∀ b ∈ l, b ≠ prev a → next' b = next b
  prev_after : next a ≠ null → prev' (next a) = prev a
  prev_other : ∀ b ∈ l, b ≠ next a → prev' b = prev b

theorem Unlinked.tail {a b : α} {l : List α} (u : Unlinked null next prev next' prev' a (b :: l)) :
    Unlinked null next prev next' prev' a l where
  next_before := u.next_before
  next_other := fun c hc => u.next_other c (List.mem_cons_of_mem b hc)
  prev_after := u.prev_after
  prev_other := fun c hc => u.prev_other c (List.mem_cons_of_mem b hc)

/-- Inside a list, `prev a` is what stands before it: `p` for the first node,
another node for every other. -/
theorem prev_mem {p h a : α} {l : List α} (hl : Dll null next prev p h l) (ha : a ∈ l) :
    (a = h ∧ prev a = p) ∨ prev a ∈ l := by
  induction l generalizing p h with
  | nil => exact nomatch ha
  | cons b l ih =>
      obtain ⟨rfl, _, hp, ht⟩ := hl
      rcases List.mem_cons.mp ha with rfl | ha
      · exact Or.inl ⟨rfl, hp⟩
      · rcases ih ht ha with ⟨_, hb⟩ | hm
        · exact Or.inr (by rw [hb]; simp)
        · exact Or.inr (List.mem_cons_of_mem h hm)

/-- No node stands before itself. -/
theorem prev_ne {p h a : α} {l : List α} (hl : Dll null next prev p h l) (hnd : l.Nodup)
    (ha : a ∈ l) (hp : a ≠ p) : prev a ≠ a := by
  induction l generalizing p h with
  | nil => exact nomatch ha
  | cons b l ih =>
      obtain ⟨rfl, _, hpb, ht⟩ := hl
      obtain ⟨hbl, hndl⟩ := List.nodup_cons.mp hnd
      rcases List.mem_cons.mp ha with rfl | ha
      · exact fun e => hp (e.symm.trans hpb)
      · exact ih ht hndl ha (fun e => hbl (e ▸ ha))

/-- **Unlinking** a node, from a list preceded by `p`. -/
theorem unlink_from [DecidableEq α] {p h a : α} {l : List α} (hl : Dll null next prev p h l) (hnd : l.Nodup)
    (hpl : p ∉ l) (ha : a ∈ l) (u : Unlinked null next prev next' prev' a l) :
    Dll null next' prev' p (if a = h then next a else h) (l.erase a) := by
  induction l generalizing p h with
  | nil => exact nomatch ha
  | cons b l ih =>
      obtain ⟨rfl, hne, hp, ht⟩ := hl
      obtain ⟨hbl, hndl⟩ := List.nodup_cons.mp hnd
      have hp_ne : p ≠ h := fun e => hpl (by rw [e]; simp)
      have hpl' : p ∉ l := fun hm => hpl (List.mem_cons_of_mem h hm)
      by_cases hab : a = h
      · -- the first node: what follows it now follows `p`
        subst hab
        rw [if_pos rfl, List.erase_cons_head]
        refine ht.change_prev hndl (fun c hc => ?_) (fun hc => (u.prev_after hc).trans hp)
        refine ⟨u.next_other c (List.mem_cons_of_mem a hc) ?_, u.prev_other c (List.mem_cons_of_mem a hc)⟩
        rw [hp]
        exact fun e => hpl' (e ▸ hc)
      · have hal : a ∈ l := (List.mem_cons.mp ha).resolve_left hab
        rw [if_neg hab, List.erase_cons_tail (by simpa using fun e => hab e.symm)]
        have ih' := ih ht hndl hbl hal u.tail
        have hnb : next' h = if a = next h then next a else next h := by
          split
          · next e =>
              -- `a` is the second node, so `h` is the one that skips it
              have hpa : prev a = h := by
                cases l with
                | nil => exact nomatch hal
                | cons c l =>
                    obtain ⟨hc, _, hcp, _⟩ := ht
                    rw [e, hc]
                    exact hcp
              have := u.next_before (by rw [hpa]; exact hne)
              rwa [hpa] at this
          · next e =>
              refine u.next_other h List.mem_cons_self (fun he => ?_)
              rcases prev_mem ht hal with ⟨e', _⟩ | hm
              · exact e e'
              · exact hbl (by rw [he]; exact hm)
        have hpb : prev' h = p := by
          refine (u.prev_other h List.mem_cons_self (fun he => ?_)).trans hp
          rcases next_mem ht hal with hz | hm
          · exact hne (he.trans hz)
          · exact hbl (by rw [he]; exact hm)
        refine ⟨rfl, hne, hpb, ?_⟩
        rw [hnb]
        exact ih'

/-- **Unlinking** a node from a whole list. -/
theorem unlink [DecidableEq α] {h a : α} {l : List α} (hl : Dll null next prev null h l) (hnd : l.Nodup)
    (ha : a ∈ l) (u : Unlinked null next prev next' prev' a l) :
    Dll null next' prev' null (if prev a = null then next a else h) (l.erase a) := by
  have hnull : null ∉ l := fun hm => hl.ne_null null hm rfl
  have hiff : prev a = null ↔ a = h := by
    rcases prev_mem hl ha with ⟨e, hp⟩ | hm
    · exact ⟨fun _ => e, fun _ => hp⟩
    · constructor
      · intro hz
        exact absurd (hz ▸ hm) hnull
      · rintro rfl
        cases l with
        | nil => exact nomatch ha
        | cons b l => exact hl.1 ▸ hl.2.2.1
  have hmain := hl.unlink_from hnd hnull ha u
  simpa only [hiff] using hmain

/-- Unlinking, for links that are only known on the nodes that stay. -/
theorem unlink_agree [DecidableEq α] {h a : α} {l : List α} (hl : Dll null next prev null h l)
    (hnd : l.Nodup) (ha : a ∈ l)
    (hag : ∀ b ∈ l.erase a, next' b = (if b = prev a then next a else next b) ∧
      prev' b = (if b = next a then prev a else prev b)) :
    Dll null next' prev' null (if a = h then next a else h) (l.erase a) := by
  have hnull : null ∉ l := fun hm => hl.ne_null null hm rfl
  have u : Unlinked null next prev (fun b => if b = prev a then next a else next b)
      (fun b => if b = next a then prev a else prev b) a l :=
    { next_before := fun _ => if_pos rfl
      next_other := fun _ _ hb => if_neg hb
      prev_after := fun _ => if_pos rfl
      prev_other := fun _ _ hb => if_neg hb }
  exact (hl.unlink_from hnd hnull ha u).congr hag

end Dll

end KmOS
