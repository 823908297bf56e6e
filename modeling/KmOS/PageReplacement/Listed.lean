/-
# `KmOS.PageReplacement.Listed` — the page list and the clock

`Listed` says that the page list, with its tail pointer, is the list of tracked
pages; pages are appended to it and unlinked from it wherever they stand, and
the search for an address walks it.

`Ringed` adds what CLOCK keeps beside the list: the count, and a hand that is
null while no page is tracked and points at one of them otherwise.  Nothing is
said about the lists of the other algorithms.
-/
import KmOS.PageReplacement.Victim

namespace KmOS

namespace PageReplacementManager

variable {m m' : PageReplacementManager} {a page : Nat} {virtualAddr physicalAddr flags : UInt32}

/-! ## The page list -/

/-- The page list, with its tail pointer, is the list of tracked pages. -/
structure Listed (m : PageReplacementManager) : Prop where
  nodup : m.tracked.Nodup
  word : ∀ a ∈ m.tracked, a < wordSize
  list : Dll 0 m.next m.prev 0 (m.head .pages) m.tracked
  tail : m.tail .pages = m.tracked.getLastD 0

theorem Listed.congr (h : Listed m) (hn : m'.next = m.next) (hp : m'.prev = m.prev)
    (hh : m'.head .pages = m.head .pages) (ht : m'.tail .pages = m.tail .pages)
    (hk : m'.tracked = m.tracked) : Listed m' := by
  refine ⟨?_, ?_, ?_, ?_⟩
  · rw [hk]
    exact h.nodup
  · rw [hk]
    exact h.word
  · rw [hn, hp, hh, hk]
    exact h.list
  · rw [ht, hk]
    exact h.tail

theorem Listed.ne_zero (h : Listed m) (ha : a ∈ m.tracked) : a ≠ 0 := h.list.ne_null a ha

theorem Listed.length_lt (h : Listed m) : m.tracked.length < wordSize :=
  h.list.sll.length_lt h.nodup h.word (by decide)

/-! ### Appending -/

section
variable {t : List Nat} {c : Nat}

theorem Enlisted.nodup (e : Enlisted m m' a) (hnd : m.tracked.Nodup) (hat : a ∉ m.tracked) :
    m'.tracked.Nodup := by
  rw [e.tracked]
  refine List.nodup_append.mpr ⟨hnd, List.nodup_singleton a, fun b hb c hc f => hat ?_⟩
  rw [← List.mem_singleton.mp hc, ← f]
  exact hb

theorem Enlisted.word (e : Enlisted m m' a) (hword : ∀ b ∈ m.tracked, b < wordSize)
    (haw : a < wordSize) : ∀ b ∈ m'.tracked, b < wordSize := by
  rw [e.tracked]
  intro b hb
  rcases List.mem_append.mp hb with hb | hb
  · exact hword b hb
  · rw [List.mem_singleton.mp hb]
    exact haw

theorem Enlisted.last (e : Enlisted m m' a) : m'.tail .pages = m'.tracked.getLastD 0 := by
  rw [e.tail, if_pos rfl, e.tracked]
  simp

/-- The first page of the list has no links. -/
theorem Enlisted.alone (e : Enlisted m m' a) (h0 : m.tail .pages = 0) :
    m'.head .pages = a ∧ m'.next a = 0 ∧ m'.prev a = 0 := by
  refine ⟨?_, ?_, ?_⟩
  · rw [e.head, if_pos ⟨h0, rfl⟩]
  · rw [e.next, if_neg (fun f => f.1 h0), if_pos rfl]
  · rw [e.prev, if_neg (fun f => f.1 h0), if_pos rfl]

/-- Another page is linked behind the last one. -/
theorem Enlisted.behind (e : Enlisted m m' a) (htail : m.tail .pages = c) (hc0 : c ≠ 0)
    (hnd : (t ++ [c]).Nodup) (hat : a ∉ t ++ [c]) :
    m'.head .pages = m.head .pages ∧ m'.next a = 0 ∧ m'.prev a = c ∧ m'.next c = a ∧
      (∀ b ∈ t, m'.next b = m.next b) ∧ ∀ b ∈ t ++ [c], m'.prev b = m.prev b := by
  have hca : ∀ b ∈ t ++ [c], b ≠ a := fun b hb => ne_of_mem_of_not_mem hb hat
  have htc : ∀ b ∈ t, b ≠ c := by
    intro b hb f
    exact (List.nodup_append.mp hnd).2.2 b hb c (List.mem_singleton_self c) f
  refine ⟨?_, ?_, ?_, ?_, ?_, ?_⟩
  · rw [e.head, htail, if_neg (fun f => hc0 f.1)]
  · rw [e.next, htail, if_neg (fun f => hca c (by simp) f.2.symm), if_pos rfl]
  · rw [e.prev, htail, if_pos ⟨hc0, rfl⟩]
  · rw [e.next, htail, if_pos ⟨hc0, rfl⟩]
  · intro b hb
    rw [e.next, htail, if_neg (fun f => htc b hb f.2), if_neg (hca b (List.mem_append_left _ hb))]
  · intro b hb
    rw [e.prev, if_neg (fun f => hca b hb f.2), if_neg (hca b hb)]

end

/-- **Appending** a page to the page list. -/
theorem Listed.append (h : Listed m) (e : Enlisted m m' a) (ha : a ≠ 0) (haw : a < wordSize)
    (hat : a ∉ m.tracked) : Listed m' := by
  refine ⟨e.nodup h.nodup hat, e.word h.word haw, ?_, e.last⟩
  have hlist := h.list
  have htail := h.tail
  have hnd := h.nodup
  rw [e.tracked]
  obtain hnil | ⟨t, c, hcons⟩ := m.tracked.eq_nil_or_concat'
  · rw [hnil] at htail
    obtain ⟨hhead, hnext, hprev⟩ := e.alone htail
    rw [hnil]
    exact ⟨hhead, ha, hprev, hnext⟩
  · rw [hcons] at hlist htail hat hnd
    have hc : m.tail .pages = c := htail.trans (by simp)
    obtain ⟨hhead, h₁, h₂, h₃, h₄, h₅⟩ := e.behind hc (hlist.ne_null c (by simp)) hnd hat
    rw [hcons, hhead]
    exact hlist.append ha h₁ h₂ h₃ h₄ h₅

theorem Listed.prev_ne (h : Listed m) (ha : a ∈ m.tracked) : m.prev a ≠ a :=
  h.list.prev_ne h.nodup ha (h.ne_zero ha)

/-- **Unlinking** a page from the page list. -/
theorem Listed.unlinkPage (h : Listed m) (ha : a ∈ m.tracked) :
    Listed { m.unlinkPage .pages a with tracked := m.tracked.erase a } := by
  have hself := h.prev_ne ha
  refine ⟨h.nodup.erase a, fun b hb => h.word b (List.mem_of_mem_erase hb), ?_, ?_⟩
  · show Dll 0 (m.unlinkPage .pages a).next (m.unlinkPage .pages a).prev 0
      ((m.unlinkPage .pages a).head .pages) (m.tracked.erase a)
    rw [head_unlinkPage]
    simp only [and_true]
    refine h.list.unlink h.nodup ha ⟨?_, ?_, ?_, ?_⟩
    · intro h0
      rw [next_unlinkPage, if_pos ⟨h0, rfl⟩]
    · intro b _ hb
      rw [next_unlinkPage, if_neg (fun e => hb e.2)]
    · intro h0
      rw [prev_unlinkPage hself, if_pos ⟨h0, rfl⟩]
    · intro b _ hb
      rw [prev_unlinkPage hself, if_neg (fun e => hb e.2)]
  · show (m.unlinkPage .pages a).tail .pages = (m.tracked.erase a).getLastD 0
    rw [tail_unlinkPage hself, h.list.getLastD_erase ha, h.tail]
    simp only [and_true]

/-- What follows a page, going round, is a page. -/
theorem Listed.nextOrHead_mem (h : Listed m) (ha : a ∈ m.tracked) :
    m.nextOrHead a ∈ m.tracked := by
  unfold nextOrHead
  split
  · next hn => exact (h.list.next_mem ha).resolve_left hn
  · have hlist := h.list
    cases hk : m.tracked with
    | nil =>
        rw [hk] at ha
        exact nomatch ha
    | cons b l =>
        rw [hk] at hlist
        rw [hlist.1]
        exact List.mem_cons_self

/-- Only a page that is alone follows itself. -/
theorem Listed.erase_nil (h : Listed m) (ha : a ∈ m.tracked) (hself : m.nextOrHead a = a) :
    m.tracked.erase a = [] := by
  have hlist := h.list
  have hnd := h.nodup
  obtain ⟨l₁, l₂, hk⟩ := List.append_of_mem ha
  rw [hk] at hlist hnd
  have hdrop := hlist.drop
  unfold nextOrHead at hself
  cases l₂ with
  | cons c l₂ =>
      obtain ⟨hc, hc0, _⟩ := hdrop
      rw [hc, if_pos hc0] at hself
      exact absurd (hself ▸ List.mem_cons_self)
        (List.nodup_cons.mp (List.nodup_append.mp hnd).2.1).1
  | nil =>
      have h0 : m.next a = 0 := hdrop
      rw [if_neg (not_not.mpr h0)] at hself
      cases l₁ with
      | nil =>
          rw [hk]
          simp
      | cons b l₁ =>
          have hb : m.head .pages = b := hlist.1
          exact absurd (hb.symm.trans hself)
            ((List.nodup_append.mp hnd).2.2 b List.mem_cons_self a List.mem_cons_self)

/-! ## Searching -/

theorem findPageLoop_eq {l : List Nat} {fuel h : Nat} (hl : Sll 0 m.next h l)
    (hfuel : l.length < fuel) :
    m.findPageLoop virtualAddr fuel h =
      some ((l.find? fun b => (m.page b).virtualAddr = virtualAddr).getD 0) := by
  refine hl.search (f := m.findPageLoop virtualAddr) hfuel (fun _ => if_pos rfl) ?_
  intro fuel b _ hb
  simp only [decide_eq_true_eq]
  exact if_neg hb

/-- A search ends with a tracked page that has the address, or with null. -/
theorem Listed.findPage (h : Listed m) (virtualAddr : UInt32) :
    ∃ page, m.findPage virtualAddr = some page ∧ (page = 0 ∨ page ∈ m.tracked) := by
  refine ⟨_, findPageLoop_eq h.list.sll h.length_lt, ?_⟩
  cases hf : m.tracked.find? fun b => (m.page b).virtualAddr = virtualAddr with
  | none => exact Or.inl rfl
  | some b => exact Or.inr (List.mem_of_find?_eq_some hf)

/-! ## Calls that search -/

/-- `remove_page` finds nothing, or takes a tracked page out. -/
theorem Listed.removePage_cases (h : Listed m) (virtualAddr : UInt32) :
    m.removePage virtualAddr = some m ∨
      ∃ a ∈ m.tracked, m.removePage virtualAddr = some
        { (m.removeFrom m.currentAlgorithm a).unlinkPage .pages a with
          tracked := m.tracked.erase a, totalPages := dec32 m.totalPages } := by
  obtain ⟨a, hfind, hz | ha⟩ := h.findPage virtualAddr
  · refine Or.inl ?_
    unfold PageReplacementManager.removePage
    rw [hfind, hz]
    rfl
  · have hstep : m.removePage virtualAddr = some
        { (m.removeFrom m.currentAlgorithm a).unlinkPage .pages a with
          tracked := ((m.removeFrom m.currentAlgorithm a).unlinkPage .pages a).tracked.erase a
          totalPages := dec32 ((m.removeFrom m.currentAlgorithm a).unlinkPage .pages a).totalPages } := by
      unfold PageReplacementManager.removePage
      rw [hfind]
      exact if_neg (h.ne_zero ha)
    obtain ⟨htotal, hk, _⟩ :=
      unlinkPage_rest (m := m.removeFrom m.currentAlgorithm a) (l := .pages) (a := a)
    obtain ⟨htotal', hk'⟩ := removeFrom_tracked (m := m) (a := a) m.currentAlgorithm
    rw [htotal, hk, htotal', hk'] at hstep
    exact Or.inr ⟨a, ha, hstep⟩

/-- `update_page_access` counts, and notes the access to a tracked page if it
finds one. -/
theorem Listed.updatePageAccess_cases (h : Listed m) (virtualAddr : UInt32) :
    ∃ m₁, SameLinks m m₁ ∧ m₁.clockHand = m.clockHand ∧
      (m.updatePageAccess virtualAddr = some m₁ ∨
        ∃ a ∈ m.tracked, m.updatePageAccess virtualAddr = some (m₁.noteAccess a)) := by
  obtain ⟨a, hfind, ha⟩ := h.findPage virtualAddr
  unfold PageReplacementManager.updatePageAccess
  rw [hfind]
  by_cases hz : a = 0
  · exact ⟨_, sameLinks_modStats, rfl, Or.inl (if_pos hz)⟩
  · have hs : SameLinks m ((m.modStats fun s => { s with hits := s.hits + 1 }).getSystemTime.1) :=
      sameLinks_modStats.trans sameLinks_getSystemTime
    exact ⟨_, hs.trans (sameLinks_modPage rfl rfl), rfl,
      Or.inr ⟨a, ha.resolve_left hz, if_neg hz⟩⟩

/-! ## The clock -/

/-- CLOCK has been chosen; it counts the tracked pages, and its hand points at
one of them if there is any. -/
structure Ringed (m : PageReplacementManager) : Prop where
  clock : m.currentAlgorithm = .clock
  listed : Listed m
  total : m.totalPages = m.tracked.length
  size : m.clockSize = m.tracked.length
  hand : m.clockHand ∈ m.tracked ∨ m.tracked = [] ∧ m.clockHand = 0

namespace Ringed

theorem congr (h : Ringed m) (hs : SameLinks m m')
    (hh : m'.clockHand = m.clockHand ∨ m'.clockHand ∈ m.tracked) : Ringed m' where
  clock := hs.currentAlgorithm.trans h.clock
  listed := h.listed.congr hs.next hs.prev (congrFun hs.head _) (congrFun hs.tail _) hs.tracked
  total := by
    rw [hs.totalPages, hs.tracked]
    exact h.total
  size := by
    rw [hs.clockSize, hs.tracked]
    exact h.size
  hand := by
    rw [hs.tracked]
    rcases hh with hh | hh
    · rw [hh]
      exact h.hand
    · exact Or.inl hh

/-- While a page is tracked the hand points at one. -/
theorem hand_mem (h : Ringed m) (hne : m.tracked ≠ []) : m.clockHand ∈ m.tracked :=
  h.hand.resolve_right fun hn => hne hn.1

theorem hand_eq_zero_iff (h : Ringed m) : m.clockHand = 0 ↔ m.tracked = [] := by
  constructor
  · intro h0
    rcases h.hand with hm | hn
    · exact absurd h0 (h.listed.ne_zero hm)
    · exact hn.1
  · intro hnil
    rcases h.hand with hm | hn
    · rw [hnil] at hm
      exact absurd hm List.not_mem_nil
    · exact hn.2

end Ringed

theorem inc32_length {l : List Nat} (h : (l ++ [a]).length < wordSize) :
    inc32 l.length = (l ++ [a]).length := by
  rw [List.length_append, List.length_singleton] at h ⊢
  exact inc32_eq h

theorem dec32_length {l : List Nat} (ha : a ∈ l) : dec32 l.length = (l.erase a).length := by
  rw [dec32_eq (Nat.ne_of_gt (List.length_pos_of_mem ha)), List.length_erase_of_mem ha]

/-- `add_page` under CLOCK. -/
theorem addPage_clock (hc : m.currentAlgorithm = .clock) :
    m.addPage virtualAddr physicalAddr flags (some a) =
      { (m.enlistPage virtualAddr physicalAddr flags a).clockAddPage a with
        totalPages :=
          inc32 ((m.enlistPage virtualAddr physicalAddr flags a).clockAddPage a).totalPages } := by
  have e := enlisted m virtualAddr physicalAddr flags a
  unfold addPage
  dsimp only
  rw [show (m.enlistPage virtualAddr physicalAddr flags a).currentAlgorithm = .clock from
    e.currentAlgorithm.trans hc]
  rfl

/-- **A page added.**  It goes behind the others, wherever the hand points. -/
theorem Ringed.add (h : Ringed m) (ha : a ≠ 0) (haw : a < wordSize) (hat : a ∉ m.tracked) :
    Ringed (m.addPage virtualAddr physicalAddr flags (some a)) := by
  have e := enlisted m virtualAddr physicalAddr flags a
  have hl := h.listed.append e ha haw hat
  have hlen := hl.length_lt
  rw [addPage_clock h.clock]
  generalize m.enlistPage virtualAddr physicalAddr flags a = m₁ at e hl hlen
  obtain ⟨hs, hhand⟩ := clockAddPage_links (m := m₁) (a := a)
  have hk : (m₁.clockAddPage a).tracked = m.tracked ++ [a] := hs.tracked.trans e.tracked
  rw [e.tracked] at hlen
  refine ⟨(hs.currentAlgorithm.trans e.currentAlgorithm).trans h.clock, ?_, ?_, ?_, Or.inl ?_⟩
  · exact hl.congr hs.next hs.prev (congrFun hs.head _) (congrFun hs.tail _) hs.tracked
  · show inc32 (m₁.clockAddPage a).totalPages = (m₁.clockAddPage a).tracked.length
    rw [hs.totalPages, hk]
    show inc32 m₁.totalPages = _
    rw [e.totalPages, h.total, inc32_length hlen]
  · show (m₁.clockAddPage a).clockSize = (m₁.clockAddPage a).tracked.length
    rw [hs.clockSize, hk]
    show inc32 m₁.clockSize = _
    rw [e.clockSize, h.size, inc32_length hlen]
  · show (m₁.clockAddPage a).clockHand ∈ (m₁.clockAddPage a).tracked
    rw [hhand, e.clockHand, hk]
    split
    · exact List.mem_append_right _ (List.mem_singleton_self a)
    · next h0 => exact List.mem_append_left _ (h.hand.resolve_right (fun f => h0 f.2))

/-- **A page removed.**  A hand that points at it moves on, or has nowhere to
go. -/
theorem Ringed.remove (h : Ringed m) (ha : a ∈ m.tracked) :
    Ringed { (m.clockRemovePage a).unlinkPage .pages a with
      tracked := m.tracked.erase a, totalPages := dec32 m.totalPages } := by
  obtain ⟨hs, hhand⟩ := clockRemovePage_links (m := m) (a := a)
  have hl : Listed (m.clockRemovePage a) :=
    h.listed.congr hs.next hs.prev (congrFun hs.head _) (congrFun hs.tail _) hs.tracked
  have hk : (m.clockRemovePage a).tracked = m.tracked := hs.tracked
  have hunlink := hl.unlinkPage (hk.symm ▸ ha)
  rw [hk] at hunlink
  obtain ⟨_, _, halg, hhand', hsize, _⟩ :=
    unlinkPage_rest (m := m.clockRemovePage a) (l := .pages) (a := a)
  refine ⟨(halg.trans hs.currentAlgorithm).trans h.clock, hunlink.congr rfl rfl rfl rfl rfl, ?_, ?_, ?_⟩
  · show dec32 m.totalPages = (m.tracked.erase a).length
    rw [h.total, dec32_length ha]
  · show ((m.clockRemovePage a).unlinkPage .pages a).clockSize = (m.tracked.erase a).length
    rw [hsize, hs.clockSize]
    show dec32 m.clockSize = _
    rw [h.size, dec32_length ha]
  · show ((m.clockRemovePage a).unlinkPage .pages a).clockHand ∈ m.tracked.erase a ∨
      m.tracked.erase a = [] ∧ ((m.clockRemovePage a).unlinkPage .pages a).clockHand = 0
    rw [hhand', hhand]
    by_cases hha : m.clockHand = a
    · rw [if_pos hha]
      split
      · next hself =>
          -- the hand comes back to the page: there is no other
          exact Or.inr ⟨h.listed.erase_nil ha hself, rfl⟩
      · next hne => exact Or.inl ((List.mem_erase_of_ne hne).mpr (h.listed.nextOrHead_mem ha))
    · rw [if_neg hha]
      exact Or.inl ((List.mem_erase_of_ne hha).mpr (h.hand_mem (List.ne_nil_of_mem ha)))

end PageReplacementManager

end KmOS
