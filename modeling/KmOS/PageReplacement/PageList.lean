/-
# `KmOS.PageReplacement.PageList` — is the page list intact?

## What is proved

After `init` an algorithm is chosen, and pages are added, removed, accessed and
looked for in any order.  Following `next` from `page_list_head` visits every
tracked page once and ends at null after `total_pages` steps, and every search
for an address comes back, as long as

    add_page     is called under CLOCK, or while no page is tracked, or is
                 refused its descriptor

(`page_list_intact`).

## What is not

The page list and the LRU and FIFO lists share `next` and `prev`.  The second
page is appended to the page list, which makes `next` of the first lead to it,
and put in front of the algorithm's list, which makes its own `next` lead back:
the page list is a circle (`second_page_closes_circle`).

CLOCK has no list of its own, and with one page the lists agree.
-/
import KmOS.Lib.Run
import KmOS.PageReplacement.Listed

namespace KmOS

open PageReplacementManager

/-! ## Statement -/

/-- The page list holds the tracked pages, and the calls that search it come
back. -/
structure PageListIntact (m : PageReplacementManager) : Prop where
  chain : ∃ l : List Nat, l.Nodup ∧ (∀ a, a ∈ l ↔ a ∈ m.tracked) ∧
    Sll 0 m.next (m.head .pages) l ∧ l.length = m.totalPages
  findPage : ∀ virtualAddr, ∃ page, m.findPage virtualAddr = some page
  updatePageAccess : ∀ virtualAddr, ∃ m', m.updatePageAccess virtualAddr = some m'
  removePage : ∀ virtualAddr, ∃ m', m.removePage virtualAddr = some m'

/-- The condition on a call.  An algorithm is chosen before pages are added. -/
def SharesNoLinks (m : PageReplacementManager) : ReplacementCall → Prop
  | .add _ _ _ (some _) => m.currentAlgorithm = .clock ∨ m.tracked = []
  | .setAlgorithm _ => m.tracked = []
  | _ => True

instance (m : PageReplacementManager) : (c : ReplacementCall) → Decidable (SharesNoLinks m c)
  | .add _ _ _ (some _) => inferInstanceAs (Decidable (_ ∨ _))
  | .setAlgorithm _ => inferInstanceAs (Decidable (_ = _))
  | .add _ _ _ none => .isTrue trivial
  | .remove _ | .access _ | .markDirty _ | .markClean _ | .findVictim | .resetStats =>
      .isTrue trivial

namespace PageReplacementManager

variable {m m' : PageReplacementManager} {a page : Nat} {virtualAddr physicalAddr flags : UInt32}

/-! ## The invariant -/

/-- What ties the manager's fields to the tracked pages. -/
structure Sound (m : PageReplacementManager) : Prop where
  listed : Listed m
  total : m.totalPages = m.tracked.length
  few : m.currentAlgorithm = .clock ∨ m.tracked.length ≤ 1
  lists : ∀ l, l ≠ .pages →
    m.head l = (if m.currentAlgorithm.list = some l then m.head .pages else 0) ∧
      m.tail l = (if m.currentAlgorithm.list = some l then m.tail .pages else 0)
  hand : if m.currentAlgorithm = .clock then
    m.clockHand ∈ m.tracked ∨ m.tracked = [] ∧ m.clockHand = 0 else m.clockHand = 0
  size : m.clockSize = if m.currentAlgorithm = .clock then m.tracked.length else 0

theorem Sound.congr (h : Sound m) (hs : SameLinks m m')
    (hh : m'.clockHand = m.clockHand ∨ m.currentAlgorithm = .clock ∧ m'.clockHand ∈ m.tracked) :
    Sound m' := by
  refine ⟨?_, ?_, ?_, ?_, ?_, ?_⟩
  · exact h.listed.congr hs.next hs.prev (congrFun hs.head _) (congrFun hs.tail _) hs.tracked
  · rw [hs.totalPages, hs.tracked]
    exact h.total
  · rw [hs.currentAlgorithm, hs.tracked]
    exact h.few
  · rw [hs.currentAlgorithm, hs.head, hs.tail]
    exact h.lists
  · rw [hs.currentAlgorithm, hs.tracked]
    rcases hh with hh | ⟨hc, hm⟩
    · rw [hh]
      exact h.hand
    · rw [if_pos hc]
      exact Or.inl hm
  · rw [hs.clockSize, hs.currentAlgorithm, hs.tracked]
    exact h.size

theorem Sound.head_of_nil (h : Sound m) (hnil : m.tracked = []) (l : PageList) :
    m.head l = 0 ∧ m.tail l = 0 := by
  have hlist := h.listed.list
  have htail := h.listed.tail
  rw [hnil] at hlist htail
  have hh : m.head .pages = 0 := hlist
  have ht : m.tail .pages = 0 := htail
  by_cases hl : l = .pages
  · rw [hl]
    exact ⟨hh, ht⟩
  · obtain ⟨h₁, h₂⟩ := h.lists l hl
    rw [h₁, h₂, hh, ht, ite_self]
    exact ⟨rfl, rfl⟩

theorem Sound.clock_of_nil (h : Sound m) (hnil : m.tracked = []) :
    m.clockHand = 0 ∧ m.clockSize = 0 := by
  have hhand := h.hand
  have hsize := h.size
  rw [hnil] at hhand hsize
  refine ⟨?_, hsize.trans (ite_self 0)⟩
  split at hhand
  · rcases hhand with hm | ⟨_, h0⟩
    · exact nomatch hm
    · exact h0
  · exact hhand

theorem sound_init : Sound init where
  listed := ⟨List.nodup_nil, nofun, rfl, rfl⟩
  total := rfl
  few := Or.inr (by decide)
  lists := fun l _ => ⟨(ite_self 0).symm, (ite_self 0).symm⟩
  hand := rfl
  size := rfl

/-! ## Adding -/

/-- Under CLOCK the other lists are empty. -/
theorem Sound.others (h : Sound m) (hc : m.currentAlgorithm = .clock) {l : PageList}
    (hl : l ≠ .pages) : m.head l = 0 ∧ m.tail l = 0 := by
  obtain ⟨h₁, h₂⟩ := h.lists l hl
  rw [hc, if_neg nofun] at h₁ h₂
  exact ⟨h₁, h₂⟩

theorem Sound.ringed (h : Sound m) (hc : m.currentAlgorithm = .clock) : Ringed m where
  clock := hc
  listed := h.listed
  total := h.total
  size := h.size.trans (if_pos hc)
  hand := (if_pos hc).mp h.hand

theorem Ringed.sound (h : Ringed m) (hothers : ∀ l, l ≠ .pages → m.head l = 0 ∧ m.tail l = 0) :
    Sound m where
  listed := h.listed
  total := h.total
  few := Or.inl h.clock
  lists := by
    intro l hl
    rw [h.clock, if_neg nofun, if_neg nofun]
    exact hothers l hl
  hand := (if_pos h.clock).mpr h.hand
  size := h.size.trans (if_pos h.clock).symm

/-- Under CLOCK any page may be added. -/
theorem Sound.addClock (h : Sound m) (hc : m.currentAlgorithm = .clock) (ha : a ≠ 0)
    (haw : a < wordSize) (hat : a ∉ m.tracked) :
    Sound (m.addPage virtualAddr physicalAddr flags (some a)) := by
  refine ((h.ringed hc).add ha haw hat).sound ?_
  intro l hl
  have e := enlisted m virtualAddr physicalAddr flags a
  rw [addPage_clock hc]
  generalize m.enlistPage virtualAddr physicalAddr flags a = m₁ at e
  obtain ⟨hs, _⟩ := clockAddPage_links (m := m₁) (a := a)
  show (m₁.clockAddPage a).head l = 0 ∧ (m₁.clockAddPage a).tail l = 0
  rw [hs.head, hs.tail]
  show m₁.head l = 0 ∧ m₁.tail l = 0
  rw [e.head, e.tail, if_neg (fun f => hl f.2), if_neg hl]
  exact h.others hc hl

/-- The first page may be added under any algorithm. -/
theorem Sound.addFirst (h : Sound m) (hnil : m.tracked = []) (ha : a ≠ 0) (haw : a < wordSize) :
    Sound (m.addPage virtualAddr physicalAddr flags (some a)) := by
  have hat : a ∉ m.tracked := by
    rw [hnil]
    exact List.not_mem_nil
  cases hlist : m.currentAlgorithm.list with
  | none => exact h.addClock (PageReplacementAlgorithm.list_eq_none.mp hlist) ha haw hat
  | some l =>
      have hl : l ≠ .pages := fun f => PageReplacementAlgorithm.list_ne_pages (f ▸ hlist)
      have hclock : m.currentAlgorithm ≠ .clock := by
        intro f
        rw [f] at hlist
        exact nomatch hlist
      have e := enlisted m virtualAddr physicalAddr flags a
      have hlisted := h.listed.append e ha haw hat
      unfold addPage
      dsimp only
      rw [addTo_of_list (by rw [e.currentAlgorithm]; exact hlist)]
      generalize m.enlistPage virtualAddr physicalAddr flags a = m₁ at e hlisted
      have h0 := h.head_of_nil hnil
      have hhead : ∀ k, m₁.head k = if k = .pages then a else 0 := by
        intro k
        rw [e.head, (h0 .pages).2, (h0 k).1]
        simp only [true_and]
      have htail : ∀ k, m₁.tail k = if k = .pages then a else 0 := by
        intro k
        rw [e.tail, (h0 k).2]
      have hempty : m₁.head l = 0 := (hhead l).trans (if_neg hl)
      obtain ⟨hs, hhand⟩ := pushPage_empty (a := a) hempty
      have hk : (m₁.pushPage l a).tracked = [a] := by
        rw [hs.tracked]
        exact e.tracked.trans (by rw [hnil]; rfl)
      have halg : (m₁.pushPage l a).currentAlgorithm = m.currentAlgorithm :=
        hs.currentAlgorithm.trans e.currentAlgorithm
      have hh : ∀ k, (m₁.pushPage l a).head k = if k = l then a else m₁.head k := by
        intro k
        rw [hs.head]
        exact head_setHead k
      have ht : ∀ k, (m₁.pushPage l a).tail k = if k = l then a else m₁.tail k := by
        intro k
        rw [hs.tail]
        exact tail_setTail k
      refine ⟨?_, ?_, Or.inr ?_, ?_, ?_, ?_⟩
      · refine hlisted.congr hs.next hs.prev ?_ ?_ hs.tracked
        · exact (hh .pages).trans (if_neg hl.symm)
        · exact (ht .pages).trans (if_neg hl.symm)
      · show inc32 (m₁.pushPage l a).totalPages = (m₁.pushPage l a).tracked.length
        rw [hs.totalPages, hk]
        show inc32 m₁.totalPages = _
        rw [e.totalPages, h.total, hnil]
        rfl
      · show (m₁.pushPage l a).tracked.length ≤ 1
        rw [hk]
        exact Nat.le_refl 1
      · intro k hkp
        show (m₁.pushPage l a).head k =
            (if (m₁.pushPage l a).currentAlgorithm.list = some k then
              (m₁.pushPage l a).head .pages else 0) ∧
          (m₁.pushPage l a).tail k =
            (if (m₁.pushPage l a).currentAlgorithm.list = some k then
              (m₁.pushPage l a).tail .pages else 0)
        rw [halg, hlist, hh, ht, hh, ht, hhead, hhead, htail, htail, if_neg hl.symm,
          if_pos rfl, if_neg hkp]
        by_cases hkl : k = l
        · subst hkl
          exact ⟨by simp, by simp⟩
        · have : ¬ (some l = some k) := fun f => hkl (Option.some.inj f).symm
          rw [if_neg hkl, if_neg this]
          exact ⟨rfl, rfl⟩
      · show if (m₁.pushPage l a).currentAlgorithm = .clock then _ else
          (m₁.pushPage l a).clockHand = 0
        rw [halg, if_neg hclock, hhand, e.clockHand]
        exact (h.clock_of_nil hnil).1
      · show (m₁.pushPage l a).clockSize = if (m₁.pushPage l a).currentAlgorithm = .clock then
          _ else 0
        rw [halg, if_neg hclock, hs.clockSize]
        exact e.clockSize.trans (h.clock_of_nil hnil).2

/-! ## Removing -/

/-- With one page the algorithm's list is the page list. -/
theorem Sound.only (h : Sound m) (hc : m.currentAlgorithm ≠ .clock) (ha : a ∈ m.tracked) :
    m.tracked = [a] ∧ m.next a = 0 ∧ m.prev a = 0 ∧ m.head .pages = a ∧ m.tail .pages = a := by
  have hone : m.tracked = [a] := by
    have hfew := h.few.resolve_left hc
    cases hk : m.tracked with
    | nil =>
        rw [hk] at ha
        exact nomatch ha
    | cons b l =>
        rw [hk] at ha hfew
        cases l with
        | nil => rw [List.mem_singleton.mp ha]
        | cons c l => exact absurd hfew (by simp)
  have hlist := h.listed.list
  have htail := h.listed.tail
  rw [hone] at hlist htail
  exact ⟨hone, hlist.2.2.2, hlist.2.2.1, hlist.1, htail⟩

/-- A page leaves CLOCK. -/
theorem Sound.removeClock (h : Sound m) (hc : m.currentAlgorithm = .clock) (ha : a ∈ m.tracked) :
    Sound { (m.clockRemovePage a).unlinkPage .pages a with
      tracked := m.tracked.erase a, totalPages := dec32 m.totalPages } := by
  refine ((h.ringed hc).remove ha).sound ?_
  intro l hl
  obtain ⟨hs, _⟩ := clockRemovePage_links (m := m) (a := a)
  have hself : (m.clockRemovePage a).prev a ≠ a := by
    rw [hs.prev]
    exact h.listed.prev_ne ha
  show ((m.clockRemovePage a).unlinkPage .pages a).head l = 0 ∧
    ((m.clockRemovePage a).unlinkPage .pages a).tail l = 0
  rw [head_unlinkPage, tail_unlinkPage hself, if_neg (fun f => hl f.2),
    if_neg (fun f => hl f.2), hs.head, hs.tail]
  exact h.others hc hl

/-- The only page leaves an algorithm with a list. -/
theorem Sound.removeOnly (h : Sound m) (hc : m.currentAlgorithm ≠ .clock) (ha : a ∈ m.tracked) :
    Sound { (m.removeFrom m.currentAlgorithm a).unlinkPage .pages a with
      tracked := m.tracked.erase a, totalPages := dec32 m.totalPages } := by
  obtain ⟨hone, hn, hp, _, _⟩ := h.only hc ha
  cases hlist : m.currentAlgorithm.list with
  | none => exact absurd (PageReplacementAlgorithm.list_eq_none.mp hlist) hc
  | some l =>
      have hl : l ≠ .pages := fun f => PageReplacementAlgorithm.list_ne_pages (f ▸ hlist)
      rw [removeFrom_of_list hlist, unlinkPage_alone hn hp,
        unlinkPage_alone (m := (m.setHead l 0).setTail l 0) hn hp, hone]
      have hhead : ∀ k, (((m.setHead l 0).setTail l 0).setHead .pages 0).head k = 0 := by
        intro k
        refine (head_setHead k).trans ?_
        split
        · rfl
        · next hk =>
            refine (head_setHead k).trans ?_
            split
            · rfl
            · next hkl =>
                rw [(h.lists k hk).1, hlist, if_neg (fun f => hkl (Option.some.inj f).symm)]
      have htail : ∀ k, (((m.setHead l 0).setTail l 0).setTail .pages 0).tail k = 0 := by
        intro k
        refine (tail_setTail k).trans ?_
        split
        · rfl
        · next hk =>
            refine (tail_setTail k).trans ?_
            split
            · rfl
            · next hkl =>
                refine (h.lists k hk).2.trans ?_
                rw [hlist, if_neg (fun f => hkl (Option.some.inj f).symm)]
      have hhand := h.hand
      have hsize := h.size
      rw [if_neg hc] at hhand hsize
      rw [List.erase_cons_head]
      refine ⟨⟨List.nodup_nil, nofun, hhead .pages, htail .pages⟩, ?_, Or.inr (Nat.zero_le 1), ?_,
        ?_, ?_⟩
      · show dec32 m.totalPages = 0
        rw [h.total, hone]
        rfl
      · intro k _
        exact ⟨(hhead k).trans ((if_congr Iff.rfl (hhead .pages) rfl).trans (ite_self 0)).symm,
          (htail k).trans ((if_congr Iff.rfl (htail .pages) rfl).trans (ite_self 0)).symm⟩
      · exact (if_neg hc).mpr hhand
      · exact hsize.trans (if_neg hc).symm

/-- **`remove_page`.** -/
theorem Sound.removePage (h : Sound m) (virtualAddr : UInt32) :
    ∃ m', m.removePage virtualAddr = some m' ∧ Sound m' := by
  rcases h.listed.removePage_cases virtualAddr with hstep | ⟨a, ha, hstep⟩
  · exact ⟨m, hstep, h⟩
  · refine ⟨_, hstep, ?_⟩
    by_cases hc : m.currentAlgorithm = .clock
    · have hrem : m.removeFrom m.currentAlgorithm a = m.clockRemovePage a := by
        rw [hc]
        rfl
      rw [hrem]
      exact h.removeClock hc ha
    · exact h.removeOnly hc ha

/-! ## The other calls -/

/-- An access moves the only page to the front of a list it is alone on. -/
theorem Sound.noteAccess (h : Sound m) (ha : a ∈ m.tracked) : Sound (m.noteAccess a) := by
  have hlru : ∀ l, m.currentAlgorithm.list = some l →
      Sound ((m.unlinkPage l a).pushPage l a) := by
    intro l hlist
    have hc : m.currentAlgorithm ≠ .clock := by
      intro f
      rw [f] at hlist
      exact nomatch hlist
    have hl : l ≠ .pages := fun f => PageReplacementAlgorithm.list_ne_pages (f ▸ hlist)
    obtain ⟨_, hn, hp, hh, ht⟩ := h.only hc ha
    obtain ⟨h₁, h₂⟩ := h.lists l hl
    rw [if_pos hlist, hh] at h₁
    rw [if_pos hlist, ht] at h₂
    rw [unlinkPage_alone hn hp]
    obtain ⟨hs, hhand⟩ := pushPage_empty (m := (m.setHead l 0).setTail l 0) (l := l) (a := a)
      ((head_setHead l).trans (if_pos rfl))
    -- the list is the one it was before
    have hsame : SameLinks m ((((m.setHead l 0).setTail l 0).setHead l a).setTail l a) := by
      refine ⟨rfl, rfl, ?_, ?_, rfl, rfl, rfl, rfl⟩
      · funext k
        refine (head_setHead k).trans ?_
        split
        · next hk => rw [hk, h₁]
        · next hk => exact (head_setHead k).trans (if_neg hk)
      · funext k
        refine (tail_setTail k).trans ?_
        split
        · next hk => rw [hk, h₂]
        · next hk => exact (tail_setTail k).trans (if_neg hk)
    exact h.congr (hsame.trans hs) (Or.inl hhand)
  unfold PageReplacementManager.noteAccess
  split
  · next hc => exact hlru .lru (by rw [hc]; rfl)
  · next hc => exact hlru .lru (by rw [hc]; rfl)
  · exact h.congr (sameLinks_modPage rfl rfl) (Or.inl rfl)
  · exact h

/-- **`update_page_access`.** -/
theorem Sound.updatePageAccess (h : Sound m) (virtualAddr : UInt32) :
    ∃ m', m.updatePageAccess virtualAddr = some m' ∧ Sound m' := by
  obtain ⟨m₁, hs, hhand, hstep | ⟨a, ha, hstep⟩⟩ := h.listed.updatePageAccess_cases virtualAddr
  · exact ⟨m₁, hstep, h.congr hs (Or.inl hhand)⟩
  · refine ⟨_, hstep, (h.congr hs (Or.inl hhand)).noteAccess ?_⟩
    rw [hs.tracked]
    exact ha

theorem Sound.markPage (h : Sound m) (f : UInt32 → UInt32) (virtualAddr : UInt32) :
    ∃ m', m.markPage f virtualAddr = some m' ∧ Sound m' := by
  unfold PageReplacementManager.markPage
  obtain ⟨a, hfind, _⟩ := h.listed.findPage virtualAddr
  rw [hfind]
  by_cases hz : a = 0
  · exact ⟨_, if_pos hz, h⟩
  · exact ⟨_, if_neg hz, h.congr (sameLinks_modPage rfl rfl) (Or.inl rfl)⟩

/-- Nothing is migrated while no page is tracked. -/
theorem migrateLoop_nil : migrateLoop turns m 0 = some m := by
  obtain ⟨n, hn⟩ : ∃ n, turns = n + 1 := ⟨4294967295, rfl⟩
  rw [hn]
  exact if_pos rfl

theorem Sound.setAlgorithm (h : Sound m) (hnil : m.tracked = [])
    (algorithm : PageReplacementAlgorithm) :
    ∃ m', m.setAlgorithm algorithm = some m' ∧ Sound m' := by
  have h0 := h.head_of_nil hnil
  obtain ⟨hhand, hsize⟩ := h.clock_of_nil hnil
  refine ⟨m.chooseAlgorithm algorithm, ?_, ?_⟩
  · unfold PageReplacementManager.setAlgorithm
    dsimp only
    rw [show (m.chooseAlgorithm algorithm).head .pages = 0 from (h0 .pages).1]
    exact migrateLoop_nil
  · refine ⟨h.listed.congr rfl rfl rfl rfl rfl, h.total, Or.inr ?_, ?_, ?_, ?_⟩
    · show m.tracked.length ≤ 1
      rw [hnil]
      exact Nat.zero_le 1
    · intro l _
      exact ⟨(h0 l).1.trans ((if_congr Iff.rfl (h0 .pages).1 rfl).trans (ite_self 0)).symm,
        (h0 l).2.trans ((if_congr Iff.rfl (h0 .pages).2 rfl).trans (ite_self 0)).symm⟩
    · split
      · exact Or.inr ⟨hnil, hhand⟩
      · exact hhand
    · refine hsize.trans ?_
      split
      · exact (congrArg List.length hnil).symm
      · rfl

/-- A victim is found, or found missing, and only the hand has moved. -/
theorem Sound.algorithmVictim (h : Sound m) (htotal : m.totalPages ≠ 0) :
    ∃ m' victim, m.algorithmVictim = some (m', victim) ∧ SameLinks m m' ∧
      (m'.clockHand = m.clockHand ∨ m.currentAlgorithm = .clock ∧ m'.clockHand ∈ m.tracked) := by
  have hpages : m.tracked ≠ [] := by
    intro e
    rw [h.total, e] at htotal
    exact htotal rfl
  obtain ⟨a, ha⟩ := List.exists_mem_of_ne_nil _ hpages
  have hlist : ∀ l, m.currentAlgorithm.list = some l → ∃ victim, m.listFindVictim l = some victim := by
    intro l hl
    have hc : m.currentAlgorithm ≠ .clock := by
      intro f
      rw [f] at hl
      exact nomatch hl
    obtain ⟨_, _, hp, _, ht⟩ := h.only hc ha
    have htail := (h.lists l (fun f => PageReplacementAlgorithm.list_ne_pages (f ▸ hl))).2
    rw [if_pos hl, ht] at htail
    exact ⟨_, listFindVictim_only htail hp⟩
  unfold PageReplacementManager.algorithmVictim
  split
  · next hc =>
      obtain ⟨v, hv⟩ := hlist .lru (by rw [hc]; rfl)
      exact ⟨m, v, by rw [show m.lruFindVictim = some v from hv]; rfl, .refl, Or.inl rfl⟩
  · next hc =>
      obtain ⟨v, hv⟩ := hlist .fifo (by rw [hc]; rfl)
      exact ⟨m, v, by rw [show m.fifoFindVictim = some v from hv]; rfl, .refl, Or.inl rfl⟩
  · next hc =>
      have hhand := h.hand
      have hsize := h.size
      rw [if_pos hc] at hhand hsize
      obtain ⟨m', v, hv, hs, hmem, _⟩ := clockFindVictim_returns h.listed.list.sll h.listed.nodup
        h.listed.length_lt (hhand.resolve_right (fun f => hpages f.1)) (hsize.trans h.total.symm ▸ htotal)
      exact ⟨m', v, hv, hs, Or.inr ⟨hc, hmem⟩⟩
  · obtain ⟨m', v, hv, hs, hhand, _⟩ :=
      lruEnhancedLoop_returns (s := 0xFFFFFFFF) (v := 0) h.listed.list.sll h.listed.length_lt
    exact ⟨m', v, hv, hs, Or.inl hhand⟩

/-- **`find_victim_page`.** -/
theorem Sound.findVictimPage (h : Sound m) :
    ∃ m' victim, m.findVictimPage = some (m', victim) ∧ Sound m' := by
  unfold PageReplacementManager.findVictimPage
  split
  · exact ⟨m, 0, rfl, h⟩
  · next htotal =>
      have h₁ : Sound m.getSystemTime.1 := h.congr sameLinks_getSystemTime (Or.inl rfl)
      obtain ⟨m', v, hv, hs, hhand⟩ := h₁.algorithmVictim htotal
      have h₂ : Sound m' := h₁.congr hs hhand
      refine ⟨if v ≠ 0 then m'.noteVictim m.getSystemTime.2 v else m', v, ?_, ?_⟩
      · dsimp only [bind, Option.bind]
        rw [hv]
        dsimp only
        split
        · rfl
        · rfl
      · split
        · exact h₂.congr sameLinks_noteVictim (Or.inl rfl)
        · exact h₂

/-! ## Runs -/

/-- **One call.** -/
theorem Sound.step {c : ReplacementCall} (h : Sound m) (hheap : m.HeapAnswers c)
    (hok : SharesNoLinks m c) : ∃ m', m.step c = some m' ∧ Sound m' := by
  cases c with
  | add virtualAddr physicalAddr flags page =>
      cases page with
      | none => exact ⟨m, rfl, h⟩
      | some a =>
          obtain ⟨ha, haw, hat⟩ := hheap
          rcases hok with hc | hnil
          · exact ⟨_, rfl, h.addClock hc ha haw hat⟩
          · exact ⟨_, rfl, h.addFirst hnil ha haw⟩
  | remove virtualAddr => exact h.removePage virtualAddr
  | access virtualAddr => exact h.updatePageAccess virtualAddr
  | markDirty virtualAddr => exact h.markPage (· ||| prFlagDirty) virtualAddr
  | markClean virtualAddr => exact h.markPage (· &&& ~~~prFlagDirty) virtualAddr
  | findVictim =>
      obtain ⟨m', v, hv, h'⟩ := h.findVictimPage
      exact ⟨m', by rw [PageReplacementManager.step, hv]; rfl, h'⟩
  | resetStats => exact ⟨_, rfl, h.congr sameLinks_modStats (Or.inl rfl)⟩
  | setAlgorithm algorithm => exact h.setAlgorithm hok algorithm

theorem Sound.intact (h : Sound m) : PageListIntact m where
  chain := ⟨m.tracked, h.listed.nodup, fun _ => Iff.rfl, h.listed.list.sll, h.total.symm⟩
  findPage := fun virtualAddr =>
    let ⟨a, ha, _⟩ := h.listed.findPage virtualAddr
    ⟨a, ha⟩
  updatePageAccess := fun virtualAddr =>
    let ⟨m', hm, _⟩ := h.updatePageAccess virtualAddr
    ⟨m', hm⟩
  removePage := fun virtualAddr =>
    let ⟨m', hm, _⟩ := h.removePage virtualAddr
    ⟨m', hm⟩

/-- A second page under an algorithm with a list: each page leads to the other. -/
theorem Sound.addSecond {b : Nat} (h : Sound m) (hc : m.currentAlgorithm ≠ .clock)
    (hb : b ∈ m.tracked) (hat : a ∉ m.tracked) :
    (m.addPage virtualAddr physicalAddr flags (some a)).head .pages = b ∧
      (m.addPage virtualAddr physicalAddr flags (some a)).next b = a ∧
      (m.addPage virtualAddr physicalAddr flags (some a)).next a = b := by
  have hb0 := h.listed.ne_zero hb
  have hba : b ≠ a := fun f => hat (f ▸ hb)
  obtain ⟨_, _, _, hh, ht⟩ := h.only hc hb
  cases hlist : m.currentAlgorithm.list with
  | none => exact absurd (PageReplacementAlgorithm.list_eq_none.mp hlist) hc
  | some l =>
      have hl : l ≠ .pages := fun f => PageReplacementAlgorithm.list_ne_pages (f ▸ hlist)
      have e := enlisted m virtualAddr physicalAddr flags a
      have hhl := (h.lists l hl).1
      rw [if_pos hlist, hh] at hhl
      unfold addPage
      dsimp only
      rw [addTo_of_list (by rw [e.currentAlgorithm]; exact hlist)]
      generalize m.enlistPage virtualAddr physicalAddr flags a = m₁ at e
      have hfront : m₁.head l = b := by
        rw [e.head, if_neg (fun f => hl f.2), hhl]
      obtain ⟨hnext, hhead⟩ := pushPage_front (a := a) (hfront.trans_ne hb0)
      refine ⟨?_, ?_, ?_⟩
      · show (m₁.pushPage l a).head .pages = b
        rw [hhead, if_neg hl.symm, e.head, ht, if_neg (fun f => hb0 f.1), hh]
      · show (m₁.pushPage l a).next b = a
        rw [hnext, if_neg hba, e.next, ht, if_pos ⟨hb0, rfl⟩]
      · show (m₁.pushPage l a).next a = b
        rw [hnext, if_pos rfl, hfront]

/-- **The condition is exact** for a call that adds a page. -/
theorem Sound.addPage_intact_iff (h : Sound m) (ha : a ≠ 0) (haw : a < wordSize)
    (hat : a ∉ m.tracked) :
    PageListIntact (m.addPage virtualAddr physicalAddr flags (some a)) ↔
      m.currentAlgorithm = .clock ∨ m.tracked = [] := by
  constructor
  · intro hi
    by_contra hno
    obtain ⟨hc, hne⟩ := not_or.mp hno
    obtain ⟨b, hb⟩ := List.exists_mem_of_ne_nil _ hne
    obtain ⟨hh, hn, hn'⟩ := @Sound.addSecond m a virtualAddr physicalAddr flags b h hc hb hat
    obtain ⟨l, hnd, _, hs, _⟩ := hi.chain
    have hb0 := h.listed.ne_zero hb
    -- the list leads from `b` to `a` and back to `b`
    rw [hh] at hs
    obtain ⟨t, rfl, hs₁⟩ := hs.exists_cons hb0
    rw [hn] at hs₁
    obtain ⟨t₁, rfl, hs₂⟩ := hs₁.exists_cons ha
    rw [hn'] at hs₂
    obtain ⟨t₂, rfl, _⟩ := hs₂.exists_cons hb0
    exact (List.nodup_cons.mp hnd).1 (List.mem_cons_of_mem a List.mem_cons_self)
  · rintro (hc | hnil)
    · exact (h.addClock hc ha haw hat).intact
    · exact (h.addFirst hnil ha haw).intact

/-- The state two pages under an algorithm with a list leave: each leads to the
other, and no search for a third address comes back. -/
theorem findPageLoop_circle {a b : Nat} (ha : a ≠ 0) (hb : b ≠ 0) (hab : m.next a = b)
    (hba : m.next b = a) (hva : (m.page a).virtualAddr ≠ virtualAddr)
    (hvb : (m.page b).virtualAddr ≠ virtualAddr) (fuel : Nat) :
    m.findPageLoop virtualAddr fuel a = none ∧ m.findPageLoop virtualAddr fuel b = none := by
  induction fuel with
  | zero => exact ⟨rfl, rfl⟩
  | succ fuel ih =>
      refine ⟨?_, ?_⟩
      · unfold findPageLoop
        rw [if_neg ha, if_neg hva, hab]
        exact ih.2
      · unfold findPageLoop
        rw [if_neg hb, if_neg hvb, hba]
        exact ih.1

end PageReplacementManager

/-- **The page list is intact** in every run in which the algorithms' lists never
hold two pages. -/
theorem page_list_intact {m : PageReplacementManager}
    (h : Reaches step (fun m c => m.HeapAnswers c ∧ SharesNoLinks m c) init m) :
    PageListIntact m := by
  have hsound : Sound m := by
    refine h.invariant sound_init ?_
    intro m c m' hm hc hs
    obtain ⟨m'', hs', h'⟩ := hm.step hc.1 hc.2
    rw [hs] at hs'
    exact Option.some.inj hs' ▸ h'
  exact hsound.intact

/-- Three pages under CLOCK, of which one has been removed. -/
theorem page_list_intact_clock :
    ∃ m : PageReplacementManager, m.tracked = [0x100, 0x300] ∧ PageListIntact m := by
  obtain ⟨m, hr, hp⟩ := Reaches.of_checked_script step
    (fun m c => m.HeapAnswers c ∧ SharesNoLinks m c) init
    (fun m => decide (m.tracked = [0x100, 0x300]))
    [.setAlgorithm .clock, .add 0x1000 0x5000 0 (some 0x100), .add 0x2000 0x6000 0 (some 0x200),
      .access 0x2000, .add 0x3000 0x7000 0 (some 0x300), .findVictim, .remove 0x2000]
    (by decide +kernel)
  exact ⟨m, of_decide_eq_true hp, page_list_intact hr⟩

/-- **Two pages under LRU**: the page list is a circle, and a search for an
address that neither of them has does not come back. -/
theorem second_page_closes_circle :
    ∃ m, Reaches step HeapAnswers init m ∧ ¬PageListIntact m ∧
      ∀ fuel, m.findPageLoop 0x3000 fuel (m.head .pages) = none := by
  obtain ⟨m, hr, hp⟩ := Reaches.of_checked_script step HeapAnswers init
    (fun m => decide (m.head .pages = 0x100 ∧ m.next 0x100 = 0x200 ∧ m.next 0x200 = 0x100 ∧
      (m.page 0x100).virtualAddr = 0x1000 ∧ (m.page 0x200).virtualAddr = 0x2000))
    [.add 0x1000 0x5000 0 (some 0x100), .add 0x2000 0x6000 0 (some 0x200)] (by decide +kernel)
  obtain ⟨hh, hn, hn', hv, hv'⟩ := of_decide_eq_true hp
  have hloop : ∀ fuel, m.findPageLoop 0x3000 fuel (m.head .pages) = none := by
    intro fuel
    rw [hh]
    exact (findPageLoop_circle (by decide) (by decide) hn hn' (by rw [hv]; decide)
      (by rw [hv']; decide) fuel).1
  refine ⟨m, hr, fun h => ?_, hloop⟩
  obtain ⟨a, ha⟩ := h.findPage 0x3000
  exact nomatch ha.symm.trans (hloop turns)

end KmOS
