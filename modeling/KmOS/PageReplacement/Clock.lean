/-
# `KmOS.PageReplacement.Clock` — the clock and its hand

The pages under CLOCK form a ring: the page list, gone round from the hand.
`clock_find_victim` sweeps it once at most.  It returns the first page that is
not locked and has its reference bit clear, and takes the bit from the pages
that are not locked on the way.

## What is proved

CLOCK is chosen while no page is tracked.  In every state that `add_page`,
`remove_page`, `update_page_access` and `find_victim_page` lead to, the list,
the counts and the hand fit together and the sweep does what it is for, exactly
when the page list is empty, both counts are 0 and the hand is null at the
moment CLOCK is chosen (`clock_ring_iff`).

CLOCK is chosen first of all.  Then `find_victim_page` returns a locked page
exactly when the hand points at one and every page that is not locked has its
reference bit set; it never returns null while a page is tracked
(`clock_spares_locked_iff`).

## What is not

A page that is removed after a switch away from CLOCK is still counted by CLOCK,
and the hand still points at it when CLOCK is chosen again
(`stale_hand_after_switch`).

When the sweep has found nothing it returns the page it started from, without
looking at it again (`clock_returns_locked`).
-/
import KmOS.PageReplacement.PageList

namespace KmOS

open PageReplacementManager

/-! ## Statement -/

namespace PageReplacementManager

/-- The tracked pages in cyclic order, from the hand. -/
def ring (m : PageReplacementManager) : List Nat :=
  m.tracked.dropWhile (· ≠ m.clockHand) ++ m.tracked.takeWhile (· ≠ m.clockHand)

end PageReplacementManager

/-- The calls of a run under CLOCK. -/
def ClockCall : ReplacementCall → Prop
  | .add _ _ _ _ | .remove _ | .access _ | .findVictim => True
  | .markDirty _ | .markClean _ | .resetStats | .setAlgorithm _ => False

instance : (c : ReplacementCall) → Decidable (ClockCall c)
  | .add _ _ _ _ | .remove _ | .access _ | .findVictim => .isTrue trivial
  | .markDirty _ | .markClean _ | .resetStats | .setAlgorithm _ => .isFalse fun h => h

/-- A call of a run, with what the heap promises. -/
def ClockRun (m : PageReplacementManager) (c : ReplacementCall) : Prop :=
  m.HeapAnswers c ∧ ClockCall c

instance (m : PageReplacementManager) (c : ReplacementCall) : Decidable (ClockRun m c) :=
  inferInstanceAs (Decidable (_ ∧ _))

/-- The page list holds the tracked pages in the order in which they came, both
counts count them, the hand points at one of them, and one sweep is enough: it
returns the first candidate, or leaves every page that is not locked one. -/
structure ClockRing (m : PageReplacementManager) : Prop where
  nodup : m.tracked.Nodup
  list : Dll 0 m.next m.prev 0 (m.head .pages) m.tracked
  tail : m.tail .pages = m.tracked.getLastD 0
  size : m.clockSize = m.tracked.length
  total : m.totalPages = m.tracked.length
  hand_null : m.clockHand = 0 ↔ m.tracked = []
  hand_mem : m.clockHand ≠ 0 → m.clockHand ∈ m.tracked
  sweep : ∃ m' victim, m.clockFindVictim = some (m', victim) ∧
    (m.tracked ≠ [] → clockLoop m.clockHand m.tracked.length m = some (m', victim)) ∧
    (∀ a, m.ring.find? (m.Candidate ·) = some a → victim = a) ∧
    (m.ring.find? (m.Candidate ·) = none →
      ∀ a ∈ m.tracked, ¬(m.page a).Locked → (m'.page a).referenceBit = 0)
  returns : ∀ c, ClockRun m c → ∃ m', m.step c = some m'

namespace PageReplacementManager

variable {m m' : PageReplacementManager} {a : Nat}

/-! ## The ring -/

/-- The ring starts at the hand. -/
theorem ring_eq {l₁ l₂ : List Nat} (hk : m.tracked = l₁ ++ m.clockHand :: l₂)
    (hnd : m.tracked.Nodup) : m.ring = m.clockHand :: (l₂ ++ l₁) := by
  rw [hk] at hnd
  have hbefore : ∀ a ∈ l₁, decide (a ≠ m.clockHand) = true := by
    intro a ha
    exact decide_eq_true ((List.nodup_append.mp hnd).2.2 a ha _ List.mem_cons_self)
  unfold ring
  rw [hk, List.dropWhile_append_of_pos hbefore, List.takeWhile_append_of_pos hbefore,
    List.dropWhile_cons_of_neg (by simp), List.takeWhile_cons_of_neg (by simp), List.append_nil]
  rfl

theorem mem_ring : a ∈ m.ring ↔ a ∈ m.tracked := by
  conv => rhs; rw [← List.takeWhile_append_dropWhile (p := (· ≠ m.clockHand)) (l := m.tracked)]
  unfold ring
  rw [List.mem_append, List.mem_append]
  exact or_comm

/-- **One revolution** is enough. -/
theorem Ringed.sweep (h : Ringed m) (hne : m.tracked ≠ []) :
    ∃ m' victim, (∀ fuel, m.tracked.length ≤ fuel →
        clockLoop m.clockHand fuel m = some (m', victim)) ∧
      m.clockFindVictim = some (m', victim) ∧ Swept m m' m.ring m.clockHand victim := by
  obtain ⟨l₁, l₂, hk⟩ := List.append_of_mem (h.hand_mem hne)
  have hsize : m.clockSize ≠ 0 := by
    rw [h.size]
    exact Nat.ne_of_gt (List.length_pos_of_ne_nil hne)
  rw [ring_eq hk h.listed.nodup]
  exact clockFindVictim_sweep h.listed.list.sll h.listed.nodup h.listed.length_lt hk hsize

/-- After a sweep the clock is as good as before. -/
theorem Ringed.swept {victim : Nat} (h : Ringed m) (hne : m.tracked ≠ [])
    (hs : Swept m m' m.ring m.clockHand victim) : Ringed m' ∧ victim ∈ m.tracked := by
  have hhand := h.hand_mem hne
  refine ⟨h.congr hs.links (Or.inr ?_), mem_ring.mp (hs.victim_mem (mem_ring.mpr hhand))⟩
  rcases hs.hand with he | hm
  · exact he ▸ hhand
  · exact mem_ring.mp hm

/-! ## The calls -/

/-- `find_victim_page` sweeps once, unless no page is tracked. -/
theorem Ringed.findVictimPage (h : Ringed m) (hne : m.tracked ≠ []) :
    ∃ m₁ m₂ victim, m.findVictimPage = some (m₂, victim) ∧ m₂.page = m₁.page ∧
      Swept m m₁ m.ring m.clockHand victim ∧ Ringed m₂ := by
  have htotal : m.totalPages ≠ 0 := by
    rw [h.total]
    exact Nat.ne_of_gt (List.length_pos_of_ne_nil hne)
  have h₁ : Ringed m.getSystemTime.1 := h.congr sameLinks_getSystemTime (Or.inl rfl)
  obtain ⟨m₁, victim, _, hv, hs⟩ := h₁.sweep hne
  obtain ⟨hr, hmem⟩ := h₁.swept hne hs
  have hz : victim ≠ 0 := h₁.listed.ne_zero hmem
  refine ⟨m₁, m₁.noteVictim m.getSystemTime.2 victim, victim, ?_, rfl, ?_, ?_⟩
  · have halg : m.getSystemTime.1.algorithmVictim = some (m₁, victim) := by
      unfold algorithmVictim
      rw [h₁.clock]
      exact hv
    unfold PageReplacementManager.findVictimPage
    rw [if_neg htotal]
    dsimp only [bind, Option.bind]
    rw [halg]
    exact if_pos hz
  · exact ⟨sameLinks_getSystemTime.trans hs.links, hs.flags, hs.outside, hs.hand, hs.victim,
      hs.cleared⟩
  · exact hr.congr sameLinks_noteVictim (Or.inl rfl)

/-- **One call** comes back and keeps the ring. -/
theorem Ringed.step (h : Ringed m) {c : ReplacementCall} (hc : ClockRun m c) :
    ∃ m', m.step c = some m' ∧ Ringed m' := by
  obtain ⟨hheap, hcall⟩ := hc
  cases c with
  | add virtualAddr physicalAddr flags page =>
      cases page with
      | none => exact ⟨m, rfl, h⟩
      | some a => exact ⟨_, rfl, h.add hheap.1 hheap.2.1 hheap.2.2⟩
  | remove virtualAddr =>
      rcases h.listed.removePage_cases virtualAddr with hstep | ⟨a, ha, hstep⟩
      · exact ⟨m, hstep, h⟩
      · have hrem : m.removeFrom m.currentAlgorithm a = m.clockRemovePage a := by
          rw [h.clock]
          rfl
        rw [hrem] at hstep
        exact ⟨_, hstep, h.remove ha⟩
  | access virtualAddr =>
      obtain ⟨m₁, hs, hhand, hstep | ⟨a, ha, hstep⟩⟩ := h.listed.updatePageAccess_cases virtualAddr
      · exact ⟨m₁, hstep, h.congr hs (Or.inl hhand)⟩
      · have h₁ : Ringed m₁ := h.congr hs (Or.inl hhand)
        have hnote : m₁.noteAccess a = m₁.clockUpdateAccess a := by
          unfold noteAccess
          rw [h₁.clock]
        rw [hnote] at hstep
        exact ⟨_, hstep, h₁.congr (sameLinks_modPage rfl rfl) (Or.inl rfl)⟩
  | findVictim =>
      by_cases hne : m.tracked = []
      · have htotal : m.totalPages = 0 := h.total.trans (congrArg List.length hne)
        refine ⟨m, ?_, h⟩
        show m.findVictimPage.map Prod.fst = some m
        unfold PageReplacementManager.findVictimPage
        rw [if_pos htotal]
        rfl
      · obtain ⟨_, m₂, victim, hv, _, _, h₂⟩ := h.findVictimPage hne
        refine ⟨m₂, ?_, h₂⟩
        show m.findVictimPage.map Prod.fst = some m₂
        rw [hv]
        rfl
  | markDirty _ => exact hcall.elim
  | markClean _ => exact hcall.elim
  | resetStats => exact hcall.elim
  | setAlgorithm _ => exact hcall.elim

/-- A ring of tracked pages is what `ClockRing` asks for. -/
theorem Ringed.clockRing (h : Ringed m) : ClockRing m where
  nodup := h.listed.nodup
  list := h.listed.list
  tail := h.listed.tail
  size := h.size
  total := h.total
  hand_null := h.hand_eq_zero_iff
  hand_mem := by
    intro h0
    exact h.hand_mem fun hnil => h0 (h.hand_eq_zero_iff.mpr hnil)
  sweep := by
    by_cases hne : m.tracked = []
    · have hsize : m.clockSize = 0 := h.size.trans (congrArg List.length hne)
      refine ⟨m, 0, if_pos hsize, fun hc => absurd hne hc, ?_, ?_⟩
      · intro a ha
        have hmem := mem_ring.mp (List.mem_of_find?_eq_some ha)
        rw [hne] at hmem
        exact absurd hmem List.not_mem_nil
      · intro _ a ha
        rw [hne] at ha
        exact absurd ha List.not_mem_nil
    · obtain ⟨m', victim, hloop, hv, hs⟩ := h.sweep hne
      refine ⟨m', victim, hv, fun _ => hloop _ (Nat.le_refl _), ?_, ?_⟩
      · intro a ha
        rw [hs.victim, ha]
        rfl
      · intro hnone a ha
        exact hs.cleared hnone a (mem_ring.mpr ha)
  returns := by
    intro c hc
    obtain ⟨m', hm', _⟩ := h.step hc
    exact ⟨m', hm'⟩

theorem Ringed.run (h : Ringed m) (hr : Reaches PageReplacementManager.step ClockRun m m') :
    Ringed m' := by
  refine hr.invariant (I := Ringed) h ?_
  intro m c m' hm hc hstep
  obtain ⟨m'', hm'', h''⟩ := hm.step hc
  rw [hstep] at hm''
  exact Option.some.inj hm'' ▸ h''

/-! ## Choosing CLOCK -/

theorem addTo_pages (algorithm : PageReplacementAlgorithm) :
    (m.addTo algorithm a).head .pages = m.head .pages ∧
      (m.addTo algorithm a).tracked = m.tracked := by
  cases hlist : algorithm.list with
  | none =>
      rw [PageReplacementAlgorithm.list_eq_none.mp hlist]
      have hs := (clockAddPage_links (m := m) (a := a)).1
      exact ⟨congrFun hs.head .pages, hs.tracked⟩
  | some l =>
      have hl : l ≠ .pages := fun f => PageReplacementAlgorithm.list_ne_pages (f ▸ hlist)
      rw [addTo_of_list hlist]
      unfold pushPage
      dsimp only
      split
      · exact ⟨Function.update_of_ne hl.symm _ _, rfl⟩
      · exact ⟨Function.update_of_ne hl.symm _ _, rfl⟩

theorem removeFrom_pages (algorithm : PageReplacementAlgorithm) :
    (m.removeFrom algorithm a).head .pages = m.head .pages := by
  cases hlist : algorithm.list with
  | none =>
      rw [PageReplacementAlgorithm.list_eq_none.mp hlist]
      exact congrFun (clockRemovePage_links (m := m) (a := a)).1.head .pages
  | some l =>
      have hl : l ≠ .pages := fun f => PageReplacementAlgorithm.list_ne_pages (f ▸ hlist)
      rw [removeFrom_of_list hlist, head_unlinkPage, if_neg (fun f => hl f.2.symm)]

/-- Migrating pages leaves the page list and the tracked pages alone. -/
theorem migrateLoop_pages {fuel page : Nat} (h : migrateLoop fuel m page = some m') :
    m'.head .pages = m.head .pages ∧ m'.tracked = m.tracked := by
  induction fuel generalizing m page with
  | zero => exact nomatch h
  | succ fuel ih =>
      unfold migrateLoop at h
      split at h
      · rw [Option.some.inj h]
        exact ⟨rfl, rfl⟩
      · obtain ⟨h₁, h₂⟩ := ih h
        obtain ⟨k₁, k₂⟩ := addTo_pages (m := m.removeFrom m.migrationSource page) (a := page)
          (m.removeFrom m.migrationSource page).currentAlgorithm
        exact ⟨(h₁.trans k₁).trans (removeFrom_pages _),
          (h₂.trans k₂).trans (removeFrom_tracked _).2⟩

theorem setAlgorithm_pages {algorithm : PageReplacementAlgorithm}
    (h : m.setAlgorithm algorithm = some m') :
    m'.head .pages = m.head .pages ∧ m'.tracked = m.tracked :=
  migrateLoop_pages (m := m.chooseAlgorithm algorithm) h

/-- With an empty page list there is nothing to migrate. -/
theorem setAlgorithm_empty {algorithm : PageReplacementAlgorithm} (h0 : m.head .pages = 0) :
    m.setAlgorithm algorithm = some (m.chooseAlgorithm algorithm) := by
  unfold PageReplacementManager.setAlgorithm
  dsimp only
  rw [show (m.chooseAlgorithm algorithm).head .pages = 0 from h0]
  exact migrateLoop_nil

/-- Nothing is left of what was tracked before. -/
structure Cleared (m : PageReplacementManager) : Prop where
  head : m.head .pages = 0
  tail : m.tail .pages = 0
  total : m.totalPages = 0
  size : m.clockSize = 0
  hand : m.clockHand = 0

theorem Cleared.ringed (h : Cleared m) (hnil : m.tracked = []) :
    Ringed (m.chooseAlgorithm .clock) := by
  have hnil' : (m.chooseAlgorithm .clock).tracked = [] := hnil
  refine ⟨rfl, ⟨?_, ?_, ?_, ?_⟩, ?_, ?_, Or.inr ⟨hnil', h.hand⟩⟩
  · rw [hnil']
    exact List.nodup_nil
  · rw [hnil']
    exact fun a ha => absurd ha List.not_mem_nil
  · rw [hnil']
    exact h.head
  · rw [hnil']
    exact h.tail
  · rw [hnil']
    exact h.total
  · rw [hnil']
    exact h.size

end PageReplacementManager

/-- **The ring is kept** in every run under CLOCK exactly when CLOCK is chosen
in a state with nothing left of the pages tracked before. -/
theorem clock_ring_iff {m m₀ : PageReplacementManager} (hnil : m.tracked = [])
    (hset : m.setAlgorithm .clock = some m₀) :
    (∀ m', Reaches step ClockRun m₀ m' → ClockRing m') ↔ Cleared m := by
  obtain ⟨hhead, htracked⟩ := setAlgorithm_pages hset
  constructor
  · intro hall
    have h := hall m₀ Reaches.refl
    have hnil₀ : m₀.tracked = [] := htracked.trans hnil
    have hlist := h.list
    have htail := h.tail
    have htotal := h.total
    have hsize := h.size
    rw [hnil₀] at hlist htail htotal hsize
    have h0 : m.head .pages = 0 := hhead.symm.trans hlist
    -- nothing was migrated
    rw [setAlgorithm_empty h0] at hset
    have hm₀ := Option.some.inj hset
    have hhand := h.hand_null.mpr hnil₀
    rw [← hm₀] at htail htotal hsize hhand
    exact ⟨h0, htail, htotal, hsize, hhand⟩
  · intro h m' hr
    rw [setAlgorithm_empty h.head] at hset
    rw [← Option.some.inj hset] at hr
    exact ((h.ringed hnil).run hr).clockRing

/-- Three pages, a sweep, and the page under the hand removed. -/
theorem clock_ring_three_pages :
    ∃ m : PageReplacementManager, m.tracked = [0x100, 0x300] ∧ m.clockHand = 0x300 ∧ ClockRing m := by
  obtain ⟨m, hr, hp⟩ := Reaches.of_checked_script step ClockRun (init.chooseAlgorithm .clock)
    (fun m => decide (m.tracked = [0x100, 0x300] ∧ m.clockHand = 0x300))
    [.add 0x1000 0x5000 0 (some 0x100), .add 0x2000 0x6000 prFlagLocked (some 0x200),
      .add 0x3000 0x7000 0 (some 0x300), .findVictim, .findVictim, .access 0x2000, .remove 0x2000]
    (by decide +kernel)
  obtain ⟨htracked, hhand⟩ := of_decide_eq_true hp
  have hring := (clock_ring_iff (m := init) rfl (setAlgorithm_empty rfl)).mpr
    ⟨rfl, rfl, rfl, rfl, rfl⟩ m hr
  exact ⟨m, htracked, hhand, hring⟩

/-- A page added under CLOCK and removed under LRU: when CLOCK is chosen again
it counts a page, and the hand points at it. -/
theorem stale_hand_after_switch : ∃ m m₀ : PageReplacementManager,
    Reaches step HeapAnswers init m ∧ m.tracked = [] ∧ m.setAlgorithm .clock = some m₀ ∧
      m₀.clockSize = 1 ∧ m₀.clockHand = 0x100 ∧ ¬ClockRing m₀ := by
  obtain ⟨m, hr, hp⟩ := Reaches.of_checked_script step HeapAnswers init
    (fun m => decide (m.tracked = [] ∧ m.head .pages = 0 ∧ m.clockSize = 1 ∧ m.clockHand = 0x100))
    [.setAlgorithm .clock, .add 0x1000 0x5000 0 (some 0x100), .setAlgorithm .lru, .remove 0x1000]
    (by decide +kernel)
  obtain ⟨hnil, h0, hsize, hhand⟩ := of_decide_eq_true hp
  refine ⟨m, m.chooseAlgorithm .clock, hr, hnil, setAlgorithm_empty h0, hsize, hhand, fun h => ?_⟩
  have hlen : m.clockSize = m.tracked.length := h.size
  rw [hsize, hnil] at hlen
  exact absurd hlen (by decide)

/-! ## Locked pages -/

/-- `find_victim_page` comes back, not with a locked page, and not with null
while a page is tracked that is not locked. -/
def SparesLocked (m : PageReplacementManager) : Prop :=
  ∃ m' victim, m.findVictimPage = some (m', victim) ∧
    (victim ≠ 0 → ¬(m'.page victim).Locked) ∧
    ((∃ a ∈ m.tracked, ¬(m.page a).Locked) → victim ≠ 0)

/-- The hand points at a locked page, and every page that is not locked has been
accessed lately. -/
def HandStuck (m : PageReplacementManager) : Prop :=
  m.tracked ≠ [] ∧ (m.page m.clockHand).Locked ∧
    ∀ a ∈ m.tracked, ¬(m.page a).Locked → (m.page a).referenceBit ≠ 0

instance (m : PageReplacementManager) : Decidable (HandStuck m) :=
  inferInstanceAs (Decidable (_ ∧ _))

theorem PageReplacementManager.Ringed.sparesLocked_iff {m : PageReplacementManager}
    (h : Ringed m) : SparesLocked m ↔ ¬HandStuck m := by
  by_cases hne : m.tracked = []
  · have hv : m.findVictimPage = some (m, 0) :=
      if_pos (h.total.trans (congrArg List.length hne))
    refine ⟨fun _ hs => hs.1 hne, fun _ => ⟨m, 0, hv, fun h0 => absurd rfl h0, ?_⟩⟩
    rintro ⟨a, ha, _⟩
    rw [hne] at ha
    exact absurd ha List.not_mem_nil
  · obtain ⟨m₁, m₂, victim, hv, hpage, hs, h₂⟩ := h.findVictimPage hne
    have hmem := (h.swept hne hs).2
    have hz : victim ≠ 0 := h.listed.ne_zero hmem
    -- the flags of the victim are those it had before the sweep
    have hlocked : (m₂.page victim).Locked ↔ (m.page victim).Locked := by
      unfold PageDescriptor.Locked
      rw [hpage, hs.flags]
    have hspares : SparesLocked m ↔ ¬(m.page victim).Locked := by
      rw [← hlocked]
      constructor
      · rintro ⟨m', v, hv', hfree, _⟩
        rw [hv] at hv'
        obtain ⟨rfl, rfl⟩ := Prod.mk.inj (Option.some.inj hv')
        exact hfree hz
      · intro hfree
        exact ⟨m₂, victim, hv, fun _ => hfree, fun _ => hz⟩
    rw [hspares]
    cases hf : m.ring.find? (m.Candidate ·) with
    | some a =>
        have ha : m.Candidate a := by simpa using List.find?_some hf
        have hva : victim = a := by rw [hs.victim, hf]; rfl
        rw [hva]
        refine ⟨fun _ hstuck => ?_, fun _ => ha.1⟩
        exact hstuck.2.2 a (mem_ring.mp (List.mem_of_find?_eq_some hf)) ha.1 ha.2
    | none =>
        have hva : victim = m.clockHand := by rw [hs.victim, hf]; rfl
        rw [hva]
        refine ⟨fun hfree hstuck => hfree hstuck.2.1, fun hstuck hlock => hstuck ⟨hne, hlock, ?_⟩⟩
        intro a ha hfree hbit
        have hno := List.find?_eq_none.mp hf a (mem_ring.mpr ha)
        exact hno (decide_eq_true ⟨hfree, hbit⟩)

/-- **The clock spares locked pages**, and finds another one if there is any,
exactly in the states of a run in which its hand is not stuck. -/
theorem clock_spares_locked_iff {m₀ m : PageReplacementManager}
    (hset : init.setAlgorithm .clock = some m₀) (hr : Reaches step ClockRun m₀ m) :
    SparesLocked m ↔ ¬HandStuck m := by
  have hempty : Cleared init := ⟨rfl, rfl, rfl, rfl, rfl⟩
  rw [setAlgorithm_empty hempty.head] at hset
  rw [← Option.some.inj hset] at hr
  exact ((hempty.ringed rfl).run hr).sparesLocked_iff

/-- Two pages, of which the first is locked and the second has not been accessed
since the last sweep. -/
theorem clock_spares_locked_after_sweep : ∃ m : PageReplacementManager,
    m.tracked = [0x100, 0x200] ∧ (m.page m.clockHand).Locked ∧ SparesLocked m := by
  obtain ⟨m, hr, hp⟩ := Reaches.of_checked_script step ClockRun (init.chooseAlgorithm .clock)
    (fun m => decide (m.tracked = [0x100, 0x200] ∧ (m.page m.clockHand).Locked ∧ ¬HandStuck m))
    [.add 0x1000 0x5000 prFlagLocked (some 0x100), .add 0x2000 0x6000 0 (some 0x200), .findVictim]
    (by decide +kernel)
  obtain ⟨htracked, hlock, hfree⟩ := of_decide_eq_true hp
  exact ⟨m, htracked, hlock, (clock_spares_locked_iff (setAlgorithm_empty rfl) hr).mpr hfree⟩

/-- **A locked page is returned**: one page is added, locked. -/
theorem clock_returns_locked : ∃ m₀ m m' : PageReplacementManager,
    init.setAlgorithm .clock = some m₀ ∧ Reaches step ClockRun m₀ m ∧
      m.findVictimPage = some (m', 0x100) ∧ (m'.page 0x100).Locked ∧ ¬SparesLocked m := by
  obtain ⟨m, hr, hp⟩ := Reaches.of_checked_script step ClockRun (init.chooseAlgorithm .clock)
    (fun m : PageReplacementManager => m.findVictimPage.any
      fun r : PageReplacementManager × Nat => decide (r.2 = 0x100 ∧ (r.1.page 0x100).Locked))
    [.add 0x1000 0x5000 prFlagLocked (some 0x100)] (by decide +kernel)
  obtain ⟨⟨m', victim⟩, hv, hr'⟩ := (Option.any_eq_true _ _).mp hp
  obtain ⟨hvictim, hlock⟩ := of_decide_eq_true hr'
  have hvictim' : victim = 0x100 := hvictim
  subst hvictim'
  refine ⟨_, m, m', setAlgorithm_empty rfl, hr, hv, hlock, ?_⟩
  rintro ⟨m'', v, hv', hfree, _⟩
  rw [hv] at hv'
  obtain ⟨rfl, rfl⟩ := Prod.mk.inj (Option.some.inj hv')
  exact hfree (by decide) hlock

end KmOS
