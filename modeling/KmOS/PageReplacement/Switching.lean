/-
# `KmOS.PageReplacement.Switching` — does a switch of algorithm lose pages?

## What is proved

Pages are added and algorithms are chosen, in any order, from `init` on.  In
every state reached the structure of the current algorithm holds the tracked
pages, and `find_victim_page` finds one of them if some tracked page is not
locked, as long as

    add_page        is called under CLOCK, or while no page is tracked, or is
                    refused its descriptor
    set_algorithm   finds no page tracked; or it chooses CLOCK, and `clock_size`
                    is `total_pages` if the pages are taken from CLOCK and 0 if
                    they are taken from FIFO; or it chooses another algorithm,
                    one page is tracked, and the list of that algorithm is the
                    one the page is taken from, or empty

(`switching_keeps_pages`).

## What is not

The migration loop looks up where to take the pages from under the algorithm it
switches to, not under the one it leaves.  A page added under LRU is taken from
CLOCK when CLOCK is chosen: `clock_size` goes down to its maximum and up to 0
again, and no victim is found (`switch_loses_page`).

Taking pages from FIFO that were never there nulls the `prev` links of the page
list on the way.  The links along `next` stay, and no call of these runs reads
the others.
-/
import KmOS.PageReplacement.PageList

namespace KmOS

open PageReplacementManager

namespace PageReplacementManager

/-- Where a switch to `algorithm` takes the pages from, as the statistics before
the call have it. -/
def sourceOf (m : PageReplacementManager) (algorithm : PageReplacementAlgorithm) :
    PageReplacementAlgorithm :=
  let saved := if algorithm = m.currentAlgorithm then m.currentStats else m.stats algorithm
  if 0 < saved.algorithmSwitches then algorithm.previous else algorithm

end PageReplacementManager

/-! ## Statement -/

/-- A list of an algorithm holds the tracked pages. -/
def ListHolds (m : PageReplacementManager) (l : PageList) : Prop :=
  ∃ pages : List Nat, pages.Nodup ∧ (∀ a, a ∈ pages ↔ a ∈ m.tracked) ∧
    Dll 0 m.next m.prev 0 (m.head l) pages ∧ m.tail l = pages.getLastD 0

/-- The structures of the current algorithm hold the tracked pages. -/
structure NothingLost (m : PageReplacementManager) : Prop where
  pages : ∃ l : List Nat, l.Nodup ∧ (∀ a, a ∈ l ↔ a ∈ m.tracked) ∧
    Sll 0 m.next (m.head .pages) l ∧ l.length = m.totalPages
  list : ∀ l, m.currentAlgorithm.list = some l → ListHolds m l
  clock : m.currentAlgorithm = .clock →
    m.clockSize = m.totalPages ∧ (m.tracked ≠ [] → m.clockHand ∈ m.tracked)
  victim : (∃ a ∈ m.tracked, ¬(m.page a).Locked) →
    ∃ m' victim, m.findVictimPage = some (m', victim) ∧ victim ≠ 0 ∧ victim ∈ m.tracked

/-- The condition on a call; the other calls are not made. -/
def SwitchesCleanly (m : PageReplacementManager) : ReplacementCall → Prop
  | .add _ _ _ (some _) => m.currentAlgorithm = .clock ∨ m.tracked = []
  | .add _ _ _ none => True
  | .setAlgorithm algorithm =>
      m.tracked = [] ∨
        match algorithm.list with
        | none => m.clockSize = if m.sourceOf algorithm = .clock then m.totalPages else 0
        | some l => m.totalPages = 1 ∧ ((m.sourceOf algorithm).list = some l ∨ m.head l = 0)
  | _ => False

instance (m : PageReplacementManager) : (c : ReplacementCall) → Decidable (SwitchesCleanly m c)
  | .add _ _ _ (some _) => inferInstanceAs (Decidable (_ ∨ _))
  | .add _ _ _ none => .isTrue trivial
  | .setAlgorithm .clock => inferInstanceAs (Decidable (_ ∨ _ = _))
  | .setAlgorithm .lru => inferInstanceAs (Decidable (_ ∨ _ ∧ (_ ∨ _)))
  | .setAlgorithm .fifo => inferInstanceAs (Decidable (_ ∨ _ ∧ (_ ∨ _)))
  | .setAlgorithm .lruEnhanced => inferInstanceAs (Decidable (_ ∨ _ ∧ (_ ∨ _)))
  | .remove _ | .access _ | .markDirty _ | .markClean _ | .findVictim | .resetStats =>
      .isFalse (fun h => h)

namespace PageReplacementManager

variable {m m' m'' : PageReplacementManager} {a : Nat} {virtualAddr physicalAddr flags : UInt32}

/-! ## The invariant -/

/-- The page list along `next`, and the hand.  Nothing is said about the links
along `prev` but that the first page has none. -/
structure Chained (m : PageReplacementManager) : Prop where
  nodup : m.tracked.Nodup
  word : ∀ a ∈ m.tracked, a < wordSize
  list : Sll 0 m.next (m.head .pages) m.tracked
  tail : m.tail .pages = m.tracked.getLastD 0
  first : m.tracked ≠ [] → m.prev (m.head .pages) = 0
  total : m.totalPages = m.tracked.length
  heads : ∀ l, m.head l = 0 ∨ m.head l ∈ m.tracked
  hand : m.clockHand = 0 ∨ m.clockHand ∈ m.tracked
  counts : ∀ a ∈ m.tracked, m.counts a = 1

/-- What holds between the calls of a run. -/
structure Kept (m : PageReplacementManager) : Prop where
  chained : Chained m
  few : m.currentAlgorithm = .clock ∨ m.tracked.length ≤ 1
  own : ∀ l, m.currentAlgorithm.list = some l →
    m.head l = m.head .pages ∧ m.tail l = m.tail .pages
  clock : m.currentAlgorithm = .clock →
    m.clockSize = m.totalPages ∧ (m.tracked ≠ [] → m.clockHand ∈ m.tracked)
  unused : m.tracked = [] → m.clockSize = 0 ∧ ∀ l, m.tail l = 0

theorem Chained.ne_zero (h : Chained m) (ha : a ∈ m.tracked) : a ≠ 0 := h.list.ne_null a ha

theorem Chained.length_lt (h : Chained m) : m.tracked.length < wordSize :=
  h.list.length_lt h.nodup h.word (by decide)

theorem Chained.head_of_nil (h : Chained m) (hnil : m.tracked = []) (l : PageList) :
    m.head l = 0 := by
  refine (h.heads l).resolve_right ?_
  rw [hnil]
  exact List.not_mem_nil

theorem Chained.hand_of_nil (h : Chained m) (hnil : m.tracked = []) : m.clockHand = 0 := by
  refine h.hand.resolve_right ?_
  rw [hnil]
  exact List.not_mem_nil

theorem Chained.nextOrHead_mem (h : Chained m) (ha : a ∈ m.tracked) :
    m.nextOrHead a ∈ m.tracked := by
  unfold nextOrHead
  split
  · next hn => exact (h.list.next_mem ha).resolve_left hn
  · obtain ⟨t, ht, _⟩ := h.list.exists_cons
      (fun e => List.ne_nil_of_mem ha (h.list.head_eq_null_iff.mp e))
    rw [ht]
    exact List.mem_cons_self

/-- A single page, its links and the page list. -/
theorem Chained.single (h : Chained m) (hone : m.tracked.length ≤ 1) (ha : a ∈ m.tracked) :
    m.tracked = [a] ∧ m.next a = 0 ∧ m.prev a = 0 ∧ m.head .pages = a ∧ m.tail .pages = a := by
  have htracked : m.tracked = [a] := by
    cases hk : m.tracked with
    | nil =>
        rw [hk] at ha
        exact nomatch ha
    | cons b l =>
        rw [hk] at ha hone
        cases l with
        | nil => rw [List.mem_singleton.mp ha]
        | cons c l => exact absurd hone (by simp)
  have hlist := h.list
  have htail := h.tail
  have hfirst := h.first (List.ne_nil_of_mem ha)
  rw [htracked] at hlist htail
  have hh : m.head .pages = a := hlist.1
  rw [hh] at hfirst
  exact ⟨htracked, hlist.2.2, hfirst, hh, htail⟩

theorem kept_init : Kept init where
  chained :=
    { nodup := List.nodup_nil
      word := nofun
      list := rfl
      tail := rfl
      first := fun h => absurd rfl h
      total := rfl
      heads := fun _ => Or.inl rfl
      hand := Or.inl rfl
      counts := nofun }
  few := Or.inr (by decide)
  own := fun _ _ => ⟨rfl, rfl⟩
  clock := nofun
  unused := fun _ => ⟨rfl, fun _ => rfl⟩

/-! ## Adding -/

/-- **Appending** a page to the page list.  The count of pages is still to
follow. -/
theorem Chained.append (h : Chained m) (e : Enlisted m m' a) (ha : a ≠ 0) (haw : a < wordSize)
    (hat : a ∉ m.tracked) (hcounts : ∀ b, m'.counts b = if b = a then 1 else m.counts b) :
    Chained { m' with totalPages := inc32 m'.totalPages } := by
  have htracked := e.tracked
  have hsub : ∀ b, b ∈ m.tracked → b ∈ m'.tracked := by
    intro b hb
    rw [htracked]
    exact List.mem_append_left _ hb
  have hself : a ∈ m'.tracked := by
    rw [htracked]
    exact List.mem_append_right _ (List.mem_singleton_self a)
  have hnd := e.nodup h.nodup hat
  have hword := e.word h.word haw
  have hlist : Sll 0 m'.next (m'.head .pages) m'.tracked ∧ m'.prev (m'.head .pages) = 0 := by
    have hlist := h.list
    have htail := h.tail
    have hfirst := h.first
    have hnd' := h.nodup
    rw [htracked]
    obtain hnil | ⟨t, c, hcons⟩ := m.tracked.eq_nil_or_concat'
    · rw [hnil] at htail
      obtain ⟨hhead, hnext, hprev⟩ := e.alone htail
      rw [hnil, hhead]
      exact ⟨⟨rfl, ha, hnext⟩, hprev⟩
    · rw [hcons] at hlist htail hat hfirst hnd'
      have hc : m.tail .pages = c := htail.trans (by simp)
      obtain ⟨hhead, h₁, _, h₃, h₄, h₅⟩ := e.behind hc (hlist.ne_null c (by simp)) hnd' hat
      have hmem : m.head .pages ∈ t ++ [c] := by
        obtain ⟨t', ht', _⟩ := hlist.exists_cons
          (fun f => List.ne_nil_of_mem (a := c) (by simp) (hlist.head_eq_null_iff.mp f))
        rw [ht']
        exact List.mem_cons_self
      rw [hcons, hhead, h₅ _ hmem]
      exact ⟨hlist.append ha h₁ h₃ h₄, hfirst (by simp)⟩
  have hlen : m'.tracked.length < wordSize := hlist.1.length_lt hnd hword (by decide)
  refine ⟨hnd, hword, hlist.1, ?_, fun _ => hlist.2, ?_, ?_, ?_, ?_⟩
  · exact e.last
  · show inc32 m'.totalPages = m'.tracked.length
    rw [htracked] at hlen ⊢
    rw [e.totalPages, h.total, inc32_length hlen]
  · intro l
    show m'.head l = 0 ∨ m'.head l ∈ m'.tracked
    rw [e.head]
    split
    · exact Or.inr hself
    · exact (h.heads l).imp id (hsub _)
  · show m'.clockHand = 0 ∨ m'.clockHand ∈ m'.tracked
    rw [e.clockHand]
    exact h.hand.imp id (hsub _)
  · intro b hb
    show m'.counts b = 1
    rw [hcounts]
    split
    · rfl
    · next hne =>
        refine h.counts b ?_
        rw [show m'.tracked = m.tracked ++ [a] from htracked] at hb
        exact (List.mem_append.mp hb).resolve_right (fun f => hne (List.mem_singleton.mp f))

/-! ## Moves that leave the page list alone -/

/-- The page list along `next`, and what is recorded about the pages. -/
structure SamePages (m m' : PageReplacementManager) : Prop where
  next : m'.next = m.next
  head : m'.head .pages = m.head .pages
  tail : m'.tail .pages = m.tail .pages
  totalPages : m'.totalPages = m.totalPages
  tracked : m'.tracked = m.tracked
  currentAlgorithm : m'.currentAlgorithm = m.currentAlgorithm
  stats : m'.stats = m.stats
  counts : m'.counts = m.counts

theorem SamePages.trans (h : SamePages m m') (h' : SamePages m' m'') : SamePages m m'' where
  next := h'.next.trans h.next
  head := h'.head.trans h.head
  tail := h'.tail.trans h.tail
  totalPages := h'.totalPages.trans h.totalPages
  tracked := h'.tracked.trans h.tracked
  currentAlgorithm := h'.currentAlgorithm.trans h.currentAlgorithm
  stats := h'.stats.trans h.stats
  counts := h'.counts.trans h.counts

theorem Chained.congr (h : Chained m) (hs : SamePages m m')
    (hfirst : m.prev (m.head .pages) = 0 → m'.prev (m.head .pages) = 0)
    (hheads : ∀ l, m'.head l = 0 ∨ m'.head l ∈ m.tracked)
    (hhand : m'.clockHand = 0 ∨ m'.clockHand ∈ m.tracked) : Chained m' := by
  refine ⟨?_, ?_, ?_, ?_, ?_, ?_, ?_, ?_, ?_⟩
  · rw [hs.tracked]
    exact h.nodup
  · rw [hs.tracked]
    exact h.word
  · rw [hs.next, hs.head, hs.tracked]
    exact h.list
  · rw [hs.tail, hs.tracked]
    exact h.tail
  · rw [hs.tracked, hs.head]
    exact fun hne => hfirst (h.first hne)
  · rw [hs.totalPages, hs.tracked]
    exact h.total
  · rw [hs.tracked]
    exact hheads
  · rw [hs.tracked]
    exact hhand
  · rw [hs.tracked, hs.counts]
    exact h.counts

theorem samePages_clockAddPage : SamePages m (m.clockAddPage a) := by
  obtain ⟨hs, _⟩ := clockAddPage_links (m := m) (a := a)
  obtain ⟨hc, hstats⟩ := counts_clockAddPage (m := m) (a := a)
  exact ⟨hs.next, congrFun hs.head _, congrFun hs.tail _, hs.totalPages, hs.tracked,
    hs.currentAlgorithm, hstats, hc⟩

theorem samePages_clockRemovePage : SamePages m (m.clockRemovePage a) := by
  obtain ⟨hs, _⟩ := clockRemovePage_links (m := m) (a := a)
  obtain ⟨hc, hstats⟩ := counts_clockRemovePage (m := m) (a := a)
  exact ⟨hs.next, congrFun hs.head _, congrFun hs.tail _, hs.totalPages, hs.tracked,
    hs.currentAlgorithm, hstats, hc⟩

/-- Taking a page without predecessor from a list leaves the page list, since no
`next` is written. -/
theorem samePages_unlinkPage {l : PageList} (hl : l ≠ .pages) (hp : m.prev a = 0) (ha : a ≠ 0) :
    SamePages m (m.unlinkPage l a) := by
  obtain ⟨htotal, hk, halg, _, _, hstats⟩ := unlinkPage_rest (m := m) (l := l) (a := a)
  refine ⟨?_, ?_, ?_, htotal, hk, halg, hstats, counts_unlinkPage⟩
  · funext b
    rw [next_unlinkPage, if_neg (fun f => f.1 hp)]
  · rw [head_unlinkPage, if_neg (fun f => hl f.2.symm)]
  · rw [tail_unlinkPage (fun f => ha (f.symm.trans hp)), if_neg (fun f => hl f.2.symm)]

theorem samePages_pushPage_empty {l : PageList} (hl : l ≠ .pages) (h : m.head l = 0) :
    SamePages m (m.pushPage l a) := by
  obtain ⟨hs, _⟩ := pushPage_empty (a := a) h
  refine ⟨hs.next, ?_, ?_, hs.totalPages, hs.tracked, hs.currentAlgorithm, ?_, counts_pushPage⟩
  · rw [hs.head]
    exact (head_setHead _).trans (if_neg hl.symm)
  · rw [hs.tail]
    exact (tail_setTail _).trans (if_neg hl.symm)
  · unfold pushPage
    dsimp only
    split <;> rfl

/-- **`add_page`** under CLOCK. -/
theorem Kept.addClock (h : Kept m) (hc : m.currentAlgorithm = .clock) (ha : a ≠ 0)
    (haw : a < wordSize) (hat : a ∉ m.tracked) :
    Kept (m.addPage virtualAddr physicalAddr flags (some a)) := by
  have e := enlisted m virtualAddr physicalAddr flags a
  have hch := h.chained.append e ha haw hat (counts_enlistPage virtualAddr physicalAddr flags)
  have hk : (m.enlistPage virtualAddr physicalAddr flags a).addTo
      (m.enlistPage virtualAddr physicalAddr flags a).currentAlgorithm a =
      (m.enlistPage virtualAddr physicalAddr flags a).clockAddPage a := by
    rw [e.currentAlgorithm, hc]
    rfl
  unfold addPage
  dsimp only
  rw [hk]
  generalize m.enlistPage virtualAddr physicalAddr flags a = m₁ at e hch
  obtain ⟨hs, hhand⟩ := clockAddPage_links (m := m₁) (a := a)
  have hp := samePages_clockAddPage (m := m₁) (a := a)
  have hself : a ∈ m₁.tracked := by
    rw [e.tracked]
    exact List.mem_append_right _ (List.mem_singleton_self a)
  have hmem : (m₁.clockAddPage a).clockHand ∈ m₁.tracked := by
    rw [hhand]
    split
    · exact hself
    · next h0 => exact hch.hand.resolve_left h0
  have halg : (m₁.clockAddPage a).currentAlgorithm = .clock :=
    (hp.currentAlgorithm.trans e.currentAlgorithm).trans hc
  have hsize : (m₁.clockAddPage a).clockSize = inc32 m.totalPages := by
    refine hs.clockSize.trans (congrArg inc32 ?_)
    exact e.clockSize.trans (h.clock hc).1
  refine ⟨?_, Or.inl halg, ?_, fun _ => ⟨?_, fun _ => ?_⟩, ?_⟩
  · refine hch.congr ⟨hp.next, hp.head, hp.tail, congrArg inc32 hp.totalPages, hp.tracked,
      hp.currentAlgorithm, hp.stats, hp.counts⟩ ?_ ?_ (Or.inr hmem)
    · exact fun hf => (congrFun hs.prev _).trans hf
    · intro l
      show (m₁.clockAddPage a).head l = 0 ∨ (m₁.clockAddPage a).head l ∈ m₁.tracked
      rw [hs.head]
      exact hch.heads l
  · intro l hl
    exact absurd (hl : (m₁.clockAddPage a).currentAlgorithm.list = some l) (by rw [halg]; nofun)
  · show (m₁.clockAddPage a).clockSize = inc32 (m₁.clockAddPage a).totalPages
    rw [hsize, hp.totalPages, e.totalPages]
  · show (m₁.clockAddPage a).clockHand ∈ (m₁.clockAddPage a).tracked
    rw [hp.tracked]
    exact hmem
  · intro hnil
    exact absurd (hp.tracked.symm.trans hnil) (List.ne_nil_of_mem hself)

/-- **`add_page`** while no page is tracked. -/
theorem Kept.addFirst (h : Kept m) (hnil : m.tracked = []) (ha : a ≠ 0) (haw : a < wordSize) :
    Kept (m.addPage virtualAddr physicalAddr flags (some a)) := by
  have hat : a ∉ m.tracked := by
    rw [hnil]
    exact List.not_mem_nil
  cases hlist : m.currentAlgorithm.list with
  | none => exact h.addClock (PageReplacementAlgorithm.list_eq_none.mp hlist) ha haw hat
  | some l =>
      have hl : l ≠ .pages := fun f => PageReplacementAlgorithm.list_ne_pages (f ▸ hlist)
      have e := enlisted m virtualAddr physicalAddr flags a
      have hch := h.chained.append e ha haw hat (counts_enlistPage virtualAddr physicalAddr flags)
      unfold addPage
      dsimp only
      rw [addTo_of_list (by rw [e.currentAlgorithm]; exact hlist)]
      generalize m.enlistPage virtualAddr physicalAddr flags a = m₁ at e hch
      have htracked : m₁.tracked = [a] := e.tracked.trans (by rw [hnil]; rfl)
      have hempty : m₁.head l = 0 := by
        rw [e.head, if_neg (fun f => hl f.2)]
        exact h.chained.head_of_nil hnil l
      obtain ⟨hs, hhand⟩ := pushPage_empty (a := a) hempty
      have hp := samePages_pushPage_empty (a := a) hl hempty
      obtain ⟨_, _, _, hh, ht⟩ := hch.single (a := a)
        (by show m₁.tracked.length ≤ 1; rw [htracked]; exact Nat.le_refl 1)
        (by show a ∈ m₁.tracked; rw [htracked]; exact List.mem_singleton_self a)
      have halg : (m₁.pushPage l a).currentAlgorithm = m.currentAlgorithm :=
        hp.currentAlgorithm.trans e.currentAlgorithm
      have hclock : m.currentAlgorithm ≠ .clock := by
        intro f
        rw [f] at hlist
        exact nomatch hlist
      refine ⟨?_, Or.inr ?_, ?_, fun hc => absurd (halg.symm.trans hc) hclock, ?_⟩
      · refine hch.congr ⟨hp.next, hp.head, hp.tail, congrArg inc32 hp.totalPages, hp.tracked,
          hp.currentAlgorithm, hp.stats, hp.counts⟩ ?_ ?_ ?_
        · exact fun hf => (congrFun hs.prev _).trans hf
        · intro k
          show (m₁.pushPage l a).head k = 0 ∨ (m₁.pushPage l a).head k ∈ m₁.tracked
          rw [hs.head, htracked]
          rw [show ((m₁.setHead l a).setTail l a).head k = if k = l then a else m₁.head k from
            head_setHead k]
          split
          · exact Or.inr (List.mem_singleton_self a)
          · exact htracked ▸ hch.heads k
        · show (m₁.pushPage l a).clockHand = 0 ∨ _
          rw [hhand, e.clockHand]
          exact Or.inl (h.chained.hand_of_nil hnil)
      · show (m₁.pushPage l a).tracked.length ≤ 1
        rw [hp.tracked, htracked]
        exact Nat.le_refl 1
      · intro k hk
        have hkl : k = l := by
          have hk' : (m₁.pushPage l a).currentAlgorithm.list = some k := hk
          rw [halg, hlist] at hk'
          exact (Option.some.inj hk').symm
        subst hkl
        show (m₁.pushPage k a).head k = (m₁.pushPage k a).head .pages ∧
          (m₁.pushPage k a).tail k = (m₁.pushPage k a).tail .pages
        rw [hp.head, hp.tail, hs.head, hs.tail]
        exact ⟨((head_setHead k).trans (if_pos rfl)).trans hh.symm,
          ((tail_setTail k).trans (if_pos rfl)).trans ht.symm⟩
      · intro hk
        have hk' : (m₁.pushPage l a).tracked = [] := hk
        rw [hp.tracked, htracked] at hk'
        exact nomatch hk'

/-! ## Switching -/

theorem migrationSource_chooseAlgorithm (algorithm : PageReplacementAlgorithm) :
    (m.chooseAlgorithm algorithm).migrationSource = m.sourceOf algorithm := by
  have hstats : (m.chooseAlgorithm algorithm).stats algorithm =
      if algorithm = m.currentAlgorithm then m.currentStats else m.stats algorithm :=
    Function.update_apply m.stats m.currentAlgorithm m.currentStats algorithm
  unfold migrationSource sourceOf
  rw [show (m.chooseAlgorithm algorithm).currentAlgorithm = algorithm from rfl, hstats]

theorem SamePages.migrationSource (h : SamePages m m') : m'.migrationSource = m.migrationSource := by
  unfold PageReplacementManager.migrationSource
  rw [h.stats, h.currentAlgorithm]

theorem Chained.chooseAlgorithm (h : Chained m) (algorithm : PageReplacementAlgorithm) :
    Chained (m.chooseAlgorithm algorithm) :=
  ⟨h.nodup, h.word, h.list, h.tail, h.first, h.total, h.heads, h.hand, h.counts⟩

/-- A page has left FIFO, where it may never have been, or CLOCK. -/
theorem Chained.removeFrom (h : Chained m) (source : PageReplacementAlgorithm)
    (ha : a ∈ m.tracked) (hp : ∀ l, source.list = some l → m.prev a = 0) :
    SamePages m (m.removeFrom source a) ∧ Chained (m.removeFrom source a) ∧
      (m.removeFrom source a).clockSize =
        (if source = .clock then dec32 m.clockSize else m.clockSize) ∧
      ∀ b, m.prev b = 0 → (m.removeFrom source a).prev b = 0 := by
  cases hlist : source.list with
  | none =>
      have hc : source = .clock := PageReplacementAlgorithm.list_eq_none.mp hlist
      have hrem : m.removeFrom source a = m.clockRemovePage a := by
        rw [hc]
        rfl
      rw [hrem, if_pos hc]
      obtain ⟨hs, hhand⟩ := clockRemovePage_links (m := m) (a := a)
      have hsame := samePages_clockRemovePage (m := m) (a := a)
      refine ⟨hsame, ?_, hs.clockSize, fun b hb => (congrFun hs.prev b).trans hb⟩
      refine h.congr hsame (fun hf => (congrFun hs.prev _).trans hf) ?_ ?_
      · rw [hs.head]
        exact h.heads
      · rw [hhand]
        split
        · split
          · exact Or.inl rfl
          · exact Or.inr (h.nextOrHead_mem ha)
        · exact h.hand
  | some l =>
      have hl : l ≠ .pages := fun f => PageReplacementAlgorithm.list_ne_pages (f ▸ hlist)
      have hc : source ≠ .clock := by
        intro f
        rw [f] at hlist
        exact nomatch hlist
      have hpa := hp l hlist
      have hself : m.prev a ≠ a := fun f => h.ne_zero ha (f.symm.trans hpa)
      rw [removeFrom_of_list hlist, if_neg hc]
      obtain ⟨_, _, _, hhand, hsize, _⟩ := unlinkPage_rest (m := m) (l := l) (a := a)
      have hprev : ∀ b, m.prev b = 0 → (m.unlinkPage l a).prev b = 0 := by
        intro b hb
        rw [prev_unlinkPage hself]
        split
        · exact hpa
        · exact hb
      have hsame := samePages_unlinkPage hl hpa (h.ne_zero ha)
      refine ⟨hsame, h.congr hsame (hprev _) ?_ ?_, hsize, hprev⟩
      · intro k
        rw [head_unlinkPage]
        split
        · exact h.list.next_mem ha
        · exact h.heads k
      · rw [hhand]
        exact h.hand

/-- A page has come under CLOCK. -/
theorem Chained.clockAddPage (h : Chained m) (ha : a ∈ m.tracked) :
    Chained (m.clockAddPage a) ∧ (m.clockAddPage a).clockHand ∈ m.tracked ∧
      (m.clockAddPage a).clockSize = inc32 m.clockSize ∧ (m.clockAddPage a).prev = m.prev := by
  obtain ⟨hs, hhand⟩ := clockAddPage_links (m := m) (a := a)
  have hmem : (m.clockAddPage a).clockHand ∈ m.tracked := by
    rw [hhand]
    split
    · exact ha
    · next h0 => exact h.hand.resolve_left h0
  refine ⟨?_, hmem, hs.clockSize, hs.prev⟩
  refine h.congr samePages_clockAddPage (fun hf => (congrFun hs.prev _).trans hf) ?_ (Or.inr hmem)
  rw [hs.head]
  exact h.heads

theorem inc32_dec32 {n : Nat} (h0 : n ≠ 0) (hn : n < wordSize) : inc32 (dec32 n) = n := by
  rw [dec32_eq h0, inc32_eq (by omega)]
  omega

/-- The state of the loop that moves pages to CLOCK, with `k` still to come. -/
structure ToClock (m : PageReplacementManager) (page : Nat) (k : List Nat) : Prop where
  chained : Chained m
  clock : m.currentAlgorithm = .clock
  rest : Sll 0 m.next page k
  sub : ∀ b ∈ k, b ∈ m.tracked
  first : m.migrationSource ≠ .clock → page ≠ 0 → m.prev page = 0
  size : (if m.migrationSource = .clock then m.clockSize else m.clockSize + k.length) = m.totalPages
  hand : k = [] → m.clockHand ∈ m.tracked

/-- One turn. -/
theorem ToClock.turn {k : List Nat} (h : ToClock m a (a :: k)) :
    SamePages m ((m.removeFrom m.migrationSource a).clockAddPage a) ∧
      ToClock ((m.removeFrom m.migrationSource a).clockAddPage a) (m.next a) k := by
  have ha : a ∈ m.tracked := h.sub a List.mem_cons_self
  have ha0 := h.chained.ne_zero ha
  have hsrc : m.migrationSource.list ≠ none → m.prev a = 0 := by
    intro hne
    exact h.first (fun f => hne (PageReplacementAlgorithm.list_eq_none.mpr f)) ha0
  obtain ⟨hs₁, hc₁, hsize₁, hprev₁⟩ := h.chained.removeFrom m.migrationSource ha
    (fun l hl => hsrc (by rw [hl]; nofun))
  have hnext₁ : m.migrationSource ≠ .clock → m.next a ≠ 0 →
      (m.removeFrom m.migrationSource a).prev (m.next a) = 0 := by
    intro hne hn
    have hpa := h.first hne ha0
    cases hlist : m.migrationSource.list with
    | none => exact absurd (PageReplacementAlgorithm.list_eq_none.mp hlist) hne
    | some l =>
        rw [removeFrom_of_list hlist, prev_unlinkPage (fun f => ha0 (f.symm.trans hpa)),
          if_pos ⟨hn, rfl⟩]
        exact hpa
  have hsource : (m.removeFrom m.migrationSource a).migrationSource = m.migrationSource :=
    hs₁.migrationSource
  generalize m.removeFrom m.migrationSource a = m₁ at hs₁ hc₁ hsize₁ hprev₁ hnext₁ hsource
  have ha₁ : a ∈ m₁.tracked := hs₁.tracked ▸ ha
  obtain ⟨hc₂, hhand, hsize, hprev⟩ := hc₁.clockAddPage ha₁
  have hs₂ := samePages_clockAddPage (m := m₁) (a := a)
  have hs := hs₁.trans hs₂
  refine ⟨hs, ?_⟩
  have hsource₂ := hs₂.migrationSource.trans hsource
  have htotal : m.totalPages ≠ 0 ∧ m.totalPages < wordSize := by
    rw [h.chained.total]
    exact ⟨Nat.ne_of_gt (List.length_pos_of_mem ha), h.chained.length_lt⟩
  refine ⟨hc₂, hs.currentAlgorithm.trans h.clock, ?_, ?_, ?_, ?_, ?_⟩
  · rw [hs.next]
    exact h.rest.2.2
  · rw [hs.tracked]
    exact fun b hb => h.sub b (List.mem_cons_of_mem a hb)
  · rw [hsource₂, hprev]
    exact hnext₁
  · have hsz := h.size
    rw [hsource₂, hs.totalPages, hsize, hsize₁]
    split at hsz
    · next hc =>
        rw [if_pos hc, if_pos hc, hsz]
        exact inc32_dec32 htotal.1 htotal.2
    · next hc =>
        rw [if_neg hc, if_neg hc]
        rw [List.length_cons] at hsz
        rw [inc32_eq (by omega)]
        omega
  · rw [hs.tracked, ← hs₁.tracked]
    exact fun _ => hhand

/-- **The loop** that moves the pages to CLOCK. -/
theorem ToClock.run {k : List Nat} {page fuel : Nat} (h : ToClock m page k) (hfuel : k.length < fuel) :
    ∃ m', migrateLoop fuel m page = some m' ∧ SamePages m m' ∧ ToClock m' 0 [] := by
  induction k generalizing m page fuel with
  | nil =>
      cases fuel with
      | zero => exact absurd hfuel (Nat.not_lt_zero _)
      | succ fuel =>
          have h0 : page = 0 := h.rest
          subst h0
          exact ⟨m, if_pos rfl, ⟨rfl, rfl, rfl, rfl, rfl, rfl, rfl, rfl⟩, h⟩
  | cons b k ih =>
      cases fuel with
      | zero => exact absurd hfuel (Nat.not_lt_zero _)
      | succ fuel =>
          obtain ⟨hpage, hne, _⟩ := id h.rest
          subst hpage
          obtain ⟨hs, ht⟩ := h.turn
          have hadd : (m.removeFrom m.migrationSource page).addTo
              (m.removeFrom m.migrationSource page).currentAlgorithm page =
              (m.removeFrom m.migrationSource page).clockAddPage page := by
            have halg := hs.currentAlgorithm
            rw [samePages_clockAddPage.currentAlgorithm, h.clock] at halg
            rw [halg]
            rfl
          obtain ⟨m', hm, hs', h'⟩ := ih ht (Nat.lt_of_succ_lt_succ hfuel)
          refine ⟨m', ?_, hs.trans hs', h'⟩
          unfold migrateLoop
          rw [if_neg hne]
          dsimp only
          rw [hadd]
          exact hm

/-- **`set_algorithm`**, to CLOCK. -/
theorem Kept.toClock (h : Kept m) (hne : m.tracked ≠ [])
    (hsize : m.clockSize = if m.sourceOf .clock = .clock then m.totalPages else 0) :
    ∃ m', m.setAlgorithm .clock = some m' ∧ Kept m' := by
  have hc := h.chained.chooseAlgorithm .clock
  have hlt : m.tracked.length < turns := h.chained.length_lt
  have hstart : ToClock (m.chooseAlgorithm .clock) (m.head .pages) m.tracked := by
    refine ⟨hc, rfl, h.chained.list, fun _ hb => hb, ?_, ?_, fun hnil => absurd hnil hne⟩
    · exact fun _ _ => h.chained.first hne
    · rw [migrationSource_chooseAlgorithm]
      show (if _ then m.clockSize else m.clockSize + m.tracked.length) = m.totalPages
      rw [hsize, h.chained.total]
      split
      · rfl
      · exact Nat.zero_add _
  obtain ⟨m', hm, hs, h'⟩ := hstart.run hlt
  have hk : m'.tracked = m.tracked := hs.tracked
  refine ⟨m', hm, h'.chained, Or.inl h'.clock, ?_, fun _ => ⟨?_, fun _ => h'.hand rfl⟩, ?_⟩
  · intro l hl
    rw [h'.clock] at hl
    exact nomatch hl
  · have := h'.size
    rwa [List.length_nil, Nat.add_zero, ite_self] at this
  · intro hnil
    exact absurd (hk.symm.trans hnil) hne

/-- A page alone moves to the list of another algorithm. -/
theorem Chained.toList (h : Chained m) {l : PageList} (hone : m.tracked = [a])
    (hlist : m.currentAlgorithm.list = some l)
    (hfree : m.migrationSource.list = some l ∨ m.head l = 0) :
    ∃ m', migrateLoop turns m (m.head .pages) = some m' ∧ Kept m' := by
  have ha : a ∈ m.tracked := by
    rw [hone]
    exact List.mem_singleton_self a
  have ha0 := h.ne_zero ha
  have hlen : m.tracked.length ≤ 1 := by
    rw [hone]
    exact Nat.le_refl 1
  have hl : l ≠ .pages := fun f => PageReplacementAlgorithm.list_ne_pages (f ▸ hlist)
  obtain ⟨_, hn, hp, hh, ht⟩ := h.single hlen ha
  obtain ⟨hs₁, hc₁, _, hprev₁⟩ := h.removeFrom m.migrationSource ha (fun _ _ => hp)
  -- once the page has left, the list it goes to is empty
  have hempty : (m.removeFrom m.migrationSource a).head l = 0 := by
    cases hsl : m.migrationSource.list with
    | none =>
        rw [PageReplacementAlgorithm.list_eq_none.mp hsl]
        show (m.clockRemovePage a).head l = 0
        rw [clockRemovePage_links.1.head]
        exact hfree.resolve_left (by rw [hsl]; nofun)
    | some k =>
        rw [removeFrom_of_list hsl, head_unlinkPage]
        by_cases hkl : l = k
        · rw [if_pos ⟨hp, hkl⟩, hn]
        · rw [if_neg (fun f => hkl f.2)]
          refine hfree.resolve_left ?_
          rw [hsl]
          exact fun f => hkl (Option.some.inj f).symm
  have hstep : migrateLoop turns m (m.head .pages) =
      some ((m.removeFrom m.migrationSource a).pushPage l a) := by
    obtain ⟨n, hturns⟩ : ∃ n, turns = n + 2 := ⟨4294967294, rfl⟩
    rw [hturns, hh]
    unfold migrateLoop
    rw [if_neg ha0]
    dsimp only
    rw [addTo_of_list (by rw [hs₁.currentAlgorithm]; exact hlist), hn]
    exact if_pos rfl
  refine ⟨_, hstep, ?_⟩
  have hk₁ : (m.removeFrom m.migrationSource a).tracked = [a] := hs₁.tracked.trans hone
  have hh₁ := hs₁.head.trans hh
  have ht₁ := hs₁.tail.trans ht
  have halg₁ := hs₁.currentAlgorithm
  generalize m.removeFrom m.migrationSource a = m₁ at hc₁ hempty hk₁ hh₁ ht₁ halg₁
  obtain ⟨hs, hhand⟩ := pushPage_empty (a := a) hempty
  have hs₂ := samePages_pushPage_empty (a := a) hl hempty
  have hhead : ∀ k, (m₁.pushPage l a).head k = if k = l then a else m₁.head k := by
    intro k
    rw [hs.head]
    exact head_setHead k
  have hk₂ := hs₂.tracked.trans hk₁
  refine ⟨?_, Or.inr ?_, ?_, ?_, ?_⟩
  · refine hc₁.congr hs₂ (fun hf => (congrFun hs.prev _).trans hf) ?_ ?_
    · intro k
      rw [hhead]
      split
      · exact Or.inr (hk₁ ▸ List.mem_singleton_self a)
      · exact hc₁.heads k
    · rw [hhand]
      exact hc₁.hand
  · rw [hk₂]
    exact Nat.le_refl 1
  · intro k hk
    rw [hs₂.currentAlgorithm, halg₁, hlist] at hk
    have hkl : k = l := (Option.some.inj hk).symm
    subst hkl
    rw [hs₂.head, hs₂.tail, hhead, if_pos rfl, hs.tail, hh₁, ht₁]
    exact ⟨rfl, (tail_setTail k).trans (if_pos rfl)⟩
  · intro hc
    rw [hs₂.currentAlgorithm, halg₁] at hc
    rw [hc] at hlist
    exact nomatch hlist
  · intro hnil
    rw [hk₂] at hnil
    exact nomatch hnil

/-- **`set_algorithm`.** -/
theorem Kept.setAlgorithm (h : Kept m) {algorithm : PageReplacementAlgorithm}
    (hok : SwitchesCleanly m (.setAlgorithm algorithm)) :
    ∃ m', m.setAlgorithm algorithm = some m' ∧ Kept m' := by
  have hc := h.chained.chooseAlgorithm algorithm
  by_cases hnil : m.tracked = []
  · have h0 := h.chained.head_of_nil hnil
    have htotal : m.totalPages = 0 := by
      rw [h.chained.total, hnil]
      rfl
    refine ⟨m.chooseAlgorithm algorithm, ?_, hc, Or.inr ?_, ?_, fun _ => ⟨?_, ?_⟩, h.unused⟩
    · unfold PageReplacementManager.setAlgorithm
      dsimp only
      rw [show (m.chooseAlgorithm algorithm).head .pages = 0 from h0 .pages]
      exact migrateLoop_nil
    · show m.tracked.length ≤ 1
      rw [hnil]
      exact Nat.zero_le 1
    · intro l _
      exact ⟨(h0 l).trans (h0 .pages).symm,
        ((h.unused hnil).2 l).trans ((h.unused hnil).2 .pages).symm⟩
    · exact (h.unused hnil).1.trans htotal.symm
    · exact fun hne => absurd hnil hne
  · have hok' := hok.resolve_left hnil
    cases hlist : algorithm.list with
    | none =>
        have hclock := PageReplacementAlgorithm.list_eq_none.mp hlist
        subst hclock
        exact h.toClock hnil hok'
    | some l =>
        rw [hlist] at hok'
        obtain ⟨hone, hfree⟩ := hok'
        rw [h.chained.total] at hone
        obtain ⟨a, ha⟩ := List.length_eq_one_iff.mp hone
        rw [← migrationSource_chooseAlgorithm] at hfree
        exact hc.toList (l := l) ha hlist hfree

/-! ## Victims -/

/-- The score of a page that has been accessed once is below the first bound. -/
theorem calculatePageScore_lt (ha : m.counts a = 1) :
    (m.calculatePageScore a).2 < 0xFFFFFFFF := by
  have hcount : (m.getSystemTime.1.page a).accessCount = 1 := ha
  unfold calculatePageScore
  dsimp only
  rw [hcount]
  generalize (m.getSystemTime.2 - (m.getSystemTime.1.page a).lastAccessTime).toUInt32 = age
  have hage : (age >>> 10).toNat < 4194304 := by
    rw [UInt32.toNat_shiftRight]
    have := age.toNat_lt
    rw [Nat.shiftRight_eq_div_pow]
    exact Nat.div_lt_of_lt_mul this
  generalize age >>> 10 = x at hage
  have h1000 : (if (0 : UInt32) < 1 then 1000 / (1 : UInt32) else 1000) = 1000 := by decide
  rw [h1000]
  rw [UInt32.lt_iff_toNat_lt]
  split
  · -- accessed, and dirty or clean
    split
    · simp only [UInt32.toNat_add, UInt32.toNat_sub, UInt32.reduceToNat]
      omega
    · simp only [UInt32.toNat_add, UInt32.toNat_sub, UInt32.reduceToNat]
      omega
  · split
    · simp only [UInt32.toNat_add, UInt32.reduceToNat]
      omega
    · simp only [UInt32.toNat_add, UInt32.reduceToNat]
      omega

/-- Enhanced LRU takes a page that is alone, if it may. -/
theorem lruEnhancedFindVictim_only (ha : a ≠ 0) (hh : m.head .pages = a) (hn : m.next a = 0)
    (hcount : m.counts a = 1) (hlock : ¬(m.page a).Locked) :
    m.lruEnhancedFindVictim = some ((m.calculatePageScore a).1, a) := by
  obtain ⟨n, hturns⟩ : ∃ n, turns = n + 2 := ⟨4294967294, rfl⟩
  unfold lruEnhancedFindVictim
  rw [hh, hturns]
  unfold lruEnhancedLoop
  rw [if_neg ha, if_neg hlock]
  dsimp only
  rw [if_pos (calculatePageScore_lt hcount), (calculatePageScore_links (m := m) (a := a)).1.next,
    hn]
  exact if_pos rfl

/-- Some page is found. -/
theorem Kept.algorithmVictim (h : Kept m) (ha : a ∈ m.tracked) (hlock : ¬(m.page a).Locked) :
    ∃ m' victim, m.algorithmVictim = some (m', victim) ∧ victim ∈ m.tracked := by
  have hlist : ∀ l, m.currentAlgorithm.list = some l → m.listFindVictim l = some a := by
    intro l hl
    have hc : m.currentAlgorithm ≠ .clock := by
      intro f
      rw [f] at hl
      exact nomatch hl
    obtain ⟨_, _, hp, _, ht⟩ := h.chained.single (h.few.resolve_left hc) ha
    rw [listFindVictim_only ((h.own l hl).2.trans ht) hp, if_neg hlock]
  unfold PageReplacementManager.algorithmVictim
  split
  · next hc =>
      refine ⟨m, a, ?_, ha⟩
      rw [show m.lruFindVictim = some a from hlist .lru (by rw [hc]; rfl)]
      rfl
  · next hc =>
      refine ⟨m, a, ?_, ha⟩
      rw [show m.fifoFindVictim = some a from hlist .fifo (by rw [hc]; rfl)]
      rfl
  · next hc =>
      obtain ⟨hsize, hhand⟩ := h.clock hc
      have hpages := List.ne_nil_of_mem ha
      have hsize0 : m.clockSize ≠ 0 := by
        rw [hsize, h.chained.total]
        exact Nat.ne_of_gt (List.length_pos_of_mem ha)
      obtain ⟨m', v, hv, _, _, hm⟩ :=
        clockFindVictim_returns h.chained.list h.chained.nodup h.chained.length_lt (hhand hpages)
          hsize0
      exact ⟨m', v, hv, hm⟩
  · next hc =>
      obtain ⟨_, hn, _, hh, _⟩ := h.chained.single (h.few.resolve_left (by rw [hc]; nofun)) ha
      exact ⟨_, a, lruEnhancedFindVictim_only (h.chained.ne_zero ha) hh hn (h.chained.counts a ha)
        hlock, ha⟩

theorem Kept.getSystemTime (h : Kept m) : Kept m.getSystemTime.1 where
  chained :=
    ⟨h.chained.nodup, h.chained.word, h.chained.list, h.chained.tail, h.chained.first,
      h.chained.total, h.chained.heads, h.chained.hand, h.chained.counts⟩
  few := h.few
  own := h.own
  clock := h.clock
  unused := h.unused

theorem Kept.findVictimPage (h : Kept m) (ha : a ∈ m.tracked) (hlock : ¬(m.page a).Locked) :
    ∃ m' victim, m.findVictimPage = some (m', victim) ∧ victim ≠ 0 ∧ victim ∈ m.tracked := by
  have htotal : m.totalPages ≠ 0 := by
    rw [h.chained.total]
    exact Nat.ne_of_gt (List.length_pos_of_mem ha)
  obtain ⟨m', v, hv, hm⟩ := h.getSystemTime.algorithmVictim ha hlock
  have hv0 : v ≠ 0 := h.chained.ne_zero hm
  refine ⟨m'.noteVictim m.getSystemTime.2 v, v, ?_, hv0, hm⟩
  unfold PageReplacementManager.findVictimPage
  rw [if_neg htotal]
  dsimp only [bind, Option.bind]
  rw [hv]
  exact if_pos hv0

/-- What holds between the calls is what is asked for. -/
theorem Kept.nothingLost (h : Kept m) : NothingLost m where
  pages := ⟨m.tracked, h.chained.nodup, fun _ => Iff.rfl, h.chained.list, h.chained.total.symm⟩
  list := by
    intro l hl
    have hc : m.currentAlgorithm ≠ .clock := by
      intro f
      rw [f] at hl
      exact nomatch hl
    refine ⟨m.tracked, h.chained.nodup, fun _ => Iff.rfl, ?_, (h.own l hl).2.trans h.chained.tail⟩
    rw [(h.own l hl).1]
    cases hk : m.tracked with
    | nil => exact h.chained.head_of_nil hk .pages
    | cons a k =>
        have ha : a ∈ m.tracked := by
          rw [hk]
          exact List.mem_cons_self
        obtain ⟨hone, hn, hp, hh, _⟩ := h.chained.single (h.few.resolve_left hc) ha
        rw [← hk, hone]
        exact ⟨hh, h.chained.ne_zero ha, hp, hn⟩
  clock := h.clock
  victim := fun ⟨_, ha, hlock⟩ => h.findVictimPage ha hlock

/-- **One call.** -/
theorem Kept.step {c : ReplacementCall} (h : Kept m) (hheap : m.HeapAnswers c)
    (hok : SwitchesCleanly m c) : ∃ m', m.step c = some m' ∧ Kept m' := by
  cases c with
  | add virtualAddr physicalAddr flags page =>
      cases page with
      | none => exact ⟨m, rfl, h⟩
      | some a =>
          obtain ⟨ha, haw, hat⟩ := hheap
          rcases hok with hc | hnil
          · exact ⟨_, rfl, h.addClock hc ha haw hat⟩
          · exact ⟨_, rfl, h.addFirst hnil ha haw⟩
  | setAlgorithm algorithm => exact h.setAlgorithm hok
  | remove virtualAddr => exact hok.elim
  | access virtualAddr => exact hok.elim
  | markDirty virtualAddr => exact hok.elim
  | markClean virtualAddr => exact hok.elim
  | findVictim => exact hok.elim
  | resetStats => exact hok.elim

end PageReplacementManager

/-- **No page is lost** in a run whose calls meet the condition. -/
theorem switching_keeps_pages {m : PageReplacementManager}
    (h : Reaches step (fun m c => m.HeapAnswers c ∧ SwitchesCleanly m c) init m) :
    NothingLost m := by
  have hkept : Kept m := by
    refine h.invariant kept_init ?_
    intro m c m' hm hc hs
    obtain ⟨m'', hs', h'⟩ := hm.step hc.1 hc.2
    rw [hs] at hs'
    exact Option.some.inj hs' ▸ h'
  exact hkept.nothingLost

/-- A page goes from FIFO to LRU and on to CLOCK, where two more are added. -/
theorem switching_keeps_pages_around :
    ∃ m : PageReplacementManager, m.tracked = [0x100, 0x200, 0x300] ∧
      m.currentAlgorithm = .clock ∧ NothingLost m := by
  obtain ⟨m, hr, hp⟩ := Reaches.of_checked_script step
    (fun m c => m.HeapAnswers c ∧ SwitchesCleanly m c) init
    (fun m => decide (m.tracked = [0x100, 0x200, 0x300] ∧ m.currentAlgorithm = .clock))
    [.setAlgorithm .clock, .setAlgorithm .fifo, .add 0x1000 0x5000 0 (some 0x100),
      .setAlgorithm .lru, .setAlgorithm .clock, .add 0x2000 0x6000 0 (some 0x200),
      .add 0x3000 0x7000 0 (some 0x300)]
    (by decide +kernel)
  obtain ⟨hk, halg⟩ := of_decide_eq_true hp
  exact ⟨m, hk, halg, switching_keeps_pages hr⟩

/-- **A page added under LRU, then CLOCK**: the page is counted off from CLOCK,
where it never was, and CLOCK finds no victim although the page is not locked. -/
theorem switch_loses_page :
    ∃ m, Reaches step HeapAnswers init m ∧ m.tracked = [0x100] ∧ m.currentAlgorithm = .clock ∧
      ¬(m.page 0x100).Locked ∧ m.clockSize = 0 ∧ m.totalPages = 1 ∧
      (m.findVictimPage.map Prod.snd = some 0) ∧ ¬NothingLost m := by
  obtain ⟨m, hr, hp⟩ := Reaches.of_checked_script step HeapAnswers init
    (fun m => decide (m.tracked = [0x100] ∧ m.currentAlgorithm = .clock ∧
      ¬(m.page 0x100).Locked ∧ m.clockSize = 0 ∧ m.totalPages = 1 ∧
      (m.findVictimPage.map Prod.snd = some 0)))
    [.add 0x1000 0x5000 0 (some 0x100), .setAlgorithm .clock] (by decide +kernel)
  obtain ⟨hk, halg, hlock, hsize, htotal, hv⟩ := of_decide_eq_true hp
  refine ⟨m, hr, hk, halg, hlock, hsize, htotal, hv, fun h => ?_⟩
  have := (h.clock halg).1
  rw [hsize, htotal] at this
  exact nomatch this

end KmOS
