/-
# `KmOS.PageReplacement.Links` — what the calls do to the links

Most calls leave every list as it is (`SameLinks`).  The ones that edit a list
do it in three ways: a page is appended to the page list (`appendPage`), goes
to the front of an algorithm's list (`pushPage`), or is taken out of one of
them (`unlinkPage`).
-/
import KmOS.Lib.Chain
import KmOS.PageReplacement.Model

namespace KmOS

/-- The list of an algorithm; CLOCK has none. -/
def PageReplacementAlgorithm.list : PageReplacementAlgorithm → Option PageList
  | lru => some .lru
  | fifo => some .fifo
  | clock => none
  | lruEnhanced => some .lru

theorem PageReplacementAlgorithm.list_ne_pages {algorithm : PageReplacementAlgorithm} :
    algorithm.list ≠ some .pages := by
  cases algorithm <;> nofun

theorem PageReplacementAlgorithm.list_eq_none {algorithm : PageReplacementAlgorithm} :
    algorithm.list = none ↔ algorithm = .clock := by
  cases algorithm <;> simp [PageReplacementAlgorithm.list]

namespace PageReplacementManager

variable {m m' m'' : PageReplacementManager} {a : Nat} {l : PageList}

/-! ## Calls that leave the lists alone -/

/-- The lists are threaded through the same pages in the same way. -/
structure SameLinks (m m' : PageReplacementManager) : Prop where
  next : m'.next = m.next
  prev : m'.prev = m.prev
  head : m'.head = m.head
  tail : m'.tail = m.tail
  totalPages : m'.totalPages = m.totalPages
  clockSize : m'.clockSize = m.clockSize
  tracked : m'.tracked = m.tracked
  currentAlgorithm : m'.currentAlgorithm = m.currentAlgorithm

theorem SameLinks.refl : SameLinks m m := ⟨rfl, rfl, rfl, rfl, rfl, rfl, rfl, rfl⟩

theorem SameLinks.trans (h : SameLinks m m') (h' : SameLinks m' m'') : SameLinks m m'' where
  next := h'.next.trans h.next
  prev := h'.prev.trans h.prev
  head := h'.head.trans h.head
  tail := h'.tail.trans h.tail
  totalPages := h'.totalPages.trans h.totalPages
  clockSize := h'.clockSize.trans h.clockSize
  tracked := h'.tracked.trans h.tracked
  currentAlgorithm := h'.currentAlgorithm.trans h.currentAlgorithm

theorem next_modPage {f : PageDescriptor → PageDescriptor} (b : Nat) :
    (m.modPage a f).next b = if b = a then (f (m.page a)).next else m.next b := by
  unfold next modPage
  by_cases hb : b = a
  · subst hb
    rw [if_pos rfl]
    exact congrArg PageDescriptor.next (Function.update_self b _ m.page)
  · rw [if_neg hb]
    exact congrArg PageDescriptor.next (Function.update_of_ne hb _ m.page)

theorem prev_modPage {f : PageDescriptor → PageDescriptor} (b : Nat) :
    (m.modPage a f).prev b = if b = a then (f (m.page a)).prev else m.prev b := by
  unfold prev modPage
  by_cases hb : b = a
  · subst hb
    rw [if_pos rfl]
    exact congrArg PageDescriptor.prev (Function.update_self b _ m.page)
  · rw [if_neg hb]
    exact congrArg PageDescriptor.prev (Function.update_of_ne hb _ m.page)

theorem next_setNext {v : Nat} (b : Nat) :
    (m.setNext a v).next b = if b = a then v else m.next b := next_modPage b

theorem prev_setPrev {v : Nat} (b : Nat) :
    (m.setPrev a v).prev b = if b = a then v else m.prev b := prev_modPage b

/-- A page may change in anything but its links. -/
theorem sameLinks_modPage {f : PageDescriptor → PageDescriptor}
    (hn : (f (m.page a)).next = m.next a) (hp : (f (m.page a)).prev = m.prev a) :
    SameLinks m (m.modPage a f) := by
  refine ⟨?_, ?_, rfl, rfl, rfl, rfl, rfl, rfl⟩
  · funext b
    rw [next_modPage]
    split
    · next hb => rw [hn, hb]
    · rfl
  · funext b
    rw [prev_modPage]
    split
    · next hb => rw [hp, hb]
    · rfl

theorem prev_setNext {v : Nat} : (m.setNext a v).prev = m.prev := by
  funext b
  refine (prev_modPage b).trans ?_
  split
  · next hb => rw [hb]; rfl
  · rfl

theorem next_setPrev {v : Nat} : (m.setPrev a v).next = m.next := by
  funext b
  refine (next_modPage b).trans ?_
  split
  · next hb => rw [hb]; rfl
  · rfl

theorem head_setHead {v : Nat} (k : PageList) :
    (m.setHead l v).head k = if k = l then v else m.head k := Function.update_apply m.head l v k

theorem tail_setTail {v : Nat} (k : PageList) :
    (m.setTail l v).tail k = if k = l then v else m.tail k := Function.update_apply m.tail l v k

theorem sameLinks_modStats {f : ReplacementStats → ReplacementStats} :
    SameLinks m (m.modStats f) := ⟨rfl, rfl, rfl, rfl, rfl, rfl, rfl, rfl⟩

theorem sameLinks_getSystemTime : SameLinks m m.getSystemTime.1 :=
  ⟨rfl, rfl, rfl, rfl, rfl, rfl, rfl, rfl⟩

theorem SameLinks.nextOrHead (h : SameLinks m m') : m'.nextOrHead = m.nextOrHead := by
  funext b
  unfold PageReplacementManager.nextOrHead
  rw [h.next, h.head]

/-! ## The three edits -/

/-- The first page of a list. -/
theorem pushPage_empty (h : m.head l = 0) :
    SameLinks ((m.setHead l a).setTail l a) (m.pushPage l a) ∧
      (m.pushPage l a).clockHand = m.clockHand := by
  have hs : SameLinks m (m.modPage a fun d => { d with position := m.accessCounter.toUInt32 }) :=
    sameLinks_modPage rfl rfl
  unfold pushPage
  dsimp only
  rw [if_neg (show ¬(m.modPage a _).head l ≠ 0 from not_not.mpr h)]
  exact ⟨⟨hs.next, hs.prev, rfl, rfl, rfl, rfl, rfl, rfl⟩, rfl⟩

/-- A page put in front of others leads to the first of them. -/
theorem pushPage_front (h : m.head l ≠ 0) :
    (∀ b, (m.pushPage l a).next b = if b = a then m.head l else m.next b) ∧
      ∀ k, (m.pushPage l a).head k = if k = l then a else m.head k := by
  have hs : SameLinks m (m.modPage a fun d => { d with position := m.accessCounter.toUInt32 }) :=
    sameLinks_modPage rfl rfl
  unfold pushPage
  dsimp only
  rw [if_pos (show (m.modPage a _).head l ≠ 0 from h)]
  refine ⟨fun b => ?_, fun k => head_setHead k⟩
  refine (next_setNext b).trans ?_
  rw [next_setPrev]
  exact if_congr Iff.rfl rfl (congrFun hs.next b)

theorem addTo_of_list {algorithm : PageReplacementAlgorithm} (h : algorithm.list = some l) :
    m.addTo algorithm a = m.pushPage l a := by
  cases algorithm with
  | lru => exact Option.some.inj h ▸ rfl
  | fifo => exact Option.some.inj h ▸ rfl
  | clock => exact nomatch h
  | lruEnhanced => exact Option.some.inj h ▸ rfl

theorem removeFrom_of_list {algorithm : PageReplacementAlgorithm} (h : algorithm.list = some l) :
    m.removeFrom algorithm a = m.unlinkPage l a := by
  cases algorithm with
  | lru => exact Option.some.inj h ▸ rfl
  | fifo => exact Option.some.inj h ▸ rfl
  | clock => exact nomatch h
  | lruEnhanced => exact Option.some.inj h ▸ rfl

theorem next_skipNext (b : Nat) :
    (m.skipNext l a).next b = if m.prev a ≠ 0 ∧ b = m.prev a then m.next a else m.next b := by
  unfold skipNext
  by_cases h : m.prev a = 0
  · rw [if_neg (not_not.mpr h), if_neg (fun hc => hc.1 h)]
    rfl
  · rw [if_pos h, next_setNext]
    simp only [ne_eq, h, not_false_eq_true, true_and]

theorem prev_skipNext : (m.skipNext l a).prev = m.prev := by
  unfold skipNext
  split
  · exact prev_setNext
  · rfl

theorem head_skipNext (k : PageList) :
    (m.skipNext l a).head k = if m.prev a = 0 ∧ k = l then m.next a else m.head k := by
  unfold skipNext
  by_cases h : m.prev a = 0
  · rw [if_neg (not_not.mpr h), head_setHead]
    simp only [h, true_and]
  · rw [if_pos h, if_neg (fun hc => h hc.1)]
    rfl

theorem skipNext_rest : (m.skipNext l a).tail = m.tail ∧
    (m.skipNext l a).totalPages = m.totalPages ∧ (m.skipNext l a).tracked = m.tracked ∧
    (m.skipNext l a).currentAlgorithm = m.currentAlgorithm ∧
    (m.skipNext l a).clockHand = m.clockHand ∧ (m.skipNext l a).clockSize = m.clockSize ∧
    (m.skipNext l a).stats = m.stats := by
  unfold skipNext
  split <;> exact ⟨rfl, rfl, rfl, rfl, rfl, rfl, rfl⟩

theorem prev_skipPrev (b : Nat) :
    (m.skipPrev l a).prev b = if m.next a ≠ 0 ∧ b = m.next a then m.prev a else m.prev b := by
  unfold skipPrev
  by_cases h : m.next a = 0
  · rw [if_neg (not_not.mpr h), if_neg (fun hc => hc.1 h)]
    rfl
  · rw [if_pos h, prev_setPrev]
    simp only [ne_eq, h, not_false_eq_true, true_and]

theorem next_skipPrev : (m.skipPrev l a).next = m.next := by
  unfold skipPrev
  split
  · exact next_setPrev
  · rfl

theorem tail_skipPrev (k : PageList) :
    (m.skipPrev l a).tail k = if m.next a = 0 ∧ k = l then m.prev a else m.tail k := by
  unfold skipPrev
  by_cases h : m.next a = 0
  · rw [if_neg (not_not.mpr h), tail_setTail]
    simp only [h, true_and]
  · rw [if_pos h, if_neg (fun hc => h hc.1)]
    rfl

theorem skipPrev_rest : (m.skipPrev l a).head = m.head ∧
    (m.skipPrev l a).totalPages = m.totalPages ∧ (m.skipPrev l a).tracked = m.tracked ∧
    (m.skipPrev l a).currentAlgorithm = m.currentAlgorithm ∧
    (m.skipPrev l a).clockHand = m.clockHand ∧ (m.skipPrev l a).clockSize = m.clockSize ∧
    (m.skipPrev l a).stats = m.stats := by
  unfold skipPrev
  split <;> exact ⟨rfl, rfl, rfl, rfl, rfl, rfl, rfl⟩

/-- Unlinking edits links and the ends of the list, and nothing else. -/
theorem unlinkPage_rest : (m.unlinkPage l a).totalPages = m.totalPages ∧
    (m.unlinkPage l a).tracked = m.tracked ∧
    (m.unlinkPage l a).currentAlgorithm = m.currentAlgorithm ∧
    (m.unlinkPage l a).clockHand = m.clockHand ∧ (m.unlinkPage l a).clockSize = m.clockSize ∧
    (m.unlinkPage l a).stats = m.stats := by
  obtain ⟨_, h₁, h₂, h₃, h₄, h₅, h₆⟩ := skipNext_rest (m := m) (l := l) (a := a)
  obtain ⟨_, k₁, k₂, k₃, k₄, k₅, k₆⟩ := skipPrev_rest (m := m.skipNext l a) (l := l) (a := a)
  exact ⟨k₁.trans h₁, k₂.trans h₂, k₃.trans h₃, k₄.trans h₄, k₅.trans h₅, k₆.trans h₆⟩

theorem next_skipNext_self (hp : m.prev a ≠ a) : (m.skipNext l a).next a = m.next a := by
  rw [next_skipNext, if_neg (fun hc => hp hc.2.symm)]

theorem next_unlinkPage (b : Nat) :
    (m.unlinkPage l a).next b = if m.prev a ≠ 0 ∧ b = m.prev a then m.next a else m.next b := by
  unfold unlinkPage
  rw [next_skipPrev, next_skipNext]

theorem prev_unlinkPage (hp : m.prev a ≠ a) (b : Nat) :
    (m.unlinkPage l a).prev b = if m.next a ≠ 0 ∧ b = m.next a then m.prev a else m.prev b := by
  unfold unlinkPage
  rw [prev_skipPrev, next_skipNext_self hp, prev_skipNext]

theorem head_unlinkPage (k : PageList) :
    (m.unlinkPage l a).head k = if m.prev a = 0 ∧ k = l then m.next a else m.head k := by
  unfold unlinkPage
  rw [skipPrev_rest.1, head_skipNext]

theorem tail_unlinkPage (hp : m.prev a ≠ a) (k : PageList) :
    (m.unlinkPage l a).tail k = if m.next a = 0 ∧ k = l then m.prev a else m.tail k := by
  unfold unlinkPage
  rw [tail_skipPrev, next_skipNext_self hp, prev_skipNext, skipNext_rest.1]

/-- A page without neighbours leaves a list empty. -/
theorem unlinkPage_alone (hn : m.next a = 0) (hp : m.prev a = 0) :
    m.unlinkPage l a = (m.setHead l 0).setTail l 0 := by
  unfold unlinkPage skipPrev skipNext
  rw [if_neg (not_not.mpr hp), hn,
    if_neg (show ¬(m.setHead l 0).next a ≠ 0 from not_not.mpr hn)]
  exact congrArg ((m.setHead l 0).setTail l) hp

theorem next_appendPage (b : Nat) :
    (m.appendPage a).next b = if m.tail .pages ≠ 0 ∧ b = m.tail .pages then a else m.next b := by
  unfold appendPage
  by_cases h : m.tail .pages = 0
  · rw [if_neg (not_not.mpr h), if_neg (fun hc => hc.1 h)]
    rfl
  · rw [if_pos h]
    refine Eq.trans (congrFun next_setPrev b) ?_
    rw [next_setNext]
    simp only [ne_eq, h, not_false_eq_true, true_and]

theorem prev_appendPage (b : Nat) :
    (m.appendPage a).prev b = if m.tail .pages ≠ 0 ∧ b = a then m.tail .pages else m.prev b := by
  unfold appendPage
  by_cases h : m.tail .pages = 0
  · rw [if_neg (not_not.mpr h), if_neg (fun hc => hc.1 h)]
    rfl
  · rw [if_pos h]
    refine Eq.trans (prev_setPrev b) ?_
    rw [prev_setNext]
    simp only [ne_eq, h, not_false_eq_true, true_and]

theorem head_appendPage (k : PageList) :
    (m.appendPage a).head k = if m.tail .pages = 0 ∧ k = .pages then a else m.head k := by
  unfold appendPage
  by_cases h : m.tail .pages = 0
  · rw [if_neg (not_not.mpr h)]
    refine Eq.trans (head_setHead k) ?_
    simp only [h, true_and]
  · rw [if_pos h, if_neg (fun hc => h hc.1)]
    rfl

theorem tail_appendPage (k : PageList) :
    (m.appendPage a).tail k = if k = .pages then a else m.tail k := by
  unfold appendPage
  split
  · exact tail_setTail k
  · exact tail_setTail k

theorem appendPage_rest : (m.appendPage a).totalPages = m.totalPages ∧
    (m.appendPage a).tracked = m.tracked ∧
    (m.appendPage a).currentAlgorithm = m.currentAlgorithm ∧
    (m.appendPage a).clockHand = m.clockHand ∧ (m.appendPage a).clockSize = m.clockSize ∧
    (m.appendPage a).stats = m.stats := by
  unfold appendPage
  split <;> exact ⟨rfl, rfl, rfl, rfl, rfl, rfl⟩

/-- `m'` is `m` with a new page at the end of the page list. -/
structure Enlisted (m m' : PageReplacementManager) (a : Nat) : Prop where
  next : ∀ b, m'.next b =
    if m.tail .pages ≠ 0 ∧ b = m.tail .pages then a else if b = a then 0 else m.next b
  prev : ∀ b, m'.prev b =
    if m.tail .pages ≠ 0 ∧ b = a then m.tail .pages else if b = a then 0 else m.prev b
  head : ∀ k, m'.head k = if m.tail .pages = 0 ∧ k = .pages then a else m.head k
  tail : ∀ k, m'.tail k = if k = .pages then a else m.tail k
  totalPages : m'.totalPages = m.totalPages
  tracked : m'.tracked = m.tracked ++ [a]
  currentAlgorithm : m'.currentAlgorithm = m.currentAlgorithm
  clockHand : m'.clockHand = m.clockHand
  clockSize : m'.clockSize = m.clockSize

theorem enlisted (m : PageReplacementManager) (virtualAddr physicalAddr flags : UInt32) (a : Nat) :
    Enlisted m (m.enlistPage virtualAddr physicalAddr flags a) a := by
  obtain ⟨h₁, h₂, h₃, h₄, h₅, _⟩ := appendPage_rest (a := a)
    (m := { (m.getSystemTime.1.modPage a fun _ =>
      newPage virtualAddr physicalAddr flags m.getSystemTime.2) with tracked := m.tracked ++ [a] })
  unfold enlistPage
  refine ⟨fun b => ?_, fun b => ?_, fun k => head_appendPage k, fun k => tail_appendPage k,
    h₁, h₂, h₃, h₄, h₅⟩
  · rw [next_appendPage]
    congr 1
    exact @next_modPage m.getSystemTime.1 a (fun _ => newPage virtualAddr physicalAddr flags _) b
  · rw [prev_appendPage]
    congr 1
    exact @prev_modPage m.getSystemTime.1 a (fun _ => newPage virtualAddr physicalAddr flags _) b

/-- CLOCK counts a page, and points at it if it pointed at none. -/
theorem clockAddPage_links : SameLinks { m with clockSize := inc32 m.clockSize } (m.clockAddPage a) ∧
    (m.clockAddPage a).clockHand = if m.clockHand = 0 then a else m.clockHand := by
  have hs : SameLinks m (m.modPage a fun d => { d with referenceBit := 1, position := 0 }) :=
    sameLinks_modPage rfl rfl
  unfold clockAddPage
  dsimp only
  rw [if_congr (show (m.modPage a _).clockHand = 0 ↔ m.clockHand = 0 from Iff.rfl) rfl rfl]
  split
  · exact ⟨⟨hs.next, hs.prev, rfl, rfl, rfl, rfl, rfl, rfl⟩, rfl⟩
  · exact ⟨⟨hs.next, hs.prev, rfl, rfl, rfl, rfl, rfl, rfl⟩, rfl⟩

/-- CLOCK counts a page off, and moves on if it pointed at it. -/
theorem clockRemovePage_links :
    SameLinks { m with clockSize := dec32 m.clockSize } (m.clockRemovePage a) ∧
      (m.clockRemovePage a).clockHand =
        if m.clockHand = a then (if m.nextOrHead a = a then 0 else m.nextOrHead a)
        else m.clockHand := by
  unfold clockRemovePage
  dsimp only
  by_cases h : m.clockHand = a
  · rw [if_pos h, if_pos h]
    exact ⟨⟨rfl, rfl, rfl, rfl, rfl, rfl, rfl, rfl⟩, rfl⟩
  · rw [if_neg h, if_neg h]
    exact ⟨⟨rfl, rfl, rfl, rfl, rfl, rfl, rfl, rfl⟩, rfl⟩

theorem removeFrom_tracked (algorithm : PageReplacementAlgorithm) :
    (m.removeFrom algorithm a).totalPages = m.totalPages ∧
      (m.removeFrom algorithm a).tracked = m.tracked := by
  cases algorithm with
  | lru => exact ⟨unlinkPage_rest.1, unlinkPage_rest.2.1⟩
  | fifo => exact ⟨unlinkPage_rest.1, unlinkPage_rest.2.1⟩
  | clock => exact ⟨clockRemovePage_links.1.totalPages, clockRemovePage_links.1.tracked⟩
  | lruEnhanced => exact ⟨unlinkPage_rest.1, unlinkPage_rest.2.1⟩

/-! ## Counts and statistics -/

/-- The `access_count` of each page. -/
def counts (m : PageReplacementManager) (a : Nat) : UInt32 := (m.page a).accessCount

theorem counts_modPage {f : PageDescriptor → PageDescriptor} (b : Nat) :
    (m.modPage a f).counts b = if b = a then (f (m.page a)).accessCount else m.counts b := by
  unfold counts modPage
  by_cases hb : b = a
  · subst hb
    rw [if_pos rfl]
    exact congrArg PageDescriptor.accessCount (Function.update_self b _ m.page)
  · rw [if_neg hb]
    exact congrArg PageDescriptor.accessCount (Function.update_of_ne hb _ m.page)

theorem counts_modPage_same {f : PageDescriptor → PageDescriptor}
    (hf : (f (m.page a)).accessCount = m.counts a) : (m.modPage a f).counts = m.counts := by
  funext b
  rw [counts_modPage]
  split
  · next hb => rw [hf, hb]
  · rfl

theorem counts_setNext {v : Nat} : (m.setNext a v).counts = m.counts := counts_modPage_same rfl

theorem counts_setPrev {v : Nat} : (m.setPrev a v).counts = m.counts := counts_modPage_same rfl

theorem counts_setHead {v : Nat} : (m.setHead l v).counts = m.counts := rfl

theorem counts_setTail {v : Nat} : (m.setTail l v).counts = m.counts := rfl

theorem counts_unlinkPage : (m.unlinkPage l a).counts = m.counts := by
  have h₁ : (m.skipNext l a).counts = m.counts := by
    unfold skipNext
    split
    · exact counts_setNext
    · exact counts_setHead
  refine Eq.trans ?_ h₁
  unfold unlinkPage skipPrev
  split
  · exact counts_setPrev
  · exact counts_setTail

theorem counts_pushPage : (m.pushPage l a).counts = m.counts := by
  have h₁ : (m.modPage a fun d => { d with position := m.accessCounter.toUInt32 }).counts =
      m.counts := counts_modPage_same rfl
  unfold pushPage
  dsimp only
  split
  · rw [counts_setHead, counts_setNext, counts_setPrev]
    exact h₁
  · exact h₁

theorem counts_clockAddPage : (m.clockAddPage a).counts = m.counts ∧
    (m.clockAddPage a).stats = m.stats := by
  have h₁ : (m.modPage a fun d => { d with referenceBit := 1, position := 0 }).counts =
      m.counts := counts_modPage_same rfl
  unfold clockAddPage
  dsimp only
  split <;> exact ⟨h₁, rfl⟩

theorem counts_clockRemovePage : (m.clockRemovePage a).counts = m.counts ∧
    (m.clockRemovePage a).stats = m.stats := by
  unfold clockRemovePage
  dsimp only
  split <;> exact ⟨rfl, rfl⟩

theorem counts_appendPage : (m.appendPage a).counts = m.counts := by
  unfold appendPage
  split
  · rw [counts_setTail, counts_setPrev, counts_setNext]
  · rfl

/-- A new page has been accessed once. -/
theorem counts_enlistPage (virtualAddr physicalAddr flags : UInt32) (b : Nat) :
    (m.enlistPage virtualAddr physicalAddr flags a).counts b = if b = a then 1 else m.counts b := by
  unfold enlistPage
  rw [counts_appendPage]
  exact @counts_modPage m.getSystemTime.1 a (fun _ => newPage virtualAddr physicalAddr flags _) b

end PageReplacementManager

end KmOS
