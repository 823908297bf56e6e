/-
# `KmOS.Slob.Invariant` — the pages of the heap

`Pages z bs` is what the allocator maintains: the pages it holds form a doubly
linked list, each is cut into the blocks `bs` names for it, with free
neighbours joined, and the two counters agree with the pages and their live
blocks.  An operation inside one page leaves the others alone (`Pages.change`);
taking a page from the buddy allocator and giving one back are `Pages.allocPage`
and `Pages.freePage`.
-/
import KmOS.Lib.Regions
import KmOS.Slob.Merge

namespace KmOS

namespace Slob

variable {m m' : Memory} {z : Slob} {P Q a : Nat} {l : List Nat} {bs' : List SlobBlock}
  {bs : Nat → List SlobBlock}

/-! ## One page -/

/-- A page: its header, and the blocks it is cut into. -/
structure PageInv (m : Memory) (P : Nat) (bs : List SlobBlock) : Prop where
  nonnull : P ≠ 0
  inSpace : P + slobBlockSize < wordSize
  addr : pageAddr m P = P
  total : totalSize m P = slobBlockSize
  layout : Layout m P bs
  free : freeSize m P = freeBytes bs
  apart : NoAdjacent bs

/-- A page's invariant reads the page, its links excepted. -/
theorem PageInv.congr {bs : List SlobBlock} (h : PageInv m Q bs)
    (hag : ∀ c, Q ≤ c ∧ c < Q + 20 ∨ Q + sizeofSlobPage ≤ c ∧ c < Q + slobBlockSize → m' c = m c) :
    PageInv m' Q bs := by
  have hw : ∀ k, k + 4 ≤ 20 → m'.load32 (Q + k) = m.load32 (Q + k) :=
    fun k hk => Memory.load32_congr (fun c _ _ => hag c (by omega))
  refine ⟨h.nonnull, h.inSpace, (hw 0 (by decide)).trans h.addr, (hw 4 (by decide)).trans h.total,
    h.layout.congr (fun c hc => hag c (by omega)), (hw 8 (by decide)).trans h.free, h.apart⟩

/-- A page whose blocks have been rewritten in place. -/
theorem PageInv.rewrite {bs : List SlobBlock} (h : PageInv m P bs) (hw : Within 8 P m m')
    (hl : Layout m' P bs') (hf : freeSize m' P = freeBytes bs') (ha : NoAdjacent bs') :
    PageInv m' P bs' := by
  have hword : ∀ k, k + 4 ≤ 8 → m'.load32 (P + k) = m.load32 (P + k) :=
    fun k hk => Memory.load32_congr (fun c _ _ => hw c (Or.inl (by omega)))
  exact ⟨h.nonnull, h.inSpace, (hword 0 (by decide)).trans h.addr,
    (hword 4 (by decide)).trans h.total, hl, hf, ha⟩

/-! ## All pages -/

/-- The allocator's state, with the blocks of each page. -/
structure Pages (z : Slob) (bs : Nat → List SlobBlock) : Prop where
  list : Dll 0 (pageNext z.mem) (pagePrev z.mem) 0 z.pages z.held
  page : ∀ P ∈ z.held, PageInv z.mem P (bs P)
  disjoint : Disjoints id (fun _ => slobBlockSize) z.held
  count : z.totalPages = z.held.length
  allocated : z.totalAllocated = (z.held.map (fun P => liveBytes (bs P))).sum

theorem Pages.nodup (h : Pages z bs) : z.held.Nodup :=
  h.disjoint.imp (fun {p q} hpq => by
    unfold slobBlockSize at hpq
    simp only [id] at hpq
    omega)

theorem Pages.apart (h : Pages z bs) (hP : P ∈ z.held) (hQ : Q ∈ z.held) (hne : P ≠ Q) :
    P + slobBlockSize ≤ Q ∨ Q + slobBlockSize ≤ P :=
  h.disjoint.of_ne hP hQ hne

/-- A block lies in one page only. -/
theorem Pages.page_unique (h : Pages z bs) (hP : P ∈ z.held) (hQ : Q ∈ z.held)
    (h₁ : P ≤ a ∧ a < P + slobBlockSize) (h₂ : Q ≤ a ∧ a < Q + slobBlockSize) : P = Q := by
  by_contra hne
  have := h.apart hP hQ hne
  omega

theorem Layout.mem_page {bs : List SlobBlock} (h : Layout m P bs) {x : SlobBlock} (hx : x ∈ bs) :
    P ≤ x.addr ∧ x.addr < P + slobBlockSize := by
  have hb := h.tiles.bounds hx
  unfold sizeofSlobBlock at hb
  omega

/-- The live bytes of some pages do not reach the size of the address space. -/
theorem live_sum_lt (bs : Nat → List SlobBlock) (hd : Disjoints id (fun _ => slobBlockSize) l)
    (h : ∀ P ∈ l, P + slobBlockSize < wordSize ∧
      Tiles (P + sizeofSlobPage) (bs P) (P + slobBlockSize)) :
    (l.map (fun P => liveBytes (bs P))).sum < wordSize := by
  refine sum_weights_lt hd (by decide) (fun P hP => ⟨?_, (h P hP).1⟩)
  have := (h P hP).2.bytes
  omega

/-- There are fewer pages than addresses. -/
theorem length_lt (hd : Disjoints id (fun _ => slobBlockSize) l)
    (h : ∀ P ∈ l, P + slobBlockSize < wordSize) : l.length < wordSize := by
  have hsum := sum_weights_lt (w := fun _ => 1) hd (by decide) (fun P hP => ⟨by decide, h P hP⟩)
  rwa [List.map_const', List.sum_replicate_nat, Nat.mul_one] at hsum

/-- Replacing the blocks of one page changes the sum by that page's share. -/
theorem sum_update (bs : Nat → List SlobBlock) (bs' : List SlobBlock) (hnd : l.Nodup) (hP : P ∈ l) :
    (l.map (fun Q => liveBytes (Function.update bs P bs' Q))).sum + liveBytes (bs P) =
      (l.map (fun Q => liveBytes (bs Q))).sum + liveBytes bs' := by
  have := sum_map_change (f := fun Q => liveBytes (bs Q))
    (g := fun Q => liveBytes (Function.update bs P bs' Q)) hnd hP
    (fun Q _ hne => by rw [Function.update_of_ne hne])
  rwa [Function.update_self] at this

/-- A change inside one page spares the words the page list is made of. -/
theorem Pages.words_within (h : Pages z bs) (hP : P ∈ z.held) (hw : Within 8 P z.mem m') (hQ : Q ∈ z.held)
    {k : Nat} (hk : k + 4 ≤ 8 ∨ 20 ≤ k ∧ k + 4 ≤ 28) : m'.load32 (Q + k) = z.mem.load32 (Q + k) := by
  have hdisj : Q = P ∨ P + slobBlockSize ≤ Q ∨ Q + slobBlockSize ≤ P := by
    by_cases e : Q = P
    · exact Or.inl e
    · exact Or.inr ((h.apart hQ hP e).symm)
  refine Memory.load32_congr (fun c _ _ => hw c ?_)
  unfold slobBlockSize sizeofSlobPage at *
  omega

theorem Pages.list_within (h : Pages z bs) (hP : P ∈ z.held) (hw : Within 8 P z.mem m') :
    Dll 0 (pageNext m') (pagePrev m') 0 z.pages z.held :=
  h.list.congr (fun _ hQ =>
    ⟨h.words_within hP hw hQ (Or.inr (by decide)), h.words_within hP hw hQ (Or.inr (by decide))⟩)

/-- **Inside one page.**  The other pages keep their blocks. -/
theorem Pages.change (h : Pages z bs) (hP : P ∈ z.held) (hw : Within 8 P z.mem m')
    (hl : Layout m' P bs') (hf : freeSize m' P = freeBytes bs') (ha : NoAdjacent bs')
    {t : Nat} (ht : t + liveBytes (bs P) = z.totalAllocated + liveBytes bs') :
    Pages { z with mem := m', totalAllocated := t } (Function.update bs P bs') := by
  refine ⟨h.list_within hP hw, fun Q hQ => ?_, h.disjoint, h.count, ?_⟩
  · by_cases e : Q = P
    · subst e
      rw [Function.update_self]
      exact (h.page Q hQ).rewrite hw hl hf ha
    · rw [Function.update_of_ne e]
      refine (h.page Q hQ).congr (fun c hc => hw c ?_)
      have := h.apart hQ hP e
      unfold slobBlockSize sizeofSlobPage at *
      omega
  · have hsum := sum_update bs bs' h.nodup hP
    have := h.allocated
    dsimp only
    omega

/-! ## Taking a page -/

/-- What `alloc_page` writes. -/
structure FreshPage (m m' : Memory) (P pages : Nat) : Prop where
  addr : pageAddr m' P = P
  total : totalSize m' P = slobBlockSize
  free : freeSize m' P = slobBlockSize - sizeofSlobPage
  list : freeList m' P = P + sizeofSlobPage
  next : pageNext m' P = pages
  prev : pagePrev m' P = 0
  block : header m' (P + sizeofSlobPage) = ⟨slobBlockSize - sizeofSlobPage, 0, 0, 0⟩
  back : pages ≠ 0 → pagePrev m' pages = P
  other : ∀ c, (c < P ∨ P + slobBlockSize ≤ c) → (c < pages + 24 ∨ pages + 28 ≤ c) → m' c = m c

/-- The page's header as `alloc_page` first writes it. -/
theorem pageWords (m : Memory) {pages : Nat} (hP : P < 4294967296) (hz : pages < 4294967296) :
    let m' := setPagePrev (setPageNext (setFragmentation (setFreeSize (setTotalSize
      (setPageAddr m P P) P slobBlockSize) P (slobBlockSize - sizeofSlobPage)) P 0) P pages) P 0
    pageAddr m' P = P ∧ totalSize m' P = slobBlockSize ∧
      freeSize m' P = slobBlockSize - sizeofSlobPage ∧ pageNext m' P = pages ∧ pagePrev m' P = 0 ∧
      ∀ c, (c < P ∨ P + 28 ≤ c) → m' c = m c := by
  have hap : Memory.Apart 28 P P := Or.inl rfl
  have hP' : P % 4294967296 = P := Nat.mod_eq_of_lt hP
  have hz' : pages % 4294967296 = pages := Nat.mod_eq_of_lt hz
  refine ⟨?_, ?_, ?_, ?_, ?_, fun c hc => ?_⟩
  all_goals
    simp only [pageAddr, totalSize, freeSize, pageNext, pagePrev, setPagePrev, setPageNext,
      setFragmentation, setFreeSize, setTotalSize, setPageAddr]
  · simp (disch := decide) only [Memory.load32_store32_field hap]
    simp [hP']
  · simp (disch := decide) [Memory.load32_store32_field hap, slobBlockSize]
  · simp (disch := decide) [Memory.load32_store32_field hap, slobBlockSize, sizeofSlobPage]
  · simp (disch := decide) [Memory.load32_store32_field hap, hz']
  · simp (disch := decide) [Memory.load32_store32_field hap]
  · iterate 6 rw [Memory.store32_eq_of_outside (by omega)]

/-- The four words of a block's header, and nothing else. -/
theorem initBlock_other {b sz : Nat} {c : Nat} (hc : c < b ∨ b + sizeofSlobBlock ≤ c) :
    setPrev (setNext (setMagic (setSize m b sz) b 0) b 0) b 0 c = m c := by
  unfold sizeofSlobBlock at hc
  unfold setPrev setNext setMagic setSize
  iterate 4 rw [Memory.store32_eq_of_outside (by omega)]

theorem freshPage_initPage {pages : Nat} (hP : P + slobBlockSize < wordSize)
    (hz : pages < wordSize)
    (hsep : pages ≠ 0 → P + slobBlockSize ≤ pages ∨ pages + slobBlockSize ≤ P) :
    FreshPage m (initPage m P pages) P pages := by
  have hadd : add32 P sizeofSlobPage = P + sizeofSlobPage :=
    add32_eq (by unfold sizeofSlobPage slobBlockSize at *; omega)
  have hP' : P < wordSize := by omega
  obtain ⟨haddr, htotal, hfree, hnext, hprev, hout⟩ := pageWords m hP' hz
  unfold initPage
  dsimp only
  generalize setPagePrev (setPageNext (setFragmentation (setFreeSize (setTotalSize
      (setPageAddr m P P) P slobBlockSize) P (slobBlockSize - sizeofSlobPage)) P 0) P pages) P 0 =
    m₁ at haddr htotal hfree hnext hprev hout ⊢
  -- the back link of the page that was first so far
  have hback : ∀ c, (c < pages + 24 ∨ pages + 28 ≤ c) →
      (if pages ≠ 0 then setPagePrev m₁ pages P else m₁) c = m₁ c := by
    intro c hc
    split
    · exact Memory.store32_eq_of_outside (by omega)
    · rfl
  have hprev' : pages ≠ 0 → pagePrev (if pages ≠ 0 then setPagePrev m₁ pages P else m₁) pages = P := by
    intro hne
    rw [if_pos hne]
    exact (Memory.load32_store32 m₁ (pages + 24) P).trans (Nat.mod_eq_of_lt hP')
  have hword : ∀ k, k + 4 ≤ 28 →
      (if pages ≠ 0 then setPagePrev m₁ pages P else m₁).load32 (P + k) = m₁.load32 (P + k) := by
    intro k hk
    split
    · next hne =>
        refine Memory.load32_store32_of_disjoint ?_
        have := hsep hne
        unfold slobBlockSize at this
        omega
    · rfl
  generalize (if pages ≠ 0 then setPagePrev m₁ pages P else m₁) = m₂ at hback hprev' hword ⊢
  have hfree₂ : freeSize m₂ P = slobBlockSize - sizeofSlobPage := (hword 8 (by decide)).trans hfree
  rw [hadd, hfree₂]
  -- the initial block, behind the page's header
  have hblock := header_init (m := m₂) (a := P + sizeofSlobPage) (b := P + sizeofSlobPage) (Or.inl rfl)
    (by decide : slobBlockSize - sizeofSlobPage < wordSize) (by decide : 0 < wordSize)
    (by decide : 0 < wordSize) (by decide : 0 < wordSize)
  rw [if_pos rfl] at hblock
  have hother : ∀ c, (c < P + sizeofSlobPage ∨ P + sizeofSlobPage + sizeofSlobBlock ≤ c) →
      setPrev (setNext (setMagic (setSize m₂ (P + sizeofSlobPage) (slobBlockSize - sizeofSlobPage))
        (P + sizeofSlobPage) 0) (P + sizeofSlobPage) 0) (P + sizeofSlobPage) 0 c = m₂ c :=
    fun c hc => initBlock_other hc
  generalize setPrev (setNext (setMagic (setSize m₂ (P + sizeofSlobPage)
    (slobBlockSize - sizeofSlobPage)) (P + sizeofSlobPage) 0) (P + sizeofSlobPage) 0)
    (P + sizeofSlobPage) 0 = m₃ at hblock hother ⊢
  have hword₃ : ∀ k, k + 4 ≤ 28 → k + 4 ≤ 16 ∨ 20 ≤ k →
      (setFreeList m₃ P (P + sizeofSlobPage)).load32 (P + k) = m₁.load32 (P + k) := by
    intro k hk hk'
    rw [← hword k hk]
    refine (Memory.load32_store32_of_disjoint (by omega)).trans ?_
    exact Memory.load32_congr (fun c _ _ => hother c (by unfold sizeofSlobPage; omega))
  unfold sizeofSlobPage sizeofSlobBlock at hother
  exact
    { addr := (hword₃ 0 (by decide) (by decide)).trans haddr
      total := (hword₃ 4 (by decide) (by decide)).trans htotal
      free := (hword₃ 8 (by decide) (by decide)).trans hfree
      list := by
        refine (Memory.load32_store32 m₃ (P + 16) _).trans (Nat.mod_eq_of_lt ?_)
        unfold sizeofSlobPage slobBlockSize wordSize at *
        omega
      next := (hword₃ 20 (by decide) (by decide)).trans hnext
      prev := (hword₃ 24 (by decide) (by decide)).trans hprev
      block := (header_page_store (by decide) (Nat.le_refl _)).trans hblock
      back := by
        intro hne
        have := hsep hne
        unfold slobBlockSize at this
        refine Eq.trans ?_ (hprev' hne)
        refine Memory.load32_congr (fun c _ _ => ?_)
        rw [show setFreeList m₃ P (P + sizeofSlobPage) c = m₃ c from
          Memory.store32_eq_of_outside (by omega)]
        exact hother c (by omega)
      other := by
        intro c hc hc'
        unfold slobBlockSize at hc
        rw [show setFreeList m₃ P (P + sizeofSlobPage) c = m₃ c from
          Memory.store32_eq_of_outside (by omega), hother c (by omega), hback c hc']
        exact hout c (by omega) }

/-- The one block of a new page. -/
def freshBlocks (P : Nat) : List SlobBlock :=
  [⟨P + sizeofSlobPage, slobBlockSize - sizeofSlobPage, false⟩]

theorem FreshPage.pageInv {pages : Nat} (h : FreshPage m m' P pages) (hP : P ≠ 0)
    (hP' : P + slobBlockSize < wordSize) : PageInv m' P (freshBlocks P) := by
  refine ⟨hP, hP', h.addr, h.total, ⟨?_, ?_, ?_, ?_⟩, h.free, .singleton _⟩
  · have hsize : sizeofSlobBlock ≤ slobBlockSize - sizeofSlobPage := by decide
    refine ⟨rfl, hsize, ?_⟩
    show P + sizeofSlobPage + (slobBlockSize - sizeofSlobPage) = P + slobBlockSize
    unfold sizeofSlobPage slobBlockSize
    omega
  · intro x hx
    rw [List.mem_singleton.mp hx]
    exact congrArg BlockHeader.size h.block
  · intro x hx hlive
    rw [List.mem_singleton.mp hx] at hlive
    exact nomatch hlive
  · have hne : P + sizeofSlobPage ≠ 0 := by omega
    exact ⟨h.list, hne, congrArg BlockHeader.prev h.block, congrArg BlockHeader.next h.block⟩

theorem pages_lt (h : Pages z bs) : z.pages < wordSize := by
  by_cases hz : z.pages = 0
  · rw [hz]
    decide
  · obtain ⟨t, ht⟩ := h.list.exists_cons hz
    have := (h.page z.pages (by rw [ht]; exact List.mem_cons_self)).inSpace
    omega

/-- **A page from the buddy allocator** joins the others. -/
theorem Pages.allocPage (h : Pages z bs) (hok : SlobHeap.PageOk z.held (some P)) :
    Pages (z.allocPage (some P)).1 (Function.update bs P (freshBlocks P)) ∧
      (z.allocPage (some P)).1.held = P :: z.held ∧ (z.allocPage (some P)).2 = P := by
  obtain ⟨hpos, hspace, hdis⟩ := hok
  have hP : P ≠ 0 := by omega
  have hfirst : z.pages ≠ 0 → z.pages ∈ z.held := by
    intro hz
    obtain ⟨t, ht⟩ := h.list.exists_cons hz
    rw [ht]
    exact List.mem_cons_self
  have hfresh := freshPage_initPage (m := z.mem) hspace (pages_lt h) (fun hz => hdis _ (hfirst hz))
  have hnot : ∀ Q ∈ z.held, Q ≠ P := by
    intro Q hQ e
    have := hdis Q hQ
    unfold slobBlockSize at this
    omega
  have hd : Disjoints id (fun _ => slobBlockSize) (P :: z.held) :=
    List.pairwise_cons.mpr ⟨hdis, h.disjoint⟩
  have hspaces : ∀ Q ∈ P :: z.held, Q + slobBlockSize < wordSize := by
    intro Q hQ
    rcases List.mem_cons.mp hQ with rfl | hQ
    · exact hspace
    · exact (h.page Q hQ).inSpace
  -- a page that was there before keeps its words, but for the first one's back link
  have hkeep : ∀ Q ∈ z.held, ∀ c, Q ≤ c → c < Q + slobBlockSize →
      (c < Q + 24 ∨ Q + 28 ≤ c ∨ Q ≠ z.pages) → initPage z.mem P z.pages c = z.mem c := by
    intro Q hQ c h₁ h₂ h₃
    have := hdis Q hQ
    refine hfresh.other c (by omega) ?_
    by_cases hz : z.pages = 0
    · rw [h.list.head_eq_null_iff.mp hz] at hQ
      exact nomatch hQ
    · by_cases e : Q = z.pages
      · omega
      · have := h.apart hQ (hfirst hz) e
        unfold slobBlockSize at *
        omega
  refine ⟨⟨?_, ?_, hd, ?_, ?_⟩, rfl, rfl⟩
  · refine h.list.push h.nodup hP hfresh.next hfresh.prev hfresh.back (fun Q hQ => ⟨?_, fun hne => ?_⟩)
    · exact Memory.load32_congr (fun c _ _ => hkeep Q hQ c (by omega) (by unfold slobBlockSize; omega)
        (by omega))
    · exact Memory.load32_congr (fun c _ _ => hkeep Q hQ c (by omega) (by unfold slobBlockSize; omega)
        (Or.inr (Or.inr hne)))
  · intro Q hQ
    rcases List.mem_cons.mp hQ with rfl | hQ
    · rw [Function.update_self]
      exact hfresh.pageInv hP hspace
    · rw [Function.update_of_ne (hnot Q hQ)]
      refine (h.page Q hQ).congr (fun c hc => hkeep Q hQ c ?_ ?_ ?_)
      all_goals
        unfold sizeofSlobPage slobBlockSize at *
        omega
  · have hlt := length_lt hd hspaces
    have hcount := h.count
    show inc32 z.totalPages = (P :: z.held).length
    rw [hcount, inc32, Nat.mod_eq_of_lt (by simpa using hlt), List.length_cons]
  · have hsame : z.held.map (fun Q => liveBytes (Function.update bs P (freshBlocks P) Q)) =
        z.held.map (fun Q => liveBytes (bs Q)) :=
      List.map_congr_left (fun Q hQ => by rw [Function.update_of_ne (hnot Q hQ)])
    have hzero : liveBytes (freshBlocks P) = 0 := rfl
    show z.totalAllocated = ((P :: z.held).map _).sum
    rw [List.map_cons, List.sum_cons, hsame, Function.update_self, hzero, h.allocated, Nat.zero_add]

/-! ## Giving a page back -/

/-- `if (q) q->next = v`, seen from a page. -/
theorem pageLinks_setPageNext_if {q v : Nat} (hQ : Q ≠ 0) (hv : v < wordSize)
    (hap : q ≠ 0 → Memory.Apart sizeofSlobPage q Q) :
    pageNext (if q ≠ 0 then setPageNext m q v else m) Q = (if Q = q then v else pageNext m Q) ∧
      pagePrev (if q ≠ 0 then setPageNext m q v else m) Q = pagePrev m Q := by
  have hv' : v % 4294967296 = v := Nat.mod_eq_of_lt hv
  split
  · next hq =>
      unfold pageNext pagePrev setPageNext
      simp (disch := decide) only [Memory.load32_store32_field (hap hq), hv']
      simp
  · next hq =>
      have hne : Q ≠ q := fun e => hq (e ▸ hQ)
      exact ⟨(if_neg hne).symm, rfl⟩

/-- `if (q) q->prev = v`, likewise. -/
theorem pageLinks_setPagePrev_if {q v : Nat} (hQ : Q ≠ 0) (hv : v < wordSize)
    (hap : q ≠ 0 → Memory.Apart sizeofSlobPage q Q) :
    pageNext (if q ≠ 0 then setPagePrev m q v else m) Q = pageNext m Q ∧
      pagePrev (if q ≠ 0 then setPagePrev m q v else m) Q = (if Q = q then v else pagePrev m Q) := by
  have hv' : v % 4294967296 = v := Nat.mod_eq_of_lt hv
  split
  · next hq =>
      unfold pageNext pagePrev setPagePrev
      simp (disch := decide) only [Memory.load32_store32_field (hap hq), hv']
      simp
  · next hq =>
      have hne : Q ≠ q := fun e => hq (e ▸ hQ)
      exact ⟨rfl, (if_neg hne).symm⟩

/-- The memory of `free_page`: only the links of the two neighbours change. -/
structure PageUnlinked (m m' : Memory) (P : Nat) (held : List Nat) : Prop where
  next : ∀ Q ∈ held, pageNext m' Q = if Q = pagePrev m P then pageNext m P else pageNext m Q
  prev : ∀ Q ∈ held, pagePrev m' Q = if Q = pageNext m P then pagePrev m P else pagePrev m Q
  other : ∀ Q ∈ held, ∀ c, Q ≤ c ∧ c < Q + 20 ∨ Q + sizeofSlobPage ≤ c ∧ c < Q + slobBlockSize →
    m' c = m c

/-- Storing a link of the page `R`, if it is one, changes none of the other bytes
of a page. -/
theorem Pages.link_outside (h : Pages z bs) {Q R k v c : Nat} (hQ : Q ∈ z.held)
    (hR : R ≠ 0 → R ∈ z.held) (hk : k + 4 ≤ slobBlockSize)
    (hc : Q ≤ c ∧ c < Q + k ∨ Q + k + 4 ≤ c ∧ c < Q + slobBlockSize) (m : Memory) :
    (if R ≠ 0 then m.store32 (R + k) v else m) c = m c := by
  split
  · next hz =>
      refine Memory.store32_eq_of_outside ?_
      by_cases e : Q = R
      · omega
      · have := h.apart hQ (hR hz) e
        omega
  · rfl

theorem freePage_eq (h : Pages z bs) (hP : P ∈ z.held) :
    ∃ m', PageUnlinked z.mem m' P z.held ∧ z.freePage P =
      { z with
        pages := if P = z.pages then pageNext z.mem P else z.pages
        totalPages := dec32 z.totalPages
        totalFree := sub32 z.totalFree (freeSize m' P)
        held := z.held.erase P
        mem := m' } := by
  have hP0 := (h.page P hP).nonnull
  have hprevm : pagePrev z.mem P ≠ 0 → pagePrev z.mem P ∈ z.held :=
    fun hz => (h.list.prev_mem hP).resolve_left (fun e => hz e.2)
  have hnextm : pageNext z.mem P ≠ 0 → pageNext z.mem P ∈ z.held :=
    fun hz => (h.list.next_mem hP).resolve_left hz
  have hprev_ne : pagePrev z.mem P ≠ P := h.list.prev_ne h.nodup hP hP0
  have hprev_lt : pagePrev z.mem P < wordSize := Memory.load32_lt _ _
  have hnext_lt : pageNext z.mem P < wordSize := Memory.load32_lt _ _
  have hap : ∀ {Q R : Nat}, Q ∈ z.held → R ∈ z.held → Memory.Apart sizeofSlobPage Q R := by
    intro Q R hQ hR
    by_cases e : Q = R
    · exact Or.inl e
    · have := h.apart hQ hR e
      unfold slobBlockSize at this
      unfold sizeofSlobPage
      exact Or.inr (by omega)
  -- the links after the first store, read at any page
  have h₁ : ∀ Q ∈ z.held, _ := fun Q hQ => pageLinks_setPageNext_if (m := z.mem) (h.page Q hQ).nonnull
    hnext_lt (fun hz => hap (hprevm hz) hQ)
  have hPn := (h₁ P hP).1
  rw [if_neg hprev_ne.symm] at hPn
  have hPp := (h₁ P hP).2
  have hout₁ : ∀ Q ∈ z.held, ∀ c, Q ≤ c ∧ c < Q + 20 ∨ Q + 24 ≤ c ∧ c < Q + slobBlockSize →
      (if pagePrev z.mem P ≠ 0 then setPageNext z.mem (pagePrev z.mem P) (pageNext z.mem P)
        else z.mem) c = z.mem c :=
    fun Q hQ c hc => h.link_outside hQ hprevm (by decide) hc z.mem
  generalize hm₁ : (if pagePrev z.mem P ≠ 0 then
    setPageNext z.mem (pagePrev z.mem P) (pageNext z.mem P) else z.mem) = m₁ at h₁ hPn hPp hout₁
  have h₂ : ∀ Q ∈ z.held, _ := fun Q hQ => pageLinks_setPagePrev_if (m := m₁) (h.page Q hQ).nonnull
    hprev_lt (fun hz => hap (hnextm hz) hQ)
  have hout₂ : ∀ Q ∈ z.held, ∀ c, Q ≤ c ∧ c < Q + 24 ∨ Q + 28 ≤ c ∧ c < Q + slobBlockSize →
      (if pageNext z.mem P ≠ 0 then setPagePrev m₁ (pageNext z.mem P) (pagePrev z.mem P)
        else m₁) c = m₁ c :=
    fun Q hQ c hc => h.link_outside hQ hnextm (by decide) hc m₁
  have hun : PageUnlinked z.mem (if pageNext z.mem P ≠ 0 then
      setPagePrev m₁ (pageNext z.mem P) (pagePrev z.mem P) else m₁) P z.held :=
    { next := fun Q hQ => (h₂ Q hQ).1.trans (h₁ Q hQ).1
      prev := by
        intro Q hQ
        rw [(h₂ Q hQ).2, (h₁ Q hQ).2]
      other := by
        intro Q hQ c hc
        unfold sizeofSlobPage at hc
        rw [hout₂ Q hQ c (by omega), hout₁ Q hQ c (by omega)] }
  refine ⟨_, hun, ?_⟩
  have haddr : pageAddr (if pageNext z.mem P ≠ 0 then
      setPagePrev m₁ (pageNext z.mem P) (pagePrev z.mem P) else m₁) P = P := by
    refine Eq.trans ?_ (h.page P hP).addr
    exact Memory.load32_congr (fun c _ _ => hun.other P hP c (by omega))
  have hhead : (if pagePrev z.mem P ≠ 0 then z.pages else pageNext z.mem P) =
      if P = z.pages then pageNext z.mem P else z.pages := by
    rcases h.list.prev_mem hP with ⟨e, hz⟩ | hm
    · rw [if_neg (not_not.mpr hz), if_pos e]
    · have hz := (h.page _ hm).nonnull
      have hne : P ≠ z.pages := by
        intro e
        obtain ⟨t, ht⟩ := h.list.exists_cons (e ▸ hP0)
        have hl := h.list
        rw [ht] at hl
        exact hz (e ▸ hl.2.2.1)
      rw [if_pos hz, if_neg hne]
  unfold Slob.freePage
  rw [if_neg hP0]
  dsimp only
  rw [hm₁, hPn, hPp, haddr, hhead]

/-- **A page given back** leaves the others as they were. -/
theorem Pages.freePage (h : Pages z bs) (hP : P ∈ z.held) (hlive : liveBytes (bs P) = 0) :
    Pages (z.freePage P) bs ∧ (z.freePage P).held = z.held.erase P := by
  obtain ⟨m', hun, heq⟩ := freePage_eq h hP
  rw [heq]
  have hsub : ∀ Q ∈ z.held.erase P, Q ∈ z.held := fun Q hQ => List.mem_of_mem_erase hQ
  refine ⟨⟨?_, ?_, ?_, ?_, ?_⟩, rfl⟩
  · exact h.list.unlink_agree h.nodup hP (fun Q hQ => ⟨hun.next Q (hsub Q hQ), hun.prev Q (hsub Q hQ)⟩)
  · exact fun Q hQ => (h.page Q (hsub Q hQ)).congr (hun.other Q (hsub Q hQ))
  · exact h.disjoint.sublist List.erase_sublist
  · have hpos : z.held.length ≠ 0 := by
      have := List.length_pos_of_mem hP
      omega
    show dec32 z.totalPages = (z.held.erase P).length
    rw [h.count, dec32, if_neg hpos, List.length_erase_of_mem hP]
  · have hperm := List.perm_cons_erase hP
    have hsum := (hperm.map (fun Q => liveBytes (bs Q))).sum_nat
    rw [List.map_cons, List.sum_cons, hlive] at hsum
    show z.totalAllocated = ((z.held.erase P).map _).sum
    rw [h.allocated, hsum, Nat.zero_add]

end Slob

end KmOS
