/-
# `KmOS.Slob.Heap` — the SLOB heap over whole runs

`alloc` turns one free block (or the front of one) into a live one, `free`
turns a live block into a free one and joins it with its neighbours, and a page
that has become empty goes back to the buddy allocator.  `SlobInv` ties the live blocks to the pointers clients
hold; it survives every call, and no call hangs (`SlobInv.step`).
-/
import KmOS.Slob.Search

namespace KmOS

namespace Slob

variable {m m' : Memory} {z : Slob} {P Q a : Nat} {l : List Nat} {bs' : List SlobBlock}
  {bs : Nat → List SlobBlock}

/-! ## Taking a block -/

theorem freeBytes_at (pre post : List SlobBlock) (a sz : Nat) :
    freeBytes (pre ++ ⟨a, sz, false⟩ :: post) = freeBytes (pre ++ ⟨a, sz, true⟩ :: post) + sz := by
  simp [freeBytes]
  omega

theorem liveBytes_at (pre post : List SlobBlock) (a sz : Nat) :
    liveBytes (pre ++ ⟨a, sz, true⟩ :: post) = liveBytes (pre ++ ⟨a, sz, false⟩ :: post) + sz := by
  simp [liveBytes]
  omega

/-- Neighbours of a block that becomes live are no longer free neighbours. -/
theorem noAdjacent_take {pre post : List SlobBlock} {x y : SlobBlock} (hy : y.live = true)
    (h : NoAdjacent (pre ++ x :: post)) : NoAdjacent (pre ++ y :: post) := by
  induction pre with
  | nil =>
      cases post with
      | nil => exact .singleton y
      | cons w t => exact .cons_cons (Or.inl hy) (List.isChain_cons_cons.mp h).2
  | cons w pre ih =>
      cases pre with
      | nil => exact .cons_cons (Or.inr hy) (ih (List.isChain_cons_cons.mp h).2)
      | cons v pre =>
          obtain ⟨hwv, ht⟩ := List.isChain_cons_cons.mp h
          exact .cons_cons hwv (ih ht)

/-- A free block cut into a live one and a free one. -/
theorem noAdjacent_cut {pre post : List SlobBlock} {x y w : SlobBlock} (hx : x.live = false)
    (hy : y.live = true) (h : NoAdjacent (pre ++ x :: post)) : NoAdjacent (pre ++ y :: w :: post) := by
  induction pre with
  | nil =>
      refine .cons_cons (Or.inl hy) ?_
      cases post with
      | nil => exact .singleton w
      | cons v t =>
          obtain ⟨hxv, ht⟩ := List.isChain_cons_cons.mp h
          exact .cons_cons (Or.inr (hxv.resolve_left (by simp [hx]))) ht
  | cons v pre ih =>
      cases pre with
      | nil => exact .cons_cons (Or.inr hy) (ih (List.isChain_cons_cons.mp h).2)
      | cons u pre =>
          obtain ⟨hvu, ht⟩ := List.isChain_cons_cons.mp h
          exact .cons_cons hvu (ih ht)

/-- The block `alloc` is about to take, after it has been cut to size where that
pays. -/
theorem layout_cut {pre post : List SlobBlock} {sz al : Nat} (hP : P + slobBlockSize < wordSize)
    (h : Layout m P (pre ++ ⟨a, sz, false⟩ :: post)) (hna : NoAdjacent (pre ++ ⟨a, sz, false⟩ :: post))
    (hal : sizeofSlobBlock ≤ al) (hle : al ≤ sz) :
    ∃ sz' post', let m' := if al + sizeofSlobBlock + slobMinAlloc < size m a then splitBlock m a al else m
      Layout m' P (pre ++ ⟨a, sz', false⟩ :: post') ∧ Within 12 P m m' ∧ al ≤ sz' ∧
      freeBytes (pre ++ ⟨a, sz', false⟩ :: post') = freeBytes (pre ++ ⟨a, sz, false⟩ :: post) ∧
      (pre ++ ⟨a, sz', false⟩ :: post').filter (fun b => b.live) =
        (pre ++ ⟨a, sz, false⟩ :: post).filter (fun b => b.live) ∧
      NoAdjacent (pre ++ ⟨a, sz', true⟩ :: post') := by
  have hsz : size m a = sz := h.size ⟨a, sz, false⟩ (by simp)
  by_cases hcut : al + sizeofSlobBlock + slobMinAlloc < size m a
  · obtain ⟨hl, hw⟩ := layout_split hP h hal (by omega)
    refine ⟨al, ⟨a + al, sz - al, false⟩ :: post, ?_⟩
    rw [if_pos hcut]
    refine ⟨hl, hw.mono (by decide), Nat.le_refl al, ?_, ?_, noAdjacent_cut rfl rfl hna⟩
    · simp [freeBytes]
      omega
    · simp
  · refine ⟨sz, post, ?_⟩
    rw [if_neg hcut]
    exact ⟨h, Within.refl 12 P m, hle, rfl, rfl, noAdjacent_take rfl hna⟩

/-- The live blocks with one that has just become live. -/
theorem mem_live_taken {pre post : List SlobBlock} {s : Nat} {y : SlobBlock} :
    y ∈ pre ++ ⟨a, s, true⟩ :: post ∧ y.live = true ↔
      y = ⟨a, s, true⟩ ∨ y ∈ pre ++ ⟨a, s, false⟩ :: post ∧ y.live = true := by
  simp only [List.mem_append, List.mem_cons]
  constructor
  · rintro ⟨h | rfl | h, hlv⟩
    · exact Or.inr ⟨Or.inl h, hlv⟩
    · exact Or.inl rfl
    · exact Or.inr ⟨Or.inr (Or.inr h), hlv⟩
  · rintro (rfl | ⟨h | rfl | h, hlv⟩)
    · exact ⟨Or.inr (Or.inl rfl), rfl⟩
    · exact ⟨Or.inl h, hlv⟩
    · exact nomatch hlv
    · exact ⟨Or.inr (Or.inr h), hlv⟩

/-- **`alloc`, once it has found a block.** -/
theorem Pages.takeBlock {sz al : Nat} (h : Pages z bs) (hP : P ∈ z.held)
    (hx : (⟨a, sz, false⟩ : SlobBlock) ∈ bs P) (hal : sizeofSlobBlock ≤ al) (hle : al ≤ sz) :
    ∃ z' sz' bs', z.takeBlock a al = some (z', some (a + sizeofSlobBlock)) ∧
      Pages z' (Function.update bs P bs') ∧ z'.held = z.held ∧ al ≤ sz' ∧
      ∀ y, y ∈ bs' ∧ y.live = true ↔ y = ⟨a, sz', true⟩ ∨ y ∈ bs P ∧ y.live = true := by
  have hpg := h.page P hP
  have hin := hpg.layout.mem_page hx
  obtain ⟨pre, post, hbs⟩ := List.append_of_mem hx
  obtain ⟨sz', post', hl, hw, hle', hfree, hlive, hna⟩ :=
    layout_cut hpg.inSpace (hbs ▸ hpg.layout) (hbs ▸ hpg.apart) hal hle
  unfold Slob.takeBlock
  generalize (if al + sizeofSlobBlock + slobMinAlloc < size z.mem a then splitBlock z.mem a al
    else z.mem) = m₁ at hl hw ⊢
  -- the page is the one the block was found in
  have hfree₁ : freeSize m₁ P = freeBytes (bs P) := by
    refine Eq.trans ?_ hpg.free
    exact Memory.load32_congr (fun c _ _ => hw c (Or.inl (by omega)))
  have hx' : (⟨a, sz', false⟩ : SlobBlock) ∈ pre ++ ⟨a, sz', false⟩ :: post' := by simp
  have hfa : a ∈ freeAddrs (pre ++ ⟨a, sz', false⟩ :: post') := mem_freeAddrs.mpr ⟨_, hx', rfl, rfl⟩
  obtain ⟨hprev, hnext, hip, hinx⟩ := hl.links hfa
  have hina : InPage P a := hl.inPage hx'
  have hsize : size (removeFreeBlock m₁ P a) a = sz' :=
    (size_removeFreeBlock_self hpg.nonnull hina hprev hnext).trans (hl.size _ hx')
  have hfree₂ : freeSize (removeFreeBlock m₁ P a) P = freeBytes (bs P) := by
    refine Eq.trans ?_ hfree₁
    have := within_removeFreeBlock hpg.nonnull hina hprev hip hinx
    exact Memory.load32_congr (fun c _ _ => this c (Or.inl (by omega)))
  -- the free bytes that remain
  have hbytes := hl.tiles.bytes
  have hat := freeBytes_at pre post' a sz'
  have hlt : freeBytes (bs P) < wordSize := by
    have := hpg.layout.tiles.bytes
    have := hpg.inSpace
    omega
  have hsub : sub32 (freeBytes (bs P)) sz' = freeBytes (pre ++ ⟨a, sz', true⟩ :: post') := by
    rw [sub32_eq (by rw [hbs]; omega) hlt, hbs]
    omega
  obtain ⟨hl', hw', hf'⟩ := layout_take (w := freeBytes (pre ++ ⟨a, sz', true⟩ :: post'))
    hpg.nonnull (by rw [← hsub]; exact Nat.mod_lt _ (by decide)) hl
  have hsize' := hl'.size ⟨a, sz', true⟩ (by simp)
  have hwithin := (hw.mono (by decide : 8 ≤ 12)).trans hw'
  have hlb : liveBytes (pre ++ ⟨a, sz', true⟩ :: post') = liveBytes (bs P) + sz' := by
    rw [liveBytes_at, hbs]
    unfold liveBytes
    rw [hlive]
  have hsum := sum_update bs (pre ++ ⟨a, sz', true⟩ :: post') h.nodup hP
  have hbound := live_sum_lt (Function.update bs P (pre ++ ⟨a, sz', true⟩ :: post')) h.disjoint
    (fun Q hQ => by
      refine ⟨(h.page Q hQ).inSpace, ?_⟩
      by_cases e : Q = P
      · subst e
        rw [Function.update_self]
        exact hl'.tiles
      · rw [Function.update_of_ne e]
        exact (h.page Q hQ).layout.tiles)
  have hadd : add32 z.totalAllocated sz' = z.totalAllocated + sz' := by
    refine add32_eq ?_
    have := h.allocated
    omega
  have hspace := hpg.inSpace
  have hptr : add32 a sizeofSlobBlock = a + sizeofSlobBlock := by
    refine add32_eq ?_
    have := hina.2
    omega
  have hcut : Within 8 P z.mem m₁ := hw.mono (by decide)
  have hfind : findPage { z with mem := m₁ } a = some P := h.findPage_within hP hcut hP hin
  generalize hm' : setMagic (setFreeSize (removeFreeBlock m₁ P a) P
    (freeBytes (pre ++ ⟨a, sz', true⟩ :: post'))) a slobMagic = m' at hl' hw' hf' hsize' hwithin
  refine ⟨{ z with mem := m', totalAllocated := z.totalAllocated + sz' }, sz',
    pre ++ ⟨a, sz', true⟩ :: post', ?_, ?_, rfl, hle', ?_⟩
  · dsimp only
    rw [hfind]
    simp only [Option.bind_eq_bind, Option.bind_some, ne_eq, hpg.nonnull, not_false_eq_true,
      if_true]
    rw [hfree₂, hsize, hsub, hm', hsize', hadd, hptr]
  · exact h.change hP hwithin hl' hf' hna (by omega)
  · intro y
    have hmem : y ∈ pre ++ ⟨a, sz', false⟩ :: post' ∧ y.live = true ↔ y ∈ bs P ∧ y.live = true := by
      have := congrArg (fun l => y ∈ l) hlive
      simpa only [List.mem_filter, ← hbs, eq_iff_iff] using this
    rw [← hmem]
    exact mem_live_taken

/-! ## Giving a block back -/

theorem Pages.total_lt (h : Pages z bs) : z.totalAllocated < wordSize := by
  rw [h.allocated]
  exact live_sum_lt bs h.disjoint (fun Q hQ => ⟨(h.page Q hQ).inSpace, (h.page Q hQ).layout.tiles⟩)

/-- **`free`, once it has found the page.** -/
theorem Pages.giveBack {sz : Nat} (h : Pages z bs) (hP : P ∈ z.held)
    (hx : (⟨a, sz, true⟩ : SlobBlock) ∈ bs P) :
    ∃ z' bs', z.giveBack P a = some z' ∧ Pages z' (Function.update bs P bs') ∧ z'.held = z.held ∧
      ∀ y, y ∈ bs' ∧ y.live = true ↔ (y ∈ bs P ∧ y.live = true) ∧ y.addr ≠ a := by
  have hpg := h.page P hP
  have hina : InPage P a := hpg.layout.inPage hx
  obtain ⟨pre, post, hbs⟩ := List.append_of_mem hx
  have hlay : Layout z.mem P (pre ++ ⟨a, sz, true⟩ :: post) := hbs ▸ hpg.layout
  have hsize : size (setMagic z.mem a 0) a = sz := by
    have := header_setMagic (m := z.mem) (a := a) (b := a) (v := 0) (Or.inl rfl) (by decide)
    rw [if_pos rfl] at this
    exact (congrArg BlockHeader.size this).trans (hpg.layout.size _ hx)
  have hfree : freeSize (setMagic z.mem a 0) P = freeBytes (bs P) :=
    (load32_page_store (by decide) (by have := hina.1; omega)).trans hpg.free
  -- the free bytes with the block's own
  have hat := freeBytes_at pre post a sz
  have hbytes := (hlay.tiles.relabel false).bytes
  have hspace := hpg.inSpace
  have hadd : add32 (freeBytes (bs P)) sz = freeBytes (pre ++ ⟨a, sz, false⟩ :: post) := by
    rw [add32_eq (by rw [hbs]; omega), hbs]
    omega
  obtain ⟨m₃, hm₃, hl₃, hw₃, hf₃, _⟩ := layout_give (w := freeBytes (pre ++ ⟨a, sz, false⟩ :: post))
    hpg.nonnull hspace (by omega) hlay
  obtain ⟨m₄, bs₄, hm₄, hl₄, hw₄, hmerged⟩ := layout_mergeFreeBlocks hspace hpg.nonnull hl₃
  have hf₄ : freeSize m₄ P = freeBytes bs₄ := by
    rw [hmerged.free, ← hf₃]
    exact Memory.load32_congr (fun c _ _ => hw₄ c (Or.inl (by omega)))
  have hlb : liveBytes bs₄ + sz = liveBytes (bs P) := by
    rw [hbs, liveBytes_at]
    unfold liveBytes
    rw [hmerged.live]
  have hsum := sum_update bs bs₄ h.nodup hP
  have halloc := h.allocated
  have hsub : sub32 z.totalAllocated sz = z.totalAllocated - sz := sub32_eq (by omega) h.total_lt
  refine ⟨{ z with mem := m₄, totalAllocated := z.totalAllocated - sz }, bs₄, ?_, ?_, rfl, ?_⟩
  · unfold Slob.giveBack
    dsimp only
    rw [hsize, hfree, hadd, hm₃, hsub]
    simp only [Option.bind_eq_bind, Option.bind_some, hm₄]
  · exact h.change hP (hw₃.trans (hw₄.mono (by decide))) hl₄ hf₄ hmerged.apart (by omega)
  · intro y
    have hmem : y ∈ bs₄ ∧ y.live = true ↔ y ∈ pre ++ ⟨a, sz, false⟩ :: post ∧ y.live = true := by
      have := congrArg (fun l => y ∈ l) hmerged.live
      simpa only [List.mem_filter, eq_iff_iff] using this
    rw [hmem]
    constructor
    · rintro ⟨hy, hlv⟩
      rcases mem_replace hy with rfl | hy
      · exact nomatch hlv
      · obtain ⟨hy', hya⟩ := hlay.tiles.others hy
        exact ⟨⟨hbs ▸ hy', hlv⟩, hya⟩
    · rintro ⟨⟨hy, hlv⟩, hya⟩
      rw [hbs] at hy
      rcases mem_replace hy with rfl | hy
      · exact absurd rfl hya
      · refine ⟨?_, hlv⟩
        rcases List.mem_append.mp hy with hy | hy <;> simp [hy]

/-! ## Defragmentation -/

theorem fragmentationLoop_some {p h fuel : Nat} (total : Nat) (hl : Dll 0 (pageNext m) (pagePrev m) p h l)
    (hf : l.length < fuel) : ∃ r, fragmentationLoop m fuel h total = some r := by
  induction l generalizing p h fuel total with
  | nil =>
      obtain ⟨fuel, rfl⟩ : ∃ k, fuel = k + 1 := ⟨fuel - 1, by simp at hf; omega⟩
      exact ⟨total, by rw [fragmentationLoop, if_pos (show h = 0 from hl)]⟩
  | cons P l ih =>
      obtain ⟨fuel, rfl⟩ : ∃ k, fuel = k + 1 := ⟨fuel - 1, by simp at hf; omega⟩
      obtain ⟨rfl, hne, _, ht⟩ := hl
      rw [fragmentationLoop, if_neg hne]
      exact ih _ ht (by simp at hf; omega)

theorem Pages.shouldDefragment (h : Pages z bs) : ∃ b, z.shouldDefragment = some b := by
  obtain ⟨r, hr⟩ := fragmentationLoop_some 0 h.list h.length_lt_turns
  unfold Slob.shouldDefragment
  rw [hr]
  simp only [Option.bind_eq_bind, Option.bind_some]
  split
  · exact ⟨_, rfl⟩
  · exact ⟨_, rfl⟩

/-- Counting rewrites one word of the page's header. -/
theorem countLoop_spec {p h fuel : Nat} (hl : Dll 0 (next m) (prev m) p h l)
    (hin : ∀ b ∈ l, InPage P b) (hf : l.length < fuel) :
    ∃ m', countLoop P fuel m h = some m' ∧ ∀ c, c < P + 12 ∨ P + 16 ≤ c → m' c = m c := by
  induction l generalizing m p h fuel with
  | nil =>
      obtain ⟨fuel, rfl⟩ : ∃ k, fuel = k + 1 := ⟨fuel - 1, by simp at hf; omega⟩
      exact ⟨m, by rw [countLoop, if_pos (show h = 0 from hl)], fun _ _ => rfl⟩
  | cons b l ih =>
      obtain ⟨fuel, rfl⟩ : ∃ k, fuel = k + 1 := ⟨fuel - 1, by simp at hf; omega⟩
      obtain ⟨rfl, hne, _, ht⟩ := hl
      have hout : ∀ c, c < P + 12 ∨ P + 16 ≤ c →
          (if next m h ≠ 0 then setFragmentation m P (inc32 (fragmentation m P)) else m) c = m c := by
        intro c hc
        split
        · exact Memory.store32_eq_of_outside (by omega)
        · rfl
      have hh : ∀ b ∈ h :: l, header
          (if next m h ≠ 0 then setFragmentation m P (inc32 (fragmentation m P)) else m) b =
            header m b := by
        intro b hb
        have := (hin b hb).1
        unfold sizeofSlobPage at this
        exact header_congr (fun c h₁ _ => hout c (by omega))
      rw [countLoop, if_neg hne]
      dsimp only
      rw [show next _ h = next m h from congrArg BlockHeader.next (hh h List.mem_cons_self)]
      generalize (if next m h ≠ 0 then setFragmentation m P (inc32 (fragmentation m P)) else m) = m₁
        at hout hh ⊢
      have ht' : Dll 0 (next m₁) (prev m₁) h (next m h) l := by
        refine ht.congr (fun c hc => ?_)
        have := hh c (List.mem_cons_of_mem h hc)
        exact ⟨congrArg BlockHeader.next this, congrArg BlockHeader.prev this⟩
      obtain ⟨m', hm', hout'⟩ := ih ht' (fun c hc => hin c (List.mem_cons_of_mem h hc))
        (by simp at hf; omega)
      exact ⟨m', hm', fun c hc => (hout' c hc).trans (hout c hc)⟩

theorem merged_live {bs bs' : List SlobBlock} (h : Merged bs bs') (y : SlobBlock) :
    y ∈ bs' ∧ y.live = true ↔ y ∈ bs ∧ y.live = true := by
  have := congrArg (fun l => y ∈ l) h.live
  simpa only [List.mem_filter, eq_iff_iff] using this

/-- One turn of `defragment`. -/
theorem Pages.defragmentPage (h : Pages z bs) (hP : P ∈ z.held) :
    ∃ m₁ m₂ bs', mergeFreeBlocks z.mem P = some m₁ ∧
      countLoop P turns (setFragmentation m₁ P 0) (freeList (setFragmentation m₁ P 0) P) = some m₂ ∧
      Pages { z with mem := m₂ } (Function.update bs P bs') ∧ Within 8 P z.mem m₂ ∧
      ∀ y, y ∈ bs' ∧ y.live = true ↔ y ∈ bs P ∧ y.live = true := by
  have hpg := h.page P hP
  obtain ⟨m₁, bs₁, hm₁, hl₁, hw₁, hmerged⟩ :=
    layout_mergeFreeBlocks hpg.inSpace hpg.nonnull hpg.layout
  -- the mark is rewritten, and then counted up again
  have hmark : ∀ c, c < P + 12 ∨ P + 16 ≤ c → setFragmentation m₁ P 0 c = m₁ c :=
    fun c hc => Memory.store32_eq_of_outside (by omega)
  have hl₂ : Layout (setFragmentation m₁ P 0) P bs₁ := by
    refine hl₁.congr (fun c hc => hmark c ?_)
    unfold sizeofSlobPage at hc
    omega
  have hlen : (freeAddrs bs₁).length < turns := by
    have h₁ := hl₁.tiles.length_le
    have h₂ := length_freeAddrs_le bs₁
    have h₃ := hpg.inSpace
    unfold turns
    omega
  obtain ⟨m₂, hm₂, hcount⟩ := countLoop_spec hl₂.list (fun b hb => hl₂.inPage_free hb) hlen
  have hw₂ : Within 12 P m₁ m₂ := by
    intro c hc
    rw [hcount c (by unfold sizeofSlobPage slobBlockSize at hc; omega),
      hmark c (by unfold sizeofSlobPage slobBlockSize at hc; omega)]
  have hl₃ : Layout m₂ P bs₁ := by
    refine hl₂.congr (fun c hc => hcount c ?_)
    unfold sizeofSlobPage at hc
    omega
  have hw := hw₁.trans hw₂
  have hfree : freeSize m₂ P = freeBytes bs₁ := by
    rw [hmerged.free, ← hpg.free]
    exact Memory.load32_congr (fun c _ _ => hw c (Or.inl (by omega)))
  have hlb : liveBytes bs₁ = liveBytes (bs P) := by
    unfold liveBytes
    rw [hmerged.live]
  refine ⟨m₁, m₂, bs₁, hm₁, hm₂, ?_, hw.mono (by decide), merged_live hmerged⟩
  exact h.change hP (hw.mono (by decide)) hl₃ hfree hmerged.apart (by omega)

/-- **`defragment`** ends and keeps the live blocks. -/
theorem defragmentLoop_spec {p h fuel : Nat} (hpages : Pages z bs)
    (hl : Dll 0 (pageNext z.mem) (pagePrev z.mem) p h l) (hsub : ∀ P ∈ l, P ∈ z.held)
    (hf : l.length < fuel) :
    ∃ m' bs', defragmentLoop fuel z.mem h = some m' ∧ Pages { z with mem := m' } bs' ∧
      ∀ P ∈ z.held, ∀ y, y ∈ bs' P ∧ y.live = true ↔ y ∈ bs P ∧ y.live = true := by
  induction l generalizing z bs p h fuel with
  | nil =>
      obtain ⟨fuel, rfl⟩ : ∃ k, fuel = k + 1 := ⟨fuel - 1, by simp at hf; omega⟩
      exact ⟨z.mem, bs, by rw [defragmentLoop, if_pos (show h = 0 from hl)], hpages,
        fun _ _ _ => Iff.rfl⟩
  | cons P l ih =>
      obtain ⟨fuel, rfl⟩ : ∃ k, fuel = k + 1 := ⟨fuel - 1, by simp at hf; omega⟩
      obtain ⟨rfl, hne, _, ht⟩ := hl
      have hP := hsub h List.mem_cons_self
      obtain ⟨m₁, m₂, bs₁, hm₁, hm₂, hpages₂, hw, hlive⟩ := hpages.defragmentPage hP
      have hlinks : ∀ Q ∈ z.held, pageNext m₂ Q = pageNext z.mem Q ∧ pagePrev m₂ Q = pagePrev z.mem Q :=
        fun Q hQ => ⟨hpages.words_within hP hw hQ (Or.inr (by decide)),
          hpages.words_within hP hw hQ (Or.inr (by decide))⟩
      have ht' : Dll 0 (pageNext m₂) (pagePrev m₂) h (pageNext m₂ h) l := by
        rw [(hlinks h hP).1]
        exact ht.congr (fun Q hQ => hlinks Q (hsub Q (List.mem_cons_of_mem h hQ)))
      obtain ⟨m', bs', hm', hpages', hlive'⟩ := ih hpages₂ ht'
        (fun Q hQ => hsub Q (List.mem_cons_of_mem h hQ)) (by simp at hf; omega)
      refine ⟨m', bs', ?_, hpages', fun Q hQ y => (hlive' Q hQ y).trans ?_⟩
      · rw [defragmentLoop, if_neg hne, hm₁]
        simp only [Option.bind_eq_bind, Option.bind_some, hm₂]
        exact hm'
      · by_cases e : Q = h
        · subst e
          rw [Function.update_self]
          exact hlive y
        · rw [Function.update_of_ne e]

/-! ## Whole calls -/

/-- A live block of one of the pages. -/
def LiveIn (z : Slob) (bs : Nat → List SlobBlock) (x : SlobBlock) : Prop :=
  ∃ P ∈ z.held, x ∈ bs P ∧ x.live = true

theorem liveIn_update {z' : Slob} {f : SlobBlock → Prop} (hP : P ∈ z.held) (hheld : z'.held = z.held)
    (hsame : ∀ Q ∈ z.held, Q ≠ P → ∀ y ∈ bs Q, y.live = true → f y)
    (hat : ∀ y, y ∈ bs' ∧ y.live = true ↔ (y ∈ bs P ∧ y.live = true) ∧ f y) (y : SlobBlock) :
    LiveIn z' (Function.update bs P bs') y ↔ LiveIn z bs y ∧ f y := by
  constructor
  · rintro ⟨Q, hQ, hy⟩
    rw [hheld] at hQ
    by_cases e : Q = P
    · subst e
      rw [Function.update_self] at hy
      obtain ⟨hy', hf⟩ := (hat y).mp hy
      exact ⟨⟨Q, hQ, hy'⟩, hf⟩
    · rw [Function.update_of_ne e] at hy
      exact ⟨⟨Q, hQ, hy⟩, hsame Q hQ e y hy.1 hy.2⟩
  · rintro ⟨⟨Q, hQ, hy⟩, hf⟩
    refine ⟨Q, hheld ▸ hQ, ?_⟩
    by_cases e : Q = P
    · subst e
      rw [Function.update_self]
      exact (hat y).mpr ⟨hy, hf⟩
    · rwa [Function.update_of_ne e]

/-- A live block has its share of the live bytes. -/
theorem size_le_liveBytes {bs : List SlobBlock} {x : SlobBlock} (hx : x ∈ bs) (hlive : x.live = true) :
    x.size ≤ liveBytes bs := by
  induction bs with
  | nil => exact nomatch hx
  | cons y bs ih =>
      rcases List.mem_cons.mp hx with rfl | hx
      · simp [liveBytes, hlive]
      · have := ih hx
        cases hy : y.live <;> simp [liveBytes, hy] at this ⊢ <;> omega

/-- `free` gives the page back when it is empty and not the last one. -/
def dropEmpty (z : Slob) (page : Nat) : Slob :=
  if freeSize z.mem page = sub32 (totalSize z.mem page) sizeofSlobPage ∧ 1 < z.totalPages then
    z.freePage page
  else z

/-- A page that `free` gives back has no live bytes. -/
theorem PageInv.liveBytes_eq_zero {bs : List SlobBlock} (h : PageInv m P bs)
    (he : freeSize m P = sub32 (totalSize m P) sizeofSlobPage) : liveBytes bs = 0 := by
  have hb := h.layout.tiles.bytes
  rw [h.free, h.total, show sub32 slobBlockSize sizeofSlobPage = 4068 from rfl] at he
  unfold sizeofSlobPage slobBlockSize at hb
  omega

theorem Pages.dropEmpty (h : Pages z bs) (hP : P ∈ z.held) :
    Pages (z.dropEmpty P) bs ∧ ∀ y, LiveIn (z.dropEmpty P) bs y ↔ LiveIn z bs y := by
  unfold Slob.dropEmpty
  split
  · next hempty =>
      have hpg := h.page P hP
      have hzero := hpg.liveBytes_eq_zero hempty.1
      have hnone : ∀ y ∈ bs P, y.live ≠ true := by
        intro y hy hlv
        have := size_le_liveBytes hy hlv
        have hsz := (hpg.layout.tiles.bounds hy).2.2
        unfold sizeofSlobBlock at hsz
        omega
      obtain ⟨hpages, hheld⟩ := h.freePage hP hzero
      refine ⟨hpages, fun y => ⟨?_, ?_⟩⟩
      · rintro ⟨Q, hQ, hy⟩
        rw [hheld] at hQ
        exact ⟨Q, List.mem_of_mem_erase hQ, hy⟩
      · rintro ⟨Q, hQ, hy, hlv⟩
        refine ⟨Q, ?_, hy, hlv⟩
        rw [hheld]
        refine (List.mem_erase_of_ne ?_).mpr hQ
        rintro rfl
        exact hnone y hy hlv
  · exact ⟨h, fun _ => Iff.rfl⟩

/-- `free` recognises a live block, and finds its page. -/
theorem Pages.recognises {sz : Nat} (h : Pages z bs) (hP : P ∈ z.held)
    (hx : (⟨a, sz, true⟩ : SlobBlock) ∈ bs P) :
    sub32 (a + sizeofSlobBlock) sizeofSlobBlock = a ∧ magic z.mem a = slobMagic ∧
      z.findPage a = some P := by
  have hpg := h.page P hP
  have hina : InPage P a := hpg.layout.inPage hx
  have hspace := hpg.inSpace
  refine ⟨?_, hpg.layout.magic _ hx rfl,
    h.findPage_within hP (Within.refl 8 P z.mem) hP (hpg.layout.mem_page hx)⟩
  rw [sub32_eq (by omega) (by have := hina.2; omega)]
  omega

/-- What `free` does with a live block. -/
theorem Pages.free_eq {sz : Nat} (h : Pages z bs) (hP : P ∈ z.held)
    (hx : (⟨a, sz, true⟩ : SlobBlock) ∈ bs P) :
    z.free (a + sizeofSlobBlock) = (z.giveBack P a).bind fun z₁ =>
      (z₁.dropEmpty P).shouldDefragment.bind fun b =>
        if b = true then (z₁.dropEmpty P).defragment else some (z₁.dropEmpty P) := by
  obtain ⟨hblock, hmagic, hfind⟩ := h.recognises hP hx
  unfold Slob.free
  rw [if_neg (by unfold sizeofSlobBlock; omega)]
  dsimp only
  rw [hblock, if_neg (not_not.mpr hmagic), hfind]
  simp only [Option.bind_eq_bind, Option.bind_some, if_neg (h.page P hP).nonnull]
  rfl

/-- **`free`** of a live block. -/
theorem Pages.free {sz : Nat} (h : Pages z bs) (hP : P ∈ z.held)
    (hx : (⟨a, sz, true⟩ : SlobBlock) ∈ bs P) :
    ∃ z' bs', z.free (a + sizeofSlobBlock) = some z' ∧ Pages z' bs' ∧
      ∀ y, LiveIn z' bs' y ↔ LiveIn z bs y ∧ y.addr ≠ a := by
  have hin : P ≤ a ∧ a < P + slobBlockSize := (h.page P hP).layout.mem_page hx
  obtain ⟨z₁, bs₁, hz₁, hpages₁, hheld₁, hlive₁⟩ := h.giveBack hP hx
  have hlive : ∀ y, LiveIn z₁ (Function.update bs P bs₁) y ↔ LiveIn z bs y ∧ y.addr ≠ a := by
    refine liveIn_update hP hheld₁ (fun Q hQ hne y hy _ => ?_) hlive₁
    intro e
    have hin' := (h.page Q hQ).layout.mem_page hy
    rw [e] at hin'
    exact hne (h.page_unique hQ hP hin' hin)
  obtain ⟨hpages₂, hlive₂⟩ := hpages₁.dropEmpty (hheld₁ ▸ hP)
  obtain ⟨b, hb⟩ := hpages₂.shouldDefragment
  rw [h.free_eq hP hx, hz₁]
  simp only [Option.bind_some, hb]
  generalize z₁.dropEmpty P = z₂ at hpages₂ hlive₂ ⊢
  cases b with
  | false => exact ⟨z₂, _, rfl, hpages₂, fun y => (hlive₂ y).trans (hlive y)⟩
  | true =>
      obtain ⟨m', bs', hm', hpages', hlive'⟩ :=
        defragmentLoop_spec hpages₂ hpages₂.list (fun _ hQ => hQ) hpages₂.length_lt_turns
      refine ⟨{ z₂ with mem := m' }, bs', ?_, hpages', fun y => ?_⟩
      · rw [if_pos rfl, Slob.defragment, hm']
        rfl
      · rw [← hlive y, ← hlive₂ y]
        exact ⟨fun ⟨Q, hQ, hy⟩ => ⟨Q, hQ, (hlive' Q hQ y).mp hy⟩,
          fun ⟨Q, hQ, hy⟩ => ⟨Q, hQ, (hlive' Q hQ y).mpr hy⟩⟩

theorem alignedSize_ge (size : Nat) : size + sizeofSlobBlock ≤ alignedSize size := by
  unfold alignedSize slobAlign slobMinAlloc
  dsimp only
  split <;> omega

theorem alignedSize_le {size : Nat} (h : size ≤ slobMaxAlloc) : alignedSize size ≤ 528 := by
  unfold slobMaxAlloc at h
  unfold alignedSize slobAlign slobMinAlloc sizeofSlobBlock
  dsimp only
  split <;> omega

end Slob

namespace SlobHeap

open Slob

variable {h : SlobHeap} {bs : Nat → List SlobBlock}

/-- **The heap invariant**: the pages are in order, and the live blocks are those
behind the pointers clients hold, each as large as was asked for. -/
structure SlobInv (h : SlobHeap) (bs : Nat → List SlobBlock) : Prop where
  pages : Pages h.slob bs
  nodup : (h.live.map Prod.fst).Nodup
  block : ∀ l ∈ h.live, ∃ x, LiveIn h.slob bs x ∧ l.1 = x.addr + sizeofSlobBlock ∧
    l.2 + sizeofSlobBlock ≤ x.size
  owner : ∀ x, LiveIn h.slob bs x → ∃ l ∈ h.live, l.1 = x.addr + sizeofSlobBlock

/-- Two live blocks are one, or lie apart. -/
theorem SlobInv.apart (hi : SlobInv h bs) {x y : SlobBlock} (hx : LiveIn h.slob bs x)
    (hy : LiveIn h.slob bs y) :
    x = y ∨ x.addr + x.size ≤ y.addr ∨ y.addr + y.size ≤ x.addr := by
  obtain ⟨P, hP, hxP, _⟩ := hx
  obtain ⟨Q, hQ, hyQ, _⟩ := hy
  by_cases e : P = Q
  · subst e
    exact (hi.pages.page P hP).layout.tiles.apart hxP hyQ
  · have hPQ := hi.pages.apart hP hQ e
    have hbx := (hi.pages.page P hP).layout.tiles.bounds hxP
    have hby := (hi.pages.page Q hQ).layout.tiles.bounds hyQ
    exact Or.inr (by omega)

/-- The heap after `alloc` has taken a block for a client. -/
theorem SlobInv.take {z z' : Slob} {live : List (Nat × Nat)} {P a sz size : Nat}
    {bs' : List SlobBlock} (hi : SlobInv ⟨z, live⟩ bs) (hP : P ∈ z.held)
    (hfree : ∃ s, (⟨a, s, false⟩ : SlobBlock) ∈ bs P) (hpages : Pages z' (Function.update bs P bs'))
    (hheld : z'.held = z.held) (hsz : size + sizeofSlobBlock ≤ sz)
    (hlive : ∀ y, y ∈ bs' ∧ y.live = true ↔ y = ⟨a, sz, true⟩ ∨ y ∈ bs P ∧ y.live = true) :
    SlobInv ⟨z', (a + sizeofSlobBlock, size) :: live⟩ (Function.update bs P bs') := by
  have hiff : ∀ y, LiveIn z' (Function.update bs P bs') y ↔ y = ⟨a, sz, true⟩ ∨ LiveIn z bs y := by
    intro y
    constructor
    · rintro ⟨Q, hQ, hy⟩
      rw [hheld] at hQ
      by_cases e : Q = P
      · subst e
        rw [Function.update_self] at hy
        exact ((hlive y).mp hy).imp id (fun hy => ⟨Q, hQ, hy⟩)
      · rw [Function.update_of_ne e] at hy
        exact Or.inr ⟨Q, hQ, hy⟩
    · rintro (rfl | ⟨Q, hQ, hy⟩)
      · refine ⟨P, hheld ▸ hP, ?_⟩
        rw [Function.update_self]
        exact (hlive _).mpr (Or.inl rfl)
      · refine ⟨Q, hheld ▸ hQ, ?_⟩
        by_cases e : Q = P
        · subst e
          rw [Function.update_self]
          exact (hlive y).mpr (Or.inr hy)
        · rwa [Function.update_of_ne e]
  refine ⟨hpages, ?_, ?_, ?_⟩
  · refine List.nodup_cons.mpr ⟨fun hm => ?_, hi.nodup⟩
    -- a client that already held the pointer would hold a block that is free
    obtain ⟨l, hl, he⟩ := List.mem_map.mp hm
    obtain ⟨x, ⟨Q, hQ, hxQ, hxl⟩, hlx, _⟩ := hi.block l hl
    obtain ⟨s, hs⟩ := hfree
    have hxa : x.addr = a := by omega
    have hQP : Q = P := by
      refine hi.pages.page_unique hQ hP ((hi.pages.page Q hQ).layout.mem_page hxQ) ?_
      rw [hxa]
      exact (hi.pages.page P hP).layout.mem_page hs
    subst hQP
    have := (hi.pages.page Q hQ).layout.tiles.eq_of_addr_eq hxQ hs hxa
    rw [this] at hxl
    exact nomatch hxl
  · intro l hl
    rcases List.mem_cons.mp hl with rfl | hl
    · exact ⟨⟨a, sz, true⟩, (hiff _).mpr (Or.inl rfl), rfl, hsz⟩
    · obtain ⟨x, hx, hlx⟩ := hi.block l hl
      exact ⟨x, (hiff x).mpr (Or.inr hx), hlx⟩
  · intro x hx
    rcases (hiff x).mp hx with rfl | hx
    · exact ⟨_, List.mem_cons_self, rfl⟩
    · obtain ⟨l, hl, hlx⟩ := hi.owner x hx
      exact ⟨l, List.mem_cons_of_mem _ hl, hlx⟩

/-- A block found for a request serves it. -/
theorem SlobInv.alloc_found {z : Slob} {live : List (Nat × Nat)} {x : SlobBlock} {size : Nat}
    (hi : SlobInv ⟨z, live⟩ bs) (hx : FreeIn z bs x) (hfit : alignedSize size ≤ x.size) :
    ∃ z' bs', z.takeBlock x.addr (alignedSize size) = some (z', some (x.addr + sizeofSlobBlock)) ∧
      SlobInv ⟨z', (x.addr + sizeofSlobBlock, size) :: live⟩ bs' ∧
      alignedSize size ≤ Slob.size z'.mem x.addr := by
  obtain ⟨a, s, l⟩ := x
  obtain ⟨P, hP, hx, hl⟩ := hx
  dsimp only at hl hfit
  subst hl
  have hge := alignedSize_ge size
  obtain ⟨z', sz', bs', hz', hpages, hheld, hle, hlive⟩ := hi.pages.takeBlock hP hx (by omega) hfit
  refine ⟨z', _, hz', hi.take hP ⟨s, hx⟩ hpages hheld (by omega) hlive, ?_⟩
  have hpg := hpages.page P (hheld ▸ hP)
  rw [Function.update_self] at hpg
  rw [hpg.layout.size ⟨a, sz', true⟩ ((hlive _).mpr (Or.inl rfl)).1]
  exact hle

/-- The heap with a page more, before anything is taken from it. -/
theorem SlobInv.allocPage {z : Slob} {live : List (Nat × Nat)} {P : Nat}
    (hi : SlobInv ⟨z, live⟩ bs) (hok : PageOk z.held (some P)) :
    SlobInv ⟨(z.allocPage (some P)).1, live⟩ (Function.update bs P (freshBlocks P)) := by
  obtain ⟨hpages, hheld, _⟩ := hi.pages.allocPage hok
  have hPnot : ∀ Q ∈ z.held, Q ≠ P := by
    rintro Q hQ rfl
    have := hok.2.2 Q hQ
    unfold slobBlockSize at this
    omega
  have hiff : ∀ y, LiveIn (z.allocPage (some P)).1 (Function.update bs P (freshBlocks P)) y ↔
      LiveIn z bs y := by
    intro y
    unfold LiveIn
    rw [hheld]
    constructor
    · rintro ⟨Q, hQ, hy⟩
      rcases List.mem_cons.mp hQ with rfl | hQ
      · rw [Function.update_self] at hy
        rw [List.mem_singleton.mp hy.1] at hy
        exact nomatch hy.2
      · rw [Function.update_of_ne (hPnot Q hQ)] at hy
        exact ⟨Q, hQ, hy⟩
    · rintro ⟨Q, hQ, hy⟩
      refine ⟨Q, List.mem_cons_of_mem P hQ, ?_⟩
      rwa [Function.update_of_ne (hPnot Q hQ)]
  exact
    { pages := hpages
      nodup := hi.nodup
      block := fun l hl => (hi.block l hl).imp (fun x hx => ⟨(hiff x).mpr hx.1, hx.2⟩)
      owner := fun x hx => hi.owner x ((hiff x).mp hx) }

/-- A free block of the heap with a new page is the new one, or was there before. -/
theorem freeIn_allocPage {z : Slob} {P : Nat} (hpages : Pages z bs) (hok : PageOk z.held (some P))
    {x : SlobBlock}
    (hx : FreeIn (z.allocPage (some P)).1 (Function.update bs P (freshBlocks P)) x) :
    x = ⟨P + sizeofSlobPage, slobBlockSize - sizeofSlobPage, false⟩ ∨ FreeIn z bs x := by
  obtain ⟨Q, hQ, hxQ, hl⟩ := hx
  rw [(hpages.allocPage hok).2.1] at hQ
  by_cases e : Q = P
  · subst e
    rw [Function.update_self] at hxQ
    exact Or.inl (List.mem_singleton.mp hxQ)
  · rw [Function.update_of_ne e] at hxQ
    exact Or.inr ⟨Q, (List.mem_cons.mp hQ).resolve_left e, hxQ, hl⟩

/-- How a request that takes `need` bytes is answered: with a smallest free block
that has room, else with the block of a new page, else not at all. -/
inductive Served (z : Slob) (bs : Nat → List SlobBlock) (need : Nat) (pageMem : Option Nat) :
    Slob × Option Nat → Prop
  | best {x : SlobBlock} {z' : Slob} :
      BestFit z bs need x → need ≤ Slob.size z'.mem x.addr →
      Served z bs need pageMem (z', some (x.addr + sizeofSlobBlock))
  | fresh {P : Nat} {z' : Slob} :
      (∀ x, FreeIn z bs x → x.size < need) → pageMem = some P →
      need ≤ Slob.size z'.mem (P + sizeofSlobPage) →
      Served z bs need pageMem (z', some (P + sizeofSlobPage + sizeofSlobBlock))
  | refused :
      (∀ x, FreeIn z bs x → x.size < need) → pageMem = none → Served z bs need pageMem (z, none)

/-- **`alloc`** of a size it serves. -/
theorem SlobInv.alloc_served (hi : SlobInv h bs) {size : Nat} (hsize : 0 < size ∧ size ≤ slobMaxAlloc)
    {pageMem : Option Nat} (hok : PageOk h.slob.held pageMem) :
    ∃ res bs', h.slob.alloc size pageMem = some res ∧ SlobInv (grant res h.live size) bs' ∧
      Served h.slob bs (alignedSize size) pageMem res := by
  obtain ⟨z, live⟩ := h
  have hneed := alignedSize_le hsize.2
  have hs : alignedSize size < 0xFFFFFFFF := by omega
  unfold Slob.alloc
  rw [if_neg (by omega)]
  dsimp only
  obtain ⟨r, hr, hr'⟩ := hi.pages.findFreeBlock hs
  dsimp only at hr hr'
  rw [hr]
  simp only [Option.bind_eq_bind, Option.bind_some]
  rcases hr' with ⟨rfl, hnone⟩ | ⟨hne, x, hx, rfl⟩
  · rw [if_neg (not_not.mpr rfl)]
    cases pageMem with
    | none => exact ⟨(z, none), bs, rfl, hi, .refused hnone rfl⟩
    | some P =>
        have hP : (z.allocPage (some P)).2 ≠ 0 := by
          have := hok.1
          rw [(hi.pages.allocPage hok).2.2]
          omega
        have hi' := hi.allocPage hok
        have hnew : FreeIn (z.allocPage (some P)).1 (Function.update bs P (freshBlocks P))
            ⟨P + sizeofSlobPage, slobBlockSize - sizeofSlobPage, false⟩ := by
          refine ⟨P, ?_, ?_, rfl⟩
          · rw [(hi.pages.allocPage hok).2.1]
            exact List.mem_cons_self
          · rw [Function.update_self]
            exact List.mem_cons_self
        have hold : ∀ x, FreeIn (z.allocPage (some P)).1
            (Function.update bs P (freshBlocks P)) x → _ := fun _ => freeIn_allocPage hi.pages hok
        generalize z.allocPage (some P) = zp at hP hi' hnew hold ⊢
        obtain ⟨z₁, newPage⟩ := zp
        dsimp only at hP hi' hnew hold ⊢
        rw [if_neg hP]
        obtain ⟨r, hr, hr'⟩ := hi'.pages.findFreeBlock hs
        dsimp only at hr hr'
        rw [hr]
        simp only [Option.bind_some]
        rcases hr' with ⟨_, hnone'⟩ | ⟨hne, x, hx, rfl⟩
        · -- a new page has room for every request
          have hroom : slobBlockSize - sizeofSlobPage < alignedSize size := hnone' _ hnew
          unfold slobBlockSize sizeofSlobPage at hroom
          omega
        · rw [if_neg hne]
          obtain ⟨z', bs', hz', hi'', hle⟩ := hi'.alloc_found hx.1 hx.2.1
          obtain rfl : x = ⟨P + sizeofSlobPage, slobBlockSize - sizeofSlobPage, false⟩ :=
            (hold x hx.1).resolve_right (fun hx' => absurd hx.2.1 (Nat.not_le.mpr (hnone x hx')))
          exact ⟨_, bs', hz', hi'', .fresh hnone rfl hle⟩
  · rw [if_pos hne]
    obtain ⟨z', bs', hz', hi', hle⟩ := hi.alloc_found hx.1 hx.2.1
    exact ⟨_, bs', hz', hi', .best hx hle⟩

theorem SlobInv.alloc (hi : SlobInv h bs) (size : Nat) {pageMem : Option Nat}
    (hok : PageOk h.slob.held pageMem) :
    ∃ res bs', h.slob.alloc size pageMem = some res ∧ SlobInv (grant res h.live size) bs' := by
  by_cases hsize : size = 0 ∨ slobMaxAlloc < size
  · exact ⟨(h.slob, none), bs, by rw [Slob.alloc, if_pos hsize], hi⟩
  · have hserve : 0 < size ∧ size ≤ slobMaxAlloc := by omega
    obtain ⟨res, bs', hres, hi', _⟩ := hi.alloc_served hserve hok
    exact ⟨res, bs', hres, hi'⟩

theorem SlobInv.free (hi : SlobInv h bs) {ptr : Nat} (hok : ∃ l ∈ h.live, l.1 = ptr) :
    ∃ z' bs', h.slob.free ptr = some z' ∧
      SlobInv { slob := z', live := h.live.filter (fun l => l.1 ≠ ptr) } bs' := by
  obtain ⟨l, hl, rfl⟩ := hok
  obtain ⟨⟨a, sz, lv⟩, ⟨P, hP, hx, hlv⟩, hla, _⟩ := hi.block l hl
  dsimp only at hlv hla
  subst hlv
  obtain ⟨z', bs', hz', hpages, hlive⟩ := hi.pages.free hP hx
  refine ⟨z', bs', hla ▸ hz', hpages, ?_, ?_, ?_⟩
  · exact hi.nodup.sublist (List.filter_sublist.map Prod.fst)
  · intro k hk
    obtain ⟨hk, hne⟩ := List.mem_filter.mp hk
    obtain ⟨x, hx, hkx, hsz⟩ := hi.block k hk
    refine ⟨x, (hlive x).mpr ⟨hx, fun e => ?_⟩, hkx, hsz⟩
    rw [hkx, e, hla] at hne
    simp at hne
  · intro x hx
    obtain ⟨hx, hne⟩ := (hlive x).mp hx
    obtain ⟨k, hk, hkx⟩ := hi.owner x hx
    refine ⟨k, List.mem_filter.mpr ⟨hk, ?_⟩, hkx⟩
    simp only [decide_not, Bool.not_eq_eq_eq_not, Bool.not_true, decide_eq_false_iff_not]
    omega

/-- A byte outside every header of a page does not matter to it. -/
theorem pageInv_store8 {m : Memory} {P addr : Nat} {byte : UInt8} {bs : List SlobBlock}
    (hp : PageInv m P bs) (hout : addr < P ∨ P + sizeofSlobPage ≤ addr)
    (hblocks : ∀ x ∈ bs, addr < x.addr ∨ x.addr + sizeofSlobBlock ≤ addr) :
    PageInv (m.store8 addr byte) P bs := by
  have hword : ∀ k, k + 4 ≤ sizeofSlobPage → (m.store8 addr byte).load32 (P + k) = m.load32 (P + k) :=
    fun k hk => Memory.load32_store8_of_disjoint (by omega)
  refine ⟨hp.nonnull, hp.inSpace, (hword 0 (by decide)).trans hp.addr,
    (hword 4 (by decide)).trans hp.total, ?_, (hword 8 (by decide)).trans hp.free, hp.apart⟩
  refine hp.layout.congr_headers (hword 16 (by decide)) (fun x hx => ?_)
  refine header_congr (fun c h₁ h₂ => Memory.store8_eq_of_ne ?_)
  have := hblocks x hx
  omega

/-- Where clients and strangers may write, no header lies. -/
theorem SlobInv.outside (hi : SlobInv h bs) {addr : Nat}
    (hok : (∃ l ∈ h.live, InPayload h.slob.mem l.1 addr) ∨
      ∀ p ∈ h.slob.held, addr < p ∨ p + slobBlockSize ≤ addr) {P : Nat} (hP : P ∈ h.slob.held) :
    (addr < P ∨ P + sizeofSlobPage ≤ addr) ∧
      ∀ x ∈ bs P, addr < x.addr ∨ x.addr + sizeofSlobBlock ≤ addr := by
  have hpg := hi.pages.page P hP
  rcases hok with ⟨l, hl, hlo, hhi⟩ | hout
  · obtain ⟨y, ⟨Q, hQ, hy, hlv⟩, hly, _⟩ := hi.block l hl
    have hpgQ := hi.pages.page Q hQ
    have hby := hpgQ.layout.tiles.bounds hy
    have hptr : l.1 - sizeofSlobBlock = y.addr := by omega
    rw [hptr, hpgQ.layout.size y hy] at hhi
    by_cases e : P = Q
    · subst e
      refine ⟨by omega, fun x hx => ?_⟩
      have hbx := hpg.layout.tiles.bounds hx
      rcases hpg.layout.tiles.apart hx hy with rfl | h | h
      · omega
      · omega
      · omega
    · have hPQ := hi.pages.apart hP hQ e
      refine ⟨?_, fun x hx => ?_⟩
      · unfold sizeofSlobPage slobBlockSize at *
        omega
      · have hbx := hpg.layout.tiles.bounds hx
        omega
  · have := hout P hP
    refine ⟨?_, fun x hx => ?_⟩
    · unfold sizeofSlobPage slobBlockSize at *
      omega
    · have hbx := hpg.layout.tiles.bounds hx
      omega

theorem SlobInv.write (hi : SlobInv h bs) {addr : Nat} {byte : UInt8}
    (hok : (∃ l ∈ h.live, InPayload h.slob.mem l.1 addr) ∨
      ∀ p ∈ h.slob.held, addr < p ∨ p + slobBlockSize ≤ addr) :
    SlobInv { h with slob := { h.slob with mem := h.slob.mem.store8 addr byte } } bs := by
  have hlinks : ∀ Q ∈ h.slob.held, ∀ k, k + 4 ≤ sizeofSlobPage →
      (h.slob.mem.store8 addr byte).load32 (Q + k) = h.slob.mem.load32 (Q + k) := by
    intro Q hQ k hk
    have := (hi.outside hok hQ).1
    exact Memory.load32_store8_of_disjoint (by omega)
  refine ⟨⟨?_, fun Q hQ => ?_, hi.pages.disjoint, hi.pages.count, hi.pages.allocated⟩, hi.nodup,
    hi.block, hi.owner⟩
  · exact hi.pages.list.congr (fun Q hQ =>
      ⟨hlinks Q hQ 20 (by decide), hlinks Q hQ 24 (by decide)⟩)
  · obtain ⟨hout, hblocks⟩ := hi.outside hok hQ
    exact pageInv_store8 (hi.pages.page Q hQ) hout hblocks

/-- **One call.**  It returns, and the invariant survives it. -/
theorem SlobInv.step (hi : SlobInv h bs) {c : SlobCall} (hok : h.Allowed c) :
    ∃ h' bs', h.step c = some h' ∧ SlobInv h' bs' := by
  cases c with
  | alloc size pageMem =>
      obtain ⟨res, bs', hres, hi'⟩ := hi.alloc size hok
      exact ⟨_, bs', by rw [SlobHeap.step, hres]; rfl, hi'⟩
  | free ptr =>
      obtain ⟨z', bs', hz', hi'⟩ := hi.free hok
      exact ⟨_, bs', by rw [SlobHeap.step, hz']; rfl, hi'⟩
  | write addr byte => exact ⟨_, bs, rfl, hi.write hok⟩

theorem SlobInv.start (mem : Memory) {pageMem : Option Nat} (hp : PageOk [] pageMem) :
    ∃ bs, SlobInv (start mem pageMem) bs := by
  have hempty : Pages ⟨0, 0, 0, 0, 75, [], mem⟩ (fun _ => []) :=
    ⟨rfl, nofun, List.Pairwise.nil, rfl, rfl⟩
  cases pageMem with
  | none => exact ⟨fun _ => [], hempty, List.nodup_nil, nofun, fun x ⟨P, hP, _⟩ => nomatch hP⟩
  | some P =>
      obtain ⟨hpages, hheld, _⟩ := hempty.allocPage hp
      refine ⟨_, hpages, List.nodup_nil, nofun, fun x ⟨Q, hQ, hx, hlv⟩ => ?_⟩
      have hQP : Q = P := by
        have hQ' : Q ∈ [P] := hheld ▸ hQ
        exact List.mem_singleton.mp hQ'
      subst hQP
      rw [Function.update_self] at hx
      rw [List.mem_singleton.mp hx] at hlv
      exact nomatch hlv

theorem slobInv_reachable (mem : Memory) {pageMem : Option Nat} (hp : PageOk [] pageMem)
    (hr : Reaches SlobHeap.step Allowed (start mem pageMem) h) : ∃ bs, SlobInv h bs := by
  refine hr.invariant (I := fun h => ∃ bs, SlobInv h bs) (SlobInv.start mem hp) ?_
  rintro u c u' ⟨bs, hi⟩ hok hs
  obtain ⟨h', bs', hs', hi'⟩ := hi.step hok
  rw [hs] at hs'
  obtain rfl := Option.some.inj hs'
  exact ⟨bs', hi'⟩

/-- **The SLOB heap is in order after every sequence of calls.**  In every page
the blocks `bs` names tile the room behind the header, the free ones are
linked in increasing order of address with no two of them neighbours, and the
counters of the page and of the allocator are right.  The live blocks are those
behind the clients' pointers, so what clients hold does not overlap and is as
large as they asked for.  Every call a client may make returns. -/
theorem slob_heap_invariant (mem : Memory) {pageMem : Option Nat} (hp : PageOk [] pageMem)
    (hr : Reaches SlobHeap.step Allowed (start mem pageMem) h) :
    (∃ bs, SlobInv h bs ∧ ∀ P ∈ h.slob.held, (freeAddrs (bs P)).Pairwise (· < ·)) ∧
      h.live.Pairwise (fun l k => l.1 + l.2 ≤ k.1 ∨ k.1 + k.2 ≤ l.1) ∧
      ∀ c, h.Allowed c → (h.step c).isSome := by
  obtain ⟨bs, hi⟩ := slobInv_reachable mem hp hr
  refine ⟨⟨bs, hi, fun P hP => (hi.pages.page P hP).layout.tiles.freeAddrs_sorted⟩, ?_, ?_⟩
  · refine (List.pairwise_map.mp hi.nodup).imp_of_mem (fun {l k} hl hk hne => ?_)
    obtain ⟨x, hx, hlx, hsx⟩ := hi.block l hl
    obtain ⟨y, hy, hky, hsy⟩ := hi.block k hk
    rcases hi.apart hx hy with rfl | h | h
    · exact absurd (hlx.trans hky.symm) hne
    · exact Or.inl (by omega)
    · exact Or.inr (by omega)
  · intro c hok
    obtain ⟨h', bs', hs', _⟩ := hi.step hok
    rw [hs']
    rfl

/-- A run in which two blocks are taken, written to and one is given back. -/
theorem slob_heap_invariant_two_blocks :
    ∃ h, Reaches SlobHeap.step Allowed (start (fun _ => 7) (some 65536)) h ∧
      (h.live = [(65612, 500)] ∧ h.slob.totalAllocated = 520 ∧ h.slob.totalPages = 1) ∧
      ∃ bs, SlobInv h bs := by
  obtain ⟨h, hr, hh⟩ := Reaches.of_checked_script SlobHeap.step Allowed (start (fun _ => 7) (some 65536))
    (fun h => h.live == [(65612, 500)] && h.slob.totalAllocated == 520 && h.slob.totalPages == 1)
    [.alloc 10 none, .alloc 500 none, .write 65612 255, .free 65580] (by decide +kernel)
  have hh' : h.live = [(65612, 500)] ∧ h.slob.totalAllocated = 520 ∧ h.slob.totalPages = 1 := by
    simpa [and_assoc] using hh
  obtain ⟨⟨bs, hi, _⟩, _⟩ := slob_heap_invariant (fun _ => 7) (by decide : PageOk [] (some 65536)) hr
  exact ⟨h, hr, hh', bs, hi⟩

/-! ## Best fit -/

theorem alignedSize_eq (size : Nat) :
    alignedSize size = max ((size + 7) / 8 * 8) slobMinAlloc + sizeofSlobBlock := by
  unfold alignedSize slobAlign slobMinAlloc
  dsimp only
  split <;> omega

/-- **Allocation is best fit and complete**: in every state of a run a request
that can be served takes a smallest free block with room for it, if there is
one, and the block of a new page otherwise; it is refused only when no free
block has room and no page is to be had, and then nothing has changed. -/
theorem slob_best_fit (mem : Memory) {pageMem : Option Nat} (hp : PageOk [] pageMem)
    (hr : Reaches SlobHeap.step Allowed (start mem pageMem) h) {size : Nat}
    (hsize : 0 < size ∧ size ≤ slobMaxAlloc) {answer : Option Nat}
    (hok : PageOk h.slob.held answer) :
    ∃ bs, SlobInv h bs ∧ ∃ res, h.slob.alloc size answer = some res ∧
      Served h.slob bs (max ((size + 7) / 8 * 8) slobMinAlloc + sizeofSlobBlock) answer res := by
  obtain ⟨bs, hi⟩ := slobInv_reachable mem hp hr
  obtain ⟨res, _, hres, _, hserved⟩ := hi.alloc_served hsize hok
  rw [alignedSize_eq] at hserved
  exact ⟨bs, hi, res, hres, hserved⟩

/-- A request for 100 bytes after two blocks have been taken and the first one
given back: the freed block of 528 bytes is smaller than the rest of the page. -/
theorem slob_best_fit_reuses :
    ∃ h, Reaches SlobHeap.step Allowed (start (fun _ => 7) (some 65536)) h ∧
      (h.slob.alloc 100 none).map (fun r => r.2) = some (some 65580) ∧
      ∃ bs, SlobInv h bs ∧ ∃ res, h.slob.alloc 100 none = some res ∧
        Served h.slob bs (max ((100 + 7) / 8 * 8) slobMinAlloc + sizeofSlobBlock) none res := by
  obtain ⟨h, hr, hh⟩ := Reaches.of_checked_script SlobHeap.step Allowed (start (fun _ => 7) (some 65536))
    (fun h => (h.slob.alloc 100 none).map (fun r => r.2) == some (some 65580))
    [.alloc 512 none, .alloc 10 none, .free 65580] (by decide +kernel)
  exact ⟨h, hr, by simpa using hh, slob_best_fit (fun _ => 7) (by decide : PageOk [] (some 65536)) hr
    (by decide) (True.intro : PageOk h.slob.held none)⟩

end SlobHeap

end KmOS
