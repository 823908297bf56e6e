/-
# `KmOS.Slob.Operations` — the list operations on a page's blocks

Each operation on a page is described by the blocks it leaves.  `split_block`
cuts one free block in two, `remove_free_block` makes a free block live,
`add_free_block` makes a live block free, and `merge_free_blocks` joins every
free block with the free blocks right behind it.
-/
import KmOS.Slob.Blocks

namespace KmOS

namespace Slob

variable {m m' : Memory} {P a b c e v sz s : Nat} {bs pre post : List SlobBlock}

/-! ## Splitting -/

/-- The stores of `split_block`, on a block that is large enough. -/
theorem splitBlock_eq (hsz : size m a = sz) (hs : sizeofSlobBlock ≤ s)
    (hlt : s + sizeofSlobBlock < sz) (ha : a + sz < wordSize) :
    splitBlock m a s =
      setSize (setNext
        (if next m a ≠ 0 then
          setPrev (setPrev (setNext (setMagic (setSize m (a + s) (sz - s)) (a + s) 0) (a + s)
            (next m a)) (a + s) a) (next m a) (a + s)
        else
          setPrev (setNext (setMagic (setSize m (a + s) (sz - s)) (a + s) 0) (a + s)
            (next m a)) (a + s) a) a (a + s)) a s := by
  unfold sizeofSlobBlock at hs hlt
  have hadd : add32 a s = a + s := add32_eq (by omega)
  have hadd' : add32 s sizeofSlobBlock = s + 16 := add32_eq (by unfold sizeofSlobBlock; omega)
  have hsub : sub32 sz s = sz - s := sub32_eq (by omega) (by omega)
  have hself : Memory.Apart sizeofSlobBlock (a + s) a :=
    Or.inr (Or.inr (by unfold sizeofSlobBlock; omega))
  have hne : a ≠ a + s := by omega
  have hg : ¬ size m a ≤ add32 s sizeofSlobBlock := by omega
  -- the new block's words leave the old block's link alone
  have hnext₂ : next (setMagic (setSize m (a + s) (sz - s)) (a + s) 0) a = next m a := by
    have h := header_setMagic (m := setSize m (a + s) (sz - s)) hself (by decide : 0 < wordSize)
    rw [if_neg hne, header_setSize hself (by omega), if_neg hne] at h
    exact congrArg BlockHeader.next h
  have hinit := header_init (m := m) hself (by omega : sz - s < wordSize)
    (by decide : 0 < wordSize) (next_lt m a) (by omega : a < wordSize)
  have hnext₄ := congrArg BlockHeader.next (hinit.trans (if_neg hne))
  unfold splitBlock
  rw [if_neg hg]
  dsimp only
  rw [hadd, hsz, hsub, hnext₂]
  rw [show next _ a = next m a from hnext₄]

theorem header_splitBlock (hsz : size m a = sz) (hs : sizeofSlobBlock ≤ s)
    (hlt : s + sizeofSlobBlock < sz) (ha : a + sz < wordSize)
    (hn : next m a = 0 ∨ a + sz ≤ next m a) (hb : b ≠ 0)
    (hab : Memory.Apart sizeofSlobBlock a b) (hnb : Memory.Apart sizeofSlobBlock (a + s) b)
    (hnn : next m a ≠ 0 → Memory.Apart sizeofSlobBlock (next m a) b) :
    header (splitBlock m a s) b =
      if b = a + s then ⟨sz - s, 0, next m a, a⟩
      else if b = a then { header m b with size := s, next := a + s }
      else if b = next m a then { header m b with prev := a + s }
      else header m b := by
  rw [splitBlock_eq hsz hs hlt ha]
  unfold sizeofSlobBlock at hs hlt
  rw [header_setSize hab (by omega), header_setNext hab (by omega),
    header_setPrev_if hb hnn (by omega),
    header_init hnb (by omega) (by decide) (next_lt m a) (by omega)]
  by_cases h₁ : b = a + s
  · have h₂ : b ≠ a := by omega
    have h₃ : b ≠ next m a := by omega
    simp only [if_pos h₁, if_neg h₂, if_neg h₃]
  · by_cases h₂ : b = a
    · have h₃ : b ≠ next m a := by omega
      simp only [if_neg h₁, if_pos h₂, if_neg h₃]
    · by_cases h₃ : b = next m a
      · simp only [if_neg h₁, if_neg h₂, if_pos h₃]
      · simp only [if_neg h₁, if_neg h₂, if_neg h₃]

/-- The address of the new block is apart from the old headers. -/
theorem apart_split (h : Tiles c (pre ++ ⟨a, sz, false⟩ :: post) e) (hs : sizeofSlobBlock ≤ s)
    (hlt : s + sizeofSlobBlock < sz) {y : SlobBlock} (hy : y ∈ pre ++ ⟨a, sz, false⟩ :: post) :
    y.addr + sizeofSlobBlock ≤ a + s ∨ a + s + sizeofSlobBlock ≤ y.addr := by
  have hby := h.bounds hy
  have hx : (⟨a, sz, false⟩ : SlobBlock) ∈ pre ++ ⟨a, sz, false⟩ :: post := by simp
  unfold sizeofSlobBlock at *
  rcases h.apart hx hy with e | e | e
  · exact Or.inl (by rw [← e]; dsimp only; omega)
  · exact Or.inr (by dsimp only at e; omega)
  · exact Or.inl (by dsimp only at e; omega)

theorem freeAddrs_at {x : SlobBlock} (hx : x.live = false) :
    freeAddrs (pre ++ x :: post) = freeAddrs pre ++ x.addr :: freeAddrs post := by
  rw [freeAddrs_append, freeAddrs_cons_free hx]

theorem freeAddrs_at_live {x : SlobBlock} (hx : x.live = true) :
    freeAddrs (pre ++ x :: post) = freeAddrs pre ++ freeAddrs post := by
  rw [freeAddrs_append, freeAddrs_cons_live hx]

/-- The link of a free block leads behind it, if anywhere. -/
theorem Layout.next_behind (h : Layout m P (pre ++ ⟨a, sz, false⟩ :: post)) :
    next m a = 0 ∨ a + sz ≤ next m a := by
  by_cases hz : next m a = 0
  · exact Or.inl hz
  · obtain ⟨y, hy, _, hya⟩ := h.next_mem rfl hz
    exact Or.inr (hya ▸ h.tiles.after hy)

/-- The header of the new block. -/
theorem header_split_new (hP : P + slobBlockSize < wordSize)
    (h : Layout m P (pre ++ ⟨a, sz, false⟩ :: post)) (hs : sizeofSlobBlock ≤ s)
    (hlt : s + sizeofSlobBlock < sz) :
    header (splitBlock m a s) (a + s) = ⟨sz - s, 0, next m a, a⟩ := by
  have hx : (⟨a, sz, false⟩ : SlobBlock) ∈ pre ++ ⟨a, sz, false⟩ :: post := by simp
  obtain ⟨_, hhi, _⟩ := h.tiles.bounds hx
  dsimp only at hhi
  have hsz : size m a = sz := h.size _ hx
  have hn := h.next_behind
  have hnn : next m a ≠ 0 → Memory.Apart sizeofSlobBlock (next m a) (a + s) := by
    intro hz
    unfold sizeofSlobBlock at *
    exact Or.inr (Or.inr (by omega))
  have hnew := header_splitBlock hsz hs hlt (by omega) hn
    (by unfold sizeofSlobBlock at hs; omega) (Or.inr (Or.inl (by omega))) (Or.inl rfl) hnn
  rwa [if_pos rfl] at hnew

/-- The headers of the old blocks. -/
theorem header_split_old (hP : P + slobBlockSize < wordSize)
    (h : Layout m P (pre ++ ⟨a, sz, false⟩ :: post)) (hs : sizeofSlobBlock ≤ s)
    (hlt : s + sizeofSlobBlock < sz) {y : SlobBlock} (hy : y ∈ pre ++ ⟨a, sz, false⟩ :: post) :
    header (splitBlock m a s) y.addr =
      if y.addr = a then { header m y.addr with size := s, next := a + s }
      else if y.addr = next m a then { header m y.addr with prev := a + s }
      else header m y.addr := by
  have hx : (⟨a, sz, false⟩ : SlobBlock) ∈ pre ++ ⟨a, sz, false⟩ :: post := by simp
  have hfree : a ∈ freeAddrs (pre ++ ⟨a, sz, false⟩ :: post) := mem_freeAddrs.mpr ⟨_, hx, rfl, rfl⟩
  obtain ⟨_, hhi, _⟩ := h.tiles.bounds hx
  dsimp only at hhi
  have hsz : size m a = sz := h.size _ hx
  have hsep := apart_split h.tiles hs hlt hy
  have hne : y.addr ≠ a + s := by
    unfold sizeofSlobBlock at hsep
    omega
  have hold := header_splitBlock hsz hs hlt (by omega) h.next_behind (h.addr_ne_zero hy)
    (h.tiles.apart_headers hx hy) (Or.inr hsep.symm)
    (fun hz => h.apart_free (h.next_mem_free hfree hz) hy)
  rwa [if_neg hne] at hold

theorem within_splitBlock (hP : P + slobBlockSize < wordSize)
    (h : Layout m P (pre ++ ⟨a, sz, false⟩ :: post)) (hs : sizeofSlobBlock ≤ s)
    (hlt : s + sizeofSlobBlock < sz) : Within 20 P m (splitBlock m a s) := by
  have hx : (⟨a, sz, false⟩ : SlobBlock) ∈ pre ++ ⟨a, sz, false⟩ :: post := by simp
  have hfree : a ∈ freeAddrs (pre ++ ⟨a, sz, false⟩ :: post) := mem_freeAddrs.mpr ⟨_, hx, rfl, rfl⟩
  obtain ⟨_, hhi, _⟩ := h.tiles.bounds hx
  dsimp only at hhi
  have hsz : size m a = sz := h.size _ hx
  have hin : InPage P a := h.inPage hx
  have hin' : InPage P (a + s) := by
    unfold InPage sizeofSlobBlock at *
    omega
  have hinn : next m a ≠ 0 → InPage P (next m a) :=
    fun hz => h.inPage_free (h.next_mem_free hfree hz)
  rw [splitBlock_eq hsz hs hlt (by omega)]
  refine Within.setSize (Within.setNext (Within.setPrev_if ?_ hinn (by decide)) hin (by decide))
    hin (by decide)
  exact ((((Within.refl 20 P m).setSize hin' (by decide)).setMagic hin' (by decide)).setNext hin'
    (by decide)).setPrev hin' (by decide)

/-- The links of the free blocks after a split: the new block is behind the
old one. -/
theorem inserted_split (hP : P + slobBlockSize < wordSize)
    (h : Layout m P (pre ++ ⟨a, sz, false⟩ :: post)) (hs : sizeofSlobBlock ≤ s)
    (hlt : s + sizeofSlobBlock < sz) :
    Dll.Inserted 0 (next m) (prev m) (next (splitBlock m a s)) (prev (splitBlock m a s)) a (a + s)
      (freeAddrs pre ++ a :: freeAddrs post) := by
  have hx : (⟨a, sz, false⟩ : SlobBlock) ∈ pre ++ ⟨a, sz, false⟩ :: post := by simp
  have hfree : a ∈ freeAddrs (pre ++ ⟨a, sz, false⟩ :: post) := mem_freeAddrs.mpr ⟨_, hx, rfl, rfl⟩
  have hmem : ∀ b ∈ freeAddrs pre ++ a :: freeAddrs post,
      ∃ y ∈ pre ++ ⟨a, sz, false⟩ :: post, y.addr = b := by
    intro b hb
    rw [← freeAddrs_at (x := ⟨a, sz, false⟩) rfl] at hb
    obtain ⟨y, hy, _, hyb⟩ := mem_freeAddrs.mp hb
    exact ⟨y, hy, hyb⟩
  have hnew := header_split_new hP h hs hlt
  have hself := header_split_old hP h hs hlt hx
  rw [if_pos rfl] at hself
  refine
    { next_new := congrArg BlockHeader.next hnew
      prev_new := congrArg BlockHeader.prev hnew
      next_before := congrArg BlockHeader.next hself
      next_other := ?_
      prev_after := ?_
      prev_other := ?_ }
  · intro b hb hba
    obtain ⟨y, hy, rfl⟩ := hmem b hb
    have hh := header_split_old hP h hs hlt hy
    rw [if_neg hba] at hh
    have hnext := congrArg BlockHeader.next hh
    split at hnext <;> exact hnext
  · intro hz
    have hn := h.next_behind
    obtain ⟨y, hy, hyn⟩ := hmem _ (freeAddrs_at (x := ⟨a, sz, false⟩) rfl ▸ h.next_mem_free hfree hz)
    have hh := header_split_old hP h hs hlt hy
    have hya : y.addr ≠ a := by omega
    rw [if_neg hya, if_pos hyn] at hh
    rw [← hyn]
    exact congrArg BlockHeader.prev hh
  · intro b hb hbn
    obtain ⟨y, hy, rfl⟩ := hmem b hb
    have hh := header_split_old hP h hs hlt hy
    rw [if_neg hbn] at hh
    have hprev := congrArg BlockHeader.prev hh
    split at hprev <;> exact hprev

/-- **Splitting** a free block. -/
theorem layout_split (hP : P + slobBlockSize < wordSize)
    (h : Layout m P (pre ++ ⟨a, sz, false⟩ :: post)) (hs : sizeofSlobBlock ≤ s)
    (hlt : s + sizeofSlobBlock < sz) :
    Layout (splitBlock m a s) P (pre ++ ⟨a, s, false⟩ :: ⟨a + s, sz - s, false⟩ :: post) ∧
      Within 20 P m (splitBlock m a s) := by
  have hx : (⟨a, sz, false⟩ : SlobBlock) ∈ pre ++ ⟨a, sz, false⟩ :: post := by simp
  have hwithin := within_splitBlock hP h hs hlt
  have hfl : freeList (splitBlock m a s) P = freeList m P :=
    Memory.load32_congr (fun c _ hc => hwithin c (Or.inl (by omega)))
  refine ⟨h.rebuild [⟨a, s, false⟩, ⟨a + s, sz - s, false⟩] ?_ ?_ ?_ ?_, hwithin⟩
  · obtain ⟨c, h₁, ha, _, h₂⟩ := tiles_append.mp h.tiles
    dsimp only at ha h₂
    refine tiles_append.mpr ⟨c, h₁, ha, hs, by rw [← ha], ?_, ?_⟩
    · dsimp only
      omega
    · dsimp only
      rwa [show c + s + (sz - s) = c + sz by omega]
  · intro y hy
    obtain ⟨hy', hya⟩ := h.tiles.others hy
    have hh := header_split_old hP h hs hlt hy'
    rw [if_neg hya] at hh
    refine ⟨hy', ?_, ?_⟩
    · have hsize := congrArg BlockHeader.size hh
      split at hsize <;> exact hsize
    · have hmagic := congrArg BlockHeader.magic hh
      split at hmagic <;> exact hmagic
  · intro y hy
    rcases List.mem_pair.mp hy with rfl | rfl
    · have hself := header_split_old hP h hs hlt hx
      rw [if_pos rfl] at hself
      exact ⟨congrArg BlockHeader.size hself, fun hlive => nomatch hlive⟩
    · exact ⟨congrArg BlockHeader.size (header_split_new hP h hs hlt), fun hlive => nomatch hlive⟩
  · have hl := h.list
    have hnd := h.tiles.freeAddrs_nodup
    have hne : a + s ≠ 0 := by
      unfold sizeofSlobBlock at hs
      omega
    show Dll 0 _ _ 0 _ (freeAddrs (pre ++ ⟨a, s, false⟩ :: ⟨a + s, sz - s, false⟩ :: post))
    rw [hfl, freeAddrs_at rfl, freeAddrs_cons_free rfl]
    rw [freeAddrs_at rfl] at hl hnd
    exact hl.insert hnd hne (inserted_split hP h hs hlt)

/-! ## Taking a block off the list -/

/-- The stores of `remove_free_block`, with the links as they were. -/
theorem removeFreeBlock_eq (hP : P ≠ 0) (ha : InPage P a)
    (hprev : prev m a ≠ 0 → prev m a ≠ a ∧ Memory.Apart sizeofSlobBlock (prev m a) a) :
    removeFreeBlock m P a =
      let m₁ := if freeList m P = a then setFreeList m P (next m a) else m
      let m₂ := if prev m a ≠ 0 then setNext m₁ (prev m a) (next m a) else m₁
      let m₃ := if next m a ≠ 0 then setPrev m₂ (next m a) (prev m a) else m₂
      setPrev (setNext m₃ a 0) a 0 := by
  have ha0 : a ≠ 0 := by
    have := ha.1
    unfold sizeofSlobPage at this
    omega
  have hg : ¬ (P = 0 ∨ a = 0) := by omega
  have h₁ : header (if freeList m P = a then setFreeList m P (next m a) else m) a = header m a := by
    split
    · exact header_page_store (by decide) ha.1
    · rfl
  have hn₁ := congrArg BlockHeader.next h₁
  have hp₁ := congrArg BlockHeader.prev h₁
  simp only [header] at hn₁ hp₁
  generalize hm₁ : (if freeList m P = a then setFreeList m P (next m a) else m) = m₁ at h₁ hn₁ hp₁
  have h₂ : header (if prev m a ≠ 0 then setNext m₁ (prev m a) (next m a) else m₁) a = header m₁ a := by
    rw [header_setNext_if ha0 (fun hz => (hprev hz).2) (next_lt m a)]
    refine if_neg (fun e => ?_)
    exact (hprev (e ▸ ha0)).1 e.symm
  have hn₂ := congrArg BlockHeader.next h₂
  have hp₂ := congrArg BlockHeader.prev h₂
  simp only [header] at hn₂ hp₂
  unfold removeFreeBlock
  rw [if_neg hg]
  dsimp only
  rw [hm₁, hp₁, hn₁, hn₂, hp₂, hp₁, hn₁]

/-- The headers of the other blocks after `remove_free_block`. -/
theorem header_removeFreeBlock (hP : P ≠ 0) (ha : InPage P a) (hb : InPage P b)
    (hprev : prev m a ≠ 0 → prev m a ≠ a ∧ Memory.Apart sizeofSlobBlock (prev m a) a)
    (hba : b ≠ a) (hab : Memory.Apart sizeofSlobBlock a b)
    (hpb : prev m a ≠ 0 → Memory.Apart sizeofSlobBlock (prev m a) b)
    (hnb : next m a ≠ 0 → Memory.Apart sizeofSlobBlock (next m a) b) :
    header (removeFreeBlock m P a) b =
      ⟨size m b, magic m b, if b = prev m a then next m a else next m b,
        if b = next m a then prev m a else prev m b⟩ := by
  have hb0 : b ≠ 0 := by
    have := hb.1
    unfold sizeofSlobPage at this
    omega
  have h₁ : header (if freeList m P = a then setFreeList m P (next m a) else m) b = header m b := by
    split
    · exact header_page_store (by decide) hb.1
    · rfl
  rw [removeFreeBlock_eq hP ha hprev]
  dsimp only
  rw [header_setPrev hab (by decide), if_neg hba, header_setNext hab (by decide), if_neg hba,
    header_setPrev_if hb0 hnb (prev_lt m a), header_setNext_if hb0 hpb (next_lt m a), h₁]
  simp only [header]
  split <;> split <;> rfl

theorem size_removeFreeBlock_self (hP : P ≠ 0) (ha : InPage P a)
    (hprev : prev m a ≠ 0 → prev m a ≠ a ∧ Memory.Apart sizeofSlobBlock (prev m a) a)
    (hnext : next m a ≠ 0 → Memory.Apart sizeofSlobBlock (next m a) a) :
    size (removeFreeBlock m P a) a = size m a := by
  have ha0 : a ≠ 0 := by
    have := ha.1
    unfold sizeofSlobPage at this
    omega
  have h₁ : header (if freeList m P = a then setFreeList m P (next m a) else m) a = header m a := by
    split
    · exact header_page_store (by decide) ha.1
    · rfl
  have hh := congrArg (fun m => (header m a).size) (removeFreeBlock_eq hP ha hprev)
  dsimp only at hh
  rw [header_setPrev (Or.inl rfl) (by decide), if_pos rfl, header_setNext (Or.inl rfl) (by decide),
    if_pos rfl, header_setPrev_if ha0 hnext (prev_lt m a),
    header_setNext_if ha0 (fun hz => (hprev hz).2) (next_lt m a), h₁] at hh
  refine hh.trans ?_
  split <;> split <;> rfl

theorem within_removeFreeBlock (hP : P ≠ 0) (ha : InPage P a)
    (hprev : prev m a ≠ 0 → prev m a ≠ a ∧ Memory.Apart sizeofSlobBlock (prev m a) a)
    (hp : prev m a ≠ 0 → InPage P (prev m a)) (hn : next m a ≠ 0 → InPage P (next m a)) :
    Within 12 P m (removeFreeBlock m P a) := by
  rw [removeFreeBlock_eq hP ha hprev]
  dsimp only
  refine Within.setPrev (Within.setNext (Within.setPrev_if (Within.setNext_if ?_ hp (by decide))
    hn (by decide)) ha (by decide)) ha (by decide)
  split
  · exact (Within.refl 12 P m).store_page (by decide) (by decide)
  · exact Within.refl 12 P m

theorem freeList_removeFreeBlock (hP : P ≠ 0) (ha : InPage P a)
    (hprev : prev m a ≠ 0 → prev m a ≠ a ∧ Memory.Apart sizeofSlobBlock (prev m a) a)
    (hp : prev m a ≠ 0 → InPage P (prev m a)) (hn : next m a ≠ 0 → InPage P (next m a)) :
    freeList (removeFreeBlock m P a) P = if a = freeList m P then next m a else freeList m P := by
  have hblock : ∀ {m : Memory} {x v k : Nat}, InPage P x → freeList (m.store32 (x + k) v) P = freeList m P :=
    fun hx => load32_page_store (by decide) (by have := hx.1; omega)
  rw [removeFreeBlock_eq hP ha hprev]
  dsimp only
  have h₃ : ∀ m₂ : Memory, freeList (if next m a ≠ 0 then setPrev m₂ (next m a) (prev m a) else m₂) P =
      freeList m₂ P := by
    intro m₂
    split
    · next hz => exact hblock (hn hz)
    · rfl
  have h₂ : ∀ m₁ : Memory, freeList (if prev m a ≠ 0 then setNext m₁ (prev m a) (next m a) else m₁) P =
      freeList m₁ P := by
    intro m₁
    split
    · next hz => exact hblock (hp hz)
    · rfl
  unfold setPrev at h₃ ⊢
  unfold setNext at h₂ ⊢
  rw [hblock ha, hblock ha, h₃, h₂]
  by_cases e : a = freeList m P
  · rw [if_pos e.symm, if_pos e]
    exact (Memory.load32_store32 m (P + 16) (next m a)).trans (Nat.mod_eq_of_lt (next_lt m a))
  · rw [if_neg (fun e' => e e'.symm), if_neg e]

/-- What a free block's links satisfy in a layout. -/
theorem Layout.links (h : Layout m P bs) (ha : a ∈ freeAddrs bs) :
    (prev m a ≠ 0 → prev m a ≠ a ∧ Memory.Apart sizeofSlobBlock (prev m a) a) ∧
      (next m a ≠ 0 → Memory.Apart sizeofSlobBlock (next m a) a) ∧
      (prev m a ≠ 0 → InPage P (prev m a)) ∧ (next m a ≠ 0 → InPage P (next m a)) := by
  obtain ⟨x, hx, _, rfl⟩ := mem_freeAddrs.mp ha
  refine ⟨fun hz => ⟨?_, ?_⟩, fun hz => ?_, fun hz => ?_, fun hz => ?_⟩
  · exact h.list.prev_ne h.tiles.freeAddrs_nodup ha (h.addr_ne_zero hx)
  · exact h.apart_free (h.prev_mem_free ha hz) hx
  · exact h.apart_free (h.next_mem_free ha hz) hx
  · exact h.inPage_free (h.prev_mem_free ha hz)
  · exact h.inPage_free (h.next_mem_free ha hz)

/-- **Taking** a free block: it is unlinked and marked live, and the page's
count of free bytes is rewritten. -/
theorem layout_take {w : Nat} (hP : P ≠ 0) (hw : w < wordSize)
    (h : Layout m P (pre ++ ⟨a, sz, false⟩ :: post)) :
    let m' := setMagic (setFreeSize (removeFreeBlock m P a) P w) a slobMagic
    Layout m' P (pre ++ ⟨a, sz, true⟩ :: post) ∧ Within 8 P m m' ∧ freeSize m' P = w := by
  intro m'
  have hx : (⟨a, sz, false⟩ : SlobBlock) ∈ pre ++ ⟨a, sz, false⟩ :: post := by simp
  have hfree : a ∈ freeAddrs (pre ++ ⟨a, sz, false⟩ :: post) := mem_freeAddrs.mpr ⟨_, hx, rfl, rfl⟩
  have hin : InPage P a := h.inPage hx
  obtain ⟨hprev, hnext, hip, hinx⟩ := h.links hfree
  have hwithin := within_removeFreeBlock hP hin hprev hip hinx
  have hstep : ∀ b, InPage P b → Memory.Apart sizeofSlobBlock a b →
      header m' b = if b = a then { header (removeFreeBlock m P a) b with magic := slobMagic }
        else header (removeFreeBlock m P a) b := by
    intro b hb hab
    rw [header_setMagic hab (by decide), show header (setFreeSize (removeFreeBlock m P a) P w) b =
      header (removeFreeBlock m P a) b from header_page_store (by decide) hb.1]
  have hself := hstep a hin (Or.inl rfl)
  rw [if_pos rfl] at hself
  have hother : ∀ y ∈ pre ++ post, header m' y.addr =
      ⟨size m y.addr, magic m y.addr, if y.addr = prev m a then next m a else next m y.addr,
        if y.addr = next m a then prev m a else prev m y.addr⟩ := by
    intro y hy
    obtain ⟨hy', hya⟩ := h.tiles.others hy
    rw [hstep y.addr (h.inPage hy') (h.tiles.apart_headers hx hy'), if_neg hya]
    exact header_removeFreeBlock hP hin (h.inPage hy') hprev hya (h.tiles.apart_headers hx hy')
      (fun hz => h.apart_free (h.prev_mem_free hfree hz) hy')
      (fun hz => h.apart_free (h.next_mem_free hfree hz) hy')
  have hfl : freeList m' P = if a = freeList m P then next m a else freeList m P := by
    have h₁ : freeList m' P = freeList (setFreeSize (removeFreeBlock m P a) P w) P :=
      load32_page_store (by decide) (by have := hin.1; omega)
    have h₂ : freeList (setFreeSize (removeFreeBlock m P a) P w) P =
        freeList (removeFreeBlock m P a) P := Memory.load32_store32_of_disjoint (by omega)
    rw [h₁, h₂, freeList_removeFreeBlock hP hin hprev hip hinx]
  refine ⟨h.rebuild [⟨a, sz, true⟩] (h.tiles.relabel true) ?_ ?_ ?_, ?_, ?_⟩
  · intro y hy
    exact ⟨(h.tiles.others hy).1, congrArg BlockHeader.size (hother y hy),
      congrArg BlockHeader.magic (hother y hy)⟩
  · intro y hy
    rw [List.mem_singleton.mp hy]
    have hsize := (congrArg BlockHeader.size hself).trans
      (size_removeFreeBlock_self hP hin hprev hnext)
    exact ⟨hsize.trans (h.size _ hx), fun _ => congrArg BlockHeader.magic hself⟩
  · have hl := h.list
    have hnd := h.tiles.freeAddrs_nodup
    rw [freeAddrs_at rfl] at hl hnd
    dsimp only at hl hnd
    have ha : a ∉ freeAddrs pre :=
      fun hm => (List.nodup_append.mp hnd).2.2 a hm a List.mem_cons_self rfl
    have herase : (freeAddrs pre ++ a :: freeAddrs post).erase a = freeAddrs pre ++ freeAddrs post := by
      rw [List.erase_append_right _ ha, List.erase_cons_head]
    have hlinks : ∀ b ∈ (freeAddrs pre ++ a :: freeAddrs post).erase a,
        next m' b = (if b = prev m a then next m a else next m b) ∧
          prev m' b = (if b = next m a then prev m a else prev m b) := by
      intro b hb
      rw [herase, ← freeAddrs_append] at hb
      obtain ⟨y, hy, _, rfl⟩ := mem_freeAddrs.mp hb
      exact ⟨congrArg BlockHeader.next (hother y hy), congrArg BlockHeader.prev (hother y hy)⟩
    have hl' := hl.unlink_agree hnd (List.mem_append_right _ List.mem_cons_self) hlinks
    rwa [herase, ← hfl, ← freeAddrs_at_live (x := ⟨a, sz, true⟩) rfl] at hl'
  · exact ((hwithin.mono (by decide)).store_page (by decide) (by decide)).setMagic hin (by decide)
  · have h₁ : freeSize m' P = freeSize (setFreeSize (removeFreeBlock m P a) P w) P :=
      load32_page_store (by decide) (by have := hin.1; omega)
    rw [h₁]
    exact (Memory.load32_store32 _ (P + 8) w).trans (Nat.mod_eq_of_lt hw)

/-! ## Putting a block on the list -/

theorem next_setPrev (h : Memory.Apart sizeofSlobBlock a b) :
    next (setPrev m a v) b = next m b := by
  refine Memory.load32_store32_of_disjoint ?_
  unfold Memory.Apart sizeofSlobBlock at h
  omega

/-- Header addresses of one page that do not overlap. -/
structure Headers (P : Nat) (S : Nat → Prop) : Prop where
  inPage : ∀ x, S x → InPage P x
  apart : ∀ x y, S x → S y → Memory.Apart sizeofSlobBlock x y

theorem Headers.ne_zero {S : Nat → Prop} (hS : Headers P S) (ha : S a) : a ≠ 0 := by
  have := (hS.inPage a ha).1
  unfold sizeofSlobPage at this
  omega

/-- The search of `add_free_block` stops at the last free block in front. -/
theorem insertLoop_eq {p h : Nat} {l₁ l₂ : List Nat} {fuel : Nat}
    (hl : Dll 0 (next m) (prev m) p h (l₁ ++ c :: l₂)) (h₁ : ∀ b ∈ l₁ ++ [c], b < a)
    (h₂ : ∀ b ∈ l₂, a < b) (hf : l₁.length < fuel) : insertLoop m a fuel h = some c := by
  induction l₁ generalizing p h fuel with
  | nil =>
      obtain ⟨fuel, rfl⟩ : ∃ k, fuel = k + 1 := ⟨fuel - 1, by simp at hf; omega⟩
      obtain ⟨rfl, _, _, ht⟩ := hl
      have hstop : ¬ (next m h ≠ 0 ∧ next m h < a) := by
        rintro ⟨hz, hlt⟩
        obtain ⟨t, ht'⟩ := ht.exists_cons hz
        have := h₂ (next m h) (by rw [ht']; exact List.mem_cons_self)
        omega
      rw [insertLoop, if_neg hstop]
  | cons d l ih =>
      obtain ⟨fuel, rfl⟩ : ∃ k, fuel = k + 1 := ⟨fuel - 1, by simp at hf; omega⟩
      obtain ⟨rfl, _, _, ht⟩ := hl
      have hgo : next m h ≠ 0 ∧ next m h < a := by
        cases l with
        | nil =>
            obtain ⟨e, hz, _⟩ := ht
            rw [e]
            exact ⟨hz, h₁ c (by simp)⟩
        | cons f l =>
            obtain ⟨e, hz, _⟩ := ht
            rw [e]
            exact ⟨hz, h₁ f (by simp)⟩
      rw [insertLoop, if_pos hgo]
      exact ih ht (fun b hb => h₁ b (by simp at hb ⊢; exact Or.inr hb)) (by simp at hf; omega)

theorem insertBehind_eq {S : Nat → Prop} (hS : Headers P S) (ha : S a) (hc : S c) (hca : c ≠ a) :
    insertBehind m P a c =
      let m₂ := setPrev (setNext m a (next m c)) a c
      let m₃ := if next m c ≠ 0 then setPrev m₂ (next m c) a else m₂
      let m₄ := setNext m₃ c a
      setFragmentation m₄ P (inc32 (fragmentation m₄ P)) := by
  have hac := hS.apart a c ha hc
  have h₁ : next (setNext m a (next m c)) c = next m c := by
    have := header_setNext (m := m) hac (next_lt m c)
    rw [if_neg hca] at this
    exact congrArg BlockHeader.next this
  have h₂ : next (setPrev (setNext m a (next m c)) a c) c = next m c :=
    (next_setPrev hac).trans h₁
  unfold insertBehind
  dsimp only
  rw [h₂]

/-- The headers after a block went in behind `c`. -/
theorem header_insertBehind {S : Nat → Prop} (hP : P + slobBlockSize < wordSize) (hS : Headers P S)
    (ha : S a) (hc : S c) (hb : S b) (hca : c ≠ a) (hn : next m c ≠ 0 → S (next m c))
    (hna : next m c ≠ a) :
    header (insertBehind m P a c) b =
      if b = a then ⟨size m b, magic m b, next m c, c⟩
      else ⟨size m b, magic m b, if b = c then a else next m b,
        if b = next m c then a else prev m b⟩ := by
  have hlt : ∀ x, S x → x < wordSize := by
    intro x hx
    have := (hS.inPage x hx).2
    omega
  rw [insertBehind_eq hS ha hc hca]
  dsimp only
  rw [show header (setFragmentation _ P _) b = _ from header_page_store (by decide) (hS.inPage b hb).1,
    header_setNext (hS.apart c b hc hb) (hlt a ha),
    header_setPrev_if (hS.ne_zero hb) (fun hz => hS.apart _ b (hn hz) hb) (hlt a ha),
    header_setPrev (hS.apart a b ha hb) (hlt c hc), header_setNext (hS.apart a b ha hb) (next_lt m c)]
  by_cases h₁ : b = a
  · have h₂ : b ≠ c := fun e => hca (e.symm.trans h₁)
    have h₃ : b ≠ next m c := fun e => hna (e.symm.trans h₁)
    simp only [if_pos h₁, if_neg h₂, if_neg h₃, header]
  · by_cases h₂ : b = c
    · by_cases h₃ : b = next m c
      · simp only [if_neg h₁, if_pos h₂, if_pos h₃, header]
      · simp only [if_neg h₁, if_pos h₂, if_neg h₃, header]
    · by_cases h₃ : b = next m c
      · simp only [if_neg h₁, if_neg h₂, if_pos h₃, header]
      · simp only [if_neg h₁, if_neg h₂, if_neg h₃, header]

theorem within_insertBehind {S : Nat → Prop} (hS : Headers P S) (ha : S a) (hc : S c)
    (hca : c ≠ a) (hn : next m c ≠ 0 → S (next m c)) : Within 12 P m (insertBehind m P a c) := by
  rw [insertBehind_eq hS ha hc hca]
  dsimp only
  refine Within.store_page (Within.setNext (Within.setPrev_if ?_ (fun hz => hS.inPage _ (hn hz))
    (by decide)) (hS.inPage c hc) (by decide)) (by decide) (by decide)
  exact ((Within.refl 12 P m).setNext (hS.inPage a ha) (by decide)).setPrev (hS.inPage a ha)
    (by decide)

/-- A store to a block leaves the words of the page's own header alone. -/
theorem pageWord_store {S : Nat → Prop} {x k j : Nat} (hS : Headers P S) (hx : S x)
    (hj : j + 4 ≤ sizeofSlobPage) : (m.store32 (x + k) v).load32 (P + j) = m.load32 (P + j) :=
  load32_page_store hj (by have := (hS.inPage _ hx).1; omega)

/-- The words of the page's header before its mark is written. -/
theorem pageWord_insertBehind {S : Nat → Prop} {j : Nat} (hS : Headers P S) (ha : S a) (hc : S c)
    (hn : next m c ≠ 0 → S (next m c)) (hj : j + 4 ≤ sizeofSlobPage) :
    (setNext (if next m c ≠ 0 then setPrev (setPrev (setNext m a (next m c)) a c) (next m c) a
      else setPrev (setNext m a (next m c)) a c) c a).load32 (P + j) = m.load32 (P + j) := by
  have h₃ : ∀ m₂ : Memory, (if next m c ≠ 0 then setPrev m₂ (next m c) a else m₂).load32 (P + j) =
      m₂.load32 (P + j) := by
    intro m₂
    split
    · next hz => exact pageWord_store hS (hn hz) hj
    · rfl
  unfold setPrev at h₃ ⊢
  unfold setNext
  rw [pageWord_store hS hc hj, h₃, pageWord_store hS ha hj, pageWord_store hS ha hj]

theorem freeList_insertBehind {S : Nat → Prop} (hS : Headers P S) (ha : S a) (hc : S c)
    (hca : c ≠ a) (hn : next m c ≠ 0 → S (next m c)) :
    freeList (insertBehind m P a c) P = freeList m P := by
  rw [insertBehind_eq hS ha hc hca]
  dsimp only
  have hmark : ∀ (m : Memory) (v : Nat), freeList (setFragmentation m P v) P = freeList m P :=
    fun m v => Memory.load32_store32_of_disjoint (by omega)
  rw [hmark]
  exact pageWord_insertBehind hS ha hc hn (by decide)

/-- This branch counts one fragment more. -/
theorem fragmentation_insertBehind {S : Nat → Prop} (hS : Headers P S) (ha : S a) (hc : S c)
    (hca : c ≠ a) (hn : next m c ≠ 0 → S (next m c)) :
    fragmentation (insertBehind m P a c) P = inc32 (fragmentation m P) := by
  rw [insertBehind_eq hS ha hc hca]
  dsimp only
  rw [show ∀ m₄, fragmentation (setFragmentation m₄ P (inc32 (fragmentation m₄ P))) P =
      inc32 (fragmentation m₄ P) from fun m₄ =>
    (Memory.load32_store32 m₄ (P + 12) _).trans (Nat.mod_mod _ _)]
  exact congrArg inc32 (pageWord_insertBehind hS ha hc hn (by decide))

section Add

variable {S : Nat → Prop} {l l₂ : List Nat}

/-- `add_free_block` on an empty list. -/
theorem addFreeBlock_empty (hP : P ≠ 0) (hS : Headers P S) (ha : S a) (halt : a < wordSize)
    (hl : freeList m P = 0) :
    ∃ m', addFreeBlock m P a = some m' ∧ Within 12 P m m' ∧
      Dll 0 (next m') (prev m') 0 (freeList m' P) [a] ∧
      (∀ b, S b → size m' b = size m b ∧ magic m' b = magic m b) ∧
      fragmentation m' P = fragmentation m P := by
  have ha0 := hS.ne_zero ha
  have hin := hS.inPage a ha
  have hg : ¬ (P = 0 ∨ a = 0) := by omega
  have hh : ∀ b, S b → header (setPrev (setNext (setFreeList m P a) a 0) a 0) b =
      if b = a then ⟨size m b, magic m b, 0, 0⟩ else header m b := by
    intro b hb
    rw [header_setPrev (hS.apart a b ha hb) (by decide),
      header_setNext (hS.apart a b ha hb) (by decide),
      show header (setFreeList m P a) b = header m b from header_page_store (by decide) (hS.inPage b hb).1]
    split <;> rfl
  have hself := hh a ha
  rw [if_pos rfl] at hself
  have hfl : freeList (setPrev (setNext (setFreeList m P a) a 0) a 0) P = a := by
    have h₁ : freeList (setPrev (setNext (setFreeList m P a) a 0) a 0) P =
        freeList (setNext (setFreeList m P a) a 0) P :=
      load32_page_store (by decide) (by have := hin.1; omega)
    have h₂ : freeList (setNext (setFreeList m P a) a 0) P = freeList (setFreeList m P a) P :=
      load32_page_store (by decide) (by have := hin.1; omega)
    rw [h₁, h₂]
    exact (Memory.load32_store32 m (P + 16) a).trans (Nat.mod_eq_of_lt halt)
  refine ⟨_, by rw [addFreeBlock, if_neg hg, if_pos hl], ?_, ?_, ?_, ?_⟩
  · exact Within.setPrev (Within.setNext ((Within.refl 12 P m).store_page (by decide) (by decide))
      hin (by decide)) hin (by decide)
  · exact ⟨hfl, ha0, congrArg BlockHeader.prev hself, congrArg BlockHeader.next hself⟩
  · intro b hb
    have := hh b hb
    split at this
    · exact ⟨congrArg BlockHeader.size this, congrArg BlockHeader.magic this⟩
    · exact ⟨congrArg BlockHeader.size this, congrArg BlockHeader.magic this⟩
  · unfold setPrev setNext
    rw [show fragmentation _ P = _ from pageWord_store hS ha (by decide),
      show Memory.load32 _ _ = _ from pageWord_store hS ha (by decide)]
    exact Memory.load32_store32_of_disjoint (by omega)

/-- `add_free_block` in front of the first free block. -/
theorem addFreeBlock_front (hP : P ≠ 0) (hS : Headers P S) (ha : S a) (halt : a < wordSize)
    (hl : Dll 0 (next m) (prev m) 0 (freeList m P) l₂) (hne : l₂ ≠ []) (hSl : ∀ b ∈ l₂, S b)
    (h₂ : ∀ b ∈ l₂, a < b) (hnd : l₂.Nodup) :
    ∃ m', addFreeBlock m P a = some m' ∧ Within 12 P m m' ∧
      Dll 0 (next m') (prev m') 0 (freeList m' P) (a :: l₂) ∧
      (∀ b, S b → size m' b = size m b ∧ magic m' b = magic m b) ∧
      fragmentation m' P = fragmentation m P := by
  have ha0 := hS.ne_zero ha
  have hin := hS.inPage a ha
  have hz : freeList m P ≠ 0 := fun e => hne (hl.head_eq_null_iff.mp e)
  obtain ⟨t, ht⟩ := hl.exists_cons hz
  have hmem : freeList m P ∈ l₂ := by
    rw [ht]
    exact List.mem_cons_self
  have hSh := hSl _ hmem
  have hlt := h₂ _ hmem
  have hg : ¬ (P = 0 ∨ a = 0) := by omega
  have hflt : freeList m P < wordSize := Memory.load32_lt m (P + 16)
  have hfl₂ : freeList (setPrev (setNext m a (freeList m P)) a 0) P = freeList m P := by
    have h₁ : freeList (setPrev (setNext m a (freeList m P)) a 0) P =
        freeList (setNext m a (freeList m P)) P :=
      load32_page_store (by decide) (by have := hin.1; omega)
    exact h₁.trans (load32_page_store (by decide) (by have := hin.1; omega))
  have hh : ∀ b, S b → header
      (setFreeList (setPrev (setPrev (setNext m a (freeList m P)) a 0) (freeList m P) a) P a) b =
      if b = a then ⟨size m b, magic m b, freeList m P, 0⟩
      else if b = freeList m P then { header m b with prev := a } else header m b := by
    intro b hb
    rw [show header (setFreeList _ P a) b = _ from header_page_store (by decide) (hS.inPage b hb).1,
      header_setPrev (hS.apart _ b hSh hb) halt, header_setPrev (hS.apart a b ha hb) (by decide),
      header_setNext (hS.apart a b ha hb) hflt]
    by_cases h₁ : b = a
    · have h₂ : b ≠ freeList m P := by omega
      simp only [if_pos h₁, if_neg h₂, header]
    · simp only [if_neg h₁]
  refine ⟨setFreeList (setPrev (setPrev (setNext m a (freeList m P)) a 0) (freeList m P) a) P a,
    ?_, ?_, ?_, ?_, ?_⟩
  · rw [addFreeBlock, if_neg hg, if_neg hz, if_pos hlt]
    dsimp only
    rw [hfl₂]
  · exact Within.store_page (Within.setPrev (Within.setPrev ((Within.refl 12 P m).setNext hin
      (by decide)) hin (by decide)) (hS.inPage _ hSh) (by decide)) (by decide) (by decide)
  · have hself := hh a ha
    rw [if_pos rfl] at hself
    rw [show freeList (setFreeList _ P a) P = a from
      (Memory.load32_store32 _ (P + 16) a).trans (Nat.mod_eq_of_lt halt)]
    refine hl.push hnd ha0 (congrArg BlockHeader.next hself) (congrArg BlockHeader.prev hself) ?_ ?_
    · intro _
      have := hh _ hSh
      rw [if_neg (by omega), if_pos rfl] at this
      exact congrArg BlockHeader.prev this
    · intro b hb
      have hba : b ≠ a := by
        have := h₂ b hb
        omega
      have := hh b (hSl b hb)
      rw [if_neg hba] at this
      refine ⟨?_, fun hbf => ?_⟩
      · split at this <;> exact congrArg BlockHeader.next this
      · rw [if_neg hbf] at this
        exact congrArg BlockHeader.prev this
  · intro b hb
    have := hh b hb
    split at this
    · exact ⟨congrArg BlockHeader.size this, congrArg BlockHeader.magic this⟩
    · split at this <;> exact ⟨congrArg BlockHeader.size this, congrArg BlockHeader.magic this⟩
  · have hmark : ∀ m₃ : Memory, fragmentation (setFreeList m₃ P a) P = fragmentation m₃ P :=
      fun m₃ => Memory.load32_store32_of_disjoint (by omega)
    rw [hmark]
    unfold setPrev setNext
    rw [show fragmentation _ P = _ from pageWord_store hS hSh (by decide),
      show Memory.load32 _ _ = _ from pageWord_store hS ha (by decide)]
    exact pageWord_store hS ha (by decide)

/-- `add_free_block` behind the free block `c`. -/
theorem addFreeBlock_behind (hP : P ≠ 0) (hP' : P + slobBlockSize < wordSize) (hS : Headers P S)
    (ha : S a) (hl : Dll 0 (next m) (prev m) 0 (freeList m P) (l ++ c :: l₂))
    (hSl : ∀ b ∈ l ++ c :: l₂, S b) (h₁ : ∀ b ∈ l ++ [c], b < a) (h₂ : ∀ b ∈ l₂, a < b)
    (hnd : (l ++ c :: l₂).Nodup) (hlen : l.length < turns) :
    ∃ m', addFreeBlock m P a = some m' ∧ Within 12 P m m' ∧
      Dll 0 (next m') (prev m') 0 (freeList m' P) (l ++ c :: a :: l₂) ∧
      (∀ b, S b → size m' b = size m b ∧ magic m' b = magic m b) ∧
      fragmentation m' P = inc32 (fragmentation m P) := by
  have ha0 := hS.ne_zero ha
  have hg : ¬ (P = 0 ∨ a = 0) := by omega
  have hz : freeList m P ≠ 0 := by
    intro e
    have := hl.head_eq_null_iff.mp e
    simp at this
  have hc : S c := hSl c (by simp)
  have hca : c < a := h₁ c (by simp)
  -- the first free block is one of those in front of `a`
  have hhead : freeList m P < a := by
    cases l with
    | nil => rw [hl.1]; exact hca
    | cons d l => rw [hl.1]; exact h₁ d (by simp)
  have hn : next m c ≠ 0 → next m c ∈ l₂ := by
    intro hz
    obtain ⟨t, ht⟩ := hl.drop.exists_cons hz
    rw [ht]
    exact List.mem_cons_self
  have hnS : next m c ≠ 0 → S (next m c) := fun hz => hSl _ (by simp [hn hz])
  have hna : next m c ≠ a := by
    intro e
    have := h₂ _ (hn (by omega))
    omega
  have hh : ∀ b, S b → header (insertBehind m P a c) b =
      if b = a then ⟨size m b, magic m b, next m c, c⟩
      else ⟨size m b, magic m b, if b = c then a else next m b,
        if b = next m c then a else prev m b⟩ :=
    fun b hb => header_insertBehind hP' hS ha hc hb (by omega) hnS hna
  have hself := hh a ha
  rw [if_pos rfl] at hself
  have hne : ∀ b ∈ l ++ c :: l₂, b ≠ a := by
    intro b hb
    rcases List.mem_append.mp hb with hb | hb
    · have := h₁ b (List.mem_append_left [c] hb)
      omega
    · rcases List.mem_cons.mp hb with rfl | hb
      · omega
      · have := h₂ b hb
        omega
  have hold : ∀ b ∈ l ++ c :: l₂, header (insertBehind m P a c) b =
      ⟨size m b, magic m b, if b = c then a else next m b, if b = next m c then a else prev m b⟩ :=
    fun b hb => (hh b (hSl b hb)).trans (if_neg (hne b hb))
  refine ⟨insertBehind m P a c, ?_, within_insertBehind hS ha hc (by omega) hnS, ?_, ?_,
    fragmentation_insertBehind hS ha hc (by omega) hnS⟩
  · rw [addFreeBlock, if_neg hg, if_neg hz, if_neg (by omega), insertLoop_eq hl h₁ h₂ hlen]
    rfl
  · rw [freeList_insertBehind hS ha hc (by omega) hnS]
    refine hl.insert hnd ha0 ?_
    exact
      { next_new := congrArg BlockHeader.next hself
        prev_new := congrArg BlockHeader.prev hself
        next_before := by
          have := congrArg BlockHeader.next (hold c (by simp))
          exact this.trans (if_pos rfl)
        next_other := fun b hb hbc =>
          (congrArg BlockHeader.next (hold b hb)).trans (if_neg hbc)
        prev_after := fun hz =>
          (congrArg BlockHeader.prev (hold _ (by simp [hn hz]))).trans (if_pos rfl)
        prev_other := fun b hb hbn =>
          (congrArg BlockHeader.prev (hold b hb)).trans (if_neg hbn) }
  · intro b hb
    have := hh b hb
    split at this
    · exact ⟨congrArg BlockHeader.size this, congrArg BlockHeader.magic this⟩
    · exact ⟨congrArg BlockHeader.size this, congrArg BlockHeader.magic this⟩

/-- **`add_free_block`** keeps the list in order. -/
theorem addFreeBlock_spec {l₁ : List Nat} (hP : P ≠ 0) (hP' : P + slobBlockSize < wordSize)
    (hS : Headers P S) (ha : S a) (hl : Dll 0 (next m) (prev m) 0 (freeList m P) (l₁ ++ l₂))
    (hSl : ∀ b ∈ l₁ ++ l₂, S b) (h₁ : ∀ b ∈ l₁, b < a) (h₂ : ∀ b ∈ l₂, a < b)
    (hnd : (l₁ ++ l₂).Nodup) (hlen : l₁.length ≤ turns) :
    ∃ m', addFreeBlock m P a = some m' ∧ Within 12 P m m' ∧
      Dll 0 (next m') (prev m') 0 (freeList m' P) (l₁ ++ a :: l₂) ∧
      (∀ b, S b → size m' b = size m b ∧ magic m' b = magic m b) ∧
      fragmentation m' P = if l₁ = [] then fragmentation m P else inc32 (fragmentation m P) := by
  have halt : a < wordSize := by
    have := (hS.inPage a ha).2
    omega
  rcases List.eq_nil_or_concat l₁ with rfl | ⟨l, c, rfl⟩
  · rw [if_pos rfl]
    cases l₂ with
    | nil => exact addFreeBlock_empty hP hS ha halt hl
    | cons d t => exact addFreeBlock_front hP hS ha halt hl (by simp) hSl h₂ hnd
  · rw [List.concat_eq_append] at *
    rw [if_neg (by simp : l ++ [c] ≠ [])]
    rw [List.append_assoc, List.singleton_append] at hl hnd hSl ⊢
    exact addFreeBlock_behind hP hP' hS ha hl hSl h₁ h₂ hnd (by simp at hlen; omega)

end Add

/-- The headers of a tiling. -/
theorem headers_tiles (h : Tiles (P + sizeofSlobPage) bs (P + slobBlockSize)) :
    Headers P (fun x => ∃ y ∈ bs, y.addr = x) where
  inPage := by
    rintro x ⟨y, hy, rfl⟩
    have hb := h.bounds hy
    exact ⟨hb.1, by omega⟩
  apart := by
    rintro x x' ⟨y, hy, rfl⟩ ⟨y', hy', rfl⟩
    exact h.apart_headers hy hy'

/-- A page has fewer blocks than bytes. -/
theorem Tiles.length_le (h : Tiles a bs e) : a + bs.length ≤ e := by
  induction bs generalizing a with
  | nil => exact Nat.le_of_eq h
  | cons b bs ih =>
      obtain ⟨_, hs, ht⟩ := h
      have := ih ht
      unfold sizeofSlobBlock at hs
      simp only [List.length_cons]
      omega

theorem length_freeAddrs_le (bs : List SlobBlock) : (freeAddrs bs).length ≤ bs.length := by
  unfold freeAddrs
  rw [List.length_map]
  exact List.length_filter_le _ bs

/-- **Giving back** a live block: its mark is cleared, the page's count of free
bytes rewritten, and it is linked in.  The page's fragments are counted only if a
free block lies in front. -/
theorem layout_give {w : Nat} (hP : P ≠ 0) (hP' : P + slobBlockSize < wordSize) (hw : w < wordSize)
    (h : Layout m P (pre ++ ⟨a, sz, true⟩ :: post)) :
    ∃ m', addFreeBlock (setFreeSize (setMagic m a 0) P w) P a = some m' ∧
      Layout m' P (pre ++ ⟨a, sz, false⟩ :: post) ∧ Within 8 P m m' ∧ freeSize m' P = w ∧
      fragmentation m' P =
        if freeAddrs pre = [] then fragmentation m P else inc32 (fragmentation m P) := by
  have hx : (⟨a, sz, true⟩ : SlobBlock) ∈ pre ++ ⟨a, sz, true⟩ :: post := by simp
  have hin : InPage P a := h.inPage hx
  have hS := headers_tiles h.tiles
  -- the two stores before the call touch no link, and of the headers only the mark
  have hm₂ : ∀ y ∈ pre ++ ⟨a, sz, true⟩ :: post,
      header (setFreeSize (setMagic m a 0) P w) y.addr =
        if y.addr = a then { header m y.addr with magic := 0 } else header m y.addr := by
    intro y hy
    rw [show header (setFreeSize (setMagic m a 0) P w) y.addr = header (setMagic m a 0) y.addr from
      header_page_store (by decide) (h.inPage hy).1]
    exact header_setMagic (h.tiles.apart_headers hx hy) (by decide)
  have hl := h.list
  have hnd := h.tiles.freeAddrs_nodup
  rw [freeAddrs_at_live rfl] at hl hnd
  have hfl : freeList (setFreeSize (setMagic m a 0) P w) P = freeList m P := by
    have h₁ : freeList (setFreeSize (setMagic m a 0) P w) P = freeList (setMagic m a 0) P :=
      Memory.load32_store32_of_disjoint (by omega)
    exact h₁.trans (load32_page_store (by decide) (by have := hin.1; omega))
  have hmem : ∀ b ∈ freeAddrs pre ++ freeAddrs post,
      ∃ y ∈ pre ++ ⟨a, sz, true⟩ :: post, y.addr = b := by
    intro b hb
    rw [← freeAddrs_at_live (x := ⟨a, sz, true⟩) rfl] at hb
    obtain ⟨y, hy, _, hyb⟩ := mem_freeAddrs.mp hb
    exact ⟨y, hy, hyb⟩
  have hl₂ : Dll 0 (next (setFreeSize (setMagic m a 0) P w)) (prev (setFreeSize (setMagic m a 0) P w))
      0 (freeList (setFreeSize (setMagic m a 0) P w) P) (freeAddrs pre ++ freeAddrs post) := by
    rw [hfl]
    refine hl.congr (fun b hb => ?_)
    obtain ⟨y, hy, rfl⟩ := hmem b hb
    have := hm₂ y hy
    split at this
    · exact ⟨congrArg BlockHeader.next this, congrArg BlockHeader.prev this⟩
    · exact ⟨congrArg BlockHeader.next this, congrArg BlockHeader.prev this⟩
  have h₁ : ∀ b ∈ freeAddrs pre, b < a := by
    intro b hb
    obtain ⟨y, hy, _, rfl⟩ := mem_freeAddrs.mp hb
    have := h.tiles.before hy
    have hsize := (h.tiles.bounds (List.mem_append_left _ hy)).2.2
    unfold sizeofSlobBlock at hsize
    dsimp only at this
    omega
  have h₂ : ∀ b ∈ freeAddrs post, a < b := by
    intro b hb
    obtain ⟨y, hy, _, rfl⟩ := mem_freeAddrs.mp hb
    have := h.tiles.after hy
    have hsize := (h.tiles.bounds hx).2.2
    unfold sizeofSlobBlock at hsize
    dsimp only at this hsize
    omega
  have hlen : (freeAddrs pre).length ≤ turns := by
    have hle := h.tiles.length_le
    have := length_freeAddrs_le pre
    rw [List.length_append] at hle
    unfold turns
    omega
  obtain ⟨m', hadd, hwithin, hdll, hkeep, hmark⟩ :=
    addFreeBlock_spec hP hP' hS ⟨_, hx, rfl⟩ hl₂ hmem h₁ h₂ hnd hlen
  have hsize : ∀ y ∈ pre ++ ⟨a, sz, true⟩ :: post, size m' y.addr = size m y.addr := by
    intro y hy
    rw [(hkeep _ ⟨y, hy, rfl⟩).1]
    have := congrArg BlockHeader.size (hm₂ y hy)
    split at this <;> exact this
  refine ⟨m', hadd, h.rebuild [⟨a, sz, false⟩] (h.tiles.relabel false) ?_ ?_ ?_, ?_, ?_, ?_⟩
  · intro y hy
    obtain ⟨hy', hya⟩ := h.tiles.others hy
    have hmagic := hm₂ y hy'
    rw [if_neg hya] at hmagic
    exact ⟨hy', hsize y hy', (hkeep _ ⟨y, hy', rfl⟩).2.trans (congrArg BlockHeader.magic hmagic)⟩
  · intro y hy
    rw [List.mem_singleton.mp hy]
    exact ⟨(hsize _ hx).trans (h.size _ hx), fun hlive => nomatch hlive⟩
  · show Dll 0 _ _ 0 _ (freeAddrs (pre ++ ⟨a, sz, false⟩ :: post))
    rwa [freeAddrs_at rfl]
  · refine Within.trans ?_ (hwithin.mono (by decide))
    exact ((Within.refl 8 P m).setMagic hin (by decide)).store_page (by decide) (by decide)
  · have : freeSize m' P = freeSize (setFreeSize (setMagic m a 0) P w) P :=
      Memory.load32_congr (fun c _ hc => hwithin c (Or.inl (by omega)))
    rw [this]
    exact (Memory.load32_store32 _ (P + 8) w).trans (Nat.mod_eq_of_lt hw)
  · have h₀ : fragmentation (setFreeSize (setMagic m a 0) P w) P = fragmentation m P :=
      (Memory.load32_store32_of_disjoint (by omega)).trans
        (load32_page_store (by decide) (by have := hin.1; omega))
    rw [hmark, h₀]

end Slob

end KmOS
