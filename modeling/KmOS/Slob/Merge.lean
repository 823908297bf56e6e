/-
# `KmOS.Slob.Merge` — joining neighbouring free blocks

`merge_free_blocks` goes along the free list of a page and lets every free
block swallow the free blocks that begin where it ends.  On the list of blocks
that is `mergeFrom`; afterwards no two free blocks are neighbours.
-/
import KmOS.Slob.Operations

namespace KmOS

namespace Slob

variable {m m' : Memory} {P a b c e v sz s : Nat} {bs pre post : List SlobBlock}

/-! ## On the blocks -/

/-- The blocks from `x` on, each free one grown over the free ones behind it. -/
def mergeFrom : SlobBlock → List SlobBlock → List SlobBlock
  | x, [] => [x]
  | x, y :: rest =>
      if x.live = false ∧ y.live = false then mergeFrom { x with size := x.size + y.size } rest
      else x :: mergeFrom y rest

theorem mergeFrom_head (x : SlobBlock) (post : List SlobBlock) :
    ∃ y t, mergeFrom x post = y :: t ∧ y.live = x.live := by
  induction post generalizing x with
  | nil => exact ⟨x, [], rfl, rfl⟩
  | cons y rest ih =>
      unfold mergeFrom
      split
      · obtain ⟨z, t, hz, hl⟩ := ih { x with size := x.size + y.size }
        exact ⟨z, t, hz, hl⟩
      · exact ⟨x, _, rfl, rfl⟩

theorem noAdjacent_mergeFrom (x : SlobBlock) (post : List SlobBlock) :
    NoAdjacent (mergeFrom x post) := by
  induction post generalizing x with
  | nil => exact .singleton x
  | cons y rest ih =>
      unfold mergeFrom
      split
      · exact ih _
      · next hxy =>
          obtain ⟨z, t, hz, hl⟩ := mergeFrom_head y rest
          have htail := ih y
          unfold NoAdjacent at htail ⊢
          rw [hz] at htail ⊢
          refine List.isChain_cons_cons.mpr ⟨?_, htail⟩
          rw [hl]
          cases hx : x.live <;> cases hy : y.live <;> simp_all

/-- The live blocks stay as they are. -/
theorem filter_live_mergeFrom (x : SlobBlock) (post : List SlobBlock) :
    (mergeFrom x post).filter (fun b => b.live) = (x :: post).filter (fun b => b.live) := by
  induction post generalizing x with
  | nil => rfl
  | cons y rest ih =>
      unfold mergeFrom
      split
      · next hxy =>
          rw [ih, List.filter_cons_of_neg (by simp [hxy.1]), List.filter_cons_of_neg (by simp [hxy.1]),
            List.filter_cons_of_neg (by simp [hxy.2])]
      · rw [List.filter_cons, ih, ← List.filter_cons]

/-- The free bytes are the same, in fewer pieces. -/
theorem freeBytes_mergeFrom (x : SlobBlock) (post : List SlobBlock) :
    freeBytes (mergeFrom x post) = freeBytes (x :: post) := by
  induction post generalizing x with
  | nil => rfl
  | cons y rest ih =>
      unfold mergeFrom
      split
      · next hxy =>
          rw [ih]
          simp [freeBytes, hxy.1, hxy.2, Nat.add_assoc]
      · have := ih y
        unfold freeBytes at this ⊢
        cases hx : x.live <;> simp [hx] at this ⊢ <;> omega

/-- Live blocks are stepped over. -/
theorem mergeFrom_live {x y : SlobBlock} {L rest : List SlobBlock} (hx : x.live = true)
    (hL : ∀ z ∈ L, z.live = true) :
    mergeFrom x (L ++ y :: rest) = x :: (L ++ mergeFrom y rest) := by
  induction L generalizing x with
  | nil => simp [mergeFrom, hx]
  | cons z L ih =>
      have hz := hL z List.mem_cons_self
      simp only [List.cons_append, mergeFrom, hx, Bool.true_eq_false, false_and, if_false]
      rw [ih hz (fun w hw => hL w (List.mem_cons_of_mem z hw))]

/-- A free block followed by a live one stays as it is. -/
theorem mergeFrom_gap {x y z : SlobBlock} {L rest : List SlobBlock}
    (hL : ∀ w ∈ z :: L, w.live = true) :
    mergeFrom x (z :: L ++ y :: rest) = x :: (z :: L ++ mergeFrom y rest) := by
  have hz := hL z List.mem_cons_self
  simp only [List.cons_append, mergeFrom, hz, Bool.true_eq_false, and_false, if_false]
  rw [mergeFrom_live hz (fun w hw => hL w (List.mem_cons_of_mem z hw))]

theorem mergeFrom_of_all_live {x : SlobBlock} (hL : ∀ w ∈ post, w.live = true) :
    mergeFrom x post = x :: post := by
  induction post generalizing x with
  | nil => rfl
  | cons z L ih =>
      have hz := hL z List.mem_cons_self
      simp only [mergeFrom, hz, Bool.true_eq_false, and_false, if_false]
      rw [ih (fun w hw => hL w (List.mem_cons_of_mem z hw))]

theorem noAdjacent_append {L : List SlobBlock} (hL : ∀ z ∈ L, z.live = true) (h : NoAdjacent bs) :
    NoAdjacent (L ++ bs) := by
  induction L with
  | nil => exact h
  | cons z L ih =>
      have hz := hL z List.mem_cons_self
      have htail := ih (fun w hw => hL w (List.mem_cons_of_mem z hw))
      unfold NoAdjacent at htail ⊢
      rw [List.cons_append]
      cases hl : L ++ bs with
      | nil => exact .singleton z
      | cons w t =>
          rw [hl] at htail
          exact .cons_cons (Or.inl hz) htail

theorem noAdjacent_of_all_live (hL : ∀ z ∈ bs, z.live = true) : NoAdjacent bs := by
  rw [← List.append_nil bs]
  exact noAdjacent_append hL .nil

/-- The first free block, with the live ones in front of it. -/
theorem exists_first_free (h : freeAddrs bs ≠ []) : ∃ L y rest, bs = L ++ y :: rest ∧
    (∀ z ∈ L, z.live = true) ∧ y.live = false := by
  induction bs with
  | nil => exact absurd rfl h
  | cons x xs ih =>
      cases hx : x.live with
      | false => exact ⟨[], x, xs, rfl, nofun, hx⟩
      | true =>
          rw [freeAddrs_cons_live hx] at h
          obtain ⟨L, y, rest, rfl, hL, hy⟩ := ih h
          refine ⟨x :: L, y, rest, rfl, fun z hz => ?_, hy⟩
          rcases List.mem_cons.mp hz with rfl | hz
          · exact hx
          · exact hL z hz

theorem all_live_of_freeAddrs_nil (h : freeAddrs bs = []) : ∀ z ∈ bs, z.live = true := by
  intro z hz
  cases hl : z.live with
  | true => rfl
  | false =>
      have := mem_freeAddrs.mpr ⟨z, hz, hl, rfl⟩
      rw [h] at this
      exact nomatch this

theorem freeAddrs_of_all_live {L : List SlobBlock} (hL : ∀ z ∈ L, z.live = true) :
    freeAddrs L = [] := by
  induction L with
  | nil => rfl
  | cons z L ih =>
      rw [freeAddrs_cons_live (hL z List.mem_cons_self)]
      exact ih (fun w hw => hL w (List.mem_cons_of_mem z hw))

/-- A list of the free blocks leads to the first of them. -/
theorem exists_first_listed (h : Dll 0 (next m) (prev m) b c (freeAddrs bs)) (h0 : c ≠ 0) :
    ∃ L y rest, bs = L ++ y :: rest ∧ (∀ z ∈ L, z.live = true) ∧ y.live = false ∧
      c = y.addr := by
  have hne : freeAddrs bs ≠ [] := mt h.head_eq_null_iff.mpr h0
  obtain ⟨L, y, rest, rfl, hL, hy⟩ := exists_first_free hne
  rw [freeAddrs_append, freeAddrs_of_all_live hL, freeAddrs_cons_free hy] at h
  exact ⟨L, y, rest, rfl, hL, hy, h.1⟩

/-- The first free block of a page that has one. -/
theorem Layout.first_free (h : Layout m P bs) (h0 : freeList m P ≠ 0) :
    ∃ L y rest, bs = L ++ y :: rest ∧ (∀ z ∈ L, z.live = true) ∧ y.live = false ∧
      freeList m P = y.addr ∧
      P + sizeofSlobPage + (L.length + (rest.length + 1)) ≤ P + slobBlockSize := by
  obtain ⟨L, y, rest, rfl, hL, hy, hhead⟩ := exists_first_listed h.list h0
  have hlen := h.tiles.length_le
  rw [List.length_append, List.length_cons] at hlen
  exact ⟨L, y, rest, rfl, hL, hy, hhead, hlen⟩

/-! ## On the memory -/

/-- One turn of the loop that joins `n` to `c`. -/
def joinNext (m : Memory) (page current nextBlock : Nat) : Memory :=
  let m := setSize m current (add32 (size m current) (size m nextBlock))
  let m := setNext m current (next m nextBlock)
  let m := if next m nextBlock ≠ 0 then setPrev m (next m nextBlock) current else m
  setFragmentation m page (dec32 (fragmentation m page))

section Join

variable {S : Nat → Prop} {n : Nat}

theorem joinNext_eq (hS : Headers P S) (hc : S c) (hn : S n) (hcn : n ≠ c) (hv : size m c + size m n < wordSize) :
    joinNext m P c n =
      let m₂ := setNext (setSize m c (size m c + size m n)) c (next m n)
      let m₃ := if next m n ≠ 0 then setPrev m₂ (next m n) c else m₂
      setFragmentation m₃ P (dec32 (fragmentation m₃ P)) := by
  have h₁ : header (setSize m c (size m c + size m n)) n = header m n := by
    rw [header_setSize (hS.apart c n hc hn) hv, if_neg hcn]
  have hn₁ : next (setSize m c (size m c + size m n)) n = next m n := congrArg BlockHeader.next h₁
  have h₂ : header (setNext (setSize m c (size m c + size m n)) c (next m n)) n = header m n := by
    rw [header_setNext (hS.apart c n hc hn) (next_lt m n), if_neg hcn, h₁]
  have hn₂ : next (setNext (setSize m c (size m c + size m n)) c (next m n)) n = next m n :=
    congrArg BlockHeader.next h₂
  unfold joinNext
  dsimp only
  rw [add32_eq hv, hn₁, hn₂]

theorem header_joinNext (hS : Headers P S) (hc : S c) (hn : S n) (hb : S b) (hcn : n ≠ c)
    (hcl : c < wordSize) (hv : size m c + size m n < wordSize) (hnn : next m n ≠ 0 → S (next m n))
    (hnc : next m n ≠ c) :
    header (joinNext m P c n) b =
      if b = c then ⟨size m c + size m n, magic m b, next m n, prev m b⟩
      else if b = next m n then { header m b with prev := c } else header m b := by
  rw [joinNext_eq hS hc hn hcn hv]
  dsimp only
  rw [show header (setFragmentation _ P _) b = _ from header_page_store (by decide) (hS.inPage b hb).1,
    header_setPrev_if (hS.ne_zero hb) (fun hz => hS.apart _ b (hnn hz) hb) hcl,
    header_setNext (hS.apart c b hc hb) (next_lt m n), header_setSize (hS.apart c b hc hb) hv]
  by_cases h₁ : b = c
  · have h₂ : b ≠ next m n := fun e => hnc (e.symm.trans h₁)
    simp only [if_pos h₁, if_neg h₂, header]
  · simp only [if_neg h₁]

theorem within_joinNext (hS : Headers P S) (hc : S c) (hn : S n) (hcn : n ≠ c)
    (hv : size m c + size m n < wordSize) (hnn : next m n ≠ 0 → S (next m n)) :
    Within 12 P m (joinNext m P c n) := by
  rw [joinNext_eq hS hc hn hcn hv]
  dsimp only
  refine Within.store_page (Within.setPrev_if ?_ (fun hz => hS.inPage _ (hnn hz)) (by decide))
    (by decide) (by decide)
  exact ((Within.refl 12 P m).setSize (hS.inPage c hc) (by decide)).setNext (hS.inPage c hc) (by decide)

theorem freeList_joinNext (hS : Headers P S) (hc : S c) (hn : S n) (hcn : n ≠ c)
    (hv : size m c + size m n < wordSize) (hnn : next m n ≠ 0 → S (next m n)) :
    freeList (joinNext m P c n) P = freeList m P := by
  have hblock : ∀ {m : Memory} {x v k : Nat}, S x → freeList (m.store32 (x + k) v) P = freeList m P :=
    fun hx => load32_page_store (by decide) (by have := (hS.inPage _ hx).1; omega)
  have h₃ : ∀ m₂ : Memory, freeList (if next m n ≠ 0 then setPrev m₂ (next m n) c else m₂) P =
      freeList m₂ P := by
    intro m₂
    split
    · next hz => exact hblock (hnn hz)
    · rfl
  rw [joinNext_eq hS hc hn hcn hv]
  dsimp only
  unfold setFragmentation
  rw [show ∀ (m : Memory) (v : Nat), freeList (m.store32 (P + 12) v) P = freeList m P from
    fun m v => Memory.load32_store32_of_disjoint (by omega)]
  rw [h₃]
  unfold setNext setSize
  rw [hblock hc, hblock hc]

end Join

/-- Two free blocks in a row: where the links of the second lead. -/
theorem pair_links {n sn : Nat} (h : Layout m P (pre ++ ⟨c, s, false⟩ :: ⟨n, sn, false⟩ :: post)) :
    n ≠ c ∧ prev m n = c ∧ next m n ≠ c ∧ (next m n ≠ 0 →
      ∃ y ∈ pre ++ ⟨c, s, false⟩ :: ⟨n, sn, false⟩ :: post, y.addr = next m n) := by
  have hx : (⟨c, s, false⟩ : SlobBlock) ∈ pre ++ ⟨c, s, false⟩ :: ⟨n, sn, false⟩ :: post := by simp
  have hy : (⟨n, sn, false⟩ : SlobBlock) ∈ pre ++ ⟨c, s, false⟩ :: ⟨n, sn, false⟩ :: post := by simp
  obtain ⟨_, _, hsc⟩ := h.tiles.bounds hx
  obtain ⟨_, _, hsn⟩ := h.tiles.bounds hy
  have hcn : c + s ≤ n := h.tiles.after (y := ⟨n, sn, false⟩) List.mem_cons_self
  unfold sizeofSlobBlock at hsc hsn
  dsimp only at hsc hsn
  have hl := h.list
  rw [freeAddrs_at rfl, freeAddrs_cons_free rfl] at hl
  obtain ⟨_, _, hprev, hrest⟩ := hl.drop
  have hmem : next m n ≠ 0 → next m n ∈ freeAddrs post := by
    intro hz
    obtain ⟨t, ht⟩ := hrest.exists_cons hz
    rw [ht]
    exact List.mem_cons_self
  refine ⟨by omega, hprev, ?_, ?_⟩
  · intro e
    obtain ⟨y, hy', _, hya⟩ := mem_freeAddrs.mp (hmem (e ▸ h.addr_ne_zero hx))
    have h' : Layout m P ((pre ++ [⟨c, s, false⟩]) ++ ⟨n, sn, false⟩ :: post) := by simpa using h
    have hafter := h'.tiles.after hy'
    dsimp only at hafter
    omega
  · intro hz
    obtain ⟨y, hy', _, hya⟩ := mem_freeAddrs.mp (hmem hz)
    exact ⟨y, by simp [hy'], hya⟩

/-- The list of free blocks does not start with the second of the two. -/
theorem pair_head {n sn : Nat} (h : Layout m P (pre ++ ⟨c, s, false⟩ :: ⟨n, sn, false⟩ :: post)) :
    n ≠ freeList m P := by
  have hne := (pair_links h).1
  have hl := h.list
  have hnd := h.tiles.freeAddrs_nodup
  rw [freeAddrs_at rfl, freeAddrs_cons_free rfl] at hl hnd
  dsimp only at hl hnd
  intro e
  cases hpre : freeAddrs pre with
  | nil =>
      rw [hpre] at hl
      exact hne (e.trans hl.1)
  | cons d t =>
      rw [hpre] at hl hnd
      have hd : d = n := hl.1.symm.trans e.symm
      exact (List.nodup_append.mp hnd).2.2 d List.mem_cons_self n (by simp) hd

/-- **Joining** two neighbouring free blocks. -/
theorem layout_join {n sn : Nat} (hP : P + slobBlockSize < wordSize)
    (h : Layout m P (pre ++ ⟨c, s, false⟩ :: ⟨n, sn, false⟩ :: post)) :
    Layout (joinNext m P c n) P (pre ++ ⟨c, s + sn, false⟩ :: post) ∧
      Within 12 P m (joinNext m P c n) := by
  have hx : (⟨c, s, false⟩ : SlobBlock) ∈ pre ++ ⟨c, s, false⟩ :: ⟨n, sn, false⟩ :: post := by simp
  have hy : (⟨n, sn, false⟩ : SlobBlock) ∈ pre ++ ⟨c, s, false⟩ :: ⟨n, sn, false⟩ :: post := by simp
  have hS := headers_tiles h.tiles
  obtain ⟨_, hhic, hsc⟩ := h.tiles.bounds hx
  obtain ⟨_, hhin, _⟩ := h.tiles.bounds hy
  dsimp only at hhic hhin hsc
  have hcn : c + s ≤ n := h.tiles.after (y := ⟨n, sn, false⟩) List.mem_cons_self
  have hsize : size m c = s := h.size _ hx
  have hsize' : size m n = sn := h.size _ hy
  have hv : size m c + size m n < wordSize := by omega
  have hcl : c < wordSize := by omega
  obtain ⟨hne, hprev, hnc, hSn⟩ := pair_links h
  have hh : ∀ y ∈ pre ++ ⟨c, s, false⟩ :: ⟨n, sn, false⟩ :: post, header (joinNext m P c n) y.addr =
      if y.addr = c then ⟨s + sn, magic m y.addr, next m n, prev m y.addr⟩
      else if y.addr = next m n then { header m y.addr with prev := c } else header m y.addr := by
    intro y hy'
    rw [header_joinNext hS ⟨_, hx, rfl⟩ ⟨_, hy, rfl⟩ ⟨y, hy', rfl⟩ hne hcl hv hSn hnc,
      hsize, hsize']
  have hself := hh _ hx
  rw [if_pos rfl] at hself
  have hother : ∀ y ∈ pre ++ post, y ∈ pre ++ ⟨c, s, false⟩ :: ⟨n, sn, false⟩ :: post ∧
      header (joinNext m P c n) y.addr =
        if y.addr = next m n then { header m y.addr with prev := c } else header m y.addr := by
    intro y hy'
    have hmem : y ∈ pre ++ ⟨n, sn, false⟩ :: post := by
      rcases List.mem_append.mp hy' with hy' | hy' <;> simp [hy']
    obtain ⟨hmem', hya⟩ := h.tiles.others hmem
    exact ⟨hmem', (hh y hmem').trans (if_neg hya)⟩
  refine ⟨h.rebuild [⟨c, s + sn, false⟩] ?_ ?_ ?_ ?_,
    within_joinNext hS ⟨_, hx, rfl⟩ ⟨_, hy, rfl⟩ hne hv hSn⟩
  · obtain ⟨d, h₁, hc, _, hn, _, h₂⟩ := tiles_append.mp h.tiles
    dsimp only at hc hn h₂
    refine tiles_append.mpr ⟨d, h₁, hc, ?_, ?_⟩
    · dsimp only
      omega
    · dsimp only
      rwa [← Nat.add_assoc]
  · intro y hy'
    obtain ⟨hmem, hhy⟩ := hother y hy'
    refine ⟨hmem, ?_, ?_⟩
    · have := congrArg BlockHeader.size hhy
      split at this <;> exact this
    · have := congrArg BlockHeader.magic hhy
      split at this <;> exact this
  · intro y hy'
    rw [List.mem_singleton.mp hy']
    exact ⟨congrArg BlockHeader.size hself, fun hlive => nomatch hlive⟩
  · have hl := h.list
    have hnd := h.tiles.freeAddrs_nodup
    rw [freeAddrs_at rfl, freeAddrs_cons_free rfl] at hl hnd
    dsimp only at hl hnd
    have hn_pre : n ∉ freeAddrs pre :=
      fun hm => (List.nodup_append.mp hnd).2.2 n hm n (by simp) rfl
    have herase : (freeAddrs pre ++ c :: n :: freeAddrs post).erase n =
        freeAddrs pre ++ c :: freeAddrs post := by
      rw [List.erase_append_right _ hn_pre, List.erase_cons_tail (by simpa using hne.symm),
        List.erase_cons_head]
    have hlinks : ∀ b ∈ (freeAddrs pre ++ c :: n :: freeAddrs post).erase n,
        next (joinNext m P c n) b = (if b = prev m n then next m n else next m b) ∧
          prev (joinNext m P c n) b = (if b = next m n then prev m n else prev m b) := by
      intro b hb
      rw [herase, ← freeAddrs_at (x := ⟨c, s, false⟩) rfl] at hb
      obtain ⟨y, hy', _, rfl⟩ := mem_freeAddrs.mp hb
      rw [hprev]
      rcases mem_replace hy' with rfl | hy'
      · rw [if_pos rfl, if_neg hnc.symm]
        exact ⟨congrArg BlockHeader.next hself, congrArg BlockHeader.prev hself⟩
      · obtain ⟨hmem, hhy⟩ := hother y hy'
        have hyc : y.addr ≠ c := (h.tiles.others (y := y) (by
          rcases List.mem_append.mp hy' with hy' | hy' <;> simp [hy'])).2
        rw [if_neg hyc]
        split at hhy
        · next e =>
            rw [if_pos e]
            exact ⟨congrArg BlockHeader.next hhy, congrArg BlockHeader.prev hhy⟩
        · next e =>
            rw [if_neg e]
            exact ⟨congrArg BlockHeader.next hhy, congrArg BlockHeader.prev hhy⟩
    have hl' := hl.unlink_agree hnd (by simp) hlinks
    rw [if_neg (pair_head h), herase, ← freeAddrs_at (x := ⟨c, s + sn, false⟩) rfl] at hl'
    rwa [freeList_joinNext hS ⟨_, hx, rfl⟩ ⟨_, hy, rfl⟩ hne hv hSn]

/-- What the loop of `merge_free_blocks` finds behind a free block: no other, its
neighbour, or one further on. -/
theorem Layout.next_cases {x : SlobBlock} (hP : P + slobBlockSize < wordSize)
    (h : Layout m P (pre ++ x :: post)) (hx : x.live = false) :
    (next m x.addr = 0 ∧ ∀ w ∈ post, w.live = true) ∨
      (∃ y rest, post = y :: rest ∧ y.live = false ∧ next m x.addr = y.addr ∧ y.addr ≠ 0 ∧
        add32 x.addr (Slob.size m x.addr) = y.addr) ∨
      ∃ z L y rest, post = z :: L ++ y :: rest ∧ (∀ w ∈ z :: L, w.live = true) ∧ y.live = false ∧
        next m x.addr = y.addr ∧ y.addr ≠ 0 ∧ add32 x.addr (Slob.size m x.addr) ≠ y.addr := by
  by_cases hz : next m x.addr = 0
  · exact Or.inl ⟨hz, all_live_of_freeAddrs_nil ((h.next_free hx).head_eq_null_iff.mp hz)⟩
  obtain ⟨L, y, rest, rfl, hL, hy, hnext⟩ := exists_first_listed (h.next_free hx) hz
  rw [hnext] at hz
  right
  cases L with
  | nil =>
      refine Or.inl ⟨y, rest, rfl, hy, hnext, hz, ?_⟩
      obtain ⟨d, _, hc, _, hn, _⟩ := tiles_append.mp h.tiles
      have hb := (h.tiles.bounds (x := y) (by simp)).2.1
      rw [h.size x (by simp), hc, add32_eq (by omega), hn]
  | cons z L =>
      refine Or.inr ⟨z, L, y, rest, rfl, hL, hy, hnext, hz, ?_⟩
      obtain ⟨d, _, hxd, _, hzd, hzs, ht⟩ := tiles_append.mp h.tiles
      have hb := (h.tiles.bounds (x := z) (by simp)).2.1
      have hyd := (ht.bounds (x := y) (by simp)).1
      unfold sizeofSlobBlock at hzs
      rw [h.size x (by simp), hxd, add32_eq (by omega)]
      omega

/-- **The loop of `merge_free_blocks`**, from a free block on. -/
theorem layout_mergeLoop (hP : P + slobBlockSize < wordSize) :
    ∀ (k : Nat) (m : Memory) (pre post : List SlobBlock) (x : SlobBlock) (fuel : Nat),
      post.length < k → x.live = false → k ≤ fuel → Layout m P (pre ++ x :: post) →
      ∃ m', mergeLoop P fuel m x.addr = some m' ∧ Layout m' P (pre ++ mergeFrom x post) ∧
        Within 12 P m m' := by
  intro k
  induction k with
  | zero =>
      intro m pre post x fuel hk
      exact absurd hk (Nat.not_lt_zero _)
  | succ k ih =>
      intro m pre post x fuel hk hx hf h
      obtain ⟨fuel, rfl⟩ : ∃ n, fuel = n + 1 := ⟨fuel - 1, by omega⟩
      have hxa : x.addr ≠ 0 := h.addr_ne_zero (by simp)
      rcases h.next_cases hP hx with ⟨hz, hlive⟩ | ⟨y, rest, rfl, hy, hnext, hya, hsum⟩ |
        ⟨z, L, y, rest, rfl, hL, hy, hnext, hya, hgap⟩
      · refine ⟨m, by rw [mergeLoop, if_pos (Or.inr hz)], ?_, Within.refl 12 P m⟩
        rwa [mergeFrom_of_all_live hlive]
      · -- the next free block is the neighbour: it is swallowed
        have hgo : ¬ (x.addr = 0 ∨ next m x.addr = 0) := by
          rw [hnext]
          exact not_or.mpr ⟨hxa, hya⟩
        obtain ⟨c, s, l⟩ := x
        obtain ⟨n, sn, l'⟩ := y
        dsimp only at hx hy hnext hgo hsum
        subst hx hy
        obtain ⟨hj, hw⟩ := layout_join hP h
        obtain ⟨m', hm', hl', hw'⟩ := ih (joinNext m P c n) pre rest
          ⟨c, s + sn, false⟩ fuel (by simp at hk; omega) rfl (by omega) hj
        refine ⟨m', ?_, by simpa [mergeFrom] using hl', hw.trans hw'⟩
        rw [mergeLoop, if_neg hgo, hnext]
        dsimp only
        rw [if_pos hsum]
        exact hm'
      · -- live blocks lie between: the loop moves on to `y`
        have hgo : ¬ (x.addr = 0 ∨ next m x.addr = 0) := by
          rw [hnext]
          exact not_or.mpr ⟨hxa, hya⟩
        have h' : Layout m P ((pre ++ x :: z :: L) ++ y :: rest) := by simpa using h
        obtain ⟨m', hm', hl', hw'⟩ := ih m (pre ++ x :: z :: L) rest y fuel
          (by simp at hk; omega) hy (by omega) h'
        refine ⟨m', ?_, ?_, hw'⟩
        · rw [mergeLoop, if_neg hgo, hnext]
          dsimp only
          rw [if_neg hgap]
          exact hm'
        · rw [mergeFrom_gap hL]
          simpa using hl'

/-- What merging keeps of the blocks of a page, and what it achieves. -/
structure Merged (bs bs' : List SlobBlock) : Prop where
  live : bs'.filter (fun b => b.live) = bs.filter (fun b => b.live)
  free : freeBytes bs' = freeBytes bs
  apart : NoAdjacent bs'

/-- **`merge_free_blocks`** returns, and leaves no two free neighbours. -/
theorem layout_mergeFreeBlocks (hP : P + slobBlockSize < wordSize) (hP' : P ≠ 0)
    (h : Layout m P bs) :
    ∃ m' bs', mergeFreeBlocks m P = some m' ∧ Layout m' P bs' ∧ Within 12 P m m' ∧
      Merged bs bs' := by
  by_cases hz : freeList m P = 0
  · have hlive := all_live_of_freeAddrs_nil (h.list.head_eq_null_iff.mp hz)
    refine ⟨m, bs, by rw [mergeFreeBlocks, if_pos (Or.inr hz)], h, Within.refl 12 P m, rfl, rfl, ?_⟩
    exact noAdjacent_of_all_live hlive
  · obtain ⟨L, y, rest, rfl, hL, hy, hhead, hlen⟩ := h.first_free hz
    obtain ⟨m', hm', hl', hw'⟩ := layout_mergeLoop hP (rest.length + 1) m L rest y turns (by omega) hy
      (by unfold turns; omega) h
    have hg : ¬ (P = 0 ∨ freeList m P = 0) := by
      rintro (h | h)
      · exact hP' h
      · exact hz h
    refine ⟨m', L ++ mergeFrom y rest, ?_, hl', hw', ?_, ?_, ?_⟩
    · rw [mergeFreeBlocks, if_neg hg, hhead]
      exact hm'
    · rw [List.filter_append, filter_live_mergeFrom, ← List.filter_append]
    · have := freeBytes_mergeFrom y rest
      unfold freeBytes at this ⊢
      rw [List.filter_append, List.filter_append, List.map_append, List.map_append, List.sum_append,
        List.sum_append, this]
    · exact noAdjacent_append hL (noAdjacent_mergeFrom y rest)

end Slob

end KmOS
