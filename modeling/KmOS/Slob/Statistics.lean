/-
# `KmOS.Slob.Statistics` — the counters behind `get_efficiency`

The allocator keeps `total_allocated`, `total_free` and, in each page, the free
bytes and a count of fragments.  `alloc` and `free` move `total_allocated` and
the page's free bytes by the size of the block, but nobody moves `total_free`
by it: only pages that come and go do, each with all its 4068 bytes.  So
`total_free` is the number of pages times 4068 (`Charged`), and right only
while nothing is allocated.

The fragments are counted up by one of the three branches of `add_free_block`
and down by every join of `merge_free_blocks`.  A block that goes in first and
joins the next one is counted down and never was counted up; `FreeWraps` says
that a call takes a counter below zero, and `freeWraps_iff` when.
-/
import KmOS.Slob.Heap

namespace KmOS

namespace Slob

variable {m m' : Memory} {z z' : Slob} {P a sz : Nat} {pre post : List SlobBlock}
  {bs : Nat → List SlobBlock}

/-! ## Neighbouring free blocks -/

/-- How often a free block is followed by another. -/
def adjacentPairs : List SlobBlock → Nat
  | x :: y :: rest => (if x.live = false ∧ y.live = false then 1 else 0) + adjacentPairs (y :: rest)
  | _ => 0

theorem adjacentPairs_eq_zero {bs : List SlobBlock} (h : NoAdjacent bs) : adjacentPairs bs = 0 := by
  induction bs with
  | nil => rfl
  | cons x bs ih =>
      cases bs with
      | nil => rfl
      | cons y rest =>
          obtain ⟨hxy, ht⟩ := List.isChain_cons_cons.mp h
          have hno : ¬ (x.live = false ∧ y.live = false) := by
            rcases hxy with hx | hy
            · simp [hx]
            · simp [hy]
          rw [adjacentPairs, if_neg hno, ih ht]

/-- Live blocks in front do not matter. -/
theorem adjacentPairs_live {L : List SlobBlock} (hL : ∀ w ∈ L, w.live = true)
    (bs : List SlobBlock) :
    adjacentPairs (L ++ bs) = adjacentPairs bs := by
  induction L with
  | nil => rfl
  | cons w L ih =>
      have hw := hL w List.mem_cons_self
      have ih' := ih (fun v hv => hL v (List.mem_cons_of_mem w hv))
      rw [← ih', List.cons_append]
      cases L ++ bs with
      | nil => rfl
      | cons y rest => rw [adjacentPairs, if_neg (by simp [hw]), Nat.zero_add]

/-- 1 for a free block. -/
def oneIfFree (b : Option SlobBlock) : Nat := if b.any (fun x => !x.live) then 1 else 0

/-- The free neighbours of a block between `pre` and `post`. -/
def freeNeighbours (pre post : List SlobBlock) : Nat := oneIfFree pre.getLast? + oneIfFree post.head?

/-- A block that becomes free is next to its free neighbours. -/
theorem adjacentPairs_freed (h : NoAdjacent (pre ++ ⟨a, sz, true⟩ :: post)) :
    adjacentPairs (pre ++ ⟨a, sz, false⟩ :: post) = freeNeighbours pre post := by
  induction pre with
  | nil =>
      cases post with
      | nil => rfl
      | cons w t =>
          have ht : NoAdjacent (w :: t) := (List.isChain_cons_cons.mp h).2
          rw [List.nil_append, adjacentPairs, adjacentPairs_eq_zero ht]
          cases hw : w.live <;> simp [freeNeighbours, oneIfFree, hw]
  | cons v pre ih =>
      cases pre with
      | nil =>
          have ih' := ih (List.isChain_cons_cons.mp h).2
          rw [List.nil_append] at ih'
          rw [List.cons_append, List.nil_append, adjacentPairs, ih']
          cases hv : v.live <;> simp [freeNeighbours, oneIfFree, hv]
      | cons u pre =>
          obtain ⟨hvu, ht⟩ := List.isChain_cons_cons.mp h
          have hno : ¬ (v.live = false ∧ u.live = false) := by
            rcases hvu with hv | hu
            · simp [hv]
            · simp [hu]
          have ih' := ih ht
          rw [List.cons_append] at ih'
          rw [List.cons_append, List.cons_append, adjacentPairs, if_neg hno, ih', Nat.zero_add]
          unfold freeNeighbours
          rw [List.getLast?_cons_cons]

/-! ## Joins -/

/-- How often the loop of `merge_free_blocks` does `page->fragmentation--`. -/
def mergeCount (page : Nat) : Nat → Memory → Nat → Nat
  | 0, _, _ => 0
  | fuel + 1, m, current =>
      if current = 0 ∨ next m current = 0 then 0
      else if add32 current (size m current) = next m current then
        mergeCount page fuel (joinNext m page current (next m current)) current + 1
      else mergeCount page fuel m (next m current)

/-- `merge_free_blocks` takes the page's counter below zero. -/
def MergeWraps (m : Memory) (page : Nat) : Prop :=
  page ≠ 0 ∧ freeList m page ≠ 0 ∧
    fragmentation m page < mergeCount page turns m (freeList m page)

instance (m : Memory) (page : Nat) : Decidable (MergeWraps m page) :=
  inferInstanceAs (Decidable (_ ∧ _ ∧ _))

/-- The loop joins as many pairs as there are. -/
theorem mergeCount_eq (hP : P + slobBlockSize < wordSize) :
    ∀ (k : Nat) (m : Memory) (pre post : List SlobBlock) (x : SlobBlock) (fuel : Nat),
      post.length < k → x.live = false → k ≤ fuel → Layout m P (pre ++ x :: post) →
      mergeCount P fuel m x.addr = adjacentPairs (x :: post) := by
  intro k
  induction k with
  | zero =>
      intro m pre post x fuel hk
      exact absurd hk (Nat.not_lt_zero _)
  | succ k ih =>
      intro m pre post x fuel hk hx hf h
      obtain ⟨fuel, rfl⟩ : ∃ n, fuel = n + 1 := ⟨fuel - 1, by omega⟩
      have hxa : x.addr ≠ 0 := h.addr_ne_zero (by simp)
      rcases h.next_cases hP hx with ⟨hz, hlive⟩ | ⟨y, rest, rfl, hy, hnext, hya, hsum⟩ |
        ⟨w, L, y, rest, rfl, hL, hy, hnext, hya, hgap⟩
      · rw [mergeCount, if_pos (Or.inr hz)]
        cases post with
        | nil => rfl
        | cons w t =>
            have hpairs := adjacentPairs_live hlive []
            rw [List.append_nil] at hpairs
            rw [adjacentPairs, hpairs, if_neg (by simp [hlive w List.mem_cons_self])]
            rfl
      · have hgo : ¬ (x.addr = 0 ∨ next m x.addr = 0) := by
          rw [hnext]
          exact not_or.mpr ⟨hxa, hya⟩
        obtain ⟨c, s, l⟩ := x
        obtain ⟨n, sn, l'⟩ := y
        dsimp only at hx hy hnext hgo hsum
        subst hx hy
        have hjoin := ih (joinNext m P c n) pre rest ⟨c, s + sn, false⟩ fuel
          (by simp at hk; omega) rfl (by omega) (layout_join hP h).1
        -- the joined block has the same neighbours behind it
        have hsame : adjacentPairs (⟨c, s + sn, false⟩ :: rest) =
            adjacentPairs (⟨n, sn, false⟩ :: rest) := by
          cases rest with
          | nil => rfl
          | cons _ _ => rfl
        rw [mergeCount, if_neg hgo, hnext, if_pos hsum, hjoin, hsame, adjacentPairs]
        simp [Nat.add_comm]
      · have hgo : ¬ (x.addr = 0 ∨ next m x.addr = 0) := by
          rw [hnext]
          exact not_or.mpr ⟨hxa, hya⟩
        have h' : Layout m P ((pre ++ x :: w :: L) ++ y :: rest) := by simpa using h
        have hw := hL w List.mem_cons_self
        rw [mergeCount, if_neg hgo, hnext, if_neg hgap,
          ih m (pre ++ x :: w :: L) rest y fuel (by simp at hk; omega) hy (by omega) h',
          ← adjacentPairs_live hL, List.cons_append, adjacentPairs, if_neg (by simp [hw]),
          Nat.zero_add]

/-- **When `merge_free_blocks` goes below zero**: there are more neighbouring
pairs than the counter says. -/
theorem mergeWraps_iff {bs : List SlobBlock} (hP : P + slobBlockSize < wordSize) (hP' : P ≠ 0)
    (h : Layout m P bs) : MergeWraps m P ↔ fragmentation m P < adjacentPairs bs := by
  by_cases hz : freeList m P = 0
  · have hlive := all_live_of_freeAddrs_nil (h.list.head_eq_null_iff.mp hz)
    have hpairs := adjacentPairs_live hlive []
    rw [List.append_nil] at hpairs
    rw [hpairs]
    exact iff_of_false (fun hw => hw.2.1 hz) (Nat.not_lt_zero _)
  · obtain ⟨L, y, rest, rfl, hL, hy, hhead, hlen⟩ := h.first_free hz
    have hcount := mergeCount_eq hP (rest.length + 1) m L rest y turns (by omega) hy
      (by unfold turns; omega) h
    unfold MergeWraps
    rw [hhead, hcount, adjacentPairs_live hL]
    rw [hhead] at hz
    exact ⟨fun hw => hw.2.2, fun hw => ⟨hP', hz, hw⟩⟩

/-- Nothing is left to join where no two free blocks are neighbours. -/
theorem PageInv.not_mergeWraps {bs : List SlobBlock} (h : PageInv m P bs) : ¬ MergeWraps m P := by
  rw [mergeWraps_iff h.inSpace h.nonnull h.layout, adjacentPairs_eq_zero h.apart]
  exact Nat.not_lt_zero _

/-! ## `free` -/

/-- A turn of the loop of `defragment` takes a counter below zero. -/
def DefragmentWraps : Nat → Memory → Nat → Prop
  | 0, _, _ => False
  | fuel + 1, m, page =>
      page ≠ 0 ∧ (MergeWraps m page ∨
        ∃ m₁ m₂, mergeFreeBlocks m page = some m₁ ∧
          countLoop page turns (setFragmentation m₁ page 0)
            (freeList (setFragmentation m₁ page 0) page) = some m₂ ∧
          DefragmentWraps fuel m₂ (pageNext m₂ page))

/-- The memory with which `free` calls `merge_free_blocks`. -/
def linked (z : Slob) (page block : Nat) : Option Memory :=
  let m := setMagic z.mem block 0
  let m := setFreeSize m page (add32 (freeSize m page) (size m block))
  addFreeBlock m page block

/-- `free` takes a counter of fragments below zero: when it joins the block with
its neighbours, or when it defragments. -/
def FreeWraps (z : Slob) (ptr : Nat) : Prop :=
  ptr ≠ 0 ∧ magic z.mem (sub32 ptr sizeofSlobBlock) = slobMagic ∧
    ∃ page, z.findPage (sub32 ptr sizeofSlobBlock) = some page ∧ page ≠ 0 ∧
      ((∃ m, z.linked page (sub32 ptr sizeofSlobBlock) = some m ∧ MergeWraps m page) ∨
        ∃ z₁, z.giveBack page (sub32 ptr sizeofSlobBlock) = some z₁ ∧
          (z₁.dropEmpty page).shouldDefragment = some true ∧
          DefragmentWraps turns (z₁.dropEmpty page).mem (z₁.dropEmpty page).pages)

theorem not_defragmentWraps {p h fuel : Nat} {l : List Nat} (hpages : Pages z bs)
    (hl : Dll 0 (pageNext z.mem) (pagePrev z.mem) p h l) (hsub : ∀ P ∈ l, P ∈ z.held) :
    ¬ DefragmentWraps fuel z.mem h := by
  induction l generalizing z bs p h fuel with
  | nil =>
      have hh : h = 0 := hl
      cases fuel with
      | zero => exact id
      | succ fuel => exact fun hw => hw.1 hh
  | cons P l ih =>
      obtain ⟨rfl, _, _, ht⟩ := hl
      have hP := hsub h List.mem_cons_self
      cases fuel with
      | zero => exact id
      | succ fuel =>
          rintro ⟨_, hw | ⟨m₁, m₂, hm₁, hm₂, hw⟩⟩
          · exact (hpages.page h hP).not_mergeWraps hw
          · obtain ⟨m₁', m₂', bs₁, hm₁', hm₂', hpages₂, hwithin, _⟩ := hpages.defragmentPage hP
            rw [hm₁] at hm₁'
            obtain rfl := Option.some.inj hm₁'
            rw [hm₂] at hm₂'
            obtain rfl := Option.some.inj hm₂'
            have hlinks : ∀ Q ∈ z.held,
                pageNext m₂ Q = pageNext z.mem Q ∧ pagePrev m₂ Q = pagePrev z.mem Q :=
              fun Q hQ => ⟨hpages.words_within hP hwithin hQ (Or.inr (by decide)),
                hpages.words_within hP hwithin hQ (Or.inr (by decide))⟩
            rw [← (hlinks h hP).1] at ht
            exact ih hpages₂ (ht.congr fun Q hQ => hlinks Q (hsub Q (List.mem_cons_of_mem h hQ)))
              (fun Q hQ => hsub Q (List.mem_cons_of_mem h hQ)) hw

/-- The page's counter after `add_free_block`: one more if a free block lies in
front of the new one. -/
def insertedMark (m : Memory) (page : Nat) (pre : List SlobBlock) : Nat :=
  if freeAddrs pre = [] then fragmentation m page else inc32 (fragmentation m page)

/-- **When `free` goes below zero**: the block has more free neighbours than the
counter says after the block was put on the list. -/
theorem Pages.freeWraps_iff (h : Pages z bs) (hP : P ∈ z.held)
    (hbs : bs P = pre ++ ⟨a, sz, true⟩ :: post) :
    FreeWraps z (a + sizeofSlobBlock) ↔ insertedMark z.mem P pre < freeNeighbours pre post := by
  have hpg := h.page P hP
  have hx : (⟨a, sz, true⟩ : SlobBlock) ∈ bs P := by
    rw [hbs]
    simp
  have hspace := hpg.inSpace
  obtain ⟨hblock, hmagic, hfind⟩ := h.recognises hP hx
  have hptr : a + sizeofSlobBlock ≠ 0 := by
    unfold sizeofSlobBlock
    omega
  have hlay : Layout z.mem P (pre ++ ⟨a, sz, true⟩ :: post) := hbs ▸ hpg.layout
  have hna : NoAdjacent (pre ++ ⟨a, sz, true⟩ :: post) := hbs ▸ hpg.apart
  have hlt : add32 (freeSize (setMagic z.mem a 0) P) (size (setMagic z.mem a 0) a) < wordSize :=
    Nat.mod_lt _ (by decide)
  obtain ⟨m₃, hm₃, hl₃, _, _, hmark⟩ := layout_give hpg.nonnull hspace hlt hlay
  have hlinked : z.linked P a = some m₃ := hm₃
  have hwraps : MergeWraps m₃ P ↔ insertedMark z.mem P pre < freeNeighbours pre post := by
    rw [mergeWraps_iff hspace hpg.nonnull hl₃, hmark, adjacentPairs_freed hna]
    rfl
  unfold FreeWraps
  rw [hblock, ← hwraps]
  constructor
  · rintro ⟨_, _, page, hpage, _, hw⟩
    rw [hfind] at hpage
    obtain rfl := Option.some.inj hpage
    rcases hw with ⟨m, hm, hw⟩ | ⟨z₁, hz₁, _, hw⟩
    · rw [hlinked] at hm
      exact Option.some.inj hm ▸ hw
    · -- nothing is left to join by the time `free` defragments
      obtain ⟨z₁', bs₁, hz₁', hpages₁, hheld₁, _⟩ := h.giveBack hP hx
      rw [hz₁] at hz₁'
      obtain rfl := Option.some.inj hz₁'
      obtain ⟨hpages₂, _⟩ := hpages₁.dropEmpty (hheld₁ ▸ hP)
      exact absurd hw (not_defragmentWraps hpages₂ hpages₂.list (fun _ hQ => hQ))
  · intro hw
    exact ⟨hptr, hmagic, P, hfind, hpg.nonnull, Or.inl ⟨m₃, hlinked, hw⟩⟩

/-! ## Totals -/

/-- `total_free` counts every page whole. -/
def Charged (z : Slob) : Prop :=
  z.totalFree = (slobBlockSize - sizeofSlobPage) * z.held.length

/-- The fields that `Charged` looks at. -/
def charge (z : Slob) : Nat × List Nat := (z.totalFree, z.held)

theorem Charged.of_charge (h : Charged z) (he : z'.charge = z.charge) : Charged z' := by
  obtain ⟨h₁, h₂⟩ := Prod.mk.inj he
  unfold Charged
  rw [h₁, h₂]
  exact h

/-- All pages together fit in the address space. -/
theorem Pages.room (h : Pages z bs) : slobBlockSize * z.held.length < wordSize := by
  have hsum := sum_weights_lt (w := fun _ => slobBlockSize) h.disjoint (by decide)
    (fun P hP => ⟨Nat.le_refl _, (h.page P hP).inSpace⟩)
  rw [List.map_const', List.sum_replicate_nat] at hsum
  rwa [Nat.mul_comm]

theorem Charged.allocPage (h : Pages z bs) (hok : SlobHeap.PageOk z.held (some P))
    (hc : Charged z) : Charged (z.allocPage (some P)).1 := by
  obtain ⟨hpages, hheld, _⟩ := h.allocPage hok
  have hnew := hpages.page P (hheld ▸ List.mem_cons_self)
  rw [Function.update_self] at hnew
  have hfree : freeSize (z.allocPage (some P)).1.mem P = slobBlockSize - sizeofSlobPage := hnew.free
  have hroom := hpages.room
  rw [hheld, List.length_cons] at hroom
  have htotal : (z.allocPage (some P)).1.totalFree =
      add32 z.totalFree (freeSize (z.allocPage (some P)).1.mem P) := rfl
  unfold Charged at hc ⊢
  unfold slobBlockSize at hroom
  rw [htotal, hfree, hheld, List.length_cons, hc, add32_eq] <;>
    unfold slobBlockSize sizeofSlobPage <;> omega

theorem Charged.dropEmpty (h : Pages z bs) (hP : P ∈ z.held) (hc : Charged z) :
    Charged (z.dropEmpty P) := by
  unfold Slob.dropEmpty
  split
  · next hempty =>
      have hpg := h.page P hP
      have hb := hpg.layout.tiles.bytes
      rw [hpg.liveBytes_eq_zero hempty.1] at hb
      obtain ⟨m', hun, heq⟩ := freePage_eq h hP
      have hfree : freeSize m' P = slobBlockSize - sizeofSlobPage := by
        rw [show freeSize m' P = freeSize z.mem P from
          Memory.load32_congr (fun c _ _ => hun.other P hP c (by omega)), hpg.free]
        unfold slobBlockSize sizeofSlobPage at *
        omega
      have hroom := h.room
      have hpos := List.length_pos_of_mem hP
      rw [heq]
      unfold Charged at hc ⊢
      dsimp only
      unfold slobBlockSize at hroom
      rw [hfree, List.length_erase_of_mem hP, hc, sub32_eq] <;>
        unfold slobBlockSize sizeofSlobPage <;> omega
  · exact hc

theorem takeBlock_charge {n : Nat} {r : Slob × Option Nat} (h : z.takeBlock a n = some r) :
    r.1.charge = z.charge := by
  obtain ⟨page, _, hr⟩ := Option.bind_eq_some_iff.mp h
  obtain rfl := Option.some.inj hr
  rfl

theorem giveBack_charge (h : z.giveBack P a = some z') : z'.charge = z.charge := by
  obtain ⟨_, _, h⟩ := Option.bind_eq_some_iff.mp h
  obtain ⟨_, _, h⟩ := Option.bind_eq_some_iff.mp h
  obtain rfl := Option.some.inj h
  rfl

theorem defragment_charge (h : z.defragment = some z') : z'.charge = z.charge := by
  obtain ⟨_, _, h⟩ := Option.bind_eq_some_iff.mp h
  obtain rfl := Option.some.inj h
  rfl

theorem Charged.alloc {size : Nat} {pageMem : Option Nat} {r : Slob × Option Nat}
    (h : Pages z bs) (hok : SlobHeap.PageOk z.held pageMem) (hc : Charged z)
    (hr : z.alloc size pageMem = some r) : Charged r.1 := by
  unfold Slob.alloc at hr
  split at hr
  · obtain rfl := Option.some.inj hr
    exact hc
  obtain ⟨block, _, hr⟩ := Option.bind_eq_some_iff.mp hr
  split at hr
  · exact hc.of_charge (takeBlock_charge hr)
  cases pageMem with
  | none =>
      obtain rfl := Option.some.inj hr
      exact hc
  | some P =>
      have hc' := Charged.allocPage h hok hc
      generalize z.allocPage (some P) = zp at hc' hr
      obtain ⟨z₁, newPage⟩ := zp
      dsimp only at hc' hr
      split at hr
      · obtain rfl := Option.some.inj hr
        exact hc'
      obtain ⟨block, _, hr⟩ := Option.bind_eq_some_iff.mp hr
      split at hr
      · obtain rfl := Option.some.inj hr
        exact hc'
      · exact hc'.of_charge (takeBlock_charge hr)

theorem Charged.free (h : Pages z bs) (hP : P ∈ z.held) (hx : (⟨a, sz, true⟩ : SlobBlock) ∈ bs P)
    (hc : Charged z) (hz : z.free (a + sizeofSlobBlock) = some z') : Charged z' := by
  rw [h.free_eq hP hx] at hz
  obtain ⟨z₁, hz₁, hz⟩ := Option.bind_eq_some_iff.mp hz
  obtain ⟨b, _, hz⟩ := Option.bind_eq_some_iff.mp hz
  obtain ⟨z₁', bs₁, hz₁', hpages₁, hheld₁, _⟩ := h.giveBack hP hx
  rw [hz₁] at hz₁'
  obtain rfl := Option.some.inj hz₁'
  have hc₁ : Charged (z₁.dropEmpty P) :=
    Charged.dropEmpty hpages₁ (hheld₁ ▸ hP) (hc.of_charge (giveBack_charge hz₁))
  cases b with
  | false =>
      obtain rfl := Option.some.inj hz
      exact hc₁
  | true => exact hc₁.of_charge (defragment_charge hz)

/-! ## What is claimed of the statistics -/

/-- `total_free` is what the pages have free, and so are the figures made of it. -/
structure Exact (z : Slob) : Prop where
  free : z.totalFree = (z.held.map (freeSize z.mem)).sum
  total : z.totalAllocated + z.totalFree = z.totalPages * (slobBlockSize - sizeofSlobPage)
  efficiency : z.getEfficiency =
    z.totalAllocated * 100 / (z.totalAllocated + (z.held.map (freeSize z.mem)).sum)

/-- Free and live bytes of the pages. -/
theorem Pages.bytes (h : Pages z bs) :
    z.totalAllocated + (z.held.map (freeSize z.mem)).sum =
      (slobBlockSize - sizeofSlobPage) * z.held.length := by
  have hpage : ∀ Q ∈ z.held, freeSize z.mem Q + liveBytes (bs Q) = slobBlockSize - sizeofSlobPage := by
    intro Q hQ
    have hb := (h.page Q hQ).layout.tiles.bytes
    rw [(h.page Q hQ).free]
    unfold slobBlockSize sizeofSlobPage at *
    omega
  have hsum : (z.held.map fun Q => freeSize z.mem Q + liveBytes (bs Q)) =
      z.held.map fun _ => slobBlockSize - sizeofSlobPage := List.map_congr_left hpage
  have := congrArg List.sum hsum
  rw [List.sum_map_add, List.map_const', List.sum_replicate_nat] at this
  rw [h.allocated, Nat.add_comm, Nat.mul_comm]
  exact this

theorem Pages.exact_iff (h : Pages z bs) (hc : Charged z) : Exact z ↔ z.totalAllocated = 0 := by
  have hb := h.bytes
  unfold Charged at hc
  constructor
  · intro he
    have := he.free
    omega
  · intro hzero
    rw [hzero, Nat.zero_add] at hb
    refine ⟨by rw [hc, hb], ?_, ?_⟩
    · rw [hzero, Nat.zero_add, hc, h.count, Nat.mul_comm]
    · unfold getEfficiency
      rw [hzero]
      simp

end Slob

namespace SlobHeap

open Slob

variable {h : SlobHeap} {bs : Nat → List SlobBlock}

/-- Nothing is allocated when no client holds a block. -/
theorem SlobInv.allocated_iff (hi : SlobInv h bs) : h.slob.totalAllocated = 0 ↔ h.live = [] := by
  rw [hi.pages.allocated]
  constructor
  · intro hzero
    refine List.eq_nil_iff_forall_not_mem.mpr (fun l hl => ?_)
    obtain ⟨x, ⟨P, hP, hx, hlive⟩, _, hsize⟩ := hi.block l hl
    have h₁ := size_le_liveBytes hx hlive
    have h₂ := le_sum_of_mem (fun P => liveBytes (bs P)) hP
    unfold sizeofSlobBlock at hsize
    omega
  · intro hnil
    refine List.sum_eq_zero (fun n hn => ?_)
    obtain ⟨P, hP, rfl⟩ := List.mem_map.mp hn
    have hnone : (bs P).filter (fun b => b.live) = [] := by
      refine List.filter_eq_nil_iff.mpr (fun x hx hlive => ?_)
      obtain ⟨l, hl, _⟩ := hi.owner x ⟨P, hP, hx, hlive⟩
      rw [hnil] at hl
      exact nomatch hl
    unfold liveBytes
    rw [hnone]
    rfl

theorem charged_reachable (mem : Memory) {pageMem : Option Nat} (hp : PageOk [] pageMem)
    (hr : Reaches SlobHeap.step Allowed (start mem pageMem) h) :
    ∃ bs, SlobInv h bs ∧ Charged h.slob := by
  refine hr.invariant (I := fun h => ∃ bs, SlobInv h bs ∧ Charged h.slob) ?_ ?_
  · obtain ⟨bs, hi⟩ := SlobInv.start mem hp
    refine ⟨bs, hi, ?_⟩
    cases pageMem with
    | none => rfl
    | some P =>
        have hempty : Pages ⟨0, 0, 0, 0, 75, [], mem⟩ (fun _ => []) :=
          ⟨rfl, nofun, List.Pairwise.nil, rfl, rfl⟩
        exact Charged.allocPage hempty hp rfl
  · rintro u c u' ⟨bs, hi, hc⟩ hok hs
    obtain ⟨v, bs', hs', hi'⟩ := hi.step hok
    rw [hs] at hs'
    obtain rfl := Option.some.inj hs'
    refine ⟨bs', hi', ?_⟩
    cases c with
    | alloc size pageMem =>
        obtain ⟨r, hr, hs⟩ := Option.bind_eq_some_iff.mp hs
        obtain rfl := Option.some.inj hs
        have := Charged.alloc hi.pages hok hc hr
        unfold grant
        split <;> exact this
    | free ptr =>
        obtain ⟨z, hz, hs⟩ := Option.bind_eq_some_iff.mp hs
        obtain rfl := Option.some.inj hs
        obtain ⟨l, hl, rfl⟩ := hok
        obtain ⟨⟨a, sz, lv⟩, ⟨P, hP, hx, hlv⟩, hla, _⟩ := hi.block l hl
        dsimp only at hlv hla
        subst hlv
        rw [hla] at hz
        exact Charged.free hi.pages hP hx hc hz
    | write addr byte =>
        obtain rfl := Option.some.inj hs
        exact hc

/-- The call takes a page's counter of fragments below zero. -/
def Wraps (h : SlobHeap) : SlobCall → Prop
  | .free ptr => FreeWraps h.slob ptr
  | _ => False

/-- A client's call, and no request that could be served. -/
def ServesNothing (h : SlobHeap) (c : SlobCall) : Prop :=
  h.Allowed c ∧ ∀ size pageMem, c = .alloc size pageMem →
    size = 0 ∨ slobMaxAlloc < size ∨
      (pageMem = none ∧ h.slob.findFreeBlock (alignedSize size) = some 0)

/-- While nothing is served, nobody holds anything. -/
theorem live_of_servesNothing {mem : Memory} {pageMem : Option Nat}
    (hr : Reaches SlobHeap.step ServesNothing (start mem pageMem) h) : h.live = [] := by
  refine hr.invariant (I := fun h => h.live = []) rfl ?_
  rintro u c u' hnil ⟨hok, hno⟩ hs
  cases c with
  | alloc size pageMem =>
      have hnull : u.slob.alloc size pageMem = some (u.slob, none) := by
        unfold Slob.alloc
        rcases hno size pageMem rfl with h0 | hmax | ⟨rfl, hfind⟩
        · rw [if_pos (Or.inl h0)]
        · rw [if_pos (Or.inr hmax)]
        · split
          · rfl
          · dsimp only
            rw [hfind]
            rfl
      obtain ⟨r, hr, hs⟩ := Option.bind_eq_some_iff.mp hs
      rw [hnull] at hr
      obtain rfl := Option.some.inj hr
      obtain rfl := Option.some.inj hs
      exact hnil
  | free ptr =>
      obtain ⟨l, hl, _⟩ := hok
      rw [hnil] at hl
      exact nomatch hl
  | write addr byte =>
      obtain rfl := Option.some.inj hs
      exact hnil

/-- **When the statistics are exact.**  In every state of a run the totals are
right exactly while no client holds a block, so in the runs in which no request
is served; and a free takes a counter of fragments below zero exactly when the
block has more free neighbours than the counter says once the block is on the
list. -/
theorem slob_statistics_exact_iff (mem : Memory) {pageMem : Option Nat} (hp : PageOk [] pageMem) :
    (∀ h, Reaches SlobHeap.step Allowed (start mem pageMem) h →
      (Exact h.slob ↔ h.live = []) ∧
      ∃ bs, SlobInv h bs ∧ ∀ c, h.Allowed c → (Wraps h c ↔ ∃ ptr P pre x post,
        c = .free ptr ∧ ptr = x.addr + sizeofSlobBlock ∧ P ∈ h.slob.held ∧ x.live = true ∧
          bs P = pre ++ x :: post ∧
          insertedMark h.slob.mem P pre < freeNeighbours pre post)) ∧
    ∀ h, Reaches SlobHeap.step ServesNothing (start mem pageMem) h → Exact h.slob := by
  have hexact : ∀ h, Reaches SlobHeap.step Allowed (start mem pageMem) h →
      (Exact h.slob ↔ h.live = []) := by
    intro h hr
    obtain ⟨bs, hi, hc⟩ := charged_reachable mem hp hr
    rw [hi.pages.exact_iff hc, hi.allocated_iff]
  refine ⟨fun h hr => ⟨hexact h hr, ?_⟩, fun h hr => ?_⟩
  · obtain ⟨bs, hi⟩ := slobInv_reachable mem hp hr
    refine ⟨bs, hi, fun c hok => ?_⟩
    constructor
    · intro hw
      cases c with
      | alloc size pageMem => exact absurd hw id
      | write addr byte => exact absurd hw id
      | free ptr =>
          obtain ⟨l, hl, rfl⟩ := hok
          obtain ⟨⟨a, sz, lv⟩, ⟨P, hP, hx, hlv⟩, hla, _⟩ := hi.block l hl
          dsimp only at hlv hla
          subst hlv
          obtain ⟨pre, post, hbs⟩ := List.append_of_mem hx
          have hw' : FreeWraps h.slob (a + sizeofSlobBlock) := hla ▸ hw
          exact ⟨l.1, P, pre, ⟨a, sz, true⟩, post, rfl, hla, hP, rfl, hbs,
            (hi.pages.freeWraps_iff hP hbs).mp hw'⟩
    · rintro ⟨ptr, P, pre, ⟨a, sz, lv⟩, post, rfl, rfl, hP, hlv, hbs, hlt⟩
      dsimp only at hlv
      subst hlv
      exact (hi.pages.freeWraps_iff hP hbs).mpr hlt
  · have hr' : Reaches SlobHeap.step Allowed (start mem pageMem) h := hr.mono (fun _ _ hok => hok.1)
    exact (hexact h hr').mpr (live_of_servesNothing hr)

/-- A run in which every request is refused, and memory outside the page is
written. -/
theorem slob_statistics_exact_iff_idle :
    ∃ h, Reaches SlobHeap.step Allowed (start (fun _ => 7) (some 65536)) h ∧
      (h.slob.totalFree = 4068 ∧ h.live = []) ∧ Exact h.slob := by
  obtain ⟨h, hr, hh⟩ := Reaches.of_checked_script SlobHeap.step Allowed (start (fun _ => 7) (some 65536))
    (fun h => h.slob.totalFree == 4068 && h.live == [])
    [.alloc 0 none, .alloc 513 none, .write 4096 255] (by decide +kernel)
  have hh' : h.slob.totalFree = 4068 ∧ h.live = [] := by simpa using hh
  exact ⟨h, hr, hh', ((slob_statistics_exact_iff (fun _ => 7)
    (by decide : PageOk [] (some 65536))).1 h hr).1.mpr hh'.2⟩

/-- After one allocation of 16 bytes `total_free` is 32 too large, and the free
that follows takes the counter of fragments from 0 to 2³² − 1. -/
theorem slob_statistics_drift :
    ∃ h, Reaches SlobHeap.step Allowed (start (fun _ => 7) (some 65536)) h ∧
      (h.slob.totalFree = 4068 ∧ (h.slob.held.map (freeSize h.slob.mem)).sum = 4036) ∧
      h.Allowed (.free 65580) ∧ h.Wraps (.free 65580) := by
  obtain ⟨h, hr, hh⟩ := Reaches.of_checked_script SlobHeap.step Allowed (start (fun _ => 7) (some 65536))
    (fun h => h.slob.totalFree == 4068 && (h.slob.held.map (freeSize h.slob.mem)).sum == 4036 &&
      decide (h.Allowed (.free 65580)) && magic h.slob.mem 65564 == slobMagic &&
      h.slob.findPage 65564 == some 65536 &&
      (h.slob.linked 65536 65564).any (fun m => decide (MergeWraps m 65536)))
    [.alloc 16 none] (by decide +kernel)
  simp only [Bool.and_eq_true, beq_iff_eq, decide_eq_true_eq] at hh
  obtain ⟨⟨⟨⟨⟨htotal, hsum⟩, hok⟩, hmagic⟩, hfind⟩, hwraps⟩ := hh
  obtain ⟨m, hm, hw⟩ := (Option.any_eq_true _ _).mp hwraps
  refine ⟨h, hr, ⟨htotal, hsum⟩, hok, by decide, hmagic, 65536, hfind, by decide, Or.inl ⟨m, hm, ?_⟩⟩
  exact of_decide_eq_true hw

end SlobHeap

end KmOS
