/-
# `KmOS.Buddy.DoubleFree` — a second free finds nothing to do

`free` trusts one byte: the flag `allocated` of the header below the pointer.
It may be the flag of a header that is no longer one, inside a block that was
merged, split or handed out again as part of a larger one.

No operation of the allocator sets a flag but that of the block it returns, and
none writes to a byte where a flag is except as a flag: whatever it links or
initialises is a header on a page boundary (`Sep`).  So a flag that is 0 stays 0
until its block is returned or a client writes to it (`FlagsFall`).
-/
import KmOS.Buddy.Partition

namespace KmOS

open BuddyZone

/-! ## Flags that stay down -/

/-- Flags on page boundaries that are 0 in `z` are 0 in `z'`. -/
def FlagsFall (start : Nat) (z z' : BuddyZone) : Prop :=
  ∀ x, z.allocated (zonePage start x) = 0 → z'.allocated (zonePage start x) = 0

namespace FlagsFall

variable {start : Nat} {z z' z'' : BuddyZone}

theorem refl (start : Nat) (z : BuddyZone) : FlagsFall start z z := fun _ h => h

theorem trans (h : FlagsFall start z z') (h' : FlagsFall start z' z'') :
    FlagsFall start z z'' := fun x hx => h' x (h x hx)

/-- A step that keeps the flags it does not clear. -/
theorem of_header {a : Nat}
    (hh : ∀ x, (z'.header (zonePage start x)).allocated =
      if zonePage start x = a then 0 else (z.header (zonePage start x)).allocated) :
    FlagsFall start z z' := by
  intro x hx
  refine (hh x).trans ?_
  split
  · rfl
  · exact hx

/-- A step that keeps all flags. -/
theorem of_eq (hh : ∀ x, (z'.header (zonePage start x)).allocated =
    (z.header (zonePage start x)).allocated) : FlagsFall start z z' :=
  fun x hx => (hh x).trans hx

end FlagsFall

section
variable {z z' : BuddyZone} {live : List (Nat × Nat)} {held : Set Nat} {n : Nat}
  {tile : Nat → Option Nat} {free : Nat → List Nat} {o k start : Nat}

theorem fall_initHeader (z : BuddyZone) (start o : Nat) (hk : k < wordSize) :
    FlagsFall start z (z.initHeader (zonePage start o) k) := by
  refine FlagsFall.of_header (a := zonePage start o) (fun x => ?_)
  rw [header_initHeader (sep_zonePage _ _ _) hk]
  split <;> rfl

theorem fall_setOrder (z : BuddyZone) (start o : Nat) (hk : k < wordSize) :
    FlagsFall start z (z.setOrder (zonePage start o) k) := by
  refine FlagsFall.of_eq (fun x => ?_)
  rw [header_setOrder (sep_zonePage _ _ _) hk]
  split <;> rfl

theorem fall_setAllocated (z : BuddyZone) (start o : Nat) :
    FlagsFall start z (z.setAllocated (zonePage start o) 0) := by
  refine FlagsFall.of_header (a := zonePage start o) (fun x => ?_)
  rw [header_setAllocated (sep_zonePage _ _ _)]
  split <;> rfl

theorem fall_take (h : ZoneInv z live held n tile free) {a : Nat} (ha : a ∈ free k) :
    FlagsFall z.memoryStart z (z.removeFromFreeList a k) := by
  refine FlagsFall.of_eq (fun x => ?_)
  rw [h.header_take ha x]

theorem fall_put (h : ZoneInv z live held n tile free) (ho : tile o = some k) (hh : o ∈ held) :
    FlagsFall z.memoryStart z (z.addToFreeList (zonePage z.memoryStart o) k) := by
  refine FlagsFall.of_eq (fun x => ?_)
  rw [h.header_put ho hh x]
  split
  · rfl
  · split <;> rfl

/-! ## Allocation -/

/-- One turn of `split_block`. -/
theorem fall_splitStep (h : ZoneInv z live {o} n tile free) (ho : tile o = some (k + 1)) :
    FlagsFall z.memoryStart z
      (((z.initHeader (zonePage z.memoryStart (o + 2 ^ k)) k).addToFreeList
        (zonePage z.memoryStart (o + 2 ^ k)) k).setOrder (zonePage z.memoryStart o) k) := by
  have hkw : k < wordSize := Nat.lt_of_succ_lt (h.order_lt ho)
  have hpos : 0 < 2 ^ k := Nat.two_pow_pos k
  have hnone : tile (o + 2 ^ k) = none :=
    h.tiling.no_start_inside ho (by omega) (by rw [pow_succ]; omega)
  have hms := (sameBounds_initHeader z (zonePage z.memoryStart (o + 2 ^ k)) k).memoryStart
  have h1 := fall_initHeader z z.memoryStart (o + 2 ^ k) hkw
  obtain ⟨hinv, _⟩ := h.initHeader hkw (Or.inr hnone)
  have h2 := fall_put (hinv.split ho (Set.mem_singleton o)) (Tiling.splitTile_upper tile o k)
    (Set.mem_insert _ _)
  rw [hms] at h2
  exact (h1.trans h2).trans (fall_setOrder _ z.memoryStart o hkw)

theorem fall_splitBlock {target : Nat} : ∀ (k : Nat) {z : BuddyZone} {tile : Nat → Option Nat}
    {free : Nat → List Nat}, ZoneInv z live {o} n tile free → tile o = some k →
    HeaderIs (z.header (zonePage z.memoryStart o)) k 0 →
    FlagsFall z.memoryStart z (z.splitBlock (zonePage z.memoryStart o) k target)
  | 0, z, _, _, _, _, _ => FlagsFall.refl _ z
  | k + 1, z, tile, free, h, ho, hd => by
      unfold splitBlock
      split
      · have hstep := fall_splitStep h ho
        obtain ⟨h1, hd1, hs1⟩ := h.splitStep ho hd
        rw [zonePage_add] at hstep h1 hd1 hs1
        dsimp only
        generalize (((z.initHeader (zonePage z.memoryStart o + blockSize k) k).addToFreeList
          (zonePage z.memoryStart o + blockSize k) k).setOrder
          (zonePage z.memoryStart o) k) = z₁ at hstep h1 hd1 hs1 ⊢
        rw [← hs1.memoryStart] at hstep hd1 ⊢
        exact hstep.trans (fall_splitBlock k h1 (Tiling.splitTile_lower tile o k) hd1)
      · exact FlagsFall.refl _ z

/-- **`alloc_order`** sets the flag of the block it returns, and no other. -/
theorem fall_allocOrder (h : ZoneInv z live ∅ n tile free) (order x : Nat)
    (hx : (z.allocOrder order).2 ≠ some (zonePage z.memoryStart x + sizeofBuddyBlock))
    (h0 : z.allocated (zonePage z.memoryStart x) = 0) :
    (z.allocOrder order).1.allocated (zonePage z.memoryStart x) = 0 := by
  obtain ⟨hle, hcase⟩ := findFree_spec z (maxOrder + 1) order (by omega)
  unfold allocOrder at hx ⊢
  generalize z.findFree (maxOrder + 1) order = c at hle hcase hx ⊢
  split
  · exact h0
  · next ho =>
      rw [if_neg ho] at hx
      dsimp only at hx ⊢
      split
      · exact h0
      · next hc =>
          rw [if_neg hc] at hx
          have hhead := h.head_mem_free (hcase.resolve_left hc)
          have hrem := fall_take h hhead
          obtain ⟨o, he, hto, _, hl⟩ := h.mem_free.mp hhead
          have hd0 := h.free_header hhead
          rw [he] at hx hl hd0 hrem ⊢
          have hxo : zonePage z.memoryStart x ≠ zonePage z.memoryStart o := by
            intro e
            exact hx (by rw [e])
          have h1 := h.take hto (Set.notMem_empty o) hl
          have hd1 : HeaderIs ((z.removeFromFreeList (zonePage z.memoryStart o) c).header
              (zonePage z.memoryStart o)) c 0 := by
            rw [h.header_take (he ▸ hhead) o]
            exact ⟨hd0.order, hd0.magic, hd0.allocated⟩
          have hms := (sameBounds_removeFromFreeList z (zonePage z.memoryStart o) c).memoryStart
          rw [LawfulSingleton.insert_empty_eq] at h1
          generalize z.removeFromFreeList (zonePage z.memoryStart o) c = z₁ at h1 hd1 hms hrem ⊢
          -- the flag of another page, before the block's own is set
          have hsplit : (if order < c then z₁.splitBlock (zonePage z.memoryStart o) c order
              else z₁).allocated (zonePage z.memoryStart x) = 0 := by
            split
            · rw [← hms] at hrem hd1 h0 ⊢
              exact (hrem.trans (fall_splitBlock c h1 hto hd1)) x h0
            · exact hrem x h0
          exact (congrArg BuddyBlock.allocated (header_setAllocated (sep_zonePage _ _ _))).trans
            ((congrArg BuddyBlock.allocated (if_neg hxo)).trans hsplit)

/-! ## Freeing -/

theorem fall_mergeBuddy (h : ZoneInv z live {o} n tile free)
    (hn : z.memorySize = minBlockSize * n) (ho : tile o = some k) (hk : k < maxOrder) {buddy : Nat}
    (hf : z.findBuddy (zonePage z.memoryStart o) k = some buddy) :
    FlagsFall z.memoryStart z (z.mergeBuddy (zonePage z.memoryStart o) buddy k).1 := by
  obtain ⟨rfl, hne, hb, hbl⟩ := findBuddy_some h hn ho hf
  have hkw : k + 1 < wordSize := Nat.lt_of_le_of_lt hk (by decide)
  have hrem := fall_take h (h.mem_free.mpr ⟨_, rfl, hb, hne, hbl⟩)
  obtain ⟨l, hlow, _⟩ := lower_buddy (h.tiling.aligned ho) z.memoryStart
  unfold mergeBuddy
  rw [hlow]
  exact hrem.trans (fall_setOrder _ z.memoryStart l hkw)

theorem fall_coalesceBlock : ∀ (fuel : Nat) {z : BuddyZone} {o k : Nat} {tile : Nat → Option Nat}
    {free : Nat → List Nat}, ZoneInv z live {o} n tile free → z.memorySize = minBlockSize * n →
    tile o = some k → k + fuel = maxOrder →
    HeaderIs (z.header (zonePage z.memoryStart o)) k 0 →
    FlagsFall z.memoryStart z (coalesceBlock fuel z (zonePage z.memoryStart o) k)
  | 0, z, o, k, tile, free, h, _, ho, _, _ => fall_put h ho (Set.mem_singleton o)
  | fuel + 1, z, o, k, tile, free, h, hn, ho, hk, hd => by
      unfold coalesceBlock
      cases hf : z.findBuddy (zonePage z.memoryStart o) k with
      | none => exact fall_put h ho (Set.mem_singleton o)
      | some buddy =>
          have hmerge := fall_mergeBuddy h hn ho (by omega) hf
          obtain ⟨z₁, l, free₁, hm, h1, ho1, hd1, hs1, _⟩ :=
            mergeBuddy_inv h hn ho (by omega) hd hf
          rw [hm] at hmerge
          dsimp only
          rw [hm]
          dsimp only at hmerge ⊢
          rw [← hs1.memoryStart] at hd1 hmerge ⊢
          exact hmerge.trans (fall_coalesceBlock fuel h1 (hs1.memorySize.trans hn) ho1
            (by omega) hd1)

/-- **`free`** of a block that is out clears its flag and sets none. -/
theorem fall_free (h : ZoneInv z live ∅ n tile free) (hn : z.memorySize = minBlockSize * n)
    (hl : (zonePage z.memoryStart o, k) ∈ live) :
    FlagsFall z.memoryStart (z.setAllocated (zonePage z.memoryStart o) 0)
      (z.free (zonePage z.memoryStart o + sizeofBuddyBlock)) := by
  obtain ⟨ho, h1, hd1⟩ := h.released hl
  rw [free_live_eq h hl]
  exact fall_coalesceBlock (maxOrder - k) h1 hn ho (Nat.add_sub_cancel' (h.tiling.order_le ho)) hd1

/-- Where the flag is 0, `free` does nothing. -/
theorem free_cleared {a : Nat} (ha : a < wordSize) (h0 : z.allocated a = 0) :
    z.free (a + sizeofBuddyBlock) = z := by
  unfold BuddyZone.free
  dsimp only
  rw [sub32_ptr ha, if_pos (Or.inr h0)]
  exact ite_self z

end

/-! ## Runs -/

/-- A call that neither returns `ptr` nor writes to the header below it. -/
def LeavesAlone (ptr : Nat) (h : BuddyHeap) : BuddyCall → Prop
  | .alloc size => (h.zone.alloc size).2 ≠ some ptr
  | .allocOrder order => (h.zone.allocOrder order).2 ≠ some ptr
  | .free _ => True
  | .write addr _ => addr + sizeofBuddyBlock < ptr ∨ ptr ≤ addr

instance (ptr : Nat) (h : BuddyHeap) : (c : BuddyCall) → Decidable (LeavesAlone ptr h c)
  | .alloc _ => inferInstanceAs (Decidable (_ ≠ _))
  | .allocOrder _ => inferInstanceAs (Decidable (_ ≠ _))
  | .free _ => .isTrue trivial
  | .write _ _ => inferInstanceAs (Decidable (_ ∨ _))

/-- The invariant of a run: page `x` of the zone has its flag down. -/
def FlagDown (start size x : Nat) (h : BuddyHeap) : Prop :=
  HeapInv start size h ∧ h.zone.allocated (zonePage start x) = 0

theorem FlagDown.step {start size x : Nat} {h h' : BuddyHeap} {c : BuddyCall}
    (hi : FlagDown start size x h) (hok : h.Allowed c)
    (halone : LeavesAlone (zonePage start x + sizeofBuddyBlock) h c) (hs : h.step c = some h') :
    FlagDown start size x h' := by
  obtain ⟨hinv, h0⟩ := hi
  refine ⟨hinv.step hok hs, ?_⟩
  have hn := hinv.size_eq
  obtain ⟨rfl, _, _, tile, free, hz⟩ := hinv
  have hgrant : ∀ order, (h.zone.allocOrder order).2 ≠
      some (zonePage h.zone.memoryStart x + sizeofBuddyBlock) →
      (BuddyHeap.grant (h.zone.allocOrder order) h.live order).zone.allocated
        (zonePage h.zone.memoryStart x) = 0 := by
    intro order hne
    have := fall_allocOrder hz order x hne h0
    unfold BuddyHeap.grant
    split <;> exact this
  cases c with
  | alloc request =>
      obtain rfl := Option.some.inj hs
      by_cases hr : request = 0
      · rw [show h.zone.alloc request = (h.zone, none) from if_pos hr]
        exact h0
      · have he : h.zone.alloc request = h.zone.allocOrder (getOrder request) := if_neg hr
        rw [he]
        exact hgrant _ (fun e => halone (by rw [he]; exact e))
  | allocOrder order =>
      obtain rfl := Option.some.inj hs
      exact hgrant order halone
  | free ptr =>
      obtain rfl := Option.some.inj hs
      obtain ⟨b, hb, rfl⟩ := hok
      obtain ⟨o, he, _⟩ := hz.live_block b hb
      have hbe : b = (zonePage h.zone.memoryStart o, b.2) := Prod.ext he rfl
      have hfall := fall_free hz hn (hbe ▸ hb)
      show (h.zone.free (b.1 + sizeofBuddyBlock)).allocated _ = 0
      rw [he]
      exact hfall x (fall_setAllocated h.zone h.zone.memoryStart o x h0)
  | write addr byte =>
      obtain rfl := Option.some.inj hs
      refine (Memory.store8_eq_of_ne ?_).trans h0
      rintro rfl
      unfold LeavesAlone sizeofBuddyBlock at halone
      omega

/-- **A double free is harmless**: once a block has been freed, a second `free`
of its pointer changes nothing, whatever has become of the block, until the
pointer is returned again or a client writes to the header below it. -/
theorem buddy_double_free (mem : Memory) {start size : Nat} {h₀ h₁ h₂ : BuddyHeap} (h0 : start ≠ 0)
    (hm : size % minBlockSize = 0) (hroom : start + size ≤ wordSize)
    (hr : Reaches BuddyHeap.step BuddyHeap.Allowed (BuddyHeap.start mem start size) h₀)
    {b : Nat × Nat} (hb : b ∈ h₀.live) (hf : h₀.step (.free (b.1 + sizeofBuddyBlock)) = some h₁)
    (hr' : Reaches BuddyHeap.step
      (fun h c => h.Allowed c ∧ LeavesAlone (b.1 + sizeofBuddyBlock) h c) h₁ h₂) :
    h₂.zone.free (b.1 + sizeofBuddyBlock) = h₂.zone := by
  have hinv := heapInv_of_reaches mem h0 hm hroom hr
  have hinv₁ := hinv.step (c := .free (b.1 + sizeofBuddyBlock)) ⟨b, hb, rfl⟩ hf
  have hn := hinv.size_eq
  obtain ⟨hst, _, _, tile, free, hz⟩ := hinv
  obtain ⟨o, he, ho, _⟩ := hz.live_block b hb
  have hlt : b.1 < wordSize := he ▸ hz.zonePage_lt ho
  have hbe : b = (zonePage h₀.zone.memoryStart o, b.2) := Prod.ext he rfl
  rw [hst] at he
  have hdown : FlagDown start size o h₁ := by
    refine ⟨hinv₁, ?_⟩
    obtain rfl := Option.some.inj hf
    have hfall := fall_free hz hn (hbe ▸ hb) o
    rw [hst, ← he] at hfall
    rw [← he]
    exact hfall (congrArg BuddyBlock.allocated
      ((header_setAllocated (Or.inl rfl)).trans (if_pos rfl)))
  rw [he] at hr' hlt ⊢
  obtain ⟨_, hflag⟩ := hr'.invariant hdown (fun u c u' hi hok hs => hi.step hok.1 hok.2 hs)
  exact free_cleared hlt hflag

/-- In the kernel's zone: a page is freed, merged with all its buddies and
handed out inside the greatest block, and freed again. -/
theorem buddy_double_free_kernel :
    ∃ h₀ h₁ h₂, Reaches BuddyHeap.step BuddyHeap.Allowed
        (BuddyHeap.start (fun _ => 0xAA) 0x1000000 0x1000000) h₀ ∧ (0x1801000, 0) ∈ h₀.live ∧
      h₀.step (.free (0x1801000 + sizeofBuddyBlock)) = some h₁ ∧
      Reaches BuddyHeap.step
        (fun h c => h.Allowed c ∧ LeavesAlone (0x1801000 + sizeofBuddyBlock) h c) h₁ h₂ ∧
      h₂.live = [(0x1800000, 11)] ∧
      h₂.zone.free (0x1801000 + sizeofBuddyBlock) = h₂.zone := by
  obtain ⟨h₀, hr, hp⟩ := Reaches.of_checked_script BuddyHeap.step BuddyHeap.Allowed
    (BuddyHeap.start (fun _ => 0xAA) 0x1000000 0x1000000)
    (fun h : BuddyHeap => decide ((0x1801000, 0) ∈ h.live) &&
      ((h.step (.free (0x1801000 + sizeofBuddyBlock))).bind fun h =>
        ([.free (0x1800000 + sizeofBuddyBlock), .allocOrder 11] : List BuddyCall).foldlM
          (checkedStep BuddyHeap.step
            fun h c => h.Allowed c ∧ LeavesAlone (0x1801000 + sizeofBuddyBlock) h c) h).any
        fun h : BuddyHeap => decide (h.live = [(0x1800000, 11)]))
    [.alloc 4096, .allocOrder 0] (by decide +kernel)
  rw [Bool.and_eq_true] at hp
  obtain ⟨hb, hp⟩ := hp
  have hb := of_decide_eq_true hb
  cases hf : h₀.step (.free (0x1801000 + sizeofBuddyBlock)) with
  | none =>
      rw [hf] at hp
      exact nomatch hp
  | some h₁ =>
      rw [hf] at hp
      obtain ⟨h₂, hr', hl⟩ := Reaches.of_checked_script BuddyHeap.step
        (fun h c => h.Allowed c ∧ LeavesAlone (0x1801000 + sizeofBuddyBlock) h c) h₁
        (fun h => decide (h.live = [(0x1800000, 11)]))
        [.free (0x1800000 + sizeofBuddyBlock), .allocOrder 11] hp
      exact ⟨h₀, h₁, h₂, hr, hb, hf, hr', of_decide_eq_true hl,
        buddy_double_free _ (by decide) (by decide) (by decide) hr (b := (0x1801000, 0)) hb hf hr'⟩

end KmOS
