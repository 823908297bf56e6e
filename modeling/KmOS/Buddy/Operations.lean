/-
# `KmOS.Buddy.Operations` — the allocator's operations keep the invariant

Each operation of the allocator is a sequence of the steps of
`KmOS.Buddy.Invariant`: `init` lays and puts blocks, `alloc_order` takes,
splits and grants, `free` releases, merges and puts.

The step that has to be argued is `find_buddy`.  It computes an address and
reads a header there without knowing that one is there.  `findBuddy_some` and
`headerRead_real` say that there always is: flipping the size bit of a block's
offset leads to the start of a block (`Tiling.buddy_starts`).
-/
import KmOS.Buddy.Invariant

namespace KmOS

open BuddyZone

variable {z z' : BuddyZone} {live : List (Nat × Nat)} {held : Set Nat} {n : Nat}
  {tile : Nat → Option Nat} {free : Nat → List Nat} {o k : Nat}

/-- `memory_start` and `memory_size` agree. -/
structure SameZone (z z' : BuddyZone) : Prop where
  memoryStart : z'.memoryStart = z.memoryStart
  memorySize : z'.memorySize = z.memorySize

theorem SameZone.refl (z : BuddyZone) : SameZone z z := ⟨rfl, rfl⟩

theorem SameZone.trans {z₁ z₂ z₃ : BuddyZone} (h : SameZone z₁ z₂) (h' : SameZone z₂ z₃) :
    SameZone z₁ z₃ := ⟨h'.1.trans h.1, h'.2.trans h.2⟩

/-- No two buddies of an order below `MAX_ORDER` are both on its free list. -/
def Coalesced (start : Nat) (free : Nat → List Nat) : Prop :=
  ∀ k, k < maxOrder → ∀ o, 2 ^ k ∣ o → zonePage start o ∈ free k →
    zonePage start (buddyOf k o) ∉ free k

namespace Coalesced

variable {start : Nat}

/-- Listing a block whose buddy is not listed. -/
theorem put (hc : Coalesced start free) (hal : 2 ^ k ∣ o)
    (hb : k < maxOrder → zonePage start (buddyOf k o) ∉ free k) :
    Coalesced start (Function.update free k (zonePage start o :: free k)) := by
  intro j hj x hxal hx hbx
  by_cases hjk : j = k
  · subst hjk
    rw [Function.update_self, List.mem_cons, zonePage_inj] at hx hbx
    rcases hx with rfl | hx
    · rcases hbx with he | hbx
      · exact buddyOf_ne hal he
      · exact hb hj hbx
    · rcases hbx with he | hbx
      · -- the block just listed is the buddy of `x`, so `x` is its buddy
        have hmem := hb hj
        rw [← he, buddyOf_buddyOf hxal] at hmem
        exact hmem hx
      · exact hc j hj x hxal hx hbx
  · rw [Function.update_of_ne hjk] at hx hbx
    exact hc j hj x hxal hx hbx

/-- Taking a block off its list. -/
theorem erase (hc : Coalesced start free) (k a : Nat) :
    Coalesced start (Function.update free k ((free k).erase a)) := by
  have hsub : ∀ {j x}, x ∈ Function.update free k ((free k).erase a) j → x ∈ free j := by
    intro j x hx
    by_cases hjk : j = k
    · subst hjk
      rw [Function.update_self] at hx
      exact List.mem_of_mem_erase hx
    · rw [Function.update_of_ne hjk] at hx
      exact hx
  intro j hj x hxal hx hbx
  exact hc j hj x hxal (hsub hx) (hsub hbx)

end Coalesced

/-! ## A fresh header where no block starts, or on a held block -/

theorem ZoneInv.initHeader (h : ZoneInv z live held n tile free) {p : Nat} (hk : k < wordSize)
    (hp : p ∈ held ∨ tile p = none) :
    ZoneInv (z.initHeader (zonePage z.memoryStart p) k) live held n tile free ∧
      HeaderIs ((z.initHeader (zonePage z.memoryStart p) k).header (zonePage z.memoryStart p))
        k 0 := by
  constructor
  · have hl := freeLists_initHeader z (zonePage z.memoryStart p) k
    refine h.frame_header (sameBounds_initHeader z _ k) hl.1 hl.2 hp (fun x hx => ?_)
    rw [header_initHeader (sep_zonePage _ _ _) hk, if_neg (fun e => hx (zonePage_inj.mp e))]
  · rw [header_initHeader (sep_zonePage _ _ _) hk, if_pos rfl]
    exact ⟨rfl, rfl, rfl⟩

/-- Setting the order of a held block. -/
theorem ZoneInv.setOrder (h : ZoneInv z live held n tile free) (hk : k < wordSize)
    (hh : o ∈ held) :
    ZoneInv (z.setOrder (zonePage z.memoryStart o) k) live held n tile free := by
  refine h.frame_header ⟨rfl, rfl, rfl⟩ rfl rfl (Or.inl hh) (fun x hx => ?_)
  rw [header_setOrder (sep_zonePage _ _ _) hk, if_neg (fun e => hx (zonePage_inj.mp e))]

theorem headerIs_setOrder {a j : Nat} {f : UInt8} (hk : k < wordSize)
    (h : HeaderIs (z.header a) j f) : HeaderIs ((z.setOrder a k).header a) k f := by
  rw [header_setOrder (Or.inl rfl) hk, if_pos rfl]
  exact ⟨rfl, h.magic, h.allocated⟩

/-! ## Initialisation -/

/-- The order `init` picks: the largest that fits, at most `MAX_ORDER`. -/
theorem fitOrder_spec {r : Nat} : ∀ (fuel j : Nat), j ≤ maxOrder → maxOrder ≤ j + fuel → 2 ^ j ≤ r →
    fitOrder (minBlockSize * r) fuel j ≤ maxOrder ∧ 2 ^ fitOrder (minBlockSize * r) fuel j ≤ r ∧
      (fitOrder (minBlockSize * r) fuel j = maxOrder ∨
        r < 2 ^ (fitOrder (minBlockSize * r) fuel j + 1))
  | 0, j, hj, hf, hr => ⟨hj, hr, Or.inl (by show j = maxOrder; omega)⟩
  | fuel + 1, j, hj, hf, hr => by
      have hiff : blockSize (j + 1) ≤ minBlockSize * r ↔ 2 ^ (j + 1) ≤ r := by
        unfold blockSize minBlockSize
        omega
      simp only [fitOrder, hiff]
      split
      · next hc => exact fitOrder_spec fuel (j + 1) hc.2 (by omega) hc.1
      · next hc =>
          refine ⟨hj, hr, ?_⟩
          omega

/-- One turn of `init`'s loop. -/
theorem ZoneInv.layBlock (h : ZoneInv z live ∅ n tile free) (hk : k ≤ maxOrder) (hd : 2 ^ k ∣ n)
    (hroom : z.memoryStart + minBlockSize * (n + 2 ^ k) ≤ wordSize) :
    ZoneInv ((z.initHeader (zonePage z.memoryStart n) k).addToFreeList
        (zonePage z.memoryStart n) k) live ∅ (n + 2 ^ k) (Function.update tile n (some k))
      (Function.update free k (zonePage z.memoryStart n :: free k)) := by
  have hkw : k < wordSize := Nat.lt_of_le_of_lt hk (by decide)
  have hnone : tile n = none := by
    cases ht : tile n with
    | none => rfl
    | some j => exact absurd (h.tiling.lt ht) (Nat.lt_irrefl n)
  obtain ⟨h1, hd1⟩ := h.initHeader hkw (Or.inr hnone)
  have hms := (sameBounds_initHeader z (zonePage z.memoryStart n) k).memoryStart
  generalize z.initHeader (zonePage z.memoryStart n) k = z₁ at h1 hd1 hms ⊢
  rw [← hms] at hroom hd1 ⊢
  have h2 := h1.extend hk hd hroom
  have h3 := h2.put (Function.update_self n (some k) tile) (Set.mem_insert n ∅) hd1
  have hempty : (insert n ∅ : Set Nat) \ {n} = ∅ := by simp
  rw [hempty] at h3
  exact h3

theorem initLoop_inv : ∀ (fuel : Nat) {z : BuddyZone} {c r : Nat} {tile : Nat → Option Nat}
    {free : Nat → List Nat}, ZoneInv z [] ∅ c tile free → r ≤ fuel →
    (∀ j, j ≤ maxOrder → 2 ^ j ≤ r → 2 ^ j ∣ c) →
    z.memoryStart + minBlockSize * (c + r) ≤ wordSize →
    ∃ tile' free', ZoneInv (initLoop fuel z (zonePage z.memoryStart c) (minBlockSize * r)) [] ∅
        (c + r) tile' free' ∧
      SameZone z (initLoop fuel z (zonePage z.memoryStart c) (minBlockSize * r)) ∧
      (Coalesced z.memoryStart free → (∀ j, j < maxOrder → 2 ^ j ≤ r → free j = []) →
        Coalesced z.memoryStart free')
  | 0, z, c, r, tile, free, h, hr, _, _ => by
      obtain rfl : r = 0 := by omega
      exact ⟨tile, free, h, SameZone.refl z, fun hc _ => hc⟩
  | fuel + 1, z, c, r, tile, free, h, hr, hal, hroom => by
      unfold initLoop
      split
      · next hc =>
          have hr1 : 2 ^ 0 ≤ r := by
            unfold minBlockSize at hc
            omega
          obtain ⟨hk, hkr, hmax⟩ := fitOrder_spec maxOrder 0 (by decide) (by decide) hr1
          generalize hkdef : fitOrder (minBlockSize * r) maxOrder 0 = k at hk hkr hmax ⊢
          have hpos : 0 < 2 ^ k := Nat.two_pow_pos k
          have h' := h.layBlock hk (hal k hk hkr)
            (Nat.le_trans (Nat.add_le_add_left (Nat.mul_le_mul_left _ (by omega)) _) hroom)
          have hb := sameBounds_addToFreeList (z.initHeader (zonePage z.memoryStart c) k)
            (zonePage z.memoryStart c) k
          have hi := sameBounds_initHeader z (zonePage z.memoryStart c) k
          have hsz : SameZone z ((z.initHeader (zonePage z.memoryStart c) k).addToFreeList
              (zonePage z.memoryStart c) k) :=
            ⟨hb.memoryStart.trans hi.memoryStart, hb.memorySize.trans hi.memorySize⟩
          -- an order that still fits is no larger than the one just laid
          have hal' : ∀ j, j ≤ maxOrder → 2 ^ j ≤ r - 2 ^ k → 2 ^ j ∣ c + 2 ^ k := by
            intro j hj hjr
            have hjk : j ≤ k := by
              rcases hmax with rfl | hmax
              · exact hj
              · have hlt : 2 ^ j < 2 ^ (k + 1) := by omega
                have := (Nat.pow_lt_pow_iff_right (by decide : 1 < 2)).mp hlt
                omega
            exact Nat.dvd_add (hal j hj (by omega)) (pow_dvd_pow 2 hjk)
          have hadd : c + 2 ^ k + (r - 2 ^ k) = c + r := by omega
          obtain ⟨tile', free', hinv, hsame, hco⟩ := initLoop_inv fuel h' (r := r - 2 ^ k)
            (by omega) hal' (by rw [hadd, hsz.memoryStart]; exact hroom)
          have haddr : zonePage z.memoryStart c + blockSize k =
              zonePage ((z.initHeader (zonePage z.memoryStart c) k).addToFreeList
                (zonePage z.memoryStart c) k).memoryStart (c + 2 ^ k) := by
            rw [hsz.memoryStart, zonePage_add]
          have hsize : minBlockSize * r - blockSize k = minBlockSize * (r - 2 ^ k) := by
            unfold blockSize minBlockSize
            omega
          rw [hadd] at hinv
          dsimp only
          rw [haddr, hsize]
          refine ⟨tile', free', hinv, hsz.trans hsame, fun hco₀ hnil => ?_⟩
          rw [hsz.memoryStart] at hco
          refine hco (hco₀.put (hal k hk hkr) ?_) ?_
          · intro hkm
            rw [hnil k hkm hkr]
            exact List.not_mem_nil
          · -- the order just laid does not fit again, unless it is the greatest
            intro j hj hjr
            have hjk : j ≠ k := by
              rintro rfl
              rcases hmax with rfl | hmax
              · exact Nat.lt_irrefl _ hj
              · rw [pow_succ] at hmax
                omega
            rw [Function.update_of_ne hjk]
            exact hnil j hj (by omega)
      · next hc =>
          obtain rfl : r = 0 := by
            unfold minBlockSize at hc
            omega
          exact ⟨tile, free, h, SameZone.refl z, fun hc _ => hc⟩

/-- **`init`** tiles the whole zone with free blocks. -/
theorem init_inv (mem : Memory) {memoryStart memorySize : Nat} (h0 : memoryStart ≠ 0)
    (hm : memorySize % minBlockSize = 0) (hroom : memoryStart + memorySize ≤ wordSize) :
    ∃ tile free, ZoneInv (init mem memoryStart memorySize) [] ∅ (memorySize / minBlockSize)
        tile free ∧
      (init mem memoryStart memorySize).memoryStart = memoryStart ∧
      (init mem memoryStart memorySize).memorySize = memorySize ∧
      Coalesced memoryStart free := by
  have hsize : minBlockSize * (memorySize / minBlockSize) = memorySize :=
    Nat.mul_div_cancel' (Nat.dvd_of_mod_eq_zero hm)
  let z₀ : BuddyZone :=
    { freeLists := fun _ => 0
      freeBlocks := fun _ => 0
      memoryStart := memoryStart
      memorySize := memorySize
      totalBlocks := memorySize / minBlockSize
      allocatedBlocks := 0
      mem := mem }
  have hz₀ : ZoneInv z₀ [] ∅ 0 (fun _ => none) (fun _ => []) :=
    { start_ne := h0
      room := Nat.le_trans (Nat.le_add_right _ _) hroom
      tiling := Tiling.empty
      live_block := fun b hb => nomatch hb
      live_nodup := List.nodup_nil
      mem_free := by
        intro k a
        constructor
        · intro ha
          exact nomatch ha
        · rintro ⟨x, _, hx, _⟩
          exact nomatch hx
      free_header := fun ha => nomatch ha
      free_nodup := fun _ => List.nodup_nil
      links := fun _ => rfl
      count := fun _ => rfl
      total := rfl }
  obtain ⟨tile, free, hinv, hsame, hco⟩ := initLoop_inv (memorySize / minBlockSize) hz₀
    (r := memorySize / minBlockSize) (Nat.le_refl _) (fun j _ _ => Nat.dvd_zero _)
    (by rw [Nat.zero_add, hsize]; exact hroom)
  rw [Nat.zero_add, hsize] at hinv
  rw [hsize] at hsame
  refine ⟨tile, free, hinv, hsame.memoryStart, hsame.memorySize, ?_⟩
  exact hco (fun k _ o _ ho => nomatch ho) (fun j _ _ => rfl)

/-! ## Allocation -/

/-- One turn of `split_block`: the upper half goes on its list, the lower half
stays in hand with its new order. -/
theorem ZoneInv.splitStep (h : ZoneInv z live {o} n tile free) (ho : tile o = some (k + 1))
    (hd : HeaderIs (z.header (zonePage z.memoryStart o)) (k + 1) 0) :
    let buddy := zonePage z.memoryStart (o + 2 ^ k)
    let z₁ := ((z.initHeader buddy k).addToFreeList buddy k).setOrder (zonePage z.memoryStart o) k
    ZoneInv z₁ live {o} n (splitTile tile o k) (Function.update free k (buddy :: free k)) ∧
      HeaderIs (z₁.header (zonePage z.memoryStart o)) k 0 ∧ SameZone z z₁ := by
  intro buddy z₁
  have hpos : 0 < 2 ^ k := Nat.two_pow_pos k
  have hkw : k < wordSize := Nat.lt_of_succ_lt (h.order_lt ho)
  have hne : o ≠ o + 2 ^ k := by omega
  have hnone : tile (o + 2 ^ k) = none :=
    h.tiling.no_start_inside ho (by omega) (by rw [pow_succ]; omega)
  obtain ⟨h1, hd1⟩ := h.initHeader hkw (Or.inr hnone)
  have hold : HeaderIs ((z.initHeader buddy k).header (zonePage z.memoryStart o)) (k + 1) 0 := by
    rw [header_initHeader (sep_zonePage _ _ _) hkw, if_neg (fun e => hne (zonePage_inj.mp e))]
    exact hd
  have hi := sameBounds_initHeader z buddy k
  have hb := sameBounds_addToFreeList (z.initHeader buddy k) buddy k
  have hms : ((z.initHeader buddy k).addToFreeList buddy k).memoryStart = z.memoryStart :=
    hb.memoryStart.trans hi.memoryStart
  have hsize : ((z.initHeader buddy k).addToFreeList buddy k).memorySize = z.memorySize :=
    hb.memorySize.trans hi.memorySize
  have himem := hi.memoryStart
  -- from here on the fresh header is just a zone with the same bounds
  have key : ZoneInv ((z.initHeader buddy k).addToFreeList buddy k) live {o} n (splitTile tile o k)
      (Function.update free k (buddy :: free k)) ∧
      HeaderIs (((z.initHeader buddy k).addToFreeList buddy k).header (zonePage z.memoryStart o))
        (k + 1) 0 := by
    have hset : (insert (o + 2 ^ k) {o} : Set Nat) \ {o + 2 ^ k} = {o} := by
      ext x
      simp only [Set.mem_sdiff, Set.mem_insert_iff, Set.mem_singleton_iff]
      omega
    have hbuddy : buddy = zonePage (z.initHeader buddy k).memoryStart (o + 2 ^ k) := by rw [himem]
    have ho' : zonePage z.memoryStart o = zonePage (z.initHeader buddy k).memoryStart o := by
      rw [himem]
    change ZoneInv (z.initHeader buddy k) live {o} n tile free at h1
    change HeaderIs ((z.initHeader buddy k).header buddy) k 0 at hd1
    generalize z.initHeader buddy k = z₂ at h1 hd1 hold hbuddy ho' ⊢
    rw [ho'] at hold ⊢
    rw [hbuddy] at hd1 ⊢
    have h2 := h1.split ho (Set.mem_singleton o)
    have h3 := h2.put (Tiling.splitTile_upper tile o k) (Set.mem_insert _ _) hd1
    rw [hset] at h3
    exact ⟨h3, h2.headerIs_put (Tiling.splitTile_upper tile o k) (Set.mem_insert _ _) hold⟩
  have hso := sameBounds_setOrder ((z.initHeader buddy k).addToFreeList buddy k)
    (zonePage z.memoryStart o) k
  obtain ⟨h3, hold3⟩ := key
  show ZoneInv (((z.initHeader buddy k).addToFreeList buddy k).setOrder
      (zonePage z.memoryStart o) k) _ _ _ _ _ ∧ HeaderIs
    ((((z.initHeader buddy k).addToFreeList buddy k).setOrder (zonePage z.memoryStart o) k).header
      _) _ _ ∧ SameZone z (((z.initHeader buddy k).addToFreeList buddy k).setOrder
      (zonePage z.memoryStart o) k)
  generalize (z.initHeader buddy k).addToFreeList buddy k = z₃ at h3 hold3 hso hms hsize ⊢
  have h4 := h3.setOrder hkw (Set.mem_singleton o)
  rw [hms] at h4
  exact ⟨h4, headerIs_setOrder hkw hold3,
    ⟨hso.memoryStart.trans hms, hso.memorySize.trans hsize⟩⟩

/-- The upper half of a block is aligned, and its buddy is the lower half. -/
theorem upper_aligned (h : Tiling maxOrder n tile) (ho : tile o = some (k + 1)) :
    2 ^ k ∣ o + 2 ^ k :=
  Nat.dvd_add (dvd_trans (pow_dvd_pow 2 (Nat.le_succ k)) (h.aligned ho)) (Nat.dvd_refl _)

theorem buddyOf_upper (h : 2 ^ (k + 1) ∣ o) : buddyOf k (o + 2 ^ k) = o := by
  have hlow : 2 ^ k ∣ o := dvd_trans (pow_dvd_pow 2 (Nat.le_succ k)) h
  have hb : buddyOf k o = o + 2 ^ k := by
    rcases buddyOf_cases hlow with ⟨_, he⟩ | ⟨hd, he⟩
    · exact he
    · -- both `o` and its buddy below it would be aligned to the doubled size
      have hpos : 0 < 2 ^ k := Nat.two_pow_pos k
      have := eq_of_mem_aligned hd h (by omega) (by rw [pow_succ]; omega)
      omega
  rw [← hb]
  exact buddyOf_buddyOf hlow

/-- The lower half is in hand, so on no list. -/
theorem ZoneInv.lower_not_listed (h : ZoneInv z live {o} n tile free) (ho : tile o = some (k + 1)) :
    zonePage z.memoryStart (buddyOf k (o + 2 ^ k)) ∉ free k := by
  rw [buddyOf_upper (h.tiling.aligned ho)]
  intro hmem
  obtain ⟨x, hx, _, hheld, _⟩ := h.mem_free.mp hmem
  exact hheld (zonePage_inj.mp hx).symm

/-- **`split_block`** brings the block in hand down to the target order. -/
theorem splitBlock_inv {target : Nat} : ∀ (k : Nat) {z : BuddyZone} {tile : Nat → Option Nat}
    {free : Nat → List Nat}, ZoneInv z live {o} n tile free → tile o = some k → target ≤ k →
    HeaderIs (z.header (zonePage z.memoryStart o)) k 0 →
    ∃ tile' free', ZoneInv (z.splitBlock (zonePage z.memoryStart o) k target) live {o} n
        tile' free' ∧ tile' o = some target ∧
      HeaderIs ((z.splitBlock (zonePage z.memoryStart o) k target).header
        (zonePage z.memoryStart o)) target 0 ∧
      SameZone z (z.splitBlock (zonePage z.memoryStart o) k target) ∧
      (Coalesced z.memoryStart free → Coalesced z.memoryStart free')
  | 0, z, tile, free, h, ho, ht, hd => by
      obtain rfl : target = 0 := by omega
      exact ⟨tile, free, h, ho, hd, SameZone.refl z, fun hc => hc⟩
  | k + 1, z, tile, free, h, ho, ht, hd => by
      unfold splitBlock
      split
      · next hlt =>
          obtain ⟨h1, hd1, hs1⟩ := h.splitStep ho hd
          have hput : Coalesced z.memoryStart free → Coalesced z.memoryStart
              (Function.update free k (zonePage z.memoryStart (o + 2 ^ k) :: free k)) :=
            fun hc => hc.put (upper_aligned h.tiling ho) (fun _ => h.lower_not_listed ho)
          rw [zonePage_add] at h1 hd1 hs1 hput
          dsimp only
          generalize (((z.initHeader (zonePage z.memoryStart o + blockSize k) k).addToFreeList
            (zonePage z.memoryStart o + blockSize k) k).setOrder
            (zonePage z.memoryStart o) k) = z₁ at h1 hd1 hs1 ⊢
          rw [← hs1.memoryStart] at hd1 ⊢
          obtain ⟨tile', free', h2, ho2, hd2, hs2, hco⟩ := splitBlock_inv k h1
            (Tiling.splitTile_lower tile o k) (Nat.le_of_lt_succ hlt) hd1
          refine ⟨tile', free', h2, ho2, hd2, hs1.trans hs2, fun hc => hco ?_⟩
          rw [hs1.memoryStart] at hc ⊢
          exact hput hc
      · next hge =>
          obtain rfl : target = k + 1 := by omega
          exact ⟨tile, free, h, ho, hd, SameZone.refl z, fun hc => hc⟩

/-- The search of `alloc_order` ends past the last list or at a list that is
not empty. -/
theorem findFree_spec (z : BuddyZone) : ∀ (fuel c : Nat), maxOrder < c + fuel →
    c ≤ z.findFree fuel c ∧ (maxOrder < z.findFree fuel c ∨ z.freeLists (z.findFree fuel c) ≠ 0)
  | 0, c, h => ⟨Nat.le_refl c, Or.inl h⟩
  | fuel + 1, c, h => by
      unfold findFree
      split
      · obtain ⟨h1, h2⟩ := findFree_spec z fuel (c + 1) (by omega)
        exact ⟨by omega, h2⟩
      · next hc =>
          refine ⟨Nat.le_refl c, ?_⟩
          by_cases hle : c ≤ maxOrder
          · exact Or.inr (fun hz => hc ⟨hle, hz⟩)
          · exact Or.inl (by omega)

/-- **`alloc_order`** returns null and changes nothing, or hands out a block of
the order asked for. -/
theorem allocOrder_inv (h : ZoneInv z live ∅ n tile free) (order : Nat) :
    z.allocOrder order = (z, none) ∨
      ∃ z' o tile' free', z.allocOrder order =
          (z', some (zonePage z.memoryStart o + sizeofBuddyBlock)) ∧
        ZoneInv z' ((zonePage z.memoryStart o, order) :: live) ∅ n tile' free' ∧ SameZone z z' ∧
        (Coalesced z.memoryStart free → Coalesced z.memoryStart free') := by
  obtain ⟨hle, hcase⟩ := findFree_spec z (maxOrder + 1) order (by omega)
  unfold allocOrder
  generalize z.findFree (maxOrder + 1) order = c at hle hcase ⊢
  by_cases ho : maxOrder < order
  · exact Or.inl (if_pos ho)
  by_cases hc : maxOrder < c
  · left
    rw [if_neg ho, if_pos hc]
  right
  rw [if_neg ho]
  dsimp only
  rw [if_neg hc]
  have hhead := h.head_mem_free (hcase.resolve_left hc)
  obtain ⟨o, he, hto, _, hl⟩ := h.mem_free.mp hhead
  have hd0 := h.free_header hhead
  rw [he] at hl hd0 ⊢
  have h1 := h.take hto (Set.notMem_empty o) hl
  have hd1 : HeaderIs ((z.removeFromFreeList (zonePage z.memoryStart o) c).header
      (zonePage z.memoryStart o)) c 0 := by
    rw [h.header_take (he ▸ hhead) o]
    exact ⟨hd0.order, hd0.magic, hd0.allocated⟩
  have hb := sameBounds_removeFromFreeList z (zonePage z.memoryStart o) c
  have hs1 : SameZone z (z.removeFromFreeList (zonePage z.memoryStart o) c) :=
    ⟨hb.memoryStart, hb.memorySize⟩
  rw [LawfulSingleton.insert_empty_eq] at h1
  generalize z.removeFromFreeList (zonePage z.memoryStart o) c = z₁ at h1 hd1 hs1 ⊢
  -- the block in hand, brought down to the order asked for
  have hsplit : ∃ tile' free', ZoneInv (if order < c then z₁.splitBlock (zonePage z.memoryStart o)
      c order else z₁) live {o} n tile' free' ∧ tile' o = some order ∧
      HeaderIs ((if order < c then z₁.splitBlock (zonePage z.memoryStart o) c order
        else z₁).header (zonePage z.memoryStart o)) order 0 ∧
      SameZone z (if order < c then z₁.splitBlock (zonePage z.memoryStart o) c order else z₁) ∧
      (Coalesced z.memoryStart free → Coalesced z.memoryStart free') := by
    split
    · obtain ⟨tile', free', h2, ho2, hd2, hs2, hco⟩ := splitBlock_inv c h1 hto hle
        (by rw [hs1.memoryStart]; exact hd1)
      rw [hs1.memoryStart] at h2 hd2 hs2 hco
      exact ⟨tile', free', h2, ho2, hd2, hs1.trans hs2, fun hc => hco (hc.erase _ _)⟩
    · obtain rfl : c = order := by omega
      exact ⟨_, _, h1, hto, hd1, hs1, fun hc => hc.erase _ _⟩
  obtain ⟨tile', free', h2, ho2, hd2, hs2, hco⟩ := hsplit
  generalize (if order < c then z₁.splitBlock (zonePage z.memoryStart o) c order else z₁) = z₂
    at h2 hd2 hs2 ⊢
  rw [← hs2.memoryStart] at hd2 ⊢
  have h3 := h2.grant ho2 (Set.mem_singleton o) hd2
  rw [Set.sdiff_self] at h3
  refine ⟨_, o, tile', free', rfl, h3, ⟨hs2.memoryStart, hs2.memorySize⟩, ?_⟩
  rw [hs2.memoryStart]
  exact hco

/-! ## Freeing -/

theorem sub32_zonePage {start o : Nat} (h : zonePage start o < wordSize) :
    sub32 (zonePage start o) start = minBlockSize * o := by
  unfold sub32
  unfold zonePage minBlockSize wordSize at *
  omega

/-- Where the buddy of a block lies: no further than the end of the block. -/
theorem buddyOf_le (h : Tiling maxOrder n tile) (ho : tile o = some k) : buddyOf k o ≤ n := by
  have hin := h.inside ho
  rcases buddyOf_cases (h.aligned ho) with ⟨_, he⟩ | ⟨_, he⟩ <;> omega

/-- The address `find_buddy` computes. -/
theorem buddyAddr_mod (h : ZoneInv z live held n tile free) (ho : tile o = some k) :
    z.buddyAddr (zonePage z.memoryStart o) k =
      zonePage z.memoryStart (buddyOf k o) % wordSize := by
  have hdiv : minBlockSize * o / blockSize k = o / 2 ^ k := by
    unfold blockSize
    rw [Nat.mul_comm, Nat.mul_div_mul_right _ _ (by decide)]
  have hmul : ∀ q, q * blockSize k = minBlockSize * (q * 2 ^ k) := by
    intro q
    unfold blockSize
    ring
  unfold buddyAddr
  dsimp only
  rw [sub32_zonePage (h.zonePage_lt ho), hdiv, hmul]
  rfl

/-- The address `find_buddy` computes, when it is inside the zone. -/
theorem buddyAddr_eq (h : ZoneInv z live held n tile free) (hn : z.memorySize = minBlockSize * n)
    (ho : tile o = some k) (hin : z.buddyInZone (zonePage z.memoryStart o) k) :
    z.buddyAddr (zonePage z.memoryStart o) k = zonePage z.memoryStart (buddyOf k o) ∧
      buddyOf k o < n := by
  have hle := buddyOf_le h.tiling ho
  have hroom := h.room
  have haddr := buddyAddr_mod h ho
  unfold buddyInZone at hin
  rw [haddr, hn] at hin
  rw [haddr]
  -- a zone that ends at the top of memory has its end at 0, and no address below it
  unfold zonePage minBlockSize wordSize at *
  omega

/-- **`find_buddy` reads the header of a real block.** -/
theorem buddy_is_block (h : ZoneInv z live {o} n tile free)
    (hn : z.memorySize = minBlockSize * n) (ho : tile o = some k)
    (hin : z.buddyInZone (zonePage z.memoryStart o) k) :
    z.buddyAddr (zonePage z.memoryStart o) k = zonePage z.memoryStart (buddyOf k o) ∧
      buddyOf k o ≠ o ∧ ∃ j, tile (buddyOf k o) = some j := by
  obtain ⟨haddr, hlt⟩ := buddyAddr_eq h hn ho hin
  obtain ⟨j, _, hj⟩ := h.tiling.buddy_starts ho hlt
  have hpos : 0 < 2 ^ k := Nat.two_pow_pos k
  refine ⟨haddr, ?_, j, hj⟩
  rcases buddyOf_cases (h.tiling.aligned ho) with ⟨_, he⟩ | ⟨_, he⟩ <;> omega

/-- The header of a block that is not in hand says whether it is out. -/
theorem ZoneInv.headerIs (h : ZoneInv z live held n tile free) (ho : tile o = some k)
    (hh : o ∉ held) :
    HeaderIs (z.header (zonePage z.memoryStart o)) k
      (if (zonePage z.memoryStart o, k) ∈ live then 1 else 0) := by
  split
  · next hl =>
      obtain ⟨_, _, _, _, hd⟩ := h.live_block _ hl
      exact hd
  · next hl => exact h.free_header (h.mem_free.mpr ⟨o, rfl, ho, hh, hl⟩)

/-- The buddy `find_buddy` returns is a free block of the order asked for. -/
theorem findBuddy_some (h : ZoneInv z live {o} n tile free)
    (hn : z.memorySize = minBlockSize * n) (ho : tile o = some k) {buddy : Nat}
    (hf : z.findBuddy (zonePage z.memoryStart o) k = some buddy) :
    buddy = zonePage z.memoryStart (buddyOf k o) ∧ buddyOf k o ≠ o ∧
      tile (buddyOf k o) = some k ∧ (zonePage z.memoryStart (buddyOf k o), k) ∉ live := by
  unfold findBuddy at hf
  dsimp only at hf
  split at hf
  · next hin =>
      obtain ⟨haddr, hne, j, hj⟩ := buddy_is_block h hn ho hin
      split at hf
      · next hc =>
          rw [haddr] at hc hf
          have hd := h.headerIs hj hne
          have hjk : j = k := hd.order.symm.trans hc.2.2
          subst hjk
          refine ⟨(Option.some.inj hf).symm, hne, hj, fun hl => ?_⟩
          have hflag := hd.allocated
          rw [if_pos hl] at hflag
          have h0 : (z.header (zonePage z.memoryStart (buddyOf j o))).allocated = 0 := hc.2.1
          rw [hflag] at h0
          exact absurd h0 (by decide)
      · exact nomatch hf
  · exact nomatch hf

/-- Where `find_buddy` returns null the buddy is on no list, provided the end of
the zone has an address. -/
theorem findBuddy_none (h : ZoneInv z live {o} n tile free)
    (hn : z.memorySize = minBlockSize * n) (ho : tile o = some k)
    (hend : z.memoryStart + z.memorySize < wordSize)
    (hf : z.findBuddy (zonePage z.memoryStart o) k = none) :
    zonePage z.memoryStart (buddyOf k o) ∉ free k := by
  intro hmem
  obtain ⟨x, hx, hxk, _, _⟩ := h.mem_free.mp hmem
  obtain rfl := zonePage_inj.mp hx
  have hlt := h.tiling.lt hxk
  have haddr : z.buddyAddr (zonePage z.memoryStart o) k = zonePage z.memoryStart (buddyOf k o) := by
    rw [buddyAddr_mod h ho]
    exact Nat.mod_eq_of_lt (h.zonePage_lt hxk)
  have hin : z.buddyInZone (zonePage z.memoryStart o) k := by
    unfold buddyInZone
    rw [haddr, Nat.mod_eq_of_lt hend, hn]
    exact Nat.add_lt_add_left (Nat.mul_lt_mul_of_pos_left hlt (by decide)) _
  have hd := h.free_header hmem
  unfold findBuddy at hf
  dsimp only at hf
  rw [if_pos hin, haddr, if_pos ⟨hd.magic, hd.allocated, hd.order⟩] at hf
  exact nomatch hf

/-- What a read of `find_buddy` is: the true header of a block of the tiling,
other than the block in hand. -/
def RealRead (z : BuddyZone) (live : List (Nat × Nat)) (tile : Nat → Option Nat) (o : Nat)
    (r : HeaderRead) : Prop :=
  ∃ x j, tile x = some j ∧ x ≠ o ∧ r.addr = zonePage z.memoryStart x ∧ r.magic = buddyMagic ∧
    r.order = j ∧ r.allocated = if (r.addr, j) ∈ live then 1 else 0

theorem headerRead_real (h : ZoneInv z live {o} n tile free)
    (hn : z.memorySize = minBlockSize * n) (ho : tile o = some k) {r : HeaderRead}
    (hr : r ∈ z.headerRead (zonePage z.memoryStart o) k) : RealRead z live tile o r := by
  unfold headerRead at hr
  dsimp only at hr
  split at hr
  · next hin =>
      obtain ⟨haddr, hne, j, hj⟩ := buddy_is_block h hn ho hin
      have hd := h.headerIs hj hne
      rw [List.mem_singleton, haddr] at hr
      subst hr
      exact ⟨buddyOf k o, j, hj, hne, rfl, hd.magic, hd.order, hd.allocated⟩
  · exact nomatch hr

/-- The lower of a block and its buddy, which is the block that goes on. -/
theorem lower_buddy (h : 2 ^ k ∣ o) (start : Nat) :
    ∃ l, (if zonePage start (buddyOf k o) < zonePage start o then zonePage start (buddyOf k o)
        else zonePage start o) = zonePage start l ∧ 2 ^ (k + 1) ∣ l ∧
      ((l = o ∧ buddyOf k o = l + 2 ^ k) ∨ (l = buddyOf k o ∧ o = l + 2 ^ k)) := by
  have hpos : 0 < 2 ^ k := Nat.two_pow_pos k
  have hlt : zonePage start (buddyOf k o) < zonePage start o ↔ buddyOf k o < o := by
    unfold zonePage minBlockSize
    omega
  rcases buddyOf_cases h with ⟨hd, he⟩ | ⟨hd, he⟩
  · exact ⟨o, if_neg (by rw [hlt]; omega), hd, Or.inl ⟨rfl, he⟩⟩
  · exact ⟨buddyOf k o, if_pos (by rw [hlt]; omega), hd, Or.inr ⟨rfl, he⟩⟩

/-- **One turn of `coalesce_block`.**  The buddy comes off its list and the
lower half, with the next order, is the block in hand. -/
theorem mergeBuddy_inv (h : ZoneInv z live {o} n tile free) (hn : z.memorySize = minBlockSize * n)
    (ho : tile o = some k) (hk : k < maxOrder)
    (hd : HeaderIs (z.header (zonePage z.memoryStart o)) k 0) {buddy : Nat}
    (hf : z.findBuddy (zonePage z.memoryStart o) k = some buddy) :
    ∃ z' l free', z.mergeBuddy (zonePage z.memoryStart o) buddy k =
        (z', zonePage z.memoryStart l) ∧
      ZoneInv z' live {l} n (mergeTile tile l k) free' ∧ mergeTile tile l k l = some (k + 1) ∧
      HeaderIs (z'.header (zonePage z.memoryStart l)) (k + 1) 0 ∧ SameZone z z' ∧
      (∀ x j, mergeTile tile l k x = some j → x ≠ l → tile x = some j ∧ x ≠ o) ∧
      (Coalesced z.memoryStart free → Coalesced z.memoryStart free') := by
  obtain ⟨rfl, hne, hb, hbl⟩ := findBuddy_some h hn ho hf
  have hkw : k + 1 < wordSize := Nat.lt_of_le_of_lt hk (by decide)
  have hbf : zonePage z.memoryStart (buddyOf k o) ∈ free k :=
    h.mem_free.mpr ⟨_, rfl, hb, hne, hbl⟩
  have h1 := h.take hb hne hbl
  have hkeep : ∀ {x j f}, HeaderIs (z.header (zonePage z.memoryStart x)) j f →
      HeaderIs ((z.removeFromFreeList (zonePage z.memoryStart (buddyOf k o)) k).header
        (zonePage z.memoryStart x)) j f := by
    intro x j f hx
    rw [h.header_take hbf x]
    exact ⟨hx.order, hx.magic, hx.allocated⟩
  have hdo := hkeep hd
  have hdb := hkeep (h.free_header hbf)
  have hsb := sameBounds_removeFromFreeList z (zonePage z.memoryStart (buddyOf k o)) k
  have hs1 : SameZone z (z.removeFromFreeList (zonePage z.memoryStart (buddyOf k o)) k) :=
    ⟨hsb.memoryStart, hsb.memorySize⟩
  obtain ⟨l, hlow, hld, hl⟩ := lower_buddy (h.tiling.aligned ho) z.memoryStart
  unfold mergeBuddy
  rw [hlow]
  generalize z.removeFromFreeList (zonePage z.memoryStart (buddyOf k o)) k = z₁
    at h1 hdo hdb hs1 ⊢
  -- both halves are in hand, and the lower one has a true header
  have hfacts : tile l = some k ∧ tile (l + 2 ^ k) = some k ∧
      (insert (buddyOf k o) {o} : Set Nat) \ {l + 2 ^ k} = {l} ∧
      l ∈ (insert (buddyOf k o) {o} : Set Nat) ∧ l + 2 ^ k ∈ (insert (buddyOf k o) {o} : Set Nat) ∧
      (∀ x, x ≠ l → x ≠ l + 2 ^ k → x ≠ o) ∧
      HeaderIs (z₁.header (zonePage z.memoryStart l)) k 0 := by
    have hpos : 0 < 2 ^ k := Nat.two_pow_pos k
    rcases hl with ⟨rfl, he⟩ | ⟨rfl, he⟩
    · refine ⟨ho, he ▸ hb, ?_, Set.mem_insert_of_mem _ rfl, he ▸ Set.mem_insert _ _,
        fun x h1 _ => h1, hdo⟩
      ext x
      simp only [Set.mem_sdiff, Set.mem_insert_iff, Set.mem_singleton_iff]
      omega
    · refine ⟨hb, he ▸ ho, ?_, Set.mem_insert _ _, ?_, fun x _ h2 e => h2 (e.trans he), hdb⟩
      · ext x
        simp only [Set.mem_sdiff, Set.mem_insert_iff, Set.mem_singleton_iff]
        omega
      · rw [← he]
        exact Set.mem_insert_of_mem _ rfl
  obtain ⟨htl, htu, hset, hml, hmu, hother, hdl⟩ := hfacts
  have h2 := h1.merge hk hld htl htu hml hmu
  rw [hset] at h2
  have h3 := h2.setOrder hkw (Set.mem_singleton l)
  rw [hs1.memoryStart] at h3
  refine ⟨_, l, _, rfl, h3, Tiling.mergeTile_lower tile l k, headerIs_setOrder hkw hdl,
    ⟨hs1.memoryStart, hs1.memorySize⟩, ?_, fun hc => hc.erase _ _⟩
  intro x j hx hxl
  rcases Tiling.mergeTile_cases hx with ⟨e, _⟩ | ⟨_, hxu, hx⟩
  · exact absurd e hxl
  · exact ⟨hx, hother x hxl hxu⟩

/-- **`coalesce_block`** puts the block in hand, joined with every buddy it
found, on a free list, and reads only headers of real blocks on the way. -/
theorem coalesceBlock_inv : ∀ (fuel : Nat) {z : BuddyZone} {o k : Nat} {tile : Nat → Option Nat}
    {free : Nat → List Nat}, ZoneInv z live {o} n tile free → z.memorySize = minBlockSize * n →
    tile o = some k → k + fuel = maxOrder →
    HeaderIs (z.header (zonePage z.memoryStart o)) k 0 →
    (∃ tile' free', ZoneInv (coalesceBlock fuel z (zonePage z.memoryStart o) k) live ∅ n
        tile' free' ∧ SameZone z (coalesceBlock fuel z (zonePage z.memoryStart o) k) ∧
        (z.memoryStart + z.memorySize < wordSize → Coalesced z.memoryStart free →
          Coalesced z.memoryStart free')) ∧
      ∀ r ∈ coalesceReads fuel z (zonePage z.memoryStart o) k, RealRead z live tile o r
  | 0, z, o, k, tile, free, h, hn, ho, hk, hd => by
      have h1 := h.put ho (Set.mem_singleton o) hd
      rw [Set.sdiff_self] at h1
      have hb := sameBounds_addToFreeList z (zonePage z.memoryStart o) k
      refine ⟨⟨tile, _, h1, ⟨hb.memoryStart, hb.memorySize⟩, fun _ hc => ?_⟩, fun r hr => nomatch hr⟩
      exact hc.put (h.tiling.aligned ho) (fun hlt => by omega)
  | fuel + 1, z, o, k, tile, free, h, hn, ho, hk, hd => by
      unfold coalesceBlock coalesceReads
      cases hf : z.findBuddy (zonePage z.memoryStart o) k with
      | none =>
          have h1 := h.put ho (Set.mem_singleton o) hd
          rw [Set.sdiff_self] at h1
          have hb := sameBounds_addToFreeList z (zonePage z.memoryStart o) k
          refine ⟨⟨tile, _, h1, ⟨hb.memoryStart, hb.memorySize⟩, fun hend hc => ?_⟩, fun r hr => ?_⟩
          · exact hc.put (h.tiling.aligned ho) (fun _ => findBuddy_none h hn ho hend hf)
          · rw [List.append_nil] at hr
            exact headerRead_real h hn ho hr
      | some buddy =>
          obtain ⟨z₁, l, free₁, hm, h1, ho1, hd1, hs1, hold, hco₁⟩ :=
            mergeBuddy_inv h hn ho (by omega) hd hf
          dsimp only
          rw [hm]
          dsimp only
          rw [← hs1.memoryStart] at hd1 ⊢
          obtain ⟨⟨tile', free', h2, hs2, hco₂⟩, hreads⟩ := coalesceBlock_inv fuel h1
            (hs1.memorySize.trans hn) ho1 (by omega) hd1
          refine ⟨⟨tile', free', h2, hs1.trans hs2, fun hend hc => ?_⟩, fun r hr => ?_⟩
          · rw [hs1.memoryStart] at hend hc hco₂ ⊢
            exact hco₂ (by rw [hs1.memorySize]; exact hend) (hco₁ hc)
          rcases List.mem_append.mp hr with hr | hr
          · rw [hs1.memoryStart] at hr
            exact headerRead_real h hn ho hr
          · obtain ⟨x, j, hx, hxl, ha, hrest⟩ := hreads r hr
            obtain ⟨hx', hxo⟩ := hold x j hx hxl
            exact ⟨x, j, hx', hxo, by rw [ha, hs1.memoryStart], hrest⟩

/-- The block behind a pointer that is out. -/
theorem sub32_ptr {a : Nat} (h : a < wordSize) : sub32 (a + sizeofBuddyBlock) sizeofBuddyBlock = a := by
  unfold sub32
  unfold sizeofBuddyBlock wordSize at *
  omega

/-- The checks of `free` and `free_order` pass for a block that is out. -/
theorem free_live_eq (h : ZoneInv z live ∅ n tile free)
    (hl : (zonePage z.memoryStart o, k) ∈ live) :
    z.free (zonePage z.memoryStart o + sizeofBuddyBlock) =
      coalesceBlock (maxOrder - k) { z.setAllocated (zonePage z.memoryStart o) 0 with
        allocatedBlocks := dec32 z.allocatedBlocks } (zonePage z.memoryStart o) k := by
  obtain ⟨o', he, ho, _, hd⟩ := h.live_block _ hl
  obtain rfl := zonePage_inj.mp he
  have hkm : k ≤ maxOrder := h.tiling.order_le ho
  have hne0 : zonePage z.memoryStart o + sizeofBuddyBlock ≠ 0 := by
    unfold sizeofBuddyBlock
    omega
  have hmagic : z.magic (zonePage z.memoryStart o) = buddyMagic := hd.magic
  have hflag : z.allocated (zonePage z.memoryStart o) = 1 := hd.allocated
  have horder : z.order (zonePage z.memoryStart o) = k := hd.order
  have hchk : ¬ (z.magic (zonePage z.memoryStart o) ≠ buddyMagic ∨
      z.allocated (zonePage z.memoryStart o) = 0) := by
    rw [hmagic, hflag]
    decide
  unfold BuddyZone.free freeOrder
  dsimp only
  rw [if_neg hne0, sub32_ptr (h.zonePage_lt ho), if_neg hchk, horder, if_neg (by omega)]
  rfl

/-- A block that is out, taken back: it is in hand, with a true header. -/
theorem ZoneInv.released (h : ZoneInv z live ∅ n tile free)
    (hl : (zonePage z.memoryStart o, k) ∈ live) :
    tile o = some k ∧
      ZoneInv { z.setAllocated (zonePage z.memoryStart o) 0 with
        allocatedBlocks := dec32 z.allocatedBlocks }
        (live.erase (zonePage z.memoryStart o, k)) {o} n tile free ∧
      HeaderIs ((z.setAllocated (zonePage z.memoryStart o) 0).header
        (zonePage z.memoryStart o)) k 0 := by
  obtain ⟨o', he, ho, _, hd⟩ := h.live_block _ hl
  obtain rfl := zonePage_inj.mp he
  have h1 := h.release hl
  rw [LawfulSingleton.insert_empty_eq] at h1
  refine ⟨ho, h1, ?_⟩
  rw [header_setAllocated (Or.inl rfl), if_pos rfl]
  exact ⟨hd.order, hd.magic, rfl⟩

/-- **`free`** of a block that is out. -/
theorem free_inv (h : ZoneInv z live ∅ n tile free) (hn : z.memorySize = minBlockSize * n)
    (hl : (zonePage z.memoryStart o, k) ∈ live) :
    (∃ tile' free', ZoneInv (z.free (zonePage z.memoryStart o + sizeofBuddyBlock))
        (live.erase (zonePage z.memoryStart o, k)) ∅ n tile' free' ∧
      SameZone z (z.free (zonePage z.memoryStart o + sizeofBuddyBlock)) ∧
      (z.memoryStart + z.memorySize < wordSize → Coalesced z.memoryStart free →
        Coalesced z.memoryStart free')) ∧
    ∀ r ∈ z.freeReads (zonePage z.memoryStart o + sizeofBuddyBlock),
      RealRead z (live.erase (zonePage z.memoryStart o, k)) tile o r := by
  obtain ⟨ho, h1, hd1⟩ := h.released hl
  have hkm : k ≤ maxOrder := h.tiling.order_le ho
  have hreads : z.freeReads (zonePage z.memoryStart o + sizeofBuddyBlock) =
      coalesceReads (maxOrder - k) { z.setAllocated (zonePage z.memoryStart o) 0 with
        allocatedBlocks := dec32 z.allocatedBlocks } (zonePage z.memoryStart o) k := by
    obtain ⟨_, _, _, _, hd⟩ := h.live_block _ hl
    have horder : z.order (zonePage z.memoryStart o) = k := hd.order
    unfold freeReads
    dsimp only
    rw [sub32_ptr (h.zonePage_lt ho), horder]
    rfl
  obtain ⟨⟨tile', free', h2, hs2, hco⟩, hr⟩ := coalesceBlock_inv (maxOrder - k) h1 hn ho
    (Nat.add_sub_cancel' hkm) hd1
  rw [free_live_eq h hl, hreads]
  exact ⟨⟨tile', free', h2, ⟨hs2.memoryStart, hs2.memorySize⟩, hco⟩, hr⟩

/-! ## Client writes -/

/-- A store into the payload of a block that is out touches no header. -/
theorem write_inv (h : ZoneInv z live ∅ n tile free) {b : Nat × Nat} (hb : b ∈ live) {a : Nat}
    (h1 : b.1 + sizeofBuddyBlock ≤ a) (h2 : a < b.1 + blockSize b.2) (byte : UInt8) :
    ZoneInv { z with mem := z.mem.store8 a byte } live ∅ n tile free := by
  obtain ⟨x, hx, htx, _, _⟩ := h.live_block b hb
  refine h.frame ⟨rfl, rfl, rfl⟩ rfl rfl (fun o k ho _ => ?_)
  refine header_congr (fun c hc1 hc2 => Memory.store8_eq_of_ne ?_)
  rintro rfl
  rw [hx] at h1 h2
  have hsize : zonePage z.memoryStart x + blockSize b.2 = zonePage z.memoryStart (x + 2 ^ b.2) :=
    (zonePage_add _ _ _).symm
  rw [hsize] at h2
  -- the header lies before the payload, in it only if blocks overlap, or after it
  rcases Nat.lt_trichotomy o x with hlt | rfl | hgt
  · unfold zonePage minBlockSize sizeofBuddyBlock at *
    omega
  · omega
  · have := h.tiling.disjoint htx ho hgt
    unfold zonePage minBlockSize at *
    omega

end KmOS
