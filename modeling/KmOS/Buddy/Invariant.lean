/-
# `KmOS.Buddy.Invariant` — the zone as a dyadic tiling

Page `o` of the zone is at `zonePage start o`.  `ZoneInv z live held n tile
free` says that the first `n` pages are tiled by `tile`, that every block of
the tiling is on its free list or in `live`, and that headers, links and
counters all say so.

In the middle of an operation a block is sometimes in neither place: it has
been taken off its list and not yet handed out, or given back and not yet put
on a list.  Such blocks are `held`.  Nothing is asked of a held block's header,
so the two rearrangements of the tiling (a held block split in two, two held
buddies joined) change no memory at all and are stated for the same zone.  What
the source does to a held header in between is covered by one frame lemma.
-/
import KmOS.Buddy.Header
import KmOS.Lib.Dll
import KmOS.Lib.Dyadic
import Mathlib.Data.Set.Insert

namespace KmOS

/-- The address of page `o` of a zone. -/
def zonePage (start o : Nat) : Nat := start + minBlockSize * o

theorem zonePage_inj {start o o' : Nat} : zonePage start o = zonePage start o' ↔ o = o' := by
  unfold zonePage minBlockSize
  omega

theorem sep_zonePage (start o o' : Nat) : Sep (zonePage start o) (zonePage start o') := by
  unfold Sep zonePage minBlockSize sizeofBuddyBlock
  omega

theorem zonePage_add (start o k : Nat) :
    zonePage start (o + 2 ^ k) = zonePage start o + blockSize k := by
  unfold zonePage blockSize minBlockSize
  ring

/-- Counting one fewer. -/
theorem dec32_mod {x : Nat} (h : 0 < x) : dec32 (x % wordSize) = (x - 1) % wordSize := by
  unfold dec32 wordSize
  split <;> omega

/-- A header that tells the truth about a block. -/
structure HeaderIs (h : BuddyBlock) (k : Nat) (flag : UInt8) : Prop where
  order : h.order = k
  magic : h.magic = buddyMagic
  allocated : h.allocated = flag

/-- The invariant, with the blocks of `held` in neither place. -/
structure ZoneInv (z : BuddyZone) (live : List (Nat × Nat)) (held : Set Nat) (n : Nat)
    (tile : Nat → Option Nat) (free : Nat → List Nat) : Prop where
  start_ne : z.memoryStart ≠ 0
  room : z.memoryStart + minBlockSize * n ≤ wordSize
  tiling : Tiling maxOrder n tile
  live_block : ∀ b ∈ live, ∃ o, b.1 = zonePage z.memoryStart o ∧ tile o = some b.2 ∧ o ∉ held ∧
    HeaderIs (z.header b.1) b.2 1
  live_nodup : live.Nodup
  mem_free : ∀ {k a}, a ∈ free k ↔ ∃ o, a = zonePage z.memoryStart o ∧ tile o = some k ∧
    o ∉ held ∧ (a, k) ∉ live
  free_header : ∀ {k a}, a ∈ free k → HeaderIs (z.header a) k 0
  free_nodup : ∀ k, (free k).Nodup
  links : ∀ k, Dll 0 z.next z.prev 0 (z.freeLists k) (free k)
  count : ∀ k, z.freeBlocks k = (free k).length % wordSize
  total : z.allocatedBlocks = live.length % wordSize

namespace ZoneInv

variable {z z' : BuddyZone} {live : List (Nat × Nat)} {held : Set Nat} {n : Nat}
  {tile : Nat → Option Nat} {free : Nat → List Nat} {o k : Nat}

/-! ## Blocks and where they are -/

theorem zonePage_ne_zero (h : ZoneInv z live held n tile free) (o : Nat) :
    zonePage z.memoryStart o ≠ 0 := by
  have := h.start_ne
  unfold zonePage
  omega

theorem zonePage_lt (h : ZoneInv z live held n tile free) (ho : tile o = some k) :
    zonePage z.memoryStart o < wordSize := by
  have h1 := h.tiling.lt ho
  have h2 := h.room
  unfold zonePage minBlockSize at *
  omega

theorem order_lt (h : ZoneInv z live held n tile free) (ho : tile o = some k) : k < wordSize := by
  have : k ≤ 11 := h.tiling.order_le ho
  unfold wordSize
  omega

/-- The link out of a free block, if not null, is another free block. -/
theorem next_mem_free (h : ZoneInv z live held n tile free) {a : Nat} (ha : a ∈ free k)
    (hz : z.next a ≠ 0) : z.next a ∈ free k :=
  ((h.links k).next_mem ha).resolve_left hz

theorem prev_mem_free (h : ZoneInv z live held n tile free) {a : Nat} (ha : a ∈ free k)
    (hz : z.prev a ≠ 0) : z.prev a ∈ free k :=
  ((h.links k).prev_mem ha).resolve_left (fun e => hz e.2)

/-- The head of a non-empty list is on it. -/
theorem head_mem_free (h : ZoneInv z live held n tile free) (hz : z.freeLists k ≠ 0) :
    z.freeLists k ∈ free k := by
  obtain ⟨t, ht⟩ := (h.links k).exists_cons hz
  rw [ht]
  exact List.mem_cons_self

/-- A block is on the list of its own order only. -/
theorem free_order_unique (h : ZoneInv z live held n tile free) {a k' : Nat} (ha : a ∈ free k)
    (ha' : a ∈ free k') : k = k' := by
  obtain ⟨o, he, ho, _⟩ := h.mem_free.mp ha
  obtain ⟨o', he', ho', _⟩ := h.mem_free.mp ha'
  obtain rfl := zonePage_inj.mp (he.symm.trans he')
  exact Option.some.inj (ho.symm.trans ho')

/-! ## The frame rule -/

/-- The invariant reads the headers of the blocks that are not held, and the
zone record. -/
theorem frame (h : ZoneInv z live held n tile free) (hb : BuddyZone.SameBounds z z')
    (hl : z'.freeLists = z.freeLists) (hc : z'.freeBlocks = z.freeBlocks)
    (hh : ∀ o k, tile o = some k → o ∉ held →
      z'.header (zonePage z.memoryStart o) = z.header (zonePage z.memoryStart o)) :
    ZoneInv z' live held n tile free := by
  have hfree : ∀ {k a}, a ∈ free k → z'.header a = z.header a := by
    intro k a ha
    obtain ⟨o, rfl, ho, hheld, _⟩ := h.mem_free.mp ha
    exact hh o k ho hheld
  refine
    { start_ne := by rw [hb.memoryStart]; exact h.start_ne
      room := by rw [hb.memoryStart]; exact h.room
      tiling := h.tiling
      live_block := ?_
      live_nodup := h.live_nodup
      mem_free := by rw [hb.memoryStart]; exact h.mem_free
      free_header := ?_
      free_nodup := h.free_nodup
      links := ?_
      count := by rw [hc]; exact h.count
      total := by rw [hb.allocatedBlocks]; exact h.total }
  · intro b hb'
    obtain ⟨o, he, ho, hheld, hhd⟩ := h.live_block b hb'
    refine ⟨o, by rw [hb.memoryStart]; exact he, ho, hheld, ?_⟩
    rw [he, hh o b.2 ho hheld, ← he]
    exact hhd
  · intro k a ha
    rw [hfree ha]
    exact h.free_header ha
  · intro k
    rw [hl]
    refine (h.links k).congr (fun a ha => ?_)
    have := hfree ha
    exact ⟨congrArg BuddyBlock.next this, congrArg BuddyBlock.prev this⟩

/-- A store into the header of a held block, or where no block starts, is
invisible. -/
theorem frame_header (h : ZoneInv z live held n tile free) {p : Nat}
    (hb : BuddyZone.SameBounds z z') (hl : z'.freeLists = z.freeLists)
    (hc : z'.freeBlocks = z.freeBlocks) (hp : p ∈ held ∨ tile p = none)
    (hh : ∀ o, o ≠ p →
      z'.header (zonePage z.memoryStart o) = z.header (zonePage z.memoryStart o)) :
    ZoneInv z' live held n tile free := by
  refine h.frame hb hl hc (fun o k ho hheld => hh o ?_)
  rintro rfl
  rcases hp with hp | hp
  · exact hheld hp
  · rw [hp] at ho
    exact nomatch ho

/-! ## Rearranging held blocks

None of these steps touches the zone. -/

/-- Another tiling with the same blocks outside the held ones. -/
theorem retile (h : ZoneInv z live held n tile free) {held' : Set Nat} {n' : Nat}
    {tile' : Nat → Option Nat} (hn : z.memoryStart + minBlockSize * n' ≤ wordSize)
    (ht : Tiling maxOrder n' tile')
    (hsame : ∀ {x j}, (tile x = some j ∧ x ∉ held) ↔ (tile' x = some j ∧ x ∉ held')) :
    ZoneInv z live held' n' tile' free := by
  refine
    { h with
      room := hn
      tiling := ht
      live_block := ?_
      mem_free := ?_ }
  · intro b hb
    obtain ⟨x, he, hx, hxh, hhd⟩ := h.live_block b hb
    obtain ⟨hx', hxh'⟩ := hsame.mp ⟨hx, hxh⟩
    exact ⟨x, he, hx', hxh', hhd⟩
  · intro j a
    rw [h.mem_free]
    constructor
    · rintro ⟨x, he, hx, hxh, hl⟩
      obtain ⟨hx', hxh'⟩ := hsame.mp ⟨hx, hxh⟩
      exact ⟨x, he, hx', hxh', hl⟩
    · rintro ⟨x, he, hx, hxh, hl⟩
      obtain ⟨hx', hxh'⟩ := hsame.mpr ⟨hx, hxh⟩
      exact ⟨x, he, hx', hxh', hl⟩

/-- **Splitting a held block.**  Both halves are held. -/
theorem split (h : ZoneInv z live held n tile free) (ho : tile o = some (k + 1)) (hh : o ∈ held) :
    ZoneInv z live (insert (o + 2 ^ k) held) n (splitTile tile o k) free := by
  have hpos : 0 < 2 ^ k := Nat.two_pow_pos k
  have hnone : tile (o + 2 ^ k) = none :=
    h.tiling.no_start_inside ho (by omega) (by rw [pow_succ]; omega)
  refine h.retile h.room (h.tiling.split ho) ?_
  intro x j
  constructor
  · rintro ⟨hx, hxh⟩
    have h1 : x ≠ o := fun e => hxh (e ▸ hh)
    have h2 : x ≠ o + 2 ^ k := by
      rintro rfl
      rw [hnone] at hx
      exact nomatch hx
    refine ⟨by rw [Tiling.splitTile_other h1 h2]; exact hx, ?_⟩
    rintro (e | e)
    · exact h2 e
    · exact hxh e
  · rintro ⟨hx, hxh⟩
    have hxh' : x ∉ held := fun e => hxh (Set.mem_insert_of_mem _ e)
    have h1 : x ≠ o := fun e => hxh' (e ▸ hh)
    have h2 : x ≠ o + 2 ^ k := fun e => hxh (e ▸ Set.mem_insert _ _)
    rw [Tiling.splitTile_other h1 h2] at hx
    exact ⟨hx, hxh'⟩

/-- **Joining two held buddies.** -/
theorem merge (h : ZoneInv z live held n tile free) (hk : k < maxOrder) (hd : 2 ^ (k + 1) ∣ o)
    (ho : tile o = some k) (hu : tile (o + 2 ^ k) = some k) (hh : o ∈ held)
    (hhu : o + 2 ^ k ∈ held) : ZoneInv z live (held \ {o + 2 ^ k}) n (mergeTile tile o k) free := by
  have hpos : 0 < 2 ^ k := Nat.two_pow_pos k
  refine h.retile h.room (h.tiling.merge hk hd ho hu) ?_
  intro x j
  constructor
  · rintro ⟨hx, hxh⟩
    have h1 : x ≠ o := fun e => hxh (e ▸ hh)
    have h2 : x ≠ o + 2 ^ k := fun e => hxh (e ▸ hhu)
    exact ⟨by rw [Tiling.mergeTile_other h1 h2]; exact hx, fun e => hxh e.1⟩
  · rintro ⟨hx, hxh⟩
    have h1 : x ≠ o := by
      rintro rfl
      exact hxh ⟨hh, fun e => absurd (Set.mem_singleton_iff.mp e) (by omega)⟩
    rcases Tiling.mergeTile_cases hx with ⟨e, _⟩ | ⟨_, h2, hx⟩
    · exact absurd e h1
    · exact ⟨hx, fun e => hxh ⟨e, h2⟩⟩

/-- **Laying a block** after the last one; it is held. -/
theorem extend (h : ZoneInv z live held n tile free) (hk : k ≤ maxOrder) (hd : 2 ^ k ∣ n)
    (hroom : z.memoryStart + minBlockSize * (n + 2 ^ k) ≤ wordSize) :
    ZoneInv z live (insert n held) (n + 2 ^ k) (Function.update tile n (some k)) free := by
  refine h.retile hroom (h.tiling.extend hk hd) ?_
  intro x j
  constructor
  · rintro ⟨hx, hxh⟩
    have hne : x ≠ n := Nat.ne_of_lt (h.tiling.lt hx)
    refine ⟨by rw [Function.update_of_ne hne]; exact hx, ?_⟩
    rintro (e | e)
    · exact hne e
    · exact hxh e
  · rintro ⟨hx, hxh⟩
    have hne : x ≠ n := fun e => hxh (e ▸ Set.mem_insert _ _)
    rw [Function.update_of_ne hne] at hx
    exact ⟨hx, fun e => hxh (Set.mem_insert_of_mem _ e)⟩

/-! ## Taking a block off its list -/

/-- What `remove_from_free_list` does to a header of the zone. -/
theorem header_take (h : ZoneInv z live held n tile free) {a : Nat} (ha : a ∈ free k) (x : Nat) :
    (z.removeFromFreeList a k).header (zonePage z.memoryStart x) =
      { z.header (zonePage z.memoryStart x) with
        next := if z.prev a ≠ 0 ∧ zonePage z.memoryStart x = z.prev a then z.next a
          else z.next (zonePage z.memoryStart x)
        prev := if z.next a ≠ 0 ∧ zonePage z.memoryStart x = z.next a then z.prev a
          else z.prev (zonePage z.memoryStart x) } := by
  have hpage : ∀ {b}, b ∈ free k → ∀ y, Sep b (zonePage z.memoryStart y) := by
    intro b hb y
    obtain ⟨p, rfl, _⟩ := h.mem_free.mp hb
    exact sep_zonePage _ _ _
  obtain ⟨p, hp, _⟩ := h.mem_free.mp ha
  apply BuddyZone.header_removeFromFreeList
  · exact fun hz => hpage (h.prev_mem_free ha hz) x
  · exact fun hz => hpage (h.next_mem_free ha hz) x
  · intro hz
    rw [hp]
    exact hpage (by rw [← hp]; exact h.prev_mem_free ha hz) p
  · exact (h.links k).prev_ne (h.free_nodup k) ha (fun e => (h.links k).ne_null a ha e)

/-- What is on the lists once `a` is off its list. -/
theorem mem_taken (h : ZoneInv z live held n tile free) {a : Nat} (ha : a ∈ free k) {j b : Nat} :
    b ∈ Function.update free k ((free k).erase a) j ↔ b ∈ free j ∧ b ≠ a := by
  by_cases hj : j = k
  · subst hj
    rw [Function.update_self, (h.free_nodup j).mem_erase_iff, and_comm]
  · rw [Function.update_of_ne hj]
    refine ⟨fun hbf => ⟨hbf, ?_⟩, fun hbf => hbf.1⟩
    rintro rfl
    exact hj (h.free_order_unique hbf ha)

/-- The lists once `a` is off its list. -/
theorem links_take (h : ZoneInv z live held n tile free) {a : Nat} (ha : a ∈ free k) (j : Nat) :
    Dll 0 (z.removeFromFreeList a k).next (z.removeFromFreeList a k).prev 0
      ((z.removeFromFreeList a k).freeLists j) (Function.update free k ((free k).erase a) j) := by
  have hhd := h.header_take ha
  have hnx : ∀ x, (z.removeFromFreeList a k).next (zonePage z.memoryStart x) = _ :=
    fun x => congrArg BuddyBlock.next (hhd x)
  have hpx : ∀ x, (z.removeFromFreeList a k).prev (zonePage z.memoryStart x) = _ :=
    fun x => congrArg BuddyBlock.prev (hhd x)
  rw [BuddyZone.freeLists_removeFromFreeList]
  by_cases hj : j = k
  · subst hj
    rw [Function.update_self]
    have hu : Dll.Unlinked 0 z.next z.prev (z.removeFromFreeList a j).next
        (z.removeFromFreeList a j).prev a (free j) := by
      refine ⟨fun hz => ?_, fun b hbf hne => ?_, fun hz => ?_, fun b hbf hne => ?_⟩
      · obtain ⟨x, hx, _⟩ := h.mem_free.mp (h.prev_mem_free ha hz)
        rw [hx, hnx x]
        simp only [if_pos (And.intro hz hx.symm)]
      · obtain ⟨x, rfl, _⟩ := h.mem_free.mp hbf
        rw [hnx x]
        simp only [if_neg (fun e : _ ∧ _ => hne e.2)]
      · obtain ⟨x, hx, _⟩ := h.mem_free.mp (h.next_mem_free ha hz)
        rw [hx, hpx x]
        simp only [if_pos (And.intro hz hx.symm)]
      · obtain ⟨x, rfl, _⟩ := h.mem_free.mp hbf
        rw [hpx x]
        simp only [if_neg (fun e : _ ∧ _ => hne e.2)]
    have := (h.links j).unlink (h.free_nodup j) ha hu
    split at this
    · next hz =>
        rw [if_pos hz, Function.update_self]
        exact this
    · next hz =>
        rw [if_neg hz]
        exact this
  · rw [Function.update_of_ne hj]
    have hlist : (if z.prev a = 0 then Function.update z.freeLists k (z.next a)
        else z.freeLists) j = z.freeLists j := by
      split
      · rw [Function.update_of_ne hj]
      · rfl
    rw [hlist]
    refine (h.links j).congr (fun b hbf => ?_)
    obtain ⟨x, rfl, _⟩ := h.mem_free.mp hbf
    constructor
    · rw [hnx x]
      refine if_neg (fun e => hj ?_)
      exact h.free_order_unique hbf (e.2 ▸ h.prev_mem_free ha e.1)
    · rw [hpx x]
      refine if_neg (fun e => hj ?_)
      exact h.free_order_unique hbf (e.2 ▸ h.next_mem_free ha e.1)

/-- **`remove_from_free_list`** on a free block: the block is held. -/
theorem take (h : ZoneInv z live held n tile free) (ho : tile o = some k) (hh : o ∉ held)
    (hl : (zonePage z.memoryStart o, k) ∉ live) :
    ZoneInv (z.removeFromFreeList (zonePage z.memoryStart o) k) live (insert o held) n tile
      (Function.update free k ((free k).erase (zonePage z.memoryStart o))) := by
  have ha : zonePage z.memoryStart o ∈ free k := h.mem_free.mpr ⟨o, rfl, ho, hh, hl⟩
  generalize hadef : zonePage z.memoryStart o = a at ha hl ⊢
  have hb := BuddyZone.sameBounds_removeFromFreeList z a k
  have hhd := h.header_take ha
  have hkeep : ∀ {x j f}, HeaderIs (z.header (zonePage z.memoryStart x)) j f →
      HeaderIs ((z.removeFromFreeList a k).header (zonePage z.memoryStart x)) j f := by
    intro x j f hx
    rw [hhd x]
    exact ⟨hx.order, hx.magic, hx.allocated⟩
  refine
    { start_ne := by rw [hb.memoryStart]; exact h.start_ne
      room := by rw [hb.memoryStart]; exact h.room
      tiling := h.tiling
      live_block := ?_
      live_nodup := h.live_nodup
      mem_free := ?_
      free_header := ?_
      free_nodup := ?_
      links := h.links_take ha
      count := ?_
      total := by rw [hb.allocatedBlocks]; exact h.total }
  · intro b hbl
    obtain ⟨x, he, hx, hxh, hxd⟩ := h.live_block b hbl
    refine ⟨x, by rw [hb.memoryStart]; exact he, hx, ?_, ?_⟩
    · rintro (e | e)
      · subst e
        rw [ho] at hx
        exact hl (by rw [← hadef, ← he, Option.some.inj hx]; exact hbl)
      · exact hxh e
    · rw [he] at hxd ⊢
      exact hkeep hxd
  · intro j b
    rw [hb.memoryStart]
    rw [h.mem_taken ha, h.mem_free]
    constructor
    · rintro ⟨⟨x, he, hx, hxh, hxl⟩, hne⟩
      refine ⟨x, he, hx, ?_, hxl⟩
      rintro (e | e)
      · exact hne (by rw [he, e, hadef])
      · exact hxh e
    · rintro ⟨x, he, hx, hxh, hxl⟩
      refine ⟨⟨x, he, hx, fun e => hxh (Set.mem_insert_of_mem _ e), hxl⟩, ?_⟩
      intro e
      have hxo : x = o := zonePage_inj.mp (he.symm.trans (e.trans hadef.symm))
      exact hxh (hxo ▸ Set.mem_insert _ _)
  · intro j b hbj
    have hbf := ((h.mem_taken ha).mp hbj).1
    obtain ⟨x, rfl, _⟩ := h.mem_free.mp hbf
    exact hkeep (h.free_header hbf)
  · intro j
    by_cases hj : j = k
    · subst hj
      rw [Function.update_self]
      exact (h.free_nodup j).erase _
    · rw [Function.update_of_ne hj]
      exact h.free_nodup j
  · intro j
    rw [BuddyZone.freeBlocks_removeFromFreeList]
    by_cases hj : j = k
    · subst hj
      have hpos := List.length_pos_of_mem ha
      rw [Function.update_self, Function.update_self, h.count j, List.length_erase_of_mem ha]
      exact dec32_mod hpos
    · rw [Function.update_of_ne hj, Function.update_of_ne hj]
      exact h.count j

/-! ## Putting a block on its list -/

/-- A held block is not handed out. -/
theorem not_live_of_held (h : ZoneInv z live held n tile free) (hh : o ∈ held) (k : Nat) :
    (zonePage z.memoryStart o, k) ∉ live := by
  intro hl
  obtain ⟨x, he, _, hxh, _⟩ := h.live_block _ hl
  rw [zonePage_inj.mp he] at hh
  exact hxh hh

/-- A held block is on no list. -/
theorem not_free_of_held (h : ZoneInv z live held n tile free) (hh : o ∈ held) (k : Nat) :
    zonePage z.memoryStart o ∉ free k := by
  intro hf
  obtain ⟨x, he, _, hxh, _⟩ := h.mem_free.mp hf
  rw [zonePage_inj.mp he] at hh
  exact hxh hh

/-- The head pointer of a list is null or a page, and never a held block. -/
theorem head_lt (h : ZoneInv z live held n tile free) (k : Nat) : z.freeLists k < wordSize := by
  by_cases hz : z.freeLists k = 0
  · rw [hz]
    decide
  · obtain ⟨x, he, hx, _⟩ := h.mem_free.mp (h.head_mem_free hz)
    rw [he]
    exact h.zonePage_lt hx

theorem head_ne_held (h : ZoneInv z live held n tile free) (hh : o ∈ held) (k : Nat) :
    z.freeLists k ≠ zonePage z.memoryStart o := by
  intro e
  have hz : z.freeLists k ≠ 0 := by
    rw [e]
    exact h.zonePage_ne_zero o
  exact h.not_free_of_held hh k (e ▸ h.head_mem_free hz)

/-- What `add_to_free_list` does to a header of the zone. -/
theorem header_put (h : ZoneInv z live held n tile free) (ho : tile o = some k) (hh : o ∈ held)
    (x : Nat) :
    (z.addToFreeList (zonePage z.memoryStart o) k).header (zonePage z.memoryStart x) =
      if x = o then { z.header (zonePage z.memoryStart x) with next := z.freeLists k, prev := 0 }
      else if z.freeLists k ≠ 0 ∧ zonePage z.memoryStart x = z.freeLists k then
        { z.header (zonePage z.memoryStart x) with prev := zonePage z.memoryStart o }
      else z.header (zonePage z.memoryStart x) := by
  rw [BuddyZone.header_addToFreeList (sep_zonePage _ _ _) _ (h.head_ne_held hh k)
    (h.zonePage_lt ho) (h.head_lt k)]
  · simp only [zonePage_inj]
  · intro hz
    obtain ⟨y, hy, _⟩ := h.mem_free.mp (h.head_mem_free hz)
    rw [hy]
    exact sep_zonePage _ _ _

/-- `add_to_free_list` keeps what headers say about their blocks. -/
theorem headerIs_put (h : ZoneInv z live held n tile free) (ho : tile o = some k) (hh : o ∈ held)
    {x j : Nat} {f : UInt8} (hx : HeaderIs (z.header (zonePage z.memoryStart x)) j f) :
    HeaderIs ((z.addToFreeList (zonePage z.memoryStart o) k).header
      (zonePage z.memoryStart x)) j f := by
  rw [h.header_put ho hh x]
  split
  · exact ⟨hx.order, hx.magic, hx.allocated⟩
  · split
    · exact ⟨hx.order, hx.magic, hx.allocated⟩
    · exact hx

/-- The free lists after the block was put on one of them. -/
theorem links_put (h : ZoneInv z live held n tile free) (ho : tile o = some k) (hh : o ∈ held)
    (j : Nat) :
    Dll 0 (z.addToFreeList (zonePage z.memoryStart o) k).next
      (z.addToFreeList (zonePage z.memoryStart o) k).prev 0
      (Function.update z.freeLists k (zonePage z.memoryStart o) j)
      (Function.update free k (zonePage z.memoryStart o :: free k) j) := by
  have hhd := h.header_put ho hh
  have hnx : ∀ x, (z.addToFreeList (zonePage z.memoryStart o) k).next (zonePage z.memoryStart x) =
      if x = o then z.freeLists k else z.next (zonePage z.memoryStart x) := by
    intro x
    have := congrArg BuddyBlock.next (hhd x)
    rw [apply_ite BuddyBlock.next, apply_ite BuddyBlock.next, ite_self] at this
    exact this
  have hpx : ∀ x, x ≠ o → zonePage z.memoryStart x ≠ z.freeLists k →
      (z.addToFreeList (zonePage z.memoryStart o) k).prev (zonePage z.memoryStart x) =
        z.prev (zonePage z.memoryStart x) := by
    intro x hxo hne
    have := congrArg BuddyBlock.prev (hhd x)
    rw [if_neg hxo, if_neg (fun e : _ ∧ _ => hne e.2)] at this
    exact this
  -- a listed block is not the held one
  have hout : ∀ {x i}, zonePage z.memoryStart x ∈ free i → x ≠ o := by
    rintro x i hx rfl
    exact h.not_free_of_held hh i hx
  by_cases hj : j = k
  · subst hj
    rw [Function.update_self, Function.update_self]
    refine (h.links j).push (h.free_nodup j) (h.zonePage_ne_zero o) ?_ ?_ ?_ ?_
    · rw [hnx o, if_pos rfl]
    · have := congrArg BuddyBlock.prev (hhd o)
      rwa [if_pos rfl] at this
    · intro hz
      obtain ⟨y, hy, _⟩ := h.mem_free.mp (h.head_mem_free hz)
      have hyo : y ≠ o := hout (hy ▸ h.head_mem_free hz)
      have := congrArg BuddyBlock.prev (hhd y)
      rw [if_neg hyo, if_pos (And.intro hz hy.symm)] at this
      rw [hy]
      exact this
    · intro b hb
      obtain ⟨x, rfl, _⟩ := h.mem_free.mp hb
      have hxo := hout hb
      exact ⟨by rw [hnx x, if_neg hxo], fun hne => hpx x hxo hne⟩
  · rw [Function.update_of_ne hj, Function.update_of_ne hj]
    refine (h.links j).congr (fun b hb => ?_)
    obtain ⟨x, rfl, _⟩ := h.mem_free.mp hb
    have hxo := hout hb
    refine ⟨by rw [hnx x, if_neg hxo], hpx x hxo (fun e => hj ?_)⟩
    have hz : z.freeLists k ≠ 0 := by
      rw [← e]
      exact h.zonePage_ne_zero x
    exact h.free_order_unique hb (e ▸ h.head_mem_free hz)

/-- **`add_to_free_list`** on a held block with a true header. -/
theorem put (h : ZoneInv z live held n tile free) (ho : tile o = some k) (hh : o ∈ held)
    (hd : HeaderIs (z.header (zonePage z.memoryStart o)) k 0) :
    ZoneInv (z.addToFreeList (zonePage z.memoryStart o) k) live (held \ {o}) n tile
      (Function.update free k (zonePage z.memoryStart o :: free k)) := by
  have hb := BuddyZone.sameBounds_addToFreeList z (zonePage z.memoryStart o) k
  have hmem : ∀ {j b}, b ∈ Function.update free k (zonePage z.memoryStart o :: free k) j ↔
      (b = zonePage z.memoryStart o ∧ j = k) ∨ b ∈ free j := by
    intro j b
    by_cases hj : j = k
    · subst hj
      rw [Function.update_self, List.mem_cons]
      simp
    · rw [Function.update_of_ne hj]
      simp [hj]
  refine
    { start_ne := by rw [hb.memoryStart]; exact h.start_ne
      room := by rw [hb.memoryStart]; exact h.room
      tiling := h.tiling
      live_block := ?_
      live_nodup := h.live_nodup
      mem_free := ?_
      free_header := ?_
      free_nodup := ?_
      links := ?_
      count := ?_
      total := by rw [hb.allocatedBlocks]; exact h.total }
  · intro b hbl
    obtain ⟨x, he, hx, hxh, hxd⟩ := h.live_block b hbl
    refine ⟨x, by rw [hb.memoryStart]; exact he, hx, fun e => hxh e.1, ?_⟩
    rw [he] at hxd ⊢
    exact h.headerIs_put ho hh hxd
  · intro j b
    rw [hb.memoryStart, hmem, h.mem_free]
    constructor
    · rintro (⟨rfl, rfl⟩ | ⟨x, he, hx, hxh, hxl⟩)
      · exact ⟨o, rfl, ho, fun e => e.2 rfl, h.not_live_of_held hh j⟩
      · exact ⟨x, he, hx, fun e => hxh e.1, hxl⟩
    · rintro ⟨x, he, hx, hxh, hxl⟩
      by_cases hxo : x = o
      · subst hxo
        exact Or.inl ⟨he, Option.some.inj (hx.symm.trans ho)⟩
      · exact Or.inr ⟨x, he, hx, fun e => hxh ⟨e, hxo⟩, hxl⟩
  · intro j b hbj
    rcases hmem.mp hbj with ⟨rfl, rfl⟩ | hbf
    · exact h.headerIs_put ho hh hd
    · obtain ⟨x, rfl, _⟩ := h.mem_free.mp hbf
      exact h.headerIs_put ho hh (h.free_header hbf)
  · intro j
    by_cases hj : j = k
    · subst hj
      rw [Function.update_self]
      exact List.nodup_cons.mpr ⟨h.not_free_of_held hh j, h.free_nodup j⟩
    · rw [Function.update_of_ne hj]
      exact h.free_nodup j
  · intro j
    rw [BuddyZone.freeLists_addToFreeList]
    exact h.links_put ho hh j
  · intro j
    rw [BuddyZone.freeBlocks_addToFreeList]
    by_cases hj : j = k
    · subst hj
      rw [Function.update_self, Function.update_self, h.count j, List.length_cons]
      unfold inc32 wordSize
      omega
    · rw [Function.update_of_ne hj, Function.update_of_ne hj]
      exact h.count j

/-! ## Handing a block out and taking it back -/

/-- **Handing out** a held block: its flag is set and it is counted. -/
theorem grant (h : ZoneInv z live held n tile free) (ho : tile o = some k) (hh : o ∈ held)
    (hd : HeaderIs (z.header (zonePage z.memoryStart o)) k 0) :
    ZoneInv { z.setAllocated (zonePage z.memoryStart o) 1 with
        allocatedBlocks := inc32 z.allocatedBlocks }
      ((zonePage z.memoryStart o, k) :: live) (held \ {o}) n tile free := by
  have hset : ∀ x, (z.setAllocated (zonePage z.memoryStart o) 1).header
      (zonePage z.memoryStart x) = if x = o then
        { z.header (zonePage z.memoryStart x) with allocated := 1 }
      else z.header (zonePage z.memoryStart x) := by
    intro x
    rw [BuddyZone.header_setAllocated (sep_zonePage _ _ _)]
    simp only [zonePage_inj]
  -- the flag is the only thing that changed, and only on the held block
  have hframe : ZoneInv (z.setAllocated (zonePage z.memoryStart o) 1) live held n tile free :=
    h.frame_header ⟨rfl, rfl, rfl⟩ rfl rfl (Or.inl hh) (fun x hx => by rw [hset x, if_neg hx])
  refine
    { start_ne := h.start_ne
      room := h.room
      tiling := h.tiling
      live_block := ?_
      live_nodup := List.nodup_cons.mpr ⟨h.not_live_of_held hh k, h.live_nodup⟩
      mem_free := ?_
      free_header := hframe.free_header
      free_nodup := h.free_nodup
      links := hframe.links
      count := h.count
      total := ?_ }
  · intro b hb
    rcases List.mem_cons.mp hb with rfl | hb
    · refine ⟨o, rfl, ho, fun e => e.2 rfl, ?_⟩
      have hnew := hset o
      rw [if_pos rfl] at hnew
      show HeaderIs ((z.setAllocated (zonePage z.memoryStart o) 1).header _) k 1
      rw [hnew]
      exact ⟨hd.order, hd.magic, rfl⟩
    · obtain ⟨x, he, hx, hxh, hxd⟩ := hframe.live_block b hb
      exact ⟨x, he, hx, fun e => hxh e.1, hxd⟩
  · intro j b
    rw [h.mem_free]
    constructor
    · rintro ⟨x, he, hx, hxh, hxl⟩
      refine ⟨x, he, hx, fun e => hxh e.1, ?_⟩
      rw [List.mem_cons, not_or]
      refine ⟨fun e => hxh ?_, hxl⟩
      rw [zonePage_inj.mp (he.symm.trans (congrArg Prod.fst e))]
      exact hh
    · rintro ⟨x, he, hx, hxh, hxl⟩
      rw [List.mem_cons, not_or] at hxl
      refine ⟨x, he, hx, fun e => hxh ⟨e, ?_⟩, hxl.2⟩
      rintro rfl
      exact hxl.1 (Prod.ext he (Option.some.inj (hx.symm.trans ho)))
  · show inc32 z.allocatedBlocks = _
    rw [h.total, List.length_cons]
    unfold inc32 wordSize
    omega

/-- **Taking back** a block that is out: its flag is cleared, it is no longer
counted, and it is held. -/
theorem release (h : ZoneInv z live held n tile free)
    (hl : (zonePage z.memoryStart o, k) ∈ live) :
    ZoneInv { z.setAllocated (zonePage z.memoryStart o) 0 with
        allocatedBlocks := dec32 z.allocatedBlocks }
      (live.erase (zonePage z.memoryStart o, k)) (insert o held) n tile free := by
  obtain ⟨o', he', ho, hh, _⟩ := h.live_block _ hl
  obtain rfl := zonePage_inj.mp he'
  have hset : ∀ x, x ≠ o → (z.setAllocated (zonePage z.memoryStart o) 0).header
      (zonePage z.memoryStart x) = z.header (zonePage z.memoryStart x) := by
    intro x hx
    rw [BuddyZone.header_setAllocated (sep_zonePage _ _ _),
      if_neg (fun e => hx (zonePage_inj.mp e))]
  -- a listed block is not the one that comes back
  have hfree : ∀ {j b}, b ∈ free j →
      (z.setAllocated (zonePage z.memoryStart o) 0).header b = z.header b := by
    intro j b hb
    obtain ⟨x, rfl, hx, hxh, hxl⟩ := h.mem_free.mp hb
    apply hset
    rintro rfl
    rw [Option.some.inj (hx.symm.trans ho)] at hxl
    exact hxl hl
  refine
    { start_ne := h.start_ne
      room := h.room
      tiling := h.tiling
      live_block := ?_
      live_nodup := h.live_nodup.erase _
      mem_free := ?_
      free_header := ?_
      free_nodup := h.free_nodup
      links := ?_
      count := h.count
      total := ?_ }
  · intro b hb
    obtain ⟨hne, hb⟩ := (h.live_nodup.mem_erase_iff).mp hb
    obtain ⟨x, he, hx, hxh, hxd⟩ := h.live_block b hb
    have hxo : x ≠ o := by
      rintro rfl
      exact hne (Prod.ext he (Option.some.inj (hx.symm.trans ho)))
    refine ⟨x, he, hx, ?_, ?_⟩
    · rintro (e | e)
      · exact hxo e
      · exact hxh e
    · show HeaderIs ((z.setAllocated (zonePage z.memoryStart o) 0).header b.1) b.2 1
      rw [he] at hxd ⊢
      rw [hset x hxo]
      exact hxd
  · intro j b
    rw [h.mem_free]
    constructor
    · rintro ⟨x, he, hx, hxh, hxl⟩
      refine ⟨x, he, hx, ?_, fun e => hxl (List.mem_of_mem_erase e)⟩
      rintro (e | e)
      · subst e
        rw [he, Option.some.inj (hx.symm.trans ho)] at hxl
        exact hxl hl
      · exact hxh e
    · rintro ⟨x, he, hx, hxh, hxl⟩
      refine ⟨x, he, hx, fun e => hxh (Set.mem_insert_of_mem _ e), fun e => hxl ?_⟩
      refine (h.live_nodup.mem_erase_iff).mpr ⟨?_, e⟩
      rintro e'
      have hxo := zonePage_inj.mp (he.symm.trans (congrArg Prod.fst e'))
      exact hxh (hxo ▸ Set.mem_insert _ _)
  · intro j b hb
    show HeaderIs ((z.setAllocated (zonePage z.memoryStart o) 0).header b) j 0
    rw [hfree hb]
    exact h.free_header hb
  · intro j
    refine (h.links j).congr (fun b hb => ?_)
    have := hfree hb
    exact ⟨congrArg BuddyBlock.next this, congrArg BuddyBlock.prev this⟩
  · have hpos := List.length_pos_of_mem hl
    show dec32 z.allocatedBlocks = _
    rw [h.total, List.length_erase_of_mem hl]
    exact dec32_mod hpos

end ZoneInv

end KmOS
