/-
# `KmOS.Unified.Contents` — what `krealloc` and `kcalloc` do to the bytes

Both build on `alloc`: `realloc` allocates a new block, copies and frees the old
one; `calloc` multiplies and asks for zeroed bytes.

**`realloc` knows the old size only from the debug table.**  With no record it
copies nothing and frees the old block all the same.  It copies what the client
stored exactly if the record is large enough, the length is not negative as an
`int`, and the new block does not start among the bytes to be copied
(`realloc_keeps_iff`).

**`calloc` divides by its first argument**, and hands `memset` a length that is
an `int`.  Its overflow check is exact (`calloc_total_iff`); the contract fails
for a count of 0 and for 2^31 bytes or more (`calloc_contract_iff`).

**What the sub-allocators write** is an input: `w` is what happens to the memory
inside a call of theirs.  They keep out of what is allocated (`Spares`).
-/
import KmOS.Lib.Copy
import KmOS.Unified.Routing

namespace KmOS

open UnifiedAllocator

/-! ## Memory -/

/-- `memset`. -/
def Memory.memset (m : Memory) (p : Nat) (v : UInt8) (n : Nat) : Memory :=
  m.fillLoop p v (intTurns n)

/-- `memcpy`. -/
def Memory.memcpy (m : Memory) (dest src n : Nat) : Memory := m.copyLoop dest src (intTurns n)

namespace UnifiedAllocator

/-- The memory after `alloc`. -/
def allocMem (u : UnifiedAllocator) (s : SubAllocators) (ans : Answers) (size flags : Nat)
    (w : Memory → Memory) (m : Memory) : Memory :=
  if size = 0 then m
  else
    let (_, _, p, _) := u.alloc s ans size flags
    if p ≠ 0 ∧ hasBit flags flagZero then (w m).memset p 0 size else w m

/-- The memory after `realloc`; `w` is what the sub-allocators write for the new
block, `w'` what they write when the old one is freed. -/
def reallocMem (u : UnifiedAllocator) (s : SubAllocators) (ans : Answers) (p newSize : Nat)
    (w w' : Memory → Memory) (m : Memory) : Memory :=
  let (_, _, q, copySize) := u.realloc s ans p newSize
  if p = 0 then u.allocMem s ans newSize 0 w m
  else if newSize = 0 then w' m
  else if q = 0 then u.allocMem s ans newSize 0 w m
  else w' ((u.allocMem s ans newSize 0 w m).memcpy q p copySize)

/-- The memory after `calloc`. -/
def callocMem (u : UnifiedAllocator) (s : SubAllocators) (ans : Answers) (count size : Nat)
    (w : Memory → Memory) (m : Memory) : Memory :=
  let totalSize := count * size % 4294967296
  if totalSize / count ≠ size then m else u.allocMem s ans totalSize flagZero w m

end UnifiedAllocator

/-- The `n` bytes at `p` are left alone. -/
def Spares (w : Memory → Memory) (p n : Nat) : Prop :=
  ∀ m, ∀ i < n, w m (offset32 p i) = m (offset32 p i)

variable {u u' : UnifiedAllocator} {s s' : SubAllocators} {ans : Answers}
  {p q size oldSize newSize flags n : Nat} {w : Memory → Memory} {m : Memory}

/-! ## The pointer `alloc` returns -/

/-- The sub-allocators' answer to a request. -/
def UnifiedAllocator.answer (u : UnifiedAllocator) (s : SubAllocators) (ans : Answers)
    (size flags : Nat) : Nat :=
  (internalAlloc s ans size (u.selectAllocator size flags)).2.1

theorem alloc_pointer (hs : size ≠ 0) : (u.alloc s ans size flags).2.2.1 = u.answer s ans size flags := by
  unfold UnifiedAllocator.alloc answer
  rw [if_neg hs]
  dsimp only
  split
  · next hz => exact hz.symm
  · rfl

/-- A refused request changes nothing. -/
theorem alloc_refused (hs : size ≠ 0) (h : u.answer s ans size flags = 0) :
    (u.alloc s ans size flags).1 = u ∧ (u.alloc s ans size flags).2.1 = s := by
  have hsub := internalAlloc_served s ans size (u.selectAllocator size flags)
  unfold answer at h
  unfold UnifiedAllocator.alloc
  rw [if_neg hs]
  dsimp only
  rw [if_pos h]
  rcases hsub with ⟨_, he⟩ | ⟨hne, _⟩
  · exact ⟨rfl, he⟩
  · exact absurd h hne

/-! ## `realloc` -/

/-- The size `realloc` takes the old block to have. -/
def UnifiedAllocator.recordedSize (u : UnifiedAllocator) (p : Nat) : Nat :=
  match u.findAllocation p with
  | some m => m.size
  | none => 0

theorem realloc_refused (hp : p ≠ 0) (hn : newSize ≠ 0) (h : u.answer s ans newSize 0 = 0) :
    u.realloc s ans p newSize = (u, s, 0, 0) := by
  obtain ⟨hu, hs⟩ := alloc_refused hn h
  have hq := (alloc_pointer hn).trans h
  unfold UnifiedAllocator.realloc
  rw [if_neg hp, if_neg hn]
  dsimp only
  rw [if_pos hq, hu, hs]

theorem realloc_served (hp : p ≠ 0) (hn : newSize ≠ 0) (h : u.answer s ans newSize 0 ≠ 0) :
    (u.realloc s ans p newSize).2.2 =
      (u.answer s ans newSize 0, min (u.recordedSize p) newSize) := by
  have hq : (u.alloc s ans newSize 0).2.2.1 = u.answer s ans newSize 0 := alloc_pointer hn
  unfold UnifiedAllocator.realloc
  rw [if_neg hp, if_neg hn]
  dsimp only
  rw [if_neg (hq.trans_ne h), hq]
  rfl

theorem allocMem_plain (hs : size ≠ 0) : u.allocMem s ans size 0 w m = w m := by
  have hz : hasBit 0 flagZero = false := rfl
  unfold allocMem
  rw [if_neg hs]
  dsimp only
  rw [hz, if_neg (fun h => Bool.false_ne_true h.2)]

theorem reallocMem_refused {w' : Memory → Memory} (hp : p ≠ 0) (hn : newSize ≠ 0)
    (h : u.answer s ans newSize 0 = 0) : u.reallocMem s ans p newSize w w' m = w m := by
  unfold reallocMem
  rw [realloc_refused hp hn h]
  dsimp only
  rw [if_neg hp, if_neg hn, if_pos rfl, allocMem_plain hn]

theorem reallocMem_served {w' : Memory → Memory} (hp : p ≠ 0) (hn : newSize ≠ 0)
    (h : u.answer s ans newSize 0 ≠ 0) :
    u.reallocMem s ans p newSize w w' m =
      w' ((w m).memcpy (u.answer s ans newSize 0) p (min (u.recordedSize p) newSize)) := by
  have he := realloc_served hp hn h
  unfold reallocMem
  dsimp only
  rw [congrArg Prod.fst he, congrArg Prod.snd he, if_neg hp, if_neg hn, if_neg h, allocMem_plain hn]

/-- **`realloc` keeps the data** of the `oldSize` bytes at `p`: the bytes both
blocks have are at the new pointer, and after a refusal all is as it was.  For
all contents, and whatever the sub-allocators write outside what is allocated. -/
def ReallocKeeps (u : UnifiedAllocator) (s : SubAllocators) (ans : Answers)
    (p oldSize newSize : Nat) : Prop :=
  ∀ (w w' : Memory → Memory) (m : Memory), Spares w p oldSize →
    ((u.realloc s ans p newSize).2.2.1 ≠ 0 →
      Spares w' (u.realloc s ans p newSize).2.2.1 newSize →
      ∀ i < min oldSize newSize,
        u.reallocMem s ans p newSize w w' m (offset32 (u.realloc s ans p newSize).2.2.1 i) =
          m (offset32 p i)) ∧
    ((u.realloc s ans p newSize).2.2.1 = 0 →
      (u.realloc s ans p newSize).1 = u ∧ (u.realloc s ans p newSize).2.1 = s ∧
      ∀ i < oldSize, u.reallocMem s ans p newSize w w' m (offset32 p i) = m (offset32 p i))

/-- After a refusal the old block and its contents are as they were. -/
theorem reallocKeeps_refused (hp : p ≠ 0) (hn : newSize ≠ 0) (h : u.answer s ans newSize 0 = 0) :
    ReallocKeeps u s ans p oldSize newSize := by
  intro w w' m hw
  rw [realloc_refused hp hn h, reallocMem_refused hp hn h]
  exact ⟨fun hne => absurd rfl hne, fun _ => ⟨rfl, rfl, hw m⟩⟩

/-- With a new block, the data is kept if the copy delivers it. -/
theorem reallocKeeps_served_iff (hp : p ≠ 0) (hn : newSize ≠ 0) (hq : u.answer s ans newSize 0 = q)
    (h : q ≠ 0) :
    ReallocKeeps u s ans p oldSize newSize ↔
      ∀ m : Memory, ∀ i < min oldSize newSize,
        m.memcpy q p (min (u.recordedSize p) newSize) (offset32 q i) = m (offset32 p i) := by
  subst hq
  have hptr : (u.realloc s ans p newSize).2.2.1 = u.answer s ans newSize 0 := by
    rw [realloc_served hp hn h]
  constructor
  · intro hk m i hi
    have hspare : ∀ a k, Spares id a k := fun _ _ _ _ _ => rfl
    have hbyte := (hk id id m (hspare _ _)).1 (hptr.trans_ne h) (hspare _ _) i hi
    rwa [reallocMem_served hp hn h, hptr] at hbyte
  · intro hcopy w w' m hw
    rw [hptr, reallocMem_served hp hn h]
    refine ⟨fun _ hw' i hi => ?_, fun hz => absurd hz h⟩
    have hnew : i < newSize := Nat.lt_of_lt_of_le hi (Nat.min_le_right _ _)
    have hold : i < oldSize := Nat.lt_of_lt_of_le hi (Nat.min_le_left _ _)
    rw [hw' _ i hnew, hcopy (w m) i hi, hw m i hold]

theorem intTurns_lt (n : Nat) : intTurns n < 4294967296 := by
  unfold intTurns
  split <;> omega

/-- A copy has `k` turns if its length is at least that and no negative `int`. -/
theorem le_intTurns_iff {k n : Nat} (hk : 0 < k) : k ≤ intTurns n ↔ k ≤ n ∧ n < 2147483648 := by
  unfold intTurns
  split <;> omega

/-- The record of the old block covers what has to be copied, the length passes
as an `int`, and the new block does not start inside it. -/
def CopiesAll (u : UnifiedAllocator) (p q oldSize newSize : Nat) : Prop :=
  ∃ a, u.findAllocation p = some a ∧ min oldSize newSize ≤ a.size ∧
    min a.size newSize < 2147483648 ∧ min oldSize newSize ≤ distance32 p q

theorem copiesAll_iff (hold : 0 < oldSize) (hnew : 0 < newSize) :
    CopiesAll u p q oldSize newSize ↔
      min oldSize newSize ≤ intTurns (min (u.recordedSize p) newSize) ∧
        min oldSize newSize ≤ distance32 p q := by
  have hk : 0 < min oldSize newSize := Nat.lt_min.mpr ⟨hold, hnew⟩
  rw [le_intTurns_iff hk]
  unfold CopiesAll recordedSize
  cases hf : u.findAllocation p with
  | none =>
      simp only [reduceCtorEq, false_and, exists_false, Nat.zero_min, false_iff]
      exact fun h => absurd h.1.1 (Nat.not_le.mpr hk)
  | some a =>
      simp only [Option.some.injEq]
      constructor
      · rintro ⟨b, rfl, hsize, hint, hdist⟩
        exact ⟨⟨by omega, hint⟩, hdist⟩
      · rintro ⟨⟨hle, hint⟩, hdist⟩
        exact ⟨a, rfl, by omega, hint, hdist⟩

/-- **The overflow check is exact**: dividing the wrapped product gives the size
back only if the product has not wrapped. -/
theorem calloc_total_iff {count : Nat} (hc : 0 < count) (size : Nat) :
    count * size % 4294967296 / count = size ↔ count * size < 4294967296 := by
  constructor
  · intro h
    by_contra hge
    have hwrap : count * size % 4294967296 < count * size :=
      Nat.lt_of_lt_of_le (Nat.mod_lt _ (by decide)) (Nat.not_lt.mp hge)
    have hdiv : count * size % 4294967296 / count < size :=
      Nat.div_lt_of_lt_mul hwrap
    exact absurd h (Nat.ne_of_lt hdiv)
  · intro h
    rw [Nat.mod_eq_of_lt h, Nat.mul_div_cancel_left size hc]

/-- What `calloc` is to do for `count` and `size`: it is defined, refuses a
product that does not fit in a `u32`, and returns only blocks of that many
bytes, all zero. -/
def CallocContract (count size : UInt32) : Prop :=
  ∀ (u : UnifiedAllocator) (s : SubAllocators) (ans : Answers) (w : Memory → Memory) (m : Memory),
    ∃ r, u.calloc s ans count.toNat size.toNat = some r ∧
      (4294967296 ≤ count.toNat * size.toNat → r.2.2.1 = 0) ∧
      (r.2.2.1 ≠ 0 → r = u.alloc s ans (count.toNat * size.toNat) flagZero ∧
        ∀ i < count.toNat * size.toNat,
          u.callocMem s ans count.toNat size.toNat w m (offset32 r.2.2.1 i) = 0)

/-- The block is zero if its length passes as an `int`. -/
theorem allocMem_zeroed (hs : size < 2147483648) (hp : (u.alloc s ans size flagZero).2.2.1 ≠ 0)
    {i : Nat} (hi : i < size) :
    u.allocMem s ans size flagZero w m (offset32 (u.alloc s ans size flagZero).2.2.1 i) = 0 := by
  have hz : hasBit flagZero flagZero = true := rfl
  have hpos : size ≠ 0 := Nat.ne_of_gt (Nat.zero_lt_of_lt hi)
  unfold allocMem
  rw [if_neg hpos]
  dsimp only
  rw [if_pos ⟨hp, hz⟩]
  unfold Memory.memset intTurns
  rw [if_pos hs]
  exact Memory.fillLoop_inside hi

/-- A longer block is left as the sub-allocators hand it out. -/
theorem allocMem_not_zeroed (hs : 2147483648 ≤ size) : u.allocMem s ans size flagZero w m = w m := by
  have hpos : size ≠ 0 := Nat.ne_of_gt (Nat.lt_of_lt_of_le (by decide) hs)
  unfold allocMem
  rw [if_neg hpos]
  dsimp only
  split
  · unfold Memory.memset intTurns
    rw [if_neg (Nat.not_lt.mpr hs)]
    rfl
  · rfl

/-- In embedded mode the buddy allocator serves every large request. -/
theorem embedded_large (hs : 2147483648 ≤ size) :
    ((init .embedded).alloc bootSubAllocators bootAnswers size flagZero).2.2.1 = 0x1005014 := by
  have hpos : size ≠ 0 := Nat.ne_of_gt (Nat.lt_of_lt_of_le (by decide) hs)
  have hsel : (init .embedded).selectAllocator size flagZero = policyBuddy := by
    have htype : getAllocType size = .huge := by
      unfold getAllocType
      rw [if_neg (by omega), if_neg (by omega), if_neg (by omega), if_neg (by omega)]
    unfold selectAllocator
    rw [htype]
    rfl
  have hrequest : buddyRequest size ≠ 0 := by
    unfold buddyRequest blockSize
    exact Nat.mul_ne_zero (Nat.ne_of_gt (Nat.two_pow_pos _)) (by decide)
  rw [alloc_pointer hpos]
  unfold answer
  rw [hsel]
  simp [internalAlloc, askPreferred, askBuddy, SubAllocators.buddyAlloc, hrequest, bootAnswers,
    policyBuddy, policySlob, policySlab, policySlub, policyStack]

theorem calloc_eq {count : Nat} (hc : 0 < count) (size : Nat) :
    u.calloc s ans count size =
      if count * size < 4294967296 then some (u.alloc s ans (count * size) flagZero)
      else some (u, s, 0, .buddy) := by
  have htotal := calloc_total_iff hc size
  unfold UnifiedAllocator.calloc
  dsimp only
  rw [if_neg (Nat.ne_of_gt hc)]
  by_cases h : count * size < 4294967296
  · rw [if_neg (not_not_intro (htotal.mpr h)), if_pos h, Nat.mod_eq_of_lt h]
  · rw [if_pos (fun he => h (htotal.mp he)), if_neg h]

theorem callocMem_eq {count : Nat} (hc : 0 < count) (h : count * size < 4294967296) :
    u.callocMem s ans count size w m = u.allocMem s ans (count * size) flagZero w m := by
  have htotal := (calloc_total_iff hc size).mpr h
  unfold callocMem
  dsimp only
  rw [if_neg (not_not_intro htotal), Nat.mod_eq_of_lt h]

/-- **`kcalloc` meets its contract exactly if** the count is not 0 and the
product is less than 2^31 or does not fit in a `u32` at all. -/
theorem calloc_contract_iff (count size : UInt32) :
    CallocContract count size ↔
      count ≠ 0 ∧ (count.toNat * size.toNat < 2147483648 ∨ 4294967296 ≤ count.toNat * size.toNat) := by
  have hzero : count = 0 ↔ count.toNat = 0 := by
    rw [← UInt32.toNat_inj]
    rfl
  constructor
  · intro h
    obtain ⟨r, hr, _, hbytes⟩ :=
      h (init .embedded) bootSubAllocators bootAnswers id (fun _ => 7)
    have hc : count ≠ 0 := by
      intro h0
      rw [hzero.mp h0] at hr
      exact absurd hr (by simp [UnifiedAllocator.calloc])
    refine ⟨hc, ?_⟩
    by_contra hlarge
    obtain ⟨hge, hlt⟩ := not_or.mp hlarge
    have hge := Nat.not_lt.mp hge
    have hlt := Nat.not_le.mp hlt
    have hpos : 0 < count.toNat := Nat.pos_of_ne_zero fun e => hc (hzero.mpr e)
    -- the buddy allocator hands out a block, and `memset` has no turn
    rw [calloc_eq hpos, if_pos hlt] at hr
    have hblock := embedded_large hge
    rw [Option.some.inj hr] at hblock
    have hbyte := (hbytes (by rw [hblock]; decide)).2 0 (Nat.lt_of_lt_of_le (by decide) hge)
    rw [callocMem_eq hpos hlt, allocMem_not_zeroed hge] at hbyte
    have hne : (7 : UInt8) ≠ 0 := by decide
    exact hne hbyte
  · rintro ⟨hc, hsize⟩ u s ans w m
    have hpos : 0 < count.toNat := Nat.pos_of_ne_zero fun e => hc (hzero.mpr e)
    rcases hsize with hsmall | hbig
    · have hlt : count.toNat * size.toNat < 4294967296 := Nat.lt_trans hsmall (by decide)
      refine ⟨_, (calloc_eq hpos _).trans (if_pos hlt), fun hge => absurd hlt (Nat.not_lt.mpr hge), ?_⟩
      intro hp
      refine ⟨rfl, fun i hi => ?_⟩
      rw [callocMem_eq hpos hlt]
      exact allocMem_zeroed hsmall hp hi
    · refine ⟨_, (calloc_eq hpos _).trans (if_neg (Nat.not_lt.mpr hbig)), fun _ => rfl, ?_⟩
      exact fun hp => absurd rfl hp

/-- A count of 0 is a division by zero. -/
theorem calloc_undefined : ¬ CallocContract 0 8 := by
  intro h
  obtain ⟨r, hr, _⟩ := h (init .embedded) bootSubAllocators bootAnswers id (fun _ => 7)
  exact absurd hr (by simp [UnifiedAllocator.calloc])

end KmOS
