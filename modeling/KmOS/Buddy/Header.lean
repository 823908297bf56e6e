/-
# `KmOS.Buddy.Header` — what the list operations do to headers

Blocks start on page boundaries of the zone, so the headers of two different
blocks never overlap (`Sep`).  Each store therefore changes one field of one
header, and the two free-list operations change `next` and `prev` links of the
block they are given and of its neighbours, and nothing else of any header.
-/
import KmOS.Buddy.Model

namespace KmOS

/-- `struct buddy_block`, as read at one address. -/
@[ext] structure BuddyBlock where
  next : Nat
  prev : Nat
  order : Nat
  magic : Nat
  allocated : UInt8
  deriving DecidableEq

/-- Two header addresses: the same, or far enough apart. -/
def Sep (a b : Nat) : Prop := a = b ∨ a + sizeofBuddyBlock ≤ b ∨ b + sizeofBuddyBlock ≤ a

theorem Sep.symm {a b : Nat} (h : Sep a b) : Sep b a := by
  rcases h with h | h | h
  · exact Or.inl h.symm
  · exact Or.inr (Or.inr h)
  · exact Or.inr (Or.inl h)

namespace BuddyZone

variable {z z' : BuddyZone} {a b v : Nat}

/-- The header at `a`. -/
def header (z : BuddyZone) (a : Nat) : BuddyBlock :=
  { next := z.next a
    prev := z.prev a
    order := z.order a
    magic := z.magic a
    allocated := z.allocated a }

/-- A header is decided by its twenty bytes. -/
theorem header_congr (h : ∀ c, a ≤ c → c < a + sizeofBuddyBlock → z'.mem c = z.mem c) :
    z'.header a = z.header a := by
  have h' : ∀ c, a ≤ c → c < a + 20 → z'.mem c = z.mem c := h
  have hn : z'.next a = z.next a := Memory.load32_congr (fun c h1 h2 => h' c h1 (by omega))
  have hp : z'.prev a = z.prev a :=
    Memory.load32_congr (fun c h1 h2 => h' c (by omega) (by omega))
  have ho : z'.order a = z.order a :=
    Memory.load32_congr (fun c h1 h2 => h' c (by omega) (by omega))
  have hm : z'.magic a = z.magic a :=
    Memory.load32_congr (fun c h1 h2 => h' c (by omega) (by omega))
  have ha : z'.allocated a = z.allocated a := h' (a + 16) (by omega) (by omega)
  simp only [header, hn, hp, ho, hm, ha]

/-- A change confined to the header at `a` leaves every other header alone. -/
theorem header_of_apart (hs : Sep a b) (hne : b ≠ a)
    (h : ∀ c, c < a ∨ a + 20 ≤ c → z'.mem c = z.mem c) : z'.header b = z.header b := by
  refine header_congr (fun c h1 h2 => h c ?_)
  simp only [Sep, sizeofBuddyBlock] at hs h2
  omega

/-! ## The five stores -/

theorem header_setNext (hs : Sep a b) (hv : v < wordSize) :
    (z.setNext a v).header b = if b = a then { z.header b with next := v } else z.header b := by
  split
  · next e =>
      subst e
      have hn : (z.setNext b v).next b = v :=
        (Memory.load32_store32 z.mem b v).trans (Nat.mod_eq_of_lt hv)
      have hp : (z.setNext b v).prev b = z.prev b := Memory.load32_store32_of_disjoint (by omega)
      have ho : (z.setNext b v).order b = z.order b := Memory.load32_store32_of_disjoint (by omega)
      have hm : (z.setNext b v).magic b = z.magic b := Memory.load32_store32_of_disjoint (by omega)
      have ha : (z.setNext b v).allocated b = z.allocated b :=
        Memory.store32_eq_of_outside (by omega)
      simp only [header, hn, hp, ho, hm, ha]
  · next e => exact header_of_apart hs e (fun c hc => Memory.store32_eq_of_outside (by omega))

theorem header_setPrev (hs : Sep a b) (hv : v < wordSize) :
    (z.setPrev a v).header b = if b = a then { z.header b with prev := v } else z.header b := by
  split
  · next e =>
      subst e
      have hn : (z.setPrev b v).next b = z.next b := Memory.load32_store32_of_disjoint (by omega)
      have hp : (z.setPrev b v).prev b = v :=
        (Memory.load32_store32 z.mem (b + 4) v).trans (Nat.mod_eq_of_lt hv)
      have ho : (z.setPrev b v).order b = z.order b := Memory.load32_store32_of_disjoint (by omega)
      have hm : (z.setPrev b v).magic b = z.magic b := Memory.load32_store32_of_disjoint (by omega)
      have ha : (z.setPrev b v).allocated b = z.allocated b :=
        Memory.store32_eq_of_outside (by omega)
      simp only [header, hn, hp, ho, hm, ha]
  · next e => exact header_of_apart hs e (fun c hc => Memory.store32_eq_of_outside (by omega))

theorem header_setOrder (hs : Sep a b) (hv : v < wordSize) :
    (z.setOrder a v).header b = if b = a then { z.header b with order := v } else z.header b := by
  split
  · next e =>
      subst e
      have hn : (z.setOrder b v).next b = z.next b := Memory.load32_store32_of_disjoint (by omega)
      have hp : (z.setOrder b v).prev b = z.prev b := Memory.load32_store32_of_disjoint (by omega)
      have ho : (z.setOrder b v).order b = v :=
        (Memory.load32_store32 z.mem (b + 8) v).trans (Nat.mod_eq_of_lt hv)
      have hm : (z.setOrder b v).magic b = z.magic b := Memory.load32_store32_of_disjoint (by omega)
      have ha : (z.setOrder b v).allocated b = z.allocated b :=
        Memory.store32_eq_of_outside (by omega)
      simp only [header, hn, hp, ho, hm, ha]
  · next e => exact header_of_apart hs e (fun c hc => Memory.store32_eq_of_outside (by omega))

theorem header_setMagic (hs : Sep a b) (hv : v < wordSize) :
    (z.setMagic a v).header b = if b = a then { z.header b with magic := v } else z.header b := by
  split
  · next e =>
      subst e
      have hn : (z.setMagic b v).next b = z.next b := Memory.load32_store32_of_disjoint (by omega)
      have hp : (z.setMagic b v).prev b = z.prev b := Memory.load32_store32_of_disjoint (by omega)
      have ho : (z.setMagic b v).order b = z.order b := Memory.load32_store32_of_disjoint (by omega)
      have hm : (z.setMagic b v).magic b = v :=
        (Memory.load32_store32 z.mem (b + 12) v).trans (Nat.mod_eq_of_lt hv)
      have ha : (z.setMagic b v).allocated b = z.allocated b :=
        Memory.store32_eq_of_outside (by omega)
      simp only [header, hn, hp, ho, hm, ha]
  · next e => exact header_of_apart hs e (fun c hc => Memory.store32_eq_of_outside (by omega))

theorem header_setAllocated {v : UInt8} (hs : Sep a b) :
    (z.setAllocated a v).header b =
      if b = a then { z.header b with allocated := v } else z.header b := by
  split
  · next e =>
      subst e
      have hn : (z.setAllocated b v).next b = z.next b :=
        Memory.load32_store8_of_disjoint (by omega)
      have hp : (z.setAllocated b v).prev b = z.prev b :=
        Memory.load32_store8_of_disjoint (by omega)
      have ho : (z.setAllocated b v).order b = z.order b :=
        Memory.load32_store8_of_disjoint (by omega)
      have hm : (z.setAllocated b v).magic b = z.magic b :=
        Memory.load32_store8_of_disjoint (by omega)
      have ha : (z.setAllocated b v).allocated b = v := Memory.store8_eq_self z.mem (b + 16) v
      simp only [header, hn, hp, ho, hm, ha]
  · next e => exact header_of_apart hs e (fun c hc => Memory.store8_eq_of_ne (by omega))

/-- The header `initHeader` makes. -/
theorem header_initHeader {k : Nat} (hs : Sep a b) (hk : k < wordSize) :
    (z.initHeader a k).header b =
      if b = a then
        { next := 0, prev := 0, order := k, magic := buddyMagic, allocated := 0 }
      else z.header b := by
  unfold initHeader
  rw [header_setAllocated hs, header_setMagic hs (by decide), header_setOrder hs hk,
    header_setPrev hs (by decide), header_setNext hs (by decide)]
  split <;> rfl

/-! ## The free-list operations -/

/-- Adding `a` to a list: `a` points at the old head, the old head points back
at `a`. -/
theorem header_addToFreeList {k : Nat} (hs : Sep a b) (hh : z.freeLists k ≠ 0 → Sep (z.freeLists k) b)
    (hne : z.freeLists k ≠ a) (ha : a < wordSize) (hhead : z.freeLists k < wordSize) :
    (z.addToFreeList a k).header b =
      if b = a then { z.header b with next := z.freeLists k, prev := 0 }
      else if z.freeLists k ≠ 0 ∧ b = z.freeLists k then { z.header b with prev := a }
      else z.header b := by
  have hbase : ((z.setNext a (z.freeLists k)).setPrev a 0).header b =
      if b = a then { z.header b with next := z.freeLists k, prev := 0 } else z.header b := by
    rw [header_setPrev hs (by decide), header_setNext hs hhead]
    split <;> rfl
  by_cases hz : z.freeLists k = 0
  · have heq : (z.addToFreeList a k).header b =
        ((z.setNext a (z.freeLists k)).setPrev a 0).header b := by
      simp [addToFreeList, hz, header, next, prev, order, magic, allocated]
    rw [heq, hbase]
    simp [hz]
  · have heq : (z.addToFreeList a k).header b =
        (((z.setNext a (z.freeLists k)).setPrev a 0).setPrev (z.freeLists k) a).header b := by
      simp [addToFreeList, hz, header, next, prev, order, magic, allocated]
    rw [heq, header_setPrev (hh hz) ha, hbase]
    by_cases hb : b = a
    · have hbne : b ≠ z.freeLists k := fun e => hne (e.symm.trans hb)
      simp only [if_pos hb, if_neg hbne]
    · by_cases hb' : b = z.freeLists k
      · simp only [if_neg hb, if_pos hb', if_pos (And.intro hz hb')]
      · simp only [if_neg hb, if_neg hb', if_neg (fun h : _ ∧ _ => hb' h.2)]

@[simp] theorem freeLists_addToFreeList (z : BuddyZone) (a k : Nat) :
    (z.addToFreeList a k).freeLists = Function.update z.freeLists k a := by
  unfold addToFreeList
  by_cases hz : z.freeLists k = 0 <;> simp [hz, setNext, setPrev]

@[simp] theorem freeBlocks_addToFreeList (z : BuddyZone) (a k : Nat) :
    (z.addToFreeList a k).freeBlocks =
      Function.update z.freeBlocks k (inc32 (z.freeBlocks k)) := by
  unfold addToFreeList
  by_cases hz : z.freeLists k = 0 <;> simp [hz, setNext, setPrev]

/-- The links after `a` has been taken out. -/
theorem header_removeFromFreeList {k : Nat} (hp : z.prev a ≠ 0 → Sep (z.prev a) b)
    (hn : z.next a ≠ 0 → Sep (z.next a) b) (hpa : z.prev a ≠ 0 → Sep (z.prev a) a)
    (hne : z.prev a ≠ a) :
    (z.removeFromFreeList a k).header b =
      { z.header b with
        next := if z.prev a ≠ 0 ∧ b = z.prev a then z.next a else z.next b
        prev := if z.next a ≠ 0 ∧ b = z.next a then z.prev a else z.prev b } := by
  have hnlt : z.next a < wordSize := Memory.load32_lt z.mem a
  have hplt : z.prev a < wordSize := Memory.load32_lt z.mem (a + 4)
  -- after the first half `a`'s own header is as it was
  have key : ∀ y : BuddyZone, y.header a = z.header a →
      (y.header b = { z.header b with
        next := if z.prev a ≠ 0 ∧ b = z.prev a then z.next a else z.next b }) →
      (if y.next a ≠ 0 then y.setPrev (y.next a) (y.prev a) else y).header b =
        { z.header b with
          next := if z.prev a ≠ 0 ∧ b = z.prev a then z.next a else z.next b
          prev := if z.next a ≠ 0 ∧ b = z.next a then z.prev a else z.prev b } := by
    intro y hya hyb
    have hyn : y.next a = z.next a := congrArg BuddyBlock.next hya
    have hyp : y.prev a = z.prev a := congrArg BuddyBlock.prev hya
    rw [hyn, hyp]
    by_cases hz : z.next a = 0
    · simp only [hz, ne_eq, not_true_eq_false, if_false, false_and, hyb]
      rfl
    · rw [if_pos hz, header_setPrev (hn hz) hplt, hyb]
      by_cases hb : b = z.next a
      · simp only [if_pos hb, if_pos (And.intro hz hb)]
      · simp only [if_neg hb, if_neg (fun h : _ ∧ _ => hb h.2)]
        rfl
  by_cases hz : z.prev a = 0
  · have := key { z with freeLists := Function.update z.freeLists k (z.next a) } rfl (by
      simp only [hz, ne_eq, not_true_eq_false, false_and, if_false]
      rfl)
    rw [← this]
    simp only [removeFromFreeList, hz, ne_eq, not_true_eq_false, if_false]
    rfl
  · have hya : (z.setNext (z.prev a) (z.next a)).header a = z.header a := by
      rw [header_setNext (hpa hz) hnlt, if_neg (fun e => hne e.symm)]
    have := key (z.setNext (z.prev a) (z.next a)) hya (by
      rw [header_setNext (hp hz) hnlt]
      by_cases hb : b = z.prev a
      · simp only [if_pos hb, if_pos (And.intro hz hb)]
      · simp only [if_neg hb, if_neg (fun h : _ ∧ _ => hb h.2)]
        rfl)
    rw [← this]
    simp only [removeFromFreeList, if_pos hz]
    rfl

theorem freeLists_removeFromFreeList (z : BuddyZone) (a k : Nat) :
    (z.removeFromFreeList a k).freeLists =
      if z.prev a = 0 then Function.update z.freeLists k (z.next a) else z.freeLists := by
  unfold removeFromFreeList
  by_cases hz : z.prev a = 0
  · simp only [hz, ne_eq, not_true_eq_false, if_false, if_true]
    split <;> rfl
  · simp only [ne_eq, hz, not_false_eq_true, if_true, if_false]
    split <;> rfl

@[simp] theorem freeBlocks_removeFromFreeList (z : BuddyZone) (a k : Nat) :
    (z.removeFromFreeList a k).freeBlocks =
      Function.update z.freeBlocks k (dec32 (z.freeBlocks k)) := by
  unfold removeFromFreeList
  by_cases hz : z.prev a = 0
  · simp only [hz, ne_eq, not_true_eq_false, if_false]
    split <;> rfl
  · simp only [ne_eq, hz, not_false_eq_true, if_true]
    split <;> rfl

/-! ## The rest of the zone record

The zone's bounds never change after `init`, and only two lines of the source
touch the count of allocated blocks. -/

/-- `memory_start`, `memory_size` and `allocated_blocks` agree. -/
structure SameBounds (z z' : BuddyZone) : Prop where
  memoryStart : z'.memoryStart = z.memoryStart
  memorySize : z'.memorySize = z.memorySize
  allocatedBlocks : z'.allocatedBlocks = z.allocatedBlocks

theorem sameBounds_initHeader (z : BuddyZone) (a k : Nat) : SameBounds z (z.initHeader a k) := by
  unfold initHeader setAllocated setMagic setOrder setPrev setNext
  exact ⟨rfl, rfl, rfl⟩

theorem sameBounds_setOrder (z : BuddyZone) (a k : Nat) : SameBounds z (z.setOrder a k) := by
  unfold setOrder
  exact ⟨rfl, rfl, rfl⟩

theorem freeLists_initHeader (z : BuddyZone) (a k : Nat) :
    (z.initHeader a k).freeLists = z.freeLists ∧ (z.initHeader a k).freeBlocks = z.freeBlocks := by
  unfold initHeader setAllocated setMagic setOrder setPrev setNext
  exact ⟨rfl, rfl⟩

theorem sameBounds_addToFreeList (z : BuddyZone) (a k : Nat) :
    SameBounds z (z.addToFreeList a k) := by
  unfold addToFreeList
  by_cases hz : z.freeLists k = 0
  · simp only [hz, ne_eq, not_true_eq_false, if_false]
    exact ⟨rfl, rfl, rfl⟩
  · simp only [ne_eq, hz, not_false_eq_true, if_true]
    exact ⟨rfl, rfl, rfl⟩

theorem sameBounds_removeFromFreeList (z : BuddyZone) (a k : Nat) :
    SameBounds z (z.removeFromFreeList a k) := by
  unfold removeFromFreeList
  by_cases hz : z.prev a = 0
  · simp only [hz, ne_eq, not_true_eq_false, if_false]
    split <;> exact ⟨rfl, rfl, rfl⟩
  · simp only [ne_eq, hz, not_false_eq_true, if_true]
    split <;> exact ⟨rfl, rfl, rfl⟩

end BuddyZone

end KmOS
