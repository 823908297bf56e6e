/-
# `KmOS.Unified.Routing` — where `kfree` takes a pointer

`free` chooses by a hint: the record debug tracking made, and 0 without one.
The record names the allocator that was *preferred*, and with no record only
SLOB is tried, because the attempts after it are guarded by a test of the
pointer that is never null.  So a pointer gets back to the allocator it came
from under a condition on the routing state, and `kfree_reaches_producer_iff`
says exactly which.

Two of the sub-allocators add conditions of their own before they let go of a
pointer they are handed: slab and SLUB keep their magic inside the object,
where `ALLOC_FLAG_ZERO` wipes it, and slab looks for the object in one cache
only.
-/
import KmOS.Unified.Model

namespace KmOS

open UnifiedAllocator

variable {u u' : UnifiedAllocator} {s s' : SubAllocators} {ans : Answers}
  {size flags p hint : Nat} {x : Producer}

/-! ## Freeing -/

/-- The hint `free` hands to `internal_free`. -/
def UnifiedAllocator.hintFor (u : UnifiedAllocator) (p : Nat) : Nat :=
  match if u.debugTracking then u.findAllocation p else none with
  | some m => m.allocatorUsed
  | none => 0

theorem free_eq (hp : p ≠ 0) : (u.free s p).2 = internalFree s p (u.hintFor p) := by
  unfold UnifiedAllocator.free hintFor
  rw [if_neg hp]
  cases (if u.debugTracking then u.findAllocation p else none) with
  | none => rfl
  | some m => rfl

/-- When the free call for `p` under `hint` reaches `x` and `x` lets go of it. -/
def TakesBack (s : SubAllocators) (hint : Nat) : Producer → Nat → Prop
  | .slob, p => hint ≠ policySlab ∧ hint ≠ policySlub ∧ s.slobMagic p = slobMagicWord ∧
      s.slobPages p = true
  | .slab, p => hint = policySlab ∧ s.objMagic p = slabMagicWord ∧
      s.firstSlabCache = s.slabOut p
  | .slub, p => hint = policySlub ∧ s.objMagic p = slubMagicWord ∧ s.slubPages p = true
  | .buddy, p => hint = policySlub ∧ s.slubPages p = false
  | .stack, _ => False

/-- Without a record for slab or SLUB, SLOB is the only one to be called. -/
theorem internalFree_slob (hp : p ≠ 0) (h1 : hint ≠ policySlab) (h2 : hint ≠ policySlub) :
    internalFree s p hint = (s.slobFree p, [.slob]) := by
  unfold internalFree
  by_cases h : hint = policySlob
  · rw [if_pos h]
  · rw [if_neg h, if_neg h1, if_neg h2]
    dsimp only
    rw [if_neg hp]

theorem internalFree_slab : internalFree s p policySlab = (s.kmemCacheFree p, [.slab]) := rfl

theorem internalFree_slub : internalFree s p policySlub = s.slubFree p := rfl

/-- The calls a hint leads to. -/
theorem internalFree_cases (s : SubAllocators) (hp : p ≠ 0) (hint : Nat) :
    (hint = policySlab ∧ internalFree s p hint = (s.kmemCacheFree p, [.slab])) ∨
      (hint = policySlub ∧ internalFree s p hint = s.slubFree p) ∨
      (hint ≠ policySlab ∧ hint ≠ policySlub ∧ internalFree s p hint = (s.slobFree p, [.slob])) := by
  by_cases h1 : hint = policySlab
  · subst h1
    exact Or.inl ⟨rfl, internalFree_slab⟩
  · by_cases h2 : hint = policySlub
    · subst h2
      exact Or.inr (Or.inl ⟨rfl, internalFree_slub⟩)
    · exact Or.inr (Or.inr ⟨h1, h2, internalFree_slob hp h1 h2⟩)

/-! ### Each sub-allocator on a pointer it counts -/

theorem slobFree_lets_go_iff (hp : p ≠ 0) (ho : s.Out .slob p) :
    ¬ (s.slobFree p).Out .slob p ↔ s.slobMagic p = slobMagicWord ∧ s.slobPages p = true := by
  unfold SubAllocators.slobFree
  rw [if_neg hp]
  by_cases h1 : s.slobMagic p = slobMagicWord
  · by_cases h2 : s.slobPages p = true
    · simp [SubAllocators.Out, h1, h2]
    · rw [if_neg (not_not_intro h1), if_pos (by simpa using h2)]
      simp [ho, h2]
  · rw [if_pos h1]
    simp [ho, h1]

theorem kmemCacheFree_lets_go_iff (hp : p ≠ 0) (ho : s.Out .slab p) :
    ¬ (s.kmemCacheFree p).Out .slab p ↔
      s.objMagic p = slabMagicWord ∧ s.firstSlabCache = s.slabOut p := by
  obtain ⟨i, hi⟩ := Option.isSome_iff_exists.mp ho
  unfold SubAllocators.kmemCacheFree
  rw [if_neg hp]
  by_cases h1 : s.objMagic p = slabMagicWord
  · rw [if_neg (not_not_intro h1)]
    cases hf : s.firstSlabCache with
    | none => simp [ho, hi]
    | some j =>
        by_cases hj : s.slabOut p = some j
        · simp [SubAllocators.Out, h1, hj]
        · have hj' : some j ≠ s.slabOut p := fun e => hj e.symm
          simp [ho, hj, hj']
  · rw [if_pos h1]
    simp [ho, h1]

theorem slubFree_lets_go_iff (hp : p ≠ 0) (ho : s.Out .slub p) :
    ¬ (s.slubFree p).1.Out .slub p ↔ s.objMagic p = slubMagicWord ∧ s.slubPages p = true := by
  unfold SubAllocators.slubFree
  rw [if_neg hp]
  by_cases h2 : s.slubPages p = true
  · by_cases h1 : s.objMagic p = slubMagicWord
    · simp [SubAllocators.Out, h1, h2]
    · simp [ho, h1, h2]
  · have hb : (s.buddyFree p).Out .slub p := by
      unfold SubAllocators.buddyFree
      rw [if_neg hp]
      exact ho
    simp [h2, hb]

theorem slubFree_reaches_buddy_iff (hp : p ≠ 0) :
    (Producer.buddy ∈ (s.slubFree p).2 ∧ ¬ (s.slubFree p).1.Out .buddy p) ↔
      s.slubPages p = false := by
  unfold SubAllocators.slubFree
  rw [if_neg hp]
  by_cases h2 : s.slubPages p = true
  · by_cases h1 : s.objMagic p = slubMagicWord <;> simp [h1, h2]
  · simp [h2, SubAllocators.buddyFree, SubAllocators.Out, hp]

theorem slub_mem_slubFree (s : SubAllocators) (p : Nat) : Producer.slub ∈ (s.slubFree p).2 := by
  unfold SubAllocators.slubFree
  split
  · simp
  · split
    · split <;> simp
    · simp

theorem mem_slubFree (h : x ∈ (s.slubFree p).2) : x = .slub ∨ x = .buddy := by
  unfold SubAllocators.slubFree at h
  split at h
  · simpa using Or.inl h
  · split at h
    · split at h <;> simp at h <;> exact Or.inl h
    · simpa using h

/-- **What a free call achieves**, for a pointer some allocator counts. -/
theorem internalFree_takesBack_iff (hp : p ≠ 0) (ho : s.Out x p) (hint : Nat) :
    (x ∈ (internalFree s p hint).2 ∧ ¬ (internalFree s p hint).1.Out x p) ↔
      TakesBack s hint x p := by
  have hne : policySlab ≠ policySlub := by decide
  rcases internalFree_cases s hp hint with ⟨rfl, he⟩ | ⟨rfl, he⟩ | ⟨h1, h2, he⟩
  · rw [he]
    cases x with
    | slab => simpa [TakesBack] using kmemCacheFree_lets_go_iff hp ho
    | _ => simp [TakesBack, hne]
  · rw [he]
    cases x with
    | slub => simpa [TakesBack, slub_mem_slubFree] using slubFree_lets_go_iff hp ho
    | buddy => simpa [TakesBack] using slubFree_reaches_buddy_iff hp
    | slob =>
        constructor
        · rintro ⟨hm, _⟩
          exact absurd (mem_slubFree hm) (by simp)
        · rintro ⟨_, h, _⟩
          exact absurd rfl h
    | slab =>
        constructor
        · rintro ⟨hm, _⟩
          exact absurd (mem_slubFree hm) (by simp)
        · rintro ⟨h, _⟩
          exact absurd h.symm hne
    | stack => exact ⟨fun h => absurd (mem_slubFree h.1) (by simp), fun h => h.elim⟩
  · rw [he]
    cases x with
    | slob => simpa [TakesBack, h1, h2] using slobFree_lets_go_iff hp ho
    | _ => simp [TakesBack, h1, h2]

/-! ## Allocating -/

/-- What an allocation leaves behind, by the allocator it came from. -/
def Granted (s s' : SubAllocators) (preferred size p : Nat) : Producer → Prop
  | .slob => s'.slobOut p = true ∧ s'.slobMagic p = slobMagicWord ∧ s'.slobPages p = true
  | .slab => preferred = policySlab ∧ s'.objMagic p = slabMagicWord ∧
      s'.slabCaches = s.slabCaches ∧ ∃ i,
        SubAllocators.findSizeCache slabCacheSizes s.slabCaches size = some i ∧
        s'.slabOut p = some i
  | .slub => s'.slubOut p = true ∧ s'.objMagic p = slubMagicWord ∧ s'.slubPages p = true
  | .buddy => s'.buddyOut p = true ∧ s'.slubPages = s.slubPages
  | .stack => preferred = policyStack

/-- An answer to a request: null and nothing changed, or a pointer granted. -/
def Served (s : SubAllocators) (preferred size : Nat) (r : SubAllocators × Nat × Producer) : Prop :=
  (r.2.1 = 0 ∧ r.1 = s) ∨ (r.2.1 ≠ 0 ∧ Granted s r.1 preferred size r.2.1 r.2.2)

theorem buddyAlloc_served (s : SubAllocators) (ans : Answers) (request preferred size : Nat) :
    Served s preferred size
      ((s.buddyAlloc ans request).1, (s.buddyAlloc ans request).2, .buddy) := by
  unfold SubAllocators.buddyAlloc
  split
  · exact Or.inl ⟨rfl, rfl⟩
  · next hc => exact Or.inr ⟨fun hz => hc (Or.inr hz), Function.update_self .., rfl⟩

theorem slobAlloc_served (s : SubAllocators) (ans : Answers) (size preferred : Nat) :
    Served s preferred size ((s.slobAlloc ans size).1, (s.slobAlloc ans size).2, .slob) := by
  unfold SubAllocators.slobAlloc
  split
  · exact Or.inl ⟨rfl, rfl⟩
  · next hc =>
      exact Or.inr ⟨fun hz => hc (Or.inr (Or.inr hz)), Function.update_self ..,
        Function.update_self .., Function.update_self ..⟩

theorem kmemCacheAlloc_served (s : SubAllocators) (ans : Answers) (size : Nat) :
    Served s policySlab size
      ((s.kmemCacheAlloc ans size).1, (s.kmemCacheAlloc ans size).2, .slab) := by
  unfold SubAllocators.kmemCacheAlloc
  split
  · exact Or.inl ⟨rfl, rfl⟩
  · next i hi =>
      split
      · exact Or.inl ⟨rfl, rfl⟩
      · next hz =>
          exact Or.inr ⟨hz, rfl, Function.update_self .., rfl, i, hi, Function.update_self ..⟩

theorem slubAlloc_served (s : SubAllocators) (ans : Answers) (size preferred : Nat) :
    Served s preferred size (s.slubAlloc ans size) := by
  unfold SubAllocators.slubAlloc
  split
  · exact Or.inl ⟨rfl, rfl⟩
  · split
    · -- no cache of that size: SLUB itself asks the buddy allocator
      exact buddyAlloc_served s ans size preferred size
    · split
      · exact Or.inl ⟨rfl, rfl⟩
      · next hz =>
          exact Or.inr ⟨hz, Function.update_self .., Function.update_self ..,
            Function.update_self ..⟩

theorem askPreferred_served (s : SubAllocators) (ans : Answers) (size preferred : Nat) :
    Served s preferred size (askPreferred s ans size preferred) := by
  unfold askPreferred
  split
  · exact slobAlloc_served s ans size preferred
  · split
    · next h =>
        subst h
        exact kmemCacheAlloc_served s ans size
    · split
      · exact slubAlloc_served s ans size preferred
      · split
        · next h =>
            by_cases hz : ans.stack = 0
            · exact Or.inl ⟨hz, rfl⟩
            · exact Or.inr ⟨hz, h⟩
        · exact buddyAlloc_served s ans (buddyRequest size) preferred size

/-- **`internal_alloc`**: a pointer it returns was granted by the allocator
named, whether preferred or asked after it. -/
theorem internalAlloc_served (s : SubAllocators) (ans : Answers) (size preferred : Nat) :
    Served s preferred size (internalAlloc s ans size preferred) := by
  have h := askPreferred_served s ans size preferred
  unfold internalAlloc
  dsimp only
  split
  · next hc =>
      rcases h with ⟨_, hs⟩ | ⟨hne, _⟩
      · rw [hs]
        exact buddyAlloc_served s ans (buddyRequest size) preferred size
      · exact absurd hc.1 hne
  · exact h

/-! ### What is recorded -/

/-- The hint `free` will find for a pointer just allocated: an older record of
the same pointer comes first, then the one made now, if one was made. -/
def UnifiedAllocator.hintAfter (u : UnifiedAllocator) (p preferred : Nat) : Nat :=
  if u.debugTracking then
    match u.findAllocation p with
    | some m => m.allocatorUsed
    | none =>
        match u.debugTable with
        | some l => if l.length < u.debugTableSize then preferred else 0
        | none => 0
  else 0

theorem hintFor_trackAllocation (u : UnifiedAllocator) (p size flags preferred : Nat) :
    (if u.debugTracking then u.trackAllocation p size flags preferred else u).hintFor p =
      u.hintAfter p preferred := by
  unfold hintFor hintAfter
  by_cases ht : u.debugTracking = true
  · rw [if_pos ht]
    cases hd : u.debugTable with
    | none =>
        have hf : u.findAllocation p = none := by simp [findAllocation, hd]
        simp [trackAllocation, hd, ht, hf]
    | some l =>
        by_cases hroom : l.length < u.debugTableSize
        · have hf' : (u.trackAllocation p size flags preferred).findAllocation p =
              (u.findAllocation p).or (some ⟨size, flags, preferred, p⟩) := by
            simp [trackAllocation, hd, Nat.not_le.mpr hroom, findAllocation, List.find?_append]
          have ht' : (u.trackAllocation p size flags preferred).debugTracking = true := by
            simp [trackAllocation, hd, Nat.not_le.mpr hroom, ht]
          rw [if_pos ht', hf', if_pos ht]
          cases u.findAllocation p with
          | none => simp [hroom]
          | some m => rfl
        · have he : u.trackAllocation p size flags preferred = u := by
            simp [trackAllocation, hd, Nat.not_lt.mp hroom]
          rw [he, if_pos ht, if_pos ht]
          cases u.findAllocation p with
          | none => simp [hroom]
          | some m => rfl
  · rw [if_neg ht, if_neg ht]
    simp [ht]

/-! ### Zeroing -/

/-- A magic word survives the zeroing of the first four bytes and of no more. -/
theorem zeroedWord_eq_iff {word : Nat} (hlow : word % 256 ≠ 0) (size : Nat) :
    zeroedWord word size = word ↔ intTurns size ≤ 4 := by
  unfold zeroedWord
  dsimp only
  constructor
  · intro h
    by_contra hgt
    obtain ⟨j, hj⟩ : ∃ j, min (intTurns size - 4) 4 = j + 1 :=
      ⟨min (intTurns size - 4) 4 - 1, by omega⟩
    rw [hj, Nat.pow_succ] at h
    apply hlow
    rw [← h, ← Nat.mul_assoc]
    exact Nat.mul_mod_left _ _
  · intro h
    have hk : min (intTurns size - 4) 4 = 0 := by omega
    simp [hk]

/-! ## Allocating and freeing -/

/-- Without the stack flags the stack allocator is never preferred. -/
theorem selectAllocator_ne_stack (u : UnifiedAllocator) (size : Nat)
    (hf : hasBit flags (flagTemp ||| flagScoped) = false) :
    u.selectAllocator size flags ≠ policyStack := by
  unfold selectAllocator
  dsimp only
  rw [hf, Bool.false_and, if_neg Bool.false_ne_true]
  split
  · decide
  · split <;> split <;> decide

/-- What `ALLOC_FLAG_ZERO` leaves of the state. -/
def zeroObject (s : SubAllocators) (p size flags : Nat) : SubAllocators :=
  if hasBit flags flagZero then
    { s with objMagic := Function.update s.objMagic p (zeroedWord (s.objMagic p) size) }
  else s

/-- The three parts of a successful `alloc`. -/
theorem alloc_eq (ha : u.alloc s ans size flags = (u', s', p, x)) (hp : p ≠ 0) :
    ∃ s₁, internalAlloc s ans size (u.selectAllocator size flags) = (s₁, p, x) ∧
      s' = zeroObject s₁ p size flags ∧
      u' = if u.debugTracking then u.trackAllocation p size flags (u.selectAllocator size flags)
        else u := by
  unfold UnifiedAllocator.alloc at ha
  split at ha
  · have hp0 : 0 = p := (Prod.mk.inj (Prod.mk.inj (Prod.mk.inj ha).2).2).1
    exact absurd hp0.symm hp
  · dsimp only at ha
    generalize internalAlloc s ans size (u.selectAllocator size flags) = r at ha ⊢
    obtain ⟨s₁, q, y⟩ := r
    dsimp only at ha
    split at ha
    · have hp0 : 0 = p := (Prod.mk.inj (Prod.mk.inj (Prod.mk.inj ha).2).2).1
      exact absurd hp0.symm hp
    · obtain ⟨hu, ha⟩ := Prod.mk.inj ha
      obtain ⟨hs, ha⟩ := Prod.mk.inj ha
      obtain ⟨rfl, rfl⟩ := Prod.mk.inj ha
      exact ⟨s₁, rfl, hs.symm, hu.symm⟩

/-- The magic word of the object just allocated survives. -/
def KeepsMagic (size flags : Nat) : Prop := hasBit flags flagZero = false ∨ intTurns size ≤ 4

theorem objMagic_zeroObject_iff {word : Nat} (hm : s.objMagic p = word) (hlow : word % 256 ≠ 0) :
    (zeroObject s p size flags).objMagic p = word ↔ KeepsMagic size flags := by
  unfold zeroObject KeepsMagic
  by_cases hz : hasBit flags flagZero = true
  · rw [if_pos hz]
    simp [hm, hz, zeroedWord_eq_iff hlow]
  · rw [if_neg hz]
    simp [hm, hz]

/-- When the allocator `x` that served a request gets its pointer back, in
terms of the state before the request.  The hint must name `x`, or not rule it
out; slab and SLUB must find their magic; slab must have served the request
from its first cache; and the buddy allocator is reached only through SLUB. -/
def ReturnsTo (u : UnifiedAllocator) (s : SubAllocators) (size flags p : Nat) : Producer → Prop
  | .slob => u.hintAfter p (u.selectAllocator size flags) ≠ policySlab ∧
      u.hintAfter p (u.selectAllocator size flags) ≠ policySlub
  | .slab => u.hintAfter p (u.selectAllocator size flags) = policySlab ∧ KeepsMagic size flags ∧
      s.firstSlabCache = SubAllocators.findSizeCache slabCacheSizes s.slabCaches size
  | .slub => u.hintAfter p (u.selectAllocator size flags) = policySlub ∧ KeepsMagic size flags
  | .buddy => u.hintAfter p (u.selectAllocator size flags) = policySlub ∧ s.slubPages p = false
  | .stack => False

theorem takesBack_zeroObject_iff {s₁ : SubAllocators} {preferred : Nat}
    (hg : Granted s s₁ preferred size p x) (hns : preferred ≠ policyStack)
    (hsel : u.selectAllocator size flags = preferred) :
    (zeroObject s₁ p size flags).Out x p ∧
      (TakesBack (zeroObject s₁ p size flags) (u.hintAfter p preferred) x p ↔
        ReturnsTo u s size flags p x) := by
  subst hsel
  have hslob : (zeroObject s₁ p size flags).slobOut = s₁.slobOut ∧
      (zeroObject s₁ p size flags).slobMagic = s₁.slobMagic ∧
      (zeroObject s₁ p size flags).slobPages = s₁.slobPages := by
    unfold zeroObject
    split <;> exact ⟨rfl, rfl, rfl⟩
  have hslab : (zeroObject s₁ p size flags).slabOut = s₁.slabOut ∧
      (zeroObject s₁ p size flags).slabCaches = s₁.slabCaches := by
    unfold zeroObject
    split <;> exact ⟨rfl, rfl⟩
  have hslub : (zeroObject s₁ p size flags).slubOut = s₁.slubOut ∧
      (zeroObject s₁ p size flags).slubPages = s₁.slubPages ∧
      (zeroObject s₁ p size flags).buddyOut = s₁.buddyOut := by
    unfold zeroObject
    split <;> exact ⟨rfl, rfl, rfl⟩
  cases x with
  | slob =>
      obtain ⟨h1, h2, h3⟩ := hg
      refine ⟨by rw [SubAllocators.Out, hslob.1]; exact h1, ?_⟩
      simp [TakesBack, ReturnsTo, hslob, h2, h3]
  | slab =>
      obtain ⟨_, hm, hc, i, hi, ho⟩ := hg
      refine ⟨by simp [SubAllocators.Out, hslab.1, ho], ?_⟩
      have hfirst : (zeroObject s₁ p size flags).firstSlabCache = s.firstSlabCache := by
        unfold SubAllocators.firstSlabCache
        rw [hslab.2, hc]
      simp only [TakesBack, ReturnsTo, objMagic_zeroObject_iff hm (by decide), hfirst, hslab.1,
        ho, hi]
  | slub =>
      obtain ⟨h1, hm, h3⟩ := hg
      refine ⟨by rw [SubAllocators.Out, hslub.1]; exact h1, ?_⟩
      simp [TakesBack, ReturnsTo, objMagic_zeroObject_iff hm (by decide), hslub, h3]
  | buddy =>
      obtain ⟨h1, h2⟩ := hg
      refine ⟨by rw [SubAllocators.Out, hslub.2.2]; exact h1, ?_⟩
      simp only [TakesBack, ReturnsTo, hslub.2.1, h2]
  | stack => exact absurd hg hns

/-- **`kfree` gets a pointer back to the allocator that produced it exactly
under `ReturnsTo`**: that allocator is handed the pointer and afterwards no
longer counts it as allocated.  For every mode, mask, tracking state, size and
flag word without the stack flags, and whatever the sub-allocators answer. -/
theorem kfree_reaches_producer_iff (hf : hasBit flags (flagTemp ||| flagScoped) = false)
    (ha : u.alloc s ans size flags = (u', s', p, x)) (hp : p ≠ 0) :
    (x ∈ (u'.free s' p).2.2 ∧ ¬ (u'.free s' p).2.1.Out x p) ↔ ReturnsTo u s size flags p x := by
  obtain ⟨s₁, hi, rfl, rfl⟩ := alloc_eq ha hp
  have hserved := internalAlloc_served s ans size (u.selectAllocator size flags)
  rw [hi] at hserved
  rcases hserved with ⟨hz, _⟩ | ⟨_, hg⟩
  · exact absurd hz hp
  obtain ⟨hout, hiff⟩ := takesBack_zeroObject_iff (u := u) hg (selectAllocator_ne_stack u size hf) rfl
  rw [free_eq hp, hintFor_trackAllocation, internalFree_takesBack_iff hp hout]
  exact hiff

/-- The sub-allocators once all their size caches have been made and nothing is
out. -/
def bootSubAllocators : SubAllocators :=
  { slobOut := fun _ => false
    slobMagic := fun _ => 0
    slobPages := fun _ => false
    slabOut := fun _ => none
    slabCaches := fun i => i < 12
    slubOut := fun _ => false
    slubCaches := fun i => i < 16
    slubPages := fun _ => false
    objMagic := fun _ => 0
    buddyOut := fun _ => false }

/-- Every allocator has a pointer of its own to give. -/
def bootAnswers : Answers :=
  { slob := 0x1001040
    slab := 0x1002014
    slub := 0x1003014
    stack := 0x1004000
    buddy := fun _ => 0x1005014 }

/-- In server mode with tracking on, a SLUB object goes back to SLUB. -/
theorem kfree_reaches_slub :
    ∃ u' s', ((init .server).enableDebugTracking 0x1010014).alloc bootSubAllocators bootAnswers
        100 flagKernel = (u', s', 0x1003014, .slub) ∧
      (Producer.slub ∈ (u'.free s' 0x1003014).2.2 ∧
        ¬ (u'.free s' 0x1003014).2.1.Out .slub 0x1003014) := by
  refine ⟨_, _, rfl, ?_⟩
  exact (kfree_reaches_producer_iff (by decide) (rfl :
    ((init .server).enableDebugTracking 0x1010014).alloc bootSubAllocators bootAnswers 100
      flagKernel = (_, _, 0x1003014, .slub)) (by decide)).mpr ⟨by decide, Or.inl (by decide)⟩

/-- In desktop mode, as `init` leaves it, a slab object is handed to SLOB and
to no one else, and the slab allocator counts it for ever. -/
theorem desktop_kfree_goes_to_slob :
    ∃ u' s', (init .desktop).alloc bootSubAllocators bootAnswers 100 flagKernel =
        (u', s', 0x1002014, .slab) ∧
      (u'.free s' 0x1002014).2.2 = [.slob] ∧ (u'.free s' 0x1002014).2.1.Out .slab 0x1002014 :=
  ⟨_, _, rfl, by decide, by decide⟩

end KmOS
