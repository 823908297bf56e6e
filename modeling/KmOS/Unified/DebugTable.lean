/-
# `KmOS.Unified.DebugTable` — the records of debug tracking

Records are added by `alloc` and removed by `free`, both only while tracking is
on.  A pointer that is freed while tracking is off keeps its record, and a later
allocation at the same address is then found under it.

What a client knows of an allocation is kept beside the allocator: its address,
its size, and the allocator `alloc` chose for it.
-/
import KmOS.Lib.Keyed
import KmOS.Lib.Run
import KmOS.Unified.Routing

namespace KmOS

open UnifiedAllocator

/-! ## Removal by swapping -/

section Swap

variable {α : Type} {l : List α} {i : Nat} {a : α}

/-- The last element moves into the place of another one, which is removed. -/
theorem set_dropLast_perm (hi : i < l.length) (ha : l.getLast? = some a) :
    ((l.set i a).dropLast).Perm (l.eraseIdx i) := by
  have hlast : (l.set i a).getLast? = some a := by
    rw [List.getLast?_eq_getElem?, List.length_set, List.getElem?_set]
    split
    · rfl
    · rw [← List.getLast?_eq_getElem?]
      exact ha
  have hperm := List.set_perm_cons_eraseIdx hi a
  rw [← List.dropLast_append_getLast? a hlast] at hperm
  exact List.Perm.cons_inv ((List.perm_append_singleton a _).symm.trans hperm)

end Swap

variable {u u' : UnifiedAllocator} {s s' : SubAllocators} {ans : Answers}
  {size flags p : Nat} {x : Producer}

/-! ## The entries -/

/-- The entries of the table; a null table has none. -/
def UnifiedAllocator.entries (u : UnifiedAllocator) : List AllocationMetadata := u.debugTable.getD []

theorem findAllocation_eq (u : UnifiedAllocator) (p : Nat) :
    u.findAllocation p = u.entries.find? (fun m => m.originalPtr = p) := rfl

theorem entries_enable (u : UnifiedAllocator) (table : Nat) :
    (u.enableDebugTracking table).entries = u.entries := by
  cases hd : u.debugTable with
  | some l => simp [enableDebugTracking, entries, hd]
  | none =>
      by_cases ht : table = 0
      · simp [enableDebugTracking, entries, hd, ht]
      · simp [enableDebugTracking, entries, hd, ht]

/-- A new entry at the end, or none. -/
theorem entries_track (u : UnifiedAllocator) (p size flags allocator : Nat) :
    (u.trackAllocation p size flags allocator).entries = u.entries ∨
      (u.trackAllocation p size flags allocator).entries =
        u.entries ++ [{ size := size, flags := flags, allocatorUsed := allocator, originalPtr := p }] := by
  unfold trackAllocation entries
  cases hd : u.debugTable with
  | none => simp [hd]
  | some l =>
      by_cases hfull : u.debugTableSize ≤ l.length
      · simp [hd, hfull]
      · simp [hfull]

/-- The first entry for `p` is gone, and the others are as they were, up to their
order. -/
theorem entries_untrack (u : UnifiedAllocator) (p : Nat) :
    (u.untrackAllocation p).entries.Perm (u.entries.eraseP fun m => m.originalPtr = p) := by
  unfold untrackAllocation entries
  cases hd : u.debugTable with
  | none => simp [hd]
  | some l =>
      rw [Option.getD_some, List.eraseP_eq_eraseIdx]
      cases hi : l.findIdx? (fun m => m.originalPtr = p) with
      | none => simp [hi, hd]
      | some i =>
          have hlt : i < l.length := (List.findIdx?_eq_some_iff_findIdx_eq.mp hi).1
          cases hlast : l.getLast? with
          | none =>
              rw [List.getLast?_eq_none_iff.mp hlast] at hlt
              exact absurd hlt (Nat.not_lt_zero i)
          | some last => simpa [hi, hlast] using set_dropLast_perm hlt hlast

/-! ## The calls -/

/-- What `alloc` does to the debug table. -/
theorem alloc_table (ha : u.alloc s ans size flags = (u', s', p, x)) :
    (p = 0 ∧ u' = u) ∨
      (p ≠ 0 ∧ u' = if u.debugTracking then
        u.trackAllocation p size flags (u.selectAllocator size flags) else u) := by
  by_cases hp : p = 0
  · left
    refine ⟨hp, ?_⟩
    unfold UnifiedAllocator.alloc at ha
    split at ha
    · exact (Prod.mk.inj ha).1.symm
    · dsimp only at ha
      split at ha
      · exact (Prod.mk.inj ha).1.symm
      · next hne =>
          obtain ⟨_, ha⟩ := Prod.mk.inj ha
          obtain ⟨_, ha⟩ := Prod.mk.inj ha
          exact absurd ((Prod.mk.inj ha).1.trans hp) hne
  · obtain ⟨_, _, _, hu⟩ := alloc_eq ha hp
    exact .inr ⟨hp, hu⟩

/-- `free` removes an entry only while tracking is on. -/
theorem free_table (hp : p ≠ 0) :
    (u.free s p).1.entries.Perm
      (if u.debugTracking then u.entries.eraseP (fun m => m.originalPtr = p) else u.entries) := by
  unfold UnifiedAllocator.free
  rw [if_neg hp]
  cases ht : u.debugTracking with
  | false => exact .refl _
  | true =>
      simp only [if_true]
      cases hf : u.findAllocation p with
      | none =>
          rw [findAllocation_eq, List.find?_eq_none] at hf
          rw [List.eraseP_of_forall_not hf]
      | some m => exact entries_untrack u p

/-- The name a record has for an allocator. -/
def Producer.policy : Producer → Nat
  | .buddy => policyBuddy
  | .slab => policySlab
  | .slob => policySlob
  | .slub => policySlub
  | .stack => policyStack

theorem slubAlloc_policy (s : SubAllocators) (ans : Answers) (size : Nat) :
    (s.slubAlloc ans size).2.2 = .buddy ∨ (s.slubAlloc ans size).2.2 = .slub := by
  unfold SubAllocators.slubAlloc
  split
  · exact .inr rfl
  · split
    · exact .inl rfl
    · split <;> exact .inr rfl

theorem askPreferred_policy (s : SubAllocators) (ans : Answers) (size preferred : Nat) :
    (askPreferred s ans size preferred).2.2 = .buddy ∨
      (askPreferred s ans size preferred).2.2.policy = preferred := by
  unfold askPreferred
  split
  · next h => exact .inr h.symm
  · split
    · next h => exact .inr h.symm
    · split
      · next h =>
          refine (slubAlloc_policy s ans size).imp id fun hs => ?_
          rw [hs]
          exact h.symm
      · split
        · next h => exact .inr h.symm
        · exact .inl rfl

/-- Only the buddy allocator serves a request that another one was chosen for. -/
theorem internalAlloc_policy (s : SubAllocators) (ans : Answers) (size preferred : Nat) :
    (internalAlloc s ans size preferred).2.2 = .buddy ∨
      (internalAlloc s ans size preferred).2.2.policy = preferred := by
  have h := askPreferred_policy s ans size preferred
  unfold internalAlloc
  dsimp only
  split
  · exact .inl rfl
  · exact h

/-! ## Clients -/

/-- An allocation that is out: `allocator` is the one `alloc` chose and counts it
under, `producer` the one that served it. -/
structure Allocation where
  originalPtr : Nat
  size : Nat
  allocator : Nat
  producer : Producer
  deriving DecidableEq

structure DebugClient where
  unified : UnifiedAllocator
  subs : SubAllocators
  live : List Allocation

inductive DebugCall
  | enableDebugTracking (table : Nat)
  | disableDebugTracking
  | alloc (ans : Answers) (size flags : Nat)
  | free (p : Nat)

/-- The allocation `alloc` makes. -/
def newAllocation (u : UnifiedAllocator) (size flags p : Nat) (x : Producer) : Allocation where
  originalPtr := p
  size := size
  allocator := u.selectAllocator size flags
  producer := x

/-- The sub-allocators answer any address that is not out. -/
def debugStep (c : DebugClient) : DebugCall → Option DebugClient
  | .enableDebugTracking table =>
      some { c with unified := c.unified.enableDebugTracking table }
  | .disableDebugTracking => some { c with unified := c.unified.disableDebugTracking }
  | .alloc ans size flags =>
      match c.unified.alloc c.subs ans size flags with
      | (u, s, p, x) =>
          if p = 0 then some { c with unified := u, subs := s }
          else if p ∈ c.live.map Allocation.originalPtr then none
          else
            some
              { unified := u
                subs := s
                live := newAllocation c.unified size flags p x :: c.live }
  | .free p =>
      match c.unified.free c.subs p with
      | (u, s, _) =>
          some { unified := u, subs := s, live := c.live.filter fun a => a.originalPtr ≠ p }

/-- What `find_allocation` returns is about an allocation that is out, and no
address occurs twice. -/
structure Coherent (c : DebugClient) : Prop where
  found : ∀ p m, c.unified.findAllocation p = some m → ∃ a ∈ c.live, a.originalPtr = p ∧
    m.size = a.size ∧ m.allocatorUsed = a.allocator
  once : (c.unified.entries.map AllocationMetadata.originalPtr).Nodup
  live : (c.live.map Allocation.originalPtr).Nodup
  null : 0 ∉ c.live.map Allocation.originalPtr
  served : ∀ a ∈ c.live, a.producer = .buddy ∨ a.producer.policy = a.allocator

/-- While tracking is off, no pointer is freed that the table has an entry for. -/
def TracksFree (c : DebugClient) : DebugCall → Prop
  | .free p => c.unified.debugTracking = true ∨ p = 0 ∨ c.unified.findAllocation p = none
  | _ => True

/-! ## One call -/

/-- The entry `m` is about an allocation of `l`. -/
def Backed (l : List Allocation) (m : AllocationMetadata) : Prop :=
  ∃ a ∈ l, a.originalPtr = m.originalPtr ∧ m.size = a.size ∧ m.allocatorUsed = a.allocator

theorem mem_of_findAllocation {m : AllocationMetadata} (h : u.findAllocation p = some m) :
    m ∈ u.entries ∧ m.originalPtr = p := by
  rw [findAllocation_eq] at h
  exact ⟨List.mem_of_find?_eq_some h, by simpa using List.find?_some h⟩

theorem findAllocation_eq_none : u.findAllocation p = none ↔ ∀ m ∈ u.entries, m.originalPtr ≠ p := by
  rw [findAllocation_eq, List.find?_eq_none]
  simp

namespace Coherent

variable {c c' : DebugClient}

theorem backed (h : Coherent c) {m : AllocationMetadata} (hm : m ∈ c.unified.entries) :
    Backed c.live m := by
  cases hf : c.unified.findAllocation m.originalPtr with
  | none => exact absurd rfl (findAllocation_eq_none.mp hf m hm)
  | some m' =>
      obtain ⟨hm', he⟩ := mem_of_findAllocation hf
      obtain rfl : m' = m := List.inj_on_of_nodup_map h.once hm' hm he
      exact h.found _ _ hf

theorem of_backed (hb : ∀ m ∈ c.unified.entries, Backed c.live m)
    (honce : (c.unified.entries.map AllocationMetadata.originalPtr).Nodup)
    (hlive : (c.live.map Allocation.originalPtr).Nodup)
    (hnull : 0 ∉ c.live.map Allocation.originalPtr)
    (hserved : ∀ a ∈ c.live, a.producer = .buddy ∨ a.producer.policy = a.allocator) :
    Coherent c := by
  refine ⟨fun p m hf => ?_, honce, hlive, hnull, hserved⟩
  obtain ⟨hm, rfl⟩ := mem_of_findAllocation hf
  exact hb m hm

/-- The same entries and the same allocations. -/
theorem same (h : Coherent c) {u : UnifiedAllocator} (he : u.entries = c.unified.entries)
    (s : SubAllocators) : Coherent { unified := u, subs := s, live := c.live } := by
  refine of_backed ?_ ?_ h.live h.null h.served
  · intro m hm
    exact h.backed (he ▸ hm)
  · rw [he]
    exact h.once

/-- An allocation more. -/
theorem add (h : Coherent c) {size flags p : Nat} {x : Producer} {u : UnifiedAllocator}
    (s : SubAllocators) (hp0 : p ≠ 0) (hp : p ∉ c.live.map Allocation.originalPtr)
    (hx : x = .buddy ∨ x.policy = c.unified.selectAllocator size flags)
    (hu : u.entries = c.unified.entries ∨ u.entries = c.unified.entries ++
      [{ size := size, flags := flags, allocatorUsed := c.unified.selectAllocator size flags,
         originalPtr := p }]) :
    Coherent
      { unified := u, subs := s, live := newAllocation c.unified size flags p x :: c.live } := by
  have hold : ∀ m ∈ c.unified.entries,
      Backed (newAllocation c.unified size flags p x :: c.live) m := by
    intro m hm
    obtain ⟨a, ha, hrest⟩ := h.backed hm
    exact ⟨a, List.mem_cons_of_mem _ ha, hrest⟩
  have hfresh : ∀ m ∈ c.unified.entries, m.originalPtr ≠ p := by
    rintro m hm rfl
    obtain ⟨a, ha, he, _⟩ := h.backed hm
    exact hp (List.mem_map.mpr ⟨a, ha, he⟩)
  refine of_backed ?_ ?_ (List.nodup_cons.mpr ⟨hp, h.live⟩) ?_ ?_
  · intro m hm
    rcases hu with hu | hu
    · exact hold m (hu ▸ hm)
    · rw [show DebugClient.unified _ = u from rfl, hu] at hm
      rcases List.mem_append.mp hm with hm | hm
      · exact hold m hm
      · obtain rfl := List.mem_singleton.mp hm
        exact ⟨_, List.mem_cons_self, rfl, rfl, rfl⟩
  · rcases hu with hu | hu
    · exact hu.symm ▸ h.once
    · rw [show DebugClient.unified _ = u from rfl, hu, List.map_append]
      refine List.nodup_append.mpr ⟨h.once, List.pairwise_singleton _ _, ?_⟩
      intro q hq r hr
      obtain ⟨m, hm, rfl⟩ := List.mem_map.mp hq
      obtain rfl := List.mem_singleton.mp hr
      exact hfresh m hm
  · exact fun hm => (List.mem_cons.mp hm).elim (fun e => hp0 e.symm) h.null
  · intro a ha
    rcases List.mem_cons.mp ha with rfl | ha
    · exact hx
    · exact h.served a ha

/-- An allocation less: no entry for it is left. -/
theorem remove (h : Coherent c) {p : Nat} {u : UnifiedAllocator} (s : SubAllocators)
    (hsub : ∀ m ∈ u.entries, m ∈ c.unified.entries ∧ m.originalPtr ≠ p)
    (honce : (u.entries.map AllocationMetadata.originalPtr).Nodup) :
    Coherent
      { unified := u, subs := s, live := c.live.filter fun a => a.originalPtr ≠ p } := by
  have hkept : (c.live.filter fun a => a.originalPtr ≠ p).Sublist c.live := List.filter_sublist
  refine of_backed ?_ honce ?_ ?_ ?_
  · intro m hm
    obtain ⟨hm, hne⟩ := hsub m hm
    obtain ⟨a, ha, he, hrest⟩ := h.backed hm
    refine ⟨a, List.mem_filter.mpr ⟨ha, ?_⟩, he, hrest⟩
    rw [he]
    exact decide_eq_true hne
  · exact h.live.sublist (hkept.map _)
  · exact fun hm => h.null ((hkept.map _).subset hm)
  · exact fun a ha => h.served a (hkept.subset ha)

theorem alloc_step (h : Coherent c) {ans : Answers} {size flags : Nat}
    (hs : debugStep c (.alloc ans size flags) = some c') : Coherent c' := by
  simp only [debugStep] at hs
  generalize ha : c.unified.alloc c.subs ans size flags = r at hs
  obtain ⟨u, s, p, x⟩ := r
  dsimp only at hs
  have htable := alloc_table ha
  split at hs
  · next hp =>
      obtain rfl := Option.some.inj hs
      rcases htable with ⟨_, rfl⟩ | ⟨hne, _⟩
      · exact h.same rfl s
      · exact absurd hp hne
  · next hp =>
      split at hs
      · cases hs
      · next hnew =>
          obtain rfl := Option.some.inj hs
          obtain ⟨s₁, hi, _, hu⟩ := alloc_eq ha hp
          have hx := internalAlloc_policy c.subs ans size (c.unified.selectAllocator size flags)
          rw [hi] at hx
          refine h.add s hp hnew hx ?_
          rw [hu]
          split
          · exact entries_track ..
          · exact .inl rfl

theorem free_iff (h : Coherent c) {p : Nat} (hs : debugStep c (.free p) = some c') :
    Coherent c' ↔ TracksFree c (.free p) := by
  simp only [debugStep] at hs
  have htable : p ≠ 0 → _ := free_table (u := c.unified) (s := c.subs)
  have hnull : p = 0 → (c.unified.free c.subs p).1 = c.unified := by
    rintro rfl
    rfl
  generalize c.unified.free c.subs p = r at hs htable hnull
  obtain ⟨u, s, calls⟩ := r
  obtain rfl := Option.some.inj hs
  dsimp only at htable hnull
  by_cases hp : p = 0
  · obtain rfl := hnull hp
    refine iff_of_true ?_ (.inr (.inl hp))
    refine h.remove s (fun m hm => ⟨hm, ?_⟩) h.once
    rintro rfl
    obtain ⟨a, ha, he, _⟩ := h.backed hm
    exact h.null (hp ▸ he ▸ List.mem_map_of_mem ha)
  have hperm := htable hp
  cases ht : c.unified.debugTracking with
  | true =>
      rw [ht, if_pos rfl] at hperm
      refine iff_of_true ?_ (.inl ht)
      refine h.remove s (fun m hm => mem_eraseP_of_nodup h.once (hperm.mem_iff.mp hm)) ?_
      exact (hperm.map _).nodup_iff.mpr (h.once.sublist (List.eraseP_sublist.map _))
  | false =>
      rw [ht, if_neg Bool.false_ne_true] at hperm
      constructor
      · intro h'
        refine .inr (.inr (findAllocation_eq_none.mpr fun m hm e => ?_))
        -- the entry is still there, and its allocation is not
        obtain ⟨a, ha, he, _⟩ := h'.backed (hperm.mem_iff.mpr hm)
        have hne := (List.mem_filter.mp ha).2
        rw [he, e] at hne
        exact absurd rfl (of_decide_eq_true hne)
      · rintro (hon | h0 | hnone)
        · rw [ht] at hon
          cases hon
        · exact absurd h0 hp
        · refine h.remove s (fun m hm => ?_) ((hperm.map _).nodup_iff.mpr h.once)
          have hm := hperm.mem_iff.mp hm
          exact ⟨hm, findAllocation_eq_none.mp hnone m hm⟩

/-- **One call** keeps the table coherent exactly if it meets the condition. -/
theorem step_iff (h : Coherent c) {call : DebugCall} (hs : debugStep c call = some c') :
    Coherent c' ↔ TracksFree c call := by
  cases call with
  | enableDebugTracking table =>
      obtain rfl := Option.some.inj hs
      exact iff_of_true (h.same (entries_enable c.unified table) c.subs) True.intro
  | disableDebugTracking =>
      obtain rfl := Option.some.inj hs
      have he : c.unified.disableDebugTracking.entries = c.unified.entries := rfl
      exact iff_of_true (h.same he c.subs) True.intro
  | alloc ans size flags => exact iff_of_true (h.alloc_step hs) True.intro
  | free p => exact h.free_iff hs

end Coherent

/-! ## The result -/

instance (c : DebugClient) (call : DebugCall) : Decidable (TracksFree c call) := by
  cases call <;> (unfold TracksFree; infer_instance)

/-- `free` is given no hint, or the allocator chosen for what is out at `p`. -/
theorem Coherent.hintFor {c : DebugClient} (h : Coherent c) (p : Nat) :
    c.unified.hintFor p = 0 ∨
      ∃ a ∈ c.live, a.originalPtr = p ∧ c.unified.hintFor p = a.allocator := by
  unfold UnifiedAllocator.hintFor
  cases c.unified.debugTracking with
  | false => exact .inl rfl
  | true =>
      simp only [if_true]
      cases hf : c.unified.findAllocation p with
      | none => exact .inl rfl
      | some m =>
          obtain ⟨a, ha, he, _, hall⟩ := h.found p m hf
          exact .inr ⟨a, ha, he, hall⟩

/-- `realloc` copies nothing, or no more than what is out at `p`. -/
theorem Coherent.realloc {c : DebugClient} (h : Coherent c) (ans : Answers) (p n : Nat) :
    (c.unified.realloc c.subs ans p n).2.2.2 = 0 ∨
      ∃ a ∈ c.live, a.originalPtr = p ∧ (c.unified.realloc c.subs ans p n).2.2.2 = min a.size n := by
  unfold UnifiedAllocator.realloc
  split
  · exact .inl rfl
  split
  · exact .inl rfl
  dsimp only
  split
  · exact .inl rfl
  cases hf : c.unified.findAllocation p with
  | none => exact .inl (Nat.zero_min n)
  | some m =>
      obtain ⟨a, ha, he, hsize, _⟩ := h.found p m hf
      exact .inr ⟨a, ha, he, congrArg (min · n) hsize⟩

/-- A client after `init`. -/
def DebugClient.start (mode : SystemMode) (s : SubAllocators) : DebugClient :=
  { unified := UnifiedAllocator.init mode, subs := s, live := [] }

/-- **The debug table is coherent** in every state of a run in which no pointer
with an entry is freed while tracking is off, so `free` and `realloc` act on
what is out; the first such `free` breaks this. -/
theorem debug_table_coherent {mode : SystemMode} {s : SubAllocators} {c : DebugClient}
    (hr : Reaches debugStep TracksFree (.start mode s) c) :
    Coherent c ∧
      (∀ p, c.unified.hintFor p = 0 ∨
        ∃ a ∈ c.live, a.originalPtr = p ∧ c.unified.hintFor p = a.allocator) ∧
      (∀ ans p n, (c.unified.realloc c.subs ans p n).2.2.2 = 0 ∨
        ∃ a ∈ c.live, a.originalPtr = p ∧
          (c.unified.realloc c.subs ans p n).2.2.2 = min a.size n) ∧
      ∀ call c', debugStep c call = some c' → (Coherent c' ↔ TracksFree c call) := by
  have h0 : Coherent (.start mode s) :=
    ⟨fun _ _ hf => (nomatch hf), List.nodup_nil, List.nodup_nil, List.not_mem_nil, nofun⟩
  have h : Coherent c := hr.invariant h0 fun _ _ _ h hok hs => (h.step_iff hs).mpr hok
  exact ⟨h, h.hintFor, h.realloc, fun _ _ hs => h.step_iff hs⟩

/-- One allocation with an entry, and one made and freed while tracking is off. -/
theorem debug_table_coherent_toggled :
    ∃ c : DebugClient, (c.unified.findAllocation 0x1002014).map AllocationMetadata.size = some 100 ∧
      Coherent c := by
  obtain ⟨c, hr, hp⟩ := Reaches.of_checked_script debugStep TracksFree
    (.start .desktop bootSubAllocators)
    (fun c => decide
      ((c.unified.findAllocation 0x1002014).map AllocationMetadata.size = some 100))
    [.enableDebugTracking 0x1010014, .alloc bootAnswers 100 0, .disableDebugTracking,
      .alloc { bootAnswers with slab := 0x1002100 } 60 0, .free 0x1002100,
      .enableDebugTracking 0x1010014] (by decide +kernel)
  exact ⟨c, of_decide_eq_true hp, (debug_table_coherent hr).1⟩

/-- A pointer freed while tracking is off, and its address given out again: the
table says 100 bytes where 40 are out, and has the address twice. -/
theorem untracked_free_leaves_entry :
    ∃ c : DebugClient,
      Reaches debugStep (fun _ _ => True) (.start .desktop bootSubAllocators) c ∧
      c.live.map (fun a => (a.originalPtr, a.size)) = [(0x1002014, 40)] ∧
      (c.unified.findAllocation 0x1002014).map AllocationMetadata.size = some 100 ∧
      ¬ (c.unified.entries.map AllocationMetadata.originalPtr).Nodup ∧
      (c.unified.realloc c.subs { bootAnswers with slab := 0x1002100 } 0x1002014 80).2.2.2 = 80 := by
  obtain ⟨c, hr, hp⟩ := Reaches.of_script debugStep (fun _ _ => True)
    (.start .desktop bootSubAllocators)
    (fun c => decide
      (c.live.map (fun a => (a.originalPtr, a.size)) = [(0x1002014, 40)] ∧
        (c.unified.findAllocation 0x1002014).map AllocationMetadata.size = some 100 ∧
        ¬ (c.unified.entries.map AllocationMetadata.originalPtr).Nodup ∧
        (c.unified.realloc c.subs { bootAnswers with slab := 0x1002100 } 0x1002014 80).2.2.2 = 80))
    [.enableDebugTracking 0x1010014, .alloc bootAnswers 100 0, .disableDebugTracking,
      .free 0x1002014, .enableDebugTracking 0x1010014, .alloc bootAnswers 40 0]
    (fun _ _ _ => True.intro) (by decide +kernel)
  exact ⟨c, hr, of_decide_eq_true hp⟩

end KmOS
