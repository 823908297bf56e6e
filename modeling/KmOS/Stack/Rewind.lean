/-
# `KmOS.Stack.Rewind` — restoring a checkpoint rewinds the stack

A checkpoint stores the position in the frame that is current when it is made.
While that frame stays current and its position never moves back by itself,
the checkpoints of a client are a chain of falling positions (`Levels`), and
restoring the innermost one rewinds to it.  An allocation that makes the
allocator grow puts another frame in front; a restore then finds the position
outside the current frame and leaves everything as it is.
-/
import KmOS.Stack.Model
import KmOS.Lib.Run

namespace KmOS

namespace StackAllocator

variable {s s' : StackAllocator}

/-! ## What the operations keep -/

@[simp] theorem modifyFrame_self (p : UInt32) (f : StackFrame → StackFrame) :
    (s.modifyFrame p f).frame p = f (s.frame p) := Function.update_self ..

theorem pushRecord_self (q : UInt32) :
    (s.pushRecord q).record q =
      { savedPos := s.cur.current, timestamp := 0, prev := s.checkpointStack } :=
  Function.update_self ..

theorem pushRecord_other {p q : UInt32} (h : p ≠ q) : (s.pushRecord q).record p = s.record p :=
  Function.update_of_ne h ..

@[simp] theorem moveTo_cur (pos : UInt32) :
    (s.moveTo pos).cur = { s.cur with current := pos } := modifyFrame_self ..

@[simp] theorem modifyStats_cur (f : StackStats → StackStats) : (s.modifyStats f).cur = s.cur := rfl

/-- The same frame, no further back, and all records as they were. -/
structure Onward (s s' : StackAllocator) : Prop where
  initialized : s'.initialized = s.initialized
  currentFrame : s'.currentFrame = s.currentFrame
  checkpointStack : s'.checkpointStack = s.checkpointStack
  record : s'.record = s.record
  start : s'.cur.start = s.cur.start
  current : s.cur.current ≤ s'.cur.current
  live : ∀ p, s.heap.Live p → s'.heap.Live p

theorem Onward.refl (s : StackAllocator) : Onward s s :=
  ⟨rfl, rfl, rfl, rfl, rfl, UInt32.le_refl _, fun _ h => h⟩

theorem Onward.trans {s'' : StackAllocator} (h : Onward s s') (h' : Onward s' s'') :
    Onward s s'' :=
  ⟨h'.initialized.trans h.initialized, h'.currentFrame.trans h.currentFrame,
    h'.checkpointStack.trans h.checkpointStack, h'.record.trans h.record, h'.start.trans h.start,
    UInt32.le_trans h.current h'.current, fun p hp => h'.live p (h.live p hp)⟩

theorem modifyStats_onward (f : StackStats → StackStats) : Onward s (s.modifyStats f) :=
  ⟨rfl, rfl, rfl, rfl, rfl, UInt32.le_refl _, fun _ h => h⟩

theorem moveTo_onward {pos : UInt32} (h : s.cur.current ≤ pos) : Onward s (s.moveTo pos) := by
  refine ⟨rfl, rfl, rfl, rfl, ?_, ?_, fun _ hp => hp⟩
  · rw [moveTo_cur]
  · rw [moveTo_cur]
    exact h

theorem kmalloc_onward (size : UInt32) : Onward s (s.kmalloc size).2 :=
  ⟨rfl, rfl, rfl, rfl, rfl, UInt32.le_refl _, fun _ h => BlockHeap.alloc_live h⟩

/-- The answer of `kmalloc` is the heap's. -/
theorem kmalloc_toNat (size : UInt32) :
    (s.kmalloc size).1.toNat = (s.heap.alloc size.toNat).1 :=
  UInt32.toNat_ofNat_of_lt' (BlockHeap.alloc_lt _ _)

theorem kmalloc_new {size : UInt32} (h : (s.kmalloc size).1 ≠ 0) :
    ¬ s.heap.Live (s.kmalloc size).1.toNat ∧
      (s.kmalloc size).2.heap.Live (s.kmalloc size).1.toNat := by
  rw [kmalloc_toNat]
  refine BlockHeap.alloc_new ?_
  intro h0
  rw [← kmalloc_toNat] at h0
  exact h (UInt32.toNat_inj.mp h0)

/-! ## Allocation -/

/-- `grow` has no capacity left, or no memory. -/
def GrowRefused (s : StackAllocator) (additionalSize : UInt32) : Prop :=
  maxStackSize < s.totalCapacity + s.newFrameSize additionalSize ∨
    ¬ s.heap.Free (s.heap.propose 0) (sizeofStackFrame + s.newFrameSize additionalSize).toNat

theorem allocateFrame_refused {size : UInt32}
    (h : ¬ s.heap.Free (s.heap.propose 0) (sizeofStackFrame + size).toNat) :
    s.allocateFrame size = (0, (s.kmalloc (sizeofStackFrame + size)).2) := by
  have hzero : (s.kmalloc (sizeofStackFrame + size)).1 = 0 := by
    apply UInt32.toNat_inj.mp
    rw [kmalloc_toNat]
    exact BlockHeap.alloc_eq_zero h
  exact if_pos hzero

theorem GrowRefused.grow {n : UInt32} (h : s.GrowRefused n) :
    (s.grow n).1 = false ∧ Onward s (s.grow n).2 := by
  unfold StackAllocator.grow
  by_cases hinit : s.initialized = false
  · rw [if_pos hinit]
    exact ⟨rfl, .refl s⟩
  rw [if_neg hinit]
  by_cases hcap : maxStackSize < s.totalCapacity + s.newFrameSize n
  · rw [if_pos hcap]
    exact ⟨rfl, .refl s⟩
  rw [if_neg hcap, allocateFrame_refused (h.resolve_left hcap)]
  exact ⟨rfl, kmalloc_onward _⟩

/-- An allocation that leaves the frame current and does not move its position
back: nothing is asked for, or the rounded size fits and does not wrap around,
or the allocator would have to grow and cannot. -/
def StaysInFrame (s : StackAllocator) (size alignment : UInt32) : Prop :=
  size = 0 ∨
    (s.endOf size alignment ≤ s.cur.«end» ∧ s.cur.current ≤ s.endOf size alignment) ∨
    (s.cur.«end» < s.endOf size alignment ∧ s.GrowRefused (alignSize size alignment * 2))

instance (n : UInt32) : Decidable (s.GrowRefused n) := by
  unfold GrowRefused
  infer_instance

instance (size alignment : UInt32) : Decidable (s.StaysInFrame size alignment) := by
  unfold StaysInFrame
  infer_instance

theorem take_onward {p n : UInt32} (h : s.cur.current ≤ p + n) : Onward s (s.take p n).2 := by
  have hcut := (moveTo_onward h).trans (modifyStats_onward fun t => t.allocated n)
  unfold take
  generalize (s.moveTo (p + n)).modifyStats (fun t => t.allocated n) = s₁ at hcut ⊢
  dsimp only
  split
  · have hnoted := modifyStats_onward (s := s₁) fun t =>
      { t with corruptionDetected := t.corruptionDetected + 1 }
    exact hcut.trans hnoted
  · exact hcut

theorem StaysInFrame.alloc {size alignment : UInt32} (h : s.StaysInFrame size alignment) :
    Onward s (s.alloc size alignment).2 := by
  have hcheck : Onward s s.countCheck := modifyStats_onward _
  unfold StackAllocator.alloc
  split
  · exact .refl s
  · next hguard =>
      have hsize : size ≠ 0 := fun e => hguard (Or.inr e)
      rcases h.resolve_left hsize with ⟨hfit, hle⟩ | ⟨hfull, hgrow⟩
      · rw [if_neg (show ¬ s.countCheck.cur.«end» < s.countCheck.endOf size alignment from
          UInt32.not_lt.mpr hfit)]
        exact hcheck.trans (take_onward (s := s.countCheck) hle)
      · rw [if_pos (show s.countCheck.cur.«end» < s.countCheck.endOf size alignment from hfull)]
        have hrefused : s.countCheck.GrowRefused (alignSize size alignment * 2) := hgrow
        obtain ⟨hno, hkeep⟩ := hrefused.grow
        generalize s.countCheck.grow (alignSize size alignment * 2) = r at hno hkeep ⊢
        obtain ⟨b, s₂⟩ := r
        obtain rfl : b = false := hno
        exact hcheck.trans hkeep

/-! ## Checkpoints -/

/-- Making a checkpoint finds no memory, or puts a new record in front. -/
theorem createCheckpoint_cases (hinit : s.initialized = true) :
    (s.createCheckpoint.1 = 0 ∧ Onward s s.createCheckpoint.2) ∨
    ∃ s₁, Onward s s₁ ∧ s.createCheckpoint.1 ≠ 0 ∧
      ¬ s.heap.Live s.createCheckpoint.1.toNat ∧ s₁.heap.Live s.createCheckpoint.1.toNat ∧
      s₁.cur = s.cur ∧ s.createCheckpoint.2 = s₁.pushRecord s.createCheckpoint.1 := by
  have hon := kmalloc_onward (s := s) sizeofStackCheckpoint
  have hnew : (s.kmalloc sizeofStackCheckpoint).1 ≠ 0 → _ := kmalloc_new
  have hcur : (s.kmalloc sizeofStackCheckpoint).2.cur = s.cur := rfl
  unfold createCheckpoint
  rw [if_neg (by rw [hinit]; decide)]
  generalize s.kmalloc sizeofStackCheckpoint = r at hon hnew hcur ⊢
  obtain ⟨cp, s₁⟩ := r
  dsimp only at hon hnew hcur ⊢
  by_cases hcp : cp = 0
  · rw [if_pos hcp]
    exact .inl ⟨rfl, hon⟩
  · rw [if_neg hcp]
    exact .inr ⟨s₁, hon, hcp, (hnew hcp).1, (hnew hcp).2, hcur, rfl⟩

/-- The first record of the chain is taken off it, and the loop gives none back. -/
theorem popTo_first {cp : UInt32} (hfirst : s.checkpointStack = cp) :
    s.popTo cp = { s.uncount with checkpointStack := (s.record cp).prev } := by
  obtain ⟨n, hn⟩ : ∃ n, turns = n + 1 := ⟨4294967295, rfl⟩
  have hloop : restoreLoop cp turns s s.checkpointStack = (cp, s) := by
    rw [hn, hfirst]
    exact if_neg (fun h => h.2 rfl)
  unfold popTo
  rw [hloop]
  exact if_pos rfl

/-- Restoring the first checkpoint of the chain, if its position is in the frame. -/
theorem restoreCheckpoint_first {cp : UInt32} (hinit : s.initialized = true) (hcp : cp ≠ 0)
    (hfirst : s.checkpointStack = cp) (hpos : (s.record cp).savedPos ≠ 0)
    (hstart : s.cur.start ≤ (s.record cp).savedPos)
    (hend : (s.record cp).savedPos ≤ s.cur.current) :
    ∃ f, s.restoreCheckpoint cp =
      { (s.moveTo (s.record cp).savedPos).modifyStats f with
        checkpointStack := (s.record cp).prev } := by
  have hvalid : s.isValidPtr (s.record cp).savedPos = true := by
    unfold isValidPtr
    rw [if_neg, decide_eq_true ⟨hstart, hend⟩]
    rintro (h | h)
    · rw [hinit] at h
      cases h
    · exact hpos h
  obtain ⟨f, hfree⟩ : ∃ f, s.freeToCheckpoint cp =
      (s.moveTo (s.record cp).savedPos).modifyStats f := by
    unfold freeToCheckpoint
    refine ⟨_, (if_neg ?_).trans (if_neg ?_)⟩
    · rintro (h | h)
      · rw [hinit] at h
        cases h
      · exact hcp h
    · rw [hvalid]
      decide
  have hs : s.restoreCheckpoint cp = (s.freeToCheckpoint cp).popTo cp := if_neg hcp
  have hfirst' : ((s.moveTo (s.record cp).savedPos).modifyStats f).checkpointStack = cp := hfirst
  rw [hs, hfree, popTo_first hfirst']
  exact ⟨fun t => { f t with checkpointCount := decCount (f t).checkpointCount }, rfl⟩

end StackAllocator

/-! ## Chains of positions -/

/-- The records of `l`, the first at `head`: their positions fall, from `top` on. -/
def Levels (record : UInt32 → StackCheckpoint) : UInt32 → UInt32 → List UInt32 → Prop
  | _, _, [] => True
  | head, top, q :: l =>
      head = q ∧ (record q).savedPos ≤ top ∧ Levels record (record q).prev (record q).savedPos l

namespace Levels

variable {record record' : UInt32 → StackCheckpoint} {head top top' q : UInt32} {l : List UInt32}

theorem mono (h : Levels record head top l) (ht : top ≤ top') : Levels record head top' l := by
  cases l with
  | nil => exact True.intro
  | cons q l => exact ⟨h.1, UInt32.le_trans h.2.1 ht, h.2.2⟩

theorem congr (h : Levels record head top l) (hr : ∀ q ∈ l, record' q = record q) :
    Levels record' head top l := by
  induction l generalizing head top with
  | nil => exact True.intro
  | cons q l ih =>
      obtain ⟨he, hle, ht⟩ := h
      have hq := hr q List.mem_cons_self
      refine ⟨he, ?_, ?_⟩
      · rw [hq]
        exact hle
      · rw [hq]
        exact ih ht (fun p hp => hr p (List.mem_cons_of_mem q hp))

/-- The last position is the lowest. -/
theorem last_le (h : Levels record head top (l ++ [q])) : (record q).savedPos ≤ top := by
  induction l generalizing head top with
  | nil => exact h.2.1
  | cons p l ih => exact UInt32.le_trans (ih h.2.2) h.2.1

end Levels

/-! ## Clients -/

/-- A client, with the checkpoints it has made and not restored, the innermost
first. -/
structure StackClient where
  stack : StackAllocator
  pending : List UInt32

inductive StackCall
  | alloc (size alignment : UInt32)
  | checkpoint
  | restore

/-- What a client does between making a checkpoint and restoring it: nested
checkpoints are restored innermost first. -/
def stackStep (c : StackClient) : StackCall → Option StackClient
  | .alloc size alignment => some { c with stack := (c.stack.alloc size alignment).2 }
  | .checkpoint =>
      some { stack := c.stack.createCheckpoint.2, pending := c.stack.createCheckpoint.1 :: c.pending }
  | .restore =>
      match c.pending with
      | [] => none
      | cp :: l => some { stack := c.stack.restoreCheckpoint cp, pending := l }

/-- No allocation leaves the frame or moves back in it. -/
def KeepsFrame (c : StackClient) : StackCall → Prop
  | .alloc size alignment => c.stack.StaysInFrame size alignment
  | .checkpoint => True
  | .restore => True

instance (c : StackClient) (call : StackCall) : Decidable (KeepsFrame c call) := by
  cases call <;> (unfold KeepsFrame; infer_instance)

/-- The records of a client that holds the checkpoint `cp`; a null pointer is
what `create_checkpoint` without memory gave. -/
def StackClient.records (c : StackClient) (cp : UInt32) : List UInt32 :=
  c.pending.filter (· ≠ 0) ++ [cp]

/-- `cp` can still be rewound to `top`. -/
structure Rewindable (cp top : UInt32) (c : StackClient) : Prop where
  initialized : c.stack.initialized = true
  start : c.stack.cur.start ≤ top
  levels : Levels c.stack.record c.stack.checkpointStack c.stack.cur.current (c.records cp)
  live : ∀ q ∈ c.records cp, q ≠ 0 ∧ c.stack.heap.Live q.toNat
  nodup : (c.records cp).Nodup
  saved : (c.stack.record cp).savedPos = top

namespace Rewindable

variable {cp top : UInt32} {c : StackClient}

theorem top_le (h : Rewindable cp top c) : top ≤ c.stack.cur.current := by
  rw [← h.saved]
  exact h.levels.last_le

/-- Going on in the frame. -/
theorem onward (h : Rewindable cp top c) {s : StackAllocator} (hon : c.stack.Onward s) :
    Rewindable cp top { c with stack := s } where
  initialized := hon.initialized.trans h.initialized
  start := by
    rw [hon.start]
    exact h.start
  levels := by
    rw [hon.record, hon.checkpointStack]
    exact h.levels.mono hon.current
  live := fun q hq => ⟨(h.live q hq).1, hon.live _ (h.live q hq).2⟩
  nodup := h.nodup
  saved := by
    rw [hon.record]
    exact h.saved

/-- A checkpoint more. -/
theorem checkpoint (h : Rewindable cp top c) :
    Rewindable cp top
      { stack := c.stack.createCheckpoint.2, pending := c.stack.createCheckpoint.1 :: c.pending } := by
  rcases StackAllocator.createCheckpoint_cases h.initialized with
    ⟨hnull, hon⟩ | ⟨s₁, hon, hne, hnew, hlive, hcur, hpush⟩
  · have hrec : StackClient.records ⟨c.stack.createCheckpoint.2,
        c.stack.createCheckpoint.1 :: c.pending⟩ cp = c.records cp := by
      unfold StackClient.records
      rw [hnull, List.filter_cons_of_neg (by decide)]
    have h' := h.onward hon
    exact ⟨h'.initialized, h'.start, hrec ▸ h'.levels, hrec ▸ h'.live, hrec ▸ h'.nodup, h'.saved⟩
  · have hrec : StackClient.records ⟨c.stack.createCheckpoint.2,
        c.stack.createCheckpoint.1 :: c.pending⟩ cp =
          c.stack.createCheckpoint.1 :: c.records cp := by
      unfold StackClient.records
      rw [List.filter_cons_of_pos (by simpa using hne), List.cons_append]
    rw [hpush] at hrec ⊢
    generalize c.stack.createCheckpoint.1 = q at hne hnew hlive hrec ⊢
    have hother : ∀ p ∈ c.records cp, p ≠ q := by
      rintro p hp rfl
      exact hnew (h.live p hp).2
    have hkeep : ∀ p ∈ c.records cp, (s₁.pushRecord q).record p = c.stack.record p := by
      intro p hp
      rw [← hon.record]
      exact StackAllocator.pushRecord_other (hother p hp)
    have hself : (s₁.pushRecord q).record q =
        { savedPos := c.stack.cur.current, timestamp := 0, prev := c.stack.checkpointStack } := by
      rw [← hcur, ← hon.checkpointStack]
      exact StackAllocator.pushRecord_self q
    refine ⟨hon.initialized.trans h.initialized, ?_, ?_, ?_, ?_, ?_⟩
    · show s₁.cur.start ≤ top
      rw [hon.start]
      exact h.start
    · rw [hrec]
      refine ⟨rfl, ?_, ?_⟩
      · rw [hself]
        show c.stack.cur.current ≤ s₁.cur.current
        exact hon.current
      · rw [hself]
        exact h.levels.congr hkeep
    · rw [hrec]
      intro p hp
      rcases List.mem_cons.mp hp with rfl | hp
      · exact ⟨hne, hlive⟩
      · exact ⟨(h.live p hp).1, hon.live _ (h.live p hp).2⟩
    · rw [hrec]
      exact List.nodup_cons.mpr ⟨fun hm => hother q hm rfl, h.nodup⟩
    · rw [hkeep cp (List.mem_append_right _ List.mem_cons_self)]
      exact h.saved

/-- The records behind the first one, after it was restored. -/
theorem restore (h : Rewindable cp top c) (htop : top ≠ 0) {q : UInt32} {l : List UInt32}
    (hp : c.pending = q :: l) :
    Rewindable cp top { stack := c.stack.restoreCheckpoint q, pending := l } := by
  by_cases hq : q = 0
  · -- a checkpoint that found no memory
    have hrec : StackClient.records ⟨c.stack.restoreCheckpoint q, l⟩ cp = c.records cp := by
      unfold StackClient.records
      rw [hp, hq, List.filter_cons_of_neg (by decide)]
    have hs : c.stack.restoreCheckpoint q = c.stack := if_pos hq
    rw [hs] at hrec ⊢
    exact ⟨h.initialized, h.start, hrec ▸ h.levels, hrec ▸ h.live, hrec ▸ h.nodup, h.saved⟩
  · have hrec : c.records cp = q :: (l.filter (· ≠ 0) ++ [cp]) := by
      unfold StackClient.records
      rw [hp, List.filter_cons_of_pos (by simpa using hq), List.cons_append]
    have hlevels := h.levels
    have hlive := h.live
    have hnodup := h.nodup
    rw [hrec] at hlevels hlive hnodup
    obtain ⟨hfirst, hle, hrest⟩ := hlevels
    have hlow : top ≤ (c.stack.record q).savedPos := by
      rw [← h.saved]
      exact hrest.last_le
    have hpos : (c.stack.record q).savedPos ≠ 0 := by
      intro h0
      rw [h0] at hlow
      exact htop (UInt32.le_antisymm hlow (UInt32.zero_le))
    obtain ⟨f, hs⟩ := StackAllocator.restoreCheckpoint_first h.initialized hq hfirst hpos
      (UInt32.le_trans h.start hlow) hle
    rw [hs]
    refine ⟨h.initialized, ?_, ?_, ?_, ?_, h.saved⟩
    · show (c.stack.moveTo _).cur.start ≤ top
      rw [StackAllocator.moveTo_cur]
      exact h.start
    · show Levels c.stack.record (c.stack.record q).prev (c.stack.moveTo _).cur.current _
      rw [StackAllocator.moveTo_cur]
      exact hrest
    · exact fun p hp => hlive p (List.mem_cons_of_mem q hp)
    · exact (List.nodup_cons.mp hnodup).2

theorem step (h : Rewindable cp top c) (htop : top ≠ 0) {call : StackCall} {c' : StackClient}
    (hok : KeepsFrame c call) (hs : stackStep c call = some c') : Rewindable cp top c' := by
  cases call with
  | alloc size alignment =>
      obtain rfl := Option.some.inj hs
      exact h.onward (StackAllocator.StaysInFrame.alloc hok)
  | checkpoint =>
      obtain rfl := Option.some.inj hs
      exact h.checkpoint
  | restore =>
      simp only [stackStep] at hs
      split at hs
      · cases hs
      · next q l hp =>
          obtain rfl := Option.some.inj hs
          exact h.restore htop hp

end Rewindable

/-! ## The result -/

/-- **Checkpoints rewind the stack**, in runs whose allocations stay in the
frame. -/
theorem checkpoint_rewinds {s : StackAllocator} (hinit : s.initialized = true)
    (hframe : s.cur.start ≤ s.cur.current ∧ s.cur.current ≠ 0)
    (hcp : s.createCheckpoint.1 ≠ 0) {c : StackClient}
    (hr : Reaches stackStep KeepsFrame { stack := s.createCheckpoint.2, pending := [] } c)
    (hnested : c.pending = []) :
    (c.stack.restoreCheckpoint s.createCheckpoint.1).getTop = s.getTop := by
  have htop : s.getTop = s.cur.current := if_pos hinit
  have h0 : Rewindable s.createCheckpoint.1 s.cur.current
      { stack := s.createCheckpoint.2, pending := [] } := by
    rcases StackAllocator.createCheckpoint_cases hinit with
      ⟨hnull, _⟩ | ⟨s₁, hon, hne, _, hlive, hcur, hpush⟩
    · exact absurd hnull hcp
    · rw [hpush]
      generalize s.createCheckpoint.1 = cp at hne hlive ⊢
      have hself := StackAllocator.pushRecord_self (s := s₁) cp
      refine ⟨hon.initialized.trans hinit, ?_, ⟨rfl, ?_, True.intro⟩, ?_,
        List.pairwise_singleton _ cp, ?_⟩
      · show s₁.cur.start ≤ s.cur.current
        rw [hon.start]
        exact hframe.1
      · rw [hself]
        exact UInt32.le_refl _
      · intro q hq
        obtain rfl := List.mem_singleton.mp hq
        exact ⟨hne, hlive⟩
      · rw [hself, ← hcur]
  have h : Rewindable s.createCheckpoint.1 s.cur.current c :=
    hr.invariant h0 (fun _ _ _ h hok hs => h.step hframe.2 hok hs)
  have hlevels := h.levels
  have hrec : c.records s.createCheckpoint.1 = [s.createCheckpoint.1] := by
    unfold StackClient.records
    rw [hnested]
    rfl
  rw [hrec] at hlevels
  obtain ⟨f, hs⟩ := StackAllocator.restoreCheckpoint_first h.initialized hcp hlevels.1
    (by rw [h.saved]; exact hframe.2) (by rw [h.saved]; exact h.start)
    (by rw [h.saved]; exact h.top_le)
  rw [htop, hs]
  refine (if_pos h.initialized).trans ?_
  show (c.stack.moveTo _).cur.current = s.cur.current
  rw [StackAllocator.moveTo_cur]
  exact h.saved

/-- An allocator before `init`, over a heap with a place every megabyte. -/
def StackAllocator.raw : StackAllocator where
  frame := fun _ =>
    { start := 0, current := 0, «end» := 0, size := 0, magic := 0, canary := 0, prev := 0, next := 0 }
  record := fun _ => { savedPos := 0, timestamp := 0, prev := 0 }
  heap :=
    { propose := fun i => 0x200000 + i * 0x100000
      live := []
      badFrees := 0
      placed := nofun
      apart := .nil }
  currentFrame := 0
  frameList := 0
  checkpointStack := 0
  stats := {}
  totalCapacity := 0
  frameCount := 0
  overflowDetection := false
  underflowDetection := false
  initialized := false

/-- A run with a nested checkpoint in one frame. -/
theorem checkpoint_rewinds_nested :
    ∃ c : StackClient, c.pending = [] ∧
      c.stack.getTop = (StackAllocator.raw.init 4096).getTop + 0x40 ∧
      (c.stack.restoreCheckpoint (StackAllocator.raw.init 4096).createCheckpoint.1).getTop =
        (StackAllocator.raw.init 4096).getTop := by
  obtain ⟨c, hr, hp⟩ := Reaches.of_checked_script stackStep KeepsFrame
    { stack := (StackAllocator.raw.init 4096).createCheckpoint.2, pending := [] }
    (fun c => decide (c.pending = [] ∧
      c.stack.getTop = (StackAllocator.raw.init 4096).getTop + 0x40))
    [.alloc 50 16, .checkpoint, .alloc 1000 64, .restore] (by decide +kernel)
  obtain ⟨hnested, htop⟩ := of_decide_eq_true hp
  exact ⟨c, hnested, htop,
    checkpoint_rewinds (by decide +kernel) (by decide +kernel) (by decide +kernel) hr hnested⟩

/-- One allocation of 5000 bytes makes a stack of 4096 grow, and the checkpoint
made before no longer rewinds it. -/
theorem grown_stack_is_not_rewound :
    let s := StackAllocator.raw.init 4096
    let grown := (s.createCheckpoint.2.alloc 5000 16).2
    s.initialized = true ∧ s.createCheckpoint.1 ≠ 0 ∧
      (s.createCheckpoint.2.alloc 5000 16).1 ≠ 0 ∧
      (grown.restoreCheckpoint s.createCheckpoint.1).getTop = grown.getTop ∧
      grown.getTop ≠ s.getTop := by
  decide +kernel

end KmOS
