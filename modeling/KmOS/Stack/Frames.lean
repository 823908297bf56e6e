/-
# `KmOS.Stack.Frames` — the chain of frames and the capacity

The frames of a stack allocator are a doubly linked list from `frame_list`, and
the last of them is the current one.  `grow` adds a frame behind it,
`shrink_to_fit` takes the last one off while nothing is allocated in it, and
everything else moves positions only (`KeepsFrames`).

Capacity and frame size are added in 32-bit arithmetic before they are compared
with `MAX_STACK_SIZE`.  A request near 2^32 passes the comparison; and an
allocation that doubles a size from 2^31 on asks for less than it needs, and
has switched frames when it finds out.  `KeepsFrameChain` is the condition that
leaves these calls out.
-/
import KmOS.Lib.Dll
import KmOS.Lib.Regions
import KmOS.Stack.Records

namespace KmOS

namespace StackAllocator

variable {s s' : StackAllocator} {p q size n : UInt32} {l : List UInt32}

theorem modifyFrame_of_ne {f : StackFrame → StackFrame} (h : q ≠ p) :
    (s.modifyFrame p f).frame q = s.frame q := Function.update_of_ne h ..

def nextFrame (s : StackAllocator) (p : UInt32) : UInt32 := (s.frame p).next

def prevFrame (s : StackAllocator) (p : UInt32) : UInt32 := (s.frame p).prev

/-- The frames are `l`: a chain from `frame_list` to `current_frame`, counted
and measured, each in a block of its own. -/
structure Framed (s : StackAllocator) (l : List UInt32) : Prop where
  links : Dll 0 s.nextFrame s.prevFrame 0 s.frameList l
  nodup : l.Nodup
  last : l.getLast? = some s.currentFrame
  count : s.frameCount.toNat = l.length
  capacity : s.totalCapacity.toNat = (l.map fun p => (s.frame p).size.toNat).sum
  bounded : s.totalCapacity ≤ maxStackSize
  backed : ∀ p ∈ l, (p.toNat, sizeofStackFrame.toNat + (s.frame p).size.toNat) ∈ s.heap.live

namespace Framed

theorem current_mem (h : Framed s l) : s.currentFrame ∈ l := List.mem_of_getLast? h.last

theorem ne_zero (h : Framed s l) (hp : p ∈ l) : p ≠ 0 := h.links.ne_null p hp

theorem size_le (h : Framed s l) (hp : p ∈ l) : (s.frame p).size.toNat ≤ s.totalCapacity.toNat := by
  rw [h.capacity]
  exact le_sum_of_mem (fun p => (s.frame p).size.toNat) hp

theorem frameList_ne_zero (h : Framed s l) : s.frameList ≠ 0 := by
  intro h0
  have hnil : l = [] := h.links.head_eq_null_iff.mp h0
  rw [hnil] at h
  exact absurd h.current_mem List.not_mem_nil

end Framed

/-! ## Calls that leave the chain alone -/

/-- Positions and records aside, nothing is different; blocks of the size of a
record may have been given back. -/
structure KeepsFrames (s s' : StackAllocator) : Prop where
  initialized : s'.initialized = s.initialized
  currentFrame : s'.currentFrame = s.currentFrame
  frameList : s'.frameList = s.frameList
  totalCapacity : s'.totalCapacity = s.totalCapacity
  frameCount : s'.frameCount = s.frameCount
  frame : ∀ p, s'.frame p = { s.frame p with current := (s'.frame p).current }
  position : ∀ p, p ≠ s.currentFrame → (s'.frame p).current = (s.frame p).current
  live : ∀ b ∈ s.heap.live, b.2 ≠ sizeofStackCheckpoint.toNat → b ∈ s'.heap.live

namespace KeepsFrames

theorem refl (s : StackAllocator) : KeepsFrames s s :=
  ⟨rfl, rfl, rfl, rfl, rfl, fun _ => rfl, fun _ _ => rfl, fun _ hb _ => hb⟩

theorem trans {s'' : StackAllocator} (h : KeepsFrames s s') (h' : KeepsFrames s' s'') :
    KeepsFrames s s'' where
  initialized := h'.initialized.trans h.initialized
  currentFrame := h'.currentFrame.trans h.currentFrame
  frameList := h'.frameList.trans h.frameList
  totalCapacity := h'.totalCapacity.trans h.totalCapacity
  frameCount := h'.frameCount.trans h.frameCount
  frame := fun p => by rw [h'.frame p, h.frame p]
  position := fun p hp =>
    (h'.position p (by rw [h.currentFrame]; exact hp)).trans (h.position p hp)
  live := fun b hb hne => h'.live b (h.live b hb hne) hne

theorem nextFrame (h : KeepsFrames s s') : s'.nextFrame = s.nextFrame := by
  funext p
  unfold StackAllocator.nextFrame
  rw [h.frame p]

theorem prevFrame (h : KeepsFrames s s') : s'.prevFrame = s.prevFrame := by
  funext p
  unfold StackAllocator.prevFrame
  rw [h.frame p]

theorem frame_size (h : KeepsFrames s s') (p : UInt32) : (s'.frame p).size = (s.frame p).size := by
  rw [h.frame p]

/-- The heap aside, nothing has changed but the position of the current frame. -/
theorem of_moved (pos : UInt32) (hi : s'.initialized = s.initialized)
    (hc : s'.currentFrame = s.currentFrame) (hl : s'.frameList = s.frameList)
    (ht : s'.totalCapacity = s.totalCapacity) (hn : s'.frameCount = s.frameCount)
    (hf : s'.frame = (s.moveTo pos).frame) (hh : s'.heap = s.heap) : KeepsFrames s s' := by
  refine ⟨hi, hc, hl, ht, hn, fun p => ?_, fun p hp => ?_, fun b hb _ => hh ▸ hb⟩
  · rw [hf]
    by_cases hp : p = s.currentFrame
    · rw [hp, moveTo, modifyFrame_self]
    · rw [moveTo, modifyFrame_of_ne hp]
  · rw [hf]
    rw [moveTo, modifyFrame_of_ne hp]

end KeepsFrames

theorem Framed.keeps (h : Framed s l) (hk : KeepsFrames s s') : Framed s' l where
  links := by
    rw [hk.frameList, hk.nextFrame, hk.prevFrame]
    exact h.links
  nodup := h.nodup
  last := by
    rw [hk.currentFrame]
    exact h.last
  count := by
    rw [hk.frameCount]
    exact h.count
  capacity := by
    simp only [hk.totalCapacity, hk.frame_size]
    exact h.capacity
  bounded := by
    rw [hk.totalCapacity]
    exact h.bounded
  backed := fun p hp => by
    rw [hk.frame_size]
    refine hk.live _ (h.backed p hp) ?_
    unfold sizeofStackFrame sizeofStackCheckpoint
    simp only [UInt32.reduceToNat]
    omega

theorem moveTo_keepsFrames (pos : UInt32) (f : StackStats → StackStats) :
    KeepsFrames s ((s.moveTo pos).modifyStats f) :=
  .of_moved pos rfl rfl rfl rfl rfl rfl rfl

theorem countCheck_keepsFrames : KeepsFrames s s.countCheck :=
  ⟨rfl, rfl, rfl, rfl, rfl, fun _ => rfl, fun _ _ => rfl, fun _ hb _ => hb⟩

theorem kmalloc_keepsFrames (size : UInt32) : KeepsFrames s (s.kmalloc size).2 :=
  ⟨rfl, rfl, rfl, rfl, rfl, fun _ => rfl, fun _ _ => rfl, fun _ hb _ => BlockHeap.alloc_mem hb _⟩

theorem take_keepsFrames (p n : UInt32) : KeepsFrames s (s.take p n).2 := by
  unfold take
  dsimp only
  split <;> exact .of_moved (p + n) rfl rfl rfl rfl rfl rfl rfl

theorem freeToCheckpoint_keepsFrames (p : UInt32) : KeepsFrames s (s.freeToCheckpoint p) := by
  unfold freeToCheckpoint
  split
  · exact .refl s
  · dsimp only
    split
    · exact .refl s
    · exact moveTo_keepsFrames ..

theorem createCheckpoint_keepsFrames : KeepsFrames s s.createCheckpoint.2 := by
  have hkeep : KeepsFrames s (s.kmalloc sizeofStackCheckpoint).2 := kmalloc_keepsFrames _
  unfold createCheckpoint
  split
  · exact .refl s
  · generalize s.kmalloc sizeofStackCheckpoint = r at hkeep ⊢
    obtain ⟨cp, s₁⟩ := r
    dsimp only at hkeep ⊢
    split
    · exact hkeep
    · exact hkeep.trans
        ⟨rfl, rfl, rfl, rfl, rfl, fun _ => rfl, fun _ _ => rfl, fun _ hb _ => hb⟩

/-! ### Records given back -/

/-- Giving back a record takes no other block off the heap. -/
theorem kfree_keepsFrames (hp : p ≠ 0) (hlive : s.LiveRecord p) (ht : s'.totalCapacity = s.totalCapacity)
    (hi : s'.initialized = s.initialized) (hc : s'.currentFrame = s.currentFrame)
    (hl : s'.frameList = s.frameList) (hn : s'.frameCount = s.frameCount) (hf : s'.frame = s.frame)
    (hh : s'.heap = s.heap.free p.toNat) : KeepsFrames s s' := by
  have hp0 : p.toNat ≠ 0 := fun h => hp (UInt32.toNat_inj.mp h)
  refine ⟨hi, hc, hl, ht, hn, fun q => ?_, fun q _ => ?_, fun b hb hne => ?_⟩
  · rw [hf]
  · rw [hf]
  · rw [hh, BlockHeap.mem_free hp0]
    refine ⟨hb, fun he => hne ?_⟩
    rw [BlockHeap.eq_of_mem hb hlive he]

theorem restoreLoop_keepsFrames {cp : UInt32} {fuel : Nat} (hl : Sll 0 s.link cp l)
    (hnd : l.Nodup) (hlive : ∀ q ∈ l, s.LiveRecord q) :
    KeepsFrames s (restoreLoop p fuel s cp).2 := by
  induction fuel generalizing s cp l with
  | zero => exact .refl s
  | succ fuel ih =>
      unfold restoreLoop
      split
      · next hgo =>
          obtain ⟨t, rfl, _⟩ := hl.exists_cons hgo.1
          obtain ⟨hq, hnd'⟩ := List.nodup_cons.mp hnd
          have hcp := hlive cp List.mem_cons_self
          have hfree : Released s (s.kfree cp).uncount [cp] := .one hgo.1 hcp rfl rfl
          have hone : KeepsFrames s (s.kfree cp).uncount :=
            kfree_keepsFrames hgo.1 hcp rfl rfl rfl rfl rfl rfl rfl
          refine hone.trans (ih (s := (s.kfree cp).uncount) hl.2.2 hnd' fun a ha => ?_)
          refine (hfree.live a).mpr ⟨hlive a (List.mem_cons_of_mem cp ha), fun hm => ?_⟩
          exact hq (List.mem_singleton.mp hm ▸ ha)
      · exact .refl s

theorem dropRecords_keepsFrames {fuel : Nat} (h : Chained s l) : KeepsFrames s (dropRecords fuel s) := by
  induction fuel generalizing s l with
  | zero => exact .refl s
  | succ fuel ih =>
      unfold dropRecords
      split
      · exact .refl s
      · next hne =>
          obtain ⟨t, rfl, _⟩ := h.links.exists_cons hne
          have hcp := h.live _ List.mem_cons_self
          have hone : KeepsFrames s s.dropFirst :=
            kfree_keepsFrames hne hcp rfl rfl rfl rfl rfl rfl rfl
          have hfree : Released s s.dropFirst [s.checkpointStack] := .one hne hcp rfl rfl
          obtain ⟨hnot, hnd⟩ := List.nodup_cons.mp h.nodup
          have hrest : Chained s.dropFirst t := by
            refine ⟨h.links.2.2, hnd, fun a ha => (hfree.live a).mpr
              ⟨h.live a (List.mem_cons_of_mem _ ha), fun hm => ?_⟩⟩
            exact hnot (List.mem_singleton.mp hm ▸ ha)
          exact hone.trans (ih hrest)

theorem restoreCheckpoint_keepsFrames (h : Chained s l) (p : UInt32) :
    KeepsFrames s (s.restoreCheckpoint p) := by
  have hchain := freeToCheckpoint_chained h p
  have hmoved : KeepsFrames s (s.freeToCheckpoint p) := freeToCheckpoint_keepsFrames p
  unfold restoreCheckpoint
  split
  · exact .refl s
  · refine hmoved.trans ?_
    generalize s.freeToCheckpoint p = s₁ at hchain ⊢
    have hloop : KeepsFrames s₁ (restoreLoop p turns s₁ s₁.checkpointStack).2 :=
      restoreLoop_keepsFrames hchain.links hchain.nodup hchain.live
    unfold popTo
    generalize restoreLoop p turns s₁ s₁.checkpointStack = r at hloop ⊢
    obtain ⟨cp, s₂⟩ := r
    dsimp only at hloop ⊢
    split
    · exact hloop.trans ⟨rfl, rfl, rfl, rfl, rfl, fun _ => rfl, fun _ _ => rfl, fun _ hb _ => hb⟩
    · exact hloop

theorem destroyCheckpoint_keepsFrames (h : Chained s l) (p : UInt32) :
    KeepsFrames s (s.destroyCheckpoint p) := by
  by_cases hp : p = 0
  · rw [show s.destroyCheckpoint p = s from if_pos hp]
    exact .refl s
  by_cases hon : p ∈ l
  · have hlive := h.live p hon
    unfold destroyCheckpoint
    rw [if_neg hp]
    dsimp only
    split
    · next he =>
        rw [he]
        split <;> exact kfree_keepsFrames hp hlive rfl rfl rfl rfl rfl rfl rfl
    · exact .refl s
  · rw [destroyCheckpoint_off h.links h.length_lt hp hon]
    exact .refl s

theorem reset_keepsFrames (h : Chained s l) : KeepsFrames s s.reset := by
  unfold reset
  split
  · exact .refl s
  · exact (moveTo_keepsFrames ..).trans (dropRecords_keepsFrames ⟨h.links, h.nodup, h.live⟩)

/-! ## A frame more -/

/-- Where the heap would put the next block. -/
def nextAddress (s : StackAllocator) : UInt32 := UInt32.ofNat (s.heap.propose 0)

/-- The frame `p` of `size` bytes stands behind the current one, and is
current. -/
structure Grown (s s' : StackAllocator) (p size : UInt32) : Prop where
  place : s.heap.Free p.toNat (sizeofStackFrame + size).toNat
  live : s'.heap.live = (p.toNat, (sizeofStackFrame + size).toNat) :: s.heap.live
  initialized : s'.initialized = s.initialized
  currentFrame : s'.currentFrame = p
  frameList : s'.frameList = s.frameList
  totalCapacity : s'.totalCapacity = s.totalCapacity + size
  frameCount : s'.frameCount = s.frameCount + 1
  newFrame : s'.frame p =
    { start := p + sizeofStackFrame, current := p + sizeofStackFrame,
      «end» := p + sizeofStackFrame + size, size := size, magic := stackMagic,
      canary := stackCanary, prev := s.currentFrame, next := 0 }
  oldFrame : s'.frame s.currentFrame = { s.cur with next := p }
  others : ∀ q, q ≠ p → q ≠ s.currentFrame → s'.frame q = s.frame q

/-- A block that can be had is had where the heap proposes it. -/
theorem kmalloc_free (hf : s.heap.Free (s.heap.propose 0) size.toNat) :
    (s.kmalloc size).1 = s.nextAddress ∧
      s.nextAddress.toNat = s.heap.propose 0 ∧
      (s.kmalloc size).2.heap.live = (s.nextAddress.toNat, size.toNat) :: s.heap.live := by
  obtain ⟨hp, hl⟩ := BlockHeap.alloc_of_free hf
  have hlt := s.heap.alloc_lt size.toNat
  rw [hp] at hlt
  have hnext : s.nextAddress.toNat = s.heap.propose 0 := UInt32.toNat_ofNat_of_lt' hlt
  refine ⟨congrArg UInt32.ofNat hp, hnext, ?_⟩
  rw [hnext]
  exact hl

theorem linkFrame_eq (hp : p ≠ 0) (hc : s.currentFrame ≠ 0) (hl : s.frameList ≠ 0) :
    s.linkFrame p =
      (s.modifyFrame p fun f => { f with next := 0, prev := s.currentFrame }).modifyFrame
        s.currentFrame fun f => { f with next := p } := by
  unfold linkFrame
  rw [if_neg hp]
  dsimp only
  rw [if_pos (show (s.modifyFrame p _).currentFrame ≠ 0 from hc)]
  exact if_neg hl

/-- A frame just made. -/
def freshFrame (p size : UInt32) : StackFrame :=
  { start := p + sizeofStackFrame, current := p + sizeofStackFrame,
    «end» := p + sizeofStackFrame + size, size := size, magic := stackMagic,
    canary := stackCanary, prev := 0, next := 0 }

theorem pushFrame_frame (size : UInt32) (hp : p ≠ 0) (hc : s.currentFrame ≠ 0)
    (hl : s.frameList ≠ 0) :
    (s.pushFrame p size).frame =
      ((s.modifyFrame p fun f => { f with next := 0, prev := s.currentFrame }).modifyFrame
        s.currentFrame fun f => { f with next := p }).frame := by
  have hframe : (s.pushFrame p size).frame = (s.linkFrame p).frame := rfl
  rw [hframe, linkFrame_eq hp hc hl]

/-- The end of `grow`, with the frame `p` just made. -/
theorem pushFrame_grown {t : StackAllocator} (hp : p ≠ 0) (hc : s.currentFrame ≠ 0)
    (hl : s.frameList ≠ 0) (hne : s.currentFrame ≠ p)
    (hfree : s.heap.Free p.toNat (sizeofStackFrame + size).toNat)
    (ht : t = { s with frame := t.frame, heap := t.heap }) (hnew : t.frame p = freshFrame p size)
    (hold : ∀ q, q ≠ p → t.frame q = s.frame q)
    (hlive : t.heap.live = (p.toNat, (sizeofStackFrame + size).toNat) :: s.heap.live) :
    Grown s (t.pushFrame p size) p size := by
  have hcur : t.currentFrame = s.currentFrame := by rw [ht]
  have hlist : t.frameList = s.frameList := by rw [ht]
  have hinit : t.initialized = s.initialized := by rw [ht]
  have htotal : t.totalCapacity = s.totalCapacity := by rw [ht]
  have hcount : t.frameCount = s.frameCount := by rw [ht]
  have hframe := pushFrame_frame (s := t) size hp (by rw [hcur]; exact hc)
    (by rw [hlist]; exact hl)
  have hlink := linkFrame_eq (s := t) hp (by rw [hcur]; exact hc) (by rw [hlist]; exact hl)
  rw [hcur] at hframe
  refine ⟨hfree, ?_, ?_, rfl, ?_, ?_, ?_, ?_, ?_, fun q hqp hqc => ?_⟩
  · exact (congrArg (fun s => s.heap.live) hlink).trans hlive
  · exact (congrArg StackAllocator.initialized hlink).trans hinit
  · exact (congrArg StackAllocator.frameList hlink).trans hlist
  · exact (congrArg (fun s => s.totalCapacity + size) hlink).trans (congrArg (· + size) htotal)
  · exact (congrArg (fun s => s.frameCount + 1) hlink).trans (congrArg (· + 1) hcount)
  · rw [hframe, modifyFrame_of_ne (Ne.symm hne), modifyFrame_self, hnew]
    rfl
  · rw [hframe, modifyFrame_self, modifyFrame_of_ne hne, hold _ hne]
    rfl
  · rw [hframe, modifyFrame_of_ne hqc, modifyFrame_of_ne hqp, hold q hqp]

/-- **`grow`** is refused, or adds one frame. -/
theorem grow_cases (h : Framed s l) (hinit : s.initialized = true) (n : UInt32) :
    (s.GrowRefused n ∧ (s.grow n).1 = false ∧ KeepsFrames s (s.grow n).2 ∧
        (s.grow n).2.frame = s.frame) ∨
      (¬ s.GrowRefused n ∧ (s.grow n).1 = true ∧
        Grown s (s.grow n).2 s.nextAddress (s.newFrameSize n)) := by
  have hinit' : ¬ s.initialized = false := by rw [hinit]; decide
  by_cases hr : s.GrowRefused n
  · refine .inl ⟨hr, hr.grow.1, ?_⟩
    unfold StackAllocator.grow
    rw [if_neg hinit']
    split
    · exact ⟨.refl s, rfl⟩
    · next hcap =>
        rw [allocateFrame_refused (hr.resolve_left hcap)]
        exact ⟨kmalloc_keepsFrames _, rfl⟩
  · obtain ⟨hcap, hplace⟩ := not_or.mp hr
    have hplace := not_not.mp hplace
    obtain ⟨hp, hnext, hlive⟩ := kmalloc_free hplace
    have hp0 : s.nextAddress ≠ 0 := by
      intro h0
      rw [h0] at hnext
      exact hplace.1.1 hnext.symm
    have hcur : s.currentFrame ≠ s.nextAddress := by
      intro he
      have hout := h.backed _ h.current_mem
      rw [he, hnext] at hout
      exact hplace.not_live ⟨_, hout, rfl⟩
    refine .inr ⟨hr, ?_⟩
    unfold StackAllocator.grow allocateFrame
    rw [if_neg hinit', if_neg hcap]
    dsimp only
    rw [if_neg (show (s.kmalloc _).1 ≠ 0 from hp ▸ hp0), if_neg (show (s.kmalloc _).1 ≠ 0 from hp ▸ hp0),
      hp]
    rw [← hnext] at hplace
    refine ⟨rfl, ?_⟩
    dsimp only
    exact pushFrame_grown hp0 (h.ne_zero h.current_mem) h.frameList_ne_zero hcur hplace rfl
      (modifyFrame_self ..) (fun q hq => modifyFrame_of_ne hq) hlive

/-- The request for a frame the capacity allows does not wrap. -/
theorem request_toNat (hsize : size ≤ maxStackSize) :
    (sizeofStackFrame + size).toNat = sizeofStackFrame.toNat + size.toNat := by
  have hle : size.toNat ≤ 1048576 := UInt32.le_iff_toNat_le.mp hsize
  rw [UInt32.toNat_add]
  refine Nat.mod_eq_of_lt ?_
  have h32 : sizeofStackFrame.toNat = 32 := rfl
  omega

/-- The current frame ends the chain. -/
theorem Framed.exists_concat (h : Framed s l) : ∃ l₀, l = l₀ ++ [s.currentFrame] := by
  obtain ⟨l₀, hl₀⟩ := List.getLast?_eq_some_iff.mp h.last
  exact ⟨l₀, hl₀⟩

/-- The links lead on to a new frame. -/
theorem Framed.links_grown (h : Framed s l) (hg : Grown s s' p size) (hp0 : p ≠ 0) (hnew : p ∉ l) :
    Dll 0 s'.nextFrame s'.prevFrame 0 s'.frameList (l ++ [p]) := by
  have hother : ∀ b ∈ l, b ≠ s.currentFrame → s'.frame b = s.frame b :=
    fun b hb hbc => hg.others b (fun e => hnew (e ▸ hb)) hbc
  obtain ⟨l₀, rfl⟩ := h.exists_concat
  have hend : s.nextFrame s.currentFrame = 0 := h.links.drop
  rw [hg.frameList, List.append_assoc]
  refine h.links.insert h.nodup hp0 ⟨?_, ?_, ?_, ?_, ?_, ?_⟩
  · rw [hend]
    exact congrArg StackFrame.next hg.newFrame
  · exact congrArg StackFrame.prev hg.newFrame
  · exact congrArg StackFrame.next hg.oldFrame
  · intro b hb hbc
    exact congrArg StackFrame.next (hother b hb hbc)
  · exact fun hne => absurd hend hne
  · intro b hb _
    by_cases hbc : b = s.currentFrame
    · rw [hbc]
      exact (congrArg StackFrame.prev hg.oldFrame).trans rfl
    · exact congrArg StackFrame.prev (hother b hb hbc)

/-- A frame that the capacity allows is one more of the chain. -/
theorem Framed.grown (h : Framed s l) (hg : Grown s s' p size)
    (hnowrap : s.totalCapacity.toNat + size.toNat < 4294967296)
    (hcap : s.totalCapacity + size ≤ maxStackSize) : Framed s' (l ++ [p]) := by
  have hnew : p ∉ l := fun hm => hg.place.not_live ⟨_, h.backed p hm, rfl⟩
  have hp0 : p ≠ 0 := fun h0 => hg.place.1.1 (by rw [h0]; rfl)
  have htotal : (s.totalCapacity + size).toNat = s.totalCapacity.toNat + size.toNat := by
    rw [UInt32.toNat_add]
    exact Nat.mod_eq_of_lt hnowrap
  have hsizep : (s'.frame p).size = size := by rw [hg.newFrame]
  have hsizes : ∀ q ∈ l, (s'.frame q).size = (s.frame q).size := by
    intro q hq
    by_cases hc : q = s.currentFrame
    · rw [hc, hg.oldFrame]
      rfl
    · rw [hg.others q (fun e => hnew (e ▸ hq)) hc]
  have hsmall : size ≤ maxStackSize := by
    rw [UInt32.le_iff_toNat_le] at hcap ⊢
    omega
  refine ⟨h.links_grown hg hp0 hnew, ?_, ?_, ?_, ?_, ?_, ?_⟩
  · exact List.nodup_append.mpr ⟨h.nodup, List.nodup_singleton p, fun a ha b hb e =>
      hnew ((List.mem_singleton.mp hb) ▸ e ▸ ha)⟩
  · rw [hg.currentFrame, List.getLast?_append]
    rfl
  · have hlen := length_lt_turns (List.nodup_cons.mpr ⟨hnew, h.nodup⟩) (fun q hq => by
      rcases List.mem_cons.mp hq with rfl | hq
      · exact hp0
      · exact h.ne_zero hq)
    rw [List.length_cons, ← h.count] at hlen
    rw [hg.frameCount, UInt32.toNat_add, List.length_append, List.length_singleton, ← h.count]
    exact Nat.mod_eq_of_lt hlen
  · rw [hg.totalCapacity, htotal, List.map_append, List.sum_append, h.capacity]
    congr 1
    · exact congrArg List.sum (List.map_congr_left fun q hq => by rw [hsizes q hq])
    · simp [hsizep]
  · rw [hg.totalCapacity]
    exact hcap
  · intro q hq
    rw [hg.live]
    rcases List.mem_append.mp hq with hq | hq
    · rw [hsizes q hq]
      exact List.mem_cons_of_mem _ (h.backed q hq)
    · obtain rfl := List.mem_singleton.mp hq
      rw [hsizep, request_toNat hsmall]
      exact List.mem_cons_self

/-! ## A frame less -/

/-- One turn of `shrink_to_fit`. -/
def dropFrame (s : StackAllocator) : StackAllocator :=
  let old := s.currentFrame
  let before := s.cur.prev
  let s := s.unlinkFrame old
  let s := { s with totalCapacity := s.totalCapacity - (s.frame old).size }
  let s := s.deallocateFrame old
  { s with currentFrame := before, frameCount := s.frameCount - 1 }

theorem shrinkLoop_succ (fuel : Nat) (s : StackAllocator) :
    shrinkLoop (fuel + 1) s =
      if 1 < s.frameCount ∧ s.usedBytes = 0 then
        if s.cur.prev = 0 then s else shrinkLoop fuel s.dropFrame
      else s := rfl

/-- The last frame was given back, and the frame before it is current. -/
structure Shrunk (s s' : StackAllocator) : Prop where
  live : ∀ b, b ∈ s'.heap.live ↔ b ∈ s.heap.live ∧ b.1 ≠ s.currentFrame.toNat
  badFrees : s'.heap.badFrees = (s.heap.free s.currentFrame.toNat).badFrees
  record : s'.record = s.record
  checkpointStack : s'.checkpointStack = s.checkpointStack
  initialized : s'.initialized = s.initialized
  currentFrame : s'.currentFrame = s.cur.prev
  frameList : s'.frameList = s.frameList
  totalCapacity : s'.totalCapacity = s.totalCapacity - s.cur.size
  frameCount : s'.frameCount = s.frameCount - 1
  before : s'.frame s.cur.prev = { s.frame s.cur.prev with next := 0 }
  others : ∀ q, q ≠ s.cur.prev → q ≠ s.currentFrame → s'.frame q = s.frame q

theorem unlinkFrame_last (hc : s.currentFrame ≠ 0) (hprev : s.cur.prev ≠ 0) (hnext : s.cur.next = 0) :
    s.unlinkFrame s.currentFrame =
      (s.modifyFrame s.cur.prev fun f => { f with next := 0 }).modifyFrame s.currentFrame
        fun f => { f with next := 0, prev := 0 } := by
  have hprev' : (s.frame s.currentFrame).prev ≠ 0 := hprev
  have hnext' : (s.frame s.currentFrame).next = 0 := hnext
  unfold unlinkFrame
  rw [if_neg hc]
  dsimp only
  rw [if_pos hprev', hnext', if_neg (not_not_intro rfl)]
  rfl

/-- The current frame is taken off, wiped and given back. -/
theorem dropFrame_eq (hc : s.currentFrame ≠ 0) (hprev : s.cur.prev ≠ 0) (hnext : s.cur.next = 0)
    (hne : s.cur.prev ≠ s.currentFrame) :
    s.dropFrame =
      { (((s.modifyFrame s.cur.prev fun f => { f with next := 0 }).modifyFrame s.currentFrame
          fun f => { f with next := 0, prev := 0 }).modifyFrame s.currentFrame
          fun f => { f with magic := 0, canary := 0 }).kfree s.currentFrame with
        totalCapacity := s.totalCapacity - s.cur.size
        currentFrame := s.cur.prev
        frameCount := s.frameCount - 1 } := by
  have hsize : ((s.unlinkFrame s.currentFrame).frame s.currentFrame).size = s.cur.size := by
    rw [unlinkFrame_last hc hprev hnext, modifyFrame_self, modifyFrame_of_ne (Ne.symm hne)]
    rfl
  unfold dropFrame deallocateFrame
  dsimp only
  rw [hsize, if_neg hc, unlinkFrame_last hc hprev hnext]
  rfl

theorem dropFrame_shrunk (hc : s.currentFrame ≠ 0) (hprev : s.cur.prev ≠ 0) (hnext : s.cur.next = 0)
    (hne : s.cur.prev ≠ s.currentFrame) : Shrunk s s.dropFrame := by
  have hc0 : s.currentFrame.toNat ≠ 0 := fun h => hc (UInt32.toNat_inj.mp h)
  rw [dropFrame_eq hc hprev hnext hne]
  refine ⟨fun b => BlockHeap.mem_free hc0 b, rfl, rfl, rfl, rfl, rfl, rfl, rfl, rfl, ?_,
    fun q hq hqc => ?_⟩
  · dsimp only [kfree, modifyFrame]
    rw [Function.update_of_ne hne, Function.update_of_ne hne, Function.update_self]
  · dsimp only [kfree, modifyFrame]
    rw [Function.update_of_ne hqc, Function.update_of_ne hqc, Function.update_of_ne hq]

/-- The links end at the frame before the one that was given back. -/
theorem Framed.links_shrunk (h : Framed s (l ++ [s.currentFrame])) (hs : Shrunk s s')
    (hprev : s.cur.prev ≠ 0) (hlast : s.currentFrame ∉ l) :
    Dll 0 s'.nextFrame s'.prevFrame 0 s'.frameList l := by
  have hnext : s.nextFrame s.currentFrame = 0 := h.links.drop
  have herase : (l ++ [s.currentFrame]).erase s.currentFrame = l := by
    rw [List.erase_append_right _ hlast, List.erase_cons_head, List.append_nil]
  have hag : ∀ b ∈ (l ++ [s.currentFrame]).erase s.currentFrame,
      s'.nextFrame b =
          (if b = s.prevFrame s.currentFrame then s.nextFrame s.currentFrame else s.nextFrame b) ∧
        s'.prevFrame b =
          (if b = s.nextFrame s.currentFrame then s.prevFrame s.currentFrame else s.prevFrame b) := by
    intro b hb
    rw [herase] at hb
    have hb0 : b ≠ s.nextFrame s.currentFrame := by
      rw [hnext]
      exact h.ne_zero (List.mem_append_left _ hb)
    rw [if_neg hb0, hnext]
    have hbefore : s.prevFrame s.currentFrame = s.cur.prev := rfl
    rw [hbefore]
    unfold nextFrame prevFrame
    by_cases hbq : b = s.cur.prev
    · rw [if_pos hbq, hbq, hs.before]
      exact ⟨rfl, rfl⟩
    · rw [if_neg hbq, hs.others b hbq (fun e => hlast (e ▸ hb))]
      exact ⟨rfl, rfl⟩
  have hun := h.links.unlink_agree h.nodup h.current_mem hag
  have hfirst : s.currentFrame ≠ s.frameList := by
    intro e
    have hhead := h.links.prev_head h.frameList_ne_zero
    rw [← e] at hhead
    exact hprev hhead
  rw [if_neg hfirst, herase] at hun
  rw [hs.frameList]
  exact hun

/-- A chain of more than one frame without its last one. -/
theorem Framed.shrunk (h : Framed s l) (hprev : s.cur.prev ≠ 0) :
    Shrunk s s.dropFrame ∧ Framed s.dropFrame l.dropLast ∧ s.cur.prev ∈ l.dropLast := by
  obtain ⟨l₀, rfl⟩ := h.exists_concat
  have hc := h.ne_zero h.current_mem
  have hnext : s.nextFrame s.currentFrame = 0 := h.links.drop
  rw [List.dropLast_concat]
  rcases List.eq_nil_or_concat l₀ with rfl | ⟨l₁, q, rfl⟩
  · exact absurd h.links.2.2.1 hprev
  rw [List.concat_eq_append] at h ⊢
  have hq : s.cur.prev = q := by
    have hl : Dll 0 s.nextFrame s.prevFrame 0 s.frameList (l₁ ++ q :: [s.currentFrame]) := by
      rw [List.append_cons]
      exact h.links
    exact hl.drop.2.2.1
  obtain ⟨hnd, _, hdisj⟩ := List.nodup_append.mp h.nodup
  have hlast : s.currentFrame ∉ l₁ ++ [q] := fun hm =>
    hdisj _ hm _ (List.mem_singleton_self _) rfl
  have hne : s.cur.prev ≠ s.currentFrame := by
    rw [hq]
    exact fun e => hlast (e ▸ List.mem_append_right _ (List.mem_singleton_self _))
  have hs := dropFrame_shrunk hc hprev hnext hne
  have hsizes : ∀ p ∈ l₁ ++ [q], (s.dropFrame.frame p).size = (s.frame p).size := by
    intro p hp
    by_cases hpq : p = s.cur.prev
    · rw [hpq, hs.before]
    · rw [hs.others p hpq (fun e => hlast (e ▸ hp))]
  have hcap := h.capacity
  rw [List.map_append, List.sum_append] at hcap
  have hsum : s.totalCapacity.toNat =
      ((l₁ ++ [q]).map fun p => (s.frame p).size.toNat).sum + s.cur.size.toNat := by
    rw [hcap]
    simp [cur]
  have htotal : (s.totalCapacity - s.cur.size).toNat = s.totalCapacity.toNat - s.cur.size.toNat :=
    UInt32.toNat_sub_of_le _ _ (UInt32.le_iff_toNat_le.mpr (by omega))
  refine ⟨hs, ⟨h.links_shrunk hs hprev hlast, hnd, ?_, ?_, ?_, ?_, fun p hp => ?_⟩, ?_⟩
  · rw [hs.currentFrame, hq]
    simp
  · rw [hs.frameCount, UInt32.toNat_sub_of_le, h.count]
    · simp
    · rw [UInt32.le_iff_toNat_le, h.count]
      simp
  · rw [hs.totalCapacity, htotal, hsum, Nat.add_sub_cancel]
    exact congrArg List.sum (List.map_congr_left fun p hp => by rw [hsizes p hp])
  · rw [hs.totalCapacity, UInt32.le_iff_toNat_le, htotal]
    have hbound := UInt32.le_iff_toNat_le.mp h.bounded
    omega
  · rw [hs.live, hsizes p hp]
    refine ⟨h.backed p (List.mem_append_left _ hp), fun e => hlast ?_⟩
    rw [← UInt32.toNat_inj.mp e]
    exact hp
  · rw [hq]
    simp

/-- The frame given back is no record. -/
theorem Chained.shrunk {lr : List UInt32} (hr : Chained s lr) (h : Framed s l) (hs : Shrunk s s') :
    Chained s' lr := by
  refine ⟨?_, hr.nodup, fun p hp => (hs.live _).mpr ⟨hr.live p hp, fun e => ?_⟩⟩
  · rw [hs.checkpointStack]
    refine hr.links.congr fun q _ => ?_
    unfold link
    rw [hs.record]
  · have hblock := BlockHeap.eq_of_mem (hr.live p hp) (h.backed _ h.current_mem) e
    have hsize := congrArg Prod.snd hblock
    unfold sizeofStackCheckpoint sizeofStackFrame at hsize
    simp only [UInt32.reduceToNat] at hsize
    omega

/-- **The rule for `shrink_to_fit`**: what survives a turn that takes off an
empty frame survives the loop. -/
theorem shrinkLoop_rule {I : StackAllocator → Prop}
    (hturn : ∀ s, I s → s.usedBytes = 0 → s.cur.prev ≠ 0 → I s.dropFrame) (fuel : Nat)
    (h : I s) : I (shrinkLoop fuel s) := by
  induction fuel generalizing s with
  | zero => exact h
  | succ fuel ih =>
      rw [shrinkLoop_succ]
      split
      · next hgo =>
          split
          · exact h
          · next hprev => exact ih (hturn s h hgo.2 hprev)
      · exact h

/-! ## Allocating -/

/-- The pointer to a block at the beginning of the frame that `grow` would get. -/
def newPointer (s : StackAllocator) (alignment : UInt32) : UInt32 :=
  alignPointer (s.nextAddress + sizeofStackFrame) alignment

/-- The request fits the frame that `grow` would get for it. -/
def FitsNewFrame (s : StackAllocator) (size alignment : UInt32) : Prop :=
  s.newPointer alignment + alignSize size alignment ≤
    s.nextAddress + sizeofStackFrame + s.newFrameSize (alignSize size alignment * 2)

instance (size alignment : UInt32) : Decidable (s.FitsNewFrame size alignment) := by
  unfold FitsNewFrame
  infer_instance

/-- The new frame after `grow`. -/
theorem Grown.cur (hg : Grown s s' p size) :
    s'.cur = { freshFrame p size with prev := s.currentFrame } := by
  unfold StackAllocator.cur
  rw [hg.currentFrame, hg.newFrame]
  rfl

/-- **`alloc`**: from the current frame, or refused, or from a new frame, if
that is large enough. -/
theorem alloc_cases (h : Framed s l) (hinit : s.initialized = true) (hsize : size ≠ 0)
    (alignment : UInt32) :
    (s.endOf size alignment ≤ s.cur.«end» ∧ s.alloc size alignment =
        s.countCheck.take (alignPointer s.cur.current alignment) (alignSize size alignment)) ∨
      (s.cur.«end» < s.endOf size alignment ∧ s.GrowRefused (alignSize size alignment * 2) ∧
        (s.alloc size alignment).1 = 0 ∧ KeepsFrames s (s.alloc size alignment).2 ∧
        (s.alloc size alignment).2.frame = s.frame) ∨
      (s.cur.«end» < s.endOf size alignment ∧ ¬ s.GrowRefused (alignSize size alignment * 2) ∧ ∃ s₁,
        Grown s s₁ s.nextAddress (s.newFrameSize (alignSize size alignment * 2)) ∧
        KeepsRecords s s₁ ∧ s.alloc size alignment =
          if s.FitsNewFrame size alignment then
            s₁.take (s.newPointer alignment) (alignSize size alignment)
          else (0, s₁)) := by
  have hcheck : Framed s.countCheck l := h.keeps countCheck_keepsFrames
  have hguard : ¬ (s.initialized = false ∨ size = 0) := by simp [hinit, hsize]
  unfold StackAllocator.alloc
  rw [if_neg hguard]
  dsimp only
  by_cases hfull : s.countCheck.cur.«end» < s.countCheck.endOf size alignment
  · rw [if_pos hfull]
    rcases grow_cases hcheck hinit (alignSize size alignment * 2) with
      ⟨hr, hno, hk, hf⟩ | ⟨hr, hyes, hg⟩
    · refine .inr (.inl ⟨hfull, hr, ?_⟩)
      generalize s.countCheck.grow (alignSize size alignment * 2) = r at hno hk hf ⊢
      obtain ⟨b, s₁⟩ := r
      obtain rfl : b = false := hno
      exact ⟨rfl, countCheck_keepsFrames.trans hk, hf⟩
    · refine .inr (.inr ⟨hfull, hr, ?_⟩)
      have hrec := grow_keeps (s := s.countCheck) (alignSize size alignment * 2)
      generalize s.countCheck.grow (alignSize size alignment * 2) = r at hyes hg hrec ⊢
      obtain ⟨b, s₁⟩ := r
      obtain rfl : b = true := hyes
      refine ⟨s₁, ⟨hg.place, hg.live, hg.initialized, hg.currentFrame, hg.frameList,
        hg.totalCapacity, hg.frameCount, hg.newFrame, hg.oldFrame, hg.others⟩,
        ⟨hrec.record, hrec.checkpointStack, hrec.badFrees, hrec.live⟩, ?_⟩
      dsimp only
      have hcur := Grown.cur hg
      have hiff : s₁.cur.«end» < s₁.endOf size alignment ↔ ¬ s.FitsNewFrame size alignment := by
        unfold endOf FitsNewFrame newPointer
        rw [hcur, UInt32.not_le]
        rfl
      by_cases hfit : s.FitsNewFrame size alignment
      · rw [if_neg (fun hlt => hiff.mp hlt hfit), if_pos hfit, hcur]
        rfl
      · rw [if_pos (hiff.mpr hfit), if_neg hfit]
  · rw [if_neg hfull]
    exact .inl ⟨UInt32.not_lt.mp hfull, rfl⟩

/-! ## The beginning -/

/-- The size of the first frame. -/
def firstSize (n : UInt32) : UInt32 :=
  if maxStackSize < (if n < minStackSize then minStackSize else n) then maxStackSize
  else if n < minStackSize then minStackSize else n

theorem firstSize_le (n : UInt32) : firstSize n ≤ maxStackSize := by
  unfold firstSize
  by_cases h : maxStackSize < (if n < minStackSize then minStackSize else n)
  · rw [if_pos h]
    exact UInt32.le_refl _
  · rw [if_neg h]
    exact UInt32.not_lt.mp h

theorem firstSize_pos (n : UInt32) : 0 < (firstSize n).toNat := by
  unfold firstSize
  by_cases h : maxStackSize < (if n < minStackSize then minStackSize else n)
  · rw [if_pos h]
    decide
  · rw [if_neg h]
    split
    · decide
    · next hlt =>
        have hle := UInt32.le_iff_toNat_le.mp (UInt32.not_lt.mp hlt)
        exact Nat.lt_of_lt_of_le (by decide) hle

theorem init_eq (hs : s.initialized = false) (n : UInt32) :
    s.init n =
      if (s.allocateFrame (firstSize n)).1 = 0 then
        { (s.allocateFrame (firstSize n)).2 with currentFrame := (s.allocateFrame (firstSize n)).1 }
      else
        { (s.allocateFrame (firstSize n)).2 with
          currentFrame := (s.allocateFrame (firstSize n)).1
          frameList := (s.allocateFrame (firstSize n)).1
          checkpointStack := 0
          totalCapacity := firstSize n
          frameCount := 1
          overflowDetection := true
          underflowDetection := true
          initialized := true
          stats := {} } := by
  unfold StackAllocator.init
  rw [if_neg (by rw [hs]; decide)]
  rfl

/-- A frame that could be made. -/
theorem allocateFrame_served (hp : (s.allocateFrame size).1 ≠ 0) :
    ((s.allocateFrame size).1.toNat, (sizeofStackFrame + size).toNat) ∈
        (s.allocateFrame size).2.heap.live ∧
      (s.allocateFrame size).2.frame (s.allocateFrame size).1 =
        freshFrame (s.allocateFrame size).1 size := by
  have hnew := s.heap.alloc_cases (sizeofStackFrame + size).toNat
  have hptr := kmalloc_toNat (s := s) (sizeofStackFrame + size)
  unfold allocateFrame at hp ⊢
  dsimp only at hp ⊢
  split at hp
  · exact absurd rfl hp
  · next hne =>
      rw [if_neg hne]
      dsimp only
      refine ⟨?_, modifyFrame_self ..⟩
      rcases hnew with ⟨h0, _⟩ | ⟨_, hlive⟩
      · exact absurd (UInt32.toNat_inj.mp ((hptr.trans h0).trans UInt32.toNat_zero.symm)) hne
      · show _ ∈ (s.heap.alloc _).2.live
        rw [hlive, ← hptr]
        exact List.mem_cons_self

/-- What `init` leaves: one frame of its own. -/
theorem init_framed (hs : s.initialized = false) (hinit : (s.init n).initialized = true) :
    Framed (s.init n) [(s.init n).currentFrame] ∧ Chained (s.init n) [] ∧
      (s.init n).cur = freshFrame (s.init n).currentFrame (firstSize n) := by
  have hne : (s.allocateFrame (firstSize n)).1 ≠ 0 := by
    intro h0
    have hkeep : (s.allocateFrame (firstSize n)).2.initialized = s.initialized := by
      unfold allocateFrame
      dsimp only
      split <;> rfl
    rw [init_eq hs, if_pos h0] at hinit
    exact absurd (hkeep.symm.trans hinit) (by rw [hs]; decide)
  obtain ⟨hlive, hframe⟩ := allocateFrame_served hne
  rw [init_eq hs, if_neg hne]
  generalize s.allocateFrame (firstSize n) = r at hne hlive hframe ⊢
  obtain ⟨p, s₁⟩ := r
  dsimp only at hne hlive hframe ⊢
  rw [request_toNat (firstSize_le n)] at hlive
  refine ⟨⟨⟨rfl, hne, ?_, ?_⟩, List.nodup_singleton p, rfl, rfl, ?_, firstSize_le n, ?_⟩,
    ⟨rfl, List.nodup_nil, nofun⟩, hframe⟩
  · exact congrArg StackFrame.prev hframe
  · exact congrArg StackFrame.next hframe
  · simp [hframe, freshFrame]
  · intro q hq
    obtain rfl := List.mem_singleton.mp hq
    rw [hframe]
    exact hlive

end StackAllocator

/-! ## Clients -/

inductive StackFrameCall
  | alloc (size alignment : UInt32)
  | allocAligned (size alignment : UInt32)
  | grow (additionalSize : UInt32)
  | shrinkToFit
  | reset
  | createCheckpoint
  | freeToCheckpoint (checkpoint : UInt32)
  | restoreCheckpoint (checkpoint : UInt32)
  | destroyCheckpoint (checkpoint : UInt32)

/-- The state after a call. -/
def stackFrameStep (s : StackAllocator) : StackFrameCall → StackAllocator
  | .alloc size alignment => (s.alloc size alignment).2
  | .allocAligned size alignment => (s.allocAligned size alignment).2
  | .grow n => (s.grow n).2
  | .shrinkToFit => s.shrinkToFit.2
  | .reset => s.reset
  | .createCheckpoint => s.createCheckpoint.2
  | .freeToCheckpoint cp => s.freeToCheckpoint cp
  | .restoreCheckpoint cp => s.restoreCheckpoint cp
  | .destroyCheckpoint cp => s.destroyCheckpoint cp

/-- The alignment `alloc_aligned` goes on with. -/
def usedAlignment (alignment : UInt32) : UInt32 :=
  if alignment = 0 ∨ alignment &&& (alignment - 1) ≠ 0 then stackAlignment else alignment

namespace StackAllocator

/-- The capacity with the frame that `grow` asks for is still a `u32`. -/
def CapacityHolds (s : StackAllocator) (additionalSize : UInt32) : Prop :=
  s.totalCapacity.toNat + (s.newFrameSize additionalSize).toNat < 4294967296

/-- An allocation that asks for nothing, finds room in the current frame, is
refused a new one, or has room there. -/
def AllocHolds (s : StackAllocator) (size alignment : UInt32) : Prop :=
  size = 0 ∨ s.endOf size alignment ≤ s.cur.«end» ∨
    s.GrowRefused (alignSize size alignment * 2) ∨
    (s.CapacityHolds (alignSize size alignment * 2) ∧ s.newPointer alignment ≠ 0 ∧
      s.FitsNewFrame size alignment)

end StackAllocator

/-- No capacity wraps around, a frame got for an allocation is large enough for
it, and a checkpoint is restored while it is on the chain of records or the
chain is empty. -/
def KeepsFrameChain (s : StackAllocator) : StackFrameCall → Prop
  | .alloc size alignment => s.AllocHolds size alignment
  | .allocAligned size alignment => s.AllocHolds size (usedAlignment alignment)
  | .grow n => s.GrowRefused n ∨ s.CapacityHolds n
  | .restoreCheckpoint cp => cp = 0 ∨ s.checkpointStack = 0 ∨ s.OnChain cp
  | _ => True

/-- What is to hold after each call. -/
structure FramesSound (s : StackAllocator) : Prop where
  initialized : s.initialized = true
  records : ∃ l, s.Chained l
  frames : ∃ l, s.Framed l

namespace FramesSound

variable {s s' : StackAllocator} {size : UInt32}

theorem keeps (h : FramesSound s) (hk : s.KeepsFrames s') (hr : ∃ l, s'.Chained l) : FramesSound s' := by
  obtain ⟨l, hl⟩ := h.frames
  exact ⟨hk.initialized.trans h.initialized, hr, l, hl.keeps hk⟩

/-- A frame that could be had fits the capacity. -/
theorem grown (h : FramesSound s) {p n : UInt32} (hg : s.Grown s' p (s.newFrameSize n))
    (hr : ¬ s.GrowRefused n) (hcap : s.CapacityHolds n) (hk : s.KeepsRecords s') :
    FramesSound s' := by
  obtain ⟨lr, hlr⟩ := h.records
  obtain ⟨l, hl⟩ := h.frames
  have hle : s.totalCapacity + s.newFrameSize n ≤ maxStackSize :=
    UInt32.not_lt.mp fun hlt => hr (.inl hlt)
  exact ⟨hg.initialized.trans h.initialized, ⟨lr, hlr.keeps hk⟩, _, hl.grown hg hcap hle⟩

theorem grow (h : FramesSound s) {n : UInt32} (hok : s.GrowRefused n ∨ s.CapacityHolds n) :
    FramesSound (s.grow n).2 := by
  obtain ⟨lr, hlr⟩ := h.records
  obtain ⟨l, hl⟩ := h.frames
  have hrec := StackAllocator.grow_keeps (s := s) n
  rcases StackAllocator.grow_cases hl h.initialized n with ⟨_, _, hk, _⟩ | ⟨hr, _, hg⟩
  · exact h.keeps hk ⟨lr, hlr.keeps hrec⟩
  · exact h.grown hg hr (hok.resolve_left hr) hrec

/-- A block cut off a frame with its canary. -/
theorem take_fst {p n : UInt32} (hc : s.cur.canary = stackCanary) : (s.take p n).1 = p := by
  unfold StackAllocator.take
  dsimp only
  rw [if_neg]
  rintro ⟨_, hne⟩
  rw [StackAllocator.modifyStats_cur, StackAllocator.moveTo_cur] at hne
  exact hne hc

/-- An allocation that meets the condition, and what a refusal leaves. -/
theorem alloc (h : FramesSound s) {alignment : UInt32} (hok : s.AllocHolds size alignment) :
    FramesSound (s.alloc size alignment).2 ∧ ((s.alloc size alignment).1 = 0 →
      (s.alloc size alignment).2.currentFrame = s.currentFrame ∧
        ∀ l, s.Framed l → (s.alloc size alignment).2.Framed l) := by
  obtain ⟨lr, hlr⟩ := h.records
  obtain ⟨l, hl⟩ := h.frames
  have hrec := hlr.keeps (StackAllocator.alloc_keeps (s := s) size alignment)
  have hkept : s.KeepsFrames (s.alloc size alignment).2 →
      FramesSound (s.alloc size alignment).2 ∧ ((s.alloc size alignment).1 = 0 →
        (s.alloc size alignment).2.currentFrame = s.currentFrame ∧
          ∀ l, s.Framed l → (s.alloc size alignment).2.Framed l) := fun hk =>
    ⟨h.keeps hk ⟨lr, hrec⟩, fun _ => ⟨hk.currentFrame, fun _ hl => hl.keeps hk⟩⟩
  by_cases hsize : size = 0
  · apply hkept
    rw [show s.alloc size alignment = (0, s) from if_pos (.inr hsize)]
    exact .refl s
  rcases StackAllocator.alloc_cases hl h.initialized hsize alignment with
    ⟨_, he⟩ | ⟨_, _, _, hk, _⟩ | ⟨hfull, hr, s₁, hg, _, he⟩
  · apply hkept
    rw [he]
    exact StackAllocator.countCheck_keepsFrames.trans (StackAllocator.take_keepsFrames ..)
  · exact hkept hk
  · obtain ⟨hcap, hptr, hfit⟩ := ((hok.resolve_left hsize).resolve_left
      (UInt32.not_le.mpr hfull)).resolve_left hr
    rw [if_pos hfit] at he
    have hle : s.totalCapacity + s.newFrameSize (StackAllocator.alignSize size alignment * 2) ≤
        maxStackSize :=
      UInt32.not_lt.mp fun hlt => hr (.inl hlt)
    have hl₁ := hl.grown hg hcap hle
    have htake := StackAllocator.take_keepsFrames (s := s₁) (s.newPointer alignment)
      (StackAllocator.alignSize size alignment)
    rw [he] at hrec ⊢
    refine ⟨⟨htake.initialized.trans (hg.initialized.trans h.initialized), ⟨lr, hrec⟩, _,
      hl₁.keeps htake⟩, fun h0 => ?_⟩
    rw [take_fst (by rw [hg.cur]; rfl)] at h0
    exact absurd h0 hptr

theorem shrink (h : FramesSound s) : FramesSound s.shrinkToFit.2 := by
  unfold StackAllocator.shrinkToFit
  split
  · exact h
  · refine StackAllocator.shrinkLoop_rule (I := FramesSound) (fun t ht _ hprev => ?_) _ h
    obtain ⟨lr, hlr⟩ := ht.records
    obtain ⟨l, hl⟩ := ht.frames
    obtain ⟨hs, hl', _⟩ := hl.shrunk hprev
    exact ⟨hs.initialized.trans ht.initialized, ⟨lr, hlr.shrunk hl hs⟩, _, hl'⟩

theorem restore (h : FramesSound s) {cp : UInt32}
    (hok : cp = 0 ∨ s.checkpointStack = 0 ∨ s.OnChain cp) : FramesSound (s.restoreCheckpoint cp) := by
  obtain ⟨lr, hlr⟩ := h.records
  refine h.keeps (StackAllocator.restoreCheckpoint_keepsFrames hlr cp) ?_
  by_cases hcp : cp = 0
  · rw [show s.restoreCheckpoint cp = s from if_pos hcp]
    exact ⟨lr, hlr⟩
  · rw [StackAllocator.restoreCheckpoint_chained_iff hlr hcp, ← hlr.eq_nil_iff, ← hlr.onChain_iff]
    exact hok.resolve_left hcp

theorem destroy (h : FramesSound s) (cp : UInt32) : FramesSound (s.destroyCheckpoint cp) := by
  obtain ⟨lr, hlr⟩ := h.records
  refine h.keeps (StackAllocator.destroyCheckpoint_keepsFrames hlr cp) ?_
  by_cases hon : cp ∈ lr
  · obtain ⟨pre, post, rfl⟩ := List.append_of_mem hon
    exact ⟨_, (StackAllocator.destroyCheckpoint_on hlr).1⟩
  · refine ⟨lr, ?_⟩
    by_cases hcp : cp = 0
    · rw [show s.destroyCheckpoint cp = s from if_pos hcp]
      exact hlr
    · rw [StackAllocator.destroyCheckpoint_off hlr.links hlr.length_lt hcp hon]
      exact hlr

/-- **One call** that meets the condition. -/
theorem step (h : FramesSound s) {call : StackFrameCall} (hok : KeepsFrameChain s call) :
    FramesSound (stackFrameStep s call) := by
  obtain ⟨lr, hlr⟩ := h.records
  cases call with
  | alloc size alignment => exact (h.alloc hok).1
  | allocAligned size alignment => exact (h.alloc hok).1
  | grow n => exact h.grow hok
  | shrinkToFit => exact h.shrink
  | reset =>
      exact h.keeps (StackAllocator.reset_keepsFrames hlr)
        ⟨[], (StackAllocator.reset_spec hlr h.initialized).2⟩
  | createCheckpoint =>
      exact h.keeps StackAllocator.createCheckpoint_keepsFrames
        (StackAllocator.createCheckpoint_spec hlr).1
  | freeToCheckpoint cp =>
      exact h.keeps (StackAllocator.freeToCheckpoint_keepsFrames cp)
        ⟨lr, StackAllocator.freeToCheckpoint_chained hlr cp⟩
  | restoreCheckpoint cp => exact h.restore hok
  | destroyCheckpoint cp => exact h.destroy cp

end FramesSound

/-! ## The result -/

instance (s : StackAllocator) (call : StackFrameCall) : Decidable (KeepsFrameChain s call) := by
  cases call <;> (unfold KeepsFrameChain; try unfold StackAllocator.AllocHolds
                  try unfold StackAllocator.CapacityHolds
                  infer_instance)

/-- **The frames are a chain, counted and measured**, in every state of a run
from `init` whose calls meet the condition, and an allocation that returns null
leaves the chain as it is. -/
theorem stack_frames_sound {s : StackAllocator} {n : UInt32} (hs : s.initialized = false)
    (hinit : (s.init n).initialized = true) {t : StackAllocator}
    (hr : Reaches (fun s call => some (stackFrameStep s call)) KeepsFrameChain (s.init n) t) :
    ∃ l, t.Framed l ∧ ∀ size alignment, KeepsFrameChain t (.alloc size alignment) →
      (t.alloc size alignment).1 = 0 →
      (t.alloc size alignment).2.currentFrame = t.currentFrame ∧
        (t.alloc size alignment).2.Framed l := by
  obtain ⟨hl, hlr, _⟩ := StackAllocator.init_framed hs hinit
  have h0 : FramesSound (s.init n) := ⟨hinit, ⟨_, hlr⟩, _, hl⟩
  have h : FramesSound t := hr.invariant h0 fun _ _ _ h hok hs => Option.some.inj hs ▸ h.step hok
  obtain ⟨l, hl⟩ := h.frames
  refine ⟨l, hl, fun size alignment hok hnull => ?_⟩
  obtain ⟨hcur, hkept⟩ := (h.alloc hok).2 hnull
  exact ⟨hcur, hkept l hl⟩

/-- A stack that grows for an allocation, shrinks and is refused a large
block. -/
theorem stack_frames_sound_grown :
    ∃ t : StackAllocator, t.frameCount = 2 ∧ ∃ l, t.Framed l ∧
      ∀ size alignment, KeepsFrameChain t (.alloc size alignment) →
        (t.alloc size alignment).1 = 0 →
        (t.alloc size alignment).2.currentFrame = t.currentFrame ∧
          (t.alloc size alignment).2.Framed l := by
  obtain ⟨t, hr, hp⟩ := Reaches.of_checked_script (fun s call => some (stackFrameStep s call))
    KeepsFrameChain (StackAllocator.raw.init 4096) (fun t => decide (t.frameCount = 2))
    [.createCheckpoint, .alloc 5000 16, .grow 0x8000, .shrinkToFit, .alloc 0x100000 64]
    (by decide +kernel)
  exact ⟨t, of_decide_eq_true hp, stack_frames_sound (by decide) (by decide +kernel) hr⟩

/-- `grow` by nearly 2^32 bytes: the capacity and the request wrap around, and
the new frame claims 4294967280 bytes in a block of 16. -/
theorem grow_wraps :
    (StackAllocator.raw.init 4096).initialized = true ∧
      ((StackAllocator.raw.init 4096).grow 0xFFFFFFF0).1 = true ∧
      ¬ ∃ l, ((StackAllocator.raw.init 4096).grow 0xFFFFFFF0).2.Framed l := by
  refine ⟨by decide +kernel, by decide +kernel, ?_⟩
  rintro ⟨l, hl⟩
  have hle := hl.size_le hl.current_mem
  revert hle
  decide +kernel

end KmOS
