/-
# `KmOS.Stack.Placement` — where the blocks of a stack allocator lie

A block is cut off the current frame: its address and its size are rounded up,
and the end of the frame is compared with their sum, all in 32-bit arithmetic.
While nothing wraps around, every block that is out lies below the position of
its frame, and a checkpoint remembers a position that no older block of that
frame passes (`Placement`); so a new block lies apart from all of them.

A size near 2^32 is rounded to 0, and a sum of an address and a size may come
out below the end of the frame.  `PlacesBlocks` is the condition that leaves
these allocations out.

**What is released.**  A client keeps the blocks it was given.  A restore that
finds its position in the current frame releases the blocks made since the
checkpoint, a reset releases all of them, and nothing else releases any.
-/
import KmOS.Stack.Frames

namespace KmOS

namespace StackAllocator

variable {s s' : StackAllocator} {p size alignment : UInt32}

/-! ## Rounding up -/

/-- A mask of low bits that are cleared leaves a multiple. -/
theorem and_not_dvd (x : UInt32) {k : Nat} (ha : alignment.toNat = 2 ^ k) :
    alignment.toNat ∣ (x &&& ~~~(alignment - 1)).toNat := by
  have hpos : 0 < 2 ^ k := Nat.two_pow_pos k
  have hmask : (alignment - 1).toNat = 2 ^ k - 1 := by
    rw [UInt32.toNat_sub_of_le, ha]
    · rfl
    · rw [UInt32.le_iff_toNat_le, ha]
      exact hpos
  have hlt := (alignment - 1).toNat_lt
  have hnot : (~~~(alignment - 1)).toNat = 2 ^ 32 - ((2 ^ k - 1) + 1) := by
    rw [UInt32.toNat_not, hmask]
    exact (Nat.sub_sub _ 1 _).trans (congrArg _ (Nat.add_comm _ _))
  rw [hmask] at hlt
  rw [ha]
  refine Nat.dvd_of_mod_eq_zero (Nat.eq_of_testBit_eq fun i => ?_)
  rw [Nat.testBit_mod_two_pow, Nat.zero_testBit, UInt32.toNat_and, Nat.testBit_and, hnot,
    Nat.testBit_two_pow_sub_succ hlt, Nat.testBit_two_pow_sub_one]
  by_cases hi : i < k <;> simp [hi]

theorem alignPointer_dvd (ptr : UInt32) {k : Nat} (ha : alignment.toNat = 2 ^ k) :
    alignment.toNat ∣ (alignPointer ptr alignment).toNat :=
  and_not_dvd _ ha

/-- A pointer that `alloc` returns has been rounded up. -/
theorem alloc_aligned (s : StackAllocator) (size alignment : UInt32)
    (hp : (s.alloc size alignment).1 ≠ 0) :
    ∃ ptr, (s.alloc size alignment).1 = alignPointer ptr alignment := by
  have htake : ∀ (t : StackAllocator) (p n : UInt32), (t.take p n).1 ≠ 0 → (t.take p n).1 = p := by
    intro t p n ht
    unfold take at ht ⊢
    dsimp only at ht ⊢
    split at ht
    · exact absurd rfl ht
    · next hc => rw [if_neg hc]
  unfold StackAllocator.alloc at hp ⊢
  split at hp
  · exact absurd rfl hp
  next hguard =>
  rw [if_neg hguard]
  dsimp only at hp ⊢
  split at hp
  · next hfull =>
      rw [if_pos hfull]
      generalize s.countCheck.grow (alignSize size alignment * 2) = r at hp ⊢
      obtain ⟨b, s₁⟩ := r
      cases b with
      | false => exact absurd rfl hp
      | true =>
          dsimp only at hp ⊢
          split at hp
          · exact absurd rfl hp
          · next hfit =>
              rw [if_neg hfit]
              exact ⟨_, htake _ _ _ hp⟩
  · next hfit =>
      rw [if_neg hfit]
      exact ⟨_, htake _ _ _ hp⟩

/-- The position, the size and their sum do not wrap around. -/
def Unwrapped (current size alignment : UInt32) : Prop :=
  current ≤ alignPointer current alignment ∧ size ≤ alignSize size alignment ∧
    (alignPointer current alignment).toNat + (alignSize size alignment).toNat < 4294967296

instance (current size alignment : UInt32) : Decidable (Unwrapped current size alignment) := by
  unfold Unwrapped
  infer_instance

/-- An allocation that asks for nothing; or takes a block of the current frame
without wrapping around; or has to grow, and is refused, or gets a frame where
it either does not fit or takes a block without wrapping around. -/
def AllocPlaces (s : StackAllocator) (size alignment : UInt32) : Prop :=
  size = 0 ∨
    (s.endOf size alignment ≤ s.cur.«end» ∧ Unwrapped s.cur.current size alignment) ∨
    (s.cur.«end» < s.endOf size alignment ∧
      (s.GrowRefused (alignSize size alignment * 2) ∨
        (s.CapacityHolds (alignSize size alignment * 2) ∧
          (s.FitsNewFrame size alignment →
            Unwrapped (s.nextAddress + sizeofStackFrame) size alignment))))

theorem take_current (p n : UInt32) : ((s.take p n).2.frame s.currentFrame).current = p + n := by
  have hmoved : ((s.moveTo (p + n)).frame s.currentFrame).current = p + n := by
    rw [moveTo, modifyFrame_self]
  unfold take
  dsimp only
  split <;> exact hmoved

/-! ## Checkpoints -/

/-- The position of the checkpoint `cp` is in the current frame. -/
def Rewinds (s : StackAllocator) (cp : UInt32) : Bool :=
  cp ≠ 0 && s.isValidPtr (s.record cp).savedPos

/-- Going back to a checkpoint moves the position of the current frame down to
the one it remembers, or does nothing. -/
theorem freeToCheckpoint_cases (hinit : s.initialized = true) (cp : UInt32) :
    (s.Rewinds cp = false ∧ s.freeToCheckpoint cp = s) ∨
      (s.Rewinds cp = true ∧ s.cur.start ≤ (s.record cp).savedPos ∧
        (s.record cp).savedPos ≤ s.cur.current ∧
        (s.freeToCheckpoint cp).frame = (s.moveTo (s.record cp).savedPos).frame) := by
  unfold freeToCheckpoint Rewinds
  by_cases hcp : cp = 0
  · exact .inl ⟨by simp [hcp], if_pos (.inr hcp)⟩
  rw [if_neg (by simp [hinit, hcp])]
  dsimp only
  cases hvalid : s.isValidPtr (s.record cp).savedPos with
  | false => exact .inl ⟨by simp, if_pos rfl⟩
  | true =>
      have hin : s.cur.start ≤ (s.record cp).savedPos ∧ (s.record cp).savedPos ≤ s.cur.current := by
        unfold isValidPtr at hvalid
        split at hvalid
        · cases hvalid
        · exact of_decide_eq_true hvalid
      exact .inr ⟨by simp [hcp], hin.1, hin.2, rfl⟩

theorem restoreLoop_eq (fuel : Nat) (s : StackAllocator) (cp : UInt32) :
    (restoreLoop p fuel s cp).2.frame = s.frame ∧ (restoreLoop p fuel s cp).2.record = s.record := by
  induction fuel generalizing s cp with
  | zero => exact ⟨rfl, rfl⟩
  | succ fuel ih =>
      unfold restoreLoop
      split
      · exact ih (s.kfree cp).uncount (s.record cp).prev
      · exact ⟨rfl, rfl⟩

/-- The rest of a restore moves no position. -/
theorem restoreCheckpoint_frame (s : StackAllocator) (cp : UInt32) :
    (s.restoreCheckpoint cp).frame = (s.freeToCheckpoint cp).frame ∧
      (s.restoreCheckpoint cp).record = s.record := by
  have hrec := (freeToCheckpoint_keeps s cp).1
  unfold restoreCheckpoint
  split
  · next h0 => exact ⟨by rw [show s.freeToCheckpoint cp = s from if_pos (.inr h0)], rfl⟩
  · rw [← hrec]
    generalize s.freeToCheckpoint cp = s₁
    have hloop := restoreLoop_eq (p := cp) turns s₁ s₁.checkpointStack
    unfold popTo
    generalize restoreLoop cp turns s₁ s₁.checkpointStack = r at hloop ⊢
    obtain ⟨q, s₂⟩ := r
    dsimp only at hloop ⊢
    split <;> exact hloop

theorem dropRecords_eq (fuel : Nat) (s : StackAllocator) :
    (dropRecords fuel s).frame = s.frame ∧ (dropRecords fuel s).record = s.record := by
  induction fuel generalizing s with
  | zero => exact ⟨rfl, rfl⟩
  | succ fuel ih =>
      unfold dropRecords
      split
      · exact ⟨rfl, rfl⟩
      · exact ih s.dropFirst

theorem reset_frame (hinit : s.initialized = true) :
    s.reset.frame = (s.moveTo s.cur.start).frame ∧ s.reset.record = s.record := by
  unfold reset
  rw [if_neg (by rw [hinit]; decide)]
  exact dropRecords_eq ..

theorem destroyCheckpoint_frame (s : StackAllocator) (cp : UInt32) :
    (s.destroyCheckpoint cp).frame = s.frame ∧
      ∀ q, ((s.destroyCheckpoint cp).record q).savedPos = (s.record q).savedPos := by
  unfold destroyCheckpoint
  split
  · exact ⟨rfl, fun _ => rfl⟩
  · dsimp only
    split
    · split
      · refine ⟨rfl, fun q => ?_⟩
        dsimp only [uncount, modifyStats, kfree, modifyRecord]
        rw [Function.update_apply]
        split
        · next hq => rw [hq]
        · rfl
      · exact ⟨rfl, fun _ => rfl⟩
    · exact ⟨rfl, fun _ => rfl⟩

/-- A checkpoint remembers where the current frame is. -/
theorem createCheckpoint_frame (s : StackAllocator) :
    s.createCheckpoint.2.frame = s.frame ∧
      (∀ q, q ≠ s.createCheckpoint.1 → s.createCheckpoint.2.record q = s.record q) ∧
      (s.createCheckpoint.1 = 0 → s.createCheckpoint.2.record = s.record) ∧
      (s.createCheckpoint.1 ≠ 0 →
        (s.createCheckpoint.2.record s.createCheckpoint.1).savedPos = s.cur.current) := by
  have hframe : (s.kmalloc sizeofStackCheckpoint).2.frame = s.frame := rfl
  have hrec : (s.kmalloc sizeofStackCheckpoint).2.record = s.record := rfl
  have hcur : (s.kmalloc sizeofStackCheckpoint).2.cur = s.cur := rfl
  unfold createCheckpoint
  split
  · exact ⟨rfl, fun _ _ => rfl, fun _ => rfl, fun h => absurd rfl h⟩
  · generalize s.kmalloc sizeofStackCheckpoint = r at hframe hrec hcur ⊢
    obtain ⟨cp, s₁⟩ := r
    dsimp only at hframe hrec hcur ⊢
    split
    · exact ⟨hframe, fun q _ => by rw [hrec], fun _ => hrec, fun h => absurd rfl h⟩
    · next hne =>
        refine ⟨hframe, fun q hq => ?_, fun h => absurd h hne, fun _ => ?_⟩
        · dsimp only at hq ⊢
          rw [pushRecord_other hq, hrec]
        · dsimp only
          rw [pushRecord_self, hcur]

end StackAllocator

/-! ## Clients and their blocks -/

/-- A block that a client was given, with the frame it was cut off and the
number of blocks before it. -/
structure StackBlock where
  frame : UInt32
  addr : UInt32
  size : UInt32
  serial : Nat

/-- Two blocks that share no byte. -/
def StackBlock.Apart (b c : StackBlock) : Prop :=
  b.addr.toNat + b.size.toNat ≤ c.addr.toNat ∨ c.addr.toNat + c.size.toNat ≤ b.addr.toNat

/-- A client with the blocks it was given and has not released, the newest
first, and for each checkpoint the number of blocks before it. -/
structure BlockClient where
  stack : StackAllocator
  out : List StackBlock
  serial : Nat
  mark : UInt32 → Option Nat

namespace BlockClient

/-- What an allocation of `size` bytes gave. -/
def allocated (c : BlockClient) (size : UInt32) (r : UInt32 × StackAllocator) : BlockClient :=
  if r.1 = 0 then { c with stack := r.2 }
  else
    { c with
      stack := r.2
      out := { frame := r.2.currentFrame, addr := r.1, size := size, serial := c.serial } :: c.out
      serial := c.serial + 1 }

/-- The blocks after the position of `cp` was restored. -/
def kept (c : BlockClient) (cp : UInt32) : List StackBlock :=
  match c.mark cp with
  | some k => if c.stack.Rewinds cp then c.out.filter fun b => b.serial < k else c.out
  | none => c.out

/-- What making a checkpoint gave. -/
def marked (c : BlockClient) (r : UInt32 × StackAllocator) : BlockClient :=
  if r.1 = 0 then { c with stack := r.2 }
  else { c with stack := r.2, mark := Function.update c.mark r.1 (some c.serial) }

end BlockClient

/-- The client after a call. -/
def blockStep (c : BlockClient) : StackFrameCall → BlockClient
  | .alloc size alignment => c.allocated size (c.stack.alloc size alignment)
  | .allocAligned size alignment => c.allocated size (c.stack.allocAligned size alignment)
  | .grow n => { c with stack := (c.stack.grow n).2 }
  | .shrinkToFit => { c with stack := c.stack.shrinkToFit.2 }
  | .reset => { c with stack := c.stack.reset, out := [] }
  | .createCheckpoint => c.marked c.stack.createCheckpoint
  | .freeToCheckpoint cp => { c with stack := c.stack.freeToCheckpoint cp, out := c.kept cp }
  | .restoreCheckpoint cp => { c with stack := c.stack.restoreCheckpoint cp, out := c.kept cp }
  | .destroyCheckpoint cp => { c with stack := c.stack.destroyCheckpoint cp }

/-- A checkpoint to go back to is null or one that was made and is out. -/
def MadeCheckpoint (c : BlockClient) (cp : UInt32) : Prop :=
  cp = 0 ∨ ((c.mark cp).isSome = true ∧ c.stack.LiveRecord cp)

/-- Allocations and `grow` do not wrap around, and checkpoints are restored as
in `KeepsFrameChain`. -/
def PlacesBlocks (c : BlockClient) : StackFrameCall → Prop
  | .alloc size alignment => c.stack.AllocPlaces size alignment
  | .allocAligned size alignment => c.stack.AllocPlaces size (usedAlignment alignment)
  | .freeToCheckpoint cp => MadeCheckpoint c cp
  | .restoreCheckpoint cp =>
      MadeCheckpoint c cp ∧ KeepsFrameChain c.stack (.restoreCheckpoint cp)
  | call => KeepsFrameChain c.stack call

/-! ## The invariant -/

/-- The words of a frame in the block at `p`.  The end is a wrapped sum: a block
may end where the addresses do, and then nothing fits the frame. -/
structure SaneFrame (p : UInt32) (f : StackFrame) : Prop where
  size : 0 < f.size.toNat
  start : f.start.toNat = p.toNat + sizeofStackFrame.toNat
  stop : f.«end» = f.start + f.size
  low : f.start.toNat ≤ f.current.toNat
  high : f.current = f.start ∨ f.current.toNat ≤ f.«end».toNat
  canary : f.canary = stackCanary

/-- The frames `l` are sane, the blocks lie below the positions of their frames
and apart, and the checkpoints remember positions above the older blocks. -/
structure Placement (c : BlockClient) (l : List UInt32) : Prop where
  initialized : c.stack.initialized = true
  records : ∃ lr, c.stack.Chained lr
  frames : c.stack.Framed l
  sane : ∀ p ∈ l, SaneFrame p (c.stack.frame p)
  inside : ∀ b ∈ c.out, b.frame ∈ l ∧ 0 < b.size.toNat ∧
    (c.stack.frame b.frame).start.toNat ≤ b.addr.toNat ∧
    b.addr.toNat + b.size.toNat ≤ (c.stack.frame b.frame).current.toNat
  apart : c.out.Pairwise StackBlock.Apart
  older : ∀ b ∈ c.out, b.serial < c.serial
  marks : ∀ cp k, c.mark cp = some k → k ≤ c.serial ∧ ∀ b ∈ c.out, b.serial < k →
    (c.stack.frame b.frame).start.toNat ≤ (c.stack.record cp).savedPos.toNat →
    b.addr.toNat + b.size.toNat ≤ (c.stack.record cp).savedPos.toNat

/-- A position stays inside the block of its frame. -/
theorem SaneFrame.current_le {p : UInt32} {f : StackFrame} (h : SaneFrame p f) :
    f.current.toNat ≤ f.start.toNat + f.size.toNat := by
  rcases h.high with he | hle
  · rw [he]
    exact Nat.le_add_right _ _
  · refine hle.trans ?_
    rw [h.stop, UInt32.toNat_add]
    exact Nat.mod_le _ _

theorem SaneFrame.relinked {p : UInt32} {f : StackFrame} (h : SaneFrame p f) (next : UInt32) :
    SaneFrame p { f with next := next } :=
  ⟨h.size, h.start, h.stop, h.low, h.high, h.canary⟩

/-- A frame just made is sane, if its block does not wrap around. -/
theorem SaneFrame.fresh {p size : UInt32} (prev : UInt32) (hsize : 0 < size.toNat)
    (hplace : p.toNat + (sizeofStackFrame.toNat + size.toNat) ≤ 4294967296) :
    SaneFrame p { StackAllocator.freshFrame p size with prev := prev } := by
  have hstart : (p + sizeofStackFrame).toNat = p.toNat + sizeofStackFrame.toNat := by
    rw [UInt32.toNat_add]
    refine Nat.mod_eq_of_lt ?_
    omega
  exact ⟨hsize, hstart, rfl, Nat.le_refl _, Or.inl rfl, rfl⟩

namespace Placement

variable {c : BlockClient} {l : List UInt32} {s' : StackAllocator}

theorem current_sane (h : Placement c l) : SaneFrame c.stack.currentFrame c.stack.cur :=
  h.sane _ h.frames.current_mem

/-- A block of another frame lies before the current frame, or its frame begins
behind it. -/
theorem frame_apart (h : Placement c l) {b : StackBlock} (hb : b ∈ c.out)
    (hne : b.frame ≠ c.stack.currentFrame) :
    b.addr.toNat + b.size.toNat ≤ c.stack.currentFrame.toNat ∨
      c.stack.cur.start.toNat + c.stack.cur.size.toNat < (c.stack.frame b.frame).start.toNat := by
  obtain ⟨hmem, _, _, hend⟩ := h.inside b hb
  have hcurrent := (h.sane _ hmem).current_le
  have hstart := (h.sane _ hmem).start
  have hcur := h.current_sane.start
  have hblocks := BlockHeap.apart_of_mem (h.frames.backed _ hmem)
    (h.frames.backed _ h.frames.current_mem)
    fun e => hne (UInt32.toNat_inj.mp (congrArg Prod.fst e))
  have h32 : sizeofStackFrame.toNat = 32 := rfl
  unfold StackAllocator.cur at *
  rcases hblocks with hle | hle
  · left
    dsimp only at hle
    omega
  · right
    dsimp only at hle
    omega

/-- **A range above the position of the current frame**, and in it, meets no
block. -/
theorem block_apart (h : Placement c l) {b : StackBlock} (hb : b ∈ c.out) {addr size : Nat}
    (hlow : c.stack.cur.current.toNat ≤ addr)
    (hhigh : addr + size ≤ c.stack.cur.start.toNat + c.stack.cur.size.toNat) :
    b.addr.toNat + b.size.toNat ≤ addr ∨ addr + size ≤ b.addr.toNat := by
  obtain ⟨_, _, hstart, hend⟩ := h.inside b hb
  have hsane := h.current_sane
  by_cases hcur : b.frame = c.stack.currentFrame
  · left
    rw [hcur] at hend
    exact hend.trans hlow
  · rcases h.frame_apart hb hcur with hle | hlt
    · left
      have hfirst := hsane.start
      have hsecond := hsane.low
      omega
    · right
      omega

/-! ### What the calls keep -/

/-- The current frame has another position, between which and the start of the
frame the remaining blocks of it lie. -/
theorem moved (h : Placement c l) (hk : c.stack.KeepsFrames s') (hr : ∃ lr, s'.Chained lr)
    (hsaved : ∀ cp k, c.mark cp = some k →
      (s'.record cp).savedPos = (c.stack.record cp).savedPos)
    (hlow : c.stack.cur.start.toNat ≤ (s'.frame c.stack.currentFrame).current.toNat)
    (hhigh : (s'.frame c.stack.currentFrame).current = c.stack.cur.start ∨
      (s'.frame c.stack.currentFrame).current.toNat ≤ c.stack.cur.«end».toNat)
    {out : List StackBlock} (hout : out.Sublist c.out)
    (hin : ∀ b ∈ out, b.frame = c.stack.currentFrame →
      b.addr.toNat + b.size.toNat ≤ (s'.frame c.stack.currentFrame).current.toNat) :
    Placement { c with stack := s', out := out } l := by
  have hstart : ∀ p, (s'.frame p).start = (c.stack.frame p).start := fun p => by rw [hk.frame p]
  refine ⟨hk.initialized.trans h.initialized, hr, h.frames.keeps hk, fun p hp => ?_, fun b hb => ?_,
    h.apart.sublist hout, fun b hb => h.older b (hout.subset hb), fun cp k hm => ?_⟩
  · have hsane := h.sane p hp
    show SaneFrame p (s'.frame p)
    by_cases hp : p = c.stack.currentFrame
    · subst hp
      rw [hk.frame]
      exact ⟨hsane.size, hsane.start, hsane.stop, hlow, hhigh, hsane.canary⟩
    · rw [hk.frame, hk.position p hp]
      exact hsane
  · obtain ⟨hmem, hpos, hfirst, hend⟩ := h.inside b (hout.subset hb)
    refine ⟨hmem, hpos, (hstart b.frame).symm ▸ hfirst, ?_⟩
    by_cases hcur : b.frame = c.stack.currentFrame
    · rw [hcur]
      exact hin b hb hcur
    · show _ ≤ (s'.frame b.frame).current.toNat
      rw [hk.position _ hcur]
      exact hend
  · obtain ⟨hle, hblocks⟩ := h.marks cp k hm
    refine ⟨hle, fun b hb hserial => ?_⟩
    show (s'.frame b.frame).start.toNat ≤ (s'.record cp).savedPos.toNat →
      b.addr.toNat + b.size.toNat ≤ (s'.record cp).savedPos.toNat
    rw [hsaved cp k hm, hstart]
    exact hblocks b (hout.subset hb) hserial

/-- No position has changed, and no block was released. -/
theorem still (h : Placement c l) (hk : c.stack.KeepsFrames s') (hr : ∃ lr, s'.Chained lr)
    (hsaved : ∀ cp k, c.mark cp = some k →
      (s'.record cp).savedPos = (c.stack.record cp).savedPos)
    (hframes : s'.frame = c.stack.frame) : Placement { c with stack := s' } l := by
  have hsane := h.current_sane
  have hframe : (s'.frame c.stack.currentFrame).current = c.stack.cur.current := by
    rw [hframes]
    rfl
  refine h.moved hk hr hsaved ?_ ?_ (List.Sublist.refl _) fun b hb hcur => ?_
  · rw [hframe]
    exact hsane.low
  · rw [hframe]
    exact hsane.high
  · rw [hframe]
    have hend := (h.inside b hb).2.2.2
    rw [hcur] at hend
    exact hend

/-- A new block is put down among the others. -/
theorem listed (h : Placement c l) {b : StackBlock} (hserial : b.serial = c.serial)
    (hframe : b.frame ∈ l) (hsize : 0 < b.size.toNat)
    (hstart : (c.stack.frame b.frame).start.toNat ≤ b.addr.toNat)
    (hend : b.addr.toNat + b.size.toNat ≤ (c.stack.frame b.frame).current.toNat)
    (hapart : ∀ d ∈ c.out, b.Apart d) :
    Placement { c with out := b :: c.out, serial := c.serial + 1 } l := by
  refine ⟨h.initialized, h.records, h.frames, h.sane, ?_, List.pairwise_cons.mpr ⟨hapart, h.apart⟩,
    ?_, ?_⟩
  · intro d hd
    rcases List.mem_cons.mp hd with rfl | hd
    · exact ⟨hframe, hsize, hstart, hend⟩
    · exact h.inside d hd
  · intro d hd
    rcases List.mem_cons.mp hd with rfl | hd
    · exact hserial ▸ Nat.lt_succ_self _
    · exact Nat.lt_succ_of_lt (h.older d hd)
  · intro cp k hm
    obtain ⟨hle, hblocks⟩ := h.marks cp k hm
    refine ⟨Nat.le_succ_of_le hle, fun d hd hk => ?_⟩
    rcases List.mem_cons.mp hd with rfl | hd
    · rw [hserial] at hk
      exact absurd hk (Nat.not_lt.mpr hle)
    · exact hblocks d hd hk

/-- **A block is cut off** the current frame. -/
theorem taken (h : Placement c l) {p n size : UInt32} (hsize : 0 < size.toNat)
    (hfit : p + n ≤ c.stack.cur.«end») (hp : c.stack.cur.current ≤ p) (hn : size ≤ n)
    (hsum : p.toNat + n.toNat < 4294967296) :
    Placement (c.allocated size (c.stack.take p n)) l := by
  have hsane := h.current_sane
  have hk := StackAllocator.take_keepsFrames (s := c.stack) p n
  have hrec := StackAllocator.take_keeps (s := c.stack) p n
  have hcur := StackAllocator.take_current (s := c.stack) p n
  have hptr := FramesSound.take_fst (n := n) (p := p) hsane.canary
  have htop : (p + n).toNat = p.toNat + n.toNat := by
    rw [UInt32.toNat_add]
    exact Nat.mod_eq_of_lt hsum
  rw [UInt32.le_iff_toNat_le] at hp hn
  rw [UInt32.le_iff_toNat_le, htop] at hfit
  have hlow := hsane.low
  have hstart := hsane.start
  have h32 : sizeofStackFrame.toNat = 32 := rfl
  have hp0 : p ≠ 0 := by
    rintro rfl
    rw [UInt32.toNat_zero] at hp
    omega
  have hroom : c.stack.cur.«end».toNat ≤ c.stack.cur.start.toNat + c.stack.cur.size.toNat := by
    rw [hsane.stop, UInt32.toNat_add]
    exact Nat.mod_le _ _
  have hbase : Placement { c with stack := (c.stack.take p n).2 } l := by
    refine h.moved hk ?_ (fun cp _ _ => by rw [hrec.record]) ?_ ?_ (List.Sublist.refl _) fun b hb hb' => ?_
    · obtain ⟨lr, hlr⟩ := h.records
      exact ⟨lr, hlr.keeps hrec⟩
    · rw [hcur, htop]
      omega
    · right
      rw [hcur, htop]
      exact hfit
    · have hend := (h.inside b hb).2.2.2
      rw [hb'] at hend
      rw [hcur, htop]
      exact hend.trans (hp.trans (Nat.le_add_right _ _))
  unfold BlockClient.allocated
  rw [if_neg (hptr.trans_ne hp0), hptr]
  refine hbase.listed rfl hbase.frames.current_mem hsize ?_ ?_ fun b hb => ?_
  · show ((c.stack.take p n).2.frame (c.stack.take p n).2.currentFrame).start.toNat ≤ p.toNat
    rw [hk.currentFrame, hk.frame]
    exact hlow.trans hp
  · show p.toNat + size.toNat ≤
      ((c.stack.take p n).2.frame (c.stack.take p n).2.currentFrame).current.toNat
    rw [hk.currentFrame, hcur, htop]
    omega
  · have hend : p.toNat + size.toNat ≤ c.stack.cur.start.toNat + c.stack.cur.size.toNat := by omega
    exact (h.block_apart hb hp hend).symm

/-- Every frame that `grow` asks for has room. -/
theorem newFrameSize_pos (h : Placement c l) (n : UInt32) : 0 < (c.stack.newFrameSize n).toNat := by
  have hpos := h.current_sane.size
  have hle := (h.frames.size_le h.frames.current_mem).trans
    (UInt32.le_iff_toNat_le.mp h.frames.bounded)
  have hmax : maxStackSize.toNat = 1048576 := rfl
  have htwice : (c.stack.cur.size * 2).toNat = c.stack.cur.size.toNat * 2 := by
    rw [UInt32.toNat_mul]
    refine Nat.mod_eq_of_lt ?_
    unfold StackAllocator.cur
    show _ * 2 < 4294967296
    omega
  unfold StackAllocator.newFrameSize
  split
  · omega
  · next hlt =>
      rw [UInt32.not_lt, UInt32.le_iff_toNat_le] at hlt
      omega

/-- A frame more. -/
theorem grown (h : Placement c l) {p n : UInt32} (hg : c.stack.Grown s' p (c.stack.newFrameSize n))
    (hr : ¬ c.stack.GrowRefused n) (hcap : c.stack.CapacityHolds n)
    (hrec : c.stack.KeepsRecords s') : Placement { c with stack := s' } (l ++ [p]) := by
  have hle : c.stack.totalCapacity + c.stack.newFrameSize n ≤ maxStackSize :=
    UInt32.not_lt.mp fun hlt => hr (.inl hlt)
  have hsize := h.newFrameSize_pos n
  have hrequest := @StackAllocator.request_toNat (c.stack.newFrameSize n) (by
    rw [UInt32.le_iff_toNat_le, UInt32.toNat_add, Nat.mod_eq_of_lt hcap] at hle
    rw [UInt32.le_iff_toNat_le]
    omega)
  have hnew : p ∉ l := fun hm => hg.place.not_live ⟨_, h.frames.backed p hm, rfl⟩
  have hsame : ∀ q ∈ l, s'.frame q = { c.stack.frame q with next := (s'.frame q).next } := by
    intro q hq
    by_cases hc : q = c.stack.currentFrame
    · rw [hc, hg.oldFrame]
      rfl
    · rw [hg.others q (fun e => hnew (e ▸ hq)) hc]
  refine ⟨hg.initialized.trans h.initialized, ?_, h.frames.grown hg hcap hle, fun q hq => ?_,
    fun b hb => ?_, h.apart, h.older, fun cp k hm => ?_⟩
  · obtain ⟨lr, hlr⟩ := h.records
    exact ⟨lr, hlr.keeps hrec⟩
  · show SaneFrame q (s'.frame q)
    rcases List.mem_append.mp hq with hq | hq
    · rw [hsame q hq]
      exact (h.sane q hq).relinked _
    · obtain rfl := List.mem_singleton.mp hq
      rw [hg.newFrame]
      exact SaneFrame.fresh _ hsize (by rw [← hrequest]; exact hg.place.1.2.2)
  · obtain ⟨hmem, hpos, hstart, hend⟩ := h.inside b hb
    refine ⟨List.mem_append_left _ hmem, hpos, ?_⟩
    show (s'.frame b.frame).start.toNat ≤ _ ∧ _ ≤ (s'.frame b.frame).current.toNat
    rw [hsame _ hmem]
    exact ⟨hstart, hend⟩
  · obtain ⟨hk, hblocks⟩ := h.marks cp k hm
    refine ⟨hk, fun b hb hserial => ?_⟩
    show (s'.frame b.frame).start.toNat ≤ (s'.record cp).savedPos.toNat →
      b.addr.toNat + b.size.toNat ≤ (s'.record cp).savedPos.toNat
    rw [hrec.record, hsame _ (h.inside b hb).1]
    exact hblocks b hb hserial

/-- An empty frame less. -/
theorem shrunk (h : Placement c l) (hempty : c.stack.usedBytes = 0) (hprev : c.stack.cur.prev ≠ 0) :
    Placement { c with stack := c.stack.dropFrame } l.dropLast := by
  obtain ⟨hs, hl', hbefore⟩ := h.frames.shrunk hprev
  have hl : l = l.dropLast ++ [c.stack.currentFrame] := by
    obtain ⟨l₀, hl₀⟩ := List.getLast?_eq_some_iff.mp h.frames.last
    rw [hl₀, List.dropLast_concat]
  have hlast : c.stack.currentFrame ∉ l.dropLast := by
    have hnd := h.frames.nodup
    rw [hl] at hnd
    exact fun hm => (List.nodup_append.mp hnd).2.2 _ hm _ (List.mem_singleton_self _) rfl
  have hsame : ∀ q ∈ l.dropLast, c.stack.dropFrame.frame q =
      { c.stack.frame q with next := (c.stack.dropFrame.frame q).next } := by
    intro q hq
    by_cases hqp : q = c.stack.cur.prev
    · rw [hqp, hs.before]
    · rw [hs.others q hqp fun e => hlast (e ▸ hq)]
  have hframe : ∀ b ∈ c.out, b.frame ∈ l.dropLast := by
    intro b hb
    obtain ⟨hmem, hpos, hstart, hend⟩ := h.inside b hb
    rw [hl] at hmem
    rcases List.mem_append.mp hmem with hmem | hcur
    · exact hmem
    · -- nothing is allocated in the frame
      have hzero : c.stack.cur.current = c.stack.cur.start := by
        unfold StackAllocator.usedBytes at hempty
        rw [← UInt32.sub_add_cancel c.stack.cur.current c.stack.cur.start, hempty, UInt32.zero_add]
      rw [List.mem_singleton.mp hcur] at hstart hend
      unfold StackAllocator.cur at hzero
      rw [hzero] at hend
      omega
  refine ⟨hs.initialized.trans h.initialized, ?_, hl', fun q hq => ?_, fun b hb => ?_, h.apart,
    h.older, fun cp k hm => ?_⟩
  · obtain ⟨lr, hlr⟩ := h.records
    exact ⟨lr, hlr.shrunk h.frames hs⟩
  · show SaneFrame q (c.stack.dropFrame.frame q)
    rw [hsame q hq]
    exact (h.sane q (List.mem_of_mem_dropLast hq)).relinked _
  · obtain ⟨_, hpos, hstart, hend⟩ := h.inside b hb
    refine ⟨hframe b hb, hpos, ?_⟩
    show (c.stack.dropFrame.frame b.frame).start.toNat ≤ _ ∧
      _ ≤ (c.stack.dropFrame.frame b.frame).current.toNat
    rw [hsame _ (hframe b hb)]
    exact ⟨hstart, hend⟩
  · obtain ⟨hk, hblocks⟩ := h.marks cp k hm
    refine ⟨hk, fun b hb hserial => ?_⟩
    show (c.stack.dropFrame.frame b.frame).start.toNat ≤
        (c.stack.dropFrame.record cp).savedPos.toNat →
      b.addr.toNat + b.size.toNat ≤ (c.stack.dropFrame.record cp).savedPos.toNat
    rw [hs.record, hsame _ (hframe b hb)]
    exact hblocks b hb hserial

/-! ### The calls -/

theorem alloc (h : Placement c l) {size alignment : UInt32}
    (hok : c.stack.AllocPlaces size alignment) :
    ∃ l', Placement (c.allocated size (c.stack.alloc size alignment)) l' := by
  by_cases hsize : size = 0
  · rw [show c.stack.alloc size alignment = (0, c.stack) from if_pos (.inr hsize)]
    exact ⟨l, h⟩
  have hpos : 0 < size.toNat :=
    Nat.pos_of_ne_zero fun e => hsize (UInt32.toNat_inj.mp (e.trans UInt32.toNat_zero.symm))
  obtain ⟨lr, hlr⟩ := h.records
  rcases StackAllocator.alloc_cases h.frames h.initialized hsize alignment with
    ⟨hfit, he⟩ | ⟨_, _, hnull, hk, hf⟩ | ⟨hfull, hr, s₁, hg, hrec, he⟩
  · have hu := (hok.resolve_left hsize).resolve_right
      fun hgrow => absurd hfit (UInt32.not_le.mpr hgrow.1)
    have hcheck : Placement { c with stack := c.stack.countCheck } l :=
      h.still StackAllocator.countCheck_keepsFrames ⟨lr, hlr.links, hlr.nodup, hlr.live⟩
        (fun _ _ _ => rfl) rfl
    rw [he]
    exact ⟨l, hcheck.taken hpos hfit hu.2.1 hu.2.2.1 hu.2.2.2⟩
  · have hrec := StackAllocator.alloc_keeps (s := c.stack) size alignment
    unfold BlockClient.allocated
    rw [if_pos hnull]
    exact ⟨l, h.still hk ⟨lr, hlr.keeps hrec⟩ (fun cp _ _ => by rw [hrec.record]) hf⟩
  · obtain ⟨hcap, hunwrapped⟩ := (((hok.resolve_left hsize).resolve_left
      fun hin => absurd hin.1 (UInt32.not_le.mpr hfull)).2).resolve_left hr
    have hgrown : Placement { c with stack := s₁ } (l ++ [c.stack.nextAddress]) :=
      h.grown hg hr hcap hrec
    refine ⟨l ++ [c.stack.nextAddress], ?_⟩
    rw [he]
    split
    · next hfit =>
        obtain ⟨hp, hn, hsum⟩ := hunwrapped hfit
        have hcur := hg.cur
        refine hgrown.taken hpos ?_ ?_ hn hsum
        · show _ ≤ s₁.cur.«end»
          rw [hcur]
          exact hfit
        · show s₁.cur.current ≤ _
          rw [hcur]
          exact hp
    · exact hgrown

theorem grow (h : Placement c l) {n : UInt32} (hok : c.stack.GrowRefused n ∨ c.stack.CapacityHolds n) :
    ∃ l', Placement { c with stack := (c.stack.grow n).2 } l' := by
  obtain ⟨lr, hlr⟩ := h.records
  have hrec := StackAllocator.grow_keeps (s := c.stack) n
  rcases StackAllocator.grow_cases h.frames h.initialized n with ⟨_, _, hk, hf⟩ | ⟨hr, _, hg⟩
  · exact ⟨l, h.still hk ⟨lr, hlr.keeps hrec⟩ (fun cp _ _ => by rw [hrec.record]) hf⟩
  · exact ⟨_, h.grown hg hr (hok.resolve_left hr) hrec⟩

theorem shrink (h : Placement c l) : ∃ l', Placement { c with stack := c.stack.shrinkToFit.2 } l' := by
  unfold StackAllocator.shrinkToFit
  split
  · exact ⟨l, h⟩
  · exact StackAllocator.shrinkLoop_rule (I := fun s => ∃ l', Placement { c with stack := s } l')
      (fun s ⟨l', hl'⟩ hempty hprev => ⟨_, hl'.shrunk hempty hprev⟩) _ ⟨l, h⟩

/-- A checkpoint that is forgotten. -/
theorem unmarked (h : Placement c l) (cp : UInt32) :
    Placement { c with mark := Function.update c.mark cp none } l := by
  refine ⟨h.initialized, h.records, h.frames, h.sane, h.inside, h.apart, h.older, fun q k hm => ?_⟩
  dsimp only at hm
  rw [Function.update_apply] at hm
  split at hm
  · cases hm
  · exact h.marks q k hm

/-- A checkpoint that remembers the position of the current frame: no block of
that frame passes it, and the other frames lie apart. -/
theorem marked (h : Placement c l) (cp : UInt32)
    (hsaved : (c.stack.record cp).savedPos = c.stack.cur.current) :
    Placement { c with mark := Function.update c.mark cp (some c.serial) } l := by
  refine ⟨h.initialized, h.records, h.frames, h.sane, h.inside, h.apart, h.older, fun q k hm => ?_⟩
  dsimp only at hm
  rw [Function.update_apply] at hm
  split at hm
  · next hq =>
      obtain rfl := Option.some.inj hm
      refine ⟨Nat.le_refl _, fun b hb _ hstart => ?_⟩
      dsimp only at hb hstart ⊢
      rw [hq, hsaved] at hstart ⊢
      by_cases hcur : b.frame = c.stack.currentFrame
      · have hend := (h.inside b hb).2.2.2
        rw [hcur] at hend
        exact hend
      · have hle := h.current_sane.current_le
        have hfirst := h.current_sane.start
        have hlow := h.current_sane.low
        rcases h.frame_apart hb hcur with hbefore | hbehind
        · omega
        · omega
  · exact h.marks q k hm

theorem checkpoint (h : Placement c l) : Placement (c.marked c.stack.createCheckpoint) l := by
  obtain ⟨lr, hlr⟩ := h.records
  obtain ⟨hframe, hother, hnull, hsaved⟩ := StackAllocator.createCheckpoint_frame c.stack
  have hk := StackAllocator.createCheckpoint_keepsFrames (s := c.stack)
  have hr := (StackAllocator.createCheckpoint_spec hlr).1
  unfold BlockClient.marked
  split
  · next h0 => exact h.still hk hr (fun cp _ _ => by rw [hnull h0]) hframe
  · next hne =>
      have hstill := (h.unmarked c.stack.createCheckpoint.1).still hk hr (fun q k hm => by
        have hq : q ≠ c.stack.createCheckpoint.1 := by
          rintro rfl
          dsimp only at hm
          rw [Function.update_self] at hm
          cases hm
        rw [hother q hq]) hframe
      have hmark := hstill.marked c.stack.createCheckpoint.1 (by
        show _ = (c.stack.createCheckpoint.2.frame c.stack.createCheckpoint.2.currentFrame).current
        rw [hk.currentFrame, hframe]
        exact hsaved hne)
      dsimp only at hmark
      rwa [Function.update_idem] at hmark

/-- **Going back to a checkpoint** releases what was allocated since. -/
theorem rewound (h : Placement c l) {cp : UInt32} (hmade : MadeCheckpoint c cp)
    (hk : c.stack.KeepsFrames s') (hr : ∃ lr, s'.Chained lr) (hrec : s'.record = c.stack.record)
    (hframe : s'.frame = (c.stack.freeToCheckpoint cp).frame) :
    Placement { c with stack := s', out := c.kept cp } l := by
  rcases StackAllocator.freeToCheckpoint_cases h.initialized cp with
    ⟨hno, he⟩ | ⟨hyes, hlow, hhigh, hmoved⟩
  · have hkept : c.kept cp = c.out := by
      unfold BlockClient.kept
      rw [hno]
      split <;> rfl
    rw [hkept]
    rw [he] at hframe
    exact h.still hk hr (fun q _ _ => by rw [hrec]) hframe
  · have hcp : cp ≠ 0 := by
      rintro rfl
      simp [StackAllocator.Rewinds] at hyes
    obtain ⟨k, hm⟩ := Option.isSome_iff_exists.mp (hmade.resolve_left hcp).1
    have hpos : (s'.frame c.stack.currentFrame).current = (c.stack.record cp).savedPos := by
      rw [hframe, hmoved, StackAllocator.moveTo, StackAllocator.modifyFrame_self]
    have hkept : c.kept cp = c.out.filter fun b => b.serial < k := by
      unfold BlockClient.kept
      rw [hm, hyes]
      rfl
    rw [UInt32.le_iff_toNat_le] at hlow hhigh
    rw [hkept]
    refine h.moved hk hr (fun q _ _ => by rw [hrec]) ?_ ?_ List.filter_sublist fun b hb hcur => ?_
    · rw [hpos]
      exact hlow
    · rw [hpos]
      rcases h.current_sane.high with he | hle
      · left
        rw [he] at hhigh
        exact UInt32.toNat_inj.mp (Nat.le_antisymm hhigh hlow)
      · right
        exact hhigh.trans hle
    · obtain ⟨hb, hserial⟩ := List.mem_filter.mp hb
      rw [hpos]
      refine (h.marks cp k hm).2 b hb (of_decide_eq_true hserial) ?_
      rw [hcur]
      exact hlow

theorem reset (h : Placement c l) : Placement { c with stack := c.stack.reset, out := [] } l := by
  obtain ⟨lr, hlr⟩ := h.records
  obtain ⟨hframe, hrec⟩ := StackAllocator.reset_frame h.initialized
  have hpos : (c.stack.reset.frame c.stack.currentFrame).current = c.stack.cur.start := by
    rw [hframe, StackAllocator.moveTo, StackAllocator.modifyFrame_self]
  refine h.moved (StackAllocator.reset_keepsFrames hlr)
    ⟨[], (StackAllocator.reset_spec hlr h.initialized).2⟩ (fun q _ _ => by rw [hrec]) ?_ ?_
    (List.nil_sublist _) fun _ hb => absurd hb List.not_mem_nil
  · rw [hpos]
  · exact Or.inl hpos

/-- **One call** that meets the condition. -/
theorem step (h : Placement c l) {call : StackFrameCall} (hok : PlacesBlocks c call) :
    ∃ l', Placement (blockStep c call) l' := by
  obtain ⟨lr, hlr⟩ := h.records
  have hsound : FramesSound c.stack := ⟨h.initialized, ⟨lr, hlr⟩, l, h.frames⟩
  cases call with
  | alloc size alignment => exact h.alloc hok
  | allocAligned size alignment => exact h.alloc hok
  | grow n => exact h.grow hok
  | shrinkToFit => exact h.shrink
  | reset => exact ⟨l, h.reset⟩
  | createCheckpoint => exact ⟨l, h.checkpoint⟩
  | freeToCheckpoint cp =>
      exact ⟨l, h.rewound hok (StackAllocator.freeToCheckpoint_keepsFrames cp)
        ⟨lr, StackAllocator.freeToCheckpoint_chained hlr cp⟩
        (StackAllocator.freeToCheckpoint_keeps _ cp).1 rfl⟩
  | restoreCheckpoint cp =>
      obtain ⟨hframe, hrec⟩ := StackAllocator.restoreCheckpoint_frame c.stack cp
      exact ⟨l, h.rewound hok.1 (StackAllocator.restoreCheckpoint_keepsFrames hlr cp)
        (hsound.restore hok.2).records hrec hframe⟩
  | destroyCheckpoint cp =>
      obtain ⟨hframe, hsaved⟩ := StackAllocator.destroyCheckpoint_frame c.stack cp
      exact ⟨l, h.still (StackAllocator.destroyCheckpoint_keepsFrames hlr cp)
        (hsound.destroy cp).records (fun q _ _ => hsaved q) hframe⟩

end Placement

/-! ## The result -/

instance (c : BlockClient) (cp : UInt32) : Decidable (MadeCheckpoint c cp) := by
  unfold MadeCheckpoint
  infer_instance

instance (s : StackAllocator) (size alignment : UInt32) : Decidable (s.AllocPlaces size alignment) := by
  unfold StackAllocator.AllocPlaces StackAllocator.CapacityHolds
  infer_instance

instance (c : BlockClient) : (call : StackFrameCall) → Decidable (PlacesBlocks c call)
  | .alloc size alignment => inferInstanceAs (Decidable (c.stack.AllocPlaces size alignment))
  | .allocAligned size alignment =>
      inferInstanceAs (Decidable (c.stack.AllocPlaces size (usedAlignment alignment)))
  | .freeToCheckpoint cp => inferInstanceAs (Decidable (MadeCheckpoint c cp))
  | .restoreCheckpoint cp =>
      inferInstanceAs
        (Decidable (MadeCheckpoint c cp ∧ KeepsFrameChain c.stack (.restoreCheckpoint cp)))
  | .grow n => inferInstanceAs (Decidable (KeepsFrameChain c.stack (.grow n)))
  | .shrinkToFit => inferInstanceAs (Decidable (KeepsFrameChain c.stack .shrinkToFit))
  | .reset => inferInstanceAs (Decidable (KeepsFrameChain c.stack .reset))
  | .createCheckpoint => inferInstanceAs (Decidable (KeepsFrameChain c.stack .createCheckpoint))
  | .destroyCheckpoint cp =>
      inferInstanceAs (Decidable (KeepsFrameChain c.stack (.destroyCheckpoint cp)))

/-- A client of an allocator that has given out nothing. -/
def BlockClient.first (s : StackAllocator) : BlockClient :=
  { stack := s, out := [], serial := 0, mark := fun _ => none }

theorem Placement.first {s : StackAllocator} {n : UInt32} (hs : s.initialized = false)
    (hinit : (s.init n).initialized = true) :
    Placement (.first (s.init n)) [(s.init n).currentFrame] := by
  obtain ⟨hl, hlr, hcur⟩ := StackAllocator.init_framed hs hinit
  refine ⟨hinit, ⟨[], hlr⟩, hl, fun p hp => ?_, nofun, .nil, nofun, nofun⟩
  obtain rfl := List.mem_singleton.mp hp
  have hblock := (s.init n).heap.placed _ (hl.backed _ hp)
  have hsize : ((s.init n).frame (s.init n).currentFrame).size = StackAllocator.firstSize n := by
    show (s.init n).cur.size = _
    rw [hcur]
    rfl
  rw [hsize] at hblock
  show SaneFrame _ (s.init n).cur
  rw [hcur]
  exact SaneFrame.fresh 0 (StackAllocator.firstSize_pos n) hblock.2.2

/-- **A block that `alloc` returns** is aligned, lies in the current frame and
apart from all blocks that are out, in every state of a run from `init` whose
calls meet the condition. -/
theorem stack_blocks_placed {s : StackAllocator} {n : UInt32} (hs : s.initialized = false)
    (hinit : (s.init n).initialized = true) {c : BlockClient}
    (hr : Reaches (fun c call => some (blockStep c call)) PlacesBlocks (.first (s.init n)) c)
    {size alignment : UInt32} {k : Nat} (ha : alignment.toNat = 2 ^ k)
    (hok : PlacesBlocks c (.alloc size alignment)) (hp : (c.stack.alloc size alignment).1 ≠ 0) :
    alignment.toNat ∣ (c.stack.alloc size alignment).1.toNat ∧
      (c.stack.alloc size alignment).2.cur.start.toNat ≤ (c.stack.alloc size alignment).1.toNat ∧
      (c.stack.alloc size alignment).1.toNat + size.toNat ≤
        (c.stack.alloc size alignment).2.cur.«end».toNat ∧
      ∀ b ∈ c.out, (c.stack.alloc size alignment).1.toNat + size.toNat ≤ b.addr.toNat ∨
        b.addr.toNat + b.size.toNat ≤ (c.stack.alloc size alignment).1.toNat := by
  obtain ⟨l, h⟩ : ∃ l, Placement c l := by
    refine hr.invariant (I := fun c => ∃ l, Placement c l) ⟨_, Placement.first hs hinit⟩ ?_
    rintro c call c' ⟨l, h⟩ hok hs
    obtain rfl := Option.some.inj hs
    exact h.step hok
  obtain ⟨ptr, hptr⟩ := StackAllocator.alloc_aligned c.stack size alignment hp
  obtain ⟨l', h'⟩ := h.alloc hok
  unfold BlockClient.allocated at h'
  rw [if_neg hp] at h'
  obtain ⟨hmem, hpos, hstart, hend⟩ := h'.inside _ List.mem_cons_self
  refine ⟨?_, hstart, ?_, (List.pairwise_cons.mp h'.apart).1⟩
  · rw [hptr]
    exact StackAllocator.alignPointer_dvd ptr ha
  · rcases (h'.sane _ hmem).high with he | hle
    · rw [he] at hend
      dsimp only at hstart hend hpos
      omega
    · exact hend.trans hle

/-- A stack that grows, goes back to a checkpoint and allocates again. -/
theorem stack_blocks_placed_rewound :
    ∃ c : BlockClient, c.out.length = 2 ∧ (c.stack.alloc 200 64).1 = 0x4013C0 ∧
      (UInt32.toNat 64 ∣ (c.stack.alloc 200 64).1.toNat ∧
        (c.stack.alloc 200 64).2.cur.start.toNat ≤ (c.stack.alloc 200 64).1.toNat ∧
        (c.stack.alloc 200 64).1.toNat + UInt32.toNat 200 ≤
          (c.stack.alloc 200 64).2.cur.«end».toNat ∧
        ∀ b ∈ c.out, (c.stack.alloc 200 64).1.toNat + UInt32.toNat 200 ≤ b.addr.toNat ∨
          b.addr.toNat + b.size.toNat ≤ (c.stack.alloc 200 64).1.toNat) := by
  obtain ⟨c, hr, hp⟩ := Reaches.of_checked_script (fun c call => some (blockStep c call))
    PlacesBlocks (.first (StackAllocator.raw.init 4096))
    (fun c => decide (c.out.length = 2 ∧ (c.stack.alloc 200 64).1 = 0x4013C0 ∧
      PlacesBlocks c (.alloc 200 64)))
    [.alloc 100 16, .createCheckpoint, .alloc 5000 16, .createCheckpoint, .alloc 64 64,
      .restoreCheckpoint 0x500000]
    (by decide +kernel)
  obtain ⟨hlen, hptr, hok⟩ := of_decide_eq_true hp
  exact ⟨c, hlen, hptr, stack_blocks_placed (k := 6) (by decide) (by decide +kernel) hr
    (by decide) hok (by rw [hptr]; decide)⟩

/-- A size near 2^32 is rounded up to 0, and the "block" ends far outside its
frame. -/
theorem alloc_wraps :
    (StackAllocator.raw.init 4096).initialized = true ∧
      ((StackAllocator.raw.init 4096).alloc 0xFFFFFFF8 16).1 = 0x200020 ∧
      ¬ (((StackAllocator.raw.init 4096).alloc 0xFFFFFFF8 16).1.toNat + 0xFFFFFFF8 ≤
        ((StackAllocator.raw.init 4096).alloc 0xFFFFFFF8 16).2.cur.«end».toNat) := by
  decide +kernel

end KmOS
