/-
# `KmOS.Vmm.FrameScan` — frames taken and given back

The scan of `alloc_frame` skips the words that are full and finds the least clear
bit (`allocFrame_least`), and to free the frame it has answered undoes it
(`freeFrame_takeFrame`).

From the bitmap that `VMM::init` builds, a client takes frames and frees frames
that it has.  The invariant is that the bits set are those of the first 256 frames
and of the frames the client has (`FramesOf`): so the frame a scan finds is
neither.  A call that finds no clear bit goes to the pressure path; if that never
comes back, the run ends there.
-/
import KmOS.Lib.Run
import KmOS.Vmm.Init
import Mathlib.Order.Bounds.Defs

namespace KmOS

namespace Kernel

/-! ## The frame set-up -/

/-- `for (i = 0; i < n; i++) frame_bitmap[i] = v;` -/
def fillWords (v : BitVec 32) (n : Nat) (w : Words) : Words :=
  (List.range n).foldl (fun w i => Function.update w i v) w

/-- `VMM::init`, until it makes the kernel directory. -/
def initFrames (k : Kernel) : Kernel :=
  let cleared := fillWords 0#32 (maxFrames / 32) k.frameBitmap
  { k with
    frameBitmap := fillWords 0xFFFFFFFF#32 (physMemStart / frameSize / 32) cleared
    framesUsed := BitVec.ofNat 32 (physMemStart / frameSize) }

theorem fillWords_apply (v : BitVec 32) (n : Nat) (w : Words) (i : Nat) :
    fillWords v n w i = if i < n then v else w i := by
  induction n with
  | zero => rfl
  | succ n ih =>
      have hlast : fillWords v (n + 1) w = Function.update (fillWords v n w) n v := by
        unfold fillWords
        rw [List.range_succ, List.foldl_append]
        rfl
      rw [hlast]
      by_cases hi : i = n
      · rw [hi, Function.update_self, if_pos (Nat.lt_succ_self n)]
      · rw [Function.update_of_ne hi, ih]
        have hiff : i < n ↔ i < n + 1 := by omega
        simp only [hiff]

/-- The words of the bitmap are those of `boot`. -/
theorem initFrames_word (k : Kernel) {i : Nat} (hi : i < maxFrames / 32) :
    k.initFrames.frameBitmap i = boot.frameBitmap i := by
  show fillWords _ _ (fillWords _ _ k.frameBitmap) i = _
  rw [fillWords_apply, fillWords_apply, if_pos hi]
  rfl

theorem initFrames_used (k : Kernel) {i : Nat} (hi : i < maxFrames) :
    k.initFrames.used i = decide (i < 256) := by
  rw [← boot_used i]
  unfold used Words.testBit
  rw [initFrames_word k (by simp only [maxFrames] at hi ⊢; omega)]

/-! ## One frame -/

section
variable {k : Kernel} {i : Nat}

theorem used_takeFrame (j : Nat) : (k.takeFrame i).used j = (decide (j = i) || k.used j) :=
  Words.testBit_setBit k.frameBitmap i j

/-- **The scan**: with a bit clear, `alloc_frame` takes the least one. -/
theorem allocFrame_least (h : ∃ j < maxFrames, k.used j = false) :
    ∃ i, IsLeast {j | k.used j = false} i ∧ i < maxFrames ∧
      k.allocFrame = (i * frameSize, k.takeFrame i) := by
  rcases k.allocFrame_cases with ⟨_, hfull⟩ | ⟨i, hi, hclear, hbelow, he⟩
  · obtain ⟨j, hj, hclear⟩ := h
    rw [hfull j hj] at hclear
    exact nomatch hclear
  · refine ⟨i, ⟨hclear, fun j hj => Nat.le_of_not_lt fun hlt => ?_⟩, hi, he⟩
    have hclear' : k.used j = false := hj
    rw [hbelow j hlt] at hclear'
    exact nomatch hclear'

theorem mul_frameSize_div (i : Nat) : i * frameSize / frameSize = i :=
  Nat.mul_div_cancel i (by decide)

/-- Freeing the frame that was taken restores the bitmap and its count. -/
theorem freeFrame_takeFrame (hi : i < maxFrames) (hclear : k.used i = false) :
    (k.takeFrame i).freeFrame (i * frameSize) = k := by
  have hbits : (k.frameBitmap.setBit i).clearBit i = k.frameBitmap := Words.clearBit_setBit hclear
  have hcount : k.framesUsed + 1 - 1 = k.framesUsed := BitVec.add_sub_cancel _ _
  unfold freeFrame
  dsimp only
  rw [mul_frameSize_div, if_pos hi]
  unfold takeFrame
  dsimp only
  rw [hbits, hcount]

end

end Kernel

/-! ## Runs of a client -/

/-- The kernel, and the frames that its client has. -/
structure FrameClient where
  kernel : Kernel
  live : List Nat

inductive ClientCall where
  | alloc
  | free (frameAddr : Nat)

/-- An answer of 0 is no frame.  There is no state after a call that never comes
back. -/
def clientStep (s : FrameClient) : ClientCall → Option FrameClient
  | .alloc =>
      let (frame, k) := s.kernel.allocFrame
      if k.hung then none
      else some { kernel := k, live := if frame = 0 then s.live else frame / frameSize :: s.live }
  | .free frameAddr =>
      some { kernel := s.kernel.freeFrame frameAddr, live := s.live.erase (frameAddr / frameSize) }

/-- A frame that is freed is one the client has. -/
def FreesLive (s : FrameClient) : ClientCall → Prop
  | .alloc => True
  | .free frameAddr => frameAddr / frameSize ∈ s.live

/-- The client has frames of its own, none of them twice, and these and the first
256 are the frames in use. -/
structure FramesOf (s : FrameClient) : Prop where
  nodup : s.live.Nodup
  high : ∀ f ∈ s.live, 256 ≤ f
  inside : ∀ f ∈ s.live, f < maxFrames
  used_iff : ∀ f < maxFrames, s.kernel.used f = true ↔ f < 256 ∨ f ∈ s.live

namespace FramesOf

variable {s s' : FrameClient}

theorem init (k : Kernel) : FramesOf { kernel := k.initFrames, live := [] } where
  nodup := List.nodup_nil
  high := nofun
  inside := nofun
  used_iff f hf := by
    rw [Kernel.initFrames_used k hf, decide_eq_true_eq]
    exact (or_iff_left (List.not_mem_nil)).symm

/-- A frame that is not in use is neither one of the first nor one of the client's. -/
theorem of_clear (h : FramesOf s) {f : Nat} (hf : f < maxFrames)
    (hclear : s.kernel.used f = false) : 256 ≤ f ∧ f ∉ s.live := by
  have hno : ¬(f < 256 ∨ f ∈ s.live) := fun hin => by
    rw [(h.used_iff f hf).mpr hin] at hclear
    exact nomatch hclear
  rw [not_or] at hno
  exact ⟨Nat.le_of_not_lt hno.1, hno.2⟩

theorem take (h : FramesOf s) {f : Nat} (hf : f < maxFrames) (hclear : s.kernel.used f = false) :
    FramesOf { kernel := s.kernel.takeFrame f, live := f :: s.live } := by
  obtain ⟨hhigh, hnew⟩ := h.of_clear hf hclear
  refine ⟨List.nodup_cons.mpr ⟨hnew, h.nodup⟩, List.forall_mem_cons.mpr ⟨hhigh, h.high⟩,
    List.forall_mem_cons.mpr ⟨hf, h.inside⟩, fun g hg => ?_⟩
  rw [Kernel.used_takeFrame, Bool.or_eq_true, decide_eq_true_eq, h.used_iff g hg, List.mem_cons]
  exact or_left_comm

theorem alloc (h : FramesOf s) (hs : clientStep s .alloc = some s') : FramesOf s' := by
  unfold clientStep at hs
  rcases s.kernel.allocFrame_cases with ⟨he, _⟩ | ⟨i, hi, hclear, _, he⟩
  · rw [he] at hs
    dsimp only at hs
    split at hs
    · exact nomatch hs
    · -- nothing was taken
      obtain rfl := Option.some.inj hs
      refine ⟨h.nodup, h.high, h.inside, fun f hf => ?_⟩
      have hu : s.kernel.underPressure.used f = s.kernel.used f :=
        congrArg (Words.testBit · f) s.kernel.underPressure_frameBitmap
      rw [hu]
      exact h.used_iff f hf
  · have hne : i * frameSize ≠ 0 := by
      have hhigh := (h.of_clear hi hclear).1
      rw [frameSize]
      omega
    rw [he] at hs
    dsimp only at hs
    rw [if_neg hne, Kernel.mul_frameSize_div] at hs
    split at hs
    · exact nomatch hs
    · obtain rfl := Option.some.inj hs
      exact h.take hi hclear

theorem free (h : FramesOf s) {a : Nat} (ha : a / frameSize ∈ s.live)
    (hs : clientStep s (.free a) = some s') : FramesOf s' := by
  obtain rfl := Option.some.inj hs
  have hin := h.inside _ ha
  have hhigh := h.high _ ha
  refine ⟨h.nodup.erase _, fun f hf => h.high f (List.mem_of_mem_erase hf),
    fun f hf => h.inside f (List.mem_of_mem_erase hf), fun f hf => ?_⟩
  rw [h.nodup.mem_erase_iff]
  by_cases hfa : f = a / frameSize
  · subst hfa
    have hclear : (s.kernel.freeFrame a).used (a / frameSize) = false := by
      rw [Kernel.used_freeFrame, decide_eq_true ⟨rfl, hin⟩]
      rfl
    rw [hclear]
    refine iff_of_false nofun ?_
    rintro (hlow | ⟨hne, _⟩)
    · exact absurd hlow (Nat.not_lt.mpr hhigh)
    · exact hne rfl
  · rw [Kernel.used_freeFrame_of_ne hfa, h.used_iff f hf, and_iff_right hfa]

/-- In every run that frees what it has only. -/
theorem reached (k : Kernel) {s : FrameClient}
    (hr : Reaches clientStep FreesLive { kernel := k.initFrames, live := [] } s) : FramesOf s := by
  refine hr.invariant (init k) ?_
  intro s call s' h hok hs
  cases call with
  | alloc => exact h.alloc hs
  | free a => exact h.free hok hs

/-- The next frame handed out. -/
theorem next (h : FramesOf s) (hne : s.kernel.allocFrame.1 ≠ 0) :
    s.kernel.allocFrame.1 / frameSize ∉ s.live ∧ 256 ≤ s.kernel.allocFrame.1 / frameSize := by
  obtain ⟨i, _, hi, hclear, _, he⟩ := Kernel.allocFrame_of_ne_zero hne
  rw [he, Kernel.mul_frameSize_div]
  exact (h.of_clear hi hclear).symm

end FramesOf

/-! ## The result -/

/-- **The frame bitmap.**  With a bit clear, `alloc_frame` answers the address of
the least clear frame, sets its bit and no other and counts it, and to free the
frame restores everything.  From the bitmap that `VMM::init` builds, a client that
frees what it has only has no frame twice and none of the first 256, and is handed
out neither. -/
theorem frame_scan :
    (∀ k : Kernel, (∃ j < maxFrames, k.used j = false) →
      ∃ i, IsLeast {j | k.used j = false} i ∧ k.allocFrame.1 = 4096 * i ∧
        k.allocFrame.1 < 2 ^ 32 ∧
        (∀ j, k.allocFrame.2.used j = (decide (j = i) || k.used j)) ∧
        k.allocFrame.2.framesUsed = k.framesUsed + 1 ∧
        k.allocFrame.2.freeFrame k.allocFrame.1 = k) ∧
    ∀ (k : Kernel) (s : FrameClient),
      Reaches clientStep FreesLive { kernel := k.initFrames, live := [] } s →
      s.live.Nodup ∧ (∀ f ∈ s.live, 256 ≤ f) ∧
        (∀ f < maxFrames, s.kernel.used f = true ↔ f < 256 ∨ f ∈ s.live) ∧
        (s.kernel.allocFrame.1 ≠ 0 →
          s.kernel.allocFrame.1 / frameSize ∉ s.live ∧
            256 ≤ s.kernel.allocFrame.1 / frameSize) := by
  constructor
  · intro k h
    obtain ⟨i, hleast, hi, he⟩ := Kernel.allocFrame_least h
    rw [he]
    refine ⟨i, hleast, Nat.mul_comm i frameSize, ?_, Kernel.used_takeFrame, rfl,
      Kernel.freeFrame_takeFrame hi hleast.1⟩
    simp only [maxFrames, frameSize] at hi ⊢
    omega
  · intro k s hr
    have h := FramesOf.reached k hr
    exact ⟨h.nodup, h.high, h.used_iff, h.next⟩

/-- Right after the set-up. -/
theorem frame_scan_boot :
    (∃ i, IsLeast {j | Kernel.boot.used j = false} i ∧ Kernel.boot.allocFrame.1 = 4096 * i) ∧
      (Kernel.boot.initFrames.allocFrame.1 ≠ 0 →
        256 ≤ Kernel.boot.initFrames.allocFrame.1 / frameSize) := by
  constructor
  · obtain ⟨i, hleast, hanswer, _⟩ :=
      frame_scan.1 Kernel.boot ⟨256, by decide, Kernel.boot_used 256⟩
    exact ⟨i, hleast, hanswer⟩
  · intro hne
    obtain ⟨_, _, _, hnext⟩ :=
      frame_scan.2 Kernel.boot { kernel := Kernel.boot.initFrames, live := [] } .refl
    dsimp only at hnext
    exact (hnext hne).2

end KmOS
