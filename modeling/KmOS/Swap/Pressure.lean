/-
# `KmOS.Swap.Pressure` — memory pressure

## What is proved

`alloc_frame` comes back exactly when a bit of `frame_bitmap` is clear, and
`reclaim_pages` always does (`pressure_call_ends_iff`).  Where `alloc_frame`
comes back it answers what `Kernel.allocFrame` answers; where it does not is
where that one sets `hung` (`allocFrame_hung_iff`).

## What is not

`check_memory_pressure` and `get_memory_stats` never come back.  The first asks
for the statistics, and the second, having read the three numbers the first one
wants, asks for the pressure level to go with them.  Neither has a case in which
it does not ask the other, so nothing decreases along the cycle, and a full
bitmap leads into it.
-/
import KmOS.Lib.Fuel
import KmOS.Swap.Model
import KmOS.Vmm.FrameCount

namespace KmOS

/-! ## Constants of `swap.h` -/

def swapFlagLocked : BitVec 32 := 0x80000000

def memoryPressureNone : Nat := 0
def memoryPressureLow : Nat := 1
def memoryPressureMedium : Nat := 2
def memoryPressureHigh : Nat := 3
def memoryPressureCritical : Nat := 4

def swapThresholdLow : BitVec 32 := 80
def swapThresholdMedium : BitVec 32 := 90
def swapThresholdHigh : BitVec 32 := 95
def swapThresholdCritical : BitVec 32 := 98

/-- `struct memory_stats`. -/
structure MemoryStats where
  totalPages : BitVec 32
  freePages : BitVec 32
  usedPages : BitVec 32
  cachedPages : BitVec 32
  swapTotal : BitVec 32
  swapUsed : BitVec 32
  swapFree : BitVec 32
  pressureLevel : Nat

namespace Kernel

/-! ## The functions

Each takes the number of calls and turns it may make below it. -/

/-- `frame_count`, which `VMM::init` sets and nothing changes. -/
def frameCount : BitVec 32 := BitVec.ofNat 32 maxFrames

/-- What `check_memory_pressure` makes of the statistics. -/
def pressureOf (stats : MemoryStats) : Nat :=
  if stats.freePages = 0 then memoryPressureCritical
  else
    let usagePercent := stats.usedPages * 100 / stats.totalPages
    if swapThresholdCritical ≤ usagePercent then memoryPressureCritical
    else if swapThresholdHigh ≤ usagePercent then memoryPressureHigh
    else if swapThresholdMedium ≤ usagePercent then memoryPressureMedium
    else if swapThresholdLow ≤ usagePercent then memoryPressureLow
    else memoryPressureNone

mutual

/-- `SwapManager::check_memory_pressure`. -/
def checkMemoryPressure (k : Kernel) : Nat → Option Nat
  | 0 => none
  | fuel + 1 => do
      let stats ← k.getMemoryStats fuel
      some (pressureOf stats)

/-- `SwapManager::get_memory_stats`. -/
def getMemoryStats (k : Kernel) : Nat → Option MemoryStats
  | 0 => none
  | fuel + 1 => do
      let level ← k.checkMemoryPressure fuel
      some
        { totalPages := frameCount
          usedPages := k.framesUsed
          freePages := frameCount - k.framesUsed
          cachedPages := 0
          swapTotal := k.totalSwapPages
          swapUsed := k.usedSwapPages
          swapFree := k.totalSwapPages - k.usedSwapPages
          pressureLevel := level }

end

/-- `SwapManager::find_victim_page`, from `lru_tail` back. -/
def findVictimPage (k : Kernel) : Option PageLru :=
  match k.lru.reverse.find? (fun p => p.flags &&& swapFlagLocked = 0) with
  | some victim => some victim
  | none => k.lru.getLast?

/-- `lru_count`: it is counted up and down with the list. -/
def lruCount (k : Kernel) : BitVec 32 := BitVec.ofNat 32 k.lru.length

/-- The loop of `reclaim_pages`. -/
def reclaimLoop (targetPages : Nat) : Nat → Nat → Kernel → Option (Nat × Kernel)
  | 0, _, _ => none
  | fuel + 1, reclaimed, k =>
      if reclaimed < targetPages ∧ k.lruCount ≠ 0 then
        match k.findVictimPage with
        | none => some (reclaimed, k)
        | some victim =>
            let (swapEntry, k₁) := k.swapOutPage victim.virtualAddr
            if swapEntry ≠ 0 then reclaimLoop targetPages fuel (reclaimed + 1) k₁
            else some (reclaimed, k₁)
      else some (reclaimed, k)

/-- `SwapManager::reclaim_pages`. -/
def reclaimPages (k : Kernel) (targetPages fuel : Nat) : Option (Nat × Kernel) :=
  reclaimLoop targetPages fuel 0 k

/-- `VMM::alloc_frame`, with the pressure path. -/
def allocFrameReclaiming : Nat → Kernel → Option (Nat × Kernel)
  | 0, _ => none
  | fuel + 1, k =>
      match k.frameBitmap.firstClear (maxFrames / 32) with
      | some i => some (i * frameSize, k.takeFrame i)
      | none => do
          let pressure ← k.checkMemoryPressure fuel
          if memoryPressureMedium ≤ pressure then
            let pagesToReclaim := if pressure = memoryPressureCritical then 64 else 16
            let (reclaimed, k₁) ← k.reclaimPages pagesToReclaim fuel
            if 0 < reclaimed then allocFrameReclaiming fuel k₁ else some (0, k₁)
          else some (0, k)

/-! ## The cycle -/

/-- **Asking for the pressure and asking for the statistics** are the same
question, asked without end. -/
theorem pressure_never_ends (k : Kernel) (fuel : Nat) :
    k.checkMemoryPressure fuel = none ∧ k.getMemoryStats fuel = none := by
  induction fuel with
  | zero => exact ⟨by unfold checkMemoryPressure; rfl, by unfold getMemoryStats; rfl⟩
  | succ fuel ih =>
      obtain ⟨hpressure, hstats⟩ := ih
      constructor
      · unfold checkMemoryPressure
        rw [hstats]
        rfl
      · unfold getMemoryStats
        rw [hpressure]
        rfl

/-! ## Reclaiming -/

/-- Every turn that is not the last one reclaims a page, and there is a target. -/
theorem reclaimLoop_ends (target : Nat) : ∀ (fuel reclaimed : Nat) (k : Kernel),
    reclaimed ≤ target → target < reclaimed + fuel →
    ∃ r, reclaimLoop target fuel reclaimed k = some r
  | 0, reclaimed, k, hle, hfuel => absurd hfuel (Nat.not_lt.mpr hle)
  | fuel + 1, reclaimed, k, hle, hfuel => by
      unfold reclaimLoop
      split
      · next hmore =>
          split
          · exact ⟨_, rfl⟩
          · dsimp only
            split
            · exact reclaimLoop_ends target fuel (reclaimed + 1) _ hmore.1 (by omega)
            · exact ⟨_, rfl⟩
      · exact ⟨_, rfl⟩

theorem reclaimPages_ends (k : Kernel) (target : Nat) : Ends (k.reclaimPages target) := by
  obtain ⟨r, hr⟩ := reclaimLoop_ends target (target + 1) 0 k (Nat.zero_le target) (by omega)
  exact ⟨target + 1, r, hr⟩

/-! ## Taking a frame -/

/-- With a bit clear the first turn takes it; without one the pressure is asked
for. -/
theorem allocFrameReclaiming_cases (k : Kernel) :
    ((∃ i, i < maxFrames ∧ k.used i = false) ∧
      ∀ fuel, allocFrameReclaiming (fuel + 1) k = some k.allocFrame) ∨
    ((∀ i, i < maxFrames → k.used i = true) ∧ ∀ fuel, allocFrameReclaiming fuel k = none) := by
  cases hf : k.frameBitmap.firstClear (maxFrames / 32) with
  | some i =>
      obtain ⟨h1, h2, _⟩ := Words.firstClear_eq_some hf
      refine Or.inl ⟨⟨i, h1, h2⟩, fun fuel => ?_⟩
      unfold allocFrameReclaiming allocFrame
      rw [hf]
  | none =>
      refine Or.inr ⟨fun i hi => Words.firstClear_eq_none hf i hi, fun fuel => ?_⟩
      cases fuel with
      | zero => rfl
      | succ fuel =>
          unfold allocFrameReclaiming
          rw [hf]
          dsimp only
          rw [(k.pressure_never_ends fuel).1]
          rfl

theorem allocFrameReclaiming_ends_iff (k : Kernel) :
    Ends (allocFrameReclaiming · k) ↔ ∃ i, i < maxFrames ∧ k.used i = false := by
  rcases k.allocFrameReclaiming_cases with ⟨hclear, hends⟩ | ⟨hfull, hnever⟩
  · exact iff_of_true ⟨1, _, hends 0⟩ hclear
  · refine iff_of_false (not_ends_iff.mpr hnever) ?_
    rintro ⟨i, hi, hu⟩
    exact absurd ((hfull i hi).symm.trans hu) (by decide)

/-- `hung` is set where `alloc_frame` does not come back. -/
theorem allocFrame_hung_iff {k : Kernel} (hr : k.reclaim = true) (hh : k.hung = false) :
    k.allocFrame.2.hung = true ↔ ¬ Ends (allocFrameReclaiming · k) := by
  rw [allocFrameReclaiming_ends_iff]
  rcases k.allocFrame_cases with ⟨he, hfull⟩ | ⟨i, hi, hu, _, he⟩
  · rw [he]
    refine iff_of_true ?_ ?_
    · unfold underPressure
      rw [if_pos hr]
    · rintro ⟨i, hi, hu⟩
      exact absurd ((hfull i hi).symm.trans hu) (by decide)
  · rw [he]
    refine iff_of_false ?_ (fun hno => hno ⟨i, hi, hu⟩)
    rw [show (k.takeFrame i).hung = false from hh]
    decide

end Kernel

open Kernel

/-! ## The result -/

inductive PressureCall where
  | allocFrame
  | checkMemoryPressure
  | getMemoryStats
  | reclaimPages (targetPages : Nat)

/-- The call comes back. -/
def PressureCall.Returns (k : Kernel) : PressureCall → Prop
  | .allocFrame => Ends (allocFrameReclaiming · k)
  | .checkMemoryPressure => Ends k.checkMemoryPressure
  | .getMemoryStats => Ends k.getMemoryStats
  | .reclaimPages targetPages => Ends (k.reclaimPages targetPages)

/-- The call does not lead into the cycle. -/
def PressureCall.AvoidsCycle (k : Kernel) : PressureCall → Prop
  | .allocFrame => ∃ i, i < maxFrames ∧ k.used i = false
  | .checkMemoryPressure => False
  | .getMemoryStats => False
  | .reclaimPages _ => True

/-- **Which calls come back**, in every state of the frames, the devices and the
LRU list. -/
theorem pressure_call_ends_iff (k : Kernel) (c : PressureCall) : c.Returns k ↔ c.AvoidsCycle k := by
  cases c with
  | allocFrame => exact k.allocFrameReclaiming_ends_iff
  | checkMemoryPressure =>
      exact iff_of_false (not_ends_iff.mpr fun fuel => (k.pressure_never_ends fuel).1) id
  | getMemoryStats =>
      exact iff_of_false (not_ends_iff.mpr fun fuel => (k.pressure_never_ends fuel).2) id
  | reclaimPages target => exact iff_of_true (k.reclaimPages_ends target) trivial

/-- With all frames taken `alloc_frame` does not come back, and at boot asking
for the pressure does not either. -/
theorem pressure_calls_hang :
    ¬ PressureCall.allocFrame.Returns { boot with frameBitmap := fun _ => 0xFFFFFFFF#32 } ∧
      ¬ PressureCall.checkMemoryPressure.Returns boot ∧ ¬ PressureCall.getMemoryStats.Returns boot := by
  refine ⟨?_, not_ends_iff.mpr fun fuel => (boot.pressure_never_ends fuel).1,
    not_ends_iff.mpr fun fuel => (boot.pressure_never_ends fuel).2⟩
  intro hr
  obtain ⟨i, _, hu⟩ := (allocFrameReclaiming_ends_iff _).mp hr
  have hfull : used { boot with frameBitmap := fun _ => 0xFFFFFFFF#32 } i = true :=
    Words.testBit_of_full (w := fun _ => 0xFFFFFFFF#32) (i := i / 32) rfl rfl
  exact absurd (hfull.symm.trans hu) (by decide)

end KmOS
