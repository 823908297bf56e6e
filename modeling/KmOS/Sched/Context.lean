/-
# `KmOS.Sched.Context` — a process resumes where it was interrupted

A timer interrupt saves the frame it finds into the process it interrupts, and
may load the context of another one into the same frame.  Between the two,
`Process::schedule` writes to processes as well; it touches neither registers
nor frames.  The ring is any at all here, intact or not.
-/
import KmOS.Sched.Ring

namespace KmOS

open Process

/-! ## Frames and contexts -/

/-- `r` is what `save_process_context` makes of `f`. -/
structure SavedFrom (f : InterruptFrame) (r : Regs) : Prop where
  general : r.eax = f.eax ∧ r.ecx = f.ecx ∧ r.edx = f.edx ∧ r.ebx = f.ebx ∧ r.esp = f.esp ∧
    r.ebp = f.ebp ∧ r.esi = f.esi ∧ r.edi = f.edi
  eip : r.eip = f.eip
  eflags : r.eflags = f.eflags
  selectors : r.cs = f.cs.toUInt16 ∧ r.ds = f.ds.toUInt16 ∧ r.es = f.es.toUInt16 ∧
    r.fs = f.fs.toUInt16 ∧ r.gs = f.gs.toUInt16

/-- A selector comes back: `y` is the low half of `x`, where that is not zero. -/
def SelectorKept (x y : UInt32) : Prop := x &&& 0xFFFF ≠ 0 → y = x &&& 0xFFFF

/-- Returning to `g` continues what `f` interrupted. -/
structure Resumes (f g : InterruptFrame) : Prop where
  general : g.eax = f.eax ∧ g.ecx = f.ecx ∧ g.edx = f.edx ∧ g.ebx = f.ebx ∧ g.esp = f.esp ∧
    g.ebp = f.ebp ∧ g.esi = f.esi ∧ g.edi = f.edi
  eip : g.eip = f.eip
  eflags : f.eflags ≠ 0 → g.eflags = f.eflags ||| 0x200
  selectors : SelectorKept f.cs g.cs ∧ SelectorKept f.ds g.ds ∧ SelectorKept f.es g.es ∧
    SelectorKept f.fs g.fs ∧ SelectorKept f.gs g.gs

theorem toUInt32_toUInt16_eq (x : UInt32) : x.toUInt16.toUInt32 = x &&& 0xFFFF := by
  apply UInt32.toNat_inj.mp
  rw [UInt32.toUInt32_toUInt16, UInt32.toNat_mod, UInt32.toNat_and]
  exact (Nat.and_two_pow_sub_one_eq_mod x.toNat 16).symm

/-- Saved and loaded again, a selector is kept whatever the default. -/
theorem selector_kept {x : UInt32} {s : UInt16} (h : s = x.toUInt16) (y : UInt32) :
    SelectorKept x (Architecture.selector s y) := by
  intro hx
  rw [← toUInt32_toUInt16_eq] at hx ⊢
  unfold Architecture.selector
  rw [h, if_neg]
  intro hz
  exact hx (by rw [hz]; rfl)

namespace Architecture

variable {a : Architecture}

/-- Loading what was saved resumes. -/
theorem load_resumes {f : InterruptFrame} {n : Nat} (h : SavedFrom f (a.proc n).regs) :
    Resumes f (a.loadProcessContext n).1 := by
  refine ⟨h.general, h.eip, ?_, ?_⟩
  · intro hf
    show (if (a.proc n).regs.eflags = 0 then 0x202 else (a.proc n).regs.eflags) ||| 0x200 = _
    rw [h.eflags, if_neg hf]
  · obtain ⟨hcs, hds, hes, hfs, hgs⟩ := h.selectors
    exact ⟨selector_kept hcs _, selector_kept hds _, selector_kept hes _, selector_kept hfs _,
      selector_kept hgs _⟩

/-! ## What each step does to the registers -/

@[simp] theorem modify_proc_self (n : Nat) (f : Process → Process) :
    (a.modify n f).proc n = f (a.proc n) := by
  simp [Architecture.modify]

theorem modify_proc_ne {n m : Nat} (f : Process → Process) (h : m ≠ n) :
    (a.modify n f).proc m = a.proc m := by
  simp [Architecture.modify, h]

/-- An update that leaves the registers of its process alone keeps all registers. -/
theorem modify_regs {n : Nat} {f : Process → Process} (h : (f (a.proc n)).regs = (a.proc n).regs)
    (m : Nat) : ((a.modify n f).proc m).regs = (a.proc m).regs := by
  by_cases hm : m = n
  · subst hm
    rw [modify_proc_self]
    exact h
  · rw [modify_proc_ne f hm]

theorem demote_regs (this m : Nat) : ((a.demote this).proc m).regs = (a.proc m).regs := by
  unfold demote
  split
  · exact modify_regs rfl m
  · rfl

/-- `Process::schedule` writes no registers. -/
theorem schedule_regs (this m : Nat) :
    ((a.schedule this).2.proc m).regs = (a.proc m).regs := by
  unfold schedule
  split
  · rfl
  · split
    · rfl
    · split
      · rfl
      · unfold promote
        rw [modify_regs rfl m, demote_regs]

theorem schedule_ready (this : Nat) : (a.schedule this).2.schedulerReady = a.schedulerReady := by
  unfold schedule
  split
  · rfl
  · split
    · rfl
    · split
      · rfl
      · unfold promote demote
        split <;> rfl

theorem loadProcessContext_proc (n : Nat) : (a.loadProcessContext n).2.proc = a.proc := by
  unfold loadProcessContext
  dsimp only
  split <;> rfl

theorem loadProcessContext_ready (n : Nat) :
    (a.loadProcessContext n).2.schedulerReady = a.schedulerReady := by
  unfold loadProcessContext
  dsimp only
  split <;> rfl

theorem saveProcessContext_saved (c : Nat) (f : InterruptFrame) :
    SavedFrom f ((a.saveProcessContext c f).proc c).regs := by
  unfold saveProcessContext
  rw [modify_proc_self]
  exact ⟨⟨rfl, rfl, rfl, rfl, rfl, rfl, rfl, rfl⟩, rfl, rfl, ⟨rfl, rfl, rfl, rfl, rfl⟩⟩

theorem saveProcessContext_other {c m : Nat} (f : InterruptFrame) (h : m ≠ c) :
    (a.saveProcessContext c f).proc m = a.proc m :=
  modify_proc_ne _ h

/-- A switch writes no registers. -/
theorem switchFrom_regs (c m : Nat) : ((a.switchFrom c).2.proc m).regs = (a.proc m).regs := by
  unfold switchFrom
  dsimp only
  rw [loadProcessContext_proc]
  exact schedule_regs c m

theorem switchFrom_ready (c : Nat) : (a.switchFrom c).2.schedulerReady = a.schedulerReady := by
  unfold switchFrom
  dsimp only
  rw [loadProcessContext_ready]
  exact schedule_ready c

/-- A switch resumes what the registers of the process it selects were saved from. -/
theorem switchFrom_resumes {f : InterruptFrame} {c : Nat}
    (h : SavedFrom f (a.proc (a.schedule c).1).regs) : Resumes f (a.switchFrom c).1 := by
  unfold switchFrom
  dsimp only
  refine load_resumes ?_
  dsimp only
  rw [schedule_regs]
  exact h

/-! ## One tick -/

/-- The two counters of ticks. -/
def counted (a : Architecture) : Architecture :=
  { a with systemTicks := a.systemTicks + 1, totalTicks := a.totalTicks + 1 }

/-- The state in which `handle_timer_interrupt` decides about a switch. -/
def saved (a : Architecture) (c : Nat) (frame : InterruptFrame) : Architecture :=
  let a₁ := a.counted.saveProcessContext c frame
  { a₁ with ticksSinceSwitch := a₁.ticksSinceSwitch + 1 }

/-- The process whose context a timer interrupt loads into the frame. -/
def installed (a : Architecture) (frame : InterruptFrame) : Option Nat :=
  if a.schedulerReady = false then none
  else
    match a.pcurrent with
    | none => none
    | some c =>
        let a₁ := a.saved c frame
        if (a₁.proc c).state ≠ running ∨ a₁.ticksPerQuantum ≤ a₁.ticksSinceSwitch then
          some ({ a₁ with ticksSinceSwitch := 0 }.schedule c).1
        else none

/-- A tick with the scheduler ready and `c` current. -/
theorem isrTimerInt_current_eq {c : Nat} (frame : InterruptFrame) (hready : a.schedulerReady = true)
    (hc : a.pcurrent = some c) :
    a.isrTimerInt frame = a.counted.tickCurrent c frame := by
  unfold isrTimerInt handleTimerInterrupt
  dsimp only
  split
  · next hf =>
      rw [hready] at hf
      cases hf
  · split
    · next hn =>
        rw [hc] at hn
        cases hn
    · next c' hc' =>
        obtain rfl : c = c' := Option.some.inj (hc.symm.trans hc')
        rfl

theorem installed_current_eq {c : Nat} (frame : InterruptFrame) (hready : a.schedulerReady = true)
    (hc : a.pcurrent = some c) :
    a.installed frame =
      if ((a.saved c frame).proc c).state ≠ running ∨
          (a.saved c frame).ticksPerQuantum ≤ (a.saved c frame).ticksSinceSwitch then
        some ({ a.saved c frame with ticksSinceSwitch := 0 }.schedule c).1
      else none := by
  unfold installed
  rw [hready, if_neg (by decide), hc]

/-- **What a tick does**: nothing to any process while there is none to
interrupt; else the context of the current one is saved, and then the frame is
kept, or taken over by the process that `schedule` selects. -/
theorem isrTimerInt_cases (a : Architecture) (frame : InterruptFrame) :
    ((a.schedulerReady = false ∨ a.pcurrent = none) ∧ a.installed frame = none ∧
      a.isrTimerInt frame = (frame, a.counted)) ∨
    ∃ c, a.schedulerReady = true ∧ a.pcurrent = some c ∧
      ((a.installed frame = none ∧ a.isrTimerInt frame = (frame, a.saved c frame)) ∨
        ∃ b : Architecture, b = { a.saved c frame with ticksSinceSwitch := 0 } ∧
          a.installed frame = some (b.schedule c).1 ∧ a.isrTimerInt frame = b.switchFrom c) := by
  cases hready : a.schedulerReady with
  | false =>
      refine .inl ⟨.inl rfl, ?_, ?_⟩
      · exact if_pos hready
      · unfold isrTimerInt handleTimerInterrupt
        exact if_pos hready
  | true =>
      cases hcur : a.pcurrent with
      | none =>
          refine .inl ⟨.inr rfl, ?_, ?_⟩
          · unfold installed
            rw [hready, hcur]
            rfl
          · unfold isrTimerInt handleTimerInterrupt
            dsimp only
            split
            · rfl
            · split
              · rfl
              · next c hc =>
                  rw [hcur] at hc
                  cases hc
      | some c =>
          rw [isrTimerInt_current_eq frame hready hcur, installed_current_eq frame hready hcur]
          refine .inr ⟨c, rfl, rfl, ?_⟩
          by_cases hneed : ((a.saved c frame).proc c).state ≠ running ∨
              (a.saved c frame).ticksPerQuantum ≤ (a.saved c frame).ticksSinceSwitch
          · exact .inr ⟨_, rfl, if_pos hneed, if_pos hneed⟩
          · exact .inl ⟨if_neg hneed, if_neg hneed⟩

theorem isrTimerInt_ready (a : Architecture) (frame : InterruptFrame) :
    (a.isrTimerInt frame).2.schedulerReady = a.schedulerReady := by
  rcases isrTimerInt_cases a frame with ⟨_, _, h⟩ | ⟨c, _, _, ⟨_, h⟩ | ⟨b, hb, _, h⟩⟩
  · rw [h]
    rfl
  · rw [h]
    rfl
  · rw [h, switchFrom_ready, hb]
    rfl

/-- **The frame rule.**  An interrupt leaves the registers of every process but
the interrupted one. -/
theorem isrTimerInt_other {p : Nat} (frame : InterruptFrame) (hp : a.pcurrent ≠ some p) :
    ((a.isrTimerInt frame).2.proc p).regs = (a.proc p).regs := by
  rcases isrTimerInt_cases a frame with ⟨_, _, h⟩ | ⟨c, _, hc, hrest⟩
  · rw [h]
    rfl
  · have hpc : p ≠ c := fun e => hp (by rw [hc, e])
    have hsaved : ((a.saved c frame).proc p).regs = (a.proc p).regs :=
      congrArg Process.regs (saveProcessContext_other frame hpc)
    rcases hrest with ⟨_, h⟩ | ⟨b, hb, _, h⟩
    · rw [h]
      exact hsaved
    · rw [h, switchFrom_regs, hb]
      exact hsaved

/-- The interrupted process is saved. -/
theorem isrTimerInt_current {c : Nat} (frame : InterruptFrame) (hready : a.schedulerReady = true)
    (hc : a.pcurrent = some c) : SavedFrom frame ((a.isrTimerInt frame).2.proc c).regs := by
  have hsaved : SavedFrom frame ((a.saved c frame).proc c).regs := saveProcessContext_saved c frame
  rcases isrTimerInt_cases a frame with ⟨h | h, _⟩ | ⟨c', _, hc', hrest⟩
  · rw [hready] at h
    cases h
  · rw [hc] at h
    cases h
  · obtain rfl : c = c' := Option.some.inj (hc.symm.trans hc')
    rcases hrest with ⟨_, h⟩ | ⟨b, hb, _, h⟩
    · rw [h]
      exact hsaved
    · rw [h, switchFrom_regs, hb]
      exact hsaved

/-- The context an interrupt installs is the one it leaves in the process. -/
theorem isrTimerInt_installs {p : Nat} {f frame : InterruptFrame}
    (hp : a.installed frame = some p)
    (hf : SavedFrom f ((a.isrTimerInt frame).2.proc p).regs) :
    Resumes f (a.isrTimerInt frame).1 := by
  rcases isrTimerInt_cases a frame with ⟨_, hn, _⟩ | ⟨c, _, _, ⟨hn, _⟩ | ⟨b, _, hn, h⟩⟩
  · rw [hn] at hp
    cases hp
  · rw [hn] at hp
    cases hp
  · rw [hn] at hp
    obtain rfl := Option.some.inj hp
    rw [h, switchFrom_regs] at hf
    rw [h]
    exact switchFrom_resumes hf

end Architecture

/-! ## Runs -/

/-- The machine, and the frame with which each process was last interrupted. -/
structure Interrupted where
  arch : Architecture
  last : Nat → Option InterruptFrame

/-- A timer interrupt. -/
def Interrupted.after (s : Interrupted) (frame : InterruptFrame) : Interrupted where
  arch := (s.arch.isrTimerInt frame).2
  last := match s.arch.pcurrent with
    | some c => Function.update s.last c (some frame)
    | none => s.last

def interrupt (s : Interrupted) (frame : InterruptFrame) : Option Interrupted :=
  some (s.after frame)

/-- Once the scheduler is ready, what a process was interrupted with is in its
registers. -/
def LastSaved (s : Interrupted) : Prop :=
  s.arch.schedulerReady = true →
    ∀ p f, s.last p = some f → SavedFrom f (s.arch.proc p).regs

theorem LastSaved.after {s : Interrupted} (h : LastSaved s) (frame : InterruptFrame) :
    LastSaved (s.after frame) := by
  intro hready p f hf
  unfold Interrupted.after at hready hf ⊢
  dsimp only at hready hf ⊢
  rw [Architecture.isrTimerInt_ready] at hready
  cases hcur : s.arch.pcurrent with
  | none =>
      rw [hcur] at hf
      have hother : s.arch.pcurrent ≠ some p := by
        rw [hcur]
        nofun
      rw [Architecture.isrTimerInt_other frame hother]
      exact h hready p f hf
  | some c =>
      rw [hcur] at hf
      dsimp only at hf
      by_cases hp : p = c
      · subst hp
        rw [Function.update_self] at hf
        obtain rfl := Option.some.inj hf
        exact Architecture.isrTimerInt_current frame hready hcur
      · rw [Function.update_of_ne hp] at hf
        have hother : s.arch.pcurrent ≠ some p := by
          intro e
          exact hp (Option.some.inj (e.symm.trans hcur))
        rw [Architecture.isrTimerInt_other frame hother]
        exact h hready p f hf

/-- **Context switches are transparent.**  After any interrupts, the next one
that installs a process continues what that process was last interrupted with,
and writes the registers of no process but the one it interrupts. -/
theorem context_switch_transparent {a : Architecture} {s : Interrupted}
    (hr : Reaches interrupt (fun _ _ => True) { arch := a, last := fun _ => none } s)
    (frame : InterruptFrame) :
    (∀ p f, s.arch.installed frame = some p → (s.after frame).last p = some f →
      Resumes f (s.arch.isrTimerInt frame).1) ∧
    ∀ p, s.arch.pcurrent ≠ some p →
      ((s.arch.isrTimerInt frame).2.proc p).regs = (s.arch.proc p).regs := by
  have h0 : LastSaved { arch := a, last := fun _ => none } := fun _ _ _ hf => nomatch hf
  have h : LastSaved s := by
    refine hr.invariant h0 ?_
    intro t f t' ht _ hs
    obtain rfl := Option.some.inj hs
    exact ht.after f
  refine ⟨?_, fun p hp => Architecture.isrTimerInt_other frame hp⟩
  intro p f hp hf
  refine Architecture.isrTimerInt_installs hp (h.after frame ?_ p f hf)
  show (s.arch.isrTimerInt frame).2.schedulerReady = true
  rw [Architecture.isrTimerInt_ready]
  unfold Architecture.installed at hp
  split at hp
  · cases hp
  · next hready => exact Bool.eq_true_of_not_eq_false hready

/-- A frame of user code. -/
def userFrame : InterruptFrame := { eax := 2, eip := 0x40000000, cs := 0x1B, eflags := 2 }

/-- Two processes, the first of them running. -/
def twoInTurn : Interrupted where
  arch := (Architecture.zeroed.init.enqueueProcess 0x100 true).enqueueProcess 0x200 false
  last := fun _ => none

/-- Two processes take turns; the first one is back after four interrupts. -/
theorem context_switch_transparent_back :
    ∃ s : Interrupted, Reaches interrupt (fun _ _ => True) twoInTurn s ∧
      s.arch.installed {} = some 0x100 ∧ (s.after {}).last 0x100 = some userFrame ∧
      Resumes userFrame (s.arch.isrTimerInt {}).1 := by
  let s := ((twoInTurn.after {}).after userFrame).after {}
  have hr : Reaches interrupt (fun _ _ => True) twoInTurn s :=
    ((Reaches.refl.tail trivial rfl).tail trivial rfl).tail trivial rfl
  have hp : s.arch.installed {} = some 0x100 := by decide +kernel
  have hf : (s.after {}).last 0x100 = some userFrame := rfl
  exact ⟨s, hr, hp, hf, (context_switch_transparent hr {}).1 0x100 userFrame hp hf⟩

end KmOS
