/-
# `KmOS.Sched.Model` — processes and the round-robin scheduler

`Process::exit`, `Process::schedule` and the parts of `Architecture` that build
and walk the ring of processes.  A process is named by its address; the ring is
the `pnext` pointers, `plist` its first and `firstProc` its last member.

The states are the numbers of `process.h` and not an enumeration: `ZOMBIE` is
taken from `api/dev/proc.h`, `RUNNING` is defined in place, and both are 1.

**What is left out.**  The fields of a process that none of these functions
reads (files, names, memory areas), the signal handlers, and the interrupt
flag, which only brackets the calls.
-/
import Mathlib.Logic.Function.Basic
import Mathlib.Data.Finset.Basic
import KmOS.Slob.Model

namespace KmOS

/-! ## States -/

def procStateRun : UInt8 := 0
def procStateZombie : UInt8 := 1

namespace Process

def zombie : UInt8 := procStateZombie
def child : UInt8 := procStateRun
def running : UInt8 := 1
def sleeping : UInt8 := 2
def ready : UInt8 := 4

end Process

def sigchld : UInt32 := 17

/-! ## Contexts -/

/-- The registers saved in `process_st`. -/
structure Regs where
  eax : UInt32 := 0
  ecx : UInt32 := 0
  edx : UInt32 := 0
  ebx : UInt32 := 0
  esp : UInt32 := 0
  ebp : UInt32 := 0
  esi : UInt32 := 0
  edi : UInt32 := 0
  eip : UInt32 := 0
  eflags : UInt32 := 0
  cs : UInt16 := 0
  ss : UInt16 := 0
  ds : UInt16 := 0
  es : UInt16 := 0
  fs : UInt16 := 0
  gs : UInt16 := 0
  cr3 : UInt32 := 0

structure InterruptFrame where
  gs : UInt32 := 0
  fs : UInt32 := 0
  es : UInt32 := 0
  ds : UInt32 := 0
  edi : UInt32 := 0
  esi : UInt32 := 0
  ebp : UInt32 := 0
  esp : UInt32 := 0
  ebx : UInt32 := 0
  edx : UInt32 := 0
  ecx : UInt32 := 0
  eax : UInt32 := 0
  eip : UInt32 := 0
  cs : UInt32 := 0
  eflags : UInt32 := 0
  useresp : UInt32 := 0
  ss : UInt32 := 0

/-- `class Process`, with the `pd`, `regs` and `signal` of its `process_st`. -/
structure Process where
  state : UInt8
  pnext : Option Nat
  pparent : Option Nat
  totalRuntime : UInt64
  lastScheduled : UInt64
  timeSlice : UInt32
  signal : UInt32
  regs : Regs
  pd : Option Nat

/-- `Process::Process`. -/
def newProcess : Process where
  state := Process.sleeping
  pnext := none
  pparent := none
  totalRuntime := 0
  lastScheduled := 0
  timeSlice := 0
  signal := 0
  regs := {}
  pd := none

/-- `class Architecture`, with the processes, the page directory in force (and
the addresses of the directories) and the PIT's count. -/
structure Architecture where
  proc : Nat → Process
  plist : Option Nat
  pcurrent : Option Nat
  firstProc : Option Nat
  idleProcess : Option Nat
  ticksSinceSwitch : UInt32
  ticksPerQuantum : UInt32
  totalTicks : UInt64
  schedulerReady : Bool
  currentDirectory : Option Nat
  physicalAddress : Nat → UInt32
  systemTicks : UInt64

def pitDefaultFreq : UInt32 := 100

namespace Architecture

open Process

/-- Update one process. -/
def modify (a : Architecture) (n : Nat) (f : Process → Process) : Architecture :=
  { a with proc := Function.update a.proc n (f (a.proc n)) }

/-- `Architecture::configure_scheduler`. -/
def configureScheduler (a : Architecture) (pitFrequencyHz : UInt32) : Architecture :=
  let freq := if pitFrequencyHz = 0 then pitDefaultFreq else pitFrequencyHz
  let ticks := freq * 20 / 1000
  { a with ticksPerQuantum := if ticks = 0 then 1 else ticks, schedulerReady := true }

/-- The scheduler part of `Architecture::init`. -/
def init (a : Architecture) : Architecture :=
  configureScheduler
    { a with
      plist := none
      pcurrent := none
      firstProc := none
      idleProcess := none
      ticksSinceSwitch := 0
      ticksPerQuantum := 1
      totalTicks := 0
      schedulerReady := false } pitDefaultFreq

/-- The scheduler before `init`, in memory that is all zeros. -/
def zeroed : Architecture where
  proc := fun _ => newProcess
  plist := none
  pcurrent := none
  firstProc := none
  idleProcess := none
  ticksSinceSwitch := 0
  ticksPerQuantum := 0
  totalTicks := 0
  schedulerReady := false
  currentDirectory := none
  physicalAddress := fun _ => 0
  systemTicks := 0

/-! ## The ring -/

/-- `proc->setState(st)`. -/
def setState (a : Architecture) (n : Nat) (st : UInt8) : Architecture :=
  a.modify n fun p => { p with state := st }

/-- `proc->setPNext(m)`. -/
def setPNext (a : Architecture) (n : Nat) (m : Option Nat) : Architecture :=
  a.modify n fun p => { p with pnext := m }

/-- The first half of `enqueue_process`: `proc` becomes the last of the ring. -/
def link (a : Architecture) (proc : Nat) : Architecture :=
  match a.plist with
  | none => { a with plist := some proc, firstProc := some proc }.setPNext proc (some proc)
  | some first =>
      let a₁ := a.setPNext proc (some first)
      let a₂ :=
        match a₁.firstProc with
        | some last => a₁.setPNext last (some proc)
        | none => a₁
      { a₂ with firstProc := some proc }

/-- `pcurrent` gives way to `proc`. -/
def preempt (a : Architecture) (proc : Nat) : Architecture :=
  match a.pcurrent with
  | some c => if c ≠ proc ∧ (a.proc c).state = running then a.setState c ready else a
  | none => a

/-- `Architecture::enqueue_process`. -/
def enqueueProcess (a : Architecture) (proc : Nat) (makeCurrent : Bool) : Architecture :=
  let a₁ := a.link proc
  if makeCurrent = true ∨ a₁.pcurrent = none then
    { (a₁.preempt proc).modify proc fun p =>
        { p with state := running, lastScheduled := a.systemTicks, timeSlice := 0 } with
      pcurrent := some proc
      ticksSinceSwitch := 0 }
  else a₁.setState proc ready

/-- What the heap and the linker give `ensure_idle_process`: the address of
the new process, the top of its stack if there was room for one, and the
address of `idle_thread`. -/
structure NewIdle where
  addr : Nat
  stackTop : Option UInt32
  entry : UInt32

/-- The registers of the idle process. -/
def idleRegs (a : Architecture) (stackTop entry : UInt32) : Regs :=
  { eip := entry, esp := stackTop, ebp := stackTop, eflags := 0x202, cs := 0x08, ss := 0x10,
    ds := 0x10, es := 0x10, fs := 0x10, gs := 0x10,
    cr3 := match a.currentDirectory with
      | some d => a.physicalAddress d
      | none => 0 }

/-- `Architecture::ensure_idle_process`. -/
def ensureIdleProcess (a : Architecture) (idle : NewIdle) : Architecture :=
  match a.idleProcess with
  | some _ => a
  | none =>
      let a₁ := { a.modify idle.addr fun _ => newProcess with idleProcess := some idle.addr }
      match idle.stackTop with
      | none => a₁
      | some top =>
          let a₂ := a₁.modify idle.addr fun p =>
            { p with
              pd := a.currentDirectory
              regs := a.idleRegs top idle.entry
              pparent := none
              state := ready
              lastScheduled := a.systemTicks
              timeSlice := 0
              totalRuntime := 0 }
          a₂.enqueueProcess idle.addr false

/-- `Architecture::addProcess`; a null pointer is ignored. -/
def addProcess (a : Architecture) (p : Option Nat) (idle : NewIdle) : Architecture :=
  match p with
  | none => a
  | some p =>
      let listWasEmpty := a.plist.isNone
      let a₁ := a.enqueueProcess p listWasEmpty
      let a₂ := if listWasEmpty then { a₁ with schedulerReady := true } else a₁
      a₂.ensureIdleProcess idle

/-- The inner loop of `find_previous`: the process that leads back to the start
of the ring.  A null link faults. -/
def tailLoop (a : Architecture) : Nat → Nat → Option Nat
  | 0, _ => none
  | fuel + 1, tail =>
      if (a.proc tail).pnext = a.plist then some tail
      else
        match (a.proc tail).pnext with
        | none => none
        | some n => tailLoop a fuel n

/-- The loop of `find_previous`. -/
def findPreviousLoop (a : Architecture) (target : Nat) :
    Nat → Nat → Option Nat → Option (Option Nat)
  | 0, _, _ => none
  | fuel + 1, cursor, prev =>
      if cursor = target then
        match prev with
        | some p => some (some p)
        | none => (a.tailLoop turns cursor).map some
      else
        match (a.proc cursor).pnext with
        | none => some none
        | some c =>
            if a.plist = some c then some none else findPreviousLoop a target fuel c (some cursor)

/-- `Architecture::find_previous` of a process; `none` if it never comes back. -/
def findPrevious (a : Architecture) (target : Nat) : Option (Option Nat) :=
  match a.plist with
  | none => some none
  | some first => a.findPreviousLoop target turns first none

/-- The end of `remove_process`: `prev` leads to `next`, and the three pointers
into the ring let go of `proc`. -/
def bypass (a : Architecture) (proc prev : Nat) (next : Option Nat) : Architecture :=
  let a₁ := a.setPNext prev next
  { a₁ with
    plist := if a₁.plist = some proc then next else a₁.plist
    firstProc := if a₁.firstProc = some proc then some prev else a₁.firstProc
    pcurrent := if a₁.pcurrent = some proc then next else a₁.pcurrent }.setPNext proc none

/-- `Architecture::remove_process`; `none` if it never comes back. -/
def removeProcess (a : Architecture) (proc : Option Nat) : Option Architecture :=
  match a.plist, proc with
  | none, _ => some a
  | some _, none => some a
  | some first, some p =>
      let next := (a.proc p).pnext
      if p = first ∧ next = some p then
        some ({ a with
          plist := none
          firstProc := none
          pcurrent := if a.pcurrent = some p then none else a.pcurrent }.setPNext p none)
      else do
        let prev ← a.findPrevious p
        match prev with
        | none => some a
        | some prev => some (a.bypass p prev next)

/-- The loop of `change_process_father`; a null link ends it. -/
def changeFatherLoop (child : Nat) (newFather : Option Nat) :
    Nat → Architecture → Nat → Option Architecture
  | 0, _, _ => none
  | fuel + 1, a, cursor =>
      let a₁ :=
        if (a.proc cursor).pparent = some child then
          a.modify cursor fun p => { p with pparent := newFather }
        else a
      match (a₁.proc cursor).pnext with
      | none => some a₁
      | some c => if a₁.plist = some c then some a₁ else changeFatherLoop child newFather fuel a₁ c

/-- `Architecture::change_process_father` of a process; `none` if it never comes back. -/
def changeProcessFather (a : Architecture) (child : Nat) (newFather : Option Nat) :
    Option Architecture :=
  match a.plist with
  | none => some a
  | some first => changeFatherLoop child newFather turns a first

/-- `Process::~Process`, less its page directory and its `ipc` buffer. -/
def deleteProcess (a : Architecture) (this : Nat) : Option Architecture :=
  a.changeProcessFather this (a.proc this).pparent

/-- One turn of the loop of `destroy_all_zombie`, up to `cursor = next`: the
victims so far are linked by their own `pnext`, from `pending` on. -/
def reapOne (a : Architecture) (cursor : Nat) (pending : Option Nat) :
    Option (Architecture × Option Nat) :=
  if a.idleProcess ≠ some cursor ∧ (a.proc cursor).state = zombie then do
    let a₁ ← a.removeProcess (some cursor)
    some (a₁.setPNext cursor pending, some cursor)
  else some (a, pending)

/-- The first loop of `destroy_all_zombie`.  It stops at the head of the list as
it is then; only a removal can empty the list. -/
def reapLoop : Nat → Architecture → Nat → Option Nat → Option (Architecture × Option Nat)
  | 0, _, _, _ => none
  | fuel + 1, a, cursor, pending => do
      let next := (a.proc cursor).pnext
      let (a₁, pending) ← a.reapOne cursor pending
      if a₁.plist = none then some (a₁, pending)
      else
        match next with
        | none => some (a₁, pending)
        | some c => if a₁.plist = some c then some (a₁, pending) else reapLoop fuel a₁ c pending

/-- The second loop of `destroy_all_zombie`. -/
def cleanupLoop : Nat → Architecture → Option Nat → Option Architecture
  | _, a, none => some a
  | 0, _, some _ => none
  | fuel + 1, a, some victim => do
      let pending := (a.proc victim).pnext
      let a₁ ← (a.setPNext victim none).deleteProcess victim
      cleanupLoop fuel a₁ pending

/-- `Architecture::destroy_all_zombie`; `none` if it never comes back. -/
def destroyAllZombie (a : Architecture) : Option Architecture :=
  match a.plist with
  | none => some a
  | some first => do
      let (a₁, pending) ← reapLoop turns a first none
      cleanupLoop turns a₁ pending

/-! ## `Process` -/

/-- `Process::exit`. -/
def exit (a : Architecture) (this : Nat) : Architecture :=
  let a₁ := a.setState this zombie
  match (a.proc this).pparent with
  | some parent =>
      a₁.modify parent fun p => { p with signal := p.signal ||| ((1 : UInt32) <<< (sigchld - 1)) }
  | none => a₁

/-- `n->pnext`, or the start of the ring. -/
def next (a : Architecture) (n : Nat) : Option Nat :=
  match (a.proc n).pnext with
  | some m => some m
  | none => a.plist

def maxAttempts : Nat := 100

/-- The loop of `schedule`: the first process after `n`, within `left` steps,
that is neither `ZOMBIE` nor `SLEEPING`. -/
def walk (a : Architecture) : Nat → Nat → Option Nat
  | 0, _ => none
  | left + 1, n =>
      match a.next n with
      | none => none
      | some m =>
          if (a.proc m).state = zombie ∨ (a.proc m).state = sleeping then a.walk left m
          else some m

/-- `this` leaves the processor. -/
def demote (a : Architecture) (this : Nat) : Architecture :=
  if (a.proc this).state = running then
    a.modify this fun p =>
      { p with
        totalRuntime := p.totalRuntime + (a.systemTicks - p.lastScheduled)
        state := ready }
  else a

/-- `n` gets it. -/
def promote (a : Architecture) (n : Nat) : Architecture :=
  a.modify n fun p =>
    { p with state := running, lastScheduled := a.systemTicks, timeSlice := p.timeSlice + 1 }

/-- `Process::schedule`: who runs next, and the state it leaves. -/
def schedule (a : Architecture) (this : Nat) : Nat × Architecture :=
  if (a.proc this).pnext = none then (this, a)
  else
    match a.walk maxAttempts this with
    | none => (this, a)
    | some n => if n = this then (this, a) else (n, (a.demote this).promote n)

/-! ## The timer interrupt -/

/-- `Architecture::save_process_context`. -/
def saveProcessContext (a : Architecture) (proc : Nat) (f : InterruptFrame) : Architecture :=
  a.modify proc fun p =>
    { p with
      regs :=
        { eax := f.eax, ecx := f.ecx, edx := f.edx, ebx := f.ebx, esp := f.esp, ebp := f.ebp,
          esi := f.esi, edi := f.edi, eip := f.eip, eflags := f.eflags,
          cs := f.cs.toUInt16, ds := f.ds.toUInt16, es := f.es.toUInt16, fs := f.fs.toUInt16,
          gs := f.gs.toUInt16, ss := 0x10,
          cr3 := match a.currentDirectory with
            | some d => a.physicalAddress d
            | none => p.regs.cr3 } }

/-- `x ? x : y` on a selector. -/
def selector (x : UInt16) (y : UInt32) : UInt32 := if x = 0 then y else x.toUInt32

/-- `Architecture::load_process_context`. -/
def loadProcessContext (a : Architecture) (proc : Nat) : InterruptFrame × Architecture :=
  let p := a.proc proc
  let r := p.regs
  let dataSelector := selector r.ds 0x10
  ({ eax := r.eax, ecx := r.ecx, edx := r.edx, ebx := r.ebx, esp := r.esp, ebp := r.ebp,
     esi := r.esi, edi := r.edi, eip := r.eip,
     cs := selector r.cs 0x08, ds := dataSelector, es := selector r.es dataSelector,
     fs := selector r.fs dataSelector, gs := selector r.gs dataSelector,
     ss := selector r.ss dataSelector, useresp := r.esp,
     eflags := (if r.eflags = 0 then 0x202 else r.eflags) ||| 0x200 },
   if p.pd ≠ none ∧ p.pd ≠ a.currentDirectory then { a with currentDirectory := p.pd } else a)

/-- The switch at the end of a quantum. -/
def switchFrom (a : Architecture) (c : Nat) : InterruptFrame × Architecture :=
  let (n, a₁) := a.schedule c
  { a₁ with pcurrent := some n }.loadProcessContext n

/-- A tick while process `c` is current. -/
def tickCurrent (a : Architecture) (c : Nat) (frame : InterruptFrame) :
    InterruptFrame × Architecture :=
  let a₁ := a.saveProcessContext c frame
  let a₂ := { a₁ with ticksSinceSwitch := a₁.ticksSinceSwitch + 1 }
  let needSwitch := (a₂.proc c).state ≠ running ∨ a₂.ticksPerQuantum ≤ a₂.ticksSinceSwitch
  if needSwitch then { a₂ with ticksSinceSwitch := 0 }.switchFrom c else (frame, a₂)

/-- `Architecture::handle_timer_interrupt`. -/
def handleTimerInterrupt (a : Architecture) (frame : InterruptFrame) :
    InterruptFrame × Architecture :=
  let a₁ := { a with totalTicks := a.totalTicks + 1 }
  if a₁.schedulerReady = false then (frame, a₁)
  else
    match a₁.pcurrent with
    | none => (frame, a₁)
    | some c => a₁.tickCurrent c frame

/-- `isr_timer_int`. -/
def isrTimerInt (a : Architecture) (frame : InterruptFrame) : InterruptFrame × Architecture :=
  { a with systemTicks := a.systemTicks + 1 }.handleTimerInterrupt frame

end Architecture

end KmOS
