/-
# `KmOS.Sched.Exit` — is an exit final?

## What is proved

Processes are added, exit, and timer interrupts come in, in any order.  Once
`exit()` has been called on a process its state is to stay away from `READY`,
and `schedule()` called on another process is not to select it.  Both hold in
every state reached as long as

    addProcess            is not called on a process that has exited, and
    a timer interrupt     does not end the quantum of a process that has exited
                          while another process can be selected

(`exit_is_final`).

## What is not

`ZOMBIE` and `RUNNING` are both 1.  `schedule()` demotes the outgoing process
to `READY` when its state is `RUNNING`, which a process that has just exited
meets: at the end of its quantum it is `READY` again, and the next walk around
the ring selects it (`exited_process_is_ready_again`).

The invariant is that the state of a process that has exited is 1.  The walk
skips state 1, so such a process is never the one promoted; it is left to show
that it is not demoted either, which is where the condition comes in.
-/
import KmOS.Lib.Run
import KmOS.Sched.Model

namespace KmOS

open Architecture Process

/-! ## Runs -/

/-- The scheduler, and the processes `exit()` has been called on. -/
structure Sched where
  arch : Architecture
  exited : Finset Nat

inductive SchedCall where
  | tick (frame : InterruptFrame)
  | add (p : Nat) (idle : NewIdle)
  | exit (p : Nat)

/-- One call.  The memory `new` returns for the idle process is not that of a
process that has exited, since none of these calls deletes one. -/
def schedStep (s : Sched) : SchedCall → Option Sched
  | .tick frame => some { s with arch := (s.arch.isrTimerInt frame).2 }
  | .add p idle =>
      if idle.addr ∈ s.exited then none
      else some { s with arch := s.arch.addProcess (some p) idle }
  | .exit p => some { arch := s.arch.exit p, exited := insert p s.exited }

/-- The condition on a call. -/
def KeepsExit (s : Sched) : SchedCall → Prop
  | .tick _ =>
      match s.arch.pcurrent with
      | none => True
      | some c =>
          c ∈ s.exited → s.arch.schedulerReady = true →
            s.arch.ticksPerQuantum ≤ s.arch.ticksSinceSwitch + 1 →
            (s.arch.proc c).pnext ≠ none → s.arch.walk maxAttempts c = none
  | .add p _ => p ∉ s.exited
  | .exit _ => True

instance (s : Sched) (c : SchedCall) : Decidable (KeepsExit s c) :=
  match c with
  | .tick _ =>
      match h : s.arch.pcurrent with
      | none => .isTrue (by simp [KeepsExit, h])
      | some c =>
          decidable_of_iff (c ∈ s.exited → s.arch.schedulerReady = true →
            s.arch.ticksPerQuantum ≤ s.arch.ticksSinceSwitch + 1 →
            (s.arch.proc c).pnext ≠ none → s.arch.walk maxAttempts c = none)
            (by simp [KeepsExit, h])
  | .add p _ => inferInstanceAs (Decidable (p ∉ s.exited))
  | .exit _ => .isTrue True.intro

/-! ## The invariant -/

/-- The processes of `X` have state 1, and an empty ring has no current
process. -/
structure Exited (a : Architecture) (X : Finset Nat) : Prop where
  state : ∀ p ∈ X, (a.proc p).state = zombie
  empty : a.plist = none → a.pcurrent = none

section
variable {a a' : Architecture} {X : Finset Nat}

theorem modify_state {f : Process → Process} {n : Nat} (p : Nat) :
    ((a.modify n f).proc p).state = if p = n then (f (a.proc n)).state else (a.proc p).state := by
  show (Function.update a.proc n (f (a.proc n)) p).state = _
  by_cases h : p = n
  · subst h; simp
  · simp [h]

/-- A change that keeps the states. -/
theorem Exited.keep (h : Exited a X) (hs : ∀ p ∈ X, (a'.proc p).state = (a.proc p).state)
    (he : a'.plist = none → a'.pcurrent = none) : Exited a' X :=
  ⟨fun p hp => (hs p hp).trans (h.state p hp), he⟩

/-- A change to a process that has not exited. -/
theorem Exited.modify (h : Exited a X) {n : Nat} {f : Process → Process}
    (hn : n ∉ X ∨ (f (a.proc n)).state = (a.proc n).state) : Exited (a.modify n f) X := by
  refine h.keep ?_ h.empty
  intro p hp
  rw [modify_state]
  split
  · next heq =>
      subst heq
      rcases hn with hn | hn
      · exact absurd hp hn
      · exact hn
  · rfl

/-! ## Adding a process -/

theorem Exited.link (h : Exited a X) (p : Nat) : Exited (a.link p) X := by
  unfold Architecture.link
  cases hp : a.plist with
  | none =>
      have h₁ : Exited { a with plist := some p, firstProc := some p } X :=
        h.keep (fun _ _ => rfl) (fun hn => absurd hn (by simp))
      exact h₁.modify (Or.inr rfl)
  | some first =>
      have h₁ : Exited (a.setPNext p (some first)) X := h.modify (Or.inr rfl)
      have hl : (a.setPNext p (some first)).plist = some first := hp
      simp only
      cases (a.setPNext p (some first)).firstProc with
      | none => exact h₁.keep (fun _ _ => rfl) h₁.empty
      | some last =>
          have h₂ : Exited ((a.setPNext p (some first)).setPNext last (some p)) X :=
            h₁.modify (Or.inr rfl)
          exact h₂.keep (fun _ _ => rfl) h₂.empty

/-- The ring is not empty after a process is linked into it. -/
theorem link_plist (p : Nat) : (a.link p).plist ≠ none := by
  unfold Architecture.link
  cases hp : a.plist with
  | none => exact fun hn => absurd hn (by simp [setPNext, Architecture.modify])
  | some first =>
      simp only
      cases (a.setPNext p (some first)).firstProc with
      | none => simp [setPNext, Architecture.modify, hp]
      | some last => simp [setPNext, Architecture.modify, hp]

theorem link_pcurrent (p : Nat) : (a.link p).pcurrent = a.pcurrent := by
  unfold Architecture.link
  cases hp : a.plist with
  | none => rfl
  | some first =>
      simp only
      cases (a.setPNext p (some first)).firstProc <;> rfl

/-- Enqueueing a process that has not exited.  It becomes the current process
only when there is none, so nobody is demoted. -/
theorem Exited.enqueue (h : Exited a X) {p : Nat} (hp : p ∉ X) {makeCurrent : Bool}
    (hm : makeCurrent = true → a.pcurrent = none) :
    Exited (a.enqueueProcess p makeCurrent) X := by
  have h₁ := h.link p
  have hne : (a.link p).plist ≠ none := link_plist p
  unfold enqueueProcess
  simp only
  split
  · next hc =>
      have hcur : (a.link p).pcurrent = none := by
        rcases hc with hc | hc
        · rw [link_pcurrent]
          exact hm hc
        · exact hc
      have hpre : (a.link p).preempt p = a.link p := by
        unfold preempt
        rw [hcur]
      rw [hpre]
      have h₂ : Exited ((a.link p).modify p fun p =>
          { p with state := running, lastScheduled := a.systemTicks, timeSlice := 0 }) X :=
        h₁.modify (Or.inl hp)
      exact h₂.keep (fun _ _ => rfl) (fun hn => absurd hn hne)
  · exact h₁.modify (Or.inl hp)

theorem Exited.ensureIdle (h : Exited a X) {idle : NewIdle} (hi : idle.addr ∉ X) :
    Exited (a.ensureIdleProcess idle) X := by
  unfold ensureIdleProcess
  cases a.idleProcess with
  | some _ => exact h
  | none =>
      have h₀ : Exited (a.modify idle.addr fun _ => newProcess) X := h.modify (Or.inl hi)
      have h₁ : Exited { a.modify idle.addr fun _ => newProcess with
          idleProcess := some idle.addr } X := h₀.keep (fun _ _ => rfl) h₀.empty
      cases idle.stackTop with
      | none => exact h₁
      | some top =>
          exact (h₁.modify (Or.inl hi)).enqueue hi (fun hf => absurd hf (by simp))

theorem Exited.addProcess (h : Exited a X) {p : Nat} (hp : p ∉ X) {idle : NewIdle}
    (hi : idle.addr ∉ X) : Exited (a.addProcess (some p) idle) X := by
  have h₁ : Exited (a.enqueueProcess p a.plist.isNone) X :=
    h.enqueue hp (fun hn => h.empty (Option.isNone_iff_eq_none.mp hn))
  unfold Architecture.addProcess
  simp only
  refine Exited.ensureIdle ?_ hi
  split
  · exact h₁.keep (fun _ _ => rfl) h₁.empty
  · exact h₁

/-! ## Exiting -/

theorem Exited.exit (h : Exited a X) (p : Nat) : Exited (a.exit p) (insert p X) := by
  have h₁ : Exited (a.setState p zombie) (insert p X) := by
    refine ⟨?_, h.empty⟩
    intro q hq
    show ((a.modify p fun x => { x with state := zombie }).proc q).state = zombie
    rw [modify_state]
    split
    · rfl
    · next hne => exact h.state q ((Finset.mem_insert.mp hq).resolve_left hne)
  unfold Architecture.exit
  cases (a.proc p).pparent with
  | none => exact h₁
  | some parent => exact h₁.modify (Or.inr rfl)

/-! ## Scheduling -/

/-- The walk reads states and links only. -/
theorem walk_congr (hp : ∀ n, (a'.proc n).state = (a.proc n).state ∧
      (a'.proc n).pnext = (a.proc n).pnext) (hl : a'.plist = a.plist) (left n : Nat) :
    a'.walk left n = a.walk left n := by
  induction left generalizing n with
  | zero => rfl
  | succ left ih =>
      have hnext : a'.next n = a.next n := by
        unfold next
        rw [(hp n).2, hl]
      unfold Architecture.walk
      rw [hnext]
      cases a.next n with
      | none => rfl
      | some m => simp only [(hp m).1, ih]

/-- What the walk finds is neither `ZOMBIE` nor `SLEEPING`. -/
theorem walk_state {left n m : Nat} (h : a.walk left n = some m) :
    (a.proc m).state ≠ zombie ∧ (a.proc m).state ≠ sleeping := by
  induction left generalizing n with
  | zero => exact absurd h (by simp [Architecture.walk])
  | succ left ih =>
      unfold Architecture.walk at h
      cases hn : a.next n with
      | none =>
          rw [hn] at h
          exact absurd h (by simp)
      | some q =>
          rw [hn] at h
          simp only at h
          split at h
          · exact ih h
          · next hs =>
              cases h
              exact ⟨fun hz => hs (Or.inl hz), fun hz => hs (Or.inr hz)⟩

/-- **The two ways `schedule` ends.** -/
theorem schedule_cases (c : Nat) :
    a.schedule c = (c, a) ∨
    ∃ n, (a.proc c).pnext ≠ none ∧ a.walk maxAttempts c = some n ∧ n ≠ c ∧
      a.schedule c = (n, (a.demote c).promote n) := by
  unfold schedule
  by_cases hp : (a.proc c).pnext = none
  · exact Or.inl (by rw [if_pos hp])
  · rw [if_neg hp]
    cases hw : a.walk maxAttempts c with
    | none => exact Or.inl rfl
    | some n =>
        by_cases hn : n = c
        · exact Or.inl (by simp [hn])
        · exact Or.inr ⟨n, hp, rfl, hn, by simp [hn]⟩

/-- `schedule` does not select an exited process in another's place. -/
theorem Exited.not_selected (h : Exited a X) {p : Nat} (hp : p ∈ X) {q : Nat} (hne : q ≠ p) :
    (a.schedule q).1 ≠ p := by
  rcases schedule_cases (a := a) q with he | ⟨n, _, hw, _, he⟩
  · rw [he]
    exact hne
  · rw [he]
    intro heq
    have hn := (walk_state hw).1
    rw [show n = p from heq] at hn
    exact hn (h.state p hp)

/-- The process selected has not exited; the one that leaves must not have. -/
theorem Exited.schedule (h : Exited a X) {c : Nat}
    (hc : c ∈ X → (a.proc c).pnext ≠ none → a.walk maxAttempts c = none) :
    Exited (a.schedule c).2 X := by
  rcases schedule_cases (a := a) c with he | ⟨n, hnext, hw, _, he⟩
  · rw [he]
    exact h
  · rw [he]
    have hcX : c ∉ X := by
      intro hmem
      rw [hc hmem hnext] at hw
      exact absurd hw (by simp)
    have hnX : n ∉ X := fun hmem => (walk_state hw).1 (h.state n hmem)
    have hd : Exited (a.demote c) X := by
      unfold demote
      split
      · exact h.modify (Or.inl hcX)
      · exact h
    show Exited ((a.demote c).promote n) X
    exact hd.modify (Or.inl hnX)

theorem schedule_plist (c : Nat) : (a.schedule c).2.plist = a.plist := by
  rcases schedule_cases (a := a) c with he | ⟨n, _, _, _, he⟩
  · rw [he]
  · rw [he]
    show (a.demote c).plist = a.plist
    unfold demote
    split <;> rfl

theorem Exited.switchFrom (h : Exited a X) {c : Nat} (hcur : a.pcurrent = some c)
    (hc : c ∈ X → (a.proc c).pnext ≠ none → a.walk maxAttempts c = none) :
    Exited (a.switchFrom c).2 X := by
  have hs := h.schedule hc
  have hne : (a.schedule c).2.plist ≠ none := by
    rw [schedule_plist]
    intro hn
    rw [h.empty hn] at hcur
    exact absurd hcur (by simp)
  unfold Architecture.switchFrom loadProcessContext
  simp only
  split
  · exact hs.keep (fun _ _ => rfl) (fun hn => absurd hn hne)
  · exact hs.keep (fun _ _ => rfl) (fun hn => absurd hn hne)

/-! ## A timer interrupt -/

/-- Saving the context of the current process keeps states and links. -/
theorem saveProcessContext_proc (c : Nat) (frame : InterruptFrame) (n : Nat) :
    ((a.saveProcessContext c frame).proc n).state = (a.proc n).state ∧
      ((a.saveProcessContext c frame).proc n).pnext = (a.proc n).pnext := by
  unfold saveProcessContext Architecture.modify
  by_cases h : n = c
  · subst h; simp
  · simp [h]

/-- A tick while `c` is current.  An exited process passes for a running one,
so it is switched away from only when its quantum ends. -/
theorem Exited.tickCurrent (h : Exited a X) {c : Nat} (hcur : a.pcurrent = some c)
    (frame : InterruptFrame)
    (hc : c ∈ X → a.ticksPerQuantum ≤ a.ticksSinceSwitch + 1 → (a.proc c).pnext ≠ none →
      a.walk maxAttempts c = none) : Exited (a.tickCurrent c frame).2 X := by
  have hsave : Exited (a.saveProcessContext c frame) X := h.modify (Or.inr rfl)
  have hproc := saveProcessContext_proc (a := a) c frame
  unfold Architecture.tickCurrent
  simp only
  split
  · next hneed =>
      have hreset : Exited { a.saveProcessContext c frame with ticksSinceSwitch := 0 } X :=
        hsave.keep (fun _ _ => rfl) hsave.empty
      refine hreset.switchFrom hcur ?_
      intro hmem hnext
      have hstate : ((a.saveProcessContext c frame).proc c).state = running :=
        (hproc c).1.trans (h.state c hmem)
      have hquantum : a.ticksPerQuantum ≤ a.ticksSinceSwitch + 1 :=
        hneed.resolve_left fun hns => hns hstate
      have hw := hc hmem hquantum (fun hn => hnext ((hproc c).2.trans hn))
      exact (walk_congr hproc rfl maxAttempts c).trans hw
  · exact hsave.keep (fun _ _ => rfl) hsave.empty

theorem Exited.tick (h : Exited a X) (frame : InterruptFrame)
    (hc : ∀ c, a.pcurrent = some c → c ∈ X → a.schedulerReady = true →
      a.ticksPerQuantum ≤ a.ticksSinceSwitch + 1 →
      (a.proc c).pnext ≠ none → a.walk maxAttempts c = none) :
    Exited (a.isrTimerInt frame).2 X := by
  unfold isrTimerInt handleTimerInterrupt
  simp only
  split
  · exact h.keep (fun _ _ => rfl) h.empty
  · next hready =>
      split
      · exact h.keep (fun _ _ => rfl) h.empty
      · next c hcur =>
          have hb : Exited { a with
              systemTicks := a.systemTicks + 1, totalTicks := a.totalTicks + 1 } X :=
            h.keep (fun _ _ => rfl) h.empty
          refine hb.tickCurrent hcur frame ?_
          intro hmem hquantum hnext
          have hw := hc c hcur hmem (by simpa using hready) hquantum hnext
          exact (walk_congr (fun _ => ⟨rfl, rfl⟩) rfl maxAttempts c).trans hw

end

/-! ## The result -/

theorem exited_step {s s' : Sched} {c : SchedCall} (h : Exited s.arch s.exited)
    (hc : KeepsExit s c) (hs : schedStep s c = some s') : Exited s'.arch s'.exited := by
  cases c with
  | tick frame =>
      cases hs
      refine h.tick frame fun c hcur => ?_
      simp only [KeepsExit, hcur] at hc
      exact hc
  | add p idle =>
      simp only [schedStep] at hs
      split at hs
      · exact absurd hs (by simp)
      · next hi =>
          cases hs
          exact h.addProcess hc hi
  | exit p =>
      cases hs
      exact h.exit p

/-- **Exit is final**, in runs that never end the quantum of an exited process
while another one can run. -/
theorem exit_is_final {s₀ s : Sched} (h0 : s₀.exited = ∅)
    (hring : s₀.arch.plist = none → s₀.arch.pcurrent = none)
    (hr : Reaches schedStep KeepsExit s₀ s) {p : Nat} (hp : p ∈ s.exited) :
    (s.arch.proc p).state ≠ ready ∧ ∀ q, q ≠ p → (s.arch.schedule q).1 ≠ p := by
  have hstart : Exited s₀.arch s₀.exited := by
    refine ⟨?_, hring⟩
    intro q hq
    rw [h0] at hq
    exact absurd hq (Finset.notMem_empty q)
  have h : Exited s.arch s.exited :=
    hr.invariant (I := fun s => Exited s.arch s.exited) hstart
      (fun _ _ _ hk hc hs => exited_step hk hc hs)
  refine ⟨?_, fun q hq => h.not_selected hp hq⟩
  rw [h.state p hp]
  decide

/-- The scheduler after `Architecture::init`. -/
def coldStart : Sched where
  arch := Architecture.init
    { proc := fun _ => newProcess
      plist := none
      pcurrent := none
      firstProc := none
      idleProcess := none
      ticksSinceSwitch := 0
      ticksPerQuantum := 0
      totalTicks := 0
      schedulerReady := false
      currentDirectory := none
      physicalAddress := fun _ => 0
      systemTicks := 0 }
  exited := ∅

/-- Two processes; the idle process is the third. -/
def twoProcesses : List SchedCall :=
  [.add 1 ⟨3, some 0x5000, 0x100000⟩, .add 2 ⟨4, some 0x6000, 0x100000⟩]

/-- The second process exits while the first one runs, and the first one's
quantum ends: the exited process is passed over. -/
theorem exit_is_final_waiting :
    ∃ s, Reaches schedStep KeepsExit coldStart s ∧ 2 ∈ s.exited ∧ s.arch.pcurrent = some 3 ∧
      (s.arch.proc 2).state ≠ ready ∧ (s.arch.schedule 3).1 ≠ 2 := by
  obtain ⟨s, hr, hp⟩ := Reaches.of_checked_script schedStep KeepsExit coldStart
    (fun s => decide (2 ∈ s.exited ∧ s.arch.pcurrent = some 3))
    (twoProcesses ++ [.exit 2, .tick {}, .tick {}]) (by decide +kernel)
  obtain ⟨hmem, hcur⟩ := of_decide_eq_true hp
  obtain ⟨hstate, hsel⟩ := exit_is_final rfl (fun _ => rfl) hr hmem
  exact ⟨s, hr, hmem, hcur, hstate, hsel 3 (by decide)⟩

/-- The running process exits and its quantum ends: its state is `READY`, and
`schedule()` on the second process selects it. -/
theorem exited_process_is_ready_again :
    coldStart.exited = ∅ ∧ coldStart.arch.plist = none ∧ coldStart.arch.pcurrent = none ∧
    ∃ s, Reaches schedStep (fun _ _ => True) coldStart s ∧ 1 ∈ s.exited ∧
      (s.arch.proc 1).state = ready ∧ (s.arch.schedule 2).1 = 1 := by
  obtain ⟨s, hr, hp⟩ := Reaches.of_script schedStep (fun _ _ => True) coldStart
    (fun s => decide (1 ∈ s.exited ∧ (s.arch.proc 1).state = ready ∧ (s.arch.schedule 2).1 = 1))
    (twoProcesses ++ [.exit 1, .tick {}, .tick {}]) (fun _ _ _ => True.intro) (by decide +kernel)
  exact ⟨rfl, rfl, rfl, s, hr, of_decide_eq_true hp⟩

end KmOS
