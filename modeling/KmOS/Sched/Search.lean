/-
# `KmOS.Sched.Search` — does the scheduler find work?

`schedule()` goes around the ring, over the processes that are `ZOMBIE` or
`SLEEPING`, to the first one that is neither.  It gives up after `max_attempts`
steps, which is a constant: the first process that could run is selected when
it is at most 100 steps away, and when it is farther the current process goes
on and nothing changes (`schedule_finds_work`).  The ring may have any length.
-/
import KmOS.Sched.Context
import KmOS.Sched.Reaping

namespace KmOS

open Architecture Process

/-! ## Statement -/

/-- A circular ring: the current process `p`, and the others `l` in the order
in which they come after it. -/
structure Circle (a : Architecture) (p : Nat) (l : List Nat) : Prop where
  nodup : (p :: l).Nodup
  chain : (p :: l ++ [p]).IsChain (Next a)

/-- `schedule()` passes over `q`. -/
def Skipped (a : Architecture) (q : Nat) : Prop :=
  (a.proc q).state = zombie ∨ (a.proc q).state = sleeping

instance (a : Architecture) (q : Nat) : Decidable (Skipped a q) :=
  inferInstanceAs (Decidable (_ ∨ _))

/-- The first process of `l` that could run. -/
def firstRunnable (a : Architecture) (l : List Nat) : Option Nat :=
  l.find? fun q => ¬ Skipped a q

/-- `p->schedule()` returns `n`, which is running then, and the states of all
processes but `n` and `p` are what they were. -/
structure Selects (a : Architecture) (p n : Nat) : Prop where
  selected : (a.schedule p).1 = n
  running : ((a.schedule p).2.proc n).state = Process.running
  others : ∀ q, q ≠ n → q ≠ p → ((a.schedule p).2.proc q).state = (a.proc q).state

namespace Architecture

variable {a : Architecture} {p n : Nat} {l pre post : List Nat}

/-- The ring `enqueue_process` builds is a circle from any of its processes on. -/
theorem Ringed.circle (h : Ringed a (pre ++ p :: post)) : Circle a p (post ++ pre) := by
  have hperm : (pre ++ p :: post).Perm (p :: (post ++ pre)) :=
    List.perm_append_comm.trans (List.Perm.refl _)
  refine ⟨hperm.nodup_iff.mp h.nodup, ?_⟩
  cases pre with
  | nil =>
      rw [List.append_nil]
      exact h.chain p rfl
  | cons first pre =>
      have hchain : (first :: pre ++ p :: (post ++ [first])).IsChain (Next a) := by
        simpa using h.chain first rfl
      obtain ⟨hfront, hback⟩ := List.isChain_split.mp hchain
      have hround : (p :: post ++ first :: (pre ++ [p])).IsChain (Next a) :=
        List.isChain_split.mpr ⟨hback, hfront⟩
      simpa using hround

/-! ## The walk -/

theorem next_of_link {q : Nat} (h : Next a p q) : a.next p = some q := by
  unfold Architecture.next
  rw [show (a.proc p).pnext = some q from h]

/-- One step of the walk. -/
theorem walk_step {q left : Nat} (h : Next a p q) :
    a.walk (left + 1) p = if Skipped a q then a.walk left q else some q := by
  conv_lhs => unfold walk
  rw [next_of_link h]
  rfl

/-- Over the processes it skips the walk comes to the one behind them, if it has
the steps for it. -/
theorem walk_over {left : Nat} (hchain : (p :: pre ++ [n]).IsChain (Next a))
    (hpre : ∀ q ∈ pre, Skipped a q) (hn : ¬ Skipped a n) :
    a.walk left p = if pre.length < left then some n else none := by
  induction pre generalizing p left with
  | nil =>
      cases left with
      | zero => rfl
      | succ left =>
          rw [walk_step (List.isChain_cons_cons.mp hchain).1, if_neg hn,
            if_pos (show [].length < left + 1 from Nat.zero_lt_succ left)]
  | cons q pre ih =>
      cases left with
      | zero => rfl
      | succ left =>
          obtain ⟨hpq, hrest⟩ := List.isChain_cons_cons.mp hchain
          rw [walk_step hpq, if_pos (hpre q List.mem_cons_self),
            ih hrest (fun r hr => hpre r (List.mem_cons_of_mem q hr))]
          exact if_congr Nat.succ_lt_succ_iff.symm rfl rfl

/-- `schedule()` writes to the two processes only. -/
theorem demote_promote_state (a : Architecture) (p n q : Nat) (hn : q ≠ n) (hp : q ≠ p) :
    (((a.demote p).promote n).proc q).state = (a.proc q).state := by
  unfold promote
  rw [modify_proc_ne _ hn]
  unfold demote
  split
  · rw [modify_proc_ne _ hp]
  · rfl

/-- **What `schedule` does on a circle.** -/
theorem schedule_circle (h : Circle a p (pre ++ n :: post)) (hpre : ∀ q ∈ pre, Skipped a q)
    (hn : ¬ Skipped a n) :
    a.schedule p =
      if pre.length < maxAttempts then (n, (a.demote p).promote n) else (p, a) := by
  have hround : (p :: pre ++ n :: (post ++ [p])).IsChain (Next a) := by simpa using h.chain
  have hchain := (List.isChain_split.mp hround).1
  have hnp : n ≠ p := by
    rintro rfl
    exact (List.nodup_cons.mp h.nodup).1 (by simp)
  have hlink : (a.proc p).pnext ≠ none := by
    obtain ⟨q, tl, hq⟩ : ∃ q tl, pre ++ [n] = q :: tl := List.exists_cons_of_ne_nil (by simp)
    rw [List.cons_append, hq] at hchain
    have hpq : Next a p q := (List.isChain_cons_cons.mp hchain).1
    rw [show (a.proc p).pnext = some q from hpq]
    exact Option.some_ne_none q
  unfold Architecture.schedule
  rw [if_neg hlink, walk_over hchain hpre hn]
  by_cases hnear : pre.length < maxAttempts
  · rw [if_pos hnear, if_pos hnear]
    exact if_neg hnp
  · rw [if_neg hnear, if_neg hnear]

/-- In a list with a process that could run, the first one is behind processes
that are skipped. -/
theorem firstRunnable_split (hr : ∃ q ∈ l, ¬ Skipped a q) :
    ∃ pre n post, l = pre ++ n :: post ∧ firstRunnable a l = some n ∧
      (∀ q ∈ pre, Skipped a q) ∧ ¬ Skipped a n := by
  obtain ⟨n, hn⟩ : ∃ n, firstRunnable a l = some n := by
    obtain ⟨q, hq, hs⟩ := hr
    exact Option.isSome_iff_exists.mp (List.find?_isSome.mpr ⟨q, hq, by simpa using hs⟩)
  obtain ⟨hs, pre, post, hl, hpre⟩ := List.find?_eq_some_iff_append.mp hn
  exact ⟨pre, n, post, hl, hn, fun q hq => by simpa using hpre q hq, by simpa using hs⟩

end Architecture

/-! ## The result -/

theorem ready_runs {a : Architecture} {q : Nat} (h : (a.proc q).state = ready) :
    ¬ Skipped a q := by
  unfold Skipped
  rw [h]
  decide

/-- **The scheduler finds runnable work** that is at most `max_attempts` steps
away, and changes nothing when there is none so near. -/
theorem schedule_finds_work {a : Architecture} {p : Nat} {l : List Nat} (h : Circle a p l)
    (hready : ∃ q ∈ l, (a.proc q).state = ready) :
    ∃ n, firstRunnable a l = some n ∧
      (l.idxOf n < maxAttempts → Selects a p n) ∧
      (maxAttempts ≤ l.idxOf n → a.schedule p = (p, a)) := by
  obtain ⟨q, hq, hs⟩ := hready
  obtain ⟨pre, n, post, rfl, hfirst, hpre, hn⟩ := firstRunnable_split ⟨q, hq, ready_runs hs⟩
  have hsched := schedule_circle h hpre hn
  have hindex : (pre ++ n :: post).idxOf n = pre.length := by
    rw [List.idxOf_append_of_notMem (fun e => hn (hpre n e)), List.idxOf_cons_self, Nat.add_zero]
  refine ⟨n, hfirst, ?_⟩
  rw [hindex]
  refine ⟨fun hnear => ?_, fun hfar => ?_⟩
  · rw [if_pos hnear] at hsched
    refine ⟨congrArg Prod.fst hsched, ?_, fun q hqn hqp => ?_⟩
    · rw [hsched]
      unfold promote
      rw [modify_proc_self]
    · rw [hsched]
      exact demote_promote_state a p n q hqn hqp
  · rw [if_neg (Nat.not_lt.mpr hfar)] at hsched
    exact hsched

/-- Of three enqueued processes the second sleeps, and the third is selected. -/
theorem schedule_passes_sleeper :
    ∃ n, firstRunnable (threeProcesses.setState 0x200 sleeping) [0x200, 0x300] = some n ∧
      ([0x200, 0x300].idxOf n < maxAttempts →
        Selects (threeProcesses.setState 0x200 sleeping) 0x100 n) ∧
      (maxAttempts ≤ [0x200, 0x300].idxOf n →
        (threeProcesses.setState 0x200 sleeping).schedule 0x100 =
          (0x100, threeProcesses.setState 0x200 sleeping)) := by
  have h : Ringed (threeProcesses.setState 0x200 sleeping) ([] ++ 0x100 :: [0x200, 0x300]) :=
    threeProcesses_ring.same ⟨pnext_setState _ _ _, rfl, rfl, rfl⟩
  exact schedule_finds_work h.circle ⟨0x300, by decide, rfl⟩

/-- Process 0 is running, `sleepers` processes behind it sleep, and the one
behind them is ready. -/
def sleepersBetween (sleepers : Nat) : Architecture :=
  { zeroed with
    proc := fun i =>
      { newProcess with
        state := if i = 0 then running else if i = sleepers + 1 then ready else sleeping
        pnext := some ((i + 1) % (sleepers + 2)) }
    plist := some 0 }

/-- From process `i` on the links lead through all of them and back to 0. -/
theorem sleepersBetween_chain {sleepers i m : Nat} (h : i + (m + 1) = sleepers + 2) :
    (List.range' i (m + 1) ++ [0]).IsChain (Next (sleepersBetween sleepers)) := by
  induction m generalizing i with
  | zero =>
      have hlast : i + 1 = sleepers + 2 := by omega
      refine List.isChain_pair.mpr ?_
      show some ((i + 1) % (sleepers + 2)) = some 0
      rw [hlast, Nat.mod_self]
  | succ m ih =>
      rw [List.range'_succ]
      refine List.isChain_cons_cons.mpr ⟨?_, ih (by omega)⟩
      show some ((i + 1) % (sleepers + 2)) = some (i + 1)
      rw [Nat.mod_eq_of_lt (by omega)]

theorem sleepersBetween_circle (sleepers : Nat) :
    Circle (sleepersBetween sleepers) 0 (List.range' 1 (sleepers + 1)) :=
  ⟨List.nodup_range' (s := 0) (n := sleepers + 2), sleepersBetween_chain (i := 0) (by omega)⟩

/-- A hundred processes asleep: the ready one behind them is not found. -/
theorem schedule_gives_up :
    ∃ a p l, Circle a p l ∧ (∃ q ∈ l, (a.proc q).state = ready) ∧
      ¬ ∃ n, firstRunnable a l = some n ∧ Selects a p n := by
  refine ⟨sleepersBetween 100, 0, List.range' 1 101, sleepersBetween_circle 100, ⟨101, ?_, rfl⟩, ?_⟩
  · decide +kernel
  · rintro ⟨n, hn, hs⟩
    have hfirst : firstRunnable (sleepersBetween 100) (List.range' 1 101) = some 101 := by
      decide +kernel
    have hstays : ((sleepersBetween 100).schedule 0).1 = 0 := by decide +kernel
    obtain rfl := Option.some.inj (hn.symm.trans hfirst)
    exact absurd (hstays.symm.trans hs.selected) (by decide)

end KmOS
