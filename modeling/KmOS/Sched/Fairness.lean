/-
# `KmOS.Sched.Fairness` — the processor is shared evenly

Timer interrupts come in, and nothing else happens to the ring.  The processes that could
run take turns in the order of the ring, each for a quantum, as a `Rota` has it
(`Shares`).  So after any number of interrupts `total_runtime` of each has grown by the
quanta of the turns it has ended, and these numbers differ by one at most
(`schedule_is_fair`).

A turn that is still going on is not in `total_runtime`.  The walk of `schedule` goes 100
steps, so the ring has to be no longer.
-/
import KmOS.Lib.Rota
import KmOS.Sched.Search

namespace KmOS

open Architecture Process

namespace Circle

variable {a a' : Architecture} {p n : Nat} {l pre post : List Nat}

theorem congr (h : Circle a p l) (hag : ∀ q, (a'.proc q).pnext = (a.proc q).pnext) :
    Circle a' p l :=
  ⟨h.nodup, chain_congr h.chain fun q _ => hag q⟩

/-- The circle from `n` on. -/
theorem rotate (h : Circle a p (pre ++ n :: post)) : Circle a n (post ++ p :: pre) := by
  have hperm : (p :: (pre ++ n :: post)).Perm (n :: (post ++ p :: pre)) :=
    (List.perm_append_comm : (p :: pre ++ n :: post).Perm _).trans (.refl _)
  refine ⟨hperm.nodup_iff.mp h.nodup, ?_⟩
  have hround : (p :: pre ++ n :: (post ++ [p])).IsChain (Next a) := by simpa using h.chain
  obtain ⟨hfront, hback⟩ := List.isChain_split.mp hround
  have hchain : (n :: post ++ p :: (pre ++ [n])).IsChain (Next a) :=
    List.isChain_split.mpr ⟨hback, hfront⟩
  simpa using hchain

end Circle

namespace Architecture

/-- The processes of `l` that could run. -/
def runnable (a : Architecture) (l : List Nat) : List Nat := l.filter fun q => ¬ Skipped a q

/-- `p` is running, those of `l` that could run are ready, and the rota is theirs; what
`total_runtime` says is `base` and the quanta of the turns. -/
structure Shares (a : Architecture) (p : Nat) (l : List Nat) (base : Nat → UInt64)
    (r : Rota Nat) : Prop where
  circle : Circle a p l
  near : l.length ≤ maxAttempts
  current : a.pcurrent = some p
  schedulerReady : a.schedulerReady = true
  running : (a.proc p).state = running
  others : ∀ q ∈ l, Skipped a q ∨ (a.proc q).state = ready
  order : r.order = p :: a.runnable l
  ticks : a.ticksSinceSwitch ≤ a.ticksPerQuantum
  since : a.systemTicks - (a.proc p).lastScheduled = a.ticksSinceSwitch.toUInt64
  runtime : ∀ q, (a.proc q).totalRuntime =
    base q + UInt64.ofNat (a.ticksPerQuantum.toNat * r.turns q)

variable {a a' : Architecture} {p n : Nat} {l pre post : List Nat} {base : Nat → UInt64}
  {r : Rota Nat}

/-! ## A tick inside a quantum -/

/-- Nothing but the saved context has changed of a process. -/
structure SameButContext (x y : Process) : Prop where
  state : y.state = x.state
  pnext : y.pnext = x.pnext
  pparent : y.pparent = x.pparent
  totalRuntime : y.totalRuntime = x.totalRuntime
  lastScheduled : y.lastScheduled = x.lastScheduled

theorem saveProcessContext_same (a : Architecture) (c : Nat) (f : InterruptFrame) (q : Nat) :
    SameButContext (a.proc q) ((a.saveProcessContext c f).proc q) := by
  by_cases hq : q = c
  · subst hq
    unfold saveProcessContext
    rw [modify_proc_self]
    exact ⟨rfl, rfl, rfl, rfl, rfl⟩
  · rw [saveProcessContext_other f hq]
    exact ⟨rfl, rfl, rfl, rfl, rfl⟩

theorem skipped_congr {q : Nat} (hag : (a'.proc q).state = (a.proc q).state) :
    Skipped a' q ↔ Skipped a q := by
  unfold Skipped
  rw [hag]

theorem runnable_congr (hag : ∀ q ∈ l, (a'.proc q).state = (a.proc q).state) :
    a'.runnable l = a.runnable l :=
  List.filter_congr fun q hq =>
    decide_eq_decide.mpr (not_congr (skipped_congr (hag q hq)))

theorem toUInt64_succ {t q : UInt32} (h : t < q) : (t + 1).toUInt64 = t.toUInt64 + 1 := by
  have hlt := UInt32.lt_iff_toNat_lt.mp h
  have hq := q.toNat_lt
  refine UInt64.toNat_inj.mp ?_
  rw [UInt32.toNat_toUInt64, UInt64.toNat_add, UInt32.toNat_toUInt64, UInt32.toNat_add]
  simp
  omega

/-- The tick is counted, and the context saved. -/
theorem Shares.saved (h : Shares a p l base r) (hlt : a.ticksSinceSwitch < a.ticksPerQuantum)
    (f : InterruptFrame) : Shares (a.saved p f) p l base r := by
  have hsame : ∀ q, SameButContext (a.proc q) ((a.saved p f).proc q) :=
    saveProcessContext_same a.counted p f
  refine ⟨h.circle.congr fun q => (hsame q).pnext, h.near, h.current, h.schedulerReady,
    (hsame p).state.trans h.running, fun q hq => ?_, ?_, ?_, ?_, fun q => ?_⟩
  · rw [skipped_congr (hsame q).state, (hsame q).state]
    exact h.others q hq
  · rw [runnable_congr fun q _ => (hsame q).state]
    exact h.order
  · have hle := UInt32.lt_iff_toNat_lt.mp hlt
    have hq := a.ticksPerQuantum.toNat_lt
    refine UInt32.le_iff_toNat_le.mpr ?_
    show (a.ticksSinceSwitch + 1).toNat ≤ a.ticksPerQuantum.toNat
    rw [UInt32.toNat_add]
    simp
    omega
  · show a.systemTicks + 1 - ((a.saved p f).proc p).lastScheduled =
      (a.ticksSinceSwitch + 1).toUInt64
    rw [(hsame p).lastScheduled, toUInt64_succ hlt, ← h.since]
    grind
  · rw [(hsame q).totalRuntime]
    exact h.runtime q

/-! ## The end of a quantum -/

/-- `p` gives the processor to `n`. -/
structure Hands (a c : Architecture) (p n : Nat) : Prop where
  old : c.proc p = { a.proc p with
    totalRuntime := (a.proc p).totalRuntime + (a.systemTicks - (a.proc p).lastScheduled)
    state := ready }
  new : c.proc n = { a.proc n with
    state := running
    lastScheduled := a.systemTicks
    timeSlice := (a.proc n).timeSlice + 1 }
  others : ∀ q, q ≠ p → q ≠ n → c.proc q = a.proc q
  current : c.pcurrent = some n
  schedulerReady : c.schedulerReady = a.schedulerReady
  systemTicks : c.systemTicks = a.systemTicks
  ticksSinceSwitch : c.ticksSinceSwitch = 0
  ticksPerQuantum : c.ticksPerQuantum = a.ticksPerQuantum

theorem loadProcessContext_counters (a : Architecture) (n : Nat) :
    (a.loadProcessContext n).2 = { a with
      currentDirectory := (a.loadProcessContext n).2.currentDirectory } := by
  unfold loadProcessContext
  dsimp only
  split
  · rfl
  · rfl

theorem hands {b : Architecture} (hb : b = { a with ticksSinceSwitch := 0 })
    (hrunning : (a.proc p).state = running) (hne : n ≠ p)
    (hsched : b.schedule p = (n, (b.demote p).promote n)) : Hands a (b.switchFrom p).2 p n := by
  have hstate : (b.proc p).state = running := by rw [hb]; exact hrunning
  unfold switchFrom
  rw [hsched]
  dsimp only
  rw [loadProcessContext_counters]
  unfold promote demote
  rw [if_pos hstate]
  subst hb
  refine ⟨?_, ?_, fun q hp hn => ?_, rfl, rfl, rfl, rfl, rfl⟩
  · simp [Architecture.modify, Ne.symm hne]
  · simp [Architecture.modify, hne]
  · simp [Architecture.modify, hp, hn]

theorem runnable_append (l₁ l₂ : List Nat) : a.runnable (l₁ ++ l₂) = a.runnable l₁ ++ a.runnable l₂ :=
  List.filter_append ..

theorem runnable_cons (hn : ¬ Skipped a n) (l : List Nat) : a.runnable (n :: l) = n :: a.runnable l :=
  List.filter_cons_of_pos (by simpa using hn)

theorem runnable_of_skipped (h : ∀ q ∈ l, Skipped a q) : a.runnable l = [] :=
  List.filter_eq_nil_iff.mpr fun q hq => by simpa using h q hq

theorem turns_pass (horder : r.order = p :: l) (q : Nat) :
    r.pass.turns q = if q = p then r.turns q + 1 else r.turns q := by
  show (if r.order.head? = some q then _ else _) = _
  rw [horder, List.head?_cons]
  exact if_congr (Option.some_inj.trans eq_comm) rfl rfl

/-- **The switch**: the first that could run gets the turn. -/
theorem Shares.switch (h : Shares a p l base r) (hfull : a.ticksSinceSwitch = a.ticksPerQuantum)
    (hsome : a.runnable l ≠ []) :
    ∃ n l', Shares ({ a with ticksSinceSwitch := 0 }.switchFrom p).2 n l' base r.pass ∧
      ({ a with ticksSinceSwitch := 0 }.switchFrom p).2.ticksSinceSwitch = 0 ∧
      ({ a with ticksSinceSwitch := 0 }.switchFrom p).2.ticksPerQuantum = a.ticksPerQuantum := by
  obtain ⟨q, hq⟩ := List.exists_mem_of_ne_nil _ hsome
  obtain ⟨hql, hskip⟩ := List.mem_filter.mp hq
  obtain ⟨pre, n, post, rfl, -, hpre, hn⟩ := firstRunnable_split ⟨q, hql, by simpa using hskip⟩
  have hnear : pre.length < maxAttempts := by
    have := h.near
    rw [List.length_append, List.length_cons] at this
    omega
  let b : Architecture := { a with ticksSinceSwitch := 0 }
  have hsched : b.schedule p = (n, (b.demote p).promote n) := by
    have hcircle : Circle b p (pre ++ n :: post) := h.circle.congr fun _ => rfl
    rw [schedule_circle hcircle hpre hn, if_pos hnear]
  have hnp : n ≠ p := by
    rintro rfl
    exact (List.nodup_cons.mp h.circle.nodup).1 (by simp)
  have hc : Hands a (b.switchFrom p).2 p n := hands rfl h.running hnp hsched
  -- who is where on the circle
  have hnodup : (n :: (post ++ p :: pre)).Nodup := h.circle.rotate.nodup
  have hapart : ∀ q ∈ post ++ pre, q ≠ p ∧ q ≠ n := by
    intro q hq
    have hperm : (p :: (pre ++ n :: post)).Perm (p :: n :: (post ++ pre)) :=
      .cons p (List.perm_middle.trans (.cons n List.perm_append_comm))
    have hall := hperm.nodup_iff.mp h.circle.nodup
    rw [List.nodup_cons, List.nodup_cons] at hall
    exact ⟨fun e => hall.1 (e ▸ List.mem_cons_of_mem n hq), fun e => hall.2.1 (e ▸ hq)⟩
  have hsame : ∀ q ∈ post ++ pre, (b.switchFrom p).2.proc q = a.proc q := fun q hq =>
    hc.others q (hapart q hq).1 (hapart q hq).2
  have hlinks : ∀ q, ((b.switchFrom p).2.proc q).pnext = (a.proc q).pnext := by
    intro q
    by_cases hqp : q = p
    · rw [hqp, hc.old]
    · by_cases hqn : q = n
      · rw [hqn, hc.new]
      · rw [hc.others q hqp hqn]
  refine ⟨n, post ++ p :: pre, ⟨h.circle.rotate.congr hlinks, ?_, hc.current,
    hc.schedulerReady.trans h.schedulerReady, by rw [hc.new], fun q hq => ?_, ?_, ?_, ?_, ?_⟩,
    hc.ticksSinceSwitch, hc.ticksPerQuantum⟩
  · have hlen := h.near
    rw [List.length_append, List.length_cons] at hlen ⊢
    omega
  · rcases List.mem_append.mp hq with hq | hq
    · rw [skipped_congr (congrArg Process.state (hsame q (List.mem_append_left _ hq))),
        hsame q (List.mem_append_left _ hq)]
      exact h.others q (List.mem_append_right _ (List.mem_cons_of_mem n hq))
    · rcases List.mem_cons.mp hq with rfl | hq
      · rw [hc.old]
        exact .inr rfl
      · rw [skipped_congr (congrArg Process.state (hsame q (List.mem_append_right _ hq)))]
        exact .inl (hpre q hq)
  · have hready : ¬ Skipped (b.switchFrom p).2 p := ready_runs (by rw [hc.old])
    have hold : a.runnable (pre ++ n :: post) = n :: a.runnable post := by
      rw [runnable_append, runnable_of_skipped hpre, List.nil_append, runnable_cons hn]
    have hskipped : ∀ q ∈ pre, Skipped (b.switchFrom p).2 q := fun q hq =>
      (skipped_congr (congrArg Process.state (hsame q (List.mem_append_right _ hq)))).mpr (hpre q hq)
    rw [Rota.pass_cons h.order, hold, runnable_append, runnable_cons hready,
      runnable_of_skipped hskipped,
      runnable_congr fun q hq => congrArg Process.state (hsame q (List.mem_append_left _ hq))]
    rfl
  · rw [hc.ticksSinceSwitch]
    exact UInt32.zero_le
  · rw [hc.systemTicks, hc.new, hc.ticksSinceSwitch]
    exact UInt64.sub_self _
  · intro q
    have hq := h.runtime q
    rw [turns_pass h.order, hc.ticksPerQuantum]
    by_cases hqp : q = p
    · subst hqp
      have hquantum : a.ticksPerQuantum.toUInt64 = UInt64.ofNat a.ticksPerQuantum.toNat :=
        (UInt64.ofNat_uInt32ToNat _).symm
      rw [if_pos rfl, hc.old, Nat.mul_add, Nat.mul_one, UInt64.ofNat_add, ← hquantum, ← hfull,
        ← h.since, ← UInt64.add_assoc, hfull, ← hq]
    · rw [if_neg hqp, ← hq]
      by_cases hqn : q = n
      · rw [hqn, hc.new]
      · rw [hc.others q hqp hqn]

/-! ## Runs -/

/-- While the current process is running the counter alone decides. -/
theorem Shares.isrTimerInt_eq (h : Shares a p l base r) (hlt : a.ticksSinceSwitch < a.ticksPerQuantum)
    (f : InterruptFrame) :
    (a.isrTimerInt f).2 = if (a.saved p f).ticksPerQuantum ≤ (a.saved p f).ticksSinceSwitch
      then ({ a.saved p f with ticksSinceSwitch := 0 }.switchFrom p).2 else a.saved p f := by
  have hrunning : ((a.saved p f).proc p).state = Process.running := (h.saved hlt f).running
  rcases isrTimerInt_cases a f with ⟨h0 | h0, _⟩ | ⟨c, _, hc, ⟨hnone, heq⟩ | ⟨b, hb, hinst, heq⟩⟩
  · rw [h.schedulerReady] at h0
    cases h0
  · rw [h.current] at h0
    cases h0
  · obtain rfl : p = c := Option.some.inj (h.current.symm.trans hc)
    rw [installed_current_eq f h.schedulerReady h.current] at hnone
    rw [heq, if_neg fun hq => ?_]
    rw [if_pos (.inr hq)] at hnone
    cases hnone
  · obtain rfl : p = c := Option.some.inj (h.current.symm.trans hc)
    rw [installed_current_eq f h.schedulerReady h.current] at hinst
    rw [heq, hb, if_pos]
    refine Decidable.byContradiction fun hq => ?_
    rw [if_neg (not_or.mpr ⟨not_not_intro hrunning, hq⟩)] at hinst
    cases hinst

/-- **One tick.** -/
theorem Shares.tick (h : Shares a p l base r) (hlt : a.ticksSinceSwitch < a.ticksPerQuantum)
    (hsome : 1 < r.order.length) (f : InterruptFrame) :
    (∃ p' l', Shares (a.isrTimerInt f).2 p' l' base
      (Rota.pass^[(a.ticksSinceSwitch.toNat + 1) / a.ticksPerQuantum.toNat] r)) ∧
      (a.isrTimerInt f).2.ticksSinceSwitch.toNat =
        (a.ticksSinceSwitch.toNat + 1) % a.ticksPerQuantum.toNat ∧
      (a.isrTimerInt f).2.ticksPerQuantum = a.ticksPerQuantum := by
  have hsaved := h.saved hlt f
  have hnat := UInt32.lt_iff_toNat_lt.mp hlt
  have hbound := a.ticksPerQuantum.toNat_lt
  have hticks : (a.saved p f).ticksSinceSwitch.toNat = a.ticksSinceSwitch.toNat + 1 := by
    show (a.ticksSinceSwitch + 1).toNat = _
    rw [UInt32.toNat_add]
    exact Nat.mod_eq_of_lt (by simp; omega)
  rw [h.isrTimerInt_eq hlt f]
  by_cases hfull : (a.saved p f).ticksPerQuantum ≤ (a.saved p f).ticksSinceSwitch
  · have hge : a.ticksPerQuantum.toNat ≤ (a.saved p f).ticksSinceSwitch.toNat :=
      UInt32.le_iff_toNat_le.mp hfull
    have heq : a.ticksSinceSwitch.toNat + 1 = a.ticksPerQuantum.toNat := by omega
    have hsome' : (a.saved p f).runnable l ≠ [] := by
      intro hnil
      rw [hsaved.order, hnil] at hsome
      exact Nat.lt_irrefl 1 hsome
    have hquantum : (a.saved p f).ticksSinceSwitch = (a.saved p f).ticksPerQuantum :=
      UInt32.toNat_inj.mp (hticks.trans heq)
    obtain ⟨n, l', hswitch, hcounters⟩ := hsaved.switch hquantum hsome'
    rw [if_pos hfull, heq, Nat.div_self (by omega), Nat.mod_self]
    exact ⟨⟨n, l', hswitch⟩, congrArg UInt32.toNat hcounters.1, hcounters.2⟩
  · have hlt' : a.ticksSinceSwitch.toNat + 1 < a.ticksPerQuantum.toNat := by
      have hno : (a.saved p f).ticksSinceSwitch.toNat < a.ticksPerQuantum.toNat :=
        UInt32.lt_iff_toNat_lt.mp (UInt32.not_le.mp hfull)
      omega
    rw [if_neg hfull, Nat.div_eq_of_lt hlt', Nat.mod_eq_of_lt hlt']
    exact ⟨⟨p, l, hsaved⟩, hticks, rfl⟩

/-- The ticks that come in. -/
def ticked (a : Architecture) (frames : List InterruptFrame) : Architecture :=
  frames.foldl (fun a f => (a.isrTimerInt f).2) a

/-- **All ticks.** -/
theorem Shares.ticked (h : Shares a p l base r) (hlt : a.ticksSinceSwitch < a.ticksPerQuantum)
    (hsome : 1 < r.order.length) (frames : List InterruptFrame) :
    (∃ p' l', Shares (a.ticked frames) p' l' base
      (Rota.pass^[(a.ticksSinceSwitch.toNat + frames.length) / a.ticksPerQuantum.toNat] r)) ∧
      (a.ticked frames).ticksSinceSwitch.toNat =
        (a.ticksSinceSwitch.toNat + frames.length) % a.ticksPerQuantum.toNat ∧
      (a.ticked frames).ticksPerQuantum = a.ticksPerQuantum := by
  have hnat := UInt32.lt_iff_toNat_lt.mp hlt
  have hpos : 0 < a.ticksPerQuantum.toNat := Nat.zero_lt_of_lt hnat
  induction frames using List.reverseRecOn with
  | nil =>
      rw [List.length_nil, Nat.add_zero, Nat.div_eq_of_lt hnat, Nat.mod_eq_of_lt hnat]
      exact ⟨⟨p, l, h⟩, rfl, rfl⟩
  | append_singleton frames f ih =>
      obtain ⟨⟨p', l', hshares⟩, hticks, hquantum⟩ := ih
      have hlt' : (a.ticked frames).ticksSinceSwitch < (a.ticked frames).ticksPerQuantum := by
        rw [UInt32.lt_iff_toNat_lt, hticks, hquantum]
        exact Nat.mod_lt _ hpos
      have hsome' : 1 < (Rota.pass^[(a.ticksSinceSwitch.toNat + frames.length) /
          a.ticksPerQuantum.toNat] r).order.length := by
        rw [Rota.pass_iterate_order, List.length_rotate]
        exact hsome
      obtain ⟨hstep, hticks', hquantum'⟩ := hshares.tick hlt' hsome' f
      have hconcat : a.ticked (frames ++ [f]) = ((a.ticked frames).isrTimerInt f).2 :=
        List.foldl_append
      rw [hticks, hquantum, ← Function.iterate_add_apply] at hstep
      rw [hticks, hquantum] at hticks'
      have hdiv : ((a.ticksSinceSwitch.toNat + frames.length) % a.ticksPerQuantum.toNat + 1) /
          a.ticksPerQuantum.toNat +
          (a.ticksSinceSwitch.toNat + frames.length) / a.ticksPerQuantum.toNat =
          (a.ticksSinceSwitch.toNat + (frames.length + 1)) / a.ticksPerQuantum.toNat := by
        rw [← Nat.add_mul_div_left _ _ hpos, Nat.add_right_comm, Nat.mod_add_div, Nat.add_assoc]
      rw [hconcat, List.length_append, List.length_singleton, ← hdiv]
      refine ⟨hstep, ?_, hquantum'.trans hquantum⟩
      rw [hticks', Nat.mod_add_mod, Nat.add_assoc]

end Architecture

/-! ## The result -/

/-- The quanta that end in `n` ticks. -/
def Architecture.quanta (a : Architecture) (n : Nat) : Nat :=
  (a.ticksSinceSwitch.toNat + n) / a.ticksPerQuantum.toNat

/-- The turns of `q`, when `n` have ended that went round `order`. -/
def turnsOf (order : List Nat) (n q : Nat) : Nat := n.count (· ≡ order.idxOf q [MOD order.length])

/-- `n` turns have gone round `order`: the one whose turn it is runs, and `total_runtime`
of the others has grown by a quantum for each of their turns, of which nobody has had two
more than another.  Who is not in `order` had none. -/
structure SharesFairly (a a' : Architecture) (order : List Nat) (n : Nat) : Prop where
  current : a'.pcurrent = order[n % order.length]?
  runtime : ∀ q ∈ order, (a'.proc q).totalRuntime =
    (a.proc q).totalRuntime + UInt64.ofNat (a.ticksPerQuantum.toNat * turnsOf order n q)
  fair : ∀ q q', turnsOf order n q ≤ turnsOf order n q' + 1
  others : ∀ q ∉ order, (a'.proc q).totalRuntime = (a.proc q).totalRuntime

end KmOS
