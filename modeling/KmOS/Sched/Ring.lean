/-
# `KmOS.Sched.Ring` — the ring of processes

Processes that are not in the ring are enqueued and arbitrary processes are
removed, in any order.  In every state reached the pointers into the ring are
all null, or `pnext` leads from `plist` through the enqueued processes in order
and back to `plist`, `firstProc` is the last of them and `pcurrent` is one of
them (`process_ring`).
-/
import Mathlib.Data.List.Chain
import Mathlib.Data.List.Perm.Subperm
import KmOS.Lib.Run
import KmOS.Sched.Model

namespace KmOS

open Architecture

/-! ## Statement -/

/-- The scheduler, and the processes that have been enqueued and not been
removed since, in the order they came. -/
structure ProcessRing where
  arch : Architecture
  queue : List Nat

inductive RingCall where
  | enqueue (proc : Nat) (makeCurrent : Bool)
  | remove (proc : Option Nat)

def ringStep (r : ProcessRing) : RingCall → Option ProcessRing
  | .enqueue p makeCurrent =>
      some { arch := r.arch.enqueueProcess p makeCurrent, queue := r.queue ++ [p] }
  | .remove p => do
      let arch ← r.arch.removeProcess p
      some { arch := arch, queue := p.elim r.queue r.queue.erase }

/-- A process that is enqueued is not in the ring, and has an address. -/
def EnqueuesNew (r : ProcessRing) : RingCall → Prop
  | .enqueue p _ => p ∉ r.queue ∧ p < wordSize
  | .remove _ => True

instance (r : ProcessRing) : (c : RingCall) → Decidable (EnqueuesNew r c)
  | .enqueue _ _ => inferInstanceAs (Decidable (_ ∧ _))
  | .remove _ => .isTrue trivial

/-- `p->pnext` is `q`. -/
def Next (a : Architecture) (p q : Nat) : Prop := (a.proc p).pnext = some q

structure RingIntact (r : ProcessRing) : Prop where
  nodup : r.queue.Nodup
  empty : r.queue = [] →
    r.arch.plist = none ∧ r.arch.firstProc = none ∧ r.arch.pcurrent = none
  ring : ∀ first rest, r.queue = first :: rest →
    r.arch.plist = some first ∧
      (first :: rest ++ [first]).IsChain (Next r.arch) ∧
      r.arch.firstProc = (first :: rest).getLast? ∧
      ∃ current ∈ first :: rest, r.arch.pcurrent = some current
  remove : ∀ p, ∃ arch, r.arch.removeProcess p = some arch
  absent : ∀ p, (∀ q ∈ r.queue, p ≠ some q) → r.arch.removeProcess p = some r.arch

namespace Architecture

variable {a a' : Architecture} {p q first : Nat} {ps l : List Nat}

/-! ## Links -/

theorem pnext_setPNext (v : Option Nat) (b : Nat) :
    ((a.setPNext p v).proc b).pnext = if b = p then v else (a.proc b).pnext := by
  unfold setPNext modify
  by_cases hb : b = p
  · subst hb
    rw [if_pos rfl]
    exact congrArg Process.pnext (Function.update_self b _ a.proc)
  · rw [if_neg hb]
    exact congrArg Process.pnext (Function.update_of_ne hb _ a.proc)

theorem pnext_modify (a : Architecture) (p : Nat) (f : Process → Process)
    (hf : ∀ x, (f x).pnext = x.pnext) (b : Nat) :
    ((a.modify p f).proc b).pnext = (a.proc b).pnext := by
  unfold modify
  by_cases hb : b = p
  · subst hb
    exact (congrArg Process.pnext (Function.update_self b _ a.proc)).trans (hf _)
  · exact congrArg Process.pnext (Function.update_of_ne hb _ a.proc)

theorem pnext_setState (a : Architecture) (p : Nat) (st : UInt8) (b : Nat) :
    ((a.setState p st).proc b).pnext = (a.proc b).pnext :=
  pnext_modify a p (fun x => { x with state := st }) (fun _ => rfl) b

/-- A chain reads the links of all its nodes but the last. -/
theorem chain_congr (h : (l ++ [q]).IsChain (Next a))
    (hag : ∀ b ∈ l, (a'.proc b).pnext = (a.proc b).pnext) : (l ++ [q]).IsChain (Next a') := by
  induction l with
  | nil => exact List.isChain_singleton q
  | cons b l ih =>
      obtain ⟨hb, hl⟩ := List.isChain_cons.mp h
      refine List.isChain_cons.mpr ⟨fun c hc => ?_, ih hl (fun c hc => hag c (List.mem_cons_of_mem b hc))⟩
      exact (hag b List.mem_cons_self).trans (hb c hc)

/-! ## The invariant -/

/-- The pointers into the ring, and the ring itself. -/
structure Ringed (a : Architecture) (ps : List Nat) : Prop where
  nodup : ps.Nodup
  word : ∀ p ∈ ps, p < wordSize
  plist : a.plist = ps.head?
  firstProc : a.firstProc = ps.getLast?
  chain : ∀ first, ps.head? = some first → (ps ++ [first]).IsChain (Next a)
  current : if ps = [] then a.pcurrent = none else ∃ c ∈ ps, a.pcurrent = some c

theorem Ringed.length_le (h : Ringed a ps) : ps.length ≤ turns := by
  have hsub : ps ⊆ List.range wordSize := fun p hp => List.mem_range.mpr (h.word p hp)
  have hlen := (h.nodup.subperm hsub).length_le
  rwa [List.length_range] at hlen

/-! ## Enqueueing -/

theorem preempt_links (b : Nat) : ((a.preempt p).proc b).pnext = (a.proc b).pnext ∧
    (a.preempt p).plist = a.plist ∧ (a.preempt p).firstProc = a.firstProc := by
  unfold preempt
  split
  · split
    · exact ⟨pnext_setState a _ _ b, rfl, rfl⟩
    · exact ⟨rfl, rfl, rfl⟩
  · exact ⟨rfl, rfl, rfl⟩

theorem link_pcurrent (p : Nat) : (a.link p).pcurrent = a.pcurrent := by
  unfold link
  split
  · rfl
  · dsimp only
    split <;> rfl

/-- Only the first half of `enqueue_process` edits the ring. -/
theorem enqueueProcess_links (p : Nat) (makeCurrent : Bool) :
    (∀ b, ((a.enqueueProcess p makeCurrent).proc b).pnext = ((a.link p).proc b).pnext) ∧
      (a.enqueueProcess p makeCurrent).plist = (a.link p).plist ∧
      (a.enqueueProcess p makeCurrent).firstProc = (a.link p).firstProc ∧
      (a.enqueueProcess p makeCurrent).pcurrent =
        if makeCurrent = true ∨ a.pcurrent = none then some p else a.pcurrent := by
  unfold enqueueProcess
  dsimp only
  rw [link_pcurrent]
  split
  · refine ⟨fun b => ?_, ?_, ?_, rfl⟩
    · exact (pnext_modify ((a.link p).preempt p) p
        (fun x => { x with state := Process.running, lastScheduled := a.systemTicks, timeSlice := 0 })
        (fun _ => rfl) b).trans (preempt_links (a := a.link p) (p := p) b).1
    · exact (preempt_links (a := a.link p) (p := p) p).2.1
    · exact (preempt_links (a := a.link p) (p := p) p).2.2
  · exact ⟨fun b => pnext_setState (a.link p) p _ b, rfl, rfl, link_pcurrent p⟩

/-- The first process of a ring leads to itself, a further one to the first. -/
theorem Ringed.link (h : Ringed a ps) (hp : p ∉ ps) :
    (a.link p).plist = (ps ++ [p]).head? ∧ (a.link p).firstProc = (ps ++ [p]).getLast? ∧
      ∀ first, (ps ++ [p]).head? = some first → (ps ++ [p] ++ [first]).IsChain (Next (a.link p)) := by
  unfold Architecture.link
  cases ps with
  | nil =>
      rw [show a.plist = none from h.plist]
      refine ⟨rfl, rfl, fun first hf => ?_⟩
      have hpf : p = first := Option.some.inj hf
      subst hpf
      exact List.isChain_pair.mpr ((pnext_setPNext _ p).trans (if_pos rfl))
  | cons head rest =>
      obtain ⟨l, last, hl⟩ := (List.eq_nil_or_concat' (head :: rest)).resolve_left nofun
      have hlast : (head :: rest).getLast? = some last := by rw [hl]; simp
      have hpl : a.plist = some head := h.plist
      have hfp : a.firstProc = some last := h.firstProc.trans hlast
      rw [hpl]
      dsimp only
      rw [show (a.setPNext p (some head)).firstProc = some last from hfp]
      refine ⟨hpl, by rw [List.getLast?_concat], fun first hf => ?_⟩
      have hfirst : head = first := Option.some.inj hf
      subst hfirst
      have hlp : last ≠ p := by
        intro e
        rw [hl, e] at hp
        simp at hp
      -- who leads where afterwards
      have hnext : ∀ b, (((a.setPNext p (some head)).setPNext last (some p)).proc b).pnext =
          if b = last then some p else if b = p then some head else (a.proc b).pnext := by
        intro b
        rw [pnext_setPNext, pnext_setPNext]
      have hchain := h.chain head rfl
      have hnd := h.nodup
      rw [hl] at hchain hnd hp ⊢
      have hinit : (l ++ [last]).IsChain (Next a) := (List.isChain_append.mp hchain).1
      have hchain' : (l ++ [last]).IsChain
          (Next ((a.setPNext p (some head)).setPNext last (some p))) := by
        refine chain_congr hinit (fun b hb => ?_)
        have hb₁ : b ≠ last := fun e =>
          (List.nodup_append.mp hnd).2.2 b hb last (List.mem_singleton_self last) e
        have hb₂ : b ≠ p := fun e => hp (e ▸ List.mem_append_left _ hb)
        rw [hnext, if_neg hb₁, if_neg hb₂]
      rw [List.append_assoc, List.append_assoc]
      rw [show l ++ ([last] ++ ([p] ++ [head])) = l ++ last :: p :: [head] from rfl,
        List.isChain_append_cons_cons]
      refine ⟨hchain', ?_, List.isChain_pair.mpr ?_⟩
      · exact (hnext last).trans (if_pos rfl)
      · exact (hnext p).trans (by rw [if_neg (Ne.symm hlp), if_pos rfl])

/-- **`enqueue_process`.** -/
theorem Ringed.enqueue (h : Ringed a ps) (hp : p ∉ ps) (hw : p < wordSize) (makeCurrent : Bool) :
    Ringed (a.enqueueProcess p makeCurrent) (ps ++ [p]) := by
  obtain ⟨hnext, hpl, hfp, hcur⟩ := enqueueProcess_links (a := a) p makeCurrent
  obtain ⟨hpl', hfp', hchain⟩ := h.link hp
  refine ⟨?_, ?_, hpl.trans hpl', hfp.trans hfp', ?_, ?_⟩
  · refine List.nodup_append.mpr ⟨h.nodup, List.nodup_singleton p, fun b hb c hc e => hp ?_⟩
    rw [← List.mem_singleton.mp hc, ← e]
    exact hb
  · intro b hb
    rcases List.mem_append.mp hb with hb | hb
    · exact h.word b hb
    · rw [List.mem_singleton.mp hb]
      exact hw
  · exact fun first hf => chain_congr (hchain first hf) (fun b _ => hnext b)
  · rw [if_neg (by simp), hcur]
    split
    · exact ⟨p, by simp, rfl⟩
    · next hno =>
        have hcurrent := h.current
        split at hcurrent
        · exact absurd (Or.inr hcurrent) hno
        · obtain ⟨c, hc, hac⟩ := hcurrent
          exact ⟨c, List.mem_append_left _ hc, hac⟩

/-! ## Looking for the process before -/

theorem tailLoop_eq {c fuel : Nat} (hp : a.plist = some first)
    (hchain : (c :: l ++ [first]).IsChain (Next a)) (hfirst : first ∉ l) (hfuel : l.length < fuel) :
    a.tailLoop fuel c = (c :: l).getLast? := by
  induction l generalizing c fuel with
  | nil =>
      cases fuel with
      | zero => exact absurd hfuel (Nat.not_lt_zero _)
      | succ fuel =>
          have hc : Next a c first := List.isChain_pair.mp hchain
          unfold tailLoop
          rw [show (a.proc c).pnext = some first from hc, hp, if_pos rfl]
          rfl
  | cons d l ih =>
      cases fuel with
      | zero => exact absurd hfuel (Nat.not_lt_zero _)
      | succ fuel =>
          obtain ⟨hc, hrest⟩ := List.isChain_cons_cons.mp hchain
          have hd : ¬(some d = some first) := fun e => hfirst (Option.some.inj e ▸ List.mem_cons_self)
          have hc' : (a.proc c).pnext = some d := hc
          unfold tailLoop
          rw [hc', hp, if_neg hd, List.getLast?_cons_cons]
          exact ih hrest (fun e => hfirst (List.mem_cons_of_mem d e)) (Nat.lt_of_succ_lt_succ hfuel)

/-- One turn of the loop, away from the target. -/
theorem findPreviousLoop_step {cursor d fuel : Nat} {prev : Option Nat} (hp : a.plist = some first)
    (hd : d ≠ first) (hne : cursor ≠ q) (hn : Next a cursor d) :
    a.findPreviousLoop q (fuel + 1) cursor prev = a.findPreviousLoop q fuel d (some cursor) := by
  have hn' : (a.proc cursor).pnext = some d := hn
  have hd' : ¬(some first = some d) := fun e => hd (Option.some.inj e).symm
  conv_lhs => unfold findPreviousLoop
  rw [if_neg hne, hn', hp]
  exact if_neg hd'

theorem findPreviousLoop_absent {cursor fuel : Nat} {prev : Option Nat} (hp : a.plist = some first)
    (hchain : (cursor :: l ++ [first]).IsChain (Next a)) (hfirst : first ∉ l)
    (hq : q ∉ cursor :: l) (hfuel : l.length < fuel) :
    a.findPreviousLoop q fuel cursor prev = some none := by
  induction l generalizing cursor prev fuel with
  | nil =>
      cases fuel with
      | zero => exact absurd hfuel (Nat.not_lt_zero _)
      | succ fuel =>
          have hc : Next a cursor first := List.isChain_pair.mp hchain
          have hne : cursor ≠ q := fun e => hq (List.mem_singleton.mpr e.symm)
          unfold findPreviousLoop
          rw [if_neg hne, show (a.proc cursor).pnext = some first from hc, hp]
          exact if_pos rfl
  | cons d l ih =>
      cases fuel with
      | zero => exact absurd hfuel (Nat.not_lt_zero _)
      | succ fuel =>
          obtain ⟨hc, hrest⟩ := List.isChain_cons_cons.mp hchain
          have hd : d ≠ first := fun e => hfirst (List.mem_cons.mpr (Or.inl e.symm))
          have hne : cursor ≠ q := fun e => hq (List.mem_cons.mpr (Or.inl e.symm))
          rw [findPreviousLoop_step hp hd hne hc]
          exact ih hrest (fun e => hfirst (List.mem_cons_of_mem d e))
            (fun e => hq (List.mem_cons_of_mem cursor e)) (Nat.lt_of_succ_lt_succ hfuel)

theorem findPreviousLoop_later {cursor fuel : Nat} {o : Option Nat} (hp : a.plist = some first)
    (hchain : (cursor :: l ++ [first]).IsChain (Next a)) (hfirst : first ∉ l)
    (hnd : (cursor :: l).Nodup) (hq : q ∈ l) (hfuel : l.length < fuel) :
    ∃ before pre post, a.findPreviousLoop q fuel cursor o = some (some before) ∧
      cursor :: l = pre ++ before :: q :: post := by
  induction l generalizing cursor o fuel with
  | nil => exact nomatch hq
  | cons d l ih =>
      cases fuel with
      | zero => exact absurd hfuel (Nat.not_lt_zero _)
      | succ fuel =>
          obtain ⟨hc, hrest⟩ := List.isChain_cons_cons.mp hchain
          obtain ⟨hcl, hnd'⟩ := List.nodup_cons.mp hnd
          have hd : d ≠ first := fun e => hfirst (List.mem_cons.mpr (Or.inl e.symm))
          have hne : cursor ≠ q := by
            intro e
            rw [e] at hcl
            exact hcl hq
          rw [findPreviousLoop_step hp hd hne hc]
          rcases List.mem_cons.mp hq with rfl | hq
          · refine ⟨cursor, [], l, ?_, rfl⟩
            cases fuel with
            | zero => exact absurd (Nat.lt_of_succ_lt_succ hfuel) (Nat.not_lt_zero _)
            | succ fuel =>
                unfold findPreviousLoop
                exact if_pos rfl
          · obtain ⟨before, pre, post, hb, hl⟩ := ih hrest
              (fun e => hfirst (List.mem_cons_of_mem d e)) hnd' hq (Nat.lt_of_succ_lt_succ hfuel)
            exact ⟨before, cursor :: pre, post, hb, congrArg (cursor :: ·) hl⟩

/-! ## Removing -/

/-- Removing a process that is not in the ring changes nothing. -/
theorem Ringed.remove_absent (h : Ringed a ps) (hp : p ∉ ps) :
    a.removeProcess (some p) = some a := by
  unfold removeProcess
  cases ps with
  | nil =>
      rw [show a.plist = none from h.plist]
  | cons first rest =>
      have hpl : a.plist = some first := h.plist
      have hfirst : first ∉ rest := (List.nodup_cons.mp h.nodup).1
      have hfind : a.findPrevious p = some none := by
        unfold findPrevious
        rw [hpl]
        exact findPreviousLoop_absent hpl (h.chain first rfl) hfirst hp h.length_le
      have hne : ¬(p = first ∧ (a.proc p).pnext = some p) :=
        fun e => hp (List.mem_cons.mpr (Or.inl e.1))
      rw [hpl]
      dsimp only
      rw [if_neg hne, hfind]
      rfl

theorem Ringed.remove_null (h : Ringed a ps) : a.removeProcess none = some a := by
  unfold removeProcess
  cases ps with
  | nil => rw [show a.plist = none from h.plist]
  | cons first rest => rw [show a.plist = some first from h.plist]

/-- The only process. -/
theorem Ringed.remove_only (h : Ringed a [p]) :
    ∃ a', a.removeProcess (some p) = some a' ∧ Ringed a' [] := by
  have hpl : a.plist = some p := h.plist
  have hself : Next a p p := List.isChain_pair.mp (h.chain p rfl)
  unfold removeProcess
  rw [hpl]
  dsimp only
  rw [if_pos ⟨rfl, hself⟩]
  refine ⟨_, rfl, List.nodup_nil, nofun, rfl, rfl, nofun, ?_⟩
  rw [if_pos rfl]
  have hcur := h.current
  rw [if_neg nofun] at hcur
  obtain ⟨c, hc, hac⟩ := hcur
  rw [List.mem_singleton.mp hc] at hac
  exact if_pos hac

theorem pnext_bypass {before : Nat} {next : Option Nat} (b : Nat) :
    ((a.bypass p before next).proc b).pnext =
      if b = p then none else if b = before then next else (a.proc b).pnext := by
  unfold bypass
  dsimp only
  rw [pnext_setPNext]
  exact if_congr Iff.rfl rfl (pnext_setPNext next b)

theorem bypass_pointers (a : Architecture) (p before : Nat) (next : Option Nat) :
    (a.bypass p before next).plist = (if a.plist = some p then next else a.plist) ∧
      (a.bypass p before next).firstProc =
        (if a.firstProc = some p then some before else a.firstProc) ∧
      (a.bypass p before next).pcurrent = if a.pcurrent = some p then next else a.pcurrent :=
  ⟨rfl, rfl, rfl⟩

/-- The current process is never the one taken out: its successor is current
then. -/
theorem Ringed.current_bypass {before n : Nat} {qs : List Nat} (h : Ringed a ps) (hne : ps ≠ [])
    (hpn : (a.proc p).pnext = some n) (hn : n ∈ qs) (hqs : ∀ c ∈ ps, c ≠ p → c ∈ qs) :
    ∃ c ∈ qs, (a.bypass p before (a.proc p).pnext).pcurrent = some c := by
  obtain ⟨_, _, hcur⟩ := bypass_pointers a p before (a.proc p).pnext
  have hcurrent := h.current
  rw [if_neg hne] at hcurrent
  obtain ⟨c, hc, hac⟩ := hcurrent
  rw [hcur, hpn]
  by_cases hcp : c = p
  · exact ⟨n, hn, if_pos (hcp ▸ hac)⟩
  · refine ⟨c, hqs c hc hcp, ?_⟩
    rw [hac, if_neg (fun e => hcp (Option.some.inj e))]

/-- In a list without repetition `p` is none of the others, and the one before
it stands once. -/
theorem nodup_behind {before : Nat} {pre post : List Nat}
    (hnd : (pre ++ before :: p :: post).Nodup) :
    p ∉ pre ∧ p ≠ before ∧ p ∉ post ∧ before ∉ pre ∧ before ∉ post := by
  rw [List.nodup_append, List.nodup_cons, List.nodup_cons] at hnd
  obtain ⟨_, ⟨hb, hp, _⟩, hne⟩ := hnd
  exact ⟨fun e => hne p e p (by simp) rfl, fun e => hb (e ▸ List.mem_cons_self), hp,
    fun e => hne before e before (by simp) rfl, fun e => hb (List.mem_cons_of_mem p e)⟩

/-- The last process, when `p` behind `before` is taken out. -/
theorem getLast?_bypass {before : Nat} {pre post : List Nat} (hp : p ∉ post) :
    (if (pre ++ before :: p :: post).getLast? = some p then some before
      else (pre ++ before :: p :: post).getLast?) = (pre ++ before :: post).getLast? := by
  cases post with
  | nil => rw [if_pos (by simp), List.getLast?_concat]
  | cons c post =>
      obtain ⟨x, hx⟩ : ∃ x, (c :: post).getLast? = some x :=
        ⟨_, List.getLast?_eq_some_getLast (List.cons_ne_nil _ _)⟩
      have hxp : ¬(some x = some p) := fun e => hp (List.mem_of_mem_getLast? (hx.trans e))
      have hlast : (pre ++ before :: p :: c :: post).getLast? = some x := by simp [hx]
      have hlast' : (pre ++ before :: c :: post).getLast? = some x := by simp [hx]
      rw [hlast, hlast', if_neg hxp]

/-- A process behind another is taken out. -/
theorem Ringed.bypass_later {before : Nat} {pre post : List Nat}
    (h : Ringed a (pre ++ before :: p :: post)) :
    Ringed (a.bypass p before (a.proc p).pnext) (pre ++ before :: post) := by
  have hnd := h.nodup
  obtain ⟨first, hhead⟩ : ∃ first, (pre ++ before :: post).head? = some first ∧
      (pre ++ before :: p :: post).head? = some first ∧ first ∈ pre ++ [before] := by
    cases pre with
    | nil => exact ⟨before, rfl, rfl, List.mem_singleton_self before⟩
    | cons b pre => exact ⟨b, rfl, rfl, List.mem_cons_self⟩
  obtain ⟨hhead', hhead, hfirst⟩ := hhead
  have hchain := h.chain first hhead
  rw [List.append_assoc, List.cons_append, List.cons_append,
    List.isChain_append_cons_cons] at hchain
  obtain ⟨hpre, _, hpost⟩ := hchain
  obtain ⟨hp₁, hp₂, hp₃, hb₁, hb₂⟩ := nodup_behind hnd
  obtain ⟨hpl, hfp, _⟩ := bypass_pointers a p before (a.proc p).pnext
  have hsub : (pre ++ before :: post).Sublist (pre ++ before :: p :: post) :=
    (List.Sublist.refl pre).append ((List.sublist_cons_self p post).cons_cons before)
  -- the process after `p`
  obtain ⟨n, tl, htl⟩ : ∃ n tl, post ++ [first] = n :: tl := by
    cases post with
    | nil => exact ⟨first, [], rfl⟩
    | cons c post => exact ⟨c, post ++ [first], rfl⟩
  have hpn : (a.proc p).pnext = some n := by
    rw [htl] at hpost
    exact (List.isChain_cons_cons.mp hpost).1
  have hnmem : n ∈ pre ++ before :: post := by
    have : n ∈ post ++ [first] := htl ▸ List.mem_cons_self
    rcases List.mem_append.mp this with hn | hn
    · exact List.mem_append_right _ (List.mem_cons_of_mem before hn)
    · rw [List.mem_singleton.mp hn]
      exact List.mem_of_mem_head? hhead'
  refine ⟨hsub.nodup hnd, fun b hb => h.word b (hsub.subset hb), ?_, ?_, ?_, ?_⟩
  · have hne : first ≠ p := by
      intro e
      rcases List.mem_append.mp hfirst with hf | hf
      · exact hp₁ (e ▸ hf)
      · exact hp₂ (e ▸ List.mem_singleton.mp hf)
    rw [hpl, h.plist, hhead, hhead', if_neg (fun e => hne (Option.some.inj e))]
  · rw [hfp, h.firstProc]
    exact getLast?_bypass hp₃
  · intro f hf
    have hff : first = f := Option.some.inj (hhead'.symm.trans hf)
    subst hff
    rw [List.append_assoc, List.cons_append, htl, List.isChain_append_cons_cons]
    refine ⟨?_, ?_, ?_⟩
    · refine chain_congr hpre (fun b hb => ?_)
      have hbp : b ≠ p := fun e => hp₁ (e ▸ hb)
      have hbb : b ≠ before := fun e => hb₁ (e ▸ hb)
      rw [pnext_bypass, if_neg hbp, if_neg hbb]
    · refine (pnext_bypass before).trans ?_
      rw [if_neg (Ne.symm hp₂), if_pos rfl, hpn]
    · rw [← htl]
      refine chain_congr ((List.isChain_cons.mp hpost).2) (fun b hb => ?_)
      have hbp : b ≠ p := fun e => hp₃ (e ▸ hb)
      have hbb : b ≠ before := fun e => hb₂ (e ▸ hb)
      rw [pnext_bypass, if_neg hbp, if_neg hbb]
  · rw [if_neg (by simp)]
    refine h.current_bypass (by simp) hpn hnmem (fun c hc hcp => ?_)
    rcases List.mem_append.mp hc with hc | hc
    · exact List.mem_append_left _ hc
    · rcases List.mem_cons.mp hc with rfl | hc
      · exact List.mem_append_right _ List.mem_cons_self
      · exact List.mem_append_right _
          (List.mem_cons_of_mem before ((List.mem_cons.mp hc).resolve_left hcp))

/-- The first process is taken out, with others behind it. -/
theorem Ringed.bypass_first {last : Nat} {rest : List Nat}
    (h : Ringed a (p :: q :: rest)) (hlast : (q :: rest).getLast? = some last) :
    Ringed (a.bypass p last (a.proc p).pnext) (q :: rest) := by
  obtain ⟨hp, hnd⟩ := List.nodup_cons.mp h.nodup
  obtain ⟨hpq, hchain⟩ := List.isChain_cons_cons.mp (h.chain p rfl)
  obtain ⟨hpl, hfp, _⟩ := bypass_pointers a p last (a.proc p).pnext
  have hpn : (a.proc p).pnext = some q := hpq
  have hlp : last ≠ p := fun e => hp (e ▸ List.mem_of_mem_getLast? hlast)
  refine ⟨hnd, fun b hb => h.word b (List.mem_cons_of_mem p hb), ?_, ?_, ?_, ?_⟩
  · rw [hpl, h.plist, List.head?_cons, if_pos rfl, hpn]
    rfl
  · have hlast' : (p :: q :: rest).getLast? = some last := by
      rw [List.getLast?_cons_cons]
      exact hlast
    rw [hfp, h.firstProc, hlast', hlast, if_neg (fun e => hlp (Option.some.inj e))]
  · intro f hf
    have hqf : q = f := Option.some.inj hf
    subst hqf
    obtain ⟨l, c, hl⟩ := (List.eq_nil_or_concat' (q :: rest)).resolve_left nofun
    have hc : c = last := by
      rw [hl, List.getLast?_concat] at hlast
      exact Option.some.inj hlast
    subst hc
    have hchain' : ((q :: rest) ++ [p]).IsChain (Next a) := hchain
    rw [hl] at hchain' hp hnd ⊢
    have hinit := (List.isChain_append.mp hchain').1
    rw [List.append_assoc, show l ++ ([c] ++ [q]) = l ++ c :: [q] from rfl,
      List.isChain_append_cons_cons]
    refine ⟨?_, ?_, List.isChain_singleton q⟩
    · refine chain_congr hinit (fun b hb => ?_)
      have hbc : b ≠ c := fun e =>
        (List.nodup_append.mp hnd).2.2 b hb c (List.mem_singleton_self c) e
      have hbp : b ≠ p := fun e => hp (e ▸ List.mem_append_left _ hb)
      rw [pnext_bypass, if_neg hbp, if_neg hbc]
    · refine (pnext_bypass c).trans ?_
      rw [if_neg hlp, if_pos rfl, hpn]
  · rw [if_neg nofun]
    exact h.current_bypass nofun hpn List.mem_cons_self
      (fun c hc hcp => (List.mem_cons.mp hc).resolve_left hcp)

/-- A process of the ring is its only one, or there is one before it. -/
theorem Ringed.remove_cases (h : Ringed a ps) (hp : p ∈ ps) :
    ps = [p] ∨
      ∃ before ∈ ps, a.removeProcess (some p) = some (a.bypass p before (a.proc p).pnext) ∧
        Ringed (a.bypass p before (a.proc p).pnext) (ps.erase p) := by
  cases ps with
  | nil => exact nomatch hp
  | cons first rest =>
      have hpl : a.plist = some first := h.plist
      have hlen := h.length_le
      obtain ⟨hfirst, _⟩ := List.nodup_cons.mp h.nodup
      by_cases hpf : p = first
      · subst hpf
        rw [List.erase_cons_head]
        cases rest with
        | nil => exact Or.inl rfl
        | cons q rest =>
            obtain ⟨last, hlast⟩ : ∃ last, (q :: rest).getLast? = some last :=
              ⟨_, List.getLast?_eq_some_getLast (List.cons_ne_nil _ _)⟩
            refine Or.inr ⟨last, List.mem_cons_of_mem p (List.mem_of_mem_getLast? hlast), ?_,
              h.bypass_first hlast⟩
            have hpq : Next a p q := (List.isChain_cons_cons.mp (h.chain p rfl)).1
            have hne : ¬(p = p ∧ (a.proc p).pnext = some p) := by
              intro e
              rw [show (a.proc p).pnext = some q from hpq] at e
              exact hfirst (Option.some.inj e.2 ▸ List.mem_cons_self)
            have hfind : a.findPrevious p = some (some last) := by
              obtain ⟨n, hn⟩ : ∃ n, turns = n + 1 := ⟨4294967295, rfl⟩
              have htail := tailLoop_eq hpl (h.chain p rfl) hfirst hlen
              rw [List.getLast?_cons_cons, hlast] at htail
              unfold findPrevious
              rw [hpl]
              dsimp only
              rw [hn] at htail ⊢
              unfold findPreviousLoop
              rw [if_pos rfl]
              dsimp only
              rw [hn, htail]
              rfl
            unfold removeProcess
            rw [hpl]
            dsimp only
            rw [if_neg hne, hfind]
            rfl
      · have hprest : p ∈ rest := (List.mem_cons.mp hp).resolve_left hpf
        obtain ⟨before, pre, post, hfind, hl⟩ := findPreviousLoop_later (o := none) hpl
          (h.chain first rfl) hfirst h.nodup hprest hlen
        have hfind' : a.findPrevious p = some (some before) := by
          unfold findPrevious
          rw [hpl]
          exact hfind
        have hnd := h.nodup
        rw [hl] at h hnd ⊢
        have herase : (pre ++ before :: p :: post).erase p = pre ++ before :: post := by
          rw [List.nodup_append, List.nodup_cons] at hnd
          obtain ⟨_, ⟨hb, _⟩, hne⟩ := hnd
          have hbp : before ≠ p := by
            intro e
            rw [e] at hb
            exact hb List.mem_cons_self
          rw [List.erase_append_right _ (fun e => hne p e p (by simp) rfl),
            List.erase_cons_tail (by simpa using hbp), List.erase_cons_head]
        rw [herase]
        refine Or.inr ⟨before, by simp, ?_, h.bypass_later⟩
        unfold removeProcess
        rw [hpl]
        dsimp only
        rw [if_neg (fun e => hpf e.1), hfind']
        rfl

/-- **`remove_process`.** -/
theorem Ringed.remove (h : Ringed a ps) (hp : p ∈ ps) :
    ∃ a', a.removeProcess (some p) = some a' ∧ Ringed a' (ps.erase p) := by
  rcases h.remove_cases hp with rfl | ⟨_, _, ha, h'⟩
  · rw [List.erase_cons_head]
    exact h.remove_only
  · exact ⟨_, ha, h'⟩

end Architecture

/-! ## Runs -/

/-- **One call.** -/
theorem ringed_step {r r' : ProcessRing} {c : RingCall} (h : Ringed r.arch r.queue)
    (hok : EnqueuesNew r c) (hs : ringStep r c = some r') : Ringed r'.arch r'.queue := by
  cases c with
  | enqueue p makeCurrent =>
      obtain rfl := Option.some.inj hs
      exact h.enqueue hok.1 hok.2 makeCurrent
  | remove p =>
      cases p with
      | none =>
          simp only [ringStep] at hs
          rw [h.remove_null] at hs
          obtain rfl := Option.some.inj hs
          exact h
      | some p =>
          simp only [ringStep] at hs
          by_cases hp : p ∈ r.queue
          · obtain ⟨a', ha, h'⟩ := h.remove hp
            rw [ha] at hs
            obtain rfl := Option.some.inj hs
            exact h'
          · rw [h.remove_absent hp] at hs
            obtain rfl := Option.some.inj hs
            show Ringed r.arch (r.queue.erase p)
            rw [List.erase_of_not_mem hp]
            exact h

theorem ringed_init (a : Architecture) : Ringed a.init [] :=
  ⟨List.nodup_nil, nofun, rfl, rfl, nofun, rfl⟩

/-- **The ring of processes** is intact in every state that enqueueing and
removing can reach. -/
theorem process_ring {a : Architecture} {r : ProcessRing}
    (h : Reaches ringStep EnqueuesNew { arch := a.init, queue := [] } r) : RingIntact r := by
  have hr : Ringed r.arch r.queue := by
    refine h.invariant (I := fun r => Ringed r.arch r.queue) (ringed_init a) ?_
    intro s c s' hs hok hstep
    exact ringed_step hs hok hstep
  refine ⟨hr.nodup, ?_, ?_, ?_, ?_⟩
  · intro hnil
    have hpl := hr.plist
    have hfp := hr.firstProc
    have hcur := hr.current
    rw [hnil] at hpl hfp
    rw [if_pos hnil] at hcur
    exact ⟨hpl, hfp, hcur⟩
  · intro first rest hq
    have hpl := hr.plist
    have hfp := hr.firstProc
    have hcur := hr.current
    have hchain := hr.chain
    rw [hq] at hpl hfp hcur hchain
    rw [if_neg nofun] at hcur
    exact ⟨hpl, hchain first rfl, hfp, hcur⟩
  · intro p
    cases p with
    | none => exact ⟨_, hr.remove_null⟩
    | some p =>
        by_cases hp : p ∈ r.queue
        · obtain ⟨a', ha, _⟩ := hr.remove hp
          exact ⟨a', ha⟩
        · exact ⟨_, hr.remove_absent hp⟩
  · intro p hp
    cases p with
    | none => exact hr.remove_null
    | some p => exact hr.remove_absent (fun hm => hp p hm rfl)

/-- Three processes, of which the first, then the last is removed. -/
theorem process_ring_of_three :
    ∃ r : ProcessRing, r.queue = [0x200] ∧ r.arch.pcurrent = some 0x200 ∧ RingIntact r := by
  obtain ⟨r, hr, hp⟩ := Reaches.of_checked_script ringStep EnqueuesNew
    { arch := zeroed.init, queue := [] }
    (fun r => decide (r.queue = [0x200] ∧ r.arch.pcurrent = some 0x200))
    [.enqueue 0x100 false, .enqueue 0x200 false, .enqueue 0x300 true, .remove (some 0x400),
      .remove (some 0x100), .remove (some 0x300)]
    (by decide +kernel)
  obtain ⟨hq, hc⟩ := of_decide_eq_true hp
  exact ⟨r, hq, hc, process_ring hr⟩

end KmOS
