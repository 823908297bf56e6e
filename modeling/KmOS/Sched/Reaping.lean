/-
# `KmOS.Sched.Reaping` — who is reaped?

## What is proved

On every ring `destroy_all_zombie` comes back, and the ring is then

    the ring less its first process,   when that one is not idle and has state 1
    the ring less every such process,  otherwise

(`destroyAllZombie_ring`).  It has therefore removed the processes that have
exited, and no other, exactly on the rings of `ReapsExactly`
(`reaping_iff`).

## What is not

The loop stops when it is back at the head of the list.  A head that is removed
has its successor for the head, and that is where the cursor goes next, so the
loop stops there: of two exited processes at the head the second stays.  And
the state it asks for is 1, which is `RUNNING` as well as `ZOMBIE`: a process
that is running and has not exited is reaped.
-/
import Mathlib.Data.List.Dedup
import KmOS.Sched.Ring

namespace KmOS

open Architecture Process

/-! ## Statement -/

/-- `p` is one that the loop removes. -/
def Reapable (a : Architecture) (p : Nat) : Prop :=
  a.idleProcess ≠ some p ∧ (a.proc p).state = zombie

instance (a : Architecture) (p : Nat) : Decidable (Reapable a p) :=
  inferInstanceAs (Decidable (_ ∧ _))

/-- `p` is one that is to be removed. -/
def Departed (a : Architecture) (exited : Finset Nat) (p : Nat) : Prop :=
  a.idleProcess ≠ some p ∧ p ∈ exited

instance (a : Architecture) (exited : Finset Nat) (p : Nat) : Decidable (Departed a exited p) :=
  inferInstanceAs (Decidable (_ ∧ _))

/-- `destroy_all_zombie` removes the processes on which `exit()` was called
from the ring `ps`, and leaves the others in their order. -/
def Reaps (a : Architecture) (ps : List Nat) (exited : Finset Nat) : Prop :=
  ∃ a', a.destroyAllZombie = some a' ∧ Ringed a' (ps.filter fun p => ¬ Departed a exited p)

/-- The head is removed and is the only one to be, or it is not removed and
state 1 tells who is. -/
def ReapsExactly (a : Architecture) (exited : Finset Nat) : List Nat → Prop
  | [] => True
  | first :: rest =>
      if Reapable a first then first ∈ exited ∧ ∀ p ∈ rest, ¬ Departed a exited p
      else ∀ p ∈ first :: rest, Reapable a p ↔ Departed a exited p

instance (a : Architecture) (exited : Finset Nat) :
    (ps : List Nat) → Decidable (ReapsExactly a exited ps)
  | [] => .isTrue trivial
  | first :: rest =>
      inferInstanceAs (Decidable (if Reapable a first then
        first ∈ exited ∧ ∀ p ∈ rest, ¬ Departed a exited p
        else ∀ p ∈ first :: rest, Reapable a p ↔ Departed a exited p))

/-- What `destroy_all_zombie` leaves of a ring. -/
def spared (a : Architecture) : List Nat → List Nat
  | [] => []
  | first :: rest =>
      if Reapable a first then rest else (first :: rest).filter fun p => ¬ Reapable a p

namespace Architecture

variable {a a' : Architecture} {p first : Nat} {ps vs l : List Nat} {o : Option Nat}

/-! ## What the ring depends on -/

/-- The same pointers into the ring, the same idle process, and the same links
of all processes. -/
structure SameLinks (a a' : Architecture) : Prop where
  pnext : ∀ b, (a'.proc b).pnext = (a.proc b).pnext
  plist : a'.plist = a.plist
  firstProc : a'.firstProc = a.firstProc
  pcurrent : a'.pcurrent = a.pcurrent

theorem SameLinks.refl (a : Architecture) : SameLinks a a := ⟨fun _ => rfl, rfl, rfl, rfl⟩

theorem SameLinks.trans {b c : Architecture} (h : SameLinks a b) (h' : SameLinks b c) :
    SameLinks a c :=
  ⟨fun n => (h'.pnext n).trans (h.pnext n), h'.plist.trans h.plist,
    h'.firstProc.trans h.firstProc, h'.pcurrent.trans h.pcurrent⟩

/-- The ring is the links of its own processes, and the pointers to it. -/
theorem Ringed.congr (h : Ringed a ps) (hn : ∀ b ∈ ps, (a'.proc b).pnext = (a.proc b).pnext)
    (hpl : a'.plist = a.plist) (hfp : a'.firstProc = a.firstProc)
    (hcur : a'.pcurrent = a.pcurrent) : Ringed a' ps := by
  refine ⟨h.nodup, h.word, hpl.trans h.plist, hfp.trans h.firstProc, ?_, ?_⟩
  · exact fun first hf => chain_congr (h.chain first hf) hn
  · rw [hcur]
    exact h.current

theorem Ringed.same (h : Ringed a ps) (hs : SameLinks a a') : Ringed a' ps :=
  h.congr (fun b _ => hs.pnext b) hs.plist hs.firstProc hs.pcurrent

/-- A chain back to its start can be read off the links. -/
theorem chain_unique {k m : List Nat} (hk : (p :: k ++ [first]).IsChain (Next a))
    (hm : (p :: m ++ [first]).IsChain (Next a)) (hfk : first ∉ k) (hfm : first ∉ m) : k = m := by
  induction k generalizing p m with
  | nil =>
      cases m with
      | nil => rfl
      | cons d m =>
          have h₁ : Next a p first := (List.isChain_cons_cons.mp hk).1
          have h₂ : Next a p d := (List.isChain_cons_cons.mp hm).1
          exact absurd (Option.some.inj (h₁.symm.trans h₂) ▸ List.mem_cons_self) hfm
  | cons c k ih =>
      have h₁ : Next a p c := (List.isChain_cons_cons.mp hk).1
      cases m with
      | nil =>
          have h₂ : Next a p first := (List.isChain_cons_cons.mp hm).1
          exact absurd (Option.some.inj (h₂.symm.trans h₁) ▸ List.mem_cons_self) hfk
      | cons d m =>
          have h₂ : Next a p d := (List.isChain_cons_cons.mp hm).1
          obtain rfl : c = d := Option.some.inj (h₁.symm.trans h₂)
          exact congrArg (c :: ·) (ih (List.isChain_cons_cons.mp hk).2
            (List.isChain_cons_cons.mp hm).2 (fun e => hfk (List.mem_cons_of_mem c e))
            (fun e => hfm (List.mem_cons_of_mem c e)))

/-- **There is one ring.** -/
theorem Ringed.unique {qs : List Nat} (h : Ringed a ps) (h' : Ringed a qs) : ps = qs := by
  have hhead : ps.head? = qs.head? := h.plist.symm.trans h'.plist
  cases ps with
  | nil =>
      cases qs with
      | nil => rfl
      | cons q qs => exact nomatch hhead
  | cons p ps =>
      cases qs with
      | nil => exact nomatch hhead
      | cons q qs =>
          obtain rfl : p = q := Option.some.inj hhead
          exact congrArg (p :: ·) (chain_unique (h.chain p rfl) (h'.chain p rfl)
            (List.nodup_cons.mp h.nodup).1 (List.nodup_cons.mp h'.nodup).1)

/-- The process after one of the ring. -/
theorem Ringed.pnext_of_append {pre post : List Nat} (h : Ringed a (pre ++ p :: post))
    (hf : (pre ++ p :: post).head? = some first) :
    (a.proc p).pnext = some ((post ++ [first]).head (by simp)) := by
  have hchain := h.chain first hf
  rw [List.append_assoc] at hchain
  have htail := (List.isChain_append.mp hchain).2.1
  cases post with
  | nil => exact (List.isChain_cons_cons.mp htail).1
  | cons c post => exact (List.isChain_cons_cons.mp htail).1

/-! ## Removing -/

theorem state_setPNext (a : Architecture) (p : Nat) (v : Option Nat) (b : Nat) :
    ((a.setPNext p v).proc b).state = (a.proc b).state := by
  unfold setPNext modify
  by_cases hb : b = p
  · subst hb
    exact (congrArg Process.state (Function.update_self b _ a.proc)).trans rfl
  · exact congrArg Process.state (Function.update_of_ne hb _ a.proc)

/-- The same processes are removed in both. -/
structure SameFates (a a' : Architecture) : Prop where
  state : ∀ b, (a'.proc b).state = (a.proc b).state
  idle : a'.idleProcess = a.idleProcess

theorem SameFates.refl (a : Architecture) : SameFates a a := ⟨fun _ => rfl, rfl⟩

theorem SameFates.trans {b c : Architecture} (h : SameFates a b) (h' : SameFates b c) :
    SameFates a c :=
  ⟨fun n => (h'.state n).trans (h.state n), h'.idle.trans h.idle⟩

theorem SameFates.reapable (h : SameFates a a') (b : Nat) : Reapable a' b ↔ Reapable a b := by
  unfold Reapable
  rw [h.idle, h.state]

theorem SameFates.filter (h : SameFates a a') (l : List Nat) :
    (l.filter fun p => ¬ Reapable a' p) = l.filter fun p => ¬ Reapable a p :=
  List.filter_congr fun b _ => decide_eq_decide.mpr (not_congr (h.reapable b))

theorem bypass_fates (a : Architecture) (p before : Nat) (next : Option Nat) :
    SameFates a (a.bypass p before next) := by
  refine ⟨fun b => ?_, rfl⟩
  unfold bypass
  dsimp only
  rw [state_setPNext]
  exact state_setPNext a before next b

/-- Removing one of the ring leaves the links of those outside. -/
theorem Ringed.remove_frame (h : Ringed a ps) (hp : p ∈ ps) :
    ∃ a', a.removeProcess (some p) = some a' ∧ Ringed a' (ps.erase p) ∧ SameFates a a' ∧
      ∀ b ∉ ps, (a'.proc b).pnext = (a.proc b).pnext := by
  rcases h.remove_cases hp with rfl | ⟨before, hb, ha, h'⟩
  · obtain ⟨a', ha, h'⟩ := h.remove_only
    refine ⟨a', ha, ?_, ?_⟩
    · rw [List.erase_cons_head]
      exact h'
    · have hpl : a.plist = some p := h.plist
      have hself : Next a p p := List.isChain_pair.mp (h.chain p rfl)
      unfold removeProcess at ha
      rw [hpl] at ha
      dsimp only at ha
      rw [if_pos ⟨rfl, hself⟩] at ha
      obtain rfl := Option.some.inj ha
      refine ⟨⟨fun b => state_setPNext _ p none b, rfl⟩, fun b hbp => ?_⟩
      rw [pnext_setPNext, if_neg (fun e => hbp (List.mem_singleton.mpr e))]
  · refine ⟨_, ha, h', bypass_fates a p before _, fun b hbp => ?_⟩
    have h₁ : b ≠ p := fun e => hbp (e ▸ hp)
    have h₂ : b ≠ before := fun e => hbp (e ▸ hb)
    rw [pnext_bypass, if_neg h₁, if_neg h₂]

/-! ## The victims -/

/-- The victims `vs`, linked from `o` on. -/
def Pending (a : Architecture) : Option Nat → List Nat → Prop
  | o, [] => o = none
  | o, v :: vs => o = some v ∧ Pending a (a.proc v).pnext vs

theorem Pending.congr (h : Pending a o vs)
    (hn : ∀ v ∈ vs, (a'.proc v).pnext = (a.proc v).pnext) : Pending a' o vs := by
  induction vs generalizing o with
  | nil => exact h
  | cons v vs ih =>
      refine ⟨h.1, ?_⟩
      rw [hn v List.mem_cons_self]
      exact ih h.2 (fun w hw => hn w (List.mem_cons_of_mem v hw))

/-- The loop of `destroy_all_zombie`: a ring, and the victims beside it. -/
structure Reaping (a : Architecture) (ps : List Nat) (o : Option Nat) (vs : List Nat) : Prop where
  ring : Ringed a ps
  pending : Pending a o vs
  nodup : vs.Nodup
  apart : ∀ v ∈ vs, v ∉ ps
  word : ∀ v ∈ vs, v < wordSize

/-- **One turn.** -/
theorem Reaping.one (h : Reaping a ps o vs) (hp : p ∈ ps) (hr : Reapable a p) :
    ∃ a', a.reapOne p o = some (a', some p) ∧ Reaping a' (ps.erase p) (some p) (p :: vs) ∧
      SameFates a a' := by
  obtain ⟨a₁, ha, h₁, hs, hn⟩ := h.ring.remove_frame hp
  have hnd := h.ring.nodup
  have hpe : p ∉ ps.erase p := fun e => (List.Nodup.mem_erase_iff hnd).mp e |>.1 rfl
  have hpv : p ∉ vs := fun e => h.apart p e hp
  have hlink : ∀ b, b ≠ p → ((a₁.setPNext p o).proc b).pnext = (a₁.proc b).pnext := by
    intro b hb
    rw [pnext_setPNext, if_neg hb]
  refine ⟨a₁.setPNext p o, ?_, ?_, hs.trans ⟨fun b => state_setPNext a₁ p o b, rfl⟩⟩
  · obtain ⟨hi, hz⟩ := hr
    unfold reapOne
    rw [if_pos ⟨hi, hz⟩, ha]
    rfl
  · refine ⟨?_, ⟨rfl, ?_⟩, List.nodup_cons.mpr ⟨hpv, h.nodup⟩, ?_, ?_⟩
    · exact h₁.congr (fun b hb => hlink b (fun e => hpe (e ▸ hb))) rfl rfl rfl
    · rw [pnext_setPNext, if_pos rfl]
      refine h.pending.congr fun v hv => ?_
      rw [hlink v (fun e => hpv (e ▸ hv))]
      exact hn v (h.apart v hv)
    · intro v hv
      rcases List.mem_cons.mp hv with rfl | hv
      · exact hpe
      · exact fun e => h.apart v hv (List.mem_of_mem_erase e)
    · intro v hv
      rcases List.mem_cons.mp hv with rfl | hv
      · exact h.ring.word v hp
      · exact h.word v hv

/-! ## The first loop -/

/-- The rest of a turn: where the cursor goes, and whether it stops there. -/
theorem reapLoop_turn {a₁ : Architecture} {o₁ : Option Nat} {c fuel : Nat}
    (hone : a.reapOne p o = some (a₁, o₁)) (hpl : a₁.plist = some first)
    (hn : (a.proc p).pnext = some c) :
    reapLoop (fuel + 1) a p o =
      if first = c then some (a₁, o₁) else reapLoop fuel a₁ c o₁ := by
  have hne : ¬ a₁.plist = none := fun e => nomatch hpl.symm.trans e
  conv_lhs => unfold reapLoop
  rw [hone]
  dsimp only [Option.bind_eq_bind, Option.bind_some]
  rw [if_neg hne, hn]
  dsimp only
  rw [hpl]
  exact if_congr Option.some_inj rfl rfl

/-- A turn behind a head that is not removed. -/
theorem Reaping.turn {pre post : List Nat} (h : Reaping a (pre ++ p :: post) o vs)
    (hf : (pre ++ [p]).head? = some first) (hfirst : ¬ Reapable a first) :
    ∃ a₁ o₁ vs₁, a.reapOne p o = some (a₁, o₁) ∧ SameFates a a₁ ∧
      Reaping a₁ ((pre ++ [p].filter fun p => ¬ Reapable a p) ++ post) o₁ vs₁ ∧
      (pre ++ [p].filter fun p => ¬ Reapable a p).head? = some first := by
  by_cases hr : Reapable a p
  · have hpre : pre ≠ [] := by
      rintro rfl
      obtain rfl : p = first := Option.some.inj hf
      exact hfirst hr
    obtain ⟨a₁, hone, h₁, hs⟩ := h.one (by simp) hr
    have hp : p ∉ pre := fun e => (List.nodup_append.mp h.ring.nodup).2.2 p e p (by simp) rfl
    rw [List.erase_append_right _ hp, List.erase_cons_head] at h₁
    have hnone : ([p].filter fun p => ¬ Reapable a p) = [] := by simp [hr]
    rw [hnone, List.append_nil]
    refine ⟨a₁, _, _, hone, hs, h₁, ?_⟩
    rwa [List.head?_append_of_ne_nil _ hpre] at hf
  · have hsome : ([p].filter fun p => ¬ Reapable a p) = [p] := by simp [hr]
    rw [hsome]
    refine ⟨a, o, vs, ?_, SameFates.refl a, ?_, hf⟩
    · unfold reapOne
      exact if_neg hr
    · rw [List.append_assoc]
      exact h

/-- **The loop**, where the head is not removed: the cursor sees every process. -/
theorem Reaping.loop {pre post : List Nat} {fuel : Nat} (h : Reaping a (pre ++ p :: post) o vs)
    (hf : (pre ++ [p]).head? = some first) (hfirst : ¬ Reapable a first)
    (hfuel : post.length < fuel) :
    ∃ a' o' vs', reapLoop fuel a p o = some (a', o') ∧
      Reaping a' (pre ++ (p :: post).filter fun p => ¬ Reapable a p) o' vs' := by
  induction post generalizing a o vs pre p fuel with
  | nil =>
      obtain ⟨fuel, rfl⟩ : ∃ n, fuel = n + 1 := ⟨fuel - 1, by omega⟩
      obtain ⟨a₁, o₁, vs₁, hone, _, h₁, hf₁⟩ := h.turn hf hfirst
      rw [List.append_nil] at h₁
      refine ⟨a₁, o₁, vs₁, ?_, h₁⟩
      have hpl : a₁.plist = some first := h₁.ring.plist.trans hf₁
      rw [reapLoop_turn hone hpl (h.ring.pnext_of_append hf)]
      exact if_pos rfl
  | cons c post ih =>
      obtain ⟨fuel, rfl⟩ : ∃ n, fuel = n + 1 := ⟨fuel - 1, by omega⟩
      obtain ⟨a₁, o₁, vs₁, hone, hs, h₁, hf₁⟩ := h.turn hf hfirst
      have hhead : ((pre ++ [p].filter fun p => ¬ Reapable a p) ++ c :: post).head? =
          some first := by rw [List.head?_append, hf₁]; rfl
      have hpl : a₁.plist = some first := h₁.ring.plist.trans hhead
      have hfc : first ≠ c := by
        rintro rfl
        exact (List.nodup_append.mp h₁.ring.nodup).2.2 first (List.mem_of_mem_head? hf₁) first
          List.mem_cons_self rfl
      have hfp : (pre ++ p :: c :: post).head? = some first := by
        rw [List.head?_append] at hf ⊢
        exact hf
      obtain ⟨a', o', vs', hl, h'⟩ := ih h₁ (by rw [List.head?_append, hf₁]; rfl)
        (fun e => hfirst ((hs.reapable first).mp e)) (Nat.lt_of_succ_lt_succ hfuel)
      refine ⟨a', o', vs', ?_, ?_⟩
      · rw [reapLoop_turn hone hpl (h.ring.pnext_of_append hfp)]
        exact (if_neg hfc).trans hl
      · rw [hs.filter, List.append_assoc, ← List.filter_append] at h'
        exact h'

/-- **The loop**, where the head is removed: its successor is the head next, and
the cursor is there already. -/
theorem Reaping.loop_head {rest : List Nat} {fuel : Nat} (h : Reaping a (p :: rest) o vs)
    (hr : Reapable a p) :
    ∃ a' o' vs', reapLoop (fuel + 1) a p o = some (a', o') ∧ Reaping a' rest o' vs' := by
  obtain ⟨a₁, hone, h₁, _⟩ := h.one List.mem_cons_self hr
  rw [List.erase_cons_head] at h₁
  refine ⟨a₁, some p, p :: vs, ?_, h₁⟩
  cases rest with
  | nil =>
      have hpl : a₁.plist = none := h₁.ring.plist
      unfold reapLoop
      rw [hone]
      exact if_pos hpl
  | cons c rest =>
      have hn := (List.isChain_cons_cons.mp (h.ring.chain p rfl)).1
      rw [reapLoop_turn hone h₁.ring.plist hn]
      exact if_pos rfl

/-! ## The second loop -/

/-- One process may get a new father. -/
theorem changeFatherLoop_turn {c d : Nat} (child : Nat) (father : Option Nat) (fuel : Nat)
    (hpl : a.plist = some first) (hn : (a.proc c).pnext = some d) :
    ∃ a₁, SameLinks a a₁ ∧ changeFatherLoop child father (fuel + 1) a c =
      if first = d then some a₁ else changeFatherLoop child father fuel a₁ d := by
  have hs : SameLinks a (if (a.proc c).pparent = some child then
      a.modify c fun p => { p with pparent := father } else a) := by
    split
    · exact ⟨pnext_modify a c _ (fun _ => rfl), rfl, rfl, rfl⟩
    · exact SameLinks.refl a
  refine ⟨_, hs, ?_⟩
  conv_lhs => unfold changeFatherLoop
  dsimp only
  rw [hs.pnext, hn]
  dsimp only
  rw [hs.plist, hpl]
  exact if_congr Option.some_inj rfl rfl

theorem changeFatherLoop_links {child fuel c : Nat} {father : Option Nat}
    (hpl : a.plist = some first) (hchain : (c :: l ++ [first]).IsChain (Next a))
    (hfirst : first ∉ l) (hfuel : l.length < fuel) :
    ∃ a', changeFatherLoop child father fuel a c = some a' ∧ SameLinks a a' := by
  induction l generalizing a c fuel with
  | nil =>
      obtain ⟨fuel, rfl⟩ : ∃ n, fuel = n + 1 := ⟨fuel - 1, by omega⟩
      have hc : Next a c first := (List.isChain_cons_cons.mp hchain).1
      obtain ⟨a₁, hs, hturn⟩ := changeFatherLoop_turn child father fuel hpl hc
      exact ⟨a₁, hturn.trans (if_pos rfl), hs⟩
  | cons d l ih =>
      obtain ⟨fuel, rfl⟩ : ∃ n, fuel = n + 1 := ⟨fuel - 1, by omega⟩
      obtain ⟨hc, hrest⟩ := List.isChain_cons_cons.mp hchain
      obtain ⟨a₁, hs, hturn⟩ := changeFatherLoop_turn child father fuel hpl hc
      have hd : first ≠ d := fun e => hfirst (e ▸ List.mem_cons_self)
      obtain ⟨a', hl, hs'⟩ := ih (hs.plist.trans hpl)
        (chain_congr hrest (fun b _ => hs.pnext b))
        (fun e => hfirst (List.mem_cons_of_mem d e)) (Nat.lt_of_succ_lt_succ hfuel)
      exact ⟨a', hturn.trans ((if_neg hd).trans hl), hs.trans hs'⟩

/-- Deleting a process that is out of the ring edits fathers only. -/
theorem Ringed.delete (h : Ringed a ps) (v : Nat) :
    ∃ a', a.deleteProcess v = some a' ∧ SameLinks a a' := by
  unfold deleteProcess changeProcessFather
  cases ps with
  | nil =>
      rw [show a.plist = none from h.plist]
      exact ⟨a, rfl, SameLinks.refl a⟩
  | cons first rest =>
      have hpl : a.plist = some first := h.plist
      rw [hpl]
      exact changeFatherLoop_links hpl (h.chain first rfl) (List.nodup_cons.mp h.nodup).1
        h.length_le

theorem Reaping.length_le (h : Reaping a ps o vs) : vs.length ≤ turns := by
  have hsub : vs ⊆ List.range wordSize := fun v hv => List.mem_range.mpr (h.word v hv)
  have hlen := (h.nodup.subperm hsub).length_le
  rwa [List.length_range] at hlen

/-- **The second loop** leaves the ring alone. -/
theorem Reaping.cleanup {fuel : Nat} (h : Reaping a ps o vs) (hfuel : vs.length ≤ fuel) :
    ∃ a', cleanupLoop fuel a o = some a' ∧ Ringed a' ps := by
  induction vs generalizing a o fuel with
  | nil =>
      obtain rfl : o = none := h.pending
      refine ⟨a, ?_, h.ring⟩
      unfold cleanupLoop
      rfl
  | cons v vs ih =>
      obtain ⟨fuel, rfl⟩ : ∃ n, fuel = n + 1 := ⟨fuel - 1, by simp at hfuel; omega⟩
      obtain ⟨rfl, hpend⟩ := h.pending
      obtain ⟨hv, hnd⟩ := List.nodup_cons.mp h.nodup
      have hvp : v ∉ ps := h.apart v List.mem_cons_self
      have hlink : ∀ b, b ≠ v → ((a.setPNext v none).proc b).pnext = (a.proc b).pnext := by
        intro b hb
        rw [pnext_setPNext, if_neg hb]
      have h₁ : Ringed (a.setPNext v none) ps :=
        h.ring.congr (fun b hb => hlink b (fun e => hvp (e ▸ hb))) rfl rfl rfl
      obtain ⟨a₂, hdel, hs⟩ := h₁.delete v
      have h₂ : Reaping a₂ ps (a.proc v).pnext vs :=
        { ring := h₁.same hs
          pending := hpend.congr fun w hw =>
            (hs.pnext w).trans (hlink w (fun e => hv (e ▸ hw)))
          nodup := hnd
          apart := fun w hw => h.apart w (List.mem_cons_of_mem v hw)
          word := fun w hw => h.word w (List.mem_cons_of_mem v hw) }
      obtain ⟨a', hl, h'⟩ := ih h₂ (Nat.le_of_succ_le_succ hfuel)
      refine ⟨a', ?_, h'⟩
      unfold cleanupLoop
      dsimp only
      rw [hdel]
      exact hl

/-! ## What is left -/

theorem spared_cons (a : Architecture) (first : Nat) (rest : List Nat) :
    spared a (first :: rest) =
      if Reapable a first then rest else (first :: rest).filter fun p => ¬ Reapable a p := rfl

/-- **`destroy_all_zombie`.** -/
theorem destroyAllZombie_ring (h : Ringed a ps) :
    ∃ a', a.destroyAllZombie = some a' ∧ Ringed a' (spared a ps) := by
  unfold destroyAllZombie
  cases ps with
  | nil =>
      rw [show a.plist = none from h.plist]
      exact ⟨a, rfl, h⟩
  | cons first rest =>
      have hlen := h.length_le
      have h₀ : Reaping a ([] ++ first :: rest) none [] :=
        ⟨h, rfl, List.nodup_nil, nofun, nofun⟩
      have hloop : ∃ a' o' vs', reapLoop turns a first none = some (a', o') ∧
          Reaping a' (spared a (first :: rest)) o' vs' := by
        rw [spared_cons]
        by_cases hr : Reapable a first
        · rw [if_pos hr]
          exact h₀.loop_head hr
        · rw [if_neg hr]
          exact h₀.loop rfl hr hlen
      obtain ⟨a₁, o₁, vs₁, hl, h₁⟩ := hloop
      obtain ⟨a', hc, h'⟩ := h₁.cleanup h₁.length_le
      rw [show a.plist = some first from h.plist]
      dsimp only
      rw [hl]
      exact ⟨a', hc, h'⟩

theorem Ringed.reaps_iff_spared (h : Ringed a ps) (exited : Finset Nat) :
    Reaps a ps exited ↔ spared a ps = ps.filter fun p => ¬ Departed a exited p := by
  obtain ⟨a', ha, h'⟩ := destroyAllZombie_ring h
  constructor
  · rintro ⟨a'', ha'', h''⟩
    obtain rfl := Option.some.inj (ha.symm.trans ha'')
    exact h'.unique h''
  · intro e
    rw [e] at h'
    exact ⟨a', ha, h'⟩

/-- Two conditions filter alike when they agree on the list. -/
theorem filter_eq_filter_iff {P Q : Nat → Prop} [DecidablePred P] [DecidablePred Q] :
    (l.filter fun p => ¬ P p) = (l.filter fun p => ¬ Q p) ↔ ∀ p ∈ l, P p ↔ Q p := by
  constructor
  · intro e p hp
    have hmem : p ∈ (l.filter fun p => ¬ P p) ↔ p ∈ l.filter fun p => ¬ Q p := by rw [e]
    simpa [List.mem_filter, hp, not_iff_not] using hmem
  · exact fun h => List.filter_congr fun p hp => decide_eq_decide.mpr (not_congr (h p hp))

/-- `exit()` leaves the ring as it is. -/
theorem exit_links (a : Architecture) (p : Nat) : SameLinks a (a.exit p) := by
  have h₁ : SameLinks a (a.setState p zombie) := ⟨pnext_setState a p zombie, rfl, rfl, rfl⟩
  unfold Architecture.exit
  cases (a.proc p).pparent with
  | none => exact h₁
  | some parent => exact h₁.trans ⟨pnext_modify _ parent _ (fun _ => rfl), rfl, rfl, rfl⟩

end Architecture

/-! ## The result -/

/-- **Zombie reaping** removes the processes that have exited, and keeps the
others, on the rings of `ReapsExactly` and on no others. -/
theorem reaping_iff {a : Architecture} {ps : List Nat} (h : Ringed a ps) (exited : Finset Nat) :
    Reaps a ps exited ↔ ReapsExactly a exited ps := by
  rw [h.reaps_iff_spared]
  cases ps with
  | nil => exact iff_of_true rfl trivial
  | cons first rest =>
      have hfirst : first ∉ rest := (List.nodup_cons.mp h.nodup).1
      rw [spared_cons]
      unfold ReapsExactly
      dsimp only
      by_cases hr : Reapable a first
      · rw [if_pos hr, if_pos hr]
        by_cases hd : Departed a exited first
        · rw [List.filter_cons_of_neg (by simpa using hd), eq_comm, List.filter_eq_self]
          exact ⟨fun hrest => ⟨hd.2, fun p hp => by simpa using hrest p hp⟩,
            fun hrest p hp => by simpa using hrest.2 p hp⟩
        · rw [List.filter_cons_of_pos (by simpa using hd)]
          refine iff_of_false (fun e => hfirst ?_) (fun hrest => hd ⟨hr.1, hrest.1⟩)
          rw [e]
          exact List.mem_cons_self
      · rw [if_neg hr, if_neg hr]
        exact filter_eq_filter_iff

/-- Three processes; the first one is running. -/
def threeProcesses : Architecture :=
  ((zeroed.init.enqueueProcess 0x100 false).enqueueProcess 0x200 false).enqueueProcess 0x300 false

theorem threeProcesses_ring : Ringed threeProcesses [0x100, 0x200, 0x300] :=
  (((ringed_init zeroed).enqueue (by decide) (by decide) false).enqueue (by decide) (by decide)
    false).enqueue (by decide) (by decide) false

/-- The last of them exits, with none of the others in state 1. -/
theorem reaping_of_the_last :
    Reaps ((threeProcesses.setState 0x100 ready).exit 0x300) [0x100, 0x200, 0x300] {0x300} := by
  have hs : SameLinks threeProcesses (threeProcesses.setState 0x100 ready) :=
    ⟨pnext_setState _ _ _, rfl, rfl, rfl⟩
  have h := threeProcesses_ring.same (hs.trans (exit_links _ 0x300))
  exact (reaping_iff h {0x300}).mpr (by decide)

/-- Of two processes at the head that have exited the second is kept; and when
the last one exits, the process in front that is running is reaped. -/
theorem reaping_is_not_exact :
    (Ringed ((threeProcesses.exit 0x100).exit 0x200) [0x100, 0x200, 0x300] ∧
      ¬ Reaps ((threeProcesses.exit 0x100).exit 0x200) [0x100, 0x200, 0x300] {0x100, 0x200}) ∧
    Ringed (threeProcesses.exit 0x300) [0x100, 0x200, 0x300] ∧
      ¬ Reaps (threeProcesses.exit 0x300) [0x100, 0x200, 0x300] {0x300} := by
  have h₁ := threeProcesses_ring.same
    ((exit_links threeProcesses 0x100).trans (exit_links _ 0x200))
  have h₂ := threeProcesses_ring.same (exit_links threeProcesses 0x300)
  refine ⟨⟨h₁, ?_⟩, h₂, ?_⟩
  · rw [h₁.reaps_iff_spared]
    decide
  · rw [h₂.reaps_iff_spared]
    decide

end KmOS
