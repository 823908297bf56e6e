/-
# `KmOS.Sched.Parents` — parents that have gone

A process points to its parent, and its `exit` signals the parent.  When a process is
deleted, `change_process_father` goes round the ring and gives its children to its own
parent.  The victims of `destroy_all_zombie` are out of the ring by then, so nobody
changes their parents; but they are deleted from the last of the ring to the first, and a
parent stands in front of its children.

So in every run the parent of a process in the ring is its nearest ancestor that has not
been deleted (`parents_are_there`), and never a process that has gone.
-/
import KmOS.Lib.Lineage
import KmOS.Sched.Exit
import KmOS.Sched.Fairness

namespace KmOS

open Architecture Process

namespace Architecture

/-! ## The code -/

/-- `Architecture::destroy_process`; `none` if it never comes back. -/
def destroyProcess (a : Architecture) (proc : Option Nat) : Option Architecture :=
  match proc with
  | none => some a
  | some p =>
      if a.idleProcess = some p then some a
      else do
        let a₁ ← a.removeProcess (some p)
        a₁.deleteProcess p

/-! ## Deleting -/

variable {a a' : Architecture} {p c v first : Nat} {ps vs l : List Nat} {o : Option Nat}

/-- The processes of `l` that had `child` for a parent have `father`. -/
def adopted (a : Architecture) (l : List Nat) (child : Nat) (father : Option Nat) : Architecture :=
  { a with
    proc := fun x =>
      if x ∈ l ∧ (a.proc x).pparent = some child then { a.proc x with pparent := father }
      else a.proc x }

theorem adopted_pnext (child : Nat) (father : Option Nat) (x : Nat) :
    ((a.adopted l child father).proc x).pnext = (a.proc x).pnext := by
  unfold adopted
  dsimp only
  split
  · rfl
  · rfl

theorem adopted_links (l : List Nat) (child : Nat) (father : Option Nat) :
    SameLinks a (a.adopted l child father) :=
  ⟨adopted_pnext child father, rfl, rfl, rfl⟩

theorem adopted_pparent (child : Nat) (father : Option Nat) (x : Nat) :
    ((a.adopted l child father).proc x).pparent =
      if x ∈ l ∧ (a.proc x).pparent = some child then father else (a.proc x).pparent := by
  unfold adopted
  dsimp only
  split
  · rfl
  · rfl

theorem adopted_nil (a : Architecture) (child : Nat) (father : Option Nat) :
    a.adopted [] child father = a := by
  unfold adopted
  simp

/-- One turn of `change_process_father`. -/
def adoptOne (a : Architecture) (c child : Nat) (father : Option Nat) : Architecture :=
  if (a.proc c).pparent = some child then a.modify c fun p => { p with pparent := father } else a

theorem adoptOne_links (c child : Nat) (father : Option Nat) :
    SameLinks a (a.adoptOne c child father) := by
  unfold adoptOne
  split
  · exact ⟨pnext_modify a c _ (fun _ => rfl), rfl, rfl, rfl⟩
  · exact SameLinks.refl a

/-- The first, and then the others. -/
theorem adopted_cons (hc : c ∉ l) (child : Nat) (father : Option Nat) :
    (a.adoptOne c child father).adopted l child father = a.adopted (c :: l) child father := by
  unfold adoptOne
  by_cases hp : (a.proc c).pparent = some child
  · rw [if_pos hp]
    refine congrArg (fun f => { a with proc := f }) (funext fun x => ?_)
    by_cases hx : x = c
    · subst hx
      simp [Architecture.modify, hc, hp]
    · simp [Architecture.modify, hx]
  · rw [if_neg hp]
    refine congrArg (fun f => { a with proc := f }) (funext fun x => ?_)
    by_cases hx : x = c
    · subst hx
      simp [hc, hp]
    · simp [hx]

theorem changeFatherLoop_succ {d fuel : Nat} (child : Nat) (father : Option Nat)
    (hpl : a.plist = some first) (hn : (a.proc c).pnext = some d) :
    changeFatherLoop child father (fuel + 1) a c =
      if first = d then some (a.adoptOne c child father)
      else changeFatherLoop child father fuel (a.adoptOne c child father) d := by
  have hs : SameLinks a (a.adoptOne c child father) := adoptOne_links c child father
  conv_lhs => unfold changeFatherLoop
  dsimp only
  rw [show (((if (a.proc c).pparent = some child then
    a.modify c fun p => { p with pparent := father } else a).proc c).pnext) = some d from
      (hs.pnext c).trans hn]
  dsimp only
  rw [show (if (a.proc c).pparent = some child then
    a.modify c fun p => { p with pparent := father } else a).plist = some first from
      hs.plist.trans hpl]
  exact if_congr Option.some_inj rfl rfl

/-- **The loop** goes round the ring. -/
theorem changeFatherLoop_eq {child fuel : Nat} {father : Option Nat} (hpl : a.plist = some first)
    (hchain : (c :: l ++ [first]).IsChain (Next a)) (hnd : (c :: l).Nodup) (hfirst : first ∉ l)
    (hfuel : l.length < fuel) :
    changeFatherLoop child father fuel a c = some (a.adopted (c :: l) child father) := by
  induction l generalizing a c fuel with
  | nil =>
      obtain ⟨fuel, rfl⟩ : ∃ n, fuel = n + 1 := ⟨fuel - 1, by omega⟩
      have hc : Next a c first := (List.isChain_cons_cons.mp hchain).1
      rw [changeFatherLoop_succ child father hpl hc, if_pos rfl, ← adopted_cons List.not_mem_nil,
        adopted_nil]
  | cons d l ih =>
      obtain ⟨fuel, rfl⟩ : ∃ n, fuel = n + 1 := ⟨fuel - 1, by omega⟩
      obtain ⟨hc, hrest⟩ := List.isChain_cons_cons.mp hchain
      obtain ⟨hcl, hnd'⟩ := List.nodup_cons.mp hnd
      have hd : first ≠ d := fun e => hfirst (e ▸ List.mem_cons_self)
      have hs : SameLinks a (a.adoptOne c child father) := adoptOne_links c child father
      rw [changeFatherLoop_succ child father hpl hc, if_neg hd,
        ih (hs.plist.trans hpl) (chain_congr hrest fun b _ => hs.pnext b) hnd'
          (fun e => hfirst (List.mem_cons_of_mem d e)) (Nat.lt_of_succ_lt_succ hfuel),
        adopted_cons hcl]

/-- **Deleting** a process. -/
theorem Ringed.deleteProcess_eq (h : Ringed a ps) (v : Nat) :
    a.deleteProcess v = some (a.adopted ps v (a.proc v).pparent) := by
  unfold deleteProcess changeProcessFather
  cases ps with
  | nil =>
      rw [show a.plist = none from h.plist, adopted_nil]
  | cons first rest =>
      have hpl : a.plist = some first := h.plist
      rw [hpl]
      exact changeFatherLoop_eq hpl (h.chain first rfl) h.nodup (List.nodup_cons.mp h.nodup).1
        h.length_le

/-! ## Parents that stay -/

/-- Nobody has got another parent. -/
def SameParents (a a' : Architecture) : Prop := ∀ x, (a'.proc x).pparent = (a.proc x).pparent

theorem SameParents.trans {b : Architecture} (h : SameParents a b) (h' : SameParents b a') :
    SameParents a a' :=
  fun x => (h' x).trans (h x)

theorem modify_parents (a : Architecture) (p : Nat) {f : Process → Process}
    (hf : ∀ x, (f x).pparent = x.pparent) : SameParents a (a.modify p f) := by
  intro x
  by_cases hx : x = p
  · rw [hx, modify_proc_self, hf]
  · rw [modify_proc_ne f hx]

theorem setPNext_parents (a : Architecture) (p : Nat) (n : Option Nat) :
    SameParents a (a.setPNext p n) :=
  modify_parents a p fun _ => rfl

theorem bypass_parents (a : Architecture) (p prev : Nat) (next : Option Nat) :
    SameParents a (a.bypass p prev next) :=
  (setPNext_parents a prev next).trans fun x => setPNext_parents _ p none x

theorem removeProcess_parents (h : a.removeProcess (some p) = some a') : SameParents a a' := by
  unfold removeProcess at h
  split at h
  · cases h
    exact fun _ => rfl
  · cases h
    exact fun _ => rfl
  · next q hq =>
      cases hq
      dsimp only at h
      split at h
      · cases h
        exact fun x => setPNext_parents _ p none x
      · cases hprev : a.findPrevious p with
        | none =>
            rw [hprev] at h
            cases h
        | some prev =>
            rw [hprev] at h
            cases prev with
            | none =>
                cases h
                exact fun _ => rfl
            | some prev =>
                cases h
                exact bypass_parents a p prev _

theorem reapOne_parents {o₁ : Option Nat} (h : a.reapOne p o = some (a', o₁)) : SameParents a a' := by
  unfold reapOne at h
  split at h
  · cases hrem : a.removeProcess (some p) with
    | none =>
        rw [hrem] at h
        cases h
    | some a₁ =>
        rw [hrem] at h
        cases h
        exact (removeProcess_parents hrem).trans (setPNext_parents a₁ p o)
  · cases h
    exact fun _ => rfl

/-! ## The victims stand in order -/

variable {rank : Nat → Nat} {order : List Nat} {a₀ : Architecture}

/-- The ring is what has not been removed of `order`, and the victims come with the last of
them first. -/
structure Sorted (a₀ a : Architecture) (rank : Nat → Nat) (order ps : List Nat) (o : Option Nat)
    (vs : List Nat) : Prop where
  reaping : Reaping a ps o vs
  ring : ps.Sublist order
  victims : vs.Pairwise fun v w => rank w < rank v
  members : ∀ x, x ∈ order ↔ x ∈ ps ∨ x ∈ vs
  parents : SameParents a₀ a

/-- The process behind one of a ring that goes up is higher, unless it is the first. -/
theorem Ringed.pnext_sorted (h : Ringed a ps) (hsorted : ps.Pairwise fun x y => rank x < rank y)
    (hp : p ∈ ps) (hn : (a.proc p).pnext = some c) :
    (c ∈ ps ∧ rank p < rank c) ∨ (ps.head? = some c ∧ ps.getLast? = some p) := by
  obtain ⟨pre, post, rfl⟩ := List.append_of_mem hp
  obtain ⟨first, hfirst⟩ : ∃ first, (pre ++ p :: post).head? = some first :=
    Option.isSome_iff_exists.mp (by simp)
  rw [h.pnext_of_append hfirst] at hn
  cases post with
  | nil =>
      rw [← Option.some.inj hn]
      exact .inr ⟨hfirst, by simp⟩
  | cons d post =>
      obtain rfl : d = c := Option.some.inj hn
      refine .inl ⟨by simp, ?_⟩
      exact (List.pairwise_cons.mp (List.pairwise_append.mp hsorted).2.1).1 d List.mem_cons_self

/-- **One turn**: the victims stay sorted, and behind the cursor. -/
theorem Sorted.one {o₁ : Option Nat} {a₁ : Architecture} (h : Sorted a₀ a rank order ps o vs)
    (hp : p ∈ ps) (hbehind : ∀ v ∈ vs, rank v < rank p) (hone : a.reapOne p o = some (a₁, o₁)) :
    ∃ ps₁ vs₁, Sorted a₀ a₁ rank order ps₁ o₁ vs₁ ∧ (∀ v ∈ vs₁, rank v ≤ rank p) ∧
      (ps₁ = ps ∨ ps₁ = ps.erase p) := by
  have hparents := reapOne_parents hone
  by_cases hr : Reapable a p
  · obtain ⟨a', ha', h', -⟩ := h.reaping.one hp hr
    rw [hone] at ha'
    cases ha'
    refine ⟨ps.erase p, p :: vs, ⟨h', (List.erase_sublist).trans h.ring, ?_, fun x => ?_,
      h.parents.trans hparents⟩, ?_, .inr rfl⟩
    · exact List.pairwise_cons.mpr ⟨hbehind, h.victims⟩
    · rw [h.members, h.reaping.ring.nodup.mem_erase_iff, List.mem_cons]
      by_cases hx : x = p
      · rw [hx]
        simp [hp]
      · simp [hx]
    · exact List.forall_mem_cons.mpr ⟨Nat.le_refl _, fun v hv => Nat.le_of_lt (hbehind v hv)⟩
  · have hkept : a.reapOne p o = some (a, o) := if_neg hr
    rw [hkept] at hone
    cases hone
    exact ⟨ps, vs, h, fun v hv => Nat.le_of_lt (hbehind v hv), .inl rfl⟩

/-- The first of a ring that has lost its last is the first, if there is one. -/
theorem head?_erase_last (hnd : ps.Nodup) (hc : ps.head? = some c) (hp : ps.getLast? = some p) :
    (ps.erase p).head? = none ∨ (ps.erase p).head? = some c := by
  cases ps with
  | nil => cases hc
  | cons d ps =>
      obtain rfl : d = c := Option.some.inj hc
      by_cases hpd : p = d
      · subst hpd
        rw [List.erase_cons_head]
        cases ps with
        | nil => exact .inl rfl
        | cons e ps =>
            rw [List.getLast?_cons_cons] at hp
            exact absurd (List.mem_of_getLast? hp) (List.nodup_cons.mp hnd).1
      · rw [List.erase_cons_tail (by simpa using Ne.symm hpd)]
        exact .inr rfl

/-- **The first loop**, if it comes back. -/
theorem Sorted.loop {fuel : Nat} {o' : Option Nat} (h : Sorted a₀ a rank order ps o vs)
    (hsorted : order.Pairwise fun x y => rank x < rank y) (hp : p ∈ ps)
    (hbehind : ∀ v ∈ vs, rank v < rank p) (hloop : reapLoop fuel a p o = some (a', o')) :
    ∃ ps' vs', Sorted a₀ a' rank order ps' o' vs' := by
  induction fuel generalizing a ps o vs p with
  | zero => cases hloop
  | succ fuel ih =>
      unfold reapLoop at hloop
      dsimp only [Option.bind_eq_bind] at hloop
      cases hone : a.reapOne p o with
      | none =>
          rw [hone] at hloop
          cases hloop
      | some r =>
          obtain ⟨a₁, o₁⟩ := r
          rw [hone] at hloop
          dsimp only [Option.bind_some] at hloop
          obtain ⟨ps₁, vs₁, h₁, hbehind₁, hps₁⟩ := h.one hp hbehind hone
          split at hloop
          · cases hloop
            exact ⟨ps₁, vs₁, h₁⟩
          · next hsome =>
              cases hn : (a.proc p).pnext with
              | none =>
                  rw [hn] at hloop
                  cases hloop
                  exact ⟨ps₁, vs₁, h₁⟩
              | some c =>
                  rw [hn] at hloop
                  dsimp only at hloop
                  split at hloop
                  · cases hloop
                    exact ⟨ps₁, vs₁, h₁⟩
                  · next hstop =>
                      have hring := h.reaping.ring
                      have hplist := h₁.reaping.ring.plist
                      rcases hring.pnext_sorted (hsorted.sublist h.ring) hp hn with
                        ⟨hc, hlt⟩ | ⟨hhead, hlast⟩
                      · have hcp : c ≠ p := fun e => Nat.lt_irrefl _ (e ▸ hlt)
                        have hc₁ : c ∈ ps₁ := by
                          rcases hps₁ with rfl | rfl
                          · exact hc
                          · exact (hring.nodup.mem_erase_iff).mpr ⟨hcp, hc⟩
                        exact ih h₁ hc₁ (fun v hv => Nat.lt_of_le_of_lt (hbehind₁ v hv) hlt) hloop
                      · -- it would have stopped there
                        rcases hps₁ with rfl | rfl
                        · exact absurd (hplist.trans hhead) hstop
                        · rcases head?_erase_last hring.nodup hhead hlast with he | he
                          · exact absurd (hplist.trans he) hsome
                          · exact absurd (hplist.trans he) hstop

/-! ## The victims go -/

/-- The parent of a process, as a function. -/
def parentOf (a : Architecture) (x : Nat) : Option Nat := (a.proc x).pparent

variable {anc : Nat → List Nat}

/-- **One victim**, the last of those that are left. -/
theorem Reaping.delete_lineage (h : Reaping a ps o (v :: vs))
    (hmembers : ∀ x, x ∈ order ↔ x ∈ ps ∨ x ∈ v :: vs) (hlast : ∀ w ∈ vs, rank w < rank v)
    (hl : Lineage order rank anc a.parentOf) :
    ∃ a₁, (a.setPNext v none).deleteProcess v = some a₁ ∧ Reaping a₁ ps (a.proc v).pnext vs ∧
      Lineage (order.filter (· ≠ v)) rank (fun x => (anc x).filter (· ≠ v)) a₁.parentOf := by
  obtain ⟨rfl, hpend⟩ := h.pending
  obtain ⟨hv, hnd⟩ := List.nodup_cons.mp h.nodup
  have hvps : v ∉ ps := h.apart v List.mem_cons_self
  have hlink : ∀ b, b ≠ v → ((a.setPNext v none).proc b).pnext = (a.proc b).pnext := by
    intro b hb
    rw [pnext_setPNext, if_neg hb]
  have hring : Ringed (a.setPNext v none) ps :=
    h.ring.congr (fun b hb => hlink b (fun e => hvps (e ▸ hb))) rfl rfl rfl
  have hparents : SameParents a (a.setPNext v none) := setPNext_parents a v none
  have hs := adopted_links (a := a.setPNext v none) ps v ((a.setPNext v none).proc v).pparent
  refine ⟨_, hring.deleteProcess_eq v, ⟨hring.same hs, ?_, hnd, ?_, ?_⟩, ?_⟩
  · exact hpend.congr fun w hw => (hs.pnext w).trans (hlink w fun e => hv (e ▸ hw))
  · exact fun w hw => h.apart w (List.mem_cons_of_mem v hw)
  · exact fun w hw => h.word w (List.mem_cons_of_mem v hw)
  · refine hl.remove ((hmembers v).mpr (.inr List.mem_cons_self)) fun x hx hxv => ?_
    unfold parentOf
    rw [adopted_pparent, hparents x, hparents v]
    rcases (hmembers x).mp hx with hps | hvs
    · exact if_congr (and_iff_right hps) rfl rfl
    · -- a victim that is left is no child of `v`
      have hw : x ∈ vs := (List.mem_cons.mp hvs).resolve_left hxv
      have hno : (a.proc x).pparent ≠ some v := by
        intro hp
        have hhead : (anc x).head? = some v := (hl.parent x hx).symm.trans hp
        have hlt := (hl.mem_anc hx (List.mem_of_mem_head? hhead)).2
        exact absurd (hlast x hw) (Nat.lt_asymm hlt)
      rw [if_neg fun e => hno e.2, if_neg hno]

/-- **The second loop**, if it comes back. -/
theorem Reaping.cleanup_lineage {fuel : Nat} (h : Reaping a ps o vs) (hsub : ps.Sublist order)
    (hmembers : ∀ x, x ∈ order ↔ x ∈ ps ∨ x ∈ vs)
    (hvictims : vs.Pairwise fun v w => rank w < rank v)
    (hl : Lineage order rank anc a.parentOf) (hloop : cleanupLoop fuel a o = some a') :
    Ringed a' ps ∧ Lineage ps rank (fun x => (anc x).filter (· ∈ ps)) a'.parentOf := by
  induction vs generalizing a o order anc fuel with
  | nil =>
      obtain rfl : o = none := h.pending
      rw [show cleanupLoop fuel a none = some a by unfold cleanupLoop; rfl] at hloop
      cases hloop
      have hperm : ps.Perm order := by
        rw [List.perm_ext_iff_of_nodup h.ring.nodup hl.nodup]
        intro x
        rw [hmembers]
        simp
      obtain rfl := hsub.eq_of_length hperm.length_eq
      refine ⟨h.ring, hl.congr_anc fun x hx => ?_⟩
      exact List.filter_eq_self.mpr fun z hz => decide_eq_true (hl.mem_anc hx hz).1
  | cons v vs ih =>
      obtain ⟨hlast, hrest⟩ := List.pairwise_cons.mp hvictims
      obtain ⟨a₁, hdel, h₁, hl₁⟩ := h.delete_lineage hmembers hlast hl
      obtain ⟨rfl, -⟩ := h.pending
      have hvps : v ∉ ps := h.apart v List.mem_cons_self
      have hvvs : v ∉ vs := (List.nodup_cons.mp h.nodup).1
      have hself : ps.filter (· ≠ v) = ps :=
        List.filter_eq_self.mpr fun z hz => decide_eq_true fun e => hvps (e ▸ hz)
      cases fuel with
      | zero => cases hloop
      | succ fuel =>
          unfold cleanupLoop at hloop
          dsimp only [Option.bind_eq_bind] at hloop
          rw [hdel] at hloop
          have hsub₁ : ps.Sublist (order.filter (· ≠ v)) := hself ▸ hsub.filter _
          have hmembers₁ : ∀ x, x ∈ order.filter (· ≠ v) ↔ x ∈ ps ∨ x ∈ vs := by
            intro x
            rw [List.mem_filter, hmembers, List.mem_cons, decide_eq_true_iff]
            constructor
            · rintro ⟨hx | rfl | hx, hne⟩
              · exact .inl hx
              · exact absurd rfl hne
              · exact .inr hx
            · rintro (hx | hx)
              · exact ⟨.inl hx, fun e => hvps (e ▸ hx)⟩
              · exact ⟨.inr (.inr hx), fun e => hvvs (e ▸ hx)⟩
          obtain ⟨hring, hlineage⟩ := ih h₁ hsub₁ hmembers₁ hrest hl₁ hloop
          refine ⟨hring, hlineage.congr_anc fun x _ => ?_⟩
          rw [List.filter_filter]
          refine List.filter_congr fun z _ => ?_
          by_cases hz : z ∈ ps
          · have hzv : z ≠ v := fun e => hvps (e ▸ hz)
            simp [hz, hzv]
          · simp [hz]

/-- **`destroy_all_zombie`**: those who are left keep the ancestors who are left. -/
theorem destroyAllZombie_lineage (h : Ringed a ps) (hl : Lineage ps rank anc a.parentOf)
    (ha : a.destroyAllZombie = some a') :
    Ringed a' (spared a ps) ∧
      Lineage (spared a ps) rank (fun x => (anc x).filter (· ∈ spared a ps)) a'.parentOf := by
  obtain ⟨a'', ha'', hspared⟩ := destroyAllZombie_ring h
  obtain rfl := Option.some.inj (ha.symm.trans ha'')
  refine ⟨hspared, ?_⟩
  unfold destroyAllZombie at ha
  cases ps with
  | nil =>
      rw [show a.plist = none from h.plist] at ha
      cases ha
      exact .empty
  | cons first rest =>
      rw [show a.plist = some first from h.plist] at ha
      dsimp only [Option.bind_eq_bind] at ha
      cases hloop : reapLoop turns a first none with
      | none =>
          rw [hloop] at ha
          cases ha
      | some r =>
          obtain ⟨a₁, o₁⟩ := r
          rw [hloop] at ha
          have hstart : Sorted a a rank (first :: rest) (first :: rest) none [] :=
            ⟨⟨h, rfl, List.nodup_nil, List.forall_mem_nil _, List.forall_mem_nil _⟩, .refl _, .nil,
              fun x => by simp, fun _ => rfl⟩
          obtain ⟨ps', vs', h₁⟩ := hstart.loop hl.sorted List.mem_cons_self
            (List.forall_mem_nil _) hloop
          have hl₁ : Lineage (first :: rest) rank anc a₁.parentOf := hl.congr fun x _ => h₁.parents x
          obtain ⟨hring, hlineage⟩ :=
            h₁.reaping.cleanup_lineage h₁.ring h₁.members h₁.victims hl₁ ha
          obtain rfl := hring.unique hspared
          exact hlineage

/-- **`destroy_process`.** -/
theorem destroyProcess_lineage (h : Ringed a ps) (hl : Lineage ps rank anc a.parentOf) (hp : p ∈ ps)
    (hidle : a.idleProcess ≠ some p) :
    ∃ a', a.destroyProcess (some p) = some a' ∧ Ringed a' (ps.erase p) ∧
      Lineage (ps.erase p) rank (fun x => (anc x).filter (· ≠ p)) a'.parentOf := by
  obtain ⟨a₁, hremove, hring⟩ := h.remove hp
  have hparents := removeProcess_parents hremove
  have hs := adopted_links (a := a₁) (ps.erase p) p (a₁.proc p).pparent
  refine ⟨_, ?_, hring.same hs, ?_⟩
  · unfold destroyProcess
    dsimp only
    rw [if_neg hidle, hremove]
    exact hring.deleteProcess_eq p
  · have herase : ps.erase p = ps.filter (· ≠ p) :=
      (h.nodup.erase_eq_filter p).trans (List.filter_congr fun x _ => by simp [bne, beq_eq_decide])
    rw [herase]
    refine hl.remove hp fun x hx hxp => ?_
    unfold parentOf
    rw [adopted_pparent, hparents x, hparents p]
    have hmem : x ∈ ps.filter (· ≠ p) := List.mem_filter.mpr ⟨hx, decide_eq_true hxp⟩
    exact if_congr (and_iff_right hmem) rfl rfl

/-! ## The other calls -/

theorem link_parents (a : Architecture) (p : Nat) : SameParents a (a.link p) := by
  unfold link
  split
  · exact fun x => setPNext_parents _ p (some p) x
  · next first hf =>
      dsimp only
      have h₁ := setPNext_parents a p (some first)
      split
      · next last hlast => exact fun x => (setPNext_parents _ last (some p) x).trans (h₁ x)
      · exact h₁

theorem setState_parents (a : Architecture) (p : Nat) (st : UInt8) :
    SameParents a (a.setState p st) :=
  modify_parents a p fun _ => rfl

theorem preempt_parents (a : Architecture) (p : Nat) : SameParents a (a.preempt p) := by
  unfold preempt
  split
  · split
    · exact setState_parents a _ ready
    · exact fun _ => rfl
  · exact fun _ => rfl

theorem enqueueProcess_parents (a : Architecture) (p : Nat) (makeCurrent : Bool) :
    SameParents a (a.enqueueProcess p makeCurrent) := by
  unfold enqueueProcess
  dsimp only
  split
  · refine ((link_parents a p).trans (preempt_parents _ p)).trans fun x => ?_
    exact @modify_parents _ p
      (fun q => { q with state := running, lastScheduled := a.systemTicks, timeSlice := 0 })
      (fun _ => rfl) x
  · exact (link_parents a p).trans (setState_parents _ p ready)

theorem enqueueProcess_idleProcess (p : Nat) (makeCurrent : Bool) :
    (a.enqueueProcess p makeCurrent).idleProcess = a.idleProcess := by
  have hlink : (a.link p).idleProcess = a.idleProcess := by
    unfold link
    split
    · rfl
    · dsimp only
      split
      · rfl
      · rfl
  have hpreempt : ∀ b : Architecture, (b.preempt p).idleProcess = b.idleProcess := by
    intro b
    unfold preempt
    split
    · split
      · rfl
      · rfl
    · rfl
  unfold enqueueProcess
  dsimp only
  split
  · exact (hpreempt (a.link p)).trans hlink
  · exact hlink

/-- A process that comes into the ring, behind the others. -/
theorem enqueueProcess_lineage (h : Ringed a ps) (hl : Lineage ps rank anc a.parentOf) (hp : p ∉ ps)
    (hw : p < wordSize) (hparent : ∀ y, (a.proc p).pparent = some y → y ∈ ps) (makeCurrent : Bool) :
    Ringed (a.enqueueProcess p makeCurrent) (ps ++ [p]) ∧
      ∃ rank', Lineage (ps ++ [p]) rank'
        (Function.update anc p ((a.proc p).pparent.elim [] fun y => y :: anc y))
        (a.enqueueProcess p makeCurrent).parentOf :=
  ⟨h.enqueue hp hw makeCurrent, hl.add hp hparent
    (fun x _ => enqueueProcess_parents a p makeCurrent x) (enqueueProcess_parents a p makeCurrent p)⟩

/-- `exit` changes no parent, and no link. -/
theorem exit_parents (a : Architecture) (p : Nat) : SameParents a (a.exit p) := by
  unfold Architecture.exit
  dsimp only
  split
  · exact (setState_parents a p zombie).trans (modify_parents _ _ fun _ => rfl)
  · exact setState_parents a p zombie

/-- A process outside the ring is written to. -/
theorem modify_outside (h : Ringed a ps) (hl : Lineage ps rank anc a.parentOf) (hp : p ∉ ps)
    (f : Process → Process) :
    Ringed (a.modify p f) ps ∧ Lineage ps rank anc (a.modify p f).parentOf := by
  have hother : ∀ x ∈ ps, (a.modify p f).proc x = a.proc x := fun x hx =>
    modify_proc_ne f fun e => hp (e ▸ hx)
  exact ⟨h.congr (fun x hx => congrArg Process.pnext (hother x hx)) rfl rfl rfl,
    hl.congr fun x hx => congrArg Process.pparent (hother x hx)⟩

/-- Whom `ensure_idle_process` enqueues. -/
def idleEnqueued (a : Architecture) (idle : NewIdle) : List Nat :=
  if a.idleProcess = none ∧ idle.stackTop ≠ none then [idle.addr] else []

theorem ensureIdleProcess_lineage (h : Ringed a ps) (hl : Lineage ps rank anc a.parentOf)
    {idle : NewIdle} (hi : idle.addr ∉ ps) (hw : idle.addr < wordSize) :
    Ringed (a.ensureIdleProcess idle) (ps ++ a.idleEnqueued idle) ∧
      ∃ rank', Lineage (ps ++ a.idleEnqueued idle) rank'
        (fun x => if x = idle.addr then [] else anc x) (a.ensureIdleProcess idle).parentOf := by
  have hanc : ∀ x ∈ ps, (if x = idle.addr then [] else anc x) = anc x := by
    intro x hx
    refine if_neg ?_
    rintro rfl
    exact hi hx
  unfold ensureIdleProcess idleEnqueued
  cases hidle : a.idleProcess with
  | some i =>
      rw [if_neg (fun e => by cases e.1), List.append_nil]
      exact ⟨h, rank, hl.congr_anc hanc⟩
  | none =>
      cases htop : idle.stackTop with
      | none =>
          obtain ⟨h₁, hl₁⟩ := modify_outside h hl hi fun _ => newProcess
          rw [if_neg (fun e => e.2 rfl), List.append_nil]
          exact ⟨h₁.congr (fun _ _ => rfl) rfl rfl rfl, rank, hl₁.congr_anc hanc⟩
      | some top =>
          rw [if_pos ⟨rfl, Option.some_ne_none top⟩]
          dsimp only
          have hstep : ∀ b : Architecture, Ringed b ps → Lineage ps rank anc b.parentOf →
              (b.proc idle.addr).pparent = none →
              Ringed (b.enqueueProcess idle.addr false) (ps ++ [idle.addr]) ∧
                ∃ rank', Lineage (ps ++ [idle.addr]) rank'
                  (fun x => if x = idle.addr then [] else anc x)
                  (b.enqueueProcess idle.addr false).parentOf := by
            intro b hb hlb hnone
            obtain ⟨hring, rank', hlineage⟩ := enqueueProcess_lineage hb hlb hi hw
              (fun y hy => by rw [hnone] at hy; cases hy) false
            refine ⟨hring, rank', hlineage.congr_anc fun x _ => ?_⟩
            rw [Function.update_apply, hnone]
            rfl
          obtain ⟨h₁, hl₁⟩ := modify_outside h hl hi fun _ => newProcess
          have h₁' : Ringed { a.modify idle.addr fun _ => newProcess with
              idleProcess := some idle.addr } ps := h₁.congr (fun _ _ => rfl) rfl rfl rfl
          obtain ⟨h₂, hl₂⟩ := modify_outside h₁' hl₁ hi fun p =>
            { p with
              pd := a.currentDirectory
              regs := a.idleRegs top idle.entry
              pparent := none
              state := ready
              lastScheduled := a.systemTicks
              timeSlice := 0
              totalRuntime := 0 }
          refine hstep _ h₂ hl₂ ?_
          rw [modify_proc_self]

/-- **`addProcess`**, of a new process. -/
theorem addProcess_lineage (h : Ringed a ps) (hl : Lineage ps rank anc a.parentOf) (hp : p ∉ ps)
    (hw : p < wordSize) {parent : Option Nat} (hparent : ∀ y, parent = some y → y ∈ ps)
    {idle : NewIdle} (hi : idle.addr ∉ ps) (hip : idle.addr ≠ p) (hiw : idle.addr < wordSize) :
    let a' := (a.modify p fun _ => { newProcess with pparent := parent }).addProcess (some p) idle
    Ringed a' (ps ++ p :: a.idleEnqueued idle) ∧
      ∃ rank', Lineage (ps ++ p :: a.idleEnqueued idle) rank'
        (fun x => if x = p then parent.elim [] fun y => y :: anc y
          else if x = idle.addr then [] else anc x) a'.parentOf := by
  let a₀ := a.modify p fun _ => { newProcess with pparent := parent }
  obtain ⟨h₀, hl₀⟩ := modify_outside h hl hp fun _ => { newProcess with pparent := parent }
  have hpp : (a₀.proc p).pparent = parent := congrArg Process.pparent (modify_proc_self ..)
  obtain ⟨h₁, rank₁, hl₁⟩ := enqueueProcess_lineage h₀ hl₀ hp hw
    (fun y hy => hparent y (hpp.symm.trans hy)) a₀.plist.isNone
  have hi₁ : idle.addr ∉ ps ++ [p] := by
    rw [List.mem_append, List.mem_singleton]
    exact not_or.mpr ⟨hi, hip⟩
  -- `schedulerReady` may be set, and nothing else
  have hadd : ∃ a₂ : Architecture, Ringed a₂ (ps ++ [p]) ∧
      Lineage (ps ++ [p]) rank₁ (Function.update anc p (parent.elim [] fun y => y :: anc y))
        a₂.parentOf ∧ a₂.idleProcess = a.idleProcess ∧
      a₀.addProcess (some p) idle = a₂.ensureIdleProcess idle := by
    rw [hpp] at hl₁
    have hidle := enqueueProcess_idleProcess (a := a₀) p a₀.plist.isNone
    let b := a₀.enqueueProcess p a₀.plist.isNone
    have heq : a₀.addProcess (some p) idle =
        (if a₀.plist.isNone then { b with schedulerReady := true } else b).ensureIdleProcess idle :=
      rfl
    by_cases hempty : a₀.plist.isNone = true
    · rw [if_pos hempty] at heq
      exact ⟨{ b with schedulerReady := true }, h₁.congr (fun _ _ => rfl) rfl rfl rfl, hl₁, hidle,
        heq⟩
    · rw [if_neg hempty] at heq
      exact ⟨b, h₁, hl₁, hidle, heq⟩
  obtain ⟨a₂, h₂, hl₂, hidle, heq⟩ := hadd
  obtain ⟨hring, rank', hlineage⟩ := ensureIdleProcess_lineage h₂ hl₂ hi₁ hiw
  have hqs : a₂.idleEnqueued idle = a.idleEnqueued idle := by
    unfold idleEnqueued
    rw [hidle]
  rw [hqs, List.append_assoc, List.singleton_append] at hring hlineage
  dsimp only
  rw [heq]
  refine ⟨hring, rank', hlineage.congr_anc fun x _ => ?_⟩
  rw [Function.update_apply]
  by_cases hx : x = p
  · rw [if_pos hx, if_pos hx, if_neg fun e => hip (e.symm.trans hx)]
  · rw [if_neg hx, if_neg hx]

/-! ## A timer interrupt -/

theorem demote_links (a : Architecture) (c : Nat) :
    SameLinks a (a.demote c) ∧ SameParents a (a.demote c) := by
  unfold demote
  split
  · exact ⟨⟨pnext_modify a c _ fun _ => rfl, rfl, rfl, rfl⟩, modify_parents a c fun _ => rfl⟩
  · exact ⟨SameLinks.refl a, fun _ => rfl⟩

theorem promote_links (a : Architecture) (n : Nat) :
    SameLinks a (a.promote n) ∧ SameParents a (a.promote n) :=
  ⟨⟨pnext_modify a n _ fun _ => rfl, rfl, rfl, rfl⟩, modify_parents a n fun _ => rfl⟩

theorem Ringed.next_mem (h : Ringed a ps) (hp : p ∈ ps) : ∃ n ∈ ps, a.next p = some n := by
  obtain ⟨pre, post, rfl⟩ := List.append_of_mem hp
  obtain ⟨first, hfirst⟩ : ∃ first, (pre ++ p :: post).head? = some first :=
    Option.isSome_iff_exists.mp (by simp)
  refine ⟨_, ?_, next_of_link (h.pnext_of_append hfirst)⟩
  cases post with
  | nil => exact List.mem_of_mem_head? hfirst
  | cons c post => simp

theorem Ringed.walk_mem {left n : Nat} (h : Ringed a ps) (hp : p ∈ ps)
    (hw : a.walk left p = some n) : n ∈ ps := by
  induction left generalizing p with
  | zero => cases hw
  | succ left ih =>
      obtain ⟨q, hq, hnext⟩ := h.next_mem hp
      unfold walk at hw
      rw [hnext] at hw
      dsimp only at hw
      split at hw
      · exact ih hq hw
      · cases hw
        exact hq

/-- The processor goes to a process of the ring. -/
theorem Ringed.switchFrom (h : Ringed a ps) (hc : c ∈ ps) :
    Ringed (a.switchFrom c).2 ps ∧ SameParents a (a.switchFrom c).2 := by
  have hselect : ∃ n ∈ ps, (a.schedule c).1 = n ∧ SameLinks a (a.schedule c).2 ∧
      SameParents a (a.schedule c).2 := by
    rcases schedule_cases (a := a) c with he | ⟨n, -, hw, -, he⟩
    · rw [he]
      exact ⟨c, hc, rfl, SameLinks.refl a, fun _ => rfl⟩
    · rw [he]
      exact ⟨n, h.walk_mem hc hw, rfl, (demote_links a c).1.trans (promote_links _ n).1,
        (demote_links a c).2.trans (promote_links _ n).2⟩
  obtain ⟨n, hn, hsel, hs, hparents⟩ := hselect
  have hring := h.same hs
  unfold Architecture.switchFrom
  dsimp only
  rw [hsel, loadProcessContext_counters]
  refine ⟨⟨hring.nodup, hring.word, hring.plist, hring.firstProc, hring.chain, ?_⟩, hparents⟩
  rw [if_neg (List.ne_nil_of_mem hc)]
  exact ⟨n, hn, rfl⟩

theorem isrTimerInt_ring (h : Ringed a ps) (f : InterruptFrame) :
    Ringed (a.isrTimerInt f).2 ps ∧ SameParents a (a.isrTimerInt f).2 := by
  have hsaved : ∀ c, SameLinks a (a.saved c f) ∧ SameParents a (a.saved c f) := fun c =>
    ⟨⟨fun q => (saveProcessContext_same a.counted c f q).pnext, rfl, rfl, rfl⟩,
      fun q => (saveProcessContext_same a.counted c f q).pparent⟩
  rcases isrTimerInt_cases a f with ⟨-, -, heq⟩ | ⟨c, -, hcur, ⟨-, heq⟩ | ⟨b, hb, -, heq⟩⟩
  · rw [heq]
    exact ⟨h.same ⟨fun _ => rfl, rfl, rfl, rfl⟩, fun _ => rfl⟩
  · rw [heq]
    exact ⟨h.same (hsaved c).1, (hsaved c).2⟩
  · have hmem : c ∈ ps := by
      have hcurrent := h.current
      split at hcurrent
      · rw [hcur] at hcurrent
        cases hcurrent
      · obtain ⟨c', hc', he⟩ := hcurrent
        exact Option.some.inj (hcur.symm.trans he) ▸ hc'
    have hlinks : SameLinks a b := hb ▸ ⟨(hsaved c).1.pnext, rfl, rfl, rfl⟩
    have hparents : SameParents a b := hb ▸ (hsaved c).2
    obtain ⟨hring, hswitch⟩ := (h.same hlinks).switchFrom hmem
    rw [heq]
    exact ⟨hring, hparents.trans hswitch⟩

end Architecture

/-! ## Statement -/

/-- The scheduler, the processes of its ring, and the ancestors of each that are left, the
nearest first. -/
structure Family where
  arch : Architecture
  queue : List Nat
  ancestors : Nat → List Nat

inductive FamilyCall where
  /-- A new process gets its parent, and goes to `addProcess`. -/
  | spawn (p : Nat) (parent : Option Nat) (idle : NewIdle)
  | exit (p : Nat)
  | setState (p : Nat) (st : UInt8)
  | tick (frame : InterruptFrame)
  | destroyProcess (p : Nat)
  | destroyAllZombie

def familyStep (r : Family) : FamilyCall → Option Family
  | .spawn p parent idle =>
      some
        { arch := (r.arch.modify p fun _ => { newProcess with pparent := parent }).addProcess
            (some p) idle
          queue := r.queue ++ p :: r.arch.idleEnqueued idle
          ancestors := fun x =>
            if x = p then parent.elim [] fun y => y :: r.ancestors y
            else if x = idle.addr then [] else r.ancestors x }
  | .exit p => some { r with arch := r.arch.exit p }
  | .setState p st => some { r with arch := r.arch.setState p st }
  | .tick frame => some { r with arch := (r.arch.isrTimerInt frame).2 }
  | .destroyProcess p => do
      let arch ← r.arch.destroyProcess (some p)
      some
        (if r.arch.idleProcess = some p then { r with arch := arch }
        else
          { arch := arch
            queue := r.queue.erase p
            ancestors := fun x => (r.ancestors x).filter (· ≠ p) })
  | .destroyAllZombie => do
      let arch ← r.arch.destroyAllZombie
      some
        { arch := arch
          queue := spared r.arch r.queue
          ancestors := fun x => (r.ancestors x).filter (· ∈ spared r.arch r.queue) }

/-- New processes have addresses of their own, and parents that are there; nobody destroys
a process twice. -/
def FamilyCall.Sound (r : Family) : FamilyCall → Prop
  | .spawn p parent idle =>
      p ∉ r.queue ∧ p < wordSize ∧ (∀ y, parent = some y → y ∈ r.queue) ∧
        idle.addr ∉ r.queue ∧ idle.addr ≠ p ∧ idle.addr < wordSize
  | .destroyProcess p => p ∈ r.queue
  | _ => True

instance (r : Family) : (c : FamilyCall) → Decidable (FamilyCall.Sound r c)
  | .spawn _ none _ => by unfold FamilyCall.Sound; infer_instance
  | .spawn p (some y) idle =>
      decidable_of_iff (p ∉ r.queue ∧ p < wordSize ∧ y ∈ r.queue ∧ idle.addr ∉ r.queue ∧
        idle.addr ≠ p ∧ idle.addr < wordSize) (by simp [FamilyCall.Sound])
  | .exit _ => .isTrue trivial
  | .setState _ _ => .isTrue trivial
  | .tick _ => .isTrue trivial
  | .destroyProcess p => inferInstanceAs (Decidable (p ∈ r.queue))
  | .destroyAllZombie => .isTrue trivial

/-- The parent of a process is its nearest ancestor that is left, and is in the ring. -/
structure FamilyIntact (r : Family) : Prop where
  ring : Ringed r.arch r.queue
  parent : ∀ p ∈ r.queue, (r.arch.proc p).pparent = (r.ancestors p).head?
  ancestors : ∀ p ∈ r.queue, ∀ y rest, r.ancestors p = y :: rest →
    y ∈ r.queue ∧ r.ancestors y = rest
  others : ∀ p ∈ r.queue, p ∉ r.ancestors p

/-! ## Every run -/

/-- The invariant of a run. -/
def Family.Kept (r : Family) : Prop :=
  Ringed r.arch r.queue ∧ ∃ rank, Lineage r.queue rank r.ancestors r.arch.parentOf

theorem Family.Kept.step {r r' : Family} {c : FamilyCall} (h : r.Kept) (hc : FamilyCall.Sound r c)
    (hs : familyStep r c = some r') : r'.Kept := by
  obtain ⟨hring, rank, hl⟩ := h
  cases c with
  | spawn p parent idle =>
      cases hs
      obtain ⟨hp, hw, hparent, hi, hip, hiw⟩ := hc
      exact addProcess_lineage hring hl hp hw hparent hi hip hiw
  | exit p =>
      cases hs
      exact ⟨hring.same (exit_links r.arch p), rank, hl.congr fun x _ => exit_parents r.arch p x⟩
  | setState p st =>
      cases hs
      exact ⟨hring.same ⟨pnext_setState r.arch p st, rfl, rfl, rfl⟩, rank,
        hl.congr fun x _ => setState_parents r.arch p st x⟩
  | tick frame =>
      cases hs
      obtain ⟨hring', hparents⟩ := isrTimerInt_ring hring frame
      exact ⟨hring', rank, hl.congr fun x _ => hparents x⟩
  | destroyProcess p =>
      unfold familyStep at hs
      dsimp only [Option.bind_eq_bind] at hs
      by_cases hidle : r.arch.idleProcess = some p
      · have hsame : r.arch.destroyProcess (some p) = some r.arch := if_pos hidle
        simp only [hsame, Option.bind_some, if_pos hidle] at hs
        cases hs
        exact ⟨hring, rank, hl⟩
      · obtain ⟨a', ha', hring', hl'⟩ := destroyProcess_lineage hring hl hc hidle
        simp only [ha', Option.bind_some, if_neg hidle] at hs
        cases hs
        exact ⟨hring', rank, hl'⟩
  | destroyAllZombie =>
      unfold familyStep at hs
      dsimp only [Option.bind_eq_bind] at hs
      cases ha : r.arch.destroyAllZombie with
      | none =>
          rw [ha] at hs
          cases hs
      | some a' =>
          rw [ha] at hs
          cases hs
          obtain ⟨hring', hl'⟩ := destroyAllZombie_lineage hring hl ha
          exact ⟨hring', rank, hl'⟩

/-- **Parents that have gone**: whatever is created, exits and is destroyed, the parent of a
process is the nearest of its ancestors that are left. -/
theorem parents_are_there {a : Architecture} {r : Family}
    (hr : Reaches familyStep FamilyCall.Sound ⟨a.init, [], fun _ => []⟩ r) : FamilyIntact r := by
  have hkept : r.Kept := by
    refine hr.invariant (I := Family.Kept) ⟨ringed_init a, fun _ => 0, .empty⟩ ?_
    intro r c r' h hc hs
    exact h.step hc hs
  obtain ⟨hring, rank, hl⟩ := hkept
  refine ⟨hring, hl.parent, fun p hp y rest he => ?_, fun p hp => hl.notMem_anc hp⟩
  obtain ⟨hy, hrest, -⟩ := hl.up p hp y rest he
  exact ⟨hy, hrest⟩

/-- A grandchild whose parent and grandparent have gone has the first of them for a
parent. -/
theorem parents_are_there_two_gone :
    ∃ r : Family, r.queue = [0x100, 0x900, 0x400] ∧ r.ancestors 0x400 = [0x100] ∧
      FamilyIntact r := by
  obtain ⟨r, hr, hp⟩ := Reaches.of_checked_script familyStep FamilyCall.Sound
    ⟨zeroed.init, [], fun _ => []⟩
    (fun r => decide (r.queue = [0x100, 0x900, 0x400] ∧ r.ancestors 0x400 = [0x100]))
    [.spawn 0x100 none ⟨0x900, some 0, 0⟩, .spawn 0x200 (some 0x100) ⟨0xa00, none, 0⟩,
      .spawn 0x300 (some 0x200) ⟨0xa00, none, 0⟩, .spawn 0x400 (some 0x300) ⟨0xa00, none, 0⟩,
      .exit 0x200, .destroyProcess 0x300, .setState 0x100 sleeping, .destroyAllZombie]
    (by decide +kernel)
  obtain ⟨hq, ha⟩ := of_decide_eq_true hp
  exact ⟨r, hq, ha, parents_are_there hr⟩

end KmOS
