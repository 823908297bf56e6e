/-
# `KmOS.Cow.Isolation` — can one process write a page another one maps?

## What is proved

A run starts with directories whose user ranges share no frame and makes any
sequence of forks (`create_page_directory`, `cow_copy_page_range`) and write
faults (`handle_cow_fault`).  As long as each of them meets the condition
below, a frame that two directories have in their user ranges is writable in
neither, so a store by one process changes no byte another one reads
(`shared_frames_read_only`).

    a fault that makes the entry writable in place      no other directory has the frame
    a fault that moves the page                         no other directory has the new frame
    a page of a fork                                    the source has the frame writable
                                                        at no other user page

## What is not

The code does not see to the two conditions on faults.  A page that is
read-only when it is forked is passed on without being counted, so a second
fork of the same parent leaves the count one too low and the last counted
sharer is given the page to write while the uncounted one still maps it
(`second_fork_shares_writable_frame`).  And since a fault that moves a page
clears the bit of the frame it leaves, the frame the next fault is given can be
one another process still maps.
-/
import KmOS.Lib.Run
import KmOS.Cow.Effects

namespace KmOS

open Kernel

/-! ## Statement -/

/-- A page of the user range, `USER_OFFSET` up to `USER_STACK`. -/
def PageNo.IsUser (p : PageNo) : Prop := userOffset ≤ p.base ∧ p.base < userStack

instance (p : PageNo) : Decidable p.IsUser := inferInstanceAs (Decidable (_ ∧ _))

/-- No frame is in the user ranges of two directories. -/
def UserDisjoint (k : Kernel) : Prop :=
  ∀ pd ∈ k.live, ∀ pd' ∈ k.live, pd ≠ pd' → ∀ p q f, PageNo.IsUser p → PageNo.IsUser q →
    k.frameAt pd p = some f → k.frameAt pd' q ≠ some f

/-- A frame that is in the user ranges of two directories is writable in
neither. -/
def Isolated (k : Kernel) : Prop :=
  ∀ pd ∈ k.live, ∀ pd' ∈ k.live, pd ≠ pd' → ∀ p q e e', PageNo.IsUser p → PageNo.IsUser q →
    k.mapped pd p = some e → k.mapped pd' q = some e' → e.frame = e'.frame →
    e.writable = false ∧ e'.writable = false

/-- No directory but `pd` has frame `f` in its user range. -/
def OnlyIn (k : Kernel) (pd : Nat) (f : Fin maxFrames) : Prop :=
  ∀ pd' ∈ k.live, pd' ≠ pd → ∀ q, PageNo.IsUser q → k.frameAt pd' q ≠ some f

/-- The source has the frame of this page writable at no other user page. -/
def NoAlias (k : Kernel) (src : Nat) (p : PageNo) : Prop :=
  ∀ e q e', PageNo.IsUser p → PageNo.IsUser q → k.mapped src p = some e → q ≠ p →
    k.mapped src q = some e' → e'.frame = e.frame → e'.writable = false

/-- A step of a fork, or a write fault. -/
def CowCall.IsForkOrFault : CowCall → Prop
  | .create _ | .copy _ _ _ _ _ | .fault _ _ _ => True
  | _ => False

/-- Forks and write faults, with the condition each has to meet; other calls
are not made. -/
def CowCall.Isolating (k : Kernel) : CowCall → Prop
  | .create _ => True
  | .copy dst src start stop fuel =>
      LoopOk (copyPage dst src)
        (fun addr k => k.getPhysicalAddr src addr ≠ 0 → NoAlias k src (pageOf addr))
        stop fuel start k
  | .fault pd va errorCode =>
      errorCode &&& 2 ≠ 0 → PageNo.IsUser (pageOf va) →
        ∀ e, k.mapped pd (pageOf va) = some e → e.frame.val ≠ 0 →
          if ∃ c, k.findCowPage (e.frame.val * 4096) = some c ∧ 1 < c.refCount then
            k.allocFrame.1 ≠ 0 → OnlyIn k pd (frameOf k.allocFrame.1)
          else OnlyIn k pd e.frame
  | _ => False

def IsolatingStep (k : Kernel) (c : List Bool × CowCall) : Prop :=
  c.2.Isolating (k.withAnswers c.1)

/-! ## Loads and stores of a process -/

/-- The byte a process reads at `va`. -/
def Kernel.load (k : Kernel) (pd va : Nat) : Option UInt8 :=
  (k.mapped pd (pageOf va)).map fun e => k.physMem (e.frame.val * 4096 + va % 4096)

/-- A store at `va`; without the write permission it faults and stores nothing. -/
def Kernel.store (k : Kernel) (pd va : Nat) (b : UInt8) : Kernel :=
  match k.mapped pd (pageOf va) with
  | some e =>
      if e.writable then
        { k with physMem := Function.update k.physMem (e.frame.val * 4096 + va % 4096) b }
      else k
  | none => k

/-- An isolated store is not seen by another process. -/
theorem Isolated.load_store {k : Kernel} (h : Isolated k) {pd pd' : Nat} (hpd : pd ∈ k.live)
    (hpd' : pd' ∈ k.live) (hne : pd ≠ pd') {va va' : Nat} (hu : PageNo.IsUser (pageOf va))
    (hu' : PageNo.IsUser (pageOf va')) (b : UInt8) :
    (k.store pd va b).load pd' va' = k.load pd' va' := by
  unfold Kernel.store
  cases hm : k.mapped pd (pageOf va) with
  | none => rfl
  | some e =>
      simp only
      split
      · next hw =>
          show (k.mapped pd' (pageOf va')).map _ = (k.mapped pd' (pageOf va')).map _
          cases hm' : k.mapped pd' (pageOf va') with
          | none => rfl
          | some e' =>
              have hf : e.frame ≠ e'.frame := by
                intro heq
                have hro := (h pd hpd pd' hpd' hne _ _ e e' hu hu' hm hm' heq).1
                rw [hw] at hro
                exact absurd hro (by decide)
              have hval : e.frame.val ≠ e'.frame.val := fun heq => hf (Fin.ext heq)
              have haddr : e'.frame.val * 4096 + va' % 4096 ≠ e.frame.val * 4096 + va % 4096 := by
                omega
              simp only [Option.map_some, Function.update_of_ne haddr]
      · rfl

/-! ## The rules -/

theorem UserDisjoint.isolated {k : Kernel} (h : UserDisjoint k) : Isolated k := by
  intro pd hpd pd' hpd' hne p q e e' hp hq he he' hf
  refine absurd ?_ (h pd hpd pd' hpd' hne p q e.frame hp hq (frameAt_of_mapped he))
  rw [hf]
  exact frameAt_of_mapped he'

section
variable {k k' : Kernel}

/-- **The rule for one new entry.**  Everything else is as it was, and what
the other directories have on the frame of the new entry may be shared with
it. -/
theorem Isolated.put (h : Isolated k) (hl : k'.live = k.live) (pd₀ : Nat) (p₀ : PageNo)
    (e₀ : PageTableEntry)
    (hm : ∀ pd p e, k'.mapped pd p = some e →
      (pd = pd₀ ∧ p = p₀ ∧ e = e₀) ∨ k.mapped pd p = some e)
    (hnew : PageNo.IsUser p₀ → ∀ pd' ∈ k.live, pd' ≠ pd₀ → ∀ q e', PageNo.IsUser q →
      k.mapped pd' q = some e' → e'.frame = e₀.frame →
      e₀.writable = false ∧ e'.writable = false) : Isolated k' := by
  intro pd hpd pd' hpd' hne p q e e' hp hq he he' hf
  rw [hl] at hpd hpd'
  rcases hm pd p e he with ⟨rfl, rfl, rfl⟩ | hold
  · rcases hm pd' q e' he' with ⟨rfl, _, _⟩ | hold'
    · exact absurd rfl hne
    · exact hnew hp pd' hpd' (Ne.symm hne) q e' hq hold' hf.symm
  · rcases hm pd' q e' he' with ⟨rfl, rfl, rfl⟩ | hold'
    · exact (hnew hq pd hpd hne p e hp hold hf).symm
    · exact h pd hpd pd' hpd' hne p q e e' hp hq hold hold' hf

/-- No entry changes. -/
theorem Isolated.keep (h : Isolated k) (hl : k'.live = k.live)
    (hm : ∀ pd p, k'.mapped pd p = k.mapped pd p) : Isolated k' := by
  intro pd hpd pd' hpd' hne p q e e' hp hq he he' hf
  rw [hl] at hpd hpd'
  rw [hm] at he he'
  exact h pd hpd pd' hpd' hne p q e e' hp hq he he' hf

/-! ## One call -/

/-- A fresh directory has no pages. -/
theorem isolated_create (h : Isolated k) (pd : Nat) :
    Isolated (k.createPageDirectory pd).2 := by
  rcases k.createPageDirectory_view pd with ⟨hl, hm⟩ | ⟨hl, hm⟩
  · exact h.keep hl hm
  · have hold : ∀ pd' p e, (k.createPageDirectory pd).2.mapped pd' p = some e →
        pd' ≠ pd ∧ k.mapped pd' p = some e := by
      intro pd' p e he
      rw [hm] at he
      split at he
      · exact absurd he (by simp)
      · next hne => exact ⟨hne, he⟩
    intro pd₁ hpd₁ pd₂ hpd₂ hne p q e e' hp hq he he' hf
    obtain ⟨h1, hm₁⟩ := hold pd₁ p e he
    obtain ⟨h2, hm₂⟩ := hold pd₂ q e' he'
    rw [hl] at hpd₁ hpd₂
    exact h pd₁ ((Finset.mem_insert.mp hpd₁).resolve_left h1) pd₂
      ((Finset.mem_insert.mp hpd₂).resolve_left h2) hne p q e e' hp hq hm₁ hm₂ hf

/-- Write-protecting the source page. -/
theorem isolated_protectPage (h : Isolated k) {src addr : Nat} (hsrc : src ∈ k.live)
    {e : PageTableEntry} (he : k.mapped src (pageOf addr) = some e) (pa : Nat) :
    Isolated (k.protectPage src addr e pa).2 := by
  refine h.put (congrArg Owners.live (protectPage_owners e pa)) src (pageOf addr)
    { e with writable := false } ?_ ?_
  · intro pd p e' hm
    rw [protectPage_mapped he] at hm
    split at hm
    · next hq =>
        cases hm
        exact Or.inl ⟨hq.1, hq.2, rfl⟩
    · exact Or.inr hm
  · intro hu pd' hpd' hne q e' hq hm hf
    exact ⟨rfl, (h pd' hpd' src hsrc hne q _ e' e hq hu hm he hf).1⟩

/-- A page of a fork.  The destination gets the frame read-only; whoever else
has it in its user range has it read-only too. -/
theorem isolated_copyPage (h : Isolated k) {dst src : Nat} (hsrc : src ∈ k.live) {addr : Nat}
    (hna : k.getPhysicalAddr src addr ≠ 0 → NoAlias k src (pageOf addr)) :
    Isolated (copyPage dst src addr k).2 := by
  rcases k.copyPage_cases dst src addr with ⟨_, he⟩ | ⟨e, pa, hme, hpa, hpz, hcases⟩
  · rw [he]
    exact h
  have hna' := hna (by rw [getPhysicalAddr_of_mapped hme, ← hpa]; exact hpz)
  have hprot := isolated_protectPage h hsrc hme pa
  have hlive : (k.protectPage src addr e pa).2.live = k.live :=
    congrArg Owners.live (protectPage_owners e pa)
  obtain ⟨_, _, _, hpres⟩ := pageTable_of_mapped hme
  have hmap : Isolated ((k.protectPage src addr e pa).2.mapPage dst addr pa (passedFlags e)).2 := by
    refine hprot.put (live_of_rest (mapPage_rest _ _ _ _ _)) dst (pageOf addr)
      { e with writable := false } ?_ ?_
    · intro pd p e' hm
      rcases mapped_mapPage hm with ⟨h1, h2, h3⟩ | hold
      · rw [hpa, newEntry_passedFlags hpres] at h3
        exact Or.inl ⟨h1, h2, h3⟩
      · exact Or.inr hold
    · intro hu pd' hpd' _ q e' hq hm hf
      rw [hlive] at hpd'
      rw [protectPage_mapped hme] at hm
      refine ⟨rfl, ?_⟩
      split at hm
      · cases hm
        rfl
      · next hne =>
          by_cases hs : pd' = src
          · subst hs
            exact hna' e q e' hu hq hme (fun hqp => hne ⟨rfl, hqp⟩) hm hf
          · exact (h pd' hpd' src hsrc hs q _ e' e hq hu hm hme hf).1
  rcases hcases with ⟨_, he⟩ | ⟨_, _, he⟩ | ⟨_, _, he⟩
  · rw [he]
    exact hprot
  · rw [he]
    exact hmap
  · rw [he]
    exact hmap

/-- Nobody else has the frame, so nothing is asked of anybody else. -/
theorem OnlyIn.shared {pd : Nat} {f : Fin maxFrames} (h : OnlyIn k pd f) {P : Prop} {pd' : Nat}
    (hpd' : pd' ∈ k.live) (hne : pd' ≠ pd) {q : PageNo} (hq : PageNo.IsUser q)
    {e' : PageTableEntry} (hm : k.mapped pd' q = some e') (hf : e'.frame = f) : P :=
  absurd (frameAt_eq_some.mpr ⟨e', hm, hf⟩) (h pd' hpd' hne q hq)

/-- A write fault. -/
theorem isolated_fault (h : Isolated k) {pd va errorCode : Nat}
    (hs : CowCall.Isolating k (.fault pd va errorCode)) :
    Isolated (k.handleCowFault pd va errorCode).2 := by
  rcases k.handleCowFault_cases pd va errorCode with
    he | ⟨e, hme, hz, hw, ⟨hno, he⟩ | ⟨c, hc, hcount, ⟨_, he⟩ | ⟨ha, he⟩⟩⟩
  · rw [he]
    exact h
  · -- the entry becomes writable where it is
    rw [he]
    have hme' := hme
    rw [← pageOf_pageAddr] at hme'
    refine h.put (live_of_rest (k.setWritable_rest _ _ _)) pd (pageOf va)
      { e with writable := true } ?_ ?_
    · intro pd' p e' hm
      rw [setWritable_mapped hme', pageOf_pageAddr] at hm
      split at hm
      · next hq =>
          cases hm
          exact Or.inl ⟨hq.1, hq.2, rfl⟩
      · exact Or.inr hm
    · intro hu pd' hpd' hne q e' hq hm hf
      have hcond := hs hw hu e hme hz
      rw [if_neg] at hcond
      · exact hcond.shared hpd' hne hq hm hf
      · rintro ⟨c, hc, hlt⟩
        exact absurd (hno c hc) (by omega)
  · rw [he]
    exact h.keep (live_of_rest k.allocFrame_rest) (mapped_congr k.allocFrame_dir)
  · -- the page moves to the frame `alloc_frame` answered
    rw [he]
    have hme' : k.allocFrame.2.mapped pd (pageOf (pageAddr va)) = some e := by
      rw [mapped_congr k.allocFrame_dir, pageOf_pageAddr]
      exact hme
    have hl : (k.allocFrame.2.brokenShare pd (pageAddr va) (e.frame.val * 4096)
        k.allocFrame.1).live = k.live :=
      (congrArg Owners.live (brokenShare_owners _ _ _ _)).trans (live_of_rest k.allocFrame_rest)
    refine h.put hl pd (pageOf va) (newEntry k.allocFrame.1 brokenFlags) ?_ ?_
    · intro pd' p e' hm
      rw [brokenShare_mapped hme', pageOf_pageAddr, mapped_congr k.allocFrame_dir] at hm
      split at hm
      · next hq =>
          cases hm
          exact Or.inl ⟨hq.1, hq.2, rfl⟩
      · exact Or.inr hm
    · intro hu pd' hpd' hne q e' hq hm hf
      have hcond := hs hw hu e hme hz
      rw [if_pos ⟨c, hc, hcount⟩] at hcond
      exact (hcond ha).shared hpd' hne hq hm hf

theorem isolated_exec (h : Isolated k) {c : CowCall} (ha : c.Admissible k)
    (hs : c.Isolating k) : Isolated (c.exec k) := by
  cases c with
  | create pd => exact isolated_create h pd
  | copy dst src start stop fuel =>
      have hsrc : src ∈ k.live := ha.1 src (by simp [CowCall.dirs])
      exact (pageLoop_invariant (P := fun k => Isolated k ∧ src ∈ k.live)
        (fun _ hk => hk)
        (fun addr k hk hna => ⟨isolated_copyPage hk.1 hk.2 hna, by
          rw [copyPage_live]; exact hk.2⟩) fuel start k hs ⟨h, hsrc⟩).1
  | fault pd va errorCode => exact isolated_fault h hs
  | mapPages pd start stop flags fuel => exact absurd hs id
  | free pd start stop fuel => exact absurd hs id
  | unmap pd va => exact absurd hs id
  | destroy pd => exact absurd hs id
  | teardown pd => exact absurd hs id

/-- **One step.** -/
theorem isolated_step {c : List Bool × CowCall} (h : Isolated k) (hs : IsolatingStep k c)
    (hstep : cowStep k c = some k') : Isolated k' := by
  have h' : Isolated (k.withAnswers c.1) := h.keep rfl (fun _ _ => rfl)
  obtain ⟨ha, rfl⟩ := cowStep_eq_some hstep
  exact isolated_exec h' ha hs

end

/-! ## The result -/

/-- **Copy-on-write isolation**, for runs whose calls meet the condition. -/
theorem shared_frames_read_only {k₀ k : Kernel} (h0 : UserDisjoint k₀)
    (hr : Reaches cowStep IsolatingStep k₀ k) :
    (∀ pd ∈ k.live, ∀ pd' ∈ k.live, pd ≠ pd' → ∀ p q e e',
      PageNo.IsUser p → PageNo.IsUser q → k.mapped pd p = some e → k.mapped pd' q = some e' →
      e.frame = e'.frame → e.writable = false ∧ e'.writable = false) ∧
    ∀ pd ∈ k.live, ∀ pd' ∈ k.live, pd ≠ pd' → ∀ va va' b,
      PageNo.IsUser (pageOf va) → PageNo.IsUser (pageOf va') →
      (k.store pd va b).load pd' va' = k.load pd' va' := by
  have h : Isolated k :=
    hr.invariant h0.isolated (fun _ _ _ hk hs hstep => isolated_step hk hs hstep)
  exact ⟨h, fun pd hpd pd' hpd' hne va va' b hu hu' => h.load_store hpd hpd' hne hu hu' b⟩

theorem oneProcess_userDisjoint : UserDisjoint oneProcess := by
  have hl : oneProcess.live = {1} := by decide +kernel
  intro pd hpd pd' hpd' hne
  rw [hl, Finset.mem_singleton] at hpd hpd'
  exact absurd (hpd.trans hpd'.symm) hne

theorem childCreated_noAlias : NoAlias childCreated 1 (pageOf userOffset) := by
  intro e q e' _ _ _ hne hm
  exact absurd (childCreated_onlyPage 1 (by decide +kernel) q e' hm) hne

/-- A process and its child, right after the fork. -/
theorem shared_frames_read_only_forked :
    Reaches cowStep IsolatingStep oneProcess childForked ∧
      childForked.mapped 1 (pageOf userOffset) = some sharedEntry ∧
      childForked.mapped 2 (pageOf userOffset) = some sharedEntry ∧
      ∀ b, (childForked.store 1 userOffset b).load 2 userOffset =
        childForked.load 2 userOffset := by
  have h1 : cowStep oneProcess ([], .create 2) = some childCreated :=
    cowStep_eq (by decide +kernel) (by decide +kernel)
  have h2 : cowStep childCreated ([], .copy 2 1 userOffset (userOffset + 4096) 2) =
      some childForked := cowStep_eq (by decide +kernel) (by decide +kernel)
  have hok : IsolatingStep childCreated ([], .copy 2 1 userOffset (userOffset + 4096) 2) :=
    fun _ => ⟨fun _ => childCreated_noAlias, fun _ hlt => absurd hlt (by decide)⟩
  have hr : Reaches cowStep IsolatingStep oneProcess childForked :=
    .tail (.tail (a := ([], .create 2)) .refl True.intro h1) hok h2
  refine ⟨hr, by decide +kernel, by decide +kernel, ?_⟩
  intro b
  exact (shared_frames_read_only oneProcess_userDisjoint hr).2 1 (by decide +kernel) 2
    (by decide +kernel) (by decide) userOffset userOffset b (by decide) (by decide)

/-- Two forks of one parent, a write fault of the first child, a write fault
of the parent: the parent has frame 257 writable, the second child has it too,
and a store of the parent is read by that child. -/
theorem second_fork_shares_writable_frame :
    UserDisjoint oneProcess ∧
    ∃ k, Reaches cowStep (fun _ c => c.2.IsForkOrFault) oneProcess k ∧ 1 ∈ k.live ∧ 3 ∈ k.live ∧
      PageNo.IsUser (pageOf userOffset) ∧
      k.mapped 1 (pageOf userOffset) = some { sharedEntry with writable := true } ∧
      k.mapped 3 (pageOf userOffset) = some sharedEntry ∧
      k.load 3 userOffset = some 0 ∧ (k.store 1 userOffset 7).load 3 userOffset = some 7 := by
  obtain ⟨k, hr, hp⟩ := Reaches.of_script cowStep (fun _ c => c.2.IsForkOrFault) oneProcess
    (fun k => decide (1 ∈ k.live ∧ 3 ∈ k.live ∧ PageNo.IsUser (pageOf userOffset) ∧
      k.mapped 1 (pageOf userOffset) = some { sharedEntry with writable := true } ∧
      k.mapped 3 (pageOf userOffset) = some sharedEntry ∧
      k.load 3 userOffset = some 0 ∧ (k.store 1 userOffset 7).load 3 userOffset = some 7))
    [([], .create 2), ([], .copy 2 1 userOffset (userOffset + 4096) 2), ([], .create 3),
      ([], .copy 3 1 userOffset (userOffset + 4096) 2), ([], .fault 2 userOffset 2),
      ([], .fault 1 userOffset 2)]
    (by
      intro _ c hc
      simp only [List.mem_cons, List.not_mem_nil, or_false] at hc
      rcases hc with rfl | rfl | rfl | rfl | rfl | rfl <;> exact True.intro)
    (by decide +kernel)
  exact ⟨oneProcess_userDisjoint, k, hr, of_decide_eq_true hp⟩

end KmOS
