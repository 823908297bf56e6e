/-
# `KmOS.Cow.FrameSafety` — is a mapped frame marked used?

## What is proved

A run starts with directories on pairwise distinct frames, all of them taken
from `alloc_frame`, and makes any sequence of `map_pages`,
`cow_copy_page_range`, `handle_cow_fault`, `cow_free_page_range`,
`unmap_page`, `destroy_page_directory` and process teardowns, on any number
of directories.  As long as no call gives up a page whose frame another
directory maps, every mapped frame has its bit set in every state reached,
and `alloc_frame` hands out no mapped frame (`mapped_frames_marked`).

Giving up a page happens in five places: `unmap_page`, each page of
`cow_free_page_range`, every page in `destroy_page_directory` and in a
teardown, and the copying branch of a write fault.  Forking and mapping need
no condition.

## What is not

`unmap_page` and `destroy_page_directory` clear the bit of a frame without
asking the copy-on-write records.  After one fork, the first write fault of
the child already clears the bit of the frame its parent still maps
(`fault_frees_parent_frame`), and the next `alloc_frame` hands that frame out.

The proof keeps more than the bits: a frame is mapped at one page number only,
whichever directory maps it, and no directory maps the frame another directory
itself lies in (`FrameSafe`).
-/
import KmOS.Lib.Run
import KmOS.Cow.Effects

namespace KmOS

open Kernel

/-! ## Statement -/

/-- Every mapped frame has its bit set. -/
def Marked (k : Kernel) : Prop :=
  ∀ pd ∈ k.live, ∀ p f, k.frameAt pd p = some f → k.used f.val = true

/-- Where a run starts: the entries of all directories are on pairwise
distinct frames, each directory lies in a frame of its own, all of them are
marked, and no mapping record exists. -/
structure DistinctFrames (k : Kernel) : Prop where
  marked : Marked k
  distinct : ∀ pd ∈ k.live, ∀ pd' ∈ k.live, ∀ p p' f,
    k.frameAt pd p = some f → k.frameAt pd' p' = some f → pd = pd' ∧ p = p'
  ownMarked : ∀ pd ∈ k.live, k.own pd ≠ 0 → k.used (k.own pd / frameSize) = true
  ownDistinct : ∀ pd ∈ k.live, ∀ pd' ∈ k.live, k.own pd ≠ 0 → k.own pd' ≠ 0 →
    k.own pd / frameSize = k.own pd' / frameSize → pd = pd'
  ownUnmapped : ∀ pd ∈ k.live, k.own pd ≠ 0 → ∀ pd' ∈ k.live, ∀ p f,
    k.frameAt pd' p = some f → f.val ≠ k.own pd / frameSize
  noMappings : k.cowMappings = []

/-- No other directory maps the frame `pd` has page `p` on. -/
def Exclusive (k : Kernel) (pd : Nat) (p : PageNo) : Prop :=
  ∀ f, k.frameAt pd p = some f → ∀ pd' ∈ k.live, pd' ≠ pd → ∀ q, k.frameAt pd' q ≠ some f

/-- The pages a call gives up are exclusive. -/
def CowCall.Safe (k : Kernel) : CowCall → Prop
  | .create _ | .mapPages _ _ _ _ _ | .copy _ _ _ _ _ => True
  | .fault pd va errorCode =>
      errorCode &&& 2 ≠ 0 → k.getPhysicalAddr pd (pageAddr va) ≠ 0 →
        ∀ c, k.findCowPage (k.getPhysicalAddr pd (pageAddr va)) = some c → 1 < c.refCount →
          k.allocFrame.1 ≠ 0 → Exclusive k pd (pageOf va)
  | .free pd start stop fuel =>
      LoopOk (freePage pd)
        (fun addr k => k.getPhysicalAddr pd addr ≠ 0 → Exclusive k pd (pageOf addr))
        stop fuel start k
  | .unmap pd va => Exclusive k pd (pageOf va)
  | .destroy pd | .teardown pd => ∀ p, Exclusive k pd p

/-- The condition on a step of a run. -/
def SafeStep (k : Kernel) (c : List Bool × CowCall) : Prop := c.2.Safe (k.withAnswers c.1)

/-! ## The invariant -/

structure FrameSafe (k : Kernel) : Prop where
  marked : Marked k
  /-- Sharing keeps the page number. -/
  samePage : ∀ pd ∈ k.live, ∀ pd' ∈ k.live, ∀ p p' f,
    k.frameAt pd p = some f → k.frameAt pd' p' = some f → p = p'
  ownMarked : ∀ pd ∈ k.live, k.own pd ≠ 0 → k.used (k.own pd / frameSize) = true
  ownDistinct : ∀ pd ∈ k.live, ∀ pd' ∈ k.live, k.own pd ≠ 0 → k.own pd' ≠ 0 →
    k.own pd / frameSize = k.own pd' / frameSize → pd = pd'
  ownUnmapped : ∀ pd ∈ k.live, k.own pd ≠ 0 → ∀ pd' ∈ k.live, ∀ p f,
    k.frameAt pd' p = some f → f.val ≠ k.own pd / frameSize
  noMappings : k.cowMappings = []

theorem DistinctFrames.frameSafe {k : Kernel} (h : DistinctFrames k) : FrameSafe k where
  marked := h.marked
  samePage pd hpd pd' hpd' p p' f hf hf' := (h.distinct pd hpd pd' hpd' p p' f hf hf').2
  ownMarked := h.ownMarked
  ownDistinct := h.ownDistinct
  ownUnmapped := h.ownUnmapped
  noMappings := h.noMappings

/-- Frame number `n` is mapped by no directory and is no directory's own. -/
structure Unneeded (k : Kernel) (n : Nat) : Prop where
  unmapped : ∀ pd ∈ k.live, ∀ p f, k.frameAt pd p = some f → f.val ≠ n
  notOwn : ∀ pd ∈ k.live, k.own pd ≠ 0 → k.own pd / frameSize ≠ n

section
variable {k k' : Kernel}

/-- The invariant survives when pages only go away and every bit that is
cleared is one nobody needs afterwards. -/
theorem FrameSafe.shrink (h : FrameSafe k) (ho : k'.owners = k.owners)
    (hm : ∀ pd ∈ k.live, ∀ p f, k'.frameAt pd p = some f → k.frameAt pd p = some f)
    (hu : ∀ n, k.used n = true → k'.used n = true ∨ Unneeded k' n) : FrameSafe k' := by
  have hl : k'.live = k.live := congrArg Owners.live ho
  have hown : k'.own = k.own := congrArg Owners.own ho
  have hc : k'.cowMappings = k.cowMappings := congrArg Owners.cowMappings ho
  refine ⟨?_, ?_, ?_, ?_, ?_, hc.trans h.noMappings⟩
  · intro pd hpd p f hf
    rcases hu f.val (h.marked pd (hl ▸ hpd) p f (hm pd (hl ▸ hpd) p f hf)) with hn | hn
    · exact hn
    · exact absurd rfl (hn.unmapped pd hpd p f hf)
  · intro pd hpd pd' hpd' p p' f hf hf'
    rw [hl] at hpd hpd'
    exact h.samePage pd hpd pd' hpd' p p' f (hm pd hpd p f hf) (hm pd' hpd' p' f hf')
  · intro pd hpd hz
    have hu' := hu (k.own pd / frameSize) (h.ownMarked pd (hl ▸ hpd) (hown ▸ hz))
    rw [← hown] at hu'
    rcases hu' with hn | hn
    · exact hn
    · exact absurd rfl (hn.notOwn pd hpd hz)
  · intro pd hpd pd' hpd' hz hz' heq
    rw [hl] at hpd hpd'
    rw [hown] at hz hz' heq
    exact h.ownDistinct pd hpd pd' hpd' hz hz' heq
  · intro pd hpd hz pd' hpd' p f hf
    rw [hl] at hpd hpd'
    rw [hown] at hz ⊢
    exact h.ownUnmapped pd hpd hz pd' hpd' p f (hm pd' hpd' p f hf)

/-- A call that clears no bit and moves no page keeps the invariant. -/
theorem FrameSafe.keep (h : FrameSafe k) (ho : k'.owners = k.owners)
    (hm : ∀ pd p, k'.frameAt pd p = k.frameAt pd p)
    (hu : ∀ n, k.used n = true → k'.used n = true) : FrameSafe k' :=
  h.shrink ho (fun pd _ p _ hf => hm pd p ▸ hf) (fun n hn => Or.inl (hu n hn))

/-- One page is put on frame `f`, which is marked and either mapped by nobody
or mapped at the same page by somebody. -/
theorem FrameSafe.put (h : FrameSafe k) {pd₀ : Nat} {p₀ : PageNo} {f₀ : Fin maxFrames}
    (ho : k'.owners = k.owners)
    (hm : ∀ pd ∈ k.live, ∀ p f, k'.frameAt pd p = some f →
      (pd = pd₀ ∧ p = p₀ ∧ f = f₀) ∨ k.frameAt pd p = some f)
    (hu : ∀ n, k.used n = true → k'.used n = true)
    (hf₀ : k'.used f₀.val = true ∧ Unneeded k f₀.val ∨
      ∃ pd ∈ k.live, k.frameAt pd p₀ = some f₀) : FrameSafe k' := by
  have hl : k'.live = k.live := congrArg Owners.live ho
  have hown : k'.own = k.own := congrArg Owners.own ho
  have hc : k'.cowMappings = k.cowMappings := congrArg Owners.cowMappings ho
  have hmark : k'.used f₀.val = true := by
    rcases hf₀ with ⟨hu₀, _⟩ | ⟨pd, hpd, hf⟩
    · exact hu₀
    · exact hu _ (h.marked pd hpd p₀ f₀ hf)
  -- whoever maps the new frame maps it at the new page
  have hpage : ∀ pd ∈ k.live, ∀ p, k.frameAt pd p = some f₀ → p = p₀ := by
    intro pd hpd p hf
    rcases hf₀ with ⟨_, hun⟩ | ⟨pd₁, hpd₁, hf₁⟩
    · exact absurd rfl (hun.unmapped pd hpd p f₀ hf)
    · exact h.samePage pd hpd pd₁ hpd₁ p p₀ f₀ hf hf₁
  have hapart : ∀ pd ∈ k.live, k.own pd ≠ 0 → f₀.val ≠ k.own pd / frameSize := by
    intro pd hpd hz
    rcases hf₀ with ⟨_, hun⟩ | ⟨pd₁, hpd₁, hf₁⟩
    · exact (hun.notOwn pd hpd hz).symm
    · exact h.ownUnmapped pd hpd hz pd₁ hpd₁ p₀ f₀ hf₁
  refine ⟨?_, ?_, ?_, ?_, ?_, hc.trans h.noMappings⟩
  · intro pd hpd p f hf
    rw [hl] at hpd
    rcases hm pd hpd p f hf with ⟨_, _, rfl⟩ | hold
    · exact hmark
    · exact hu _ (h.marked pd hpd p f hold)
  · intro pd hpd pd' hpd' p p' f hf hf'
    rw [hl] at hpd hpd'
    rcases hm pd hpd p f hf with ⟨_, rfl, rfl⟩ | hold
    · rcases hm pd' hpd' p' f hf' with ⟨_, rfl, _⟩ | hold'
      · rfl
      · exact (hpage pd' hpd' p' hold').symm
    · rcases hm pd' hpd' p' f hf' with ⟨_, rfl, rfl⟩ | hold'
      · exact hpage pd hpd p hold
      · exact h.samePage pd hpd pd' hpd' p p' f hold hold'
  · intro pd hpd hz
    rw [hl] at hpd
    rw [hown] at hz ⊢
    exact hu _ (h.ownMarked pd hpd hz)
  · intro pd hpd pd' hpd' hz hz' heq
    rw [hl] at hpd hpd'
    rw [hown] at hz hz' heq
    exact h.ownDistinct pd hpd pd' hpd' hz hz' heq
  · intro pd hpd hz pd' hpd' p f hf
    rw [hl] at hpd hpd'
    rw [hown] at hz ⊢
    rcases hm pd' hpd' p f hf with ⟨_, _, rfl⟩ | hold
    · exact hapart pd hpd hz
    · exact h.ownUnmapped pd hpd hz pd' hpd' p f hold

/-! ## The frame a call gets, and the frames it gives up -/

theorem frameSafe_allocFrame (h : FrameSafe k) : FrameSafe k.allocFrame.2 :=
  h.keep (owners_of_rest k.allocFrame_rest) (frameAt_congr k.allocFrame_dir)
    (fun _ hn => used_allocFrame_of_used hn)

/-- A frame fresh from `alloc_frame` is marked, and nobody needs it. -/
theorem unneeded_allocFrame (h : FrameSafe k) (ha : k.allocFrame.1 ≠ 0) :
    k.allocFrame.2.used (frameOf k.allocFrame.1).val = true ∧
      Unneeded k.allocFrame.2 (frameOf k.allocFrame.1).val ∧
      k.allocFrame.1 / frameSize = (frameOf k.allocFrame.1).val ∧
      k.used (frameOf k.allocFrame.1).val = false := by
  obtain ⟨i, _, hi, hun, _, he⟩ := allocFrame_of_ne_zero ha
  have hfi : (frameOf k.allocFrame.1).val = i := by
    rw [he, frameOf_mul, Nat.mod_eq_of_lt hi]
  have hdiv : k.allocFrame.1 / frameSize = i := by
    rw [he]
    exact Nat.mul_div_cancel _ (by decide)
  have ho := owners_of_rest k.allocFrame_rest
  have hl : k.allocFrame.2.live = k.live := congrArg Owners.live ho
  have hown : k.allocFrame.2.own = k.own := congrArg Owners.own ho
  rw [hfi]
  refine ⟨?_, ⟨?_, ?_⟩, hdiv, hun⟩
  · rw [he]
    exact Words.testBit_setBit_self _ _
  · intro pd hpd p f hf heq
    rw [frameAt_congr k.allocFrame_dir] at hf
    have hmk := h.marked pd (hl ▸ hpd) p f hf
    rw [heq, hun] at hmk
    exact absurd hmk (by decide)
  · intro pd hpd hz heq
    rw [hown] at hz heq
    have hmk := h.ownMarked pd (hl ▸ hpd) hz
    rw [heq, hun] at hmk
    exact absurd hmk (by decide)

/-- Freeing a frame nobody needs. -/
theorem FrameSafe.freeFrame (h : FrameSafe k) {a : Nat} (hun : Unneeded k (a / frameSize)) :
    FrameSafe (k.freeFrame a) := by
  have ho := owners_of_rest (k.freeFrame_rest a)
  have hl : (k.freeFrame a).live = k.live := congrArg Owners.live ho
  have hown : (k.freeFrame a).own = k.own := congrArg Owners.own ho
  refine h.shrink ho (fun pd _ p f hf => frameAt_congr (k.freeFrame_dir a) pd p ▸ hf) ?_
  intro n hn
  by_cases heq : n = a / frameSize
  · subst heq
    refine Or.inr ⟨?_, ?_⟩
    · intro pd hpd p f hf
      rw [frameAt_congr (k.freeFrame_dir a)] at hf
      exact hun.unmapped pd (hl ▸ hpd) p f hf
    · rw [hl, hown]
      exact hun.notOwn
  · exact Or.inl (by rw [used_freeFrame_of_ne heq]; exact hn)

/-- Giving up an exclusive page. -/
theorem FrameSafe.unmapPage (h : FrameSafe k) {pd va : Nat} (hpd : pd ∈ k.live)
    (hex : Exclusive k pd (pageOf va)) : FrameSafe (k.unmapPage pd va) := by
  have ho := owners_of_rest (k.unmapPage_rest pd va)
  have hl : (k.unmapPage pd va).live = k.live := congrArg Owners.live ho
  have hown : (k.unmapPage pd va).own = k.own := congrArg Owners.own ho
  have hm : ∀ pd', ∀ p f, (k.unmapPage pd va).frameAt pd' p = some f →
      ¬ (pd' = pd ∧ p = pageOf va) ∧ k.frameAt pd' p = some f := by
    intro pd' p f hf
    rw [frameAt_unmapPage] at hf
    split at hf
    · exact absurd hf (by simp)
    · next hne => exact ⟨hne, hf⟩
  refine h.shrink ho (fun pd' _ p f hf => (hm pd' p f hf).2) ?_
  intro n hn
  rcases k.unmapPage_cases pd va with ⟨_, he⟩ | ⟨e, hme, _⟩
  · exact Or.inl (by rw [he]; exact hn)
  have hfe := frameAt_of_mapped hme
  by_cases heq : n = e.frame.val
  · subst heq
    refine Or.inr ⟨?_, ?_⟩
    · intro pd' hpd' p f hf hval
      obtain ⟨hne, hold⟩ := hm pd' p f hf
      rw [hl] at hpd'
      have hff : f = e.frame := Fin.ext hval
      subst hff
      have hp := h.samePage pd' hpd' pd hpd p (pageOf va) e.frame hold hfe
      have hpd'ne : pd' ≠ pd := fun heq => hne ⟨heq, hp⟩
      exact hex e.frame hfe pd' hpd' hpd'ne p hold
    · intro pd' hpd' hz
      rw [hl] at hpd'
      rw [hown] at hz ⊢
      exact (h.ownUnmapped pd' hpd' hz pd hpd (pageOf va) e.frame hfe).symm
  · refine Or.inl ?_
    rw [unmapPage_used hme]
    simp [heq, hn]

/-- A record update keeps the invariant. -/
theorem FrameSafe.withRecords (h : FrameSafe k) (cs : List CowPage) (answers : List Bool) :
    FrameSafe { k with cowPages := cs, kmallocs := answers } :=
  h.keep rfl (fun _ _ => rfl) (fun _ hn => hn)

theorem FrameSafe.hang (h : FrameSafe k) : FrameSafe { k with hung := true } :=
  h.keep rfl (fun _ _ => rfl) (fun _ hn => hn)

/-! ## One call -/

theorem frameSafe_mapPage (h : FrameSafe k) {pd va pa flags : Nat}
    (hf : k.used (frameOf pa).val = true ∧ Unneeded k (frameOf pa).val ∨
      ∃ pd' ∈ k.live, k.frameAt pd' (pageOf va) = some (frameOf pa)) :
    FrameSafe (k.mapPage pd va pa flags).2 := by
  refine h.put (owners_of_rest (k.mapPage_rest pd va pa flags))
    (fun _ _ _ _ hf => frameAt_mapPage hf) (fun _ hn => mapPage_used hn) ?_
  rcases hf with ⟨hu, hun⟩ | hs
  · exact Or.inl ⟨mapPage_used hu, hun⟩
  · exact Or.inr hs

/-- A page of `map_pages`. -/
theorem frameSafe_mapFreshPage (h : FrameSafe k) (pd flags addr : Nat) :
    FrameSafe (mapFreshPage pd flags addr k).2 := by
  have h₁ := frameSafe_allocFrame h
  rcases k.mapFreshPage_cases pd flags addr with ⟨_, he⟩ | ⟨ha, hr, he⟩ | ⟨ha, hr, he⟩
  · rw [he]
    exact h₁
  · obtain ⟨hu, hun, _, _⟩ := unneeded_allocFrame h ha
    rw [he]
    exact frameSafe_mapPage h₁ (Or.inl ⟨hu, hun⟩)
  · -- the frame taken for the page goes back before anybody has mapped it
    obtain ⟨hu, hun, hdiv, _⟩ := unneeded_allocFrame h ha
    have h₂ : FrameSafe (k.allocFrame.2.mapPage pd addr k.allocFrame.1 flags).2 :=
      frameSafe_mapPage h₁ (Or.inl ⟨hu, hun⟩)
    have ho := owners_of_rest (k.allocFrame.2.mapPage_rest pd addr k.allocFrame.1 flags)
    have hl : (k.allocFrame.2.mapPage pd addr k.allocFrame.1 flags).2.live = _ :=
      congrArg Owners.live ho
    rw [he]
    refine h₂.freeFrame ⟨?_, ?_⟩
    · intro pd' hpd' p f hf
      rw [frameAt, mapPage_mapped_fail hr] at hf
      rw [hl] at hpd'
      rw [hdiv]
      exact hun.unmapped pd' hpd' p f hf
    · intro pd' hpd' hz
      rw [show Kernel.own _ = _ from congrArg Owners.own ho] at hz ⊢
      rw [hl] at hpd'
      rw [hdiv]
      exact hun.notOwn pd' hpd' hz

theorem frameSafe_protectPage (h : FrameSafe k) {src addr : Nat} {e : PageTableEntry}
    (he : k.mapped src (pageOf addr) = some e) (pa : Nat) :
    FrameSafe (k.protectPage src addr e pa).2 := by
  refine h.keep (protectPage_owners e pa) (protectPage_frameAt he pa) ?_
  intro n hn
  unfold used
  rw [protectPage_frameBitmap]
  exact hn

/-- A page of `cow_copy_page_range`: the destination joins the source on a
frame that is marked already. -/
theorem frameSafe_copyPage (h : FrameSafe k) {dst src : Nat} (hsrc : src ∈ k.live) (addr : Nat) :
    FrameSafe (copyPage dst src addr k).2 := by
  rcases k.copyPage_cases dst src addr with ⟨_, he⟩ | ⟨e, pa, hme, hpa, _, hcases⟩
  · rw [he]
    exact h
  have hp := frameSafe_protectPage h hme pa
  have hmap : FrameSafe ((k.protectPage src addr e pa).2.mapPage dst addr pa (passedFlags e)).2 := by
    refine frameSafe_mapPage hp (Or.inr ⟨src, ?_, ?_⟩)
    · rw [show Kernel.live _ = _ from congrArg Owners.live (protectPage_owners e pa)]
      exact hsrc
    · rw [protectPage_frameAt hme, hpa, frameOf_physical]
      exact frameAt_of_mapped hme
  rcases hcases with ⟨_, he⟩ | ⟨_, _, he⟩ | ⟨_, _, he⟩
  · rw [he]
    exact hp
  · rw [he]
    exact hmap
  · rw [he]
    exact hmap

/-- A page of `cow_free_page_range`.  `dec_cow_ref` may clear the bit before
`unmap_page` does; either way it is the bit of the page given up. -/
theorem frameSafe_freePage (h : FrameSafe k) {pd addr : Nat} (hpd : pd ∈ k.live)
    (hex : k.getPhysicalAddr pd addr ≠ 0 → Exclusive k pd (pageOf addr)) :
    FrameSafe (freePage pd addr k).2 := by
  rcases k.freePage_cases pd addr with he | ⟨e, hme, hpa, he⟩
  · rw [he]
    exact h
  rw [he]
  show FrameSafe ((k.decCowRef (e.frame.val * 4096 + addr % 4096)).unmapPage pd addr)
  have hex' := hex (by rw [getPhysicalAddr_of_mapped hme]; exact hpa)
  have hsafe := h.unmapPage hpd hex'
  obtain ⟨cs, hd | hd⟩ := k.decCowRef_frame (e.frame.val * 4096 + addr % 4096)
  · have h' : FrameSafe { k with cowPages := cs } := h.withRecords cs k.kmallocs
    rw [hd]
    exact h'.unmapPage hpd hex'
  · -- the two ways of clearing the bit leave the same bits
    rw [hd]
    have hm : ∀ pd' p, ({ k.freeFrame (e.frame.val * 4096 + addr % 4096) with
        cowPages := cs }).frameAt pd' p = k.frameAt pd' p :=
      frameAt_congr (k.freeFrame_dir _)
    have hme' : ({ k.freeFrame (e.frame.val * 4096 + addr % 4096) with cowPages := cs }).mapped pd
        (pageOf addr) = some e := by
      rw [← hme]
      exact mapped_congr (k.freeFrame_dir _) pd (pageOf addr)
    refine hsafe.keep ?_ ?_ ?_
    · rw [owners_of_rest (unmapPage_rest _ pd addr), owners_of_rest (k.unmapPage_rest pd addr)]
      show (k.freeFrame _).owners = k.owners
      exact owners_of_rest (k.freeFrame_rest _)
    · intro pd' p
      rw [frameAt_unmapPage, frameAt_unmapPage, hm]
    · intro n hn
      rw [unmapPage_used hme] at hn
      rw [unmapPage_used hme']
      simp only [Bool.and_eq_true, Bool.not_eq_true', decide_eq_false_iff_not] at hn ⊢
      refine ⟨hn.1, ?_⟩
      show (k.freeFrame (e.frame.val * 4096 + addr % 4096)).used n = true
      rw [used_freeFrame_of_ne (by rw [physical_div]; exact hn.1)]
      exact hn.2

/-- A page that nobody else has moves to a marked frame that nobody needs. -/
theorem FrameSafe.remap (h : FrameSafe k) {pd va a flags : Nat} {e : PageTableEntry}
    (hpd : pd ∈ k.live) (hex : Exclusive k pd (pageOf va))
    (hme : k.mapped pd (pageOf va) = some e) (hu : k.used (frameOf a).val = true)
    (hun : Unneeded k (frameOf a).val) (hne : (frameOf a).val ≠ e.frame.val) :
    FrameSafe ((k.unmapPage pd va).mapPage pd va a flags).2 := by
  have ho := owners_of_rest (k.unmapPage_rest pd va)
  have hl : (k.unmapPage pd va).live = k.live := congrArg Owners.live ho
  refine frameSafe_mapPage (h.unmapPage hpd hex) (Or.inl ⟨?_, ?_, ?_⟩)
  · rw [unmapPage_used hme]
    simp [hne, hu]
  · intro pd' hpd' p f hf
    rw [frameAt_unmapPage] at hf
    split at hf
    · exact absurd hf (by simp)
    · exact hun.unmapped pd' (hl ▸ hpd') p f hf
  · intro pd' hpd' hz
    rw [show Kernel.own _ = _ from congrArg Owners.own ho] at hz ⊢
    exact hun.notOwn pd' (hl ▸ hpd') hz

theorem remap_cowPages (k : Kernel) (pd va a flags : Nat) :
    ((k.unmapPage pd va).mapPage pd va a flags).2.cowPages = k.cowPages :=
  (congrArg Rest.cowPages (mapPage_rest (k.unmapPage pd va) pd va a flags)).trans
    (congrArg Rest.cowPages (k.unmapPage_rest pd va))

/-- A write fault. -/
theorem frameSafe_fault (h : FrameSafe k) {pd va errorCode : Nat} (hpd : pd ∈ k.live)
    (hs : CowCall.Safe k (.fault pd va errorCode)) :
    FrameSafe (k.handleCowFault pd va errorCode).2 := by
  rcases k.handleCowFault_cases pd va errorCode with
    he | ⟨e, hme, hz, hw, ⟨_, he⟩ | ⟨c, hc, hcount, ⟨_, he⟩ | ⟨ha, he⟩⟩⟩
  · rw [he]
    exact h
  · rw [he]
    have hme' := hme
    rw [← pageOf_pageAddr] at hme'
    refine h.keep (owners_of_rest (k.setWritable_rest _ _ _)) (frameAt_setWritable hme' true) ?_
    intro n hn
    show (k.setWritable pd (pageAddr va) true).frameBitmap.testBit n = true
    rw [setWritable_frameBitmap]
    exact hn
  · rw [he]
    exact frameSafe_allocFrame h
  · -- the page moves to a new frame; its old one is given up and must be exclusive
    have hme' := hme
    rw [← pageOf_pageAddr] at hme'
    have hpa : k.getPhysicalAddr pd (pageAddr va) = e.frame.val * 4096 := by
      rw [getPhysicalAddr_of_mapped hme', pageAddr_mod, Nat.add_zero]
    have hex : Exclusive k pd (pageOf (pageAddr va)) := by
      rw [pageOf_pageAddr]
      exact hs hw (by rw [hpa]; omega) c (by rw [hpa]; exact hc) hcount ha
    obtain ⟨hu, hun, _, hclear⟩ := unneeded_allocFrame h ha
    have h₁ : FrameSafe (k.allocFrame.2.copyFrame k.allocFrame.1 (e.frame.val * 4096)) :=
      (frameSafe_allocFrame h).keep rfl (fun _ _ => rfl) (fun _ hn => hn)
    rw [he]
    generalize hk₁ : k.allocFrame.2.copyFrame k.allocFrame.1 (e.frame.val * 4096) = k₁ at h₁
    have hm₁ : ∀ pd' p, k₁.frameAt pd' p = k.frameAt pd' p := by
      rw [← hk₁]
      exact frameAt_congr k.allocFrame_dir
    have hl₁ : k₁.live = k.live := by
      rw [← hk₁]
      show k.allocFrame.2.live = k.live
      exact live_of_rest k.allocFrame_rest
    have hme₁ : k₁.mapped pd (pageOf (pageAddr va)) = some e := by
      rw [← hme', ← hk₁]
      exact mapped_congr k.allocFrame_dir pd _
    have hex₁ : Exclusive k₁ pd (pageOf (pageAddr va)) := by
      intro f hf pd' hpd' hne q
      rw [hm₁] at hf ⊢
      exact hex f hf pd' (hl₁ ▸ hpd') hne q
    have hu₁ : k₁.used (frameOf k.allocFrame.1).val = true := by
      rw [← hk₁]
      exact hu
    have hun₁ : Unneeded k₁ (frameOf k.allocFrame.1).val := by
      rw [← hk₁]
      exact ⟨hun.unmapped, hun.notOwn⟩
    have hne : (frameOf k.allocFrame.1).val ≠ e.frame.val := by
      intro heq
      have hmk := h.marked pd hpd _ e.frame (frameAt_of_mapped hme)
      rw [← heq, hclear] at hmk
      exact absurd hmk (by decide)
    have hmap : FrameSafe ((k₁.unmapPage pd (pageAddr va)).mapPage pd (pageAddr va)
        k.allocFrame.1 brokenFlags).2 :=
      h₁.remap (hl₁ ▸ hpd) hex₁ hme₁ hu₁ hun₁ hne
    -- the record had more than one reference, so it stays and frees nothing
    have hcow : k₁.cowPages = k.cowPages := by
      rw [← hk₁]
      exact congrArg Rest.cowPages k.allocFrame_rest
    have hfind : ((k₁.unmapPage pd (pageAddr va)).mapPage pd (pageAddr va)
        k.allocFrame.1 brokenFlags).2.findCowPage (e.frame.val * 4096) = some c := by
      rw [findCowPage, remap_cowPages, hcow]
      exact hc
    show FrameSafe (brokenShare k.allocFrame.2 pd (pageAddr va) (e.frame.val * 4096)
      k.allocFrame.1)
    unfold brokenShare
    rw [hk₁, decCowRef_of_find hfind, if_neg (by omega)]
    exact hmap.withRecords _ _

/-- A directory without tables joins, on no frame or on a marked frame that
nobody needs. -/
theorem FrameSafe.addDirectory (h : FrameSafe k) {pd a : Nat}
    (ha : a ≠ 0 → k.used (a / frameSize) = true ∧ Unneeded k (a / frameSize)) :
    FrameSafe { k with
      live := insert pd k.live
      dir := Function.update k.dir pd (emptyDirectory a) } := by
  -- the directories that were there keep their entries, the new one has none
  have hold : ∀ pd' ∈ insert pd k.live, ∀ p f,
      ({ k with
        live := insert pd k.live
        dir := Function.update k.dir pd (emptyDirectory a) } : Kernel).frameAt pd' p = some f →
      pd' ∈ k.live ∧ k.frameAt pd' p = some f := by
    intro pd' hpd' p f hf
    by_cases hne : pd' = pd
    · subst hne
      simp only [frameAt, mapped, Function.update_self, emptyDirectory_mapped,
        Option.map_none] at hf
      exact absurd hf (by simp)
    · refine ⟨(Finset.mem_insert.mp hpd').resolve_left hne, ?_⟩
      simp only [frameAt, mapped, Function.update_of_ne hne] at hf
      exact hf
  have hown : ∀ pd' ∈ insert pd k.live,
      (pd' = pd ∧ (Function.update k.dir pd (emptyDirectory a) pd').physicalAddress = a) ∨
      (pd' ∈ k.live ∧
        (Function.update k.dir pd (emptyDirectory a) pd').physicalAddress = k.own pd') := by
    intro pd' hpd'
    by_cases hne : pd' = pd
    · subst hne
      exact Or.inl ⟨rfl, by rw [Function.update_self]; rfl⟩
    · exact Or.inr ⟨(Finset.mem_insert.mp hpd').resolve_left hne,
        by rw [Function.update_of_ne hne]⟩
  refine ⟨?_, ?_, ?_, ?_, ?_, h.noMappings⟩
  · intro pd' hpd' p f hf
    obtain ⟨hl, hf'⟩ := hold pd' hpd' p f hf
    exact h.marked pd' hl p f hf'
  · intro pd₁ hpd₁ pd₂ hpd₂ p p' f hf hf'
    obtain ⟨hl₁, hf₁⟩ := hold pd₁ hpd₁ p f hf
    obtain ⟨hl₂, hf₂⟩ := hold pd₂ hpd₂ p' f hf'
    exact h.samePage pd₁ hl₁ pd₂ hl₂ p p' f hf₁ hf₂
  · intro pd' hpd' hz
    simp only [Kernel.own] at hz ⊢
    obtain ⟨_, ho⟩ | ⟨hl, ho⟩ := hown pd' hpd'
    · rw [ho] at hz ⊢
      exact (ha hz).1
    · rw [ho] at hz ⊢
      exact h.ownMarked pd' hl hz
  · intro pd₁ hpd₁ pd₂ hpd₂ hz₁ hz₂ heq
    simp only [Kernel.own] at hz₁ hz₂ heq
    obtain ⟨hp₁, ho₁⟩ | ⟨hl₁, ho₁⟩ := hown pd₁ hpd₁ <;>
      obtain ⟨hp₂, ho₂⟩ | ⟨hl₂, ho₂⟩ := hown pd₂ hpd₂ <;>
      rw [ho₁] at hz₁ heq <;> rw [ho₂] at hz₂ heq
    · exact hp₁.trans hp₂.symm
    · exact absurd heq.symm ((ha hz₁).2.notOwn pd₂ hl₂ hz₂)
    · exact absurd heq ((ha hz₂).2.notOwn pd₁ hl₁ hz₁)
    · exact h.ownDistinct pd₁ hl₁ pd₂ hl₂ hz₁ hz₂ heq
  · intro pd' hpd' hz pd₁ hpd₁ p f hf
    obtain ⟨hl₁, hf₁⟩ := hold pd₁ hpd₁ p f hf
    simp only [Kernel.own] at hz ⊢
    obtain ⟨_, ho⟩ | ⟨hl, ho⟩ := hown pd' hpd'
    · rw [ho] at hz ⊢
      exact (ha hz).2.unmapped pd₁ hl₁ p f hf₁
    · rw [ho] at hz ⊢
      exact h.ownUnmapped pd' hl hz pd₁ hl₁ p f hf₁

/-- A new directory. -/
theorem frameSafe_create (h : FrameSafe k) {pd : Nat} :
    FrameSafe (k.createPageDirectory pd).2 := by
  have hk : FrameSafe k.kmalloc.2 :=
    h.keep (owners_of_rest k.kmalloc_rest) (frameAt_congr k.kmalloc_dir)
      (fun n hn => by unfold used; rw [kmalloc_frameBitmap]; exact hn)
  rcases k.createPageDirectory_cases pd with he | he
  · rw [he]
    exact hk
  have hl : k.kmalloc.2.allocFrame.2.live = k.live :=
    (live_of_rest k.kmalloc.2.allocFrame_rest).trans (live_of_rest k.kmalloc_rest)
  have hd : k.kmalloc.2.allocFrame.2.dir = k.dir := by
    rw [allocFrame_dir, kmalloc_dir]
  rw [he, ← hl, ← hd]
  apply (frameSafe_allocFrame hk).addDirectory
  intro hz
  obtain ⟨hu, hun, hdiv, _⟩ := unneeded_allocFrame hk hz
  rw [hdiv]
  exact ⟨hu, hun⟩

/-- A directory whose pages are all exclusive can go. -/
theorem frameSafe_destroy (h : FrameSafe k) {pd : Nat} (hpd : pd ∈ k.live)
    (hex : ∀ p, Exclusive k pd p) : FrameSafe (k.destroyPageDirectory pd) := by
  have hm : ∀ pd' p, (k.destroyPageDirectory pd).frameAt pd' p = k.frameAt pd' p :=
    frameAt_congr (k.destroyPageDirectory_dir pd)
  have hown : ∀ pd', (k.destroyPageDirectory pd).own pd' = k.own pd' := by
    intro pd'
    rw [Kernel.own, destroyPageDirectory_dir]
  have hmem : ∀ pd', pd' ∈ (k.destroyPageDirectory pd).live → pd' ≠ pd ∧ pd' ∈ k.live := by
    intro pd' hpd'
    rw [destroyPageDirectory_live] at hpd'
    exact Finset.mem_erase.mp hpd'
  refine ⟨?_, ?_, ?_, ?_, ?_, (k.destroyPageDirectory_cow pd).2.trans h.noMappings⟩
  · intro pd' hpd' p f hf
    obtain ⟨hne, hl⟩ := hmem pd' hpd'
    rw [hm] at hf
    refine (k.destroyPageDirectory_used pd f.val).mpr ⟨h.marked pd' hl p f hf, ?_, ?_⟩
    · intro q e he heq
      exact hex q e.frame (frameAt_of_mapped he) pd' hl hne p (by rw [hf, Fin.ext heq])
    · rintro ⟨hz, heq, _⟩
      exact h.ownUnmapped pd hpd hz pd' hl p f hf heq.symm
  · intro pd₁ hpd₁ pd₂ hpd₂ p p' f hf hf'
    rw [hm] at hf hf'
    exact h.samePage pd₁ (hmem pd₁ hpd₁).2 pd₂ (hmem pd₂ hpd₂).2 p p' f hf hf'
  · intro pd' hpd' hz
    obtain ⟨hne, hl⟩ := hmem pd' hpd'
    rw [hown] at hz ⊢
    refine (k.destroyPageDirectory_used pd _).mpr ⟨h.ownMarked pd' hl hz, ?_, ?_⟩
    · intro q e he heq
      exact h.ownUnmapped pd' hl hz pd hpd q e.frame (frameAt_of_mapped he) heq
    · rintro ⟨hz', heq, _⟩
      exact hne (h.ownDistinct pd hpd pd' hl hz' hz heq).symm
  · intro pd₁ hpd₁ pd₂ hpd₂ hz₁ hz₂ heq
    rw [hown] at hz₁ hz₂ heq
    rw [hown] at heq
    exact h.ownDistinct pd₁ (hmem pd₁ hpd₁).2 pd₂ (hmem pd₂ hpd₂).2 hz₁ hz₂ heq
  · intro pd₁ hpd₁ hz pd₂ hpd₂ p f hf
    rw [hm] at hf
    rw [hown] at hz ⊢
    exact h.ownUnmapped pd₁ (hmem pd₁ hpd₁).2 hz pd₂ (hmem pd₂ hpd₂).2 p f hf

/-- Any call that is safe keeps the invariant. -/
theorem frameSafe_exec (h : FrameSafe k) {c : CowCall} (ha : c.Admissible k) (hs : c.Safe k) :
    FrameSafe (c.exec k) := by
  cases c with
  | create pd => exact frameSafe_create h
  | mapPages pd start stop flags fuel =>
      exact pageLoop_preserves (P := FrameSafe) (fun _ hk => hk.hang)
        (fun addr _ hk => frameSafe_mapFreshPage hk pd flags addr) fuel start k h
  | copy dst src start stop fuel =>
      have hsrc : src ∈ k.live := ha.1 src (by simp [CowCall.dirs])
      exact (pageLoop_preserves (P := fun k => FrameSafe k ∧ src ∈ k.live)
        (fun _ hk => ⟨hk.1.hang, hk.2⟩)
        (fun addr k hk => ⟨frameSafe_copyPage hk.1 hk.2 addr, by
          rw [copyPage_live]; exact hk.2⟩) fuel start k ⟨h, hsrc⟩).1
  | fault pd va errorCode => exact frameSafe_fault h (ha.1 pd (by simp [CowCall.dirs])) hs
  | free pd start stop fuel =>
      have hpd : pd ∈ k.live := ha.1 pd (by simp [CowCall.dirs])
      exact (pageLoop_invariant (P := fun k => FrameSafe k ∧ pd ∈ k.live)
        (fun _ hk => ⟨hk.1.hang, hk.2⟩)
        (fun addr k hk hex => ⟨frameSafe_freePage hk.1 hk.2 hex, by
          rw [freePage_live]; exact hk.2⟩) fuel start k hs ⟨h, hpd⟩).1
  | unmap pd va => exact h.unmapPage (ha.1 pd (by simp [CowCall.dirs])) hs
  | destroy pd => exact frameSafe_destroy h (ha.1 pd (by simp [CowCall.dirs])) hs
  | teardown pd =>
      show FrameSafe (k.teardown pd)
      rw [teardown_nil h.noMappings]
      exact frameSafe_destroy h (ha.1 pd (by simp [CowCall.dirs])) hs

/-- **One step.** -/
theorem frameSafe_step {c : List Bool × CowCall} (h : FrameSafe k) (hs : SafeStep k c)
    (hstep : cowStep k c = some k') : FrameSafe k' := by
  have h' : FrameSafe (k.withAnswers c.1) := h.keep rfl (fun _ _ => rfl) (fun _ hn => hn)
  obtain ⟨ha, rfl⟩ := cowStep_eq_some hstep
  exact frameSafe_exec h' ha hs

/-- The answer of `alloc_frame` is a frame whose bit was clear. -/
theorem Marked.allocFrame (h : Marked k) (ha : k.allocFrame.1 ≠ 0) :
    ∀ pd ∈ k.live, ∀ p, k.frameAt pd p ≠ some (frameOf k.allocFrame.1) := by
  intro pd hpd p hf
  obtain ⟨i, _, hi, hun, _, he⟩ := allocFrame_of_ne_zero ha
  have hmk := h pd hpd p _ hf
  rw [he, frameOf_mul, Nat.mod_eq_of_lt hi, hun] at hmk
  exact absurd hmk (by decide)

end

/-! ## The result -/

/-- **Frame safety**, for runs that give up exclusive pages only: every mapped
frame is marked, so `alloc_frame` hands out no mapped frame. -/
theorem mapped_frames_marked {k₀ k : Kernel} (h0 : DistinctFrames k₀)
    (hr : Reaches cowStep SafeStep k₀ k) :
    (∀ pd ∈ k.live, ∀ p e, k.mapped pd p = some e → k.used e.frame.val = true) ∧
    (k.allocFrame.1 ≠ 0 → ∀ pd ∈ k.live, ∀ p e, k.mapped pd p = some e →
      e.frame ≠ frameOf k.allocFrame.1) := by
  have h : FrameSafe k :=
    hr.invariant h0.frameSafe (fun _ _ _ hk hs hstep => frameSafe_step hk hs hstep)
  refine ⟨?_, ?_⟩
  · intro pd hpd p e he
    exact h.marked pd hpd p e.frame (frameAt_of_mapped he)
  · intro ha pd hpd p e he heq
    exact h.marked.allocFrame ha pd hpd p (frameAt_eq_some.mpr ⟨e, he, heq⟩)

theorem boot_distinctFrames : DistinctFrames boot where
  marked := by intro pd hpd; exact absurd hpd (Finset.notMem_empty pd)
  distinct := by intro pd hpd; exact absurd hpd (Finset.notMem_empty pd)
  ownMarked := by intro pd hpd; exact absurd hpd (Finset.notMem_empty pd)
  ownDistinct := by intro pd hpd; exact absurd hpd (Finset.notMem_empty pd)
  ownUnmapped := by intro pd hpd; exact absurd hpd (Finset.notMem_empty pd)
  noMappings := rfl

/-- A process with one writable page at `USER_OFFSET`, and a fork of it. -/
def forkScript : List (List Bool × CowCall) :=
  [([], .create 1), ([], .mapPages 1 userOffset (userOffset + 4096) 7 2), ([], .create 2),
    ([], .copy 2 1 userOffset (userOffset + 4096) 2)]

/-- Frame 257, as the process of `forkScript` maps it after the fork. -/
def forkedEntry : PageTableEntry := sharedEntry

theorem forkScript_safe (k : Kernel) : ∀ c ∈ forkScript, SafeStep k c := by
  intro c hc
  simp only [forkScript, List.mem_cons, List.not_mem_nil, or_false] at hc
  rcases hc with rfl | rfl | rfl | rfl <;> exact True.intro

/-- After a fork, the frame both processes map is marked and the next frame
handed out is another one. -/
theorem mapped_frames_marked_forked :
    ∃ k, Reaches cowStep SafeStep boot k ∧ k.mapped 1 (pageOf userOffset) = some forkedEntry ∧
      k.mapped 2 (pageOf userOffset) = some forkedEntry ∧ k.used 257 = true ∧
      frameOf k.allocFrame.1 ≠ ⟨257, by decide⟩ := by
  obtain ⟨k, hr, hp⟩ := Reaches.of_script cowStep SafeStep boot
    (fun k => decide (1 ∈ k.live ∧ k.mapped 1 (pageOf userOffset) = some forkedEntry ∧
      k.mapped 2 (pageOf userOffset) = some forkedEntry ∧ k.allocFrame.1 ≠ 0))
    forkScript forkScript_safe (by decide +kernel)
  obtain ⟨hl, h1, h2, ha⟩ := of_decide_eq_true hp
  obtain ⟨hmark, halloc⟩ := mapped_frames_marked boot_distinctFrames hr
  exact ⟨k, hr, h1, h2, hmark 1 hl _ _ h1, fun heq => halloc ha 1 hl _ _ h1 heq.symm⟩

/-- One write fault of the child after the fork: the parent still maps frame
257, the bit of frame 257 is clear, and `alloc_frame` answers frame 257. -/
theorem fault_frees_parent_frame :
    DistinctFrames boot ∧ ∃ k, Reaches cowStep CowCall.any boot k ∧ 1 ∈ k.live ∧
      k.mapped 1 (pageOf userOffset) = some forkedEntry ∧ k.used forkedEntry.frame.val = false ∧
      k.allocFrame.1 = forkedEntry.frame.val * frameSize := by
  obtain ⟨k, hr, hp⟩ := Reaches.of_script cowStep CowCall.any boot
    (fun k => decide (1 ∈ k.live ∧ k.mapped 1 (pageOf userOffset) = some forkedEntry ∧
      k.used forkedEntry.frame.val = false ∧
      k.allocFrame.1 = forkedEntry.frame.val * frameSize))
    (forkScript ++ [([], .fault 2 userOffset 2)]) (fun _ _ _ => True.intro) (by decide +kernel)
  exact ⟨boot_distinctFrames, k, hr, of_decide_eq_true hp⟩

end KmOS
