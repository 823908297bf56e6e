/-
# `KmOS.Cow.ForkFailure` — what a failed fork leaves of the parent

## What is proved

When `cow_copy_page_range` fails, `Process::fork` destroys the child's
directory and returns -1.  The parent is then intact (every page on its frame
and with its write permission, every frame marked) exactly when the failure
came at the first page: that page is read-only and the child's first page
table cannot be had (`failed_fork_parent_intact_iff`).

## What is not

A writable page is write-protected before anything about it can fail, and
nothing makes it writable again; and a page that has been passed on is in the
child's tables, so destroying the child clears the bit of a frame the parent
still maps.  A failure at any later point, or at a first page that is
writable, leaves the parent changed (`failed_fork_write_protects_parent`).
-/
import KmOS.Cow.Effects

namespace KmOS

open Kernel

/-! ## `Process::fork` -/

/-- `cow_fork_mm`.  The range has this many pages, so the loop ends by itself. -/
def Kernel.cowForkMm (k : Kernel) (child parent : Nat) : Int × Kernel :=
  k.cowCopyPageRange child parent userOffset userStack ((userStack - userOffset) / 4096 + 1)

/-- The memory part of `Process::fork`. -/
def Kernel.fork (k : Kernel) (parent child : Nat) : Int × Kernel :=
  match k.createPageDirectory child with
  | (false, k₁) => (-1, k₁)
  | (true, k₁) =>
      let (result, k₂) := k₁.cowForkMm child parent
      if result ≠ 0 then (-1, k₂.destroyPageDirectory child) else (0, k₂)

/-! ## Statement -/

/-- The address of user page `i`. -/
def userPage (i : Nat) : Nat := userOffset + 4096 * i

/-- The parent's pages have the frames and permissions they had in `k`, and
these frames are marked. -/
def ParentIntact (k k' : Kernel) (parent : Nat) : Prop :=
  (∀ p, k'.mapped parent p = k.mapped parent p) ∧
    ∀ p e, k.mapped parent p = some e → k'.used e.frame.val = true

/-- User page `i` is the first one the fork has to copy, with entry `e`. -/
structure FirstPage (k : Kernel) (parent i : Nat) (e : PageTableEntry) : Prop where
  inRange : userPage i < userStack
  noneBefore : ∀ j, j < i → k.getPhysicalAddr parent (userPage j) = 0
  mapped : k.mapped parent (pageOf (userPage i)) = some e
  frame : e.frame.val ≠ 0

/-- The child's first page table cannot be had: no frame is free, or the heap
has no room. -/
def NoFirstTable (k : Kernel) (child : Nat) : Prop :=
  (k.createPageDirectory child).2.allocFrame.1 = 0 ∨
    (k.createPageDirectory child).2.allocFrame.2.kmalloc.1 = false

/-! ## A fork that has begun cannot be undone -/

/-- Something has happened to the parent since `k₀`: a page lost its write
permission, or the child has one of its frames. -/
def Touched (k₀ k : Kernel) (parent child : Nat) : Prop :=
  (∃ p e, k₀.mapped parent p = some e ∧ e.writable = true ∧
    k.mapped parent p = some { e with writable := false }) ∨
  ∃ p e, k₀.mapped parent p = some e ∧ k.frameAt child p = some e.frame

/-- What copying pages keeps. -/
structure Copying (k₀ k : Kernel) (parent child : Nat) : Prop where
  frames : ∀ p, k.frameAt parent p = k₀.frameAt parent p
  touched : Touched k₀ k parent child

section
variable {k₀ k : Kernel} {parent child : Nat}

theorem userPage_succ {i : Nat} (h : userPage i < userStack) :
    (userPage i + 4096) % 2 ^ 32 = userPage (i + 1) := by
  unfold userPage userOffset userStack at *
  omega

theorem userPage_mod (i : Nat) : userPage i % 4096 = 0 := by
  unfold userPage userOffset
  omega

theorem getPhysicalAddr_userPage {i : Nat} {e : PageTableEntry}
    (h : k.mapped parent (pageOf (userPage i)) = some e) :
    k.getPhysicalAddr parent (userPage i) = e.frame.val * 4096 := by
  rw [getPhysicalAddr_of_mapped h, userPage_mod, Nat.add_zero]

/-- There is one first page. -/
theorem FirstPage.unique {i i' : Nat} {e e' : PageTableEntry} (h : FirstPage k parent i e)
    (h' : FirstPage k parent i' e') : i = i' ∧ e = e' := by
  have hpos : k.getPhysicalAddr parent (userPage i) ≠ 0 := by
    rw [getPhysicalAddr_userPage h.mapped]
    have := h.frame
    omega
  have hpos' : k.getPhysicalAddr parent (userPage i') ≠ 0 := by
    rw [getPhysicalAddr_userPage h'.mapped]
    have := h'.frame
    omega
  have hi : i = i' := by
    rcases Nat.lt_trichotomy i i' with hlt | heq | hgt
    · exact absurd (h'.noneBefore i hlt) hpos
    · exact heq
    · exact absurd (h.noneBefore i' hgt) hpos'
  subst hi
  exact ⟨rfl, Option.some.inj (h.mapped.symm.trans h'.mapped)⟩

/-- `map_page` into the child leaves the parent's entries. -/
theorem mapPage_parent (hne : parent ≠ child) (va pa flags : Nat) (p : PageNo) :
    (k.mapPage child va pa flags).2.mapped parent p = k.mapped parent p :=
  mapPage_mapped_of_ne fun h => hne h.1

/-- The frames of a copied page: the source's do not move, and the child's
either stay or become the source's. -/
theorem copyPage_frames (hne : parent ≠ child) (addr : Nat) :
    (∀ p, (copyPage child parent addr k).2.frameAt parent p = k.frameAt parent p) ∧
    ∀ p f, k.frameAt child p = some f →
      (copyPage child parent addr k).2.frameAt child p = some f ∨
      (copyPage child parent addr k).2.frameAt child p = k.frameAt parent p := by
  rcases k.copyPage_cases child parent addr with ⟨_, he⟩ | ⟨e, pa, hme, hpa, _, hcases⟩
  · rw [he]
    exact ⟨fun _ => rfl, fun _ _ h => Or.inl h⟩
  have hpf := protectPage_frameAt hme pa
  have hmap : (∀ p, ((k.protectPage parent addr e pa).2.mapPage child addr pa
        (passedFlags e)).2.frameAt parent p = k.frameAt parent p) ∧
      ∀ p f, k.frameAt child p = some f →
        ((k.protectPage parent addr e pa).2.mapPage child addr pa
          (passedFlags e)).2.frameAt child p = some f ∨
        ((k.protectPage parent addr e pa).2.mapPage child addr pa
          (passedFlags e)).2.frameAt child p = k.frameAt parent p := by
    refine ⟨?_, ?_⟩
    · intro p
      rw [← hpf]
      unfold frameAt
      rw [mapPage_parent hne]
    · intro p f hf
      rw [← hpf] at hf
      by_cases hr : ((k.protectPage parent addr e pa).2.mapPage child addr pa
          (passedFlags e)).1 = 0
      · by_cases hp : p = pageOf addr
        · obtain ⟨_, _, _, hpres⟩ := pageTable_of_mapped hme
          refine Or.inr ?_
          subst hp
          rw [frameAt_of_mapped hme]
          unfold frameAt
          rw [mapPage_mapped hr, hpa, newEntry_passedFlags hpres]
          simp [hpres]
        · refine Or.inl ?_
          rw [← hf]
          unfold frameAt
          rw [mapPage_mapped_of_ne (fun h => hp h.2)]
      · refine Or.inl ?_
        rw [← hf]
        unfold frameAt
        rw [mapPage_mapped_fail hr]
  rcases hcases with ⟨_, he⟩ | ⟨_, _, he⟩ | ⟨_, _, he⟩
  · rw [he]
    exact ⟨hpf parent, fun p f hf => Or.inl ((hpf child p).trans hf)⟩
  · rw [he]
    exact hmap
  · rw [he]
    exact hmap

/-- A read-only page of the parent stays read-only. -/
theorem copyPage_readOnly (hne : parent ≠ child) (addr : Nat) {p : PageNo} {e : PageTableEntry}
    (h : k.mapped parent p = some e) (hw : e.writable = false) :
    (copyPage child parent addr k).2.mapped parent p = some e := by
  rcases k.copyPage_cases child parent addr with ⟨_, he⟩ | ⟨e', pa, hme, _, _, hcases⟩
  · rw [he]
    exact h
  have hprot : (k.protectPage parent addr e' pa).2.mapped parent p = some e := by
    rw [protectPage_mapped hme]
    split
    · next hq =>
        rw [hq.2, hme] at h
        cases h
        rw [← hw]
    · exact h
  rcases hcases with ⟨_, he⟩ | ⟨_, _, he⟩ | ⟨_, _, he⟩
  · rw [he]
    exact hprot
  · rw [he]
    exact (mapPage_parent hne _ _ _ p).trans hprot
  · rw [he]
    exact (mapPage_parent hne _ _ _ p).trans hprot

/-- **Touched once, touched for good.** -/
theorem copying_copyPage (h : Copying k₀ k parent child) (hne : parent ≠ child) (addr : Nat) :
    Copying k₀ (copyPage child parent addr k).2 parent child := by
  obtain ⟨hpar, hchild⟩ := copyPage_frames (k := k) hne addr
  refine ⟨fun p => (hpar p).trans (h.frames p), ?_⟩
  rcases h.touched with ⟨p, e, he, hw, hm⟩ | ⟨p, e, he, hf⟩
  · exact Or.inl ⟨p, e, he, hw, copyPage_readOnly hne addr hm rfl⟩
  · refine Or.inr ⟨p, e, he, ?_⟩
    rcases hchild p e.frame hf with hstay | hjoin
    · exact hstay
    · rw [hjoin, h.frames, frameAt_of_mapped he]

/-- A touched parent is not intact once the child has been destroyed. -/
theorem Copying.not_intact (h : Copying k₀ k parent child) :
    ¬ ParentIntact k₀ (k.destroyPageDirectory child) parent := by
  rintro ⟨hmap, hmark⟩
  rcases h.touched with ⟨p, e, he, hw, hm⟩ | ⟨p, e, he, hf⟩
  · -- the permission is gone
    have := hmap p
    rw [mapped_congr (k.destroyPageDirectory_dir child), hm, he] at this
    have hro := congrArg PageTableEntry.writable (Option.some.inj this)
    rw [hw] at hro
    exact absurd hro (by simp)
  · -- the frame was freed with the child's tables
    obtain ⟨e', he', hfe⟩ := frameAt_eq_some.mp hf
    have hused := (k.destroyPageDirectory_used child e.frame.val).mp (hmark p e he)
    exact hused.2.1 p e' he' (congrArg Fin.val hfe)

/-- The first page touches the parent, unless it is read-only and cannot be
passed on. -/
theorem copying_first (hne : parent ≠ child) {i : Nat} {e : PageTableEntry}
    (h : FirstPage k parent i e) (ht : e.writable = true ∨ TableRoom k child (userPage i)) :
    Copying k (copyPage child parent (userPage i) k).2 parent child := by
  obtain ⟨hframes, _⟩ := copyPage_frames (k := k) hne (userPage i)
  refine ⟨hframes, ?_⟩
  have hphys := getPhysicalAddr_userPage h.mapped
  rcases k.copyPage_cases child parent (userPage i) with
    ⟨hz, _⟩ | ⟨e', pa, hme, hpa, _, hcases⟩
  · rw [hphys] at hz
    have := h.frame
    omega
  obtain rfl : e = e' := Option.some.inj (h.mapped.symm.trans hme)
  obtain ⟨_, _, _, hpres⟩ := pageTable_of_mapped hme
  cases hw : e.writable with
  | true =>
      have hprot : (k.protectPage parent (userPage i) e pa).2.mapped parent (pageOf (userPage i)) =
          some { e with writable := false } := by
        rw [protectPage_mapped hme]
        simp
      refine Or.inl ⟨pageOf (userPage i), e, hme, hw, ?_⟩
      rcases hcases with ⟨_, he⟩ | ⟨_, _, he⟩ | ⟨_, _, he⟩
      · rw [he]
        exact hprot
      · rw [he]
        exact (mapPage_parent hne _ _ _ _).trans hprot
      · rw [he]
        exact (mapPage_parent hne _ _ _ _).trans hprot
  | false =>
      have hprot : k.protectPage parent (userPage i) e pa = (true, k) := by
        unfold protectPage
        rw [hw]
        rfl
      have hroom : TableRoom k child (userPage i) := ht.resolve_left (by rw [hw]; simp)
      have hr := (tableRoom_iff child (userPage i) pa (passedFlags e)).mp hroom
      rw [hprot] at hcases
      rcases hcases with ⟨hf, _⟩ | ⟨_, hr', _⟩ | ⟨_, _, he⟩
      · exact absurd hf (by simp)
      · exact absurd hr hr'
      · refine Or.inr ⟨pageOf (userPage i), e, hme, ?_⟩
        rw [he]
        unfold frameAt
        rw [mapPage_mapped hr, hpa, newEntry_passedFlags hpres]
        simp [hpres]

/-- **The two ways the copy can have failed.**  The induction is over the pages
before the first one that is mapped; up to there the state does not change. -/
theorem cowCopy_failed (hne : parent ≠ child) :
    ∀ (fuel i : Nat), (∀ j, j < i → k.getPhysicalAddr parent (userPage j) = 0) →
      (pageLoop (copyPage child parent) userStack fuel (userPage i) k).1 ≠ 0 →
      ∃ i' e, FirstPage k parent i' e ∧
        ((e.writable = false ∧ ¬ TableRoom k child (userPage i') ∧
            (pageLoop (copyPage child parent) userStack fuel (userPage i) k).2 =
              (k.mapPage child (userPage i') (e.frame.val * 4096) (passedFlags e)).2) ∨
          ((e.writable = true ∨ TableRoom k child (userPage i')) ∧
            Copying k (pageLoop (copyPage child parent) userStack fuel (userPage i) k).2
              parent child))
  | 0, _, _, hfail => absurd rfl hfail
  | fuel + 1, i, hnone, hfail => by
      by_cases hlt : userPage i < userStack
      · rcases k.copyPage_cases child parent (userPage i) with
          ⟨hz, he⟩ | ⟨e, pa, hme, hpa, hpz, hcases⟩
        · -- nothing here: the loop goes on in the same state
          have hloop : pageLoop (copyPage child parent) userStack (fuel + 1) (userPage i) k =
              pageLoop (copyPage child parent) userStack fuel (userPage (i + 1)) k := by
            rw [pageLoop, if_pos hlt, he, userPage_succ hlt]
          rw [hloop] at hfail ⊢
          refine cowCopy_failed hne fuel (i + 1) ?_ hfail
          intro j hj
          rcases Nat.lt_succ_iff_lt_or_eq.mp hj with hj | rfl
          · exact hnone j hj
          · exact hz
        · rw [userPage_mod, Nat.add_zero] at hpa
          subst hpa
          have hfirst : FirstPage k parent i e := ⟨hlt, hnone, hme, fun h0 => hpz (by rw [h0])⟩
          refine ⟨i, e, hfirst, ?_⟩
          by_cases ht : e.writable = true ∨ TableRoom k child (userPage i)
          · refine Or.inr ⟨ht, ?_⟩
            have hstart := copying_first hne hfirst ht
            rw [pageLoop, if_pos hlt]
            rcases hb : copyPage child parent (userPage i) k with ⟨_ | r, k'⟩
            · rw [hb] at hstart
              exact pageLoop_preserves (P := fun k' => Copying k k' parent child)
                (fun _ hk => ⟨hk.frames, hk.touched⟩)
                (fun addr _ hk => copying_copyPage hk hne addr) fuel _ k' hstart
            · rw [hb] at hstart
              exact hstart
          · have hw : e.writable = false := by
              cases hw : e.writable with
              | false => rfl
              | true => exact absurd (Or.inl hw) ht
            have hroom : ¬ TableRoom k child (userPage i) := fun h => ht (Or.inr h)
            refine Or.inl ⟨hw, hroom, ?_⟩
            have hprot : k.protectPage parent (userPage i) e (e.frame.val * 4096) = (true, k) := by
              unfold protectPage
              rw [hw]
              rfl
            rw [hprot] at hcases
            rcases hcases with ⟨hf, _⟩ | ⟨_, _, he⟩ | ⟨_, hr, _⟩
            · exact absurd hf (by simp)
            · rw [pageLoop, if_pos hlt, he]
            · exact absurd ((tableRoom_iff _ _ _ _).mpr hr) hroom
      · rw [pageLoop, if_neg hlt] at hfail
        exact absurd rfl hfail

/-! ## A fork that failed at its first page -/

/-- The child of a fresh `create_page_directory`. -/
theorem created (hc : (k.createPageDirectory child).1 = true) :
    (k.createPageDirectory child).2.dir =
        Function.update k.dir child (emptyDirectory k.kmalloc.2.allocFrame.1) ∧
      (k.createPageDirectory child).2.frameBitmap = k.kmalloc.2.allocFrame.2.frameBitmap := by
  rcases k.createPageDirectory_cases child with he | he
  · rw [he] at hc
    exact absurd hc (by simp)
  · rw [he]
    exact ⟨rfl, rfl⟩

theorem created_parent (hne : parent ≠ child) (p : PageNo) :
    (k.createPageDirectory child).2.mapped parent p = k.mapped parent p := by
  rcases k.createPageDirectory_view child with ⟨_, hm⟩ | ⟨_, hm⟩
  · exact hm parent p
  · rw [hm, if_neg hne]

theorem created_tableRoom (hc : (k.createPageDirectory child).1 = true) (va : Nat) :
    ¬ TableRoom (k.createPageDirectory child).2 child va ↔ NoFirstTable k child := by
  obtain ⟨hd, _⟩ := created hc
  unfold TableRoom NoFirstTable
  rw [hd, Function.update_self]
  simp only [PageDirectory.pageTable, emptyDirectory, emptyDirectoryEntry, Bool.false_eq_true,
    if_false, ne_eq, not_true_eq_false, false_or, true_and, not_and, Bool.not_eq_true]
  constructor
  · intro h
    by_cases ha : (k.createPageDirectory child).2.allocFrame.1 = 0
    · exact Or.inl ha
    · exact Or.inr (h ha)
  · rintro (ha | hk) hne
    · exact absurd ha hne
    · exact hk

/-- A marked frame stays marked while the child is created and a page of it
fails to be mapped, and destroying the child does not free it. -/
theorem used_after_first_failure (hc : (k.createPageDirectory child).1 = true) {n : Nat}
    (hn : k.used n = true) {va pa flags : Nat}
    (hr : ((k.createPageDirectory child).2.mapPage child va pa flags).1 ≠ 0) :
    (((k.createPageDirectory child).2.mapPage child va pa flags).2.destroyPageDirectory
      child).used n = true := by
  obtain ⟨hd, hb⟩ := created hc
  have hk : k.kmalloc.2.used n = true := by
    unfold used
    rw [kmalloc_frameBitmap]
    exact hn
  have h1 : (k.createPageDirectory child).2.used n = true := by
    unfold used
    rw [hb]
    exact used_allocFrame_of_used hk
  refine (destroyPageDirectory_used _ child n).mpr ⟨mapPage_used h1, ?_, ?_⟩
  · intro p e he
    rw [mapPage_mapped_fail hr, mapped, hd, Function.update_self, emptyDirectory_mapped] at he
    exact absurd he (by simp)
  · rintro ⟨hz, heq, _⟩
    have hphys : (((k.createPageDirectory child).2.mapPage child va pa flags).2.dir
        child).physicalAddress = k.kmalloc.2.allocFrame.1 := by
      have := congrFun (congrArg Rest.physicalAddress
        (mapPage_rest (k.createPageDirectory child).2 child va pa flags)) child
      refine this.trans ?_
      show ((k.createPageDirectory child).2.dir child).physicalAddress = _
      rw [hd, Function.update_self]
      rfl
    rw [hphys] at hz heq
    -- the child's own frame was clear when it was taken
    obtain ⟨i, _, _, hun, _, he⟩ := allocFrame_of_ne_zero hz
    rw [he] at heq
    have hi : i = n := (Nat.mul_div_cancel i (by decide)).symm.trans heq
    rw [hi, hk] at hun
    exact absurd hun (by decide)

end

/-! ## The result -/

/-- **When a failed fork leaves the parent intact.** -/
theorem failed_fork_parent_intact_iff {k : Kernel} {parent child : Nat} (hne : parent ≠ child)
    (hmarked : ∀ p e, k.mapped parent p = some e → k.used e.frame.val = true)
    (hc : (k.createPageDirectory child).1 = true)
    (hfail : ((k.createPageDirectory child).2.cowForkMm child parent).1 ≠ 0) :
    ParentIntact k (k.fork parent child).2 parent ↔
      ∃ i e, FirstPage k parent i e ∧ e.writable = false ∧ NoFirstTable k child := by
  have hfork : (k.fork parent child).2 =
      ((k.createPageDirectory child).2.cowForkMm child parent).2.destroyPageDirectory child := by
    unfold Kernel.fork
    rcases hcd : k.createPageDirectory child with ⟨b, k₁⟩
    rw [hcd] at hc hfail
    simp only at hc hfail
    subst hc
    simp [hfail]
  have hpar := created_parent (k := k) hne
  -- what is said of the parent after `create_page_directory` is said of it before
  have hphys : ∀ va, (k.createPageDirectory child).2.getPhysicalAddr parent va =
      k.getPhysicalAddr parent va := by
    intro va
    rw [getPhysicalAddr_eq, getPhysicalAddr_eq, hpar]
  have hfirst : ∀ i e, FirstPage (k.createPageDirectory child).2 parent i e ↔
      FirstPage k parent i e := by
    intro i e
    constructor
    · rintro ⟨h1, h2, h3, h4⟩
      exact ⟨h1, fun j hj => (hphys _).symm.trans (h2 j hj), (hpar _).symm.trans h3, h4⟩
    · rintro ⟨h1, h2, h3, h4⟩
      exact ⟨h1, fun j hj => (hphys _).trans (h2 j hj), (hpar _).trans h3, h4⟩
  rw [hfork]
  obtain ⟨i, e, hi, hcases⟩ := cowCopy_failed (k := (k.createPageDirectory child).2) hne
    ((userStack - userOffset) / 4096 + 1) 0 (fun j hj => absurd hj (Nat.not_lt_zero j)) hfail
  rcases hcases with ⟨hw, hroom, hstate⟩ | ⟨ht, hcopy⟩
  · refine iff_of_true ?_ ⟨i, e, (hfirst i e).mp hi, hw, (created_tableRoom hc _).mp hroom⟩
    have hr : ((k.createPageDirectory child).2.mapPage child (userPage i) (e.frame.val * 4096)
        (passedFlags e)).1 ≠ 0 := fun h => hroom ((tableRoom_iff _ _ _ _).mpr h)
    have hst : ((k.createPageDirectory child).2.cowForkMm child parent).2 = _ := hstate
    rw [hst]
    refine ⟨?_, ?_⟩
    · intro p
      rw [mapped_congr (destroyPageDirectory_dir _ child), mapPage_parent hne, hpar]
    · intro p e' he'
      exact used_after_first_failure hc (hmarked p e' he') hr
  · refine iff_of_false ?_ ?_
    · rintro ⟨hmap, hmark⟩
      refine hcopy.not_intact ⟨fun p => (hmap p).trans (hpar p).symm, fun p e' he' => ?_⟩
      exact hmark p e' ((hpar p).symm.trans he')
    · rintro ⟨i', e', hi', hw', hno⟩
      obtain ⟨rfl, rfl⟩ := hi.unique ((hfirst i' e').mpr hi')
      rcases ht with hw | hroom
      · rw [hw'] at hw
        exact absurd hw (by simp)
      · exact (created_tableRoom hc _).mpr hno hroom

/-- `oneProcess` with its page read-only. -/
def oneReadOnly : Kernel := oneProcess.setWritable 1 userOffset false

/-- The answers of the heap to a fork that gets the child's directory and
nothing more. -/
def noSecondAnswer : List Bool := [true, false]

theorem oneProcess_entry :
    oneProcess.mapped 1 (pageOf userOffset) = some { sharedEntry with writable := true } := by
  decide +kernel

theorem oneProcess_marked (p : PageNo) (e : PageTableEntry) (he : oneProcess.mapped 1 p = some e) :
    oneProcess.used e.frame.val = true := by
  obtain rfl := oneProcess_onlyPage 1 (by decide +kernel) p e he
  obtain rfl := Option.some.inj (oneProcess_entry.symm.trans he)
  decide +kernel

/-- A read-only page, and no page table for the child: the parent is intact. -/
theorem failed_fork_parent_intact_read_only :
    ((oneReadOnly.withAnswers noSecondAnswer).fork 1 2).1 = -1 ∧
      ParentIntact (oneReadOnly.withAnswers noSecondAnswer)
        ((oneReadOnly.withAnswers noSecondAnswer).fork 1 2).2 1 := by
  refine ⟨by decide +kernel, ?_⟩
  refine (failed_fork_parent_intact_iff (by decide) ?_ (by decide +kernel)
    (by decide +kernel)).mpr ?_
  · intro p e he
    have hf : oneReadOnly.frameAt 1 p = oneProcess.frameAt 1 p :=
      frameAt_setWritable oneProcess_entry false 1 p
    obtain ⟨e', he', hfe⟩ := frameAt_eq_some.mp (hf.symm.trans (frameAt_of_mapped he))
    have hu := oneProcess_marked p e' he'
    rw [hfe] at hu
    show oneReadOnly.frameBitmap.testBit e.frame.val = true
    unfold oneReadOnly
    rw [setWritable_frameBitmap]
    exact hu
  · refine ⟨0, sharedEntry, ⟨by decide, fun j hj => absurd hj (Nat.not_lt_zero j),
      by decide +kernel, by decide⟩, rfl, Or.inr (by decide +kernel)⟩

/-- A writable page and no room for its record: the fork fails and the parent
has lost the permission to write its page. -/
theorem failed_fork_write_protects_parent :
    (∀ p e, (oneProcess.withAnswers noSecondAnswer).mapped 1 p = some e →
      (oneProcess.withAnswers noSecondAnswer).used e.frame.val = true) ∧
    ((oneProcess.withAnswers noSecondAnswer).fork 1 2).1 = -1 ∧
    (oneProcess.withAnswers noSecondAnswer).mapped 1 (pageOf userOffset) =
      some { sharedEntry with writable := true } ∧
    ((oneProcess.withAnswers noSecondAnswer).fork 1 2).2.mapped 1 (pageOf userOffset) =
      some sharedEntry :=
  ⟨oneProcess_marked, by decide +kernel, by decide +kernel, by decide +kernel⟩

end KmOS
