/-
# `KmOS.Cow.RefCount` — do the reference counts count the mappings?

## What is proved

`ref_count` is to be the number of page-table entries, over all directories,
that map the record's frame, and no address is to have two records.  From a
state without records both hold after any sequence of forks, write faults,
`cow_free_page_range` calls and teardowns whose steps meet the condition of
`CowCall.Counting`:

    a writable page of a fork     it is counted already, or nobody else maps its frame;
                                  and the child's page table can be had
    a read-only page of a fork    its frame has no record
    a fault that moves the page   the new frame has no record
    a teardown                    no frame the process maps has a record

(`ref_counts_exact`).

## What is not

The code takes none of this into account: forking a page that is read-only
already is not counted (`second_fork_not_counted`), a fork that fails in
`map_page` has counted the page before, and a teardown goes through the page
directory and drops no reference.

The list of records is compared with a function from frames to numbers
(`Records`); the functions of `cow.cc` change the list, the page tables change
the function, and each operation keeps the two in step.
-/
import KmOS.Lib.Run
import KmOS.Cow.Effects
import Mathlib.Data.Finset.Prod
import Mathlib.Data.Finset.Card
import Mathlib.Data.Fintype.Prod
import Mathlib.Data.Fintype.Basic

namespace KmOS

open Kernel

/-! ## Statement -/

/-- The page-table entries on frame `f`, over all directories. -/
def Kernel.mappers (k : Kernel) (f : Fin maxFrames) : Finset (Nat × PageNo) :=
  (k.live ×ˢ Finset.univ).filter (fun x => k.frameAt x.1 x.2 = some f)

/-- How many there are. -/
def Kernel.sharers (k : Kernel) (f : Fin maxFrames) : Nat := (k.mappers f).card

/-- The record of frame `f`. -/
def Kernel.record (k : Kernel) (f : Fin maxFrames) : Option CowPage :=
  k.findCowPage (f.val * 4096)

/-- The condition on a page of a fork.  That the address is a page address,
that the child does not map the page yet and that there are fewer than
`MAX_COW_REFS` sharers is what the callers see to. -/
structure CountedCopy (dst src addr : Nat) (k : Kernel) (e : PageTableEntry) : Prop where
  aligned : addr % 4096 = 0
  unmapped : k.mapped dst (pageOf addr) = none
  fewer : k.sharers e.frame < maxCowRefs
  readOnly : e.writable = false → k.record e.frame = none ∨ ¬ TableRoom k dst addr
  writable : e.writable = true → (k.protectPage src addr e (e.frame.val * 4096)).1 = true →
    (k.record e.frame ≠ none ∨ k.sharers e.frame = 1) ∧
      TableRoom (k.protectPage src addr e (e.frame.val * 4096)).2 dst addr

/-- The calls that make and drop references, with the condition each has to
meet; other calls are not made. -/
def CowCall.Counting (k : Kernel) : CowCall → Prop
  | .create _ => True
  | .copy dst src start stop fuel =>
      LoopOk (copyPage dst src)
        (fun addr k => k.getPhysicalAddr src addr ≠ 0 →
          ∀ e, k.mapped src (pageOf addr) = some e → CountedCopy dst src addr k e)
        stop fuel start k
  | .fault pd va errorCode =>
      errorCode &&& 2 ≠ 0 → ∀ e, k.mapped pd (pageOf va) = some e → e.frame.val ≠ 0 →
        ∀ c, k.record e.frame = some c → 1 < c.refCount → k.allocFrame.1 ≠ 0 →
          k.record (frameOf k.allocFrame.1) = none
  | .free pd start stop fuel =>
      LoopOk (freePage pd)
        (fun addr k => ∀ e, k.mapped pd (pageOf addr) = some e →
          addr % 4096 = 0 ∨ k.record e.frame = none)
        stop fuel start k
  | .teardown pd => ∀ p f, k.frameAt pd p = some f → k.record f = none
  | _ => False

def CountingStep (k : Kernel) (c : List Bool × CowCall) : Prop :=
  c.2.Counting (k.withAnswers c.1)

/-! ## A list of records against a count -/

/-- The records of `l`, one for an address, say for each frame they are about
what `m` says. -/
structure Records (l : List CowPage) (m : Fin maxFrames → Nat) : Prop where
  nodup : (l.map CowPage.physicalAddr).Nodup
  exact' : ∀ c ∈ l, c.magic = cowMagic ∧
    ∃ f : Fin maxFrames, c.physicalAddr = f.val * 4096 ∧ c.refCount = m f

section
variable {l : List CowPage} {m m' : Fin maxFrames → Nat}

theorem frameAddr_inj {f g : Fin maxFrames} (h : f.val * 4096 = g.val * 4096) : f = g :=
  Fin.ext (Nat.eq_of_mul_eq_mul_right (by decide) h)

theorem isFor_iff {c : CowPage} (h : c.magic = cowMagic) (a : Nat) :
    CowPage.isFor c a = true ↔ c.physicalAddr = a := by
  simp [CowPage.isFor, h]

/-- Where there is no record for the address, `find_cow_page` finds none. -/
theorem find_eq_none_iff (h : Records l m) (a : Nat) :
    l.find? (fun c => CowPage.isFor c a) = none ↔ ∀ c ∈ l, c.physicalAddr ≠ a := by
  rw [List.find?_eq_none]
  refine forall₂_congr fun c hc => ?_
  rw [isFor_iff (h.exact' c hc).1]

theorem map_modifyCow {a : Nat} {g : CowPage → CowPage}
    (hg : ∀ c, (g c).physicalAddr = c.physicalAddr ∧ (g c).magic = c.magic) :
    ∀ l : List CowPage, (modifyCow a g l).map CowPage.physicalAddr = l.map CowPage.physicalAddr
  | [] => rfl
  | c :: cs => by
      unfold modifyCow
      split
      · rw [List.map_cons, List.map_cons, (hg c).1]
      · rw [List.map_cons, List.map_cons, map_modifyCow hg cs]

theorem Records.nil (m : Fin maxFrames → Nat) : Records [] m :=
  ⟨List.nodup_nil, fun _ hc => absurd hc List.not_mem_nil⟩

theorem Records.count (h : Records l m) {c : CowPage} (hc : c ∈ l) {f : Fin maxFrames}
    (hf : c.physicalAddr = f.val * 4096) : c.refCount = m f := by
  obtain ⟨_, f₀, hf₀, hcount⟩ := h.exact' c hc
  rw [hcount, frameAddr_inj (hf₀.symm.trans hf)]

/-- The count of a frame without a record does not matter. -/
theorem Records.congr (h : Records l m)
    (hm : ∀ f, (∃ c ∈ l, c.physicalAddr = f.val * 4096) → m' f = m f) : Records l m' := by
  refine ⟨h.nodup, fun c hc => ?_⟩
  obtain ⟨hmag, f, hf, hcount⟩ := h.exact' c hc
  exact ⟨hmag, f, hf, by rw [hm f ⟨c, hc, hf⟩, hcount]⟩

/-- The record `c` says what `m` says. -/
def Tells (c : CowPage) (m : Fin maxFrames → Nat) : Prop :=
  c.magic = cowMagic ∧ ∃ f : Fin maxFrames, c.physicalAddr = f.val * 4096 ∧ c.refCount = m f

/-- Where the count changes for `f` only, and the record is about another frame. -/
theorem Tells.of_ne {c : CowPage} {f : Fin maxFrames} (h : Tells c m)
    (hne : c.physicalAddr ≠ f.val * 4096) (hm : ∀ g, g ≠ f → m' g = m g) : Tells c m' := by
  obtain ⟨hmag, g, hg, hcount⟩ := h
  have hgf : g ≠ f := fun heq => hne (by rw [hg, heq])
  exact ⟨hmag, g, hg, by rw [hm g hgf, hcount]⟩

/-- The first record, the others, and that these are about other frames. -/
theorem records_cons_iff {c : CowPage} {cs : List CowPage} :
    Records (c :: cs) m ↔
      Tells c m ∧ (∀ c' ∈ cs, c'.physicalAddr ≠ c.physicalAddr) ∧ Records cs m := by
  have hnd : ((c :: cs).map CowPage.physicalAddr).Nodup ↔
      (∀ c' ∈ cs, c'.physicalAddr ≠ c.physicalAddr) ∧ (cs.map CowPage.physicalAddr).Nodup := by
    rw [List.map_cons, List.nodup_cons, List.mem_map]
    exact and_congr_left'
      ⟨fun h c' hc' heq => h ⟨c', hc', heq⟩, fun h ⟨c', hc', heq⟩ => h c' hc' heq⟩
  constructor
  · intro h
    obtain ⟨hne, htail⟩ := hnd.mp h.nodup
    obtain ⟨hc, hcs⟩ := List.forall_mem_cons.mp h.exact'
    exact ⟨hc, hne, htail, hcs⟩
  · rintro ⟨hc, hne, htail⟩
    exact ⟨hnd.mpr ⟨hne, htail.nodup⟩, List.forall_mem_cons.mpr ⟨hc, htail.exact'⟩⟩

/-- A new record. -/
theorem Records.cons (h : Records l m) {f : Fin maxFrames} {n : Nat}
    (hnone : ∀ c ∈ l, c.physicalAddr ≠ f.val * 4096) (hn : m' f = n)
    (hm : ∀ g, g ≠ f → m' g = m g) :
    Records ({ physicalAddr := f.val * 4096, refCount := n, magic := cowMagic } :: l) m' := by
  refine records_cons_iff.mpr ⟨⟨rfl, f, rfl, hn.symm⟩, hnone, h.nodup, fun c hc => ?_⟩
  exact Tells.of_ne (h.exact' c hc) (hnone c hc) hm

/-- Changing the count of the record of `f`. -/
theorem Records.modify {g : CowPage → CowPage} {f : Fin maxFrames}
    (hg : ∀ c, (g c).physicalAddr = c.physicalAddr ∧ (g c).magic = c.magic) :
    ∀ {l : List CowPage}, Records l m →
      (∀ c ∈ l, c.physicalAddr = f.val * 4096 → (g c).refCount = m' f) →
      (∀ f', f' ≠ f → m' f' = m f') → Records (modifyCow (f.val * 4096) g l) m'
  | [], _, _, _ => Records.nil m'
  | c :: cs, h, hcount, hm => by
      obtain ⟨hc, hne, htail⟩ := records_cons_iff.mp h
      by_cases hfor : c.physicalAddr = f.val * 4096
      · have hrest : Records cs m' := htail.congr fun f' ⟨c', hc', hf'⟩ =>
          hm f' fun heq => hne c' hc' (by rw [hf', heq, hfor])
        rw [modifyCow, if_pos ((isFor_iff hc.1 _).mpr hfor)]
        refine records_cons_iff.mpr ⟨⟨(hg c).2.trans hc.1, f, (hg c).1.trans hfor, ?_⟩, ?_, hrest⟩
        · exact hcount c List.mem_cons_self hfor
        · rw [(hg c).1]
          exact hne
      · have hrest := Records.modify hg htail
          (fun c' hc' => hcount c' (List.mem_cons_of_mem c hc')) hm
        rw [modifyCow, if_neg (fun hb => hfor ((isFor_iff hc.1 _).mp hb))]
        refine records_cons_iff.mpr ⟨hc.of_ne hfor hm, fun c' hc' heq => ?_, hrest⟩
        -- the addresses are those of the list before
        have hmem : c'.physicalAddr ∈ cs.map CowPage.physicalAddr :=
          map_modifyCow hg cs ▸ List.mem_map_of_mem hc'
        obtain ⟨c₀, hc₀, heq₀⟩ := List.mem_map.mp hmem
        exact hne c₀ hc₀ (heq₀.trans heq)

/-- Unlinking the record of `f`. -/
theorem Records.unlink {f : Fin maxFrames} :
    ∀ {l : List CowPage}, Records l m → (∀ f', f' ≠ f → m' f' = m f') →
      Records (unlinkCow (f.val * 4096) l) m'
  | [], _, _ => Records.nil m'
  | c :: cs, h, hm => by
      obtain ⟨hc, hne, htail⟩ := records_cons_iff.mp h
      by_cases hfor : c.physicalAddr = f.val * 4096
      · rw [unlinkCow, if_pos ((isFor_iff hc.1 _).mpr hfor)]
        exact htail.congr fun f' ⟨c', hc', hf'⟩ =>
          hm f' fun heq => hne c' hc' (by rw [hf', heq, hfor])
      · have hrest := Records.unlink htail hm
        rw [unlinkCow, if_neg (fun hb => hfor ((isFor_iff hc.1 _).mp hb))]
        exact records_cons_iff.mpr
          ⟨hc.of_ne hfor hm, fun c' hc' => hne c' (mem_of_mem_unlinkCow hc'), hrest⟩

end

/-! ## The number of sharers -/

section
variable {k k' : Kernel}

theorem mem_mappers {f : Fin maxFrames} {x : Nat × PageNo} :
    x ∈ k.mappers f ↔ x.1 ∈ k.live ∧ k.frameAt x.1 x.2 = some f := by
  simp [Kernel.mappers]

theorem sharers_congr (hl : k'.live = k.live) (hf : ∀ pd q, k'.frameAt pd q = k.frameAt pd q) :
    k'.sharers = k.sharers := by
  funext f
  unfold Kernel.sharers
  congr 1
  ext x
  rw [mem_mappers, mem_mappers, hl, hf]

/-- A page that was not mapped joins frame `n`. -/
theorem sharers_insert {pd : Nat} {p : PageNo} {n : Fin maxFrames} (hl : k'.live = k.live)
    (hpd : pd ∈ k.live) (hnone : k.frameAt pd p = none)
    (hf : ∀ pd' q, k'.frameAt pd' q = if pd' = pd ∧ q = p then some n else k.frameAt pd' q) :
    k'.sharers n = k.sharers n + 1 ∧ ∀ g, g ≠ n → k'.sharers g = k.sharers g := by
  have hmem : (pd, p) ∉ k.mappers n := by
    intro h
    have := (mem_mappers.mp h).2
    rw [hnone] at this
    exact absurd this (by simp)
  refine ⟨?_, ?_⟩
  · have hins : k'.mappers n = insert (pd, p) (k.mappers n) := by
      ext ⟨pd', q⟩
      simp only [Finset.mem_insert, mem_mappers, hl, hf, Prod.mk.injEq]
      constructor
      · rintro ⟨h1, h2⟩
        split at h2
        · next heq => exact Or.inl heq
        · exact Or.inr ⟨h1, h2⟩
      · rintro (⟨rfl, rfl⟩ | ⟨h1, h2⟩)
        · exact ⟨hpd, by simp⟩
        · refine ⟨h1, ?_⟩
          split
          · rfl
          · exact h2
    unfold Kernel.sharers
    rw [hins, Finset.card_insert_of_notMem hmem]
  · intro g hg
    unfold Kernel.sharers
    congr 1
    ext ⟨pd', q⟩
    simp only [mem_mappers, hl, hf]
    split
    · next heq =>
        rw [heq.1, heq.2, hnone]
        constructor
        · rintro ⟨_, h⟩
          exact absurd (Option.some.inj h).symm hg
        · rintro ⟨_, h⟩
          exact absurd h (by simp)
    · rfl

/-- A page leaves frame `f`. -/
theorem sharers_erase {pd : Nat} {p : PageNo} {f : Fin maxFrames} (hl : k'.live = k.live)
    (hpd : pd ∈ k.live) (hsome : k.frameAt pd p = some f)
    (hf : ∀ pd' q, k'.frameAt pd' q = if pd' = pd ∧ q = p then none else k.frameAt pd' q) :
    k'.sharers f + 1 = k.sharers f ∧ ∀ g, g ≠ f → k'.sharers g = k.sharers g := by
  -- read backwards, the page joins the frame it was on
  have hnone : k'.frameAt pd p = none := by
    rw [hf]
    simp
  have hback : ∀ pd' q, k.frameAt pd' q =
      if pd' = pd ∧ q = p then some f else k'.frameAt pd' q := by
    intro pd' q
    split
    · next heq => rw [heq.1, heq.2, hsome]
    · next heq => rw [hf, if_neg heq]
  obtain ⟨h1, h2⟩ := sharers_insert hl.symm (hl ▸ hpd) hnone hback
  exact ⟨h1.symm, fun g hg => (h2 g hg).symm⟩

/-! ## Counting a sharer -/

/-- **The three ways a sharer is counted.** -/
theorem shareCow_cases (pa : Nat) :
    (∃ c, k.findCowPage pa = some c ∧ k.shareCow pa = (true, k.incCowRef pa)) ∨
    (k.findCowPage pa = none ∧ k.shareCow pa = (false, k.kmalloc.2)) ∨
    (k.findCowPage pa = none ∧ k.shareCow pa = (true, { k.kmalloc.2 with
      cowPages := { physicalAddr := pa, refCount := 2, magic := cowMagic } :: k.cowPages })) := by
  cases hf : k.findCowPage pa with
  | some c => exact Or.inl ⟨c, rfl, by simp [shareCow, hf]⟩
  | none =>
      refine Or.inr ?_
      have hcow : k.kmalloc.2.cowPages = k.cowPages := congrArg Rest.cowPages k.kmalloc_rest
      rcases hk : k.kmalloc with ⟨_ | _, k₁⟩
      · exact Or.inl ⟨rfl, by simp [shareCow, allocCowPage, hf, hk]⟩
      · rw [hk] at hcow
        simp only at hcow
        refine Or.inr ⟨rfl, ?_⟩
        simp [shareCow, allocCowPage, hf, hk, incCowRef, modifyCow, CowPage.isFor, hcow,
          maxCowRefs]

/-! ## One call -/

/-- The invariant. -/
structure Exact (k : Kernel) : Prop where
  records : Records k.cowPages k.sharers
  noMappings : k.cowMappings = []

/-- Neither the records nor the frames change. -/
theorem Exact.keep (h : Exact k) (hc : k'.cowPages = k.cowPages)
    (hm : k'.cowMappings = k.cowMappings) (hl : k'.live = k.live)
    (hf : ∀ pd q, k'.frameAt pd q = k.frameAt pd q) : Exact k' := by
  refine ⟨?_, hm.trans h.noMappings⟩
  rw [hc, sharers_congr hl hf]
  exact h.records

theorem record_of_cowPages (hc : k'.cowPages = k.cowPages) (f : Fin maxFrames) :
    k'.record f = k.record f := by
  unfold Kernel.record findCowPage
  rw [hc]

theorem Exact.record_eq_none (h : Exact k) {f : Fin maxFrames} :
    k.record f = none ↔ ∀ c ∈ k.cowPages, c.physicalAddr ≠ f.val * 4096 :=
  find_eq_none_iff h.records _

/-- A new directory maps nothing, so it shares nothing. -/
theorem exact_create (h : Exact k) {pd : Nat} (hpd : pd ∉ k.live) :
    Exact (k.createPageDirectory pd).2 := by
  obtain ⟨hc, hmp⟩ := k.createPageDirectory_cow pd
  rcases k.createPageDirectory_view pd with ⟨hl, hm⟩ | ⟨hl, hm⟩
  · refine h.keep hc hmp hl fun pd' q => ?_
    unfold frameAt
    rw [hm]
  · have hsame : (k.createPageDirectory pd).2.sharers = k.sharers := by
      funext f
      unfold Kernel.sharers
      congr 1
      ext ⟨pd', q⟩
      simp only [mem_mappers, hl, Finset.mem_insert, frameAt, hm]
      by_cases hp : pd' = pd
      · simp [hp, hpd]
      · simp [hp]
    refine ⟨?_, hmp.trans h.noMappings⟩
    rw [hc, hsame]
    exact h.records

/-- What `map_page` does to the frames. -/
theorem frameAt_mapPage_present {pd va flags : Nat} {f : Fin maxFrames}
    (hr : (k.mapPage pd va (f.val * 4096) flags).1 = 0)
    (hp : (newEntry (f.val * 4096) flags).present = true) (pd' : Nat) (q : PageNo) :
    (k.mapPage pd va (f.val * 4096) flags).2.frameAt pd' q =
      if pd' = pd ∧ q = pageOf va then some f else k.frameAt pd' q := by
  unfold frameAt
  rw [mapPage_mapped hr, if_pos hp]
  split
  · exact congrArg some (frameOf_frameAddr f)
  · rfl

/-- A page that `map_page` puts on frame `f` is one sharer more, and the
records are as they were. -/
theorem mapPage_joins {pd va flags : Nat} {f : Fin maxFrames} (hpd : pd ∈ k.live)
    (hnone : k.frameAt pd (pageOf va) = none)
    (hr : (k.mapPage pd va (f.val * 4096) flags).1 = 0)
    (hp : (newEntry (f.val * 4096) flags).present = true) :
    (k.mapPage pd va (f.val * 4096) flags).2.sharers f = k.sharers f + 1 ∧
    (∀ g, g ≠ f → (k.mapPage pd va (f.val * 4096) flags).2.sharers g = k.sharers g) ∧
    (k.mapPage pd va (f.val * 4096) flags).2.cowPages = k.cowPages ∧
    (k.mapPage pd va (f.val * 4096) flags).2.cowMappings = k.cowMappings := by
  have hrest := k.mapPage_rest pd va (f.val * 4096) flags
  obtain ⟨h1, h2⟩ := sharers_insert (live_of_rest hrest) hpd hnone
    (frameAt_mapPage_present hr hp)
  exact ⟨h1, h2, congrArg Rest.cowPages hrest, congrArg Rest.cowMappings hrest⟩

/-- A page of a fork that is read-only: it is passed on uncounted. -/
theorem exact_copyReadOnly (h : Exact k) {dst src addr : Nat} (hdst : dst ∈ k.live)
    {e : PageTableEntry} {flags : Nat} (hcc : CountedCopy dst src addr k e)
    (hw : e.writable = false) (hp : (newEntry (e.frame.val * 4096) flags).present = true) :
    Exact (k.mapPage dst addr (e.frame.val * 4096) flags).2 := by
  by_cases hr : (k.mapPage dst addr (e.frame.val * 4096) flags).1 = 0
  · have hnone : k.frameAt dst (pageOf addr) = none := by
      unfold frameAt
      rw [hcc.unmapped]
      rfl
    obtain ⟨_, hother, hc, hm⟩ := mapPage_joins hdst hnone hr hp
    have hrec : k.record e.frame = none :=
      (hcc.readOnly hw).resolve_right fun hroom => hroom ((tableRoom_iff _ _ _ _).mpr hr)
    refine ⟨?_, hm.trans h.noMappings⟩
    rw [hc]
    refine h.records.congr fun f ⟨c, hmem, haddr⟩ => hother f fun heq => ?_
    exact h.record_eq_none.mp hrec c hmem (by rw [haddr, heq])
  · have hrest := k.mapPage_rest dst addr (e.frame.val * 4096) flags
    refine h.keep (congrArg Rest.cowPages hrest) (congrArg Rest.cowMappings hrest)
      (live_of_rest hrest) fun pd q => ?_
    unfold frameAt
    rw [mapPage_mapped_fail hr]

/-- A page of a fork that is writable: it is counted, then passed on. -/
theorem exact_copyWritable (h : Exact k) {dst src addr : Nat} (hdst : dst ∈ k.live)
    {e : PageTableEntry} {flags : Nat} (hcc : CountedCopy dst src addr k e)
    (hme : k.mapped src (pageOf addr) = some e) (hw : e.writable = true)
    (hp : (newEntry (e.frame.val * 4096) flags).present = true) :
    ((k.protectPage src addr e (e.frame.val * 4096)).1 = false →
      Exact (k.protectPage src addr e (e.frame.val * 4096)).2) ∧
    ((k.protectPage src addr e (e.frame.val * 4096)).1 = true →
      Exact ((k.protectPage src addr e (e.frame.val * 4096)).2.mapPage dst addr
        (e.frame.val * 4096) flags).2) := by
  have hpf := protectPage_frameAt hme (e.frame.val * 4096)
  have hpo : (k.protectPage src addr e (e.frame.val * 4096)).2.owners = k.owners :=
    protectPage_owners e (e.frame.val * 4096)
  have hcond := hcc.writable hw
  have hr₀ := k.setWritable_rest src addr false
  have hc₀ : (k.setWritable src addr false).cowPages = k.cowPages := congrArg Rest.cowPages hr₀
  have hfind : (k.setWritable src addr false).findCowPage (e.frame.val * 4096) =
      k.record e.frame := record_of_cowPages hc₀ e.frame
  have hprot : k.protectPage src addr e (e.frame.val * 4096) =
      (k.setWritable src addr false).shareCow (e.frame.val * 4096) := by
    unfold protectPage
    rw [if_pos hw]
  have hshare := shareCow_cases (k := k.setWritable src addr false) (e.frame.val * 4096)
  rw [← hprot, hc₀, hfind] at hshare
  generalize k.protectPage src addr e (e.frame.val * 4096) = q at hpf hpo hcond hshare
  have hql : q.2.live = k.live := congrArg Owners.live hpo
  have hqm : q.2.cowMappings = k.cowMappings := congrArg Owners.cowMappings hpo
  have hqs : q.2.sharers = k.sharers := sharers_congr hql hpf
  have hqn : q.2.frameAt dst (pageOf addr) = none := by
    rw [hpf]
    unfold frameAt
    rw [hcc.unmapped]
    rfl
  refine ⟨?_, ?_⟩
  · -- the slab cache had no room: no record was made, and the page is not passed on
    intro hfalse
    have hqc : q.2.cowPages = k.cowPages := by
      rcases hshare with ⟨c, _, he⟩ | ⟨_, he⟩ | ⟨_, he⟩
      · rw [he] at hfalse
        exact absurd hfalse (by simp)
      · rw [he]
        exact (congrArg Rest.cowPages (kmalloc_rest _)).trans hc₀
      · rw [he] at hfalse
        exact absurd hfalse (by simp)
    exact h.keep hqc hqm hql hpf
  · intro htrue
    obtain ⟨hcounted, hroom⟩ := hcond htrue
    have hr := (tableRoom_iff dst addr (e.frame.val * 4096) flags).mp hroom
    obtain ⟨hplus, hother, hc, hm⟩ := mapPage_joins (hql ▸ hdst) hqn hr hp
    rw [hqs] at hplus hother
    refine ⟨?_, hm.trans (hqm.trans h.noMappings)⟩
    rw [hc]
    rcases hshare with ⟨c, hfound, he⟩ | ⟨_, he⟩ | ⟨hnew, he⟩
    · have hqc : q.2.cowPages = modifyCow (e.frame.val * 4096) (fun c =>
          if c.refCount < maxCowRefs then { c with refCount := c.refCount + 1 } else c)
          k.cowPages := by
        rw [he, ← hc₀]
        rfl
      rw [hqc]
      refine Records.modify ?_ h.records ?_ hother
      · intro c
        split <;> exact ⟨rfl, rfl⟩
      · intro c hmem haddr
        have hcount := h.records.count hmem haddr
        rw [if_pos (by rw [hcount]; exact hcc.fewer), hplus, ← hcount]
    · rw [he] at htrue
      exact absurd htrue (by simp)
    · have hone : k.sharers e.frame = 1 := hcounted.resolve_left fun hne => hne hnew
      have hqc : q.2.cowPages =
          { physicalAddr := e.frame.val * 4096, refCount := 2, magic := cowMagic } ::
            k.cowPages := by
        rw [he]
      rw [hqc]
      exact h.records.cons (h.record_eq_none.mp hnew) (by rw [hplus, hone]) hother

/-- A page of a fork. -/
theorem exact_copyPage (h : Exact k) {dst src addr : Nat} (hdst : dst ∈ k.live)
    (hok : k.getPhysicalAddr src addr ≠ 0 →
      ∀ e, k.mapped src (pageOf addr) = some e → CountedCopy dst src addr k e) :
    Exact (copyPage dst src addr k).2 := by
  rcases k.copyPage_cases dst src addr with ⟨_, he⟩ | ⟨e, pa, hme, hpa, hpz, hcases⟩
  · rw [he]
    exact h
  have hcc := hok (by rw [getPhysicalAddr_of_mapped hme, ← hpa]; exact hpz) e hme
  rw [hcc.aligned, Nat.add_zero] at hpa
  subst hpa
  obtain ⟨_, _, _, hpres⟩ := pageTable_of_mapped hme
  have hent : newEntry (e.frame.val * 4096) (passedFlags e) = { e with writable := false } := by
    have := newEntry_passedFlags hpres addr
    rwa [hcc.aligned, Nat.add_zero] at this
  have hp : (newEntry (e.frame.val * 4096) (passedFlags e)).present = true := by
    rw [hent]
    exact hpres
  cases hw : e.writable with
  | false =>
      have hprot : k.protectPage src addr e (e.frame.val * 4096) = (true, k) := by
        unfold protectPage
        rw [hw]
        rfl
      rw [hprot] at hcases
      have hmap := exact_copyReadOnly h hdst hcc hw hp
      rcases hcases with ⟨hfalse, _⟩ | ⟨_, _, he⟩ | ⟨_, _, he⟩
      · exact absurd hfalse (by simp)
      · rw [he]
        exact hmap
      · rw [he]
        exact hmap
  | true =>
      obtain ⟨hno, hyes⟩ := exact_copyWritable h hdst hcc hme hw hp
      rcases hcases with ⟨hfalse, he⟩ | ⟨htrue, _, he⟩ | ⟨htrue, _, he⟩
      · rw [he]
        exact hno hfalse
      · rw [he]
        exact hyes htrue
      · rw [he]
        exact hyes htrue

/-- The copying branch of a fault: the page leaves a frame that is counted and
joins one that is not. -/
theorem exact_brokenShare (h : Exact k) {pd va new : Nat} (hpd : pd ∈ k.live)
    {e : PageTableEntry} (hme : k.mapped pd (pageOf va) = some e) {c : CowPage}
    (hc : k.record e.frame = some c) (hcount : 1 < c.refCount)
    (hnew : k.record (frameOf new) = none) :
    Exact (k.brokenShare pd va (e.frame.val * 4096) new) := by
  have hne : frameOf new ≠ e.frame := by
    intro heq
    rw [heq, hc] at hnew
    exact absurd hnew (by simp)
  -- the page between the two frames
  have hlu : (k.unmapPage pd va).live = k.live := live_of_rest (k.unmapPage_rest pd va)
  obtain ⟨hleft, hleft'⟩ := sharers_erase hlu hpd (frameAt_of_mapped hme)
    (k.frameAt_unmapPage pd va)
  have hunm : (k.unmapPage pd va).frameAt pd (pageOf va) = none := by
    rw [frameAt_unmapPage]
    simp
  have hbo := brokenShare_owners (k := k) pd va (e.frame.val * 4096) new
  have hbl : (k.brokenShare pd va (e.frame.val * 4096) new).live = k.live :=
    congrArg Owners.live hbo
  have hbf : ∀ pd' q, (k.brokenShare pd va (e.frame.val * 4096) new).frameAt pd' q =
      if pd' = pd ∧ q = pageOf va then some (frameOf new)
      else (k.unmapPage pd va).frameAt pd' q := by
    intro pd' q
    unfold frameAt
    rw [brokenShare_mapped hme, unmapPage_mapped]
    split <;> rfl
  obtain ⟨_, hjoin⟩ := sharers_insert (hbl.trans hlu.symm) (hlu ▸ hpd) hunm hbf
  -- the records: the old one loses a reference and stays
  have hcow : (((k.copyFrame new (e.frame.val * 4096)).unmapPage pd va).mapPage pd va new
      brokenFlags).2.cowPages = k.cowPages :=
    (congrArg Rest.cowPages (mapPage_rest _ _ _ _ _)).trans
      (congrArg Rest.cowPages (unmapPage_rest (k.copyFrame new (e.frame.val * 4096)) pd va))
  have hfind : (((k.copyFrame new (e.frame.val * 4096)).unmapPage pd va).mapPage pd va new
      brokenFlags).2.findCowPage (e.frame.val * 4096) = some c := by
    rw [← hc]
    exact record_of_cowPages hcow e.frame
  have hbc : (k.brokenShare pd va (e.frame.val * 4096) new).cowPages =
      modifyCow (e.frame.val * 4096) (fun c => { c with refCount := c.refCount - 1 })
        k.cowPages := by
    unfold brokenShare
    rw [decCowRef_of_find hfind, if_neg (by omega), hcow]
  refine ⟨?_, (congrArg Owners.cowMappings hbo).trans h.noMappings⟩
  rw [hbc]
  have hmid : Records k.cowPages (fun g => if g = frameOf new then
      (k.brokenShare pd va (e.frame.val * 4096) new).sharers g else k.sharers g) := by
    refine h.records.congr fun g ⟨c', hmem, haddr⟩ => if_neg fun heq => ?_
    exact h.record_eq_none.mp hnew c' hmem (by rw [haddr, heq])
  refine Records.modify (g := fun c => { c with refCount := c.refCount - 1 })
    (fun _ => ⟨rfl, rfl⟩) hmid ?_ ?_
  · intro c' hmem haddr
    have hcnt := h.records.count hmem haddr
    show c'.refCount - 1 = _
    rw [hjoin e.frame (Ne.symm hne), hcnt, ← hleft]
    rfl
  · intro g hg
    by_cases hgn : g = frameOf new
    · rw [if_pos hgn]
    · rw [if_neg hgn, hjoin g hgn, hleft' g hg]

theorem exact_fault (h : Exact k) {pd va errorCode : Nat} (hpd : pd ∈ k.live)
    (hs : CowCall.Counting k (.fault pd va errorCode)) :
    Exact (k.handleCowFault pd va errorCode).2 := by
  rcases k.handleCowFault_cases pd va errorCode with
    he | ⟨e, hme, hz, hw, ⟨_, he⟩ | ⟨c, hc, hcount, ⟨_, he⟩ | ⟨ha, he⟩⟩⟩
  · rw [he]
    exact h
  · rw [he]
    have hr := k.setWritable_rest pd (pageAddr va) true
    have hme' := hme
    rw [← pageOf_pageAddr] at hme'
    exact h.keep (congrArg Rest.cowPages hr) (congrArg Rest.cowMappings hr) (live_of_rest hr)
      (frameAt_setWritable hme' true)
  · rw [he]
    have hr := k.allocFrame_rest
    exact h.keep (congrArg Rest.cowPages hr) (congrArg Rest.cowMappings hr) (live_of_rest hr)
      (frameAt_congr k.allocFrame_dir)
  · rw [he]
    have hr := k.allocFrame_rest
    have h' : Exact k.allocFrame.2 :=
      h.keep (congrArg Rest.cowPages hr) (congrArg Rest.cowMappings hr) (live_of_rest hr)
        (frameAt_congr k.allocFrame_dir)
    have hrec : ∀ f, k.allocFrame.2.record f = k.record f :=
      record_of_cowPages (congrArg Rest.cowPages hr)
    refine exact_brokenShare h' ?_ (c := c) ?_ ?_ hcount ?_
    · rw [live_of_rest hr]
      exact hpd
    · rw [mapped_congr k.allocFrame_dir, pageOf_pageAddr]
      exact hme
    · rw [hrec]
      exact hc
    · rw [hrec]
      exact hs hw e hme hz c hc hcount ha

/-- A page of `cow_free_page_range`. -/
theorem exact_freePage (h : Exact k) {pd addr : Nat} (hpd : pd ∈ k.live)
    (hok : ∀ e, k.mapped pd (pageOf addr) = some e → addr % 4096 = 0 ∨ k.record e.frame = none) :
    Exact (freePage pd addr k).2 := by
  rcases k.freePage_cases pd addr with he | ⟨e, hme, _, he⟩
  · rw [he]
    exact h
  rw [he]
  show Exact ((k.decCowRef (e.frame.val * 4096 + addr % 4096)).unmapPage pd addr)
  have hdir : (k.decCowRef (e.frame.val * 4096 + addr % 4096)).dir = k.dir := decCowRef_dir _
  have hdo := decCowRef_owners (k := k) (e.frame.val * 4096 + addr % 4096)
  -- one sharer fewer, whatever becomes of the record
  have hl : ((k.decCowRef (e.frame.val * 4096 + addr % 4096)).unmapPage pd addr).live = k.live :=
    (live_of_rest (unmapPage_rest _ _ _)).trans (congrArg Owners.live hdo)
  obtain ⟨hleft, hother⟩ := sharers_erase hl hpd (frameAt_of_mapped hme) (by
    intro pd' q
    rw [frameAt_unmapPage, frameAt_congr hdir])
  have hcow : ((k.decCowRef (e.frame.val * 4096 + addr % 4096)).unmapPage pd addr).cowPages =
      (k.decCowRef (e.frame.val * 4096 + addr % 4096)).cowPages :=
    congrArg Rest.cowPages (unmapPage_rest _ _ _)
  have hmap : ((k.decCowRef (e.frame.val * 4096 + addr % 4096)).unmapPage pd addr).cowMappings =
      k.cowMappings :=
    (congrArg Rest.cowMappings (unmapPage_rest _ _ _)).trans (congrArg Owners.cowMappings hdo)
  refine ⟨?_, hmap.trans h.noMappings⟩
  rw [hcow]
  cases hf : k.findCowPage (e.frame.val * 4096 + addr % 4096) with
  | none =>
      have hd : k.decCowRef (e.frame.val * 4096 + addr % 4096) = k := by
        unfold decCowRef
        rw [hf]
      have hnone : k.record e.frame = none := by
        rcases hok e hme with ha | hn
        · rw [ha, Nat.add_zero] at hf
          exact hf
        · exact hn
      rw [hd] at hother ⊢
      refine h.records.congr fun g ⟨c, hmem, haddr⟩ => hother g fun heq => ?_
      exact h.record_eq_none.mp hnone c hmem (by rw [haddr, heq])
  | some c =>
      -- records are made for page addresses, so the address is one
      obtain ⟨hmem, haddr, _⟩ := findCowPage_spec hf
      obtain ⟨_, g, hg, _⟩ := h.records.exact' c hmem
      have ha : e.frame.val * 4096 + addr % 4096 = e.frame.val * 4096 := by omega
      rw [ha] at hf haddr hleft hother ⊢
      have hcnt := h.records.count hmem haddr
      rw [decCowRef_of_find hf] at hleft hother ⊢
      split at hleft
      · next hlast =>
          rw [if_pos hlast] at hother
          rw [if_pos hlast]
          exact h.records.unlink hother
      · next hmore =>
          rw [if_neg hmore] at hother
          rw [if_neg hmore]
          refine Records.modify (g := fun c => { c with refCount := c.refCount - 1 })
            (fun _ => ⟨rfl, rfl⟩) h.records ?_ hother
          intro c' hmem' haddr'
          show c'.refCount - 1 = _
          rw [h.records.count hmem' haddr', ← hleft]
          rfl

/-- A teardown of a process none of whose frames has a record. -/
theorem exact_destroy (h : Exact k) {pd : Nat}
    (hs : ∀ p f, k.frameAt pd p = some f → k.record f = none) :
    Exact (k.destroyPageDirectory pd) := by
  obtain ⟨hc, hm⟩ := k.destroyPageDirectory_cow pd
  refine ⟨?_, hm.trans h.noMappings⟩
  rw [hc]
  refine h.records.congr fun f ⟨c, hmem, haddr⟩ => ?_
  unfold Kernel.sharers
  congr 1
  ext ⟨pd', q⟩
  simp only [mem_mappers, destroyPageDirectory_live, Finset.mem_erase,
    frameAt_congr (k.destroyPageDirectory_dir pd)]
  refine ⟨fun hx => ⟨hx.1.2, hx.2⟩, fun hx => ⟨⟨?_, hx.1⟩, hx.2⟩⟩
  intro heq
  rw [heq] at hx
  exact h.record_eq_none.mp (hs q f hx.2) c hmem haddr

theorem exact_exec (h : Exact k) {c : CowCall} (ha : c.Admissible k) (hs : c.Counting k) :
    Exact (c.exec k) := by
  cases c with
  | create pd => exact exact_create h (ha.2 pd (by simp [CowCall.fresh]))
  | copy dst src start stop fuel =>
      have hdst : dst ∈ k.live := ha.1 dst (by simp [CowCall.dirs])
      exact (pageLoop_invariant (P := fun k => Exact k ∧ dst ∈ k.live)
        (fun _ hk => ⟨hk.1.keep rfl rfl rfl (fun _ _ => rfl), hk.2⟩)
        (fun addr k hk hok => ⟨exact_copyPage hk.1 hk.2 hok, by
          rw [copyPage_live]; exact hk.2⟩) fuel start k hs ⟨h, hdst⟩).1
  | fault pd va errorCode => exact exact_fault h (ha.1 pd (by simp [CowCall.dirs])) hs
  | free pd start stop fuel =>
      have hpd : pd ∈ k.live := ha.1 pd (by simp [CowCall.dirs])
      exact (pageLoop_invariant (P := fun k => Exact k ∧ pd ∈ k.live)
        (fun _ hk => ⟨hk.1.keep rfl rfl rfl (fun _ _ => rfl), hk.2⟩)
        (fun addr k hk hok => ⟨exact_freePage hk.1 hk.2 hok, by
          rw [freePage_live]; exact hk.2⟩) fuel start k hs ⟨h, hpd⟩).1
  | teardown pd =>
      show Exact (k.teardown pd)
      rw [teardown_nil h.noMappings]
      exact exact_destroy h hs
  | mapPages pd start stop flags fuel => exact absurd hs id
  | unmap pd va => exact absurd hs id
  | destroy pd => exact absurd hs id

/-- **One step.** -/
theorem exact_step {c : List Bool × CowCall} (h : Exact k) (hs : CountingStep k c)
    (hstep : cowStep k c = some k') : Exact k' := by
  have h' : Exact (k.withAnswers c.1) := h.keep rfl rfl rfl (fun _ _ => rfl)
  obtain ⟨ha, rfl⟩ := cowStep_eq_some hstep
  exact exact_exec h' ha hs

end

/-! ## The result -/

/-- **Exact counts**, for runs whose steps meet the condition. -/
theorem ref_counts_exact {k₀ k : Kernel} (h0 : k₀.cowPages = []) (hm : k₀.cowMappings = [])
    (hr : Reaches cowStep CountingStep k₀ k) :
    (k.cowPages.map CowPage.physicalAddr).Nodup ∧
    ∀ c ∈ k.cowPages, c.refCount = (k.mappers (frameOf c.physicalAddr)).card := by
  have hstart : Exact k₀ := ⟨h0 ▸ Records.nil _, hm⟩
  have h : Exact k :=
    hr.invariant hstart (fun _ _ _ hk hs hstep => exact_step hk hs hstep)
  refine ⟨h.records.nodup, ?_⟩
  intro c hc
  obtain ⟨_, f, hf, hcount⟩ := h.records.exact' c hc
  rw [hf, frameOf_frameAddr]
  exact hcount

/-- Where one page is all that is mapped, a frame has no more sharers than
there are directories. -/
theorem sharers_le_of_onlyPage {k : Kernel} {p : PageNo} (h : OnlyPage p k) (f : Fin maxFrames) :
    k.sharers f ≤ k.live.card := by
  have hsub : k.mappers f ⊆ k.live.image (fun pd => (pd, p)) := by
    intro ⟨pd, q⟩ hx
    obtain ⟨hl, hf⟩ := mem_mappers.mp hx
    obtain ⟨e, he, _⟩ := frameAt_eq_some.mp hf
    exact Finset.mem_image.mpr ⟨pd, hl, by rw [h pd hl q e he]⟩
  exact (Finset.card_le_card hsub).trans Finset.card_image_le

/-- The page of `oneProcess` before it is forked. -/
def writableEntry : PageTableEntry := { sharedEntry with writable := true }

theorem childCreated_sharers : childCreated.sharers sharedEntry.frame = 1 := by
  refine Finset.card_eq_one.mpr ⟨(1, pageOf userOffset), ?_⟩
  ext ⟨pd, q⟩
  rw [mem_mappers, Finset.mem_singleton, Prod.mk.injEq]
  constructor
  · rintro ⟨hl, hf⟩
    obtain ⟨e, he, _⟩ := frameAt_eq_some.mp hf
    have hq : q = pageOf userOffset := childCreated_onlyPage pd hl q e he
    refine ⟨?_, hq⟩
    have hlive : childCreated.live = {1, 2} := by decide +kernel
    simp only [hlive, Finset.mem_insert, Finset.mem_singleton] at hl
    rcases hl with rfl | rfl
    · rfl
    · rw [hq] at he
      exact absurd he (by
        rw [show childCreated.mapped 2 (pageOf userOffset) = none by decide +kernel]
        simp)
  · rintro ⟨rfl, rfl⟩
    exact ⟨by decide +kernel, by decide +kernel⟩

theorem childCreated_counting :
    CountingStep childCreated ([], .copy 2 1 userOffset (userOffset + 4096) 2) := by
  intro _
  refine ⟨fun _ e he => ?_, fun _ hlt => absurd hlt (by decide)⟩
  have hm : childCreated.mapped 1 (pageOf userOffset) = some writableEntry := by decide +kernel
  obtain rfl : writableEntry = e := Option.some.inj (hm.symm.trans he)
  have hone : (childCreated.withAnswers []).sharers writableEntry.frame = 1 := childCreated_sharers
  refine ⟨by decide, by decide +kernel, ?_, fun hw => absurd hw (by decide), ?_⟩
  · rw [hone]
    decide
  · exact fun _ _ => ⟨Or.inr hone, Or.inr ⟨by decide +kernel, by decide +kernel, by decide +kernel⟩⟩

/-- One fork: the record says 2, and two entries map the frame. -/
theorem ref_counts_exact_forked :
    Reaches cowStep CountingStep oneProcess childForked ∧
      (childForked.mappers sharedEntry.frame).card = 2 := by
  have h1 : cowStep oneProcess ([], .create 2) = some childCreated :=
    cowStep_eq (by decide +kernel) (by decide +kernel)
  have h2 : cowStep childCreated ([], .copy 2 1 userOffset (userOffset + 4096) 2) =
      some childForked := cowStep_eq (by decide +kernel) (by decide +kernel)
  have hr : Reaches cowStep CountingStep oneProcess childForked :=
    .tail (.tail (a := ([], .create 2)) .refl True.intro h1) childCreated_counting h2
  have hrec : { physicalAddr := 257 * 4096, refCount := 2, magic := cowMagic } ∈
      childForked.cowPages := by decide +kernel
  obtain ⟨_, hcount⟩ := ref_counts_exact (by decide +kernel) (by decide +kernel) hr
  exact ⟨hr, (hcount _ hrec).symm⟩

theorem onlyPage_copyPage {k : Kernel} {addr : Nat} (hk : OnlyPage (pageOf addr) k)
    (dst src : Nat) : OnlyPage (pageOf addr) (copyPage dst src addr k).2 := by
  rcases k.copyPage_cases dst src addr with ⟨_, he⟩ | ⟨e, pa, hme, _, _, hcases⟩
  · rw [he]
    exact hk
  have hl : (k.protectPage src addr e pa).2.live = k.live :=
    congrArg Owners.live (protectPage_owners e pa)
  have hprot : OnlyPage (pageOf addr) (k.protectPage src addr e pa).2 := by
    intro pd hpd q e' hm
    obtain ⟨e'', he'', _⟩ := frameAt_eq_some.mp
      ((protectPage_frameAt hme pa pd q).symm.trans (frameAt_of_mapped hm))
    exact hk pd (hl ▸ hpd) q e'' he''
  rcases hcases with ⟨_, he⟩ | ⟨_, _, he⟩ | ⟨_, _, he⟩
  · rw [he]
    exact hprot
  · rw [he]
    exact onlyPage_mapPage hprot _ _ _
  · rw [he]
    exact onlyPage_mapPage hprot _ _ _

theorem onlyPage_copyRange {k : Kernel} (hk : OnlyPage (pageOf userOffset) k) (dst src : Nat) :
    OnlyPage (pageOf userOffset)
      (k.cowCopyPageRange dst src userOffset (userOffset + 4096) 2).2 := by
  have hok : LoopOk (copyPage dst src) (fun addr _ => pageOf addr = pageOf userOffset)
      (userOffset + 4096) 2 userOffset k :=
    fun _ => ⟨rfl, fun _ hlt => absurd hlt (by decide)⟩
  refine pageLoop_invariant (P := OnlyPage (pageOf userOffset)) (fun _ hk => hk) ?_ 2 userOffset k
    hok hk
  intro addr k hk haddr
  rw [← haddr] at hk ⊢
  exact onlyPage_copyPage hk dst src

/-- The second child, before and after its page is copied. -/
def secondCreated : Kernel := CowCall.exec (childForked.withAnswers []) (.create 3)

def secondForked : Kernel :=
  CowCall.exec (secondCreated.withAnswers []) (.copy 3 1 userOffset (userOffset + 4096) 2)

/-- A call the counts are claimed for: forks, write faults, freed ranges and
teardowns, with fewer than `MAX_COW_REFS` sharers. -/
def CowCall.IsCounted (k : Kernel) : CowCall → Prop
  | .create _ | .copy _ _ _ _ _ | .fault _ _ _ | .free _ _ _ _ | .teardown _ =>
      ∀ f, k.sharers f < maxCowRefs
  | _ => False

/-- Two forks of one parent: three entries map frame 257, its record says 2. -/
theorem second_fork_not_counted :
    oneProcess.cowPages = [] ∧ oneProcess.cowMappings = [] ∧
    Reaches cowStep (fun k c => c.2.IsCounted k) oneProcess secondForked ∧
    (∀ f, secondForked.sharers f < maxCowRefs) ∧
    { physicalAddr := sharedEntry.frame.val * 4096, refCount := 2, magic := cowMagic } ∈
      secondForked.cowPages ∧
    2 ≠ (secondForked.mappers sharedEntry.frame).card := by
  have h1 : cowStep oneProcess ([], .create 2) = some childCreated :=
    cowStep_eq (by decide +kernel) (by decide +kernel)
  have h2 : cowStep childCreated ([], .copy 2 1 userOffset (userOffset + 4096) 2) =
      some childForked := cowStep_eq (by decide +kernel) (by decide +kernel)
  have h3 : cowStep childForked ([], .create 3) = some secondCreated :=
    cowStep_eq (by decide +kernel) (by decide +kernel)
  have h4 : cowStep secondCreated ([], .copy 3 1 userOffset (userOffset + 4096) 2) =
      some secondForked := cowStep_eq (by decide +kernel) (by decide +kernel)
  -- the frames of all these states are mapped at one page, so few entries share them
  have o2 : OnlyPage (pageOf userOffset) childForked :=
    onlyPage_copyRange (k := childCreated.withAnswers []) childCreated_onlyPage 2 1
  have o3 : OnlyPage (pageOf userOffset) secondCreated :=
    onlyPage_create (k := childForked.withAnswers []) o2 3
  have o4 : OnlyPage (pageOf userOffset) secondForked :=
    onlyPage_copyRange (k := secondCreated.withAnswers []) o3 3 1
  have few : ∀ {k : Kernel}, OnlyPage (pageOf userOffset) k → k.live.card < maxCowRefs →
      ∀ f, k.sharers f < maxCowRefs :=
    fun ho hc f => lt_of_le_of_lt (sharers_le_of_onlyPage ho f) hc
  have hr : Reaches cowStep (fun k c => c.2.IsCounted k) oneProcess secondForked :=
    .tail (a := ([], .copy 3 1 userOffset (userOffset + 4096) 2))
      (.tail (a := ([], .create 3))
        (.tail (a := ([], .copy 2 1 userOffset (userOffset + 4096) 2))
          (.tail (a := ([], .create 2)) .refl (few oneProcess_onlyPage (by decide +kernel)) h1)
          (few childCreated_onlyPage (by decide +kernel)) h2)
        (few o2 (by decide +kernel)) h3)
      (few o3 (by decide +kernel)) h4
  refine ⟨by decide +kernel, by decide +kernel, hr, few o4 (by decide +kernel),
    by decide +kernel, ?_⟩
  have hsub : {(1, pageOf userOffset), (2, pageOf userOffset), (3, pageOf userOffset)} ⊆
      secondForked.mappers sharedEntry.frame := by
    intro x hx
    simp only [Finset.mem_insert, Finset.mem_singleton] at hx
    rw [mem_mappers]
    rcases hx with rfl | rfl | rfl <;> decide +kernel
  have hthree := Finset.card_le_card hsub
  rw [show Finset.card {(1, pageOf userOffset), (2, pageOf userOffset), (3, pageOf userOffset)} = 3
    by decide] at hthree
  omega

end KmOS
