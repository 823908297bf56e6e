/-
# `KmOS.Vmm.PageTable` — the two-level page tables

`get_page_table`, `map_page`, `unmap_page` and `get_physical_addr`, as
`vmm.cc` has them, and what each of them does to the map from pages to
entries that a directory stands for.

**The view.**  `k.mapped pd p` is the entry directory `pd` holds for page `p`,
when the table is there and the entry is present.  Everything the results
above this module say about address spaces is said through it, and each
function here has one lemma that gives its effect on the view:

    get_page_table    no page changes                         (`getPageTable_mapped`)
    map_page          the page takes the new entry, or nothing changes and
                      the call returns -1                     (`mapPage_mapped`)
    unmap_page        the page is gone                        (`unmapPage_mapped`)
    table[i].writable = b   the entry, when present           (`setWritable_mapped`)

A table that `get_page_table` creates starts with no present entry, which is
why creating one changes no page.
-/
import KmOS.Vmm.State
import Mathlib.Data.Nat.Bitwise

namespace KmOS

/-! ## The address split of `x86.h` -/

/-- `VADDR_PD_OFFSET`. -/
def vaddrPdOffset (addr : Nat) : Nat := (addr &&& 0xFFC00000) >>> 22

/-- `VADDR_PT_OFFSET`. -/
def vaddrPtOffset (addr : Nat) : Nat := (addr &&& 0x003FF000) >>> 12

/-- `VADDR_PG_OFFSET`. -/
def vaddrPgOffset (addr : Nat) : Nat := addr &&& 0x00000FFF

theorem vaddrPdOffset_eq (addr : Nat) : vaddrPdOffset addr = addr / 2 ^ 22 % 1024 := by
  have h := Nat.and_two_pow_sub_one_eq_mod (addr >>> 22) 10
  rw [vaddrPdOffset, Nat.shiftRight_and_distrib, ← Nat.shiftRight_eq_div_pow]
  exact h

theorem vaddrPtOffset_eq (addr : Nat) : vaddrPtOffset addr = addr / 4096 % 1024 := by
  have h := Nat.and_two_pow_sub_one_eq_mod (addr >>> 12) 10
  rw [Nat.shiftRight_eq_div_pow] at h
  rw [vaddrPtOffset, Nat.shiftRight_and_distrib, Nat.shiftRight_eq_div_pow]
  exact h

theorem vaddrPgOffset_eq (addr : Nat) : vaddrPgOffset addr = addr % 4096 :=
  Nat.and_two_pow_sub_one_eq_mod addr 12

/-- The index into `tables` and `page_tables`. -/
def pdIndex (va : Nat) : Fin 1024 :=
  ⟨vaddrPdOffset va, by rw [vaddrPdOffset_eq]; exact Nat.mod_lt _ (by decide)⟩

/-- The index into a page table. -/
def ptIndex (va : Nat) : Fin 1024 :=
  ⟨vaddrPtOffset va, by rw [vaddrPtOffset_eq]; exact Nat.mod_lt _ (by decide)⟩

/-- A page of an address space, by its two indices. -/
abbrev PageNo := Fin 1024 × Fin 1024

/-- The page an address lies in. -/
def pageOf (va : Nat) : PageNo := (pdIndex va, ptIndex va)

/-- The first address of a page. -/
def PageNo.base (p : PageNo) : Nat := p.1.val * 2 ^ 22 + p.2.val * 4096

/-- **The split is injective**: the two indices of a 32-bit address name its
page and no other. -/
theorem pageOf_eq_iff {va va' : Nat} :
    pageOf va = pageOf va' ↔ va / 4096 % 2 ^ 20 = va' / 4096 % 2 ^ 20 := by
  simp only [pageOf, pdIndex, ptIndex, Prod.mk.injEq, Fin.mk.injEq, vaddrPdOffset_eq,
    vaddrPtOffset_eq]
  omega

theorem pageOf_base (p : PageNo) : pageOf p.base = p := by
  obtain ⟨⟨i, hi⟩, ⟨j, hj⟩⟩ := p
  simp only [pageOf, pdIndex, ptIndex, PageNo.base, vaddrPdOffset_eq, vaddrPtOffset_eq,
    Prod.mk.injEq, Fin.mk.injEq]
  omega

/-! ## Reading a directory -/

/-- `get_page_table(pd, va, 0)`: the table of index `i`, if the directory
entry is present. -/
def PageDirectory.pageTable (d : PageDirectory) (i : Fin 1024) : Option PageTable :=
  if (d.tables i).present then d.pageTables i else none

/-- The present entry of page `p`. -/
def PageDirectory.mapped (d : PageDirectory) (p : PageNo) : Option PageTableEntry :=
  match d.pageTable p.1 with
  | some t => if (t p.2).present then some (t p.2) else none
  | none => none

theorem PageDirectory.mapped_eq_some {d : PageDirectory} {p : PageNo} {e : PageTableEntry} :
    d.mapped p = some e ↔ ∃ t, d.pageTable p.1 = some t ∧ t p.2 = e ∧ e.present = true := by
  unfold PageDirectory.mapped
  cases h : d.pageTable p.1 with
  | none => simp
  | some t =>
      simp only [Option.some.injEq, exists_eq_left']
      constructor
      · intro he
        split at he
        · next hp =>
            cases he
            exact ⟨rfl, hp⟩
        · exact absurd he (by simp)
      · rintro ⟨rfl, hp⟩
        rw [if_pos hp]

namespace Kernel

/-- The present entry directory `pd` has for page `p`. -/
def mapped (k : Kernel) (pd : Nat) (p : PageNo) : Option PageTableEntry := (k.dir pd).mapped p

theorem mapped_congr {k k' : Kernel} (h : k'.dir = k.dir) (pd : Nat) (p : PageNo) :
    k'.mapped pd p = k.mapped pd p := by
  unfold mapped
  rw [h]

/-! ## `get_page_table` -/

/-- The entry a fresh page table is filled with. -/
def emptyEntry : PageTableEntry :=
  { present := false, writable := true, user := false, frame := ⟨0, maxFrames_pos⟩ }

/-- The 20-bit frame number `addr >> 12`. -/
def frameOf (addr : Nat) : Fin maxFrames :=
  ⟨(addr >>> 12) % maxFrames, Nat.mod_lt _ (by decide)⟩

/-- `VMM::get_page_table`. -/
def getPageTable (k : Kernel) (pd virtualAddr : Nat) (create : Bool) :
    Option PageTable × Kernel :=
  let i := pdIndex virtualAddr
  let d := k.dir pd
  if (d.tables i).present then (d.pageTables i, k)
  else if create = false then (none, k)
  else
    let (physAddr, k₁) := k.allocFrame
    if physAddr = 0 then (none, k₁)
    else
      let (ok, k₂) := k₁.kmalloc
      if ok = false then
        -- `page_tables[i]` has taken the null that `kmalloc` returned
        (none, (k₂.setDir pd
          { d with pageTables := Function.update d.pageTables i none }).freeFrame physAddr)
      else
        let t : PageTable := fun _ => emptyEntry
        (some t, k₂.setDir pd
          { d with
            tables := Function.update d.tables i
              { present := true, writable := true, user := false, frame := frameOf physAddr }
            pageTables := Function.update d.pageTables i (some t) })

/-- `table[page_idx] = …`, written through the pointer `get_page_table`
returned. -/
def setEntry (k : Kernel) (pd virtualAddr : Nat) (e : PageTableEntry) : Kernel :=
  let i := pdIndex virtualAddr
  let d := k.dir pd
  match d.pageTables i with
  | some t =>
      k.setDir pd { d with
        pageTables := Function.update d.pageTables i
          (some (Function.update t (ptIndex virtualAddr) e)) }
  | none => k

/-- `VMM::map_page`. -/
def mapPage (k : Kernel) (pd virtualAddr physicalAddr flags : Nat) : Int × Kernel :=
  match k.getPageTable pd virtualAddr true with
  | (none, k₁) => (-1, k₁)
  | (some _, k₁) =>
      (0, k₁.setEntry pd virtualAddr
        { present := flags &&& pgPresent != 0
          writable := flags &&& pgWrite != 0
          user := flags &&& pgUser != 0
          frame := frameOf physicalAddr })

/-- `VMM::unmap_page`. -/
def unmapPage (k : Kernel) (pd virtualAddr : Nat) : Kernel :=
  match (k.getPageTable pd virtualAddr false).1 with
  | none => k
  | some t =>
      let e := t (ptIndex virtualAddr)
      if e.present then
        (k.freeFrame (e.frame.val <<< 12)).setEntry pd virtualAddr { e with present := false }
      else k

/-- `VMM::get_physical_addr`. -/
def getPhysicalAddr (k : Kernel) (pd virtualAddr : Nat) : Nat :=
  match (k.getPageTable pd virtualAddr false).1 with
  | none => 0
  | some t =>
      let e := t (ptIndex virtualAddr)
      if e.present then (e.frame.val <<< 12) + vaddrPgOffset virtualAddr else 0

/-- `table[page_idx].writable = b`. -/
def setWritable (k : Kernel) (pd virtualAddr : Nat) (b : Bool) : Kernel :=
  match (k.getPageTable pd virtualAddr false).1 with
  | none => k
  | some t => k.setEntry pd virtualAddr { t (ptIndex virtualAddr) with writable := b }

/-! ## The effect of each function on the view -/

theorem getPageTable_false (k : Kernel) (pd va : Nat) :
    k.getPageTable pd va false = ((k.dir pd).pageTable (pdIndex va), k) := by
  simp only [getPageTable, PageDirectory.pageTable, if_true]
  split <;> rfl

/-- `get_physical_addr` reads the view. -/
theorem getPhysicalAddr_eq (k : Kernel) (pd va : Nat) :
    k.getPhysicalAddr pd va =
      match k.mapped pd (pageOf va) with
      | some e => e.frame.val * 4096 + va % 4096
      | none => 0 := by
  simp only [getPhysicalAddr, getPageTable_false, mapped, PageDirectory.mapped, pageOf]
  cases (k.dir pd).pageTable (pdIndex va) with
  | none => rfl
  | some t =>
      cases hp : (t (ptIndex va)).present with
      | false => simp [hp]
      | true => simp [hp, vaddrPgOffset_eq, Nat.shiftLeft_eq]

/-- A non-zero physical address comes from a present entry. -/
theorem mapped_of_getPhysicalAddr {k : Kernel} {pd va : Nat} (h : k.getPhysicalAddr pd va ≠ 0) :
    ∃ e, k.mapped pd (pageOf va) = some e ∧
      k.getPhysicalAddr pd va = e.frame.val * 4096 + va % 4096 := by
  rw [getPhysicalAddr_eq] at h ⊢
  cases hm : k.mapped pd (pageOf va) with
  | none =>
      rw [hm] at h
      exact absurd rfl h
  | some e => exact ⟨e, rfl, rfl⟩

theorem mapped_setDir (k : Kernel) (pd : Nat) (d : PageDirectory) (pd' : Nat) (q : PageNo) :
    (k.setDir pd d).mapped pd' q = if pd' = pd then d.mapped q else k.mapped pd' q := by
  unfold mapped setDir
  by_cases h : pd' = pd
  · subst h; simp
  · simp [h]

theorem setDir_rest {k : Kernel} {pd : Nat} {d : PageDirectory}
    (hp : d.physicalAddress = (k.dir pd).physicalAddress)
    (hs : d.swappedPages = (k.dir pd).swappedPages) : (k.setDir pd d).rest = k.rest := by
  simp only [rest, setDir, Rest.mk.injEq, true_and, and_true]
  refine ⟨?_, ?_⟩ <;> funext pd'
  · by_cases h : pd' = pd
    · subst h; simp [hp]
    · simp [h]
  · by_cases h : pd' = pd
    · subst h; simp [hs]
    · simp [h]

/-- Storing an entry in a table that is there. -/
theorem setEntry_mapped {k : Kernel} {pd va : Nat} {t : PageTable} {e : PageTableEntry}
    (ht : (k.dir pd).pageTable (pdIndex va) = some t) (pd' : Nat) (q : PageNo) :
    (k.setEntry pd va e).mapped pd' q =
      if pd' = pd ∧ q = pageOf va then (if e.present then some e else none)
      else k.mapped pd' q := by
  unfold PageDirectory.pageTable at ht
  split at ht
  · next hp =>
      simp only [setEntry, ht, mapped_setDir]
      by_cases hpd : pd' = pd
      · subst hpd
        simp only [if_true, true_and, mapped, PageDirectory.mapped, PageDirectory.pageTable]
        obtain ⟨i, j⟩ := q
        by_cases hi : i = pdIndex va
        · subst hi
          by_cases hj : j = ptIndex va
          · subst hj; simp [hp, pageOf]
          · simp [hp, pageOf, hj, ht]
        · simp [pageOf, hi]
      · simp [hpd]
  · exact absurd ht (by simp)

@[simp] theorem setEntry_rest (k : Kernel) (pd va : Nat) (e : PageTableEntry) :
    (k.setEntry pd va e).rest = k.rest := by
  unfold setEntry
  simp only
  split
  · exact setDir_rest rfl rfl
  · rfl

@[simp] theorem setEntry_frameBitmap (k : Kernel) (pd va : Nat) (e : PageTableEntry) :
    (k.setEntry pd va e).frameBitmap = k.frameBitmap := by
  unfold setEntry
  simp only
  split <;> rfl

@[simp] theorem setEntry_framesUsed (k : Kernel) (pd va : Nat) (e : PageTableEntry) :
    (k.setEntry pd va e).framesUsed = k.framesUsed := by
  unfold setEntry
  simp only
  split <;> rfl

/-- A directory entry and table as `get_page_table` writes them. -/
def freshTable (d : PageDirectory) (i : Fin 1024) (physAddr : Nat) : PageDirectory :=
  { d with
    tables := Function.update d.tables i
      { present := true, writable := true, user := false, frame := frameOf physAddr }
    pageTables := Function.update d.pageTables i (some fun _ => emptyEntry) }

/-- A directory whose table pointer took a null. -/
def nullTable (d : PageDirectory) (i : Fin 1024) : PageDirectory :=
  { d with pageTables := Function.update d.pageTables i none }

/-- **The four ways `get_page_table(pd, va, 1)` ends.** -/
theorem getPageTable_cases (k : Kernel) (pd va : Nat) :
    (((k.dir pd).tables (pdIndex va)).present = true ∧
      k.getPageTable pd va true = ((k.dir pd).pageTables (pdIndex va), k)) ∨
    (((k.dir pd).tables (pdIndex va)).present = false ∧ k.allocFrame.1 = 0 ∧
      k.getPageTable pd va true = (none, k.allocFrame.2)) ∨
    (((k.dir pd).tables (pdIndex va)).present = false ∧ k.allocFrame.1 ≠ 0 ∧
      k.allocFrame.2.kmalloc.1 = false ∧
      k.getPageTable pd va true = (none,
        (k.allocFrame.2.kmalloc.2.setDir pd (nullTable (k.dir pd) (pdIndex va))).freeFrame
          k.allocFrame.1)) ∨
    (((k.dir pd).tables (pdIndex va)).present = false ∧ k.allocFrame.1 ≠ 0 ∧
      k.allocFrame.2.kmalloc.1 = true ∧
      k.getPageTable pd va true = (some fun _ => emptyEntry,
        k.allocFrame.2.kmalloc.2.setDir pd
          (freshTable (k.dir pd) (pdIndex va) k.allocFrame.1))) := by
  cases hp : ((k.dir pd).tables (pdIndex va)).present with
  | true => exact Or.inl ⟨rfl, by simp [getPageTable, hp]⟩
  | false =>
      refine Or.inr ?_
      by_cases ha : k.allocFrame.1 = 0
      · exact Or.inl ⟨rfl, ha, by simp [getPageTable, hp, ha]⟩
      · refine Or.inr ?_
        cases hk : k.allocFrame.2.kmalloc.1 with
        | false => exact Or.inl ⟨rfl, ha, rfl, by simp [getPageTable, hp, ha, hk, nullTable]⟩
        | true => exact Or.inr ⟨rfl, ha, rfl, by simp [getPageTable, hp, ha, hk, freshTable]⟩

theorem nullTable_mapped {d : PageDirectory} {i : Fin 1024} (h : (d.tables i).present = false)
    (q : PageNo) : (nullTable d i).mapped q = d.mapped q := by
  obtain ⟨i', j⟩ := q
  unfold PageDirectory.mapped PageDirectory.pageTable nullTable
  by_cases hi : i' = i
  · subst hi; simp [h]
  · simp [hi]

/-- A fresh table has no present entry. -/
theorem freshTable_mapped {d : PageDirectory} {i : Fin 1024} (h : (d.tables i).present = false)
    (a : Nat) (q : PageNo) : (freshTable d i a).mapped q = d.mapped q := by
  obtain ⟨i', j⟩ := q
  unfold PageDirectory.mapped PageDirectory.pageTable freshTable
  by_cases hi : i' = i
  · subst hi; simp [h, emptyEntry]
  · simp [hi]

theorem mapped_setDir_same {k : Kernel} {pd : Nat} {d : PageDirectory}
    (h : ∀ q, d.mapped q = k.mapped pd q) (pd' : Nat) (q : PageNo) :
    (k.setDir pd d).mapped pd' q = k.mapped pd' q := by
  rw [mapped_setDir]
  split
  · next hpd => rw [hpd, h]
  · rfl

/-- Making room for a table changes no page. -/
theorem getPageTable_mapped (k : Kernel) (pd va pd' : Nat) (q : PageNo) :
    (k.getPageTable pd va true).2.mapped pd' q = k.mapped pd' q := by
  have hdir : k.allocFrame.2.kmalloc.2.dir = k.dir := by simp
  rcases k.getPageTable_cases pd va with ⟨_, he⟩ | ⟨_, _, he⟩ | ⟨hp, _, _, he⟩ | ⟨hp, _, _, he⟩
  · rw [he]
  · rw [he]
    exact mapped_congr (by simp) pd' q
  · rw [he, mapped_congr (freeFrame_dir _ _), mapped_setDir_same, mapped_congr hdir]
    intro q
    rw [nullTable_mapped hp, mapped, hdir]
  · rw [he, mapped_setDir_same, mapped_congr hdir]
    intro q
    rw [freshTable_mapped hp, mapped, hdir]

@[simp] theorem getPageTable_rest (k : Kernel) (pd va : Nat) :
    (k.getPageTable pd va true).2.rest = k.rest := by
  have hdir : k.allocFrame.2.kmalloc.2.dir = k.dir := by simp
  rcases k.getPageTable_cases pd va with ⟨_, he⟩ | ⟨_, _, he⟩ | ⟨_, _, _, he⟩ | ⟨_, _, _, he⟩
  · rw [he]
  · rw [he]
    simp
  · rw [he, freeFrame_rest, setDir_rest (by rw [hdir]; rfl) (by rw [hdir]; rfl)]
    simp
  · rw [he, setDir_rest (by rw [hdir]; rfl) (by rw [hdir]; rfl)]
    simp

/-- The table returned is the one the directory now holds. -/
theorem getPageTable_some {k : Kernel} {pd va : Nat} {t : PageTable}
    (h : (k.getPageTable pd va true).1 = some t) :
    ((k.getPageTable pd va true).2.dir pd).pageTable (pdIndex va) = some t := by
  rcases k.getPageTable_cases pd va with ⟨hp, he⟩ | ⟨_, _, he⟩ | ⟨_, _, _, he⟩ | ⟨_, _, _, he⟩
  · rw [he] at h ⊢
    simp only [PageDirectory.pageTable, hp, if_true]
    exact h
  · rw [he] at h
    exact absurd h (by simp)
  · rw [he] at h
    exact absurd h (by simp)
  · rw [he] at h ⊢
    simp only [Option.some.injEq] at h
    subst h
    simp [setDir, PageDirectory.pageTable, freshTable]

/-- A table that could not be had is a table that is not there; where a table
is there it is had. -/
theorem getPageTable_none {k : Kernel} {pd va : Nat}
    (h : (k.getPageTable pd va true).1 = none) :
    (k.dir pd).pageTable (pdIndex va) = none := by
  rcases k.getPageTable_cases pd va with ⟨hp, he⟩ | ⟨hp, _⟩ | ⟨hp, _⟩ | ⟨hp, _⟩
  · rw [he] at h
    simp only [PageDirectory.pageTable, hp, if_true]
    exact h
  all_goals simp [PageDirectory.pageTable, hp]

/-- Making room for a table clears no bit: the frame taken for it is given
back only when it had been clear. -/
theorem getPageTable_used {k : Kernel} {pd va j : Nat} (h : k.used j = true) :
    (k.getPageTable pd va true).2.used j = true := by
  rcases k.getPageTable_cases pd va with ⟨_, he⟩ | ⟨_, _, he⟩ | ⟨_, ha, _, he⟩ | ⟨_, _, _, he⟩
  · rw [he]
    exact h
  · rw [he]
    exact used_allocFrame_of_used h
  · rw [he]
    obtain ⟨i, _, _, hi, _, hal⟩ := allocFrame_of_ne_zero ha
    have hji : j ≠ k.allocFrame.1 / frameSize := by
      rw [hal]
      intro hj
      have : j = i := by rw [hj]; exact Nat.mul_div_cancel _ (by decide)
      rw [this, hi] at h
      exact absurd h (by decide)
    rw [used_freeFrame_of_ne hji]
    show (k.allocFrame.2.kmalloc.2.frameBitmap).testBit j = true
    rw [kmalloc_frameBitmap]
    exact used_allocFrame_of_used h
  · rw [he]
    show (k.allocFrame.2.kmalloc.2.frameBitmap).testBit j = true
    rw [kmalloc_frameBitmap]
    exact used_allocFrame_of_used h

/-! ### `map_page` -/

/-- The entry `map_page` writes. -/
def newEntry (physicalAddr flags : Nat) : PageTableEntry :=
  { present := flags &&& pgPresent != 0
    writable := flags &&& pgWrite != 0
    user := flags &&& pgUser != 0
    frame := frameOf physicalAddr }

/-- **The two ways `map_page` ends.** -/
theorem mapPage_cases (k : Kernel) (pd va pa flags : Nat) :
    ((k.getPageTable pd va true).1 = none ∧
      k.mapPage pd va pa flags = (-1, (k.getPageTable pd va true).2)) ∨
    (∃ t, (k.getPageTable pd va true).1 = some t ∧
      k.mapPage pd va pa flags =
        (0, (k.getPageTable pd va true).2.setEntry pd va (newEntry pa flags))) := by
  unfold mapPage
  rcases hr : k.getPageTable pd va true with ⟨_ | t, k₁⟩
  · exact Or.inl ⟨rfl, rfl⟩
  · exact Or.inr ⟨t, rfl, rfl⟩

theorem mapPage_mapped {k : Kernel} {pd va pa flags : Nat}
    (h : (k.mapPage pd va pa flags).1 = 0) (pd' : Nat) (q : PageNo) :
    (k.mapPage pd va pa flags).2.mapped pd' q =
      if pd' = pd ∧ q = pageOf va then
        (if (newEntry pa flags).present then some (newEntry pa flags) else none)
      else k.mapped pd' q := by
  rcases k.mapPage_cases pd va pa flags with ⟨_, he⟩ | ⟨t, ht, he⟩
  · rw [he] at h
    exact absurd h (by simp)
  · rw [he, setEntry_mapped (getPageTable_some ht), getPageTable_mapped]

theorem mapPage_mapped_fail {k : Kernel} {pd va pa flags : Nat}
    (h : (k.mapPage pd va pa flags).1 ≠ 0) (pd' : Nat) (q : PageNo) :
    (k.mapPage pd va pa flags).2.mapped pd' q = k.mapped pd' q := by
  rcases k.mapPage_cases pd va pa flags with ⟨_, he⟩ | ⟨t, _, he⟩
  · rw [he]
    exact k.getPageTable_mapped pd va pd' q
  · rw [he] at h
    exact absurd rfl h

/-- Only the page of `va` can change. -/
theorem mapPage_mapped_of_ne {k : Kernel} {pd va pa flags pd' : Nat} {q : PageNo}
    (h : ¬ (pd' = pd ∧ q = pageOf va)) :
    (k.mapPage pd va pa flags).2.mapped pd' q = k.mapped pd' q := by
  by_cases hr : (k.mapPage pd va pa flags).1 = 0
  · rw [mapPage_mapped hr, if_neg h]
  · exact mapPage_mapped_fail hr pd' q

@[simp] theorem mapPage_rest (k : Kernel) (pd va pa flags : Nat) :
    (k.mapPage pd va pa flags).2.rest = k.rest := by
  rcases k.mapPage_cases pd va pa flags with ⟨_, he⟩ | ⟨t, _, he⟩
  · rw [he, getPageTable_rest]
  · rw [he, setEntry_rest, getPageTable_rest]

theorem mapPage_used {k : Kernel} {pd va pa flags j : Nat} (h : k.used j = true) :
    (k.mapPage pd va pa flags).2.used j = true := by
  rcases k.mapPage_cases pd va pa flags with ⟨_, he⟩ | ⟨t, _, he⟩
  · rw [he]
    exact getPageTable_used h
  · rw [he]
    show ((k.getPageTable pd va true).2.setEntry pd va _).frameBitmap.testBit j = true
    rw [setEntry_frameBitmap]
    exact getPageTable_used h

/-! ### `unmap_page` and the write permission -/

/-- **The two ways `unmap_page` ends.** -/
theorem unmapPage_cases (k : Kernel) (pd va : Nat) :
    (k.mapped pd (pageOf va) = none ∧ k.unmapPage pd va = k) ∨
    (∃ e, k.mapped pd (pageOf va) = some e ∧
      k.unmapPage pd va =
        (k.freeFrame (e.frame.val <<< 12)).setEntry pd va { e with present := false }) := by
  simp only [unmapPage, getPageTable_false, mapped, PageDirectory.mapped, pageOf]
  cases (k.dir pd).pageTable (pdIndex va) with
  | none => exact Or.inl ⟨rfl, rfl⟩
  | some t =>
      by_cases hp : (t (ptIndex va)).present = true
      · exact Or.inr ⟨t (ptIndex va), by simp [hp], by simp [hp]⟩
      · exact Or.inl ⟨by simp [hp], by simp [hp]⟩

theorem pageTable_of_mapped {k : Kernel} {pd va : Nat} {e : PageTableEntry}
    (h : k.mapped pd (pageOf va) = some e) :
    ∃ t, (k.dir pd).pageTable (pdIndex va) = some t ∧ t (ptIndex va) = e ∧ e.present = true :=
  PageDirectory.mapped_eq_some.mp h

theorem unmapPage_mapped (k : Kernel) (pd va pd' : Nat) (q : PageNo) :
    (k.unmapPage pd va).mapped pd' q =
      if pd' = pd ∧ q = pageOf va then none else k.mapped pd' q := by
  rcases k.unmapPage_cases pd va with ⟨hn, he⟩ | ⟨e, hm, he⟩
  · rw [he]
    split
    · next h => rw [h.1, h.2, hn]
    · rfl
  · obtain ⟨t, ht, _, _⟩ := pageTable_of_mapped hm
    have ht' : ((k.freeFrame (e.frame.val <<< 12)).dir pd).pageTable (pdIndex va) = some t := by
      rw [freeFrame_dir]
      exact ht
    rw [he, setEntry_mapped ht', mapped_congr (freeFrame_dir _ _)]
    simp

@[simp] theorem unmapPage_rest (k : Kernel) (pd va : Nat) : (k.unmapPage pd va).rest = k.rest := by
  rcases k.unmapPage_cases pd va with ⟨_, he⟩ | ⟨e, _, he⟩
  · rw [he]
  · rw [he, setEntry_rest, freeFrame_rest]

theorem frame_shiftLeft_div (f : Fin maxFrames) : (f.val <<< 12) / frameSize = f.val := by
  rw [Nat.shiftLeft_eq]
  exact Nat.mul_div_cancel _ (by decide)

/-- `unmap_page` clears the bit of the frame the page had, whoever else maps
that frame. -/
theorem unmapPage_used {k : Kernel} {pd va : Nat} {e : PageTableEntry}
    (h : k.mapped pd (pageOf va) = some e) (j : Nat) :
    (k.unmapPage pd va).used j = (!decide (j = e.frame.val) && k.used j) := by
  rcases k.unmapPage_cases pd va with ⟨hn, _⟩ | ⟨e', hm, he⟩
  · rw [h] at hn
    exact absurd hn (by simp)
  · rw [h] at hm
    cases hm
    rw [he]
    show ((k.freeFrame (e.frame.val <<< 12)).setEntry pd va _).frameBitmap.testBit j = _
    rw [setEntry_frameBitmap]
    have hu := k.used_freeFrame (a := e.frame.val <<< 12) (j := j)
    rw [frame_shiftLeft_div] at hu
    have hlt := e.frame.isLt
    simpa [used, hlt] using hu

theorem setWritable_mapped {k : Kernel} {pd va : Nat} {e : PageTableEntry}
    (h : k.mapped pd (pageOf va) = some e) (b : Bool) (pd' : Nat) (q : PageNo) :
    (k.setWritable pd va b).mapped pd' q =
      if pd' = pd ∧ q = pageOf va then some { e with writable := b } else k.mapped pd' q := by
  obtain ⟨t, ht, hte, hp⟩ := pageTable_of_mapped h
  simp only [setWritable, getPageTable_false, ht]
  rw [setEntry_mapped ht, hte]
  simp [hp]

@[simp] theorem setWritable_rest (k : Kernel) (pd va : Nat) (b : Bool) :
    (k.setWritable pd va b).rest = k.rest := by
  unfold setWritable
  split
  · rfl
  · exact setEntry_rest _ _ _ _

@[simp] theorem setWritable_frameBitmap (k : Kernel) (pd va : Nat) (b : Bool) :
    (k.setWritable pd va b).frameBitmap = k.frameBitmap := by
  unfold setWritable
  split
  · rfl
  · exact setEntry_frameBitmap _ _ _ _

end Kernel

end KmOS
