/-
# `KmOS.Swap.Transfer` — swapping a page out, and in again

The effect of `swap_out_page`, of `handle_page_fault` on a page that is out,
and of adding and removing a device, while the heap and the devices do not
fail.
-/
import KmOS.Swap.Effects

namespace KmOS

open Kernel

/-- The records of the current directory. -/
def Kernel.records (k : Kernel) : List SwappedPageEntry :=
  (k.dir k.currentDirectory).swappedPages

/-- What a process reads at a page-aligned address of the current directory. -/
def Kernel.contents (k : Kernel) (va : Nat) : Page :=
  k.readPage (k.getPhysicalAddr k.currentDirectory va)

/-- The page table for an address is there. -/
def Kernel.HasTable (k : Kernel) (va : Nat) : Prop :=
  (k.dir k.currentDirectory).pageTable (pdIndex va) ≠ none

/-- The device list after the `n`-th device has been rewritten. -/
theorem getElem?_modifyDevice (k : Kernel) (n : Nat) (f : SwapDevice → SwapDevice) (m : Nat) :
    (k.modifyDevice n f).swapDevices[m]? =
      (k.swapDevices[m]?).map (fun d => if n = m then f d else d) := by
  unfold modifyDevice
  rw [List.getElem?_modify]
  rfl

theorem records_of_side {k k' : Kernel} (h : k'.swapSide = k.swapSide) : k'.records = k.records := by
  have h1 : k'.currentDirectory = k.currentDirectory := congrArg SwapSide.currentDirectory h
  have h2 := congrFun (congrArg SwapSide.swapped h) k.currentDirectory
  unfold Kernel.records
  rw [h1]
  exact h2

theorem kmalloc_reliable {k : Kernel} (h : k.kmallocs = []) : k.kmalloc = (true, k) := by
  unfold kmalloc
  rw [h]

theorem io_reliable {k : Kernel} (h : k.ios = []) : k.io = (true, k) := by
  unfold io
  rw [h]

theorem mapped_setDir_records (k : Kernel) (pd : Nat) (l : List SwappedPageEntry) (pd' : Nat)
    (q : PageNo) :
    (k.setDir pd { k.dir pd with swappedPages := l }).mapped pd' q = k.mapped pd' q := by
  apply mapped_setDir_same
  intro q
  rfl

theorem getPhysicalAddr_congr {k k' : Kernel} (h : k'.dir = k.dir) (pd va : Nat) :
    k'.getPhysicalAddr pd va = k.getPhysicalAddr pd va := by
  rw [getPhysicalAddr_eq, getPhysicalAddr_eq, mapped_congr h]

/-! ## Swapping out -/

/-- What `swap_out_page` leaves when it has written a page to slot `offset` of
the `n`-th device, under the number `id`. -/
structure SwappedOut (k k' : Kernel) (va n offset id : Nat) : Prop where
  currentDirectory : k'.currentDirectory = k.currentDirectory
  records : k'.records = { virtualAddr := va, swapEntry := id } :: k.records
  devices : ∀ m, k'.swapDevices[m]? = (k.swapDevices[m]?).map (fun d =>
    if n = m then
      { d with
        bitmap := d.bitmap.setBit offset
        store := Function.update d.store offset (k.contents va)
        inusePages := d.inusePages + 1 }
    else d)
  unmapped : k'.mapped k.currentDirectory (pageOf va) = none
  others : ∀ pd q, q ≠ pageOf va → k'.mapped pd q = k.mapped pd q
  table : k'.HasTable va
  tables : ∀ pd i, (k.dir pd).pageTable i ≠ none → (k'.dir pd).pageTable i ≠ none

theorem entryIdOf_modifyDevice (k : Kernel) (n offset : Nat) (f : SwapDevice → SwapDevice)
    (hf : ∀ d, (f d).addr = d.addr) :
    (k.modifyDevice n f).entryIdOf n offset = k.entryIdOf n offset := by
  unfold entryIdOf
  rw [getElem?_modifyDevice, List.head?_eq_getElem?, List.head?_eq_getElem?, getElem?_modifyDevice]
  cases h1 : k.swapDevices[n]? with
  | none => rfl
  | some d =>
      cases h2 : k.swapDevices[0]? with
      | none => rfl
      | some d' =>
          simp only [Option.map_some, if_true, hf]
          split
          · rw [hf]
          · rfl

/-- Taking a slot touches the bitmap of its device. -/
structure SlotTaken (k k₁ : Kernel) (n offset : Nat) : Prop where
  free : ∃ dev, k.swapDevices[n]? = some dev ∧ dev.bitmap.testBit offset = false ∧
    offset < dev.bitmapSize * 32 ∧ dev.inusePages.toNat < dev.pages
  eq : k₁ = k.modifyDevice n (fun d => { d with bitmap := d.bitmap.setBit offset })

theorem slotTaken_of_allocate {k k₁ : Kernel} {n offset : Nat}
    (h : k.allocateSwapEntry = some (n, offset, k₁)) : SlotTaken k k₁ n offset := by
  obtain ⟨dev, h1, h2, h3, h4, h5⟩ := allocateSwapEntry_spec h
  exact ⟨⟨dev, h1, h2, h3, h4⟩, h5⟩

/-- The records and the tables after the page has been written. -/
theorem recordSwapOut_spec {k : Kernel} (hk : k.kmallocs = []) (va n id : Nat) :
    (k.recordSwapOut va n id).currentDirectory = k.currentDirectory ∧
      (k.recordSwapOut va n id).records = { virtualAddr := va, swapEntry := id } :: k.records ∧
      (k.recordSwapOut va n id).swapDevices =
        k.swapDevices.modify n (fun d => { d with inusePages := d.inusePages + 1 }) ∧
      (k.recordSwapOut va n id).mapped k.currentDirectory (pageOf va) = none ∧
      (∀ pd q, q ≠ pageOf va → (k.recordSwapOut va n id).mapped pd q = k.mapped pd q) ∧
      (∀ pd i, (k.dir pd).pageTable i ≠ none →
        ((k.recordSwapOut va n id).dir pd).pageTable i ≠ none) := by
  have hadd : k.addSwappedPage k.currentDirectory va id =
      k.setDir k.currentDirectory { k.dir k.currentDirectory with
        swappedPages := { virtualAddr := va, swapEntry := id } :: k.records } := by
    unfold addSwappedPage
    rw [kmalloc_reliable hk]
    rfl
  unfold recordSwapOut
  rw [hadd]
  dsimp only
  generalize hk₁ : k.setDir k.currentDirectory { k.dir k.currentDirectory with
    swappedPages := { virtualAddr := va, swapEntry := id } :: k.records } = k₁
  have hc : k₁.currentDirectory = k.currentDirectory := by rw [← hk₁]; rfl
  have hq := Quiet.unmapPage k₁ k₁.currentDirectory va
  have hun := unmapPage_mapped k₁ k₁.currentDirectory va k.currentDirectory (pageOf va)
  rw [if_pos ⟨hc.symm, rfl⟩] at hun
  have hrec : k₁.records = { virtualAddr := va, swapEntry := id } :: k.records := by
    rw [← hk₁]
    simp [Kernel.records, setDir]
  generalize k₁.unmapPage k₁.currentDirectory va = k₂ at hq hun ⊢
  have hcd : k₂.currentDirectory = k.currentDirectory :=
    (congrArg SwapSide.currentDirectory hq.side).trans hc
  refine ⟨hcd, ?_, ?_, hun, ?_, ?_⟩
  · show k₂.records = _
    rw [records_of_side hq.side, hrec]
  · show k₂.swapDevices.modify n _ = _
    have hd : k₂.swapDevices = k₁.swapDevices := congrArg SwapSide.devices hq.side
    rw [hd, ← hk₁]
    rfl
  · intro pd q hne
    show k₂.mapped pd q = _
    rw [hq.mapped pd q hne, ← hk₁, mapped_setDir_records]
  · intro pd i hi
    show (k₂.dir pd).pageTable i ≠ none
    apply hq.tables
    rw [← hk₁]
    by_cases hpd : pd = k.currentDirectory
    · subst hpd
      simpa [setDir, PageDirectory.pageTable] using hi
    · simpa [setDir, hpd] using hi

theorem swapOutTo_reliable {k : Kernel} (hio : k.ios = []) (va pa n offset : Nat) :
    k.swapOutTo va pa n offset =
      (k.entryIdOf n offset,
        (k.storePage n offset pa).recordSwapOut va n (k.entryIdOf n offset)) := by
  unfold swapOutTo
  rw [io_reliable hio]
  rfl

/-- Once the slot is taken, a page that is mapped is written to it. -/
theorem swappedOut_of_slot {k k₁ : Kernel} (hk : k.kmallocs = []) {va n offset id : Nat}
    (hslot : SlotTaken k k₁ n offset) (hz : k.getPhysicalAddr k.currentDirectory va ≠ 0) :
    SwappedOut k ((k₁.storePage n offset (k.getPhysicalAddr k.currentDirectory va)).recordSwapOut
      va n id) va n offset id := by
  have heq := hslot.eq
  subst heq
  obtain ⟨e, hm, _⟩ := mapped_of_getPhysicalAddr hz
  generalize hk₂ : (k.modifyDevice n (fun d => { d with bitmap := d.bitmap.setBit offset })).storePage
    n offset (k.getPhysicalAddr k.currentDirectory va) = k₂
  have hdir : k₂.dir = k.dir := by rw [← hk₂]; rfl
  have hcd : k₂.currentDirectory = k.currentDirectory := by rw [← hk₂]; rfl
  have hmal : k₂.kmallocs = [] := by rw [← hk₂]; exact hk
  have hrec : k₂.records = k.records := by
    unfold Kernel.records
    rw [hdir, hcd]
  obtain ⟨h1, h2, h3, h4, h5, h6⟩ := recordSwapOut_spec hmal va n id
  rw [hcd] at h4
  rw [hdir] at h6
  refine
    { currentDirectory := h1.trans hcd
      records := h2.trans (by rw [hrec])
      devices := ?_
      unmapped := h4
      others := fun pd q hq => (h5 pd q hq).trans (mapped_congr hdir pd q)
      table := ?_
      tables := h6 }
  · intro m
    rw [h3, List.getElem?_modify, ← hk₂, storePage, getElem?_modifyDevice, getElem?_modifyDevice]
    cases k.swapDevices[m]? with
    | none => rfl
    | some d =>
        by_cases hnm : n = m
        · subst hnm
          simp only [Option.map_some, if_true]
          rfl
        · simp [hnm]
  · unfold Kernel.HasTable
    rw [h1.trans hcd]
    apply h6
    obtain ⟨t, ht, _⟩ := pageTable_of_mapped hm
    rw [ht]
    exact Option.some_ne_none t

/-- **The three ways `swap_out_page` ends.**  There is no slot; or the page is
not mapped, and the slot stays taken; or the page is written. -/
theorem swapOutPage_cases {k : Kernel} (hk : k.kmallocs = []) (hio : k.ios = []) (va : Nat) :
    (k.allocateSwapEntry = none ∧ k.swapOutPage va = (0, k)) ∨
    ∃ n offset k₁, k.allocateSwapEntry = some (n, offset, k₁) ∧ SlotTaken k k₁ n offset ∧
      ((k.getPhysicalAddr k.currentDirectory va = 0 ∧ k.swapOutPage va = (0, k₁)) ∨
        (k.getPhysicalAddr k.currentDirectory va ≠ 0 ∧
          (k.swapOutPage va).1 = k.entryIdOf n offset ∧
            SwappedOut k (k.swapOutPage va).2 va n offset (k.entryIdOf n offset))) := by
  unfold swapOutPage
  cases ha : k.allocateSwapEntry with
  | none => exact Or.inl ⟨rfl, rfl⟩
  | some t =>
      obtain ⟨n, offset, k₁⟩ := t
      have hslot := slotTaken_of_allocate ha
      refine Or.inr ⟨n, offset, k₁, rfl, hslot, ?_⟩
      have hio₁ : k₁.ios = [] := by rw [hslot.eq]; exact hio
      have hid : k₁.entryIdOf n offset = k.entryIdOf n offset := by
        rw [hslot.eq]
        exact entryIdOf_modifyDevice k n offset _ (fun _ => rfl)
      have hdir : k₁.dir = k.dir := by rw [hslot.eq]; rfl
      have hcd : k₁.currentDirectory = k.currentDirectory := by rw [hslot.eq]; rfl
      have hpa : k₁.getPhysicalAddr k₁.currentDirectory va =
          k.getPhysicalAddr k.currentDirectory va := by
        rw [hcd, getPhysicalAddr_congr hdir]
      dsimp only
      rw [hpa]
      by_cases hz : k.getPhysicalAddr k.currentDirectory va = 0
      · exact Or.inl ⟨hz, if_pos hz⟩
      · rw [if_neg hz, swapOutTo_reliable hio₁, hid]
        exact Or.inr ⟨hz, rfl, swappedOut_of_slot hk hslot hz⟩

/-! ## Swapping in -/

/-- What a fault leaves when the page `va` has been brought back from the slot
with the number `id`. -/
structure SwappedIn (k k' : Kernel) (va id : Nat) (page : Page) : Prop where
  currentDirectory : k'.currentDirectory = k.currentDirectory
  records : k'.records = k.records.eraseP (fun r => r.virtualAddr = va)
  devices : ∀ m, k'.swapDevices[m]? = (k.swapDevices[m]?).map (fun d =>
    if entryDevice id = m then
      { d with
        bitmap := if entryOffset id < d.pages then d.bitmap.clearBit (entryOffset id) else d.bitmap
        inusePages := d.inusePages - 1 }
    else d)
  mapped : k'.mapped k.currentDirectory (pageOf va) ≠ none
  contents : k'.contents va = page
  others : ∀ pd q, q ≠ pageOf va → k'.mapped pd q = k.mapped pd q
  tables : ∀ pd i, (k.dir pd).pageTable i ≠ none → (k'.dir pd).pageTable i ≠ none
  hung : k'.hung = k.hung

theorem getElem?_freeSwapEntry (k : Kernel) (id m : Nat) :
    (k.freeSwapEntry id).swapDevices[m]? = (k.swapDevices[m]?).map (fun d =>
      if entryDevice id = m ∧ entryOffset id < d.pages then
        { d with bitmap := d.bitmap.clearBit (entryOffset id) }
      else d) := by
  unfold freeSwapEntry
  dsimp only
  cases hd : k.swapDevices[entryDevice id]? with
  | none =>
      by_cases hm : entryDevice id = m
      · subst hm
        simp [hd]
      · simp [hm]
  | some dev =>
      dsimp only
      by_cases hm : entryDevice id = m
      · subst hm
        rw [hd]
        by_cases ho : entryOffset id < dev.pages
        · rw [if_pos ho]
          have hlt := (List.getElem?_eq_some_iff.mp hd).1
          simp [hlt, ho]
        · simp [ho, hd]
      · split
        · simp [List.getElem?_set_ne hm, hm]
        · simp [hm]

/-- What a directory, memory and the caller see of a state: everything the
bookkeeping at the end of a swap-in leaves alone. -/
structure Core where
  dir : Nat → PageDirectory
  physMem : Nat → UInt8
  currentDirectory : Nat
  hung : Bool

def Kernel.core (k : Kernel) : Core where
  dir := k.dir
  physMem := k.physMem
  currentDirectory := k.currentDirectory
  hung := k.hung

theorem freeSwapEntry_core (k : Kernel) (id : Nat) : (k.freeSwapEntry id).core = k.core := by
  unfold freeSwapEntry
  dsimp only
  split
  · rfl
  · split
    · rfl
    · rfl

theorem addToLru_core (k : Kernel) (va : Nat) : (k.addToLru va).core = k.core := by
  have hm : k.kmalloc.2.core = k.core := by
    unfold kmalloc
    split
    · rfl
    · rfl
  unfold addToLru
  split
  · next k₁ he =>
      rw [he] at hm
      exact hm
  · next k₁ he =>
      rw [he] at hm
      exact hm

theorem updatePageAccess_core (k : Kernel) (va : Nat) : (k.updatePageAccess va).core = k.core := by
  unfold updatePageAccess
  split
  · rfl
  · exact addToLru_core k va

theorem finishSwapIn_core (k : Kernel) (va id : Nat) : (k.finishSwapIn va id).core = k.core :=
  (addToLru_core (k.freeSwapEntry id) va).trans (freeSwapEntry_core k id)

theorem getElem?_finishSwapIn (k : Kernel) (va id m : Nat) :
    (k.finishSwapIn va id).swapDevices[m]? = (k.swapDevices[m]?).map (fun d =>
      if entryDevice id = m then
        { d with
          bitmap :=
            if entryOffset id < d.pages then d.bitmap.clearBit (entryOffset id) else d.bitmap
          inusePages := d.inusePages - 1 }
      else d) := by
  have hq := ((Quiet.rule 0 (pageOf va)).addToLru (k.freeSwapEntry id) va).side
  have hds : ((k.freeSwapEntry id).addToLru va).swapDevices = (k.freeSwapEntry id).swapDevices :=
    congrArg SwapSide.devices hq
  unfold finishSwapIn
  dsimp only
  rw [getElem?_modifyDevice]
  show Option.map _ ((k.freeSwapEntry id).addToLru va).swapDevices[m]? = _
  rw [hds, getElem?_freeSwapEntry, Option.map_map]
  congr 1
  funext d
  by_cases hm : entryDevice id = m
  · by_cases ho : entryOffset id < d.pages
    · simp [hm, ho]
    · simp [hm, ho]
  · simp [hm]

/-- `map_page` only writes the entry where the table is there already. -/
theorem mapPage_of_hasTable {k : Kernel} {pd va : Nat}
    (h : (k.dir pd).pageTable (pdIndex va) ≠ none) (pa flags : Nat) :
    k.mapPage pd va pa flags = (0, k.setEntry pd va (newEntry pa flags)) := by
  have hp : ((k.dir pd).tables (pdIndex va)).present = true := by
    by_contra hp
    exact h (by simp [PageDirectory.pageTable, hp])
  rcases k.mapPage_cases pd va pa flags with ⟨hn, _⟩ | ⟨t, _, he⟩
  · exact absurd (getPageTable_none hn) h
  · rcases k.getPageTable_cases pd va with ⟨_, hg⟩ | ⟨hp', _⟩ | ⟨hp', _⟩ | ⟨hp', _⟩
    · rw [he, hg]
    · exact absurd hp (by simp [hp'])
    · exact absurd hp (by simp [hp'])
    · exact absurd hp (by simp [hp'])

theorem setEntry_hung (k : Kernel) (pd va : Nat) (e : PageTableEntry) :
    (k.setEntry pd va e).hung = k.hung := by
  unfold setEntry
  dsimp only
  split
  · rfl
  · rfl

/-- Bytes written at a frame are read back there. -/
theorem readPage_writePage (k : Kernel) (a : Nat) (p : Page) : (k.writePage a p).readPage a = p := by
  funext i
  have hi : a ≤ a + i.val ∧ a + i.val < a + 4096 := ⟨by omega, by omega⟩
  have hsub : (⟨a + i.val - a, by omega⟩ : Fin 4096) = i := Fin.ext (by simp)
  show (if h : a ≤ a + i.val ∧ a + i.val < a + 4096 then p ⟨a + i.val - a, by omega⟩
    else k.physMem (a + i.val)) = p i
  rw [dif_pos hi, hsub]

/-- What `swap_in_page` leaves, before the record is taken off the list. -/
structure BroughtIn (k k' : Kernel) (va id frame : Nat) (page : Page) : Prop where
  currentDirectory : k'.currentDirectory = k.currentDirectory
  swapped : ∀ pd, (k'.dir pd).swappedPages = (k.dir pd).swappedPages
  devices : ∀ m, k'.swapDevices[m]? = (k.swapDevices[m]?).map (fun d =>
    if entryDevice id = m then
      { d with
        bitmap := if entryOffset id < d.pages then d.bitmap.clearBit (entryOffset id) else d.bitmap
        inusePages := d.inusePages - 1 }
    else d)
  mapped : k'.mapped k.currentDirectory (pageOf va) =
    some (newEntry frame (pgPresent ||| pgWrite ||| pgUser))
  stored : k'.readPage frame = page
  others : ∀ pd q, q ≠ pageOf va → k'.mapped pd q = k.mapped pd q
  tables : ∀ pd i, (k.dir pd).pageTable i ≠ none → (k'.dir pd).pageTable i ≠ none
  hung : k'.hung = k.hung

/-- Where the table is there, a page read into a frame is mapped. -/
theorem swapInFrom_spec {k : Kernel} (hio : k.ios = []) {va : Nat} (ht : k.HasTable va)
    (id frame : Nat) (page : Page) :
    (k.swapInFrom va id frame page).1 = 0 ∧
      BroughtIn k (k.swapInFrom va id frame page).2 va id frame page := by
  have hw : ((k.writePage frame page).dir k.currentDirectory).pageTable (pdIndex va) ≠ none := ht
  have hset := mapPage_of_hasTable hw frame (pgPresent ||| pgWrite ||| pgUser)
  have hok : ((k.writePage frame page).mapPage k.currentDirectory va frame
      (pgPresent ||| pgWrite ||| pgUser)).1 = 0 := by rw [hset]
  have hhung : ((k.writePage frame page).mapPage k.currentDirectory va frame
      (pgPresent ||| pgWrite ||| pgUser)).2.hung = k.hung := by
    rw [hset]
    exact setEntry_hung _ _ _ _
  have hmap := mapPage_mapped hok
  have hrest := mapPage_rest (k.writePage frame page) k.currentDirectory va frame
    (pgPresent ||| pgWrite ||| pgUser)
  have hq := Quiet.mapPage (k.writePage frame page) k.currentDirectory va frame
    (pgPresent ||| pgWrite ||| pgUser)
  have hbytes := readPage_writePage k frame page
  unfold swapInFrom
  rw [io_reliable hio]
  dsimp only
  rw [if_neg (by decide), hok, if_neg (by decide)]
  refine ⟨rfl, ?_⟩
  dsimp only
  generalize (k.writePage frame page).mapPage k.currentDirectory va frame
    (pgPresent ||| pgWrite ||| pgUser) = r at hmap hrest hq hhung
  have hcore := finishSwapIn_core r.2 va id
  have hd : (r.2.finishSwapIn va id).dir = r.2.dir := congrArg Core.dir hcore
  have hm : (r.2.finishSwapIn va id).physMem = r.2.physMem := congrArg Core.physMem hcore
  have hrm : r.2.physMem = (k.writePage frame page).physMem := congrArg Rest.physMem hrest
  have hrd : r.2.swapDevices = k.swapDevices := congrArg Rest.swapDevices hrest
  have hrc : r.2.currentDirectory = k.currentDirectory := congrArg Rest.currentDirectory hrest
  have hrs : ∀ pd, (r.2.dir pd).swappedPages = (k.dir pd).swappedPages :=
    fun pd => congrFun (congrArg Rest.swappedPages hrest) pd
  refine
    { currentDirectory := (congrArg Core.currentDirectory hcore).trans hrc
      swapped := fun pd => by rw [hd]; exact hrs pd
      devices := fun m => by rw [getElem?_finishSwapIn, hrd]
      mapped := ?_
      stored := ?_
      others := fun pd q hne => (mapped_congr hd pd q).trans (hq.mapped pd q hne)
      tables := fun pd i hi => by rw [hd]; exact hq.tables pd i hi
      hung := (congrArg Core.hung hcore).trans hhung }
  · rw [mapped_congr hd, hmap, if_pos ⟨rfl, rfl⟩]
    rfl
  · rw [← hbytes]
    unfold readPage
    rw [hm, hrm]

/-- The end of `handle_page_fault` for a page that was out. -/
def Kernel.forgetSwapped (k : Kernel) (va : Nat) : Kernel :=
  (k.removeSwappedPage k.currentDirectory va).updatePageAccess va

theorem forgetSwapped_spec (k : Kernel) (va : Nat) :
    (k.forgetSwapped va).currentDirectory = k.currentDirectory ∧
      (k.forgetSwapped va).records = k.records.eraseP (fun r => r.virtualAddr = va) ∧
      (k.forgetSwapped va).swapDevices = k.swapDevices ∧
      (k.forgetSwapped va).physMem = k.physMem ∧
      (k.forgetSwapped va).hung = k.hung ∧
      (∀ pd q, (k.forgetSwapped va).mapped pd q = k.mapped pd q) ∧
      ∀ pd i, (k.dir pd).pageTable i ≠ none →
        ((k.forgetSwapped va).dir pd).pageTable i ≠ none := by
  have hu := updatePageAccess_core (k.removeSwappedPage k.currentDirectory va) va
  have hqs := ((Quiet.rule 0 (pageOf va)).updatePageAccess
    (k.removeSwappedPage k.currentDirectory va) va).side
  unfold Kernel.forgetSwapped
  generalize (k.removeSwappedPage k.currentDirectory va).updatePageAccess va = k' at hu hqs ⊢
  have hcd : k'.currentDirectory = k.currentDirectory := congrArg SwapSide.currentDirectory hqs
  have hds : k'.swapDevices = k.swapDevices := congrArg SwapSide.devices hqs
  have hdir : k'.dir = (k.removeSwappedPage k.currentDirectory va).dir := congrArg Core.dir hu
  refine ⟨hcd, ?_, hds, congrArg Core.physMem hu, congrArg Core.hung hu, ?_, ?_⟩
  · rw [records_of_side hqs]
    unfold Kernel.records removeSwappedPage setDir
    show (Function.update k.dir k.currentDirectory _ k.currentDirectory).swappedPages = _
    rw [Function.update_self]
  · intro pd q
    rw [mapped_congr hdir, removeSwappedPage, mapped_setDir_records]
  · intro pd i hi
    rw [hdir]
    unfold removeSwappedPage setDir
    by_cases hpd : pd = k.currentDirectory
    · subst hpd
      simpa [PageDirectory.pageTable] using hi
    · simpa [hpd] using hi

/-- **The next fault on a page that is out brings it back**, when its device is
found, a frame other than 0 is free and its page table is still there. -/
theorem handlePageFault_swapped {k : Kernel} (hio : k.ios = []) {faultAddr id : Nat}
    {dev : SwapDevice} (errorCode : Nat)
    (hid : k.getSwapEntry k.currentDirectory (pageAddr faultAddr) = id) (hne : id ≠ 0)
    (hdev : k.swapDevices[entryDevice id]? = some dev) (hf : k.allocFrame.1 ≠ 0)
    (ht : k.HasTable (pageAddr faultAddr)) :
    (k.handlePageFault faultAddr errorCode).1 = 0 ∧
      SwappedIn k (k.handlePageFault faultAddr errorCode).2 (pageAddr faultAddr) id
        (dev.store (entryOffset id)) := by
  obtain ⟨i, _, hi, _, _, he⟩ := allocFrame_of_ne_zero hf
  have hnz : i * frameSize ≠ 0 := by rw [he] at hf; exact hf
  have ht₁ : (k.takeFrame i).HasTable (pageAddr faultAddr) := ht
  obtain ⟨hr, hb⟩ := swapInFrom_spec (k := k.takeFrame i) hio ht₁ id (i * frameSize)
    (dev.store (entryOffset id))
  have hin : k.swapInPage (pageAddr faultAddr) id =
      (k.takeFrame i).swapInFrom (pageAddr faultAddr) id (i * frameSize)
        (dev.store (entryOffset id)) := by
    unfold swapInPage
    rw [hdev, he]
    exact if_neg hnz
  unfold handlePageFault
  dsimp only
  rw [hid, if_pos hne, hin, hr, if_pos rfl]
  refine ⟨rfl, ?_⟩
  generalize (k.takeFrame i).swapInFrom (pageAddr faultAddr) id (i * frameSize)
    (dev.store (entryOffset id)) = r at hb ⊢
  have hcd : r.2.currentDirectory = k.currentDirectory := hb.currentDirectory
  have hmap : r.2.mapped k.currentDirectory (pageOf (pageAddr faultAddr)) =
      some (newEntry (i * frameSize) (pgPresent ||| pgWrite ||| pgUser)) := hb.mapped
  obtain ⟨h1, h2, h3, h4, hh, h5, h6⟩ := forgetSwapped_spec r.2 (pageAddr faultAddr)
  show SwappedIn k (r.2.forgetSwapped (pageAddr faultAddr)) _ _ _
  refine
    { currentDirectory := h1.trans hcd
      records := ?_
      devices := fun m => by rw [h3]; exact hb.devices m
      mapped := ?_
      contents := ?_
      others := fun pd q hne' => (h5 pd q).trans (hb.others pd q hne')
      tables := fun pd j hj => h6 pd j (hb.tables pd j hj)
      hung := hh.trans hb.hung }
  · rw [h2]
    unfold Kernel.records
    rw [hb.swapped, hcd]
    rfl
  · rw [h5, hmap]
    exact Option.some_ne_none _
  · unfold Kernel.contents
    have hpa : (r.2.forgetSwapped (pageAddr faultAddr)).getPhysicalAddr k.currentDirectory
        (pageAddr faultAddr) = i * frameSize := by
      rw [getPhysicalAddr_of_mapped ((h5 _ _).trans hmap), pageAddr_mod, Nat.add_zero]
      show (frameOf (i * frameSize)).val * 4096 = i * frameSize
      rw [frameOf_mul, Nat.mod_eq_of_lt hi]
      rfl
    rw [h1, hcd, hpa, ← hb.stored]
    unfold readPage
    rw [h4]

/-! ## Devices -/

/-- `add_swap_device` fails on a path that is in use or a type it does not
know, and else puts an empty device at the head of the list. -/
theorem addSwapDevice_cases {k : Kernel} (hk : k.kmallocs = []) (addr : Nat) (path : String)
    (type : Nat) (disk : Nat → Page) :
    k.addSwapDevice addr path type disk = (-1, k) ∨
    (k.findSwapDevice path = none ∧ type = swapTypeFile ∧
      ∃ total, k.addSwapDevice addr path type disk =
        (0, { k with
          swapDevices :=
            { addr := addr
              path := path
              pages := swapFilePages
              inusePages := 0
              bitmap := fun _ => 0
              bitmapSize := (swapFilePages + 31) / 32
              store := disk } :: k.swapDevices
          totalSwapPages := total })) := by
  unfold addSwapDevice
  cases hf : k.findSwapDevice path with
  | some n => exact Or.inl rfl
  | none =>
      simp only [kmalloc_reliable hk]
      by_cases ht : type = swapTypeFile
      · rw [if_neg (by simpa using ht)]
        exact Or.inr ⟨trivial, ht, _, rfl⟩
      · rw [if_pos ht]
        exact Or.inl rfl

/-- `remove_swap_device` fails, or takes out a device no page counts on. -/
theorem removeSwapDevice_cases (k : Kernel) (path : String) :
    k.removeSwapDevice path = (-1, k) ∨
    ∃ n dev total, k.findSwapDevice path = some n ∧ k.swapDevices[n]? = some dev ∧
      dev.inusePages = 0 ∧
      k.removeSwapDevice path =
        (0, { k with swapDevices := k.swapDevices.eraseIdx n, totalSwapPages := total }) := by
  unfold removeSwapDevice
  cases hf : k.findSwapDevice path with
  | none => exact Or.inl rfl
  | some n =>
      cases hd : k.swapDevices[n]? with
      | none =>
          dsimp only
          rw [hd]
          exact Or.inl rfl
      | some dev =>
          dsimp only
          rw [hd]
          dsimp only
          by_cases hz : 0 < dev.inusePages.toNat
          · rw [if_pos hz]
            exact Or.inl rfl
          · rw [if_neg hz]
            have h0 : dev.inusePages = 0 := by
              apply BitVec.eq_of_toNat_eq
              simpa using hz
            exact Or.inr ⟨n, dev, _, rfl, hd, h0, rfl⟩

end KmOS
