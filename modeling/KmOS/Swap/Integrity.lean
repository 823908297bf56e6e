/-
# `KmOS.Swap.Integrity` — a page that is swapped out comes back

A page that is out is found again through its entry number: the record in the
directory has the number, and the number says which device of the list and
which offset.  So everything rests on numbers that are not 0, differ from each
other, and keep naming their slot while the list of devices changes.

Four things the code does break that.  The first slot of the head device has
the number 0, which `get_swap_entry` takes for "not swapped".  The device part
of a number is a distance between heap records, and only by luck a position in
the list.  `add_swap_device` puts the new device in front, which moves every
other one.  And `remove_swap_device` moves those behind the one it takes out.
`SwapOk` is the condition that a call does none of these; under it the numbers
are right in every state reached, and the next fault on a page restores it.
-/
import KmOS.Swap.Transfer
import KmOS.Lib.Keyed
import KmOS.Lib.Run

namespace KmOS

open Kernel

/-! ## The condition on a call -/

/-- A call that leaves every entry number right.

* A device is added only while no page is out, unless the call fails.
* A device is taken out only if no page is out behind it.
* A page is written out at a page address, to a slot whose number leads back
  to it.
* A page is brought in while a frame other than frame 0 is free. -/
def SwapOk (k : Kernel) : SwapCall → Prop
  | .add _ path type _ => k.findSwapDevice path ≠ none ∨ type ≠ swapTypeFile ∨ k.records = []
  | .remove path =>
      ∀ n ∈ k.findSwapDevice path, ∀ dev ∈ k.swapDevices[n]?, dev.inusePages = 0 →
        ∀ r ∈ k.records, entryDevice r.swapEntry ≤ n
  | .swapOut va =>
      ∀ slot ∈ k.allocateSwapEntry, k.getPhysicalAddr k.currentDirectory va ≠ 0 →
        pageAddr va = va ∧ Addressable k slot.1 slot.2.1
  | .fault faultAddr _ =>
      k.getSwapEntry k.currentDirectory (pageAddr faultAddr) ≠ 0 → k.allocFrame.1 ≠ 0
  | .write _ _ => True

instance (k : Kernel) : (c : SwapCall) → Decidable (SwapOk k c)
  | .add _ path type _ =>
      inferInstanceAs (Decidable (k.findSwapDevice path ≠ none ∨ type ≠ swapTypeFile ∨ k.records = []))
  | .remove path =>
      inferInstanceAs (Decidable (∀ n ∈ k.findSwapDevice path, ∀ dev ∈ k.swapDevices[n]?,
        dev.inusePages = 0 → ∀ r ∈ k.records, entryDevice r.swapEntry ≤ n))
  | .swapOut va =>
      inferInstanceAs (Decidable (∀ slot ∈ k.allocateSwapEntry,
        k.getPhysicalAddr k.currentDirectory va ≠ 0 →
          pageAddr va = va ∧ Addressable k slot.1 slot.2.1))
  | .fault faultAddr _ =>
      inferInstanceAs (Decidable (k.getSwapEntry k.currentDirectory (pageAddr faultAddr) ≠ 0 →
        k.allocFrame.1 ≠ 0))
  | .write _ _ => inferInstanceAs (Decidable True)

/-- A page fault at an address of the page `va`. -/
def SwapCall.FaultsOn (va : Nat) : SwapCall → Prop
  | .fault faultAddr _ => pageAddr faultAddr = va
  | _ => False

/-- The state `SwapManager::init` leaves, with no page of the directory out. -/
structure SwapStart (k : Kernel) : Prop where
  devices : k.swapDevices = []
  records : k.records = []

/-! ## The invariant -/

/-- The device position and the offset a number is read as. -/
def slotOf (id : Nat) : Nat × Nat := (entryDevice id, entryOffset id)

/-- A record's number names a slot: a set bit of a device that is
in the list. -/
def InSlot (k : Kernel) (id : Nat) : Prop :=
  id ≠ 0 ∧ entryOffset id < swapFilePages ∧
    ∃ d, k.swapDevices[entryDevice id]? = some d ∧ d.bitmap.testBit (entryOffset id) = true

structure SwapInv (k : Kernel) : Prop where
  sizes : ∀ (n : Nat) (d : SwapDevice), k.swapDevices[n]? = some d → d.pages = swapFilePages ∧ d.bitmapSize = 2048
  aligned : ∀ r ∈ k.records, pageAddr r.virtualAddr = r.virtualAddr
  pages : (k.records.map SwappedPageEntry.virtualAddr).Nodup
  ids : (k.records.map (fun r => slotOf r.swapEntry)).Nodup
  slots : ∀ r ∈ k.records, InSlot k r.swapEntry
  out : ∀ r ∈ k.records, k.mapped k.currentDirectory (pageOf r.virtualAddr) = none
  tables : ∀ r ∈ k.records, k.HasTable r.virtualAddr
  inuse : ∀ (n : Nat) (d : SwapDevice), k.swapDevices[n]? = some d →
    d.inusePages.toNat = k.records.countP (fun r => entryDevice r.swapEntry = n)

/-- The record of a page is the one the lookup finds. -/
theorem getSwapEntry_of_mem {k : Kernel} (hp : (k.records.map SwappedPageEntry.virtualAddr).Nodup)
    {r : SwappedPageEntry} (hr : r ∈ k.records) :
    k.getSwapEntry k.currentDirectory r.virtualAddr = r.swapEntry := by
  have hfind : k.records.find? (fun r' => r'.virtualAddr = r.virtualAddr) = some r := by
    generalize k.records = l at hp hr
    induction l with
    | nil => exact nomatch hr
    | cons a l ih =>
        rw [List.map_cons, List.nodup_cons] at hp
        rcases List.mem_cons.mp hr with rfl | hr
        · exact List.find?_cons_of_pos (by simp)
        · have hne : a.virtualAddr ≠ r.virtualAddr := by
            intro h
            exact hp.1 (h ▸ List.mem_map_of_mem hr)
          rw [List.find?_cons_of_neg (by simpa using hne)]
          exact ih hp.2 hr
  unfold getSwapEntry
  unfold Kernel.records at hfind
  rw [hfind]

/-- Where the lookup finds a number, there is a record. -/
theorem mem_of_getSwapEntry {k : Kernel} {va : Nat}
    (h : k.getSwapEntry k.currentDirectory va ≠ 0) :
    ∃ r ∈ k.records, r.virtualAddr = va := by
  unfold getSwapEntry at h
  cases hf : (k.dir k.currentDirectory).swappedPages.find? (fun r => r.virtualAddr = va) with
  | none =>
      rw [hf] at h
      exact absurd rfl h
  | some r => exact ⟨r, List.mem_of_find?_eq_some hf, by simpa using List.find?_some hf⟩

theorem pageAddr_pageAddr (va : Nat) : pageAddr (pageAddr va) = pageAddr va := by
  rw [pageAddr_eq, pageAddr_eq]
  omega

theorem pageOf_ne {va va' : Nat} (h : pageAddr va = va) (h' : pageAddr va' = va')
    (hne : va ≠ va') : pageOf va ≠ pageOf va' := by
  intro he
  rw [pageOf_eq_iff] at he
  apply hne
  rw [← h, ← h', pageAddr_eq, pageAddr_eq, he]

/-! ## One lemma for each operation -/

namespace SwapInv

variable {k k' k₁ : Kernel}

theorem start (h : SwapStart k) : SwapInv k where
  sizes := by simp [h.devices]
  aligned := by simp [h.records]
  pages := by simp [h.records]
  ids := by simp [h.records]
  slots := by simp [h.records]
  out := by simp [h.records]
  tables := by simp [h.records]
  inuse := by simp [h.devices]

/-- A change that leaves records, devices and the pages that are out alone. -/
theorem of_quiet {p : PageNo} (h : SwapInv k) (hq : Quiet p k k')
    (hp : ∀ r ∈ k.records, pageOf r.virtualAddr ≠ p) : SwapInv k' := by
  have hrec := records_of_side hq.side
  have hdev : k'.swapDevices = k.swapDevices := congrArg SwapSide.devices hq.side
  have hcd : k'.currentDirectory = k.currentDirectory := congrArg SwapSide.currentDirectory hq.side
  refine
    { sizes := by rw [hdev]; exact h.sizes
      aligned := by rw [hrec]; exact h.aligned
      pages := by rw [hrec]; exact h.pages
      ids := by rw [hrec]; exact h.ids
      slots := ?_
      out := ?_
      tables := ?_
      inuse := by rw [hrec, hdev]; exact h.inuse }
  · intro r hr
    rw [hrec] at hr
    unfold InSlot
    rw [hdev]
    exact h.slots r hr
  · intro r hr
    rw [hrec] at hr
    rw [hcd, hq.mapped _ _ (hp r hr)]
    exact h.out r hr
  · intro r hr
    rw [hrec] at hr
    unfold Kernel.HasTable
    rw [hcd]
    exact hq.tables _ _ (h.tables r hr)

/-- A slot taken for a page that turns out not to be mapped stays taken. -/
theorem of_slotTaken {n offset : Nat} (h : SwapInv k) (hs : SlotTaken k k₁ n offset) :
    SwapInv k₁ := by
  have heq := hs.eq
  subst heq
  refine
    { sizes := ?_
      aligned := h.aligned
      pages := h.pages
      ids := h.ids
      slots := ?_
      out := fun r hr => h.out r hr
      tables := fun r hr => h.tables r hr
      inuse := ?_ }
  · intro m d hd
    rw [getElem?_modifyDevice, Option.map_eq_some_iff] at hd
    obtain ⟨d₀, hd₀, rfl⟩ := hd
    have hz := h.sizes m d₀ hd₀
    split
    · exact hz
    · exact hz
  · intro r hr
    obtain ⟨hne, hlt, d, hd, hb⟩ := h.slots r hr
    refine ⟨hne, hlt, _, by rw [getElem?_modifyDevice, hd]; rfl, ?_⟩
    split
    · rw [Words.testBit_setBit, hb, Bool.or_true]
    · exact hb
  · intro m d hd
    rw [getElem?_modifyDevice, Option.map_eq_some_iff] at hd
    obtain ⟨d₀, hd₀, rfl⟩ := hd
    have hz := h.inuse m d₀ hd₀
    split
    · exact hz
    · exact hz

/-- No record names a slot whose bit is clear. -/
theorem id_fresh {n offset id : Nat} (h : SwapInv k) {dev : SwapDevice}
    (hdev : k.swapDevices[n]? = some dev) (hb : dev.bitmap.testBit offset = false)
    (hd : entryDevice id = n) (ho : entryOffset id = offset) :
    ∀ r ∈ k.records, slotOf r.swapEntry ≠ slotOf id := by
  intro r hr he
  obtain ⟨h1, h2⟩ := Prod.mk.inj he
  obtain ⟨_, _, d, hd', hb'⟩ := h.slots r hr
  rw [h1, hd, hdev] at hd'
  cases Option.some.inj hd'
  rw [h2, ho, hb] at hb'
  exact absurd hb' (by decide)

/-- With one page more out on it, a device counts one more. -/
theorem inuse_taken {n : Nat} {dev : SwapDevice} {r : SwappedPageEntry} (h : SwapInv k)
    (hdev : k.swapDevices[n]? = some dev) (hroom : dev.inusePages.toNat < dev.pages)
    (hn : entryDevice r.swapEntry = n) :
    (dev.inusePages + 1).toNat = (r :: k.records).countP fun r => entryDevice r.swapEntry = n := by
  obtain ⟨hpages, -⟩ := h.sizes n dev hdev
  rw [List.countP_cons_of_pos (by simpa using hn), ← h.inuse n dev hdev, BitVec.toNat_add]
  rw [hpages, swapFilePages] at hroom
  exact Nat.mod_eq_of_lt (by simpa using by omega)

/-- With one page less out on it, a device counts one less. -/
theorem inuse_freed {dev : SwapDevice} {r : SwappedPageEntry} (h : SwapInv k) (hr : r ∈ k.records)
    (hdev : k.swapDevices[entryDevice r.swapEntry]? = some dev) :
    (dev.inusePages - 1).toNat =
      (k.records.erase r).countP fun r' => entryDevice r'.swapEntry = entryDevice r.swapEntry := by
  have hcount := h.inuse _ dev hdev
  have hpos : 0 < k.records.countP fun r' => entryDevice r'.swapEntry = entryDevice r.swapEntry :=
    List.countP_pos_iff.mpr ⟨r, hr, by simp⟩
  have hone : (if r ∈ k.records ∧ decide (entryDevice r.swapEntry = entryDevice r.swapEntry) = true
      then 1 else 0) = 1 := if_pos ⟨hr, by simp⟩
  rw [List.countP_erase, hone, ← hcount]
  rw [← hcount] at hpos
  have hlt := dev.inusePages.isLt
  have h1 : (1 : BitVec 32).toNat = 1 := rfl
  rw [BitVec.toNat_sub, h1]
  omega

/-- **Swapping a page out.** -/
theorem of_swappedOut {va n offset id : Nat} (h : SwapInv k) (hs : SlotTaken k k₁ n offset)
    (hva : pageAddr va = va) (hz : k.getPhysicalAddr k.currentDirectory va ≠ 0)
    (hid : id ≠ 0) (hd : entryDevice id = n) (ho : entryOffset id = offset)
    (hout : SwappedOut k k' va n offset id) : SwapInv k' := by
  obtain ⟨dev, hdev, hbit, hoff, hroom⟩ := hs.free
  obtain ⟨hpages, hsize⟩ := h.sizes n dev hdev
  have hlt : offset < swapFilePages := by
    rw [hsize] at hoff
    exact hoff
  have hfresh := h.id_fresh hdev hbit hd ho
  -- the page is mapped, the pages that are out are not
  have hnew : ∀ r ∈ k.records, r.virtualAddr ≠ va := by
    rintro r hr rfl
    obtain ⟨e, he, _⟩ := mapped_of_getPhysicalAddr hz
    rw [h.out r hr] at he
    exact nomatch he
  refine
    { sizes := ?_
      aligned := ?_
      pages := ?_
      ids := ?_
      slots := ?_
      out := ?_
      tables := ?_
      inuse := ?_ }
  · intro m d hm
    rw [hout.devices, Option.map_eq_some_iff] at hm
    obtain ⟨d₀, hd₀, rfl⟩ := hm
    have hz := h.sizes m d₀ hd₀
    split
    · exact hz
    · exact hz
  · rw [hout.records]
    intro r hr
    rcases List.mem_cons.mp hr with rfl | hr
    · exact hva
    · exact h.aligned r hr
  · rw [hout.records, List.map_cons, List.nodup_cons]
    refine ⟨?_, h.pages⟩
    intro hmem
    obtain ⟨r, hr, he⟩ := List.mem_map.mp hmem
    exact hnew r hr he
  · rw [hout.records, List.map_cons, List.nodup_cons]
    refine ⟨?_, h.ids⟩
    intro hmem
    obtain ⟨r, hr, he⟩ := List.mem_map.mp hmem
    exact hfresh r hr he
  · rw [hout.records]
    intro r hr
    rcases List.mem_cons.mp hr with rfl | hr
    · have hslot := hout.devices n
      rw [hdev, Option.map_some, if_pos rfl] at hslot
      refine ⟨hid, ho ▸ hlt, _, hd ▸ hslot, ?_⟩
      show (dev.bitmap.setBit offset).testBit (entryOffset id) = true
      rw [ho]
      exact Words.testBit_setBit_self _ _
    · obtain ⟨hne, hlt', d, hd', hb⟩ := h.slots r hr
      refine ⟨hne, hlt', _, by rw [hout.devices, hd']; rfl, ?_⟩
      split
      · rw [Words.testBit_setBit, hb, Bool.or_true]
      · exact hb
  · rw [hout.records, hout.currentDirectory]
    intro r hr
    rcases List.mem_cons.mp hr with rfl | hr
    · exact hout.unmapped
    · rw [hout.others _ _ (pageOf_ne (h.aligned r hr) hva (hnew r hr))]
      exact h.out r hr
  · rw [hout.records]
    intro r hr
    rcases List.mem_cons.mp hr with rfl | hr
    · exact hout.table
    · unfold Kernel.HasTable
      rw [hout.currentDirectory]
      exact hout.tables _ _ (h.tables r hr)
  · intro m d hm
    rw [hout.devices, Option.map_eq_some_iff] at hm
    obtain ⟨d₀, hd₀, rfl⟩ := hm
    have hcount := h.inuse m d₀ hd₀
    rw [hout.records]
    by_cases hnm : n = m
    · subst hnm
      cases hdev.symm.trans hd₀
      rw [if_pos rfl]
      exact h.inuse_taken hdev hroom hd
    · rw [if_neg hnm, List.countP_cons_of_neg (by simpa [hd] using hnm)]
      exact hcount

/-- **Bringing a page in.** -/
theorem of_swappedIn {r : SwappedPageEntry} {page : Page} (h : SwapInv k) (hr : r ∈ k.records)
    (hin : SwappedIn k k' r.virtualAddr r.swapEntry page) : SwapInv k' := by
  obtain ⟨_, hlt, dev, hdev, _⟩ := h.slots r hr
  obtain ⟨hpages, _⟩ := h.sizes _ dev hdev
  have hsub : ∀ r' ∈ k'.records, r' ∈ k.records ∧ r' ≠ r := by
    rw [hin.records]
    intro r' hr'
    rw [eraseP_key h.pages hr] at hr'
    exact (List.Nodup.mem_erase_iff (List.Nodup.of_map _ h.pages)).mp hr' |>.symm
  have hids : ∀ r' ∈ k'.records, slotOf r'.swapEntry ≠ slotOf r.swapEntry := by
    intro r' hr' he
    obtain ⟨hm, hne⟩ := hsub r' hr'
    exact hne (List.inj_on_of_nodup_map h.ids hm hr he)
  refine
    { sizes := ?_
      aligned := fun r' hr' => h.aligned r' (hsub r' hr').1
      pages := ?_
      ids := ?_
      slots := ?_
      out := ?_
      tables := ?_
      inuse := ?_ }
  · intro m d hm
    rw [hin.devices, Option.map_eq_some_iff] at hm
    obtain ⟨d₀, hd₀, rfl⟩ := hm
    have hz := h.sizes m d₀ hd₀
    split
    · exact hz
    · exact hz
  · rw [hin.records]
    exact h.pages.sublist (List.eraseP_sublist.map _)
  · rw [hin.records]
    exact h.ids.sublist (List.eraseP_sublist.map _)
  · intro r' hr'
    obtain ⟨hne, hlt', d, hd, hb⟩ := h.slots r' (hsub r' hr').1
    refine ⟨hne, hlt', _, by rw [hin.devices, hd]; rfl, ?_⟩
    split
    · next hsame =>
        have hoff : entryOffset r'.swapEntry ≠ entryOffset r.swapEntry := by
          intro he
          exact hids r' hr' (Prod.ext hsame.symm he)
        show (if entryOffset r.swapEntry < d.pages then d.bitmap.clearBit (entryOffset r.swapEntry)
          else d.bitmap).testBit (entryOffset r'.swapEntry) = true
        split
        · rw [Words.testBit_clearBit_of_ne hoff, hb]
        · exact hb
    · exact hb
  · intro r' hr'
    obtain ⟨hm, hne⟩ := hsub r' hr'
    have hva : r'.virtualAddr ≠ r.virtualAddr :=
      fun he => hne (List.inj_on_of_nodup_map h.pages hm hr he)
    rw [hin.currentDirectory,
      hin.others _ _ (pageOf_ne (h.aligned r' hm) (h.aligned r hr) hva)]
    exact h.out r' hm
  · intro r' hr'
    unfold Kernel.HasTable
    rw [hin.currentDirectory]
    exact hin.tables _ _ (h.tables r' (hsub r' hr').1)
  · intro m d hm
    rw [hin.devices, Option.map_eq_some_iff] at hm
    obtain ⟨d₀, hd₀, rfl⟩ := hm
    have hcount := h.inuse m d₀ hd₀
    rw [hin.records, eraseP_key h.pages hr]
    by_cases hnm : entryDevice r.swapEntry = m
    · subst hnm
      rw [if_pos rfl]
      exact h.inuse_freed hr hd₀
    · rw [List.countP_erase, if_neg hnm, if_neg (fun hc => hnm (by simpa using hc.2)), Nat.sub_zero]
      exact hcount

/-- A device put in front while no page is out. -/
theorem of_added {addr : Nat} {path : String} {disk : Nat → Page} {total : BitVec 32}
    (h : SwapInv k) (hr : k.records = []) :
    SwapInv { k with
      swapDevices :=
        { addr := addr
          path := path
          pages := swapFilePages
          inusePages := 0
          bitmap := fun _ => 0
          bitmapSize := (swapFilePages + 31) / 32
          store := disk } :: k.swapDevices
      totalSwapPages := total } := by
  refine
    { sizes := ?_
      aligned := h.aligned
      pages := h.pages
      ids := h.ids
      slots := ?_
      out := fun r hm => h.out r hm
      tables := fun r hm => h.tables r hm
      inuse := ?_ }
  · intro m d hd
    cases m with
    | zero =>
        cases Option.some.inj hd
        exact ⟨rfl, rfl⟩
    | succ m => exact h.sizes m d hd
  · intro r hm
    have hm' : r ∈ k.records := hm
    rw [hr] at hm'
    exact nomatch hm'
  · intro m d hd
    show d.inusePages.toNat = k.records.countP _
    rw [hr]
    cases m with
    | zero =>
        cases Option.some.inj hd
        rfl
    | succ m =>
        have hc := h.inuse m d hd
        rw [hr] at hc
        exact hc

/-- A device nothing counts on has no page out. -/
theorem not_on_idle {n : Nat} {dev : SwapDevice} (h : SwapInv k)
    (hdev : k.swapDevices[n]? = some dev) (hz : dev.inusePages = 0) :
    ∀ r ∈ k.records, entryDevice r.swapEntry ≠ n := by
  intro r hr hn
  have hc := h.inuse n dev hdev
  rw [hz] at hc
  have hpos : 0 < k.records.countP (fun r => entryDevice r.swapEntry = n) :=
    List.countP_pos_iff.mpr ⟨r, hr, by simpa using hn⟩
  rw [← hc] at hpos
  exact absurd hpos (by decide)

/-- A device taken out, with no page out on it or behind it. -/
theorem of_removed {n : Nat} {dev : SwapDevice} {total : BitVec 32} (h : SwapInv k)
    (hdev : k.swapDevices[n]? = some dev) (hz : dev.inusePages = 0)
    (hle : ∀ r ∈ k.records, entryDevice r.swapEntry ≤ n) :
    SwapInv { k with swapDevices := k.swapDevices.eraseIdx n, totalSwapPages := total } := by
  have hlt : ∀ r ∈ k.records, entryDevice r.swapEntry < n := fun r hr =>
    lt_of_le_of_ne (hle r hr) (h.not_on_idle hdev hz r hr)
  refine
    { sizes := ?_
      aligned := h.aligned
      pages := h.pages
      ids := h.ids
      slots := ?_
      out := fun r hm => h.out r hm
      tables := fun r hm => h.tables r hm
      inuse := ?_ }
  · intro m d hd
    have hd' : (k.swapDevices.eraseIdx n)[m]? = some d := hd
    rw [List.getElem?_eraseIdx] at hd'
    split at hd'
    · exact h.sizes m d hd'
    · exact h.sizes (m + 1) d hd'
  · intro r hr
    obtain ⟨hne, ho, d, hd, hb⟩ := h.slots r hr
    refine ⟨hne, ho, d, ?_, hb⟩
    show (k.swapDevices.eraseIdx n)[entryDevice r.swapEntry]? = some d
    rw [List.getElem?_eraseIdx_of_lt (hlt r hr)]
    exact hd
  · intro m d hd
    have hd' : (k.swapDevices.eraseIdx n)[m]? = some d := hd
    show d.inusePages.toNat = k.records.countP _
    by_cases hm : m < n
    · rw [List.getElem?_eraseIdx_of_lt hm] at hd'
      exact h.inuse m d hd'
    · -- both sides are 0: no page is out on a device at or behind `n`
      rw [List.getElem?_eraseIdx_of_ge (by omega)] at hd'
      have hc := h.inuse (m + 1) d hd'
      rw [hc, List.countP_eq_zero.mpr, List.countP_eq_zero.mpr]
      · intro r hr he
        have := hlt r hr
        simp only [decide_eq_true_eq] at he
        omega
      · intro r hr he
        have := hlt r hr
        simp only [decide_eq_true_eq] at he
        omega

/-- The number of a slot that is taken in an admitted call. -/
theorem entryId_of_slot {va n offset : Nat} (h : SwapInv k)
    (hok : SwapOk k (.swapOut va)) (hs : k.allocateSwapEntry = some (n, offset, k₁))
    (hz : k.getPhysicalAddr k.currentDirectory va ≠ 0) :
    pageAddr va = va ∧ k.entryIdOf n offset ≠ 0 ∧ entryDevice (k.entryIdOf n offset) = n ∧
      entryOffset (k.entryIdOf n offset) = offset := by
  obtain ⟨dev, hdev, _, hoff, _⟩ := (slotTaken_of_allocate hs).free
  obtain ⟨hva, hadr⟩ := hok _ hs hz
  have hlt : offset < 2 ^ 24 := by
    have := (h.sizes n dev hdev).2
    omega
  exact ⟨hva, entryIdOf_spec hadr hlt⟩

/-- A fault on a page that is out, in an admitted call, brings it back. -/
theorem fault_swapped {faultAddr errorCode : Nat} {r : SwappedPageEntry} (h : SwapInv k)
    (hio : k.ios = []) (hok : SwapOk k (.fault faultAddr errorCode)) (hr : r ∈ k.records)
    (hva : r.virtualAddr = pageAddr faultAddr) :
    ∃ dev, k.swapDevices[entryDevice r.swapEntry]? = some dev ∧
      (k.handlePageFault faultAddr errorCode).1 = 0 ∧
      SwappedIn k (k.handlePageFault faultAddr errorCode).2 r.virtualAddr r.swapEntry
        (dev.store (entryOffset r.swapEntry)) := by
  obtain ⟨hne, _, dev, hdev, _⟩ := h.slots r hr
  have hid := getSwapEntry_of_mem h.pages hr
  have ht := h.tables r hr
  rw [hva] at hid ht ⊢
  have hf : k.allocFrame.1 ≠ 0 := hok (by rw [hid]; exact hne)
  exact ⟨dev, hdev, handlePageFault_swapped hio errorCode hid hne hdev hf ht⟩

/-- A fault on a page that is not out. -/
theorem fault_other {faultAddr : Nat} (errorCode : Nat)
    (hn : ¬ ∃ r ∈ k.records, r.virtualAddr = pageAddr faultAddr) :
    (∀ r ∈ k.records, r.virtualAddr ≠ pageAddr faultAddr) ∧
      Quiet (pageOf faultAddr) k (k.handlePageFault faultAddr errorCode).2 := by
  have hz : k.getSwapEntry k.currentDirectory (pageAddr faultAddr) = 0 := by
    by_contra hz
    exact hn (mem_of_getSwapEntry hz)
  refine ⟨fun r hr he => hn ⟨r, hr, he⟩, ?_⟩
  unfold handlePageFault
  dsimp only
  rw [hz, if_neg (by decide)]
  exact (Quiet.rule _ _).handleOtherFault rfl errorCode

/-- **One admitted call keeps the invariant.** -/
theorem exec {c : SwapCall} (h : SwapInv k) (hk : k.kmallocs = []) (hio : k.ios = [])
    (hok : SwapOk k c) : SwapInv (c.exec k) := by
  cases c with
  | add addr path type disk =>
      show SwapInv (k.addSwapDevice addr path type disk).2
      rcases addSwapDevice_cases hk addr path type disk with he | ⟨hf, ht, total, he⟩
      · rw [he]
        exact h
      · rw [he]
        rcases hok with hf' | ht' | hr
        · exact absurd hf hf'
        · exact absurd ht ht'
        · exact h.of_added hr
  | remove path =>
      show SwapInv (k.removeSwapDevice path).2
      rcases removeSwapDevice_cases k path with he | ⟨n, dev, total, hf, hdev, hz, he⟩
      · rw [he]
        exact h
      · rw [he]
        exact h.of_removed hdev hz (hok n hf dev hdev hz)
  | swapOut va =>
      show SwapInv (k.swapOutPage va).2
      rcases swapOutPage_cases hk hio va with ⟨_, he⟩ | ⟨n, offset, k₁, hs, hslot, ⟨_, he⟩ | ⟨hz, _, hout⟩⟩
      · rw [he]
        exact h
      · rw [he]
        exact h.of_slotTaken hslot
      · obtain ⟨hva, hid, hd, ho⟩ := h.entryId_of_slot hok hs hz
        exact h.of_swappedOut hslot hva hz hid hd ho hout
  | fault faultAddr errorCode =>
      show SwapInv (k.handlePageFault faultAddr errorCode).2
      by_cases hex : ∃ r ∈ k.records, r.virtualAddr = pageAddr faultAddr
      · obtain ⟨r, hr, hva⟩ := hex
        obtain ⟨dev, _, _, hin⟩ := h.fault_swapped hio hok hr hva
        exact h.of_swappedIn hr hin
      · obtain ⟨hne, hq⟩ := fault_other errorCode hex
        refine h.of_quiet hq ?_
        intro r hr
        rw [← pageOf_pageAddr faultAddr]
        exact pageOf_ne (h.aligned r hr) (pageAddr_pageAddr faultAddr) (hne r hr)
  | write physicalAddr byte =>
      exact
        { sizes := h.sizes
          aligned := h.aligned
          pages := h.pages
          ids := h.ids
          slots := h.slots
          out := h.out
          tables := h.tables
          inuse := h.inuse }

end SwapInv

/-! ## A page that is out stays in its slot -/

/-- The page `va` is out under the number `id`, in a slot of the device record
at `addr` with that path, and the slot holds `page`. -/
structure Held (va id addr : Nat) (path : String) (page : Page) (k : Kernel) : Prop where
  record : { virtualAddr := va, swapEntry := id } ∈ k.records
  device : ∃ d, k.swapDevices[entryDevice id]? = some d ∧ d.addr = addr ∧ d.path = path ∧
    d.store (entryOffset id) = page

/-- What swapping a page out puts into its slot. -/
theorem Held.of_swappedOut {k k' : Kernel} {va n offset id : Nat} {dev : SwapDevice}
    (hdev : k.swapDevices[n]? = some dev) (hd : entryDevice id = n) (ho : entryOffset id = offset)
    (hout : SwappedOut k k' va n offset id) :
    Held va id dev.addr dev.path (k.contents va) k' := by
  have hslot := hout.devices n
  rw [hdev, Option.map_some, if_pos rfl] at hslot
  rw [← hd] at hslot
  refine ⟨by rw [hout.records]; exact List.mem_cons_self, _, hslot, rfl, rfl, ?_⟩
  show Function.update dev.store offset (k.contents va) (entryOffset id) = _
  rw [ho, Function.update_self]

/-- **No other admitted call touches the slot.** -/
theorem Held.exec {va id addr : Nat} {path : String} {page : Page} {k : Kernel} {c : SwapCall}
    (hh : Held va id addr path page k) (h : SwapInv k) (hk : k.kmallocs = []) (hio : k.ios = [])
    (hok : SwapOk k c) (hc : ¬ c.FaultsOn va) : Held va id addr path page (c.exec k) := by
  obtain ⟨hrec, d, hd, ha, hp, hs⟩ := hh
  obtain ⟨_, _, d', hd', hbit⟩ := h.slots _ hrec
  cases hd.symm.trans hd'
  cases c with
  | add addr path type disk =>
      show Held _ _ _ _ _ (k.addSwapDevice addr path type disk).2
      rcases addSwapDevice_cases hk addr path type disk with he | ⟨hf, ht, total, he⟩
      · rw [he]
        exact ⟨hrec, d, hd, ha, hp, hs⟩
      · rcases hok with hf' | ht' | hr
        · exact absurd hf hf'
        · exact absurd ht ht'
        · rw [hr] at hrec
          exact nomatch hrec
  | remove path =>
      show Held _ _ _ _ _ (k.removeSwapDevice path).2
      rcases removeSwapDevice_cases k path with he | ⟨n, dev, total, hf, hdev, hz, he⟩
      · rw [he]
        exact ⟨hrec, d, hd, ha, hp, hs⟩
      · have hle := hok n hf dev hdev hz _ hrec
        have hne := h.not_on_idle hdev hz _ hrec
        have hlt : entryDevice id < n := lt_of_le_of_ne hle hne
        rw [he]
        refine ⟨hrec, d, ?_, ha, hp, hs⟩
        show (k.swapDevices.eraseIdx n)[entryDevice id]? = some d
        rw [List.getElem?_eraseIdx_of_lt hlt]
        exact hd
  | swapOut va' =>
      show Held _ _ _ _ _ (k.swapOutPage va').2
      rcases swapOutPage_cases hk hio va' with
        ⟨_, he⟩ | ⟨n, offset, k₁, hslot, htaken, ⟨_, he⟩ | ⟨hz, _, hout⟩⟩
      · rw [he]
        exact ⟨hrec, d, hd, ha, hp, hs⟩
      · rw [he]
        have heq := htaken.eq
        subst heq
        refine ⟨hrec, _, by rw [getElem?_modifyDevice, hd]; rfl, ?_⟩
        split
        · exact ⟨ha, hp, hs⟩
        · exact ⟨ha, hp, hs⟩
      · -- the slot written to had a clear bit, so it is another one
        obtain ⟨dev, hdev, hclear, _, _⟩ := htaken.free
        refine ⟨?_, _, by rw [hout.devices, hd]; rfl, ?_⟩
        · rw [hout.records]
          exact List.mem_cons_of_mem _ hrec
        · split
          · next hn =>
              subst hn
              cases hd.symm.trans hdev
              have hne : entryOffset id ≠ offset := by
                rintro rfl
                rw [hclear] at hbit
                exact absurd hbit (by decide)
              refine ⟨ha, hp, ?_⟩
              show Function.update d.store offset (k.contents va') (entryOffset id) = page
              rw [Function.update_of_ne hne]
              exact hs
          · exact ⟨ha, hp, hs⟩
  | fault faultAddr errorCode =>
      show Held _ _ _ _ _ (k.handlePageFault faultAddr errorCode).2
      by_cases hex : ∃ r ∈ k.records, r.virtualAddr = pageAddr faultAddr
      · obtain ⟨r, hr, hva⟩ := hex
        obtain ⟨dev, _, _, hin⟩ := h.fault_swapped hio hok hr hva
        have hne : va ≠ r.virtualAddr := by
          intro he
          exact hc (hva.symm.trans he.symm)
        refine ⟨?_, _, by rw [hin.devices, hd]; rfl, ?_⟩
        · rw [hin.records]
          exact (List.mem_eraseP_of_neg (by simpa using hne)).mpr hrec
        · split
          · exact ⟨ha, hp, hs⟩
          · exact ⟨ha, hp, hs⟩
      · obtain ⟨_, hq⟩ := SwapInv.fault_other errorCode hex
        have hdev : (k.handlePageFault faultAddr errorCode).2.swapDevices = k.swapDevices :=
          congrArg SwapSide.devices hq.side
        exact ⟨by rw [records_of_side hq.side]; exact hrec, d, by rw [hdev]; exact hd, ha, hp, hs⟩
  | write physicalAddr byte => exact ⟨hrec, d, hd, ha, hp, hs⟩

/-! ## Runs -/

theorem allocateSwapEntry_reliable (k : Kernel) :
    k.reliable.allocateSwapEntry =
      k.allocateSwapEntry.map (fun slot => (slot.1, slot.2.1, slot.2.2.reliable)) := by
  have hdevices : k.reliable.swapDevices = k.swapDevices := rfl
  unfold allocateSwapEntry
  rw [hdevices]
  cases allocateSwapEntryFrom k.swapDevices with
  | none => rfl
  | some s => rfl

theorem allocFrame_reliable (k : Kernel) : k.reliable.allocFrame.1 = k.allocFrame.1 := by
  have hbitmap : k.reliable.frameBitmap = k.frameBitmap := rfl
  unfold allocFrame
  rw [hbitmap]
  cases k.frameBitmap.firstClear (maxFrames / 32) with
  | none => rfl
  | some i => rfl

/-- Whether a call is admitted does not depend on how the heap fares. -/
theorem SwapOk.reliable {k : Kernel} {c : SwapCall} (h : SwapOk k c) : SwapOk k.reliable c := by
  cases c with
  | add addr path type disk => exact h
  | remove path => exact h
  | swapOut va =>
      intro slot hs hz
      rw [allocateSwapEntry_reliable, Option.mem_def, Option.map_eq_some_iff] at hs
      obtain ⟨s, hs, rfl⟩ := hs
      have hpa : k.reliable.getPhysicalAddr k.reliable.currentDirectory va =
          k.getPhysicalAddr k.currentDirectory va := getPhysicalAddr_congr (show k.reliable.dir = k.dir from rfl) _ _
      rw [hpa] at hz
      exact h s hs hz
  | fault faultAddr errorCode =>
      intro hne
      rw [allocFrame_reliable]
      exact h hne
  | write physicalAddr byte => exact h

theorem SwapInv.reliable {k : Kernel} (h : SwapInv k) : SwapInv k.reliable where
  sizes := h.sizes
  aligned := h.aligned
  pages := h.pages
  ids := h.ids
  slots := h.slots
  out := h.out
  tables := h.tables
  inuse := h.inuse

theorem Held.reliable {va id addr : Nat} {path : String} {page : Page} {k : Kernel}
    (h : Held va id addr path page k) : Held va id addr path page k.reliable :=
  ⟨h.record, h.device⟩

theorem swapStep_eq {k k' : Kernel} {c : SwapCall} (h : swapStep k c = some k') :
    k' = c.exec k.reliable ∧ k'.hung = false := by
  unfold swapStep at h
  dsimp only at h
  split at h
  · exact nomatch h
  · next hh =>
      cases Option.some.inj h
      exact ⟨rfl, by simpa using hh⟩

theorem swapStep_of_exec {k : Kernel} {c : SwapCall} (h : (c.exec k.reliable).hung = false) :
    swapStep k c = some (c.exec k.reliable) := by
  unfold swapStep
  dsimp only
  rw [h]
  rfl

theorem SwapInv.step {k k' : Kernel} {c : SwapCall} (h : SwapInv k) (hok : SwapOk k c)
    (hs : swapStep k c = some k') : SwapInv k' := by
  obtain ⟨rfl, _⟩ := swapStep_eq hs
  exact h.reliable.exec rfl rfl hok.reliable

theorem SwapInv.run {k k' : Kernel} (h : SwapStart k) (hr : Reaches swapStep SwapOk k k') :
    SwapInv k' :=
  hr.invariant (SwapInv.start h) (fun _ _ _ hi hok hs => hi.step hok hs)

/-- The slot keeps the page along a run without a fault on it. -/
theorem Held.run {va id addr : Nat} {path : String} {page : Page} {k k' : Kernel}
    (hh : Held va id addr path page k) (h : SwapInv k) (hn : k.hung = false)
    (hr : Reaches swapStep (fun k c => SwapOk k c ∧ ¬ c.FaultsOn va) k k') :
    Held va id addr path page k' ∧ SwapInv k' ∧ k'.hung = false := by
  refine hr.invariant (I := fun u => Held va id addr path page u ∧ SwapInv u ∧ u.hung = false)
    ⟨hh, h, hn⟩ ?_
  rintro u c u' ⟨hu, hi, _⟩ ⟨hok, hc⟩ hs
  refine ⟨?_, hi.step hok hs, (swapStep_eq hs).2⟩
  obtain ⟨rfl, _⟩ := swapStep_eq hs
  exact hu.reliable.exec hi.reliable rfl rfl hok.reliable hc

/-- **A page that is swapped out comes back.**  Along every run whose calls are
all admitted by `SwapOk`, a call of `swap_out_page` that writes the page `va` to
a slot answers a number that is not 0 and names that slot; after any further
admitted calls, devices added and removed among them, the number still names
the same offset of the same device, the numbers of all pages that are out are
different and not 0, and the next fault on `va` returns 0 with the page mapped
and its contents as they were. -/
theorem swapped_page_comes_back {k₀ k₁ k₂ k₃ : Kernel} (h₀ : SwapStart k₀)
    (h₁ : Reaches swapStep SwapOk k₀ k₁) {va : Nat} (hok : SwapOk k₁ (.swapOut va))
    {slot : Nat × Nat × Kernel} (hslot : k₁.allocateSwapEntry = some slot)
    (hpa : k₁.getPhysicalAddr k₁.currentDirectory va ≠ 0)
    (h₂ : swapStep k₁ (.swapOut va) = some k₂)
    (h₃ : Reaches swapStep (fun k c => SwapOk k c ∧ ¬ c.FaultsOn va) k₂ k₃)
    {faultAddr errorCode : Nat} (hfault : pageAddr faultAddr = va)
    (hok₃ : SwapOk k₃ (.fault faultAddr errorCode)) :
    ∃ id dev dev' k₄,
      (k₁.reliable.swapOutPage va).1 = id ∧ id ≠ 0 ∧
      k₁.swapDevices[slot.1]? = some dev ∧ entryOffset id = slot.2.1 ∧
      k₃.getSwapEntry k₃.currentDirectory va = id ∧
      k₃.swapDevices[entryDevice id]? = some dev' ∧ dev'.addr = dev.addr ∧ dev'.path = dev.path ∧
      (k₃.records.map SwappedPageEntry.swapEntry).Nodup ∧
      (∀ r ∈ k₃.records, r.swapEntry ≠ 0) ∧
      (k₃.reliable.handlePageFault faultAddr errorCode).1 = 0 ∧
      swapStep k₃ (.fault faultAddr errorCode) = some k₄ ∧
      k₄.mapped k₄.currentDirectory (pageOf va) ≠ none ∧ k₄.contents va = k₁.contents va := by
  obtain ⟨n, offset, kₐ⟩ := slot
  have hinv := SwapInv.run h₀ h₁
  have hpa' : k₁.reliable.getPhysicalAddr k₁.reliable.currentDirectory va ≠ 0 := by
    rw [getPhysicalAddr_congr (show k₁.reliable.dir = k₁.dir from rfl)]
    exact hpa
  -- the call writes the page
  have hcont : k₁.reliable.contents va = k₁.contents va := by
    unfold Kernel.contents readPage
    rw [getPhysicalAddr_congr (show k₁.reliable.dir = k₁.dir from rfl)]
    rfl
  obtain ⟨dev, hdev, _⟩ := (slotTaken_of_allocate hslot).free
  have hslot' : k₁.reliable.allocateSwapEntry = some (n, offset, kₐ.reliable) := by
    rw [allocateSwapEntry_reliable, hslot]
    rfl
  obtain ⟨_, hid, hd, ho⟩ := hinv.reliable.entryId_of_slot hok.reliable hslot' hpa'
  obtain ⟨hk₂, hhung₂⟩ := swapStep_eq h₂
  rcases swapOutPage_cases (k := k₁.reliable) rfl rfl va with
    ⟨hnone, _⟩ | ⟨n', offset', k', hs, _, ⟨hz, _⟩ | ⟨_, hans, hout⟩⟩
  · rw [hslot'] at hnone
    exact nomatch hnone
  · exact absurd hz hpa'
  cases hslot'.symm.trans hs
  have hheld : Held va (k₁.reliable.entryIdOf n offset) dev.addr dev.path (k₁.contents va) k₂ := by
    rw [hk₂, ← hcont]
    exact Held.of_swappedOut hdev hd ho hout
  -- the slot keeps it
  obtain ⟨hheld₃, hinv₃, hhung₃⟩ := hheld.run (hinv.step hok h₂) hhung₂ h₃
  obtain ⟨hrec, dev', hdev', haddr, hpath, hstore⟩ := hheld₃
  -- and the fault reads it back
  obtain ⟨dev'', hdev'', hres, hin⟩ :=
    hinv₃.reliable.fault_swapped rfl hok₃.reliable hrec hfault.symm
  cases hdev'.symm.trans hdev''
  have hstep : swapStep k₃ (.fault faultAddr errorCode) =
      some (k₃.reliable.handlePageFault faultAddr errorCode).2 :=
    swapStep_of_exec (hin.hung.trans hhung₃)
  refine ⟨_, dev, dev', _, hans, hid, hdev, ho, getSwapEntry_of_mem hinv₃.pages hrec, hdev', haddr,
    hpath, ?_, fun r hr => (hinv₃.slots r hr).1, hres, hstep, ?_, ?_⟩
  · apply List.Nodup.of_map slotOf
    rw [List.map_map]
    exact hinv₃.ids
  · rw [hin.currentDirectory]
    exact hin.mapped
  · exact hin.contents.trans hstore

/-- A kernel with one directory and one page in it, before any device. -/
def swapDemo : Kernel :=
  let k := (boot.createPageDirectory 1).2
  { (k.allocFrame.2.mapPage 1 0x40000000 k.allocFrame.1 (pgPresent ||| pgWrite ||| pgUser)).2 with
    currentDirectory := 1 }

def swapDemoAdd : SwapCall := .add 0x2000000 "swap0" swapTypeFile (fun _ _ => 0)

/-- One device, and its first slot lost to a page that was not mapped. -/
def swapDemo₁ : Kernel :=
  (SwapCall.swapOut 0x50000000).exec (swapDemoAdd.exec swapDemo.reliable).reliable

/-- The page is out, and its old frame has been written to. -/
def swapDemo₂ : Kernel := (SwapCall.swapOut 0x40000000).exec swapDemo₁.reliable

def swapDemo₃ : Kernel :=
  (SwapCall.write (swapDemo₁.getPhysicalAddr 1 0x40000000) 7).exec swapDemo₂.reliable

/-- A page written to the second slot, read back after its old frame has been
overwritten. -/
theorem swapped_page_comes_back_second_slot :
    ∃ k₄, swapStep swapDemo₃ (.fault 0x40000123 6) = some k₄ ∧
      k₄.contents 0x40000000 = swapDemo₁.contents 0x40000000 := by
  have h₁ : Reaches swapStep SwapOk swapDemo swapDemo₁ :=
    (Reaches.refl.tail (a := swapDemoAdd) (by decide +kernel)
      (swapStep_of_exec (by decide +kernel))).tail (a := .swapOut 0x50000000) (by decide +kernel)
      (swapStep_of_exec (by decide +kernel))
  have h₃ : Reaches swapStep (fun k c => SwapOk k c ∧ ¬ c.FaultsOn 0x40000000) swapDemo₂ swapDemo₃ :=
    Reaches.refl.tail (a := .write (swapDemo₁.getPhysicalAddr 1 0x40000000) 7)
      ⟨trivial, fun h => h⟩ (swapStep_of_exec (by decide +kernel))
  obtain ⟨_, _, _, k₄, _, _, _, _, _, _, _, _, _, _, _, hstep, _, hcont⟩ :=
    swapped_page_comes_back (show SwapStart swapDemo from ⟨rfl, by decide +kernel⟩) h₁
      (by decide +kernel)
      (Option.some_get (x := swapDemo₁.allocateSwapEntry) (by decide +kernel)).symm
      (by decide +kernel) (swapStep_of_exec (by decide +kernel)) h₃
      (show pageAddr 0x40000123 = 0x40000000 by decide +kernel)
      (show SwapOk swapDemo₃ (.fault 0x40000123 6) by decide +kernel)
  exact ⟨k₄, hstep, hcont⟩

/-- The first page ever swapped out is lost: its slot is the first one of the
head device, its number is 0, and the next fault finds nothing to bring
back. -/
theorem first_slot_is_lost :
    SwapStart swapDemo ∧
    ∃ k₁ k₂, Reaches swapStep (fun _ _ => True) swapDemo k₁ ∧
      swapStep k₁ (.swapOut 0x40000000) = some k₂ ∧
      k₁.getPhysicalAddr k₁.currentDirectory 0x40000000 ≠ 0 ∧
      k₂.records = [{ virtualAddr := 0x40000000, swapEntry := 0 }] ∧
      (k₁.reliable.swapOutPage 0x40000000).1 = 0 ∧
      k₂.allocFrame.1 ≠ 0 ∧
      (k₂.reliable.handlePageFault 0x40000000 4).1 = -1 ∧
      (k₂.reliable.handlePageFault 0x40000000 4).2.mapped 1 (pageOf 0x40000000) = none := by
  refine ⟨⟨rfl, by decide +kernel⟩, swapDemoAdd.exec swapDemo.reliable, _,
    Reaches.refl.tail (a := swapDemoAdd) trivial (swapStep_of_exec (by decide +kernel)),
    swapStep_of_exec (by decide +kernel), ?_⟩
  decide +kernel

end KmOS
