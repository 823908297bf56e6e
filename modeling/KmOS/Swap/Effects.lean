/-
# `KmOS.Swap.Effects` — what each swap operation does

Entry numbers first: under which condition the number written down for a slot
is read back as that slot.  Then one lemma for each operation, in terms of the
two places a swapped page lives in: the records of the current directory and
the devices.  What the page-fault handler does besides swapping a page in is
described by a rule, `FaultRule`: a relation that holds across each of the
writes it is made of holds across the whole.  `Quiet` is one such relation:
records and devices stay, and so does every page but the one that faulted.
-/
import KmOS.Swap.Model
import KmOS.Cow.Effects

namespace KmOS

open Kernel

/-! ## Entry numbers -/

theorem pointerDiff_toNat {dev head : Nat} (h : (sizeofSwapDevice : Int) ∣ (dev : Int) - head) :
    (((pointerDiff dev head).toNat % 256 : Nat) : Int) =
      ((dev : Int) - head) / sizeofSwapDevice % 256 := by
  obtain ⟨j, hj⟩ := h
  have hq : ((dev : Int) - head) / (sizeofSwapDevice : Int) = j := by
    rw [hj]
    exact Int.mul_ediv_cancel_left j (by decide)
  unfold pointerDiff
  rw [hq, BitVec.toNat_ofInt]
  omega

theorem swapEntryId_eq (diff : BitVec 32) {offset : Nat} (ho : offset < 2 ^ 24) :
    swapEntryId diff offset = diff.toNat % 256 * 2 ^ 24 + offset := by
  have hshift : diff.toNat <<< 24 % 2 ^ 32 = (diff.toNat % 256) <<< 24 := by
    rw [Nat.shiftLeft_eq, Nat.shiftLeft_eq]
    omega
  unfold swapEntryId
  rw [BitVec.toNat_or, BitVec.toNat_shiftLeft, BitVec.toNat_ofNat,
    Nat.mod_eq_of_lt (by omega : offset < 2 ^ 32), hshift,
    ← Nat.shiftLeft_add_eq_or_of_lt ho, Nat.shiftLeft_eq]

theorem entryDevice_eq {p offset : Nat} (hp : p < 256) (ho : offset < 2 ^ 24) :
    entryDevice (p * 2 ^ 24 + offset) = p := by
  unfold entryDevice
  rw [Nat.shiftRight_eq_div_pow]
  have h1 : (p * 2 ^ 24 + offset) / 2 ^ 24 = p := by omega
  have hmask : (0xFF : Nat) = 2 ^ 8 - 1 := by decide
  rw [h1, hmask, Nat.and_two_pow_sub_one_eq_mod]
  omega

theorem entryOffset_mod (e : Nat) : entryOffset e = e % 16777216 :=
  Nat.and_two_pow_sub_one_eq_mod e 24

theorem entryOffset_eq {p offset : Nat} (ho : offset < 2 ^ 24) :
    entryOffset (p * 2 ^ 24 + offset) = offset := by
  rw [entryOffset_mod]
  omega

/-- The slot lies where its entry number says: the record of its device is
some whole number of records away from the head of the list, that number is
the device's position up to the 8 bits kept of it, and the slot is not the
first one of the head device, whose number is 0. -/
def Addressable (k : Kernel) (n offset : Nat) : Prop :=
  ¬ (n = 0 ∧ offset = 0) ∧
    ∃ dev ∈ k.swapDevices[n]?, ∃ head ∈ k.swapDevices.head?,
      (sizeofSwapDevice : Int) ∣ (dev.addr : Int) - head.addr ∧
        ((dev.addr : Int) - head.addr) / sizeofSwapDevice % 256 = n

instance (k : Kernel) (n offset : Nat) : Decidable (Addressable k n offset) :=
  inferInstanceAs (Decidable (_ ∧ _))

/-- **The entry number of an addressable slot leads back to it.** -/
theorem entryIdOf_spec {k : Kernel} {n offset : Nat} (h : Addressable k n offset)
    (ho : offset < 2 ^ 24) :
    k.entryIdOf n offset ≠ 0 ∧ entryDevice (k.entryIdOf n offset) = n ∧
      entryOffset (k.entryIdOf n offset) = offset := by
  obtain ⟨hz, dev, hd, head, hh, hdvd, hj⟩ := h
  have hn : (pointerDiff dev.addr head.addr).toNat % 256 = n := by
    have h1 := pointerDiff_toNat hdvd
    rw [hj] at h1
    exact_mod_cast h1
  have he : k.entryIdOf n offset = n * 2 ^ 24 + offset := by
    unfold entryIdOf
    rw [Option.mem_def.mp hd, Option.mem_def.mp hh]
    dsimp only
    rw [swapEntryId_eq _ ho, hn]
  have hlt : n < 256 := by omega
  rw [he]
  refine ⟨?_, entryDevice_eq hlt ho, entryOffset_eq ho⟩
  omega

/-! ## Slots -/

/-- `allocate_swap_entry` takes a clear bit of a device that counts fewer
pages in use than it has. -/
theorem allocateSwapEntryFrom_spec : ∀ {devs devs' : List SwapDevice} {n offset : Nat},
    allocateSwapEntryFrom devs = some (n, offset, devs') →
    ∃ dev, devs[n]? = some dev ∧ dev.bitmap.testBit offset = false ∧
      offset < dev.bitmapSize * 32 ∧ dev.inusePages.toNat < dev.pages ∧
      devs' = devs.modify n (fun d => { d with bitmap := d.bitmap.setBit offset })
  | [], _, _, _, h => absurd h.symm (Option.some_ne_none _)
  | d :: devs, devs', n, offset, h => by
      obtain ⟨o, hlt, hf, he⟩ | ⟨-, he⟩ := allocateSwapEntryFrom_cons d devs
      · obtain ⟨h1, h2, _⟩ := Words.firstClear_eq_some hf
        cases Option.some.inj (h.symm.trans he)
        exact ⟨d, rfl, h2, by omega, hlt, rfl⟩
      · obtain ⟨⟨m, o, ds⟩, hrec, hslot⟩ := Option.map_eq_some_iff.mp (he.symm.trans h)
        cases hslot
        obtain ⟨dev, h1, h2, h3, h4, rfl⟩ := allocateSwapEntryFrom_spec hrec
        exact ⟨dev, h1, h2, h3, h4, rfl⟩

theorem allocateSwapEntry_spec {k k₁ : Kernel} {n offset : Nat}
    (h : k.allocateSwapEntry = some (n, offset, k₁)) :
    ∃ dev, k.swapDevices[n]? = some dev ∧ dev.bitmap.testBit offset = false ∧
      offset < dev.bitmapSize * 32 ∧ dev.inusePages.toNat < dev.pages ∧
      k₁ = k.modifyDevice n (fun d => { d with bitmap := d.bitmap.setBit offset }) := by
  unfold allocateSwapEntry at h
  cases hf : allocateSwapEntryFrom k.swapDevices with
  | none =>
      rw [hf] at h
      exact nomatch h
  | some t =>
      obtain ⟨m, o, ds⟩ := t
      rw [hf] at h
      cases Option.some.inj h
      obtain ⟨dev, h1, h2, h3, h4, rfl⟩ := allocateSwapEntryFrom_spec hf
      exact ⟨dev, h1, h2, h3, h4, rfl⟩

/-! ## The writes of a fault

A fault that swaps nothing in writes entries of the page it is about, bits of
the frame bitmap, the LRU list and the copy-on-write records; it makes no
record. -/

/-- A relation between the state before and the state after that holds across
each of these writes, for page `p` of directory `pd`. -/
structure FaultRule (pd : Nat) (p : PageNo) (R : Kernel → Kernel → Prop) : Prop where
  refl : ∀ k, R k k
  trans : ∀ {k₁ k₂ k₃}, R k₁ k₂ → R k₂ k₃ → R k₁ k₃
  aside : ∀ {k k' : Kernel}, k'.dir = k.dir → k'.swapDevices = k.swapDevices →
    k'.currentDirectory = k.currentDirectory →
    (∀ a, k.findCowPage a = none → k'.findCowPage a = none) → R k k'
  map : ∀ {va : Nat} (k : Kernel) (pa flags : Nat), pageOf va = p →
    R k (k.mapPage pd va pa flags).2
  unmap : ∀ {va : Nat} (k : Kernel), pageOf va = p → R k (k.unmapPage pd va)
  permit : ∀ {va : Nat} {k : Kernel} {e : PageTableEntry} (b : Bool),
    k.mapped pd (pageOf va) = some e → pageOf va = p → R k (k.setWritable pd va b)

namespace FaultRule

variable {pd va : Nat} {p : PageNo} {k k' : Kernel} {R : Kernel → Kernel → Prop}

/-- The current directory stays the current one. -/
theorem sameDirectory (pd : Nat) (p : PageNo) :
    FaultRule pd p (fun k k' => k'.currentDirectory = k.currentDirectory) where
  refl := fun _ => rfl
  trans := fun h h' => h'.trans h
  aside := fun _ _ hc _ => hc
  map := fun k pa flags _ => congrArg Rest.currentDirectory (k.mapPage_rest pd _ pa flags)
  unmap := fun k _ => congrArg Rest.currentDirectory (k.unmapPage_rest pd _)
  permit := fun b _ _ => congrArg Rest.currentDirectory (setWritable_rest _ pd _ b)

theorem of_rest (h : FaultRule pd p R) (hd : k'.dir = k.dir) (hr : k'.rest = k.rest) : R k k' := by
  have hcow : k'.cowPages = k.cowPages := congrArg Rest.cowPages hr
  refine h.aside hd (congrArg Rest.swapDevices hr) (congrArg Rest.currentDirectory hr) ?_
  intro a ha
  unfold findCowPage at ha ⊢
  rw [hcow]
  exact ha

theorem allocFrame (h : FaultRule pd p R) (k : Kernel) : R k k.allocFrame.2 :=
  h.of_rest k.allocFrame_dir k.allocFrame_rest

theorem freeFrame (h : FaultRule pd p R) (k : Kernel) (a : Nat) : R k (k.freeFrame a) :=
  h.of_rest (k.freeFrame_dir a) (k.freeFrame_rest a)

theorem decCowRef (h : FaultRule pd p R) (k : Kernel) (pa : Nat) : R k (k.decCowRef pa) := by
  have hnone : ∀ a, k.findCowPage a = none → (k.decCowRef pa).findCowPage a = none :=
    fun _ ha => findCowPage_decCowRef ha pa
  have howners : (k.decCowRef pa).swapDevices = k.swapDevices ∧
      (k.decCowRef pa).currentDirectory = k.currentDirectory := by
    obtain ⟨cs, he | he⟩ := k.decCowRef_frame pa
    · rw [he]
      exact ⟨rfl, rfl⟩
    · rw [he]
      exact ⟨congrArg Rest.swapDevices (k.freeFrame_rest pa),
        congrArg Rest.currentDirectory (k.freeFrame_rest pa)⟩
  exact h.aside (decCowRef_dir pa) howners.1 howners.2 hnone

theorem addToLru (h : FaultRule pd p R) (k : Kernel) (va : Nat) : R k (k.addToLru va) := by
  have hm : R k k.kmalloc.2 := h.of_rest k.kmalloc_dir k.kmalloc_rest
  unfold Kernel.addToLru
  split
  · next k₁ he =>
      rw [he] at hm
      exact hm
  · next k₁ he =>
      rw [he] at hm
      exact h.trans hm (h.aside rfl rfl rfl (fun _ ha => ha))

theorem updatePageAccess (h : FaultRule pd p R) (k : Kernel) (va : Nat) :
    R k (k.updatePageAccess va) := by
  unfold Kernel.updatePageAccess
  split
  · exact h.aside rfl rfl rfl (fun _ ha => ha)
  · exact h.addToLru k va

theorem brokenShare (h : FaultRule pd p R) (hp : pageOf va = p) (k : Kernel) (old new : Nat) :
    R k (k.brokenShare pd va old new) := by
  have hcopy : R k (k.copyFrame new old) := h.aside rfl rfl rfl (fun _ ha => ha)
  unfold Kernel.brokenShare
  refine h.trans ?_ (h.decCowRef _ old)
  refine h.trans ?_ (h.map _ new brokenFlags hp)
  exact h.trans hcopy (h.unmap _ hp)

/-- A copy-on-write fault. -/
theorem handleCowFault (h : FaultRule pd p R) (hp : pageOf va = p) (k : Kernel) (errorCode : Nat) :
    R k (k.handleCowFault pd va errorCode).2 := by
  have hbase : pageOf (pageAddr va) = p := (pageOf_pageAddr va).trans hp
  rcases k.handleCowFault_cases pd va errorCode with
    he | ⟨e, hm, _, _, ⟨_, he⟩ | ⟨_, _, _, ⟨_, he⟩ | ⟨_, he⟩⟩⟩
  · rw [he]
    exact h.refl k
  · rw [he]
    rw [← pageOf_pageAddr va] at hm
    exact h.permit true hm hbase
  · rw [he]
    exact h.allocFrame k
  · rw [he]
    exact h.trans (h.allocFrame k) (h.brokenShare hbase _ _ _)

theorem growKernelHeap (h : FaultRule k.currentDirectory p R) (hp : pageOf va = p) :
    R k (k.growKernelHeap va).2 := by
  have hcd : k.allocFrame.2.currentDirectory = k.currentDirectory :=
    congrArg Rest.currentDirectory k.allocFrame_rest
  unfold Kernel.growKernelHeap
  dsimp only
  rw [hcd]
  split
  · exact h.allocFrame k
  · have hmap := h.trans (h.allocFrame k)
      (h.map k.allocFrame.2 k.allocFrame.1 (pgPresent ||| pgWrite) hp)
    split
    · exact h.trans hmap (h.freeFrame _ _)
    · exact h.trans hmap (h.addToLru _ _)

/-- **What a fault does besides swapping a page in.** -/
theorem handleOtherFault (h : FaultRule k.currentDirectory p R) (hp : pageOf va = p)
    (errorCode : Nat) : R k (k.handleOtherFault va errorCode).2 := by
  have hcow : ∀ {S : Kernel → Kernel → Prop}, FaultRule k.currentDirectory p S →
      S k (if userOffset ≤ va ∧ va < userStack then
        k.handleCowFault k.currentDirectory va errorCode else (-1, k)).2 := by
    intro S hS
    split
    · exact hS.handleCowFault hp k errorCode
    · exact hS.refl k
  have hR := hcow h
  have hcd := hcow (sameDirectory k.currentDirectory p)
  unfold Kernel.handleOtherFault
  dsimp only
  generalize (if userOffset ≤ va ∧ va < userStack then
    k.handleCowFault k.currentDirectory va errorCode else (-1, k)) = r at hR hcd ⊢
  split
  · exact h.trans hR (h.updatePageAccess _ _)
  · split
    · rw [← hcd] at h
      exact h.trans hR (h.growKernelHeap ((pageOf_pageAddr va).trans hp))
    · exact hR

end FaultRule

/-! ## Quiet changes -/

/-- What swapping is about: the devices and the records. -/
structure SwapSide where
  devices : List SwapDevice
  currentDirectory : Nat
  swapped : Nat → List SwappedPageEntry

def Kernel.swapSide (k : Kernel) : SwapSide where
  devices := k.swapDevices
  currentDirectory := k.currentDirectory
  swapped pd := (k.dir pd).swappedPages

/-- Devices and records are as before, so is every page but `p`, and no page
table has gone. -/
structure Quiet (p : PageNo) (k k' : Kernel) : Prop where
  side : k'.swapSide = k.swapSide
  mapped : ∀ pd q, q ≠ p → k'.mapped pd q = k.mapped pd q
  tables : ∀ pd i, (k.dir pd).pageTable i ≠ none → (k'.dir pd).pageTable i ≠ none

namespace Quiet

variable {p : PageNo} {k k' k₁ k₂ k₃ : Kernel}

theorem refl (p : PageNo) (k : Kernel) : Quiet p k k :=
  ⟨rfl, fun _ _ _ => rfl, fun _ _ h => h⟩

theorem trans (h : Quiet p k₁ k₂) (h' : Quiet p k₂ k₃) : Quiet p k₁ k₃ where
  side := h'.side.trans h.side
  mapped := fun pd q hq => (h'.mapped pd q hq).trans (h.mapped pd q hq)
  tables := fun pd i hi => h'.tables pd i (h.tables pd i hi)

/-- Changes that leave the directories and the devices alone. -/
theorem of_dir (hd : k'.dir = k.dir) (hdev : k'.swapDevices = k.swapDevices)
    (hc : k'.currentDirectory = k.currentDirectory) : Quiet p k k' where
  side := by
    unfold Kernel.swapSide
    rw [hd, hdev, hc]
  mapped := fun pd q _ => mapped_congr hd pd q
  tables := fun pd i hi => by rw [hd]; exact hi

theorem side_of_rest (h : k'.rest = k.rest) : k'.swapSide = k.swapSide := by
  have h1 : k'.swapDevices = k.swapDevices := congrArg Rest.swapDevices h
  have h2 : k'.currentDirectory = k.currentDirectory := congrArg Rest.currentDirectory h
  have h3 : ∀ pd, (k'.dir pd).swappedPages = (k.dir pd).swappedPages :=
    fun pd => congrFun (congrArg Rest.swappedPages h) pd
  unfold Kernel.swapSide
  simp only [h1, h2, h3]

/-- A page table that is there stays there when an entry is stored. -/
theorem pageTable_setEntry (k : Kernel) (pd va : Nat) (e : PageTableEntry) (pd' : Nat)
    (i : Fin 1024) (h : (k.dir pd').pageTable i ≠ none) :
    ((k.setEntry pd va e).dir pd').pageTable i ≠ none := by
  unfold setEntry
  dsimp only
  split
  · next t ht =>
      by_cases hpd : pd' = pd
      · subst hpd
        by_cases hi : i = pdIndex va
        · subst hi
          unfold PageDirectory.pageTable at h ⊢
          split at h
          · next hp => simp [setDir, hp]
          · exact absurd rfl h
        · simpa [setDir, PageDirectory.pageTable, hi] using h
      · simpa [setDir, hpd] using h
  · exact h

theorem pageTable_getPageTable (k : Kernel) (pd va pd' : Nat) (i : Fin 1024)
    (h : (k.dir pd').pageTable i ≠ none) :
    ((k.getPageTable pd va true).2.dir pd').pageTable i ≠ none := by
  have hdir : k.allocFrame.2.kmalloc.2.dir = k.dir := by simp
  -- the entry that is written was not present, so it is not the one asked about
  have hne : ((k.dir pd).tables (pdIndex va)).present = false → pd' = pd → i ≠ pdIndex va := by
    rintro hp rfl rfl
    simp [PageDirectory.pageTable, hp] at h
  rcases k.getPageTable_cases pd va with ⟨_, he⟩ | ⟨_, _, he⟩ | ⟨hp, _, _, he⟩ | ⟨hp, _, _, he⟩
  · rw [he]
    exact h
  · rw [he]
    simpa using h
  · rw [he, freeFrame_dir]
    by_cases hpd : pd' = pd
    · have hi := hne hp hpd
      subst hpd
      simpa [setDir, nullTable, PageDirectory.pageTable, hi] using h
    · simpa [setDir, hpd, hdir] using h
  · rw [he]
    by_cases hpd : pd' = pd
    · have hi := hne hp hpd
      subst hpd
      simpa [setDir, freshTable, PageDirectory.pageTable, hi] using h
    · simpa [setDir, hpd, hdir] using h

theorem mapPage (k : Kernel) (pd va pa flags : Nat) :
    Quiet (pageOf va) k (k.mapPage pd va pa flags).2 where
  side := side_of_rest (k.mapPage_rest pd va pa flags)
  mapped := fun pd' q hq => mapPage_mapped_of_ne (fun h => hq h.2)
  tables := by
    intro pd' i h
    rcases k.mapPage_cases pd va pa flags with ⟨_, he⟩ | ⟨_, _, he⟩
    · rw [he]
      exact pageTable_getPageTable k pd va pd' i h
    · rw [he]
      exact pageTable_setEntry _ pd va _ pd' i (pageTable_getPageTable k pd va pd' i h)

theorem unmapPage (k : Kernel) (pd va : Nat) : Quiet (pageOf va) k (k.unmapPage pd va) where
  side := side_of_rest (k.unmapPage_rest pd va)
  mapped := by
    intro pd' q hq
    rw [unmapPage_mapped, if_neg (fun h => hq h.2)]
  tables := by
    intro pd' i h
    rcases k.unmapPage_cases pd va with ⟨_, he⟩ | ⟨_, _, he⟩
    · rw [he]
      exact h
    · rw [he]
      exact pageTable_setEntry _ pd va _ pd' i (by rw [freeFrame_dir]; exact h)

theorem setWritable {pd va : Nat} {e : PageTableEntry}
    (h : k.mapped pd (pageOf va) = some e) (b : Bool) :
    Quiet (pageOf va) k (k.setWritable pd va b) where
  side := side_of_rest (k.setWritable_rest pd va b)
  mapped := by
    intro pd' q hq
    rw [setWritable_mapped h, if_neg (fun h => hq h.2)]
  tables := by
    intro pd' i hi
    unfold Kernel.setWritable
    split
    · exact hi
    · exact pageTable_setEntry _ pd va _ pd' i hi

/-- A fault concerns its own page only. -/
theorem rule (pd : Nat) (p : PageNo) : FaultRule pd p (Quiet p) where
  refl := refl p
  trans := trans
  aside := fun hd hdev hc _ => of_dir hd hdev hc
  map := fun k pa flags hp => hp ▸ mapPage k pd _ pa flags
  unmap := fun k hp => hp ▸ unmapPage k pd _
  permit := fun b hm hp => hp ▸ setWritable hm b

end Quiet

end KmOS
