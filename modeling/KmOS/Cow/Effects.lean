/-
# `KmOS.Cow.Effects` — what the functions of `cow.cc` do to the address spaces

One inversion lemma per function: which branches there are, under which
condition each is taken, and the state it leaves written with the functions of
`vmm.cc`.  The results about frames, write permissions and counts all start
from these and never unfold the functions again.

Most of them look at an entry only for its frame; `k.frameAt pd p` is that
frame.
-/
import KmOS.Cow.Model

namespace KmOS

namespace Kernel

/-! ## The frame of a page -/

/-- The frame directory `pd` has page `p` on. -/
def frameAt (k : Kernel) (pd : Nat) (p : PageNo) : Option (Fin maxFrames) :=
  (k.mapped pd p).map PageTableEntry.frame

theorem frameAt_eq_some {k : Kernel} {pd : Nat} {p : PageNo} {f : Fin maxFrames} :
    k.frameAt pd p = some f ↔ ∃ e, k.mapped pd p = some e ∧ e.frame = f :=
  Option.map_eq_some_iff

theorem frameAt_of_mapped {k : Kernel} {pd : Nat} {p : PageNo} {e : PageTableEntry}
    (h : k.mapped pd p = some e) : k.frameAt pd p = some e.frame :=
  frameAt_eq_some.mpr ⟨e, h, rfl⟩

theorem frameAt_congr {k k' : Kernel} (h : k'.dir = k.dir) (pd : Nat) (p : PageNo) :
    k'.frameAt pd p = k.frameAt pd p := by
  unfold frameAt
  rw [mapped_congr h]

theorem frameAt_unmapPage (k : Kernel) (pd va pd' : Nat) (q : PageNo) :
    (k.unmapPage pd va).frameAt pd' q =
      if pd' = pd ∧ q = pageOf va then none else k.frameAt pd' q := by
  unfold frameAt
  rw [unmapPage_mapped]
  split <;> rfl

theorem frameAt_setWritable {k : Kernel} {pd va : Nat} {e : PageTableEntry}
    (h : k.mapped pd (pageOf va) = some e) (b : Bool) (pd' : Nat) (q : PageNo) :
    (k.setWritable pd va b).frameAt pd' q = k.frameAt pd' q := by
  unfold frameAt
  rw [setWritable_mapped h]
  split
  · next hq =>
      rw [hq.1, hq.2, h]
      rfl
  · rfl

/-- After `map_page` a page has the entry it had, or it is the page just
mapped and has the new one. -/
theorem mapped_mapPage {k : Kernel} {pd va pa flags pd' : Nat} {q : PageNo} {e : PageTableEntry}
    (h : (k.mapPage pd va pa flags).2.mapped pd' q = some e) :
    (pd' = pd ∧ q = pageOf va ∧ e = newEntry pa flags) ∨ k.mapped pd' q = some e := by
  by_cases hr : (k.mapPage pd va pa flags).1 = 0
  · rw [mapPage_mapped hr] at h
    split at h
    · next hq =>
        split at h
        · cases h
          exact Or.inl ⟨hq.1, hq.2, rfl⟩
        · exact absurd h (by simp)
    · exact Or.inr h
  · rw [mapPage_mapped_fail hr] at h
    exact Or.inr h

theorem frameAt_mapPage {k : Kernel} {pd va pa flags pd' : Nat} {q : PageNo} {f : Fin maxFrames}
    (h : (k.mapPage pd va pa flags).2.frameAt pd' q = some f) :
    (pd' = pd ∧ q = pageOf va ∧ f = frameOf pa) ∨ k.frameAt pd' q = some f := by
  obtain ⟨e, he, rfl⟩ := frameAt_eq_some.mp h
  rcases mapped_mapPage he with ⟨h1, h2, rfl⟩ | hold
  · exact Or.inl ⟨h1, h2, rfl⟩
  · exact Or.inr (frameAt_of_mapped hold)

theorem frameOf_mul (n : Nat) : (frameOf (n * frameSize)).val = n % maxFrames := by
  simp only [frameOf, Nat.shiftRight_eq_div_pow, frameSize]
  rw [Nat.mul_div_cancel _ (by decide)]

theorem frameOf_physical (f : Fin maxFrames) (va : Nat) :
    frameOf (f.val * 4096 + va % 4096) = f := by
  have hlt := f.isLt
  apply Fin.ext
  simp only [frameOf, Nat.shiftRight_eq_div_pow]
  simp only [maxFrames] at hlt ⊢
  omega

theorem frameOf_frameAddr (f : Fin maxFrames) : frameOf (f.val * 4096) = f := by
  have h := frameOf_physical f 0
  rwa [Nat.zero_mod, Nat.add_zero] at h

theorem physical_div (f : Fin maxFrames) (va : Nat) :
    (f.val * 4096 + va % 4096) / frameSize = f.val := by
  simp only [frameSize]
  omega

/-! ## Page addresses -/

theorem pageAddr_eq (va : Nat) : pageAddr va = va / 4096 % 2 ^ 20 * 4096 := by
  have h1 := Nat.and_two_pow_sub_one_eq_mod (va >>> 12) 20
  have h2 : pageAddr va = ((va >>> 12) &&& (2 ^ 20 - 1)) <<< 12 := by
    apply Nat.eq_of_testBit_eq
    intro i
    simp only [pageAddr, Nat.testBit_and, Nat.testBit_shiftLeft, Nat.testBit_shiftRight,
      Nat.testBit_two_pow_sub_one]
    have hmask : Nat.testBit 0xFFFFF000 i = (decide (12 ≤ i) && decide (i - 12 < 20)) := by
      have : (0xFFFFF000 : Nat) = (2 ^ 20 - 1) <<< 12 := by decide
      rw [this, Nat.testBit_shiftLeft, Nat.testBit_two_pow_sub_one]
    rw [hmask]
    by_cases hi : 12 ≤ i
    · have : 12 + (i - 12) = i := by omega
      simp [hi, this]
    · simp [hi]
  rw [h2, h1, Nat.shiftLeft_eq, Nat.shiftRight_eq_div_pow]

/-- Clearing the offset keeps the page. -/
theorem pageOf_pageAddr (va : Nat) : pageOf (pageAddr va) = pageOf va := by
  rw [pageOf_eq_iff, pageAddr_eq, Nat.mul_div_cancel _ (by decide), Nat.mod_mod]

theorem pageAddr_mod (va : Nat) : pageAddr va % 4096 = 0 := by
  rw [pageAddr_eq]
  exact Nat.mul_mod_left _ _

/-- The physical address of a page that is there. -/
theorem getPhysicalAddr_of_mapped {k : Kernel} {pd va : Nat} {e : PageTableEntry}
    (h : k.mapped pd (pageOf va) = some e) :
    k.getPhysicalAddr pd va = e.frame.val * 4096 + va % 4096 := by
  rw [getPhysicalAddr_eq, h]

/-! ## Records -/

/-- A record `find_cow_page` returns was made for that address. -/
theorem findCowPage_spec {k : Kernel} {pa : Nat} {c : CowPage} (h : k.findCowPage pa = some c) :
    c ∈ k.cowPages ∧ c.physicalAddr = pa ∧ c.magic = cowMagic := by
  have hp := List.find?_some h
  simp only [CowPage.isFor, Bool.and_eq_true, beq_iff_eq] at hp
  exact ⟨List.mem_of_find?_eq_some h, hp.1, hp.2⟩

/-- Counting a sharer writes the records and asks the heap, nothing else. -/
theorem shareCow_frame (k : Kernel) (pa : Nat) :
    ∃ cs answers, (k.shareCow pa).2 = { k with cowPages := cs, kmallocs := answers } := by
  unfold shareCow allocCowPage kmalloc
  cases k.findCowPage pa with
  | some c => exact ⟨_, k.kmallocs, rfl⟩
  | none =>
      rcases hk : k.kmallocs with _ | ⟨b, bs⟩
      · exact ⟨_, k.kmallocs, rfl⟩
      · cases b with
        | false => exact ⟨k.cowPages, bs, rfl⟩
        | true => exact ⟨_, bs, rfl⟩

/-- `dec_cow_ref` on a record it finds: the last reference gives the frame
back, another one only lowers the count. -/
theorem decCowRef_of_find {k : Kernel} {pa : Nat} {c : CowPage} (h : k.findCowPage pa = some c) :
    k.decCowRef pa =
      if c.refCount - 1 = 0 then
        { k.freeFrame pa with cowPages := unlinkCow pa k.cowPages }
      else
        { k with cowPages :=
            modifyCow pa (fun c => { c with refCount := c.refCount - 1 }) k.cowPages } := by
  obtain ⟨_, hpa, _⟩ := findCowPage_spec h
  have hcow : (k.freeFrame pa).cowPages = k.cowPages :=
    congrArg Rest.cowPages (k.freeFrame_rest pa)
  unfold decCowRef
  simp only [h, hpa, hcow]

theorem decCowRef_frame (k : Kernel) (pa : Nat) :
    ∃ cs, k.decCowRef pa = { k with cowPages := cs } ∨
      k.decCowRef pa = { k.freeFrame pa with cowPages := cs } := by
  cases h : k.findCowPage pa with
  | none =>
      refine ⟨k.cowPages, Or.inl ?_⟩
      unfold decCowRef
      rw [h]
  | some c =>
      rw [decCowRef_of_find h]
      split
      · exact ⟨_, Or.inr rfl⟩
      · exact ⟨_, Or.inl rfl⟩

theorem mem_of_mem_unlinkCow {a : Nat} {c : CowPage} :
    ∀ {l : List CowPage}, c ∈ unlinkCow a l → c ∈ l
  | [], hc => hc
  | c₀ :: cs, hc => by
      unfold unlinkCow at hc
      split at hc
      · exact List.mem_cons_of_mem c₀ hc
      · rcases List.mem_cons.mp hc with rfl | hc
        · exact List.mem_cons_self
        · exact List.mem_cons_of_mem c₀ (mem_of_mem_unlinkCow hc)

theorem mem_modifyCow {a : Nat} {g : CowPage → CowPage} {c : CowPage} :
    ∀ {l : List CowPage}, c ∈ modifyCow a g l → c ∈ l ∨ ∃ c₀ ∈ l, c = g c₀
  | [], hc => absurd hc List.not_mem_nil
  | c₀ :: cs, hc => by
      unfold modifyCow at hc
      split at hc
      · rcases List.mem_cons.mp hc with rfl | hc
        · exact Or.inr ⟨c₀, List.mem_cons_self, rfl⟩
        · exact Or.inl (List.mem_cons_of_mem c₀ hc)
      · rcases List.mem_cons.mp hc with rfl | hc
        · exact Or.inl List.mem_cons_self
        · rcases mem_modifyCow hc with hc | ⟨c₁, hc₁, he⟩
          · exact Or.inl (List.mem_cons_of_mem c₀ hc)
          · exact Or.inr ⟨c₁, List.mem_cons_of_mem c₀ hc₁, he⟩

theorem findCowPage_eq_none {k : Kernel} {a : Nat} :
    k.findCowPage a = none ↔ ∀ c ∈ k.cowPages, CowPage.isFor c a = false := by
  unfold findCowPage
  rw [List.find?_eq_none]
  exact forall₂_congr fun _ _ => iff_of_eq (Bool.not_eq_true _)

/-- Dropping a reference makes no record. -/
theorem findCowPage_decCowRef {k : Kernel} {a : Nat} (h : k.findCowPage a = none) (pa : Nat) :
    (k.decCowRef pa).findCowPage a = none := by
  rw [findCowPage_eq_none] at h ⊢
  cases hf : k.findCowPage pa with
  | none =>
      unfold decCowRef
      rw [hf]
      exact h
  | some c =>
      rw [decCowRef_of_find hf]
      split
      · exact fun c hc => h c (mem_of_mem_unlinkCow hc)
      · intro c hc
        rcases mem_modifyCow hc with hc | ⟨c₀, hc₀, rfl⟩
        · exact h c hc
        · exact h c₀ hc₀

/-! ## Write faults -/

theorem grantWrite_of_mapped {k : Kernel} {pd va : Nat} {e : PageTableEntry}
    (h : k.mapped pd (pageOf va) = some e) :
    k.grantWrite pd va = (0, k.setWritable pd va true) := by
  obtain ⟨t, ht, _, _⟩ := pageTable_of_mapped h
  simp only [grantWrite, getPageTable_false, ht]

/-- Where the table is there `map_page` does not fail. -/
theorem mapPage_of_table {k : Kernel} {pd va : Nat} {t : PageTable}
    (h : (k.dir pd).pageTable (pdIndex va) = some t) (pa flags : Nat) :
    (k.mapPage pd va pa flags).1 = 0 := by
  rcases k.mapPage_cases pd va pa flags with ⟨hn, _⟩ | ⟨t', _, he⟩
  · rw [getPageTable_none hn] at h
    exact absurd h (by simp)
  · rw [he]

/-- `map_page(pd, va, …)` can have its page table. -/
def TableRoom (k : Kernel) (pd va : Nat) : Prop :=
  (k.dir pd).pageTable (pdIndex va) ≠ none ∨
    ((k.dir pd).tables (pdIndex va)).present = false ∧ k.allocFrame.1 ≠ 0 ∧
      k.allocFrame.2.kmalloc.1 = true

/-- `map_page` succeeds exactly when its table can be had. -/
theorem tableRoom_iff {k : Kernel} (pd va pa flags : Nat) :
    TableRoom k pd va ↔ (k.mapPage pd va pa flags).1 = 0 := by
  have hres : (k.mapPage pd va pa flags).1 = 0 ↔ (k.getPageTable pd va true).1 ≠ none := by
    rcases k.mapPage_cases pd va pa flags with ⟨hn, he⟩ | ⟨t, ht, he⟩
    · rw [he, hn]
      simp
    · rw [he, ht]
      simp
  rw [hres]
  rcases k.getPageTable_cases pd va with ⟨hp, he⟩ | ⟨hp, ha, he⟩ | ⟨hp, ha, hk, he⟩ | ⟨hp, ha, hk, he⟩
  · rw [he]
    simp [TableRoom, PageDirectory.pageTable, hp]
  · rw [he]
    simp [TableRoom, PageDirectory.pageTable, hp, ha]
  · rw [he]
    simp [TableRoom, PageDirectory.pageTable, hp, hk]
  · rw [he]
    simp [TableRoom, PageDirectory.pageTable, hp, ha, hk]

/-- `unmap_page` leaves the table. -/
theorem pageTable_unmapPage {k : Kernel} {pd va : Nat} {e : PageTableEntry}
    (h : k.mapped pd (pageOf va) = some e) :
    ∃ t, ((k.unmapPage pd va).dir pd).pageTable (pdIndex va) = some t := by
  rcases k.unmapPage_cases pd va with ⟨hn, _⟩ | ⟨e', _, he⟩
  · rw [h] at hn
    exact absurd hn (by simp)
  · obtain ⟨t, ht, _, _⟩ := pageTable_of_mapped h
    unfold PageDirectory.pageTable at ht
    split at ht
    · next hp =>
        rw [he]
        simp [setEntry, PageDirectory.pageTable, hp, ht, setDir]
    · exact absurd ht (by simp)

/-- The flags of the page a broken share gets. -/
def brokenFlags : Nat := pgPresent ||| pgWrite ||| pgUser

/-- The state after the copying branch of `break_cow`, for a page on frame
`f` and the frame at `new`. -/
def brokenShare (k : Kernel) (pd va old new : Nat) : Kernel :=
  ((((k.copyFrame new old).unmapPage pd va).mapPage pd va new brokenFlags).2).decCowRef old

/-- **The ways `handle_cow_fault` ends.**  It declines; or it makes the entry
writable where it is; or the frame is counted more than once and the page
moves to a frame of its own, if one is free. -/
theorem handleCowFault_cases (k : Kernel) (pd va errorCode : Nat) :
    (k.handleCowFault pd va errorCode = (-1, k)) ∨
    ∃ e, k.mapped pd (pageOf va) = some e ∧ e.frame.val ≠ 0 ∧ errorCode &&& 2 ≠ 0 ∧
      (((∀ c, k.findCowPage (e.frame.val * 4096) = some c → c.refCount ≤ 1) ∧
          k.handleCowFault pd va errorCode = (0, k.setWritable pd (pageAddr va) true)) ∨
        ∃ c, k.findCowPage (e.frame.val * 4096) = some c ∧ 1 < c.refCount ∧
          ((k.allocFrame.1 = 0 ∧ k.handleCowFault pd va errorCode = (-1, k.allocFrame.2)) ∨
           (k.allocFrame.1 ≠ 0 ∧ k.handleCowFault pd va errorCode =
              (0, k.allocFrame.2.brokenShare pd (pageAddr va) (e.frame.val * 4096)
                k.allocFrame.1)))) := by
  by_cases hw : errorCode &&& 2 = 0
  · exact Or.inl (by simp [handleCowFault, hw])
  by_cases hpa : k.getPhysicalAddr pd (pageAddr va) = 0
  · exact Or.inl (by simp [handleCowFault, hpa])
  obtain ⟨e, he, hpe⟩ := mapped_of_getPhysicalAddr hpa
  have he' := he
  rw [pageOf_pageAddr] at he'
  rw [pageAddr_mod, Nat.add_zero] at hpe
  have hz : e.frame.val ≠ 0 := by
    intro h0
    rw [hpe, h0] at hpa
    exact hpa (Nat.zero_mul _)
  have hz' : e.frame.val * 4096 ≠ 0 := hpe ▸ hpa
  refine Or.inr ⟨e, he', hz, hw, ?_⟩
  cases hf : k.findCowPage (e.frame.val * 4096) with
  | none =>
      refine Or.inl ⟨by simp, ?_⟩
      simp only [handleCowFault, hw, hpe, hz', hf, if_false]
      exact grantWrite_of_mapped he
  | some c =>
      by_cases hc : c.refCount ≤ 1
      · refine Or.inl ⟨?_, ?_⟩
        · intro c' h
          cases h
          exact hc
        · simp only [handleCowFault, hw, hpe, hz', hf, hc, if_false, if_true]
          exact grantWrite_of_mapped he
      · refine Or.inr ⟨c, rfl, by omega, ?_⟩
        have hc1 : c.refCount ≠ 1 := by omega
        by_cases ha : k.allocFrame.1 = 0
        · exact Or.inl ⟨ha, by simp [handleCowFault, breakCow, hw, hpe, hz, hf, hc, hc1, ha]⟩
        · refine Or.inr ⟨ha, ?_⟩
          -- the page was mapped, so its table is there and `map_page` succeeds
          have hm : ((k.allocFrame.2.copyFrame k.allocFrame.1 (e.frame.val * 4096))).mapped pd
              (pageOf (pageAddr va)) = some e := by
            rw [← he]
            exact mapped_congr (allocFrame_dir k) _ _
          obtain ⟨t, ht⟩ := pageTable_unmapPage hm
          have hres := mapPage_of_table ht k.allocFrame.1 (pgPresent ||| pgWrite ||| pgUser)
          simp [handleCowFault, breakCow, hw, hpe, hz, hf, hc, hc1, ha, hres, brokenShare,
            brokenFlags]

/-! ## Ranges -/

/-- Every page the loop comes to meets `ok`, in the state in which the loop
comes to it. -/
def LoopOk (body : Nat → Kernel → Option Int × Kernel) (ok : Nat → Kernel → Prop) (stop : Nat) :
    Nat → Nat → Kernel → Prop
  | 0, _, _ => True
  | fuel + 1, addr, k =>
      addr < stop → ok addr k ∧
        ((body addr k).1 = none →
          LoopOk body ok stop fuel ((addr + 4096) % 2 ^ 32) (body addr k).2)

/-- **The loop rule.**  What each admitted page preserves, the loop preserves. -/
theorem pageLoop_invariant {P : Kernel → Prop} {body : Nat → Kernel → Option Int × Kernel}
    {ok : Nat → Kernel → Prop} {stop : Nat} (hung : ∀ k, P k → P { k with hung := true })
    (hbody : ∀ addr k, P k → ok addr k → P (body addr k).2) :
    ∀ (fuel addr : Nat) (k : Kernel), LoopOk body ok stop fuel addr k → P k →
      P (pageLoop body stop fuel addr k).2
  | 0, _, k, _, hk => hung k hk
  | fuel + 1, addr, k, hok, hk => by
      unfold pageLoop
      by_cases hlt : addr < stop
      · obtain ⟨h1, h2⟩ := hok hlt
        have hk' := hbody addr k hk h1
        rw [if_pos hlt]
        rcases hb : body addr k with ⟨_ | r, k'⟩
        · rw [hb] at h2 hk'
          exact pageLoop_invariant hung hbody fuel _ k' (h2 rfl) hk'
        · rw [hb] at hk'
          exact hk'
      · rw [if_neg hlt]
        exact hk

theorem loopOk_trivial (body : Nat → Kernel → Option Int × Kernel) (stop : Nat) :
    ∀ (fuel addr : Nat) (k : Kernel), LoopOk body (fun _ _ => True) stop fuel addr k
  | 0, _, _ => True.intro
  | fuel + 1, _, _ => fun _ => ⟨True.intro, fun _ => loopOk_trivial body stop fuel _ _⟩

/-- The rule for a body that needs no condition. -/
theorem pageLoop_preserves {P : Kernel → Prop} {body : Nat → Kernel → Option Int × Kernel}
    {stop : Nat} (hung : ∀ k, P k → P { k with hung := true })
    (hbody : ∀ addr k, P k → P (body addr k).2) (fuel addr : Nat) (k : Kernel) (hk : P k) :
    P (pageLoop body stop fuel addr k).2 :=
  pageLoop_invariant hung (fun addr k hk _ => hbody addr k hk) fuel addr k
    (loopOk_trivial body stop fuel addr k) hk

/-- The flags a page is passed on with: never `PG_WRITE`. -/
def passedFlags (e : PageTableEntry) : Nat :=
  (if e.present then pgPresent else 0) ||| (if e.user then pgUser else 0)

/-- The entry the destination gets. -/
theorem newEntry_passedFlags {e : PageTableEntry} (hp : e.present = true) (va : Nat) :
    newEntry (e.frame.val * 4096 + va % 4096) (passedFlags e) = { e with writable := false } := by
  obtain ⟨present, writable, user, frame⟩ := e
  simp only at hp
  subst hp
  simp only [newEntry, frameOf_physical, passedFlags, if_true]
  cases user <;> simp [pgPresent, pgWrite, pgUser]

/-- Write-protecting and counting the source page, when it is writable. -/
def protectPage (k : Kernel) (src addr : Nat) (e : PageTableEntry) (pa : Nat) : Bool × Kernel :=
  if e.writable then (k.setWritable src addr false).shareCow pa else (true, k)

/-- **The ways one page of `cow_copy_page_range` ends.** -/
theorem copyPage_cases (k : Kernel) (dst src addr : Nat) :
    (k.getPhysicalAddr src addr = 0 ∧ copyPage dst src addr k = (none, k)) ∨
    ∃ e pa, k.mapped src (pageOf addr) = some e ∧ pa = e.frame.val * 4096 + addr % 4096 ∧
      pa ≠ 0 ∧
      (((k.protectPage src addr e pa).1 = false ∧
          copyPage dst src addr k = (some (-1), (k.protectPage src addr e pa).2)) ∨
       ((k.protectPage src addr e pa).1 = true ∧
          ((k.protectPage src addr e pa).2.mapPage dst addr pa (passedFlags e)).1 ≠ 0 ∧
          copyPage dst src addr k =
            (some ((k.protectPage src addr e pa).2.mapPage dst addr pa (passedFlags e)).1,
              ((k.protectPage src addr e pa).2.mapPage dst addr pa (passedFlags e)).2)) ∨
       ((k.protectPage src addr e pa).1 = true ∧
          ((k.protectPage src addr e pa).2.mapPage dst addr pa (passedFlags e)).1 = 0 ∧
          copyPage dst src addr k =
            (none, ((k.protectPage src addr e pa).2.mapPage dst addr pa (passedFlags e)).2))) := by
  by_cases hpa : k.getPhysicalAddr src addr = 0
  · exact Or.inl ⟨hpa, by simp [copyPage, hpa]⟩
  obtain ⟨e, he, hpe⟩ := mapped_of_getPhysicalAddr hpa
  obtain ⟨t, ht, hte, hp⟩ := pageTable_of_mapped he
  refine Or.inr ⟨e, k.getPhysicalAddr src addr, he, hpe, hpa, ?_⟩
  generalize hq : k.protectPage src addr e (k.getPhysicalAddr src addr) = q
  have hcp : copyPage dst src addr k =
      (if q.1 = false then (some (-1), q.2)
       else
        if (q.2.mapPage dst addr (k.getPhysicalAddr src addr) (passedFlags e)).1 = 0 then
          (none, (q.2.mapPage dst addr (k.getPhysicalAddr src addr) (passedFlags e)).2)
        else
          (some (q.2.mapPage dst addr (k.getPhysicalAddr src addr) (passedFlags e)).1,
            (q.2.mapPage dst addr (k.getPhysicalAddr src addr) (passedFlags e)).2)) := by
    rw [← hq]
    simp only [copyPage, hpa, getPageTable_false, ht, hte, hp, if_false, if_true, protectPage,
      passedFlags, Bool.true_eq_false]
  rw [hcp]
  cases hq1 : q.1 with
  | false => exact Or.inl ⟨rfl, by simp⟩
  | true =>
      refine Or.inr ?_
      by_cases hr : (q.2.mapPage dst addr (k.getPhysicalAddr src addr) (passedFlags e)).1 = 0
      · exact Or.inr ⟨rfl, hr, by simp [hr]⟩
      · exact Or.inl ⟨rfl, hr, by simp [hr]⟩

/-- A protected page is read-only, every other page is as it was. -/
theorem protectPage_mapped {k : Kernel} {src addr : Nat} {e : PageTableEntry}
    (h : k.mapped src (pageOf addr) = some e) (pa pd : Nat) (q : PageNo) :
    (k.protectPage src addr e pa).2.mapped pd q =
      if pd = src ∧ q = pageOf addr then some { e with writable := false }
      else k.mapped pd q := by
  unfold protectPage
  cases hw : e.writable with
  | true =>
      obtain ⟨cs, answers, hs⟩ := (k.setWritable src addr false).shareCow_frame pa
      simp only [if_true, hs]
      exact setWritable_mapped h false pd q
  | false =>
      simp only [Bool.false_eq_true, if_false]
      split
      · next hq => rw [hq.1, hq.2, h, ← hw]
      · rfl

theorem protectPage_frameAt {k : Kernel} {src addr : Nat} {e : PageTableEntry}
    (h : k.mapped src (pageOf addr) = some e) (pa pd : Nat) (q : PageNo) :
    (k.protectPage src addr e pa).2.frameAt pd q = k.frameAt pd q := by
  unfold frameAt
  rw [protectPage_mapped h]
  split
  · next hq =>
      rw [hq.1, hq.2, h]
      rfl
  · rfl

/-- **The ways one page of `cow_free_page_range` ends.** -/
theorem freePage_cases (k : Kernel) (pd addr : Nat) :
    freePage pd addr k = (none, k) ∨
    ∃ e, k.mapped pd (pageOf addr) = some e ∧ e.frame.val * 4096 + addr % 4096 ≠ 0 ∧
      freePage pd addr k =
        (none, (k.decCowRef (e.frame.val * 4096 + addr % 4096)).unmapPage pd addr) := by
  by_cases hpa : k.getPhysicalAddr pd addr = 0
  · exact Or.inl (by simp [freePage, hpa])
  obtain ⟨e, he, hpe⟩ := mapped_of_getPhysicalAddr hpa
  refine Or.inr ⟨e, he, hpe ▸ hpa, ?_⟩
  rw [← hpe]
  cases hf : k.findCowPage (k.getPhysicalAddr pd addr) with
  | none =>
      have hd : k.decCowRef (k.getPhysicalAddr pd addr) = k := by
        unfold decCowRef
        rw [hf]
      simp only [freePage, hpa, hf, hd, if_false]
  | some c => simp only [freePage, hpa, hf, if_false]

/-- **The ways one page of `map_pages` ends.** -/
theorem mapFreshPage_cases (k : Kernel) (pd flags addr : Nat) :
    (k.allocFrame.1 = 0 ∧ mapFreshPage pd flags addr k = (some (-1), k.allocFrame.2)) ∨
    (k.allocFrame.1 ≠ 0 ∧ (k.allocFrame.2.mapPage pd addr k.allocFrame.1 flags).1 = 0 ∧
      mapFreshPage pd flags addr k =
        (none, (k.allocFrame.2.mapPage pd addr k.allocFrame.1 flags).2)) ∨
    (k.allocFrame.1 ≠ 0 ∧ (k.allocFrame.2.mapPage pd addr k.allocFrame.1 flags).1 ≠ 0 ∧
      mapFreshPage pd flags addr k =
        (some (k.allocFrame.2.mapPage pd addr k.allocFrame.1 flags).1,
          (k.allocFrame.2.mapPage pd addr k.allocFrame.1 flags).2.freeFrame
            k.allocFrame.1)) := by
  by_cases ha : k.allocFrame.1 = 0
  · exact Or.inl ⟨ha, by simp [mapFreshPage, ha]⟩
  refine Or.inr ?_
  by_cases hr : (k.allocFrame.2.mapPage pd addr k.allocFrame.1 flags).1 = 0
  · exact Or.inl ⟨ha, hr, by simp [mapFreshPage, ha, hr]⟩
  · exact Or.inr ⟨ha, hr, by simp [mapFreshPage, ha, hr]⟩

/-! ## What stays -/

/-- The frame the directory itself lies in, as an address. -/
abbrev own (k : Kernel) (pd : Nat) : Nat := (k.dir pd).physicalAddress

/-- Which directories there are, the frames they lie in, and the mapping
records: what no function of `cow.cc` and no page-table function writes. -/
structure Owners where
  live : Finset Nat
  own : Nat → Nat
  cowMappings : List CowMapping

def owners (k : Kernel) : Owners := ⟨k.live, k.own, k.cowMappings⟩

theorem owners_of_rest {k k' : Kernel} (h : k'.rest = k.rest) : k'.owners = k.owners := by
  have h1 := congrArg Rest.live h
  have h2 := congrArg Rest.physicalAddress h
  have h3 := congrArg Rest.cowMappings h
  simp only [rest] at h1 h2 h3
  simp only [owners, Owners.mk.injEq]
  exact ⟨h1, h2, h3⟩

section
variable {k k' : Kernel}

/-- `live` is only changed by creating and destroying directories. -/
theorem live_of_rest (h : k'.rest = k.rest) : k'.live = k.live := congrArg Rest.live h

theorem protectPage_owners {src addr : Nat} (e : PageTableEntry) (pa : Nat) :
    (k.protectPage src addr e pa).2.owners = k.owners := by
  unfold protectPage
  split
  · obtain ⟨cs, answers, hs⟩ := (k.setWritable src addr false).shareCow_frame pa
    rw [hs]
    show (k.setWritable src addr false).owners = k.owners
    exact owners_of_rest (k.setWritable_rest src addr false)
  · rfl

theorem protectPage_frameBitmap {src addr : Nat} (e : PageTableEntry) (pa : Nat) :
    (k.protectPage src addr e pa).2.frameBitmap = k.frameBitmap := by
  unfold protectPage
  split
  · obtain ⟨cs, answers, hs⟩ := (k.setWritable src addr false).shareCow_frame pa
    rw [hs]
    exact k.setWritable_frameBitmap src addr false
  · rfl

theorem copyPage_live (dst src addr : Nat) : (copyPage dst src addr k).2.live = k.live := by
  rcases k.copyPage_cases dst src addr with ⟨_, he⟩ | ⟨e, pa, _, _, _, hcases⟩
  · rw [he]
  have hp : (k.protectPage src addr e pa).2.live = k.live :=
    congrArg Owners.live (protectPage_owners e pa)
  have hmap := live_of_rest
    ((k.protectPage src addr e pa).2.mapPage_rest dst addr pa (passedFlags e))
  rcases hcases with ⟨_, he⟩ | ⟨_, _, he⟩ | ⟨_, _, he⟩
  · rw [he, hp]
  · rw [he, hmap, hp]
  · rw [he, hmap, hp]

/-- Dropping a reference changes the bit of that frame and the records. -/
theorem decCowRef_owners (pa : Nat) : (k.decCowRef pa).owners = k.owners := by
  obtain ⟨cs, he | he⟩ := k.decCowRef_frame pa
  · rw [he]
    rfl
  · rw [he]
    show (k.freeFrame pa).owners = k.owners
    exact owners_of_rest (k.freeFrame_rest pa)

theorem decCowRef_dir (pa : Nat) : (k.decCowRef pa).dir = k.dir := by
  obtain ⟨cs, he | he⟩ := k.decCowRef_frame pa
  · rw [he]
  · rw [he]
    exact k.freeFrame_dir pa

theorem freePage_live (pd addr : Nat) : (freePage pd addr k).2.live = k.live := by
  rcases k.freePage_cases pd addr with he | ⟨e, _, _, he⟩
  · rw [he]
  · rw [he]
    show ((k.decCowRef _).unmapPage pd addr).live = k.live
    rw [live_of_rest (unmapPage_rest _ pd addr)]
    exact congrArg Owners.live (decCowRef_owners _)

theorem brokenShare_owners (pd va old new : Nat) :
    (k.brokenShare pd va old new).owners = k.owners := by
  unfold brokenShare
  rw [decCowRef_owners, owners_of_rest (mapPage_rest _ _ _ _ _),
    owners_of_rest (unmapPage_rest _ _ _)]
  rfl

/-- After a share is broken the page is writable on the new frame, and every
other page is as it was. -/
theorem brokenShare_mapped {pd va : Nat} {e : PageTableEntry}
    (h : k.mapped pd (pageOf va) = some e) (old new pd' : Nat) (q : PageNo) :
    (k.brokenShare pd va old new).mapped pd' q =
      if pd' = pd ∧ q = pageOf va then some (newEntry new brokenFlags)
      else k.mapped pd' q := by
  have hm : (k.copyFrame new old).mapped pd (pageOf va) = some e := h
  obtain ⟨t, ht⟩ := pageTable_unmapPage hm
  have hres := mapPage_of_table ht new brokenFlags
  unfold brokenShare
  rw [mapped_congr (decCowRef_dir old), mapPage_mapped hres, unmapPage_mapped]
  split
  · rfl
  · rfl

end

/-! ## Teardown -/

/-- With no mapping records, `cleanup_process_cow` does nothing. -/
theorem cleanupProcessCow_nil {k : Kernel} (h : k.cowMappings = []) (pd : Nat) :
    k.cleanupProcessCow pd = k := by
  unfold cleanupProcessCow
  simp only [h, List.filter_nil, List.foldl_nil]
  rw [← h]

theorem teardown_nil {k : Kernel} (h : k.cowMappings = []) (pd : Nat) :
    k.teardown pd = k.destroyPageDirectory pd := by
  unfold teardown
  rw [cleanupProcessCow_nil h]

/-- **The two ways `create_page_directory` ends.** -/
theorem createPageDirectory_cases (k : Kernel) (pd : Nat) :
    (k.createPageDirectory pd = (false, k.kmalloc.2)) ∨
    k.createPageDirectory pd = (true, { k.kmalloc.2.allocFrame.2 with
      live := insert pd k.live
      dir := Function.update k.dir pd (emptyDirectory k.kmalloc.2.allocFrame.1) }) := by
  have hl : k.kmalloc.2.allocFrame.2.live = k.live := by
    have h := k.kmalloc.2.allocFrame_rest.trans k.kmalloc_rest
    exact congrArg Rest.live h
  have hd : k.kmalloc.2.allocFrame.2.dir = k.dir := by simp
  unfold createPageDirectory
  rcases hk : k.kmalloc with ⟨_ | _, k₁⟩
  · exact Or.inl rfl
  · rw [hk] at hl hd
    simp only at hl hd
    exact Or.inr (by simp only [hl, hd])

/-- Creating a directory moves no page; a directory that is created has none. -/
theorem createPageDirectory_view (k : Kernel) (pd : Nat) :
    ((k.createPageDirectory pd).2.live = k.live ∧
      ∀ pd' q, (k.createPageDirectory pd).2.mapped pd' q = k.mapped pd' q) ∨
    ((k.createPageDirectory pd).2.live = insert pd k.live ∧
      ∀ pd' q, (k.createPageDirectory pd).2.mapped pd' q =
        if pd' = pd then none else k.mapped pd' q) := by
  rcases k.createPageDirectory_cases pd with he | he
  · rw [he]
    exact Or.inl ⟨live_of_rest k.kmalloc_rest, mapped_congr k.kmalloc_dir⟩
  · rw [he]
    refine Or.inr ⟨rfl, ?_⟩
    intro pd' q
    simp only [mapped]
    by_cases hp : pd' = pd
    · simp [hp]
    · simp [hp]

theorem createPageDirectory_cow (k : Kernel) (pd : Nat) :
    (k.createPageDirectory pd).2.cowPages = k.cowPages ∧
      (k.createPageDirectory pd).2.cowMappings = k.cowMappings := by
  have hr := k.kmalloc.2.allocFrame_rest.trans k.kmalloc_rest
  rcases k.createPageDirectory_cases pd with he | he
  · rw [he]
    exact ⟨congrArg Rest.cowPages k.kmalloc_rest, congrArg Rest.cowMappings k.kmalloc_rest⟩
  · rw [he]
    exact ⟨congrArg Rest.cowPages hr, congrArg Rest.cowMappings hr⟩

end Kernel

open Kernel

/-! ## A process with one page, and its child

The results on copy-on-write are tried on them. -/

/-- One process with one writable page, at `USER_OFFSET`. -/
def oneProcess : Kernel := (mapFreshPage 1 7 userOffset (boot.createPageDirectory 1).2).2

/-- Every page any directory maps is page `p`. -/
def OnlyPage (p : PageNo) (k : Kernel) : Prop :=
  ∀ pd ∈ k.live, ∀ q e, k.mapped pd q = some e → q = p

theorem onlyPage_create {k : Kernel} {p : PageNo} (h : OnlyPage p k) (pd : Nat) :
    OnlyPage p (k.createPageDirectory pd).2 := by
  rcases k.createPageDirectory_view pd with ⟨hl, hm⟩ | ⟨hl, hm⟩
  · intro pd' hpd' q e he
    rw [hl] at hpd'
    rw [hm] at he
    exact h pd' hpd' q e he
  · intro pd' hpd' q e he
    rw [hl] at hpd'
    rw [hm] at he
    split at he
    · exact absurd he (by simp)
    · next hne => exact h pd' ((Finset.mem_insert.mp hpd').resolve_left hne) q e he

theorem onlyPage_mapPage {k : Kernel} {va : Nat} (h : OnlyPage (pageOf va) k) (pd pa flags : Nat) :
    OnlyPage (pageOf va) (k.mapPage pd va pa flags).2 := by
  intro pd' hpd' q e hm
  rcases mapped_mapPage hm with ⟨_, hq, _⟩ | hold
  · exact hq
  · exact h pd' (live_of_rest (k.mapPage_rest pd va pa flags) ▸ hpd') q e hold

theorem oneProcess_onlyPage : OnlyPage (pageOf userOffset) oneProcess := by
  have hb : OnlyPage (pageOf userOffset) boot := fun pd hpd => absurd hpd (Finset.notMem_empty pd)
  have hc := onlyPage_create hb 1
  have ha : OnlyPage (pageOf userOffset) (boot.createPageDirectory 1).2.allocFrame.2 := by
    intro pd hpd q e hm
    rw [mapped_congr (allocFrame_dir _)] at hm
    exact hc pd (live_of_rest (allocFrame_rest _) ▸ hpd) q e hm
  unfold oneProcess
  rcases (boot.createPageDirectory 1).2.mapFreshPage_cases 1 7 userOffset with
    ⟨_, he⟩ | ⟨_, _, he⟩ | ⟨_, hr, _⟩
  · rw [he]
    exact ha
  · rw [he]
    exact onlyPage_mapPage ha _ _ _
  · exact absurd (show _ = (0 : Int) by decide +kernel) hr

/-- Frame 257, read-only. -/
def sharedEntry : PageTableEntry :=
  { present := true, writable := false, user := true, frame := ⟨257, by decide⟩ }

/-- The fork of `oneProcess`, first half and second half. -/
def childCreated : Kernel := CowCall.exec (oneProcess.withAnswers []) (.create 2)

def childForked : Kernel :=
  CowCall.exec (childCreated.withAnswers []) (.copy 2 1 userOffset (userOffset + 4096) 2)

theorem childCreated_onlyPage : OnlyPage (pageOf userOffset) childCreated :=
  onlyPage_create (k := oneProcess.withAnswers []) oneProcess_onlyPage 2

end KmOS
