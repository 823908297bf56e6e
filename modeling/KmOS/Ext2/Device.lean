/-
# `KmOS.Ext2.Device` — what a device answers to the functions of a mount

`Answers m disk cap good` says what a mount may expect of its surroundings.
`disk` is what the device holds, as far as `cap`.  `good as v` means that in `v`
there is memory for all requests to come, and that the reads to come end as `as`
says, `true` for success, and succeed from there on; so `good []` is a healthy
device.  A read that succeeds brings what the device holds.

A driver that moves whole blocks of a flat array is healthy if the heap has
memory (`answers_flat`).
-/
import KmOS.Block.FlatArray
import KmOS.Ext2.Mount

namespace KmOS

/-! ## Memory -/

/-- What `kmalloc` has memory for is neither nothing nor too much. -/
theorem Heap.kmalloc_bound {h h' : Heap} {size : Nat} {block : Buffer}
    (hk : h.kmalloc size = (some block, h')) : 0 < size ∧ size < 0x40000000 := by
  have hanswer : h.answer 0 size = some block := congrArg Prod.fst hk
  constructor
  · by_contra h0
    obtain rfl : size = 0 := Nat.eq_zero_of_not_pos h0
    rw [h.zero] at hanswer
    exact nomatch hanswer
  · by_contra hge
    rw [h.limit 0 size (Nat.le_of_not_lt hge)] at hanswer
    exact nomatch hanswer

/-- A heap with memory for every request that it may have any for. -/
def Heap.Rich (h : Heap) : Prop :=
  ∀ n size, 0 < size → size < 0x40000000 → (h.answer n size).isSome

theorem Heap.Rich.kmalloc {h : Heap} (hr : h.Rich) {size : Nat} (h0 : 0 < size)
    (hlt : size < 0x40000000) : ∃ block heap, h.kmalloc size = (some block, heap) ∧ heap.Rich := by
  obtain ⟨block, hb⟩ := Option.isSome_iff_exists.mp (hr 0 size h0 hlt)
  exact ⟨block, _, congrArg (·, _) hb, fun n => hr (n + 1)⟩

def richHeap : Heap where
  answer _ size := if 0 < size ∧ size < 0x40000000 then some fun _ => 0 else none
  zero _ := if_neg (fun h => absurd h.1 (Nat.lt_irrefl 0))
  limit _ _ h := if_neg (fun h' => absurd h'.2 (Nat.not_lt.mpr h))

theorem richHeap_rich : richHeap.Rich := by
  intro n size h0 hlt
  show (if 0 < size ∧ size < 0x40000000 then some fun _ => 0 else none).isSome = true
  rw [if_pos ⟨h0, hlt⟩]
  rfl

namespace Ext2Mount

variable {σ : Type}

structure Answers (m : Ext2Mount σ) (disk : Buffer) (cap : Nat)
    (good : List Bool → Volume σ → Prop) : Prop where
  memory : ∀ {as v size}, good as v → size = m.blockSize ∨ size = m.inodeSize →
    ∃ block heap, v.heap.kmalloc size = (some block, heap) ∧ good as { v with heap := heap }
  read : ∀ {as v pos size} (buffer : Buffer), good as v → pos < 2 ^ 32 → 0 < size →
    size < 2 ^ 32 → pos + size ≤ cap →
    ∃ code buffer' v', m.deviceRead v pos buffer size = (code, buffer', v') ∧
      (code = .ok ↔ as.headD true = true) ∧ (code = .ok → ∀ i < size, buffer' i = disk (pos + i)) ∧
      good as.tail v'

variable {m : Ext2Mount σ} {disk : Buffer} {cap : Nat} {good : List Bool → Volume σ → Prop}
  {as : List Bool} {v : Volume σ}

theorem Answers.blockSize_bound (h : m.Answers disk cap good) (hv : good as v) :
    0 < m.blockSize ∧ m.blockSize < 0x40000000 := by
  obtain ⟨_, _, hk, _⟩ := h.memory hv (Or.inl rfl)
  exact Heap.kmalloc_bound hk

theorem Answers.inodeSize_bound (h : m.Answers disk cap good) (hv : good as v) :
    0 < m.inodeSize ∧ m.inodeSize < 0x40000000 := by
  obtain ⟨_, _, hk, _⟩ := h.memory hv (Or.inr rfl)
  exact Heap.kmalloc_bound hk

/-! ## Flat devices -/

/-- `device_->read` on a flat device, with memory. -/
theorem deviceRead_flat {n : Nat} {bytes : σ → Nat → UInt8}
    (hd : FlatDevice m.driver m.deviceBlockSize n bytes) (hdbs : 2 ≤ m.deviceBlockSize)
    (hdbs' : m.deviceBlockSize < 0x40000000) (hr : v.heap.Rich) {pos size : Nat} (buffer : Buffer)
    (hpos : pos < 2 ^ 32) (h0 : 0 < size) (hsize : size < 2 ^ 32) :
    ∃ code buffer' v', m.deviceRead v pos buffer size = (code, buffer', v') ∧
      (code = .ok ↔ pos + size ≤ n * m.deviceBlockSize) ∧
      (code = .ok → ∀ i, buffer' i = if i < size then bytes v.device (pos + i) else buffer i) ∧
      bytes v'.device = bytes v.device ∧ v'.heap.Rich := by
  have heap : ∃ temp heap, (if BlockDriver.tempBlockSize < m.deviceBlockSize then
        v.heap.kmalloc m.deviceBlockSize else (none, v.heap)) = (temp, heap) ∧ heap.Rich ∧
      ∀ t, m.driver.read m.deviceBlockSize temp v.stack v.device pos (some buffer) size =
        m.driver.read m.deviceBlockSize (some (temp.getD t)) v.stack v.device pos (some buffer) size := by
    by_cases hb : BlockDriver.tempBlockSize < m.deviceBlockSize
    · obtain ⟨block, heap, hk, hr'⟩ := hr.kmalloc (by omega) hdbs'
      exact ⟨some block, heap, by rw [if_pos hb, hk], hr', fun _ => rfl⟩
    · refine ⟨none, v.heap, if_neg hb, hr, fun t => ?_⟩
      unfold BlockDriver.read
      dsimp only
      rw [if_neg hb, if_neg hb]
  obtain ⟨temp, heap', hk, hr', hread⟩ := heap
  obtain ⟨code, b', s', he, hcode, hbytes, hkeep⟩ :=
    read_flat hd hdbs hpos h0 hsize (temp.getD fun _ => 0) v.stack buffer v.device
  refine ⟨code, b', { v with device := s', heap := heap' }, ?_, hcode, hbytes, hkeep, hr'⟩
  unfold deviceRead
  rw [hk]
  dsimp only
  rw [hread fun _ => 0, he]
  rfl

/-- **A flat device is healthy.** -/
theorem answers_flat {n : Nat} {bytes : σ → Nat → UInt8}
    (hd : FlatDevice m.driver m.deviceBlockSize n bytes) (hdbs : 2 ≤ m.deviceBlockSize)
    (hdbs' : m.deviceBlockSize < 0x40000000) (hbs : 0 < m.blockSize ∧ m.blockSize < 0x40000000)
    (his : 0 < m.inodeSize ∧ m.inodeSize < 0x40000000) (disk : Buffer) :
    m.Answers disk (n * m.deviceBlockSize)
      (fun as v => as = [] ∧ bytes v.device = disk ∧ v.heap.Rich) where
  memory := by
    rintro as v size ⟨rfl, hb, hr⟩ hsize
    obtain ⟨h0, hlt⟩ : 0 < size ∧ size < 0x40000000 := by
      rcases hsize with rfl | rfl
      · exact hbs
      · exact his
    obtain ⟨block, heap, hk, hr'⟩ := hr.kmalloc h0 hlt
    exact ⟨block, heap, hk, rfl, hb, hr'⟩
  read := by
    rintro as v pos size buffer ⟨rfl, hb, hr⟩ hpos h0 hsize hcap
    obtain ⟨code, buffer', v', he, hcode, hbytes, hkeep, hr'⟩ :=
      deviceRead_flat hd hdbs hdbs' hr buffer hpos h0 hsize
    refine ⟨code, buffer', v', he, iff_of_true (hcode.mpr hcap) rfl, fun hok i hi => ?_, rfl,
      hkeep.trans hb, hr'⟩
    rw [hbytes hok i, if_pos hi, hb]

end Ext2Mount

end KmOS
