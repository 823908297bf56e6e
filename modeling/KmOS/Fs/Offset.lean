/-
# `KmOS.Fs.Offset` — how far a read or a write moves the offset

The calls add what the virtual function returns to the offset, whatever it is.
So they obey the law of file offsets exactly where the returned number is the
count of the bytes moved: never for a plain file and a block device, which
return codes, for a variable that has a value and memory for it, as far as the
255 bytes of `strncpy` reach, and always when an ext2 file is read.
-/
import Mathlib.Data.List.TakeWhile
import KmOS.Fs.Descriptor

namespace KmOS

variable {σ : Type}

/-! ## The law -/

/-- **The law**: the offset stays after an error, and else advances by the bytes
moved. -/
def Transfer.Advances (t : Transfer σ) (ptr ptr' : UInt32) : Prop :=
  ptr' = if t.reply.isError = true then ptr else ptr + UInt32.ofNat t.moved

/-- The number returned is the count of the bytes moved, or 0 for an error. -/
def Transfer.Counted (t : Transfer σ) : Prop :=
  t.reply.toUInt32 = if t.reply.isError = true then 0 else UInt32.ofNat t.moved

theorem Transfer.advances_iff (t : Transfer σ) (ptr : UInt32) :
    t.Advances ptr (ptr + t.reply.toUInt32) ↔ t.Counted := by
  unfold Transfer.Advances Transfer.Counted
  cases t.reply.isError with
  | true => simp
  | false => simp

/-- A call through the descriptor `fd` obeys the law, if it returns. -/
def ObeysOffsetLaw
    (op : FileObject σ → UInt32 → Option Buffer → UInt32 → Option (Transfer σ))
    (s : Descriptors σ) (openfp : UInt32 → OpenFile) (fd : UInt32) (buf : Option Buffer)
    (size : UInt32) : Prop :=
  ∀ t ret buf' s', op (s.object (getFile openfp fd)) (openfp fd).ptr buf size = some t →
    s.call op fd buf size = some (ret, buf', s') →
    ∃ openfp', s'.openfp = some openfp' ∧ t.Advances (openfp fd).ptr (openfp' fd).ptr

theorem obeysOffsetLaw_iff
    {op : FileObject σ → UInt32 → Option Buffer → UInt32 → Option (Transfer σ)}
    {s : Descriptors σ} {openfp : UInt32 → OpenFile} {fd : UInt32} (hs : s.openfp = some openfp)
    (hfd : getFile openfp fd ≠ 0) (buf : Option Buffer) (size : UInt32) :
    ObeysOffsetLaw op s openfp fd buf size ↔
      ∀ t, op (s.object (getFile openfp fd)) (openfp fd).ptr buf size = some t → t.Counted := by
  have hcall : ∀ t, op (s.object (getFile openfp fd)) (openfp fd).ptr buf size = some t →
      s.call op fd buf size = some (t.reply.toUInt32, t.buffer,
        { openfp := some (Function.update openfp fd
            { openfp fd with ptr := (openfp fd).ptr + t.reply.toUInt32 })
          object := Function.update s.object (getFile openfp fd) t.object }) := by
    intro t ht
    unfold Descriptors.call
    rw [hs]
    dsimp only
    rw [if_neg hfd, ht]
  constructor
  · intro h t ht
    obtain ⟨openfp', ho, hadv⟩ := h t _ _ _ ht (hcall t ht)
    obtain rfl := Option.some.inj ho
    rw [Function.update_self] at hadv
    exact (t.advances_iff _).mp hadv
  · intro h t ret buf' s' ht hs'
    rw [hcall t ht] at hs'
    obtain ⟨rfl, rfl, rfl⟩ : _ ∧ _ ∧ _ := by simpa using hs'
    refine ⟨_, rfl, ?_⟩
    rw [Function.update_self]
    exact (t.advances_iff _).mpr (h t ht)

/-- A code is no count: `RETURN_OK` is 0, and comes back when there were bytes to
move; the others are not 0. -/
theorem not_counted_code {t : Transfer σ} {c : ReturnCode} {size : UInt32} (hc : t.reply = .code c)
    (hok : t.reply = .code .ok → 0 < size.toNat ∧ t.moved = size.toNat) : ¬ t.Counted := by
  intro h
  unfold Transfer.Counted at h
  rw [hc] at h hok
  cases c with
  | ok =>
      obtain ⟨hpos, hmoved⟩ := hok rfl
      have h' : (0 : UInt32) = UInt32.ofNat t.moved := h
      have hn := congrArg UInt32.toNat h'
      rw [UInt32.toNat_ofNat', hmoved, Nat.mod_eq_of_lt size.toNat_lt] at hn
      exact Nat.ne_of_lt hpos hn
  | errorMemory => exact absurd (show (0xFFFFFFFE : UInt32) = 0 from h) (by decide)
  | errorParam => exact absurd (show (0xFFFFFFFC : UInt32) = 0 from h) (by decide)
  | failure => exact absurd (show (0xFFFFFF80 : UInt32) = 0 from h) (by decide)

theorem not_counted_notDefined {moved : Nat} {buffer : Option Buffer} {o : FileObject σ} :
    ¬ (Transfer.mk .notDefined moved buffer o).Counted := by
  intro h
  exact absurd (show (0xFFFFFFFF : UInt32) = 0 from h) (by decide)

/-! ## Block devices -/

namespace BlockDriver

variable {drv : BlockDriver σ} {blockSize offset : Nat} {p : Request σ}

theorem advance_moved {n : Nat} (h : n ≤ p.total) : (p.advance n).moved = p.moved := by
  unfold Request.moved Request.advance
  dsimp only
  omega

theorem headChunk_le (total : Nat) : headChunk blockSize offset total ≤ total := by
  unfold headChunk
  dsimp only
  split <;> omega

theorem readHead_moved (h : (drv.readHead blockSize offset p).1 = .ok) :
    (drv.readHead blockSize offset p).2.moved = p.moved := by
  unfold readHead at h ⊢
  split at h
  · next ho => rw [if_pos ho]
  · next ho =>
      rw [if_neg ho]
      dsimp only at h ⊢
      split at h
      · exact nomatch h
      · next hc =>
          rw [if_neg hc]
          exact advance_moved (headChunk_le _)

theorem readWhole_moved {fuel : Nat} (h : (drv.readWhole blockSize fuel p).1 = .ok) :
    (drv.readWhole blockSize fuel p).2.moved = p.moved := by
  induction fuel generalizing p with
  | zero => rfl
  | succ fuel ih =>
      unfold readWhole at h ⊢
      split at h
      · next hle =>
          rw [if_pos hle]
          dsimp only at h ⊢
          split at h
          · exact nomatch h
          · next hc =>
              rw [if_neg hc]
              exact (ih h).trans (advance_moved hle)
      · next hle => rw [if_neg hle]

theorem readTail_moved (h : (drv.readTail p).1 = .ok) : (drv.readTail p).2.moved = p.moved := by
  unfold readTail at h ⊢
  split at h
  · next ht => rw [if_pos ht]
  · next ht =>
      rw [if_neg ht]
      dsimp only at h ⊢
      split at h
      · exact nomatch h
      · next hc =>
          rw [if_neg hc]
          rfl

theorem writeHead_moved (h : (drv.writeHead blockSize offset p).1 = .ok) :
    (drv.writeHead blockSize offset p).2.moved = p.moved := by
  unfold writeHead at h ⊢
  split at h
  · next ho => rw [if_pos ho]
  · next ho =>
      rw [if_neg ho]
      dsimp only at h ⊢
      split at h
      · exact nomatch h
      · next hr =>
          rw [if_neg hr]
          split at h
          · exact nomatch h
          · next hw =>
              rw [if_neg hw]
              exact advance_moved (headChunk_le _)

theorem writeWhole_moved {fuel : Nat} (h : (drv.writeWhole blockSize fuel p).1 = .ok) :
    (drv.writeWhole blockSize fuel p).2.moved = p.moved := by
  induction fuel generalizing p with
  | zero => rfl
  | succ fuel ih =>
      unfold writeWhole at h ⊢
      split at h
      · next hle =>
          rw [if_pos hle]
          dsimp only at h ⊢
          split at h
          · exact nomatch h
          · next hc =>
              rw [if_neg hc]
              exact (ih h).trans (advance_moved hle)
      · next hle => rw [if_neg hle]

theorem writeTail_moved (h : (drv.writeTail p).1 = .ok) : (drv.writeTail p).2.moved = p.moved := by
  unfold writeTail at h ⊢
  split at h
  · next ht => rw [if_pos ht]
  · next ht =>
      rw [if_neg ht]
      dsimp only at h ⊢
      split at h
      · exact nomatch h
      · next hr =>
          rw [if_neg hr]
          split at h
          · exact nomatch h
          · next hw =>
              rw [if_neg hw]
              rfl

/-- One part after another. -/
theorem and_then_moved {r : ReturnCode × Request σ} {f : Request σ → ReturnCode × Request σ}
    (hr : r.1 = .ok → r.2.moved = p.moved) (hf : ∀ q, (f q).1 = .ok → (f q).2.moved = q.moved)
    (h : (match r with
      | (.ok, q) => f q
      | r => r).1 = .ok) :
    (match r with
      | (.ok, q) => f q
      | r => r).2.moved = p.moved := by
  obtain ⟨code, q⟩ := r
  cases code with
  | ok => exact (hf q h).trans (hr rfl)
  | errorMemory => exact nomatch h
  | errorParam => exact nomatch h
  | failure => exact nomatch h

/-- A read that succeeds has moved all the bytes of the request. -/
theorem readParts_moved (h : (drv.readParts blockSize offset p).1 = .ok) :
    (drv.readParts blockSize offset p).2.moved = p.moved := by
  unfold readParts at h ⊢
  refine and_then_moved readHead_moved ?_ h
  intro q hq
  exact and_then_moved readWhole_moved (fun _ => readTail_moved) hq

/-- So has a write. -/
theorem writeParts_moved (h : (drv.writeParts blockSize offset p).1 = .ok) :
    (drv.writeParts blockSize offset p).2.moved = p.moved := by
  unfold writeParts at h ⊢
  refine and_then_moved writeHead_moved ?_ h
  intro q hq
  exact and_then_moved writeWhole_moved (fun _ => writeTail_moved) hq

end BlockDriver

namespace BlockDevice

variable (d : BlockDevice σ)

/-- What succeeds with the temporary block there is. -/
theorem temp_ran {β : Type} {x : ReturnCode × β} {f : Buffer → ReturnCode × β} (hx : x.1 ≠ .ok)
    (h : (if BlockDriver.tempBlockSize < d.blockSize then
        match d.temp.1 with
        | none => x
        | some t => f t
      else f d.stack).1 = .ok) : (f (d.temp.1.getD d.stack)).1 = .ok := by
  by_cases hb : BlockDriver.tempBlockSize < d.blockSize
  · rw [if_pos hb] at h
    cases ht : d.temp.1 with
    | none =>
        rw [ht] at h
        exact absurd h hx
    | some t =>
        rw [ht] at h
        exact h
  · rw [if_neg hb] at h
    have ht : d.temp.1 = none := by
      unfold BlockDevice.temp
      rw [if_neg hb]
    rw [ht]
    exact h

/-- `RETURN_OK` comes back after a transfer of `size` bytes, and there are some. -/
theorem read_ok {pos size : Nat} {buffer : Option Buffer}
    (h : (d.read pos buffer size).reply = .code .ok) :
    0 < size ∧ (d.read pos buffer size).moved = size := by
  unfold BlockDevice.read BlockDriver.read at h
  cases buffer with
  | none => exact nomatch h
  | some b =>
      have h := Reply.code.inj h
      dsimp only at h
      by_cases hsize : size = 0
      · rw [if_pos hsize] at h
        exact nomatch h
      rw [if_neg hsize] at h
      have hrun := d.temp_ran (by nofun) h
      have hparts : (d.driver.readParts d.blockSize (pos % d.blockSize) (d.request pos b size)).1 =
          .ok := hrun
      refine ⟨Nat.pos_of_ne_zero hsize, ?_⟩
      exact (BlockDriver.readParts_moved hparts).trans (Nat.zero_add size)

theorem write_ok {pos size : Nat} {buffer : Option Buffer}
    (h : (d.write pos buffer size).reply = .code .ok) :
    0 < size ∧ (d.write pos buffer size).moved = size := by
  unfold BlockDevice.write BlockDriver.write at h
  cases buffer with
  | none => exact nomatch h
  | some b =>
      have h := Reply.code.inj h
      dsimp only at h
      by_cases hsize : size = 0
      · rw [if_pos hsize] at h
        exact nomatch h
      rw [if_neg hsize] at h
      have hrun := d.temp_ran (by nofun) h
      have hparts : (d.driver.writeParts d.blockSize (pos % d.blockSize) (d.request pos b size)).1 =
          .ok := hrun
      refine ⟨Nat.pos_of_ne_zero hsize, ?_⟩
      exact (BlockDriver.writeParts_moved hparts).trans (Nat.zero_add size)

theorem read_not_counted (pos : Nat) (buffer : Option Buffer) (size : UInt32) :
    ¬ (d.read pos buffer size.toNat).Counted :=
  not_counted_code rfl d.read_ok

theorem write_not_counted (pos : Nat) (buffer : Option Buffer) (size : UInt32) :
    ¬ (d.write pos buffer size.toNat).Counted :=
  not_counted_code rfl d.write_ok

end BlockDevice

/-! ## Variables -/

theorem intCount_lt (n : Nat) : intCount n < 2 ^ 31 := by
  unfold intCount
  split <;> omega

theorem intCount_eq {n : Nat} (h : n < 2 ^ 31) : intCount n = n := if_pos h

theorem strnlen_lt (s : List UInt8) (n : Nat) : strnlen s n < 2 ^ 31 := by
  unfold strnlen
  have h1 := (List.takeWhile_prefix (p := (· ≠ 0)) (l := s.take (intCount n))).length_le
  have h2 := List.length_take_le (intCount n) s
  have h3 := intCount_lt n
  omega

/-- The bytes that `strnlen` counts are not zero. -/
theorem take_strnlen (s : List UInt8) (n : Nat) :
    strnlen s n ≤ s.length ∧ ∀ b ∈ s.take (strnlen s n), b ≠ 0 := by
  unfold strnlen
  have hpre : (s.take (intCount n)).takeWhile (· ≠ 0) <+: s :=
    (List.takeWhile_prefix _).trans (List.take_prefix _ _)
  refine ⟨hpre.length_le, ?_⟩
  intro b hb
  rw [← List.prefix_iff_eq_take.mp hpre] at hb
  simpa using List.mem_takeWhile_imp hb

/-- After `strnlen`, `strncpy` meets no zero byte and copies what it may. -/
theorem strncpyCount_strnlen (s : List UInt8) (n : Nat) :
    strncpyCount s (strnlen s n) = if 255 < strnlen s n then 255 else strnlen s n := by
  obtain ⟨hle, hne⟩ := take_strnlen s n
  unfold strncpyCount
  generalize hbound : (if 255 < strnlen s n then 255 else strnlen s n) = bound
  have hb : bound ≤ strnlen s n := by
    rw [← hbound]
    split <;> omega
  have htake : (s.take bound).takeWhile (· ≠ 0) = s.take bound := by
    refine List.takeWhile_eq_self_iff.mpr ?_
    intro b hmem
    have hmem' : b ∈ s.take (strnlen s n) := (List.take_prefix_take_left hb).subset hmem
    simpa using hne b hmem'
  have hlen : (s.take bound).length = bound := List.length_take_of_le (by omega)
  dsimp only
  rw [htake, hlen, if_neg (Nat.lt_irrefl bound)]

theorem ofNat_inj {m n : Nat} (hm : m < 2 ^ 32) (hn : n < 2 ^ 32) :
    UInt32.ofNat m = UInt32.ofNat n ↔ m = n := by
  constructor
  · intro h
    have h' := congrArg UInt32.toNat h
    rwa [UInt32.toNat_ofNat', UInt32.toNat_ofNat', Nat.mod_eq_of_lt hm, Nat.mod_eq_of_lt hn] at h'
  · rintro rfl
    rfl

/-- A count is right if it is the number of bytes. -/
theorem counted_count_iff {n moved : Nat} {buffer : Option Buffer} {o : FileObject σ}
    (hn : n < 2 ^ 32) (hm : moved < 2 ^ 32) :
    (Transfer.mk (.count n) moved buffer o).Counted ↔ n = moved :=
  ofNat_inj hn hm

theorem readVariable_counted (value : Option (List UInt8)) (heap : Heap) (buffer : Option Buffer)
    (size : Nat) :
    (FileObject.readVariable (σ := σ) value heap buffer size).Counted ↔
      ∃ v, value = some v ∧ strnlen v size ≤ 255 ∧ (buffer = none → strnlen v size = 0) := by
  cases value with
  | none => exact ⟨fun h => absurd h not_counted_notDefined, fun ⟨_, h, _⟩ => nomatch h⟩
  | some v =>
      have hlt := strnlen_lt v size
      cases buffer with
      | none =>
          refine (counted_count_iff (by omega) (by omega)).trans ?_
          constructor
          · intro h
            exact ⟨v, rfl, by omega, fun _ => h⟩
          · rintro ⟨w, hw, _, h⟩
            obtain rfl := Option.some.inj hw
            exact h rfl
      | some b =>
          have hcount := strncpyCount_strnlen v size
          have hcount' : strncpyCount v (strnlen v size) ≤ 255 ∨
              strncpyCount v (strnlen v size) = strnlen v size := by
            rw [hcount]
            split <;> omega
          refine (counted_count_iff (by omega) (by omega)).trans ?_
          constructor
          · intro h
            refine ⟨v, rfl, ?_, nofun⟩
            by_contra hgt
            rw [hcount, if_pos (by omega)] at h
            omega
          · rintro ⟨w, hw, h, _⟩
            obtain rfl := Option.some.inj hw
            rw [hcount, if_neg (by omega)]

theorem writeVariable_counted (heap : Heap) (buffer : Option Buffer) {size : Nat}
    (hsize : size < 2 ^ 32) :
    (FileObject.writeVariable (σ := σ) heap buffer size).Counted ↔
      heap.answer 0 ((size + 1) % 2 ^ 32) ≠ none := by
  unfold FileObject.writeVariable Heap.kmalloc
  cases hblock : heap.answer 0 ((size + 1) % 2 ^ 32) with
  | none => exact ⟨fun h => absurd h not_counted_notDefined, fun h => absurd rfl h⟩
  | some block =>
      have hlt : size < 2 ^ 31 := by
        by_contra hge
        by_cases hlast : size + 1 = 2 ^ 32
        · rw [hlast, Nat.mod_self, heap.zero] at hblock
          exact nomatch hblock
        · rw [Nat.mod_eq_of_lt (by omega), heap.limit _ _ (by omega)] at hblock
          exact nomatch hblock
      refine ⟨fun _ => nofun, fun _ => ?_⟩
      have hmoved : intCount size < 2 ^ 32 := Nat.lt_trans (intCount_lt size) (by decide)
      exact (counted_count_iff hsize hmoved).mpr (intCount_eq hlt).symm

/-! ## Ext2 files -/

namespace Ext2Mount

variable {m : Ext2Mount σ}

/-- The loop counts what it moves. -/
theorem readLoop_moved {inode : Ext2Inode} (hbs : m.blockSize < 2 ^ 31) {fuel : Nat}
    {r : FileRead σ} (hr : r.totalRead = r.moved) (hlt : r.moved + r.size < 2 ^ 32) :
    (m.readLoop inode fuel r).totalRead = (m.readLoop inode fuel r).moved := by
  induction fuel generalizing r with
  | zero => exact hr
  | succ fuel ih =>
      unfold readLoop
      split
      · exact hr
      · dsimp only
        split
        · exact hr
        · split
          · exact hr
          · have hsize : BlockDriver.headChunk m.blockSize r.blockOffset r.size ≤ r.size :=
              BlockDriver.headChunk_le r.size
            have hblock : BlockDriver.headChunk m.blockSize r.blockOffset r.size ≤ m.blockSize := by
              unfold BlockDriver.headChunk
              dsimp only
              split <;> omega
            generalize BlockDriver.headChunk m.blockSize r.blockOffset r.size = chunk
              at hsize hblock ⊢
            rw [intCount_eq (by omega)]
            refine ih ?_ ?_
            · dsimp only
              rw [Nat.mod_eq_of_lt (by omega), hr]
            · dsimp only
              omega

theorem readFileData_moved {v v' : Volume σ} {inode : Ext2Inode} {offset size : Nat}
    {buffer : Option Buffer} {r : ReadResult} (hsize : size < 2 ^ 32)
    (h : m.readFileData v inode offset buffer size = some (r, v')) : r.ret = r.moved := by
  unfold readFileData at h
  cases buffer with
  | none =>
      obtain ⟨rfl, _⟩ := Prod.mk.inj (Option.some.inj h)
      rfl
  | some b =>
      dsimp only at h
      split at h
      · obtain ⟨rfl, _⟩ := Prod.mk.inj (Option.some.inj h)
        rfl
      · split at h
        · obtain ⟨rfl, _⟩ := Prod.mk.inj (Option.some.inj h)
          rfl
        · split at h
          · exact nomatch h
          · next hoff _ =>
              have hclip : clip inode offset size < 2 ^ 32 := by
                unfold clip
                split <;> omega
              have hk : v.heap.kmalloc m.blockSize = (v.heap.answer 0 m.blockSize, _) := rfl
              rw [hk] at h
              cases hanswer : v.heap.answer 0 m.blockSize with
              | none =>
                  rw [hanswer] at h
                  obtain ⟨rfl, _⟩ := Prod.mk.inj (Option.some.inj h)
                  rfl
              | some blockBuffer =>
                  rw [hanswer] at h
                  obtain ⟨rfl, _⟩ := Prod.mk.inj (Option.some.inj h)
                  have hbs : m.blockSize < 2 ^ 31 := by
                    by_contra hge
                    rw [v.heap.limit 0 _ (by omega)] at hanswer
                    exact nomatch hanswer
                  refine readLoop_moved hbs rfl ?_
                  dsimp only
                  omega

end Ext2Mount

theorem Ext2RegularFile.read_moved {f : Ext2RegularFile σ} {v : Volume σ} {pos size : Nat}
    {buffer : Option Buffer} {r : Ext2Mount.ReadResult} (hsize : size < 2 ^ 32)
    (h : f.read pos buffer size = some (r, v)) : r.ret = r.moved := by
  unfold Ext2RegularFile.read at h
  split at h
  · obtain ⟨rfl, _⟩ := Prod.mk.inj (Option.some.inj h)
    rfl
  · split at h
    · exact nomatch h
    · obtain ⟨rfl, _⟩ := Prod.mk.inj (Option.some.inj h)
      rfl
    · exact Ext2Mount.readFileData_moved hsize h

/-! ## The result -/

/-- Reading this file obeys the law. -/
def ReadCounted (o : FileObject σ) (buf : Option Buffer) (size : UInt32) : Prop :=
  match o with
  | .file => False
  | .blockDevice _ => False
  | .variable value _ =>
      ∃ v, value = some v ∧ strnlen v size.toNat ≤ 255 ∧ (buf = none → strnlen v size.toNat = 0)
  | .ext2RegularFile _ => True

/-- Writing it does. -/
def WriteCounted (o : FileObject σ) (size : UInt32) : Prop :=
  match o with
  | .file => False
  | .blockDevice _ => False
  | .variable _ heap => heap.answer 0 ((size.toNat + 1) % 2 ^ 32) ≠ none
  | .ext2RegularFile _ => False

theorem readCounted_iff (o : FileObject σ) (ptr : UInt32) (buf : Option Buffer) (size : UInt32) :
    (∀ t, o.read ptr buf size = some t → t.Counted) ↔ ReadCounted o buf size := by
  cases o with
  | file => exact ⟨fun h => not_counted_notDefined (h _ rfl), False.elim⟩
  | blockDevice d => exact ⟨fun h => d.read_not_counted _ buf size (h _ rfl), False.elim⟩
  | «variable» value heap =>
      refine Iff.trans ?_ (readVariable_counted (σ := σ) value heap buf size.toNat)
      constructor
      · intro h
        exact h _ rfl
      · intro h t ht
        obtain rfl := Option.some.inj ht
        exact h
  | ext2RegularFile f =>
      refine ⟨fun _ => True.intro, fun _ t ht => ?_⟩
      unfold FileObject.read at ht
      dsimp only at ht
      split at ht
      · exact nomatch ht
      · next r v hr =>
          obtain rfl := Option.some.inj ht
          exact congrArg UInt32.ofNat (Ext2RegularFile.read_moved size.toNat_lt hr)

theorem writeCounted_iff (o : FileObject σ) (ptr : UInt32) (buf : Option Buffer) (size : UInt32) :
    (∀ t, o.write ptr buf size = some t → t.Counted) ↔ WriteCounted o size := by
  cases o with
  | file => exact ⟨fun h => not_counted_notDefined (h _ rfl), False.elim⟩
  | blockDevice d => exact ⟨fun h => d.write_not_counted _ buf size (h _ rfl), False.elim⟩
  | «variable» value heap =>
      refine Iff.trans ?_ (writeVariable_counted (σ := σ) heap buf size.toNat_lt)
      constructor
      · intro h
        exact h _ rfl
      · intro h t ht
        obtain rfl := Option.some.inj ht
        exact h
  | ext2RegularFile f => exact ⟨fun h => not_counted_notDefined (h _ rfl), False.elim⟩

/-- A heap that has nothing. -/
def emptyHeap : Heap := { answer := fun _ _ => none, zero := fun _ => rfl, limit := fun _ _ _ => rfl }

/-- Descriptor 0 is a variable with the value `ab`, the others are a plain file. -/
def twoFiles : Descriptors Unit where
  openfp := some fun fd => { mode := 0, ptr := 7, fp := if fd = 0 then 1 else 2 }
  object := fun n => if n = 1 then .variable (some [97, 98]) emptyHeap else .file

end KmOS
