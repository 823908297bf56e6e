/-
# `KmOS.Keyboard.Buffer` — the input buffer is a bounded queue

`buffer_head` and `buffer_count` say the same thing twice: the head is
`buffer_count` cells behind the tail, round about.  So that the head meets the tail
says nothing, and the count decides whether the buffer is empty; one cell always
stays free.

The buffer holds a queue of 255 characters (`Holds`): adding a character is `push`,
getting one is `pop`.  Over a run of calls (`Session`), the characters accepted and
returned are those of a `Ledger`, and so they balance.
-/
import KmOS.Keyboard.Model
import KmOS.Lib.Fifo

namespace KmOS

open Keyboard

/-! ## Statement -/

inductive BufferCall where
  | add (c : UInt8)
  | get

/-- The driver, with the characters that it has taken and handed out. -/
structure Session where
  keyboard : Keyboard
  accepted : List UInt8
  returned : List UInt8

/-- A character has been accepted if it is counted, and one is returned if one was
available. -/
def Session.step (s : Session) : BufferCall → Session
  | .add c =>
      let k := s.keyboard.addToBuffer c
      { keyboard := k
        accepted :=
          if k.bufferCount = s.keyboard.bufferCount then s.accepted else s.accepted ++ [c]
        returned := s.returned }
  | .get =>
      let (c, k) := s.keyboard.getFromBuffer
      { keyboard := k
        accepted := s.accepted
        returned := if s.keyboard.charAvailable then s.returned ++ [c] else s.returned }

/-- After `init`, and a sequence of calls. -/
def Session.after (k : Keyboard) (calls : List BufferCall) : Session :=
  calls.foldl Session.step { keyboard := k.init, accepted := [], returned := [] }

namespace Keyboard

variable {k : Keyboard} {c : UInt8} {s : List UInt8} {n : Nat}

/-- The characters of `s` wait in the buffer. -/
structure Holds (k : Keyboard) (s : List UInt8) : Prop where
  tail_nonneg : 0 ≤ k.bufferTail
  tail_lt : k.bufferTail < keyboardBufferSize
  count : k.bufferCount = s.length
  head : k.bufferHead = (k.bufferTail + k.bufferCount) % keyboardBufferSize
  cells : CircularAt (fun i => k.inputBuffer i) 256 k.bufferTail.toNat s

/-! ## One call -/

theorem init_holds (k : Keyboard) : k.init.Holds [] where
  tail_nonneg := Int.le_refl 0
  tail_lt := Int.natCast_pos.mpr (Nat.succ_pos 255)
  count := rfl
  head := rfl
  cells := .nil

/-- C's `%` of something that is not negative. -/
theorem tmod_size {x : Int} (hx : 0 ≤ x) : x.tmod keyboardBufferSize = x % keyboardBufferSize :=
  Int.tmod_eq_emod_of_nonneg hx

/-- The head as an index. -/
theorem Holds.head_eq (h : k.Holds s) :
    k.bufferHead = ((k.bufferTail.toNat + s.length) % 256 : Nat) := by
  have htail := h.tail_nonneg
  rw [h.head, h.count, keyboardBufferSize, Int.natCast_emod, Int.natCast_add,
    Int.toNat_of_nonneg htail]
  rfl

theorem addToBuffer_of_full (h : ¬ k.bufferCount < keyboardBufferSize - 1) : k.addToBuffer c = k :=
  if_neg h

/-- The next tail, or the next head. -/
theorem next_mod {x : Int} (hx : 0 ≤ x) :
    ((x + 1).tmod keyboardBufferSize).toNat = (x.toNat + 1) % 256 := by
  rw [tmod_size (by omega), keyboardBufferSize]
  omega

/-- **A character that fits** is the last of those that wait. -/
theorem Holds.addToBuffer (h : k.Holds s) (hroom : s.length < 255) (c : UInt8) :
    (k.addToBuffer c).Holds (s ++ [c]) := by
  have hcount := h.count
  have htail := h.tail_nonneg
  have hfits : k.bufferCount < keyboardBufferSize - 1 := by
    rw [hcount, keyboardBufferSize]
    omega
  have hcells := h.cells.push (a := c) (Nat.lt_succ_of_lt hroom)
  unfold Keyboard.addToBuffer
  rw [if_pos hfits]
  refine ⟨htail, h.tail_lt, ?_, ?_, ?_⟩
  · show k.bufferCount + 1 = _
    rw [hcount, List.length_append, List.length_singleton]
    rfl
  · show (k.bufferHead + 1).tmod keyboardBufferSize =
      (k.bufferTail + (k.bufferCount + 1)) % keyboardBufferSize
    have hhead := h.head
    rw [keyboardBufferSize] at hhead ⊢
    rw [Int.tmod_eq_emod_of_nonneg (by omega)]
    omega
  · -- the cell of the head, written in an array that is read at natural numbers
    have hcell : (fun i : Nat => Function.update k.inputBuffer k.bufferHead c i) =
        Function.update (fun i : Nat => k.inputBuffer i)
          ((k.bufferTail.toNat + s.length) % 256) c := by
      funext i
      rw [h.head_eq]
      by_cases hi : i = (k.bufferTail.toNat + s.length) % 256
      · rw [hi, Function.update_self, Function.update_self]
      · rw [Function.update_of_ne hi, Function.update_of_ne (mt Int.ofNat_inj.mp hi)]
    show CircularAt (fun i : Nat => Function.update k.inputBuffer k.bufferHead c i) 256 _ _
    rw [hcell]
    exact hcells

/-- **The first character that waits** is the one that is handed out. -/
theorem Holds.getFromBuffer (h : k.Holds (c :: s)) :
    k.getFromBuffer.1 = c ∧ k.getFromBuffer.2.Holds s := by
  have hcount := h.count
  have htail := h.tail_nonneg
  have hlt := h.tail_lt
  have hne : k.bufferCount ≠ 0 := by
    rw [hcount, List.length_cons]
    omega
  obtain ⟨hc, hrest⟩ := CircularAt.cons_iff.mp h.cells
  unfold Keyboard.getFromBuffer
  rw [if_neg hne]
  rw [keyboardBufferSize] at hlt
  constructor
  · show k.inputBuffer k.bufferTail = c
    rw [← hc, Nat.mod_eq_of_lt (by omega), Int.toNat_of_nonneg htail]
  · refine ⟨?_, ?_, ?_, ?_, ?_⟩
    · show 0 ≤ (k.bufferTail + 1).tmod keyboardBufferSize
      rw [tmod_size (by omega)]
      exact Int.emod_nonneg _ (by decide)
    · show (k.bufferTail + 1).tmod keyboardBufferSize < keyboardBufferSize
      rw [tmod_size (by omega)]
      exact Int.emod_lt_of_pos _ (by decide)
    · show k.bufferCount - 1 = s.length
      rw [hcount, List.length_cons]
      omega
    · show k.bufferHead =
        ((k.bufferTail + 1).tmod keyboardBufferSize + (k.bufferCount - 1)) % keyboardBufferSize
      rw [tmod_size (by omega), Int.emod_add_emod, h.head]
      congr 1
      omega
    · show CircularAt _ 256 ((k.bufferTail + 1).tmod keyboardBufferSize).toNat s
      rw [next_mod htail]
      exact hrest

/-- None waits, and nothing changes. -/
theorem Holds.getFromBuffer_nil (h : k.Holds []) : k.getFromBuffer = (0, k) := if_pos h.count

theorem Holds.charAvailable_iff (h : k.Holds s) : k.charAvailable = true ↔ s ≠ [] := by
  unfold Keyboard.charAvailable
  rw [decide_eq_true_eq, h.count, ← List.length_pos_iff]
  omega

/-- A character is dropped exactly if 255 wait. -/
theorem Holds.dropped_iff (h : k.Holds s) (hlen : s.length ≤ 255) (c : UInt8) :
    k.addToBuffer c = k ↔ s.length = 255 := by
  constructor
  · intro he
    refine Nat.le_antisymm hlen (Nat.le_of_not_lt fun hroom => ?_)
    have hcount := (h.addToBuffer hroom c).count
    rw [he, h.count, List.length_append, List.length_singleton] at hcount
    omega
  · intro he
    refine addToBuffer_of_full ?_
    rw [h.count, he]
    decide

end Keyboard

/-! ## Runs of calls -/

/-- What a call is on the ledger. -/
def BufferCall.post (l : Ledger UInt8 255) : BufferCall → Ledger UInt8 255
  | .add c => l.push c
  | .get => l.pop

namespace Session

variable {s : Session} {l : Ledger UInt8 255}

/-- The session and the ledger agree. -/
structure Tracks (s : Session) (l : Ledger UInt8 255) : Prop where
  holds : s.keyboard.Holds l.queue.items
  accepted : s.accepted = l.accepted
  returned : s.returned = l.returned

theorem Tracks.add (h : s.Tracks l) (c : UInt8) : (s.step (.add c)).Tracks (l.push c) := by
  by_cases hroom : l.queue.items.length < 255
  · obtain ⟨hitems, hacc, hret⟩ := Ledger.push_of_lt (a := c) hroom
    have hk := h.holds.addToBuffer hroom c
    have hcounted : (s.keyboard.addToBuffer c).bufferCount ≠ s.keyboard.bufferCount := by
      rw [hk.count, h.holds.count, List.length_append, List.length_singleton]
      omega
    refine ⟨hitems.symm ▸ hk, ?_, h.returned.trans hret.symm⟩
    show (if _ then s.accepted else s.accepted ++ [c]) = _
    rw [if_neg hcounted, hacc, h.accepted]
  · have hfull : l.queue.items.length = 255 :=
      Nat.le_antisymm l.queue.fits (Nat.le_of_not_lt hroom)
    have hdrop := (h.holds.dropped_iff l.queue.fits c).mpr hfull
    rw [Ledger.push_of_full hroom]
    refine ⟨?_, ?_, h.returned⟩
    · show (s.keyboard.addToBuffer c).Holds _
      rw [hdrop]
      exact h.holds
    · show (if _ then s.accepted else s.accepted ++ [c]) = _
      rw [if_pos (congrArg bufferCount hdrop), h.accepted]

theorem Tracks.get (h : s.Tracks l) : (s.step .get).Tracks l.pop := by
  have hk := h.holds
  have hav := hk.charAvailable_iff
  cases hitems : l.queue.items with
  | nil =>
      obtain ⟨hrest, hret⟩ := Ledger.pop_of_nil hitems
      rw [hitems] at hk hav
      refine ⟨?_, h.accepted, ?_⟩
      · show s.keyboard.getFromBuffer.2.Holds _
        rw [hk.getFromBuffer_nil, hrest]
        exact hk
      · show (if s.keyboard.charAvailable then _ else s.returned) = _
        rw [if_neg (fun he => hav.mp he rfl), hret, h.returned]
  | cons c rest =>
      obtain ⟨hrest, hret⟩ := Ledger.pop_of_cons hitems
      rw [hitems] at hk hav
      obtain ⟨hc, hnext⟩ := hk.getFromBuffer
      refine ⟨?_, h.accepted, ?_⟩
      · show s.keyboard.getFromBuffer.2.Holds _
        rw [hrest]
        exact hnext
      · show (if s.keyboard.charAvailable then s.returned ++ [s.keyboard.getFromBuffer.1]
          else _) = _
        rw [if_pos (hav.mpr (List.cons_ne_nil c rest)), hc, hret, h.returned]

theorem Tracks.step (h : s.Tracks l) (call : BufferCall) : (s.step call).Tracks (call.post l) := by
  cases call with
  | add c => exact h.add c
  | get => exact h.get

/-- Whatever is called, the session and the ledger agree. -/
theorem Tracks.run (h : s.Tracks l) (calls : List BufferCall) :
    (calls.foldl Session.step s).Tracks (calls.foldl BufferCall.post l) := by
  induction calls generalizing s l with
  | nil => exact h
  | cons call calls ih => exact ih (h.step call)

theorem after_tracks (k : Keyboard) (calls : List BufferCall) :
    (after k calls).Tracks (calls.foldl BufferCall.post (.empty UInt8 255)) :=
  Tracks.run ⟨k.init_holds, rfl, rfl⟩ calls

end Session

/-! ## The result -/

/-- **The buffer is a bounded queue.**  Whatever is called after `init`, the three
variables agree, the characters accepted are those returned and then those that
wait, in order, the next to be returned is the first that waits, and a character
is dropped exactly if 255 wait. -/
theorem keyboard_fifo (k : Keyboard) (calls : List BufferCall) :
    let s := Session.after k calls
    (0 ≤ s.keyboard.bufferTail ∧ s.keyboard.bufferTail < keyboardBufferSize) ∧
      (0 ≤ s.keyboard.bufferCount ∧ s.keyboard.bufferCount ≤ keyboardBufferSize - 1) ∧
      s.keyboard.bufferHead =
        (s.keyboard.bufferTail + s.keyboard.bufferCount) % keyboardBufferSize ∧
      ∃ waiting : List UInt8, s.accepted = s.returned ++ waiting ∧
        s.keyboard.bufferCount = waiting.length ∧
        s.keyboard.getFromBuffer.1 = waiting.headD 0 ∧
        ∀ c, s.keyboard.addToBuffer c = s.keyboard ↔
          (waiting.length : Int) = keyboardBufferSize - 1 := by
  obtain ⟨hk, hacc, hret⟩ := Session.after_tracks k calls
  generalize hl : calls.foldl BufferCall.post (.empty UInt8 255) = l at hk hacc hret
  have hfits := l.queue.fits
  have hcount := hk.count
  have hsize : keyboardBufferSize - 1 = ((255 : Nat) : Int) := rfl
  refine ⟨⟨hk.tail_nonneg, hk.tail_lt⟩, ⟨by omega, by omega⟩, hk.head, l.queue.items, ?_,
    hcount, ?_, fun c => (hk.dropped_iff hfits c).trans ?_⟩
  · rw [hacc, hret]
    exact l.balance
  · cases hitems : l.queue.items with
    | nil =>
        rw [hitems] at hk
        rw [hk.getFromBuffer_nil]
        rfl
    | cons c rest =>
        rw [hitems] at hk
        exact hk.getFromBuffer.1
  · rw [hsize, Int.ofNat_inj]

end KmOS
