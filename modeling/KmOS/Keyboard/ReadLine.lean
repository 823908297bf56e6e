/-
# `KmOS.Keyboard.ReadLine` — `Keyboard::read_line`

The reader waits in `hlt` until a character is available, and takes it; interrupts
add characters meanwhile.  One turn of the reader is one turn of its loop, with the
test of the loop at its end, and any number of interrupts comes before it.  When a
call returns, the caller makes the next one, as the shell does.

What has been read of the line stands in front of `pos` (`Tracks`), and a turn does to
it what the key does to an `Editor` with room for one character less than the buffer.
So what has been typed falls into pieces, one for each call, and a call returns what
survives of its piece, ended by a 0 (`readLine_lines`).  A reader that gets its turns
catches up (`readLine_catches_up`).

**What is left out.**  An interrupt between two instructions of one turn: what it adds
comes behind all that the turn reads.
-/
import Mathlib.Data.List.Forall2
import KmOS.Console.Model
import KmOS.Keyboard.ScanCode
import KmOS.Lib.LineEdit
import KmOS.Lib.Strings

namespace KmOS

/-- The variables of `read_line`, its buffer, the driver, and the screen. -/
structure ReadLine where
  driver : KeyboardDriver
  io : Console
  buffer : LoggedArray UInt8
  pos : Nat

/-- How a turn of the loop ends. -/
inductive ReadTurn where
  | halted
  | again (r : ReadLine)
  | returned (r : ReadLine)

namespace ReadLine

/-- `while (pos < max_len - 1)`, and what stands behind the loop. -/
def loopTest (maxLen : Int) (r : ReadLine) : ReadTurn :=
  if r.pos < maxLen - 1 then .again r else .returned { r with buffer := r.buffer.set r.pos 0 }

/-- What becomes of the character. -/
def act (maxLen : Int) (c : UInt8) (r : ReadLine) : ReadTurn :=
  if c = 0x0A ∨ c = 0x0D then
    .returned { r with buffer := r.buffer.set r.pos 0, io := r.io.putcs [0x0A] }
  else if c = 0x08 ∨ c = 127 then
    loopTest maxLen
      (if 0 < r.pos then { r with pos := r.pos - 1, io := r.io.putcs [0x08, 0x20, 0x08] } else r)
  else if 32 ≤ c ∧ c < 127 then
    loopTest maxLen { r with buffer := r.buffer.set r.pos c, io := r.io.putc c, pos := r.pos + 1 }
  else loopTest maxLen r

/-- The body of the loop. -/
def turn (maxLen : Int) (r : ReadLine) : ReadTurn :=
  if r.driver.keyboard.charAvailable then
    let (c, k) := r.driver.keyboard.getFromBuffer
    act maxLen c { r with driver := { r.driver with keyboard := k } }
  else .halted

end ReadLine

/-! ## Statement -/

/-- The reader at work, and what its calls have returned: the length, and the buffer. -/
structure Terminal where
  reading : ReadLine
  lines : List (Nat × (Nat → UInt8))

namespace Terminal

/-- What the caller does: where a call returns it makes the next. -/
def next (t : Terminal) : ReadTurn → Terminal
  | .halted => t
  | .again r => { t with reading := r }
  | .returned r => { reading := { r with pos := 0 }, lines := t.lines ++ [(r.pos, r.buffer.val)] }

/-- An interrupt, or a turn of the reader. -/
def step (maxLen : Int) (t : Terminal) : KeyboardEvent → Terminal
  | .interrupt status scancode =>
      { t with reading :=
        { t.reading with driver := t.reading.driver.handleInterrupt status scancode } }
  | .getChar => t.next (t.reading.turn maxLen)

/-- After `init`, a call of `read_line`, and these events. -/
def after (maxLen : Int) (d : KeyboardDriver) (io : Console) (buffer : Nat → UInt8)
    (events : List KeyboardEvent) : Terminal :=
  events.foldl (step maxLen)
    { reading := { driver := d.init, io := io, buffer := ⟨buffer, []⟩, pos := 0 }, lines := [] }

end Terminal

/-- What a character is to `read_line`. -/
def lineKey (c : UInt8) : LineKey UInt8 :=
  if c = 0x0A ∨ c = 0x0D then .enter
  else if c = 0x08 ∨ c = 127 then .erase
  else if 32 ≤ c ∧ c < 127 then .text c
  else .other

/-- A call has returned the line. -/
def ReturnedLine (result : Nat × (Nat → UInt8)) (line : List UInt8) : Prop :=
  result.1 = line.length ∧ StringAt result.2 0 line

/-! ## The buffer -/

namespace ReadLine

variable {r : ReadLine} {cap : Nat} {line s : List UInt8} {c : UInt8} {maxLen : Int}

theorem turn_nil (h : r.driver.keyboard.Holds []) : r.turn maxLen = .halted :=
  if_neg fun he => h.charAvailable_iff.mp he rfl

theorem turn_cons (h : r.driver.keyboard.Holds (c :: s)) : r.turn maxLen =
    act maxLen c
      { r with driver := { r.driver with keyboard := r.driver.keyboard.getFromBuffer.2 } } := by
  unfold turn
  rw [if_pos (h.charAvailable_iff.mpr (List.cons_ne_nil c s)), ← h.getFromBuffer.1]

/-- `line` has been read, and nothing was written behind `cap`. -/
structure HasRead (r : ReadLine) (cap : Nat) (line : List UInt8) : Prop where
  pos : r.pos = line.length
  listAt : ListAt r.buffer.val 0 line
  noNul : 0 ∉ line
  inside : r.buffer.Only (· ≤ cap)

/-- A call begins. -/
theorem HasRead.start (h : r.buffer.Only (· ≤ cap)) : HasRead { r with pos := 0 } cap [] :=
  ⟨rfl, trivial, nofun, h⟩

/-- The 0 behind the line. -/
theorem HasRead.terminated (h : r.HasRead cap line) (hlen : line.length ≤ cap) :
    ReturnedLine (r.pos, (r.buffer.set r.pos 0).val) line ∧
      (r.buffer.set r.pos 0).Only (· ≤ cap) := by
  refine ⟨⟨h.pos, .mk' h.noNul ?_ ?_⟩, LoggedArray.only_set.mpr ⟨h.pos ▸ hlen, h.inside⟩⟩
  · refine h.listAt.congr fun j _ hj => LoggedArray.set_val_of_ne ?_
    rw [h.pos]
    omega
  · rw [h.pos, Nat.zero_add]
    exact LoggedArray.set_val_self

/-- A character more. -/
theorem HasRead.text (h : r.HasRead cap line) (hlen : line.length ≤ cap) (hc : c ≠ 0) (io : Console) :
    HasRead { r with buffer := r.buffer.set r.pos c, io := io, pos := r.pos + 1 } cap
      (line ++ [c]) := by
  refine ⟨?_, ListAt.append_iff.mpr ⟨?_, ?_, trivial⟩, ?_, ?_⟩
  · show r.pos + 1 = _
    rw [h.pos, List.length_append, List.length_singleton]
  · refine h.listAt.congr fun j _ hj => LoggedArray.set_val_of_ne ?_
    rw [h.pos]
    omega
  · show (r.buffer.set r.pos c).val _ = c
    rw [h.pos, Nat.zero_add]
    exact LoggedArray.set_val_self
  · rw [List.mem_append, not_or, List.mem_singleton]
    exact ⟨h.noNul, Ne.symm hc⟩
  · exact LoggedArray.only_set.mpr ⟨h.pos ▸ hlen, h.inside⟩

/-- The last one is gone, if there is one. -/
theorem HasRead.erase (h : r.HasRead cap line) (io : Console) :
    HasRead (if 0 < r.pos then { r with pos := r.pos - 1, io := io } else r) cap line.dropLast := by
  split
  · refine ⟨?_, ?_, fun h0 => h.noNul (List.mem_of_mem_dropLast h0), h.inside⟩
    · show r.pos - 1 = _
      rw [h.pos, List.length_dropLast]
    · have hall := h.listAt
      cases hline : line using List.reverseRecOn with
      | nil => trivial
      | append_singleton line c =>
          rw [hline, ListAt.append_iff] at hall
          rw [List.dropLast_concat]
          exact hall.1
  · next h0 =>
      have hnil : line = [] := List.length_eq_zero_iff.mp (by have := h.pos; omega)
      subst hnil
      exact h

end ReadLine

/-! ## One turn -/

namespace Terminal

open LineKey

variable {t : Terminal} {r : ReadLine} {ty : Typing} {cap : Nat} {maxLen : Int}
  {e : Editor UInt8 cap} {line : List UInt8} {c : UInt8}

/-- The line that is being read, and the lines that were returned. -/
structure Tracks (t : Terminal) (e : Editor UInt8 cap) : Prop where
  reading : t.reading.HasRead cap e.line
  lines : List.Forall₂ ReturnedLine t.lines e.done

theorem Tracks.finish (h : t.Tracks e) (hr : r.HasRead cap line) (hlen : line.length ≤ cap)
    (io : Console) :
    (t.next (.returned { r with buffer := r.buffer.set r.pos 0, io := io })).Tracks
      (e.finish line) := by
  obtain ⟨hline, honly⟩ := hr.terminated hlen
  exact ⟨.start honly, List.rel_append h.lines (.cons hline .nil)⟩

/-- The test of the loop ends a line that is full. -/
theorem Tracks.loopTest (h : t.Tracks e) (hmax : maxLen = cap + 1) (hr : r.HasRead cap line)
    (hlen : line.length ≤ cap) : (t.next (r.loopTest maxLen)).Tracks (e.put line) := by
  have hpos := hr.pos
  unfold ReadLine.loopTest Editor.put
  split
  · rw [dif_pos (by omega)]
    exact ⟨hr, h.lines⟩
  · rw [dif_neg (by omega)]
    exact h.finish hr hlen r.io

/-- **One character** is one key. -/
theorem Tracks.act (h : t.Tracks e) (hmax : maxLen = cap + 1) (hr : r.HasRead cap e.line)
    (c : UInt8) : (t.next (r.act maxLen c)).Tracks (e.key (lineKey c)) := by
  have hfits := e.fits
  unfold ReadLine.act lineKey
  split
  · exact h.finish hr (Nat.le_of_lt e.fits) _
  split
  · refine h.loopTest hmax (hr.erase _) ?_
    rw [LineKey.edit, List.length_dropLast]
    omega
  split
  · next hc =>
      refine h.loopTest hmax (hr.text (Nat.le_of_lt e.fits) ?_ _) ?_
      · rintro rfl
        exact absurd hc.1 (by decide)
      · rw [LineKey.edit, List.length_append, List.length_singleton]
        exact e.fits
  · exact h.loopTest hmax hr (Nat.le_of_lt e.fits)

theorem next_loopTest_driver : (t.next (r.loopTest maxLen)).reading.driver = r.driver := by
  unfold ReadLine.loopTest
  split
  · rfl
  · rfl

/-- What becomes of the character does not touch the driver. -/
theorem next_act_driver : (t.next (r.act maxLen c)).reading.driver = r.driver := by
  unfold ReadLine.act
  split
  · rfl
  split
  · rw [next_loopTest_driver]
    split
    · rfl
    · rfl
  split
  · exact next_loopTest_driver
  · exact next_loopTest_driver

/-! ## Runs -/

/-- The lines of what the driver has handed out. -/
def linesOf (hcap : 0 < cap) (returned : List UInt8) : Editor UInt8 cap :=
  (returned.map lineKey).foldl Editor.key (.empty hcap)

theorem linesOf_concat (hcap : 0 < cap) (returned : List UInt8) (c : UInt8) :
    linesOf hcap (returned ++ [c]) = (linesOf hcap returned).key (lineKey c) := by
  unfold linesOf
  rw [List.map_append, List.foldl_append]
  rfl

/-- **One event**, when the characters of `s` wait. -/
theorem step_spec {s : List UInt8} (hcap : 0 < cap) (hmax : maxLen = cap + 1)
    (hs : ty.driver.keyboard.Holds s) (hd : t.reading.driver = ty.driver)
    (h : t.Tracks (linesOf hcap ty.returned)) (ev : KeyboardEvent) :
    (t.step maxLen ev).reading.driver = (ty.step ev).driver ∧
      (t.step maxLen ev).Tracks (linesOf hcap (ty.step ev).returned) := by
  have hr := h.reading
  cases ev with
  | interrupt status scancode =>
      exact ⟨congrArg (·.handleInterrupt status scancode) hd,
        ⟨hr.pos, hr.listAt, hr.noNul, hr.inside⟩, h.lines⟩
  | getChar =>
      show (t.next (t.reading.turn maxLen)).reading.driver = _ ∧
        (t.next (t.reading.turn maxLen)).Tracks _
      have hs' := hd.symm ▸ hs
      cases s with
      | nil =>
          rw [Typing.step_getChar_nil hs, ReadLine.turn_nil hs']
          exact ⟨hd, h⟩
      | cons c s =>
          have hr' (d : KeyboardDriver) :
              { t.reading with driver := d }.HasRead cap (linesOf hcap ty.returned).line :=
            ⟨hr.pos, hr.listAt, hr.noNul, hr.inside⟩
          rw [Typing.step_getChar_cons hs, ReadLine.turn_cons hs', linesOf_concat, ← hd]
          exact ⟨next_act_driver, h.act hmax (hr' _) c⟩

/-- **All events.** -/
theorem after_spec (hcap : 0 < cap) (hmax : maxLen = cap + 1) (d : KeyboardDriver) (io : Console)
    (buffer : Nat → UInt8) (events : List KeyboardEvent) :
    (after maxLen d io buffer events).reading.driver = (Typing.after d events).driver ∧
      (after maxLen d io buffer events).Tracks (linesOf hcap (Typing.after d events).returned) := by
  induction events using List.reverseRecOn with
  | nil =>
      have hempty : (⟨buffer, []⟩ : LoggedArray UInt8).Only (· ≤ cap) := nofun
      exact ⟨rfl, ⟨rfl, trivial, nofun, hempty⟩, .nil⟩
  | append_singleton events ev ih =>
      rw [Typing.after_concat]
      have hconcat : after maxLen d io buffer (events ++ [ev]) =
          (after maxLen d io buffer events).step maxLen ev := List.foldl_append
      obtain ⟨l, hl, -⟩ := Typing.after_follows d events
      rw [hconcat]
      exact step_spec hcap hmax hl.holds ih.1 ih.2 ev

/-- What waits is handed out, if the reader gets its turns. -/
theorem returned_turns {s : List UInt8} (hs : ty.driver.keyboard.Holds s) {n : Nat}
    (hn : s.length ≤ n) :
    ((List.replicate n KeyboardEvent.getChar).foldl Typing.step ty).returned = ty.returned ++ s := by
  induction n generalizing ty s with
  | zero =>
      obtain rfl := List.length_eq_zero_iff.mp (Nat.le_zero.mp hn)
      exact (List.append_nil _).symm
  | succ n ih =>
      rw [List.replicate_succ, List.foldl_cons]
      cases s with
      | nil =>
          rw [Typing.step_getChar_nil hs]
          exact ih hs (Nat.zero_le n)
      | cons c s =>
          rw [Typing.step_getChar_cons hs, ih hs.getFromBuffer.2 (Nat.le_of_succ_le_succ hn),
            List.append_assoc]
          rfl

/-- If the buffer was never full, all that was typed is handed out in 255 turns. -/
theorem returned_catches_up {d : KeyboardDriver} {events : List KeyboardEvent}
    (hpace : ∀ es, es <+: events → (Keyboard.typed (codesOf es)).length ≤
      (Typing.after d es).returned.length + 255) :
    (Typing.after d (events ++ List.replicate 255 .getChar)).returned =
      Keyboard.typed (codesOf events) := by
  obtain ⟨l, hl, -, hiff⟩ := Typing.after_follows d events
  have hturns := returned_turns hl.holds l.queue.fits
  rw [hl.returned, ← l.balance, hiff.mpr hpace] at hturns
  exact (congrArg Typing.returned List.foldl_append).trans hturns

end Terminal

/-! ## The results -/

/-- The characters fall into pieces, one for each call that has returned, and the calls
have returned what survives of them. -/
def ReadLine.Delivers (maxLen : Int) (t : Terminal) (chars : List UInt8) : Prop :=
  ∃ (pieces : List (List (LineKey UInt8))) (rest : List (LineKey UInt8)),
    chars.map lineKey = pieces.flatten ++ rest ∧
      (∀ p ∈ pieces, LineKey.Piece (maxLen - 1).toNat p) ∧ LineKey.OpenLine (maxLen - 1).toNat rest ∧
      List.Forall₂ ReturnedLine t.lines (pieces.map LineKey.kept) ∧
      t.reading.pos = (LineKey.kept rest).length ∧
      ListAt t.reading.buffer.val 0 (LineKey.kept rest)

theorem Terminal.after_delivers {maxLen : Int} (hmax : 1 < maxLen) (d : KeyboardDriver) (io : Console)
    (buffer : Nat → UInt8) (events : List KeyboardEvent) :
    ReadLine.Delivers maxLen (Terminal.after maxLen d io buffer events)
        (Typing.after d events).returned ∧
      (Terminal.after maxLen d io buffer events).reading.buffer.Only (fun i => (i : Int) < maxLen) := by
  have hcap : 0 < (maxLen - 1).toNat := by omega
  have hmax' : maxLen = ((maxLen - 1).toNat : Int) + 1 := by omega
  obtain ⟨-, htracks⟩ := Terminal.after_spec hcap hmax' d io buffer events
  obtain ⟨pieces, rest, hkeys, hpieces, hopen, hdone, hline⟩ :=
    (Editor.reads_foldl hcap ((Typing.after d events).returned.map lineKey)).split
  have hr := htracks.reading
  unfold Terminal.linesOf at hr htracks
  refine ⟨⟨pieces, rest, hkeys, hpieces, hopen, hdone ▸ htracks.lines, ?_, ?_⟩, ?_⟩
  · rw [hr.pos, hline]
  · rw [← hline]
    exact hr.listAt
  · exact hr.inside.mono fun i hi => by omega

/-- **Lines are what was typed.**  Whatever interrupts come between the turns of the
reader, the calls of `read_line` return the lines of the characters that the driver has
handed out, each in its piece of them, and write nothing outside the buffer. -/
theorem readLine_lines (maxLen : Int) (hmax : 1 < maxLen) (d : KeyboardDriver) (io : Console)
    (buffer : Nat → UInt8) (events : List KeyboardEvent) :
    ReadLine.Delivers maxLen (Terminal.after maxLen d io buffer events)
        (Typing.after d events).returned ∧
      (Terminal.after maxLen d io buffer events).reading.buffer.Only (fun i => (i : Int) < maxLen) :=
  Terminal.after_delivers hmax d io buffer events

/-- A driver before `init`. -/
def KeyboardDriver.zeroed : KeyboardDriver where
  keyboard := { inputBuffer := fun _ => 0, bufferHead := 0, bufferTail := 0, bufferCount := 0 }
  state := { shiftPressed := false, ctrlPressed := false, altPressed := false, capsLock := false }

/-- `h`, `i` and enter, with a turn of the reader between the two. -/
def hiTyped : List KeyboardEvent :=
  [.interrupt 1 0x23, .getChar, .interrupt 1 0x17, .interrupt 1 0x1C]

theorem readLine_lines_hi :
    ReadLine.Delivers 512
        (Terminal.after 512 .zeroed (.init fun _ => 0) (fun _ => 0) hiTyped)
        (Typing.after .zeroed hiTyped).returned ∧
      (Terminal.after 512 .zeroed (.init fun _ => 0) (fun _ => 0) hiTyped).reading.buffer.Only
        (fun i => (i : Int) < 512) :=
  readLine_lines 512 (by decide) .zeroed (.init fun _ => 0) (fun _ => 0) hiTyped

/-- **The reader catches up.**  If at every moment at most 255 characters had been typed
and not read, then after 255 turns without an interrupt the calls have returned the
lines of all that was typed. -/
theorem readLine_catches_up (maxLen : Int) (hmax : 1 < maxLen) (d : KeyboardDriver) (io : Console)
    (buffer : Nat → UInt8) (events : List KeyboardEvent)
    (hpace : ∀ es, es <+: events → (Keyboard.typed (codesOf es)).length ≤
      (Typing.after d es).returned.length + 255) :
    ReadLine.Delivers maxLen
      (Terminal.after maxLen d io buffer (events ++ List.replicate 255 .getChar))
      (Keyboard.typed (codesOf events)) := by
  rw [← Terminal.returned_catches_up hpace]
  exact (Terminal.after_delivers hmax d io buffer _).1

theorem readLine_catches_up_hi :
    ReadLine.Delivers 512
      (Terminal.after 512 .zeroed (.init fun _ => 0) (fun _ => 0)
        (hiTyped ++ List.replicate 255 .getChar))
      (Keyboard.typed (codesOf hiTyped)) := by
  have hfew : ∀ es ∈ hiTyped.inits, (Keyboard.typed (codesOf es)).length ≤ 255 := by decide
  exact readLine_catches_up 512 (by decide) .zeroed (.init fun _ => 0) (fun _ => 0) hiTyped
    fun es hes => Nat.le_trans (hfew es ((List.mem_inits es hiTyped).mpr hes)) (Nat.le_add_left ..)

example : Keyboard.typed (codesOf hiTyped) = [0x68, 0x69, 0x0D] := by decide

end KmOS
