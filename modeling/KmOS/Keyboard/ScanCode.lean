/-
# `KmOS.Keyboard.ScanCode` — what the driver makes of scan codes

The interrupt handler reads one scan code.  The code of a modifier changes the state
of the driver, and the code of a key that is pressed is looked up in one of two
tables, which the state decides.

The state is a function of the codes that were read (`stateOf`): a modifier is down
if the last code of its keys was that of a key pressed, whichever key that was, and
the lock is on if it was pressed an odd number of times.  So what a code stands for
depends on the codes before it and on nothing else (`keystroke`), and what has been
typed is a function of them (`typed`).

Of what is typed the buffer loses the characters that find it full.  None is lost
exactly if at no time more than 255 have been typed and not read (`typed_iff`).

**What is left out.**  That an interrupt comes while `get_char` is at work; the
loop of `init` that empties the controller, and what it prints.
-/
import Mathlib.Data.List.Infix
import KmOS.Keyboard.Buffer

namespace KmOS

/-- `struct keyboard_state`. -/
structure KeyboardState where
  shiftPressed : Bool
  ctrlPressed : Bool
  altPressed : Bool
  capsLock : Bool
deriving DecidableEq

namespace KeyboardState

def keyCtrl : UInt8 := 0x1D
def keyLshift : UInt8 := 0x2A
def keyRshift : UInt8 := 0x36
def keyAlt : UInt8 := 0x38
def keyCaps : UInt8 := 0x3A

/-- `Keyboard::update_key_state`. -/
def updateKeyState (s : KeyboardState) (scancode : UInt8) (pressed : Bool) : KeyboardState :=
  if scancode = keyLshift ∨ scancode = keyRshift then { s with shiftPressed := pressed }
  else if scancode = keyCtrl then { s with ctrlPressed := pressed }
  else if scancode = keyAlt then { s with altPressed := pressed }
  else if scancode = keyCaps then
    if pressed then { s with capsLock := !s.capsLock } else s
  else s

/-- `Keyboard::key_pressed`. -/
def keyPressed (s : KeyboardState) (scancode : UInt8) : Bool :=
  if scancode = keyLshift ∨ scancode = keyRshift then s.shiftPressed
  else if scancode = keyCtrl then s.ctrlPressed
  else if scancode = keyAlt then s.altPressed
  else if scancode = keyCaps then s.capsLock
  else false

end KeyboardState

namespace Keyboard

/-- `scancode_to_char`. -/
def scancodeToChar : List UInt8 :=
  [0x00, 0x00, 0x31, 0x32, 0x33, 0x34, 0x35, 0x36,   -- 1 2 3 4 5 6
   0x37, 0x38, 0x39, 0x30, 0x2D, 0x3D, 0x08, 0x09,   -- 7 8 9 0 - = backspace tab
   0x71, 0x77, 0x65, 0x72, 0x74, 0x79, 0x75, 0x69,   -- q w e r t y u i
   0x6F, 0x70, 0x5B, 0x5D, 0x0D, 0x00, 0x61, 0x73,   -- o p [ ] enter, a s
   0x64, 0x66, 0x67, 0x68, 0x6A, 0x6B, 0x6C, 0x3B,   -- d f g h j k l ;
   0x27, 0x60, 0x00, 0x5C, 0x7A, 0x78, 0x63, 0x76,   -- ' `, \ z x c v
   0x62, 0x6E, 0x6D, 0x2C, 0x2E, 0x2F, 0x00, 0x2A,   -- b n m , . /, *
   0x00, 0x20, 0x00, 0x00, 0x00, 0x00, 0x00, 0x00]   -- space
  ++ List.replicate 64 0

/-- `scancode_to_char_shift`. -/
def scancodeToCharShift : List UInt8 :=
  [0x00, 0x00, 0x21, 0x40, 0x23, 0x24, 0x25, 0x5E,   -- ! @ # $ % ^
   0x26, 0x2A, 0x28, 0x29, 0x5F, 0x2B, 0x08, 0x09,   -- & * ( ) _ + backspace tab
   0x51, 0x57, 0x45, 0x52, 0x54, 0x59, 0x55, 0x49,   -- Q W E R T Y U I
   0x4F, 0x50, 0x7B, 0x7D, 0x0D, 0x00, 0x41, 0x53,   -- O P { } enter, A S
   0x44, 0x46, 0x47, 0x48, 0x4A, 0x4B, 0x4C, 0x3A,   -- D F G H J K L :
   0x22, 0x7E, 0x00, 0x7C, 0x5A, 0x58, 0x43, 0x56,   -- " ~, | Z X C V
   0x42, 0x4E, 0x4D, 0x3C, 0x3E, 0x3F, 0x00, 0x2A,   -- B N M < > ?, *
   0x00, 0x20, 0x00, 0x00, 0x00, 0x00, 0x00, 0x00]   -- space
  ++ List.replicate 64 0

/-- `Keyboard::scancode_to_ascii`. -/
def scancodeToAscii (scancode : UInt8) (shift : Bool) : UInt8 :=
  if 128 ≤ scancode then 0
  else if shift then scancodeToCharShift.getD scancode.toNat 0
  else scancodeToChar.getD scancode.toNat 0

end Keyboard

/-- The driver: `class Keyboard` with all its fields. -/
structure KeyboardDriver where
  keyboard : Keyboard
  state : KeyboardState

namespace KeyboardDriver

/-- `Keyboard::init`. -/
def init (d : KeyboardDriver) : KeyboardDriver where
  keyboard := d.keyboard.init
  state := { shiftPressed := false, ctrlPressed := false, altPressed := false, capsLock := false }

/-- `Keyboard::handle_interrupt`; `status` and `scancode` are what the two ports give. -/
def handleInterrupt (d : KeyboardDriver) (status scancode : UInt8) : KeyboardDriver :=
  if status &&& 0x01 = 0 then d
  else
    let keyReleased := scancode &&& 0x80 ≠ 0
    let key := scancode &&& 0x7F
    let state := d.state.updateKeyState key !keyReleased
    if ¬ keyReleased then
      let c := Keyboard.scancodeToAscii key (state.shiftPressed || state.capsLock)
      if c ≠ 0 then { keyboard := d.keyboard.addToBuffer c, state := state }
      else { d with state := state }
    else { d with state := state }

end KeyboardDriver

/-! ## Statement -/

/-- What happens to the driver: an interrupt, or a call of `get_char`. -/
inductive KeyboardEvent where
  | interrupt (status scancode : UInt8)
  | getChar

/-- The driver, with the characters that it has handed out. -/
structure Typing where
  driver : KeyboardDriver
  returned : List UInt8

namespace Typing

/-- A character is handed out if one was available. -/
def step (t : Typing) : KeyboardEvent → Typing
  | .interrupt status scancode => { t with driver := t.driver.handleInterrupt status scancode }
  | .getChar =>
      let (c, k) := t.driver.keyboard.getFromBuffer
      { driver := { t.driver with keyboard := k }
        returned := if t.driver.keyboard.charAvailable then t.returned ++ [c] else t.returned }

/-- After `init`, and these events. -/
def after (d : KeyboardDriver) (events : List KeyboardEvent) : Typing :=
  events.foldl step { driver := d.init, returned := [] }

end Typing

namespace Keyboard

/-- The key of a scan code. -/
def keyOf (code : UInt8) : UInt8 := code &&& 0x7F

/-- The key is pressed, not released. -/
def isMake (code : UInt8) : Bool := code &&& 0x80 = 0

/-- The last code of one of `keys` was that of a key pressed. -/
def heldDown (keys : List UInt8) (codes : List UInt8) : Bool :=
  (codes.filter (keyOf · ∈ keys)).getLast?.any isMake

/-- `key` was pressed an odd number of times. -/
def toggled (key : UInt8) (codes : List UInt8) : Bool :=
  codes.countP (fun code => keyOf code = key ∧ isMake code = true) % 2 = 1

/-- The state of the driver, from the codes it has read. -/
def stateOf (codes : List UInt8) : KeyboardState where
  shiftPressed := heldDown [KeyboardState.keyLshift, KeyboardState.keyRshift] codes
  ctrlPressed := heldDown [KeyboardState.keyCtrl] codes
  altPressed := heldDown [KeyboardState.keyAlt] codes
  capsLock := toggled KeyboardState.keyCaps codes

/-- The character that the last of the codes stands for, if any. -/
def keystroke (codes : List UInt8) : List UInt8 :=
  match codes.getLast? with
  | none => []
  | some code =>
      let c := scancodeToAscii (keyOf code) ((stateOf codes).shiftPressed || (stateOf codes).capsLock)
      if isMake code = true ∧ c ≠ 0 then [c] else []

/-- The characters that the codes stand for. -/
def typed (codes : List UInt8) : List UInt8 :=
  (List.range codes.length).flatMap fun i => keystroke (codes.take (i + 1))

end Keyboard

/-- The scan code that an event reads. -/
def KeyboardEvent.code : KeyboardEvent → List UInt8
  | .interrupt status scancode => if status &&& 0x01 = 0 then [] else [scancode]
  | .getChar => []

/-- The codes that the events read. -/
def codesOf (events : List KeyboardEvent) : List UInt8 := events.flatMap KeyboardEvent.code

namespace Keyboard

variable {codes keys : List UInt8} {code key : UInt8}

/-! ## One code more -/

theorem heldDown_concat :
    heldDown keys (codes ++ [code]) = if keyOf code ∈ keys then isMake code else heldDown keys codes := by
  unfold heldDown
  rw [List.filter_append]
  split
  · next h => rw [List.filter_cons_of_pos (by simpa using h), List.filter_nil, List.getLast?_concat]; rfl
  · next h => rw [List.filter_cons_of_neg (by simpa using h), List.filter_nil, List.append_nil]

theorem toggled_concat : toggled key (codes ++ [code]) =
    if keyOf code = key ∧ isMake code = true then !toggled key codes else toggled key codes := by
  unfold toggled
  rw [List.countP_append, List.countP_singleton]
  split
  · next h =>
      rw [if_pos (by simpa using h), ← decide_not, decide_eq_decide]
      omega
  · next h => rw [if_neg (by simpa using h), Nat.add_zero]

/-- **The state follows the codes.** -/
theorem stateOf_concat :
    stateOf (codes ++ [code]) = (stateOf codes).updateKeyState (keyOf code) (isMake code) := by
  unfold stateOf
  rw [heldDown_concat, heldDown_concat, heldDown_concat, toggled_concat]
  simp only [KeyboardState.updateKeyState, List.mem_cons, List.not_mem_nil, or_false]
  generalize keyOf code = key
  by_cases hshift : key = KeyboardState.keyLshift ∨ key = KeyboardState.keyRshift
  · have hother : key ≠ KeyboardState.keyCtrl ∧ key ≠ KeyboardState.keyAlt ∧
        key ≠ KeyboardState.keyCaps := by
      rcases hshift with rfl | rfl
      · decide
      · decide
    simp only [if_pos hshift, if_neg hother.1, if_neg hother.2.1, eq_false hother.2.2, false_and,
      if_false]
  by_cases hctrl : key = KeyboardState.keyCtrl
  · have hother : key ≠ KeyboardState.keyAlt ∧ key ≠ KeyboardState.keyCaps := by
      subst hctrl
      decide
    simp only [if_neg hshift, if_pos hctrl, if_neg hother.1, eq_false hother.2, false_and, if_false]
  by_cases halt : key = KeyboardState.keyAlt
  · have hother : key ≠ KeyboardState.keyCaps := by
      subst halt
      decide
    simp only [if_neg hshift, if_neg hctrl, if_pos halt, eq_false hother, false_and, if_false]
  simp only [if_neg hshift, if_neg hctrl, if_neg halt]
  by_cases hcaps : key = KeyboardState.keyCaps
  · simp only [eq_true hcaps, true_and]
    split <;> rfl
  · simp only [eq_false hcaps, false_and, if_false]

theorem typed_concat : typed (codes ++ [code]) = typed codes ++ keystroke (codes ++ [code]) := by
  unfold typed
  rw [List.length_append, List.length_singleton, List.range_succ, List.flatMap_append,
    List.flatMap_singleton, List.take_of_length_le (by simp)]
  congr 1
  refine List.flatMap_congr fun i hi => ?_
  rw [List.take_append_of_le_length (List.mem_range.mp hi)]

theorem stateOf_nil (d : KeyboardDriver) : d.init.state = stateOf [] := rfl

/-! ## One event -/

end Keyboard

namespace KeyboardDriver

variable {d : KeyboardDriver} {codes : List UInt8} {status code : UInt8}

theorem handleInterrupt_idle (h : status &&& 0x01 = 0) : d.handleInterrupt status code = d := if_pos h

/-- **A code** changes the state as it should, and what it stands for is added. -/
theorem handleInterrupt_code (code : UInt8) (h : status &&& 0x01 ≠ 0)
    (hd : d.state = Keyboard.stateOf codes) :
    (d.handleInterrupt status code).state = Keyboard.stateOf (codes ++ [code]) ∧
      (d.handleInterrupt status code).keyboard =
        (Keyboard.keystroke (codes ++ [code])).foldl Keyboard.addToBuffer d.keyboard := by
  have hmake : Keyboard.isMake code = !(decide (code &&& 0x80 ≠ 0)) := by
    simp [Keyboard.isMake]
  have hstate : d.state.updateKeyState (code &&& 0x7F) (!(decide (code &&& 0x80 ≠ 0))) =
      Keyboard.stateOf (codes ++ [code]) := by
    rw [hd, ← hmake]
    exact Keyboard.stateOf_concat.symm
  unfold handleInterrupt Keyboard.keystroke
  rw [if_neg h, List.getLast?_concat]
  dsimp only
  rw [hstate]
  by_cases hrel : code &&& 0x80 ≠ 0
  · rw [if_neg (not_not_intro hrel), if_neg (by simp [hmake, hrel])]
    exact ⟨rfl, rfl⟩
  · rw [if_pos hrel]
    generalize hc : Keyboard.scancodeToAscii (code &&& 0x7F) _ = c
    have hc' : Keyboard.scancodeToAscii (Keyboard.keyOf code) _ = c := hc
    rw [hc']
    by_cases h0 : c ≠ 0
    · rw [if_pos h0, if_pos ⟨by simp [hmake, hrel], h0⟩]
      exact ⟨rfl, rfl⟩
    · rw [if_neg h0, if_neg (fun hb => h0 hb.2)]
      exact ⟨rfl, rfl⟩

end KeyboardDriver

/-! ## Runs of events -/

namespace Typing

open Keyboard

variable {t : Typing} {codes : List UInt8} {l : Ledger UInt8 255}

/-- What an event is on the ledger, behind the codes that were read before. -/
def post (codes : List UInt8) (l : Ledger UInt8 255) : KeyboardEvent → Ledger UInt8 255
  | .interrupt status code =>
      if status &&& 0x01 = 0 then l else (keystroke (codes ++ [code])).foldl Ledger.push l
  | .getChar => l.pop

/-- The driver has read `codes`, and agrees with the ledger. -/
structure Follows (t : Typing) (codes : List UInt8) (l : Ledger UInt8 255) : Prop where
  state : t.driver.state = stateOf codes
  holds : t.driver.keyboard.Holds l.queue.items
  returned : t.returned = l.returned

/-- A character that is added is a character that is pushed. -/
theorem holds_push {k : Keyboard} (h : k.Holds l.queue.items) (c : UInt8) :
    (k.addToBuffer c).Holds (l.push c).queue.items := by
  have hs : ({ keyboard := k, accepted := l.accepted, returned := l.returned } : Session).Tracks l :=
    ⟨h, rfl, rfl⟩
  exact (hs.add c).holds

/-- At most one character is pushed. -/
theorem keystroke_cases (codes : List UInt8) : keystroke codes = [] ∨ ∃ c, keystroke codes = [c] := by
  unfold keystroke
  split
  · exact .inl rfl
  · dsimp only
    split
    · exact .inr ⟨_, rfl⟩
    · exact .inl rfl

/-- **One event.** -/
theorem Follows.step (h : t.Follows codes l) (e : KeyboardEvent) :
    (t.step e).Follows (codes ++ e.code) (post codes l e) := by
  cases e with
  | interrupt status code =>
      by_cases hidle : status &&& 0x01 = 0
      · have hd : t.step (.interrupt status code) = t := by
          show ({ t with driver := t.driver.handleInterrupt status code } : Typing) = t
          rw [KeyboardDriver.handleInterrupt_idle hidle]
        rw [hd, KeyboardEvent.code, if_pos hidle, List.append_nil, post, if_pos hidle]
        exact h
      · obtain ⟨hstate, hkeys⟩ := KeyboardDriver.handleInterrupt_code code hidle h.state
        rw [KeyboardEvent.code, if_neg hidle, post, if_neg hidle]
        refine ⟨hstate, ?_, ?_⟩
        · show (t.driver.handleInterrupt status code).keyboard.Holds _
          rw [hkeys]
          rcases keystroke_cases (codes ++ [code]) with hk | ⟨c, hk⟩
          · rw [hk]
            exact h.holds
          · rw [hk]
            exact holds_push h.holds c
        · refine h.returned.trans ?_
          rcases keystroke_cases (codes ++ [code]) with hk | ⟨c, hk⟩
          · rw [hk]
            rfl
          · rw [hk]
            exact (l.push_returned c).symm
  | getChar =>
      have hs : ({ keyboard := t.driver.keyboard, accepted := l.accepted, returned := t.returned } :
          Session).Tracks l := ⟨h.holds, rfl, h.returned⟩
      have hget := hs.get
      rw [KeyboardEvent.code, List.append_nil]
      exact ⟨h.state, hget.holds, hget.returned⟩

theorem step_getChar_nil (h : t.driver.keyboard.Holds []) : t.step .getChar = t := by
  have hno : ¬ t.driver.keyboard.charAvailable = true := fun he => h.charAvailable_iff.mp he rfl
  unfold Typing.step
  rw [h.getFromBuffer_nil]
  dsimp only
  rw [if_neg hno]

theorem step_getChar_cons {c : UInt8} {s : List UInt8} (h : t.driver.keyboard.Holds (c :: s)) :
    t.step .getChar =
      { driver := { t.driver with keyboard := t.driver.keyboard.getFromBuffer.2 }
        returned := t.returned ++ [c] } := by
  have hyes : t.driver.keyboard.charAvailable = true :=
    h.charAvailable_iff.mpr (List.cons_ne_nil c s)
  have hstep : t.step .getChar =
      { driver := { t.driver with keyboard := t.driver.keyboard.getFromBuffer.2 }
        returned :=
          if t.driver.keyboard.charAvailable then t.returned ++ [t.driver.keyboard.getFromBuffer.1]
          else t.returned } := rfl
  rw [hstep, if_pos hyes, h.getFromBuffer.1]

theorem after_concat (d : KeyboardDriver) (events : List KeyboardEvent) (e : KeyboardEvent) :
    after d (events ++ [e]) = (after d events).step e := List.foldl_append

theorem codesOf_concat (events : List KeyboardEvent) (e : KeyboardEvent) :
    codesOf (events ++ [e]) = codesOf events ++ e.code := by
  unfold codesOf
  rw [List.flatMap_append, List.flatMap_singleton]

/-- What is typed and not read fits into the buffer. -/
def KeepsUp (d : KeyboardDriver) (events : List KeyboardEvent) : Prop :=
  (typed (codesOf events)).length ≤ (after d events).returned.length + 255

/-- An event that types nothing loses nothing. -/
theorem accepted_quiet {events : List KeyboardEvent} {d : KeyboardDriver} {l' : Ledger UInt8 255}
    {e : KeyboardEvent} (h : (after d (events ++ [e])).returned = l'.returned)
    (hsub : l.accepted.Sublist (typed (codesOf events))) (hacc : l'.accepted = l.accepted)
    (htyped : typed (codesOf (events ++ [e])) = typed (codesOf events)) :
    l'.accepted.Sublist (typed (codesOf (events ++ [e]))) ∧
      (l'.accepted = typed (codesOf (events ++ [e])) ↔
        l.accepted = typed (codesOf events) ∧ KeepsUp d (events ++ [e])) := by
  have hlen := l'.length_accepted
  have hfits := l'.queue.fits
  unfold KeepsUp
  rw [h, htyped, hacc]
  refine ⟨hsub, fun he => ⟨he, ?_⟩, And.left⟩
  rw [← he, ← hacc]
  omega

/-- **One event, and what it loses**: nothing is lost if nothing was lost before and
what has been typed fits. -/
theorem accepted_step {events : List KeyboardEvent} {d : KeyboardDriver}
    (h : (after d events).Follows (codesOf events) l)
    (hsub : l.accepted.Sublist (typed (codesOf events))) (e : KeyboardEvent) :
    (post (codesOf events) l e).accepted.Sublist (typed (codesOf (events ++ [e]))) ∧
      ((post (codesOf events) l e).accepted = typed (codesOf (events ++ [e])) ↔
        l.accepted = typed (codesOf events) ∧ KeepsUp d (events ++ [e])) := by
  have hnext := h.step e
  rw [← after_concat, ← codesOf_concat] at hnext
  cases e with
  | getChar =>
      exact accepted_quiet hnext.returned hsub rfl (by rw [codesOf_concat, KeyboardEvent.code, List.append_nil])
  | interrupt status code =>
      by_cases hidle : status &&& 0x01 = 0
      · refine accepted_quiet hnext.returned hsub (by rw [post, if_pos hidle]) ?_
        rw [codesOf_concat, KeyboardEvent.code, if_pos hidle, List.append_nil]
      · have hcodes : codesOf (events ++ [.interrupt status code]) = codesOf events ++ [code] := by
          rw [codesOf_concat, KeyboardEvent.code, if_neg hidle]
        have htyped : typed (codesOf events ++ [code]) =
            typed (codesOf events) ++ keystroke (codesOf events ++ [code]) := typed_concat
        have hpost : post (codesOf events) l (.interrupt status code) =
            (keystroke (codesOf events ++ [code])).foldl Ledger.push l := if_neg hidle
        rcases keystroke_cases (codesOf events ++ [code]) with hk | ⟨c, hk⟩
        · rw [hk] at htyped hpost
          exact accepted_quiet hnext.returned hsub (congrArg Ledger.accepted hpost)
            (by rw [hcodes, htyped, List.append_nil])
        · rw [hk] at htyped hpost
          have hpush := Ledger.push_offered hsub c
          unfold KeepsUp
          rw [hnext.returned, hpost, hcodes, htyped]
          show (l.push c).accepted.Sublist _ ∧ ((l.push c).accepted = _ ↔
            _ ∧ _ ≤ (l.push c).returned.length + 255)
          rw [Ledger.push_returned]
          exact hpush

/-- **All events.** -/
theorem after_follows (d : KeyboardDriver) (events : List KeyboardEvent) :
    ∃ l, (after d events).Follows (codesOf events) l ∧ l.accepted.Sublist (typed (codesOf events)) ∧
      (l.accepted = typed (codesOf events) ↔ ∀ es, es <+: events → KeepsUp d es) := by
  induction events using List.reverseRecOn with
  | nil =>
      refine ⟨.empty UInt8 255, ⟨rfl, d.keyboard.init_holds, rfl⟩, .refl [], ?_⟩
      refine iff_of_true rfl fun es hes => ?_
      rw [List.prefix_nil.mp hes]
      exact Nat.zero_le _
  | append_singleton events e ih =>
      obtain ⟨l, hl, hsub, hiff⟩ := ih
      obtain ⟨hsub', hiff'⟩ := accepted_step hl hsub e
      refine ⟨post (codesOf events) l e, ?_, hsub', hiff'.trans ?_⟩
      · rw [after_concat, codesOf_concat]
        exact hl.step e
      · rw [hiff]
        constructor
        · rintro ⟨hall, hlast⟩ es hes
          rcases List.prefix_concat_iff.mp hes with rfl | hes
          · exact hlast
          · exact hall es hes
        · intro hall
          exact ⟨fun es hes => hall es (hes.trans (List.prefix_append ..)), hall _ List.prefix_rfl⟩

end Typing

/-! ## The results -/

/-- **The modifiers** are what the history of codes says, whatever happens: of shift,
control and alt the last code counts, and of the lock how often it was pressed. -/
theorem keyboard_modifiers (d : KeyboardDriver) (events : List KeyboardEvent) (key : UInt8) :
    (Typing.after d events).driver.state.keyPressed key =
      (if key = KeyboardState.keyLshift ∨ key = KeyboardState.keyRshift then
        Keyboard.heldDown [KeyboardState.keyLshift, KeyboardState.keyRshift] (codesOf events)
      else if key = KeyboardState.keyCtrl ∨ key = KeyboardState.keyAlt then
        Keyboard.heldDown [key] (codesOf events)
      else key = KeyboardState.keyCaps && Keyboard.toggled key (codesOf events)) := by
  obtain ⟨l, hl, -⟩ := Typing.after_follows d events
  rw [hl.state]
  unfold KeyboardState.keyPressed Keyboard.stateOf
  dsimp only
  split
  · rfl
  split
  · next hctrl => rw [if_pos (Or.inl hctrl), hctrl]
  split
  · next halt => rw [if_pos (Or.inr halt), halt]
  · next hctrl halt =>
      rw [if_neg (not_or_intro hctrl halt)]
      split
      · next hcaps => rw [hcaps, decide_eq_true rfl, Bool.true_and]
      · next hcaps => rw [decide_eq_false hcaps, Bool.false_and]

/-- **What is typed is what is read.**  The characters handed out, and then those that
wait, are those that the codes stand for, in order, without the ones that were lost.
None is lost exactly if at every moment at most 255 had been typed and not read. -/
theorem keyboard_typed (d : KeyboardDriver) (events : List KeyboardEvent) :
    ∃ waiting, (Typing.after d events).driver.keyboard.Holds waiting ∧
      ((Typing.after d events).returned ++ waiting).Sublist (Keyboard.typed (codesOf events)) ∧
      ((Typing.after d events).returned ++ waiting = Keyboard.typed (codesOf events) ↔
        ∀ es, es <+: events → (Keyboard.typed (codesOf es)).length ≤
          (Typing.after d es).returned.length + 255) := by
  obtain ⟨l, hl, hsub, hiff⟩ := Typing.after_follows d events
  refine ⟨l.queue.items, hl.holds, ?_⟩
  rw [hl.returned, ← l.balance]
  exact ⟨hsub, hiff⟩

end KmOS
