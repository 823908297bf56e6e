/-
# `KmOS.Keyboard.Model` — the input buffer of the keyboard driver

The characters that have been typed and not yet read stand in the circular array
`input_buffer`.  `buffer_head` is where the next one goes, `buffer_tail` where the
next one is read, and `buffer_count` says how many there are.  All three are of
type `int`, and `%` is C's.

**What is left out.**  The controller: its ports, the scan codes that come from
them and the state of the shift keys decide which characters are added, not what
becomes of them.
-/
import Mathlib.Data.Int.Notation
import Mathlib.Logic.Function.Basic

namespace KmOS

def keyboardBufferSize : Int := 256

structure Keyboard where
  inputBuffer : Int → UInt8
  bufferHead : Int
  bufferTail : Int
  bufferCount : Int

namespace Keyboard

/-- `Keyboard::init`, which is `clear_buffer` on the buffer. -/
def init (k : Keyboard) : Keyboard := { k with bufferHead := 0, bufferTail := 0, bufferCount := 0 }

def addToBuffer (k : Keyboard) (c : UInt8) : Keyboard :=
  if k.bufferCount < keyboardBufferSize - 1 then
    { inputBuffer := Function.update k.inputBuffer k.bufferHead c
      bufferHead := (k.bufferHead + 1).tmod keyboardBufferSize
      bufferTail := k.bufferTail
      bufferCount := k.bufferCount + 1 }
  else k

def getFromBuffer (k : Keyboard) : UInt8 × Keyboard :=
  if k.bufferCount = 0 then (0, k)
  else
    (k.inputBuffer k.bufferTail,
      { k with
        bufferTail := (k.bufferTail + 1).tmod keyboardBufferSize
        bufferCount := k.bufferCount - 1 })

def charAvailable (k : Keyboard) : Bool := k.bufferCount > 0

end Keyboard

end KmOS
