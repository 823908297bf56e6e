/-
# `KmOS.Console.Model` — the text console

`IO::putc` and `IO::scrollup`.  The coordinates are of type `char`, signed on
this machine, so they wrap around at 127; the address of the cursor is computed
from them as an `int`.

**What is left out.**  The keyboard side of the class, its colours (only
`kattr` reaches the screen), and the saved copy of the screen.
-/
import KmOS.Lib.WriteLog

namespace KmOS

def ramScreen : UInt32 := 0xB8000
def screenLim : UInt32 := 0xB8FA0

/-- `class IO`, and the memory it writes. -/
structure Console where
  realScreen : UInt32
  x : Int8
  yl : Int8
  kattr : UInt8
  mem : LoggedMemory

namespace Console

/-- `IO::IO` of the physical console. -/
def init (bytes : UInt32 → UInt8) : Console where
  realScreen := ramScreen
  x := 0
  yl := 0
  kattr := 0x07
  mem := { bytes := bytes, written := [] }

/-- One turn of the loop of `scrollup`. -/
def scrollCell (n video : UInt32) (m : LoggedMemory) : LoggedMemory :=
  let tmp := video + n * 160
  if tmp < screenLim then
    let m := m.store video (m.bytes tmp)
    m.store (video + 1) (m.bytes (tmp + 1))
  else (m.store video 0).store (video + 1) 0x07

/-- The loop of `scrollup`. -/
def scrollLoop (n : UInt32) : Nat → UInt32 → LoggedMemory → LoggedMemory
  | 0, _, m => m
  | fuel + 1, video, m =>
      if video < screenLim then scrollLoop n fuel (video + 2) (scrollCell n video m) else m

/-- `IO::scrollup`. -/
def scrollup (s : Console) (n : UInt32) : Console :=
  let yl := Int8.ofInt (s.yl.toInt - n.toNat)
  { s with
    mem := scrollLoop n screenLim.toNat s.realScreen s.mem
    yl := if yl < 0 then 0 else yl }

/-- `real_screen + 2 * x + 160 * yl`. -/
def video (s : Console) : UInt32 := s.realScreen + UInt32.ofInt (2 * s.x.toInt + 160 * s.yl.toInt)

/-- `IO::putc` before it scrolls. -/
def place (s : Console) (c : UInt8) : Console :=
  if c = 10 then { s with x := 0, yl := s.yl + 1 }
  else if c = 8 then
    { s with mem := if s.x ≠ 0 then s.mem.store (s.video + 1) 0 else s.mem, x := s.x - 1 }
  else if c = 9 then { s with x := Int8.ofInt (s.x.toInt + 8 - s.x.toInt.tmod 8) }
  else if c = 13 then { s with x := 0 }
  else
    let s := { s with
      mem := (s.mem.store s.video c).store (s.video + 1) s.kattr
      x := s.x + 1 }
    if 79 < s.x then { s with x := 0, yl := s.yl + 1 } else s

/-- `IO::putc`. -/
def putc (s : Console) (c : UInt8) : Console :=
  let s := { s with kattr := 0x07 }.place c
  if 24 < s.yl then s.scrollup (UInt32.ofInt (s.yl.toInt - 24)) else s

/-- Characters one after another. -/
def putcs (s : Console) (cs : List UInt8) : Console := cs.foldl putc s

end Console

end KmOS
