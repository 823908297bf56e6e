/-
# `KmOS.Ata.Model` — the driver of an ATA drive

The functions of `ata.cc`, as programs that talk through the ports from `io_base_` on and
the one behind `ctrl_base_`.  With the bases of `ata_init` the latter is 0x3F8 and no port
of the drive at all: the alternate status is read four times after a drive is selected,
and nobody looks at it.

A sector is moved alone, and every sector takes a command of its own.

**What is left out.**  The lines on the serial port, and `kfree`.
-/
import KmOS.Block.Model
import KmOS.Lib.Ports

namespace KmOS

open PortProgram

/-! ## Registers -/

def ataRegData : UInt16 := 0x00
def ataRegSeccount0 : UInt16 := 0x02
def ataRegLba0 : UInt16 := 0x03
def ataRegLba1 : UInt16 := 0x04
def ataRegLba2 : UInt16 := 0x05
def ataRegHddevsel : UInt16 := 0x06
def ataRegCommand : UInt16 := 0x07
def ataRegStatus : UInt16 := 0x07
def ataRegAltstatus : UInt16 := 0x02

def ataCmdIdentify : UInt8 := 0xEC
def ataCmdReadSectors : UInt8 := 0x20
/-- The source has numbers for this one and the next. -/
def ataCmdWriteSectors : UInt8 := 0x30
def ataCmdFlush : UInt8 := 0xE7

def ataSrErr : UInt8 := 0x01
def ataSrDrq : UInt8 := 0x08
def ataSrDf : UInt8 := 0x20
def ataSrBsy : UInt8 := 0x80

def ataSectorSize : Nat := 512

/-- How often the status is read at most. -/
def ataPolls : Nat := 100000

/-! ## The device -/

structure ATAIdentifyData where
  model : List UInt8
  totalSectors : UInt32
  present : Bool

structure ATADevice where
  ioBase : UInt16
  ctrlBase : UInt16
  slave : UInt8
  identify : ATAIdentifyData

namespace ATADevice

/-- The constructor. -/
def new (ioBase ctrlBase : UInt16) (slave : UInt8) : ATADevice :=
  ⟨ioBase, ctrlBase, slave, ⟨List.replicate 41 0, 0, false⟩⟩

variable (d : ATADevice)

/-- `ata_io_wait`. -/
def ioWait : PortProgram Unit := do
  let _ ← inb (d.ctrlBase + ataRegAltstatus)
  let _ ← inb (d.ctrlBase + ataRegAltstatus)
  let _ ← inb (d.ctrlBase + ataRegAltstatus)
  let _ ← inb (d.ctrlBase + ataRegAltstatus)
  pure ()

def waitBusyLoop : Nat → PortProgram Bool
  | 0 => pure false
  | n + 1 => do
      let status ← inb (d.ioBase + ataRegStatus)
      if status &&& ataSrBsy = 0 then pure true else waitBusyLoop n

def waitBusy : PortProgram Bool := d.waitBusyLoop ataPolls

def waitDataReadyLoop : Nat → PortProgram Bool
  | 0 => pure false
  | n + 1 => do
      let status ← inb (d.ioBase + ataRegStatus)
      if status &&& ataSrBsy = 0 ∧ status &&& ataSrDrq ≠ 0 then pure true
      else if status &&& ataSrErr ≠ 0 ∨ status &&& ataSrDf ≠ 0 then pure false
      else waitDataReadyLoop n

def waitDataReady : PortProgram Bool := d.waitDataReadyLoop ataPolls

/-- What `select_drive` writes. -/
def driveHead (lba : UInt32) : UInt8 :=
  let head := (lba >>> 24).toUInt8 &&& 0x0F
  (0xE0 : UInt8) ||| (d.slave <<< 4) ||| head

def selectDrive (lba : UInt32) : PortProgram Unit := do
  outb (d.ioBase + ataRegHddevsel) (d.driveHead lba)
  d.ioWait

/-! ## `initialize` -/

/-- The 256 words of a sector. -/
def readWords : PortProgram (List UInt16) :=
  forRange (fun _ buffer => do
    let data ← inw (d.ioBase + ataRegData)
    pure (buffer ++ [data])) (ataSectorSize / 2) []

/-- The loop that ends the name of the model, from the index below `i` on down. -/
def trimModel : Nat → List UInt8 → List UInt8
  | 0, model => model
  | i + 1, model =>
      if model.getD i 0 = ' '.toNat.toUInt8 ∨ model.getD i 0 = 0 then trimModel i (model.set i 0)
      else model

/-- What `initialize` makes of the words of the drive. -/
def identified (buffer : List UInt16) : ATAIdentifyData where
  model := trimModel 40 (((List.range 20).flatMap fun i =>
    [(buffer.getD (27 + i) 0 >>> 8).toUInt8, (buffer.getD (27 + i) 0).toUInt8]) ++ [0])
  totalSectors := ((buffer.getD 61 0).toUInt32 <<< 16) ||| (buffer.getD 60 0).toUInt32
  present := true

/-- `initialize`; `memory` is whether `kmalloc` has any. -/
def initializeDevice (memory : Bool) : PortProgram (Bool × ATADevice) := do
  d.selectDrive 0
  outb (d.ioBase + ataRegSeccount0) 0
  outb (d.ioBase + ataRegLba0) 0
  outb (d.ioBase + ataRegLba1) 0
  outb (d.ioBase + ataRegLba2) 0
  outb (d.ioBase + ataRegCommand) ataCmdIdentify
  d.ioWait
  let status ← inb (d.ioBase + ataRegStatus)
  if status = 0 then pure (false, d)
  else
    let ready ← d.waitDataReady
    if ready = false then pure (false, d)
    else if memory = false then pure (false, d)
    else
      let buffer ← d.readWords
      pure (true, { d with identify := identified buffer })

/-! ## Sectors -/

/-- What `read_blocks` and `write_blocks` do for a sector before they move it; `false` if
`wait_busy` or `wait_data_ready` fails. -/
def askSector (lba : UInt32) (command : UInt8) : PortProgram Bool := do
  d.selectDrive lba
  let free ← d.waitBusy
  if free = false then pure false
  else
    outb (d.ioBase + ataRegSeccount0) 1
    outb (d.ioBase + ataRegLba0) lba.toUInt8
    outb (d.ioBase + ataRegLba1) (lba >>> 8).toUInt8
    outb (d.ioBase + ataRegLba2) (lba >>> 16).toUInt8
    outb (d.ioBase + ataRegCommand) command
    d.waitDataReady

/-- `sector * ATA_SECTOR_SIZE + i * 2`, in 32 bits. -/
def wordOffset (sector : UInt32) (i : Nat) : UInt32 :=
  sector * UInt32.ofNat ataSectorSize + UInt32.ofNat i * 2

/-- The loop that reads a sector. -/
def readData (sector : UInt32) (out : Buffer) : PortProgram Buffer :=
  forRange (fun i out => do
    let data ← inw (d.ioBase + ataRegData)
    let low := Function.update out (wordOffset sector i).toNat data.toUInt8
    pure (Function.update low (wordOffset sector i + 1).toNat (data >>> 8).toUInt8))
    (ataSectorSize / 2) out

/-- A word of the caller's buffer. -/
def wordOf (b : Buffer) (sector : UInt32) (i : Nat) : UInt16 :=
  (b (wordOffset sector i).toNat).toUInt16 |||
    ((b (wordOffset sector i + 1).toNat).toUInt16 <<< 8)

/-- The loop that writes a sector. -/
def writeData (sector : UInt32) (b : Buffer) : PortProgram Unit :=
  forRange (fun i _ => outw (d.ioBase + ataRegData) (wordOf b sector i)) (ataSectorSize / 2) ()

/-- The loop of `read_blocks`. -/
def readSectors (lba : UInt32) : Nat → UInt32 → Buffer → PortProgram (ReturnCode × Buffer)
  | 0, _, out => pure (.ok, out)
  | left + 1, sector, out => do
      let ready ← d.askSector (lba + sector) ataCmdReadSectors
      if ready = false then pure (.failure, out)
      else
        let out ← d.readData sector out
        readSectors lba left (sector + 1) out

/-- `read_blocks`. -/
def readBlocks (lba count : UInt32) (buffer : Option Buffer) :
    PortProgram (ReturnCode × Option Buffer) :=
  match buffer with
  | none => pure (.errorParam, none)
  | some b =>
      if d.identify.present = false ∨ count = 0 then pure (.errorParam, some b)
      else do
        let r ← d.readSectors lba count.toNat 0 b
        pure (r.1, some r.2)

/-- The loop of `write_blocks`. -/
def writeSectors (lba : UInt32) (b : Buffer) : Nat → UInt32 → PortProgram ReturnCode
  | 0, _ => pure .ok
  | left + 1, sector => do
      let ready ← d.askSector (lba + sector) ataCmdWriteSectors
      if ready = false then pure .failure
      else
        d.writeData sector b
        let free ← d.waitBusy
        if free = false then pure .failure
        else
          let status ← inb (d.ioBase + ataRegStatus)
          if status &&& (ataSrErr ||| ataSrDf) ≠ 0 then pure .failure
          else writeSectors lba b left (sector + 1)

/-- `write_blocks`; whether the drive has emptied its cache in time makes no difference. -/
def writeBlocks (lba count : UInt32) (buffer : Option Buffer) : PortProgram ReturnCode :=
  match buffer with
  | none => pure .errorParam
  | some b =>
      if d.identify.present = false ∨ count = 0 then pure .errorParam
      else do
        let code ← d.writeSectors lba b count.toNat 0
        if code ≠ .ok then pure code
        else
          outb (d.ioBase + ataRegCommand) ataCmdFlush
          let _ ← d.waitBusy
          pure .ok

end ATADevice

/-- `ata_init`; the argument is `g_primary_master`. -/
def ataInit (primary : Option ATADevice) (memory : Bool) : PortProgram (Option ATADevice) :=
  match primary with
  | some d => pure (some d)
  | none => do
      let r ← (ATADevice.new 0x1F0 0x3F6 0).initializeDevice memory
      pure (if r.1 = true then some r.2 else none)

end KmOS
