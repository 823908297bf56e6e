/-
# `KmOS.Ata.Bus` — what the driver does at the ports

A monitor watches the ports of a drive (`ataBusStep`).  It wants registers to be written
in order behind a choice of the drive, a command for a sector behind a status that says
that the drive is free, and the first data word of a command right behind a status that
says that the drive has it or wants it.  Then come all words of the sector, and nothing
else; and it takes no other port.

On every device, however it answers, the driver passes, whatever is called
(`ata_bus_protocol`).  The sectors that the monitor has seen moved are those that the
calls stand for, in order, as far as their replies say: the words that were read are in
the buffers, and those that were written come from there.
-/
import KmOS.Ata.Model

namespace KmOS

open PortProgram

/-! ## Statement -/

inductive SectorCommand
  | identify
  | read
  | write
  deriving DecidableEq

/-- The words of a sector, and where the drive was told that it is. -/
structure SectorMove where
  command : SectorCommand
  drive : UInt8
  lba : Nat
  words : List UInt16

inductive BusPhase
  | rest
  | chosen (head : UInt8) (free : Bool) (regs : List UInt8)
  | asked (command : SectorCommand) (drive : UInt8) (lba : Nat) (ready : Bool)
  /-- Some of the words have been moved. -/
  | moving (m : SectorMove)
  /-- All words have been written, and the drive has not said yet that it is done. -/
  | settling (m : SectorMove) (free : Bool)

structure AtaBus where
  phase : BusPhase
  log : List SectorMove

namespace AtaBus

def Moving (b : AtaBus) : Prop := ∃ m, b.phase = .moving m

/-- The status is read. -/
def polled (b : AtaBus) (status : UInt8) : Option AtaBus :=
  match b.phase with
  | .rest => some b
  | .chosen head _ regs => some { b with phase := .chosen head (status &&& ataSrBsy = 0) regs }
  | .asked c drive lba _ =>
      some { b with
        phase := .asked c drive lba (status &&& ataSrBsy = 0 ∧ status &&& ataSrDrq ≠ 0) }
  | .moving _ => none
  | .settling m free =>
      if free = true ∧ status &&& (ataSrErr ||| ataSrDf) = 0 then some ⟨.rest, b.log ++ [m]⟩
      else some { b with phase := .settling m (status &&& ataSrBsy = 0) }

def choose (b : AtaBus) (head : UInt8) : Option AtaBus :=
  match b.phase with
  | .moving _ => none
  | _ => some { b with phase := .chosen head false [] }

/-- The register behind `k` others. -/
def setRegister (b : AtaBus) (k : Nat) (v : UInt8) : Option AtaBus :=
  match b.phase with
  | .chosen head free regs =>
      if regs.length = k then some { b with phase := .chosen head free (regs ++ [v]) } else none
  | _ => none

/-- The sector that the registers name. -/
def sectorOf (head lba0 lba1 lba2 : UInt8) : Nat :=
  (head &&& 0x0F).toNat * 2 ^ 24 + lba2.toNat * 2 ^ 16 + lba1.toNat * 2 ^ 8 + lba0.toNat

def command (b : AtaBus) (v : UInt8) : Option AtaBus :=
  match b.phase with
  | .rest => if v = ataCmdFlush then some b else none
  | .chosen head free [count, lba0, lba1, lba2] =>
      let ask := fun c : SectorCommand =>
        some { b with phase := .asked c (head &&& 0xF0) (sectorOf head lba0 lba1 lba2) false }
      if v = ataCmdIdentify then ask .identify
      else if free = true ∧ count = 1 ∧ v = ataCmdReadSectors then ask .read
      else if free = true ∧ count = 1 ∧ v = ataCmdWriteSectors then ask .write
      else none
  | _ => none

/-- The words of `m` have been moved, and the last of them just now. -/
def moved (b : AtaBus) (m : SectorMove) : AtaBus :=
  if m.words.length < ataSectorSize / 2 then { b with phase := .moving m }
  else if m.command = .write then { b with phase := .settling m false }
  else ⟨.rest, b.log ++ [m]⟩

/-- A word goes to the drive, or comes from there. -/
def word (b : AtaBus) (out : Bool) (w : UInt16) : Option AtaBus :=
  match b.phase with
  | .asked c drive lba true =>
      if out = decide (c = .write) then some (b.moved ⟨c, drive, lba, [w]⟩) else none
  | .moving m =>
      if out = decide (m.command = .write) then some (b.moved { m with words := m.words ++ [w] })
      else none
  | _ => none

end AtaBus

/-- **The monitor.** -/
def ataBusStep (ioBase ctrlBase : UInt16) (b : AtaBus) : PortAccess → Option AtaBus
  | .inb port v =>
      if port = ioBase + ataRegStatus then b.polled v
      else if port = ctrlBase + ataRegAltstatus then
        match b.phase with
        | .moving _ => none
        | _ => some b
      else none
  | .inw port w => if port = ioBase + ataRegData then b.word false w else none
  | .outb port v =>
      if port = ioBase + ataRegHddevsel then b.choose v
      else if port = ioBase + ataRegSeccount0 then b.setRegister 0 v
      else if port = ioBase + ataRegLba0 then b.setRegister 1 v
      else if port = ioBase + ataRegLba1 then b.setRegister 2 v
      else if port = ioBase + ataRegLba2 then b.setRegister 3 v
      else if port = ioBase + ataRegCommand then b.command v
      else none
  | .outw port w => if port = ioBase + ataRegData then b.word true w else none

inductive AtaCall
  | initializeDevice (memory : Bool)
  | readBlocks (lba count : UInt32) (buffer : Option Buffer)
  | writeBlocks (lba count : UInt32) (buffer : Option Buffer)

inductive AtaReply
  | initialized (found : Bool)
  | read (code : ReturnCode) (buffer : Option Buffer)
  | written (code : ReturnCode)

namespace ATADevice

def call (d : ATADevice) : AtaCall → PortProgram (AtaReply × ATADevice)
  | .initializeDevice memory => do
      let r ← d.initializeDevice memory
      pure (.initialized r.1, r.2)
  | .readBlocks lba count buffer => do
      let r ← d.readBlocks lba count buffer
      pure (.read r.1 r.2, d)
  | .writeBlocks lba count buffer => do
      let code ← d.writeBlocks lba count buffer
      pure (.written code, d)

/-- One call after another. -/
def calls : List AtaCall → ATADevice → PortProgram (List AtaReply × ATADevice)
  | [], d => pure ([], d)
  | c :: cs, d => do
      let r ← d.call c
      let rest ← calls cs r.2
      pure (r.1 :: rest.1, rest.2)

/-- What chooses the drive. -/
def drive (d : ATADevice) : UInt8 := (0xE0 : UInt8) ||| (d.slave <<< 4)

/-- Sectors, from `lba` on. -/
def sectorMoves (d : ATADevice) (c : SectorCommand) (lba : UInt32) (ws : List (List UInt16)) :
    List SectorMove :=
  ws.zipIdx.map fun p => ⟨c, d.drive, (lba.toNat + p.2) % 2 ^ 28, p.1⟩

end ATADevice

/-- The byte `i` of sectors. -/
def sectorByte (ws : List (List UInt16)) (i : Nat) : UInt8 :=
  let w := (ws.getD (i / ataSectorSize) []).getD (i % ataSectorSize / 2) 0
  if i % 2 = 0 then w.toUInt8 else (w >>> 8).toUInt8

/-- A buffer that begins with sectors. -/
def fillSectors (ws : List (List UInt16)) (b : Buffer) : Buffer := fun i =>
  if i < ws.length * ataSectorSize then sectorByte ws i else b i

/-- `k` sectors of a buffer. -/
def bufferSectors (b : Buffer) (k : Nat) : List (List UInt16) :=
  (List.range k).map fun s => (List.range (ataSectorSize / 2)).map fun i =>
    (b (s * ataSectorSize + i * 2)).toUInt16 ||| ((b (s * ataSectorSize + i * 2 + 1)).toUInt16 <<< 8)

namespace AtaCall

/-- What a call moves that ends in a reply: it has done so many sectors. -/
def Moves (d : ATADevice) : AtaCall → AtaReply → ATADevice → List SectorMove → Prop
  | .initializeDevice _, .initialized found, d', moves =>
      if found = true then ∃ ws, ws.length = ataSectorSize / 2 ∧
        moves = [⟨.identify, d.drive, 0, ws⟩] ∧ d' = { d with identify := ATADevice.identified ws }
      else moves = [] ∧ d' = d
  | .readBlocks lba count buffer, .read code buffer', d', moves =>
      d' = d ∧ ∃ ws, (∀ w ∈ ws, w.length = ataSectorSize / 2) ∧ ws.length ≤ count.toNat ∧
        moves = d.sectorMoves .read lba ws ∧ buffer' = buffer.map (fillSectors ws) ∧
        (code = .ok ↔ d.identify.present = true ∧ buffer ≠ none ∧ count ≠ 0 ∧
          ws.length = count.toNat)
  | .writeBlocks lba count buffer, .written code, d', moves =>
      d' = d ∧ ∃ k ≤ count.toNat, moves = d.sectorMoves .write lba
          (bufferSectors (buffer.getD fun _ => 0) k) ∧
        (code = .ok ↔ d.identify.present = true ∧ buffer ≠ none ∧ count ≠ 0 ∧ k = count.toNat)
  | _, _, _, _ => False

/-- A buffer has an end. -/
def Fits : AtaCall → Prop
  | .initializeDevice _ => True
  | .readBlocks _ count _ => count.toNat * ataSectorSize ≤ 2 ^ 32
  | .writeBlocks _ count _ => count.toNat * ataSectorSize ≤ 2 ^ 32

/-- What the calls move, one after another. -/
def Session (d : ATADevice) : List AtaCall → List AtaReply → List SectorMove → Prop
  | [], [], moves => moves = []
  | c :: cs, r :: rs, moves =>
      ∃ d' m ms, c.Moves d r d' m ∧ Session d' cs rs ms ∧ moves = m ++ ms
  | _, _, _ => False

end AtaCall

/-! ## Arithmetic -/

theorem bit_cases {i : Nat} (hi : i < 8) :
    i = 0 ∨ i = 1 ∨ i = 2 ∨ i = 3 ∨ i = 4 ∨ i = 5 ∨ i = 6 ∨ i = 7 := by
  omega

theorem head_low (slave x : UInt8) :
    ((0xE0 : UInt8) ||| (slave <<< 4) ||| (x &&& 0x0F)) &&& 0x0F = x &&& 0x0F := by
  rw [← UInt8.toBitVec_inj]
  ext i hi
  rcases bit_cases hi with rfl | rfl | rfl | rfl | rfl | rfl | rfl | rfl <;> simp

theorem head_high (slave x : UInt8) :
    ((0xE0 : UInt8) ||| (slave <<< 4) ||| (x &&& (0x0F : UInt8))) &&& (0xF0 : UInt8) =
      (0xE0 : UInt8) ||| (slave <<< 4) := by
  rw [← UInt8.toBitVec_inj]
  ext i hi
  rcases bit_cases hi with rfl | rfl | rfl | rfl | rfl | rfl | rfl | rfl <;> simp

theorem ATADevice.driveHead_high (d : ATADevice) (lba : UInt32) :
    d.driveHead lba &&& (0xF0 : UInt8) = d.drive :=
  head_high d.slave _

/-- The registers name the sector, as far as they can. -/
theorem sectorOf_eq (d : ATADevice) (lba : UInt32) :
    AtaBus.sectorOf (d.driveHead lba) lba.toUInt8 (lba >>> 8).toUInt8 (lba >>> 16).toUInt8 =
      lba.toNat % 2 ^ 28 := by
  have hlow : d.driveHead lba &&& (0x0F : UInt8) = (lba >>> 24).toUInt8 &&& 0x0F := head_low d.slave _
  have hand : lba.toNat / 16777216 % 256 &&& 15 = lba.toNat / 16777216 % 16 := by
    rw [show (15 : Nat) = 2 ^ 4 - 1 from rfl, Nat.and_two_pow_sub_one_eq_mod]
    omega
  unfold AtaBus.sectorOf
  rw [hlow]
  simp [UInt32.toNat_shiftRight, Nat.shiftRight_eq_div_pow, UInt8.toNat_and]
  omega

/-! ## The ports -/

variable {io ctrl : UInt16} {b : AtaBus}

theorem busStep_status (v : UInt8) :
    ataBusStep io ctrl b (.inb (io + ataRegStatus) v) = b.polled v :=
  if_pos rfl

theorem busStep_altstatus (hports : ctrl + ataRegAltstatus ≠ io + ataRegStatus) (hb : ¬ b.Moving)
    (v : UInt8) : ataBusStep io ctrl b (.inb (ctrl + ataRegAltstatus) v) = some b := by
  unfold ataBusStep
  dsimp only
  rw [if_neg hports, if_pos rfl]
  split
  · next m hm => exact absurd ⟨m, hm⟩ hb
  · rfl

theorem busStep_data (w : UInt16) :
    ataBusStep io ctrl b (.inw (io + ataRegData) w) = b.word false w ∧
      ataBusStep io ctrl b (.outw (io + ataRegData) w) = b.word true w :=
  ⟨if_pos rfl, if_pos rfl⟩

theorem busStep_outb (v : UInt8) :
    ataBusStep io ctrl b (.outb (io + ataRegHddevsel) v) = b.choose v ∧
      ataBusStep io ctrl b (.outb (io + ataRegSeccount0) v) = b.setRegister 0 v ∧
      ataBusStep io ctrl b (.outb (io + ataRegLba0) v) = b.setRegister 1 v ∧
      ataBusStep io ctrl b (.outb (io + ataRegLba1) v) = b.setRegister 2 v ∧
      ataBusStep io ctrl b (.outb (io + ataRegLba2) v) = b.setRegister 3 v ∧
      ataBusStep io ctrl b (.outb (io + ataRegCommand) v) = b.command v := by
  simp [ataBusStep, ataRegCommand, ataRegHddevsel, ataRegSeccount0, ataRegLba0, ataRegLba1,
    ataRegLba2]

namespace ATADevice

variable {d : ATADevice} {log : List SectorMove} {c : SectorCommand} {drive : UInt8} {lba : Nat}

/-- The driver passes, and ends so. -/
def Passes {α : Type} (d : ATADevice) (p : PortProgram α) (b : AtaBus) (Q : α → AtaBus → Prop) :
    Prop :=
  p.Meets (ataBusStep d.ioBase d.ctrlBase) b Q

/-- The ports of `d` do not overlap where it would matter. -/
def PortsApart (d : ATADevice) : Prop :=
  d.ctrlBase + ataRegAltstatus ≠ d.ioBase + ataRegStatus

/-! ## Waiting -/

theorem ioWait_passes {Q : Unit → AtaBus → Prop} (hd : d.PortsApart) (hb : ¬ b.Moving)
    (hQ : Q () b) : d.Passes d.ioWait b Q := by
  have hstep := busStep_altstatus hd hb
  intro v₁
  refine ⟨b, hstep v₁, fun v₂ => ⟨b, hstep v₂, fun v₃ => ⟨b, hstep v₃, fun v₄ => ⟨b, hstep v₄, ?_⟩⟩⟩⟩
  exact hQ

/-- `g` says what the bus is after a status that has the bit of `wait_busy` clear, or set. -/
theorem waitBusy_passes {g : Bool → AtaBus} (h : ∀ v, b.polled v = some (g (v &&& ataSrBsy = 0)))
    (hg : ∀ v, (g false).polled v = some (g (v &&& ataSrBsy = 0))) :
    d.Passes d.waitBusy b fun free b' => b' = g free := by
  have hloop : ∀ n b, (∀ v, b.polled v = some (g (v &&& ataSrBsy = 0))) →
      d.Passes (d.waitBusyLoop (n + 1)) b fun free b' => b' = g free := by
    intro n
    induction n with
    | zero =>
        intro b hb v
        refine ⟨_, (busStep_status v).trans (hb v), ?_⟩
        show d.Passes (if v &&& ataSrBsy = 0 then pure true else pure false) _ _
        by_cases hv : v &&& ataSrBsy = 0
        · rw [if_pos hv, decide_eq_true hv]
          rfl
        · rw [if_neg hv, decide_eq_false hv]
          rfl
    | succ n ih =>
        intro b hb v
        refine ⟨_, (busStep_status v).trans (hb v), ?_⟩
        show d.Passes (if v &&& ataSrBsy = 0 then pure true else d.waitBusyLoop (n + 1)) _ _
        by_cases hv : v &&& ataSrBsy = 0
        · rw [if_pos hv, decide_eq_true hv]
          rfl
        · rw [if_neg hv, decide_eq_false hv]
          exact ih (g false) hg
  exact hloop 99999 b h

/-- The drive has been asked, and says that it is ready, if it does. -/
theorem waitDataReady_passes {ready : Bool} :
    d.Passes d.waitDataReady ⟨.asked c drive lba ready, log⟩ fun r b' =>
      (∃ ready', b' = ⟨.asked c drive lba ready', log⟩) ∧
        (r = true → b' = ⟨.asked c drive lba true, log⟩) := by
  have hloop : ∀ n ready, d.Passes (d.waitDataReadyLoop n) ⟨.asked c drive lba ready, log⟩
      fun r b' => (∃ ready', b' = ⟨.asked c drive lba ready', log⟩) ∧
        (r = true → b' = ⟨.asked c drive lba true, log⟩) := by
    intro n
    induction n with
    | zero =>
        intro ready
        exact ⟨⟨ready, rfl⟩, fun h => by cases h⟩
    | succ n ih =>
        intro ready v
        refine ⟨_, busStep_status v, ?_⟩
        show d.Passes (if v &&& ataSrBsy = 0 ∧ v &&& ataSrDrq ≠ 0 then pure true
          else if v &&& ataSrErr ≠ 0 ∨ v &&& ataSrDf ≠ 0 then pure false
          else d.waitDataReadyLoop n) _ _
        by_cases hv : v &&& ataSrBsy = 0 ∧ v &&& ataSrDrq ≠ 0
        · rw [if_pos hv, decide_eq_true hv]
          exact ⟨⟨true, rfl⟩, fun _ => rfl⟩
        · rw [if_neg hv]
          split
          · exact ⟨⟨_, rfl⟩, fun h => by cases h⟩
          · exact ih _
  exact hloop ataPolls ready

/-! ## Asking for a sector -/

/-- A drive is chosen. -/
theorem selectDrive_passes {Q : Unit → AtaBus → Prop} (hd : d.PortsApart) (hb : ¬ b.Moving)
    {sector : UInt32} (hQ : Q () ⟨.chosen (d.driveHead sector) false [], b.log⟩) :
    d.Passes (d.selectDrive sector) b Q := by
  have hchoose : b.choose (d.driveHead sector) =
      some ⟨.chosen (d.driveHead sector) false [], b.log⟩ := by
    unfold AtaBus.choose
    split
    · next m hm => exact absurd ⟨m, hm⟩ hb
    · rfl
  refine ⟨_, (busStep_outb _).1.trans hchoose, ?_⟩
  refine ioWait_passes hd ?_ hQ
  rintro ⟨m, hm⟩
  cases hm

/-- The four registers, and the command. -/
theorem registers_pass {α : Type} {p : PortProgram α} {Q : α → AtaBus → Prop} {head : UInt8}
    {free : Bool} {count lba0 lba1 lba2 cmd : UInt8} (b' : AtaBus)
    (hcmd : AtaBus.command ⟨.chosen head free [count, lba0, lba1, lba2], log⟩ cmd = some b')
    (hp : d.Passes p b' Q) :
    d.Passes (do
      outb (d.ioBase + ataRegSeccount0) count
      outb (d.ioBase + ataRegLba0) lba0
      outb (d.ioBase + ataRegLba1) lba1
      outb (d.ioBase + ataRegLba2) lba2
      outb (d.ioBase + ataRegCommand) cmd
      p) ⟨.chosen head free [], log⟩ Q :=
  ⟨_, (busStep_outb count).2.1, _, (busStep_outb lba0).2.2.1, _, (busStep_outb lba1).2.2.2.1, _,
    (busStep_outb lba2).2.2.2.2.1, b', (busStep_outb cmd).2.2.2.2.2.trans hcmd, hp⟩

/-- The commands for sectors. -/
inductive Commands : SectorCommand → UInt8 → Prop
  | read : Commands .read ataCmdReadSectors
  | write : Commands .write ataCmdWriteSectors

theorem askSector_passes (hd : d.PortsApart) (hb : ¬ b.Moving) {sector : UInt32} {cmd : UInt8}
    (hc : Commands c cmd) :
    d.Passes (d.askSector sector cmd) b fun ready b' => ¬ b'.Moving ∧ b'.log = b.log ∧
      (ready = true → b' = ⟨.asked c d.drive (sector.toNat % 2 ^ 28) true, b.log⟩) := by
  refine Meets.bind (selectDrive_passes hd hb ?_)
  let g : Bool → AtaBus := fun free => ⟨.chosen (d.driveHead sector) free [], b.log⟩
  refine Meets.bind ((waitBusy_passes (g := g) (fun _ => rfl) fun _ => rfl).mono ?_)
  rintro free b' rfl
  show d.Passes (if free = false then _ else _) _ _
  cases free with
  | false =>
      refine ⟨?_, rfl, fun h => by cases h⟩
      rintro ⟨m, hm⟩
      cases hm
  | true =>
      rw [if_neg (by decide)]
      refine registers_pass ⟨.asked c d.drive (sector.toNat % 2 ^ 28) false, b.log⟩ ?_ ?_
      · rw [← sectorOf_eq d, ← d.driveHead_high sector]
        cases hc with
        | read => rfl
        | write => rfl
      · refine waitDataReady_passes.mono fun ready b' h => ?_
        obtain ⟨⟨ready', rfl⟩, hready⟩ := h
        refine ⟨?_, rfl, hready⟩
        rintro ⟨m, hm⟩
        cases hm

end ATADevice

/-! ## Moving a sector -/

/-- The words `ws` of a sector have been moved. -/
def AtaBus.holding (c : SectorCommand) (drive : UInt8) (lba : Nat) (log : List SectorMove) :
    List UInt16 → AtaBus
  | [] => ⟨.asked c drive lba true, log⟩
  | w :: ws => AtaBus.moved ⟨.rest, log⟩ ⟨c, drive, lba, w :: ws⟩

namespace ATADevice

variable {d : ATADevice} {log : List SectorMove} {c : SectorCommand} {drive : UInt8} {lba : Nat}
  {ws : List UInt16}

theorem holding_word (c : SectorCommand) (drive : UInt8) (lba : Nat) (log : List SectorMove)
    (hws : ws.length < ataSectorSize / 2) (w : UInt16) :
    (AtaBus.holding c drive lba log ws).word (c = .write) w =
      some (AtaBus.holding c drive lba log (ws ++ [w])) := by
  cases ws with
  | nil => exact if_pos rfl
  | cons v ws =>
      have hmoving : AtaBus.holding c drive lba log (v :: ws) =
          ⟨.moving ⟨c, drive, lba, v :: ws⟩, log⟩ := if_pos hws
      rw [hmoving]
      exact if_pos rfl

theorem holding_full (hws : ws.length = ataSectorSize / 2) :
    AtaBus.holding c drive lba log ws =
      if c = .write then ⟨.settling ⟨c, drive, lba, ws⟩ false, log⟩
      else ⟨.rest, log ++ [⟨c, drive, lba, ws⟩]⟩ := by
  cases ws with
  | nil => cases hws
  | cons w ws => exact if_neg (Nat.not_lt_of_ge (Nat.le_of_eq hws.symm))

/-- The words of a sector, one after another, at `base` of a buffer. -/
def storeWords (ws : List UInt16) (base : Nat) (out : Buffer) : Buffer := fun a =>
  if base ≤ a ∧ a < base + 2 * ws.length then
    let w := ws.getD ((a - base) / 2) 0
    if (a - base) % 2 = 0 then w.toUInt8 else (w >>> 8).toUInt8
  else out a

theorem storeWords_append (w : UInt16) (base : Nat) (out : Buffer) :
    Function.update (Function.update (storeWords ws base out) (base + ws.length * 2) w.toUInt8)
      (base + ws.length * 2 + 1) (w >>> 8).toUInt8 = storeWords (ws ++ [w]) base out := by
  have hlen : (ws ++ [w]).length = ws.length + 1 := List.length_append
  funext a
  unfold storeWords
  rw [hlen]
  by_cases h₁ : a = base + ws.length * 2 + 1
  · subst h₁
    rw [Function.update_self, if_pos (by omega),
      show (base + ws.length * 2 + 1 - base) / 2 = ws.length by omega,
      show (base + ws.length * 2 + 1 - base) % 2 = 1 by omega]
    simp
  · rw [Function.update_of_ne h₁]
    by_cases h₀ : a = base + ws.length * 2
    · subst h₀
      rw [Function.update_self, if_pos (by omega),
        show (base + ws.length * 2 - base) / 2 = ws.length by omega,
        show (base + ws.length * 2 - base) % 2 = 0 by omega]
      simp
    · rw [Function.update_of_ne h₀]
      by_cases hin : base ≤ a ∧ a < base + 2 * ws.length
      · have hin' : base ≤ a ∧ a < base + 2 * (ws.length + 1) := by omega
        have hk : (a - base) / 2 < ws.length := by omega
        rw [if_pos hin, if_pos hin']
        simp [List.getElem?_append_left hk]
      · have hin' : ¬(base ≤ a ∧ a < base + 2 * (ws.length + 1)) := by omega
        rw [if_neg hin, if_neg hin']

theorem wordOffset_toNat (sector : UInt32) {i : Nat} (hi : i < ataSectorSize / 2)
    (hfit : (sector.toNat + 1) * ataSectorSize ≤ 2 ^ 32) :
    (wordOffset sector i).toNat = sector.toNat * ataSectorSize + i * 2 ∧
      (wordOffset sector i + 1).toNat = sector.toNat * ataSectorSize + i * 2 + 1 := by
  have hi' : i < 256 := hi
  have hfit' : (sector.toNat + 1) * 512 ≤ 4294967296 := hfit
  have hoff : (wordOffset sector i).toNat = sector.toNat * 512 + i * 2 := by
    unfold wordOffset ataSectorSize
    simp only [UInt32.toNat_add, UInt32.toNat_mul, UInt32.toNat_ofNat',
      show (2 : UInt32).toNat = 2 from rfl]
    omega
  refine ⟨hoff, ?_⟩
  rw [UInt32.toNat_add, hoff]
  show (sector.toNat * 512 + i * 2 + 1) % 4294967296 = sector.toNat * 512 + i * 2 + 1
  omega

/-- **Reading a sector.** -/
theorem readData_passes {sector : UInt32} (hc : c ≠ .write)
    (hfit : (sector.toNat + 1) * ataSectorSize ≤ 2 ^ 32) (out : Buffer) :
    d.Passes (d.readData sector out) ⟨.asked c drive lba true, log⟩ fun out' b' =>
      ∃ ws, ws.length = ataSectorSize / 2 ∧ b' = ⟨.rest, log ++ [⟨c, drive, lba, ws⟩]⟩ ∧
        out' = storeWords ws (sector.toNat * ataSectorSize) out := by
  have hstart : storeWords [] (sector.toNat * ataSectorSize) out = out := by
    funext a
    refine if_neg ?_
    rw [List.length_nil]
    omega
  unfold Passes readData
  refine (Meets.forRange (I := fun i out' b' => ∃ ws : List UInt16, ws.length = i ∧
    b' = AtaBus.holding c drive lba log ws ∧
      out' = storeWords ws (sector.toNat * ataSectorSize) out) ⟨[], rfl, rfl, hstart.symm⟩ ?_).mono ?_
  · rintro i out' b' hi ⟨ws, rfl, rfl, rfl⟩ w
    have hword := holding_word c drive lba log hi w
    rw [decide_eq_false hc] at hword
    obtain ⟨hlow, hhigh⟩ := wordOffset_toNat _ hi hfit
    refine ⟨_, (busStep_data w).1.trans hword, ws ++ [w], List.length_append, rfl, ?_⟩
    show Function.update (Function.update _ (wordOffset sector ws.length).toNat _)
      (wordOffset sector ws.length + 1).toNat _ = _
    rw [hlow, hhigh, storeWords_append]
  · rintro out' b' ⟨ws, hlen, rfl, rfl⟩
    refine ⟨ws, hlen, ?_, rfl⟩
    rw [holding_full hlen, if_neg hc]

/-- The words of the drive itself. -/
theorem readWords_passes (hc : c ≠ .write) :
    d.Passes d.readWords ⟨.asked c drive lba true, log⟩ fun ws b' =>
      ws.length = ataSectorSize / 2 ∧ b' = ⟨.rest, log ++ [⟨c, drive, lba, ws⟩]⟩ := by
  have hstart : ([] : List UInt16).length = 0 ∧
      (⟨.asked c drive lba true, log⟩ : AtaBus) = AtaBus.holding c drive lba log [] := ⟨rfl, rfl⟩
  unfold Passes readWords
  refine (Meets.forRange (I := fun i (ws : List UInt16) b' => ws.length = i ∧
    b' = AtaBus.holding c drive lba log ws) hstart ?_).mono ?_
  · rintro i ws b' hi ⟨rfl, rfl⟩ w
    have hword := holding_word c drive lba log hi w
    rw [decide_eq_false hc] at hword
    exact ⟨_, (busStep_data w).1.trans hword, List.length_append, rfl⟩
  · rintro ws b' ⟨hlen, rfl⟩
    refine ⟨hlen, ?_⟩
    rw [holding_full hlen, if_neg hc]

/-- A sector of a buffer. -/
def bufferWords (b : Buffer) (s n : Nat) : List UInt16 :=
  (List.range n).map fun i =>
    (b (s * ataSectorSize + i * 2)).toUInt16 ||| ((b (s * ataSectorSize + i * 2 + 1)).toUInt16 <<< 8)

/-- **Writing a sector.** -/
theorem writeData_passes {sector : UInt32} (hfit : (sector.toNat + 1) * ataSectorSize ≤ 2 ^ 32)
    (buffer : Buffer) :
    d.Passes (d.writeData sector buffer) ⟨.asked .write drive lba true, log⟩ fun _ b' =>
      b' = ⟨.settling ⟨.write, drive, lba, bufferWords buffer sector.toNat (ataSectorSize / 2)⟩ false,
        log⟩ := by
  have hstart : (⟨.asked .write drive lba true, log⟩ : AtaBus) =
      AtaBus.holding .write drive lba log (bufferWords buffer sector.toNat 0) := rfl
  unfold Passes writeData
  refine (Meets.forRange (I := fun i (_ : Unit) b' =>
    b' = AtaBus.holding .write drive lba log (bufferWords buffer sector.toNat i)) hstart ?_).mono ?_
  · rintro i _ b' hi rfl
    have hlen : (bufferWords buffer sector.toNat i).length = i := by simp [bufferWords]
    have hword := holding_word .write drive lba log
      (Nat.lt_of_le_of_lt (Nat.le_of_eq hlen) hi) (wordOf buffer sector i)
    refine ⟨_, (busStep_data _).2.trans hword, ?_⟩
    show AtaBus.holding _ _ _ _ _ = AtaBus.holding _ _ _ _ _
    obtain ⟨hlow, hhigh⟩ := wordOffset_toNat _ hi hfit
    unfold bufferWords wordOf
    rw [List.range_succ, List.map_append, hlow, hhigh]
    rfl
  · rintro _ b' rfl
    have hlen : (bufferWords buffer sector.toNat (ataSectorSize / 2)).length = ataSectorSize / 2 := by
      simp [bufferWords]
    rw [holding_full hlen, if_pos rfl]

/-! ## The loops -/

theorem sectorMoves_append (lba₀ : UInt32) (wss : List (List UInt16)) (ws : List UInt16) :
    d.sectorMoves c lba₀ (wss ++ [ws]) =
      d.sectorMoves c lba₀ wss ++ [⟨c, d.drive, (lba₀.toNat + wss.length) % 2 ^ 28, ws⟩] := by
  unfold sectorMoves
  rw [List.zipIdx_append, List.map_append]
  simp

theorem sector_mod (lba₀ sector : UInt32) :
    (lba₀ + sector).toNat % 2 ^ 28 = (lba₀.toNat + sector.toNat) % 2 ^ 28 := by
  rw [UInt32.toNat_add]
  omega

theorem fillSectors_append {wss : List (List UInt16)} (hws : ws.length = ataSectorSize / 2)
    (out : Buffer) :
    storeWords ws (wss.length * ataSectorSize) (fillSectors wss out) =
      fillSectors (wss ++ [ws]) out := by
  have hlen : (wss ++ [ws]).length = wss.length + 1 := List.length_append
  funext a
  unfold storeWords fillSectors sectorByte
  rw [hlen, hws]
  clear hws hlen
  unfold ataSectorSize
  dsimp only [Nat.reduceDiv]
  by_cases hlast : wss.length * 512 ≤ a ∧ a < wss.length * 512 + 2 * 256
  · have hin : a < (wss.length + 1) * 512 := by omega
    have hdiv : a / 512 = wss.length := by omega
    have hhalf : (a - wss.length * 512) / 2 = a % 512 / 2 := by omega
    have hodd : (a - wss.length * 512) % 2 = a % 2 := by omega
    rw [if_pos hlast, if_pos hin, hdiv, hhalf, hodd]
    simp
  · rw [if_neg hlast]
    by_cases hbefore : a < wss.length * 512
    · have hin : a < (wss.length + 1) * 512 :=
        Nat.lt_of_lt_of_le hbefore (Nat.mul_le_mul_right 512 (Nat.le_succ _))
      have hdiv : a / 512 < wss.length := by omega
      rw [if_pos hbefore, if_pos hin]
      simp [List.getElem?_append_left hdiv]
    · have hle : wss.length * 512 + 512 ≤ a := by omega
      have hout : ¬ a < (wss.length + 1) * 512 := by
        rw [Nat.succ_mul]
        exact Nat.not_lt_of_ge hle
      rw [if_neg hbefore, if_neg hout]

/-- What the loop of `read_blocks` has done when so many sectors are there. -/
structure ReadSoFar (d : ATADevice) (lba₀ : UInt32) (out : Buffer) (log : List SectorMove)
    (wss : List (List UInt16)) (out' : Buffer) (b : AtaBus) : Prop where
  words : ∀ ws ∈ wss, ws.length = ataSectorSize / 2
  quiet : ¬ b.Moving
  log : b.log = log ++ d.sectorMoves .read lba₀ wss
  filled : out' = fillSectors wss out

/-- **The loop of `read_blocks`.** -/
theorem readSectors_passes (hd : d.PortsApart) {lba₀ : UInt32} (left : Nat) (sector : UInt32)
    {out out₁ : Buffer} {wss : List (List UInt16)} (hsofar : ReadSoFar d lba₀ out log wss out₁ b)
    (hsector : sector.toNat = wss.length) (hfit : (wss.length + left) * ataSectorSize ≤ 2 ^ 32) :
    d.Passes (d.readSectors lba₀ left sector out₁) b fun r b' => ∃ wss',
      ReadSoFar d lba₀ out log wss' r.2 b' ∧ wss'.length ≤ wss.length + left ∧
        (r.1 = .ok ↔ wss'.length = wss.length + left) := by
  induction left generalizing b sector out₁ wss with
  | zero => exact ⟨wss, hsofar, Nat.le_refl _, iff_of_true rfl rfl⟩
  | succ left ih =>
      have hone : (sector.toNat + 1) * ataSectorSize ≤ 2 ^ 32 := by
        rw [hsector]
        exact Nat.le_trans (Nat.mul_le_mul_right _ (by omega)) hfit
      have hnext : (sector + 1).toNat = wss.length + 1 := by
        have hle : (wss.length + 1) * 512 ≤ 4294967296 := hsector ▸ hone
        rw [UInt32.toNat_add, hsector]
        show (wss.length + 1) % 4294967296 = wss.length + 1
        omega
      refine Meets.bind ((askSector_passes hd hsofar.quiet .read).mono ?_)
      rintro ready b₁ ⟨hquiet, hlog, hready⟩
      show d.Passes (if ready = false then _ else _) _ _
      cases ready with
      | false =>
          refine ⟨wss, ⟨hsofar.words, hquiet, hlog.trans hsofar.log, hsofar.filled⟩, by omega, ?_⟩
          exact iff_of_false (fun h => by cases h) (by omega)
      | true =>
          rw [if_neg (by decide), hready rfl]
          refine Meets.bind ((readData_passes (by decide) hone out₁).mono ?_)
          rintro out₂ b₂ ⟨ws, hws, rfl, rfl⟩
          have hnow : ReadSoFar d lba₀ out log (wss ++ [ws])
              (storeWords ws (sector.toNat * ataSectorSize) out₁)
              ⟨.rest, b.log ++ [⟨.read, d.drive, (lba₀ + sector).toNat % 2 ^ 28, ws⟩]⟩ := by
            refine ⟨?_, ?_, ?_, ?_⟩
            · intro w hw
              rcases List.mem_append.mp hw with hw | hw
              · exact hsofar.words w hw
              · rw [List.mem_singleton.mp hw]
                exact hws
            · rintro ⟨m, hm⟩
              cases hm
            · rw [sectorMoves_append, ← hsector, ← sector_mod, ← List.append_assoc, ← hsofar.log]
            · rw [hsector, hsofar.filled, fillSectors_append hws]
          have hlen : (wss ++ [ws]).length = wss.length + 1 := List.length_append
          have hfit' : ((wss ++ [ws]).length + left) * ataSectorSize ≤ 2 ^ 32 := by
            rw [hlen, Nat.add_assoc, Nat.add_comm 1 left]
            exact hfit
          refine (ih _ hnow (hnext.trans hlen.symm) hfit').mono ?_
          rintro r b' ⟨wss', hsofar', hle, hok⟩
          rw [hlen] at hle hok
          exact ⟨wss', hsofar', by omega, hok.trans (by omega)⟩

/-- **The loop of `write_blocks`.** -/
theorem writeSectors_passes (hd : d.PortsApart) {lba₀ : UInt32} (left : Nat) (sector : UInt32)
    {k : Nat} {buffer : Buffer} (hquiet : ¬ b.Moving)
    (hlog : b.log = log ++ d.sectorMoves .write lba₀ (bufferSectors buffer k))
    (hrest : left ≠ 0 ∨ b.phase = .rest) (hsector : sector.toNat = k)
    (hfit : (k + left) * ataSectorSize ≤ 2 ^ 32) :
    d.Passes (d.writeSectors lba₀ buffer left sector) b fun code b' => ∃ k' ≤ k + left,
      ¬ b'.Moving ∧ b'.log = log ++ d.sectorMoves .write lba₀ (bufferSectors buffer k') ∧
        (code = .ok → b'.phase = .rest) ∧ (code = .ok ↔ k' = k + left) := by
  induction left generalizing b sector k with
  | zero =>
      have hphase : b.phase = .rest := hrest.resolve_left fun h => h rfl
      exact ⟨k, Nat.le_refl _, hquiet, hlog, fun _ => hphase, iff_of_true rfl rfl⟩
  | succ left ih =>
      have failed : ∀ b' : AtaBus, ¬ b'.Moving → b'.log = b.log → ∃ k' ≤ k + (left + 1),
          ¬ b'.Moving ∧ b'.log = log ++ d.sectorMoves .write lba₀ (bufferSectors buffer k') ∧
            (ReturnCode.failure = .ok → b'.phase = .rest) ∧
              (ReturnCode.failure = .ok ↔ k' = k + (left + 1)) := by
        intro b' hb' hl
        have hk : k ≠ k + (left + 1) := by omega
        refine ⟨k, by omega, hb', hl.trans hlog, fun h => ?_, iff_of_false (fun h => ?_) hk⟩
        · cases h
        · cases h
      have hone : (sector.toNat + 1) * ataSectorSize ≤ 2 ^ 32 := by
        rw [hsector]
        exact Nat.le_trans (Nat.mul_le_mul_right _ (by omega)) hfit
      have hnext : (sector + 1).toNat = k + 1 := by
        have hle : (k + 1) * 512 ≤ 4294967296 := hsector ▸ hone
        rw [UInt32.toNat_add, hsector]
        show (k + 1) % 4294967296 = k + 1
        omega
      refine Meets.bind ((askSector_passes hd hquiet .write).mono ?_)
      rintro ready b₁ ⟨hquiet₁, hlog₁, hready⟩
      show d.Passes (if ready = false then _ else _) _ _
      cases ready with
      | false => exact failed b₁ hquiet₁ hlog₁
      | true =>
          rw [if_neg (by decide), hready rfl]
          let m : SectorMove := ⟨.write, d.drive, (lba₀ + sector).toNat % 2 ^ 28,
            bufferWords buffer sector.toNat (ataSectorSize / 2)⟩
          refine Meets.bind ((writeData_passes hone buffer).mono ?_)
          rintro _ b₂ rfl
          let g : Bool → AtaBus := fun free => ⟨.settling m free, b.log⟩
          refine Meets.bind ((waitBusy_passes (g := g) (fun _ => rfl) fun _ => rfl).mono ?_)
          rintro free b₃ rfl
          have hsettling : ∀ f, ¬ (⟨.settling m f, b.log⟩ : AtaBus).Moving := by
            rintro f ⟨m, hm⟩
            cases hm
          show d.Passes (if free = false then _ else _) _ _
          cases free with
          | false => exact failed _ (hsettling false) rfl
          | true =>
              rw [if_neg (by decide)]
              intro v
              by_cases hv : v &&& (ataSrErr ||| ataSrDf) = 0
              · refine ⟨⟨.rest, b.log ++ [m]⟩, (busStep_status v).trans (if_pos ⟨rfl, hv⟩), ?_⟩
                show d.Passes (if v &&& (ataSrErr ||| ataSrDf) ≠ 0 then _ else _) _ _
                rw [if_neg (not_not.mpr hv)]
                have hlog' : b.log ++ [m] =
                    log ++ d.sectorMoves .write lba₀ (bufferSectors buffer (k + 1)) := by
                  have hsectors : bufferSectors buffer (k + 1) =
                      bufferSectors buffer k ++ [bufferWords buffer k (ataSectorSize / 2)] := by
                    unfold bufferSectors
                    rw [List.range_succ, List.map_append]
                    rfl
                  have hlen : (bufferSectors buffer k).length = k := by simp [bufferSectors]
                  rw [hsectors, sectorMoves_append, hlen, ← List.append_assoc, ← hlog, ← hsector,
                    ← sector_mod]
                have hfit' : (k + 1 + left) * ataSectorSize ≤ 2 ^ 32 := by
                  rw [Nat.add_assoc, Nat.add_comm 1 left]
                  exact hfit
                refine (ih _ ?_ hlog' (Or.inr rfl) hnext hfit').mono ?_
                · rintro ⟨m, hm⟩
                  cases hm
                · rintro code b' ⟨k', hk', hquiet', hl, hphase, hok⟩
                  exact ⟨k', by omega, hquiet', hl, hphase, hok.trans (by omega)⟩
              · refine ⟨_, (busStep_status v).trans (if_neg fun h => hv h.2), ?_⟩
                show d.Passes (if v &&& (ataSrErr ||| ataSrDf) ≠ 0 then _ else _) _ _
                rw [if_pos hv]
                exact failed _ (hsettling _) rfl

/-! ## The calls -/

theorem initializeDevice_passes (hd : d.PortsApart) (hb : ¬ b.Moving) (memory : Bool) :
    d.Passes (d.initializeDevice memory) b fun r b' => ¬ b'.Moving ∧ ∃ moves,
      b'.log = b.log ++ moves ∧
        AtaCall.Moves d (.initializeDevice memory) (.initialized r.1) r.2 moves := by
  have nothing : ∀ ready, ¬ (⟨.asked .identify d.drive 0 ready, b.log⟩ : AtaBus).Moving ∧ ∃ moves,
      (⟨.asked .identify d.drive 0 ready, b.log⟩ : AtaBus).log = b.log ++ moves ∧
        AtaCall.Moves d (.initializeDevice memory) (.initialized false) d moves := by
    intro ready
    refine ⟨?_, [], (List.append_nil _).symm, rfl, rfl⟩
    rintro ⟨m, hm⟩
    cases hm
  refine Meets.bind (selectDrive_passes hd hb ?_)
  refine registers_pass ⟨.asked .identify d.drive 0 false, b.log⟩ ?_ ?_
  · have hsector := sectorOf_eq d 0
    have hdrive := d.driveHead_high 0
    rw [← hdrive]
    exact congrArg (fun n => some (⟨.asked .identify _ n false, b.log⟩ : AtaBus)) hsector
  refine Meets.bind (ioWait_passes hd (nothing false).1 ?_)
  intro v
  refine ⟨_, busStep_status v, ?_⟩
  show d.Passes (if v = 0 then _ else _) _ _
  by_cases hv : v = 0
  · rw [if_pos hv]
    exact nothing _
  · rw [if_neg hv]
    refine Meets.bind (waitDataReady_passes.mono ?_)
    rintro ready b₁ ⟨⟨ready', rfl⟩, hready⟩
    show d.Passes (if ready = false then _ else if memory = false then _ else _) _ _
    cases ready with
    | false => exact nothing ready'
    | true =>
        rw [if_neg (by decide)]
        cases memory with
        | false => exact nothing ready'
        | true =>
            rw [if_neg (by decide), hready rfl]
            refine Meets.bind ((readWords_passes (by decide)).mono ?_)
            rintro ws b₂ ⟨hws, rfl⟩
            refine ⟨?_, _, rfl, ws, hws, rfl, rfl⟩
            rintro ⟨m, hm⟩
            cases hm

theorem readBlocks_passes (hd : d.PortsApart) (hb : ¬ b.Moving) {lba₀ count : UInt32}
    (hfit : count.toNat * ataSectorSize ≤ 2 ^ 32) (buffer : Option Buffer) :
    d.Passes (d.readBlocks lba₀ count buffer) b fun r b' => ¬ b'.Moving ∧ ∃ moves,
      b'.log = b.log ++ moves ∧
        AtaCall.Moves d (.readBlocks lba₀ count buffer) (.read r.1 r.2) d moves := by
  have hnil : ∀ out : Buffer, fillSectors [] out = out := fun out => funext fun i =>
    if_neg (by simp)
  have hnone : b.log = b.log ++ d.sectorMoves .read lba₀ [] := (List.append_nil _).symm
  unfold readBlocks
  cases buffer with
  | none =>
      refine ⟨hb, _, hnone, rfl, [], List.forall_mem_nil _, Nat.zero_le _, rfl, rfl, ?_⟩
      exact iff_of_false (fun h => by cases h) fun h => h.2.1 rfl
  | some out =>
      dsimp only
      by_cases hparam : d.identify.present = false ∨ count = 0
      · rw [if_pos hparam]
        refine ⟨hb, _, hnone, rfl, [], List.forall_mem_nil _, Nat.zero_le _, rfl, ?_, ?_⟩
        · exact congrArg some (hnil out).symm
        · refine iff_of_false (fun h => by cases h) ?_
          rintro ⟨hpresent, -, hcount, -⟩
          rcases hparam with h | h
          · rw [h] at hpresent
            cases hpresent
          · exact hcount h
      · rw [if_neg hparam]
        obtain ⟨hpresent, hcount⟩ := not_or.mp hparam
        have hstart : ReadSoFar d lba₀ out b.log [] out b :=
          ⟨List.forall_mem_nil _, hb, hnone, (hnil out).symm⟩
        refine Meets.bind ((readSectors_passes hd count.toNat 0 hstart rfl
          (by rw [List.length_nil, Nat.zero_add]; exact hfit)).mono ?_)
        rintro ⟨code, out'⟩ b' ⟨wss, hsofar, hle, hok⟩
        rw [List.length_nil, Nat.zero_add] at hle hok
        refine ⟨hsofar.quiet, _, hsofar.log, rfl, wss, hsofar.words, hle, rfl,
          congrArg some hsofar.filled, hok.trans ?_⟩
        constructor
        · intro h
          exact ⟨by simpa using hpresent, Option.some_ne_none out, hcount, h⟩
        · exact fun h => h.2.2.2

theorem writeBlocks_passes (hd : d.PortsApart) (hb : ¬ b.Moving) {lba₀ count : UInt32}
    (hfit : count.toNat * ataSectorSize ≤ 2 ^ 32) (buffer : Option Buffer) :
    d.Passes (d.writeBlocks lba₀ count buffer) b fun code b' => ¬ b'.Moving ∧ ∃ moves,
      b'.log = b.log ++ moves ∧
        AtaCall.Moves d (.writeBlocks lba₀ count buffer) (.written code) d moves := by
  have hnone : ∀ out, b.log = b.log ++ d.sectorMoves .write lba₀ (bufferSectors out 0) := fun _ =>
    (List.append_nil _).symm
  unfold writeBlocks
  cases buffer with
  | none =>
      refine ⟨hb, _, hnone _, rfl, 0, Nat.zero_le _, rfl, ?_⟩
      exact iff_of_false (fun h => by cases h) fun h => h.2.1 rfl
  | some out =>
      dsimp only
      by_cases hparam : d.identify.present = false ∨ count = 0
      · rw [if_pos hparam]
        refine ⟨hb, _, hnone out, rfl, 0, Nat.zero_le _, rfl, ?_⟩
        refine iff_of_false (fun h => by cases h) ?_
        rintro ⟨hpresent, -, hcount, -⟩
        rcases hparam with h | h
        · rw [h] at hpresent
          cases hpresent
        · exact hcount h
      · rw [if_neg hparam]
        obtain ⟨hpresent, hcount⟩ := not_or.mp hparam
        have hleft : count.toNat ≠ 0 := fun h => hcount (UInt32.toNat_inj.mp h)
        refine Meets.bind ((writeSectors_passes hd count.toNat 0 (k := 0) hb
          (hnone out) (Or.inl hleft) rfl (by rw [Nat.zero_add]; exact hfit)).mono ?_)
        rintro code b' ⟨k, hk, hquiet, hlog, hrest, hok⟩
        rw [Nat.zero_add] at hk hok
        have hmoves : ∀ code', (code' = .ok ↔ code = .ok) → AtaCall.Moves d
            (.writeBlocks lba₀ count (some out)) (.written code') d
            (d.sectorMoves .write lba₀ (bufferSectors out k)) := by
          intro code' hcode
          refine ⟨rfl, k, hk, rfl, hcode.trans (hok.trans ?_)⟩
          constructor
          · intro h
            exact ⟨by simpa using hpresent, Option.some_ne_none out, hcount, h⟩
          · exact fun h => h.2.2.2
        show d.Passes (if code ≠ .ok then _ else _) _ _
        by_cases hcode : code = .ok
        · rw [if_neg (not_not.mpr hcode)]
          obtain ⟨phase, log⟩ := b'
          obtain rfl : phase = .rest := hrest hcode
          refine ⟨_, (busStep_outb _).2.2.2.2.2, ?_⟩
          show d.Passes (do
            let _ ← d.waitBusy
            pure ReturnCode.ok) ⟨.rest, log⟩ _
          refine Meets.bind ((waitBusy_passes (g := fun _ => ⟨.rest, log⟩) (fun _ => rfl)
            fun _ => rfl).mono ?_)
          rintro free b' rfl
          refine ⟨hquiet, _, hlog, hmoves .ok (iff_of_true rfl hcode)⟩
        · rw [if_pos hcode]
          exact ⟨hquiet, _, hlog, hmoves code Iff.rfl⟩

theorem call_passes (hd : d.PortsApart) (hb : ¬ b.Moving) {cl : AtaCall} (hfit : cl.Fits) :
    d.Passes (d.call cl) b fun r b' => r.2.PortsApart ∧ r.2.ioBase = d.ioBase ∧
      r.2.ctrlBase = d.ctrlBase ∧ ¬ b'.Moving ∧ ∃ moves, b'.log = b.log ++ moves ∧
        cl.Moves d r.1 r.2 moves := by
  cases cl with
  | initializeDevice memory =>
      refine Meets.bind ((initializeDevice_passes hd hb memory).mono ?_)
      rintro ⟨found, d'⟩ b' ⟨hquiet, moves, hlog, hmoves⟩
      have hports : d'.ioBase = d.ioBase ∧ d'.ctrlBase = d.ctrlBase := by
        unfold AtaCall.Moves at hmoves
        dsimp only at hmoves
        split at hmoves
        · obtain ⟨ws, -, -, rfl⟩ := hmoves
          exact ⟨rfl, rfl⟩
        · rw [hmoves.2]
          exact ⟨rfl, rfl⟩
      refine ⟨?_, hports.1, hports.2, hquiet, moves, hlog, hmoves⟩
      unfold PortsApart
      rw [hports.1, hports.2]
      exact hd
  | readBlocks lba₀ count buffer =>
      refine Meets.bind ((readBlocks_passes hd hb hfit buffer).mono ?_)
      rintro r b' h
      exact ⟨hd, rfl, rfl, h⟩
  | writeBlocks lba₀ count buffer =>
      refine Meets.bind ((writeBlocks_passes hd hb hfit buffer).mono ?_)
      rintro r b' h
      exact ⟨hd, rfl, rfl, h⟩

theorem calls_pass (hd : d.PortsApart) (hb : ¬ b.Moving) {cls : List AtaCall}
    (hfit : ∀ cl ∈ cls, cl.Fits) :
    d.Passes (calls cls d) b fun r b' => ¬ b'.Moving ∧ ∃ moves, b'.log = b.log ++ moves ∧
      AtaCall.Session d cls r.1 moves := by
  induction cls generalizing d b with
  | nil => exact ⟨hb, [], (List.append_nil _).symm, rfl⟩
  | cons cl cls ih =>
      obtain ⟨hfirst, hothers⟩ := List.forall_mem_cons.mp hfit
      refine Meets.bind ((call_passes hd hb hfirst).mono ?_)
      rintro ⟨r, d'⟩ b₁ ⟨hd', hio, hctrl, hquiet, moves, hlog, hmoves⟩
      have hrest := ih hd' hquiet hothers
      unfold Passes at hrest
      rw [hio, hctrl] at hrest
      refine Meets.bind (hrest.mono ?_)
      rintro ⟨rs, d''⟩ b₂ ⟨hquiet', moves', hlog', hsession⟩
      refine ⟨hquiet', moves ++ moves', ?_, d', moves, moves', hmoves, hsession, rfl⟩
      rw [hlog', hlog, List.append_assoc]

end ATADevice

/-- **The driver keeps the protocol of the ports**, whatever is behind them and whatever is
called, and what has gone through them is what the calls account for. -/
theorem ata_bus_protocol {σ : Type} (dev : PortDevice σ) (s : σ) {d : ATADevice}
    (hd : d.PortsApart) {calls : List AtaCall} (hfit : ∀ cl ∈ calls, cl.Fits) :
    ∃ b, passes (ataBusStep d.ioBase d.ctrlBase) ⟨.rest, []⟩ ((d.calls calls).trace dev s) = some b ∧
      ¬ b.Moving ∧ AtaCall.Session d calls ((d.calls calls).run dev s).1.1 b.log := by
  have hquiet : ¬ (⟨.rest, []⟩ : AtaBus).Moving := by
    rintro ⟨m, hm⟩
    cases hm
  obtain ⟨b, hb, hquiet', moves, hlog, hsession⟩ :=
    (ATADevice.calls_pass hd hquiet hfit).accepts dev s
  rw [List.nil_append] at hlog
  exact ⟨b, hb, hquiet', hlog ▸ hsession⟩

/-- A device that always says that it is ready, and gives the words 0, 1 and so on. -/
def counting : PortDevice Nat where
  inb n port := (if port = 0x1F0 + ataRegStatus then ataSrDrq else 0, n)
  inw n _ := (UInt16.ofNat n, n + 1)
  outb n _ _ := n
  outw n _ _ := n

/-- What `ata_bus_protocol_found` calls. -/
def findAndMove : List AtaCall :=
  [.initializeDevice true, .readBlocks 7 2 (some fun _ => 0),
    .writeBlocks 0x12345678 2 (some fun i => UInt8.ofNat i)]

theorem findAndMove_fits : ∀ cl ∈ findAndMove, cl.Fits := by
  intro cl hcl
  simp only [findAndMove, List.mem_cons, List.not_mem_nil, or_false] at hcl
  rcases hcl with rfl | rfl | rfl
  · trivial
  · show (2 : UInt32).toNat * 512 ≤ 2 ^ 32
    decide
  · show (2 : UInt32).toNat * 512 ≤ 2 ^ 32
    decide

/-- The drive of `ata_init` is found, and two sectors are read and written. -/
theorem ata_bus_protocol_found :
    ∃ b, passes (ataBusStep 0x1F0 0x3F6) ⟨.rest, []⟩
        (((ATADevice.new 0x1F0 0x3F6 0).calls findAndMove).trace counting 0) = some b ∧
      ¬ b.Moving ∧ AtaCall.Session (ATADevice.new 0x1F0 0x3F6 0) findAndMove
        (((ATADevice.new 0x1F0 0x3F6 0).calls findAndMove).run counting 0).1.1 b.log := by
  have hd : (ATADevice.new 0x1F0 0x3F6 0).PortsApart := by
    unfold ATADevice.PortsApart
    decide
  exact ata_bus_protocol counting 0 hd findAndMove_fits

end KmOS
