/-
# `KmOS.Ata.Drive` — the driver and a drive

A channel with two drives, as a host sees them through the ports (`ataChannel`): the
registers, the status, and the words of a sector on their way.  After a command, and after
a sector has come in, the drive is busy for as many readings of the status as it likes,
but fewer than the driver is ready to wait for.

Between two calls the channel is `Ready`, and every call leaves it so.  A sector that the
drive has is moved whole (`askSector_run`, `readData_run`, `writeData_run`), and an
address past its end is an error.

**What is left out.**  The driver asks for one sector at a time and by its number; the
drive answers other requests with an error.
-/
import KmOS.Ata.Bus

namespace KmOS

open PortProgram

/-! ## The drive -/

def ataSrDrdy : UInt8 := 0x40

structure AtaDisk where
  sectors : Nat
  /-- The words of a sector. -/
  word : Nat → Nat → UInt16
  /-- What the drive says about itself. -/
  identity : Nat → UInt16

/-- A sector is replaced. -/
def AtaDisk.store (disk : AtaDisk) (lba : Nat) (words : List UInt16) : AtaDisk :=
  { disk with word := Function.update disk.word lba fun i => words.getD i 0 }

inductive AtaPhase
  | idle
  | sending (rest : List UInt16)
  | receiving (second : Bool) (lba : Nat) (got : List UInt16)

structure AtaChannel where
  /-- The first drive, and the second. -/
  disk : Bool → AtaDisk
  head : UInt8
  count : UInt8
  lba0 : UInt8
  lba1 : UInt8
  lba2 : UInt8
  phase : AtaPhase
  error : Bool
  /-- How often the status will still say that the drive is busy. -/
  busy : Nat
  latency : Nat → Fin ataPolls
  /-- How often it has been busy. -/
  events : Nat

namespace AtaChannel

/-- The drive that `head` chooses. -/
def second (head : UInt8) : Bool := head &&& 0x10 ≠ 0

def status (c : AtaChannel) : UInt8 :=
  if c.busy ≠ 0 then ataSrBsy
  else
    ataSrDrdy ||| (match c.phase with | .idle => 0 | _ => ataSrDrq) |||
      (if c.error = true then ataSrErr else 0)

/-- The drive has something to do. -/
def work (c : AtaChannel) : AtaChannel :=
  { c with busy := c.latency c.events, events := c.events + 1 }

/-- The sector of the registers, if it is one that the drive has. -/
def target (c : AtaChannel) : Option Nat :=
  let lba := AtaBus.sectorOf c.head c.lba0 c.lba1 c.lba2
  if c.head &&& 0x40 ≠ 0 ∧ c.count = 1 ∧ lba < (c.disk (second c.head)).sectors then some lba
  else none

def command (c : AtaChannel) (v : UInt8) : AtaChannel :=
  let disk := c.disk (second c.head)
  if v = ataCmdIdentify then
    { c.work with
      phase := .sending ((List.range (ataSectorSize / 2)).map disk.identity)
      error := false }
  else if v = ataCmdReadSectors then
    match c.target with
    | some lba =>
        { c.work with
          phase := .sending ((List.range (ataSectorSize / 2)).map (disk.word lba))
          error := false }
    | none => { c.work with phase := .idle, error := true }
  else if v = ataCmdWriteSectors then
    match c.target with
    | some lba => { c.work with phase := .receiving (second c.head) lba [], error := false }
    | none => { c.work with phase := .idle, error := true }
  else if v = ataCmdFlush then { c.work with phase := .idle, error := false }
  else { c with phase := .idle, error := true }

/-- A word is taken from the drive. -/
def sendWord (c : AtaChannel) : UInt16 × AtaChannel :=
  match c.phase with
  | .sending [w] => (w, { c with phase := .idle })
  | .sending (w :: rest) => (w, { c with phase := .sending rest })
  | _ => (0xFFFF, c)

/-- A word is given to the drive; behind the last one it stores the sector. -/
def receiveWord (c : AtaChannel) (w : UInt16) : AtaChannel :=
  match c.phase with
  | .receiving second lba got =>
      if got.length + 1 < ataSectorSize / 2 then
        { c with phase := .receiving second lba (got ++ [w]) }
      else
        { c.work with
          phase := .idle
          disk := Function.update c.disk second ((c.disk second).store lba (got ++ [w])) }
  | _ => c

end AtaChannel

/-- **The ports of a channel.**  What is written while the drive is busy is lost. -/
def ataChannel (ioBase : UInt16) : PortDevice AtaChannel where
  inb c port :=
    if port = ioBase + ataRegStatus then (c.status, { c with busy := c.busy - 1 }) else (0, c)
  inw c port := if port = ioBase + ataRegData ∧ c.busy = 0 then c.sendWord else (0, c)
  outb c port v :=
    if c.busy ≠ 0 then c
    else if port = ioBase + ataRegHddevsel then { c with head := v }
    else if port = ioBase + ataRegSeccount0 then { c with count := v }
    else if port = ioBase + ataRegLba0 then { c with lba0 := v }
    else if port = ioBase + ataRegLba1 then { c with lba1 := v }
    else if port = ioBase + ataRegLba2 then { c with lba2 := v }
    else if port = ioBase + ataRegCommand then c.command v
    else c
  outw c port w := if port = ioBase + ataRegData ∧ c.busy = 0 then c.receiveWord w else c

/-! ## Between two calls -/

structure AtaChannel.Ready (c : AtaChannel) : Prop where
  free : c.busy = 0
  idle : c.phase = .idle

variable {d : ATADevice} {c : AtaChannel} {sector : UInt32}

theorem AtaChannel.status_busy (hc : c.busy ≠ 0) : c.status = ataSrBsy := if_pos hc

theorem AtaChannel.status_free (hc : c.busy = 0) : c.status &&& ataSrBsy = 0 ∧
    (c.phase = .idle → c.status &&& ataSrDrq = 0 ∧ (c.error = true → c.status &&& ataSrErr ≠ 0)) ∧
    (c.phase ≠ .idle → c.status &&& ataSrDrq ≠ 0) := by
  have hidle : ∀ e : Bool, let v := ataSrDrdy ||| 0 ||| if e = true then ataSrErr else 0
      v &&& ataSrBsy = 0 ∧ v &&& ataSrDrq = 0 ∧ (e = true → v &&& ataSrErr ≠ 0) := by decide
  have hdata : ∀ e : Bool, let v := ataSrDrdy ||| ataSrDrq ||| if e = true then ataSrErr else 0
      v &&& ataSrBsy = 0 ∧ v &&& ataSrDrq ≠ 0 := by decide
  unfold status
  rw [if_neg (not_not.mpr hc)]
  cases c.phase with
  | idle => exact ⟨(hidle c.error).1, fun _ => (hidle c.error).2, fun h => absurd rfl h⟩
  | sending rest => exact ⟨(hdata c.error).1, fun h => (by cases h), fun _ => (hdata c.error).2⟩
  | receiving second lba got =>
      exact ⟨(hdata c.error).1, fun h => (by cases h), fun _ => (hdata c.error).2⟩

theorem ataChannel_status (io : UInt16) (c : AtaChannel) :
    (ataChannel io).inb c (io + ataRegStatus) = (c.status, { c with busy := c.busy - 1 }) :=
  if_pos rfl

theorem ataChannel_other (io : UInt16) {port : UInt16} (hport : port ≠ io + ataRegStatus)
    (c : AtaChannel) : (ataChannel io).inb c port = (0, c) :=
  if_neg hport

theorem ataChannel_outb (io : UInt16) (hc : c.busy = 0) (v : UInt8) :
    (ataChannel io).outb c (io + ataRegHddevsel) v = { c with head := v } ∧
      (ataChannel io).outb c (io + ataRegSeccount0) v = { c with count := v } ∧
      (ataChannel io).outb c (io + ataRegLba0) v = { c with lba0 := v } ∧
      (ataChannel io).outb c (io + ataRegLba1) v = { c with lba1 := v } ∧
      (ataChannel io).outb c (io + ataRegLba2) v = { c with lba2 := v } ∧
      (ataChannel io).outb c (io + ataRegCommand) v = c.command v := by
  simp [ataChannel, hc, ataRegCommand, ataRegHddevsel, ataRegSeccount0, ataRegLba0, ataRegLba1,
    ataRegLba2]

namespace ATADevice

open AtaChannel

theorem ioWait_run (hd : d.PortsApart) (c : AtaChannel) :
    d.ioWait.run (ataChannel d.ioBase) c = ((), c) := by
  unfold ioWait
  simp [ataChannel_other d.ioBase hd]

theorem selectDrive_run (hd : d.PortsApart) (hc : c.busy = 0) (sector : UInt32) :
    (d.selectDrive sector).run (ataChannel d.ioBase) c =
      ((), { c with head := d.driveHead sector }) := by
  unfold selectDrive
  rw [run_bind, run_outb, (ataChannel_outb d.ioBase hc _).1, ioWait_run hd]

theorem waitBusy_run (hc : c.busy < ataPolls) :
    d.waitBusy.run (ataChannel d.ioBase) c = (true, { c with busy := 0 }) := by
  have hloop : ∀ n (c : AtaChannel), c.busy < n →
      (d.waitBusyLoop n).run (ataChannel d.ioBase) c = (true, { c with busy := 0 }) := by
    intro n
    induction n with
    | zero => exact fun c hc => absurd hc (Nat.not_lt_zero _)
    | succ n ih =>
        intro c hc
        unfold waitBusyLoop
        rw [run_bind, run_inb, ataChannel_status]
        dsimp only
        by_cases hb : c.busy = 0
        · rw [if_pos (status_free hb).1, run_pure, hb]
        · have hbusy : ¬ ataSrBsy &&& ataSrBsy = 0 := by decide
          have hless : c.busy - 1 < n := by omega
          rw [status_busy hb, if_neg hbusy, ih _ hless]
  exact hloop ataPolls c hc

/-- The drive is ready, or says that it will not be. -/
theorem waitDataReady_run {r : Bool} (hc : c.busy < ataPolls)
    (hr : c.error = !r ∧ (c.phase = .idle ↔ r = false)) :
    d.waitDataReady.run (ataChannel d.ioBase) c = (r, { c with busy := 0 }) := by
  have hloop : ∀ n (c : AtaChannel), c.busy < n → c.error = !r ∧ (c.phase = .idle ↔ r = false) →
      (d.waitDataReadyLoop n).run (ataChannel d.ioBase) c = (r, { c with busy := 0 }) := by
    intro n
    induction n with
    | zero => exact fun c hc _ => absurd hc (Nat.not_lt_zero _)
    | succ n ih =>
        intro c hc hr
        unfold waitDataReadyLoop
        rw [run_bind, run_inb, ataChannel_status]
        dsimp only
        by_cases hb : c.busy = 0
        · obtain ⟨hfree, hidle, hdata⟩ := status_free hb
          cases r with
          | true =>
              have hdrq := hdata (fun h => by have := hr.2.mp h; cases this)
              rw [if_pos ⟨hfree, hdrq⟩, run_pure, hb]
          | false =>
              obtain ⟨hdrq, herr⟩ := hidle (hr.2.mpr rfl)
              have hno : ¬(c.status &&& ataSrBsy = 0 ∧ c.status &&& ataSrDrq ≠ 0) := fun h => h.2 hdrq
              rw [if_neg hno, if_pos (Or.inl (herr hr.1)), run_pure, hb]
        · have hbusy : ¬(ataSrBsy &&& ataSrBsy = 0 ∧ ataSrBsy &&& ataSrDrq ≠ 0) := by decide
          have hfine : ¬(ataSrBsy &&& ataSrErr ≠ 0 ∨ ataSrBsy &&& ataSrDf ≠ 0) := by decide
          have hless : c.busy - 1 < n := by omega
          rw [status_busy hb, if_neg hbusy, if_neg hfine, ih { c with busy := c.busy - 1 } hless hr]
  exact hloop ataPolls c hc hr

/-! ## Asking for a sector -/

theorem head_bits (slave : UInt8) :
    ((0xE0 : UInt8) ||| (slave <<< 4)) &&& (0x40 : UInt8) = 0x40 := by
  rw [← UInt8.toBitVec_inj]
  ext i hi
  rcases bit_cases hi with rfl | rfl | rfl | rfl | rfl | rfl | rfl | rfl <;> simp

/-- The drive of `d` is the second of its channel. -/
def second (d : ATADevice) : Bool := AtaChannel.second d.drive

/-- The bits of `select_drive` say which drive, and that it is to count sectors. -/
theorem driveHead_bits (d : ATADevice) (sector : UInt32) :
    AtaChannel.second (d.driveHead sector) = d.second ∧
      d.driveHead sector &&& (0x40 : UInt8) ≠ 0 := by
  have hhigh := d.driveHead_high sector
  have hsecond : d.driveHead sector &&& (0x10 : UInt8) = d.drive &&& 0x10 := by
    rw [← hhigh, UInt8.and_assoc]
    rfl
  have hcount : d.driveHead sector &&& (0x40 : UInt8) = d.drive &&& 0x40 := by
    rw [← hhigh, UInt8.and_assoc]
    rfl
  constructor
  · unfold second AtaChannel.second
    rw [hsecond]
  · rw [hcount, show d.drive &&& (0x40 : UInt8) = 0x40 from head_bits d.slave]
    decide

/-- The sectors of the drive. -/
def sectors (d : ATADevice) (c : AtaChannel) : Nat := (c.disk d.second).sectors

/-- The registers as the driver sets them for a sector. -/
def addressed (d : ATADevice) (c : AtaChannel) (sector : UInt32) : AtaChannel :=
  { c with
    head := d.driveHead sector
    count := 1
    lba0 := sector.toUInt8
    lba1 := (sector >>> 8).toUInt8
    lba2 := (sector >>> 16).toUInt8
    busy := 0 }

theorem addressed_target (d : ATADevice) (c : AtaChannel) (sector : UInt32) :
    (d.addressed c sector).target =
      if sector.toNat % 2 ^ 28 < d.sectors c then some (sector.toNat % 2 ^ 28) else none := by
  obtain ⟨hsecond, hcount⟩ := d.driveHead_bits sector
  unfold target addressed sectors
  dsimp only
  rw [sectorOf_eq, hsecond]
  by_cases hn : sector.toNat % 2 ^ 28 < (c.disk d.second).sectors
  · rw [if_pos hn, if_pos ⟨hcount, rfl, hn⟩]
  · rw [if_neg hn, if_neg fun h => hn h.2.2]

/-- The four registers, and the command. -/
theorem registers_run {α : Type} (p : PortProgram α) (hc : c.busy = 0)
    (count lba0 lba1 lba2 cmd : UInt8) :
    (do
      outb (d.ioBase + ataRegSeccount0) count
      outb (d.ioBase + ataRegLba0) lba0
      outb (d.ioBase + ataRegLba1) lba1
      outb (d.ioBase + ataRegLba2) lba2
      outb (d.ioBase + ataRegCommand) cmd
      p).run (ataChannel d.ioBase) c =
    p.run (ataChannel d.ioBase) (AtaChannel.command
      { c with count := count, lba0 := lba0, lba1 := lba1, lba2 := lba2 } cmd) := by
  have h₁ := (ataChannel_outb d.ioBase (c := c) hc count).2.1
  have h₂ := (ataChannel_outb d.ioBase (c := { c with count := count }) hc lba0).2.2.1
  have h₃ := (ataChannel_outb d.ioBase (c := { c with count := count, lba0 := lba0 }) hc lba1).2.2.2.1
  have h₄ := (ataChannel_outb d.ioBase
    (c := { c with count := count, lba0 := lba0, lba1 := lba1 }) hc lba2).2.2.2.2.1
  have h₅ := (ataChannel_outb d.ioBase
    (c := { c with count := count, lba0 := lba0, lba1 := lba1, lba2 := lba2 }) hc cmd).2.2.2.2.2
  rw [run_bind, run_outb, h₁, run_bind, run_outb, h₂, run_bind, run_outb, h₃, run_bind, run_outb, h₄,
    run_bind, run_outb, h₅]

/-- **A sector is asked for**, and then the drive does what the command says. -/
theorem askSector_run (hd : d.PortsApart) (hc : c.Ready) (sector : UInt32) {cmd : UInt8} {r : Bool}
    {c' : AtaChannel} (hcmd : (d.addressed c sector).command cmd = c') (hbusy : c'.busy < ataPolls)
    (hr : c'.error = !r ∧ (c'.phase = .idle ↔ r = false)) :
    (d.askSector sector cmd).run (ataChannel d.ioBase) c = (r, { c' with busy := 0 }) := by
  have hless : c.busy < ataPolls := by
    rw [hc.free]
    decide
  have hwait := waitBusy_run (d := d) (c := { c with head := d.driveHead sector }) hless
  unfold askSector
  rw [run_bind, selectDrive_run hd hc.free]
  dsimp only at hwait ⊢
  rw [run_bind, hwait]
  dsimp only
  rw [if_neg (by decide), registers_run _ rfl]
  have hready := waitDataReady_run (d := d) hbusy hr
  rw [← hcmd] at hready
  exact hready.trans (by rw [hcmd])

/-- The words of a sector of the drive. -/
def sectorWords (d : ATADevice) (c : AtaChannel) (lba : Nat) : List UInt16 :=
  (List.range (ataSectorSize / 2)).map ((c.disk d.second).word lba)

theorem work_busy (c : AtaChannel) : c.work.busy < ataPolls := (c.latency c.events).isLt

/-- A sector that there is will be sent. -/
theorem askRead_run (hd : d.PortsApart) (hc : c.Ready)
    (hn : sector.toNat % 2 ^ 28 < d.sectors c) :
    ∃ c', (d.askSector sector ataCmdReadSectors).run (ataChannel d.ioBase) c = (true, c') ∧
      c'.busy = 0 ∧ c'.phase = .sending (d.sectorWords c (sector.toNat % 2 ^ 28)) ∧
      c'.disk = c.disk := by
  have htarget := d.addressed_target c sector
  rw [if_pos hn] at htarget
  have hcmd : (d.addressed c sector).command ataCmdReadSectors =
      { (d.addressed c sector).work with
        phase := .sending (d.sectorWords c (sector.toNat % 2 ^ 28)), error := false } := by
    unfold command
    rw [if_neg (by decide), if_pos rfl, htarget]
    dsimp only [addressed]
    rw [(d.driveHead_bits sector).1]
    rfl
  exact ⟨_, askSector_run hd hc sector hcmd (work_busy _) ⟨rfl, by simp⟩, rfl, rfl, rfl⟩

/-- A sector that there is will be taken. -/
theorem askWrite_run (hd : d.PortsApart) (hc : c.Ready)
    (hn : sector.toNat % 2 ^ 28 < d.sectors c) :
    ∃ c', (d.askSector sector ataCmdWriteSectors).run (ataChannel d.ioBase) c = (true, c') ∧
      c'.busy = 0 ∧ c'.phase = .receiving d.second (sector.toNat % 2 ^ 28) [] ∧ c'.disk = c.disk ∧
      c'.error = false := by
  have htarget := d.addressed_target c sector
  rw [if_pos hn] at htarget
  have hcmd : (d.addressed c sector).command ataCmdWriteSectors =
      { (d.addressed c sector).work with
        phase := .receiving d.second (sector.toNat % 2 ^ 28) [], error := false } := by
    unfold command
    rw [if_neg (by decide), if_neg (by decide), if_pos rfl, htarget]
    dsimp only [addressed]
    rw [(d.driveHead_bits sector).1]
  exact ⟨_, askSector_run hd hc sector hcmd (work_busy _) ⟨rfl, by simp⟩, rfl, rfl, rfl, rfl⟩

/-- A sector that there is not. -/
theorem askSector_missing (hd : d.PortsApart) (hc : c.Ready) {cmd : UInt8} {k : SectorCommand}
    (hk : Commands k cmd) (hn : ¬ sector.toNat % 2 ^ 28 < d.sectors c) :
    ∃ c', (d.askSector sector cmd).run (ataChannel d.ioBase) c = (false, c') ∧ c'.Ready ∧
      c'.disk = c.disk := by
  have htarget := d.addressed_target c sector
  rw [if_neg hn] at htarget
  have hcmd : (d.addressed c sector).command cmd =
      { (d.addressed c sector).work with phase := .idle, error := true } := by
    unfold command
    cases hk with
    | read => rw [if_neg (by decide), if_pos rfl, htarget]
    | write => rw [if_neg (by decide), if_neg (by decide), if_pos rfl, htarget]
  exact ⟨_, askSector_run hd hc sector hcmd (work_busy _) ⟨rfl, by simp⟩, ⟨rfl, rfl⟩, rfl⟩

/-! ## Moving a sector -/

/-- The phase of a drive that has sent `i` words. -/
def sendingFrom (ws : List UInt16) (i : Nat) : AtaPhase :=
  if i < ws.length then .sending (ws.drop i) else .idle

theorem sendWord_run {ws : List UInt16} {i : Nat} (hi : i < ws.length)
    (hphase : c.phase = sendingFrom ws i) :
    c.sendWord = (ws.getD i 0, { c with phase := sendingFrom ws (i + 1) }) := by
  have hdrop : ws.drop i = ws[i] :: ws.drop (i + 1) := List.drop_eq_getElem_cons hi
  have hget : ws.getD i 0 = ws[i] := by simp [hi]
  unfold sendingFrom at hphase ⊢
  rw [if_pos hi, hdrop] at hphase
  unfold sendWord
  rw [hphase, hget]
  by_cases hlast : i + 1 < ws.length
  · rw [if_pos hlast]
    cases hrest : ws.drop (i + 1) with
    | nil =>
        rw [List.drop_eq_nil_iff] at hrest
        exact absurd hlast (Nat.not_lt_of_ge hrest)
    | cons w rest => rfl
  · rw [if_neg hlast, List.drop_eq_nil_of_le (Nat.le_of_not_lt hlast)]

/-- **A sector comes in.** -/
theorem readData_run {ws : List UInt16} (hc : c.busy = 0) (hphase : c.phase = .sending ws)
    (hws : ws.length = ataSectorSize / 2) (sector : UInt32) (out : Buffer) :
    ∃ out', (d.readData sector out).run (ataChannel d.ioBase) c = (out', { c with phase := .idle }) ∧
      ((sector.toNat + 1) * ataSectorSize ≤ 2 ^ 32 →
        out' = storeWords ws (sector.toNat * ataSectorSize) out) := by
  have hnone : storeWords (ws.take 0) (sector.toNat * ataSectorSize) out = out := by
    funext a
    refine if_neg ?_
    rw [List.take_zero, List.length_nil]
    omega
  have hstart : c.phase = sendingFrom ws 0 := by
    unfold sendingFrom
    rw [if_pos (by rw [hws]; decide), List.drop_zero]
    exact hphase
  let I : Nat → Buffer → AtaChannel → Prop := fun i out' c' =>
    c' = { c with phase := sendingFrom ws i } ∧ ((sector.toNat + 1) * ataSectorSize ≤ 2 ^ 32 →
      out' = storeWords (ws.take i) (sector.toNat * ataSectorSize) out)
  have hI := run_forRange (ataChannel d.ioBase) (I := I)
    (f := fun i out => do
      let data ← inw (d.ioBase + ataRegData)
      let low := Function.update out (wordOffset sector i).toNat data.toUInt8
      pure (Function.update low (wordOffset sector i + 1).toNat (data >>> 8).toUInt8))
    (n := ataSectorSize / 2) (a := out) (s := c) ⟨by rw [← hstart], fun _ => hnone.symm⟩ ?_
  · obtain ⟨hc', hout⟩ := hI
    rw [List.take_of_length_le (Nat.le_of_eq hws)] at hout
    have hidle : sendingFrom ws (ataSectorSize / 2) = .idle :=
      if_neg (Nat.not_lt_of_ge (Nat.le_of_eq hws))
    rw [hidle] at hc'
    exact ⟨_, Prod.ext rfl hc', hout⟩
  · rintro i out' c' hi ⟨rfl, hout⟩
    have hi' : i < ws.length := hws ▸ hi
    have hword : (ataChannel d.ioBase).inw { c with phase := sendingFrom ws i }
        (d.ioBase + ataRegData) = (ws.getD i 0, { c with phase := sendingFrom ws (i + 1) }) :=
      (if_pos ⟨rfl, hc⟩).trans (sendWord_run hi' rfl)
    rw [run_bind, run_inw, hword]
    dsimp only
    rw [run_pure]
    refine ⟨rfl, fun hfit => ?_⟩
    obtain ⟨hlow, hhigh⟩ := wordOffset_toNat sector hi hfit
    have htake : ws.take (i + 1) = ws.take i ++ [ws.getD i 0] := by
      rw [List.take_add_one]
      simp [hi']
    have hlen : (ws.take i).length = i := List.length_take_of_le (Nat.le_of_lt hi')
    rw [htake, ← storeWords_append, hlen, ← hhigh, ← hlow, hout hfit]

/-- The words that `write_blocks` makes of a sector of its buffer. -/
def wordsOf (b : Buffer) (sector : UInt32) (n : Nat) : List UInt16 :=
  (List.range n).map (wordOf b sector)

/-- **A sector goes out.** -/
theorem writeData_run {second : Bool} {lba : Nat} (hc : c.busy = 0)
    (hphase : c.phase = .receiving second lba []) (sector : UInt32) (b : Buffer) :
    (d.writeData sector b).run (ataChannel d.ioBase) c =
      ((), { c.work with
        phase := .idle
        disk := Function.update c.disk second
          ((c.disk second).store lba (wordsOf b sector (ataSectorSize / 2))) }) := by
  let last : AtaChannel := { c.work with
    phase := .idle
    disk := Function.update c.disk second
      ((c.disk second).store lba (wordsOf b sector (ataSectorSize / 2))) }
  let I : Nat → Unit → AtaChannel → Prop := fun i _ c' =>
    c' = if i < ataSectorSize / 2 then
      { c with phase := .receiving second lba (wordsOf b sector i) } else last
  have hI := run_forRange (ataChannel d.ioBase) (I := I)
    (f := fun i _ => outw (d.ioBase + ataRegData) (wordOf b sector i))
    (n := ataSectorSize / 2) (a := ()) (s := c) ?_ ?_
  · exact Prod.ext rfl (hI.trans (if_neg (Nat.lt_irrefl _)))
  · refine Eq.trans ?_ (if_pos (by decide)).symm
    rw [show wordsOf b sector 0 = [] from rfl, ← hphase]
  · rintro i _ c' hi rfl
    have hnext : wordsOf b sector (i + 1) = wordsOf b sector i ++ [wordOf b sector i] := by
      unfold wordsOf
      rw [List.range_succ, List.map_append]
      rfl
    have hlen : (wordsOf b sector i).length = i := by simp [wordsOf]
    rw [if_pos hi, run_outw]
    refine (if_pos ⟨rfl, hc⟩).trans ?_
    unfold receiveWord
    dsimp only
    rw [hlen, ← hnext]
    by_cases hlast : i + 1 < ataSectorSize / 2
    · rw [if_pos hlast, if_pos hlast]
    · have hfull : i + 1 = ataSectorSize / 2 := Nat.le_antisymm hi (Nat.le_of_not_lt hlast)
      rw [if_neg hlast, if_neg hlast, hfull]
      rfl

/-! ## The calls -/

/-- What no call changes: the channel is ready, the drive has `n` sectors, and the other
drive holds what it held. -/
structure Attached (d : ATADevice) (n : Nat) (other : AtaDisk) (c : AtaChannel) : Prop where
  ready : c.Ready
  size : d.sectors c = n
  other : c.disk (!d.second) = other

variable {n : Nat} {other : AtaDisk}

theorem Attached.same {c' : AtaChannel} (h : d.Attached n other c) (hready : c'.Ready)
    (hdisk : c'.disk = c.disk) : d.Attached n other c' := by
  refine ⟨hready, ?_, ?_⟩
  · unfold sectors
    rw [hdisk]
    exact h.size
  · rw [hdisk]
    exact h.other

/-- **A turn of the loop of `read_blocks`.** -/
theorem readSectors_succ (hd : d.PortsApart) (h : d.Attached n other c)
    (lba₀ sector : UInt32) (left : Nat) (out : Buffer) :
    if (lba₀ + sector).toNat % 2 ^ 28 < n then ∃ c' out', d.Attached n other c' ∧ c'.disk = c.disk ∧
      (d.readSectors lba₀ (left + 1) sector out).run (ataChannel d.ioBase) c =
        (d.readSectors lba₀ left (sector + 1) out').run (ataChannel d.ioBase) c' ∧
      ((sector.toNat + 1) * ataSectorSize ≤ 2 ^ 32 → out' = storeWords
        (d.sectorWords c ((lba₀ + sector).toNat % 2 ^ 28)) (sector.toNat * ataSectorSize) out)
    else ∃ c', d.Attached n other c' ∧ c'.disk = c.disk ∧
      (d.readSectors lba₀ (left + 1) sector out).run (ataChannel d.ioBase) c =
        ((.failure, out), c') := by
  by_cases hn : (lba₀ + sector).toNat % 2 ^ 28 < n
  · rw [if_pos hn]
    obtain ⟨c₁, hask, hbusy, hphase, hdisk⟩ := askRead_run hd h.ready (h.size.symm ▸ hn)
    have hws : (d.sectorWords c ((lba₀ + sector).toNat % 2 ^ 28)).length = ataSectorSize / 2 := by
      simp [sectorWords]
    obtain ⟨out', hrun, hout⟩ := readData_run (d := d) hbusy hphase hws sector out
    refine ⟨{ c₁ with phase := .idle }, out', h.same ⟨hbusy, rfl⟩ hdisk, hdisk, ?_, hout⟩
    rw [readSectors, run_bind, hask]
    dsimp only
    rw [if_neg (by decide), run_bind, hrun]
  · rw [if_neg hn]
    obtain ⟨c₁, hask, hready, hdisk⟩ := askSector_missing hd h.ready .read (h.size.symm ▸ hn)
    refine ⟨c₁, h.same hready hdisk, hdisk, ?_⟩
    unfold readSectors
    rw [run_bind, hask]
    dsimp only
    rw [if_pos rfl, run_pure]

/-- **A turn of the loop of `write_blocks`.** -/
theorem writeSectors_succ (hd : d.PortsApart) (h : d.Attached n other c)
    (lba₀ sector : UInt32) (left : Nat) (b : Buffer) :
    if (lba₀ + sector).toNat % 2 ^ 28 < n then ∃ c', d.Attached n other c' ∧
      c'.disk d.second = (c.disk d.second).store ((lba₀ + sector).toNat % 2 ^ 28)
        (wordsOf b sector (ataSectorSize / 2)) ∧
      (d.writeSectors lba₀ b (left + 1) sector).run (ataChannel d.ioBase) c =
        (d.writeSectors lba₀ b left (sector + 1)).run (ataChannel d.ioBase) c'
    else ∃ c', d.Attached n other c' ∧ c'.disk = c.disk ∧
      (d.writeSectors lba₀ b (left + 1) sector).run (ataChannel d.ioBase) c = (.failure, c') := by
  by_cases hn : (lba₀ + sector).toNat % 2 ^ 28 < n
  · rw [if_pos hn]
    obtain ⟨c₁, hask, hbusy, hphase, hdisk, herror⟩ := askWrite_run hd h.ready (h.size.symm ▸ hn)
    have hrun := writeData_run (d := d) hbusy hphase sector b
    let c₂ : AtaChannel := { c₁.work with
      phase := .idle
      disk := Function.update c₁.disk d.second ((c₁.disk d.second).store
        ((lba₀ + sector).toNat % 2 ^ 28) (wordsOf b sector (ataSectorSize / 2))) }
    have hwait := waitBusy_run (d := d) (c := c₂) (work_busy c₁)
    have hstored : c₂.disk d.second = (c.disk d.second).store ((lba₀ + sector).toNat % 2 ^ 28)
        (wordsOf b sector (ataSectorSize / 2)) := by
      rw [← hdisk]
      exact Function.update_self ..
    refine ⟨{ c₂ with busy := 0 }, ⟨⟨rfl, rfl⟩, ?_, ?_⟩, hstored, ?_⟩
    · unfold sectors
      rw [hstored]
      exact h.size
    · rw [← h.other, ← hdisk]
      exact Function.update_of_ne (by simp) _ _
    · have hstatus : AtaChannel.status { c₂ with busy := 0 } = ataSrDrdy := by
        show ataSrDrdy ||| 0 ||| (if c₁.error = true then ataSrErr else 0) = ataSrDrdy
        rw [herror]
        rfl
      have hclean : (ataChannel d.ioBase).inb { c₂ with busy := 0 } (d.ioBase + ataRegStatus) =
          (ataSrDrdy, { c₂ with busy := 0 }) := by
        rw [ataChannel_status, hstatus]
        rfl
      rw [writeSectors, run_bind, hask]
      dsimp only
      rw [if_neg (by decide), run_bind, hrun, run_bind, hwait]
      dsimp only
      rw [if_neg (by decide), run_bind, run_inb, hclean]
      dsimp only
      rw [if_neg (by decide)]
  · rw [if_neg hn]
    obtain ⟨c₁, hask, hready, hdisk⟩ := askSector_missing hd h.ready .write (h.size.symm ▸ hn)
    refine ⟨c₁, h.same hready hdisk, hdisk, ?_⟩
    unfold writeSectors
    rw [run_bind, hask]
    dsimp only
    rw [if_pos rfl, run_pure]

theorem readSectors_attached (hd : d.PortsApart) (h : d.Attached n other c) (lba₀ : UInt32)
    (left : Nat) (sector : UInt32) (out : Buffer) :
    d.Attached n other ((d.readSectors lba₀ left sector out).run (ataChannel d.ioBase) c).2 ∧
      ((d.readSectors lba₀ left sector out).run (ataChannel d.ioBase) c).2.disk = c.disk := by
  induction left generalizing c sector out with
  | zero =>
      rw [readSectors, run_pure]
      exact ⟨h, rfl⟩
  | succ left ih =>
      have hturn := readSectors_succ hd h lba₀ sector left out
      split at hturn
      · obtain ⟨c', out', h', hdisk, hrun, -⟩ := hturn
        rw [hrun]
        exact ⟨(ih h' _ _).1, (ih h' _ _).2.trans hdisk⟩
      · obtain ⟨c', h', hdisk, hrun⟩ := hturn
        rw [hrun]
        exact ⟨h', hdisk⟩

theorem writeSectors_attached (hd : d.PortsApart) (h : d.Attached n other c) (lba₀ : UInt32)
    (b : Buffer) (left : Nat) (sector : UInt32) :
    d.Attached n other ((d.writeSectors lba₀ b left sector).run (ataChannel d.ioBase) c).2 := by
  induction left generalizing c sector with
  | zero =>
      rw [writeSectors, run_pure]
      exact h
  | succ left ih =>
      have hturn := writeSectors_succ hd h lba₀ sector left b
      split at hturn
      · obtain ⟨c', h', -, hrun⟩ := hturn
        rw [hrun]
        exact ih h' _
      · obtain ⟨c', h', -, hrun⟩ := hturn
        rw [hrun]
        exact h'

/-- **`read_blocks`.** -/
theorem readBlocks_attached (hd : d.PortsApart) (h : d.Attached n other c) (lba₀ count : UInt32)
    (buffer : Option Buffer) :
    d.Attached n other ((d.readBlocks lba₀ count buffer).run (ataChannel d.ioBase) c).2 ∧
      ((d.readBlocks lba₀ count buffer).run (ataChannel d.ioBase) c).2.disk = c.disk := by
  unfold readBlocks
  cases buffer with
  | none =>
      rw [run_pure]
      exact ⟨h, rfl⟩
  | some b =>
      dsimp only
      split
      · rw [run_pure]
        exact ⟨h, rfl⟩
      · rw [run_bind, run_pure]
        exact readSectors_attached hd h lba₀ count.toNat 0 b

/-- The cache of the drive is emptied. -/
theorem flush_run (h : d.Attached n other c) {α : Type} (a : α) :
    ∃ c', (do
      outb (d.ioBase + ataRegCommand) ataCmdFlush
      let _ ← d.waitBusy
      pure a : PortProgram α).run (ataChannel d.ioBase) c = (a, c') ∧ d.Attached n other c' ∧
        c'.disk = c.disk := by
  have hflush : c.command ataCmdFlush = { c.work with phase := .idle, error := false } := rfl
  have hwait := waitBusy_run (d := d) (c := c.command ataCmdFlush) (work_busy c)
  refine ⟨{ c.command ataCmdFlush with busy := 0 }, ?_, h.same ⟨rfl, ?_⟩ ?_, ?_⟩
  · rw [run_bind, run_outb, (ataChannel_outb d.ioBase h.ready.free _).2.2.2.2.2, run_bind, hwait,
      run_pure]
  · exact congrArg phase hflush
  · exact (congrArg disk hflush).trans rfl
  · exact (congrArg disk hflush).trans rfl

/-- **`write_blocks`.** -/
theorem writeBlocks_attached (hd : d.PortsApart) (h : d.Attached n other c) (lba₀ count : UInt32)
    (buffer : Option Buffer) :
    d.Attached n other ((d.writeBlocks lba₀ count buffer).run (ataChannel d.ioBase) c).2 := by
  unfold writeBlocks
  cases buffer with
  | none =>
      rw [run_pure]
      exact h
  | some b =>
      dsimp only
      split
      · rw [run_pure]
        exact h
      · have hloop := writeSectors_attached hd h lba₀ b count.toNat 0
        rw [run_bind]
        split
        · rw [run_pure]
          exact hloop
        · obtain ⟨c', hrun, h', -⟩ := flush_run hloop ReturnCode.ok
          rw [hrun]
          exact h'

/-! ## One sector -/

theorem readBlocks_one (hd : d.PortsApart) (h : d.Attached n other c)
    (hpresent : d.identify.present = true) (lba₀ : UInt32) (b : Buffer) :
    ((d.readBlocks lba₀ 1 (some b)).run (ataChannel d.ioBase) c).1 =
      if lba₀.toNat % 2 ^ 28 < n then
        (.ok, some (storeWords (d.sectorWords c (lba₀.toNat % 2 ^ 28)) 0 b))
      else (.failure, some b) := by
  have hparam : ¬(d.identify.present = false ∨ (1 : UInt32) = 0) := by
    rw [hpresent]
    decide
  have hturn := readSectors_succ hd h lba₀ 0 0 b
  unfold readBlocks
  dsimp only
  rw [if_neg hparam, run_bind]
  rw [UInt32.add_zero] at hturn
  split at hturn
  · next hn =>
      obtain ⟨c', out', -, -, hrun, hout⟩ := hturn
      have hzero : (0 : UInt32).toNat * ataSectorSize = 0 := rfl
      have hout' := hout (by decide)
      rw [hzero] at hout'
      rw [show (1 : UInt32).toNat = 0 + 1 from rfl, hrun, if_pos hn, hout', readSectors,
        run_pure, run_pure]
  · next hn =>
      obtain ⟨c', -, -, hrun⟩ := hturn
      rw [show (1 : UInt32).toNat = 0 + 1 from rfl, hrun, if_neg hn, run_pure]

theorem writeBlocks_one (hd : d.PortsApart) (h : d.Attached n other c)
    (hpresent : d.identify.present = true) (lba₀ : UInt32) (b : Buffer) :
    ((d.writeBlocks lba₀ 1 (some b)).run (ataChannel d.ioBase) c).1 =
        (if lba₀.toNat % 2 ^ 28 < n then .ok else .failure) ∧
      ((d.writeBlocks lba₀ 1 (some b)).run (ataChannel d.ioBase) c).2.disk d.second =
        if lba₀.toNat % 2 ^ 28 < n then
          (c.disk d.second).store (lba₀.toNat % 2 ^ 28) (wordsOf b 0 (ataSectorSize / 2))
        else c.disk d.second := by
  have hparam : ¬(d.identify.present = false ∨ (1 : UInt32) = 0) := by
    rw [hpresent]
    decide
  have hturn := writeSectors_succ hd h lba₀ 0 0 b
  unfold writeBlocks
  dsimp only
  rw [if_neg hparam, run_bind]
  rw [UInt32.add_zero] at hturn
  split at hturn
  · next hn =>
      obtain ⟨c', h', hdisk, hrun⟩ := hturn
      obtain ⟨c'', hflush, -, hdisk'⟩ := flush_run h' ReturnCode.ok
      have hone : (d.writeSectors lba₀ b (1 : UInt32).toNat 0).run (ataChannel d.ioBase) c =
          (.ok, c') := by
        rw [show (1 : UInt32).toNat = 0 + 1 from rfl, hrun, writeSectors, run_pure]
      rw [hone, if_pos hn, if_pos hn]
      dsimp only
      rw [if_neg (by decide), hflush, hdisk']
      exact ⟨rfl, hdisk⟩
  · next hn =>
      obtain ⟨c', -, hdisk, hrun⟩ := hturn
      have hone : (d.writeSectors lba₀ b (1 : UInt32).toNat 0).run (ataChannel d.ioBase) c =
          (.failure, c') := hrun
      rw [hone, if_neg hn, if_neg hn, ← hdisk]
      dsimp only
      rw [if_pos (by decide), run_pure]
      exact ⟨rfl, rfl⟩

/-! ## `initialize` -/

theorem readWords_run {ws : List UInt16} (hc : c.busy = 0) (hphase : c.phase = .sending ws)
    (hws : ws.length = ataSectorSize / 2) :
    d.readWords.run (ataChannel d.ioBase) c = (ws, { c with phase := .idle }) := by
  have hstart : c.phase = sendingFrom ws 0 := by
    unfold sendingFrom
    rw [if_pos (by rw [hws]; decide), List.drop_zero]
    exact hphase
  let I : Nat → List UInt16 → AtaChannel → Prop := fun i buffer c' =>
    c' = { c with phase := sendingFrom ws i } ∧ buffer = ws.take i
  have hI := run_forRange (ataChannel d.ioBase) (I := I)
    (f := fun _ buffer => do
      let data ← inw (d.ioBase + ataRegData)
      pure (buffer ++ [data]))
    (n := ataSectorSize / 2) (a := []) (s := c) ⟨by rw [← hstart], rfl⟩ ?_
  · obtain ⟨hc', hbuffer⟩ := hI
    rw [List.take_of_length_le (Nat.le_of_eq hws)] at hbuffer
    have hidle : sendingFrom ws (ataSectorSize / 2) = .idle :=
      if_neg (Nat.not_lt_of_ge (Nat.le_of_eq hws))
    rw [hidle] at hc'
    exact Prod.ext hbuffer hc'
  · rintro i buffer c' hi ⟨rfl, rfl⟩
    have hi' : i < ws.length := hws ▸ hi
    have hword : (ataChannel d.ioBase).inw { c with phase := sendingFrom ws i }
        (d.ioBase + ataRegData) = (ws.getD i 0, { c with phase := sendingFrom ws (i + 1) }) :=
      (if_pos ⟨rfl, hc⟩).trans (sendWord_run hi' rfl)
    rw [run_bind, run_inw, hword, run_pure]
    refine ⟨rfl, ?_⟩
    show ws.take i ++ [ws.getD i 0] = ws.take (i + 1)
    rw [List.take_add_one]
    simp [hi']

/-- What the drive says about itself. -/
def identityWords (d : ATADevice) (c : AtaChannel) : List UInt16 :=
  (List.range (ataSectorSize / 2)).map (c.disk d.second).identity

/-- **`initialize`** finds the drive. -/
theorem initializeDevice_run (hd : d.PortsApart) (h : d.Attached n other c) :
    ∃ c', (d.initializeDevice true).run (ataChannel d.ioBase) c =
        ((true, { d with identify := identified (d.identityWords c) }), c') ∧
      d.Attached n other c' ∧ c'.disk = c.disk := by
  let c₁ : AtaChannel := { c with
    head := d.driveHead 0, count := 0, lba0 := 0, lba1 := 0, lba2 := 0 }
  let c₂ : AtaChannel := { c₁.work with
    phase := .sending (d.identityWords c), error := false }
  have hcmd : c₁.command ataCmdIdentify = c₂ := by
    unfold command
    rw [if_pos rfl]
    dsimp only [c₁]
    rw [(d.driveHead_bits 0).1]
    rfl
  have hfree := h.ready.free
  have hbusy : c₂.busy < ataPolls := work_busy c₁
  have hstatus : c₂.status ≠ 0 := by
    by_cases hb : c₂.busy = 0
    · intro h0
      have hdrq := (status_free hb).2.2 (fun e => by cases e)
      rw [h0] at hdrq
      exact hdrq (by decide)
    · rw [status_busy hb]
      decide
  have hready := waitDataReady_run (d := d) (r := true) (c := { c₂ with busy := c₂.busy - 1 })
    (Nat.lt_of_le_of_lt (Nat.sub_le _ _) hbusy) ⟨rfl, by simp [c₂]⟩
  have hwords := readWords_run (d := d) (c := { c₂ with busy := 0 }) rfl rfl
    (by simp [identityWords])
  refine ⟨{ c₂ with busy := 0, phase := .idle }, ?_, h.same ⟨rfl, rfl⟩ rfl, rfl⟩
  unfold initializeDevice
  rw [run_bind, selectDrive_run hd hfree]
  dsimp only
  rw [registers_run (c := { c with head := d.driveHead 0 }) _ hfree, hcmd, run_bind, ioWait_run hd]
  dsimp only
  rw [run_bind, run_inb, ataChannel_status]
  dsimp only
  rw [if_neg hstatus, run_bind, hready]
  dsimp only at hwords ⊢
  rw [if_neg (by decide), if_neg (by decide), run_bind, hwords, run_pure]

end ATADevice

end KmOS
