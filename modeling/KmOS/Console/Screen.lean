/-
# `KmOS.Console.Screen` — the console is a text screen

A `TextScreen` has 25 rows of 80 cells and a cursor in one of them.  A character goes
into the cell of the cursor; behind the last row everything moves up by one row.

The console keeps the cells in the video memory, two bytes each (`Shows`).  As long as
the characters stay on their lines, what `putc` does to the memory is what the screen
does (`putc_shows`): the copy in `scrollup` runs from the top to the bottom, over
itself, and reads each byte before it is overwritten (`scrollLoop_cells`).
-/
import KmOS.Console.Cursor

namespace KmOS

/-! ## The screen -/

/-- A character and its colours. -/
structure Cell where
  char : UInt8
  attr : UInt8
deriving DecidableEq

structure TextScreen where
  cell : Nat → Nat → Cell
  row : Nat
  col : Nat
  row_lt : row < 25
  col_lt : col < 80

namespace TextScreen

theorem firstCol_lt : 0 < 80 := Nat.succ_pos 79

/-- What scrolls in. -/
def blankCell : Cell := ⟨0, 0x07⟩

/-- To the beginning of the next row. -/
def lineFeed (t : TextScreen) : TextScreen :=
  if h : t.row + 1 < 25 then
    { t with row := t.row + 1, col := 0, row_lt := h, col_lt := firstCol_lt }
  else
    { t with
      cell := fun r => if r < 24 then t.cell (r + 1) else fun _ => blankCell
      col := 0
      col_lt := firstCol_lt }

/-- The cell of the cursor changes. -/
def write (t : TextScreen) (c : Cell) : TextScreen :=
  { t with cell := Function.update t.cell t.row (Function.update (t.cell t.row) t.col c) }

/-- A backspace hides the cell of the cursor, and moves it to the left. -/
def backspace (t : TextScreen) : TextScreen :=
  { t.write { t.cell t.row t.col with attr := 0 } with
    col := t.col - 1
    col_lt := Nat.lt_of_le_of_lt (Nat.sub_le t.col 1) t.col_lt }

/-- To the next tab stop, if there is one. -/
def tab (t : TextScreen) : TextScreen :=
  if h : t.col + 8 - t.col % 8 < 80 then { t with col := t.col + 8 - t.col % 8, col_lt := h } else t

/-- A character with a cell of its own. -/
def glyph (t : TextScreen) (c : UInt8) : TextScreen :=
  let t := t.write ⟨c, 0x07⟩
  if h : t.col + 1 < 80 then { t with col := t.col + 1, col_lt := h } else t.lineFeed

def put (t : TextScreen) (c : UInt8) : TextScreen :=
  if c = 10 then t.lineFeed
  else if c = 8 then t.backspace
  else if c = 9 then t.tab
  else if c = 13 then { t with col := 0, col_lt := firstCol_lt }
  else t.glyph c

/-- Characters one after another. -/
def puts (t : TextScreen) (cs : List UInt8) : TextScreen := cs.foldl put t

end TextScreen

/-! ## The video memory -/

namespace Console

variable {s : Console} {t : TextScreen} {m : LoggedMemory} {c : UInt8}

/-- The address of the `k`-th byte of the screen. -/
def byteAddr (k : Nat) : UInt32 := ramScreen + UInt32.ofNat k

/-- The `k`-th cell. -/
def cellAt (m : LoggedMemory) (k : Nat) : Cell :=
  ⟨m.bytes (byteAddr (2 * k)), m.bytes (byteAddr (2 * k + 1))⟩

theorem toNat_byteAddr {k : Nat} (h : k ≤ 4000) : (byteAddr k).toNat = 753664 + k :=
  toNat_add_ofNat (a := ramScreen) (by show 753664 + k < 4294967296; omega)

theorem byteAddr_ne {i j : Nat} (hi : i ≤ 4000) (hj : j ≤ 4000) (h : i ≠ j) :
    byteAddr i ≠ byteAddr j := fun he => by
  have hval := congrArg UInt32.toNat he
  rw [toNat_byteAddr hi, toNat_byteAddr hj] at hval
  omega

theorem byteAddr_add (i j : Nat) : byteAddr i + UInt32.ofNat j = byteAddr (i + j) := by
  unfold byteAddr
  rw [UInt32.add_assoc, ← UInt32.ofNat_add]

theorem byteAddr_lt_iff {k : Nat} (h : k ≤ 4000) : byteAddr k < screenLim ↔ k < 4000 := by
  rw [UInt32.lt_iff_toNat_lt, toNat_byteAddr h]
  show 753664 + k < 757664 ↔ k < 4000
  omega

/-! ## Stores -/

/-- The colours of one cell. -/
theorem cellAt_store_attr {k j : Nat} (hk : k < 2000) (hj : j < 2000) (b : UInt8) :
    cellAt (m.store (byteAddr (2 * k + 1)) b) j =
      if j = k then { cellAt m k with attr := b } else cellAt m j := by
  unfold cellAt
  rw [LoggedMemory.store_bytes_of_ne (byteAddr_ne (by omega) (by omega) (by omega))]
  split
  · next hjk => rw [hjk, LoggedMemory.store_bytes_self]
  · rw [LoggedMemory.store_bytes_of_ne (byteAddr_ne (by omega) (by omega) (by omega))]

/-- One cell. -/
theorem cellAt_store {k j : Nat} (hk : k < 2000) (hj : j < 2000) (a b : UInt8) :
    cellAt ((m.store (byteAddr (2 * k)) a).store (byteAddr (2 * k + 1)) b) j =
      if j = k then ⟨a, b⟩ else cellAt m j := by
  rw [cellAt_store_attr hk hj]
  split
  · unfold cellAt
    rw [LoggedMemory.store_bytes_self]
  · unfold cellAt
    rw [LoggedMemory.store_bytes_of_ne (byteAddr_ne (by omega) (by omega) (by omega)),
      LoggedMemory.store_bytes_of_ne (byteAddr_ne (by omega) (by omega) (by omega))]

/-! ## Scrolling -/

/-- What one turn of the loop of `scrollup` puts into the `k`-th cell. -/
def scrolled (m : LoggedMemory) (k : Nat) : Cell :=
  if k + 80 < 2000 then cellAt m (k + 80) else TextScreen.blankCell

theorem cellAt_scrollCell {k j : Nat} (hk : k < 2000) (hj : j < 2000) :
    cellAt (scrollCell 1 (byteAddr (2 * k)) m) j = if j = k then scrolled m k else cellAt m j := by
  have htmp : byteAddr (2 * k) + 1 * 160 = byteAddr (2 * k + 160) := byteAddr_add (2 * k) 160
  have hnext : byteAddr (2 * k) + 1 = byteAddr (2 * k + 1) := byteAddr_add (2 * k) 1
  have htmp' : byteAddr (2 * k + 160) + 1 = byteAddr (2 * k + 160 + 1) := byteAddr_add (2 * k + 160) 1
  have hlt : byteAddr (2 * k + 160) < screenLim ↔ k + 80 < 2000 := by
    rw [UInt32.lt_iff_toNat_lt, byteAddr, toNat_add_ofNat (a := ramScreen)
      (by show 753664 + (2 * k + 160) < 4294967296; omega)]
    show 753664 + (2 * k + 160) < 757664 ↔ _
    omega
  unfold scrollCell scrolled
  dsimp only
  rw [htmp, hnext, htmp']
  by_cases hin : k + 80 < 2000
  · rw [if_pos (hlt.mpr hin), if_pos hin, cellAt_store hk hj,
      LoggedMemory.store_bytes_of_ne (byteAddr_ne (by omega) (by omega) (by omega))]
    rfl
  · rw [if_neg (mt hlt.mp hin), if_neg hin, cellAt_store hk hj]
    rfl

/-- **The copy**: every cell from the `k`-th on gets what stood 80 cells behind it. -/
theorem scrollLoop_cells {k j fuel : Nat} (hk : k ≤ 2000) (hfuel : 2000 - k ≤ fuel) (hj : j < 2000) :
    cellAt (scrollLoop 1 fuel (byteAddr (2 * k)) m) j =
      if k ≤ j then scrolled m j else cellAt m j := by
  induction fuel generalizing k m with
  | zero => rw [if_neg (by omega)]; rfl
  | succ fuel ih =>
      rw [scrollLoop]
      by_cases hend : k = 2000
      · rw [if_neg (by rw [byteAddr_lt_iff (by omega)]; omega), if_neg (by omega)]
      · have hskip : byteAddr (2 * k) + 2 = byteAddr (2 * (k + 1)) := byteAddr_add (2 * k) 2
        have hkeep : ∀ i < 2000, i ≠ k → cellAt (scrollCell 1 (byteAddr (2 * k)) m) i = cellAt m i :=
          fun i hi hne => by rw [cellAt_scrollCell (by omega) hi, if_neg hne]
        rw [if_pos (by rw [byteAddr_lt_iff (by omega)]; omega), hskip, ih (by omega) (by omega)]
        by_cases hjk : j = k
        · rw [if_neg (by omega), if_pos (by omega), cellAt_scrollCell (by omega) hj, if_pos hjk, hjk]
        · rw [hkeep j hj hjk]
          by_cases hlt : k + 1 ≤ j
          · rw [if_pos hlt, if_pos (by omega)]
            -- the cells that are still to be read have not been written
            unfold scrolled
            split
            · rw [hkeep _ (by omega) (by omega)]
            · rfl
          · rw [if_neg hlt, if_neg (by omega)]

/-! ## The console shows the screen -/

structure Shows (s : Console) (t : TextScreen) : Prop where
  realScreen : s.realScreen = ramScreen
  x : s.x.toInt = t.col
  yl : s.yl.toInt = t.row
  cells : ∀ r < 25, ∀ c < 80, cellAt s.mem (80 * r + c) = t.cell r c

theorem Shows.onScreen (h : s.Shows t) : s.OnScreen := by
  have hrow := t.row_lt
  have hcol := t.col_lt
  rw [onScreen_iff, h.x, h.yl]
  omega

theorem Shows.video (h : s.Shows t) : s.video = byteAddr (2 * (80 * t.row + t.col)) := by
  have hrow := t.row_lt
  have hcol := t.col_lt
  have hpos : 2 * s.x.toInt + 160 * s.yl.toInt = ((2 * (80 * t.row + t.col) : Nat) : Int) := by
    rw [h.x, h.yl]
    omega
  unfold Console.video byteAddr
  rw [h.realScreen, hpos, ofInt_natCast (by omega)]

/-- The cursor goes to another place. -/
theorem Shows.move (h : s.Shows t) {x : Int8} {col : Nat} (hcol : col < 80) (hx : x.toInt = col)
    (k : UInt8) : Shows { s with x := x, kattr := k } { t with col := col, col_lt := hcol } :=
  ⟨h.realScreen, hx, h.yl, h.cells⟩

/-- The cell of the cursor changes. -/
theorem Shows.write (h : s.Shows t) {m : LoggedMemory} {d : Cell}
    (hm : ∀ j < 2000, cellAt m j = if j = 80 * t.row + t.col then d else cellAt s.mem j) :
    Shows { s with mem := m } (t.write d) := by
  refine ⟨h.realScreen, h.x, h.yl, fun r hr c hc => ?_⟩
  have hcol := t.col_lt
  show cellAt m (80 * r + c) = Function.update t.cell t.row (Function.update (t.cell t.row) t.col d) r c
  rw [hm _ (by omega)]
  by_cases hrow : r = t.row
  · subst hrow
    rw [Function.update_self]
    by_cases hcol : c = t.col
    · rw [hcol, Function.update_self, if_pos rfl]
    · rw [Function.update_of_ne hcol, if_neg (by omega), h.cells _ hr c hc]
  · rw [Function.update_of_ne hrow, if_neg (by omega), h.cells r hr c hc]

/-- **The next row**, and the screen moves up behind the last one. -/
theorem Shows.lineFeed (h : s.Shows t) :
    Shows (if 24 < s.yl + 1 then
        { s with x := 0, yl := s.yl + 1 : Console }.scrollup (UInt32.ofInt ((s.yl + 1).toInt - 24))
      else { s with x := 0, yl := s.yl + 1 }) t.lineFeed := by
  have hrow := t.row_lt
  have hyl : (s.yl + 1).toInt = t.row + 1 := by
    rw [toInt_add_one (by rw [h.yl]; omega), h.yl]
  have hlt : 24 < s.yl + 1 ↔ ¬ t.row + 1 < 25 := by
    rw [Int8.lt_iff_toInt_lt, hyl]
    show (24 : Int) < _ ↔ _
    omega
  unfold TextScreen.lineFeed
  by_cases hlast : t.row + 1 < 25
  · rw [if_neg (not_not_intro hlast ∘ hlt.mp), dif_pos hlast]
    exact ⟨h.realScreen, rfl, hyl, h.cells⟩
  · have h24 : t.row = 24 := by omega
    have hone : UInt32.ofInt ((s.yl + 1).toInt - 24) = 1 := by
      rw [hyl, h24]
      rfl
    have hup : Int8.ofInt ((s.yl + 1).toInt - ((1 : UInt32).toNat : Int)) = 24 := by
      rw [hyl, h24]
      rfl
    rw [if_pos (hlt.mpr hlast), dif_neg hlast, hone]
    unfold scrollup
    dsimp only
    rw [hup]
    refine ⟨h.realScreen, rfl, ?_, fun r hr c hc => ?_⟩
    · rw [h24]
      rfl
    · show cellAt (scrollLoop 1 screenLim.toNat s.realScreen s.mem) _ = _
      have hstart : s.realScreen = byteAddr (2 * 0) := h.realScreen
      show _ = (if r < 24 then t.cell (r + 1) else fun _ => TextScreen.blankCell) c
      rw [hstart, scrollLoop_cells (by omega) (by decide) (by omega), if_pos (Nat.zero_le _)]
      unfold scrolled
      by_cases hr24 : r < 24
      · rw [if_pos (by omega), if_pos hr24, ← h.cells (r + 1) (by omega) c hc]
        congr 1
        omega
      · rw [if_neg (by omega), if_neg hr24]

/-- There is nothing to scroll. -/
theorem Shows.settled (h : s.Shows t) :
    Shows (if 24 < s.yl then s.scrollup (UInt32.ofInt (s.yl.toInt - 24)) else s) t := by
  have hrow := t.row_lt
  rw [if_neg]
  · exact h
  · rw [Int8.lt_iff_toInt_lt, h.yl]
    show ¬ (24 : Int) < _
    omega

/-- The character is in its cell. -/
theorem Shows.store (h : s.Shows t) (a b : UInt8) :
    Shows { s with mem := (s.mem.store s.video a).store (s.video + 1) b } (t.write ⟨a, b⟩) := by
  have hrow := t.row_lt
  have hcol := t.col_lt
  refine h.write fun j hj => ?_
  have hnext : s.video + 1 = byteAddr (2 * (80 * t.row + t.col) + 1) := by
    rw [h.video]
    exact byteAddr_add _ 1
  rw [hnext, h.video]
  exact cellAt_store (by omega) hj a b

/-- The cell is hidden. -/
theorem Shows.hide (h : s.Shows t) : Shows { s with mem := s.mem.store (s.video + 1) 0 }
    (t.write { t.cell t.row t.col with attr := 0 }) := by
  have hrow := t.row_lt
  have hcol := t.col_lt
  refine h.write fun j hj => ?_
  have hnext : s.video + 1 = byteAddr (2 * (80 * t.row + t.col) + 1) := by
    rw [h.video]
    exact byteAddr_add _ 1
  rw [hnext, ← h.cells _ t.row_lt _ t.col_lt]
  exact cellAt_store_attr (by omega) hj 0

/-- **One character** that stays on its line. -/
theorem Shows.putc (h : s.Shows t) (hc : s.StaysOnLine c) : Shows (s.putc c) (t.put c) := by
  have hs : Shows { s with kattr := 0x07 } t := ⟨h.realScreen, h.x, h.yl, h.cells⟩
  have hcol := t.col_lt
  unfold Console.putc place TextScreen.put
  by_cases h10 : c = 10
  · rw [if_pos h10, if_pos h10]
    exact hs.lineFeed
  rw [if_neg h10, if_neg h10]
  by_cases h8 : c = 8
  · have hne : s.x ≠ 0 := hc.1 h8
    have hpos : 0 < t.col := by
      refine Nat.pos_of_ne_zero fun h0 => hne (Int8.toInt_inj.mp ?_)
      rw [h.x, h0]
      rfl
    have hx : (s.x - 1).toInt = (t.col - 1 : Nat) := by
      rw [toInt_sub_one (by rw [h.x]; omega), h.x]
      omega
    rw [if_pos h8, if_pos h8, if_pos hne]
    exact (hs.hide.move (Nat.lt_of_le_of_lt (Nat.sub_le ..) hcol) hx _).settled
  rw [if_neg h8, if_neg h8]
  by_cases h9 : c = 9
  · have h72 : t.col < 72 := by
      have hlt := Int8.lt_iff_toInt_lt.mp (hc.2 h9)
      rw [h.x] at hlt
      exact Int.ofNat_lt.mp hlt
    have htab : (Int8.ofInt (s.x.toInt + 8 - s.x.toInt.tmod 8)).toInt =
        (t.col + 8 - t.col % 8 : Nat) := by
      rw [h.x, Int.tmod_eq_emod_of_nonneg (by omega)]
      have hsmall : (t.col : Int) + 8 - t.col % 8 = ((t.col + 8 - t.col % 8 : Nat) : Int) := by omega
      rw [hsmall]
      exact Int8.toInt_ofInt_of_le (by omega) (by omega)
    have hfits : t.col + 8 - t.col % 8 < 80 := by omega
    rw [if_pos h9, if_pos h9, TextScreen.tab, dif_pos hfits]
    exact (hs.move hfits htab _).settled
  rw [if_neg h9, if_neg h9]
  by_cases h13 : c = 13
  · rw [if_pos h13, if_pos h13]
    exact (hs.move (Nat.succ_pos 79) rfl _).settled
  rw [if_neg h13, if_neg h13]
  have hput := hs.store c 0x07
  have hx : (s.x + 1).toInt = (t.col + 1 : Nat) := by
    rw [toInt_add_one (by rw [h.x]; omega), h.x]
    rfl
  have hlast : 79 < s.x + 1 ↔ ¬ t.col + 1 < 80 := by
    rw [Int8.lt_iff_toInt_lt, hx]
    show (79 : Int) < _ ↔ _
    omega
  unfold TextScreen.glyph
  dsimp only
  by_cases hfits : t.col + 1 < 80
  · have hfits' : (t.write ⟨c, 0x07⟩).col + 1 < 80 := hfits
    rw [if_neg (not_not_intro hfits ∘ hlast.mp), dif_pos hfits']
    exact (hput.move hfits hx _).settled
  · have hfits' : ¬ (t.write ⟨c, 0x07⟩).col + 1 < 80 := hfits
    rw [if_pos (hlast.mpr hfits), dif_neg hfits']
    exact hput.lineFeed

/-- **All characters.** -/
theorem Shows.putcs (h : s.Shows t) {cs : List UInt8} (hcs : Before StaysOnLine s cs) :
    Shows (s.putcs cs) (t.puts cs) := by
  induction cs generalizing s t with
  | nil => exact h
  | cons c cs ih => exact ih (h.putc hcs.1) hcs.2

/-- The screen that the video memory shows. -/
def screenOf (s : Console) (h : s.OnScreen) : TextScreen where
  cell r c := cellAt s.mem (80 * r + c)
  row := s.yl.toInt.toNat
  col := s.x.toInt.toNat
  row_lt := by
    have := onScreen_iff.mp h
    omega
  col_lt := by
    have := onScreen_iff.mp h
    omega

theorem shows_screenOf (hreal : s.realScreen = ramScreen) (h : s.OnScreen) :
    s.Shows (s.screenOf h) := by
  have hon := onScreen_iff.mp h
  exact ⟨hreal, (Int.toNat_of_nonneg hon.1.1).symm, (Int.toNat_of_nonneg hon.2.1).symm,
    fun _ _ _ _ => rfl⟩

end Console

/-! ## The result -/

/-- **The console is a text screen.**  Whatever the video memory shows at first, after
any characters that stay on their lines it shows what the screen has become. -/
theorem console_refines_screen (s : Console) (hreal : s.realScreen = ramScreen)
    (hs : s.OnScreen) (cs : List UInt8) (hcs : Console.Before Console.StaysOnLine s cs) :
    (s.putcs cs).Shows ((s.screenOf hs).puts cs) :=
  (Console.shows_screenOf hreal hs).putcs hcs

/-- Two letters, a backspace and a newline. -/
theorem console_refines_screen_typed :
    ((Console.init fun _ => 0).putcs [0x48, 0x69, 0x08, 0x0A]).Shows
      ((Console.screenOf (Console.init fun _ => 0) (Console.init_onScreen _)).puts
        [0x48, 0x69, 0x08, 0x0A]) :=
  console_refines_screen (Console.init fun _ => 0) rfl (Console.init_onScreen _)
    [0x48, 0x69, 0x08, 0x0A] (by decide +kernel)

end KmOS
