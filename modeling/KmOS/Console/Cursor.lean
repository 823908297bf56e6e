/-
# `KmOS.Console.Cursor` — the cursor stays on the screen

A newline or a full line on the last row scrolls at once, so the row is right
after every character.  The column is checked only when a character is put on
the screen: a backspace in column 0 leads to column -1, and a tab in the last
tab stop to column 80.  What is put there lies before the screen or behind it.
-/
import KmOS.Console.Model

namespace KmOS

namespace Console

variable {s : Console} {c : UInt8}

/-! ## `char` arithmetic -/

theorem toInt_add_one {a : Int8} (h : a.toInt < 127) : (a + 1).toInt = a.toInt + 1 := by
  have hlo := a.le_toInt
  rw [Int8.toInt_add]
  exact Int.bmod_eq_of_le (by show (-128 : Int) ≤ a.toInt + 1; omega)
    (by show a.toInt + 1 < (128 : Int); omega)

theorem toInt_sub_one {a : Int8} (h : -128 < a.toInt) : (a - 1).toInt = a.toInt - 1 := by
  have hhi := a.toInt_lt
  rw [Int8.toInt_sub]
  exact Int.bmod_eq_of_le (by show (-128 : Int) ≤ a.toInt - 1; omega)
    (by show a.toInt - 1 < (128 : Int); omega)

theorem ofInt_natCast {k : Nat} (h : k < 4294967296) : UInt32.ofInt k = UInt32.ofNat k := by
  unfold UInt32.ofInt
  congr 1
  omega

/-! ## Where the cursor is -/

/-- The coordinates of a character cell. -/
structure OnScreen (s : Console) : Prop where
  x_nonneg : 0 ≤ s.x
  x_le : s.x ≤ 79
  yl_nonneg : 0 ≤ s.yl
  yl_le : s.yl ≤ 24

instance (s : Console) : Decidable s.OnScreen :=
  decidable_of_iff (0 ≤ s.x ∧ s.x ≤ 79 ∧ 0 ≤ s.yl ∧ s.yl ≤ 24)
    ⟨fun ⟨a, b, c, d⟩ => ⟨a, b, c, d⟩, fun ⟨a, b, c, d⟩ => ⟨a, b, c, d⟩⟩

theorem onScreen_iff : s.OnScreen ↔ (0 ≤ s.x.toInt ∧ s.x.toInt ≤ 79) ∧ 0 ≤ s.yl.toInt ∧ s.yl.toInt ≤ 24 := by
  constructor
  · rintro ⟨h₁, h₂, h₃, h₄⟩
    exact ⟨⟨Int8.le_iff_toInt_le.mp h₁, Int8.le_iff_toInt_le.mp h₂⟩, Int8.le_iff_toInt_le.mp h₃,
      Int8.le_iff_toInt_le.mp h₄⟩
  · rintro ⟨⟨h₁, h₂⟩, h₃, h₄⟩
    exact ⟨Int8.le_iff_toInt_le.mpr h₁, Int8.le_iff_toInt_le.mpr h₂, Int8.le_iff_toInt_le.mpr h₃,
      Int8.le_iff_toInt_le.mpr h₄⟩

/-- A byte of the screen. -/
def InScreen : UInt32 → Prop := Between ramScreen screenLim

instance : DecidablePred InScreen := inferInstanceAs (DecidablePred (Between _ _))

theorem inScreen_iff {a : UInt32} : InScreen a ↔ 753664 ≤ a.toNat ∧ a.toNat < 757664 := by
  unfold InScreen Between
  rw [UInt32.le_iff_toNat_le, UInt32.lt_iff_toNat_lt]
  exact Iff.rfl

/-- The two bytes of the cell under the cursor. -/
theorem OnScreen.video (h : s.OnScreen) (hreal : s.realScreen = ramScreen) :
    InScreen s.video ∧ InScreen (s.video + 1) := by
  obtain ⟨⟨h₁, h₂⟩, h₃, h₄⟩ := onScreen_iff.mp h
  obtain ⟨k, hk⟩ := Int.eq_ofNat_of_zero_le (show 0 ≤ 2 * s.x.toInt + 160 * s.yl.toInt by omega)
  have hlt : k < 3999 := by omega
  have hval : s.video.toNat = 753664 + k := by
    unfold Console.video
    rw [hreal, hk, ofInt_natCast (by omega)]
    exact toNat_add_ofNat (a := ramScreen) (by show 753664 + k < 4294967296; omega)
  have hnext : (s.video + 1).toNat = 753664 + k + 1 := by
    rw [← hval]
    exact toNat_add_ofNat (a := s.video) (j := 1) (by rw [hval]; omega)
  constructor
  · rw [inScreen_iff, hval]
    omega
  · rw [inScreen_iff, hnext]
    omega

/-! ## Scrolling -/

/-- The loop of `scrollup` writes the rest of the screen. -/
theorem scrollLoop_only {n video : UInt32} {fuel : Nat} {m : LoggedMemory} (hm : m.Only InScreen)
    (hlo : 753664 ≤ video.toNat) (heven : video.toNat % 2 = 0) :
    (scrollLoop n fuel video m).Only InScreen := by
  induction fuel generalizing video m with
  | zero => exact hm
  | succ fuel ih =>
      unfold scrollLoop
      split
      · next hlt =>
          have hhi : video.toNat < 757664 := UInt32.lt_iff_toNat_lt.mp hlt
          have hnext : (video + 1).toNat = video.toNat + 1 := toNat_add_ofNat (j := 1) (by omega)
          have hskip : (video + 2).toNat = video.toNat + 2 := toNat_add_ofNat (j := 2) (by omega)
          have hcell : (scrollCell n video m).Only InScreen := by
            have hfirst : InScreen video := inScreen_iff.mpr ⟨hlo, hhi⟩
            have hsecond : InScreen (video + 1) := inScreen_iff.mpr (by omega)
            unfold scrollCell
            dsimp only
            split
            · exact LoggedMemory.only_store.mpr ⟨hsecond, LoggedMemory.only_store.mpr ⟨hfirst, hm⟩⟩
            · exact LoggedMemory.only_store.mpr ⟨hsecond, LoggedMemory.only_store.mpr ⟨hfirst, hm⟩⟩
          exact ih hcell (by omega) (by omega)
      · exact hm

/-- The loop of `scrollup` ends by its test: one turn more changes nothing. -/
theorem scrollLoop_ends {n video : UInt32} {fuel : Nat} {m : LoggedMemory}
    (hfuel : 757664 ≤ video.toNat + fuel) :
    scrollLoop n (fuel + 1) video m = scrollLoop n fuel video m := by
  induction fuel generalizing video m with
  | zero =>
      have hge : ¬ video < screenLim := fun hlt => by
        have hhi : video.toNat < 757664 := UInt32.lt_iff_toNat_lt.mp hlt
        omega
      exact if_neg hge
  | succ fuel ih =>
      by_cases hlt : video < screenLim
      · have hhi : video.toNat < 757664 := UInt32.lt_iff_toNat_lt.mp hlt
        have hskip : (video + 2).toNat = video.toNat + 2 := toNat_add_ofNat (j := 2) (by omega)
        exact (if_pos hlt).trans ((ih (by omega)).trans (if_pos hlt).symm)
      · exact (if_neg hlt).trans (if_neg hlt).symm

/-! ## One character -/

/-- No backspace in column 0, and no tab in the last tab stop. -/
def StaysOnLine (s : Console) (c : UInt8) : Prop := (c = 8 → s.x ≠ 0) ∧ (c = 9 → s.x < 72)

instance (s : Console) (c : UInt8) : Decidable (s.StaysOnLine c) := by
  unfold StaysOnLine
  infer_instance

/-- Where a character leaves the cursor before the screen scrolls. -/
structure Placed (s t : Console) (c : UInt8) : Prop where
  realScreen : t.realScreen = ramScreen
  only : t.mem.Only InScreen
  x_iff : 0 ≤ t.x.toInt ∧ t.x.toInt ≤ 79 ↔ s.StaysOnLine c
  yl_nonneg : 0 ≤ t.yl.toInt
  yl_le : t.yl.toInt ≤ 25

/-- The cursor stays in the row, in a column that is on the screen exactly if the
character stays on the line. -/
theorem Placed.inRow (h : s.OnScreen) (hreal : s.realScreen = ramScreen) {m : LoggedMemory}
    (hm : m.Only InScreen) {x : Int8} {k : UInt8}
    (hx : 0 ≤ x.toInt ∧ x.toInt ≤ 79 ↔ s.StaysOnLine c) :
    Placed s { s with mem := m, x := x, kattr := k } c := by
  obtain ⟨_, h₃, h₄⟩ := onScreen_iff.mp h
  exact ⟨hreal, hm, hx, h₃, by show s.yl.toInt ≤ 25; omega⟩

/-- The cursor goes to the next row. -/
theorem Placed.nextRow (h : s.OnScreen) (hreal : s.realScreen = ramScreen) {m : LoggedMemory}
    (hm : m.Only InScreen) (hc : s.StaysOnLine c) :
    Placed s { s with mem := m, x := 0, yl := s.yl + 1 } c := by
  obtain ⟨_, h₃, h₄⟩ := onScreen_iff.mp h
  have hdown : (s.yl + 1).toInt = s.yl.toInt + 1 := toInt_add_one (by omega)
  refine ⟨hreal, hm, iff_of_true ⟨Int.le_refl _, ?_⟩ hc, ?_, ?_⟩
  · show (0 : Int8).toInt ≤ 79
    decide
  · show 0 ≤ (s.yl + 1).toInt
    omega
  · show (s.yl + 1).toInt ≤ 25
    omega

theorem place_spec (h : s.OnScreen) (hreal : s.realScreen = ramScreen)
    (hm : s.mem.Only InScreen) (c : UInt8) : Placed s (s.place c) c := by
  obtain ⟨⟨h₁, h₂⟩, _⟩ := onScreen_iff.mp h
  obtain ⟨hfirst, hsecond⟩ := h.video hreal
  unfold place
  split
  · next hc =>
      subst hc
      exact .nextRow h hreal hm ⟨nofun, nofun⟩
  split
  · next hc =>
      subst hc
      have hleft : (s.x - 1).toInt = s.x.toInt - 1 := toInt_sub_one (by omega)
      have hzero : s.x = 0 ↔ s.x.toInt = 0 := Int8.toInt_inj.symm
      refine .inRow h hreal ?_ ?_
      · split
        · exact LoggedMemory.only_store.mpr ⟨hsecond, hm⟩
        · exact hm
      · rw [hleft]
        constructor
        · rintro ⟨hlo, _⟩
          refine ⟨fun _ h0 => ?_, nofun⟩
          rw [hzero.mp h0] at hlo
          exact absurd hlo (by decide)
        · rintro ⟨hne, _⟩
          have h0 : s.x.toInt ≠ 0 := fun e => hne rfl (hzero.mpr e)
          omega
  split
  · next hc =>
      subst hc
      have htab : (Int8.ofInt (s.x.toInt + 8 - s.x.toInt.tmod 8)).toInt =
          s.x.toInt + 8 - s.x.toInt % 8 := by
        rw [Int.tmod_eq_emod_of_nonneg h₁]
        exact Int8.toInt_ofInt_of_le (by omega) (by omega)
      have hlt : s.x < 72 ↔ s.x.toInt < 72 := Int8.lt_iff_toInt_lt
      refine .inRow h hreal hm ?_
      rw [htab]
      constructor
      · rintro ⟨_, hhi⟩
        exact ⟨nofun, fun _ => hlt.mpr (by omega)⟩
      · rintro ⟨_, hcol⟩
        have := hlt.mp (hcol rfl)
        omega
  split
  · next hc =>
      subst hc
      exact .inRow h hreal hm (iff_of_true (by decide) ⟨nofun, nofun⟩)
  · next h10 h8 h9 h13 =>
      have hright : (s.x + 1).toInt = s.x.toInt + 1 := toInt_add_one (by omega)
      have hput : ((s.mem.store s.video c).store (s.video + 1) s.kattr).Only InScreen :=
        LoggedMemory.only_store.mpr ⟨hsecond, LoggedMemory.only_store.mpr ⟨hfirst, hm⟩⟩
      have hstays : s.StaysOnLine c := ⟨fun e => absurd e h8, fun e => absurd e h9⟩
      dsimp only
      split
      · exact .nextRow h hreal hput hstays
      · next hle =>
          have hfits : (s.x + 1).toInt ≤ 79 := by
            rw [Int8.lt_iff_toInt_lt] at hle
            exact Int.not_lt.mp hle
          exact .inRow h hreal hput (iff_of_true ⟨by omega, hfits⟩ hstays)

/-- **One character**: everything written is on the screen, and the cursor stays
there exactly if the character stays on the line. -/
theorem putc_spec (h : s.OnScreen) (hreal : s.realScreen = ramScreen)
    (hm : s.mem.Only InScreen) (c : UInt8) :
    (s.putc c).realScreen = ramScreen ∧ (s.putc c).mem.Only InScreen ∧
      ((s.putc c).OnScreen ↔ s.StaysOnLine c) := by
  have h' : { s with kattr := 0x07 : Console }.OnScreen := ⟨h.x_nonneg, h.x_le, h.yl_nonneg, h.yl_le⟩
  have hp : Placed s ({ s with kattr := 0x07 : Console }.place c) c := by
    have hplaced := place_spec h' hreal hm c
    exact ⟨hplaced.realScreen, hplaced.only, hplaced.x_iff, hplaced.yl_nonneg, hplaced.yl_le⟩
  unfold putc
  generalize { s with kattr := 0x07 : Console }.place c = t at hp ⊢
  dsimp only
  split
  · next hlt =>
      -- the cursor is one row below the screen, and the screen moves up by one
      have hrow : t.yl.toInt = 25 := by
        have h25 := hp.yl_le
        rw [Int8.lt_iff_toInt_lt] at hlt
        have h24 : (24 : Int8).toInt = 24 := rfl
        omega
      have hyl : (t.scrollup (UInt32.ofInt (t.yl.toInt - 24))).yl = 24 := by
        unfold scrollup
        rw [hrow]
        rfl
      refine ⟨hp.realScreen, ?_, ?_⟩
      · refine scrollLoop_only hp.only ?_ ?_
        · rw [hp.realScreen]
          decide
        · rw [hp.realScreen]
          decide
      · rw [onScreen_iff, hyl]
        exact (and_iff_left (by decide)).trans hp.x_iff
  · next hle =>
      have h24 : t.yl.toInt ≤ 24 := by
        rw [Int8.lt_iff_toInt_lt] at hle
        exact Int.not_lt.mp hle
      refine ⟨hp.realScreen, hp.only, ?_⟩
      rw [onScreen_iff]
      exact (and_iff_left ⟨hp.yl_nonneg, h24⟩).trans hp.x_iff

/-! ## All characters -/

/-- `P` holds before each character. -/
def Before (P : Console → UInt8 → Prop) : Console → List UInt8 → Prop
  | _, [] => True
  | s, c :: cs => P s c ∧ Before P (s.putc c) cs

instance {P : Console → UInt8 → Prop} [∀ s c, Decidable (P s c)] :
    (s : Console) → (cs : List UInt8) → Decidable (Before P s cs)
  | _, [] => isTrue True.intro
  | s, c :: cs =>
      have := instDecidableBefore (P := P) (s.putc c) cs
      inferInstanceAs (Decidable (P s c ∧ Before P (s.putc c) cs))

/-- From a cursor on the screen on, it is there before each character and all
writes are, exactly if every character but the last one stays on its line. -/
theorem putcs_iff (h : s.OnScreen) (hreal : s.realScreen = ramScreen)
    (hm : s.mem.Only InScreen) (cs : List UInt8) :
    Before (fun s _ => s.OnScreen) s cs ∧ (s.putcs cs).mem.Only InScreen ↔
      Before StaysOnLine s cs.dropLast := by
  induction cs generalizing s with
  | nil => exact iff_of_true ⟨True.intro, hm⟩ True.intro
  | cons c cs ih =>
      obtain ⟨hreal', hm', hiff⟩ := putc_spec h hreal hm c
      cases cs with
      | nil => exact iff_of_true ⟨⟨h, True.intro⟩, hm'⟩ True.intro
      | cons d cs =>
          constructor
          · rintro ⟨⟨_, hrest⟩, hall⟩
            exact ⟨hiff.mp hrest.1, (ih hrest.1 hreal' hm').mp ⟨hrest, hall⟩⟩
          · rintro ⟨hc, hrest⟩
            obtain ⟨hbefore, hall⟩ := (ih (hiff.mpr hc) hreal' hm').mpr hrest
            exact ⟨⟨h, hbefore⟩, hall⟩

theorem init_onScreen (bytes : UInt32 → UInt8) : (init bytes).OnScreen := by
  constructor
  · show (0 : Int8) ≤ 0
    decide
  · show (0 : Int8) ≤ 79
    decide
  · show (0 : Int8) ≤ 0
    decide
  · show (0 : Int8) ≤ 24
    decide

theorem init_only (bytes : UInt32 → UInt8) : (init bytes).mem.Only InScreen := by
  intro a ha
  cases ha

end Console

/-! ## The result -/

/-- **The cursor stays on the screen** before each character, and so do all
writes, exactly if no character but the last one is a backspace in column 0 or a
tab in column 72 or behind. -/
theorem cursor_on_screen_iff (bytes : UInt32 → UInt8) (cs : List UInt8) :
    Console.Before (fun s _ => s.OnScreen) (.init bytes) cs ∧
        ((Console.init bytes).putcs cs).mem.Only Console.InScreen ↔
      Console.Before Console.StaysOnLine (.init bytes) cs.dropLast :=
  Console.putcs_iff (Console.init_onScreen bytes) rfl (Console.init_only bytes) cs

/-- A backspace in the first cell, and a letter: the letter is written in front
of the screen.  Tabs to the end of the last row, and a letter: it is written
behind the screen. -/
theorem cursor_leaves_screen :
    ¬ Console.Before (fun s _ => s.OnScreen) (.init fun _ => 0) [8, 65] ∧
      ((Console.init fun _ => 0).putcs [8, 65]).mem.written = [0xB7FFF, 0xB7FFE] ∧
      ((Console.init fun _ => 0).putcs
        (List.replicate 24 10 ++ List.replicate 10 9 ++ [65])).mem.written.getLast? = some 0xB8FA0 ∧
      ¬ Console.InScreen 0xB7FFE ∧ ¬ Console.InScreen 0xB8FA0 := by
  decide +kernel

end KmOS
