/-
# `KmOS.Keyboard.Echo` — the line on the screen is the line in the buffer

`read_line` echoes a character, and takes one back by a backspace, a blank and another
backspace.  The blank covers the character; each backspace also hides the cell that it
leaves, which is behind the line.  So the row shows the line, and behind it nothing
that can be seen, as long as the line ends before the last column: what is put there
wraps around, and a backspace does not come back from the next row.
-/
import KmOS.Console.Format
import KmOS.Console.Screen
import KmOS.Keyboard.ReadLine

namespace KmOS

/-! ## A line on the screen -/

/-- There is nothing to see in the cell: no colour, no character, or a blank. -/
def Cell.Invisible (c : Cell) : Prop := c.attr = 0 ∨ c.char = 0 ∨ c.char = 0x20

namespace TextScreen

variable {t t₀ : TextScreen} {p : Nat} {line : List UInt8} {c : UInt8}

/-- The row of the cursor shows `line` from column `p` on, and nothing behind it; all else
is as in `t₀`. -/
structure ShowsLine (t t₀ : TextScreen) (p : Nat) (line : List UInt8) : Prop where
  row : t.row = t₀.row
  col : t.col = p + line.length
  shown : ListAt (t.cell t.row) p (line.map (Cell.mk · 0x07))
  behind : ∀ c, p + line.length ≤ c → c < 80 → (t.cell t.row c).Invisible
  others : ∀ r c, r ≠ t.row ∨ c < p → t.cell r c = t₀.cell r c

theorem write_cell (t : TextScreen) (d : Cell) :
    (t.write d).cell = Function.update t.cell t.row (Function.update (t.cell t.row) t.col d) := rfl

theorem write_cell_self (t : TextScreen) (d : Cell) : (t.write d).cell t.row t.col = d := by
  rw [write_cell, Function.update_self, Function.update_self]

theorem write_cell_of_ne {d : Cell} {r c : Nat} (h : r ≠ t.row ∨ c ≠ t.col) :
    (t.write d).cell r c = t.cell r c := by
  rw [write_cell]
  by_cases hr : r = t.row
  · subst hr
    rw [Function.update_self, Function.update_of_ne (h.resolve_left fun hne => hne rfl)]
  · rw [Function.update_of_ne hr]

/-- A character with a cell of its own, in front of the last column. -/
theorem put_glyph (hc : 32 ≤ c ∧ c < 127) (hcol : t.col + 1 < 80) :
    t.put c = { t.write ⟨c, 0x07⟩ with col := t.col + 1, col_lt := hcol } := by
  have hne : ∀ d : UInt8, d < 32 → c ≠ d := fun d hd he =>
    absurd hc.1 (UInt8.not_le.mpr (he ▸ hd))
  unfold put glyph
  rw [if_neg (hne 10 (by decide)), if_neg (hne 8 (by decide)), if_neg (hne 9 (by decide)),
    if_neg (hne 13 (by decide))]
  exact dif_pos hcol

/-- **A character more.** -/
theorem ShowsLine.text (h : t.ShowsLine t₀ p line) (hc : 32 ≤ c ∧ c < 127)
    (hfits : p + line.length + 1 < 80) : (t.put c).ShowsLine t₀ p (line ++ [c]) := by
  have hcol := h.col
  have hlt : t.col + 1 < 80 := by omega
  rw [put_glyph hc hlt]
  refine ⟨h.row, ?_, ?_, fun d hd hd' => ?_, fun r d hrd => ?_⟩
  · show t.col + 1 = _
    rw [h.col, List.length_append, List.length_singleton, Nat.add_assoc]
  · rw [List.map_append, ListAt.append_iff, List.length_map, ← h.col]
    refine ⟨h.shown.congr fun j _ hj => write_cell_of_ne (.inr ?_), write_cell_self t _, trivial⟩
    rw [List.length_map] at hj
    omega
  · rw [List.length_append, List.length_singleton] at hd
    show ((t.write ⟨c, 0x07⟩).cell t.row d).Invisible
    rw [write_cell_of_ne (.inr (by omega))]
    exact h.behind d (by omega) hd'
  · have hrd' : r ≠ t.row ∨ d < p := hrd
    show (t.write ⟨c, 0x07⟩).cell r d = _
    rw [write_cell_of_ne (hrd'.imp_right fun hd => by omega)]
    exact h.others r d hrd'

theorem put_backspace (t : TextScreen) : t.put 0x08 = t.backspace := rfl

/-- A backspace and a blank: the cursor is where it was. -/
theorem put_blank_col (hcol : 0 < t.col) : ((t.put 0x08).put 0x20).col = t.col := by
  have hlt := t.col_lt
  have hback : (t.put 0x08).col = t.col - 1 := rfl
  rw [put_glyph (by decide) (by omega)]
  show (t.put 0x08).col + 1 = t.col
  omega

/-- Where the line has been after a backspace, a blank and a backspace. -/
structure Erased (t u : TextScreen) : Prop where
  row : u.row = t.row
  col : u.col = t.col - 1
  blank : u.cell t.row (t.col - 1) = ⟨0x20, 0x07⟩
  hidden : (u.cell t.row t.col).attr = 0
  others : ∀ r c, r ≠ t.row ∨ c ≠ t.col ∧ c ≠ t.col - 1 → u.cell r c = t.cell r c

theorem puts_erased (hcol : 0 < t.col) : Erased t (t.puts [0x08, 0x20, 0x08]) := by
  have hlt := t.col_lt
  have hfits : t.backspace.col + 1 < 80 := by
    show t.col - 1 + 1 < 80
    omega
  have hback : t.col - 1 + 1 = t.col := by omega
  have hthree : t.puts [0x08, 0x20, 0x08] =
      { t.backspace.write ⟨0x20, 0x07⟩ with
        col := t.backspace.col + 1, col_lt := hfits : TextScreen }.backspace := by
    rw [← put_glyph (by decide) hfits, ← put_backspace, ← put_backspace]
    rfl
  generalize hu : { t.backspace.write ⟨0x20, 0x07⟩ with
    col := t.backspace.col + 1, col_lt := hfits : TextScreen } = u at hthree
  have hurow : u.row = t.row := by rw [← hu]; rfl
  have hucol : u.col = t.col := by rw [← hu]; exact hback
  have hucell : u.cell = (t.backspace.write ⟨0x20, 0x07⟩).cell := by rw [← hu]
  have hbrow : t.backspace.row = t.row := rfl
  have hbcol : t.backspace.col = t.col - 1 := rfl
  rw [hthree]
  refine ⟨hurow, congrArg (· - 1) hucol, ?_, ?_, fun r c hrc => ?_⟩
  · show (u.write _).cell t.row (t.col - 1) = _
    rw [write_cell_of_ne (.inr (by omega)), hucell]
    exact write_cell_self t.backspace _
  · show ((u.write _).cell t.row t.col).attr = 0
    rw [← hurow, ← hucol, write_cell_self]
  · show (u.write _).cell r c = _
    rw [write_cell_of_ne (by rw [hurow, hucol]; exact hrc.imp_right And.left), hucell,
      write_cell_of_ne (by rw [hbrow, hbcol]; exact hrc.imp_right And.right)]
    show (t.write _).cell r c = _
    rw [write_cell_of_ne (hrc.imp_right And.left)]

/-- **One less**: the blank covers it. -/
theorem ShowsLine.erase (h : t.ShowsLine t₀ p line) (hne : line ≠ []) :
    (t.puts [0x08, 0x20, 0x08]).ShowsLine t₀ p line.dropLast := by
  have hpos := List.length_pos_iff.mpr hne
  have hcol := h.col
  have hback : t.col - 1 = p + line.dropLast.length := by
    rw [List.length_dropLast]
    omega
  obtain ⟨hrow', hcol', hblank, hhidden, hothers⟩ := puts_erased (t := t) (by omega)
  generalize t.puts [0x08, 0x20, 0x08] = u at hrow' hcol' hblank hhidden hothers ⊢
  refine ⟨hrow'.trans h.row, hcol'.trans hback, ?_, fun c hc hlt => ?_, fun r c hrc => ?_⟩
  · rw [hrow']
    have hshown : ListAt (t.cell t.row) p (line.dropLast.map (Cell.mk · 0x07)) := by
      have hall := h.shown
      rw [← List.dropLast_append_getLast hne, List.map_append, ListAt.append_iff] at hall
      exact hall.1
    refine hshown.congr fun j _ hj => hothers _ _ (.inr ?_)
    rw [List.length_map, ← hback] at hj
    omega
  · rw [hrow']
    by_cases hcur : c = t.col
    · exact .inl (hcur ▸ hhidden)
    by_cases hlast : c = t.col - 1
    · rw [hlast, hblank]
      exact .inr (.inr rfl)
    · rw [hothers _ _ (.inr ⟨hcur, hlast⟩)]
      exact h.behind c (by omega) hlt
  · rw [hrow'] at hrc
    rw [hothers r c (hrc.imp_right fun hc => by omega)]
    exact h.others r c hrc

end TextScreen

theorem Console.Shows.stays_backspace {s : Console} {t : TextScreen} (h : s.Shows t)
    (hcol : 0 < t.col) : s.StaysOnLine 0x08 := by
  refine ⟨fun _ hx => ?_, fun he => absurd he (by decide)⟩
  have hzero := h.x
  rw [hx] at hzero
  exact absurd (Int.ofNat.inj hzero) (Nat.ne_of_lt hcol)

/-! ## The echo of a key -/

namespace ReadLine

variable {r : ReadLine} {t t₀ : TextScreen} {p cap : Nat} {line : List UInt8} {c : UInt8}

/-- What `read_line` puts on the screen for a key that does not end the line. -/
def echo (line : List UInt8) : LineKey UInt8 → List UInt8
  | .text c => [c]
  | .erase => if line = [] then [] else [0x08, 0x20, 0x08]
  | .enter => []
  | .other => []

/-- The formats of the three calls of `print`: for a character, a backspace, and the end. -/
def echoFormat : LineKey UInt8 → List UInt8
  | .text _ => ['%'.toUInt8, 'c'.toUInt8]
  | .erase => [0x08, 0x20, 0x08]
  | .enter => [0x0A]
  | .other => []

/-- `print` puts out for them what the model puts on the screen. -/
theorem print_echoFormat {memory : UInt32 → UInt8} {args : Nat → UInt32} {fuel : Nat} {a : UInt32}
    {k : LineKey UInt8} (hfmt : Format.TextFrom memory a (echoFormat k)) (hf : 16 ≤ fuel)
    (io : Console) (buf : Nat → UInt8) :
    print memory args fuel io a buf = some (io.putcs (match k with
      | .text _ => [(args 0).toUInt8]
      | .erase => [0x08, 0x20, 0x08]
      | .enter => [0x0A]
      | .other => [])) := by
  have hshort : (echoFormat k).length ≤ 3 := by
    cases k <;> exact Nat.le_of_ble_eq_true rfl
  have hlen : (echoFormat k).length < fuel := by omega
  have hputs : ∀ (ps : List FormatPiece) (text : List UInt8),
      Format.parse (echoFormat k) = (ps, true) → Format.stringArgs 0 ps = [] →
      Format.render args (fun _ => []) 0 ps = text →
      print memory args fuel io a buf = some (io.putcs text) := fun ps text hparse hargs htext => by
    rw [← htext]
    refine Format.print_whole hfmt hf hlen hparse fun i hi => ?_
    rw [hargs] at hi
    cases hi
  cases k with
  | text c => exact hputs [.directive 0 'c'.toUInt8] [(args 0).toUInt8] rfl rfl rfl
  | erase => exact hputs [.char 0x08, .char 0x20, .char 0x08] [0x08, 0x20, 0x08] rfl rfl rfl
  | enter => exact hputs [.char 0x0A] [0x0A] rfl rfl rfl
  | other => exact hputs [] [] rfl rfl rfl

theorem lineKey_text {c d : UInt8} (h : lineKey c = .text d) : d = c ∧ 32 ≤ c ∧ c < 127 := by
  unfold lineKey at h
  split at h
  · cases h
  split at h
  · cases h
  split at h
  · next hc =>
      cases h
      exact ⟨rfl, hc⟩
  · cases h

/-- **One key**: the screen shows the line that the key leaves. -/
theorem shows_echo {io : Console} (hio : io.Shows t) (h : t.ShowsLine t₀ p line)
    (hfits : p + ((lineKey c).edit line).length < 80) :
    ∃ t', (io.putcs (echo line (lineKey c))).Shows t' ∧ t'.ShowsLine t₀ p ((lineKey c).edit line) := by
  cases hk : lineKey c with
  | text d =>
      obtain ⟨rfl, hc⟩ := lineKey_text hk
      rw [hk, LineKey.edit, List.length_append, List.length_singleton] at hfits
      have hstays : io.StaysOnLine d :=
        ⟨fun he => absurd hc.1 (by rw [he]; decide), fun he => absurd hc.1 (by rw [he]; decide)⟩
      exact ⟨t.put d, hio.putc hstays, h.text hc hfits⟩
  | erase =>
      by_cases hnil : line = []
      · subst hnil
        exact ⟨t, hio, h⟩
      · rw [ReadLine.echo, if_neg hnil]
        have hpos : 0 < t.col := by
          have hlen := List.length_pos_iff.mpr hnil
          rw [h.col]
          omega
        have hfirst := hio.putc (hio.stays_backspace hpos)
        have hblank : (io.putc 0x08).StaysOnLine 0x20 :=
          ⟨fun he => absurd he (by decide), fun he => absurd he (by decide)⟩
        have hsecond := hfirst.putc hblank
        have hlast := hsecond.stays_backspace ((TextScreen.put_blank_col hpos).symm ▸ hpos)
        exact ⟨_, hio.putcs ⟨hio.stays_backspace hpos, hblank, hlast, trivial⟩, h.erase hnil⟩
  | enter => exact ⟨t, hio, h⟩
  | other => exact ⟨t, hio, h⟩

end ReadLine

/-! ## Runs -/

namespace Terminal

open LineKey

variable {t : Terminal} {cap p : Nat} {maxLen : Int} {t₀ : TextScreen}

/-- As long as no call returns, one line takes all keys. -/
theorem linesOf_line {hcap : 0 < cap} {returned : List UInt8} (h : (linesOf hcap returned).done = []) :
    (linesOf hcap returned).line = kept (returned.map lineKey) := by
  obtain ⟨pieces, rest, hkeys, -, -, hdone, hline⟩ :=
    (Editor.reads_foldl hcap (returned.map lineKey)).split
  have hnil : pieces = [] := List.map_eq_nil_iff.mp (hdone.symm.trans h)
  rw [hnil] at hkeys
  exact hline.trans (congrArg kept hkeys.symm)

theorem Tracks.done_nil {e : Editor UInt8 cap} (h : t.Tracks e) (hlines : t.lines = []) :
    e.done = [] := by
  have hall := h.lines
  rw [hlines] at hall
  exact List.forall₂_nil_left_iff.mp hall

theorem next_loopTest_open {q : ReadLine} (h : (t.next (q.loopTest maxLen)).lines = []) :
    (t.next (q.loopTest maxLen)).reading = q := by
  unfold ReadLine.loopTest at h ⊢
  split at h
  · next hlt =>
      rw [if_pos hlt]
      rfl
  · exact absurd h (List.append_ne_nil_of_right_ne_nil _ (List.cons_ne_nil _ _))

/-- A turn after which no call has returned has echoed its key. -/
theorem next_act_open {r : ReadLine} {line : List UInt8} {c : UInt8} (hr : r.HasRead cap line)
    (h : (t.next (r.act maxLen c)).lines = []) :
    (t.next (r.act maxLen c)).reading.io = r.io.putcs (ReadLine.echo line (lineKey c)) := by
  have hpos := hr.pos
  unfold ReadLine.act at h ⊢
  unfold lineKey
  by_cases hnl : c = 0x0A ∨ c = 0x0D
  · rw [if_pos hnl] at h
    exact absurd h (List.append_ne_nil_of_right_ne_nil _ (List.cons_ne_nil _ _))
  rw [if_neg hnl] at h ⊢
  rw [if_neg hnl]
  by_cases hbs : c = 0x08 ∨ c = 127
  · rw [if_pos hbs] at h ⊢
    rw [if_pos hbs, next_loopTest_open h, ReadLine.echo]
    by_cases hnil : line = []
    · have hno : ¬ 0 < r.pos := by
        rw [hpos, hnil]
        exact Nat.lt_irrefl 0
      rw [if_neg hno, if_pos hnil]
      rfl
    · rw [if_pos (hpos ▸ List.length_pos_iff.mpr hnil), if_neg hnil]
  rw [if_neg hbs] at h ⊢
  rw [if_neg hbs]
  by_cases htext : 32 ≤ c ∧ c < 127
  · rw [if_pos htext] at h ⊢
    rw [if_pos htext, next_loopTest_open h]
    rfl
  · rw [if_neg htext] at h ⊢
    rw [if_neg htext, next_loopTest_open h]
    rfl

theorem next_lines_nil {turn : ReadTurn} (h : (t.next turn).lines = []) : t.lines = [] := by
  cases turn with
  | halted => exact h
  | again r => exact h
  | returned r => exact (List.append_eq_nil_iff.mp h).1

/-- The line that has been handed out, if no call has returned. -/
def lineSoFar (d : KeyboardDriver) (events : List KeyboardEvent) : List UInt8 :=
  kept ((Typing.after d events).returned.map lineKey)

/-- As long as no call returns, the screen shows the line. -/
theorem after_shows (hcap : 0 < cap) (hmax : maxLen = cap + 1) (d : KeyboardDriver) {io : Console}
    (hio : io.Shows t₀) (h₀ : t₀.ShowsLine t₀ p []) (buffer : Nat → UInt8)
    (events : List KeyboardEvent) (hopen : (after maxLen d io buffer events).lines = [])
    (hfits : ∀ es, es <+: events → p + (lineSoFar d es).length < 80) :
    ∃ t', (after maxLen d io buffer events).reading.io.Shows t' ∧
      t'.ShowsLine t₀ p (lineSoFar d events) := by
  induction events using List.reverseRecOn with
  | nil => exact ⟨t₀, hio, h₀⟩
  | append_singleton events ev ih =>
      have hconcat : after maxLen d io buffer (events ++ [ev]) =
          (after maxLen d io buffer events).step maxLen ev := List.foldl_append
      obtain ⟨l, hl, -⟩ := Typing.after_follows d events
      obtain ⟨hdriver, htracks⟩ := after_spec hcap hmax d io buffer events
      have hlast := hfits _ List.prefix_rfl
      have ih := fun h => ih h fun es hes => hfits es (hes.trans (List.prefix_append ..))
      unfold lineSoFar at ih hlast ⊢
      rw [hconcat] at hopen ⊢
      rw [Typing.after_concat] at hlast ⊢
      generalize after maxLen d io buffer events = t at hopen ih hdriver htracks ⊢
      generalize Typing.after d events = ty at hl ih hdriver htracks hlast ⊢
      cases ev with
      | interrupt status scancode => exact ih hopen
      | getChar =>
          have hs := hl.holds
          have hs' := hdriver.symm ▸ hs
          have hstep : t.step maxLen .getChar = t.next (t.reading.turn maxLen) := rfl
          rw [hstep] at hopen ⊢
          cases hitems : l.queue.items with
          | nil =>
              rw [hitems] at hs hs'
              rw [ReadLine.turn_nil hs'] at hopen ⊢
              rw [Typing.step_getChar_nil hs]
              exact ih hopen
          | cons c rest =>
              rw [hitems] at hs hs'
              rw [Typing.step_getChar_cons hs, List.map_append] at hlast ⊢
              obtain ⟨t', hio', hshows⟩ := ih (next_lines_nil hopen)
              have hline := linesOf_line (htracks.done_nil (next_lines_nil hopen))
              rw [ReadLine.turn_cons hs'] at hopen ⊢
              have hr := htracks.reading
              rw [hline] at hr
              have hread (d : KeyboardDriver) :
                  { t.reading with driver := d }.HasRead cap (kept (ty.returned.map lineKey)) :=
                ⟨hr.pos, hr.listAt, hr.noNul, hr.inside⟩
              have hkept : kept (ty.returned.map lineKey ++ [c].map lineKey) =
                  (lineKey c).edit (kept (ty.returned.map lineKey)) := kept_concat _ _
              rw [hkept] at hlast ⊢
              rw [next_act_open (hread _) hopen]
              exact ReadLine.shows_echo hio' hshows hlast

end Terminal

/-! ## The result -/

/-- **What you see is what you have typed.**  The prompt ends in column `p`, and behind it
nothing is to be seen in its row.  As long as the call has not returned and the line has
never reached the last column, the row shows the line that the buffer holds and behind it
nothing, and the rest of the screen has not changed. -/
theorem readLine_echo (maxLen : Int) (hmax : 1 < maxLen) (d : KeyboardDriver) (io : Console)
    (hreal : io.realScreen = ramScreen) (hon : io.OnScreen) (buffer : Nat → UInt8)
    (hblank : ∀ c, (io.screenOf hon).col ≤ c → c < 80 →
      ((io.screenOf hon).cell (io.screenOf hon).row c).Invisible)
    (events : List KeyboardEvent) (hopen : (Terminal.after maxLen d io buffer events).lines = [])
    (hfits : ∀ es, es <+: events →
      (io.screenOf hon).col + (Terminal.lineSoFar d es).length < 80) :
    ∃ t, (Terminal.after maxLen d io buffer events).reading.io.Shows t ∧
      t.ShowsLine (io.screenOf hon) (io.screenOf hon).col (Terminal.lineSoFar d events) := by
  have hcap : 0 < (maxLen - 1).toNat := by omega
  have hmax' : maxLen = ((maxLen - 1).toNat : Int) + 1 := by omega
  exact Terminal.after_shows hcap hmax' d (Console.shows_screenOf hreal hon)
    ⟨rfl, rfl, trivial, hblank, fun _ _ _ => rfl⟩ buffer events hopen hfits

/-- A letter, and a backspace. -/
def letterErased : List KeyboardEvent :=
  [.interrupt 1 0x23, .getChar, .interrupt 1 0x0E, .getChar]

theorem readLine_echo_letterErased :
    ∃ t, (Terminal.after 512 .zeroed (.init fun _ => 0) (fun _ => 0) letterErased).reading.io.Shows t ∧
      t.ShowsLine ((Console.init fun _ => 0).screenOf (Console.init_onScreen _)) 0
        (Terminal.lineSoFar .zeroed letterErased) := by
  have hfew : ∀ es ∈ letterErased.inits, 0 + (Terminal.lineSoFar .zeroed es).length < 80 := by
    decide +kernel
  exact readLine_echo 512 (by decide) .zeroed (.init fun _ => 0) rfl (Console.init_onScreen _)
    (fun _ => 0) (fun _ _ _ => .inr (.inl rfl)) letterErased
    (List.isEmpty_iff.mp (by decide +kernel))
    (fun es hes => hfew es ((List.mem_inits es letterErased).mpr hes))

end KmOS
