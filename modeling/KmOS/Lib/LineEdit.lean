/-
# `KmOS.Lib.LineEdit` — lines that are edited while they are typed

A key puts a character behind the line, takes the last one away, or ends the line.
An `Editor` does this from the left, one key at a time, and starts a new line behind
`enter` and where a line has reached `cap` characters.

`survivors` says from the right what becomes of the keys: a character stays unless a
key behind it erases it.  The two agree (`foldl_edit`), and so the keys fall into
pieces, one for each line, and a line is what survives of its piece (`Editor.Reads`).
Where a piece ends depends on nothing behind it.
-/
import Mathlib.Data.List.Infix

namespace KmOS

variable {α : Type}

/-- What a key is to an editor. -/
inductive LineKey (α : Type) where
  | text (a : α)
  | erase
  | enter
  | other
deriving DecidableEq

namespace LineKey

variable {cap : Nat} {k : LineKey α} {ks ps : List (LineKey α)} {line : List α} {a : α}

/-! ## From the left and from the right -/

/-- What a key does to the line. -/
def edit (line : List α) : LineKey α → List α
  | .text a => line ++ [a]
  | .erase => line.dropLast
  | .enter => line
  | .other => line

/-- How many characters in front the keys erase, and which of their own they leave. -/
def survivors : List (LineKey α) → Nat × List α
  | [] => (0, [])
  | .text a :: ks =>
      if (survivors ks).1 = 0 then (0, a :: (survivors ks).2)
      else ((survivors ks).1 - 1, (survivors ks).2)
  | .erase :: ks => ((survivors ks).1 + 1, (survivors ks).2)
  | .enter :: ks => survivors ks
  | .other :: ks => survivors ks

/-- The characters that no key behind them erases. -/
def kept (ks : List (LineKey α)) : List α := (survivors ks).2

/-- **Left and right agree.** -/
theorem foldl_edit (ks : List (LineKey α)) (line : List α) :
    ks.foldl edit line = line.take (line.length - (survivors ks).1) ++ kept ks := by
  induction ks generalizing line with
  | nil => simp [kept, survivors]
  | cons k ks ih =>
      rw [List.foldl_cons, ih]
      cases k with
      | text a =>
          simp only [kept, edit, survivors]
          split
          · next h0 =>
              rw [h0, Nat.sub_zero, Nat.sub_zero, List.take_length, List.take_length,
                List.append_assoc]
              rfl
          · next h0 =>
              rw [List.length_append, List.length_singleton]
              have hlen : line.length + 1 - (survivors ks).1 =
                  line.length - ((survivors ks).1 - 1) := by omega
              rw [hlen, List.take_append_of_le_length (Nat.sub_le ..)]
      | erase =>
          have hlen : line.length - 1 - (survivors ks).1 = line.length - ((survivors ks).1 + 1) := by
            omega
          have hle : line.length - ((survivors ks).1 + 1) ≤ line.length - 1 := by omega
          simp only [kept, edit, survivors]
          rw [List.length_dropLast, hlen, List.dropLast_eq_take, List.take_take, Nat.min_eq_left hle]
      | enter => rfl
      | other => rfl

/-- On an empty line. -/
theorem foldl_edit_nil (ks : List (LineKey α)) : ks.foldl edit [] = kept ks := by
  rw [foldl_edit, List.take_nil, List.nil_append]

theorem kept_concat (ks : List (LineKey α)) (k : LineKey α) : kept (ks ++ [k]) = edit (kept ks) k := by
  rw [← foldl_edit_nil, ← foldl_edit_nil, List.foldl_append]
  rfl

theorem length_edit_le (line : List α) (k : LineKey α) : (edit line k).length ≤ line.length + 1 := by
  cases k with
  | text a => simp [edit]
  | erase =>
      unfold edit
      rw [List.length_dropLast]
      omega
  | enter => exact Nat.le_succ _
  | other => exact Nat.le_succ _

/-! ## Pieces -/

/-- A line ends behind these keys. -/
def EndsLine (cap : Nat) (ks : List (LineKey α)) : Prop :=
  ks.getLast? = some .enter ∨ cap ≤ (kept ks).length

/-- No line ends in these keys. -/
def OpenLine (cap : Nat) (ks : List (LineKey α)) : Prop := ∀ ps, ps <+: ks → ¬ EndsLine cap ps

/-- The keys of one line: it ends behind them, and not before. -/
def Piece (cap : Nat) (ks : List (LineKey α)) : Prop :=
  EndsLine cap ks ∧ ∀ ps, ps <+: ks → ps ≠ ks → ¬ EndsLine cap ps

theorem openLine_nil (hcap : 0 < cap) : OpenLine cap ([] : List (LineKey α)) := by
  intro ps hps
  obtain rfl := List.prefix_nil.mp hps
  rintro (h | h)
  · cases h
  · exact absurd hcap (Nat.not_lt.mpr h)

theorem endsLine_concat_iff : EndsLine cap (ks ++ [k]) ↔ k = .enter ∨ cap ≤ (edit (kept ks) k).length := by
  unfold EndsLine
  rw [List.getLast?_concat, Option.some_inj, kept_concat]

/-- One more key, and the line is still open. -/
theorem OpenLine.concat (h : OpenLine cap ks) (hk : ¬ EndsLine cap (ks ++ [k])) : OpenLine cap (ks ++ [k]) := by
  intro ps hps
  rcases List.prefix_concat_iff.mp hps with rfl | hps
  · exact hk
  · exact h ps hps

/-- One more key, and the line is done. -/
theorem OpenLine.piece (h : OpenLine cap ks) (hk : EndsLine cap (ks ++ [k])) : Piece cap (ks ++ [k]) := by
  refine ⟨hk, fun ps hps hne => ?_⟩
  rcases List.prefix_concat_iff.mp hps with rfl | hps
  · exact absurd rfl hne
  · exact h ps hps

/-- A line is no longer than a line can be. -/
theorem Piece.length_kept_le (h : Piece cap ks) : (kept ks).length ≤ cap := by
  cases ks using List.reverseRecOn with
  | nil => exact Nat.zero_le cap
  | append_singleton ks k =>
      have hopen : ¬ EndsLine cap ks :=
        h.2 ks (List.prefix_append ks [k]) fun he => by simpa using congrArg List.length he
      have hlt := Nat.lt_of_not_le (not_or.mp hopen).2
      have hle := length_edit_le (kept ks) k
      rw [kept_concat]
      omega

end LineKey

/-! ## The editor -/

/-- The lines that are done, and the one that is being typed. -/
structure Editor (α : Type) (cap : Nat) where
  done : List (List α)
  line : List α
  fits : line.length < cap

namespace Editor

open LineKey

variable {cap : Nat} {e : Editor α cap} {k : LineKey α} {ks : List (LineKey α)}

/-- Before the first key. -/
def empty (hcap : 0 < cap) : Editor α cap := ⟨[], [], hcap⟩

/-- The line is done, and a new one begins. -/
def finish (e : Editor α cap) (line : List α) : Editor α cap :=
  ⟨e.done ++ [line], [], Nat.lt_of_le_of_lt (Nat.zero_le _) e.fits⟩

/-- The line has changed, and is done if it is full. -/
def put (e : Editor α cap) (line : List α) : Editor α cap :=
  if h : line.length < cap then ⟨e.done, line, h⟩ else e.finish line

def key (e : Editor α cap) : LineKey α → Editor α cap
  | .enter => e.finish e.line
  | k => e.put (k.edit e.line)

/-- What the editor has made of the keys `ks`. -/
structure Reads (e : Editor α cap) (ks : List (LineKey α)) : Prop where
  split : ∃ (pieces : List (List (LineKey α))) (rest : List (LineKey α)),
    ks = pieces.flatten ++ rest ∧ (∀ p ∈ pieces, Piece cap p) ∧ OpenLine cap rest ∧ e.done = pieces.map kept ∧ e.line = kept rest

theorem reads_empty (hcap : 0 < cap) : (empty hcap : Editor α cap).Reads [] :=
  ⟨[], [], rfl, nofun, openLine_nil hcap, rfl, rfl⟩

/-- The keys of the line make a piece. -/
theorem Reads.finish (h : e.Reads ks) {line : List α} (hends : ∀ rest, e.line = kept rest →
    OpenLine cap rest → EndsLine cap (rest ++ [k]) ∧ line = kept (rest ++ [k])) :
    (e.finish line).Reads (ks ++ [k]) := by
  obtain ⟨pieces, rest, hks, hpieces, hopen, hdone, hline⟩ := h.split
  obtain ⟨hend, hkept⟩ := hends rest hline hopen
  refine ⟨pieces ++ [rest ++ [k]], [], ?_, ?_, openLine_nil (Nat.zero_lt_of_lt e.fits), ?_, rfl⟩
  · simp [hks]
  · intro p hp
    rcases List.mem_append.mp hp with hp | hp
    · exact hpieces p hp
    · exact List.mem_singleton.mp hp ▸ hopen.piece hend
  · show e.done ++ [line] = _
    rw [hdone, hkept, List.map_append]
    rfl

/-- **One key.** -/
theorem Reads.key (h : e.Reads ks) (k : LineKey α) : (e.key k).Reads (ks ++ [k]) := by
  by_cases hk : k = .enter
  · subst hk
    exact h.finish fun rest hline _ =>
      ⟨endsLine_concat_iff.mpr (.inl rfl), hline.trans (kept_concat rest .enter).symm⟩
  · have hput : e.key k = e.put (k.edit e.line) := by
      cases k with
      | enter => exact absurd rfl hk
      | _ => rfl
    rw [hput, put]
    split
    · next hlt =>
        obtain ⟨pieces, rest, hks, hpieces, hopen, hdone, hline⟩ := h.split
        refine ⟨pieces, rest ++ [k], ?_, hpieces, hopen.concat ?_, hdone, ?_⟩
        · rw [hks, List.append_assoc]
        · rw [endsLine_concat_iff, ← hline]
          exact fun hends => hends.elim hk (Nat.not_le.mpr hlt)
        · rw [kept_concat, ← hline]
    · next hge =>
        refine h.finish fun rest hline _ => ⟨endsLine_concat_iff.mpr (.inr ?_), ?_⟩
        · exact hline ▸ Nat.le_of_not_lt hge
        · rw [hline, kept_concat]

theorem Reads.length_done_le (h : e.Reads ks) {line : List α} (hl : line ∈ e.done) :
    line.length ≤ cap := by
  obtain ⟨pieces, rest, -, hpieces, -, hdone, -⟩ := h.split
  rw [hdone] at hl
  obtain ⟨p, hp, rfl⟩ := List.mem_map.mp hl
  exact (hpieces p hp).length_kept_le

/-- **All keys**: the editor reads them, whatever they are. -/
theorem reads_foldl (hcap : 0 < cap) (ks : List (LineKey α)) :
    (ks.foldl Editor.key (empty hcap : Editor α cap)).Reads ks := by
  suffices h : ∀ (e : Editor α cap) (ps : List (LineKey α)), e.Reads ps →
      (ks.foldl Editor.key e).Reads (ps ++ ks) by
    simpa using h _ [] (reads_empty hcap)
  induction ks with
  | nil =>
      intro e ps h
      rwa [List.append_nil]
  | cons k ks ih =>
      intro e ps h
      have hrest := ih (e.key k) (ps ++ [k]) (h.key k)
      rwa [List.append_assoc] at hrest

end Editor

end KmOS
