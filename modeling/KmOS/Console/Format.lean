/-
# `KmOS.Console.Format` — the formats that `IO::print` understands

A format is a sequence of pieces: characters that stand for themselves, and directives,
which are a `%`, at most one digit, and a letter.  `parse` reads the pieces, `render`
says what they put out, and `print` puts out just that (`printLoop_pieces`).  A letter
that is not known puts out nothing and takes no argument: of `%-10s` the `-` is the
letter, and `10s` is text.

A format that ends inside a directive is another matter.  The 0 that ends it is taken
for the letter, and `print` goes on with whatever stands behind it.
-/
import KmOS.Console.Print

namespace KmOS

/-! ## Formats -/

inductive FormatPiece where
  | char (c : UInt8)
  | directive (size : Nat) (letter : UInt8)
deriving DecidableEq

namespace Format

def isDigit (c : UInt8) : Bool := '0'.toUInt8 ≤ c ∧ c ≤ '9'.toUInt8

/-- The pieces of a format, and whether it ends behind a whole one. -/
def parse : List UInt8 → List FormatPiece × Bool
  | [] => ([], true)
  | c :: s =>
      if c = '%'.toUInt8 then
        match s with
        | [] => ([], false)
        | d :: s =>
            if isDigit d then
              match s with
              | [] => ([], false)
              | e :: s => (.directive (d - '0'.toUInt8).toNat e :: (parse s).1, (parse s).2)
            else (.directive 0 d :: (parse s).1, (parse s).2)
      else (.char c :: (parse s).1, (parse s).2)

/-- The letters that take an argument. -/
def takesArg (letter : UInt8) : Bool :=
  letter ∈ ['d', 'u', 'x', 'X', 'p', 's', 'c'].map Char.toUInt8

/-- What a directive puts out; `text` is the string that `arg` points to. -/
def directiveText (size : Nat) (letter : UInt8) (arg : UInt32) (text : List UInt8) : List UInt8 :=
  if letter = 'd'.toUInt8 then
    NumberFormat.d.front arg ++ padded size (digitString 10 (NumberFormat.d.value arg))
  else if letter = 'u'.toUInt8 then padded size (digitString 10 arg.toNat)
  else if letter = 'x'.toUInt8 ∨ letter = 'X'.toUInt8 then
    hexPrefix ++ padded size (digitString 16 arg.toNat)
  else if letter = 'p'.toUInt8 then hexPrefix ++ padded 8 (digitString 16 arg.toNat)
  else if letter = 's'.toUInt8 then text
  else if letter = 'c'.toUInt8 then [arg.toUInt8]
  else []

section
variable (args : Nat → UInt32) (texts : Nat → List UInt8)

/-- What the pieces put out, the next argument being the `ap`-th. -/
def render : Nat → List FormatPiece → List UInt8
  | _, [] => []
  | ap, .char c :: ps => c :: render ap ps
  | ap, .directive size letter :: ps =>
      directiveText size letter (args ap) (texts ap) ++
        render (if takesArg letter then ap + 1 else ap) ps

end

/-- The argument behind those that the pieces take. -/
def argsBehind : Nat → List FormatPiece → Nat
  | ap, [] => ap
  | ap, .char _ :: ps => argsBehind ap ps
  | ap, .directive _ letter :: ps => argsBehind (if takesArg letter then ap + 1 else ap) ps

/-- The arguments that `%s` takes. -/
def stringArgs : Nat → List FormatPiece → List Nat
  | _, [] => []
  | ap, .char _ :: ps => stringArgs ap ps
  | ap, .directive _ letter :: ps =>
      (if letter = 's'.toUInt8 then [ap] else []) ++
        stringArgs (if takesArg letter then ap + 1 else ap) ps

/-- The string `text` stands at `a`. -/
def TextFrom (memory : UInt32 → UInt8) (a : UInt32) (text : List UInt8) : Prop :=
  StringAt (fun k => memory (a + UInt32.ofNat k)) 0 text

/-- What `%s` puts out for `a`; null is the empty string. -/
def ArgText (memory : UInt32 → UInt8) (a : UInt32) (text : List UInt8) : Prop :=
  if a = 0 then text = [] else TextFrom memory a text

/-! ## One directive -/

section
variable {memory : UInt32 → UInt8} {args : Nat → UInt32} {texts : Nat → List UInt8} {fuel size : Nat}
  {st : Printing} {letter c : UInt8} {a : UInt32} {text fmt : List UInt8}

theorem textFrom_nil_iff : TextFrom memory a [] ↔ memory a = 0 := by
  unfold TextFrom
  rw [StringAt.nil_iff]
  show memory (a + 0) = 0 ↔ _
  rw [UInt32.add_zero]

theorem textFrom_cons_iff :
    TextFrom memory a (c :: text) ↔ c ≠ 0 ∧ memory a = c ∧ TextFrom memory (a + 1) text := by
  have hnext : (fun k => memory (a + 1 + UInt32.ofNat k)) = fun k => memory (a + UInt32.ofNat (k + 1)) := by
    funext k
    rw [UInt32.ofNat_add, UInt32.add_assoc, UInt32.add_comm 1]
    rfl
  unfold TextFrom
  rw [StringAt.cons_iff, hnext, ← StringAt.shift_iff]
  show c ≠ 0 ∧ memory (a + 0) = c ∧ _ ↔ _
  rw [UInt32.add_zero]

/-- A number of any size, with something in front. -/
theorem putNumber_text (front : List UInt8) (uival : UInt32) {base : UInt32} (hf : 16 ≤ fuel)
    (hbase : base = 10 ∨ base = 16) (hsize : size < 16) (hin : st.buf.Only (· < 16)) :
    ∃ buf : LoggedArray UInt8, buf.Only (· < 16) ∧ putNumber fuel st front uival base size =
      some { st with
        io := st.io.putcs (front ++ padded size (digitString base.toNat uival.toNat))
        buf := buf
        ap := st.ap + 1 } := by
  obtain ⟨hb, hb', hlen⟩ := base_spec hbase
  obtain ⟨buf, -, honly, hput⟩ := putNumber_spec st front hb hb' hsize hf (hlen uival) hin
  exact ⟨buf, honly, hput⟩

/-- **One directive** puts out its text. -/
theorem conversion_text (st : Printing) (hf : 16 ≤ fuel) (hsize : size < 16) (hin : st.buf.Only (· < 16))
    (htext : letter = 's'.toUInt8 → ArgText memory (args st.ap) text ∧ text.length < fuel) :
    ∃ buf : LoggedArray UInt8, buf.Only (· < 16) ∧ conversion memory args fuel letter size st =
      some { st with
        io := st.io.putcs (directiveText size letter (args st.ap) text)
        buf := buf
        ap := if takesArg letter then st.ap + 1 else st.ap } := by
  by_cases hd : letter = 'd'.toUInt8
  · subst hd
    obtain ⟨uival, hval, hconv⟩ := conversion_letter memory args fuel size st .d
    obtain ⟨buf, honly, hput⟩ := putNumber_text (NumberFormat.d.front (args st.ap)) uival hf
      (.inl rfl) hsize hin
    rw [hval] at hput
    exact ⟨buf, honly, hconv.trans hput⟩
  by_cases hu : letter = 'u'.toUInt8
  · subst hu
    exact putNumber_text [] (args st.ap) hf (.inl rfl) hsize hin
  by_cases hx : letter = 'x'.toUInt8 ∨ letter = 'X'.toUInt8
  · rcases hx with rfl | rfl
    · exact putNumber_text hexPrefix (args st.ap) hf (.inr rfl) hsize hin
    · exact putNumber_text hexPrefix (args st.ap) hf (.inr rfl) hsize hin
  by_cases hp : letter = 'p'.toUInt8
  · subst hp
    exact putNumber_text hexPrefix (args st.ap) hf (.inr rfl) (by decide) hin
  by_cases hs : letter = 's'.toUInt8
  · obtain ⟨harg, hlen⟩ := htext hs
    subst hs
    refine ⟨st.buf, hin, ?_⟩
    show Option.map _ (if args st.ap = 0 then some st.io else putString _ fuel 0 st.io) = _
    unfold ArgText at harg
    split at harg
    · next h0 =>
        rw [if_pos h0, harg]
        rfl
    · next h0 =>
        rw [if_neg h0, putString_eq harg hlen]
        rfl
  by_cases hc : letter = 'c'.toUInt8
  · subst hc
    exact ⟨st.buf, hin, rfl⟩
  · have htakes : takesArg letter = false := by
      rw [not_or] at hx
      simp [takesArg, hd, hu, hx, hp, hs, hc]
    refine ⟨st.buf, hin, ?_⟩
    unfold conversion directiveText
    dsimp only
    rw [if_neg hd, if_neg hu, if_neg hx, if_neg hp, if_neg hs, if_neg hc, if_neg hd, if_neg hu,
      if_neg hx, if_neg hp, if_neg hs, if_neg hc, htakes]
    rfl

/-! ## All pieces -/

variable (texts) in
/-- Each string that the pieces put out is where its argument says, and short enough. -/
def Readable (memory : UInt32 → UInt8) (args : Nat → UInt32) (fuel ap : Nat)
    (ps : List FormatPiece) : Prop :=
  ∀ i ∈ stringArgs ap ps, ArgText memory (args i) (texts i) ∧ (texts i).length < fuel

variable (texts) in
/-- At the 0 that ends the format the pieces have been put out; the loop stops there, or
goes on behind it. -/
def PutsOut (memory : UInt32 → UInt8) (args : Nat → UInt32) (fuel turns : Nat) (st : Printing)
    (fmt : List UInt8) : Prop :=
  ∃ buf : LoggedArray UInt8, buf.Only (· < 16) ∧
    let st' : Printing :=
      { io := st.io.putcs (render args texts st.ap (parse fmt).1)
        buf := buf
        s := st.s + UInt32.ofNat (fmt.length + 1)
        ap := argsBehind st.ap (parse fmt).1 }
    printLoop memory args fuel turns st =
      if (parse fmt).2 then some st'
      else printLoop memory args fuel (turns - ((parse fmt).1.length + 1)) st'

theorem parse_char (hc : c ≠ '%'.toUInt8) :
    parse (c :: fmt) = (.char c :: (parse fmt).1, (parse fmt).2) := by
  rw [parse.eq_def]
  exact if_neg hc

theorem parse_letter (hc : ¬ isDigit c = true) :
    parse ('%'.toUInt8 :: c :: fmt) = (.directive 0 c :: (parse fmt).1, (parse fmt).2) := by
  rw [parse.eq_def]
  dsimp only
  rw [if_pos rfl, if_neg hc]

theorem parse_width (hc : isDigit c = true) : parse ('%'.toUInt8 :: c :: letter :: fmt) =
    (.directive (c - '0'.toUInt8).toNat letter :: (parse fmt).1, (parse fmt).2) := by
  rw [parse.eq_def]
  dsimp only
  rw [if_pos rfl, if_pos hc]

theorem add_one_ofNat (a : UInt32) (n : Nat) : a + 1 + UInt32.ofNat n = a + UInt32.ofNat (n + 1) := by
  rw [UInt32.ofNat_add, UInt32.add_assoc, UInt32.add_comm 1]
  rfl

/-- One turn, for one character. -/
theorem printLoop_turn {turns : Nat} (hc : c ≠ 0) (h : memory st.s = c) :
    printLoop memory args fuel (turns + 1) st =
      (printTurn memory args fuel c { st with s := st.s + 1 }).bind
        (printLoop memory args fuel turns) := by
  rw [printLoop, h]
  exact if_neg hc

theorem printTurn_char (hc : c ≠ '%'.toUInt8) :
    printTurn memory args fuel c st = some { st with io := st.io.putcs [c] } := if_neg hc

/-- The 0 is no letter. -/
theorem conversion_zero (st : Printing) : conversion memory args fuel 0 size st = some st := rfl

/-- A directive without a digit. -/
theorem printTurn_letter (hmem : memory st.s = c) (hc : ¬ isDigit c = true) :
    printTurn memory args fuel '%'.toUInt8 st =
      conversion memory args fuel c 0 { st with s := st.s + 1 } := by
  have hno : ¬ ('0'.toUInt8 ≤ c ∧ c ≤ '9'.toUInt8) := fun h => hc (decide_eq_true h)
  unfold printTurn
  rw [if_pos rfl]
  dsimp only
  rw [hmem, if_neg hno]

/-- A directive with one. -/
theorem printTurn_digit (hmem : memory st.s = c) (hc : isDigit c = true)
    (hletter : memory (st.s + 1) = letter) :
    printTurn memory args fuel '%'.toUInt8 st =
      conversion memory args fuel letter (c - '0'.toUInt8).toNat { st with s := st.s + 1 + 1 } := by
  have hyes : '0'.toUInt8 ≤ c ∧ c ≤ '9'.toUInt8 := of_decide_eq_true hc
  unfold printTurn
  rw [if_pos rfl]
  dsimp only
  rw [hmem, if_pos hyes, hletter]

/-- **A turn and the rest.** -/
theorem PutsOut.cons {turns ap' : Nat} {rest text : List UInt8} {s' : UInt32}
    {buf : LoggedArray UInt8} {p : FormatPiece}
    (hstep : printLoop memory args fuel (turns + 1) st =
      printLoop memory args fuel turns { io := st.io.putcs text, buf := buf, s := s', ap := ap' })
    (hrest : PutsOut texts memory args fuel turns
      { io := st.io.putcs text, buf := buf, s := s', ap := ap' } rest)
    (hparse : parse fmt = (p :: (parse rest).1, (parse rest).2))
    (hrender : ∀ ps, render args texts st.ap (p :: ps) = text ++ render args texts ap' ps)
    (hargs : ∀ ps, argsBehind st.ap (p :: ps) = argsBehind ap' ps)
    (hs : s' + UInt32.ofNat (rest.length + 1) = st.s + UInt32.ofNat (fmt.length + 1)) :
    PutsOut texts memory args fuel (turns + 1) st fmt := by
  obtain ⟨buf', honly, hloop⟩ := hrest
  refine ⟨buf', honly, ?_⟩
  have hio : ∀ t, (st.io.putcs text).putcs t = st.io.putcs (text ++ t) := fun t =>
    List.foldl_append.symm
  have hturns : turns + 1 - ((parse rest).1.length + 1 + 1) = turns - ((parse rest).1.length + 1) := by
    omega
  dsimp only at hloop ⊢
  rw [hstep, hloop, hparse, hrender, hargs, ← hs, hio, List.length_cons, hturns]

/-- A directive and the rest. -/
theorem PutsOut.directive {turns size : Nat} {rest : List UInt8} {s' : UInt32} (hf : 16 ≤ fuel)
    (hsize : size < 16) (hin : st.buf.Only (· < 16))
    (hturn : printLoop memory args fuel (turns + 1) st =
      (conversion memory args fuel letter size { st with s := s' }).bind
        (printLoop memory args fuel turns))
    (hparse : parse fmt = (.directive size letter :: (parse rest).1, (parse rest).2))
    (hread : Readable texts memory args fuel st.ap (parse fmt).1)
    (hs : s' + UInt32.ofNat (rest.length + 1) = st.s + UInt32.ofNat (fmt.length + 1))
    (hrest : ∀ st' : Printing, st'.s = s' → st'.buf.Only (· < 16) →
      Readable texts memory args fuel st'.ap (parse rest).1 →
      PutsOut texts memory args fuel turns st' rest) :
    PutsOut texts memory args fuel (turns + 1) st fmt := by
  rw [hparse] at hread
  have hread' : Readable texts memory args fuel (if takesArg letter then st.ap + 1 else st.ap)
      (parse rest).1 := fun i hi => hread i (List.mem_append_right _ hi)
  have htext : letter = 's'.toUInt8 →
      ArgText memory (args st.ap) (texts st.ap) ∧ (texts st.ap).length < fuel := fun he =>
    hread st.ap (List.mem_append_left _ (by rw [if_pos he]; exact List.mem_singleton_self _))
  obtain ⟨buf, honly, hconv⟩ := conversion_text { st with s := s' } hf hsize hin htext
  rw [hconv] at hturn
  exact .cons hturn (hrest _ rfl honly hread') hparse (fun _ => rfl) (fun _ => rfl) hs

/-- **The loop puts out the pieces.** -/
theorem printLoop_pieces {turns : Nat} (hf : 16 ≤ fuel) (hfmt : TextFrom memory st.s fmt)
    (hturns : fmt.length < turns) (hin : st.buf.Only (· < 16))
    (hread : Readable texts memory args fuel st.ap (parse fmt).1) :
    PutsOut texts memory args fuel turns st fmt := by
  induction fmt using parse.induct generalizing turns st with
  | case1 =>
      obtain ⟨turns, rfl⟩ := Nat.exists_eq_add_of_lt hturns
      exact ⟨st.buf, hin, if_pos (textFrom_nil_iff.mp hfmt)⟩
  | case2 =>
      -- the format ends behind the `%`
      obtain ⟨turns, rfl⟩ := Nat.exists_eq_add_of_lt hturns
      obtain ⟨h0, hmem, hrest⟩ := textFrom_cons_iff.mp hfmt
      have hz := textFrom_nil_iff.mp hrest
      refine ⟨st.buf, hin, (printLoop_turn h0 hmem).trans ?_⟩
      rw [printTurn_letter hz (by decide), conversion_zero]
      exact congrArg (fun a => printLoop memory args fuel _ { st with s := a }) (UInt32.add_assoc ..)
  | case3 d hd =>
      -- it ends behind the digit
      obtain ⟨turns, rfl⟩ := Nat.exists_eq_add_of_lt hturns
      obtain ⟨h0, hmem, hfmt⟩ := textFrom_cons_iff.mp hfmt
      obtain ⟨-, hmem₁, hrest⟩ := textFrom_cons_iff.mp hfmt
      have hz := textFrom_nil_iff.mp hrest
      have hs : st.s + 1 + 1 + 1 = st.s + UInt32.ofNat 3 := by
        rw [UInt32.add_assoc, UInt32.add_assoc]
        rfl
      refine ⟨st.buf, hin, (printLoop_turn h0 hmem).trans ?_⟩
      have hparse : parse ['%'.toUInt8, d] = ([], false) := by
        rw [parse.eq_def]
        dsimp only
        rw [if_pos rfl, if_pos hd]
      rw [printTurn_digit hmem₁ hd hz, conversion_zero, hparse]
      exact congrArg (fun a => printLoop memory args fuel _ { st with s := a }) hs
  | case4 d hd letter rest ih =>
      obtain ⟨turns, rfl⟩ : ∃ n, turns = n + 1 := ⟨turns - 1, by omega⟩
      obtain ⟨h0, hmem, hfmt⟩ := textFrom_cons_iff.mp hfmt
      obtain ⟨-, hmem₁, hfmt⟩ := textFrom_cons_iff.mp hfmt
      obtain ⟨-, hmem₂, hfmt⟩ := textFrom_cons_iff.mp hfmt
      rw [List.length_cons, List.length_cons, List.length_cons] at hturns
      refine .directive hf (width_lt (of_decide_eq_true hd)) hin ?_ (parse_width hd) hread ?_
        fun st' hs' hin' hread' => ih (hs' ▸ hfmt) (by omega) hin' hread'
      · rw [printLoop_turn h0 hmem, printTurn_digit hmem₁ hd hmem₂]
      · rw [add_one_ofNat, add_one_ofNat, add_one_ofNat]
        rfl
  | case5 letter rest hletter ih =>
      obtain ⟨turns, rfl⟩ : ∃ n, turns = n + 1 := ⟨turns - 1, by omega⟩
      obtain ⟨h0, hmem, hfmt⟩ := textFrom_cons_iff.mp hfmt
      obtain ⟨-, hmem₁, hfmt⟩ := textFrom_cons_iff.mp hfmt
      rw [List.length_cons, List.length_cons] at hturns
      refine .directive hf (by decide) hin ?_ (parse_letter hletter) hread ?_
        fun st' hs' hin' hread' => ih (hs' ▸ hfmt) (by omega) hin' hread'
      · rw [printLoop_turn h0 hmem, printTurn_letter hmem₁ hletter]
      · rw [add_one_ofNat, add_one_ofNat]
        rfl
  | case6 c rest hc ih =>
      obtain ⟨turns, rfl⟩ : ∃ n, turns = n + 1 := ⟨turns - 1, by omega⟩
      obtain ⟨h0, hmem, hfmt⟩ := textFrom_cons_iff.mp hfmt
      rw [List.length_cons] at hturns
      rw [parse_char hc] at hread
      have hrest : PutsOut texts memory args fuel turns
          { io := st.io.putcs [c], buf := st.buf, s := st.s + 1, ap := st.ap } rest :=
        ih hfmt (by omega) hin hread
      refine .cons ?_ hrest (parse_char hc) (fun _ => rfl) (fun _ => rfl) (add_one_ofNat _ _)
      rw [printLoop_turn h0 hmem, printTurn_char hc]
      rfl

/-- **A format of whole pieces.** -/
theorem print_whole {io : Console} {s : UInt32} {buf : Nat → UInt8} {ps : List FormatPiece}
    (hfmt : TextFrom memory s fmt) (hf : 16 ≤ fuel) (hlen : fmt.length < fuel)
    (hparse : parse fmt = (ps, true)) (hread : Readable texts memory args fuel 0 ps) :
    print memory args fuel io s buf = some (io.putcs (render args texts 0 ps)) := by
  have hall : PutsOut texts memory args fuel fuel { io := io, buf := ⟨buf, []⟩, s := s, ap := 0 } fmt :=
    printLoop_pieces hf hfmt hlen nofun (by rw [hparse]; exact hread)
  obtain ⟨buf', -, hloop⟩ := hall
  unfold print
  rw [hloop, hparse]
  rfl

end

end Format

/-! ## The result -/

/-- **`print` reads a format as its pieces.**  It puts out what they say, one behind the
other, and ends at the 0 if the format ends behind a whole piece.  If not, it goes on with
what stands behind that 0, whatever it is. -/
theorem print_format (memory : UInt32 → UInt8) (args : Nat → UInt32) (texts : Nat → List UInt8)
    (fuel : Nat) (io : Console) (s : UInt32) (buf : Nat → UInt8) (fmt : List UInt8)
    (hfmt : Format.TextFrom memory s fmt) (hf : 16 ≤ fuel) (hlen : fmt.length < fuel)
    (hread : Format.Readable texts memory args fuel 0 (Format.parse fmt).1) :
    ((Format.parse fmt).2 = true → print memory args fuel io s buf =
      some (io.putcs (Format.render args texts 0 (Format.parse fmt).1))) ∧
    ((Format.parse fmt).2 = false → ∃ buf' : LoggedArray UInt8,
      print memory args fuel io s buf =
        (printLoop memory args fuel (fuel - ((Format.parse fmt).1.length + 1))
          { io := io.putcs (Format.render args texts 0 (Format.parse fmt).1)
            buf := buf'
            s := s + UInt32.ofNat (fmt.length + 1)
            ap := Format.argsBehind 0 (Format.parse fmt).1 }).map Printing.io) := by
  have hall : Format.PutsOut texts memory args fuel fuel
      { io := io, buf := ⟨buf, []⟩, s := s, ap := 0 } fmt :=
    Format.printLoop_pieces hf hfmt hlen nofun hread
  obtain ⟨buf', -, hloop⟩ := hall
  refine ⟨fun hwhole => Format.print_whole hfmt hf hlen (Prod.ext rfl hwhole) hread, fun hopen => ?_⟩
  refine ⟨buf', ?_⟩
  unfold print
  rw [hloop, if_neg (by rw [hopen]; exact Bool.false_ne_true)]

/-- A memory that holds a string at 0, and zeros behind it. -/
def memoryOf (text : List UInt8) (a : UInt32) : UInt8 := text.getD a.toNat 0

/-- `ab%3` and then, behind the 0, `c`. -/
def openFormat : List UInt8 := ['a', 'b', '%', '3'].map Char.toUInt8

theorem print_format_open :
    ((Format.parse openFormat).2 = true → print (memoryOf (openFormat ++ [0, 'c'.toUInt8]))
        (fun _ => 0) 16 (.init fun _ => 0) 0 (fun _ => 1) =
      some ((Console.init fun _ => 0).putcs
        (Format.render (fun _ => 0) (fun _ => []) 0 (Format.parse openFormat).1))) ∧
    ((Format.parse openFormat).2 = false → ∃ buf' : LoggedArray UInt8,
      print (memoryOf (openFormat ++ [0, 'c'.toUInt8])) (fun _ => 0) 16 (.init fun _ => 0) 0
          (fun _ => 1) =
        (printLoop (memoryOf (openFormat ++ [0, 'c'.toUInt8])) (fun _ => 0) 16
          (16 - ((Format.parse openFormat).1.length + 1))
          { io := (Console.init fun _ => 0).putcs
              (Format.render (fun _ => 0) (fun _ => []) 0 (Format.parse openFormat).1)
            buf := buf'
            s := 0 + UInt32.ofNat (openFormat.length + 1)
            ap := Format.argsBehind 0 (Format.parse openFormat).1 }).map Printing.io) := by
  have hfmt : StringAt (fun k => memoryOf (openFormat ++ [0, 'c'.toUInt8]) (0 + UInt32.ofNat k)) 0
      openFormat := by decide
  exact print_format (memoryOf (openFormat ++ [0, 'c'.toUInt8])) (fun _ => 0) (fun _ => []) 16
    (.init fun _ => 0) 0 (fun _ => 1) openFormat hfmt (by decide) (by decide)
    (List.forall_mem_nil _)

/-- `%-10s`, as in the list of the shell's commands. -/
example : Format.parse (['%', '-', '1', '0', 's'].map Char.toUInt8) =
    (.directive 0 '-'.toUInt8 :: (['1', '0', 's'].map fun c => .char c.toUInt8), true) := by decide

end KmOS
