/-
# `KmOS.Shell.Tokenizer` — `Shell::parse_command`

The line is copied into a static buffer and cut up there: a quote is taken out by
shifting the rest of the line to the left, the blank behind a word is overwritten
by a 0, and `args` points into the buffer.

The invariant of the loop (`Reading`) has three parts of the buffer.  From `i` on
stands what has not been read of the line, as it is.  Between `token` and `i` stand
the characters of the word that is being read.  The words before that are strings
that end in front of `token`, so that nothing that is written from then on, which is
at `i` or behind it, touches them.

Every loop walks through the buffer of 512 bytes, so that many turns are enough for
it; that they suffice for a line that fits is proved and not assumed.
-/
import KmOS.Fs.Model
import KmOS.Runtime.Strings
import KmOS.Shell.Grammar

namespace KmOS

namespace Shell

/-! ## The code -/

/-- `MAX_COMMAND_LENGTH`. -/
def maxCommandLength : Nat := 512

/-- `MAX_ARGS`. -/
def maxArgs : Nat := 32

/-- The variables of `parse_command`, and the array it is given; null is `none`. -/
structure Parse where
  buffer : Nat → UInt8
  args : LoggedArray (Option Nat)
  argc : Nat
  token : Nat
  inQuotes : Bool

/-- `for (int j = i; buffer[j]; j++) buffer[j] = buffer[j + 1];` -/
def removeAt : Nat → Nat → (Nat → UInt8) → Option (Nat → UInt8)
  | 0, _, _ => none
  | fuel + 1, j, buffer =>
      if buffer j = 0 then some buffer
      else removeAt fuel (j + 1) (Function.update buffer j (buffer (j + 1)))

/-- `while (buffer[i + 1] && (buffer[i + 1] == ' ' || buffer[i + 1] == '\t')) i++;` -/
def skipBlanks (buffer : Nat → UInt8) : Nat → Nat → Option Nat
  | 0, _ => none
  | fuel + 1, i =>
      if buffer (i + 1) ≠ 0 ∧ isBlank (buffer (i + 1)) = true then skipBlanks buffer fuel (i + 1)
      else some i

/-- `if (strlen(token) > 0) args[argc++] = token;` -/
def pushToken (p : Parse) : Option Parse :=
  match strlen p.buffer maxCommandLength p.token with
  | none => none
  | some n =>
      if 0 < n then some { p with args := p.args.set p.argc (some p.token), argc := p.argc + 1 }
      else some p

/-- The branch for a blank, without the `i++` of the loop. -/
def endToken (i : Nat) (p : Parse) : Option (Nat × Parse) :=
  match pushToken { p with buffer := Function.update p.buffer i 0 } with
  | none => none
  | some p =>
      match skipBlanks p.buffer maxCommandLength i with
      | none => none
      | some i => some (i, { p with token := i + 1 })

/-- `for (int i = 0; buffer[i] && argc < MAX_ARGS - 1; i++)`.  After a quote `i--` and
`i++` leave `i` where it is. -/
def parseLoop : Nat → Nat → Parse → Option Parse
  | 0, _, _ => none
  | fuel + 1, i, p =>
      if p.buffer i ≠ 0 ∧ p.argc < maxArgs - 1 then
        if p.buffer i = quote then
          match removeAt maxCommandLength i p.buffer with
          | none => none
          | some buffer => parseLoop fuel i { p with buffer := buffer, inQuotes := !p.inQuotes }
        else if p.inQuotes = false ∧ isBlank (p.buffer i) = true then
          match endToken i p with
          | none => none
          | some (i, p) => parseLoop fuel (i + 1) p
        else parseLoop fuel (i + 1) p
      else some p

/-- `Shell::parse_command`, with what the static buffer and `args` hold before; it
returns `argc`. -/
def parseCommand (static : Nat → UInt8) (args : Nat → Option Nat) (input : List UInt8) :
    Option Parse :=
  let buffer := (strcpy { val := static, written := [] } input).val
  let p : Parse :=
    { buffer := buffer, args := { val := args, written := [] }, argc := 0, token := 0,
      inQuotes := false }
  match parseLoop maxCommandLength 0 p with
  | none => none
  | some p =>
      match pushToken p with
      | none => none
      | some p => some { p with args := p.args.set p.argc none }

/-! ## The loops inside -/

section Inner

variable {b b' : Nat → UInt8} {i fuel : Nat} {c : UInt8} {line : List UInt8}

/-- A character is gone, and the line behind it has come closer. -/
theorem removeAt_spec (h : StringAt b i (c :: line)) (hf : line.length + 1 < fuel) :
    ∃ b', removeAt fuel i b = some b' ∧ StringAt b' i line ∧ ∀ j < i, b' j = b j := by
  induction line generalizing b i c fuel with
  | nil =>
      obtain ⟨hc, hi, hrest⟩ := StringAt.cons_iff.mp h
      have hz := StringAt.nil_iff.mp hrest
      obtain ⟨fuel, rfl⟩ := Nat.exists_eq_add_of_lt hf
      rw [show ([] : List UInt8).length + 1 + fuel + 1 = fuel + 1 + 1 by
        rw [List.length_nil]; omega, removeAt, if_neg (hi ▸ hc), removeAt,
        Function.update_of_ne (Nat.succ_ne_self i), if_pos hz]
      refine ⟨_, rfl, StringAt.nil_iff.mpr ?_, fun j hj => Function.update_of_ne (Nat.ne_of_lt hj) ..⟩
      rw [Function.update_self, hz]
  | cons d line ih =>
      obtain ⟨hc, hi, hrest⟩ := StringAt.cons_iff.mp h
      obtain ⟨hd, hnext, -⟩ := StringAt.cons_iff.mp hrest
      cases fuel with
      | zero => exact absurd hf (Nat.not_lt_zero _)
      | succ fuel =>
          have hmoved : StringAt (Function.update b i d) (i + 1) (d :: line) :=
            hrest.congr fun j hj _ => Function.update_of_ne (by omega) ..
          obtain ⟨b', hb', hstr, hframe⟩ := ih hmoved (Nat.lt_of_succ_lt_succ hf)
          refine ⟨b', ?_, StringAt.cons_iff.mpr ⟨hd, ?_, hstr⟩, fun j hj => ?_⟩
          · rw [removeAt, if_neg (hi ▸ hc), hnext, hb']
          · rw [hframe i (Nat.lt_succ_self i), Function.update_self]
          · rw [hframe j (Nat.lt_succ_of_lt hj), Function.update_of_ne (Nat.ne_of_lt hj)]

theorem skipBlanks_spec (h : StringAt b (i + 1) line) (hf : line.length < fuel) :
    ∃ i', skipBlanks b fuel i = some i' ∧ i' + (line.dropWhile isBlank).length = i + line.length ∧
      StringAt b (i' + 1) (line.dropWhile isBlank) := by
  induction line generalizing i fuel with
  | nil =>
      obtain ⟨fuel, rfl⟩ := Nat.exists_eq_add_of_lt hf
      refine ⟨i, ?_, rfl, h⟩
      rw [skipBlanks, if_neg (fun hb => hb.1 (StringAt.nil_iff.mp h))]
  | cons d line ih =>
      obtain ⟨hd, hi, hrest⟩ := StringAt.cons_iff.mp h
      cases fuel with
      | zero => exact absurd hf (Nat.not_lt_zero _)
      | succ fuel =>
          rw [skipBlanks, hi]
          cases hb : isBlank d with
          | true =>
              obtain ⟨i', hskip, hlen, hstr⟩ := ih hrest (Nat.lt_of_succ_lt_succ hf)
              rw [if_pos ⟨hd, rfl⟩, List.dropWhile_cons_of_pos hb, List.length_cons]
              exact ⟨i', hskip, by omega, hstr⟩
          | false =>
              rw [if_neg (fun h => Bool.false_ne_true h.2),
                List.dropWhile_cons_of_neg (by simp [hb])]
              exact ⟨i, rfl, rfl, h⟩

end Inner

/-! ## The words so far -/

section Steps

variable {b b' : Nat → UInt8} {args : LoggedArray (Option Nat)} {p : Parse} {i bound bound' : Nat}
  {ts : List (List UInt8)} {s cur line : List UInt8} {c : UInt8}

/-- `args` points to the words `ts`, which end in front of `bound`. -/
def Stored (p : Parse) (bound : Nat) (ts : List (List UInt8)) : Prop :=
  ∃ ptrs, ListAt p.args.val 0 (ptrs.map some) ∧
    List.Forall₂ (fun ptr t => StringAt p.buffer ptr t ∧ ptr + t.length < bound) ptrs ts

/-- The array, its log and the count agree with the words. -/
structure Filed (p : Parse) (bound : Nat) (ts : List (List UInt8)) : Prop where
  stored : Stored p bound ts
  argc : p.argc = ts.length
  log : p.args.written = (List.range p.argc).reverse

/-- What is written at `bound` or behind it does not matter to the words. -/
theorem Filed.mono {p' : Parse} (h : Filed p bound ts) (hb : ∀ j < bound, p'.buffer j = p.buffer j)
    (ha : p'.args = p.args) (hc : p'.argc = p.argc) (hle : bound ≤ bound') : Filed p' bound' ts := by
  obtain ⟨ptrs, hat, hstr⟩ := h.stored
  refine ⟨⟨ptrs, ha ▸ hat, hstr.imp fun ptr t ht => ⟨?_, by omega⟩⟩, hc ▸ h.argc, ?_⟩
  · exact ht.1.congr fun j _ hj => hb j (by omega)
  · rw [ha, hc]
    exact h.log

/-- `args[argc++] = token;` -/
theorem Filed.push (h : Filed p bound ts) (hs : StringAt p.buffer p.token s)
    (hend : p.token + s.length < bound') (hle : bound ≤ bound') :
    Filed { p with args := p.args.set p.argc (some p.token), argc := p.argc + 1 } bound'
      (ts ++ [s]) := by
  obtain ⟨ptrs, hat, hstr⟩ := h.stored
  have hlen : p.argc = ptrs.length := h.argc.trans hstr.length_eq.symm
  refine ⟨⟨ptrs ++ [p.token], ?_, ?_⟩, ?_, ?_⟩
  · rw [List.map_append, ListAt.append_iff]
    refine ⟨hat.congr fun j _ hj => LoggedArray.set_val_of_ne ?_, ?_, trivial⟩
    · rw [List.length_map] at hj
      omega
    · rw [List.length_map, Nat.zero_add, ← hlen]
      exact LoggedArray.set_val_self
  · refine List.rel_append (hstr.imp fun ptr t ht => ⟨ht.1, by omega⟩) (.cons ⟨hs, hend⟩ .nil)
  · rw [List.length_append, List.length_singleton]
    exact congrArg (· + 1) h.argc
  · show p.argc :: p.args.written = (List.range (p.argc + 1)).reverse
    rw [h.log, List.range_succ, List.reverse_append, List.reverse_singleton, List.singleton_append]

theorem pushToken_spec (h : Filed p bound ts) (hs : StringAt p.buffer p.token s)
    (hlen : s.length < maxCommandLength) (hend : p.token + s.length < bound') (hle : bound ≤ bound') :
    ∃ p', pushToken p = some p' ∧ p'.buffer = p.buffer ∧ p'.inQuotes = p.inQuotes ∧
      Filed p' bound' (ts ++ flush s) := by
  rw [pushToken, strlen_eq hs hlen]
  dsimp only
  cases s with
  | nil =>
      have hnot : ¬0 < ([] : List UInt8).length := Nat.lt_irrefl 0
      rw [if_neg hnot, flush_nil, List.append_nil]
      exact ⟨p, rfl, rfl, rfl, h.mono (fun _ _ => rfl) rfl rfl hle⟩
  | cons c s =>
      have hpos : 0 < (c :: s).length := Nat.succ_pos _
      rw [if_pos hpos, flush_of_ne (List.cons_ne_nil c s)]
      exact ⟨_, rfl, rfl, rfl, h.push hs hend hle⟩

/-! ## The invariant -/

/-- In front of `i`: the words `ts` are done, and `cur` is what has been read of the
next.  From `i` on `line` is to be read. -/
structure Reading (p : Parse) (i : Nat) (ts : List (List UInt8)) (cur line : List UInt8) : Prop where
  filed : Filed p p.token ts
  current : ListAt p.buffer p.token cur
  noNul : 0 ∉ cur
  pos : i = p.token + cur.length
  rest : StringAt p.buffer i line

theorem Reading.char (h : Reading p i ts cur (c :: line)) : Reading p (i + 1) ts (cur ++ [c]) line := by
  obtain ⟨hc, hi, hrest⟩ := StringAt.cons_iff.mp h.rest
  refine ⟨h.filed, ListAt.append_iff.mpr ⟨h.current, ?_, trivial⟩, ?_, ?_, hrest⟩
  · rw [← h.pos, hi]
  · rw [List.mem_append, not_or, List.mem_singleton]
    exact ⟨h.noNul, Ne.symm hc⟩
  · rw [List.length_append, List.length_singleton, h.pos, Nat.add_assoc]

/-- The quote at `i` is taken out. -/
theorem Reading.quote (h : Reading p i ts cur (c :: line)) (hlen : line.length + 1 < maxCommandLength) :
    ∃ buffer, removeAt maxCommandLength i p.buffer = some buffer ∧
      Reading { p with buffer := buffer, inQuotes := !p.inQuotes } i ts cur line := by
  obtain ⟨buffer, hb, hstr, hframe⟩ := removeAt_spec h.rest hlen
  have hpos := h.pos
  refine ⟨buffer, hb, h.filed.mono (fun j hj => hframe j (by omega)) rfl rfl (Nat.le_refl _), ?_,
    h.noNul, h.pos, hstr⟩
  exact h.current.congr fun j _ hj => hframe j (by omega)

/-- The blank at `i` ends the word, and the blanks behind it are passed. -/
theorem Reading.blank (h : Reading p i ts cur (c :: line)) (hfit : i + line.length + 1 < maxCommandLength) :
    ∃ i' p', endToken i p = some (i', p') ∧ p'.inQuotes = p.inQuotes ∧
      i' + (line.dropWhile isBlank).length = i + line.length ∧
      Reading p' (i' + 1) (ts ++ flush cur) [] (line.dropWhile isBlank) := by
  obtain ⟨hc, hi, hrest⟩ := StringAt.cons_iff.mp h.rest
  have hpos := h.pos
  let q : Parse := { p with buffer := Function.update p.buffer i 0 }
  have hframe : ∀ j, j ≠ i → q.buffer j = p.buffer j := fun j hj => Function.update_of_ne hj ..
  have hword : StringAt q.buffer q.token cur := by
    refine .mk' h.noNul (h.current.congr fun j _ hj => hframe j (by omega)) ?_
    rw [← hpos]
    exact Function.update_self ..
  have hfiled : Filed q q.token ts :=
    h.filed.mono (fun j hj => hframe j (by omega)) rfl rfl (Nat.le_refl _)
  obtain ⟨r, hpush, hbuf, hq, hdone⟩ := pushToken_spec hfiled hword (by omega)
    (show p.token + cur.length < i + 1 by omega) (show p.token ≤ i + 1 by omega)
  have hline : StringAt r.buffer (i + 1) line := by
    rw [hbuf]
    exact hrest.congr fun j hj _ => hframe j (by omega)
  obtain ⟨i', hskip, hlen, hstr⟩ := skipBlanks_spec hline (show line.length < maxCommandLength by omega)
  have hle := (List.dropWhile_sublist isBlank (l := line)).length_le
  refine ⟨i', { r with token := i' + 1 }, ?_, hq, hlen, ?_, trivial, nofun, rfl, hstr⟩
  · rw [endToken, hpush]
    dsimp only
    rw [hskip]
  · exact hdone.mono (fun _ _ => rfl) rfl rfl (show i + 1 ≤ i' + 1 by omega)

/-! ## The loop -/

/-- After the loop: the words, and the string that counts as the last. -/
structure Finished (p : Parse) (ts : List (List UInt8)) (last : List UInt8) : Prop where
  filed : Filed p p.token ts
  rest : StringAt p.buffer p.token last
  short : last.length < maxCommandLength

/-- With `MAX_ARGS - 1` words the loop stops, whatever is left of the line. -/
theorem Reading.finished_full {fuel : Nat} (h : Reading p i ts [] line)
    (hroom : ¬ts.length < maxArgs - 1) (hfit : i + line.length < maxCommandLength)
    (hfuel : 0 < fuel) : parseLoop fuel i p = some p ∧ Finished p ts line := by
  obtain ⟨fuel, rfl⟩ := Nat.exists_eq_add_of_lt hfuel
  have hpos : i = p.token := h.pos
  refine ⟨?_, h.filed, hpos ▸ h.rest, by omega⟩
  rw [parseLoop, if_neg (fun hb => hroom (h.filed.argc ▸ hb.2))]

theorem parseLoop_spec {fuel : Nat} (h : Reading p i ts cur line) (hroom : ts.length < maxArgs - 1)
    (hfit : i + line.length < maxCommandLength) (hfuel : line.length < fuel) :
    ∃ p', parseLoop fuel i p = some p' ∧
      Finished p' (ts ++ (scan (maxArgs - 1 - ts.length) p.inQuotes cur line).1)
        (scan (maxArgs - 1 - ts.length) p.inQuotes cur line).2 := by
  induction fuel generalizing p i ts cur line with
  | zero => exact absurd hfuel (Nat.not_lt_zero _)
  | succ fuel ih =>
      have hargc : p.argc < maxArgs - 1 := by
        rw [h.filed.argc]
        exact hroom
      cases line with
      | nil =>
          have hz := StringAt.nil_iff.mp h.rest
          rw [parseLoop, if_neg (fun hb => hb.1 hz), scan, List.append_nil]
          refine ⟨p, rfl, h.filed, .mk' h.noNul h.current (h.pos ▸ hz), ?_⟩
          exact Nat.lt_of_le_of_lt (h.pos ▸ Nat.le_add_left _ _) hfit
      | cons c line =>
          obtain ⟨hc, hi, -⟩ := StringAt.cons_iff.mp h.rest
          rw [List.length_cons] at hfit hfuel
          rw [parseLoop, if_pos ⟨hi ▸ hc, hargc⟩, hi]
          by_cases hq : c = quote
          · obtain ⟨buffer, hb, hnext⟩ := h.quote (by omega)
            rw [if_pos hq, hb, scan, if_pos hq]
            exact ih hnext hroom (by omega) (by omega)
          · rw [if_neg hq, scan, if_neg hq]
            by_cases hblank : p.inQuotes = false ∧ isBlank c = true
            · obtain ⟨i', p', hend, hmode, hlen, hnext⟩ := h.blank (by omega)
              rw [if_pos hblank, hend, if_pos hblank]
              dsimp only
              have hmode' : p'.inQuotes = false := hmode.trans hblank.1
              have hle := (List.dropWhile_sublist isBlank (l := line)).length_le
              cases cur with
              | nil =>
                  rw [flush_nil, List.append_nil] at hnext
                  have hrun := ih hnext hroom (by omega) (by omega)
                  rw [hmode', scan_dropWhile] at hrun
                  rw [if_pos rfl]
                  exact hrun
              | cons d cur =>
                  rw [flush_of_ne (List.cons_ne_nil d cur)] at hnext
                  rw [if_neg (List.cons_ne_nil d cur)]
                  by_cases hlast : ts.length + 1 < maxArgs - 1
                  · -- there is room for another word
                    have hk : ¬maxArgs - 1 - ts.length ≤ 1 := by omega
                    have hroom' : (ts ++ [d :: cur]).length < maxArgs - 1 := by
                      rwa [List.length_append, List.length_singleton]
                    have hrun := ih hnext hroom' (by omega) (by omega)
                    rw [hmode', scan_dropWhile, List.length_append, List.length_singleton,
                      List.append_assoc, Nat.sub_add_eq] at hrun
                    rw [if_neg hk]
                    exact hrun
                  · have hk : maxArgs - 1 - ts.length ≤ 1 := by omega
                    have hfull : ¬(ts ++ [d :: cur]).length < maxArgs - 1 := by
                      rwa [List.length_append, List.length_singleton]
                    rw [if_pos hk]
                    exact ⟨p', hnext.finished_full hfull (by omega) (by omega)⟩
            · rw [if_neg hblank, if_neg hblank]
              exact ih h.char hroom (by omega) (by omega)

end Steps

/-! ## The whole -/

section Whole

variable {input : CString}

/-- `args` is the words, and a null behind them. -/
def Parse.Gives (p : Parse) (ts : List (List UInt8)) : Prop :=
  ∃ ptrs, ListAt p.args.val 0 (ptrs.map some ++ [none]) ∧
    List.Forall₂ (fun ptr t => StringAt p.buffer ptr t) ptrs ts

/-- The words of a line as `parse_command` takes them. -/
def taken (line : List UInt8) : List (List UInt8) :=
  (scan (maxArgs - 1) false [] line).1 ++ flush (scan (maxArgs - 1) false [] line).2

/-- What is left of a line behind `MAX_ARGS - 1` words and the blanks that end the
last of them. -/
def leftOver (line : List UInt8) : List UInt8 :=
  if (scan (maxArgs - 1) false [] line).1.length = maxArgs - 1 then
    (scan (maxArgs - 1) false [] line).2
  else []

theorem parseCommand_spec (static : Nat → UInt8) (args : Nat → Option Nat)
    (hlen : input.chars.length < maxCommandLength) :
    ∃ p, parseCommand static args input.chars = some p ∧ p.Gives (taken input.chars) ∧
      p.argc = (taken input.chars).length ∧
      p.args.written = (List.range ((taken input.chars).length + 1)).reverse := by
  let buffer := (strcpy { val := static, written := [] } input.chars).val
  let p₀ : Parse := ⟨buffer, ⟨args, []⟩, 0, 0, false⟩
  have hstart : Reading p₀ 0 [] [] input.chars :=
    ⟨⟨⟨[], trivial, .nil⟩, rfl, rfl⟩, trivial, nofun, rfl, strcpy_stringAt input.noNul⟩
  obtain ⟨p, hloop, hdone⟩ := parseLoop_spec hstart (by decide) (by omega) hlen
  obtain ⟨p', hpush, -, -, hfiled⟩ := pushToken_spec hdone.filed hdone.rest hdone.short
    (Nat.lt_succ_self _) (Nat.le_succ_of_le (Nat.le_add_right _ _))
  have hwords : Filed p' _ (taken input.chars) := hfiled
  obtain ⟨ptrs, hat, hstr⟩ := hwords.stored
  have hargc := hwords.argc
  refine ⟨{ p' with args := p'.args.set p'.argc none }, ?_, ⟨ptrs, ?_, ?_⟩, hargc, ?_⟩
  · rw [parseCommand, hloop]
    dsimp only
    rw [hpush]
  · have hptrs : p'.argc = ptrs.length := hargc.trans hstr.length_eq.symm
    refine ListAt.append_iff.mpr ⟨hat.congr fun j _ hj => LoggedArray.set_val_of_ne ?_, ?_, trivial⟩
    · rw [List.length_map] at hj
      omega
    · rw [List.length_map, Nat.zero_add, ← hptrs]
      exact LoggedArray.set_val_self
  · exact hstr.imp fun ptr t ht => ht.1
  · show p'.argc :: p'.args.written = _
    rw [hwords.log, List.range_succ, List.reverse_append, List.reverse_singleton, hargc]
    rfl

/-- **The grammar**: a line of up to 30 words gives its words and a null. -/
theorem parseCommand_eq_reference (static : Nat → UInt8) (args : Nat → Option Nat) (input : CString)
    (hlen : input.chars.length < maxCommandLength) (hwords : (reference input.chars).length ≤ 30) :
    ∃ p, parseCommand static args input.chars = some p ∧ p.Gives (reference input.chars) ∧
      p.argc = (reference input.chars).length := by
  obtain ⟨p, hp, hgives, hargc, -⟩ := parseCommand_spec static args hlen
  rw [reference_eq_words] at hwords ⊢
  have htaken : taken input.chars = words [] (marks false input.chars) :=
    scan_eq_words (Nat.lt_succ_of_le hwords)
  rw [htaken] at hgives hargc
  exact ⟨p, hp, hgives, hargc⟩

/-- `a "b c" d`. -/
def quotedLine : CString := ⟨[0x61, 0x20, 0x22, 0x62, 0x20, 0x63, 0x22, 0x20, 0x64], by decide⟩

theorem parseCommand_quotedLine :
    ∃ p, parseCommand (fun _ => 1) (fun _ => none) quotedLine.chars = some p ∧
      p.Gives (reference quotedLine.chars) ∧ p.argc = (reference quotedLine.chars).length :=
  parseCommand_eq_reference (fun _ => 1) (fun _ => none) quotedLine (by decide) (by decide)

example : reference quotedLine.chars = [[0x61], [0x62, 0x20, 0x63], [0x64]] := by decide

theorem length_taken_le_iff (line : List UInt8) :
    (taken line).length ≤ maxArgs - 1 ↔ leftOver line = [] := by
  have hle : (scan (maxArgs - 1) false [] line).1.length ≤ maxArgs - 1 := length_scan_le (by decide)
  unfold taken leftOver
  rw [List.length_append]
  cases hlast : (scan (maxArgs - 1) false [] line).2 with
  | nil =>
      rw [flush_nil, List.length_nil, Nat.add_zero, ite_self]
      exact iff_of_true hle rfl
  | cons c last =>
      rw [flush_of_ne (List.cons_ne_nil c last), List.length_singleton]
      split
      · rename_i hfull
        exact iff_of_false (by omega) (List.cons_ne_nil c last)
      · exact iff_of_true (by omega) rfl

/-- That takes 31 words. -/
theorem leftOver_of_short {line : List UInt8} (h : (reference line).length ≤ 30) :
    leftOver line = [] := by
  have hwords : (words [] (marks false line)).length < maxArgs - 1 :=
    Nat.lt_succ_of_le (reference_eq_words ▸ h)
  rw [← length_taken_le_iff, taken, scan_eq_words hwords]
  exact Nat.le_of_lt hwords

/-- `parse_command` comes back, and stays inside `args`. -/
def StaysInside (static : Nat → UInt8) (args : Nat → Option Nat) (input : List UInt8) : Prop :=
  ∃ p, parseCommand static args input = some p ∧ p.args.Only (· < maxArgs) ∧ p.argc ≤ maxArgs - 1

theorem staysInside_iff (static : Nat → UInt8) (args : Nat → Option Nat)
    (hlen : input.chars.length < maxCommandLength) :
    StaysInside static args input.chars ↔ leftOver input.chars = [] := by
  obtain ⟨p, hp, -, hargc, hlog⟩ := parseCommand_spec static args hlen
  rw [← length_taken_le_iff, ← hargc]
  constructor
  · rintro ⟨p', hp', -, h⟩
    obtain rfl := Option.some.inj (hp.symm.trans hp')
    exact h
  · intro h
    refine ⟨p, hp, fun j hj => ?_, h⟩
    rw [hlog, List.mem_reverse, List.mem_range, ← hargc] at hj
    exact Nat.lt_of_lt_of_le hj (Nat.succ_le_succ h)

/-- **The argument vector** is overrun exactly if something is left of the line behind
31 words: it is stored as another one, and the null behind it. -/
theorem parseCommand_inside_iff (static : Nat → UInt8) (args : Nat → Option Nat) (input : CString)
    (hlen : input.chars.length < maxCommandLength) :
    StaysInside static args input.chars ↔ leftOver input.chars = [] :=
  staysInside_iff static args hlen

/-- 32 words of one letter. -/
def manyWords : CString := ⟨(List.replicate 32 [0x61, 0x20]).flatten, by decide⟩

theorem parseCommand_overrun : ¬StaysInside (fun _ => 0) (fun _ => none) manyWords.chars :=
  fun h => absurd ((staysInside_iff _ _ (by decide)).mp h) (by decide)

theorem parseCommand_inside_quotedLine :
    StaysInside (fun _ => 0) (fun _ => none) quotedLine.chars ↔ leftOver quotedLine.chars = [] :=
  parseCommand_inside_iff (fun _ => 0) (fun _ => none) quotedLine (by decide)

end Whole

end Shell

end KmOS
