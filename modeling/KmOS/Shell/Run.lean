/-
# `KmOS.Shell.Run` — `Shell::run`

The shell reads a line, cuts it into words, and calls the handler of the command that
the first word names, until the command is `exit`.  Lines without a word do nothing, and
any other line goes into the history before it is executed.

A session is the list of the calls that `run` makes, in their order.  It is what the
lines say up to the first `exit`, and nothing that stands behind that is looked at
(`runLoop_spec`).  With what is known of `read_line`, the calls are those of the lines
that were typed (`typed_commands_run`).

**What is left out.**  The handlers themselves, except that of `exit`, which is the only
one that changes what `run` looks at; the texts on the console and the serial line.
-/
import KmOS.Keyboard.ReadLine
import KmOS.Shell.Tokenizer
import Mathlib.Data.Nat.Digits.Defs

namespace KmOS

namespace Shell

/-! ## The code -/

/-- What `init_commands` makes of the builtin commands: `exit` is `cmd_exit`, and so on. -/
inductive Handler where
  | help | echo | clear | ls | cd | pwd | cat | mkdir | rm | cp | mv | ps | mem | swap | uptime
  | uname | exit
deriving DecidableEq

def chars (s : List Char) : List UInt8 := s.map Char.toUInt8

/-- The names in `builtin_commands`. -/
def builtinCommands : List (List UInt8) :=
  [chars ['h', 'e', 'l', 'p'], chars ['e', 'c', 'h', 'o'], chars ['c', 'l', 'e', 'a', 'r'],
    chars ['l', 's'], chars ['c', 'd'], chars ['p', 'w', 'd'], chars ['c', 'a', 't'],
    chars ['m', 'k', 'd', 'i', 'r'], chars ['r', 'm'], chars ['c', 'p'], chars ['m', 'v'],
    chars ['p', 's'], chars ['m', 'e', 'm'], chars ['s', 'w', 'a', 'p'],
    chars ['u', 'p', 't', 'i', 'm', 'e'], chars ['u', 'n', 'a', 'm', 'e'],
    chars ['e', 'x', 'i', 't']]

/-- The handlers that `init_commands` sets, by their index. -/
def handlers : List Handler :=
  [.help, .echo, .clear, .ls, .cd, .pwd, .cat, .mkdir, .rm, .cp, .mv, .ps, .mem, .swap, .uptime,
    .uname, .exit]

def commands : List (List UInt8 × Handler) := builtinCommands.zip handlers

/-- `Shell::find_command`, and the handler of the command it finds. -/
def findCommand (name : List UInt8) : List (List UInt8 × Handler) → Option Handler
  | [] => none
  | c :: cs => if strcmp c.1 name = 0 then some c.2 else findCommand name cs

/-- What `run` does to the rest of the system. -/
inductive Call where
  | addToHistory (command : List UInt8)
  | handler (h : Handler) (argv : List (List UInt8))
  | notFound (name : List UInt8)
deriving DecidableEq

/-- The fields of `shell_state` that `run` looks at, the static buffer of
`parse_command`, and the calls so far. -/
structure Session where
  static : Nat → UInt8
  running : Bool
  exitCode : Int32
  calls : List Call

/-- The loop of `cmd_exit`; the `int` wraps. -/
def exitLoop (code : Int32) : List UInt8 → Int32
  | [] => code
  | c :: cs =>
      exitLoop (if 0x30 ≤ c ∧ c ≤ 0x39 then code * 10 + Int32.ofNat (c.toNat - 0x30) else code) cs

namespace Session

/-- `Shell::cmd_exit`, and `Shell::exit`. -/
def cmdExit (argv : List (List UInt8)) (s : Session) : Session :=
  match argv with
  | _ :: a :: _ => { s with running := false, exitCode := exitLoop 0 a }
  | _ => { s with running := false, exitCode := 0 }

/-- `Shell::execute_command`. -/
def executeCommand (argv : List (List UInt8)) (s : Session) : Session :=
  match argv with
  | [] => s
  | name :: _ =>
      match findCommand name commands with
      | none => { s with calls := s.calls ++ [.notFound name] }
      | some h =>
          let s := { s with calls := s.calls ++ [.handler h argv] }
          if h = .exit then s.cmdExit argv else s

/-- The strings that `args[i]` and the `n - 1` behind it point to. -/
def argv (p : Parse) : Nat → Nat → Option (List (List UInt8))
  | 0, _ => some []
  | n + 1, i =>
      match (p.args.val i).bind (loadString p.buffer maxCommandLength) with
      | none => none
      | some a => (argv p n (i + 1)).map (a :: ·)

/-- The body of the loop of `run`, for what `read_line` returns and what stands in
`args`. -/
def turn (args : Nat → Option Nat) (result : Nat × (Nat → UInt8)) (s : Session) : Option Session :=
  if 0 < result.1 then
    match loadString result.2 maxCommandLength 0 with
    | none => none
    | some input =>
        match parseCommand s.static args input with
        | none => none
        | some p =>
            let s := { s with static := p.buffer }
            if 0 < p.argc then
              match argv p p.argc 0 with
              | none => none
              | some argv =>
                  some (executeCommand argv { s with calls := s.calls ++ [.addToHistory input] })
            else some s
  else some s

/-- `while (state.running)`, as long as there are lines. -/
def runLoop (args : Nat → Option Nat) : List (Nat × (Nat → UInt8)) → Session → Option Session
  | [], s => some s
  | result :: results, s =>
      if s.running then
        match turn args result s with
        | none => none
        | some s => runLoop args results s
      else some s

/-- As `run` begins. -/
def start (static : Nat → UInt8) : Session := ⟨static, true, 0, []⟩

end Session

/-! ## Statement -/

/-- The command that a handler is for. -/
def Handler.name : Handler → List UInt8
  | .help => chars ['h', 'e', 'l', 'p']
  | .echo => chars ['e', 'c', 'h', 'o']
  | .clear => chars ['c', 'l', 'e', 'a', 'r']
  | .ls => chars ['l', 's']
  | .cd => chars ['c', 'd']
  | .pwd => chars ['p', 'w', 'd']
  | .cat => chars ['c', 'a', 't']
  | .mkdir => chars ['m', 'k', 'd', 'i', 'r']
  | .rm => chars ['r', 'm']
  | .cp => chars ['c', 'p']
  | .mv => chars ['m', 'v']
  | .ps => chars ['p', 's']
  | .mem => chars ['m', 'e', 'm']
  | .swap => chars ['s', 'w', 'a', 'p']
  | .uptime => chars ['u', 'p', 't', 'i', 'm', 'e']
  | .uname => chars ['u', 'n', 'a', 'm', 'e']
  | .exit => chars ['e', 'x', 'i', 't']

/-- A line that leaves the shell. -/
def IsExit (line : List UInt8) : Prop := (reference line).head? = some Handler.exit.name

instance (line : List UInt8) : Decidable (IsExit line) := by
  unfold IsExit
  infer_instance

/-- The lines that are executed: those with a word, up to the first `exit`. -/
def executed : List (List UInt8) → List (List UInt8)
  | [] => []
  | line :: lines =>
      if reference line = [] then executed lines
      else if IsExit line then [line] else line :: executed lines

/-- What a line says is to be called. -/
def CallsOf (line : List UInt8) (calls : List Call) : Prop :=
  ∃ name args, reference line = name :: args ∧
    ((∃ h : Handler, h.name = name ∧ calls = [.addToHistory line, .handler h (name :: args)]) ∨
      (∀ h : Handler, h.name ≠ name) ∧ calls = [.addToHistory line, .notFound name])

/-- The decimal digits of a word, as a number. -/
def digitsOf (word : List UInt8) : Nat :=
  Nat.ofDigits 10 ((word.filter fun c => 0x30 ≤ c ∧ c ≤ 0x39).map fun c => c.toNat - 0x30).reverse

/-- What the lines make of a session. -/
structure Session.Runs (s : Session) (lines : List (List UInt8)) (s' : Session) : Prop where
  calls : ∃ cs, List.Forall₂ CallsOf (executed lines) cs ∧ s'.calls = s.calls ++ cs.flatten
  running : s'.running = true ↔ ∀ line ∈ lines, ¬ IsExit line
  exitCode : s'.exitCode = match (lines.find? fun line => IsExit line) with
    | none => s.exitCode
    | some line => Int32.ofNat (digitsOf ((reference line).getD 1 []))

/-! ## One command -/

theorem exitLoop_concat (code : Int32) (w : List UInt8) (c : UInt8) :
    exitLoop code (w ++ [c]) =
      if 0x30 ≤ c ∧ c ≤ 0x39 then exitLoop code w * 10 + Int32.ofNat (c.toNat - 0x30)
      else exitLoop code w := by
  induction w generalizing code with
  | nil => rfl
  | cons d w ih =>
      rw [List.cons_append, exitLoop, ih]
      rfl

/-- The code is the number, and wraps as it does. -/
theorem exitLoop_eq (w : List UInt8) : exitLoop 0 w = Int32.ofNat (digitsOf w) := by
  induction w using List.reverseRecOn with
  | nil => rfl
  | append_singleton w c ih =>
      rw [exitLoop_concat, ih]
      unfold digitsOf
      rw [List.filter_append]
      by_cases hc : 0x30 ≤ c ∧ c ≤ 0x39
      · rw [if_pos hc, List.filter_singleton, decide_eq_true hc, cond_true, List.map_append,
          List.reverse_append, List.map_singleton, List.reverse_singleton, List.singleton_append,
          Nat.ofDigits_cons, Int32.ofNat_add, Int32.ofNat_mul, Int32.add_comm, Int32.mul_comm]
        rfl
      · rw [if_neg hc, List.filter_singleton, decide_eq_false hc, cond_false, List.append_nil]

theorem findCommand_eq_find? {name : List UInt8} (hname : 0 ∉ name) {cs : List (List UInt8 × Handler)}
    (hcs : ∀ c ∈ cs, 0 ∉ c.1) :
    findCommand name cs = (cs.find? fun c => c.1 = name).map Prod.snd := by
  induction cs with
  | nil => rfl
  | cons c cs ih =>
      have hiff := strcmp_eq_zero_iff (hcs c List.mem_cons_self) hname
      rw [findCommand, List.find?_cons]
      by_cases hc : c.1 = name
      · rw [if_pos (hiff.mpr hc), decide_eq_true hc]
        rfl
      · rw [if_neg (mt hiff.mp hc), decide_eq_false hc]
        exact ih fun d hd => hcs d (List.mem_cons_of_mem c hd)

/-- Every handler stands in the table under its own name, and nothing else does. -/
theorem commands_names :
    (∀ c ∈ commands, c.1 = c.2.name ∧ 0 ∉ c.1) ∧ ∀ h : Handler, (h.name, h) ∈ commands := by
  refine ⟨by decide, fun h => ?_⟩
  cases h
  all_goals decide

/-- A name stands at the index of its handler. -/
theorem handlers_idxOf (h : Handler) : handlers[builtinCommands.idxOf h.name]? = some h := by
  cases h
  all_goals decide

theorem Handler.name_inj {g h : Handler} (hn : g.name = h.name) : g = h := by
  have hg := handlers_idxOf g
  rw [hn, handlers_idxOf h] at hg
  exact (Option.some.inj hg).symm

/-- **The table**: a command is found by the name of its handler. -/
theorem findCommand_iff {name : List UInt8} (hname : 0 ∉ name) (h : Handler) :
    findCommand name commands = some h ↔ h.name = name := by
  obtain ⟨hnames, hall⟩ := commands_names
  rw [findCommand_eq_find? hname fun c hc => (hnames c hc).2, Option.map_eq_some_iff]
  constructor
  · rintro ⟨c, hc, rfl⟩
    have hcn : c.1 = name := by simpa using List.find?_some hc
    exact (hnames c (List.mem_of_find?_eq_some hc)).1.symm.trans hcn
  · intro hn
    cases hfind : commands.find? fun c => c.1 = name with
    | none =>
        have hno := List.find?_eq_none.mp hfind (h.name, h) (hall h)
        exact absurd (decide_eq_true hn) hno
    | some c =>
        have hc := hnames c (List.mem_of_find?_eq_some hfind)
        have hcn : c.1 = name := by simpa using List.find?_some hfind
        exact ⟨c, rfl, Handler.name_inj (hc.1.symm.trans (hcn.trans hn.symm))⟩

variable {s : Session} {p : Parse} {ts : List (List UInt8)} {line name : List UInt8}

theorem length_marks_le (quoted : Bool) (line : List UInt8) :
    (marks quoted line).length ≤ line.length := by
  induction line generalizing quoted with
  | nil => exact Nat.le_refl 0
  | cons c line ih =>
      unfold marks
      split
      · exact Nat.le_succ_of_le (ih _)
      split
      · exact Nat.succ_le_succ (ih _)
      · exact Nat.succ_le_succ (ih _)

theorem length_le_of_mem_words {cur t : List UInt8} {ms : List (Option UInt8)}
    (ht : t ∈ words cur ms) : t.length ≤ cur.length + ms.length := by
  have hflush : ∀ n, t ∈ flush cur → t.length ≤ cur.length + n := by
    intro n hf
    unfold flush at hf
    split at hf
    · cases hf
    · rw [List.mem_singleton.mp hf]
      exact Nat.le_add_right ..
  induction ms generalizing cur with
  | nil => exact hflush 0 ht
  | cons m ms ih =>
      cases m with
      | none =>
          rcases List.mem_append.mp ht with ht | ht
          · exact hflush _ ht
          · have hle := ih ht fun n hf => absurd hf List.not_mem_nil
            rw [List.length_nil] at hle
            rw [List.length_cons]
            omega
      | some c =>
          have hle := @ih (cur ++ [c]) ht fun n hf => by
            rw [flush_of_ne (List.concat_ne_nil c cur), List.mem_singleton] at hf
            rw [hf]
            exact Nat.le_add_right ..
          rw [List.length_append, List.length_singleton] at hle
          rw [List.length_cons]
          omega

/-- A word is no longer than its line. -/
theorem length_le_of_mem_reference {t : List UInt8} (ht : t ∈ reference line) :
    t.length ≤ line.length := by
  rw [reference_eq_words] at ht
  have hle := length_le_of_mem_words ht
  rw [List.length_nil, Nat.zero_add] at hle
  exact Nat.le_trans hle (length_marks_le false line)

namespace Session

/-- The strings are the words. -/
theorem argv_eq {ptrs : List Nat} {rest : List (Option Nat)} {i : Nat}
    (hargs : ListAt p.args.val i (ptrs.map some ++ rest))
    (hstr : List.Forall₂ (fun ptr t => StringAt p.buffer ptr t) ptrs ts)
    (hshort : ∀ t ∈ ts, t.length < maxCommandLength) : argv p ts.length i = some ts := by
  induction hstr generalizing i with
  | nil => rfl
  | @cons ptr t ptrs ts hs _ ih =>
      have hi : p.args.val i = some ptr := hargs.1
      rw [List.length_cons, argv, hi, Option.bind_some,
        loadString_eq hs (hshort t List.mem_cons_self)]
      dsimp only
      rw [ih hargs.2 fun u hu => hshort u (List.mem_cons_of_mem t hu)]
      rfl

/-- A line that fits. -/
structure Line (line : List UInt8) : Prop where
  noNul : 0 ∉ line
  length : line.length < maxCommandLength
  words : (reference line).length ≤ 30

/-- What a line has done to a session. -/
structure Executes (s s' : Session) (line : List UInt8) : Prop where
  calls : ∃ cs, (reference line = [] → cs = []) ∧ (reference line ≠ [] → CallsOf line cs) ∧
    s'.calls = s.calls ++ cs
  exit : IsExit line → s'.running = false ∧
    s'.exitCode = Int32.ofNat (digitsOf ((reference line).getD 1 []))
  stay : ¬ IsExit line → s'.running = s.running ∧ s'.exitCode = s.exitCode

/-- `execute_command`, on the words of a line. -/
theorem executeCommand_spec {args : List (List UInt8)} (hline : reference line = name :: args)
    (hname : 0 ∉ name) (s : Session) :
    Executes s (executeCommand (name :: args) { s with calls := s.calls ++ [.addToHistory line] })
      line := by
  have hne : reference line ≠ [] := hline ▸ List.cons_ne_nil name args
  have hexit : IsExit line ↔ findCommand name commands = some .exit := by
    unfold IsExit
    rw [hline, List.head?_cons, Option.some_inj, findCommand_iff hname, eq_comm]
  unfold executeCommand
  dsimp only
  cases hfind : findCommand name commands with
  | none =>
      have hno : ¬ IsExit line := by
        rw [hexit, hfind]
        intro h
        cases h
      refine ⟨⟨[.addToHistory line, .notFound name], fun h => absurd h hne, fun _ => ?_,
        List.append_assoc ..⟩, fun h => absurd h hno, fun _ => ⟨rfl, rfl⟩⟩
      refine ⟨name, args, hline, .inr ⟨fun h hn => ?_, rfl⟩⟩
      rw [(findCommand_iff hname h).mpr hn] at hfind
      cases hfind
  | some h =>
      have hcalls : CallsOf line [.addToHistory line, .handler h (name :: args)] :=
        ⟨name, args, hline, .inl ⟨h, (findCommand_iff hname h).mp hfind, rfl⟩⟩
      rw [hfind, Option.some_inj] at hexit
      dsimp only
      by_cases hx : h = .exit
      · rw [if_pos hx]
        refine ⟨⟨_, fun h => absurd h hne, fun _ => hcalls, ?_⟩, fun _ => ?_, fun hno => absurd (hexit.mpr hx) hno⟩
        · cases args with
          | nil => exact List.append_assoc ..
          | cons a args => exact List.append_assoc ..
        · rw [hline]
          cases args with
          | nil => exact ⟨rfl, rfl⟩
          | cons a args => exact ⟨rfl, exitLoop_eq a⟩
      · rw [if_neg hx]
        exact ⟨⟨_, fun h => absurd h hne, fun _ => hcalls, List.append_assoc ..⟩, fun h => absurd (hexit.mp h) hx,
          fun _ => ⟨rfl, rfl⟩⟩

/-- A line without words, or one of length 0. -/
theorem Executes.blank (h : reference line = []) (static : Nat → UInt8) :
    Executes s { s with static := static } line := by
  refine ⟨⟨[], fun _ => rfl, fun hne => absurd h hne, (List.append_nil _).symm⟩, fun hx => ?_,
    fun _ => ⟨rfl, rfl⟩⟩
  rw [IsExit, h] at hx
  cases hx

/-- **One line.** -/
theorem turn_spec {result : Nat × (Nat → UInt8)} (hline : Line line)
    (hr : ReturnedLine result line) (args : Nat → Option Nat) (s : Session) :
    ∃ s', turn args result s = some s' ∧ Executes s s' line := by
  unfold turn
  rw [hr.1, loadString_eq hr.2 hline.length]
  dsimp only
  split
  · obtain ⟨p, hp, ⟨ptrs, hargs, hstr⟩, hargc, -⟩ :=
      @parseCommand_spec ⟨line, hline.noNul⟩ s.static args hline.length
    dsimp only at hp hstr hargc
    have htaken : taken line = reference line := by
      rw [reference_eq_words]
      exact scan_eq_words (Nat.lt_succ_of_le (reference_eq_words ▸ hline.words))
    rw [htaken] at hstr hargc
    rw [hp]
    dsimp only
    cases hwords : reference line with
    | nil =>
        rw [hargc, hwords, List.length_nil, if_neg (Nat.lt_irrefl 0)]
        exact ⟨_, rfl, .blank hwords p.buffer⟩
    | cons name ts =>
        have hshort : ∀ t ∈ reference line, t.length < maxCommandLength := fun t ht =>
          Nat.lt_of_le_of_lt (length_le_of_mem_reference ht) hline.length
        have hname : 0 ∉ name := by
          rw [hwords] at hstr
          cases hstr with
          | cons h _ => exact h.1
        have hpos : 0 < p.argc := by
          rw [hargc, hwords]
          exact Nat.succ_pos _
        have hdone := executeCommand_spec hwords hname { s with static := p.buffer }
        rw [if_pos hpos, hargc, argv_eq hargs hstr hshort, hwords]
        exact ⟨_, rfl, hdone.calls, hdone.exit, hdone.stay⟩
  · next h0 =>
      obtain rfl : line = [] := List.length_eq_zero_iff.mp (Nat.eq_zero_of_not_pos h0)
      exact ⟨s, rfl, .blank rfl s.static⟩

/-- Nothing is read any more. -/
theorem runLoop_stopped (args : Nat → Option Nat) (results : List (Nat × (Nat → UInt8)))
    (hs : s.running = false) : runLoop args results s = some s := by
  cases results with
  | nil => rfl
  | cons result results => rw [runLoop, if_neg (by rw [hs]; exact Bool.false_ne_true)]

/-- **All lines.** -/
theorem runLoop_spec {results : List (Nat × (Nat → UInt8))} {lines : List (List UInt8)}
    (hr : List.Forall₂ ReturnedLine results lines) (hlines : ∀ line ∈ lines, Line line)
    (args : Nat → Option Nat) (s : Session) (hs : s.running = true) :
    ∃ s', runLoop args results s = some s' ∧ s.Runs lines s' := by
  induction hr generalizing s with
  | nil => exact ⟨s, rfl, ⟨[], .nil, (List.append_nil _).symm⟩, iff_of_true hs (List.forall_mem_nil _), rfl⟩
  | @cons result line results lines hline _ ih =>
      obtain ⟨s₁, hturn, hdone⟩ := turn_spec (hlines line List.mem_cons_self) hline args s
      obtain ⟨cs, hblank, hcalls, hall⟩ := hdone.calls
      rw [runLoop, if_pos hs, hturn]
      dsimp only
      by_cases hexit : IsExit line
      · obtain ⟨hstop, hcode⟩ := hdone.exit hexit
        have hne : reference line ≠ [] := by
          intro h
          rw [IsExit, h] at hexit
          cases hexit
        refine ⟨s₁, runLoop_stopped args results hstop, ⟨[cs], ?_, ?_⟩, ?_, ?_⟩
        · rw [executed, if_neg hne, if_pos hexit]
          exact .cons (hcalls hne) .nil
        · rw [List.flatten_singleton]
          exact hall
        · refine iff_of_false ?_ fun h => h line List.mem_cons_self hexit
          rw [hstop]
          exact Bool.false_ne_true
        · rw [List.find?_cons, decide_eq_true hexit]
          exact hcode
      · obtain ⟨hrunning, hcode⟩ := hdone.stay hexit
        obtain ⟨s₂, hrest, ⟨css, hcss, hcalls₂⟩, hrunning₂, hcode₂⟩ :=
          ih (fun l hl => hlines l (List.mem_cons_of_mem line hl)) s₁ (hrunning.trans hs)
        refine ⟨s₂, hrest, ?_, ?_, ?_⟩
        · by_cases hne : reference line = []
          · refine ⟨css, ?_, ?_⟩
            · rw [executed, if_pos hne]
              exact hcss
            · rw [hcalls₂, hall, hblank hne, List.append_nil]
          · refine ⟨cs :: css, ?_, ?_⟩
            · rw [executed, if_neg hne, if_neg hexit]
              exact .cons (hcalls hne) hcss
            · rw [hcalls₂, hall, List.flatten_cons, List.append_assoc]
        · rw [hrunning₂, List.forall_mem_cons]
          exact (and_iff_right hexit).symm
        · rw [hcode₂, List.find?_cons, decide_eq_false hexit, hcode]

end Session

/-! ## The result -/

/-- The lines of these characters, as `read_line` returns them to the shell. -/
def typedLines (typed : List UInt8) : List (List UInt8) :=
  (Terminal.linesOf (show 0 < maxCommandLength - 1 by decide) typed).done

theorem noNul_of_returned {results : List (Nat × (Nat → UInt8))} {lines : List (List UInt8)}
    (h : List.Forall₂ ReturnedLine results lines) : ∀ line ∈ lines, 0 ∉ line := by
  induction h with
  | nil => exact List.forall_mem_nil _
  | cons hr _ ih => exact List.forall_mem_cons.mpr ⟨hr.2.1, ih⟩

/-- **What is typed is executed.**  Whatever interrupts come, if at every moment at most
255 characters had been typed and not read, then the shell makes exactly the calls of the
lines that were typed, in their order, up to the first `exit`. -/
theorem typed_commands_run (d : KeyboardDriver) (io : Console) (buffer static : Nat → UInt8)
    (args : Nat → Option Nat) (events : List KeyboardEvent)
    (hpace : ∀ es, es <+: events → (Keyboard.typed (codesOf es)).length ≤
      (Typing.after d es).returned.length + 255)
    (hwords : ∀ line ∈ typedLines (Keyboard.typed (codesOf events)), (reference line).length ≤ 30) :
    ∃ s, Session.runLoop args
        (Terminal.after maxCommandLength d io buffer
          (events ++ List.replicate 255 .getChar)).lines (.start static) = some s ∧
      (Session.start static).Runs (typedLines (Keyboard.typed (codesOf events))) s := by
  have hcap : 0 < maxCommandLength - 1 := by decide
  obtain ⟨-, -, hlines⟩ := Terminal.after_spec hcap
    (show (maxCommandLength : Int) = (maxCommandLength - 1 : Nat) + 1 by decide) d io buffer
    (events ++ List.replicate 255 .getChar)
  rw [Terminal.returned_catches_up hpace] at hlines
  refine Session.runLoop_spec hlines (fun line hl => ⟨?_, ?_, hwords line hl⟩) args _ rfl
  · exact noNul_of_returned hlines line hl
  · exact Nat.lt_succ_of_le ((Editor.reads_foldl hcap _).length_done_le hl)

/-- `ls`, `exit 7`, and `ps`. -/
def exitTyped : List KeyboardEvent :=
  [0x26, 0x1F, 0x1C, 0x12, 0x2D, 0x17, 0x14, 0x39, 0x08, 0x1C, 0x19, 0x1F, 0x1C].map (.interrupt 1)

theorem typed_commands_run_exit :
    ∃ s, Session.runLoop (fun _ => none)
        (Terminal.after maxCommandLength .zeroed (.init fun _ => 0) (fun _ => 0)
          (exitTyped ++ List.replicate 255 .getChar)).lines (.start fun _ => 0) = some s ∧
      (Session.start fun _ => 0).Runs (typedLines (Keyboard.typed (codesOf exitTyped))) s := by
  have hfew : ∀ es ∈ exitTyped.inits, (Keyboard.typed (codesOf es)).length ≤ 255 := by decide
  exact typed_commands_run .zeroed (.init fun _ => 0) (fun _ => 0) (fun _ => 0) (fun _ => none)
    exitTyped
    (fun es hes => Nat.le_trans (hfew es ((List.mem_inits es exitTyped).mpr hes))
      (Nat.le_add_left ..))
    (by decide)

example : executed (typedLines (Keyboard.typed (codesOf exitTyped))) =
    [chars ['l', 's'], chars ['e', 'x', 'i', 't', ' ', '7']] := by decide

end Shell

end KmOS
