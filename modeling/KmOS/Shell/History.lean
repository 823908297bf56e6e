/-
# `KmOS.Shell.History` — `Shell::add_to_history`

The last ten commands stand in blocks of the heap, and `command_history` points to
them.  A full history gives back its first block before it asks for a new one, and a
request may be refused: then a full history keeps a null for the command, and one that
is not full keeps nothing.

The slots hold the entries of a `BoundedLog` (`Keeps`), each in a block of its own that
is as long as the string, and these blocks and those that were out before are all that
is out.  So no run loses a block, gives one back twice or writes into one that belongs
to someone else (`history_is_log`).
-/
import KmOS.Lib.BlockHeap
import KmOS.Lib.BoundedLog
import KmOS.Lib.Strings

namespace KmOS

namespace Shell

/-! ## The code -/

/-- `MAX_HISTORY`. -/
def maxHistory : Nat := 10

/-- The history of `shell_state`, the heap, and the memory. -/
structure HistoryState where
  heap : BlockHeap
  mem : LoggedArray UInt8
  commandHistory : Nat → Nat
  historyCount : Nat

namespace HistoryState

/-- `for (int i = 0; i < MAX_HISTORY - 1; i++) command_history[i] = command_history[i + 1];` -/
def shiftLoop : Nat → Nat → (Nat → Nat) → Nat → Nat
  | 0, _, slots => slots
  | n + 1, i, slots => shiftLoop n (i + 1) (Function.update slots i (slots (i + 1)))

/-- `kmalloc` for the command into the slot `i`, and `strcpy` if there was memory. -/
def store (s : HistoryState) (i : Nat) (command : List UInt8) : HistoryState :=
  let (p, heap) := s.heap.alloc (command.length + 1)
  { s with
    heap := heap
    commandHistory := Function.update s.commandHistory i p
    mem := if p ≠ 0 then s.mem.storeAll p (command ++ [0]) else s.mem }

/-- `Shell::add_to_history`. -/
def addToHistory (s : HistoryState) (command : List UInt8) : HistoryState :=
  if s.historyCount < maxHistory then
    let t := s.store s.historyCount command
    if t.commandHistory s.historyCount ≠ 0 then { t with historyCount := s.historyCount + 1 } else t
  else
    let s := { s with heap := s.heap.free (s.commandHistory 0) }
    let s := { s with commandHistory := shiftLoop (maxHistory - 1) 0 s.commandHistory }
    s.store (maxHistory - 1) command

/-- As `init` leaves it. -/
def empty (heap : BlockHeap) (mem : Nat → UInt8) : HistoryState where
  heap := heap
  mem := ⟨mem, []⟩
  commandHistory := fun _ => 0
  historyCount := 0

/-! ## Statement -/

/-- `kmalloc` has memory for the command. -/
def served (s : HistoryState) (command : List UInt8) : Bool :=
  let heap := if s.historyCount < maxHistory then s.heap else s.heap.free (s.commandHistory 0)
  (heap.alloc (command.length + 1)).1 ≠ 0

/-- What is entered for a command: without memory, null if the history is full, and
nothing if it is not. -/
def entry (s : HistoryState) (command : List UInt8) : List (Option (List UInt8)) :=
  if s.served command then [some command] else if s.historyCount < maxHistory then [] else [none]

/-- What is entered for the commands. -/
def entered (s : HistoryState) : List (List UInt8) → List (Option (List UInt8))
  | [] => []
  | c :: cs => s.entry c ++ entered (s.addToHistory c) cs

/-- A slot: what it points to, and the command, if it is not null. -/
abbrev Slot := Nat × Option (List UInt8)

/-- The blocks of the slots. -/
def owned (held : List Slot) : List (Nat × Nat) :=
  held.filterMap fun x => x.2.map fun c => (x.1, c.length + 1)

/-- The slots hold `held`; `others` are the blocks of others, which still hold what `mem`
says, and `bad` blocks have been given back wrongly. -/
structure Holds (s : HistoryState) (held : List Slot) (others : List (Nat × Nat))
    (mem : Nat → UInt8) (bad : Nat) : Prop where
  slots : ListAt s.commandHistory 0 (held.map Prod.fst)
  null : ∀ x ∈ held, x.2 = none → x.1 = 0
  strings : ∀ x ∈ held, ∀ c, x.2 = some c → StringAt s.mem.val x.1 c
  live : s.heap.live.Perm (owned held ++ others)
  untouched : ∀ b ∈ others, ∀ a, b.1 ≤ a → a < b.1 + b.2 → s.mem.val a = mem a
  badFrees : s.heap.badFrees = bad

/-! ## A command goes into a slot -/

section
variable {s : HistoryState} {held : List Slot} {others : List (Nat × Nat)} {mem : Nat → UInt8}
  {bad : Nat} {command : List UInt8} {x : Slot}

theorem owned_concat_none : owned (held ++ [(0, none)]) = owned held := by
  unfold owned
  rw [List.filterMap_append]
  exact List.append_nil _

theorem owned_concat_some (p : Nat) :
    owned (held ++ [(p, some command)]) = owned held ++ [(p, command.length + 1)] := by
  unfold owned
  rw [List.filterMap_append]
  rfl

theorem mem_owned {c : List UInt8} (hx : x ∈ held) (hc : x.2 = some c) :
    (x.1, c.length + 1) ∈ owned held :=
  List.mem_filterMap.mpr ⟨x, hx, by rw [hc]; rfl⟩

/-- What is written into a new block is in no other. -/
theorem storeAll_apart {m : LoggedArray UInt8} {p a : Nat} {b : Nat × Nat}
    (h : Block.Apart (p, command.length + 1) b) (hlo : b.1 ≤ a) (hhi : a < b.1 + b.2) :
    (m.storeAll p (command ++ [0])).val a = m.val a := by
  refine LoggedArray.storeAll_outside ?_
  rw [List.length_append, List.length_singleton]
  rcases h with h | h
  · exact .inr (Nat.le_trans h hlo)
  · exact .inl (Nat.lt_of_lt_of_le hhi h)

/-- There was no memory: the slot is null. -/
theorem Holds.store_refused (h : s.Holds held others mem bad)
    (hp : (s.heap.alloc (command.length + 1)).1 = 0)
    (hl : (s.heap.alloc (command.length + 1)).2.live = s.heap.live) :
    (s.store held.length command).Holds (held ++ [(0, none)]) others mem bad := by
  unfold store
  dsimp only
  rw [hp, if_neg (not_not_intro rfl)]
  refine ⟨?_, fun x hx hn => ?_, fun x hx c hc => ?_, ?_, h.untouched, ?_⟩
  · rw [List.map_append, ListAt.append_iff, List.length_map, Nat.zero_add]
    refine ⟨h.slots.congr fun j _ hj => Function.update_of_ne ?_ .., Function.update_self .., trivial⟩
    rw [List.length_map] at hj
    omega
  · rcases List.mem_append.mp hx with hx | hx
    · exact h.null x hx hn
    · rw [List.mem_singleton.mp hx]
  · rcases List.mem_append.mp hx with hx | hx
    · exact h.strings x hx c hc
    · rw [List.mem_singleton.mp hx] at hc
      cases hc
  · show (s.heap.alloc _).2.live.Perm _
    rw [hl, owned_concat_none]
    exact h.live
  · exact (s.heap.alloc_badFrees _).trans h.badFrees

/-- **A new block**: the command stands in it, and nothing else has changed. -/
theorem Holds.store_served (h : s.Holds held others mem bad) (hcommand : 0 ∉ command)
    (hfree : s.heap.Free (s.heap.alloc (command.length + 1)).1 (command.length + 1))
    (hl : (s.heap.alloc (command.length + 1)).2.live =
      ((s.heap.alloc (command.length + 1)).1, command.length + 1) :: s.heap.live) :
    (s.store held.length command).Holds
      (held ++ [((s.heap.alloc (command.length + 1)).1, some command)]) others mem bad := by
  have hbad := s.heap.alloc_badFrees (command.length + 1)
  unfold store
  generalize s.heap.alloc (command.length + 1) = r at hfree hl hbad ⊢
  obtain ⟨p, heap⟩ := r
  dsimp only at hfree hl hbad ⊢
  have hapart : ∀ b ∈ owned held ++ others, Block.Apart (p, command.length + 1) b := fun b hb =>
    hfree.2 b (h.live.mem_iff.mpr hb)
  rw [if_pos hfree.1.1]
  refine ⟨?_, fun x hx hn => ?_, fun x hx c hc => ?_, ?_, fun b hb a hlo hhi => ?_,
    hbad.trans h.badFrees⟩
  · rw [List.map_append, ListAt.append_iff, List.length_map, Nat.zero_add]
    refine ⟨h.slots.congr fun j _ hj => Function.update_of_ne ?_ .., Function.update_self .., trivial⟩
    rw [List.length_map] at hj
    omega
  · rcases List.mem_append.mp hx with hx | hx
    · exact h.null x hx hn
    · rw [List.mem_singleton.mp hx] at hn
      cases hn
  · show StringAt (s.mem.storeAll p (command ++ [0])).val x.1 c
    rcases List.mem_append.mp hx with hx | hx
    · refine (h.strings x hx c hc).congr fun j hlo hhi => ?_
      exact storeAll_apart (hapart _ (List.mem_append_left _ (mem_owned hx hc))) hlo
        (Nat.lt_succ_of_le hhi)
    · rw [List.mem_singleton.mp hx] at hc ⊢
      obtain rfl := Option.some.inj hc
      exact ⟨hcommand, LoggedArray.storeAll_listAt⟩
  · show heap.live.Perm _
    rw [hl, owned_concat_some, List.append_assoc]
    exact (h.live.cons _).trans List.perm_middle.symm
  · show (s.mem.storeAll p (command ++ [0])).val a = _
    rw [storeAll_apart (hapart b (List.mem_append_right _ hb)) hlo hhi]
    exact h.untouched b hb a hlo hhi

/-! ## The oldest goes -/

theorem shiftLoop_apply (n i : Nat) (slots : Nat → Nat) (j : Nat) :
    shiftLoop n i slots j = if i ≤ j ∧ j < i + n then slots (j + 1) else slots j := by
  induction n generalizing i slots with
  | zero => rw [if_neg (by omega), shiftLoop]
  | succ n ih =>
      rw [shiftLoop, ih]
      by_cases hj : j = i
      · subst hj
        rw [if_neg (by omega), if_pos (by omega), Function.update_self]
      · by_cases hin : i + 1 ≤ j ∧ j < i + 1 + n
        · rw [if_pos hin, if_pos (by omega), Function.update_of_ne (by omega)]
        · rw [if_neg hin, if_neg (by omega), Function.update_of_ne hj]

/-- No other block begins where one begins that is out. -/
theorem Holds.ne_of_mem {q n : Nat} {rest : List (Nat × Nat)}
    (hlive : s.heap.live.Perm ((q, n) :: rest)) {b : Nat × Nat} (hb : b ∈ rest) : b.1 ≠ q := by
  have hpair := (hlive.pairwise_iff (fun h => h.symm)).mp s.heap.apart
  have hplaced := s.heap.placed b (hlive.mem_iff.mpr (List.mem_cons_of_mem _ hb))
  have hq := s.heap.placed (q, n) (hlive.mem_iff.mpr List.mem_cons_self)
  have hb₂ := hplaced.2.1
  have hn := hq.2.1
  rcases (List.pairwise_cons.mp hpair).1 b hb with h | h
  · dsimp only at h hn
    omega
  · dsimp only at h hn
    omega

/-- The first slot's block is given back, if it has one. -/
theorem Holds.free_oldest {rest : List Slot} (h : s.Holds (x :: rest) others mem bad) :
    (s.heap.free x.1).live.Perm (owned rest ++ others) ∧ (s.heap.free x.1).badFrees = bad := by
  obtain ⟨q, c⟩ := x
  cases c with
  | none =>
      have hq : q = 0 := h.null (q, none) List.mem_cons_self rfl
      subst hq
      exact ⟨h.live, h.badFrees⟩
  | some c =>
      have hlive : s.heap.live.Perm ((q, c.length + 1) :: (owned rest ++ others)) := h.live
      have hmem : (q, c.length + 1) ∈ s.heap.live := hlive.mem_iff.mpr List.mem_cons_self
      have hq : q ≠ 0 := (s.heap.placed _ hmem).1
      have hout : s.heap.Live q := ⟨_, hmem, rfl⟩
      refine ⟨?_, (BlockHeap.free_badFrees hout).trans h.badFrees⟩
      have hfilter : (s.heap.free q).live = s.heap.live.filter fun b => b.1 ≠ q := by
        unfold BlockHeap.free
        rw [if_neg hq, if_pos hout]
      rw [hfilter]
      refine (hlive.filter _).trans ?_
      rw [List.filter_cons_of_neg (by simp), List.filter_eq_self.mpr]
      exact fun b hb => decide_eq_true (Holds.ne_of_mem hlive hb)

/-- The others move up. -/
theorem Holds.drop_oldest {rest : List Slot} (h : s.Holds (x :: rest) others mem bad)
    (hlen : rest.length ≤ maxHistory - 1) :
    Holds { s with
      heap := s.heap.free (s.commandHistory 0)
      commandHistory := shiftLoop (maxHistory - 1) 0 s.commandHistory } rest others mem bad := by
  have hfirst : s.commandHistory 0 = x.1 := h.slots.1
  obtain ⟨hlive, hbad⟩ := h.free_oldest
  rw [hfirst]
  refine ⟨?_, fun y hy => h.null y (List.mem_cons_of_mem x hy),
    fun y hy => h.strings y (List.mem_cons_of_mem x hy), hlive, h.untouched, hbad⟩
  have hmoved : ListAt (fun k => s.commandHistory (k + 1)) 0 (rest.map Prod.fst) :=
    ListAt.shift_iff.mpr h.slots.2
  refine hmoved.congr fun j _ hj => ?_
  rw [List.length_map] at hj
  show shiftLoop (maxHistory - 1) 0 s.commandHistory j = _
  rw [shiftLoop_apply, if_pos (by omega)]

/-! ## One command -/

/-- The history: the slots that are in use, and the entries they hold. -/
structure Keeps (s : HistoryState) (log : BoundedLog (Option (List UInt8)) maxHistory)
    (others : List (Nat × Nat)) (mem : Nat → UInt8) (bad : Nat) : Prop where
  held : ∃ held : List Slot, held.map Prod.snd = log.items ∧ s.Holds held others mem bad
  count : s.historyCount = log.items.length

/-- Slots that end in a null hold what is in front of it. -/
theorem Holds.of_concat_none (h : s.Holds (held ++ [(0, none)]) others mem bad) :
    s.Holds held others mem bad := by
  refine ⟨?_, fun x hx => h.null x (List.mem_append_left _ hx),
    fun x hx => h.strings x (List.mem_append_left _ hx), ?_, h.untouched, h.badFrees⟩
  · have hall := h.slots
    rw [List.map_append, ListAt.append_iff] at hall
    exact hall.1
  · rw [← owned_concat_none]
    exact h.live

/-- A command is stored in the slot behind the others, or the slot is null. -/
theorem Holds.store (h : s.Holds held others mem bad) (hcommand : 0 ∉ command) :
    ∃ p, (s.store held.length command).commandHistory held.length = p ∧
      p = (s.heap.alloc (command.length + 1)).1 ∧
      (s.store held.length command).Holds (held ++ [(p, if p ≠ 0 then some command else none)])
        others mem bad := by
  refine ⟨(s.heap.alloc (command.length + 1)).1, Function.update_self .., rfl, ?_⟩
  rcases s.heap.alloc_cases (command.length + 1) with ⟨hp, hl⟩ | ⟨hfree, hl⟩
  · have hstored := h.store_refused hp hl
    rw [hp, if_neg (not_not_intro rfl)]
    exact hstored
  · rw [if_pos hfree.1.1]
    exact h.store_served hcommand hfree hl

variable {log : BoundedLog (Option (List UInt8)) maxHistory}

/-- **One command.** -/
theorem Keeps.add (h : s.Keeps log others mem bad) (hcommand : 0 ∉ command) :
    (s.addToHistory command).Keeps ((s.entry command).foldl BoundedLog.push log) others mem bad := by
  obtain ⟨held, hlog, hheld⟩ := h.held
  have hlen : held.length = s.historyCount := by
    rw [h.count, ← hlog, List.length_map]
  have hfits := log.fits
  have hcount := h.count
  unfold addToHistory entry
  by_cases hroom : s.historyCount < maxHistory
  · obtain ⟨p, hslot, hp, hstored⟩ := hheld.store hcommand
    have hserved : s.served command = decide (p ≠ 0) := by
      unfold served
      rw [if_pos hroom, hp]
    rw [if_pos hroom, if_pos hroom, hserved]
    rw [hlen] at hslot hstored
    dsimp only
    rw [hslot]
    by_cases hp0 : p ≠ 0
    · rw [if_pos hp0, if_pos (decide_eq_true hp0)]
      rw [if_pos hp0] at hstored
      have hitems : (log.push (some command)).items = log.items ++ [some command] :=
        BoundedLog.push_of_lt (hcount ▸ hroom)
      refine ⟨⟨held ++ [(p, some command)], ?_, ?_⟩, ?_⟩
      · rw [List.map_append, hlog]
        exact hitems.symm
      · exact ⟨hstored.slots, hstored.null, hstored.strings, hstored.live, hstored.untouched,
          hstored.badFrees⟩
      · show s.historyCount + 1 = (log.push (some command)).items.length
        rw [hitems, hcount, List.length_append, List.length_singleton]
    · rw [if_neg hp0, if_neg (by simpa using hp0)]
      rw [if_neg hp0, not_ne_iff.mp hp0] at hstored
      exact ⟨⟨held, hlog, hstored.of_concat_none⟩, hcount⟩
  · have hfull : log.items.length = maxHistory := by omega
    cases held with
    | nil =>
        rw [List.length_nil] at hlen
        exact absurd (hlen ▸ Nat.succ_pos 9) hroom
    | cons x rest =>
        rw [List.length_cons] at hlen
        have hnine : rest.length = maxHistory - 1 := by omega
        obtain ⟨p, -, hp, hstored⟩ := (hheld.drop_oldest (Nat.le_of_eq hnine)).store hcommand
        have hserved : s.served command = decide (p ≠ 0) := by
          unfold served
          rw [if_neg hroom, hp]
        rw [hnine] at hstored
        rw [if_neg hroom, if_neg hroom, hserved]
        -- what is entered takes the place of the first
        have hentry : ((if decide (p ≠ 0) then [some command] else [none]).foldl BoundedLog.push
            log).items = log.items.tail ++ [if p ≠ 0 then some command else none] := by
          by_cases hp0 : p ≠ 0
          · rw [if_pos (decide_eq_true hp0), if_pos hp0]
            exact BoundedLog.push_of_full hfull (by decide)
          · rw [if_neg (by simpa using hp0), if_neg hp0]
            exact BoundedLog.push_of_full hfull (by decide)
        refine ⟨⟨_, ?_, hstored⟩, ?_⟩
        · rw [hentry, ← hlog, List.map_append]
          rfl
        · show s.historyCount = _
          rw [hentry, List.length_append, List.length_tail, List.length_singleton, hfull]
          omega

theorem Keeps.all (h : s.Keeps log others mem bad) {commands : List (List UInt8)}
    (hcommands : ∀ c ∈ commands, 0 ∉ c) :
    (commands.foldl addToHistory s).Keeps ((s.entered commands).foldl BoundedLog.push log)
      others mem bad := by
  induction commands generalizing s log with
  | nil => exact h
  | cons c cs ih =>
      rw [entered, List.foldl_append]
      exact ih (h.add (hcommands c List.mem_cons_self)) fun d hd =>
        hcommands d (List.mem_cons_of_mem c hd)

theorem empty_keeps (heap : BlockHeap) (mem : Nat → UInt8) :
    (empty heap mem).Keeps (.empty _ maxHistory) heap.live mem heap.badFrees :=
  ⟨⟨[], rfl, trivial, List.forall_mem_nil _, List.forall_mem_nil _, .refl _,
    fun _ _ _ _ _ => rfl, rfl⟩, rfl⟩

end

end HistoryState

/-! ## The result -/

/-- What the slots of the history are: `entries`, in blocks of their own. -/
structure HistoryIs (s : HistoryState) (entries : List (Option (List UInt8))) (heap : BlockHeap)
    (mem : Nat → UInt8) : Prop where
  count : s.historyCount = entries.length
  null : ∀ i, entries[i]? = some none → s.commandHistory i = 0
  strings : ∀ i c, entries[i]? = some (some c) →
    s.commandHistory i ≠ 0 ∧ StringAt s.mem.val (s.commandHistory i) c
  blocks : ∃ held : List HistoryState.Slot, held.map Prod.snd = entries ∧
    held.map Prod.fst = (List.range entries.length).map s.commandHistory ∧
    s.heap.live.Perm (HistoryState.owned held ++ heap.live)
  badFrees : s.heap.badFrees = heap.badFrees
  untouched : ∀ b ∈ heap.live, ∀ a, b.1 ≤ a → a < b.1 + b.2 → s.mem.val a = mem a

theorem HistoryState.Keeps.historyIs {s : HistoryState}
    {log : BoundedLog (Option (List UInt8)) maxHistory} {heap : BlockHeap} {mem : Nat → UInt8}
    (h : s.Keeps log heap.live mem heap.badFrees) : HistoryIs s log.items heap mem := by
  obtain ⟨held, hlog, hheld⟩ := h.held
  have hslot : ∀ i e, log.items[i]? = some e → (s.commandHistory i, e) ∈ held := fun i e he => by
    rw [← hlog, List.getElem?_map, Option.map_eq_some_iff] at he
    obtain ⟨x, hx, rfl⟩ := he
    have hat := ListAt.iff_getElem?.mp hheld.slots i
      (by rw [List.length_map]; exact (List.getElem?_eq_some_iff.mp hx).1)
    rw [List.getElem?_map, hx, Nat.zero_add] at hat
    rw [← Option.some.inj hat]
    exact List.mem_of_getElem? hx
  refine ⟨h.count, fun i hi => hheld.null _ (hslot i none hi) rfl, fun i c hi => ⟨?_, ?_⟩,
    ⟨held, hlog, ?_, hheld.live⟩, hheld.badFrees, hheld.untouched⟩
  · have hmem := mem_owned (hslot i _ hi) rfl
    exact (s.heap.placed _ (hheld.live.mem_iff.mpr (List.mem_append_left _ hmem))).1
  · exact hheld.strings _ (hslot i _ hi) c rfl
  · have hlen : log.items.length = (held.map Prod.fst).length := by
      rw [← hlog, List.length_map, List.length_map]
    rw [hlen]
    exact hheld.slots.map_range.symm

/-- **The history is the end of the log.**  Whatever the heap answers, the slots hold the
last ten entries, each string in a block of its own; besides these blocks exactly those are
out that were out before, nothing has been given back that was not out, and what others
keep in their blocks has not changed. -/
theorem history_is_log (heap : BlockHeap) (mem : Nat → UInt8) (commands : List (List UInt8))
    (hcommands : ∀ c ∈ commands, 0 ∉ c) :
    HistoryIs (commands.foldl HistoryState.addToHistory (.empty heap mem))
      (((HistoryState.empty heap mem).entered commands).rtake maxHistory) heap mem := by
  have hkeeps := (HistoryState.empty_keeps heap mem).all hcommands
  have hitems := BoundedLog.pushAll_items (l := .empty _ maxHistory)
    ((HistoryState.empty heap mem).entered commands) (List.rtake_nil maxHistory).symm
  rw [List.nil_append] at hitems
  rw [← hitems]
  exact hkeeps.historyIs

theorem nothing_placed : ∀ b ∈ ([] : List (Nat × Nat)), Block.Placed b :=
  List.forall_mem_nil _

theorem nothing_apart : ([] : List (Nat × Nat)).Pairwise Block.Apart := .nil

/-- A heap that refuses every second request. -/
def everySecond : BlockHeap where
  propose i := if i % 2 = 0 then 1024 + 16 * i else 0
  live := []
  badFrees := 0
  placed := nothing_placed
  apart := nothing_apart

theorem history_is_log_everySecond :
    HistoryIs ((List.replicate 30 [0x6C, 0x73]).foldl HistoryState.addToHistory
        (.empty everySecond fun _ => 0))
      (((HistoryState.empty everySecond fun _ => 0).entered
        (List.replicate 30 [0x6C, 0x73])).rtake maxHistory) everySecond (fun _ => 0) :=
  history_is_log everySecond (fun _ => 0) (List.replicate 30 [0x6C, 0x73])
    fun c hc => by rw [List.eq_of_mem_replicate hc]; decide

end Shell

end KmOS
