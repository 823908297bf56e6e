/-
# `KmOS.Fs.Parent` — the directory that a new name goes into

`Filesystem::path_parent` has the loop of `path` over again, and stops where a
name is missing: it stores the name and returns the file that it looked in.
Where nothing is missing it comes to the end of the string and returns the file
that the whole path names.

The name is stored after its buffer was given back.  `freed n c` is what the
`n`-th buffer of the call, with the string `c` in it, reads as then.

**What is left out.**  `fname` is what is stored there, `none` if nothing is;
the buffer behind it is not in the model.  `link` has its buffer and its new
file: only the requests of the two searches can be refused.
-/
import KmOS.Fs.Leads
import KmOS.Fs.Children

namespace KmOS

/-! ## The code -/

namespace Filesystem

/-- The part of the loop of `path_parent` that acts on a name: what it returns,
with what it stores, or the next `fp`. -/
def enterParent (t : FileTree) (freed : List UInt8 → List UInt8) (fp : Nat) (name : List UInt8) :
    (Nat × Option (List UInt8)) ⊕ Nat :=
  if name = [dot, dot] then .inr (t.file fp).parent
  else if name = [dot] then .inr fp
  else
    let found := t.find fp name
    if found = 0 then .inl (fp, some (freed name)) else .inr (t.follow found)

/-- The loop of `path_parent`. -/
def pathParentLoop (p : List UInt8) (t : FileTree) :
    Nat → (Nat → Bool) → (Nat → List UInt8 → List UInt8) → Nat → Nat → Nat →
      Except Fault (Nat × Option (List UInt8))
  | 0, _, _, _, _, _ => .error .outOfRange
  | fuel + 1, heap, freed, fp, begP, endP => do
      let c ← charAt p begP
      if c = 0 then .ok (fp, none)
      else if fp = 0 then .error .nullDereference
      else if (t.file fp).type ≠ .directory then .ok (0, none)
      else
        let endP ← endOfName p (p.length + 1) endP
        if heap 0 = false then .error .nullDereference
        else if endP < begP then .error .outOfRange
        else
          match enterParent t (freed 0) fp ((p.drop begP).take (endP - begP)) with
          | .inl r => .ok r
          | .inr fp => do
              let begP ← skipSlashes p (p.length + 1) endP
              pathParentLoop p t fuel (fun n => heap (n + 1)) (fun n => freed (n + 1)) fp begP
                (endP + 1)

/-- `Filesystem::path_parent`. -/
def pathParent (fsm : Filesystem) (heap : Nat → Bool) (freed : Nat → List UInt8 → List UInt8)
    (p : Option CString) : Except Fault (Nat × Option (List UInt8)) :=
  match p with
  | none => .ok (0, none)
  | some p => do
      let begP ← skipSlashes p.chars (p.chars.length + 1) 0
      pathParentLoop p.chars fsm.tree (p.chars.length + 1) heap freed fsm.root begP 1

/-- `Filesystem::link`, to where it adds the child: the parent and the new file,
or `none` where it returns -1.  `fresh` is what the buffer for the name holds
before. -/
def link (fsm : Filesystem) (scan : Scan) (heap heap' : Nat → Bool)
    (freed : Nat → List UInt8 → List UInt8) (fresh : List UInt8) (fname newf : Option CString) :
    Except Fault (Option (Nat × File)) := do
  let (tolink, t) ← fsm.path scan heap fname
  if tolink = 0 then .ok none
  else
    let (parent, nname) ← { fsm with tree := t }.pathParent heap' freed newf
    if parent = 0 then .error .nullDereference
    else .ok (some (parent, { File.new (nname.getD fresh) .link with link := tolink }))

end Filesystem

/-! ## Paths without their last component -/

/-- An absolute path with a component, without `.` and `..` and without two
slashes together. -/
structure PlainPath (p : List UInt8) : Prop where
  absolute : p.head? = some slash
  component : names p ≠ []
  noDots : ∀ c ∈ names p, c ≠ [dot] ∧ c ≠ [dot, dot]
  noRun : ¬ [slash, slash] <:+: p

theorem PlainPath.names_eq {p : CString} (hp : PlainPath p.chars) :
    names p.chars = names p.directory.chars ++ [lastName p.chars] :=
  CString.names_directory hp.absolute hp.component

/-! ## From characters to tokens -/

/-- What the loop of `path_parent` does with the names: the state is what
`kmalloc` will answer, what the buffers will read as, and `fp`. -/
def parentScanner (t : FileTree) :
    Scanner ((Nat → Bool) × (Nat → List UInt8 → List UInt8) × Nat)
      (Nat × Option (List UInt8)) where
  finish := fun (_, _, fp) => (fp, none)
  stop := fun (_, _, fp) =>
    if fp = 0 then some (.error .nullDereference)
    else if (t.file fp).type ≠ .directory then some (.ok (0, none))
    else none
  granted := fun (heap, _, _) => heap 0
  act := fun (heap, freed, fp) c =>
    match Filesystem.enterParent t (freed 0) fp c with
    | .inl r => .inl r
    | .inr fp => .inr (fun n => heap (n + 1), fun n => freed (n + 1), fp)

theorem pathParentLoop_eq_loop {p : List UInt8} {t : FileTree} (fuel : Nat) (heap : Nat → Bool)
    (freed : Nat → List UInt8 → List UInt8) (fp begP endP : Nat) :
    Filesystem.pathParentLoop p t fuel heap freed fp begP endP =
      (parentScanner t).loop p fuel (heap, freed, fp) begP endP := by
  induction fuel generalizing heap freed fp begP endP with
  | zero => rfl
  | succ fuel ih =>
      unfold Filesystem.pathParentLoop Scanner.loop
      cases charAt p begP with
      | error e => rfl
      | ok c =>
          dsimp only [bind, Except.bind, parentScanner]
          by_cases hc : c = 0
          · rw [if_pos hc, if_pos hc]
          rw [if_neg hc, if_neg hc]
          by_cases hfp : fp = 0
          · rw [if_pos hfp, if_pos hfp]
          rw [if_neg hfp, if_neg hfp]
          by_cases ht : (t.file fp).type ≠ .directory
          · rw [if_pos ht, if_pos ht]
          rw [if_neg ht, if_neg ht]
          cases endOfName p (p.length + 1) endP with
          | error e => rfl
          | ok endP =>
              dsimp only
              by_cases hheap : heap 0 = false
              · exact (if_pos hheap).trans (if_pos hheap).symm
              refine (if_neg hheap).trans (Eq.trans ?_ (if_neg hheap).symm)
              by_cases hlt : endP < begP
              · rw [if_pos hlt, if_pos hlt]
              rw [if_neg hlt, if_neg hlt]
              cases Filesystem.enterParent t (freed 0) fp ((p.drop begP).take (endP - begP)) with
              | inl r => rfl
              | inr fp' =>
                  dsimp only
                  cases skipSlashes p (p.length + 1) endP with
                  | error e => rfl
                  | ok begP => exact ih _ _ fp' begP (endP + 1)

/-- `path_parent` starts at the root, whatever the string starts with. -/
theorem Filesystem.pathParent_eq_walk (fsm : Filesystem) (heap : Nat → Bool)
    (freed : Nat → List UInt8 → List UInt8) (p : CString) :
    fsm.pathParent heap freed (some p) =
      (parentScanner fsm.tree).walk (heap, freed, fsm.root) (tokens slash 0 p.chars) := by
  rw [← Scanner.scan_eq_walk]
  unfold Filesystem.pathParent
  dsimp only [bind, Except.bind]
  cases skipSlashes p.chars (p.chars.length + 1) 0 with
  | error e => rfl
  | ok begP => exact pathParentLoop_eq_loop _ heap freed fsm.root begP 1

/-! ## The parent of a name -/

namespace FileTree

variable (t : FileTree) (heap : Nat → Bool) (freed : Nat → List UInt8 → List UInt8) (fp : Nat)

/-- The directory `q` and the name `c`, or `NULL` if `q` is not a directory. -/
def Gives (q : Nat) (c : List UInt8) (r : Except Fault (Nat × Option (List UInt8))) : Prop :=
  ∃ d stored, r = .ok (d, stored) ∧
    if t.IsDirectory q then d = q ∧ stored = some c else d = 0

/-- The names lead through a file that is no directory. -/
def Blocked (l : List (List UInt8)) : Prop :=
  ∃ k ≤ l.length, t.leads fp (l.take k) ≠ 0 ∧ ¬ t.IsDirectory (t.leads fp (l.take k)) ∧
    ∀ i < k, heap i = true

/-- The names lead to a directory without a file `c`, there is memory for all of
them, and the buffer that held `c` still reads as `c`. -/
structure Vacant (l : List (List UInt8)) (c : List UInt8) : Prop where
  directory : t.IsDirectory (t.leads fp l)
  missing : ∀ f ∈ t.kids (t.leads fp l), (t.file f).name ≠ c
  kept : freed l.length c = c
  memory : ∀ i ≤ l.length, heap i = true

variable {t heap freed fp} {b c : List UInt8} {l : List (List UInt8)} {n : Nat}

/-- A directory does not stop the loop. -/
theorem parent_goes_on (h : t.IsDirectory fp) :
    (parentScanner t).stop (heap, freed, fp) = none := by
  refine (if_neg h.1).trans (if_neg ?_)
  exact fun hne => hne h.2

/-- One turn of the walk. -/
theorem parent_walk_cons {l : List (Nat × List UInt8)} (h : t.IsDirectory fp)
    (hheap : heap 0 = true) (hn : n ≤ 1) (hdot : c ≠ [dot]) (hdots : c ≠ [dot, dot]) :
    (parentScanner t).walk (heap, freed, fp) ((n, c) :: l) =
      match (t.kids fp).find? fun f => (t.file f).name = c with
      | none => .ok (fp, some (freed 0 c))
      | some f => (parentScanner t).walk (fun n => heap (n + 1), fun n => freed (n + 1), t.follow f)
          l := by
  rw [Scanner.walk_cons (parent_goes_on h) hheap hn]
  have hact : (parentScanner t).act (heap, freed, fp) c =
      match t.find fp c with
      | 0 => .inl (fp, some (freed 0 c))
      | f => .inr (fun n => heap (n + 1), fun n => freed (n + 1), t.follow f) := by
    dsimp only [parentScanner, Filesystem.enterParent]
    rw [if_neg hdots, if_neg hdot]
    cases t.find fp c with
    | zero => rfl
    | succ f => rfl
  rw [hact]
  cases hfind : (t.kids fp).find? fun f => (t.file f).name = c with
  | none =>
      rw [find_none hfind]
      rfl
  | some f =>
      obtain ⟨hf, hf0⟩ := find_some hfind
      rw [hf]
      cases f with
      | zero => exact absurd rfl hf0
      | succ f => rfl

/-! ### One name more -/

theorem blocked_nil : t.Blocked heap fp [] ↔ fp ≠ 0 ∧ ¬ t.IsDirectory fp := by
  constructor
  · rintro ⟨k, hk, h0, hd, -⟩
    rw [List.take_nil] at h0 hd
    exact ⟨h0, hd⟩
  · rintro ⟨h0, hd⟩
    exact ⟨0, Nat.le_refl 0, h0, hd, nofun⟩

theorem blocked_cons (h : t.IsDirectory fp) (hdot : b ≠ [dot]) (hdots : b ≠ [dot, dot]) :
    t.Blocked heap fp (b :: l) ↔ heap 0 = true ∧
      ∃ f, (t.kids fp).find? (fun f => (t.file f).name = b) = some f ∧
        t.Blocked (fun n => heap (n + 1)) (t.follow f) l := by
  constructor
  · rintro ⟨k, hk, h0, hd, hheap⟩
    cases k with
    | zero => exact absurd h hd
    | succ k =>
        rw [List.take_succ_cons, leads_cons h hdot hdots] at h0 hd
        refine ⟨hheap 0 (Nat.succ_pos k), ?_⟩
        cases hfind : (t.kids fp).find? fun f => (t.file f).name = b with
        | none =>
            rw [hfind] at h0
            exact absurd rfl h0
        | some f =>
            rw [hfind] at h0 hd
            exact ⟨f, rfl, k, Nat.le_of_succ_le_succ hk, h0, hd,
              fun i hi => hheap (i + 1) (Nat.succ_lt_succ hi)⟩
  · rintro ⟨hheap, f, hfind, k, hk, h0, hd, hrest⟩
    refine ⟨k + 1, Nat.succ_le_succ hk, ?_⟩
    rw [List.take_succ_cons, leads_cons h hdot hdots, hfind]
    refine ⟨h0, hd, fun i hi => ?_⟩
    cases i with
    | zero => exact hheap
    | succ i => exact hrest i (Nat.lt_of_succ_lt_succ hi)

theorem vacant_cons (h : t.IsDirectory fp) (hdot : b ≠ [dot]) (hdots : b ≠ [dot, dot]) :
    t.Vacant heap freed fp (b :: l) c ↔ heap 0 = true ∧
      ∃ f, (t.kids fp).find? (fun f => (t.file f).name = b) = some f ∧
        t.Vacant (fun n => heap (n + 1)) (fun n => freed (n + 1)) (t.follow f) l c := by
  constructor
  · rintro ⟨hdir, hmissing, hkept, hheap⟩
    rw [leads_cons h hdot hdots] at hdir hmissing
    refine ⟨hheap 0 (Nat.zero_le _), ?_⟩
    cases hfind : (t.kids fp).find? fun f => (t.file f).name = b with
    | none =>
        rw [hfind] at hdir
        exact absurd rfl hdir.1
    | some f =>
        rw [hfind] at hdir hmissing
        exact ⟨f, rfl, hdir, hmissing, hkept, fun i hi => hheap (i + 1) (Nat.succ_le_succ hi)⟩
  · rintro ⟨hheap, f, hfind, hdir, hmissing, hkept, hrest⟩
    have hleads := leads_cons (l := l) h hdot hdots
    rw [hfind] at hleads
    refine ⟨hleads ▸ hdir, hleads ▸ hmissing, hkept, fun i hi => ?_⟩
    cases i with
    | zero => exact hheap
    | succ i => exact hrest i (Nat.le_of_succ_le_succ hi)

/-! ### What the walk returns -/

theorem gives_null {q : Nat} (hq : ¬ t.IsDirectory q) (stored : Option (List UInt8)) :
    t.Gives q c (.ok (0, stored)) := by
  refine ⟨0, stored, rfl, ?_⟩
  rw [if_neg hq]

theorem not_gives_error {q : Nat} {e : Fault} : ¬ t.Gives q c (.error e) :=
  fun ⟨_, _, h, _⟩ => nomatch h

theorem gives_iff {q d : Nat} {stored : Option (List UInt8)} (hq : t.IsDirectory q) :
    t.Gives q c (.ok (d, stored)) ↔ d = q ∧ stored = some c := by
  constructor
  · rintro ⟨d', stored', h, hgives⟩
    cases h
    rwa [if_pos hq] at hgives
  · intro h
    refine ⟨d, stored, rfl, ?_⟩
    rwa [if_pos hq]

/-- The walk from what is no directory. -/
theorem parent_walk_stop {l : List (Nat × List UInt8)} (hl : l ≠ []) (h : ¬ t.IsDirectory fp) :
    (parentScanner t).walk (heap, freed, fp) l =
      if fp = 0 then .error .nullDereference else .ok (0, none) := by
  cases l with
  | nil => exact absurd rfl hl
  | cons x l =>
      unfold Scanner.walk
      have hstop : (parentScanner t).stop (heap, freed, fp) =
          some (if fp = 0 then .error .nullDereference else .ok (0, none)) := by
        by_cases hfp : fp = 0
        · rw [if_pos hfp]
          exact if_pos hfp
        · rw [if_neg hfp]
          exact (if_neg hfp).trans (if_pos fun ht => h ⟨hfp, ht⟩)
      rw [hstop]

theorem parent_walk_refused {l : List (Nat × List UInt8)} (hl : l ≠ []) (h : t.IsDirectory fp)
    (hheap : heap 0 = false) :
    (parentScanner t).walk (heap, freed, fp) l = .error .nullDereference := by
  cases l with
  | nil => exact absurd rfl hl
  | cons x l =>
      unfold Scanner.walk
      rw [parent_goes_on h]
      exact if_pos hheap

theorem leads_not_directory (h : ¬ t.IsDirectory fp) (l : List (List UInt8)) :
    ¬ t.IsDirectory (t.leads fp l) := by
  cases l with
  | nil => exact h
  | cons b l =>
      rw [leads_stop h]
      exact fun h0 => h0.1 rfl

/-- At a file that is no directory the way is blocked. -/
theorem blocked_or_vacant_stop (h : ¬ t.IsDirectory fp) :
    t.Blocked heap fp l ∨ t.Vacant heap freed fp l c ↔ fp ≠ 0 := by
  constructor
  · rintro (⟨k, -, h0, -⟩ | hvacant)
    · rintro rfl
      apply h0
      cases l.take k with
      | nil => rfl
      | cons b l => exact leads_stop h
    · exact absurd hvacant.directory (leads_not_directory h l)
  · intro hfp
    exact .inl ⟨0, Nat.zero_le _, hfp, h, nofun⟩

theorem not_blocked_or_vacant (h : t.IsDirectory fp) (hheap : heap 0 = false) :
    ¬ (t.Blocked heap fp l ∨ t.Vacant heap freed fp l c) := by
  rintro (⟨k, -, -, hd, hmem⟩ | hvacant)
  · cases k with
    | zero => exact hd h
    | succ k =>
        rw [hmem 0 (Nat.succ_pos k)] at hheap
        exact nomatch hheap
  · rw [hvacant.memory 0 (Nat.zero_le _)] at hheap
    exact nomatch hheap

theorem parent_walk_iff_of_stop (h : ¬ t.IsDirectory fp) {w : List (Nat × List UInt8)}
    (hw : w ≠ []) :
    t.Gives (t.leads fp l) c ((parentScanner t).walk (heap, freed, fp) w) ↔
      t.Blocked heap fp l ∨ t.Vacant heap freed fp l c := by
  rw [blocked_or_vacant_stop h, parent_walk_stop hw h]
  by_cases hfp : fp = 0
  · rw [if_pos hfp]
    exact ⟨fun hgives => absurd hgives not_gives_error, fun hne => absurd hfp hne⟩
  · rw [if_neg hfp]
    exact ⟨fun _ => hfp, fun _ => gives_null (leads_not_directory h l) none⟩

theorem parent_walk_iff_of_refused (h : t.IsDirectory fp) (hheap : heap 0 = false)
    {w : List (Nat × List UInt8)} (hw : w ≠ []) :
    t.Gives (t.leads fp l) c ((parentScanner t).walk (heap, freed, fp) w) ↔
      t.Blocked heap fp l ∨ t.Vacant heap freed fp l c := by
  rw [parent_walk_refused hw h hheap]
  exact ⟨fun hgives => absurd hgives not_gives_error,
    fun hor => absurd hor (not_blocked_or_vacant h hheap)⟩

/-- **The walk gives the parent exactly if the way is blocked or the place is vacant.** -/
theorem parent_walk_iff (l : List (Nat × List UInt8)) (hn : n ≤ 1) (hc : c ≠ [dot] ∧ c ≠ [dot, dot])
    (hl : ∀ x ∈ l, x.1 ≤ 1 ∧ x.2 ≠ [dot] ∧ x.2 ≠ [dot, dot]) :
    t.Gives (t.leads fp (l.map Prod.snd)) c
        ((parentScanner t).walk (heap, freed, fp) (l ++ [(n, c)])) ↔
      t.Blocked heap fp (l.map Prod.snd) ∨ t.Vacant heap freed fp (l.map Prod.snd) c := by
  induction l generalizing heap freed fp with
  | nil =>
      by_cases hdir : t.IsDirectory fp
      swap
      · exact parent_walk_iff_of_stop hdir (List.cons_ne_nil _ _)
      cases hheap : heap 0 with
      | false => exact parent_walk_iff_of_refused hdir hheap (List.cons_ne_nil _ _)
      | true =>
          have hblocked : ¬ t.Blocked heap fp [] := fun h => (blocked_nil.mp h).2 hdir
          rw [List.nil_append, parent_walk_cons hdir hheap hn hc.1 hc.2, List.map_nil, leads_nil,
            or_iff_right hblocked]
          cases hfind : (t.kids fp).find? fun f => (t.file f).name = c with
          | none =>
              rw [gives_iff hdir]
              have hmissing : ∀ f ∈ t.kids fp, (t.file f).name ≠ c := by
                simpa using List.find?_eq_none.mp hfind
              constructor
              · rintro ⟨-, hkept⟩
                refine ⟨hdir, hmissing, Option.some.inj hkept, fun i hi => ?_⟩
                obtain rfl := Nat.le_zero.mp hi
                exact hheap
              · intro hvacant
                exact ⟨rfl, congrArg some hvacant.kept⟩
          | some f =>
              -- the name is there, and the walk ends at its file
              refine iff_of_false (fun h => nomatch ((gives_iff hdir).mp h).2) fun hvacant => ?_
              have hname := List.find?_some hfind
              exact hvacant.missing f (List.mem_of_find?_eq_some hfind) (of_decide_eq_true hname)
  | cons x l ih =>
      obtain ⟨m, b⟩ := x
      obtain ⟨hm, hdot, hdots⟩ := hl (m, b) List.mem_cons_self
      by_cases hdir : t.IsDirectory fp
      swap
      · exact parent_walk_iff_of_stop hdir (List.cons_ne_nil _ _)
      cases hheap : heap 0 with
      | false => exact parent_walk_iff_of_refused hdir hheap (List.cons_ne_nil _ _)
      | true =>
          rw [List.cons_append, parent_walk_cons hdir hheap hm hdot hdots, List.map_cons,
            leads_cons hdir hdot hdots, blocked_cons hdir hdot hdots, vacant_cons hdir hdot hdots]
          cases hfind : (t.kids fp).find? fun f => (t.file f).name = b with
          | none =>
              -- a directory on the way is missing, and what it is missing from is returned
              refine iff_of_false ?_ ?_
              · rintro ⟨d, stored, hd, hnull⟩
                cases hd
                rw [if_neg fun h0 => h0.1 rfl] at hnull
                exact hdir.1 hnull
              · rintro (⟨-, f, hf, -⟩ | ⟨-, f, hf, -⟩)
                · exact nomatch hf
                · exact nomatch hf
          | some f =>
              have hrest := @ih (fun n => heap (n + 1)) (fun n => freed (n + 1)) (t.follow f)
                fun x hx => hl x (List.mem_cons_of_mem _ hx)
              dsimp only
              rw [hrest]
              constructor
              · rintro (h | h)
                · exact .inl ⟨hheap, f, rfl, h⟩
                · exact .inr ⟨hheap, f, rfl, h⟩
              · rintro (⟨-, g, hg, h⟩ | ⟨-, g, hg, h⟩)
                · obtain rfl := Option.some.inj hg
                  exact .inl h
                · obtain rfl := Option.some.inj hg
                  exact .inr h

end FileTree

/-! ## The result -/

/-- The tokens of the path are those of its directory, and one. -/
theorem PlainPath.tokens_eq {p : CString} (hp : PlainPath p.chars) :
    ∃ l n, tokens slash 0 p.chars = l ++ [(n, lastName p.chars)] ∧
      l.map Prod.snd = names p.directory.chars ∧ n ≤ 1 ∧
      ∀ x ∈ l, x.1 ≤ 1 ∧ x.2 ≠ [dot] ∧ x.2 ≠ [dot, dot] := by
  have hnames : (tokens slash 0 p.chars).map Prod.snd =
      names p.directory.chars ++ [lastName p.chars] := by
    rw [tokens_snd, ← hp.names_eq]
    rfl
  obtain ⟨l, r, hlr, hl, hr⟩ := List.map_eq_append_iff.mp hnames
  obtain ⟨⟨n, c⟩, rfl, rfl⟩ := List.map_eq_singleton_iff.mp hr
  have hone := tokens_le_one (Nat.zero_le 1) hp.noRun
  rw [hlr] at hone
  refine ⟨l, n, hlr, hl, ?_, fun x hx => ⟨?_, ?_⟩⟩
  · exact hone _ (List.mem_append_right _ List.mem_cons_self)
  · exact hone x (List.mem_append_left _ hx)
  · refine hp.noDots x.2 ?_
    rw [hp.names_eq, ← hl]
    exact List.mem_append_left _ (List.mem_map_of_mem hx)

namespace Filesystem

variable (fsm : Filesystem) (heap : Nat → Bool) (freed : Nat → List UInt8 → List UInt8)

/-- `path_parent` returns what `path` gives for the string without its last
component, and stores that component, if this is a directory; if not, it
returns `NULL`. -/
def AgreesWithPath (p : CString) : Prop :=
  ∃ q t, fsm.path File.scan (fun _ => true) (some p.directory) = .ok (q, t) ∧
    fsm.tree.Gives q (lastName p.chars) (fsm.pathParent heap freed (some p))

variable {fsm heap freed}

/-- What `path` gives for the directory. -/
theorem path_directory {p : CString} (hp : PlainPath p.chars) (hroot : fsm.root ≠ 0) :
    ∃ t, fsm.path File.scan (fun _ => true) (some p.directory) =
      .ok (fsm.tree.leads fsm.root (names p.directory.chars), t) := by
  have hstart : fsm.start p.directory.chars = fsm.root :=
    if_pos (CString.directory_absolute hp.absolute hp.component)
  have hpass : Passable File.scan (fun _ => true) fsm.tree (fsm.start p.directory.chars)
      (tokens slash 0 p.directory.chars) := by
    rw [hstart]
    refine FileTree.passable_plain hroot _ fun x hx => ⟨?_, hp.noDots x.2 ?_⟩
    · exact tokens_le_one (Nat.zero_le 1) (fun h => hp.noRun (h.trans p.directory_prefix.isInfix))
        x hx
    · rw [hp.names_eq]
      refine List.mem_append_left _ ?_
      rw [names_eq_pieces, pieces, ← tokens_snd 0]
      exact List.mem_map_of_mem hx
  obtain ⟨t, ht⟩ := (fsm.path_resolves_iff File.scan (fun _ => true) p.directory).mpr hpass
  refine ⟨t, ht.trans ?_⟩
  unfold Filesystem.resolve
  rw [hstart]
  rfl

/-- `path_parent` gives the parent that the names lead to. -/
theorem pathParent_gives_iff {p : CString} (hp : PlainPath p.chars) :
    fsm.tree.Gives (fsm.tree.leads fsm.root (names p.directory.chars)) (lastName p.chars)
        (fsm.pathParent heap freed (some p)) ↔
      fsm.tree.Blocked heap fsm.root (names p.directory.chars) ∨
        fsm.tree.Vacant heap freed fsm.root (names p.directory.chars) (lastName p.chars) := by
  obtain ⟨l, n, htok, hl, hn, hplain⟩ := hp.tokens_eq
  have hc : lastName p.chars ≠ [dot] ∧ lastName p.chars ≠ [dot, dot] := by
    refine hp.noDots _ ?_
    rw [hp.names_eq]
    exact List.mem_append_right _ List.mem_cons_self
  rw [pathParent_eq_walk, htok, ← hl]
  exact FileTree.parent_walk_iff l hn hc hplain

theorem pathParent_no_root {p : CString} (hp : PlainPath p.chars) (hroot : fsm.root = 0) :
    fsm.pathParent heap freed (some p) = .error .nullDereference := by
  obtain ⟨l, n, htok, -⟩ := hp.tokens_eq
  have hne : l ++ [(n, lastName p.chars)] ≠ [] := by simp
  rw [pathParent_eq_walk, htok, hroot, FileTree.parent_walk_stop hne fun h => h.1 rfl]
  exact if_pos rfl

/-- **`path_parent` agrees with `path`** exactly if the way to the directory is
blocked by a file, or the directory is there, the last component is not, and
the buffer that was given back still holds it. -/
theorem pathParent_agrees_iff (p : CString) (hp : PlainPath p.chars) :
    fsm.AgreesWithPath heap freed p ↔
      fsm.tree.Blocked heap fsm.root (names p.directory.chars) ∨
        fsm.tree.Vacant heap freed fsm.root (names p.directory.chars) (lastName p.chars) := by
  rw [← pathParent_gives_iff hp]
  by_cases hroot : fsm.root = 0
  · -- without a root `path_parent` dereferences a null pointer, whatever `path` does
    have herr : fsm.pathParent heap freed (some p) = .error .nullDereference :=
      pathParent_no_root hp hroot
    rw [herr]
    refine iff_of_false ?_ FileTree.not_gives_error
    rintro ⟨q, t, -, hgives⟩
    rw [herr] at hgives
    exact FileTree.not_gives_error hgives
  obtain ⟨t, ht⟩ := path_directory hp hroot
  constructor
  · rintro ⟨q, t', hq, hgives⟩
    obtain ⟨rfl, -⟩ := Prod.mk.inj (Except.ok.inj (ht.symm.trans hq))
    exact hgives
  · intro hgives
    exact ⟨_, t, ht, hgives⟩

/-- `/dev`, `/x` and `/x/y`. -/
def slashDev : CString := ⟨[slash, 100, 101, 118], by decide⟩
def slashX : CString := ⟨[slash, 120], by decide⟩
def slashXY : CString := ⟨[slash, 120, slash, 121], by decide⟩

theorem slashX_plain : PlainPath slashX.chars :=
  ⟨rfl, by decide +kernel, by decide +kernel, by decide +kernel⟩

/-- On the tree with `/dev` alone the buffers keep what they hold, and `/x` is found
to go into the root. -/
theorem pathParent_agrees_x : smallFs.AgreesWithPath (fun _ => true) (fun _ c => c) slashX := by
  have hdir : smallFs.tree.leads smallFs.root (names slashX.directory.chars) = 1 := by
    decide +kernel
  refine (pathParent_agrees_iff slashX slashX_plain).mpr (.inr ⟨?_, ?_, rfl, fun _ _ => rfl⟩)
  · rw [hdir]
    decide +kernel
  · rw [hdir]
    decide +kernel

/-- The parent of `/dev` is said to be `/dev`, with no name, and that of `/x/y`, for
which there is no directory, the root with the name `x`. -/
theorem pathParent_disagrees :
    (PlainPath slashDev.chars ∧
      smallFs.pathParent (fun _ => true) (fun _ c => c) (some slashDev) = .ok (2, none) ∧
      ¬ smallFs.AgreesWithPath (fun _ => true) (fun _ c => c) slashDev) ∧
    (PlainPath slashXY.chars ∧
      smallFs.pathParent (fun _ => true) (fun _ c => c) (some slashXY) = .ok (1, some [120]) ∧
      ¬ smallFs.AgreesWithPath (fun _ => true) (fun _ c => c) slashXY) := by
  refine ⟨⟨⟨rfl, by decide +kernel, by decide +kernel, by decide +kernel⟩, rfl, ?_⟩,
    ⟨⟨rfl, by decide +kernel, by decide +kernel, by decide +kernel⟩, rfl, ?_⟩⟩
  · rintro ⟨q, t, hq, d, stored, hd, hgives⟩
    have hpath : smallFs.path File.scan (fun _ => true) (some slashDev.directory) =
        .ok (1, smallTree) := rfl
    obtain ⟨rfl, -⟩ := Prod.mk.inj (Except.ok.inj (hpath.symm.trans hq))
    have hparent : smallFs.pathParent (fun _ => true) (fun _ c => c) (some slashDev) =
        .ok (2, none) := rfl
    obtain ⟨rfl, -⟩ := Prod.mk.inj (Except.ok.inj (hparent.symm.trans hd))
    rw [if_pos (by decide +kernel)] at hgives
    exact nomatch hgives.1
  · rintro ⟨q, t, hq, d, stored, hd, hgives⟩
    have hpath : smallFs.path File.scan (fun _ => true) (some slashXY.directory) =
        .ok (0, smallTree) := rfl
    obtain ⟨rfl, -⟩ := Prod.mk.inj (Except.ok.inj (hpath.symm.trans hq))
    have hparent : smallFs.pathParent (fun _ => true) (fun _ c => c) (some slashXY) =
        .ok (1, some [120]) := rfl
    obtain ⟨rfl, -⟩ := Prod.mk.inj (Except.ok.inj (hparent.symm.trans hd))
    rw [if_neg (by decide +kernel)] at hgives
    exact nomatch hgives

/-- So `link` adds its entry to the directory, with the name, where this is vacant. -/
theorem link_enters {p : CString} (hp : PlainPath p.chars) {fname : Option CString}
    {heap' : Nat → Bool} {fresh : List UInt8} {tolink : Nat}
    (hlink : fsm.path File.scan heap' fname = .ok (tolink, fsm.tree)) (h0 : tolink ≠ 0)
    (hvacant : fsm.tree.Vacant heap freed fsm.root (names p.directory.chars) (lastName p.chars)) :
    fsm.link File.scan heap' heap freed fresh fname (some p) =
      .ok (some (fsm.tree.leads fsm.root (names p.directory.chars),
        { File.new (lastName p.chars) .link with link := tolink })) := by
  obtain ⟨d, stored, hd, hgives⟩ := (pathParent_gives_iff hp).mpr (.inr hvacant)
  rw [if_pos hvacant.directory] at hgives
  obtain ⟨rfl, rfl⟩ := hgives
  unfold Filesystem.link
  rw [hlink]
  dsimp only [bind, Except.bind]
  rw [if_neg h0, hd]
  exact if_neg hvacant.directory.1

end Filesystem

end KmOS
