/-
# `KmOS.Fs.Path` — what `Filesystem::path` finds

The loop of `path` is compared with `walk`, which goes through the tokens of
the string instead of its characters and faults where the code does; both are
those of one scanner (`pathScanner`).

`walk` and the resolution of the names agree exactly on the paths that never
run into this, into `..` at a file without a parent, into a missing current
directory, or into a failed allocation.
-/
import KmOS.Fs.Scanner

namespace KmOS

variable {p : List UInt8}

/-! ## `find` -/

namespace FileTree

variable {t : FileTree}

theorem findLoop_eq {n : List UInt8} {fuel fp : Nat} {l : List Nat}
    (hl : Sll 0 (fun f => (t.file f).next) fp l) (hf : l.length < fuel) :
    t.findLoop n fuel fp = (l.find? fun f => (t.file f).name = n).getD 0 := by
  refine hl.search (f := t.findLoop n) (g := id) hf (fun _ => if_pos rfl) ?_
  intro fuel f _ hf0
  simp only [decide_eq_true_eq]
  exact if_neg hf0

/-- `find` looks through the children. -/
theorem find_eq (d : Nat) (n : List UInt8) :
    t.find d n = ((t.kids d).find? fun f => (t.file f).name = n).getD 0 :=
  findLoop_eq (t.linked d) (t.short d)

theorem kids_ne_zero {d f : Nat} (hf : f ∈ t.kids d) : f ≠ 0 := (t.linked d).ne_null f hf

theorem find_none {d : Nat} {n : List UInt8}
    (h : (t.kids d).find? (fun f => (t.file f).name = n) = none) : t.find d n = 0 := by
  rw [find_eq, h]
  rfl

theorem find_some {d f : Nat} {n : List UInt8}
    (h : (t.kids d).find? (fun f => (t.file f).name = n) = some f) :
    t.find d n = f ∧ f ≠ 0 := by
  refine ⟨?_, kids_ne_zero (List.mem_of_find?_eq_some h)⟩
  rw [find_eq, h]
  rfl

end FileTree

/-! ## From characters to tokens -/

section
variable (scan : Scan)

/-- The loop of `path`, token by token. -/
def walk : (Nat → Bool) → FileTree → Nat → List (Nat × List UInt8) → Except Fault (Nat × FileTree)
  | _, t, fp, [] => .ok (fp, t)
  | heap, t, fp, (n, c) :: l =>
      if fp = 0 then .error .nullDereference
      else if (t.file fp).type ≠ .directory then .ok (0, t)
      else if heap 0 = false then .error .nullDereference
      else if 2 ≤ n then .error .outOfRange
      else
        match Filesystem.enter scan t fp c with
        | (none, t) => .ok (0, t)
        | (some fp, t) => walk (fun n => heap (n + 1)) t fp l

/-- What the loop of `path` does with the names: the state is what `kmalloc` will
answer, the tree and `fp`. -/
def pathScanner : Scanner ((Nat → Bool) × FileTree × Nat) (Nat × FileTree) where
  finish := fun (_, t, fp) => (fp, t)
  stop := fun (_, t, fp) =>
    if fp = 0 then some (.error .nullDereference)
    else if (t.file fp).type ≠ .directory then some (.ok (0, t))
    else none
  granted := fun (heap, _, _) => heap 0
  act := fun (heap, t, fp) c =>
    match Filesystem.enter scan t fp c with
    | (none, t) => .inl (0, t)
    | (some fp, t) => .inr (fun n => heap (n + 1), t, fp)

variable {scan}

theorem pathLoop_eq_loop (fuel : Nat) (heap : Nat → Bool) (t : FileTree) (fp begP endP : Nat) :
    Filesystem.pathLoop scan p fuel heap t fp begP endP =
      (pathScanner scan).loop p fuel (heap, t, fp) begP endP := by
  induction fuel generalizing heap t fp begP endP with
  | zero => rfl
  | succ fuel ih =>
      unfold Filesystem.pathLoop Scanner.loop
      cases charAt p begP with
      | error e => rfl
      | ok c =>
          dsimp only [bind, Except.bind, pathScanner]
          by_cases hc : c = 0
          · rw [if_pos hc, if_pos hc]
          rw [if_neg hc, if_neg hc]
          by_cases hfp : fp = 0
          · rw [if_pos hfp, if_pos hfp]
          rw [if_neg hfp, if_neg hfp]
          by_cases ht : (t.file fp).type ≠ .directory
          · rw [if_pos ht, if_pos ht]
          rw [if_neg ht, if_neg ht]
          cases endOfName p (p.length + 1) endP with
          | error e => rfl
          | ok endP =>
              dsimp only
              by_cases hheap : heap 0 = false
              · exact (if_pos hheap).trans (if_pos hheap).symm
              refine (if_neg hheap).trans (Eq.trans ?_ (if_neg hheap).symm)
              by_cases hlt : endP < begP
              · rw [if_pos hlt, if_pos hlt]
              rw [if_neg hlt, if_neg hlt]
              cases Filesystem.enter scan t fp ((p.drop begP).take (endP - begP)) with
              | mk fp' t' =>
                  cases fp' with
                  | none => rfl
                  | some fp' =>
                      dsimp only
                      cases skipSlashes p (p.length + 1) endP with
                      | error e => rfl
                      | ok begP => exact ih _ t' fp' begP (endP + 1)

theorem walk_eq (heap : Nat → Bool) (t : FileTree) (fp : Nat) (l : List (Nat × List UInt8)) :
    walk scan heap t fp l = (pathScanner scan).walk (heap, t, fp) l := by
  induction l generalizing heap t fp with
  | nil => rfl
  | cons x l ih =>
      obtain ⟨n, c⟩ := x
      unfold walk Scanner.walk
      dsimp only [pathScanner]
      by_cases hfp : fp = 0
      · rw [if_pos hfp, if_pos hfp]
      rw [if_neg hfp, if_neg hfp]
      by_cases ht : (t.file fp).type ≠ .directory
      · rw [if_pos ht, if_pos ht]
      rw [if_neg ht, if_neg ht]
      by_cases hheap : heap 0 = false
      · exact (if_pos hheap).trans (if_pos hheap).symm
      refine (if_neg hheap).trans (Eq.trans ?_ (if_neg hheap).symm)
      by_cases hn : 2 ≤ n
      · rw [if_pos hn, if_pos hn]
      rw [if_neg hn, if_neg hn]
      cases Filesystem.enter scan t fp c with
      | mk fp' t' =>
          cases fp' with
          | none => rfl
          | some fp' => exact ih _ t' fp'

/-! ## From tokens to names -/

variable (scan)

/-- What the walk needs to go on: a file to look in and, where that is a
directory, memory for the name, no second slash before it, and a parent if the
name is `..`. -/
def Passable : (Nat → Bool) → FileTree → Nat → List (Nat × List UInt8) → Prop
  | _, _, _, [] => True
  | heap, t, fp, (n, c) :: l =>
      fp ≠ 0 ∧ ((t.file fp).type = .directory →
        heap 0 = true ∧ n ≤ 1 ∧
        (c = [dot] → Passable (fun n => heap (n + 1)) t fp l) ∧
        (c = [dot, dot] → (t.file fp).parent ≠ 0 ∧
          Passable (fun n => heap (n + 1)) t (t.file fp).parent l) ∧
        (c ≠ [dot] → c ≠ [dot, dot] → ∀ f,
          ((scan t fp).kids fp).find? (fun f => ((scan t fp).file f).name = c) = some f →
          Passable (fun n => heap (n + 1)) (scan t fp) ((scan t fp).follow f) l))

variable {scan} {heap : Nat → Bool} {t : FileTree} {fp n : Nat} {c : List UInt8}
  {l : List (Nat × List UInt8)}

/-- From nowhere there is no way. -/
theorem walk_null (h : l ≠ []) : walk scan heap t 0 l = .error .nullDereference := by
  cases l with
  | nil => exact absurd rfl h
  | cons x l => exact if_pos rfl

/-- The walk from a directory. -/
theorem walk_cons (hfp : fp ≠ 0) (ht : (t.file fp).type = .directory) (hheap : heap 0 = true)
    (hn : n ≤ 1) :
    walk scan heap t fp ((n, c) :: l) =
      match Filesystem.enter scan t fp c with
      | (none, t) => .ok (0, t)
      | (some fp, t) => walk scan (fun n => heap (n + 1)) t fp l := by
  conv => lhs; unfold walk
  rw [if_neg hfp, if_neg (fun h => h ht), if_neg (by rw [hheap]; decide), if_neg (by omega)]

theorem resolve_cons (hfp : fp ≠ 0) (ht : (t.file fp).type = .directory) (l : List (List UInt8)) :
    t.resolve scan fp (c :: l) =
      if c = [dot] then t.resolve scan fp l
      else if c = [dot, dot] then
        t.resolve scan (if (t.file fp).parent = 0 then fp else (t.file fp).parent) l
      else
        match ((scan t fp).kids fp).find? fun f => ((scan t fp).file f).name = c with
        | none => (0, scan t fp)
        | some f => (scan t fp).resolve scan ((scan t fp).follow f) l := by
  refine if_neg ?_
  rintro (h | h)
  · exact hfp h
  · exact h ht

/-- **The walk goes where the names lead exactly if it is passable.** -/
theorem walk_iff (l : List (Nat × List UInt8)) :
    (∃ t', walk scan heap t fp l = .ok ((t.resolve scan fp (l.map Prod.snd)).1, t')) ↔
      Passable scan heap t fp l := by
  induction l generalizing heap t fp with
  | nil => exact ⟨fun _ => True.intro, fun _ => ⟨t, rfl⟩⟩
  | cons x l ih =>
      obtain ⟨n, c⟩ := x
      unfold Passable
      by_cases hfp : fp = 0
      · subst hfp
        rw [walk_null (List.cons_ne_nil _ _)]
        exact ⟨fun ⟨_, h⟩ => (nomatch h), fun h => absurd rfl h.1⟩
      by_cases ht : (t.file fp).type = .directory
      swap
      · have hw : walk scan heap t fp ((n, c) :: l) = .ok (0, t) := by
          conv => lhs; unfold walk
          rw [if_neg hfp, if_pos ht]
        have hr : t.resolve scan fp (((n, c) :: l).map Prod.snd) = (0, t) := if_pos (Or.inr ht)
        rw [hw, hr]
        exact ⟨fun _ => ⟨hfp, fun h => absurd h ht⟩, fun _ => ⟨t, rfl⟩⟩
      by_cases hheap : heap 0 = true
      swap
      · have hw : walk scan heap t fp ((n, c) :: l) = .error .nullDereference := by
          conv => lhs; unfold walk
          rw [if_neg hfp, if_neg (fun h => h ht), if_pos (by simpa using hheap)]
        rw [hw]
        exact ⟨fun ⟨_, h⟩ => (nomatch h), fun h => absurd (h.2 ht).1 hheap⟩
      by_cases hn : n ≤ 1
      swap
      · have hw : walk scan heap t fp ((n, c) :: l) = .error .outOfRange := by
          conv => lhs; unfold walk
          rw [if_neg hfp, if_neg (fun h => h ht), if_neg (by rw [hheap]; decide),
            if_pos (by omega)]
        rw [hw]
        exact ⟨fun ⟨_, h⟩ => (nomatch h), fun h => absurd (h.2 ht).2.1 hn⟩
      rw [walk_cons hfp ht hheap hn, List.map_cons, resolve_cons hfp ht]
      unfold Filesystem.enter
      by_cases hdots : c = [dot, dot]
      · -- the parent
        have hdot : c ≠ [dot] := by
          rw [hdots]
          decide
        rw [if_pos hdots, if_neg hdot, if_pos hdots]
        dsimp only
        by_cases hparent : (t.file fp).parent = 0
        · rw [hparent, if_pos rfl]
          refine ⟨fun ⟨t', h⟩ => ?_, fun h => absurd rfl ((h.2 ht).2.2.2.1 hdots).1⟩
          cases l with
          | nil => exact absurd (congrArg Prod.fst (Except.ok.inj h)).symm hfp
          | cons y l =>
              rw [walk_null (List.cons_ne_nil _ _)] at h
              exact nomatch h
        · rw [if_neg hparent, ih]
          exact ⟨fun h => ⟨hfp, fun _ => ⟨hheap, hn, fun e => absurd e hdot, fun _ => ⟨hparent, h⟩,
            fun _ e => absurd hdots e⟩⟩, fun h => ((h.2 ht).2.2.2.1 hdots).2⟩
      rw [if_neg hdots]
      by_cases hdot : c = [dot]
      · -- the directory itself
        rw [if_pos hdot, if_pos hdot]
        dsimp only
        rw [ih]
        exact ⟨fun h => ⟨hfp, fun _ => ⟨hheap, hn, fun _ => h, fun e => absurd e hdots,
          fun e => absurd hdot e⟩⟩, fun h => (h.2 ht).2.2.1 hdot⟩
      -- a child
      rw [if_neg hdot, if_neg hdot, if_neg hdots]
      dsimp only
      cases hfind : ((scan t fp).kids fp).find? fun f => ((scan t fp).file f).name = c with
      | none =>
          rw [FileTree.find_none hfind, if_pos rfl]
          exact ⟨fun _ => ⟨hfp, fun _ => ⟨hheap, hn, fun e => absurd e hdot,
            fun e => absurd e hdots, fun _ _ f hf => nomatch hf⟩⟩, fun _ => ⟨_, rfl⟩⟩
      | some f =>
          obtain ⟨hf, hf0⟩ := FileTree.find_some hfind
          rw [hf, if_neg hf0]
          dsimp only
          rw [ih]
          refine ⟨fun h => ⟨hfp, fun _ => ⟨hheap, hn, fun e => absurd e hdot,
            fun e => absurd e hdots, fun _ _ g hg => ?_⟩⟩, fun h => (h.2 ht).2.2.2.2 hdot hdots f rfl⟩
          obtain rfl := Option.some.inj hg
          exact h

end

/-! ## The result -/

namespace Filesystem

variable (fsm : Filesystem) (scan : Scan) (heap : Nat → Bool)

/-- `path` starts the walk at the root or the current directory. -/
theorem path_eq_walk (p : CString) :
    fsm.path scan heap (some p) =
      walk scan heap fsm.tree (fsm.start p.chars) (tokens slash 0 p.chars) := by
  have hstart : (if (p.chars.drop 0).headD 0 ≠ slash then fsm.currentDir.getD fsm.root
      else fsm.root) = fsm.start p.chars := by
    unfold Filesystem.start
    rw [List.drop_zero]
    cases hc : p.chars with
    | nil => rfl
    | cons a l =>
        by_cases ha : a = slash
        · subst ha
          rfl
        · rw [if_pos (show (a :: l).headD 0 ≠ slash from ha),
            if_neg (show (a :: l).head? ≠ some slash from fun e => ha (Option.some.inj e))]
  rw [walk_eq, ← Scanner.scan_eq_walk]
  unfold Filesystem.path
  dsimp only
  rw [charAt_drop (Nat.zero_le _) rfl]
  dsimp only [bind, Except.bind]
  rw [hstart]
  cases skipSlashes p.chars (p.chars.length + 1) 0 with
  | error e => rfl
  | ok begP => exact pathLoop_eq_loop _ heap fsm.tree _ begP 1

/-- **Path resolution**: `path` commits no fault and finds what the names lead
to, exactly if the way is passable. -/
theorem path_resolves_iff (p : CString) :
    (∃ t, fsm.path scan heap (some p) = .ok ((fsm.resolve scan p.chars).1, t)) ↔
      Passable scan heap fsm.tree (fsm.start p.chars) (tokens slash 0 p.chars) := by
  rw [path_eq_walk, ← walk_iff, tokens_snd]
  rfl

end Filesystem

/-! ## Two slashes, and the parent of the root -/

/-- The root at 1 with the directory `dev` at 2. -/
def smallTree : FileTree where
  file := fun f =>
    if f = 1 then { name := [slash], type := .directory, child := 2 }
    else { name := [100, 101, 118], type := .directory, parent := 1 }
  kids := fun d => if d = 1 then [2] else []
  linked := by
    intro d
    by_cases hd : d = 1
    · simp [hd, Sll]
    · simp [hd, Sll]
  short := by
    intro d
    by_cases hd : d = 1
    · simp [hd, turns, wordSize]
    · simp [hd, turns, wordSize]

def smallFs : Filesystem := { tree := smallTree, root := 1, currentDir := none }

/-- What `path` returns on `smallFs`, where directories need no `scan()`. -/
def smallPath (p : CString) : Except Fault Nat :=
  (smallFs.path (fun t _ => t) (fun _ => true) (some p)).map Prod.fst

def smallResolve (p : CString) : Nat := (smallFs.resolve (fun t _ => t) p.chars).1

def slashSlashDev : CString := ⟨[slash, slash, 100, 101, 118], by decide⟩
def dotDot : CString := ⟨[dot, dot], by decide⟩
def dotDotDev : CString := ⟨[dot, dot, slash, 100, 101, 118], by decide⟩

/-- `//dev` stores outside a buffer, `..` at the root is `NULL` and `../dev`
dereferences it; `dev`, the root and `dev` are meant. -/
theorem path_leaves_the_tree :
    (smallPath slashSlashDev = .error .outOfRange ∧ smallResolve slashSlashDev = 2) ∧
    (smallPath dotDot = .ok 0 ∧ smallResolve dotDot = 1) ∧
    (smallPath dotDotDev = .error .nullDereference ∧ smallResolve dotDotDev = 2) := by
  refine ⟨⟨rfl, ?_⟩, ⟨rfl, ?_⟩, ⟨rfl, ?_⟩⟩
  · decide +kernel
  · decide +kernel
  · decide +kernel

end KmOS
