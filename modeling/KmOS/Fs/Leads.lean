/-
# `KmOS.Fs.Leads` — where names lead in a tree that is loaded

Where `scan()` finds nothing more to do the tree stays as it is, and what a path
names is decided by the tree alone (`FileTree.leads`).  A walk that finds a file
has found that one, and so has the walk along any part of it from the start.
-/
import KmOS.Fs.Path
import Mathlib.Data.List.DropRight

namespace KmOS

/-- `File::scan`: nothing to do, of a file of the kernel itself. -/
def File.scan : Scan := fun t _ => t

/-! ## The last component -/

/-- The string up to the slash in front of its last component. -/
def CString.directory (p : CString) : CString where
  chars := (p.chars.rdropWhile (· = slash)).rdropWhile (· ≠ slash)
  noNul h := p.noNul (((List.rdropWhile_prefix _ _).trans (List.rdropWhile_prefix _ _)).subset h)

/-- The last component. -/
def lastName (p : List UInt8) : List UInt8 := (names p).getLastD []

theorem names_eq_pieces (p : List UInt8) : names p = pieces slash p := rfl

theorem CString.directory_prefix (p : CString) : p.directory.chars <+: p.chars :=
  (List.rdropWhile_prefix _ _).trans (List.rdropWhile_prefix _ _)

/-- An absolute path is its directory, the last component and perhaps slashes. -/
theorem CString.cut {p : CString} (habs : p.chars.head? = some slash)
    (hcomp : names p.chars ≠ []) :
    ∃ d c r, p.directory.chars = d ++ [slash] ∧ p.chars = d ++ slash :: c ++ r ∧
      c ≠ [] ∧ (∀ a ∈ c, a ≠ slash) ∧ ∀ a ∈ r, a = slash := by
  obtain ⟨s, hs⟩ : ∃ s, p.chars.rdropWhile (· = slash) = s := ⟨_, rfl⟩
  obtain ⟨r, hr⟩ : ∃ r, p.chars.rtakeWhile (· = slash) = r := ⟨_, rfl⟩
  obtain ⟨c, hc⟩ : ∃ c, s.rtakeWhile (· ≠ slash) = c := ⟨_, rfl⟩
  obtain ⟨d, hd⟩ : ∃ d, s.rdropWhile (· ≠ slash) = d := ⟨_, rfl⟩
  have hdir : p.directory.chars = d := by
    subst hs
    exact hd
  have hps : p.chars = s ++ r := by rw [← hs, ← hr, List.rdropWhile_append_rtakeWhile]
  have hsd : s = d ++ c := by rw [← hd, ← hc, List.rdropWhile_append_rtakeWhile]
  have hslash : ∀ a ∈ r, a = slash := by
    intro a ha
    rw [← hr] at ha
    have h := List.mem_rtakeWhile_imp ha
    exact of_decide_eq_true h
  have hname : ∀ a ∈ c, a ≠ slash := by
    intro a ha
    rw [← hc] at ha
    have h := List.mem_rtakeWhile_imp ha
    exact of_decide_eq_true h
  have hsne : s ≠ [] := by
    rintro rfl
    apply hcomp
    rw [names_eq_pieces, hps, pieces_append_of_forall [] hslash, pieces_nil]
  have hlast : s.getLast hsne ≠ slash := by
    subst hs
    simpa using List.rdropWhile_last_not (· = slash) p.chars hsne
  have hcne : c ≠ [] := by
    rw [← hc]
    intro e
    have h := List.rtakeWhile_eq_nil_iff.mp e hsne
    simp only [ne_eq, decide_not, Bool.not_eq_true, Bool.not_eq_false', decide_eq_true_eq] at h
    exact hlast h
  have hdne : d ≠ [] := by
    rintro rfl
    cases c with
    | nil => exact hcne rfl
    | cons a c =>
        rw [hps, hsd] at habs
        exact hname a List.mem_cons_self (Option.some.inj habs)
  have hend : d.getLast hdne = slash := by
    subst hd
    simpa using List.rdropWhile_last_not (· ≠ slash) s hdne
  have hd' : d = d.dropLast ++ [slash] := by
    rw [← hend, List.dropLast_concat_getLast]
  refine ⟨d.dropLast, c, r, hdir.trans hd', ?_, hcne, hname, hslash⟩
  rw [hps, hsd]
  conv => lhs; rw [hd']
  simp

theorem names_slash (d : List UInt8) : names (d ++ [slash]) = names d := by
  rw [names_eq_pieces, pieces_append, pieces_nil, List.append_nil]
  rfl

theorem names_cut {d c r : List UInt8} (hne : c ≠ []) (hc : ∀ a ∈ c, a ≠ slash)
    (hr : ∀ a ∈ r, a = slash) : names (d ++ slash :: c ++ r) = names d ++ [c] := by
  rw [names_eq_pieces, pieces_append_of_forall _ hr, pieces_append, pieces_singleton hne hc]
  rfl

/-- The components of the directory, and the last one. -/
theorem CString.names_directory {p : CString} (habs : p.chars.head? = some slash)
    (hcomp : names p.chars ≠ []) :
    names p.chars = names p.directory.chars ++ [lastName p.chars] := by
  obtain ⟨d, c, r, hdir, hchars, hne, hc, hr⟩ := CString.cut habs hcomp
  have hnames : names p.chars = names d ++ [c] := by
    rw [hchars, names_cut hne hc hr]
  rw [hdir, names_slash, hnames, lastName, hnames, List.getLastD_concat]

theorem CString.directory_absolute {p : CString} (habs : p.chars.head? = some slash)
    (hcomp : names p.chars ≠ []) : p.directory.chars.head? = some slash := by
  obtain ⟨d, c, r, hdir, hchars, -⟩ := CString.cut habs hcomp
  rw [hchars] at habs
  rw [hdir]
  cases d with
  | nil => rfl
  | cons a d => exact habs

/-! ## Where names lead -/

namespace FileTree

variable (t : FileTree) (heap : Nat → Bool) (fp : Nat)

def IsDirectory (q : Nat) : Prop := q ≠ 0 ∧ (t.file q).type = .directory

instance (q : Nat) : Decidable (t.IsDirectory q) :=
  inferInstanceAs (Decidable (q ≠ 0 ∧ (t.file q).type = .directory))

/-- Where the names lead, in a tree that needs no `scan()`. -/
def leads (l : List (List UInt8)) : Nat := (t.resolve File.scan fp l).1

variable {t heap fp} {b c : List UInt8} {l : List (List UInt8)} {n : Nat}

theorem follow_ne_zero {f : Nat} (hf : f ≠ 0) : t.follow f ≠ 0 := by
  unfold follow
  split
  · next h => exact h.2
  · exact hf

@[simp] theorem leads_nil : t.leads fp [] = fp := rfl

theorem resolve_stop {scan : Scan} (h : ¬ t.IsDirectory fp) :
    t.resolve scan fp (b :: l) = (0, t) := by
  refine if_pos ?_
  by_cases hfp : fp = 0
  · exact .inl hfp
  · exact .inr fun ht => h ⟨hfp, ht⟩

theorem leads_stop (h : ¬ t.IsDirectory fp) : t.leads fp (b :: l) = 0 :=
  congrArg Prod.fst (resolve_stop h)

theorem leads_cons (h : t.IsDirectory fp) (hdot : b ≠ [dot]) (hdots : b ≠ [dot, dot]) :
    t.leads fp (b :: l) =
      match (t.kids fp).find? fun f => (t.file f).name = b with
      | none => 0
      | some f => t.leads (t.follow f) l := by
  unfold leads
  rw [resolve_cons h.1 h.2, if_neg hdot, if_neg hdots]
  show Prod.fst (match (t.kids fp).find? fun f => (t.file f).name = b with
    | none => (0, t)
    | some f => t.resolve File.scan (t.follow f) l) = _
  cases (t.kids fp).find? fun f => (t.file f).name = b with
  | none => rfl
  | some f => rfl

/-- Without dots and with single slashes nothing but a missing root is in the way. -/
theorem passable_plain (hfp : fp ≠ 0) (l : List (Nat × List UInt8))
    (hl : ∀ x ∈ l, x.1 ≤ 1 ∧ x.2 ≠ [dot] ∧ x.2 ≠ [dot, dot]) :
    Passable File.scan (fun _ => true) t fp l := by
  induction l generalizing fp with
  | nil => exact True.intro
  | cons x l ih =>
      obtain ⟨m, b⟩ := x
      obtain ⟨hm, hdot, hdots⟩ := hl (m, b) List.mem_cons_self
      refine ⟨hfp, fun _ => ⟨rfl, hm, fun e => absurd e hdot, fun e => absurd e hdots, ?_⟩⟩
      intro _ _ f hf
      have hf0 : f ≠ 0 := kids_ne_zero (List.mem_of_find?_eq_some hf)
      exact ih (follow_ne_zero hf0) fun x hx => hl x (List.mem_cons_of_mem _ hx)

theorem leads_zero (m : List (List UInt8)) : t.leads 0 m = 0 := by
  cases m with
  | nil => rfl
  | cons b m => exact leads_stop fun h => h.1 rfl

theorem leads_dot (h : t.IsDirectory fp) (m : List (List UInt8)) :
    t.leads fp ([dot] :: m) = t.leads fp m := by
  unfold leads
  rw [resolve_cons h.1 h.2, if_pos rfl]

/-- Up, which at a file without a parent is nowhere else. -/
theorem leads_dots (h : t.IsDirectory fp) (m : List (List UInt8)) :
    t.leads fp ([dot, dot] :: m) =
      t.leads (if (t.file fp).parent = 0 then fp else (t.file fp).parent) m := by
  unfold leads
  rw [resolve_cons h.1 h.2, if_neg (by decide), if_pos rfl]

/-- One name, whatever it is. -/
theorem leads_step (h : t.IsDirectory fp) (b : List UInt8) :
    ∃ fp', ∀ m, t.leads fp (b :: m) = t.leads fp' m := by
  by_cases hdot : b = [dot]
  · subst hdot
    exact ⟨_, leads_dot h⟩
  by_cases hdots : b = [dot, dot]
  · subst hdots
    exact ⟨_, leads_dots h⟩
  cases hfind : (t.kids fp).find? fun f => (t.file f).name = b with
  | none =>
      refine ⟨0, fun m => ?_⟩
      rw [leads_cons h hdot hdots, hfind, leads_zero]
  | some f =>
      refine ⟨t.follow f, fun m => ?_⟩
      rw [leads_cons h hdot hdots, hfind]

/-- A way in two parts. -/
theorem leads_append (l m : List (List UInt8)) :
    t.leads fp (l ++ m) = t.leads (t.leads fp l) m := by
  induction l generalizing fp with
  | nil => rfl
  | cons b l ih =>
      by_cases hdir : t.IsDirectory fp
      · obtain ⟨fp', hstep⟩ := leads_step hdir b
        rw [List.cons_append, hstep, hstep, ih]
      · rw [List.cons_append, leads_stop hdir, leads_stop hdir, leads_zero]

/-- The last name leads to a file whose parent is the directory that the others lead to,
where it is not a link. -/
theorem leads_concat (hparents : ∀ d, ∀ f ∈ t.kids d, (t.file f).parent = d)
    (h : t.leads fp (l ++ [c]) ≠ 0) (hdot : c ≠ [dot]) (hdots : c ≠ [dot, dot])
    (hlink : ∀ f ∈ t.kids (t.leads fp l), (t.file f).name = c → t.follow f = f) :
    t.IsDirectory (t.leads fp l) ∧
      (t.file (t.leads fp (l ++ [c]))).parent = t.leads fp l := by
  rw [leads_append] at h ⊢
  generalize t.leads fp l = d at h hlink
  have hdir : t.IsDirectory d := by
    by_contra hnot
    exact h (leads_stop hnot)
  refine ⟨hdir, ?_⟩
  rw [leads_cons hdir hdot hdots] at h ⊢
  cases hfind : (t.kids d).find? fun f => (t.file f).name = c with
  | none =>
      rw [hfind] at h
      exact absurd rfl h
  | some f =>
      have hmem := List.mem_of_find?_eq_some hfind
      have hname := List.find?_some hfind
      show (t.file (t.follow f)).parent = d
      rw [hlink f hmem (of_decide_eq_true hname)]
      exact hparents d f hmem

/-! ## Walks -/

/-- `scan()` finds nothing more to do. -/
def Loaded (scan : Scan) (t : FileTree) : Prop := ∀ d, scan t d = t

theorem enter_tree (fp : Nat) (c : List UInt8) : (Filesystem.enter File.scan t fp c).2 = t := by
  unfold Filesystem.enter
  dsimp only [File.scan]
  split
  · rfl
  split
  · rfl
  split
  · rfl
  · rfl

theorem walk_tree {l : List (Nat × List UInt8)} {r : Nat × FileTree}
    (h : walk File.scan heap t fp l = .ok r) : r.2 = t := by
  induction l generalizing heap fp with
  | nil =>
      cases h
      rfl
  | cons x l ih =>
      obtain ⟨n, c⟩ := x
      have htree := enter_tree (t := t) fp c
      unfold walk at h
      generalize Filesystem.enter File.scan t fp c = e at htree h
      obtain ⟨fp', t'⟩ := e
      obtain rfl : t' = t := htree
      split at h
      · cases h
      split at h
      · cases h
        rfl
      split at h
      · cases h
      split at h
      · cases h
      cases fp' with
      | none =>
          cases h
          rfl
      | some fp' => exact ih h

theorem walk_loaded {scan : Scan} (h : Loaded scan t) (l : List (Nat × List UInt8)) :
    walk scan heap t fp l = walk File.scan heap t fp l := by
  induction l generalizing heap fp with
  | nil => rfl
  | cons x l ih =>
      obtain ⟨n, c⟩ := x
      have henter : Filesystem.enter scan t fp c = Filesystem.enter File.scan t fp c := by
        unfold Filesystem.enter
        rw [h fp]
        rfl
      have htree := enter_tree (t := t) fp c
      unfold walk
      rw [henter]
      generalize Filesystem.enter File.scan t fp c = r at htree
      obtain ⟨fp', t'⟩ := r
      obtain rfl : t' = t := htree
      cases fp' with
      | none => rfl
      | some fp' => simp only [ih]

theorem resolve_loaded {scan : Scan} (h : Loaded scan t) (l : List (List UInt8)) :
    t.resolve scan fp l = (t.leads fp l, t) := by
  induction l generalizing fp with
  | nil => rfl
  | cons b l ih =>
      by_cases hdir : t.IsDirectory fp
      swap
      · rw [resolve_stop hdir, leads_stop hdir]
      rw [resolve_cons hdir.1 hdir.2]
      by_cases hdot : b = [dot]
      · rw [if_pos hdot, ih, hdot, leads_dot hdir]
      by_cases hdots : b = [dot, dot]
      · rw [if_neg hdot, if_pos hdots, ih, hdots, leads_dots hdir]
      rw [if_neg hdot, if_neg hdots, leads_cons hdir hdot hdots, h fp]
      cases (t.kids fp).find? fun f => (t.file f).name = b with
      | none => rfl
      | some f => exact ih

/-- A walk that finds a file is not stopped on the way. -/
theorem walk_passes {l : List (Nat × List UInt8)} {q : Nat} {t' : FileTree}
    (h : walk File.scan heap t fp ((n, c) :: l) = .ok (q, t')) (hq : q ≠ 0) :
    t.IsDirectory fp ∧ heap 0 = true ∧ n ≤ 1 := by
  have hfp : fp ≠ 0 := by
    rintro rfl
    rw [walk_null (List.cons_ne_nil _ _)] at h
    exact nomatch h
  have ht : (t.file fp).type = .directory := by
    by_contra hne
    have hw : walk File.scan heap t fp ((n, c) :: l) = .ok (0, t) :=
      (if_neg hfp).trans (if_pos hne)
    rw [hw] at h
    cases h
    exact hq rfl
  have hheap : heap 0 = true := by
    by_contra hne
    have hw : walk File.scan heap t fp ((n, c) :: l) = .error .nullDereference :=
      (if_neg hfp).trans ((if_neg fun hd => hd ht).trans (if_pos (Bool.eq_false_iff.mpr hne)))
    rw [hw] at h
    exact nomatch h
  have hn : n ≤ 1 := by
    by_contra hne
    have hw : walk File.scan heap t fp ((n, c) :: l) = .error .outOfRange := by
      refine (if_neg hfp).trans ((if_neg fun hd => hd ht).trans ((if_neg ?_).trans (if_pos ?_)))
      · rw [hheap]
        decide
      · omega
    rw [hw] at h
    exact nomatch h
  exact ⟨⟨hfp, ht⟩, hheap, hn⟩

/-- **What a walk that finds a file has passed**: a directory, and the file `fp'`
from where it and every other walk with the same name goes on. -/
theorem walk_inv {l : List (Nat × List UInt8)} {q : Nat} {t' : FileTree}
    (h : walk File.scan heap t fp ((n, c) :: l) = .ok (q, t')) (hq : q ≠ 0) :
    t.IsDirectory fp ∧ ∃ fp', (∀ m, t.leads fp (c :: m) = t.leads fp' m) ∧
      (∀ heap' l', heap' 0 = true → walk File.scan heap' t fp ((n, c) :: l') =
        walk File.scan (fun n => heap' (n + 1)) t fp' l') ∧
      walk File.scan (fun n => heap (n + 1)) t fp' l = .ok (q, t') := by
  obtain ⟨hdir, hheap, hn⟩ := walk_passes h hq
  refine ⟨hdir, ?_⟩
  have hrest : ∀ fp', Filesystem.enter File.scan t fp c = (some fp', t) →
      (∀ heap' l', heap' 0 = true → walk File.scan heap' t fp ((n, c) :: l') =
        walk File.scan (fun n => heap' (n + 1)) t fp' l') ∧
      walk File.scan (fun n => heap (n + 1)) t fp' l = .ok (q, t') := by
    intro fp' he
    refine ⟨fun heap' l' hh => ?_, ?_⟩
    · rw [walk_cons hdir.1 hdir.2 hh hn, he]
    · rwa [walk_cons hdir.1 hdir.2 hheap hn, he] at h
  by_cases hdots : c = [dot, dot]
  · have he : Filesystem.enter File.scan t fp c = (some (t.file fp).parent, t) := if_pos hdots
    obtain ⟨hall, hw⟩ := hrest _ he
    -- a walk from nowhere finds nothing
    have hparent : (t.file fp).parent ≠ 0 := by
      intro h0
      rw [h0] at hw
      cases l with
      | nil =>
          cases hw
          exact hq rfl
      | cons x l =>
          rw [walk_null (List.cons_ne_nil _ _)] at hw
          exact nomatch hw
    refine ⟨_, fun m => ?_, hall, hw⟩
    rw [hdots, leads_dots hdir, if_neg hparent]
  by_cases hdot : c = [dot]
  · have he : Filesystem.enter File.scan t fp c = (some fp, t) :=
      (if_neg hdots).trans (if_pos hdot)
    obtain ⟨hall, hw⟩ := hrest _ he
    refine ⟨fp, fun m => ?_, hall, hw⟩
    rw [hdot, leads_dot hdir]
  have he : Filesystem.enter File.scan t fp c =
      if t.find fp c = 0 then (none, t) else (some (t.follow (t.find fp c)), t) :=
    (if_neg hdots).trans (if_neg hdot)
  cases hfind : (t.kids fp).find? fun f => (t.file f).name = c with
  | none =>
      rw [find_none hfind, if_pos rfl] at he
      rw [walk_cons hdir.1 hdir.2 hheap hn, he] at h
      cases h
      exact absurd rfl hq
  | some f =>
      obtain ⟨hf, hf0⟩ := find_some hfind
      rw [hf, if_neg hf0] at he
      obtain ⟨hall, hw⟩ := hrest _ he
      refine ⟨_, fun m => ?_, hall, hw⟩
      rw [leads_cons hdir hdot hdots, hfind]

/-- A walk finds what the names lead to, and would find it with more memory. -/
theorem walk_found {l : List (Nat × List UInt8)} {q : Nat} {t' : FileTree}
    (h : walk File.scan heap t fp l = .ok (q, t')) (hq : q ≠ 0) :
    t.leads fp (l.map Prod.snd) = q ∧ walk File.scan (fun _ => true) t fp l = .ok (q, t) := by
  induction l generalizing heap fp with
  | nil =>
      cases h
      exact ⟨rfl, rfl⟩
  | cons x l ih =>
      obtain ⟨n, c⟩ := x
      obtain ⟨-, fp', hleads, hall, hw⟩ := walk_inv h hq
      obtain ⟨hfound, hmem⟩ := ih hw
      refine ⟨(hleads _).trans hfound, ?_⟩
      rw [hall _ _ rfl]
      exact hmem

/-- A part of the way is passed too. -/
theorem walk_prefix {l m : List (Nat × List UInt8)} {q : Nat} {t' : FileTree}
    (h : walk File.scan heap t fp (l ++ m) = .ok (q, t')) (hq : q ≠ 0) :
    walk File.scan (fun _ => true) t fp l = .ok (t.leads fp (l.map Prod.snd), t) := by
  induction l generalizing heap fp with
  | nil => rfl
  | cons x l ih =>
      obtain ⟨n, c⟩ := x
      obtain ⟨-, fp', hleads, hall, hw⟩ := walk_inv h hq
      rw [hall _ _ rfl, List.map_cons, hleads]
      exact ih hw

/-- `.` stays where one is. -/
theorem walk_dots (h : t.IsDirectory fp) (l : List (Nat × List UInt8))
    (hl : ∀ x ∈ l, x.1 ≤ 1 ∧ x.2 = [dot]) :
    walk File.scan (fun _ => true) t fp l = .ok (fp, t) := by
  induction l with
  | nil => rfl
  | cons x l ih =>
      obtain ⟨n, c⟩ := x
      obtain ⟨hn, rfl⟩ := hl (n, c) List.mem_cons_self
      rw [walk_cons h.1 h.2 rfl hn]
      exact ih fun x hx => hl x (List.mem_cons_of_mem _ hx)

end FileTree

end KmOS
