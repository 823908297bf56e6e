/-
# `KmOS.Shell.WorkingDirectory` — runs of `cd`

The shell keeps its working directory as text.  `cd` joins its argument to the
text, or cuts the text at the last slash for `..`, and asks `path` about the
joined text, but not about the cut one.

A step is one `cd`, with what is typed and with the answers of `kmalloc`: to
`get_full_path`, and to the lookup.  `join_path` is taken to join, as it is meant
to (`joined`); what it does is in `KmOS.Shell.JoinPath`.

**What is left out.**  The array of 256 bytes that holds the text: a longer text
is that text, wherever its end lies.  The message of a `cd` that fails.
-/
import KmOS.Fs.Leads
import KmOS.Lib.Run
import KmOS.Shell.JoinPath

namespace KmOS

namespace Shell

/-! ## The code -/

/-- `MAX_PATH_LENGTH`. -/
def maxPathLength : Nat := 256

/-- `"/"`. -/
def rootText : CString := ⟨[slash], by decide⟩

/-- The part of `shell_state` that `cd` uses, and the file system. -/
structure ShellState where
  fsm : Filesystem
  currentDirectory : CString

/-- A `cd`: `argv[1]`, if there is one, whether `kmalloc` has memory for the full
path, and what it answers to the lookup. -/
structure CdCall where
  newDir : Option CString
  memory : Bool
  heap : Nat → Bool

def isAbsolutePath (path : List UInt8) : Bool := path.head? = some slash

/-- `Shell::get_full_path`. -/
def getFullPath (memory : Bool) (currentDirectory path : CString) : Option CString :=
  if memory = false then none
  else if isAbsolutePath path.chars then some path
  else some ⟨joined currentDirectory.chars path.chars, noNul_joined⟩

/-- `*last_slash = '\0'`. -/
def cutAt (s : CString) (i : Nat) : CString where
  chars := s.chars.take i
  noNul h := s.noNul (List.mem_of_mem_take h)

/-- `Shell::cmd_cd`. -/
def cmdCd (scan : Scan) (s : ShellState) (c : CdCall) : Except Fault (ShellState × Nat) :=
  match c.newDir with
  | none => .ok ({ s with currentDirectory := rootText }, 0)
  | some newDir =>
      if newDir.chars = [dot, dot] then
        match strrchr s.currentDirectory.chars slash with
        | some lastSlash =>
            if lastSlash ≠ 0 then
              .ok ({ s with currentDirectory := cutAt s.currentDirectory lastSlash }, 0)
            else .ok ({ s with currentDirectory := rootText }, 0)
        | none => .ok ({ s with currentDirectory := rootText }, 0)
      else if newDir.chars = [dot] then .ok (s, 0)
      else
        match getFullPath c.memory s.currentDirectory newDir with
        | none => .ok (s, 0)
        | some fullPath => do
            let (dir, t) ← s.fsm.path scan c.heap (some fullPath)
            let fsm := { s.fsm with tree := t }
            if dir ≠ 0 then .ok ({ fsm, currentDirectory := fullPath }, 0)
            else .ok ({ s with fsm }, 1)

/-- A `cd` that comes back. -/
def step (scan : Scan) (s : ShellState) (c : CdCall) : Option ShellState :=
  (cmdCd scan s c).toOption.map Prod.fst

/-! ## What it is for -/

section
variable (scan : Scan)

/-- The text fits, and `path` says that it names the directory `d`. -/
structure ShellState.In (s : ShellState) (d : Nat) : Prop where
  fits : s.currentDirectory.chars.length < maxPathLength
  directory : s.fsm.tree.IsDirectory d
  named : s.fsm.path scan (fun _ => true) (some s.currentDirectory) = .ok (d, s.fsm.tree)

/-- Where an argument leads from the directory `d`; without one, to the root. -/
def ShellState.target (s : ShellState) (d : Nat) : Option CString → Nat
  | none => s.fsm.root
  | some newDir => ({ s.fsm with currentDir := some d }.resolve scan newDir.chars).1

/-- **What a `cd` is to do**: it comes back; if it reports success, the text names the
directory that the argument leads to, and if not, the text is what it was, and
names what it did. -/
def CdRight (s : ShellState) (c : CdCall) : Prop :=
  ∀ d, s.In scan d → ∃ s' code, cmdCd scan s c = .ok (s', code) ∧
    (code = 0 → s'.In scan (s.target scan d c.newDir)) ∧
    (code ≠ 0 → s'.currentDirectory = s.currentDirectory ∧ s'.In scan d)

/-- The last name of the text is that of a file in the directory that the rest
names, and not a link to another, and ends the text; or there is no name. -/
def Canonical (s : ShellState) : Prop :=
  names s.currentDirectory.chars = [] ∨
    s.currentDirectory.chars.getLast? ≠ some slash ∧
      lastName s.currentDirectory.chars ≠ [dot] ∧
      lastName s.currentDirectory.chars ≠ [dot, dot] ∧
      ∀ f ∈ s.fsm.tree.kids
          (s.fsm.tree.leads s.fsm.root (names s.currentDirectory.directory.chars)),
        (s.fsm.tree.file f).name = lastName s.currentDirectory.chars → s.fsm.tree.follow f = f

/-- There is memory for the full path, its lookup commits no fault, and it leads
nowhere, or to a directory and fits. -/
def Found (s : ShellState) (c : CdCall) (newDir : CString) : Prop :=
  ∃ fullPath, getFullPath c.memory s.currentDirectory newDir = some fullPath ∧
    (∃ r, s.fsm.path scan c.heap (some fullPath) = .ok r) ∧
    (s.fsm.tree.leads s.fsm.root (names fullPath.chars) ≠ 0 →
      s.fsm.tree.IsDirectory (s.fsm.tree.leads s.fsm.root (names fullPath.chars)) ∧
        fullPath.chars.length < maxPathLength)

/-- **When a `cd` does it.** -/
def Admitted (s : ShellState) (c : CdCall) : Prop :=
  match c.newDir with
  | none => True
  | some newDir =>
      if newDir.chars = [dot, dot] then Canonical s
      else if newDir.chars = [dot] then True
      else Found scan s c newDir

/-- The root is a directory without a parent, every other file knows the directory
that it is in, and the directories have been loaded. -/
structure Rooted (fsm : Filesystem) : Prop where
  directory : fsm.tree.IsDirectory fsm.root
  parentless : (fsm.tree.file fsm.root).parent = 0
  parents : ∀ d, ∀ f ∈ fsm.tree.kids d, (fsm.tree.file f).parent = d
  loaded : FileTree.Loaded scan fsm.tree

variable {scan} {fsm : Filesystem} {s : ShellState} {c : CdCall} {d : Nat}

/-! ## The text and the directory -/

/-- An absolute path is looked up from the root. -/
theorem path_text (hload : FileTree.Loaded scan fsm.tree) {heap : Nat → Bool} {p : CString}
    (habs : p.chars.head? = some slash) :
    fsm.path scan heap (some p) =
      walk File.scan heap fsm.tree fsm.root (tokens slash 0 p.chars) := by
  have hstart : fsm.start p.chars = fsm.root := if_pos habs
  rw [Filesystem.path_eq_walk, hstart, FileTree.walk_loaded hload]

theorem names_tokens (p : List UInt8) : (tokens slash 0 p).map Prod.snd = names p := tokens_snd 0 p

/-- The directory is where the names of the text lead. -/
theorem ShellState.In.leads (hload : FileTree.Loaded scan s.fsm.tree)
    (habs : s.currentDirectory.chars.head? = some slash) (h : s.In scan d) :
    s.fsm.tree.leads s.fsm.root (names s.currentDirectory.chars) = d := by
  have hw := h.named
  rw [path_text hload habs] at hw
  rw [← names_tokens]
  exact (FileTree.walk_found hw h.directory.1).1

theorem target_eq (hload : FileTree.Loaded scan s.fsm.tree) (newDir : CString) :
    s.target scan d (some newDir) =
      s.fsm.tree.leads (if newDir.chars.head? = some slash then s.fsm.root else d)
        (names newDir.chars) := by
  show (s.fsm.tree.resolve scan _ _).1 = _
  rw [FileTree.resolve_loaded hload]
  rfl

/-- Joining texts puts the names together. -/
theorem names_joined {dir : List UInt8} (habs : dir.head? = some slash) (file : List UInt8) :
    names (joined dir file) = names dir ++ names file := by
  have hne : dir ≠ [] := by
    rintro rfl
    exact nomatch habs
  unfold joined front
  by_cases hlast : dir.getLast? = some slash
  · rw [if_neg (by simp [needsSlash, hlast])]
    obtain ⟨e, rfl⟩ := List.getLast?_eq_some_iff.mp hlast
    rw [List.append_assoc, List.singleton_append, names_eq_pieces, pieces_append, names_eq_pieces,
      pieces_append, pieces_nil, List.append_nil, names_eq_pieces]
  · rw [if_pos (by simp [needsSlash, hlast, hne]), List.append_assoc, List.singleton_append,
      names_eq_pieces, pieces_append]
    rfl

theorem joined_absolute {dir : List UInt8} (habs : dir.head? = some slash) (file : List UInt8) :
    (joined dir file).head? = some slash := by
  cases dir with
  | nil => exact nomatch habs
  | cons a dir =>
      unfold joined front
      split
      · exact habs
      · exact habs

/-! ## One `cd` -/

/-- The state before a `cd`: in a file system that is in order, the text begins
with a slash and names the directory `d`. -/
structure Settled (scan : Scan) (s : ShellState) (d : Nat) : Prop where
  rooted : Rooted scan s.fsm
  absolute : s.currentDirectory.chars.head? = some slash
  inDir : s.In scan d

/-- What a `cd` leaves: a state like this, in the directory that the argument leads to
or, after a failure, with the text that there was. -/
def Settles (scan : Scan) (s : ShellState) (c : CdCall) (d : Nat) : Prop :=
  ∃ s' code, cmdCd scan s c = .ok (s', code) ∧
    (code = 0 → Settled scan s' (s.target scan d c.newDir)) ∧
    (code ≠ 0 → s'.currentDirectory = s.currentDirectory ∧ Settled scan s' d)

/-- Only slashes name the root. -/
theorem settled_root (hfsm : Rooted scan fsm) {p : CString} (habs : p.chars.head? = some slash)
    (hnames : names p.chars = []) (hlen : p.chars.length < maxPathLength) :
    Settled scan ⟨fsm, p⟩ fsm.root := by
  refine ⟨hfsm, habs, hlen, hfsm.directory, ?_⟩
  have htok : tokens slash 0 p.chars = [] := by
    rw [← names_tokens] at hnames
    exact List.map_eq_nil_iff.mp hnames
  show fsm.path scan _ (some p) = _
  rw [path_text hfsm.loaded habs, htok]
  rfl

theorem settled_rootText (hfsm : Rooted scan fsm) : Settled scan ⟨fsm, rootText⟩ fsm.root :=
  settled_root hfsm rfl (by decide +kernel) (by decide)

/-- Without an argument to the root, with `.` to where one is. -/
theorem settles_home (h : Settled scan s d) (hc : c.newDir = none) : Settles scan s c d := by
  refine ⟨{ s with currentDirectory := rootText }, 0, ?_, fun _ => ?_, fun h0 => absurd rfl h0⟩
  · unfold cmdCd
    rw [hc]
  · rw [hc]
    exact settled_rootText h.rooted

theorem settles_dot (h : Settled scan s d) {newDir : CString} (hc : c.newDir = some newDir)
    (hdot : newDir.chars = [dot]) : Settles scan s c d := by
  have hdots : newDir.chars ≠ [dot, dot] := by
    rw [hdot]
    decide
  refine ⟨s, 0, ?_, fun _ => ?_, fun h0 => absurd rfl h0⟩
  · unfold cmdCd
    rw [hc]
    exact (if_neg hdots).trans (if_pos hdot)
  · have hnames : names [dot] = [[dot]] := by decide +kernel
    rw [hc, target_eq h.rooted.loaded, hdot, if_neg (by decide), hnames,
      FileTree.leads_dot h.inDir.directory]
    exact h

/-- The full path is absolute, and its names lead where the argument does. -/
theorem fullPath_leads (h : Settled scan s d) {newDir fullPath : CString}
    (hfull : getFullPath c.memory s.currentDirectory newDir = some fullPath) :
    fullPath.chars.head? = some slash ∧
      s.fsm.tree.leads s.fsm.root (names fullPath.chars) = s.target scan d (some newDir) := by
  rw [target_eq h.rooted.loaded]
  unfold getFullPath at hfull
  by_cases hmem : c.memory = false
  · rw [if_pos hmem] at hfull
    exact nomatch hfull
  rw [if_neg hmem] at hfull
  by_cases habs : newDir.chars.head? = some slash
  · rw [if_pos (by simpa [isAbsolutePath] using habs)] at hfull
    obtain rfl := Option.some.inj hfull
    exact ⟨habs, by rw [if_pos habs]⟩
  · rw [if_neg (by simpa [isAbsolutePath] using habs)] at hfull
    obtain rfl := Option.some.inj hfull
    refine ⟨joined_absolute h.absolute _, ?_⟩
    rw [if_neg habs, names_joined h.absolute, FileTree.leads_append,
      h.inDir.leads h.rooted.loaded h.absolute]

theorem cmdCd_lookup {newDir fullPath : CString} {q : Nat} {t : FileTree}
    (hc : c.newDir = some newDir) (hdots : newDir.chars ≠ [dot, dot]) (hdot : newDir.chars ≠ [dot])
    (hfull : getFullPath c.memory s.currentDirectory newDir = some fullPath)
    (hpath : s.fsm.path scan c.heap (some fullPath) = .ok (q, t)) (htree : t = s.fsm.tree) :
    cmdCd scan s c = if q ≠ 0 then .ok (⟨s.fsm, fullPath⟩, 0) else .ok (s, 1) := by
  unfold cmdCd
  rw [hc]
  refine (if_neg hdots).trans ((if_neg hdot).trans ?_)
  rw [hfull]
  dsimp only
  rw [hpath, htree]
  rfl

/-- **Another argument** is looked up, and its text becomes the directory if that is found. -/
theorem settles_found (h : Settled scan s d) {newDir : CString} (hc : c.newDir = some newDir)
    (hdots : newDir.chars ≠ [dot, dot]) (hdot : newDir.chars ≠ [dot]) (hf : Found scan s c newDir) :
    Settles scan s c d := by
  obtain ⟨fullPath, hfull, ⟨⟨q, t⟩, hpath⟩, hgood⟩ := hf
  obtain ⟨habs, htarget⟩ := fullPath_leads h hfull
  have hload := h.rooted.loaded
  have hwalk := hpath
  rw [path_text hload habs] at hwalk
  have hcmd := cmdCd_lookup hc hdots hdot hfull hpath (FileTree.walk_tree hwalk)
  by_cases hq : q = 0
  · -- nothing is found
    rw [if_neg fun hne => hne hq] at hcmd
    exact ⟨s, 1, hcmd, fun h0 => absurd h0 (by decide), fun _ => ⟨rfl, h⟩⟩
  · rw [if_pos hq] at hcmd
    obtain ⟨hleads, hnamed⟩ := FileTree.walk_found hwalk hq
    rw [names_tokens] at hleads
    obtain ⟨hdir, hfits⟩ := hgood (hleads ▸ hq)
    rw [hleads] at hdir
    refine ⟨_, 0, hcmd, fun _ => ?_, fun h0 => absurd rfl h0⟩
    rw [hc, ← htarget, hleads]
    refine ⟨h.rooted, habs, hfits, hdir, ?_⟩
    have htext : s.fsm.path scan (fun _ => true) (some fullPath) = _ := path_text hload habs
    exact htext.trans hnamed

/-- The text that `..` leaves. -/
def upText (p : CString) : CString :=
  match strrchr p.chars slash with
  | some lastSlash => if lastSlash ≠ 0 then cutAt p lastSlash else rootText
  | none => rootText

theorem cmdCd_up {newDir : CString} (hc : c.newDir = some newDir)
    (hdots : newDir.chars = [dot, dot]) :
    cmdCd scan s c = .ok ({ s with currentDirectory := upText s.currentDirectory }, 0) := by
  unfold cmdCd upText
  rw [hc]
  refine (if_pos hdots).trans ?_
  cases strrchr s.currentDirectory.chars slash with
  | none => rfl
  | some lastSlash =>
      dsimp only
      split
      · rfl
      · rfl

/-- What stands before the last slash, or the slash if nothing does. -/
theorem upText_chars {p : CString} {e u : List UInt8} (hp : p.chars = e ++ slash :: u)
    (hu : ∀ a ∈ u, a ≠ slash) : (upText p).chars = if e = [] then [slash] else e := by
  have hlast : strrchr p.chars slash = some e.length := by
    rw [hp]
    exact strrchr_append (by decide) fun hm => hu slash hm rfl
  unfold upText
  rw [hlast]
  dsimp only
  by_cases he : e = []
  · rw [if_pos he, if_neg (by simp [he])]
    rfl
  · rw [if_neg he, if_pos (by simpa using he)]
    show p.chars.take e.length = e
    rw [hp, List.take_left]

theorem target_up (h : Settled scan s d) {newDir : CString} (hdots : newDir.chars = [dot, dot]) :
    s.target scan d (some newDir) =
      if (s.fsm.tree.file d).parent = 0 then d else (s.fsm.tree.file d).parent := by
  have hnames : names [dot, dot] = [[dot, dot]] := by decide +kernel
  rw [target_eq h.rooted.loaded, hdots, if_neg (by decide), hnames,
    FileTree.leads_dots h.inDir.directory]
  rfl

/-- `..` at a text of slashes stays at the root. -/
theorem settles_up_root (h : Settled scan s d) {newDir : CString} (hc : c.newDir = some newDir)
    (hdots : newDir.chars = [dot, dot]) (hnames : names s.currentDirectory.chars = []) :
    Settles scan s c d := by
  refine ⟨_, 0, cmdCd_up hc hdots, fun _ => ?_, fun h0 => absurd rfl h0⟩
  have hd := h.inDir.leads h.rooted.loaded h.absolute
  rw [hnames, FileTree.leads_nil] at hd
  rw [hc, target_up h hdots, ← hd, if_pos h.rooted.parentless]
  have hslash := forall_eq_of_pieces hnames
  have hne : s.currentDirectory.chars ≠ [] := by
    intro hnil
    have habs := h.absolute
    rw [hnil] at habs
    exact nomatch habs
  obtain ⟨e, he⟩ : ∃ e, s.currentDirectory.chars = e ++ [slash] := by
    refine ⟨s.currentDirectory.chars.dropLast, ?_⟩
    rw [← hslash _ (List.getLast_mem hne), List.dropLast_concat_getLast]
  have hup := upText_chars he nofun
  by_cases hnil : e = []
  · rw [if_pos hnil] at hup
    refine settled_root h.rooted ?_ ?_ ?_
    · rw [hup]
      rfl
    · rw [hup]
      decide +kernel
    · rw [hup]
      decide
  · rw [if_neg hnil] at hup
    have habs := h.absolute
    have hfits := h.inDir.fits
    rw [he] at habs hnames hfits
    refine settled_root h.rooted ?_ ?_ ?_
    · rwa [hup, ← List.head?_append_of_ne_nil e hnil]
    · rwa [hup, ← names_slash]
    · rw [hup]
      rw [List.length_append] at hfits
      exact Nat.lt_of_le_of_lt (Nat.le_add_right _ _) hfits

/-- **`..` at a text that ends in a name**: what is cut away is that name. -/
theorem settles_up (h : Settled scan s d) {newDir : CString} (hc : c.newDir = some newDir)
    (hdots : newDir.chars = [dot, dot]) (hcan : Canonical s) : Settles scan s c d := by
  by_cases hnames : names s.currentDirectory.chars = []
  · exact settles_up_root h hc hdots hnames
  obtain ⟨hlast, hdot, hdots', hlink⟩ := hcan.resolve_left hnames
  obtain ⟨e, u, r, hdir, hchars, hne, hu, hr⟩ := CString.cut h.absolute hnames
  -- no slash is behind the name
  obtain rfl : r = [] := by
    by_contra hrne
    apply hlast
    rw [hchars, List.getLast?_append_of_ne_nil _ hrne, List.getLast?_eq_some_getLast hrne,
      hr _ (List.getLast_mem hrne)]
  rw [List.append_nil] at hchars
  have hload := h.rooted.loaded
  have hnames' : names s.currentDirectory.chars = names e ++ [u] := by
    rw [hchars, ← List.append_nil (e ++ slash :: u)]
    exact names_cut hne hu (by simp)
  have hlastName : lastName s.currentDirectory.chars = u := by
    rw [lastName, hnames', List.getLastD_concat]
  rw [hlastName] at hdot hdots' hlink
  rw [hdir, names_slash] at hlink
  have hd := h.inDir.leads hload h.absolute
  rw [hnames'] at hd
  obtain ⟨hupdir, hparent⟩ := FileTree.leads_concat h.rooted.parents (hd ▸ h.inDir.directory.1)
    hdot hdots' hlink
  rw [hd] at hparent
  -- the way to that directory is a part of the way there was
  obtain ⟨k, hk⟩ := tokens_concat hne hu 0 e
  have hwalk := h.inDir.named
  rw [path_text hload h.absolute, hchars, hk] at hwalk
  have hprefix := FileTree.walk_prefix hwalk h.inDir.directory.1
  rw [names_tokens] at hprefix
  have hcut := upText_chars hchars hu
  have habs := h.absolute
  have hfits := h.inDir.fits
  rw [hchars] at habs hfits
  refine ⟨_, 0, cmdCd_up hc hdots, fun _ => ?_, fun h0 => absurd rfl h0⟩
  rw [hc, target_up h hdots, hparent, if_neg hupdir.1]
  have habs' : (upText s.currentDirectory).chars.head? = some slash := by
    rw [hcut]
    cases e with
    | nil => rfl
    | cons a e => exact habs
  refine ⟨h.rooted, habs', ?_, hupdir, ?_⟩
  · show (upText s.currentDirectory).chars.length < maxPathLength
    rw [hcut]
    rw [List.length_append, List.length_cons] at hfits
    split
    · exact Nat.lt_of_le_of_lt (Nat.succ_le_succ (Nat.zero_le _)) (by decide : 1 < maxPathLength)
    · omega
  · have htext : s.fsm.path scan (fun _ => true) (some (upText s.currentDirectory)) = _ :=
      path_text hload habs'
    refine htext.trans ?_
    have htok : tokens slash 0 (upText s.currentDirectory).chars = tokens slash 0 e := by
      rw [hcut]
      split
      · next he => rw [he, tokens_sep, tokens_nil, tokens_nil]
      · rfl
    rw [htok]
    exact hprefix

theorem settles_of_admitted (h : Settled scan s d) (hok : Admitted scan s c) :
    Settles scan s c d := by
  unfold Admitted at hok
  cases hc : c.newDir with
  | none => exact settles_home h hc
  | some newDir =>
      rw [hc] at hok
      dsimp only at hok
      by_cases hdots : newDir.chars = [dot, dot]
      · rw [if_pos hdots] at hok
        exact settles_up h hc hdots hok
      rw [if_neg hdots] at hok
      by_cases hdot : newDir.chars = [dot]
      · exact settles_dot h hc hdot
      · rw [if_neg hdot] at hok
        exact settles_found h hc hdots hdot hok

/-! ## Runs -/

/-- **The working directory stays valid**: in every run of such `cd`s from `/` the text
names a directory, and each one of them does what it is to do. -/
theorem cd_run_right (hfsm : Rooted scan fsm)
    (hrun : Reaches (step scan) (Admitted scan) ⟨fsm, rootText⟩ s) :
    (∃ d, s.In scan d) ∧ ∀ c, Admitted scan s c → CdRight scan s c := by
  have hinv : ∃ d, Settled scan s d := by
    refine Reaches.invariant (I := fun s => ∃ d, Settled scan s d) ⟨_, settled_rootText hfsm⟩
      ?_ hrun
    rintro u c u' ⟨d, hd⟩ hok hstep
    obtain ⟨s', code, hcmd, hsuccess, hfailure⟩ := settles_of_admitted hd hok
    unfold step at hstep
    rw [hcmd] at hstep
    obtain rfl : s' = u' := Option.some.inj hstep
    by_cases hcode : code = 0
    · exact ⟨_, hsuccess hcode⟩
    · exact ⟨d, (hfailure hcode).2⟩
  obtain ⟨d, hd⟩ := hinv
  refine ⟨⟨d, hd.inDir⟩, fun c hok e he => ?_⟩
  -- the text names one directory only
  obtain rfl : e = d := by
    have hboth := he.named.symm.trans hd.inDir.named
    exact congrArg Prod.fst (Except.ok.inj hboth)
  obtain ⟨s', code, hcmd, hsuccess, hfailure⟩ := settles_of_admitted hd hok
  exact ⟨s', code, hcmd, fun h0 => (hsuccess h0).inDir,
    fun h0 => ⟨(hfailure h0).1, (hfailure h0).2.inDir⟩⟩

end

/-! ## Two commands -/

/-- A `cd` for which there is memory. -/
def typed (newDir : CString) : CdCall := ⟨some newDir, true, fun _ => true⟩

/-- `dev`, `..` and `dev/.`. -/
def devName : CString := ⟨[100, 101, 118], by decide⟩
def upName : CString := dotDot
def devDot : CString := ⟨[100, 101, 118, slash, dot], by decide⟩

theorem noNul_devText : (0 : UInt8) ∉ [slash, 100, 101, 118] := by decide

/-- `/dev` and `/dev/.`. -/
def devText : CString := ⟨[slash, 100, 101, 118], noNul_devText⟩
def devDotText : CString := ⟨[slash, 100, 101, 118, slash, dot], by decide⟩

theorem smallFs_rooted : Rooted File.scan smallFs where
  directory := by decide
  parentless := rfl
  parents := by
    intro d f hf
    by_cases hd : d = 1
    · subst hd
      obtain rfl := List.mem_singleton.mp hf
      rfl
    · rw [show smallFs.tree.kids d = [] from if_neg hd] at hf
      exact nomatch hf
  loaded := fun _ => rfl

/-- `cd dev`, on the tree with `/dev` alone, and whatever comes next. -/
theorem cd_run_right_dev :
    (∃ d, ShellState.In File.scan ⟨smallFs, devText⟩ d) ∧
      ∀ c, Admitted File.scan ⟨smallFs, devText⟩ c →
        CdRight File.scan ⟨smallFs, devText⟩ c := by
  refine cd_run_right smallFs_rooted (.tail (a := typed devName) .refl ?_ rfl)
  refine ⟨devText, rfl, ⟨_, rfl⟩, fun _ => ⟨?_, ?_⟩⟩
  · decide +kernel
  · decide +kernel

/-- The root at 1 with the regular file `dev` at 2. -/
def noteTree : FileTree where
  file := fun f => { smallTree.file f with type := if f = 1 then .directory else .file }
  kids := smallTree.kids
  linked := smallTree.linked
  short := smallTree.short

def noteFs : Filesystem := { tree := noteTree, root := 1, currentDir := none }

/-- `/./././…`, 257 bytes of it. -/
def longName : CString := ⟨(List.replicate 128 [slash, dot]).flatten ++ [slash], by decide +kernel⟩

/-- A regular file is taken for a directory; behind `dev/.` a `..` leads to `dev`; and
a text that does not fit is stored. -/
theorem cd_goes_astray :
    (∃ s, step File.scan ⟨noteFs, rootText⟩ (typed devName) = some s ∧
      ¬ ∃ d, s.In File.scan d) ∧
    (∃ s, step File.scan ⟨smallFs, rootText⟩ (typed devDot) = some s ∧
      s.In File.scan 2 ∧ ¬ CdRight File.scan s (typed upName)) ∧
    (∃ s, step File.scan ⟨smallFs, rootText⟩ (typed longName) = some s ∧
      maxPathLength ≤ s.currentDirectory.chars.length) := by
  refine ⟨⟨⟨noteFs, devText⟩, rfl, ?_⟩, ?_, ?_⟩
  · rintro ⟨d, hd⟩
    have hpath : noteFs.path File.scan (fun _ => true) (some devText) = .ok (2, noteTree) := rfl
    obtain ⟨rfl, -⟩ := Prod.mk.inj (Except.ok.inj (hpath.symm.trans hd.named))
    exact absurd hd.directory (by decide)
  · have hin : ShellState.In File.scan ⟨smallFs, devDotText⟩ 2 := ⟨by decide, by decide, rfl⟩
    refine ⟨⟨smallFs, devDotText⟩, rfl, hin, fun hright => ?_⟩
    obtain ⟨s', code, hcmd, hsuccess, -⟩ := hright 2 hin
    have hup : cmdCd File.scan ⟨smallFs, devDotText⟩ (typed upName) =
        .ok (⟨smallFs, devText⟩, 0) := rfl
    obtain ⟨rfl, rfl⟩ := Prod.mk.inj (Except.ok.inj (hup.symm.trans hcmd))
    have htarget : ShellState.target File.scan ⟨smallFs, devDotText⟩ 2 (some upName) = 1 := by
      decide +kernel
    have hnamed := (hsuccess rfl).named
    dsimp only [typed] at hnamed
    rw [htarget] at hnamed
    have hpath : smallFs.path File.scan (fun _ => true) (some devText) = .ok (2, smallTree) := rfl
    exact absurd (Prod.mk.inj (Except.ok.inj (hpath.symm.trans hnamed))).1 (by decide)
  · have hpath : smallFs.path File.scan (fun _ => true) (some longName) = .ok (1, smallTree) :=
      (path_text smallFs_rooted.loaded (by decide +kernel)).trans
        (FileTree.walk_dots smallFs_rooted.directory _ (by decide +kernel))
    have hfull : getFullPath true rootText longName = some longName := by
      have habs : isAbsolutePath longName.chars = true := by decide +kernel
      unfold getFullPath
      rw [if_neg (by decide), if_pos habs]
    have hcmd := cmdCd_lookup (s := ⟨smallFs, rootText⟩) (c := typed longName) rfl
      (by decide +kernel) (by decide +kernel) hfull hpath rfl
    refine ⟨⟨smallFs, longName⟩, ?_, by decide +kernel⟩
    unfold step
    rw [hcmd]
    rfl

end Shell

end KmOS
