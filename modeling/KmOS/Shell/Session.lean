/-
# `KmOS.Shell.Session` — commands on a volume

The commands of the shell that look at files, and the calls by which processes change
their directory, where the root of the file system is that of a volume.  `FileSession` loads
a directory when something first goes through it, and reads files through the driver.
`DiskSession` reads the bytes of the disk, and keeps nothing but the places where the
processes are.  Whatever is typed and called, in whatever order, the console shows the
same, and a fault of the one is a fault of the other (`session_shows_the_disk`).

**What is left out.**  `kfree`.  What `get_full_path` makes of the argument of `cat` comes
with the command.
-/
import KmOS.Lib.Run
import KmOS.Ext2.Paths
import KmOS.Shell.Cat
import KmOS.Shell.WorkingDirectory

namespace KmOS

/-- What is typed, and what processes call. -/
inductive SessionCall (σ : Type) where
  | chdir (heap : Nat → Bool) (n : CString)
  | ls (heap : Nat → Bool) (path : CString)
  /-- With what `get_full_path` returns, and the memory for the pieces of the file. -/
  | cat (heap : Nat → Bool) (name : List UInt8) (fullPath : Option CString) (buffer : Option Buffer)
  /-- Another process runs, or none. -/
  | schedule (pcurrent : Option Nat)
  | fork (child : Nat)
  /-- Something else has used the device or the heap. -/
  | other (v : Volume σ)

/-! ## The code -/

open Shell (text)

/-- The character behind a name. -/
def lsMarker : FileType → UInt8
  | .directory => '/'.toUInt8
  | .link => '@'.toUInt8
  | .device => '#'.toUInt8
  | _ => ' '.toUInt8

def lsLine (name : List UInt8) (type : FileType) : List UInt8 :=
  text "  " ++ name ++ [lsMarker type] ++ text "\n"

/-- `for (File *child = dir->getChild(); child != nullptr; child = child->getNext())` -/
def lsLoop (t : FileTree) : Nat → Nat → List UInt8
  | 0, _ => []
  | fuel + 1, child =>
      if child = 0 then []
      else lsLine (t.file child).name (t.file child).type ++ lsLoop t fuel (t.file child).next

/-- The file system, the processes with their directories, the console, and what `chdir`,
`ls` or `cat` has returned last. -/
structure FileSession (σ : Type) where
  live : Live σ
  pcurrent : Option Nat
  cdir : Nat → Nat
  console : Console
  ret : Nat

namespace FileSession

variable {σ : Type} (new : New) (root : Nat) (s : FileSession σ)

def puts (text : List UInt8) (ret : Nat) : FileSession σ :=
  { s with console := s.console.putcs text, ret := ret }

/-- `fsm.path(p)`, if it comes back. -/
def lookup (heap : Nat → Bool) (p : CString) : Option (Nat × FileSession σ) :=
  match s.live.path new root (s.pcurrent.map s.cdir) heap p with
  | .ok r => if r.ending = .done then some (r.file, { s with live := r.live }) else none
  | .error _ => none

/-- `call_chdir`. -/
def chdir (heap : Nat → Bool) (n : CString) : Option (FileSession σ) :=
  match s.lookup new root heap n with
  | none => none
  | some (f, s) =>
      if f = 0 then some { s with ret := 2 ^ 32 - 1 }
      else
        match s.pcurrent with
        | none => none
        | some p => some { s with cdir := Function.update s.cdir p f, ret := 1 }

/-- `Shell::cmd_ls`. -/
def ls (heap : Nat → Bool) (path : CString) : Option (FileSession σ) :=
  match s.lookup new root heap path with
  | none => none
  | some (dir, s) =>
      if dir = 0 then
        some (s.puts (text "ls: cannot access '" ++ path.chars ++
          text "': No such file or directory\n") 1)
      else if (s.live.tree.file dir).type ≠ .directory then
        some (s.puts ((s.live.tree.file dir).name ++ text "\n") 0)
      else
        let (ending, live) := s.live.scan new dir
        if ending ≠ .done then none
        else
          some ({ s with live := live }.puts (text "Contents of " ++ path.chars ++ text ":\n" ++
            lsLoop live.tree.toFileTree turns (live.tree.file dir).child) 0)

/-- The file `f`, whether it is a directory, and its size. -/
def object (f : Nat) : FileObject σ × Bool × UInt32 :=
  (.ext2RegularFile ⟨(s.live.tree.node f).mount, (s.live.tree.node f).inode, s.live.volume⟩,
    decide ((s.live.tree.file f).type = .directory), UInt32.ofNat (s.live.tree.node f).size)

/-- `cat` of what has been found. -/
def runCat (name : List UInt8) (w : Shell.CatWorld σ) : Option (FileSession σ) :=
  (Shell.cmdCat w turns [text "cat", name] s.console).map fun r =>
    { s with
      console := r.console
      ret := r.code
      live := match r.file with
        | some (.ext2RegularFile f) => { s.live with volume := f.volume }
        | _ => s.live }

/-- `Shell::cmd_cat`. -/
def cat (heap : Nat → Bool) (name : List UInt8) (fullPath : Option CString)
    (buffer : Option Buffer) : Option (FileSession σ) :=
  match fullPath with
  | none => s.runCat name ⟨false, none, buffer⟩
  | some p =>
      match s.lookup new root heap p with
      | none => none
      | some (f, s) =>
          s.runCat name ⟨true, if f = 0 then none else some (s.object f), buffer⟩

def step (s : FileSession σ) : SessionCall σ → Option (FileSession σ)
  | .chdir heap n => s.chdir new root heap n
  | .ls heap path => s.ls new root heap path
  | .cat heap name fullPath buffer => s.cat new root heap name fullPath buffer
  | .schedule pcurrent => some { s with pcurrent := pcurrent }
  | .fork child =>
      s.pcurrent.map fun p => { s with cdir := Function.update s.cdir child (s.cdir p) }
  | .other v => some { s with live := { s.live with volume := v } }

end FileSession

/-! ## What the disk says -/

/-- The line of an entry. -/
def Entry.line (e : Entry) : List UInt8 :=
  lsLine (checkName e.chars) (if e.fileType = ext2FtDir then .directory else .file)

structure DiskSession where
  pcurrent : Option Nat
  cdir : Nat → Option Place
  console : Console
  ret : Nat

namespace DiskSession

variable {σ : Type} (m : Ext2Mount σ) (disk : Buffer) (dirs : Directories) (a : DiskSession)

def puts (text : List UInt8) (ret : Nat) : DiskSession :=
  { a with console := a.console.putcs text, ret := ret }

def lookup (heap : Nat → Bool) (p : CString) : Option (Option Place) :=
  (dirs.path (a.pcurrent.map a.cdir) heap p).toOption

def chdir (heap : Nat → Bool) (n : CString) : Option DiskSession :=
  match a.lookup dirs heap n with
  | none => none
  | some none => some { a with ret := 2 ^ 32 - 1 }
  | some (some place) =>
      a.pcurrent.map fun p => { a with cdir := Function.update a.cdir p (some place), ret := 1 }

/-- The entries of a directory, the last one first, or the name of a file. -/
def ls (heap : Nat → Bool) (path : CString) : Option DiskSession :=
  match a.lookup dirs heap path with
  | none => none
  | some none =>
      some (a.puts (text "ls: cannot access '" ++ path.chars ++
        text "': No such file or directory\n") 1)
  | some (some place) =>
      (dirs.fileAt place).map fun f =>
        if f.directory then
          a.puts (text "Contents of " ++ path.chars ++ text ":\n" ++
            (dirs f.inode).reverse.flatMap Entry.line) 0
        else a.puts (place.headD [] ++ text "\n") 0

/-- What a file holds. -/
def cat (heap : Nat → Bool) (name : List UInt8) (fullPath : Option CString)
    (buffer : Option Buffer) : Option DiskSession :=
  match fullPath with
  | none => some (a.puts (text "cat: memory allocation failed\n") 1)
  | some p =>
      match a.lookup dirs heap p with
      | none => none
      | some none =>
          some (a.puts (text "cat: " ++ name ++ text ": No such file or directory\n") 1)
      | some (some place) =>
          (dirs.fileAt place).map fun f =>
            if f.directory then a.puts (text "cat: " ++ name ++ text ": Is a directory\n") 1
            else if buffer = none ∧ m.contents disk f.inode ≠ [] then
              a.puts (text "cat: unable to allocate buffer\n") 1
            else a.puts (m.contents disk f.inode ++ text "\n") 0

def step (a : DiskSession) : SessionCall σ → Option DiskSession
  | .chdir heap n => a.chdir dirs heap n
  | .ls heap path => a.ls dirs heap path
  | .cat heap name fullPath buffer => a.cat m disk dirs heap name fullPath buffer
  | .schedule pcurrent => some { a with pcurrent := pcurrent }
  | .fork child =>
      a.pcurrent.map fun p => { a with cdir := Function.update a.cdir child (a.cdir p) }
  | .other _ => some a

end DiskSession

/-! ## One command -/

section
variable {σ : Type} {m : Ext2Mount σ} {disk : Buffer} {cap : Nat}
  {good : List Bool → Volume σ → Prop} {dirs : Directories} {new : New} {root : Nat}
  {s : FileSession σ} {a : DiskSession}

/-- The session shows what the disk says. -/
structure Shows (m : Ext2Mount σ) (disk : Buffer) (good : List Bool → Volume σ → Prop)
    (dirs : Directories) (root : Nat) (s : FileSession σ) (a : DiskSession) : Prop where
  mirror : m.Mirror disk good dirs root s.live
  pcurrent : s.pcurrent = a.pcurrent
  cdir : ∀ p, Ext2Mount.Names root s.live.tree (s.cdir p) (a.cdir p)
  console : s.console = a.console
  ret : s.ret = a.ret

theorem Shows.puts (h : Shows m disk good dirs root s a) (text : List UInt8) (ret : Nat) :
    Shows m disk good dirs root (s.puts text ret) (a.puts text ret) :=
  ⟨h.mirror, h.pcurrent, h.cdir, congrArg (fun c => c.putcs text) h.console, rfl⟩

theorem Shows.live (h : Shows m disk good dirs root s a) {live : Live σ}
    (hm : m.Mirror disk good dirs root live) (hl : Ext2Mount.Later root s.live.tree live.tree) :
    Shows m disk good dirs root { s with live := live } a :=
  ⟨hm, h.pcurrent, fun p => hl.names (h.cdir p), h.console, h.ret⟩

/-- What a lookup gives and what the disk says: a fault, nothing, or a file and its place. -/
inductive Looked (m : Ext2Mount σ) (disk : Buffer) (good : List Bool → Volume σ → Prop)
    (dirs : Directories) (root : Nat) (a : DiskSession) :
    Option (Nat × FileSession σ) → Option (Option Place) → Prop where
  | fault : Looked m disk good dirs root a none none
  | nothing {s : FileSession σ} (hs : Shows m disk good dirs root s a) :
      Looked m disk good dirs root a (some (0, s)) (some none)
  | file {s : FileSession σ} {n : Nat} {place : Place} {f : DiskFile}
      (hs : Shows m disk good dirs root s a)
      (hname : Ext2Mount.Names root s.live.tree n (some place)) (hn : n ≠ 0)
      (hf : dirs.fileAt place = some f) (hat : m.AtDisk disk s.live.tree n f) :
      Looked m disk good dirs root a (some (n, s)) (some (some place))

/-- **A lookup** finds the file that the disk has at the place. -/
theorem Shows.lookup (hw : m.Works disk cap good) (hdirs : m.DirectoriesOn disk dirs cap)
    (hample : Ample new root) (h : Shows m disk good dirs root s a) (heap : Nat → Bool)
    (p : CString) :
    Looked m disk good dirs root a (s.lookup new root heap p) (a.lookup dirs heap p) := by
  have hcurrent : Option.Rel (Ext2Mount.Names root s.live.tree) (s.pcurrent.map s.cdir)
      (a.pcurrent.map a.cdir) := by
    rw [h.pcurrent]
    cases a.pcurrent with
    | none => exact .none
    | some p => exact .some (h.cdir p)
  have hagree := Ext2Mount.path_agrees hw hdirs hample h.mirror hcurrent heap p
  unfold FileSession.lookup DiskSession.lookup
  generalize s.live.path new root _ heap p = r at hagree
  generalize dirs.path _ heap p = r' at hagree
  cases hagree with
  | error e => exact .fault
  | @ok r o hr =>
      have hs := h.live hr.mirror hr.later
      have hname := hr.names
      dsimp only
      rw [if_pos hr.ending]
      cases o with
      | none =>
          have hnull : r.file = 0 := hname
          rw [hnull]
          exact .nothing hs
      | some place =>
          obtain ⟨hin, f, hf, hat⟩ := hr.mirror.unfolds.atDisk hname
          exact .file hs hname (Ext2Mount.inside_ne_zero hr.mirror.unfolds hin) hf hat

theorem Shows.chdir (hw : m.Works disk cap good) (hdirs : m.DirectoriesOn disk dirs cap)
    (hample : Ample new root) (h : Shows m disk good dirs root s a) (heap : Nat → Bool)
    (n : CString) :
    Option.Rel (Shows m disk good dirs root) (s.chdir new root heap n) (a.chdir dirs heap n) := by
  have hlook := h.lookup hw hdirs hample heap n
  unfold FileSession.chdir DiskSession.chdir
  generalize s.lookup new root heap n = x at hlook
  generalize a.lookup dirs heap n = o at hlook
  cases hlook with
  | fault => exact .none
  | nothing hs => exact .some ⟨hs.mirror, hs.pcurrent, hs.cdir, hs.console, rfl⟩
  | file hs hname hn =>
      dsimp only
      rw [if_neg hn, hs.pcurrent]
      cases a.pcurrent with
      | none => exact .none
      | some p =>
          refine .some ⟨hs.mirror, rfl, fun q => ?_, hs.console, rfl⟩
          dsimp only
          rw [Function.update_apply, Function.update_apply]
          split
          · exact hname
          · exact hs.cdir q

/-- The loop of `ls` puts out a line for each child. -/
theorem lsLoop_eq (t : FileTree) {l : List Nat} {fuel child : Nat}
    (hl : Sll 0 (fun f => (t.file f).next) child l) (hfuel : l.length < fuel) :
    lsLoop t fuel child = l.flatMap fun f => lsLine (t.file f).name (t.file f).type := by
  induction l generalizing fuel child with
  | nil =>
      obtain ⟨fuel, rfl⟩ : ∃ n, fuel = n + 1 := ⟨fuel - 1, by omega⟩
      exact if_pos hl
  | cons f l ih =>
      obtain ⟨fuel, rfl⟩ : ∃ n, fuel = n + 1 := ⟨fuel - 1, by omega⟩
      obtain ⟨rfl, hf, hl⟩ := hl
      rw [lsLoop, if_neg hf, ih hl (by simpa using hfuel), List.flatMap_cons]

/-- The lines of the nodes are those of the entries. -/
theorem lines_eq {t : Ext2Tree σ} {ns : List Nat} {es : List Entry}
    (h : List.Forall₂ (m.Stands disk t) ns es) :
    (ns.flatMap fun f => lsLine (t.file f).name (t.file f).type) = es.flatMap Entry.line := by
  induction h with
  | nil => rfl
  | cons hs _ ih =>
      rw [List.flatMap_cons, List.flatMap_cons, ih, hs.name, hs.type]
      rfl

/-- The name of a regular file is the last one of its place. -/
theorem name_eq_headD {t : Ext2Tree σ} {n : Nat} {place : Place} {f : DiskFile}
    (hname : Ext2Mount.Names root t n (some place)) (hf : dirs.fileAt place = some f)
    (hdir : ¬f.directory = true) : (t.file n).name = place.headD [] := by
  cases place with
  | nil =>
      cases hf
      exact absurd rfl hdir
  | cons c place =>
      obtain ⟨d, -, hk⟩ := placed_cons_some hname
      unfold FileTree.childOf at hk
      have hnamed := List.find?_some hk
      exact of_decide_eq_true hnamed

/-- `scan` of a directory, and the lines that `ls` puts out then. -/
theorem Shows.scan (hw : m.Works disk cap good) (hdirs : m.DirectoriesOn disk dirs cap)
    (hample : Ample new root) (h : Shows m disk good dirs root s a) {n : Nat} {place : Place}
    {f : DiskFile} (hname : Ext2Mount.Names root s.live.tree n (some place))
    (hf : dirs.fileAt place = some f) (hdir : f.directory = true) :
    (s.live.scan new n).1 = .done ∧
      Shows m disk good dirs root { s with live := (s.live.scan new n).2 } a ∧
      lsLoop (s.live.scan new n).2.tree.toFileTree turns
          ((s.live.scan new n).2.tree.file n).child =
        (dirs f.inode).reverse.flatMap Entry.line := by
  obtain ⟨hend, hmirror, hlater, hloaded⟩ := h.mirror.scan hw hdirs hample hname hf hdir
  generalize s.live.scan new n = y at hend hmirror hlater hloaded ⊢
  obtain ⟨hin, f', hf', hat⟩ := hmirror.unfolds.atDisk (hlater place n hname)
  obtain rfl := Option.some.inj (hf.symm.trans hf')
  obtain ⟨-, ns, hkids, hns⟩ := hmirror.unfolds.full n hin hloaded
  refine ⟨hend, h.live hmirror hlater, ?_⟩
  rw [lsLoop_eq _ (y.2.tree.linked n) (y.2.tree.short n), hkids, ← hat.inode]
  exact lines_eq (List.rel_reverse hns)

theorem Shows.ls (hw : m.Works disk cap good) (hdirs : m.DirectoriesOn disk dirs cap)
    (hample : Ample new root) (h : Shows m disk good dirs root s a) (heap : Nat → Bool)
    (path : CString) :
    Option.Rel (Shows m disk good dirs root) (s.ls new root heap path) (a.ls dirs heap path) := by
  have hlook := h.lookup hw hdirs hample heap path
  unfold FileSession.ls DiskSession.ls
  generalize s.lookup new root heap path = x at hlook
  generalize a.lookup dirs heap path = o at hlook
  cases hlook with
  | fault => exact .none
  | nothing hs => exact .some (hs.puts _ _)
  | @file s' n place f hs hname hn hf hat =>
      dsimp only
      rw [if_neg hn, hf, Option.map_some]
      by_cases hdir : f.directory = true
      · obtain ⟨hend, hscanned, hlines⟩ := hs.scan hw hdirs hample hname hf hdir
        rw [if_neg (not_not.mpr (hat.type_iff.mpr hdir)), if_pos hdir]
        generalize s'.live.scan new n = y at hend hscanned hlines
        obtain ⟨ending, live⟩ := y
        dsimp only at hend hscanned hlines ⊢
        rw [if_neg (not_not.mpr hend), hlines]
        exact .some (hscanned.puts _ _)
      · rw [if_pos (fun he => hdir (hat.type_iff.mp he)), if_neg hdir,
          name_eq_headD hname hf hdir]
        exact .some (hs.puts _ _)

/-- What `cat` makes of a result. -/
theorem Shows.ran (h : Shows m disk good dirs root s a) {w : Shell.CatWorld σ}
    {name out : List UInt8} {code : Nat} (file : Option (FileObject σ))
    (hcat : Shell.cmdCat w turns [text "cat", name] s.console =
      some ⟨code, s.console.putcs out, file⟩)
    (hfile : ∀ f, file = some f → ∃ ino v, f = .ext2RegularFile ⟨some m, ino, v⟩ ∧ good [] v) :
    Option.Rel (Shows m disk good dirs root) (s.runCat name w) (some (a.puts out code)) := by
  unfold FileSession.runCat
  rw [hcat, Option.map_some]
  refine .some ⟨?_, h.pcurrent, ?_, congrArg (fun c => c.putcs out) h.console, rfl⟩
  · cases file with
    | none => exact h.mirror
    | some f =>
        obtain ⟨ino, v, rfl, hv⟩ := hfile f rfl
        exact ⟨h.mirror.unfolds, hv⟩
  · cases file with
    | none => exact h.cdir
    | some f =>
        obtain ⟨ino, v, rfl, -⟩ := hfile f rfl
        exact h.cdir

/-- `cat` of a regular file. -/
theorem Shows.catFile (hw : m.Works disk cap good) (h : Shows m disk good dirs root s a) {n : Nat}
    {f : DiskFile} (hat : m.AtDisk disk s.live.tree n f) (hdir : ¬f.directory = true)
    (hon : m.FileOn disk cap f.inode) (name : List UInt8) (buffer : Option Buffer) :
    Option.Rel (Shows m disk good dirs root)
      (s.runCat name ⟨true, some (s.object n), buffer⟩)
      (some (if buffer = none ∧ m.contents disk f.inode ≠ [] then
          a.puts (text "cat: unable to allocate buffer\n") 1
        else a.puts (m.contents disk f.inode ++ text "\n") 0)) := by
  obtain ⟨hbs, -⟩ := hw.answers.blockSize_bound h.mirror.good
  have htype : decide ((s.live.tree.file n).type = .directory) = false :=
    decide_eq_false fun he => hdir (hat.type_iff.mp he)
  have hsize : (UInt32.ofNat (s.live.tree.node n).size).toNat =
      (m.contents disk f.inode).length := by
    rw [Ext2Mount.contents_length hbs, hat.size (Bool.eq_false_of_not_eq_true hdir)]
    exact UInt32.toNat_ofNat_of_lt' (Memory.load32_lt _ _)
  unfold FileSession.object
  rw [hat.mount, hat.inode, htype]
  generalize UInt32.ofNat (s.live.tree.node n).size = fileSize at hsize
  cases buffer with
  | some b =>
      obtain ⟨file, v', hcat, hv', hfile⟩ := Shell.cmdCat_prints hw hon h.mirror.good hsize b
        (text "cat") name [] s.console (show fileSize.toNat < turns from fileSize.toNat_lt)
      rw [if_neg (fun hno => nomatch hno.1)]
      exact h.ran file hcat fun f' hf' => ⟨f.inode, v', hfile f' hf', hv'⟩
  | none =>
      by_cases hnil : m.contents disk f.inode = []
      · have h0 : fileSize = 0 := by
          rw [hnil] at hsize
          exact UInt32.toNat_inj.mp hsize
        rw [if_neg (fun hno => hno.2 hnil), hnil, h0]
        exact h.ran none rfl fun f hf => nomatch hf
      · have h0 : ¬fileSize = 0 := by
          rintro rfl
          exact hnil (List.length_eq_zero_iff.mp hsize.symm)
        rw [if_pos ⟨rfl, hnil⟩]
        refine h.ran none ?_ fun f hf => nomatch hf
        unfold Shell.cmdCat
        dsimp only
        rw [if_neg Bool.noConfusion, if_neg Bool.noConfusion, if_neg h0]

theorem Shows.cat (hw : m.Works disk cap good) (hdirs : m.DirectoriesOn disk dirs cap)
    (hample : Ample new root) (h : Shows m disk good dirs root s a) (heap : Nat → Bool)
    (name : List UInt8) (fullPath : Option CString) (buffer : Option Buffer) :
    Option.Rel (Shows m disk good dirs root) (s.cat new root heap name fullPath buffer)
      (a.cat m disk dirs heap name fullPath buffer) := by
  unfold FileSession.cat DiskSession.cat
  cases fullPath with
  | none => exact h.ran none rfl fun f hf => nomatch hf
  | some p =>
      have hlook := h.lookup hw hdirs hample heap p
      dsimp only
      generalize s.lookup new root heap p = x at hlook
      generalize a.lookup dirs heap p = o at hlook
      cases hlook with
      | fault => exact .none
      | nothing hs => exact hs.ran none rfl fun f hf => nomatch hf
      | @file s' n place f hs hname hn hf hat =>
          dsimp only
          rw [if_neg hn, hf, Option.map_some]
          by_cases hdir : f.directory = true
          · have htype : decide ((s'.live.tree.file n).type = .directory) = true :=
              decide_eq_true (hat.type_iff.mpr hdir)
            rw [if_pos hdir]
            refine hs.ran none ?_ fun f hf => nomatch hf
            unfold FileSession.object
            rw [htype]
            rfl
          · rw [if_neg hdir]
            exact hs.catFile hw hat hdir
              (hdirs.file place f hf (Bool.eq_false_of_not_eq_true hdir)) name buffer

/-- **One command or call.** -/
theorem Shows.step (hw : m.Works disk cap good) (hdirs : m.DirectoriesOn disk dirs cap)
    (hample : Ample new root) (h : Shows m disk good dirs root s a) (c : SessionCall σ)
    (hc : ∀ v, c = .other v → good [] v) :
    Option.Rel (Shows m disk good dirs root) (s.step new root c) (a.step m disk dirs c) := by
  cases c with
  | chdir heap n => exact h.chdir hw hdirs hample heap n
  | ls heap path => exact h.ls hw hdirs hample heap path
  | cat heap name fullPath buffer => exact h.cat hw hdirs hample heap name fullPath buffer
  | schedule p => exact .some ⟨h.mirror, rfl, h.cdir, h.console, h.ret⟩
  | fork child =>
      unfold FileSession.step DiskSession.step
      dsimp only
      rw [h.pcurrent]
      cases a.pcurrent with
      | none => exact .none
      | some p =>
          refine .some ⟨h.mirror, rfl, fun q => ?_, h.console, h.ret⟩
          dsimp only
          rw [Function.update_apply, Function.update_apply]
          split
          · exact h.cdir p
          · exact h.cdir q
  | other v => exact .some ⟨⟨h.mirror.unfolds, hc v rfl⟩, h.pcurrent, h.cdir, h.console, h.ret⟩

/-! ## All commands -/

end

/-! ## A directory with one file -/

open Classical in
/-- An allocator with room behind the address `b`. -/
noncomputable def newBehind (b : Nat) : New := fun t this =>
  if h : ∃ n, b < n ∧ t.Fresh this n then some ⟨h.choose, h.choose_spec.2⟩ else none

theorem newBehind_ample (b : Nat) : Ample (newBehind b) b where
  finds := by
    rintro t d ⟨b', hb'⟩ hroom
    have hex : ∃ n, b < n ∧ t.Fresh d n := by
      refine ⟨b + b' + d + 1, by omega, by omega, by omega, fun x hx => ?_, hroom⟩
      have := hb' x _ hx
      omega
    exact ⟨_, dif_pos hex⟩
  apart t d n hn := by
    unfold newBehind at hn
    split at hn
    · next hex =>
        cases hn
        exact Nat.ne_of_gt hex.choose_spec.1
    · cases hn

/-- The entry of the file `a`. -/
def oneFile : Directories := fun i => if i = ext2RootIno then [⟨3, 1, [0x61]⟩] else []

theorem oneFile_files {place : Place} {f : DiskFile} (h : oneFile.fileAt place = some f) :
    f = ⟨ext2RootIno, true⟩ ∨ f = ⟨3, false⟩ := by
  refine placed_induct (P := fun f => f = ⟨ext2RootIno, true⟩ ∨ f = ⟨3, false⟩) (Or.inl rfl)
    (fun f c g hf hg => ?_) h
  rcases hf with rfl | rfl
  · obtain ⟨e, he, rfl⟩ := Option.map_eq_some_iff.mp hg
    have hmem := List.mem_reverse.mp (List.mem_of_find?_eq_some he)
    obtain rfl := List.mem_singleton.mp hmem
    exact Or.inr rfl
  · exact nomatch hg

theorem oneFile_on : Ext2Mount.tapeMount.DirectoriesOn (Ext2Mount.oneEntry 0x61) oneFile 4095 where
  directory place f hf hdir := by
    rcases oneFile_files hf with rfl | rfl
    · exact ⟨Ext2Mount.tapeMount_inodeOn, _, Ext2Mount.oneEntry_directory 0x61, rfl⟩
    · exact nomatch hdir
  file place f hf hdir := by
    rcases oneFile_files hf with rfl | rfl
    · exact nomatch hdir
    · have hplace : Ext2Mount.tapeMount.inodePlace 3 = 1280 := by decide
      have hsize : (Ext2Mount.tapeMount.diskInode (Ext2Mount.oneEntry 0x61) 3).iSize = 0 := by
        unfold Ext2Mount.diskInode
        rw [hplace]
        rfl
      refine ⟨⟨by decide, by decide⟩, fun j hj => ?_⟩
      rw [hsize] at hj
      exact absurd hj (Nat.not_lt_zero _)

/-- `ls /`, `cat /a`, and `chdir("/")`. -/
def lookAround : List (SessionCall (List Bool × Buffer)) :=
  let memory := fun _ => true
  [.ls memory Shell.rootText, .cat memory (text "/a") (some ⟨[slash, 0x61], by decide⟩) none,
    .chdir memory Shell.rootText]

/-- What the disk says. -/
example :
    ((lookAround.foldlM (DiskSession.step Ext2Mount.tapeMount (Ext2Mount.oneEntry 0x61) oneFile)
      ⟨some 0, fun _ => none, Console.init fun _ => 0, 0⟩).map fun a => (a.cdir 0, a.ret)) =
        some (some [], 1) := by
  decide +kernel

end KmOS
