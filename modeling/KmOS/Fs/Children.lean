/-
# `KmOS.Fs.Children` — the names and the children of files

The constructor of `File`, `checkName` and `addChild`.  A file is added at an
address where no file of the tree is, so that the children stay a list
(`FileTree.addChild`).
-/
import KmOS.Fs.Model

namespace KmOS

/-! ## Names -/

def strreplace (s : List UInt8) (a b : UInt8) : List UInt8 := s.map fun c => if c = a then b else c

/-- `'_'`. -/
def charReplacement : UInt8 := 0x5F

/-- `{'/', '\\', '?', ':', '>', '<', '*', '"'}`. -/
def invalidChars : List UInt8 := [0x2F, 0x5C, 0x3F, 0x3A, 0x3E, 0x3C, 0x2A, 0x22]

/-- `File::checkName`. -/
def checkName (name : List UInt8) : List UInt8 :=
  invalidChars.foldl (fun s c => strreplace s c charReplacement) name

/-- Replacing one character after the other replaces them all, where none is
replaced by another of them. -/
theorem foldl_strreplace {b : UInt8} (l : List UInt8) (hb : b ∉ l) (s : List UInt8) :
    l.foldl (fun s c => strreplace s c b) s = s.map fun c => if c ∈ l then b else c := by
  induction l generalizing s with
  | nil =>
      simp only [List.foldl_nil, List.not_mem_nil, if_false]
      exact (List.map_id' s).symm
  | cons a l ih =>
      have hl : b ∉ l := fun h => hb (List.mem_cons_of_mem a h)
      rw [List.foldl_cons, ih hl]
      unfold strreplace
      rw [List.map_map]
      refine List.map_congr_left fun c _ => ?_
      show (if (if c = a then b else c) ∈ l then b else if c = a then b else c) = _
      by_cases hc : c = a
      · rw [if_pos hc, if_neg hl, if_pos (hc ▸ List.mem_cons_self)]
      · simp only [hc, if_false, List.mem_cons, false_or]

theorem checkName_eq (s : List UInt8) :
    checkName s = s.map fun c => if c ∈ invalidChars then charReplacement else c :=
  foldl_strreplace invalidChars (by decide) s

/-- A name is kept if no character of it is replaced. -/
theorem checkName_eq_self_iff (s : List UInt8) : checkName s = s ↔ ∀ c ∈ s, c ∉ invalidChars := by
  have hvalid : charReplacement ∉ invalidChars := by decide
  rw [checkName_eq]
  constructor
  · intro h c hc hbad
    have hmap := List.map_eq_map_iff.mp (h.trans (List.map_id' s).symm) c hc
    rw [if_pos hbad] at hmap
    exact hvalid (hmap ▸ hbad)
  · intro h
    refine (List.map_congr_left fun c hc => ?_).trans (List.map_id' s)
    rw [if_neg (h c hc)]

/-- `File::File`. -/
def File.new (n : List UInt8) (t : FileType) : File where
  name := checkName n
  type := t

/-! ## Children -/

/-- What `addChild` stores. -/
def addChildFiles (file : Nat → File) (this n : Nat) : Nat → File :=
  let child := (file this).child
  let file := Function.update file n { file n with parent := this, prec := 0, next := child }
  let file := if child ≠ 0 then Function.update file child { file child with prec := n } else file
  Function.update file this { file this with child := n }

section
variable {file : Nat → File} {this n x : Nat}

theorem addChildFiles_name : (addChildFiles file this n x).name = (file x).name := by
  unfold addChildFiles
  grind [Function.update_apply]

theorem addChildFiles_type : (addChildFiles file this n x).type = (file x).type := by
  unfold addChildFiles
  grind [Function.update_apply]

theorem addChildFiles_child :
    (addChildFiles file this n x).child = if x = this then n else (file x).child := by
  unfold addChildFiles
  grind [Function.update_apply]

theorem addChildFiles_next :
    (addChildFiles file this n x).next = if x = n then (file this).child else (file x).next := by
  unfold addChildFiles
  grind [Function.update_apply]

end

namespace FileTree

/-- There is no file of the tree at `n`, and room for a child of `this`. -/
structure Fresh (t : FileTree) (this n : Nat) : Prop where
  notNull : n ≠ 0
  other : n ≠ this
  apart : ∀ d, n ∉ t.kids d
  room : (t.kids this).length + 1 < turns

/-- `new File(name, type)` at `n`, and `this->addChild`. -/
def addChild (t : FileTree) (this : Nat) (n : { n // t.Fresh this n }) (name : List UInt8)
    (type : FileType) : FileTree where
  file := addChildFiles (Function.update t.file n (File.new name type)) this n
  kids d := if d = this then n :: t.kids this else if d = n then [] else t.kids d
  linked d := by
    obtain ⟨n, hn⟩ := n
    have hchild :
        (Function.update t.file n (File.new name type) this).child = (t.file this).child := by
      rw [Function.update_of_ne (Ne.symm hn.other)]
    -- the links of the files that were children stay
    have hkeep : ∀ d, ∀ b ∈ t.kids d,
        (addChildFiles (Function.update t.file n (File.new name type)) this n b).next =
          (t.file b).next := by
      intro d b hb
      have hne : b ≠ n := fun e => hn.apart d (e ▸ hb)
      rw [addChildFiles_next, if_neg hne, Function.update_of_ne hne]
    dsimp only
    rw [addChildFiles_child]
    split
    · refine (t.linked this).push hn.notNull ?_ (hkeep this)
      rw [addChildFiles_next, if_pos rfl, hchild]
    split
    · next hd =>
        rw [hd, Function.update_self]
        exact rfl
    · next hd =>
        rw [Function.update_of_ne hd]
        exact (t.linked d).congr (hkeep d)
  short d := by
    split
    · exact n.2.room
    split
    · decide
    · exact t.short d

variable {t : FileTree} {this : Nat} {n : { n // t.Fresh this n }} {name : List UInt8}
  {type : FileType}

theorem kids_nodup (t : FileTree) (d : Nat) : (t.kids d).Nodup := (t.linked d).nodup

@[simp] theorem addChild_kids : (t.addChild this n name type).kids this = n.1 :: t.kids this :=
  if_pos rfl

/-- The name of the new child, and those of the other files. -/
theorem addChild_name (x : Nat) : ((t.addChild this n name type).file x).name =
    if x = n then checkName name else (t.file x).name := by
  unfold addChild
  rw [addChildFiles_name, Function.update_apply]
  split <;> rfl

theorem addChild_type (x : Nat) :
    ((t.addChild this n name type).file x).type = if x = n then type else (t.file x).type := by
  unfold addChild
  rw [addChildFiles_type, Function.update_apply]
  split <;> rfl

end FileTree

end KmOS
