/-
# `KmOS.Ext2.Growth` — loading a directory only adds to the tree

`load_directory` changes the tree in one way only: it adds children of the directory,
one after the other (`Grown`).  So all files that were there stay as they are, and where
they are (`Frame`).  On a healthy device the device stays healthy
(`loadDirectory_healthy`), and if there is memory for more files (`Ample`), there is
memory for all children of a directory.
-/
import KmOS.Ext2.Loading

namespace KmOS

/-! ## Adding a child -/

theorem addChildFiles_parent {file : Nat → File} {this n x : Nat} :
    (addChildFiles file this n x).parent = if x = n then this else (file x).parent := by
  unfold addChildFiles
  grind [Function.update_apply]

namespace FileTree

/-- The files that can be reached from `root`. -/
inductive Inside (t : FileTree) (root : Nat) : Nat → Prop
  | root : Inside t root root
  | kid {d k : Nat} : Inside t root d → k ∈ t.kids d → Inside t root k

/-- The addresses of the files end somewhere. -/
def Bounded (t : FileTree) : Prop := ∃ b, ∀ d, ∀ n ∈ t.kids d, n < b

variable {t : FileTree} {this : Nat} {n : { n // t.Fresh this n }} {name : List UInt8}
  {type : FileType}

theorem addChild_parent (x : Nat) : ((t.addChild this n name type).file x).parent =
    if x = n then this else (t.file x).parent := by
  unfold addChild
  rw [addChildFiles_parent, Function.update_apply]
  split <;> rfl

/-- The children of the others. -/
theorem addChild_kids_of_ne {x : Nat} (hx : x ≠ this) :
    (t.addChild this n name type).kids x = if x = n then [] else t.kids x := if_neg hx

theorem Bounded.addChild (h : t.Bounded) : (t.addChild this n name type).Bounded := by
  obtain ⟨b, hb⟩ := h
  refine ⟨max b (n.1 + 1), fun d x hx => ?_⟩
  have old : ∀ d, x ∈ t.kids d → x < max b (n.1 + 1) := fun d hx =>
    Nat.lt_of_lt_of_le (hb d x hx) (Nat.le_max_left _ _)
  by_cases hd : d = this
  · rw [hd, addChild_kids] at hx
    cases hx with
    | head => exact Nat.lt_of_lt_of_le (Nat.lt_succ_self _) (Nat.le_max_right _ _)
    | tail _ hx => exact old _ hx
  · rw [addChild_kids_of_ne hd] at hx
    split at hx
    · cases hx
    · exact old _ hx

end FileTree

/-! ## Entries and memory -/

/-- An entry takes eight bytes at least. -/
theorem Tiled.length_le {block : Buffer} {n o : Nat} (h : Tiled block n o es) :
    o + 8 * es.length ≤ n := by
  induction h with
  | full => simp
  | unused hname _ _ _ ih => omega
  | used hname _ _ _ ih =>
      rw [List.length_cons]
      omega

theorem length_flatten_le {blocks : List (List Entry)} {n : Nat}
    (h : ∀ es ∈ blocks, 8 * es.length ≤ n) : 8 * blocks.flatten.length ≤ blocks.length * n := by
  induction blocks with
  | nil => simp
  | cons es blocks ih =>
      have hes := h es List.mem_cons_self
      have hrest := ih fun es hes => h es (List.mem_cons_of_mem _ hes)
      rw [List.flatten_cons, List.length_append, List.length_cons, Nat.succ_mul blocks.length]
      omega

/-- `new` finds memory as long as a directory has room, and never where the root is. -/
structure Ample (new : New) (root : Nat) : Prop where
  finds : ∀ t d, t.Bounded → (t.kids d).length + 1 < turns → ∃ n, new t d = some n
  apart : ∀ t d n, new t d = some n → n.1 ≠ root

/-- The size of a directory is one of four things about it. -/
theorem Ext2Tree.setSize_node {σ : Type} (t : Ext2Tree σ) (n size x : Nat) :
    ((t.setSize n size).node x).mount = (t.node x).mount ∧
      ((t.setSize n size).node x).inode = (t.node x).inode ∧
      ((t.setSize n size).node x).loaded = (t.node x).loaded ∧
      (((t.setSize n size).node x).size = (t.node x).size ∨
        x = n ∧ ((t.setSize n size).node x).size = size) := by
  unfold setSize
  dsimp only
  rw [Function.update_apply]
  split
  · next h =>
      rw [h]
      exact ⟨rfl, rfl, rfl, Or.inr ⟨rfl, rfl⟩⟩
  · exact ⟨rfl, rfl, rfl, Or.inl rfl⟩

namespace Ext2Mount

variable {σ : Type} {m : Ext2Mount σ} {new : New} {root dir : Nat} {t t' : Ext2Tree σ}

/-- There is memory for as many children as there is room for. -/
theorem memory_of_ample (h : Ample new root) {k : Nat} {t : FileTree} (hb : t.Bounded)
    (hk : (t.kids dir).length + k < turns) : Memory new dir k t := by
  induction k generalizing t with
  | zero => trivial
  | succ k ih =>
      obtain ⟨n, hn⟩ := h.finds t dir hb (by omega)
      refine ⟨n, hn, fun name type => ih hb.addChild ?_⟩
      rw [FileTree.addChild_kids, List.length_cons]
      omega

/-! ## Growing -/

/-- `t'` is `t` with children of `dir` added, one after the other. -/
inductive Grown (new : New) (dir : Nat) (t : Ext2Tree σ) : Ext2Tree σ → Prop
  | refl : Grown new dir t t
  | add {t' : Ext2Tree σ} {n : { n // t'.Fresh dir n }} {mount : Option (Ext2Mount σ)}
      {name : List UInt8} {type : FileType} {inode size : Nat} :
      Grown new dir t t' → new t'.toFileTree dir = some n →
      Grown new dir t (t'.addNode dir n name type ⟨mount, inode, size, false⟩)

/-- **What growing leaves**: `ns` are the new children, in front of the old ones. -/
structure Frame (root dir : Nat) (t t' : Ext2Tree σ) (ns : List Nat) : Prop where
  kids : t'.kids dir = ns ++ t.kids dir
  others : ∀ x, x ∉ ns → x ≠ dir → t'.kids x = t.kids x
  same : ∀ x, x ∉ ns → SameNode t t' x ∧ (t'.file x).parent = (t.file x).parent
  apart : ∀ x ∈ ns, x ≠ root ∧ ¬t.Inside root x
  fresh : ∀ x ∈ ns, t'.kids x = [] ∧ (t'.file x).parent = dir ∧ (t'.node x).loaded = false

/-- What was inside stays there. -/
theorem Frame.inside {ns : List Nat} (h : Frame root dir t t' ns) {x : Nat}
    (hx : t.Inside root x) : x ∉ ns ∧ t'.Inside root x := by
  have hold : ∀ x, t.Inside root x → x ∉ ns := fun x hx hin => (h.apart x hin).2 hx
  refine ⟨hold x hx, ?_⟩
  induction hx with
  | root => exact .root
  | @kid d k hd hk ih =>
      refine .kid ih ?_
      by_cases hdir : d = dir
      · rw [hdir, h.kids]
        exact List.mem_append_right _ (hdir ▸ hk)
      · rw [h.others d (hold d hd) hdir]
        exact hk

theorem Frame.refl : Frame root dir t t [] where
  kids := rfl
  others _ _ _ := rfl
  same _ _ := ⟨⟨rfl, rfl, rfl⟩, rfl⟩
  apart _ hx := nomatch hx
  fresh _ hx := nomatch hx

theorem Frame.add {ns : List Nat} (h : Frame root dir t t' ns) {n : { n // t'.Fresh dir n }}
    (hroot : n.1 ≠ root) {name : List UInt8} {type : FileType} {node : Ext2Node σ}
    (hloaded : node.loaded = false) :
    Frame root dir t (t'.addNode dir n name type node) (n.1 :: ns) := by
  obtain ⟨n, hn⟩ := n
  have hne : ∀ x, x ∈ t'.kids dir → x ≠ n := fun x hx e => hn.apart dir (e ▸ hx)
  have hkids : ∀ x, x ≠ n → x ≠ dir → (t'.addNode dir ⟨n, hn⟩ name type node).kids x = t'.kids x :=
    fun x hx hd => (FileTree.addChild_kids_of_ne hd).trans (if_neg hx)
  have hsame : ∀ x, x ≠ n → SameNode t' (t'.addNode dir ⟨n, hn⟩ name type node) x ∧
      ((t'.addNode dir ⟨n, hn⟩ name type node).file x).parent = (t'.file x).parent := fun x hx =>
    ⟨⟨(FileTree.addChild_name x).trans (if_neg hx), (FileTree.addChild_type x).trans (if_neg hx),
      Function.update_of_ne hx _ _⟩, (FileTree.addChild_parent x).trans (if_neg hx)⟩
  have hself : (t'.addNode dir ⟨n, hn⟩ name type node).node n = node := Function.update_self _ _ _
  refine ⟨?_, fun x hx hd => ?_, fun x hx => ?_, fun x hx => ?_, fun x hx => ?_⟩
  · exact FileTree.addChild_kids.trans (congrArg (n :: ·) h.kids)
  · obtain ⟨hxn, hxs⟩ := not_or.mp fun h => hx (List.mem_cons.mpr h)
    rw [hkids x hxn hd, h.others x hxs hd]
  · obtain ⟨hxn, hxs⟩ := not_or.mp fun h => hx (List.mem_cons.mpr h)
    obtain ⟨h₁, hp₁⟩ := h.same x hxs
    obtain ⟨h₂, hp₂⟩ := hsame x hxn
    exact ⟨⟨h₂.name.trans h₁.name, h₂.type.trans h₁.type, h₂.node.trans h₁.node⟩, hp₂.trans hp₁⟩
  · cases hx with
    | head =>
        refine ⟨hroot, fun hin => ?_⟩
        cases (h.inside hin).2 with
        | root => exact hroot rfl
        | kid _ hk => exact hn.apart _ hk
    | tail _ hx => exact h.apart x hx
  · cases hx with
    | head =>
        refine ⟨?_, (FileTree.addChild_parent n).trans (if_pos rfl), ?_⟩
        · exact (FileTree.addChild_kids_of_ne hn.other).trans (if_pos rfl)
        · rw [hself]
          exact hloaded
    | tail _ hx =>
        obtain ⟨hnil, hparent, hfalse⟩ := h.fresh x hx
        have hmem : x ∈ t'.kids dir := h.kids ▸ List.mem_append_left _ hx
        have hxn := hne x hmem
        obtain ⟨hs, hp⟩ := hsame x hxn
        have hxd : x ≠ dir := by
          rintro rfl
          rw [hnil] at hmem
          exact nomatch hmem
        exact ⟨(hkids x hxn hxd).trans hnil, hp.trans hparent,
          (congrArg Ext2Node.loaded hs.node).trans hfalse⟩

/-- **Growing leaves a frame.** -/
theorem Grown.frame (hample : Ample new root) (h : Grown new dir t t') :
    ∃ ns, Frame root dir t t' ns := by
  induction h with
  | refl => exact ⟨[], .refl⟩
  | add _ hn ih =>
      obtain ⟨ns, hf⟩ := ih
      exact ⟨_, hf.add (hample.apart _ _ _ hn) rfl⟩

theorem Grown.bounded (h : Grown new dir t t') (hb : t.Bounded) : t'.Bounded := by
  induction h with
  | refl => exact hb
  | add _ _ ih => exact ih.addChild

/-! ## `load_directory` grows the tree -/

variable {r : DirRead σ}

theorem newChild_grown {name : List UInt8} {type : FileType} {ino size : Nat}
    (h : Grown new dir t r.tree) :
    Grown new dir t (newChild new dir name type ino size r).2.tree := by
  unfold newChild
  split
  · exact h
  · next hn => exact .add h hn

theorem readEntry_grown (m : Ext2Mount σ) (h : Grown new dir t r.tree) :
    Grown new dir t (m.readEntry new dir r).2.tree := by
  unfold readEntry
  dsimp only
  split
  · exact h
  split
  · exact h
  split
  · exact h
  split
  · exact h
  · exact h
  split
  · exact newChild_grown h
  split
  · exact newChild_grown h
  · exact h

theorem entryLoop_grown (m : Ext2Mount σ) {total fuel : Nat} (h : Grown new dir t r.tree) :
    Grown new dir t (m.entryLoop new total dir fuel r).2.tree := by
  induction fuel generalizing r with
  | zero => exact h
  | succ fuel ih =>
      have hentry := readEntry_grown m (r := r.look (r.offset + 4) 2) h
      unfold entryLoop
      split
      · dsimp only
        split
        · exact h
        split
        · next r₁ hr =>
            rw [hr] at hentry
            exact ih hentry
        · exact hentry
      · exact h

theorem blockLoop_grown (m : Ext2Mount σ) {inode : Ext2Inode} {fuel : Nat}
    (h : Grown new dir t r.tree) :
    Grown new dir t (m.blockLoop new inode dir fuel r).2.tree := by
  induction fuel generalizing r with
  | zero => exact h
  | succ fuel ih =>
      unfold blockLoop
      split
      · dsimp only
        split
        · exact h
        split
        · exact h
        next hblock _ =>
        split
        · next r₁ hr =>
            have hentries := congrArg (fun x => x.2.tree) hr
            dsimp only at hentries
            refine ih ?_
            dsimp only
            rw [← hentries]
            exact entryLoop_grown m h
        · exact entryLoop_grown m h
      · exact h

/-- **Loading** says how long the directory is, and adds children. -/
theorem loadDirectory_grown (new : New) {v v' : Volume σ} {inode : Ext2Inode} (hdir : dir ≠ 0)
    (hread : m.readInode v (t.node dir).inode = some (some inode, v')) :
    Grown new dir (t.setSize dir inode.iSize) (m.loadDirectory new v t dir).tree := by
  unfold loadDirectory
  rw [if_neg hdir, hread]
  dsimp only
  split
  · exact .refl
  · exact blockLoop_grown m .refl

/-! ## The device stays healthy -/

variable {disk : Buffer} {cap : Nat} {good : List Bool → Volume σ → Prop} {v : Volume σ}
  {inode : Ext2Inode} {es : List Entry}

/-- How many entries a directory can have. -/
theorem DirectoryOn.length_lt {blocks : List (List Entry)}
    (hd : m.DirectoryOn disk cap inode blocks) (hsize : inode.iSize < 2 ^ 32) :
    blocks.flatten.length < 2 ^ 29 := by
  have hle : 8 * blocks.flatten.length ≤ blocks.length * m.blockSize := by
    refine length_flatten_le fun es hes => ?_
    obtain ⟨j, hj, rfl⟩ := List.getElem_of_mem hes
    have htiled := (hd.tiled j _ (List.getElem?_eq_getElem hj)).length_le
    omega
  have hs := hd.size
  omega

theorem Works.blockLoop_healthy (hw : m.Works disk cap good) {blocks rest : List (List Entry)}
    (hd : m.DirectoryOn disk cap inode blocks) (hsize : inode.iSize < 2 ^ 32) {j : Nat}
    (hj : r.blockIndex = j) (hrest : blocks.drop j = rest) (hp : r.processed = j * m.blockSize)
    (hm : (r.tree.node dir).mount = some m)
    (hmem : Memory new dir rest.flatten.length r.tree.toFileTree)
    (hle : j ≤ blocks.length) (hv : good [] r.volume) (fuel : Nat) :
    good [] (m.blockLoop new inode dir fuel r).2.volume := by
  induction fuel generalizing r j rest with
  | zero => exact hv
  | succ fuel ih =>
      cases rest with
      | nil =>
          have hlen := List.drop_eq_nil_iff.mp hrest
          have hend : ¬r.processed < inode.iSize := by
            rw [hp, hd.size, Nat.le_antisymm hle hlen]
            exact Nat.lt_irrefl _
          rw [Ext2Mount.blockLoop, if_neg hend]
          exact hv
      | cons es rest =>
          have hes : blocks[j]? = some es := by
            rw [← List.head?_drop, hrest]
            rfl
          have hrest' : blocks.drop (j + 1) = rest := by
            rw [← List.tail_drop, hrest]
            rfl
          obtain ⟨hlt, -⟩ := List.getElem?_eq_some_iff.mp hes
          rw [List.flatten_cons, List.length_append] at hmem
          obtain ⟨r₁, hturn, hj₁, hp₁, -, hv₁, hmem₁, hadd⟩ :=
            hw.blockLoop_turn hd hsize hj hes hp hm hmem hv (supplied_empty _)
          rw [addEntries_tape, List.drop_nil, List.drop_nil] at hv₁
          rw [hturn]
          exact ih hj₁ hrest' hp₁ ((congrArg Ext2Node.mount hadd.dirNode).trans hm) hmem₁ hlt hv₁

/-- **Loading a directory** leaves a healthy device healthy. -/
theorem Works.loadDirectory_healthy (hw : m.Works disk cap good) (hdir : dir ≠ 0)
    (hi : m.InodeOn cap (t.node dir).inode) {blocks : List (List Entry)}
    (hd : m.DirectoryOn disk cap (m.diskInode disk (t.node dir).inode) blocks)
    (hm : (t.node dir).mount = some m) (hmem : Memory new dir blocks.flatten.length t.toFileTree)
    (hv : good [] v) : good [] (m.loadDirectory new v t dir).volume := by
  obtain ⟨res, v₁, hread, hv₁, hres⟩ := hw.answers.readInode hw.cap hw.inodeSize hi hv
  rw [if_pos List.headD_nil] at hres
  obtain ⟨inode, rfl, hsame⟩ := hres
  obtain ⟨block, heap, hk, hv₂⟩ := hw.answers.memory hv₁ (Or.inl rfl)
  have hsize : inode.iSize < 2 ^ 32 := by
    rw [hsame.iSize]
    exact Memory.load32_lt _ _
  have hmount : ((t.setSize dir inode.iSize).node dir).mount = some m := by
    show (Function.update t.node dir _ dir).mount = some m
    rw [Function.update_self]
    exact hm
  unfold Ext2Mount.loadDirectory
  rw [if_neg hdir, hread]
  dsimp only
  rw [hk]
  exact hw.blockLoop_healthy (r := {
      volume := { v₁ with heap := heap }, tree := t.setSize dir inode.iSize, blockBuffer := block
      processed := 0, blockIndex := 0, offset := 0, blocks := [], looked := [] })
    (hd.congr hsame) hsize rfl rfl (Nat.zero_mul _).symm hmount hmem (Nat.zero_le _) hv₂ turns

end Ext2Mount

end KmOS
