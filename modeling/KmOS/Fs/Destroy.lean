/-
# `KmOS.Fs.Destroy` — deleting a file

The destructor of `File` takes the file out of the children of its parent, and
then deletes its own children, one after the other; each of them takes itself
out of the file that is being destroyed.  A file without a parent goes through
the same code.

`delete` and the loop over the children take the number of calls they may make;
a chain that has no end uses them up, which is a fault too.  The objects that
were given back are noted in the order in which that happens, the last one
first.

**What is left out.**  The buffer of the name, which nothing reads again, and
what the destructors of derived classes do before this one.
-/
import Mathlib.Logic.Relation
import KmOS.Lib.Chain
import KmOS.Fs.Children

namespace KmOS

/-! ## The code -/

/-- The objects, and those that were given back. -/
structure Files where
  file : Nat → File
  deleted : List Nat

namespace Files

/-- An assignment to a field of `*this`. -/
def store (s : Files) (this : Nat) (f : File → File) : Except Fault Files :=
  if this = 0 then .error .nullDereference
  else .ok { s with file := Function.update s.file this (f (s.file this)) }

def setChild (s : Files) (this n : Nat) : Except Fault Files :=
  s.store this fun f => { f with child := n }

def setNext (s : Files) (this n : Nat) : Except Fault Files :=
  s.store this fun f => { f with next := n }

def setPrec (s : Files) (this n : Nat) : Except Fault Files :=
  s.store this fun f => { f with prec := n }

/-- The first half of `~File`. -/
def unlink (s : Files) (this : Nat) : Except Fault Files :=
  let prec := (s.file this).prec
  let next := (s.file this).next
  if prec = 0 then do
    let s ← s.setChild (s.file this).parent next
    if next ≠ 0 then s.setPrec next 0 else .ok s
  else if next = 0 then s.setNext prec 0
  else do
    let s ← s.setNext prec next
    s.setPrec next prec

mutual

/-- `delete`: `~File`, and the object is given back. -/
def delete : Nat → Files → Nat → Except Fault Files
  | 0, _, _ => .error .outOfRange
  | calls + 1, s, this => do
      let s ← s.unlink this
      let s ← deleteChildren calls s (s.file this).child
      .ok { s with deleted := this :: s.deleted }

/-- The second half of `~File`, from the child `n` on. -/
def deleteChildren : Nat → Files → Nat → Except Fault Files
  | 0, _, _ => .error .outOfRange
  | calls + 1, s, n =>
      if n = 0 then .ok s
      else
        let nextChild := (s.file n).next
        do
          let s ← delete calls s n
          deleteChildren calls s nextChild

end

/-! ## Taking a file out of its list -/

/-- The files after the first half of `~File`. -/
def unlinked (file : Nat → File) (this x : Nat) : File :=
  let prec := (file this).prec
  let next := (file this).next
  { file x with
    child := if prec = 0 ∧ x = (file this).parent then next else (file x).child
    next := if prec ≠ 0 ∧ x = prec then next else (file x).next
    prec := if next ≠ 0 ∧ x = next then prec else (file x).prec }

theorem store_eq {s : Files} {this : Nat} (h : this ≠ 0) (f : File → File) :
    s.store this f = .ok { s with file := Function.update s.file this (f (s.file this)) } :=
  if_neg h

/-- With a parent there is no null pointer to meet. -/
theorem unlink_eq {s : Files} {this : Nat} (h : (s.file this).parent ≠ 0) :
    s.unlink this = .ok { s with file := unlinked s.file this } := by
  unfold unlink
  by_cases hprec : (s.file this).prec = 0
  · simp only [hprec, if_true]
    unfold setChild
    rw [store_eq h]
    dsimp only [bind, Except.bind]
    by_cases hnext : (s.file this).next = 0
    · rw [if_neg (by simp [hnext])]
      congr 2
      funext x
      by_cases hx : x = (s.file this).parent
      · simp [unlinked, hx, hprec, hnext]
      · simp [unlinked, hx, hprec, hnext]
    · rw [if_pos hnext]
      unfold setPrec
      rw [store_eq hnext]
      congr 2
      funext x
      by_cases hn : x = (s.file this).next
      · by_cases hx : (s.file this).next = (s.file this).parent
        · simp [unlinked, hn, hx, hprec, h]
        · simp [unlinked, hn, hx, hprec, hnext]
      · by_cases hx : x = (s.file this).parent
        · have hne : (s.file this).parent ≠ (s.file this).next := fun e => hn (hx.trans e)
          simp [unlinked, hx, hne, hprec, hnext]
        · simp [unlinked, hn, hx, hprec, hnext]
  · simp only [hprec, if_false]
    by_cases hnext : (s.file this).next = 0
    · rw [if_pos hnext]
      unfold setNext
      rw [store_eq hprec]
      congr 2
      funext x
      by_cases hx : x = (s.file this).prec
      · simp [unlinked, hx, hprec, hnext]
      · simp [unlinked, hx, hprec, hnext]
    · rw [if_neg hnext]
      unfold setNext
      rw [store_eq hprec]
      dsimp only [bind, Except.bind]
      unfold setPrec
      rw [store_eq hnext]
      congr 2
      funext x
      by_cases hn : x = (s.file this).next
      · by_cases hx : (s.file this).next = (s.file this).prec
        · simp [unlinked, hn, hx, hprec]
        · simp [unlinked, hn, hx, hprec, hnext]
      · by_cases hx : x = (s.file this).prec
        · have hne : (s.file this).prec ≠ (s.file this).next := fun e => hn (hx.trans e)
          simp [unlinked, hx, hne, hprec, hnext]
        · simp [unlinked, hn, hx, hprec, hnext]

/-- Without one, the null pointer is `parent`. -/
theorem unlink_error {s : Files} {this : Nat} (hparent : (s.file this).parent = 0)
    (hprec : (s.file this).prec = 0) : s.unlink this = .error .nullDereference := by
  unfold unlink
  simp only [hprec, if_true, hparent]
  rfl

/-! ## Trees of files -/

/-- `x` is `d` or one of its descendants. -/
def Below (kids : Nat → List Nat) (d x : Nat) : Prop :=
  Relation.ReflTransGen (fun d f => f ∈ kids d) d x

/-- **The links are in order**: of every live file the children are a doubly linked
list of live files that know their parent; what was given back is not live, and
was given back once. -/
structure Wired (s : Files) (alive : Nat → Prop) (kids : Nat → List Nat) : Prop where
  notNull : ¬ alive 0
  chained : ∀ d, alive d →
    Dll 0 (fun f => (s.file f).next) (fun f => (s.file f).prec) 0 (s.file d).child (kids d)
  parents : ∀ d, alive d → ∀ f ∈ kids d, alive f ∧ (s.file f).parent = d
  gone : ∀ x ∈ s.deleted, ¬ alive x
  once : s.deleted.Nodup

/-- No way down goes on for ever: `height` falls. -/
def Grounded (alive : Nat → Prop) (kids : Nat → List Nat) (height : Nat → Nat) : Prop :=
  ∀ d, alive d → ∀ f ∈ kids d, height f < height d

section
variable {s s' : Files} {alive alive' : Nat → Prop} {kids kids' : Nat → List Nat}
  {height : Nat → Nat} {d f n p x : Nat}

theorem below_iff : Below kids d x ↔ x = d ∨ ∃ f ∈ kids d, Below kids f x := by
  unfold Below
  rw [Relation.ReflTransGen.cases_head_iff]
  exact or_congr_left eq_comm

theorem below_self : Below kids d d := Relation.ReflTransGen.refl

/-- Which files are below is decided by the children of these files. -/
theorem below_congr (h : ∀ x, Below kids d x → kids' x = kids x) :
    Below kids' d x ↔ Below kids d x := by
  constructor
  · intro hx
    induction hx with
    | refl => exact below_self
    | tail _ hstep ih =>
        rw [h _ ih] at hstep
        exact ih.tail hstep
  · intro hx
    induction hx with
    | refl => exact below_self
    | @tail y z hy hstep ih =>
        refine ih.tail ?_
        rwa [h y hy]

namespace Wired

theorem nodup (h : Wired s alive kids) (hd : alive d) : (kids d).Nodup := (h.chained d hd).sll.nodup

/-- A file is among the children of its parent, and nowhere else. -/
theorem eq_of_mem (h : Wired s alive kids) (hd : alive d) (hp : alive p) (hx : x ∈ kids d)
    (hx' : x ∈ kids p) : d = p :=
  (h.parents d hd x hx).2.symm.trans (h.parents p hp x hx').2

theorem alive_below (h : Wired s alive kids) (hd : alive d) (hx : Below kids d x) : alive x := by
  induction hx with
  | refl => exact hd
  | tail _ hstep ih => exact (h.parents _ ih _ hstep).1

theorem height_below (h : Wired s alive kids) (hg : Grounded alive kids height) (hd : alive d)
    (hx : Below kids d x) : height x ≤ height d := by
  induction hx with
  | refl => exact Nat.le_refl _
  | tail hy hstep ih => exact Nat.le_trans (Nat.le_of_lt (hg _ (h.alive_below hd hy) _ hstep)) ih

/-- What is not lower than `d` is not below it. -/
theorem not_below (h : Wired s alive kids) (hg : Grounded alive kids height) (hd : alive d)
    (hlt : height d < height x) : ¬ Below kids d x :=
  fun hx => Nat.not_lt.mpr (h.height_below hg hd hx) hlt

/-- Only one list has `n` to lose. -/
theorem erase_of_ne (h : Wired s alive kids) (hp : alive p) (hn : n ∈ kids p) (hd : alive d)
    (hdp : d ≠ p) : (kids d).erase n = kids d :=
  List.erase_of_not_mem fun hm => hdp (h.eq_of_mem hd hp hm hn)

/-- And what is below a file that has `p` not below it stays. -/
theorem below_erase (h : Wired s alive kids) (hp : alive p) (hn : n ∈ kids p) (hd : alive d)
    (hnot : ¬ Below kids d p) : Below (fun d => (kids d).erase n) d x ↔ Below kids d x := by
  refine below_congr fun y hy => h.erase_of_ne hp hn (h.alive_below hd hy) ?_
  rintro rfl
  exact hnot hy

/-- The children of the files that are not live do not matter. -/
theorem congr (h : Wired s alive kids) (ha : ∀ x, alive' x ↔ alive x)
    (hk : ∀ d, alive d → kids' d = kids d) : Wired s alive' kids' := by
  obtain rfl : alive' = alive := funext fun x => propext (ha x)
  refine ⟨h.notNull, fun d hd => ?_, fun d hd => ?_, h.gone, h.once⟩
  · rw [hk d hd]
    exact h.chained d hd
  · rw [hk d hd]
    exact h.parents d hd

/-- **The first half of `~File`** leaves the other children, in their order. -/
theorem unlink (h : Wired s alive kids) (hp : alive p) (hn : n ∈ kids p) :
    Wired { s with file := unlinked s.file n } alive (fun d => (kids d).erase n) := by
  obtain ⟨hnalive, hparent⟩ := h.parents p hp n hn
  have hchain := h.chained p hp
  -- the neighbours of `n` are children of `p` too
  have hprec : (s.file n).prec ≠ 0 → (s.file n).prec ∈ kids p := by
    intro h0
    rcases hchain.prev_mem hn with ⟨-, e⟩ | hm
    · exact absurd e h0
    · exact hm
  have hnext : (s.file n).next ≠ 0 → (s.file n).next ∈ kids p := by
    intro h0
    rcases hchain.next_mem hn with e | hm
    · exact absurd e h0
    · exact hm
  refine ⟨h.notNull, fun d hd => ?_, fun d hd f hf => ?_, h.gone, h.once⟩
  · by_cases hdp : d = p
    · subst hdp
      have u : Dll.Unlinked 0 (fun f => (s.file f).next) (fun f => (s.file f).prec)
          (fun f => (unlinked s.file n f).next) (fun f => (unlinked s.file n f).prec) n (kids d) :=
        { next_before := fun h0 => if_pos ⟨h0, rfl⟩
          next_other := fun b _ hb => if_neg fun h => hb h.2
          prev_after := fun h0 => if_pos ⟨h0, rfl⟩
          prev_other := fun b _ hb => if_neg fun h => hb h.2 }
      have hchild : (unlinked s.file n d).child =
          if (s.file n).prec = 0 then (s.file n).next else (s.file d).child := by
        simp [unlinked, hparent]
      show Dll 0 _ _ 0 (unlinked s.file n d).child _
      rw [hchild]
      exact hchain.unlink (h.nodup hd) hn u
    · -- another list, with none of the nodes that are written
      have hout : ∀ b ∈ kids p, b ∉ kids d := fun b hb hb' => hdp (h.eq_of_mem hd hp hb' hb)
      have hchild : (unlinked s.file n d).child = (s.file d).child := by
        refine if_neg fun h => hdp ?_
        rw [h.2, hparent]
      show Dll 0 _ _ 0 (unlinked s.file n d).child _
      rw [hchild, List.erase_of_not_mem (hout n hn)]
      refine (h.chained d hd).congr fun b hb => ⟨if_neg ?_, if_neg ?_⟩
      · rintro ⟨h0, rfl⟩
        exact hout _ (hprec h0) hb
      · rintro ⟨h0, rfl⟩
        exact hout _ (hnext h0) hb
  · exact h.parents d hd f (List.mem_of_mem_erase hf)

/-- A file that is nobody's child and has no children may be given back. -/
theorem release (h : Wired s alive kids) (hn : alive n) (hout : ∀ d, alive d → n ∉ kids d) :
    Wired { s with deleted := n :: s.deleted } (fun x => alive x ∧ x ≠ n) kids := by
  refine ⟨fun h0 => h.notNull h0.1, fun d hd => h.chained d hd.1, fun d hd f hf => ?_, ?_, ?_⟩
  · obtain ⟨hf', hparent⟩ := h.parents d hd.1 f hf
    exact ⟨⟨hf', fun e => hout d hd.1 (e ▸ hf)⟩, hparent⟩
  · intro x hx
    rcases List.mem_cons.mp hx with rfl | hx
    · exact fun h0 => h0.2 rfl
    · exact fun h0 => h.gone x hx h0.1
  · exact List.nodup_cons.mpr ⟨fun hm => h.gone n hm hn, h.once⟩

end Wired

/-- **A tree of files**: its links are in order, no way down goes on for ever, and
every file is a child of its parent or has none, and nothing in front of it. -/
structure Tree (s : Files) (alive : Nat → Prop) (kids : Nat → List Nat) : Prop
    extends Wired s alive kids where
  grounded : ∃ height, Grounded alive kids height
  placed : ∀ f, alive f → (alive (s.file f).parent ∧ f ∈ kids (s.file f).parent) ∨
    ((s.file f).parent = 0 ∧ (s.file f).prec = 0)

/-! ## The trees that are built -/

theorem addChildFiles_parent {file : Nat → File} {this : Nat} (hthis : this ≠ n) :
    (addChildFiles file this n x).parent = if x = n then this else (file x).parent := by
  unfold addChildFiles
  grind [Function.update_apply]

theorem addChildFiles_prec {file : Nat → File} {this : Nat} (hthis : this ≠ n)
    (hchild : (file this).child ≠ n) :
    (addChildFiles file this n x).prec =
      if x = n then 0
      else if (file this).child ≠ 0 ∧ x = (file this).child then n else (file x).prec := by
  unfold addChildFiles
  grind [Function.update_apply]

/-- The links after `addChild` has put the new file `n` in front of the children of
`this`. -/
structure Added (s : Files) (alive : Nat → Prop) (this n : Nat) (file : Nat → File) : Prop where
  new_child : (file n).child = 0
  new_next : (file n).next = (s.file this).child
  new_prec : (file n).prec = 0
  new_parent : (file n).parent = this
  child : ∀ x, alive x → (file x).child = if x = this then n else (s.file x).child
  next : ∀ x, alive x → (file x).next = (s.file x).next
  prec : ∀ x, alive x → (file x).prec = if x = (s.file this).child then n else (s.file x).prec
  parent : ∀ x, alive x → (file x).parent = (s.file x).parent

/-- The children, with `n` in front of those of `this`. -/
def kidsWith (kids : Nat → List Nat) (this n d : Nat) : List Nat :=
  if d = this then n :: kids this else if d = n then [] else kids d

section
variable {this : Nat} {file : Nat → File}

theorem Wired.added (h : Wired s alive kids) (hthis : alive this) (hn : ¬ alive n) (h0 : n ≠ 0)
    (name : List UInt8) (type : FileType) :
    Added s alive this n
      (addChildFiles (Function.update s.file n (File.new name type)) this n) := by
  have hother : ∀ x, alive x → x ≠ n := by
    rintro x hx rfl
    exact hn hx
  have hne := hother this hthis
  generalize hfile : Function.update s.file n (File.new name type) = file
  have hold : ∀ x, x ≠ n → file x = s.file x := fun x hx => by
    rw [← hfile, Function.update_of_ne hx]
  have hnew : file n = File.new name type := by
    rw [← hfile, Function.update_self]
  -- the first child is another file, or none
  have hchild : (file this).child ≠ n := by
    rw [hold this hne]
    intro e
    obtain ⟨l, hl⟩ := (h.chained this hthis).exists_cons (e ▸ h0)
    exact hn (e ▸ (h.parents this hthis _ (hl ▸ List.mem_cons_self)).1)
  refine ⟨?_, ?_, ?_, ?_, fun x hx => ?_, fun x hx => ?_, fun x hx => ?_, fun x hx => ?_⟩
  · rw [addChildFiles_child, if_neg hne.symm, hnew]
    rfl
  · rw [addChildFiles_next, if_pos rfl, hold this hne]
  · rw [addChildFiles_prec hne hchild, if_pos rfl]
  · rw [addChildFiles_parent hne, if_pos rfl]
  · rw [addChildFiles_child, hold x (hother x hx)]
  · rw [addChildFiles_next, if_neg (hother x hx), hold x (hother x hx)]
  · rw [addChildFiles_prec hne hchild, if_neg (hother x hx), hold x (hother x hx), hold this hne]
    by_cases hx' : x = (s.file this).child
    · have hc : (s.file this).child ≠ 0 := fun e => h.notNull (e ▸ hx' ▸ hx)
      rw [if_pos ⟨hc, hx'⟩, if_pos hx']
    · rw [if_neg fun e => hx' e.2, if_neg hx']
  · rw [addChildFiles_parent hne, if_neg (hother x hx), hold x (hother x hx)]

/-- The children of `this` with the new one, and those of the others, are lists. -/
theorem Added.chained (a : Added s alive this n file) (h : Wired s alive kids)
    (hthis : alive this) (h0 : n ≠ 0) {d : Nat} (hd : d = n ∨ alive d) :
    Dll 0 (fun f => (file f).next) (fun f => (file f).prec) 0 (file d).child
      (kidsWith kids this n d) := by
  have hchain := h.chained this hthis
  unfold kidsWith
  by_cases hdt : d = this
  · rw [if_pos hdt, a.child d (hdt ▸ hthis), if_pos hdt]
    refine hchain.push (h.nodup hthis) h0 a.new_next a.new_prec (fun hc => ?_) fun b hb => ?_
    · obtain ⟨l, hl⟩ := hchain.exists_cons hc
      have hfirst := (h.parents this hthis _ (hl ▸ List.mem_cons_self)).1
      exact (a.prec _ hfirst).trans (if_pos rfl)
    · have hb' := (h.parents this hthis b hb).1
      exact ⟨a.next b hb', fun hbc => (a.prec b hb').trans (if_neg hbc)⟩
  rw [if_neg hdt]
  by_cases hdn : d = n
  · rw [if_pos hdn, hdn]
    exact a.new_child
  have hd' : alive d := hd.resolve_left hdn
  rw [if_neg hdn, a.child d hd', if_neg hdt]
  refine (h.chained d hd').congr fun b hb => ?_
  have hb' := (h.parents d hd' b hb).1
  refine ⟨a.next b hb', (a.prec b hb').trans (if_neg ?_)⟩
  -- the first child of `this` is not among these
  rintro rfl
  obtain ⟨l, hl⟩ := hchain.exists_cons fun e => h.notNull (e ▸ hb')
  exact hdt (h.eq_of_mem hd' hthis hb (hl ▸ List.mem_cons_self))

/-- A child is the new one, or it was a child before. -/
theorem mem_kidsWith (hthis : alive this) (hd : d = n ∨ alive d)
    (hf : f ∈ kidsWith kids this n d) : (f = n ∧ d = this) ∨ (alive d ∧ f ∈ kids d) := by
  unfold kidsWith at hf
  by_cases hdt : d = this
  · rw [if_pos hdt] at hf
    rcases List.mem_cons.mp hf with rfl | hf
    · exact .inl ⟨rfl, hdt⟩
    · exact .inr ⟨hdt ▸ hthis, hdt ▸ hf⟩
  rw [if_neg hdt] at hf
  by_cases hdn : d = n
  · rw [if_pos hdn] at hf
    exact nomatch hf
  · rw [if_neg hdn] at hf
    exact .inr ⟨hd.resolve_left hdn, hf⟩

/-- **`createChild`** makes a tree of a tree, where the object is new. -/
theorem Tree.createChild (h : Tree s alive kids) (hthis : alive this) (hn : ¬ alive n)
    (h0 : n ≠ 0) (hgone : n ∉ s.deleted) (name : List UInt8) (type : FileType) :
    Tree { s with file := addChildFiles (Function.update s.file n (File.new name type)) this n }
      (fun x => x = n ∨ alive x) (kidsWith kids this n) := by
  have a := h.added hthis hn h0 name type
  generalize addChildFiles (Function.update s.file n (File.new name type)) this n = file at a
  refine ⟨⟨?_, fun d hd => a.chained h.toWired hthis h0 hd, fun d hd f hf => ?_, ?_, h.once⟩,
    ?_, fun f hf => ?_⟩
  · rintro (hnull | hnull)
    · exact h0 hnull.symm
    · exact h.notNull hnull
  · rcases mem_kidsWith hthis hd hf with ⟨rfl, rfl⟩ | ⟨hd', hf'⟩
    · exact ⟨.inl rfl, a.new_parent⟩
    · obtain ⟨hfa, hfp⟩ := h.parents d hd' f hf'
      exact ⟨.inr hfa, (a.parent f hfa).trans hfp⟩
  · rintro x hx (rfl | hx')
    · exact hgone hx
    · exact h.gone x hx hx'
  · -- the new file is the lowest
    obtain ⟨height, hg⟩ := h.grounded
    have hother : ∀ x, alive x → x ≠ n := by
      rintro x hx rfl
      exact hn hx
    refine ⟨fun x => if x = n then 0 else height x + 1, fun d hd f hf => ?_⟩
    rcases mem_kidsWith hthis hd hf with ⟨rfl, rfl⟩ | ⟨hd', hf'⟩
    · simp [hother d hthis]
    · have hlt := hg d hd' f hf'
      simp [hother d hd', hother f (h.parents d hd' f hf').1, hlt]
  · rcases hf with rfl | hf
    · refine .inl ?_
      show (_ ∨ alive (file f).parent) ∧ f ∈ kidsWith kids this f (file f).parent
      rw [a.new_parent]
      exact ⟨.inr hthis, by simp [kidsWith]⟩
    show (((file f).parent = n ∨ alive (file f).parent) ∧ f ∈ kidsWith kids this n (file f).parent) ∨
      ((file f).parent = 0 ∧ (file f).prec = 0)
    rw [a.parent f hf, a.prec f hf]
    rcases h.placed f hf with ⟨hp, hm⟩ | ⟨hp, hprec⟩
    · refine .inl ⟨.inr hp, ?_⟩
      unfold kidsWith
      by_cases hpt : (s.file f).parent = this
      · rw [if_pos hpt, ← hpt]
        exact List.mem_cons_of_mem n hm
      · have hpn : (s.file f).parent ≠ n := fun e => hn (e ▸ hp)
        rw [if_neg hpt, if_neg hpn]
        exact hm
    · refine .inr ⟨hp, (if_neg ?_).trans hprec⟩
      -- it is not the first child of `this`, which has a parent
      rintro rfl
      obtain ⟨l, hl⟩ := (h.chained this hthis).exists_cons fun e => h.notNull (e ▸ hf)
      have hpt := (h.parents this hthis _ (hl ▸ List.mem_cons_self)).2
      rw [← hpt, hp] at hthis
      exact h.notNull hthis

end

/-! ## Deleting -/

/-- What stays of the files: their names, their types, what they link and belong
to, and that nothing is in front of one that belongs to none. -/
structure Kept (s s' : Files) : Prop where
  name : ∀ x, (s'.file x).name = (s.file x).name
  type : ∀ x, (s'.file x).type = (s.file x).type
  parent : ∀ x, (s'.file x).parent = (s.file x).parent
  link : ∀ x, (s'.file x).link = (s.file x).link
  prec : ∀ x, (s.file x).parent = 0 → (s'.file x).prec = (s.file x).prec

theorem Kept.refl (s : Files) : Kept s s :=
  ⟨fun _ => rfl, fun _ => rfl, fun _ => rfl, fun _ => rfl, fun _ _ => rfl⟩

theorem Kept.trans {s'' : Files} (h : Kept s s') (h' : Kept s' s'') : Kept s s'' where
  name x := (h'.name x).trans (h.name x)
  type x := (h'.type x).trans (h.type x)
  parent x := (h'.parent x).trans (h.parent x)
  link x := (h'.link x).trans (h.link x)
  prec x hx := (h'.prec x ((h.parent x).trans hx)).trans (h.prec x hx)

theorem Wired.kept_unlinked (h : Wired s alive kids) (hp : alive p) (hn : n ∈ kids p) :
    Kept s { s with file := unlinked s.file n } := by
  refine ⟨fun _ => rfl, fun _ => rfl, fun _ => rfl, fun _ => rfl, fun x hx => if_neg ?_⟩
  rintro ⟨h0, rfl⟩
  -- what stands behind `n` has the parent of `n`
  rcases (h.chained p hp).next_mem hn with e | hm
  · exact h0 e
  · rw [(h.parents p hp _ hm).2] at hx
    exact h.notNull (hx ▸ hp)

/-- **`n` has been deleted**: exactly it and its descendants are given back, and
what is left are the children that there were, less `n`. -/
structure Deleted (s : Files) (alive : Nat → Prop) (kids : Nat → List Nat) (n : Nat) (s' : Files) :
    Prop where
  wired : Wired s' (fun x => alive x ∧ ¬ Below kids n x) (fun d => (kids d).erase n)
  deleted : ∀ x, x ∈ s'.deleted ↔ Below kids n x ∨ x ∈ s.deleted
  kept : Kept s s'

/-- All calls of `delete` with a height below `H` do what they should. -/
def DeletesBelow (height : Nat → Nat) (H : Nat) : Prop :=
  ∀ s alive kids n p, Wired s alive kids → Grounded alive kids height → alive p → n ∈ kids p →
    height n < H → ∃ s' calls, (∀ k ≥ calls, s.delete k n = .ok s') ∧ Deleted s alive kids n s'

/-- **The loop over the children.** -/
theorem deleteChildren_spec {H : Nat} (hdel : DeletesBelow height H) (l : List Nat)
    (h : Wired s alive kids) (hg : Grounded alive kids height) (hn : alive n) (hl : kids n = l)
    (hH : ∀ c ∈ l, height c < H) :
    ∃ s' calls, (∀ k ≥ calls, s.deleteChildren k (s.file n).child = .ok s') ∧
      Wired s' (fun x => alive x ∧ ¬ ∃ c ∈ l, Below kids c x)
        (fun d => if d = n then [] else kids d) ∧
      (∀ x, x ∈ s'.deleted ↔ (∃ c ∈ l, Below kids c x) ∨ x ∈ s.deleted) ∧ Kept s s' := by
  induction l generalizing s alive kids with
  | nil =>
      have hchain := h.chained n hn
      rw [hl] at hchain
      have hchild : (s.file n).child = 0 := hchain
      refine ⟨s, 1, ?_, ?_, ?_, Kept.refl s⟩
      · intro k hk
        obtain ⟨k, rfl⟩ : ∃ j, k = j + 1 := ⟨k - 1, by omega⟩
        unfold deleteChildren
        exact if_pos hchild
      · refine h.congr (by simp) fun d hd => ?_
        by_cases hdn : d = n
        · rw [if_pos hdn, hdn, hl]
        · rw [if_neg hdn]
      · simp
  | cons c l ih =>
      have hc : c ∈ kids n := hl ▸ List.mem_cons_self
      have htail : ∀ c' ∈ l, c' ∈ kids n := fun c' hc' => hl ▸ List.mem_cons_of_mem c hc'
      have habove : ∀ c' ∈ kids n, ¬ Below kids c' n := fun c' hc' =>
        h.not_below hg (h.parents n hn c' hc').1 (hg n hn c' hc')
      obtain ⟨s₁, k₁, hk₁, hdeleted⟩ := hdel s alive kids c n h hg hn hc (hH c List.mem_cons_self)
      -- `n` is not below its children, so the others keep what is below them
      have hbelow : ∀ c' ∈ l, ∀ x, Below (fun d => (kids d).erase c) c' x ↔ Below kids c' x :=
        fun c' hc' x => h.below_erase hn hc (h.parents n hn c' (htail c' hc')).1
          (habove c' (htail c' hc'))
      have hg₁ : Grounded (fun x => alive x ∧ ¬ Below kids c x) (fun d => (kids d).erase c)
          height := fun d hd f hf => hg d hd.1 f (List.mem_of_mem_erase hf)
      have hl₁ : (kids n).erase c = l := by rw [hl, List.erase_cons_head]
      obtain ⟨s₂, k₂, hk₂, hwired, hlist, hkept⟩ := ih hdeleted.wired hg₁ ⟨hn, habove c hc⟩ hl₁
        fun c' hc' => hH c' (List.mem_cons_of_mem c hc')
      -- the child that comes next is the first one now
      have hchain := h.chained n hn
      rw [hl] at hchain
      have hchain₁ := hdeleted.wired.chained n ⟨hn, habove c hc⟩
      rw [hl₁] at hchain₁
      have hnext : (s.file c).next = (s₁.file n).child := by
        obtain ⟨-, -, -, ht⟩ := hchain
        exact ht.head_eq.trans hchain₁.head_eq.symm
      have hchild : (s.file n).child = c := hchain.1
      refine ⟨s₂, max k₁ k₂ + 1, ?_, ?_, ?_, hdeleted.kept.trans hkept⟩
      · intro k hk
        obtain ⟨k, rfl⟩ : ∃ j, k = j + 1 := ⟨k - 1, by omega⟩
        unfold deleteChildren
        rw [hchild, if_neg hchain.2.1, hk₁ k (by omega), hnext]
        exact hk₂ k (by omega)
      · refine hwired.congr (fun x => ?_) fun d hd => ?_
        · simp only [List.mem_cons, exists_eq_or_imp, not_or, and_assoc]
          refine and_congr_right fun _ => and_congr_right fun _ => not_congr ?_
          exact exists_congr fun c' => and_congr_right fun hc' => (hbelow c' hc' x).symm
        · by_cases hdn : d = n
          · rw [if_pos hdn, if_pos hdn]
          · rw [if_neg hdn, if_neg hdn, h.erase_of_ne hn hc hd.1.1 hdn]
      · intro x
        rw [hlist, hdeleted.deleted]
        simp only [List.mem_cons, exists_eq_or_imp]
        have hrest : (∃ c' ∈ l, Below (fun d => (kids d).erase c) c' x) ↔
            ∃ c' ∈ l, Below kids c' x :=
          exists_congr fun c' => and_congr_right fun hc' => hbelow c' hc' x
        rw [hrest]
        exact or_left_comm.trans or_assoc.symm

/-- **`delete`**, by induction on the height of what is deleted. -/
theorem delete_spec (height : Nat → Nat) (H : Nat) : DeletesBelow height H := by
  induction H with
  | zero =>
      intro s alive kids n p _ _ _ _ hlt
      exact nomatch hlt
  | succ H ih =>
      intro s alive kids n p h hg hp hn hH
      obtain ⟨hnalive, hparent⟩ := h.parents p hp n hn
      have hparent0 : (s.file n).parent ≠ 0 := by
        rw [hparent]
        exact fun e => h.notNull (e ▸ hp)
      have hnp := hg p hp n hn
      have hself : n ∉ kids n := fun hm => Nat.lt_irrefl _ (hg n hnalive n hm)
      have hchild : ∀ c ∈ kids n, alive c ∧ height c < height n := fun c hc =>
        ⟨(h.parents n hnalive c hc).1, hg n hnalive c hc⟩
      have hbelow : ∀ c ∈ kids n, ∀ x,
          Below (fun d => (kids d).erase n) c x ↔ Below kids c x := by
        intro c hc x
        obtain ⟨hcalive, hlt⟩ := hchild c hc
        exact h.below_erase hp hn hcalive (h.not_below hg hcalive (Nat.lt_trans hlt hnp))
      have hg₁ : Grounded alive (fun d => (kids d).erase n) height :=
        fun d hd f hf => hg d hd f (List.mem_of_mem_erase hf)
      obtain ⟨s₂, k₀, hk, hwired, hlist, hkept⟩ := deleteChildren_spec ih (kids n) (h.unlink hp hn)
        hg₁ hnalive (List.erase_of_not_mem hself) fun c hc => by
          have hlt := (hchild c hc).2
          omega
      have habove : ¬ ∃ c ∈ kids n, Below (fun d => (kids d).erase n) c n := by
        rintro ⟨c, hc, hb⟩
        obtain ⟨hcalive, hlt⟩ := hchild c hc
        exact h.not_below hg hcalive hlt ((hbelow c hc n).mp hb)
      have hex : ∀ x, (∃ c ∈ kids n, Below (fun d => (kids d).erase n) c x) ↔
          ∃ c ∈ kids n, Below kids c x := fun x =>
        exists_congr fun c => and_congr_right fun hc => hbelow c hc x
      refine ⟨{ s₂ with deleted := n :: s₂.deleted }, k₀ + 1, ?_, ?_, ?_, ?_⟩
      · intro k hk'
        obtain ⟨k, rfl⟩ : ∃ j, k = j + 1 := ⟨k - 1, by omega⟩
        unfold delete
        rw [unlink_eq hparent0]
        dsimp only [bind, Except.bind]
        rw [hk k (by omega)]
      · have hrelease := hwired.release ⟨hnalive, habove⟩ (n := n) fun d hd hm => by
          by_cases hdn : d = n
          · rw [if_pos hdn] at hm
            exact nomatch hm
          · rw [if_neg hdn] at hm
            exact (h.nodup hd.1).not_mem_erase hm
        refine hrelease.congr (fun x => ?_) fun d hd => (if_neg hd.2).symm
        rw [hex, below_iff, not_or, and_assoc]
        exact and_congr_right fun _ => and_comm
      · intro x
        rw [List.mem_cons, hlist, hex, below_iff, or_assoc]
      · have hall := (h.kept_unlinked hp hn).trans hkept
        exact ⟨hall.name, hall.type, hall.parent, hall.link, hall.prec⟩

/-! ## The result -/

/-- Deleting `n` comes back, and `n` has been deleted. -/
def DeletesRight (s : Files) (alive : Nat → Prop) (kids : Nat → List Nat) (n : Nat) : Prop :=
  ∃ s' calls, (∀ k ≥ calls, s.delete k n = .ok s') ∧ Deleted s alive kids n s'

/-- What is left is a tree again. -/
theorem Deleted.tree (h : Tree s alive kids) (hd : Deleted s alive kids n s') :
    Tree s' (fun x => alive x ∧ ¬ Below kids n x) (fun d => (kids d).erase n) := by
  obtain ⟨height, hg⟩ := h.grounded
  refine ⟨hd.wired, ⟨height, fun d hx f hf => hg d hx.1 f (List.mem_of_mem_erase hf)⟩, ?_⟩
  rintro f ⟨hf, hnot⟩
  rw [hd.kept.parent]
  rcases h.placed f hf with ⟨hp, hmem⟩ | ⟨hp, hprec⟩
  · refine .inl ⟨⟨hp, fun hb => hnot (hb.tail hmem)⟩, (List.mem_erase_of_ne ?_).mpr hmem⟩
    rintro rfl
    exact hnot below_self
  · exact .inr ⟨hp, (hd.kept.prec f hp).trans hprec⟩

/-- The destructor of a file without a parent stores through a null pointer. -/
theorem delete_error (hparent : (s.file n).parent = 0) (hprec : (s.file n).prec = 0) (k : Nat) :
    s.delete (k + 1) n = .error .nullDereference := by
  unfold delete
  rw [unlink_error hparent hprec]
  rfl

/-- **Deleting a file is right exactly if it has a parent.** -/
theorem delete_right_iff (h : Tree s alive kids) (hn : alive n) :
    DeletesRight s alive kids n ↔ (s.file n).parent ≠ 0 := by
  constructor
  · rintro ⟨s', calls, hk, -⟩ h0
    rcases h.placed n hn with ⟨hp, -⟩ | ⟨-, hprec⟩
    · rw [h0] at hp
      exact h.notNull hp
    · have hrun := hk (calls + 1) (Nat.le_succ calls)
      rw [delete_error h0 hprec] at hrun
      exact nomatch hrun
  · intro h0
    obtain ⟨height, hg⟩ := h.grounded
    rcases h.placed n hn with ⟨hp, hmem⟩ | ⟨hp, -⟩
    · exact delete_spec height (height n + 1) s alive kids n _ h.toWired hg hp hmem
        (Nat.lt_succ_self _)
    · exact absurd hp h0

end

/-- The root at 1 alone, and with the file `a` at 2. -/
def oneFile : Files := ⟨fun _ => File.new [slash] .directory, []⟩
def twoFiles : Files :=
  ⟨addChildFiles (Function.update oneFile.file 2 (File.new [97] .file)) 1 2, []⟩

theorem oneFile_tree : Tree oneFile (· = 1) fun _ => [] where
  notNull := nofun
  chained := fun _ _ => rfl
  parents := fun _ _ => nofun
  gone := nofun
  once := List.nodup_nil
  grounded := ⟨fun _ => 0, fun _ _ => nofun⟩
  placed := fun _ _ => .inr ⟨rfl, rfl⟩

theorem twoFiles_tree : Tree twoFiles (fun x => x = 2 ∨ x = 1) (kidsWith (fun _ => []) 1 2) :=
  oneFile_tree.createChild rfl (by decide) (by decide) (by decide) [97] .file

/-- The file `a` can be deleted. -/
theorem delete_right_child :
    DeletesRight twoFiles (fun x => x = 2 ∨ x = 1) (kidsWith (fun _ => []) 1 2) 2 :=
  (delete_right_iff twoFiles_tree (.inl rfl)).mpr (by decide)

/-- The root cannot: its destructor stores through a null pointer. -/
theorem delete_root_faults :
    (∀ k, oneFile.delete (k + 1) 1 = .error .nullDereference) ∧
      ¬ DeletesRight oneFile (· = 1) (fun _ => []) 1 := by
  have hfault : ∀ k, oneFile.delete (k + 1) 1 = .error .nullDereference := delete_error rfl rfl
  refine ⟨hfault, ?_⟩
  rintro ⟨s', calls, hk, -⟩
  have hrun := hk (calls + 1) (Nat.le_succ calls)
  rw [hfault calls] at hrun
  exact nomatch hrun

end Files

end KmOS
