/-
# `KmOS.Ext2.Lookup` — finding the entries of a directory by name

A node of a directory has the name of its entry after `checkName`, which
replaces eight characters, and `find` compares with the name as it is.  The
nodes that are added last come first.  So an entry is found by its name exactly
if nothing of the name is replaced and no later entry gets the same name
(`load_directory_lookup`).
-/
import Mathlib.Data.List.Nodup
import KmOS.Fs.Path
import KmOS.Ext2.ScanFailure

namespace KmOS

namespace Ext2Mount

variable {σ : Type} {m : Ext2Mount σ} {disk : Buffer} {cap : Nat}
  {good : List Bool → Volume σ → Prop} {v : Volume σ} {new : New} {dir : Nat}
  {t t' : Ext2Tree σ} {blocks : List (List Entry)} {ns old : List Nat} {es : List Entry}
  {i n : Nat} {e : Entry} {s : List UInt8}

/-- The entries of regular files and of sub-directories. -/
def children (es : List Entry) : List Entry := es.filter fun e => ¬e.Special ∧ e.Kept

/-- A later entry than the one at `i` has a node with the name `s`. -/
def Shadowed (es : List Entry) (i : Nat) (s : List UInt8) : Prop :=
  ∃ j e, i < j ∧ es[j]? = some e ∧ checkName e.chars = s

/-- A directory of which all entries have inodes, and names without NUL. -/
structure WellFormed (m : Ext2Mount σ) (disk : Buffer) (cap : Nat) (inode : Ext2Inode)
    (blocks : List (List Entry)) : Prop extends m.DirectoryOn disk cap inode blocks where
  listed : ∀ e ∈ blocks.flatten, m.HasInode e.inode
  names : ∀ e ∈ blocks.flatten, 0 ∉ e.name

/-- **What `find` makes of a directory**: each entry has a node of its own, and `find`
gives it for the name on disk exactly if no character of the name is replaced and no
later entry gets that name. -/
structure Indexed (m : Ext2Mount σ) (disk : Buffer) (dir : Nat) (t t' : Ext2Tree σ) (es : List Entry)
    (ns : List Nat) : Prop where
  nodup : ns.Nodup
  kids : t'.kids dir = ns.reverse ++ t.kids dir
  stands : List.Forall₂ (m.Stands disk t') ns es
  find : ∀ i n e, ns[i]? = some n → es[i]? = some e →
    (t'.find dir e.name = n ↔ (∀ c ∈ e.name, c ∉ invalidChars) ∧ ¬Shadowed es i e.name)

/-- Without NUL, a name is the string that is copied. -/
theorem chars_eq_name (h : 0 ∉ e.name) : e.chars = e.name :=
  List.takeWhile_eq_self_iff.mpr fun _ hc => decide_eq_true fun h0 => h (h0 ▸ hc)

theorem WellFormed.expected {inode : Ext2Inode} (h : m.WellFormed disk cap inode blocks) :
    m.expected blocks.flatten = children blocks.flatten := by
  refine List.filter_congr fun e he => decide_eq_decide.mpr ?_
  have hlisted := h.listed e he
  exact ⟨fun h => ⟨h.1.1, h.2⟩, fun h => ⟨⟨h.1, hlisted⟩, h.2⟩⟩

/-- Behind the nodes of the later entries, which `find` sees first. -/
theorem reverse_append_split (hn : ns[i]? = some n) :
    ns.reverse ++ old = (ns.drop (i + 1)).reverse ++ n :: ((ns.take i).reverse ++ old) := by
  obtain ⟨hi, rfl⟩ := List.getElem?_eq_some_iff.mp hn
  have hsplit : ns = ns.take i ++ ns[i] :: ns.drop (i + 1) := by
    rw [List.getElem_cons_drop, List.take_append_drop]
  have hreverse := congrArg List.reverse hsplit
  rw [List.reverse_append, List.reverse_cons] at hreverse
  rw [hreverse]
  simp only [List.append_assoc, List.cons_append, List.nil_append]

/-- A name is a node's of a later entry. -/
theorem shadowed_iff (hns : List.Forall₂ (m.Stands disk t') ns es) :
    Shadowed es i s ↔ ∃ n ∈ ns.drop (i + 1), (t'.file n).name = s := by
  obtain ⟨hlen, hget⟩ := List.forall₂_iff_get.mp hns
  constructor
  · rintro ⟨j, e, hij, he, hname⟩
    obtain ⟨hj, rfl⟩ := List.getElem?_eq_some_iff.mp he
    have hj' : j < ns.length := by omega
    refine ⟨ns[j], List.mem_drop_iff_getElem.mpr ⟨j - (i + 1), by omega, ?_⟩, ?_⟩
    · congr 1
      omega
    · exact (hget j hj' hj).name.trans hname
  · rintro ⟨n, hn, hname⟩
    obtain ⟨k, hk, rfl⟩ := List.mem_drop_iff_getElem.mp hn
    obtain ⟨j, hij, hj, he⟩ : ∃ j, i < j ∧ ∃ hj : j < ns.length, ns[j] = ns[i + 1 + k] :=
      ⟨i + 1 + k, by omega, by omega, rfl⟩
    rw [← he] at hname
    exact ⟨j, es[j], hij, List.getElem?_eq_getElem (hlen ▸ hj),
      (hget j hj (hlen ▸ hj)).name.symm.trans hname⟩

/-- **`find`** gives the node of an entry for the name that the node has, unless a later
entry has it as well. -/
theorem find_iff (hkids : t'.kids dir = ns.reverse ++ old)
    (hns : List.Forall₂ (m.Stands disk t') ns es) (hn : ns[i]? = some n) (he : es[i]? = some e) :
    t'.find dir s = n ↔ checkName e.chars = s ∧ ¬Shadowed es i s := by
  have hstands : m.Stands disk t' n e := by
    obtain ⟨hi, rfl⟩ := List.getElem?_eq_some_iff.mp hn
    obtain ⟨hi', rfl⟩ := List.getElem?_eq_some_iff.mp he
    exact (List.forall₂_iff_get.mp hns).2 i hi hi'
  have hsplit := hkids.trans (reverse_append_split hn)
  have hnodup := t'.kids_nodup dir
  have h0 : n ≠ 0 := by
    refine FileTree.kids_ne_zero (t := t'.toFileTree) (d := dir) ?_
    rw [hsplit]
    exact List.mem_append_right _ List.mem_cons_self
  have hfound : t'.find dir s = n ↔
      (t'.kids dir).find? (fun f => (t'.file f).name = s) = some n := by
    rw [FileTree.find_eq]
    cases (t'.kids dir).find? fun f => (t'.file f).name = s with
    | none => exact iff_of_false (Ne.symm h0) nofun
    | some f => exact (Option.some.injEq f n).symm.to_iff
  rw [hfound, hsplit, find?_append_cons_iff (hsplit ▸ hnodup), shadowed_iff hns, decide_eq_true_eq,
    hstands.name]
  refine and_congr Iff.rfl ?_
  simp only [List.mem_reverse, decide_eq_true_eq, not_exists, not_and]

/-- What loading without failures makes of a directory. -/
theorem Complete.indexed {inode : Ext2Inode} (h : m.Complete disk dir blocks t t')
    (hw : m.WellFormed disk cap inode blocks) :
    ∃ ns, m.Indexed disk dir t t' (children blocks.flatten) ns := by
  obtain ⟨ns, hnodup, hkids, hns⟩ := h
  rw [hw.expected] at hns
  refine ⟨ns, hnodup, hkids, hns, fun i n e hn he => ?_⟩
  have hmem : e ∈ blocks.flatten := List.mem_of_mem_filter (List.mem_of_getElem? he)
  rw [find_iff hkids hns hn he, chars_eq_name (hw.names e hmem), checkName_eq_self_iff]

/-- **Where nothing of a name is replaced**, `find` gives for all names the nodes of their
entries. -/
theorem Indexed.find_all (h : m.Indexed disk dir t t' es ns) (hdistinct : (es.map Entry.name).Nodup)
    (hvalid : ∀ e ∈ es, ∀ c ∈ e.name, c ∉ invalidChars) (hnul : ∀ e ∈ es, 0 ∉ e.name) :
    List.Forall₂ (fun n e => t'.find dir e.name = n) ns es := by
  obtain ⟨hlen, -⟩ := List.forall₂_iff_get.mp h.stands
  refine List.forall₂_iff_get.mpr ⟨hlen, fun i hi hi' => ?_⟩
  refine (h.find i ns[i] es[i] (List.getElem?_eq_getElem hi) (List.getElem?_eq_getElem hi')).mpr
    ⟨hvalid _ (List.getElem_mem hi'), ?_⟩
  rintro ⟨j, e, hij, he, hname⟩
  obtain ⟨hj, rfl⟩ := List.getElem?_eq_some_iff.mp he
  have hmem := List.getElem_mem hj
  rw [chars_eq_name (hnul _ hmem), (checkName_eq_self_iff _).mpr (hvalid _ hmem)] at hname
  have hsame := List.inj_on_of_nodup_map hdistinct hmem (List.getElem_mem hi') hname
  have hnodup : es.Nodup := List.Nodup.of_map _ hdistinct
  exact Nat.ne_of_gt hij ((List.Nodup.getElem_inj_iff hnodup).mp hsame)

theorem oneEntry_wellFormed {c : UInt8} (hc : c ≠ 0) :
    tapeMount.WellFormed (oneEntry c) 4095 (tapeMount.diskInode (oneEntry c) 2)
      (oneEntryBlocks c) where
  toDirectoryOn := oneEntry_directory c
  listed e he := by
    have hinode : tapeMount.HasInode 3 := by decide
    obtain rfl := List.mem_singleton.mp he
    exact hinode
  names e he := by
    obtain rfl := List.mem_singleton.mp he
    exact fun h => hc (List.mem_singleton.mp h).symm

end Ext2Mount

end KmOS
