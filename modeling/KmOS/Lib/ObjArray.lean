/-
# `KmOS.Lib.ObjArray` — arrays of objects, some free and some handed out

An `ObjArray` is a region of memory that holds an array of objects.  `Keeps`
says that its free objects, on a list threaded through them, and those of the
objects `out` that lie in it are its slots, each slot once.  Taking the first
free object and giving one back keep it (`Keeps.take`, `Keeps.give`), and so does
whatever happens outside the array (`Keeps.congr`).
-/
import KmOS.Lib.Freelist

namespace KmOS

/-- A region of `len` bytes with `count` objects of `size` bytes. -/
structure ObjArray where
  base : Nat
  len : Nat
  size : Nat
  count : Nat

namespace ObjArray

variable {m m' : Memory} {p : ObjArray} {head o : Nat} {fl t out out' : List Nat}

def Has (p : ObjArray) (o : Nat) : Prop := p.base ≤ o ∧ o < p.base + p.len

instance (p : ObjArray) (o : Nat) : Decidable (p.Has o) := inferInstanceAs (Decidable (_ ∧ _))

/-- The addresses of the objects. -/
def objs (p : ObjArray) : List Nat := slots p.base p.size p.count

/-- The region is part of the address space, an object holds a link and a mark,
and the objects lie in the region. -/
structure Fits (p : ObjArray) : Prop where
  base : p.base ≠ 0
  space : p.base + p.len < 4294967296
  size : 8 ≤ p.size
  count : p.count * p.size ≤ p.len

/-- Those of the objects `out` that lie in the array. -/
def outOf (p : ObjArray) (out : List Nat) : List Nat := out.filter (fun o => decide (p.Has o))

structure Keeps (m : Memory) (p : ObjArray) (head : Nat) (fl out : List Nat) : Prop where
  list : Sll 0 m.link head fl
  slots : (fl ++ p.outOf out).Perm p.objs

theorem mem_outOf : o ∈ p.outOf out ↔ o ∈ out ∧ p.Has o := by
  unfold outOf
  rw [List.mem_filter, decide_eq_true_iff]

theorem outOf_cons_self (h : p.Has o) : p.outOf (o :: out) = o :: p.outOf out :=
  List.filter_cons_of_pos (by simpa using h)

theorem outOf_cons_other (h : ¬ p.Has o) : p.outOf (o :: out) = p.outOf out :=
  List.filter_cons_of_neg (by simpa using h)

theorem outOf_perm (h : out.Perm out') : (p.outOf out).Perm (p.outOf out') := h.filter _

theorem outOf_erase (ho : o ∈ out) (h : p.Has o) : (o :: p.outOf (out.erase o)).Perm (p.outOf out) := by
  rw [← outOf_cons_self h]
  exact outOf_perm (List.perm_cons_erase ho).symm

theorem outOf_erase_other (ho : o ∈ out) (h : ¬ p.Has o) :
    (p.outOf (out.erase o)).Perm (p.outOf out) := by
  rw [← outOf_cons_other h]
  exact outOf_perm (List.perm_cons_erase ho).symm

/-- An object lies in its array, whole. -/
theorem Fits.bounds (hf : p.Fits) (ho : o ∈ p.objs) : p.base ≤ o ∧ o + p.size ≤ p.base + p.len := by
  have hb := slots_bounds ho
  have := hf.count
  omega

theorem Fits.has (hf : p.Fits) (ho : o ∈ p.objs) : p.Has o := by
  have hb := hf.bounds ho
  have := hf.size
  unfold Has
  omega

theorem Fits.ne_zero (hf : p.Fits) (h : p.Has o) : o ≠ 0 := by
  have := hf.base
  unfold Has at h
  omega

namespace Keeps

theorem free_obj (h : Keeps m p head fl out) (ho : o ∈ fl) : o ∈ p.objs :=
  h.slots.subset (List.mem_append_left _ ho)

theorem out_obj (h : Keeps m p head fl out) (ho : o ∈ out) (hp : p.Has o) : o ∈ p.objs :=
  h.slots.subset (List.mem_append_right _ (mem_outOf.mpr ⟨ho, hp⟩))

/-- Every object is free or out, and none is both. -/
theorem nodup (h : Keeps m p head fl out) (hf : p.Fits) : (fl ++ p.outOf out).Nodup := by
  have := hf.size
  exact h.slots.nodup_iff.mpr (slots_nodup (by omega))

theorem not_out (h : Keeps m p head fl out) (hf : p.Fits) (ho : o ∈ fl) : o ∉ out := by
  intro hm
  have hin := hf.has (h.free_obj ho)
  exact (List.nodup_append.mp (h.nodup hf)).2.2 o ho o (mem_outOf.mpr ⟨hm, hin⟩) rfl

theorem total (h : Keeps m p head fl out) : fl.length + (p.outOf out).length = p.count := by
  have hlen := h.slots.length_eq
  rwa [List.length_append, objs, length_slots] at hlen

/-- A list has no more in it than the links of its own nodes. -/
theorem congr (h : Keeps m p head fl out) (hm : ∀ o ∈ fl, m'.link o = m.link o)
    (hout : (p.outOf out').Perm (p.outOf out)) : Keeps m' p head fl out' :=
  ⟨h.list.congr hm, (hout.append_left fl).trans h.slots⟩

/-- The head of the list is an address. -/
theorem head_lt (h : Keeps m p head fl out) (hf : p.Fits) : head < 4294967296 := by
  cases fl with
  | nil =>
      have h0 : head = 0 := h.list
      omega
  | cons o t =>
      have hb := hf.bounds (h.free_obj List.mem_cons_self)
      have := hf.space
      have := hf.size
      have h0 : head = o := h.list.1
      omega

/-- **The first free object is taken.** -/
theorem take (h : Keeps m p head (o :: t) out) (hf : p.Fits)
    (hm : ∀ x ∈ t, m'.link x = m.link x) : Keeps m' p (m.link o) t (o :: out) := by
  obtain ⟨_, _, ht⟩ := h.list
  refine ⟨ht.congr hm, ?_⟩
  rw [outOf_cons_self (hf.has (h.free_obj List.mem_cons_self))]
  exact List.perm_middle.trans h.slots

/-- **An object is given back** to the front of the list. -/
theorem give (h : Keeps m p head fl out) (hf : p.Fits) (ho : o ∈ out) (hp : p.Has o)
    (hlink : m'.link o = head) (hm : ∀ x ∈ fl, m'.link x = m.link x) :
    Keeps m' p o (o :: fl) (out.erase o) := by
  refine ⟨h.list.push (hf.ne_zero hp) hlink hm, ?_⟩
  rw [List.cons_append]
  refine List.Perm.trans ?_ h.slots
  exact List.perm_middle.symm.trans ((outOf_erase ho hp).append_left fl)

/-- Two objects are one, or lie apart. -/
theorem apart {a b : Nat} (h : Keeps m p head fl out) (ha : a ∈ fl ∨ a ∈ out ∧ p.Has a)
    (hb : b ∈ fl ∨ b ∈ out ∧ p.Has b) : Memory.Apart p.size a b := by
  have hobj : ∀ c, c ∈ fl ∨ c ∈ out ∧ p.Has c → c ∈ p.objs :=
    fun c hc => hc.elim h.free_obj (fun hc => h.out_obj hc.1 hc.2)
  exact slots_apart (hobj a ha) (hobj b hb)

end Keeps

/-- In a fresh array all marks are those of free objects. -/
theorem mark_thread {put : Memory → Nat → Nat → Memory} {v : Nat} (hput : Memory.PutsFree put v)
    (hf : p.Fits) (m : Memory) (ho : o ∈ p.objs) :
    (Memory.thread put p.size p.count m p.base 0).1.mark o = v := by
  have hcount := hf.count
  have hspace := hf.space
  obtain ⟨_, hmark, _⟩ := Memory.thread_spec hput hf.size (n := p.count) (m := m) (p := p.base)
    (h := 0) (l := []) (by omega) hf.base rfl nofun nofun
  exact hmark o (List.mem_append_left _ (List.mem_reverse.mpr ho))

/-- **A fresh array**: the loop over it puts all its objects on the list. -/
theorem keeps_thread {put : Memory → Nat → Nat → Memory} {v : Nat} (hput : Memory.PutsFree put v)
    (hf : p.Fits) (hout : ∀ o ∈ out, ¬ p.Has o) (m : Memory) :
    Keeps (Memory.thread put p.size p.count m p.base 0).1 p
        (Memory.thread put p.size p.count m p.base 0).2 p.objs.reverse out ∧
      ∀ x, ¬ p.Has x → (Memory.thread put p.size p.count m p.base 0).1 x = m x := by
  have hcount := hf.count
  have hspace := hf.space
  obtain ⟨hlist, _, hother⟩ := Memory.thread_spec hput hf.size (n := p.count) (m := m) (p := p.base)
    (h := 0) (l := []) (by omega) hf.base rfl nofun nofun
  rw [List.append_nil] at hlist
  have hnil : p.outOf out = [] := by
    refine List.eq_nil_iff_forall_not_mem.mpr (fun o ho => ?_)
    obtain ⟨hm, hp⟩ := mem_outOf.mp ho
    exact hout o hm hp
  refine ⟨⟨hlist, ?_⟩, fun x hx => hother x ?_⟩
  · rw [hnil, List.append_nil]
    exact List.reverse_perm _
  · unfold Has at hx
    omega

end ObjArray

end KmOS
