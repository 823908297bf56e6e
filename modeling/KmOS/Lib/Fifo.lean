/-
# `KmOS.Lib.Fifo` — bounded queues, and circular arrays that hold them

A `Fifo` holds at most `cap` elements; an element that does not fit is dropped.
A `Ledger` keeps, beside the queue, everything that was accepted and everything
that was returned, and that these balance is a field of it: what is returned is
what was accepted, in order.

`CircularAt b n i s` says that the elements of `s` stand in the circular array
`b` of `n` cells from cell `i` on.  It is `ListAt` of the array that repeats `b`
without end, so that what is known of lists in arrays holds of it.  Nothing is
asked of the cells that hold no element.
-/
import KmOS.Lib.LoggedArray

namespace KmOS

variable {α : Type} {cap : Nat}

/-! ## Queues -/

/-- A queue of at most `cap` elements. -/
structure Fifo (α : Type) (cap : Nat) where
  items : List α
  fits : items.length ≤ cap

namespace Fifo

def empty (α : Type) (cap : Nat) : Fifo α cap := ⟨[], Nat.zero_le cap⟩

/-- Add an element at the end, or drop it. -/
def push (q : Fifo α cap) (a : α) : Fifo α cap :=
  if h : q.items.length < cap then
    ⟨q.items ++ [a], by rw [List.length_append, List.length_singleton]; exact h⟩
  else q

/-- Take the first element away. -/
def pop (q : Fifo α cap) : Fifo α cap :=
  ⟨q.items.tail, Nat.le_trans (by rw [List.length_tail]; exact Nat.sub_le _ _) q.fits⟩

variable {q : Fifo α cap} {a : α}

theorem push_items_of_lt (h : q.items.length < cap) : (q.push a).items = q.items ++ [a] := by
  unfold push
  rw [dif_pos h]

end Fifo

/-! ## Ledgers -/

/-- A queue, with what was accepted into it and what was returned from it. -/
structure Ledger (α : Type) (cap : Nat) where
  queue : Fifo α cap
  accepted : List α
  returned : List α
  balance : accepted = returned ++ queue.items

namespace Ledger

def empty (α : Type) (cap : Nat) : Ledger α cap := ⟨.empty α cap, [], [], rfl⟩

def push (l : Ledger α cap) (a : α) : Ledger α cap :=
  if h : l.queue.items.length < cap then
    { queue := l.queue.push a
      accepted := l.accepted ++ [a]
      returned := l.returned
      balance := by rw [Fifo.push_items_of_lt h, l.balance, List.append_assoc] }
  else l

def pop (l : Ledger α cap) : Ledger α cap where
  queue := l.queue.pop
  accepted := l.accepted
  returned := l.returned ++ l.queue.items.head?.toList
  balance := by
    rw [l.balance, List.append_assoc]
    congr 1
    cases h : l.queue.items <;> simp [Fifo.pop, h]

variable {l : Ledger α cap} {a : α}

theorem push_of_lt (h : l.queue.items.length < cap) :
    (l.push a).queue.items = l.queue.items ++ [a] ∧ (l.push a).accepted = l.accepted ++ [a] ∧
      (l.push a).returned = l.returned := by
  unfold push
  rw [dif_pos h]
  exact ⟨Fifo.push_items_of_lt h, rfl, rfl⟩

theorem push_of_full (h : ¬ l.queue.items.length < cap) : l.push a = l := dif_neg h

theorem push_returned (l : Ledger α cap) (a : α) : (l.push a).returned = l.returned := by
  by_cases h : l.queue.items.length < cap
  · exact (push_of_lt h).2.2
  · rw [push_of_full h]

/-- As many have been accepted as have been returned or wait. -/
theorem length_accepted (l : Ledger α cap) :
    l.accepted.length = l.returned.length + l.queue.items.length := by
  rw [l.balance, List.length_append]

/-- **One more is offered.**  Nothing is lost if nothing was lost before and what has
been offered and not returned fits. -/
theorem push_offered {offered : List α} (h : l.accepted.Sublist offered) (a : α) :
    (l.push a).accepted.Sublist (offered ++ [a]) ∧
      ((l.push a).accepted = offered ++ [a] ↔
        l.accepted = offered ∧ (offered ++ [a]).length ≤ l.returned.length + cap) := by
  have hlen := l.length_accepted
  rw [List.length_append, List.length_singleton]
  by_cases hroom : l.queue.items.length < cap
  · rw [(push_of_lt hroom).2.1]
    refine ⟨h.append (.refl [a]), fun he => ?_, fun he => congrArg (· ++ [a]) he.1⟩
    have heq := List.append_cancel_right he
    rw [← heq]
    exact ⟨rfl, by omega⟩
  · rw [push_of_full hroom]
    refine ⟨h.trans (List.sublist_append_left offered [a]), ?_⟩
    constructor
    · intro he
      have hle := h.length_le
      rw [he, List.length_append, List.length_singleton] at hle
      omega
    · rintro ⟨he, hle⟩
      rw [← he] at hle
      omega

theorem pop_of_nil (h : l.queue.items = []) :
    l.pop.queue.items = [] ∧ l.pop.returned = l.returned := by
  refine ⟨congrArg List.tail h, ?_⟩
  show l.returned ++ l.queue.items.head?.toList = l.returned
  rw [h]
  exact List.append_nil l.returned

theorem pop_of_cons {s : List α} (h : l.queue.items = a :: s) :
    l.pop.queue.items = s ∧ l.pop.returned = l.returned ++ [a] := by
  refine ⟨congrArg List.tail h, ?_⟩
  show l.returned ++ l.queue.items.head?.toList = l.returned ++ [a]
  rw [h]
  rfl

end Ledger

/-! ## Circular arrays -/

/-- The elements of `s` stand in the `n` cells of `b`, round about, from cell `i` on. -/
def CircularAt (b : Nat → α) (n i : Nat) (s : List α) : Prop := ListAt (fun j => b (j % n)) i s

namespace CircularAt

variable {b : Nat → α} {n i : Nat} {s : List α} {a : α}

theorem nil : CircularAt b n i [] := trivial

/-- Once round is the same place. -/
theorem mod_iff : CircularAt b n (i % n) s ↔ CircularAt b n i s := by
  unfold CircularAt
  rw [ListAt.iff_getElem?, ListAt.iff_getElem?]
  simp only [Nat.mod_add_mod]

theorem cons_iff : CircularAt b n i (a :: s) ↔ b (i % n) = a ∧ CircularAt b n ((i + 1) % n) s := by
  rw [mod_iff]
  exact Iff.rfl

/-- Fewer than `n` elements leave the cell behind them free: writing there adds
one to them and changes none. -/
theorem push (h : CircularAt b n i s) (hlen : s.length < n) :
    CircularAt (Function.update b ((i + s.length) % n) a) n i (s ++ [a]) := by
  refine ListAt.append_iff.mpr ⟨h.congr fun j hlo hhi => ?_, ?_, trivial⟩
  · -- two places less than `n` apart are different cells
    have hne : j % n ≠ (i + s.length) % n := fun e => by
      have hd := Nat.sub_mod_eq_zero_of_mod_eq e.symm
      rw [Nat.mod_eq_of_lt (by omega)] at hd
      omega
    exact Function.update_of_ne hne a b
  · exact Function.update_self ..

end CircularAt

end KmOS
