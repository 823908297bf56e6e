/-
# `KmOS.Lib.BlockHeap` — a heap that hands out blocks

What lies under an allocator is a heap it knows nothing about.  A `BlockHeap`
keeps the blocks handed out and not given back, and counts what is given back
without being out.  Where a block will be is not known: `propose` says, request
by request, where, and a proposal that is no place for a block (`Free`) is a
refusal.  So every heap that keeps its blocks apart is one of these.
-/
import Mathlib.Tactic.Common
import Mathlib.Data.List.Basic
import Mathlib.Data.List.Pairwise

namespace KmOS

/-- A block of `b.2` bytes at `b.1`: not at null, not empty, inside the 32-bit
address space. -/
def Block.Placed (b : Nat × Nat) : Prop := b.1 ≠ 0 ∧ b.2 ≠ 0 ∧ b.1 + b.2 ≤ 4294967296

def Block.Apart (b c : Nat × Nat) : Prop := b.1 + b.2 ≤ c.1 ∨ c.1 + c.2 ≤ b.1

instance : Std.Symm Block.Apart := ⟨fun _ _ => Or.symm⟩

structure BlockHeap where
  propose : Nat → Nat
  live : List (Nat × Nat)
  badFrees : Nat
  placed : ∀ b ∈ live, Block.Placed b
  apart : live.Pairwise Block.Apart

namespace BlockHeap

variable (h : BlockHeap)

/-- A place for a new block. -/
def Free (p n : Nat) : Prop := Block.Placed (p, n) ∧ ∀ b ∈ h.live, Block.Apart (p, n) b

instance (p n : Nat) : Decidable (h.Free p n) := by
  unfold Free Block.Placed Block.Apart
  infer_instance

/-- Ask for `n` bytes; 0 is a refusal. -/
def alloc (n : Nat) : Nat × BlockHeap :=
  let p := h.propose 0
  let rest : Nat → Nat := fun i => h.propose (i + 1)
  if hf : h.Free p n then
    (p, { h with
      propose := rest
      live := (p, n) :: h.live
      placed := List.forall_mem_cons.mpr ⟨hf.1, h.placed⟩
      apart := List.pairwise_cons.mpr ⟨hf.2, h.apart⟩ })
  else (0, { h with propose := rest })

/-- The block at `p` is out. -/
def Live (p : Nat) : Prop := ∃ b ∈ h.live, b.1 = p

instance (p : Nat) : Decidable (h.Live p) := by
  unfold Live
  infer_instance

/-- Give back the block at `p`. -/
def free (p : Nat) : BlockHeap :=
  if p = 0 then h
  else if h.Live p then
    { h with
      live := h.live.filter fun b => b.1 ≠ p
      placed := fun b hb => h.placed b (List.mem_filter.mp hb).1
      apart := h.apart.filter _ }
  else { h with badFrees := h.badFrees + 1 }

variable {h} {p n : Nat}

/-- A request is refused, or served with a new block. -/
theorem alloc_cases (h : BlockHeap) (n : Nat) :
    ((h.alloc n).1 = 0 ∧ (h.alloc n).2.live = h.live) ∨
    (h.Free (h.alloc n).1 n ∧ (h.alloc n).2.live = ((h.alloc n).1, n) :: h.live) := by
  unfold alloc
  dsimp only
  split
  · next hf => exact .inr ⟨hf, rfl⟩
  · exact .inl ⟨rfl, rfl⟩

theorem alloc_badFrees (h : BlockHeap) (n : Nat) : (h.alloc n).2.badFrees = h.badFrees := by
  unfold alloc
  dsimp only
  split <;> rfl

/-- A proposal that is a place for the block is taken. -/
theorem alloc_of_free (hf : h.Free (h.propose 0) n) :
    (h.alloc n).1 = h.propose 0 ∧ (h.alloc n).2.live = (h.propose 0, n) :: h.live := by
  unfold alloc
  dsimp only
  rw [dif_pos hf]
  exact ⟨rfl, rfl⟩

/-- A refusal is of a proposal that is no place for the block. -/
theorem alloc_eq_zero (hf : ¬ h.Free (h.propose 0) n) : (h.alloc n).1 = 0 := by
  unfold alloc
  dsimp only
  rw [dif_neg hf]

theorem alloc_lt (h : BlockHeap) (n : Nat) : (h.alloc n).1 < 4294967296 := by
  rcases h.alloc_cases n with ⟨h0, _⟩ | ⟨⟨⟨_, hn, hlt⟩, _⟩, _⟩
  · rw [h0]
    decide
  · dsimp only at hn hlt
    omega

/-- No block begins where another one does. -/
theorem Free.not_live (hf : h.Free p n) : ¬ h.Live p := by
  rintro ⟨b, hb, rfl⟩
  have hn := hf.1.2.1
  have hm := (h.placed b hb).2.1
  rcases hf.2 b hb with hle | hle
  · dsimp only at hle hn
    omega
  · dsimp only at hle hn
    omega

theorem apart_of_mem {b c : Nat × Nat} (hb : b ∈ h.live) (hc : c ∈ h.live) (hne : b ≠ c) :
    Block.Apart b c :=
  h.apart.forall hb hc hne

/-- A block is known by its address. -/
theorem eq_of_mem {b c : Nat × Nat} (hb : b ∈ h.live) (hc : c ∈ h.live) (he : b.1 = c.1) :
    b = c := by
  by_contra hne
  have hn := (h.placed b hb).2.1
  have hm := (h.placed c hc).2.1
  rcases apart_of_mem hb hc hne with hle | hle <;> omega

theorem alloc_live {q : Nat} (hq : h.Live q) : (h.alloc n).2.Live q := by
  obtain ⟨b, hb, rfl⟩ := hq
  rcases h.alloc_cases n with ⟨_, hl⟩ | ⟨_, hl⟩
  · exact ⟨b, hl ▸ hb, rfl⟩
  · exact ⟨b, hl ▸ List.mem_cons_of_mem _ hb, rfl⟩

/-- A request that is served gives a block that was not out and now is. -/
theorem alloc_new (hp : (h.alloc n).1 ≠ 0) :
    ¬ h.Live (h.alloc n).1 ∧ (h.alloc n).2.Live (h.alloc n).1 := by
  rcases h.alloc_cases n with ⟨h0, _⟩ | ⟨hf, hl⟩
  · exact absurd h0 hp
  · exact ⟨hf.not_live, (_, n), hl ▸ List.mem_cons_self, rfl⟩

/-- What is out after the block at `p` was given back. -/
theorem mem_free (hp0 : p ≠ 0) (b : Nat × Nat) : b ∈ (h.free p).live ↔ b ∈ h.live ∧ b.1 ≠ p := by
  unfold free
  rw [if_neg hp0]
  split
  · exact List.mem_filter.trans (and_congr_right fun _ => by simp)
  · next hp => exact ⟨fun hb => ⟨hb, fun e => hp ⟨b, hb, e⟩⟩, fun hb => hb.1⟩

theorem alloc_mem {b : Nat × Nat} (hb : b ∈ h.live) (n : Nat) : b ∈ (h.alloc n).2.live := by
  rcases h.alloc_cases n with ⟨_, hl⟩ | ⟨_, hl⟩
  · exact hl ▸ hb
  · exact hl ▸ List.mem_cons_of_mem _ hb

theorem free_badFrees (hp : h.Live p) : (h.free p).badFrees = h.badFrees := by
  unfold free
  rw [if_pos hp]
  split <;> rfl

end BlockHeap

end KmOS
