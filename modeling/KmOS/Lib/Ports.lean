/-
# `KmOS.Lib.Ports` — programs that talk to a device through ports

A program reads and writes ports, and what it does next may depend on what it has read.
It can be run on a device (`run`, `trace`), or be checked against a monitor that watches
the ports: `Meets mon p s Q` says that whatever is read, the monitor lets `p` pass, and
ends with the result in a state that `Q` holds of.  Then it lets every trace of `p` pass,
on every device (`Meets.accepts`).

Both have a rule for what is done one after the other, and one for loops.
-/
import Mathlib.Logic.Basic
import Mathlib.Data.Option.Basic

namespace KmOS

inductive PortAccess
  | inb (port : UInt16) (v : UInt8)
  | inw (port : UInt16) (v : UInt16)
  | outb (port : UInt16) (v : UInt8)
  | outw (port : UInt16) (v : UInt16)
  deriving DecidableEq

inductive PortProgram (α : Type) : Type
  | done (a : α)
  | thenInb (port : UInt16) (next : UInt8 → PortProgram α)
  | thenInw (port : UInt16) (next : UInt16 → PortProgram α)
  | thenOutb (port : UInt16) (v : UInt8) (next : PortProgram α)
  | thenOutw (port : UInt16) (v : UInt16) (next : PortProgram α)

/-- What is behind the ports. -/
structure PortDevice (σ : Type) where
  inb : σ → UInt16 → UInt8 × σ
  inw : σ → UInt16 → UInt16 × σ
  outb : σ → UInt16 → UInt8 → σ
  outw : σ → UInt16 → UInt16 → σ

namespace PortProgram

variable {α β σ S : Type}

def andThen : PortProgram α → (α → PortProgram β) → PortProgram β
  | done a, f => f a
  | thenInb port next, f => thenInb port fun v => (next v).andThen f
  | thenInw port next, f => thenInw port fun v => (next v).andThen f
  | thenOutb port v next, f => thenOutb port v (next.andThen f)
  | thenOutw port v next, f => thenOutw port v (next.andThen f)

instance : Monad PortProgram where
  pure := done
  bind := andThen

def inb (port : UInt16) : PortProgram UInt8 := thenInb port done

def inw (port : UInt16) : PortProgram UInt16 := thenInw port done

def outb (port : UInt16) (v : UInt8) : PortProgram Unit := thenOutb port v (done ())

def outw (port : UInt16) (v : UInt16) : PortProgram Unit := thenOutw port v (done ())

/-- `for (i = 0; i < n; ++i)`. -/
def forRange (f : Nat → α → PortProgram α) : Nat → α → PortProgram α
  | 0, a => done a
  | n + 1, a => (forRange f n a).andThen (f n)

/-! ## On a device -/

def run (dev : PortDevice σ) : PortProgram α → σ → α × σ
  | done a, s => (a, s)
  | thenInb port next, s => run dev (next (dev.inb s port).1) (dev.inb s port).2
  | thenInw port next, s => run dev (next (dev.inw s port).1) (dev.inw s port).2
  | thenOutb port v next, s => run dev next (dev.outb s port v)
  | thenOutw port v next, s => run dev next (dev.outw s port v)

/-- The accesses, one after another. -/
def trace (dev : PortDevice σ) : PortProgram α → σ → List PortAccess
  | done _, _ => []
  | thenInb port next, s =>
      .inb port (dev.inb s port).1 :: trace dev (next (dev.inb s port).1) (dev.inb s port).2
  | thenInw port next, s =>
      .inw port (dev.inw s port).1 :: trace dev (next (dev.inw s port).1) (dev.inw s port).2
  | thenOutb port v next, s => .outb port v :: trace dev next (dev.outb s port v)
  | thenOutw port v next, s => .outw port v :: trace dev next (dev.outw s port v)

theorem run_andThen (dev : PortDevice σ) (p : PortProgram α) (f : α → PortProgram β) (s : σ) :
    (p.andThen f).run dev s = (f (p.run dev s).1).run dev (p.run dev s).2 := by
  induction p generalizing s with
  | done a => rfl
  | thenInb port next ih => exact ih (dev.inb s port).1 (dev.inb s port).2
  | thenInw port next ih => exact ih (dev.inw s port).1 (dev.inw s port).2
  | thenOutb port v next ih => exact ih (dev.outb s port v)
  | thenOutw port v next ih => exact ih (dev.outw s port v)

@[simp] theorem run_pure (dev : PortDevice σ) (a : α) (s : σ) :
    (pure a : PortProgram α).run dev s = (a, s) := rfl

@[simp] theorem run_inb (dev : PortDevice σ) (port : UInt16) (s : σ) :
    (inb port).run dev s = dev.inb s port := rfl

@[simp] theorem run_inw (dev : PortDevice σ) (port : UInt16) (s : σ) :
    (inw port).run dev s = dev.inw s port := rfl

@[simp] theorem run_outb (dev : PortDevice σ) (port : UInt16) (v : UInt8) (s : σ) :
    (outb port v).run dev s = ((), dev.outb s port v) := rfl

@[simp] theorem run_outw (dev : PortDevice σ) (port v : UInt16) (s : σ) :
    (outw port v).run dev s = ((), dev.outw s port v) := rfl

@[simp] theorem run_bind (dev : PortDevice σ) (p : PortProgram α) (f : α → PortProgram β) (s : σ) :
    (p >>= f).run dev s = (f (p.run dev s).1).run dev (p.run dev s).2 :=
  run_andThen dev p f s

/-- **Loops on a device.** -/
theorem run_forRange (dev : PortDevice σ) {f : Nat → α → PortProgram α} {I : Nat → α → σ → Prop}
    {n : Nat} {a : α} {s : σ} (h0 : I 0 a s)
    (hstep : ∀ i a s, i < n → I i a s → I (i + 1) ((f i a).run dev s).1 ((f i a).run dev s).2) :
    I n ((forRange f n a).run dev s).1 ((forRange f n a).run dev s).2 := by
  induction n with
  | zero => exact h0
  | succ n ih =>
      have hn := ih fun i a s hi => hstep i a s (Nat.lt_succ_of_lt hi)
      unfold forRange
      rw [run_andThen]
      exact hstep n _ _ (Nat.lt_succ_self n) hn

/-! ## Before a monitor -/

/-- The monitor lets the accesses pass. -/
def passes (mon : S → PortAccess → Option S) (s : S) (accesses : List PortAccess) : Option S :=
  accesses.foldlM mon s

def Meets (mon : S → PortAccess → Option S) : PortProgram α → S → (α → S → Prop) → Prop
  | done a, s, Q => Q a s
  | thenInb port next, s, Q => ∀ v, ∃ s', mon s (.inb port v) = some s' ∧ Meets mon (next v) s' Q
  | thenInw port next, s, Q => ∀ v, ∃ s', mon s (.inw port v) = some s' ∧ Meets mon (next v) s' Q
  | thenOutb port v next, s, Q => ∃ s', mon s (.outb port v) = some s' ∧ Meets mon next s' Q
  | thenOutw port v next, s, Q => ∃ s', mon s (.outw port v) = some s' ∧ Meets mon next s' Q

variable {mon : S → PortAccess → Option S} {p : PortProgram α} {f : α → PortProgram β} {s : S}
  {Q Q' : α → S → Prop}

theorem Meets.mono (h : p.Meets mon s Q) (hQ : ∀ a s', Q a s' → Q' a s') : p.Meets mon s Q' := by
  induction p generalizing s with
  | done a => exact hQ a s h
  | thenInb port next ih =>
      intro v
      obtain ⟨s', hs', hnext⟩ := h v
      exact ⟨s', hs', ih v hnext⟩
  | thenInw port next ih =>
      intro v
      obtain ⟨s', hs', hnext⟩ := h v
      exact ⟨s', hs', ih v hnext⟩
  | thenOutb port v next ih =>
      obtain ⟨s', hs', hnext⟩ := h
      exact ⟨s', hs', ih hnext⟩
  | thenOutw port v next ih =>
      obtain ⟨s', hs', hnext⟩ := h
      exact ⟨s', hs', ih hnext⟩

/-- **One after the other.** -/
theorem Meets.andThen {R : β → S → Prop} (h : p.Meets mon s fun a s' => (f a).Meets mon s' R) :
    (p.andThen f).Meets mon s R := by
  induction p generalizing s with
  | done a => exact h
  | thenInb port next ih =>
      intro v
      obtain ⟨s', hs', hnext⟩ := h v
      exact ⟨s', hs', ih v hnext⟩
  | thenInw port next ih =>
      intro v
      obtain ⟨s', hs', hnext⟩ := h v
      exact ⟨s', hs', ih v hnext⟩
  | thenOutb port v next ih =>
      obtain ⟨s', hs', hnext⟩ := h
      exact ⟨s', hs', ih hnext⟩
  | thenOutw port v next ih =>
      obtain ⟨s', hs', hnext⟩ := h
      exact ⟨s', hs', ih hnext⟩

theorem Meets.bind {R : β → S → Prop} (h : p.Meets mon s fun a s' => (f a).Meets mon s' R) :
    (p >>= f).Meets mon s R :=
  Meets.andThen h

/-- **Loops before a monitor.** -/
theorem Meets.forRange {f : Nat → α → PortProgram α} {I : Nat → α → S → Prop} {n : Nat} {a : α}
    (h0 : I 0 a s) (hstep : ∀ i a s, i < n → I i a s → (f i a).Meets mon s (I (i + 1))) :
    (PortProgram.forRange f n a).Meets mon s (I n) := by
  induction n with
  | zero => exact h0
  | succ n ih =>
      have hn := ih fun i a s hi => hstep i a s (Nat.lt_succ_of_lt hi)
      exact Meets.andThen (hn.mono fun a s' h => hstep n a s' (Nat.lt_succ_self n) h)

/-- **The monitor lets every trace pass.** -/
theorem Meets.accepts (h : p.Meets mon s Q) (dev : PortDevice σ) (d : σ) :
    ∃ s', passes mon s (p.trace dev d) = some s' ∧ Q (p.run dev d).1 s' := by
  induction p generalizing s d with
  | done a => exact ⟨s, rfl, h⟩
  | thenInb port next ih =>
      obtain ⟨s₁, hs₁, hnext⟩ := h (dev.inb d port).1
      obtain ⟨s', hs', hQ⟩ := ih _ hnext (dev.inb d port).2
      refine ⟨s', ?_, hQ⟩
      unfold passes trace
      rw [List.foldlM_cons, hs₁]
      exact hs'
  | thenInw port next ih =>
      obtain ⟨s₁, hs₁, hnext⟩ := h (dev.inw d port).1
      obtain ⟨s', hs', hQ⟩ := ih _ hnext (dev.inw d port).2
      refine ⟨s', ?_, hQ⟩
      unfold passes trace
      rw [List.foldlM_cons, hs₁]
      exact hs'
  | thenOutb port v next ih =>
      obtain ⟨s₁, hs₁, hnext⟩ := h
      obtain ⟨s', hs', hQ⟩ := ih hnext (dev.outb d port v)
      refine ⟨s', ?_, hQ⟩
      unfold passes trace
      rw [List.foldlM_cons, hs₁]
      exact hs'
  | thenOutw port v next ih =>
      obtain ⟨s₁, hs₁, hnext⟩ := h
      obtain ⟨s', hs', hQ⟩ := ih hnext (dev.outw d port v)
      refine ⟨s', ?_, hQ⟩
      unfold passes trace
      rw [List.foldlM_cons, hs₁]
      exact hs'

-- a loop is not to be unrolled, and a program is not to be run, unless a proof says so
attribute [irreducible] forRange run

end PortProgram

end KmOS
