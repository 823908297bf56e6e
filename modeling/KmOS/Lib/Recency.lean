/-
# `KmOS.Lib.Recency` — keys in the order they were last accessed

A history is a list of events, the latest first, each of which accesses a key
or removes it.  `recency` keeps the keys in a list, moving a key to the front
when it is accessed.  The list holds each key accessed and not removed since
(`mem_recency`), once, and a key accessed later stands before one accessed
earlier (`recency_pairwise`).
-/
import Mathlib.Data.List.Nodup

namespace KmOS

/-- What happens to a key. -/
inductive KeyEvent (α : Type) where
  | access (key : α)
  | remove (key : α)

namespace KeyEvent

variable {α : Type}

def key : KeyEvent α → α
  | access a => a
  | remove a => a

/-- The last event about `a` lies `n` events back, and it is an access. -/
def LastAccess (h : List (KeyEvent α)) (a : α) (n : Nat) : Prop :=
  h[n]? = some (access a) ∧ ∀ j < n, ∀ e ∈ h[j]?, e.key ≠ a

variable {e : KeyEvent α} {h : List (KeyEvent α)} {a b : α} {n m : Nat}

/-! ## Last accesses -/

theorem not_lastAccess_nil : ¬ LastAccess [] a n := fun hl => nomatch hl.1

theorem lastAccess_zero : LastAccess (e :: h) a 0 ↔ e = access a := by
  constructor
  · exact fun hl => Option.some.inj hl.1
  · rintro rfl
    exact ⟨rfl, fun _ hj => absurd hj (Nat.not_lt_zero _)⟩

theorem lastAccess_succ : LastAccess (e :: h) a (n + 1) ↔ e.key ≠ a ∧ LastAccess h a n := by
  constructor
  · rintro ⟨hn, hb⟩
    exact ⟨hb 0 (Nat.succ_pos n) e rfl, hn, fun j hj => hb (j + 1) (Nat.succ_lt_succ hj)⟩
  · rintro ⟨he, hn, hb⟩
    refine ⟨hn, fun j hj e' he' => ?_⟩
    cases j with
    | zero =>
        rw [← Option.some.inj (Option.mem_def.mp he')]
        exact he
    | succ j => exact hb j (Nat.lt_of_succ_lt_succ hj) e' he'

theorem lastAccess_key : LastAccess (e :: h) e.key n ↔ n = 0 ∧ e = access e.key := by
  cases n with
  | zero => exact ⟨fun hl => ⟨rfl, lastAccess_zero.mp hl⟩, fun hl => lastAccess_zero.mpr hl.2⟩
  | succ n => exact ⟨fun hl => absurd rfl (lastAccess_succ.mp hl).1, fun hl => nomatch hl.1⟩

/-- An event says nothing about other keys. -/
theorem lastAccess_other (hne : e.key ≠ a) :
    (∃ n, LastAccess (e :: h) a n) ↔ ∃ n, LastAccess h a n := by
  constructor
  · rintro ⟨n, hl⟩
    cases n with
    | zero =>
        rw [lastAccess_zero.mp hl] at hne
        exact absurd rfl hne
    | succ n => exact ⟨n, (lastAccess_succ.mp hl).2⟩
  · rintro ⟨n, hl⟩
    exact ⟨n + 1, lastAccess_succ.mpr ⟨hne, hl⟩⟩

/-- There is one last access. -/
theorem LastAccess.unique (hn : LastAccess h a n) (hm : LastAccess h a m) : n = m := by
  rcases Nat.lt_trichotomy n m with hlt | heq | hlt
  · exact absurd rfl (hm.2 n hlt _ hn.1)
  · exact heq
  · exact absurd rfl (hn.2 m hlt _ hm.1)

/-- `a` was last accessed after `b` was. -/
def MoreRecent (h : List (KeyEvent α)) (a b : α) : Prop :=
  ∃ n m, LastAccess h a n ∧ LastAccess h b m ∧ n < m

theorem MoreRecent.cons (hab : MoreRecent h a b) (ha : e.key ≠ a) (hb : e.key ≠ b) :
    MoreRecent (e :: h) a b := by
  obtain ⟨n, m, hn, hm, hlt⟩ := hab
  exact ⟨n + 1, m + 1, lastAccess_succ.mpr ⟨ha, hn⟩, lastAccess_succ.mpr ⟨hb, hm⟩, by omega⟩

/-! ## The list -/

variable [DecidableEq α]

/-- The keys, the one accessed last in front. -/
def recency : List (KeyEvent α) → List α
  | [] => []
  | access a :: h => a :: (recency h).erase a
  | remove a :: h => (recency h).erase a

theorem recency_nodup : ∀ h : List (KeyEvent α), (recency h).Nodup
  | [] => List.nodup_nil
  | access a :: h =>
      List.nodup_cons.mpr ⟨(recency_nodup h).not_mem_erase, (recency_nodup h).erase a⟩
  | remove a :: h => (recency_nodup h).erase a

/-- **The list holds the keys accessed and not removed since.** -/
theorem mem_recency : ∀ {h : List (KeyEvent α)} {b : α}, b ∈ recency h ↔ ∃ n, LastAccess h b n
  | [], b => ⟨fun hb => absurd hb List.not_mem_nil, fun ⟨_, hl⟩ => absurd hl not_lastAccess_nil⟩
  | access a :: h, b => by
      by_cases hab : a = b
      · subst hab
        exact ⟨fun _ => ⟨0, lastAccess_zero.mpr rfl⟩, fun _ => List.mem_cons_self⟩
      · rw [lastAccess_other (e := access a) hab, ← mem_recency]
        show b ∈ a :: (recency h).erase a ↔ _
        rw [List.mem_cons, List.mem_erase_of_ne (Ne.symm hab)]
        exact or_iff_right (Ne.symm hab)
  | remove a :: h, b => by
      by_cases hab : a = b
      · subst hab
        refine ⟨fun hb => absurd hb (recency_nodup h).not_mem_erase, fun ⟨n, hl⟩ => ?_⟩
        exact nomatch (lastAccess_key (e := remove a).mp hl).2
      · rw [lastAccess_other (e := remove a) hab, ← mem_recency]
        exact List.mem_erase_of_ne (Ne.symm hab)

/-- An event keeps the order of the keys it is not about. -/
theorem pairwise_erase (hp : (recency h).Pairwise (MoreRecent h)) :
    ((recency h).erase e.key).Pairwise (MoreRecent (e :: h)) := by
  have hnot : e.key ∉ (recency h).erase e.key := (recency_nodup h).not_mem_erase
  refine (hp.sublist List.erase_sublist).imp_of_mem (fun {a b} ha hb hab => hab.cons ?_ ?_)
  · exact fun he => hnot (he ▸ ha)
  · exact fun he => hnot (he ▸ hb)

/-- **The order of the list is the order of the last accesses.** -/
theorem recency_pairwise : ∀ h : List (KeyEvent α), (recency h).Pairwise (MoreRecent h)
  | [] => List.Pairwise.nil
  | access a :: h => by
      refine List.pairwise_cons.mpr ⟨fun b hb => ?_, pairwise_erase (recency_pairwise h)⟩
      have hne : a ≠ b := fun he => (recency_nodup h).not_mem_erase (he ▸ hb)
      obtain ⟨n, hn⟩ := mem_recency.mp (List.mem_of_mem_erase hb)
      exact ⟨0, n + 1, lastAccess_zero.mpr rfl, lastAccess_succ.mpr ⟨hne, hn⟩, Nat.succ_pos n⟩
  | remove a :: h => pairwise_erase (recency_pairwise h)

/-- The last key of the list is the one whose last access lies furthest back. -/
theorem recency_last {l : List α} (hl : recency h = l ++ [a]) :
    ∃ n, LastAccess h a n ∧ ∀ b m, LastAccess h b m → m ≤ n := by
  have hmem : ∀ {b}, b ∈ l ++ [a] ↔ ∃ n, LastAccess h b n := by
    intro b
    rw [← hl]
    exact mem_recency
  obtain ⟨n, hn⟩ := hmem.mp (List.mem_append_right l (List.mem_singleton_self a))
  refine ⟨n, hn, fun b m hm => ?_⟩
  rcases List.mem_append.mp (hmem.mpr ⟨m, hm⟩) with hb | hb
  · have hp := recency_pairwise h
    rw [hl] at hp
    obtain ⟨m', n', hm', hn', hlt⟩ :=
      (List.pairwise_append.mp hp).2.2 b hb a (List.mem_singleton_self a)
    rw [hm.unique hm', hn.unique hn']
    exact Nat.le_of_lt hlt
  · rw [List.mem_singleton.mp hb] at hm
    exact Nat.le_of_eq (hm.unique hn)

end KeyEvent

end KmOS
