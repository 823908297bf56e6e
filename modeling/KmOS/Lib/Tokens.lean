/-
# `KmOS.Lib.Tokens` — the tokens of a list with separators

`tokens sep n l` cuts `l` at the separators and drops the empty pieces, but
keeps with each token how many separators stand before it; `n` of them were
met before `l`.  Without the numbers this is `splitOnP` and a filter
(`tokens_snd`).  The other lemmas follow a scanner: over a separator, over a
run of them, over a token.
-/
import Mathlib.Data.List.Basic

namespace KmOS

variable {α : Type}

/-- The nonempty pieces, each with the separators before it. -/
def counted (n : Nat) : List (List α) → List (Nat × List α)
  | [] => []
  | [] :: l => counted (n + 1) l
  | (a :: c) :: l => (n, a :: c) :: counted 1 l

theorem counted_snd [DecidableEq α] (n : Nat) (l : List (List α)) :
    (counted n l).map Prod.snd = l.filter (· ≠ []) := by
  induction l generalizing n with
  | nil => rfl
  | cons c l ih =>
      cases c with
      | nil => simpa [counted] using ih (n + 1)
      | cons a c => simpa [counted] using ih 1

theorem counted_concat {c : List α} (hc : c ≠ []) (n : Nat) (l : List (List α)) :
    ∃ k, counted n (l ++ [c]) = counted n l ++ [(k, c)] := by
  induction l generalizing n with
  | nil =>
      cases c with
      | nil => exact absurd rfl hc
      | cons a c => exact ⟨n, rfl⟩
  | cons b l ih =>
      cases b with
      | nil => exact ih (n + 1)
      | cons a b =>
          obtain ⟨k, hk⟩ := ih 1
          exact ⟨k, congrArg (List.cons _) hk⟩

variable [DecidableEq α] {sep : α}

def tokens (sep : α) (n : Nat) (l : List α) : List (Nat × List α) :=
  counted n (l.splitOnP (· = sep))

theorem tokens_snd (n : Nat) (l : List α) :
    (tokens sep n l).map Prod.snd = (l.splitOnP (· = sep)).filter (· ≠ []) :=
  counted_snd n _

@[simp] theorem tokens_nil (n : Nat) : tokens sep n [] = [] := by
  unfold tokens
  rw [List.splitOnP_nil]
  rfl

theorem tokens_sep (n : Nat) (l : List α) : tokens sep n (sep :: l) = tokens sep (n + 1) l := by
  unfold tokens
  rw [List.splitOnP_cons_eq_if_modifyHead, if_pos (by simp)]
  rfl

theorem tokens_run (n k : Nat) (l : List α) :
    tokens sep n (List.replicate k sep ++ l) = tokens sep (n + k) l := by
  induction k generalizing n with
  | zero => rfl
  | succ k ih =>
      rw [List.replicate_succ, List.cons_append, tokens_sep, ih]
      congr 1
      omega

/-- A token that ends the list. -/
theorem tokens_last {c : List α} (hc : c ≠ []) (hsep : ∀ a ∈ c, a ≠ sep) (n : Nat) :
    tokens sep n c = [(n, c)] := by
  unfold tokens
  rw [List.splitOnP_eq_singleton (by simpa using hsep)]
  cases c with
  | nil => exact absurd rfl hc
  | cons a c => rfl

/-- A token that a separator ends. -/
theorem tokens_cons {c : List α} (hc : c ≠ []) (hsep : ∀ a ∈ c, a ≠ sep) (n : Nat) (l : List α) :
    tokens sep n (c ++ sep :: l) = (n, c) :: tokens sep 1 l := by
  unfold tokens
  rw [List.splitOnP_append_cons_of_forall_mem (by simpa using hsep) sep (by simp)]
  cases c with
  | nil => exact absurd rfl hc
  | cons a c => rfl

/-- A token, with what is behind it. -/
theorem tokens_append {c r : List α} (hc : c ≠ []) (hsep : ∀ a ∈ c, a ≠ sep) (n : Nat)
    (hr : r = [] ∨ ∃ l, r = sep :: l) :
    tokens sep n (c ++ r) = (n, c) :: tokens sep 1 (r.drop 1) := by
  rcases hr with rfl | ⟨l, rfl⟩
  · rw [List.append_nil, tokens_last hc hsep, List.drop_nil, tokens_nil]
  · exact tokens_cons hc hsep n l

/-- A token behind the last separator. -/
theorem tokens_concat {c : List α} (hc : c ≠ []) (hsep : ∀ a ∈ c, a ≠ sep) (n : Nat) (l : List α) :
    ∃ k, tokens sep n (l ++ sep :: c) = tokens sep n l ++ [(k, c)] := by
  unfold tokens
  have hone : c.splitOnP (· = sep) = [c] := List.splitOnP_eq_singleton (by simpa using hsep)
  rw [List.splitOnP_append_cons l c (by simp), hone]
  exact counted_concat hc n _

/-! ## Pieces without the numbers -/

/-- The nonempty pieces. -/
def pieces (sep : α) (l : List α) : List (List α) := (l.splitOnP (· = sep)).filter (· ≠ [])

theorem pieces_append (a b : List α) : pieces sep (a ++ sep :: b) = pieces sep a ++ pieces sep b := by
  unfold pieces
  rw [List.splitOnP_append_cons a b (by simp), List.filter_append]

theorem pieces_nil : pieces sep [] = [] := by
  unfold pieces
  rw [List.splitOnP_nil]
  rfl

theorem pieces_singleton {c : List α} (hc : c ≠ []) (hsep : ∀ a ∈ c, a ≠ sep) :
    pieces sep c = [c] := by
  rw [pieces, ← tokens_snd 0, tokens_last hc hsep]
  rfl

/-- Separators behind the last piece. -/
theorem pieces_append_of_forall (a : List α) {r : List α} (hr : ∀ x ∈ r, x = sep) :
    pieces sep (a ++ r) = pieces sep a := by
  induction r generalizing a with
  | nil => rw [List.append_nil]
  | cons x r ih =>
      obtain rfl := hr x List.mem_cons_self
      have h := ih [] fun y hy => hr y (List.mem_cons_of_mem x hy)
      rw [pieces_append, ← List.nil_append r, h, pieces_nil, List.append_nil]

/-! ## What a scanner meets -/

/-- A run of separators, and then none. -/
theorem exists_run (sep : α) (l : List α) :
    ∃ k s, l = List.replicate k sep ++ s ∧ s.head? ≠ some sep := by
  induction l with
  | nil => exact ⟨0, [], rfl, nofun⟩
  | cons a l ih =>
      by_cases ha : a = sep
      · subst ha
        obtain ⟨k, s, rfl, hs⟩ := ih
        exact ⟨k + 1, s, rfl, hs⟩
      · exact ⟨0, a :: l, rfl, fun e => ha (Option.some.inj e)⟩

/-- A token, and then the end or a separator. -/
theorem exists_token (sep : α) (l : List α) :
    ∃ c s, l = c ++ s ∧ (∀ a ∈ c, a ≠ sep) ∧ (s = [] ∨ ∃ t, s = sep :: t) := by
  induction l with
  | nil => exact ⟨[], [], rfl, nofun, .inl rfl⟩
  | cons a l ih =>
      by_cases ha : a = sep
      · subst ha
        exact ⟨[], a :: l, rfl, nofun, .inr ⟨l, rfl⟩⟩
      · obtain ⟨c, s, rfl, hc, hs⟩ := ih
        refine ⟨a :: c, s, rfl, ?_, hs⟩
        intro b hb
        rcases List.mem_cons.mp hb with rfl | hb
        · exact ha
        · exact hc b hb

/-- Without a piece there are separators only. -/
theorem forall_eq_of_pieces {l : List α} (h : pieces sep l = []) : ∀ a ∈ l, a = sep := by
  obtain ⟨k, s, rfl, hs⟩ := exists_run sep l
  have htok : (tokens sep 0 (List.replicate k sep ++ s)).map Prod.snd = [] :=
    (tokens_snd 0 _).trans h
  rw [tokens_run] at htok
  obtain ⟨c, r, rfl, hc, hr⟩ := exists_token sep s
  by_cases hne : c = []
  · subst hne
    rcases hr with rfl | ⟨t, rfl⟩
    · simp
    · exact absurd rfl hs
  · rw [tokens_append hne hc _ hr] at htok
    exact nomatch htok

/-- Where no two separators stand together, none of the numbers is above 1. -/
theorem tokens_le_one {n : Nat} {l : List α} (hn : n ≤ 1)
    (hl : ¬ [sep, sep] <:+: List.replicate n sep ++ l) : ∀ x ∈ tokens sep n l, x.1 ≤ 1 := by
  induction hlen : l.length using Nat.strongRecOn generalizing n l with
  | ind k ih =>
      subst hlen
      cases l with
      | nil => simp
      | cons a l =>
          by_cases ha : a = sep
          · subst ha
            rw [tokens_sep]
            obtain rfl | rfl : n = 0 ∨ n = 1 := by omega
            · exact ih l.length (Nat.lt_succ_self _) (Nat.le_refl 1) hl rfl
            · exact absurd ⟨[], l, rfl⟩ hl
          · obtain ⟨c, s, hs, hc, hend⟩ := exists_token sep (a :: l)
            have hne : c ≠ [] := by
              rintro rfl
              rcases hend with rfl | ⟨t, rfl⟩
              · exact nomatch hs
              · exact ha (List.cons.inj hs).1
            rw [hs, tokens_append hne hc n hend]
            intro x hx
            rcases List.mem_cons.mp hx with rfl | hx
            · exact hn
            rcases hend with rfl | ⟨t, rfl⟩
            · simp at hx
            · have hlt : t.length < (a :: l).length := by
                rw [hs, List.length_append, List.length_cons]
                omega
              refine ih t.length hlt (Nat.le_refl 1) (fun h => hl (h.trans ?_)) rfl x hx
              rw [hs]
              exact ⟨List.replicate n sep ++ c, [], by simp⟩

end KmOS
