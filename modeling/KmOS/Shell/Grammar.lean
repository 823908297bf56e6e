/-
# `KmOS.Shell.Grammar` — the words of a command line

`reference` is the grammar: a double quote stands for nothing but a change of mode,
a blank or a tab outside quotes ends a word, and empty words do not count.

`scan k` reads the same line from the left and stops behind the `k`-th word that a
blank ends: it gives the words before that place, and what then counts as the last
word.  That is the word the line ends in (which may be empty) or, where it stopped,
the rest of the line as it stands, quotes included.  `scan_eq_reference` says when
this makes no difference.
-/
import Mathlib.Data.List.ReduceOption
import Mathlib.Tactic.Common

namespace KmOS

namespace Shell

def quote : UInt8 := 0x22

/-- `' '` or `'\t'`. -/
def isBlank (c : UInt8) : Bool := c = 0x20 ∨ c = 0x09

/-! ## The reference -/

/-- What the characters stand for; `none` is the end of a word. -/
def marks : Bool → List UInt8 → List (Option UInt8)
  | _, [] => []
  | quoted, c :: line =>
      if c = quote then marks (!quoted) line
      else if quoted = false ∧ isBlank c = true then none :: marks quoted line
      else some c :: marks quoted line

/-- The words of a line. -/
def reference (line : List UInt8) : List (List UInt8) :=
  (((marks false line).splitOnP Option.isNone).map List.reduceOption).filter (· ≠ [])

/-! ## From the left -/

/-- A word, unless it is empty. -/
def flush (cur : List UInt8) : List (List UInt8) := if cur = [] then [] else [cur]

/-- The words, when `cur` has been read of the first. -/
def words (cur : List UInt8) : List (Option UInt8) → List (List UInt8)
  | [] => flush cur
  | none :: ms => flush cur ++ words [] ms
  | some c :: ms => words (cur ++ [c]) ms

/-- The words before the end of the `k`-th, and what is left as the last. -/
def scan : Nat → Bool → List UInt8 → List UInt8 → List (List UInt8) × List UInt8
  | _, _, cur, [] => ([], cur)
  | k, quoted, cur, c :: line =>
      if c = quote then scan k (!quoted) cur line
      else if quoted = false ∧ isBlank c = true then
        if cur = [] then scan k false [] line
        else if k ≤ 1 then ([cur], line.dropWhile isBlank)
        else
          let (ts, last) := scan (k - 1) false [] line
          (cur :: ts, last)
      else scan k quoted (cur ++ [c]) line

variable {k : Nat} {quoted : Bool} {c : UInt8} {cur line : List UInt8} {ms : List (Option UInt8)}

@[simp] theorem flush_nil : flush [] = [] := rfl

theorem flush_of_ne (h : cur ≠ []) : flush cur = [cur] := if_neg h

theorem reduceOption_map_some (cur : List UInt8) : (cur.map some).reduceOption = cur := by
  induction cur with
  | nil => rfl
  | cons c cur ih => rw [List.map_cons, List.reduceOption_cons_of_some, ih]

theorem filter_cons_eq_flush (l : List (List UInt8)) :
    (cur :: l).filter (· ≠ []) = flush cur ++ l.filter (· ≠ []) := by
  cases cur with
  | nil => rfl
  | cons c cur => rfl

theorem words_eq (cur : List UInt8) (ms : List (Option UInt8)) :
    words cur ms =
      (((cur.map some ++ ms).splitOnP Option.isNone).map List.reduceOption).filter (· ≠ []) := by
  have hcur : ∀ m ∈ cur.map some, Option.isNone m = false := by
    intro m hm
    obtain ⟨c, -, rfl⟩ := List.mem_map.mp hm
    rfl
  induction ms generalizing cur with
  | nil =>
      rw [List.append_nil, List.splitOnP_eq_singleton hcur, List.map_singleton,
        reduceOption_map_some, filter_cons_eq_flush]
      exact (List.append_nil _).symm
  | cons m ms ih =>
      cases m with
      | none =>
          rw [List.splitOnP_append_cons_of_forall_mem hcur none rfl, List.map_cons,
            reduceOption_map_some, filter_cons_eq_flush, words, ih [] nofun]
          rfl
      | some c =>
          have hnext : ∀ m ∈ (cur ++ [c]).map some, Option.isNone m = false := by
            intro m hm
            obtain ⟨c, -, rfl⟩ := List.mem_map.mp hm
            rfl
          rw [words, ih (cur ++ [c]) hnext, List.map_append, List.append_assoc]
          rfl

theorem reference_eq_words : reference line = words [] (marks false line) := (words_eq [] _).symm

/-! ## One character -/

theorem quote_not_blank : isBlank quote = false := rfl

theorem marks_quote : marks quoted (quote :: line) = marks (!quoted) line := if_pos rfl

theorem ne_quote_of_blank (h : isBlank c = true) : c ≠ quote := by
  rintro rfl
  exact Bool.false_ne_true (quote_not_blank.symm.trans h)

theorem scan_blank_nil (h : isBlank c = true) : scan k false [] (c :: line) = scan k false [] line := by
  rw [scan, if_neg (ne_quote_of_blank h), if_pos ⟨rfl, h⟩, if_pos rfl]

/-- Blanks in front of a word make no difference. -/
theorem scan_dropWhile : scan k false [] (line.dropWhile isBlank) = scan k false [] line := by
  induction line with
  | nil => rfl
  | cons c line ih =>
      cases hc : isBlank c with
      | true => rw [List.dropWhile_cons_of_pos hc, ih, scan_blank_nil hc]
      | false => rw [List.dropWhile_cons_of_neg (by simp [hc])]

/-- **Fewer than `k` words** are all read. -/
theorem scan_eq_words (h : (words cur (marks quoted line)).length < k) :
    (scan k quoted cur line).1 ++ flush (scan k quoted cur line).2 = words cur (marks quoted line) := by
  induction line generalizing k quoted cur with
  | nil => rfl
  | cons c line ih =>
      by_cases hq : c = quote
      · subst hq
        rw [marks_quote] at h ⊢
        rw [scan, if_pos rfl]
        exact ih h
      · rw [marks, if_neg hq] at h ⊢
        rw [scan, if_neg hq]
        by_cases hb : quoted = false ∧ isBlank c = true
        · rw [if_pos hb] at h ⊢
          rw [if_pos hb]
          obtain ⟨rfl, -⟩ := hb
          cases cur with
          | nil => exact ih h
          | cons d cur =>
              rw [words, flush_of_ne (List.cons_ne_nil d cur), List.singleton_append,
                List.length_cons] at h
              have hk : ¬k ≤ 1 := by omega
              have hlt : (words [] (marks false line)).length < k - 1 := by omega
              have hrest := ih hlt
              rw [if_neg (List.cons_ne_nil d cur), if_neg hk, words,
                flush_of_ne (List.cons_ne_nil d cur), ← hrest]
              rfl
        · rw [if_neg hb] at h ⊢
          rw [if_neg hb]
          exact ih h

theorem length_scan_le (hk : 0 < k) : (scan k quoted cur line).1.length ≤ k := by
  induction line generalizing k quoted cur with
  | nil => exact Nat.zero_le k
  | cons c line ih =>
      rw [scan]
      split
      · exact ih hk
      · split
        · split
          · exact ih hk
          · split
            · exact hk
            · have hrest : (scan (k - 1) false [] line).1.length ≤ k - 1 := ih (by omega)
              show (scan (k - 1) false [] line).1.length + 1 ≤ k
              omega
        · exact ih hk

end Shell

end KmOS
