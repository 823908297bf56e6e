/-
# `KmOS.Fs.Scanner` — the scanner of the path functions

`Filesystem::path` and `Filesystem::path_parent` cut their argument into names
with the same two cursors, each in a loop of its own.  `Scanner` is what such a
loop does with the names, `Scanner.loop` the loop over the characters and
`Scanner.walk` the one over the tokens; they are equal (`loop_eq_walk`).

The second cursor is one character behind or level with the first one while
names are separated by single slashes.  Behind a longer run it stays on the
second slash of the run (`Cursors`), and the length of the next name comes out
negative.
-/
import KmOS.Fs.Model

namespace KmOS

variable {p : List UInt8}

/-! ## The scanning loops -/

theorem charAt_drop {i : Nat} {s : List UInt8} (hi : i ≤ p.length) (hs : p.drop i = s) :
    charAt p i = .ok (s.headD 0) := by
  unfold charAt
  subst hs
  split
  · next h =>
      rw [List.drop_eq_getElem_cons h, List.headD_cons]
      simp [h]
  · next h =>
      have he : i = p.length := by omega
      rw [if_pos he, he, List.drop_length]
      rfl

theorem drop_add {i : Nat} {c s : List UInt8} (hs : p.drop i = c ++ s) :
    p.drop (i + c.length) = s := by
  rw [← List.drop_drop, hs, List.drop_left]

theorem add_le {i : Nat} {c s : List UInt8} (hi : i ≤ p.length) (hs : p.drop i = c ++ s) :
    i + c.length ≤ p.length := by
  have h := congrArg List.length hs
  rw [List.length_drop, List.length_append] at h
  omega

/-- The first cursor passes a run of slashes. -/
theorem skipSlashes_eq {k i fuel : Nat} {s : List UInt8} (hi : i ≤ p.length)
    (hs : p.drop i = List.replicate k slash ++ s) (hend : s.head? ≠ some slash) (hf : k < fuel) :
    skipSlashes p fuel i = .ok (i + k) := by
  induction k generalizing i fuel with
  | zero =>
      obtain ⟨fuel, rfl⟩ : ∃ n, fuel = n + 1 := ⟨fuel - 1, by omega⟩
      unfold skipSlashes
      rw [charAt_drop hi hs]
      have hne : s.headD 0 ≠ slash := by
        cases s with
        | nil => decide
        | cons a s => exact fun e => hend (congrArg some e)
      exact if_neg hne
  | succ k ih =>
      obtain ⟨fuel, rfl⟩ : ∃ n, fuel = n + 1 := ⟨fuel - 1, by omega⟩
      unfold skipSlashes
      have hs' : p.drop i = [slash] ++ (List.replicate k slash ++ s) := hs
      rw [charAt_drop hi hs']
      dsimp only [bind, Except.bind]
      refine (if_pos rfl).trans ?_
      have hi' := add_le hi hs'
      have h := ih hi' (drop_add hs') (by omega : k < fuel)
      rw [List.length_singleton] at h
      rw [h]
      congr 1
      omega

/-- The second cursor stops behind the name. -/
theorem endOfName_eq {i fuel : Nat} {c s : List UInt8} (hi : i ≤ p.length) (hs : p.drop i = c ++ s)
    (hc : ∀ a ∈ c, a ≠ slash ∧ a ≠ 0) (hend : s = [] ∨ ∃ t, s = slash :: t)
    (hf : c.length < fuel) : endOfName p fuel i = .ok (i + c.length) := by
  induction c generalizing i fuel with
  | nil =>
      obtain ⟨fuel, rfl⟩ : ∃ n, fuel = n + 1 := ⟨fuel - 1, by omega⟩
      unfold endOfName
      rw [charAt_drop hi hs]
      have hstop : ¬ (s.headD 0 ≠ 0 ∧ s.headD 0 ≠ slash) := by
        rcases hend with rfl | ⟨t, rfl⟩
        · exact fun h => h.1 rfl
        · exact fun h => h.2 rfl
      exact if_neg hstop
  | cons a c ih =>
      obtain ⟨fuel, rfl⟩ : ∃ n, fuel = n + 1 := ⟨fuel - 1, by omega⟩
      unfold endOfName
      rw [charAt_drop hi hs]
      obtain ⟨hslash, hzero⟩ := hc a List.mem_cons_self
      refine (if_pos ⟨hzero, hslash⟩).trans ?_
      have hs' : p.drop i = [a] ++ (c ++ s) := hs
      have hi' := add_le hi hs'
      have hf' : c.length < fuel := by simpa using hf
      have h := ih hi' (drop_add hs') (fun b hb => hc b (List.mem_cons_of_mem a hb)) hf'
      rw [List.length_singleton] at h
      rw [h, List.length_cons]
      congr 1
      omega

/-! ## The two cursors -/

/-- Where the second cursor is when the first one is at the name `s` behind `n`
slashes. -/
def Cursors (p : List UInt8) (n begP endP : Nat) : Prop :=
  (n ≤ 1 ∧ (endP = begP ∨ endP = begP + 1)) ∨
    (2 ≤ n ∧ endP < begP ∧ ∃ s, p.drop endP = slash :: s)

/-- One name, for both cursors: the second one finds its end, or a place before
its start. -/
theorem Cursors.endOfName {n begP endP : Nat} {c s : List UInt8} (h : Cursors p n begP endP)
    (hb : begP ≤ p.length) (hs : p.drop begP = c ++ s) (hne : c ≠ [])
    (hc : ∀ a ∈ c, a ≠ slash ∧ a ≠ 0) (hend : s = [] ∨ ∃ t, s = slash :: t) :
    (n ≤ 1 ∧ endOfName p (p.length + 1) endP = .ok (begP + c.length)) ∨
      (2 ≤ n ∧ endP < begP ∧ endOfName p (p.length + 1) endP = .ok endP) := by
  have hlen := add_le hb hs
  rcases h with ⟨hn, rfl | rfl⟩ | ⟨hn, hlt, t, ht⟩
  · exact .inl ⟨hn, endOfName_eq hb hs hc hend (by omega)⟩
  · cases c with
    | nil => exact absurd rfl hne
    | cons a c =>
        have hs' : p.drop begP = [a] ++ (c ++ s) := hs
        have hb' := add_le hb hs'
        have hs'' := drop_add hs'
        rw [List.length_cons] at hlen
        rw [List.length_singleton] at hb' hs''
        refine .inl ⟨hn, ?_⟩
        rw [endOfName_eq hb' hs'' (fun b hb => hc b (List.mem_cons_of_mem a hb)) hend (by omega),
          List.length_cons]
        congr 1
        omega
  · refine .inr ⟨hn, hlt, ?_⟩
    exact endOfName_eq (c := []) (by omega) ht nofun (.inr ⟨t, rfl⟩) (Nat.succ_pos _)

/-- The cursors behind a name that `k + 1` slashes follow. -/
theorem Cursors.next {k endP : Nat} {s : List UInt8}
    (hs : p.drop endP = List.replicate (k + 1) slash ++ s) :
    Cursors p (k + 1) (endP + (k + 1)) (endP + 1) := by
  cases k with
  | zero => exact .inl ⟨Nat.le_refl 1, .inl rfl⟩
  | succ k =>
      refine .inr ⟨by omega, by omega, List.replicate k slash ++ s, ?_⟩
      exact drop_add (c := [slash]) hs

/-! ## The loop -/

/-- What a loop over the names of a path does: at the end of the string, before
it reads a name, when it asks for the memory of one, and with it. -/
structure Scanner (σ ρ : Type) where
  finish : σ → ρ
  stop : σ → Option (Except Fault ρ)
  granted : σ → Bool
  act : σ → List UInt8 → ρ ⊕ σ

namespace Scanner

variable {σ ρ : Type} (b : Scanner σ ρ)

/-- Character by character, as the code does it. -/
def loop (p : List UInt8) : Nat → σ → Nat → Nat → Except Fault ρ
  | 0, _, _, _ => .error .outOfRange
  | fuel + 1, s, begP, endP => do
      let c ← charAt p begP
      if c = 0 then .ok (b.finish s)
      else
        match b.stop s with
        | some r => r
        | none => do
            let endP ← endOfName p (p.length + 1) endP
            if b.granted s = false then .error .nullDereference
            else if endP < begP then .error .outOfRange
            else
              match b.act s ((p.drop begP).take (endP - begP)) with
              | .inl r => .ok r
              | .inr s => do
                  let begP ← skipSlashes p (p.length + 1) endP
                  loop p fuel s begP (endP + 1)

/-- Token by token. -/
def walk : σ → List (Nat × List UInt8) → Except Fault ρ
  | s, [] => .ok (b.finish s)
  | s, (n, c) :: l =>
      match b.stop s with
      | some r => r
      | none =>
          if b.granted s = false then .error .nullDereference
          else if 2 ≤ n then .error .outOfRange
          else
            match b.act s c with
            | .inl r => .ok r
            | .inr s => walk s l

variable {b}

theorem walk_cons {st : σ} {n : Nat} {c : List UInt8} {l : List (Nat × List UInt8)}
    (hstop : b.stop st = none) (hgranted : b.granted st = true) (hn : n ≤ 1) :
    b.walk st ((n, c) :: l) =
      match b.act st c with
      | .inl r => .ok r
      | .inr st => b.walk st l := by
  conv => lhs; unfold walk
  rw [hstop]
  dsimp only
  rw [if_neg (by rw [hgranted]; decide), if_neg (by omega)]

/-- One turn, at the name `c`: where more than one slash stands in front of it, its
end is found before its start. -/
theorem loop_name {fuel n begP endP : Nat} {st : σ} {c r : List UInt8} (hb : begP ≤ p.length)
    (hs : p.drop begP = c ++ r) (hne : c ≠ []) (hc : ∀ a ∈ c, a ≠ slash ∧ a ≠ 0)
    (hr : r = [] ∨ ∃ t, r = slash :: t) (hcur : Cursors p n begP endP) :
    b.loop p (fuel + 1) st begP endP =
      match b.stop st with
      | some res => res
      | none =>
          if b.granted st = false then .error .nullDereference
          else if 2 ≤ n then .error .outOfRange
          else
            match b.act st c with
            | .inl res => .ok res
            | .inr st =>
                skipSlashes p (p.length + 1) (begP + c.length) >>= fun begP' =>
                  b.loop p fuel st begP' (begP + c.length + 1) := by
  have hhead : (c ++ r).headD 0 ≠ 0 := by
    cases c with
    | nil => exact absurd rfl hne
    | cons a c => exact (hc a List.mem_cons_self).2
  conv => lhs; unfold loop
  rw [charAt_drop hb hs]
  refine (if_neg hhead).trans ?_
  cases b.stop st with
  | some res => rfl
  | none =>
      dsimp only
      rcases hcur.endOfName hb hs hne hc hr with ⟨hn, he⟩ | ⟨hn, hlt, he⟩
      · have hn' : ¬ 2 ≤ n := by omega
        have hle : ¬ begP + c.length < begP := by omega
        rw [he]
        dsimp only [bind, Except.bind]
        rw [if_neg hn', if_neg hle, Nat.add_sub_cancel_left, hs, List.take_left]
      · rw [he]
        dsimp only [bind, Except.bind]
        rw [if_pos hlt, if_pos hn]

/-- **The loop walks along the tokens.** -/
theorem loop_eq_walk (hp : 0 ∉ p) {fuel n begP endP : Nat} {st : σ} {s : List UInt8}
    (hb : begP ≤ p.length) (hs : p.drop begP = s) (hhead : s.head? ≠ some slash)
    (hf : s.length < fuel) (hcur : s ≠ [] → Cursors p n begP endP) :
    b.loop p fuel st begP endP = b.walk st (tokens slash n s) := by
  induction fuel generalizing n begP endP st s with
  | zero => exact nomatch hf
  | succ fuel ih =>
      obtain ⟨c, r, rfl, hc, hr⟩ := exists_token slash s
      by_cases hne : c = []
      · -- no name begins here, so the string ends here
        subst hne
        rcases hr with rfl | ⟨r, rfl⟩
        · unfold loop
          rw [charAt_drop hb hs, List.append_nil, tokens_nil]
          rfl
        · exact absurd rfl hhead
      have hc' : ∀ a ∈ c, a ≠ slash ∧ a ≠ 0 := by
        intro a ha
        refine ⟨hc a ha, ?_⟩
        rintro rfl
        exact hp (List.mem_of_mem_drop (hs ▸ List.mem_append_left r ha))
      have hpos := List.length_pos_iff.mpr hne
      rw [loop_name hb hs hne hc' hr (hcur fun e => hne (List.append_eq_nil_iff.mp e).1),
        tokens_append hne hc n hr]
      conv => rhs; unfold walk
      cases b.stop st with
      | some res => rfl
      | none =>
          dsimp only
          cases b.act st c with
          | inl res => rfl
          | inr st' =>
              congr 2
              have hend := add_le hb hs
              have hdrop := drop_add hs
              rw [List.length_append] at hf
              rcases hr with rfl | ⟨r, rfl⟩
              · -- the last name
                rw [skipSlashes_eq (k := 0) (s := []) hend hdrop nofun (Nat.succ_pos _)]
                have hf' : ([] : List UInt8).length < fuel := by
                  rw [List.length_nil]
                  omega
                exact ih (n := 1) hend hdrop nofun hf' (fun h => absurd rfl h)
              · -- `k + 1` slashes, and the rest
                obtain ⟨k, r, rfl, hrest⟩ := exists_run slash r
                have hdrop' : p.drop (begP + c.length) = List.replicate (k + 1) slash ++ r := hdrop
                have hend' := add_le hend hdrop'
                have hdrop'' := drop_add hdrop'
                rw [List.length_replicate] at hend' hdrop''
                rw [skipSlashes_eq hend hdrop' hrest (by omega), List.drop_succ_cons,
                  List.drop_zero, tokens_run, Nat.add_comm 1 k]
                refine ih hend' hdrop'' hrest ?_ (fun _ => Cursors.next hdrop')
                simp only [List.length_append, List.length_cons] at hf
                omega

variable (b)

/-- The whole function: the slashes in front, and the loop. -/
theorem scan_eq_walk (p : CString) (st : σ) :
    (skipSlashes p.chars (p.chars.length + 1) 0 >>= fun begP =>
      b.loop p.chars (p.chars.length + 1) st begP 1) = b.walk st (tokens slash 0 p.chars) := by
  obtain ⟨k, s, hs, hhead⟩ := exists_run slash p.chars
  have hdrop : p.chars.drop 0 = List.replicate k slash ++ s := hs
  have hk := add_le (Nat.zero_le _) hdrop
  have hdrop' := drop_add hdrop
  rw [List.length_replicate, Nat.zero_add] at hk hdrop'
  rw [skipSlashes_eq (Nat.zero_le _) hdrop hhead (by omega), Nat.zero_add]
  dsimp only [bind, Except.bind]
  have htok : tokens slash 0 p.chars = tokens slash k s := by
    rw [hs, tokens_run, Nat.zero_add]
  rw [htok]
  refine loop_eq_walk p.noNul hk hdrop' hhead ?_ ?_
  · have h := congrArg List.length hdrop'
    rw [List.length_drop] at h
    omega
  · intro hne
    cases k with
    | zero => exact .inl ⟨Nat.zero_le 1, .inr rfl⟩
    | succ k =>
        have h : Cursors p.chars (k + 1) (0 + (k + 1)) (0 + 1) := Cursors.next hdrop
        rwa [Nat.zero_add, Nat.zero_add] at h

/-! ## Two scanners -/

/-- Both commit the same fault, or both come back. -/
inductive Agree {ρ ρ' : Type} (Q : ρ → ρ' → Prop) : Except Fault ρ → Except Fault ρ' → Prop
  | ok {r : ρ} {r' : ρ'} : Q r r' → Agree Q (.ok r) (.ok r')
  | error (e : Fault) : Agree Q (.error e) (.error e)

variable {σ' ρ' : Type} {b : Scanner σ ρ} {b' : Scanner σ' ρ'} {R : σ → σ' → Prop}
  {Q : ρ → ρ' → Prop}

/-- The scanners do the same in states that correspond. -/
structure Simulates (b : Scanner σ ρ) (b' : Scanner σ' ρ') (R : σ → σ' → Prop) (Q : ρ → ρ' → Prop) :
    Prop where
  finish : ∀ s s', R s s' → Q (b.finish s) (b'.finish s')
  stop : ∀ s s', R s s' → Option.Rel (Agree Q) (b.stop s) (b'.stop s')
  granted : ∀ s s', R s s' → b.granted s = b'.granted s'
  act : ∀ s s' c, R s s' → b.stop s = none → Sum.LiftRel Q R (b.act s c) (b'.act s' c)

/-- **Scanners that correspond agree** on every path. -/
theorem Simulates.walk (h : Simulates b b' R Q) {s : σ} {s' : σ'} (hs : R s s')
    (l : List (Nat × List UInt8)) : Agree Q (b.walk s l) (b'.walk s' l) := by
  induction l generalizing s s' with
  | nil => exact .ok (h.finish s s' hs)
  | cons x l ih =>
      obtain ⟨n, c⟩ := x
      have hstop := h.stop s s' hs
      have hact := h.act s s' c hs
      unfold Scanner.walk
      generalize b.stop s = o at hstop hact
      generalize b'.stop s' = o' at hstop
      cases hstop with
      | some hr => exact hr
      | none =>
          dsimp only
          rw [h.granted s s' hs]
          split
          · exact .error _
          split
          · exact .error _
          have hsum := hact rfl
          generalize b.act s c = y at hsum
          generalize b'.act s' c = y' at hsum
          cases hsum with
          | inl hr => exact .ok hr
          | inr hs' => exact ih hs'

end Scanner

end KmOS
