/-
# `KmOS.PageReplacement.Victim` — the search for a victim comes back

CLOCK goes round the page list from its hand, once at most.  It stops at the
first page that is not locked and has its reference bit clear, and takes the bit
from the pages that are not locked on the way; when it has met no such page it
is back where it started (`Swept`).

Enhanced LRU walks the page list to its end, and LRU and FIFO walk their list
backwards.  None of them edits a list.
-/
import Mathlib.Data.List.Find
import KmOS.PageReplacement.Links

namespace KmOS

namespace PageReplacementManager

variable {m m' m₁ : PageReplacementManager} {a b start : Nat}

/-! ## CLOCK -/

theorem sameLinks_advanceHand : SameLinks m m.advanceHand :=
  ⟨rfl, rfl, rfl, rfl, rfl, rfl, rfl, rfl⟩

theorem clearReference_links :
    SameLinks m (m.clearReference a) ∧ (m.clearReference a).clockHand = m.clockHand := by
  unfold clearReference
  split
  · exact ⟨.refl, rfl⟩
  · exact ⟨sameLinks_modPage rfl rfl, rfl⟩

/-- A turn of the loop moves the hand on. -/
theorem clockTurn_hand : (m.clearReference a).advanceHand.clockHand = m.nextOrHead m.clockHand := by
  obtain ⟨hs, hhand⟩ := clearReference_links (m := m) (a := a)
  show (m.clearReference a).nextOrHead (m.clearReference a).clockHand = _
  rw [hs.nextOrHead, hhand]

/-- A page that the sweep takes: not locked, and not accessed lately. -/
def Candidate (m : PageReplacementManager) (a : Nat) : Prop :=
  ¬(m.page a).Locked ∧ (m.page a).referenceBit = 0

instance (m : PageReplacementManager) (a : Nat) : Decidable (m.Candidate a) :=
  inferInstanceAs (Decidable (_ ∧ _))

/-- What a sweep over the pages of `l` does that started at `start`. -/
structure Swept (m m' : PageReplacementManager) (l : List Nat) (start victim : Nat) : Prop where
  links : SameLinks m m'
  flags : ∀ b, (m'.page b).flags = (m.page b).flags
  outside : ∀ b, b ∉ l → m'.page b = m.page b
  hand : m'.clockHand = start ∨ m'.clockHand ∈ l
  victim : victim = (l.find? (m.Candidate ·)).getD start
  cleared : l.find? (m.Candidate ·) = none →
    ∀ b ∈ l, ¬(m.page b).Locked → (m'.page b).referenceBit = 0

theorem Candidate.congr (h : m₁.page b = m.page b) : m₁.Candidate b ↔ m.Candidate b := by
  unfold Candidate
  rw [h]

/-- A turn that finds no victim takes the reference bit from the page under the
hand, if it is not locked, and nothing else. -/
theorem clearReference_page (m : PageReplacementManager) (a : Nat) :
    (∀ b, b ≠ a → (m.clearReference a).page b = m.page b) ∧
      (∀ b, ((m.clearReference a).page b).flags = (m.page b).flags) ∧
      (¬(m.page a).Locked → ((m.clearReference a).page a).referenceBit = 0) := by
  unfold clearReference
  split
  · next hlock => exact ⟨fun _ _ => rfl, fun _ => rfl, fun h => absurd hlock h⟩
  · refine ⟨fun b hb => Function.update_of_ne hb _ m.page, fun b => ?_, fun _ => ?_⟩
    · by_cases hb : b = a
      · subst hb
        exact (congrArg PageDescriptor.flags (Function.update_self b _ m.page)).trans rfl
      · exact congrArg PageDescriptor.flags (Function.update_of_ne hb _ m.page)
    · exact congrArg PageDescriptor.referenceBit (Function.update_self a _ m.page)

/-- Pages that read the same are candidates alike. -/
theorem find?_candidate_congr {l : List Nat} (h : ∀ b ∈ l, m₁.page b = m.page b) :
    l.find? (m₁.Candidate ·) = l.find? (m.Candidate ·) :=
  List.find?_congr fun b hb => decide_eq_decide.mpr (Candidate.congr (h b hb))

/-- A turn that finds no victim, before a sweep. -/
theorem Swept.turn {l : List Nat} {victim : Nat} (hc : ¬m.Candidate a) (ha : a ∉ l)
    (h : Swept (m.clearReference a).advanceHand m' l start victim) :
    Swept m m' (a :: l) start victim := by
  obtain ⟨hother, hflags, hself⟩ := clearReference_page m a
  have hother' : ∀ b ∈ l, (m.clearReference a).advanceHand.page b = m.page b := by
    intro b hb
    exact hother b (ne_of_mem_of_not_mem hb ha)
  have hfind : (a :: l).find? (m.Candidate ·) =
      l.find? ((m.clearReference a).advanceHand.Candidate ·) := by
    rw [find?_candidate_congr hother', List.find?_cons_of_neg (by simpa using hc)]
  refine ⟨?_, ?_, ?_, ?_, ?_, ?_⟩
  · exact (clearReference_links.1.trans sameLinks_advanceHand).trans h.links
  · intro b
    exact (h.flags b).trans (hflags b)
  · intro b hb
    obtain ⟨hba, hbl⟩ := not_or.mp (List.mem_cons.not.mp hb)
    exact (h.outside b hbl).trans (hother b hba)
  · exact h.hand.imp_right (List.mem_cons_of_mem a)
  · rw [hfind]
    exact h.victim
  · intro hnone b hb hlock
    rw [hfind] at hnone
    rcases List.mem_cons.mp hb with rfl | hbl
    · rw [h.outside b ha]
      exact hself hlock
    · refine h.cleared hnone b hbl ?_
      unfold PageDescriptor.Locked at hlock ⊢
      rw [hother' b hbl]
      exact hlock

/-- A candidate under the hand ends the sweep. -/
theorem Swept.found {l : List Nat} (hc : m.Candidate m.clockHand)
    (hahead : m.nextOrHead m.clockHand = start ∨ m.nextOrHead m.clockHand ∈ l) :
    Swept m m.advanceHand (m.clockHand :: l) start m.clockHand := by
  have hfind : (m.clockHand :: l).find? (m.Candidate ·) = some m.clockHand :=
    List.find?_cons_of_pos (by simpa using hc)
  refine ⟨sameLinks_advanceHand, fun _ => rfl, fun _ _ => rfl,
    hahead.imp_right (List.mem_cons_of_mem _), ?_, ?_⟩
  · rw [hfind]
    rfl
  · intro hnone
    rw [hfind] at hnone
    exact absurd hnone (Option.some_ne_none _)

/-- The victim is one of the pages, if the sweep started at one of them. -/
theorem Swept.victim_mem {l : List Nat} {victim : Nat} (h : Swept m m' l start victim)
    (hstart : start ∈ l) : victim ∈ l := by
  rw [h.victim]
  cases hf : l.find? (m.Candidate ·) with
  | none => exact hstart
  | some a => exact List.mem_of_find?_eq_some hf

theorem clockLoop_succ (start fuel : Nat) (m : PageReplacementManager) (hne : m.clockHand ≠ 0) :
    clockLoop start (fuel + 1) m =
      if m.Candidate m.clockHand then some (m.advanceHand, m.clockHand)
      else
        let m := (m.clearReference m.clockHand).advanceHand
        if m.clockHand ≠ start then clockLoop start fuel m else some (m, m.clockHand) :=
  if_neg hne

/-- **The sweep** over what is ahead of the hand, which ends where it started. -/
theorem clockLoop_sweep {k : List Nat} (hw : Walk m.nextOrHead m.clockHand k start)
    (hnd : (m.clockHand :: k).Nodup) (h0 : ∀ b ∈ m.clockHand :: k, b ≠ 0) (hstart : start ∉ k) :
    ∃ m' victim, (∀ fuel, k.length < fuel → clockLoop start fuel m = some (m', victim)) ∧
      Swept m m' (m.clockHand :: k) start victim := by
  induction k generalizing m with
  | nil =>
      have hne := h0 m.clockHand List.mem_cons_self
      have hhand : (m.clearReference m.clockHand).advanceHand.clockHand = start :=
        clockTurn_hand.trans hw
      by_cases hc : m.Candidate m.clockHand
      · refine ⟨_, _, ?_, Swept.found hc (Or.inl hw)⟩
        intro fuel hfuel
        obtain ⟨fuel, rfl⟩ := Nat.exists_eq_add_of_lt hfuel
        rw [clockLoop_succ _ _ _ hne, if_pos hc]
      · refine ⟨(m.clearReference m.clockHand).advanceHand, start, ?_, Swept.turn hc List.not_mem_nil ?_⟩
        · intro fuel hfuel
          obtain ⟨fuel, rfl⟩ := Nat.exists_eq_add_of_lt hfuel
          rw [clockLoop_succ _ _ _ hne, if_neg hc]
          dsimp only
          rw [hhand, if_neg (not_not.mpr rfl)]
        · exact ⟨.refl, fun _ => rfl, fun _ _ => rfl, Or.inl hhand, rfl, fun _ b hb => nomatch hb⟩
  | cons d k ih =>
      have hne := h0 m.clockHand List.mem_cons_self
      obtain ⟨hout, hnd'⟩ := List.nodup_cons.mp hnd
      obtain ⟨hsd, hsk⟩ := not_or.mp (List.mem_cons.not.mp hstart)
      have hhand : (m.clearReference m.clockHand).advanceHand.clockHand = d :=
        clockTurn_hand.trans hw.1
      by_cases hc : m.Candidate m.clockHand
      · refine ⟨_, _, ?_, Swept.found hc (Or.inr (hw.1 ▸ List.mem_cons_self))⟩
        intro fuel hfuel
        obtain ⟨fuel, rfl⟩ := Nat.exists_eq_add_of_lt hfuel
        rw [clockLoop_succ _ _ _ hne, if_pos hc]
      · have hs := (clearReference_links (m := m) (a := m.clockHand)).1.trans sameLinks_advanceHand
        obtain ⟨m', victim, hloop, hswept⟩ :=
          ih (m := (m.clearReference m.clockHand).advanceHand)
            (by rw [hs.nextOrHead, hhand]; exact hw.2) (by rw [hhand]; exact hnd')
            (by rw [hhand]; exact fun b hb => h0 b (List.mem_cons_of_mem _ hb)) hsk
        rw [hhand] at hswept
        refine ⟨m', victim, ?_, Swept.turn hc hout hswept⟩
        intro fuel hfuel
        obtain ⟨fuel, rfl⟩ := Nat.exists_eq_add_of_lt hfuel
        rw [clockLoop_succ _ _ _ hne, if_neg hc]
        dsimp only
        rw [hhand, if_pos (Ne.symm hsd)]
        refine hloop _ ?_
        rw [List.length_cons]
        omega

/-- **CLOCK** goes round the page list once at most. -/
theorem clockFindVictim_sweep {pages l₁ l₂ : List Nat} (hl : Sll 0 m.next (m.head .pages) pages)
    (hnd : pages.Nodup) (hlen : pages.length < turns) (hk : pages = l₁ ++ m.clockHand :: l₂)
    (hsize : m.clockSize ≠ 0) :
    ∃ m' victim, (∀ fuel, pages.length ≤ fuel →
        clockLoop m.clockHand fuel m = some (m', victim)) ∧
      m.clockFindVictim = some (m', victim) ∧
      Swept m m' (m.clockHand :: (l₂ ++ l₁)) m.clockHand victim := by
  have hround : Walk m.nextOrHead m.clockHand (l₂ ++ l₁) m.clockHand :=
    (hk ▸ hl).walk_round (fun b hb => if_pos hb) (fun b hb => if_neg (not_not.mpr hb))
  have hperm : pages.Perm (m.clockHand :: (l₂ ++ l₁)) := by
    rw [hk]
    exact List.perm_middle.trans (List.perm_append_comm.cons _)
  have hnd' := hperm.nodup_iff.mp hnd
  have h0 : ∀ b ∈ m.clockHand :: (l₂ ++ l₁), b ≠ 0 :=
    fun b hb => hl.ne_null b (hperm.mem_iff.mpr hb)
  obtain ⟨m', victim, hloop, hswept⟩ :=
    clockLoop_sweep hround hnd' h0 (List.nodup_cons.mp hnd').1
  have hcount : pages.length = (l₂ ++ l₁).length + 1 := hperm.length_eq
  refine ⟨m', victim, fun fuel hfuel => hloop fuel (by omega), ?_, hswept⟩
  unfold clockFindVictim
  rw [if_neg hsize]
  dsimp only
  rw [if_neg (h0 _ List.mem_cons_self)]
  exact hloop turns (by omega)

/-- **CLOCK** finds a page on the list. -/
theorem clockFindVictim_returns {pages : List Nat} (hl : Sll 0 m.next (m.head .pages) pages)
    (hnd : pages.Nodup) (hlen : pages.length < turns) (hhand : m.clockHand ∈ pages)
    (hsize : m.clockSize ≠ 0) :
    ∃ m' victim, m.clockFindVictim = some (m', victim) ∧ SameLinks m m' ∧
      m'.clockHand ∈ pages ∧ victim ∈ pages := by
  obtain ⟨l₁, l₂, hk⟩ := List.append_of_mem hhand
  obtain ⟨m', victim, _, hv, hs⟩ := clockFindVictim_sweep hl hnd hlen hk hsize
  have hmem : ∀ b ∈ m.clockHand :: (l₂ ++ l₁), b ∈ pages := by
    intro b hb
    rw [hk]
    exact (List.perm_middle.trans (List.perm_append_comm.cons _)).mem_iff.mpr hb
  exact ⟨m', victim, hv, hs.links, hs.hand.elim (fun e => e ▸ hhand) (hmem _),
    hmem _ (hs.victim_mem List.mem_cons_self)⟩

/-! ## Enhanced LRU -/

theorem calculatePageScore_links : SameLinks m (m.calculatePageScore a).1 ∧
    (m.calculatePageScore a).1.clockHand = m.clockHand :=
  ⟨⟨rfl, rfl, rfl, rfl, rfl, rfl, rfl, rfl⟩, rfl⟩

/-- The loop walks the page list to its end. -/
theorem lruEnhancedLoop_returns {h v fuel : Nat} {s : UInt32} {l : List Nat}
    (hl : Sll 0 m.next h l) (hfuel : l.length < fuel) :
    ∃ m' victim, lruEnhancedLoop fuel m h s v = some (m', victim) ∧
      SameLinks m m' ∧ m'.clockHand = m.clockHand ∧ (victim = v ∨ victim ∈ l) := by
  induction l generalizing m h fuel s v with
  | nil =>
      cases fuel with
      | zero => exact absurd hfuel (Nat.not_lt_zero _)
      | succ fuel => exact ⟨m, v, if_pos hl, .refl, rfl, Or.inl rfl⟩
  | cons b l ih =>
      obtain ⟨rfl, hne, ht⟩ := hl
      cases fuel with
      | zero => exact absurd hfuel (Nat.not_lt_zero _)
      | succ fuel =>
          have hfuel' := Nat.lt_of_succ_lt_succ hfuel
          unfold lruEnhancedLoop
          rw [if_neg hne]
          split
          · obtain ⟨m', w, hw, hs, hh, hm⟩ := ih (s := s) (v := v) ht hfuel'
            exact ⟨m', w, hw, hs, hh, hm.imp id (List.mem_cons_of_mem h)⟩
          · obtain ⟨hs₁, hh₁⟩ := calculatePageScore_links (m := m) (a := h)
            dsimp only
            generalize m.calculatePageScore h = r at hs₁ hh₁
            rw [← hs₁.next] at ht
            split
            · obtain ⟨m', w, hw, hs, hh, hm⟩ := ih (s := r.2) (v := h) ht hfuel'
              refine ⟨m', w, hw, hs₁.trans hs, hh.trans hh₁, Or.inr ?_⟩
              rcases hm with rfl | hm
              · exact List.mem_cons_self
              · exact List.mem_cons_of_mem h hm
            · obtain ⟨m', w, hw, hs, hh, hm⟩ := ih (s := s) (v := v) ht hfuel'
              exact ⟨m', w, hw, hs₁.trans hs, hh.trans hh₁, hm.imp id (List.mem_cons_of_mem h)⟩

/-! ## LRU and FIFO -/

/-- A list of one page. -/
theorem listFindVictim_only {l : PageList} (ht : m.tail l = a) (hp : m.prev a = 0) :
    m.listFindVictim l = some (if (m.page a).Locked then 0 else a) := by
  obtain ⟨n, hn⟩ : ∃ n, turns = n + 2 := ⟨4294967294, rfl⟩
  unfold listFindVictim
  rw [ht, hn]
  by_cases ha : a = 0
  · rw [if_pos ha, ha, ite_self]
  · rw [if_neg ha]
    unfold unlockedLoop
    by_cases hlock : (m.page a).Locked
    · rw [if_pos ⟨ha, hlock⟩, if_pos hlock, hp]
      exact if_neg (fun h => h.1 rfl)
    · rw [if_neg (fun h => hlock h.2), if_neg hlock]

theorem sameLinks_noteVictim {startTime : UInt64} : SameLinks m (m.noteVictim startTime a) :=
  ⟨rfl, rfl, rfl, rfl, rfl, rfl, rfl, rfl⟩

end PageReplacementManager

end KmOS
