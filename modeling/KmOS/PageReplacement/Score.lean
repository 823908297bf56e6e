/-
# `KmOS.PageReplacement.Score` — the page that enhanced LRU picks

`lru_enhanced_find_victim` goes through the page list and takes the first page
with the least score (`enhanced_picks`).  The score grows with the age of the
page and falls with its access count, as the comments of
`calculate_page_score` say, and so the least score is that of a page that was
accessed lately and often.

The last step of the score subtracts 100 from it, and a page that has been
accessed often enough has less than that.  Nothing else in it can wrap
(`score_toNat`).

## What is not

The order of the list does not stand for the order of the accesses here, and the
clock ticks at each page that is scored: the scores compared in one search are
not those of one moment.
-/
import KmOS.PageReplacement.Victim

namespace KmOS

/-! ## The score -/

namespace PageDescriptor

/-- `(u32)(current_time - page->last_access_time)`. -/
def age (d : PageDescriptor) (now : UInt64) : UInt32 := (now - d.lastAccessTime).toUInt32

/-- The score before the bonus for accessed pages. -/
def baseScore (d : PageDescriptor) (now : UInt64) : UInt32 :=
  let score := d.age now >>> 10
  let score := score + (if 0 < d.accessCount then 1000 / d.accessCount else 1000)
  if d.flags &&& prFlagDirty ≠ 0 then score + 500 else score

/-- What `calculate_page_score` computes at the time `now`. -/
def score (d : PageDescriptor) (now : UInt64) : UInt32 :=
  if d.flags &&& prFlagAccessed ≠ 0 then d.baseScore now - 100 else d.baseScore now

end PageDescriptor

namespace PageReplacementManager

variable {m : PageReplacementManager}

theorem calculatePageScore_eq (a : Nat) :
    m.calculatePageScore a =
      ({ m with accessCounter := m.accessCounter + 1 }, (m.page a).score m.accessCounter) := rfl

/-! ## The search -/

/-- The unlocked pages of a list with their scores, where the first one is
scored at the time `now` and the clock ticks at each. -/
def scored (page : Nat → PageDescriptor) : UInt64 → List Nat → List (UInt32 × Nat)
  | _, [] => []
  | now, a :: l =>
      if (page a).Locked then scored page now l
      else ((page a).score now, a) :: scored page (now + 1) l

theorem mem_of_mem_scored {page : Nat → PageDescriptor} {now : UInt64} {l : List Nat}
    {c : UInt32 × Nat} (h : c ∈ scored page now l) : c.2 ∈ l := by
  induction l generalizing now with
  | nil => exact nomatch h
  | cons a l ih =>
      unfold scored at h
      split at h
      · exact List.mem_cons_of_mem a (ih h)
      · rcases List.mem_cons.mp h with rfl | h
        · exact List.mem_cons_self
        · exact List.mem_cons_of_mem a (ih h)

/-- `w` is what a search among `cs` ends with that has `v` so far, for `s`: the
first of those with the least score, if that is less than `s`. -/
def Picked (s : UInt32) (v : Nat) (cs : List (UInt32 × Nat)) (w : Nat) : Prop :=
  (w = v ∧ ∀ c ∈ cs, s ≤ c.1) ∨
    ∃ l₁ c l₂, cs = l₁ ++ c :: l₂ ∧ w = c.2 ∧ c.1 < s ∧ (∀ d ∈ l₁, c.1 < d.1) ∧
      ∀ d ∈ l₂, c.1 ≤ d.1

section
variable {s : UInt32} {v w : Nat} {c : UInt32 × Nat} {cs : List (UInt32 × Nat)}

theorem Picked.skip (h : Picked s v cs w) (hc : s ≤ c.1) : Picked s v (c :: cs) w := by
  rcases h with ⟨rfl, hs⟩ | ⟨l₁, d, l₂, rfl, rfl, hd, h₁, h₂⟩
  · refine Or.inl ⟨rfl, fun d hd => ?_⟩
    rcases List.mem_cons.mp hd with rfl | hd
    · exact hc
    · exact hs d hd
  · refine Or.inr ⟨c :: l₁, d, l₂, rfl, rfl, hd, fun e he => ?_, h₂⟩
    rcases List.mem_cons.mp he with rfl | he
    · exact UInt32.lt_of_lt_of_le hd hc
    · exact h₁ e he

theorem Picked.take (h : Picked c.1 c.2 cs w) (hc : c.1 < s) : Picked s v (c :: cs) w := by
  rcases h with ⟨rfl, hs⟩ | ⟨l₁, d, l₂, rfl, rfl, hd, h₁, h₂⟩
  · exact Or.inr ⟨[], c, cs, rfl, rfl, hc, fun _ hd => absurd hd List.not_mem_nil, hs⟩
  · refine Or.inr ⟨c :: l₁, d, l₂, rfl, rfl, UInt32.lt_trans hd hc, fun e he => ?_, h₂⟩
    rcases List.mem_cons.mp he with rfl | he
    · exact hd
    · exact h₁ e he

/-- Only one page is picked. -/
theorem Picked.eq {l₁ l₂ : List (UInt32 × Nat)} (h : Picked s v (l₁ ++ c :: l₂) w) (hc : c.1 < s)
    (h₁ : ∀ d ∈ l₁, c.1 < d.1) (h₂ : ∀ d ∈ l₂, c.1 ≤ d.1) : w = c.2 := by
  rcases h with ⟨-, hs⟩ | ⟨k₁, e, k₂, heq, rfl, -, hk₁, hk₂⟩
  · have hle := hs c (List.mem_append_right l₁ List.mem_cons_self)
    exact absurd (UInt32.lt_of_lt_of_le hc hle) (UInt32.lt_irrefl _)
  · rcases List.append_eq_append_iff.mp heq with ⟨k, rfl, hk⟩ | ⟨k, rfl, hk⟩
    · -- `c` is `e` or stands before it
      cases k with
      | nil => exact (congrArg Prod.snd (List.cons.inj hk).1).symm
      | cons d k =>
          obtain ⟨rfl, hl₂⟩ := List.cons.inj hk
          have hlt := hk₁ c (List.mem_append_right l₁ List.mem_cons_self)
          have hle := h₂ e (by rw [hl₂]; exact List.mem_append_right k List.mem_cons_self)
          exact absurd (UInt32.lt_of_lt_of_le hlt hle) (UInt32.lt_irrefl _)
    · cases k with
      | nil => exact congrArg Prod.snd (List.cons.inj hk).1
      | cons d k =>
          obtain ⟨rfl, hk₂'⟩ := List.cons.inj hk
          have hlt := h₁ e (List.mem_append_right k₁ List.mem_cons_self)
          have hle := hk₂ c (by rw [hk₂']; exact List.mem_append_right k List.mem_cons_self)
          exact absurd (UInt32.lt_of_lt_of_le hlt hle) (UInt32.lt_irrefl _)

end

/-- The loop picks from what is left of the list. -/
theorem lruEnhancedLoop_picks {h v fuel : Nat} {s : UInt32} {l : List Nat}
    (hl : Sll 0 m.next h l) (hfuel : l.length < fuel) :
    ∃ m' w, lruEnhancedLoop fuel m h s v = some (m', w) ∧
      Picked s v (scored m.page m.accessCounter l) w := by
  induction l generalizing m h fuel s v with
  | nil =>
      cases fuel with
      | zero => exact absurd hfuel (Nat.not_lt_zero _)
      | succ fuel =>
          exact ⟨m, v, if_pos hl, Or.inl ⟨rfl, fun c hc => absurd hc List.not_mem_nil⟩⟩
  | cons b l ih =>
      obtain ⟨rfl, hne, ht⟩ := hl
      cases fuel with
      | zero => exact absurd hfuel (Nat.not_lt_zero _)
      | succ fuel =>
          have hfuel' := Nat.lt_of_succ_lt_succ hfuel
          unfold lruEnhancedLoop scored
          rw [if_neg hne]
          by_cases hlock : (m.page h).Locked
          · rw [if_pos hlock, if_pos hlock]
            exact ih ht hfuel'
          · rw [if_neg hlock, if_neg hlock, calculatePageScore_eq]
            dsimp only
            by_cases hlt : (m.page h).score m.accessCounter < s
            · rw [if_pos hlt]
              obtain ⟨m', w, hw, hp⟩ := ih (m := { m with accessCounter := m.accessCounter + 1 })
                (s := (m.page h).score m.accessCounter) (v := h) ht hfuel'
              exact ⟨m', w, hw, hp.take (c := ((m.page h).score m.accessCounter, h)) hlt⟩
            · rw [if_neg hlt]
              obtain ⟨m', w, hw, hp⟩ := ih (m := { m with accessCounter := m.accessCounter + 1 })
                (s := s) (v := v) ht hfuel'
              exact ⟨m', w, hw, hp.skip (UInt32.not_lt.mp hlt)⟩

/-- **The victim** is the first page with the least score; there is none if every
score is 2^32 - 1. -/
theorem enhanced_picks {pages : List Nat} (hl : Sll 0 m.next (m.head .pages) pages)
    (hlen : pages.length < turns) :
    ∃ m' w, m.lruEnhancedFindVictim = some (m', w) ∧
      Picked 0xFFFFFFFF 0 (scored m.page m.accessCounter pages) w :=
  lruEnhancedLoop_picks hl hlen

/-- A search that comes back has walked a list. -/
theorem sll_of_lruEnhancedLoop {h v w fuel : Nat} {s : UInt32} {m' : PageReplacementManager}
    (hr : lruEnhancedLoop fuel m h s v = some (m', w)) :
    ∃ l : List Nat, Sll 0 m.next h l ∧ l.length < fuel := by
  induction fuel generalizing m h s v with
  | zero => exact nomatch hr
  | succ fuel ih =>
      unfold lruEnhancedLoop at hr
      split at hr
      · next h0 => exact ⟨[], h0, Nat.succ_pos fuel⟩
      · next h0 =>
          have hrest : ∃ l, Sll 0 m.next (m.next h) l ∧ l.length < fuel := by
            split at hr
            · exact ih hr
            · rw [calculatePageScore_eq] at hr
              dsimp only at hr
              split at hr
              · exact ih (m := { m with accessCounter := m.accessCounter + 1 }) hr
              · exact ih (m := { m with accessCounter := m.accessCounter + 1 }) hr
          obtain ⟨l, hl, hlen⟩ := hrest
          exact ⟨h :: l, ⟨rfl, h0, hl⟩, Nat.succ_lt_succ hlen⟩

/-! ## Cold pages -/

/-- `w` is colder than `v`, and not locked: it has the same flags, has been left
alone for 4096 ticks longer, and has not been accessed more often. -/
def Colder (m : PageReplacementManager) (v w : Nat) : Prop :=
  ¬(m.page w).Locked ∧ (m.page w).flags = (m.page v).flags ∧
    (m.page w).lastAccessTime.toNat + 4096 ≤ (m.page v).lastAccessTime.toNat ∧
    (m.page w).accessCount ≤ (m.page v).accessCount ∧ (m.page v).accessCount < 1000

instance (m : PageReplacementManager) (v w : Nat) : Decidable (m.Colder v w) :=
  inferInstanceAs (Decidable (_ ∧ _))

/-- Every page that has a colder one is outscored: a page before it has no
greater score, or one behind it a smaller one. -/
def HotOutscored (m : PageReplacementManager) (pages : List Nat) : Prop :=
  ∀ l₁ c l₂, scored m.page m.accessCounter pages = l₁ ++ c :: l₂ →
    (∃ w ∈ pages, m.Colder c.2 w) →
      c.1 = 0xFFFFFFFF ∨ (∃ d ∈ l₁, d.1 ≤ c.1) ∨ ∃ d ∈ l₂, d.1 < c.1

/-- Two pages on the list, at the time 6000. -/
def twoPages (first second : PageDescriptor) : PageReplacementManager :=
  { init with
    head := Function.update init.head .pages 0x100
    page := fun a => if a = 0x100 then { first with next := 0x200 } else { second with prev := 0x100 }
    accessCounter := 6000
    tracked := [0x100, 0x200] }

theorem twoPages_listed {first second : PageDescriptor} (h : second.next = 0) :
    Sll 0 (twoPages first second).next ((twoPages first second).head .pages) [0x100, 0x200] :=
  ⟨rfl, by decide, rfl, by decide, h⟩

end PageReplacementManager

namespace PageDescriptor

variable {d : PageDescriptor} {now : UInt64}

/-- 1 if a flag is set. -/
def bit (d : PageDescriptor) (flag : UInt32) : Nat := if d.flags &&& flag ≠ 0 then 1 else 0

/-- The score is the integer that its parts add up to. -/
def ScoreExact (d : PageDescriptor) (now : UInt64) : Prop :=
  ((d.score now).toNat : Int) = ((d.age now).toNat / 1024 : Int) + 1000 / d.accessCount.toNat +
    500 * d.bit prFlagDirty - 100 * d.bit prFlagAccessed

/-- The page has been counted, and an accessed one has the 100 that are taken
from it. -/
def ScoreFits (d : PageDescriptor) (now : UInt64) : Prop :=
  d.accessCount ≠ 0 ∧ (d.flags &&& prFlagAccessed ≠ 0 →
    100 ≤ (d.age now).toNat / 1024 + 1000 / d.accessCount.toNat + 500 * d.bit prFlagDirty)

instance (d : PageDescriptor) (now : UInt64) : Decidable (d.ScoreFits now) :=
  inferInstanceAs (Decidable (_ ∧ _))

instance (d : PageDescriptor) (now : UInt64) : Decidable (d.ScoreExact now) :=
  inferInstanceAs (Decidable (_ = _))

/-- The parts that are added do not wrap. -/
theorem baseScore_toNat (d : PageDescriptor) (now : UInt64) :
    (d.baseScore now).toNat = (d.age now).toNat / 1024 +
      (if d.accessCount = 0 then 1000 else 1000 / d.accessCount.toNat) + 500 * d.bit prFlagDirty := by
  have hage : (d.age now >>> 10).toNat = (d.age now).toNat / 1024 := by
    rw [UInt32.toNat_shiftRight, Nat.shiftRight_eq_div_pow]
    rfl
  have hage' := (d.age now).toNat_lt
  have hcount : (if 0 < d.accessCount then 1000 / d.accessCount else 1000).toNat =
      if d.accessCount = 0 then 1000 else 1000 / d.accessCount.toNat := by
    by_cases h0 : d.accessCount = 0
    · rw [if_neg (by rw [h0]; exact UInt32.lt_irrefl 0), if_pos h0]
      rfl
    · rw [if_pos (UInt32.pos_iff_ne_zero.mpr h0), if_neg h0, UInt32.toNat_div]
      rfl
  have hcount' : (if d.accessCount = 0 then 1000 else 1000 / d.accessCount.toNat) ≤ 1000 := by
    split
    · exact Nat.le_refl _
    · exact Nat.div_le_self 1000 _
  generalize (if d.accessCount = 0 then 1000 else 1000 / d.accessCount.toNat) = f at hcount hcount' ⊢
  unfold baseScore bit
  generalize (if 0 < d.accessCount then 1000 / d.accessCount else 1000) = f' at hcount ⊢
  dsimp only
  split
  · have h500 : (500 : UInt32).toNat = 500 := rfl
    rw [UInt32.toNat_add, UInt32.toNat_add, hage, hcount, h500]
    omega
  · rw [UInt32.toNat_add, hage, hcount]
    omega

/-- **The score** is what its parts add up to, modulo 2^32. -/
theorem score_toNat (d : PageDescriptor) (now : UInt64) :
    (d.score now).toNat =
      ((d.baseScore now).toNat + 4294967296 - 100 * d.bit prFlagAccessed) % 4294967296 := by
  have hlt := (d.baseScore now).toNat_lt
  unfold score bit
  split
  · have h100 : (100 : UInt32).toNat = 100 := rfl
    rw [UInt32.toNat_sub, h100]
    omega
  · omega

/-- **When a score is exact.** -/
theorem scoreExact_iff : d.ScoreExact now ↔ d.ScoreFits now := by
  have hbase := baseScore_toNat d now
  have hlt := (d.baseScore now).toNat_lt
  have hscore := score_toNat d now
  have hdirty : d.bit prFlagDirty ≤ 1 := by
    unfold bit
    split <;> omega
  have hage := (d.age now).toNat_lt
  have hdiv : 1000 / d.accessCount.toNat ≤ 1000 := Nat.div_le_self 1000 _
  have hzero : d.accessCount = 0 → 1000 / d.accessCount.toNat = 0 := by
    intro h
    rw [h]
    rfl
  have hcast : ((1000 / d.accessCount.toNat : Nat) : Int) = 1000 / d.accessCount.toNat := rfl
  unfold ScoreExact ScoreFits
  rw [hscore, ← hcast]
  generalize 1000 / d.accessCount.toNat = f at hbase hdiv hzero ⊢
  by_cases hc : d.accessCount = 0
  · rw [if_pos hc] at hbase
    have hf := hzero hc
    exact ⟨fun h => by omega, fun h => absurd hc h.1⟩
  rw [if_neg hc] at hbase
  by_cases hacc : d.flags &&& prFlagAccessed ≠ 0
  · have hbit : d.bit prFlagAccessed = 1 := if_pos hacc
    rw [hbit]
    exact ⟨fun h => ⟨hc, fun _ => by omega⟩, fun h => by have := h.2 hacc; omega⟩
  · have hbit : d.bit prFlagAccessed = 0 := if_neg hacc
    rw [hbit]
    exact ⟨fun _ => ⟨hc, fun h => absurd h hacc⟩, fun _ => by omega⟩

end PageDescriptor

namespace PageReplacementManager

variable {m : PageReplacementManager}

/-- `lru_enhanced_find_victim` comes back with a page. -/
def FindsVictim (m : PageReplacementManager) : Prop :=
  ∃ m' v, m.lruEnhancedFindVictim = some (m', v) ∧ v ≠ 0

/-- The page list ends, and an unlocked page on it scores less than 2^32 - 1. -/
def ScoresVictim (m : PageReplacementManager) : Prop :=
  ∃ pages : List Nat, Sll 0 m.next (m.head .pages) pages ∧ pages.length < turns ∧
    ∃ c ∈ scored m.page m.accessCounter pages, c.1 ≠ 0xFFFFFFFF

theorem findsVictim_iff : m.FindsVictim ↔ m.ScoresVictim := by
  constructor
  · rintro ⟨m', v, hv, h0⟩
    obtain ⟨pages, hl, hlen⟩ := sll_of_lruEnhancedLoop hv
    obtain ⟨_, w, hw, hp⟩ := enhanced_picks hl hlen
    obtain ⟨rfl, rfl⟩ := Prod.mk.inj (Option.some.inj (hv.symm.trans hw))
    refine ⟨pages, hl, hlen, ?_⟩
    rcases hp with ⟨rfl, -⟩ | ⟨l₁, c, l₂, hsplit, -, hc, -, -⟩
    · exact absurd rfl h0
    · refine ⟨c, ?_, UInt32.ne_of_lt hc⟩
      rw [hsplit]
      exact List.mem_append_right l₁ List.mem_cons_self
  · rintro ⟨pages, hl, hlen, c, hc, hmax⟩
    obtain ⟨m', w, hw, hp⟩ := enhanced_picks hl hlen
    refine ⟨m', w, hw, ?_⟩
    rcases hp with ⟨-, hs⟩ | ⟨l₁, e, l₂, hsplit, rfl, -, -, -⟩
    · have hge := UInt32.le_iff_toNat_le.mp (hs c hc)
      have hlt := c.1.toNat_lt
      have hmax' : c.1.toNat ≠ 4294967295 := fun he => hmax (UInt32.toNat_inj.mp he)
      have h32 : (0xFFFFFFFF : UInt32).toNat = 4294967295 := rfl
      omega
    · have hmem : e ∈ scored m.page m.accessCounter pages := by
        rw [hsplit]
        exact List.mem_append_right l₁ List.mem_cons_self
      exact hl.ne_null e.2 (mem_of_mem_scored hmem)

end PageReplacementManager

end KmOS
