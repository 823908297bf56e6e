/-
# `KmOS.Stack.Records` — the life of a checkpoint record

A record is allocated by `create_checkpoint` and is then on the chain from
`checkpoint_stack`.  `destroy_checkpoint` takes one record off the chain and
gives it back; `restore_checkpoint` gives back the records in front of its
argument, and takes the argument off the chain without giving it back.  So a
record can be out and off the chain, and restoring it once more gives the whole
chain back and leaves `checkpoint_stack` where it was.
-/
import KmOS.Lib.Freelist
import KmOS.Lib.Run
import KmOS.Lib.Tokens
import KmOS.Stack.Rewind

namespace KmOS

namespace StackAllocator

variable {s s' : StackAllocator} {p q : UInt32} {l : List UInt32}

/-! ## Records that are out -/

/-- The record at `p` was allocated and not given back. -/
def LiveRecord (s : StackAllocator) (p : UInt32) : Prop :=
  (p.toNat, sizeofStackCheckpoint.toNat) ∈ s.heap.live

instance : Decidable (s.LiveRecord p) :=
  inferInstanceAs (Decidable ((p.toNat, sizeofStackCheckpoint.toNat) ∈ s.heap.live))

theorem LiveRecord.live (h : s.LiveRecord p) : s.heap.Live p.toNat := ⟨_, h, rfl⟩

/-- The link of a record. -/
def link (s : StackAllocator) (p : UInt32) : UInt32 := (s.record p).prev

/-- The chain from `checkpoint_stack` is `l`, and all its records are out. -/
structure Chained (s : StackAllocator) (l : List UInt32) : Prop where
  links : Sll 0 s.link s.checkpointStack l
  nodup : l.Nodup
  live : ∀ p ∈ l, s.LiveRecord p

/-- The records of `l` were given back, each once. -/
structure Released (s s' : StackAllocator) (l : List UInt32) : Prop where
  record : s'.record = s.record
  badFrees : s'.heap.badFrees = s.heap.badFrees
  live : ∀ p, s'.LiveRecord p ↔ s.LiveRecord p ∧ p ∉ l

theorem Released.refl (s : StackAllocator) : Released s s [] :=
  ⟨rfl, rfl, fun _ => ⟨fun h => ⟨h, List.not_mem_nil⟩, fun h => h.1⟩⟩

theorem Released.cons {s'' : StackAllocator} (h : Released s s' [p]) (h' : Released s' s'' l) :
    Released s s'' (p :: l) := by
  refine ⟨h'.record.trans h.record, h'.badFrees.trans h.badFrees, fun q => ?_⟩
  rw [h'.live, h.live, List.mem_singleton, List.mem_cons, not_or, and_assoc]

theorem Released.link (h : Released s s' l) : s'.link = s.link := by
  funext q
  unfold StackAllocator.link
  rw [h.record]

/-- One record that was out is given back. -/
theorem Released.one (hp : p ≠ 0) (hlive : s.LiveRecord p) (hrec : s'.record = s.record)
    (hheap : s'.heap = s.heap.free p.toNat) : Released s s' [p] := by
  have hp0 : p.toNat ≠ 0 := fun h => hp (UInt32.toNat_inj.mp h)
  refine ⟨hrec, ?_, fun q => ?_⟩
  · rw [hheap]
    exact BlockHeap.free_badFrees hlive.live
  · unfold LiveRecord
    rw [hheap, BlockHeap.mem_free hp0, List.mem_singleton]
    exact and_congr_right fun _ => not_congr UInt32.toNat_inj

/-- What does not touch the chain, and gives nothing back. -/
structure KeepsRecords (s s' : StackAllocator) : Prop where
  record : s'.record = s.record
  checkpointStack : s'.checkpointStack = s.checkpointStack
  badFrees : s'.heap.badFrees = s.heap.badFrees
  live : ∀ b ∈ s.heap.live, b ∈ s'.heap.live

theorem KeepsRecords.refl (s : StackAllocator) : KeepsRecords s s :=
  ⟨rfl, rfl, rfl, fun _ h => h⟩

theorem KeepsRecords.trans {s'' : StackAllocator} (h : KeepsRecords s s')
    (h' : KeepsRecords s' s'') : KeepsRecords s s'' :=
  ⟨h'.record.trans h.record, h'.checkpointStack.trans h.checkpointStack,
    h'.badFrees.trans h.badFrees, fun b hb => h'.live b (h.live b hb)⟩

theorem kmalloc_keeps (s : StackAllocator) (size : UInt32) : KeepsRecords s (s.kmalloc size).2 :=
  ⟨rfl, rfl, BlockHeap.alloc_badFrees _ _, fun _ hb => BlockHeap.alloc_mem hb _⟩

theorem Chained.keeps (h : Chained s l) (hk : KeepsRecords s s') : Chained s' l := by
  refine ⟨?_, h.nodup, fun p hp => hk.live _ (h.live p hp)⟩
  rw [hk.checkpointStack]
  refine h.links.congr (fun q _ => ?_)
  unfold link
  rw [hk.record]

/-- There are fewer addresses without null than turns. -/
theorem length_lt_turns (hnd : l.Nodup) (hne : ∀ p ∈ l, p ≠ 0) : l.length < turns := by
  have hsub : (0 :: l.map UInt32.toNat).length ≤ (List.range turns).length := by
    refine (List.Nodup.subperm ?_ (fun a ha => ?_)).length_le
    · refine List.nodup_cons.mpr ⟨fun h0 => ?_,
        List.Pairwise.map _ (fun _ _ hne e => hne (UInt32.toNat_inj.mp e)) hnd⟩
      obtain ⟨q, hq, e⟩ := List.mem_map.mp h0
      exact hne q hq (UInt32.toNat_inj.mp e)
    · rcases List.mem_cons.mp ha with rfl | ha
      · exact List.mem_range.mpr (by decide)
      · obtain ⟨q, _, rfl⟩ := List.mem_map.mp ha
        exact List.mem_range.mpr q.toNat_lt
  rw [List.length_cons, List.length_map, List.length_range] at hsub
  exact hsub

/-- A chain is shorter than there are addresses. -/
theorem Chained.length_lt (h : Chained s l) : l.length < turns :=
  length_lt_turns h.nodup h.links.ne_null

/-! ## The loops along the chain -/

/-- The loop of `restore_checkpoint` gives back the records `pre`, and stops at
`p` or at the end of the chain. -/
theorem restoreLoop_spec {pre : List UInt32} (post : List UInt32) {cp : UInt32} {fuel : Nat}
    (hl : Sll 0 s.link cp (pre ++ post)) (hnd : pre.Nodup) (hlive : ∀ q ∈ pre, s.LiveRecord q)
    (hpre : ∀ q ∈ pre, q ≠ p) (hpost : post = [] ∨ ∃ t, post = p :: t)
    (hfuel : pre.length < fuel) :
    (restoreLoop p fuel s cp).1 = post.headD 0 ∧ Released s (restoreLoop p fuel s cp).2 pre := by
  induction pre generalizing s cp fuel with
  | nil =>
      obtain ⟨n, rfl⟩ := Nat.exists_eq_succ_of_ne_zero (Nat.ne_zero_of_lt hfuel)
      have hstop : ¬ (cp ≠ 0 ∧ cp ≠ p) := by
        rintro ⟨hcp, hne⟩
        rcases hpost with rfl | ⟨t, rfl⟩
        · exact hcp hl
        · exact hne hl.1
      have hcp : cp = post.headD 0 := by
        cases post with
        | nil => exact hl
        | cons a t => exact hl.1
      unfold restoreLoop
      rw [if_neg hstop]
      exact ⟨hcp, .refl s⟩
  | cons q pre ih =>
      obtain ⟨n, rfl⟩ := Nat.exists_eq_succ_of_ne_zero (Nat.ne_zero_of_lt hfuel)
      obtain ⟨rfl, hne, ht⟩ := hl
      obtain ⟨hq, hnd'⟩ := List.nodup_cons.mp hnd
      have hgo : cp ≠ 0 ∧ cp ≠ p := ⟨hne, hpre cp List.mem_cons_self⟩
      have hfree : Released s (s.kfree cp).uncount [cp] :=
        .one hne (hlive cp List.mem_cons_self) rfl rfl
      unfold restoreLoop
      rw [if_pos hgo]
      obtain ⟨hend, hrel⟩ := ih (s := (s.kfree cp).uncount) ht hnd'
        (fun a ha => (hfree.live a).mpr ⟨hlive a (List.mem_cons_of_mem cp ha), by
          rintro hmem
          exact hq (List.mem_singleton.mp hmem ▸ ha)⟩)
        (fun a ha => hpre a (List.mem_cons_of_mem cp ha)) (Nat.lt_of_succ_lt_succ hfuel)
      exact ⟨hend, hfree.cons hrel⟩

/-- The first record of the chain is given back. -/
def dropFirst (s : StackAllocator) : StackAllocator :=
  { s.kfree s.checkpointStack with checkpointStack := s.link s.checkpointStack }

/-- The loop of `reset` gives back the whole chain. -/
theorem dropRecords_spec {fuel : Nat} (h : Chained s l) (hfuel : l.length < fuel) :
    (dropRecords fuel s).checkpointStack = 0 ∧ Released s (dropRecords fuel s) l := by
  induction l generalizing s fuel with
  | nil =>
      obtain ⟨n, rfl⟩ := Nat.exists_eq_succ_of_ne_zero (Nat.ne_zero_of_lt hfuel)
      have hend : dropRecords (n + 1) s = s := if_pos h.links
      rw [hend]
      exact ⟨h.links, .refl s⟩
  | cons q l ih =>
      obtain ⟨n, rfl⟩ := Nat.exists_eq_succ_of_ne_zero (Nat.ne_zero_of_lt hfuel)
      obtain ⟨⟨rfl, hne, ht⟩, hnd, hlive⟩ := h
      obtain ⟨hnot, hnd'⟩ := List.nodup_cons.mp hnd
      have hgo : dropRecords (n + 1) s = dropRecords n s.dropFirst := if_neg hne
      have hfree : Released s s.dropFirst [s.checkpointStack] :=
        .one hne (hlive _ List.mem_cons_self) rfl rfl
      have hrest : Chained s.dropFirst l := by
        refine ⟨ht, hnd', fun a ha => (hfree.live a).mpr ⟨hlive a (List.mem_cons_of_mem _ ha), ?_⟩⟩
        intro hmem
        exact hnot (List.mem_singleton.mp hmem ▸ ha)
      rw [hgo]
      obtain ⟨hend, hrel⟩ := ih hrest (Nat.lt_of_succ_lt_succ hfuel)
      exact ⟨hend, hfree.cons hrel⟩

/-- The loop of `destroy_checkpoint` stops at `p` or at the end of the chain,
and keeps the record before it. -/
theorem destroyLoop_spec {pre : List UInt32} (post : List UInt32) {cp : UInt32} (before : UInt32)
    {fuel : Nat} (hl : Sll 0 s.link cp (pre ++ post)) (hpre : ∀ q ∈ pre, q ≠ p)
    (hpost : post = [] ∨ ∃ t, post = p :: t) (hfuel : pre.length < fuel) :
    s.destroyLoop p fuel cp before = (post.headD 0, pre.getLastD before) := by
  induction pre generalizing cp before fuel with
  | nil =>
      obtain ⟨n, rfl⟩ := Nat.exists_eq_succ_of_ne_zero (Nat.ne_zero_of_lt hfuel)
      unfold destroyLoop
      rcases hpost with rfl | ⟨t, rfl⟩
      · rw [if_neg (fun hc => hc.1 hl)]
        exact congrArg (·, before) hl
      · rw [if_neg (fun hc => hc.2 hl.1)]
        exact congrArg (·, before) hl.1
  | cons q pre ih =>
      obtain ⟨n, rfl⟩ := Nat.exists_eq_succ_of_ne_zero (Nat.ne_zero_of_lt hfuel)
      obtain ⟨rfl, hne, ht⟩ := hl
      unfold destroyLoop
      rw [if_pos ⟨hne, hpre cp List.mem_cons_self⟩, List.getLastD_cons]
      exact ih _ ht (fun a ha => hpre a (List.mem_cons_of_mem cp ha)) (Nat.lt_of_succ_lt_succ hfuel)

/-! ## The operations -/

theorem freeToCheckpoint_keeps (s : StackAllocator) (p : UInt32) :
    (s.freeToCheckpoint p).record = s.record ∧ (s.freeToCheckpoint p).heap = s.heap ∧
      (s.freeToCheckpoint p).checkpointStack = s.checkpointStack := by
  unfold freeToCheckpoint
  split
  · exact ⟨rfl, rfl, rfl⟩
  · dsimp only
    split <;> exact ⟨rfl, rfl, rfl⟩

theorem restoreLoop_checkpointStack (p : UInt32) (fuel : Nat) (s : StackAllocator) (cp : UInt32) :
    (restoreLoop p fuel s cp).2.checkpointStack = s.checkpointStack := by
  induction fuel generalizing s cp with
  | zero => rfl
  | succ n ih =>
      unfold restoreLoop
      split
      · exact ih _ _
      · rfl

/-- Restoring a record of the chain. -/
theorem popTo_on {pre post : List UInt32} (h : Chained s (pre ++ p :: post)) :
    Released s (s.popTo p) pre ∧ Chained (s.popTo p) post := by
  obtain ⟨hpre, hpost, hdisj⟩ := List.nodup_append.mp h.nodup
  have hlen : pre.length < turns := by
    have := h.length_lt
    rw [List.length_append] at this
    exact Nat.lt_of_le_of_lt (Nat.le_add_right _ _) this
  obtain ⟨hend, hrel⟩ := restoreLoop_spec (p :: post) h.links hpre
    (fun q hq => h.live q (List.mem_append_left _ hq))
    (fun q hq => hdisj q hq p List.mem_cons_self) (.inr ⟨post, rfl⟩) hlen
  unfold popTo
  generalize restoreLoop p turns s s.checkpointStack = r at hend hrel ⊢
  obtain ⟨cp, s₁⟩ := r
  obtain rfl : cp = p := hend
  dsimp only at hrel ⊢
  rw [if_pos rfl]
  refine ⟨⟨hrel.record, hrel.badFrees, hrel.live⟩, ?_, (List.nodup_cons.mp hpost).2, fun q hq => ?_⟩
  · show Sll 0 s₁.link (s₁.link cp) post
    rw [hrel.link]
    exact h.links.drop
  · have hq' : q ∈ pre ++ cp :: post := List.mem_append_right _ (List.mem_cons_of_mem cp hq)
    exact (hrel.live q).mpr ⟨h.live q hq', fun hm => hdisj q hm q (List.mem_cons_of_mem cp hq) rfl⟩

/-- Restoring a record that is not on the chain gives the chain back, and keeps
its first address. -/
theorem popTo_off (h : Chained s l) (hp : p ≠ 0) (hoff : p ∉ l) :
    Released s (s.popTo p) l ∧ (s.popTo p).checkpointStack = s.checkpointStack := by
  have hkeep := restoreLoop_checkpointStack p turns s s.checkpointStack
  obtain ⟨hend, hrel⟩ := restoreLoop_spec (p := p) []
    (by rw [List.append_nil]; exact h.links) h.nodup h.live (fun q hq e => hoff (e ▸ hq)) (.inl rfl)
    h.length_lt
  unfold popTo
  generalize restoreLoop p turns s s.checkpointStack = r at hend hrel hkeep ⊢
  obtain ⟨cp, s₁⟩ := r
  obtain rfl : cp = 0 := hend
  dsimp only at hrel hkeep ⊢
  rw [if_neg (Ne.symm hp)]
  exact ⟨hrel, hkeep⟩

theorem restoreCheckpoint_eq (hp : p ≠ 0) :
    s.restoreCheckpoint p = (s.freeToCheckpoint p).popTo p := if_neg hp

theorem Released.of_freeToCheckpoint {l : List UInt32}
    (h : Released (s.freeToCheckpoint q) s' l) : Released s s' l := by
  obtain ⟨hrec, hheap, _⟩ := freeToCheckpoint_keeps s q
  refine ⟨h.record.trans hrec, ?_, fun a => ?_⟩
  · rw [h.badFrees, hheap]
  · rw [h.live]
    unfold LiveRecord
    rw [hheap]

theorem freeToCheckpoint_chained (h : Chained s l) (q : UInt32) :
    Chained (s.freeToCheckpoint q) l := by
  obtain ⟨hrec, hheap, hstack⟩ := freeToCheckpoint_keeps s q
  exact h.keeps ⟨hrec, hstack, by rw [hheap], by rw [hheap]; exact fun _ hb => hb⟩

theorem restoreCheckpoint_on {pre post : List UInt32} (h : Chained s (pre ++ p :: post)) :
    Released s (s.restoreCheckpoint p) pre ∧ Chained (s.restoreCheckpoint p) post := by
  have hp : p ≠ 0 := h.links.ne_null p (List.mem_append_right _ List.mem_cons_self)
  rw [restoreCheckpoint_eq hp]
  obtain ⟨hrel, hchain⟩ := popTo_on (freeToCheckpoint_chained h p)
  exact ⟨hrel.of_freeToCheckpoint, hchain⟩

theorem restoreCheckpoint_off (h : Chained s l) (hp : p ≠ 0) (hoff : p ∉ l) :
    Released s (s.restoreCheckpoint p) l ∧
      (s.restoreCheckpoint p).checkpointStack = s.checkpointStack := by
  rw [restoreCheckpoint_eq hp]
  obtain ⟨hrel, hstack⟩ := popTo_off (freeToCheckpoint_chained h p) hp hoff
  exact ⟨hrel.of_freeToCheckpoint, hstack.trans (freeToCheckpoint_keeps s p).2.2⟩

/-- Destroying a record that is not on the chain does nothing. -/
theorem destroyCheckpoint_off (hl : Sll 0 s.link s.checkpointStack l) (hlen : l.length < turns)
    (hp : p ≠ 0) (hoff : p ∉ l) : s.destroyCheckpoint p = s := by
  have hend := destroyLoop_spec (p := p) [] 0
    (by rw [List.append_nil]; exact hl) (fun q hq e => hoff (e ▸ hq)) (.inl rfl) hlen
  unfold destroyCheckpoint
  rw [if_neg hp, hend]
  exact if_neg (Ne.symm hp)

/-- The record at `p` is given back, and `s'` goes by it. -/
theorem Chained.bypassed {pre post : List UInt32} (h : Chained s (pre ++ p :: post))
    (hfree : s'.heap = s.heap.free p.toNat)
    (hlinks : Sll 0 s'.link s'.checkpointStack (pre ++ post)) :
    Chained s' (pre ++ post) ∧ s'.heap.badFrees = s.heap.badFrees := by
  have hmem : p ∈ pre ++ p :: post := List.mem_append_right _ List.mem_cons_self
  have hrel : Released s { s with heap := s'.heap } [p] :=
    .one (h.links.ne_null p hmem) (h.live p hmem) rfl hfree
  obtain ⟨hnot, hnd⟩ := List.nodup_cons.mp (List.perm_middle.nodup_iff.mp h.nodup)
  refine ⟨⟨hlinks, hnd, fun q hq => (hrel.live q).mpr ⟨h.live q ?_, fun hm => ?_⟩⟩, hrel.badFrees⟩
  · rcases List.mem_append.mp hq with hq | hq
    · exact List.mem_append_left _ hq
    · exact List.mem_append_right _ (List.mem_cons_of_mem p hq)
  · exact hnot (List.mem_singleton.mp hm ▸ hq)

/-- Destroying a record of the chain. -/
theorem destroyCheckpoint_on {pre post : List UInt32} (h : Chained s (pre ++ p :: post)) :
    Chained (s.destroyCheckpoint p) (pre ++ post) ∧
      (s.destroyCheckpoint p).heap.badFrees = s.heap.badFrees := by
  have hp : p ≠ 0 := h.links.ne_null p (List.mem_append_right _ List.mem_cons_self)
  obtain ⟨_, _, hdisj⟩ := List.nodup_append.mp h.nodup
  have hlen : pre.length < turns := by
    have := h.length_lt
    rw [List.length_append] at this
    exact Nat.lt_of_le_of_lt (Nat.le_add_right _ _) this
  have hend := destroyLoop_spec (p :: post) 0 h.links
    (fun q hq => hdisj q hq p List.mem_cons_self) (.inr ⟨post, rfl⟩) hlen
  unfold destroyCheckpoint
  rw [if_neg hp, hend]
  dsimp only [List.headD_cons]
  rw [if_pos rfl]
  rcases List.eq_nil_or_concat pre with rfl | ⟨pre, b, rfl⟩
  · rw [if_neg (by simp)]
    exact h.bypassed rfl h.links.2.2
  · rw [List.concat_eq_append] at h ⊢
    have hl : Sll 0 s.link s.checkpointStack (pre ++ b :: p :: post) := by
      rw [List.append_cons]
      exact h.links
    have hb : b ≠ 0 := hl.ne_null b (List.mem_append_right _ List.mem_cons_self)
    have hother : ∀ c, c ∈ pre ∨ c ∈ post → c ≠ b := by
      rintro c hc rfl
      rw [List.append_assoc] at h
      have hnd := (List.nodup_cons.mp (List.perm_middle.nodup_iff.mp h.nodup)).1
      exact hnd (List.mem_append.mpr (hc.imp_right (List.mem_cons_of_mem p)))
    rw [List.getLastD_concat, if_pos hb]
    refine h.bypassed rfl ?_
    rw [← List.append_cons]
    refine hl.bypass ?_ (fun c hc => ?_)
    · exact (congrArg StackCheckpoint.prev (Function.update_self b _ s.record)).trans rfl
    · exact congrArg StackCheckpoint.prev (Function.update_of_ne (hother c hc) ..)

theorem reset_spec (h : Chained s l) (hinit : s.initialized = true) :
    Released s s.reset l ∧ Chained s.reset [] := by
  obtain ⟨hstack, hrel⟩ := dropRecords_spec (s := (s.moveTo s.cur.start).modifyStats fun t =>
    { t with
      totalFreedBytes := t.totalFreedBytes + t.currentUsage.toUInt64
      currentUsage := 0 }) ⟨h.links, h.nodup, h.live⟩ h.length_lt
  unfold reset
  rw [if_neg (by rw [hinit]; decide)]
  exact ⟨⟨hrel.record, hrel.badFrees, hrel.live⟩, hstack, List.nodup_nil, nofun⟩

/-- A new record in front, or none. -/
theorem createCheckpoint_spec (h : Chained s l) :
    (∃ l', Chained s.createCheckpoint.2 l') ∧
      s.createCheckpoint.2.heap.badFrees = s.heap.badFrees := by
  unfold createCheckpoint
  split
  · exact ⟨⟨l, h⟩, rfl⟩
  have hkeep := s.kmalloc_keeps sizeofStackCheckpoint
  have hnew := s.heap.alloc_cases sizeofStackCheckpoint.toNat
  have hcp := kmalloc_toNat (s := s) sizeofStackCheckpoint
  have hout : (s.kmalloc sizeofStackCheckpoint).2.heap =
    (s.heap.alloc sizeofStackCheckpoint.toNat).2 := rfl
  rw [← hcp, ← hout] at hnew
  generalize s.kmalloc sizeofStackCheckpoint = r at hkeep hnew ⊢
  obtain ⟨cp, s₁⟩ := r
  dsimp only at hkeep hnew ⊢
  by_cases hz : cp = 0
  · rw [if_pos hz]
    exact ⟨⟨l, h.keeps hkeep⟩, hkeep.badFrees⟩
  rw [if_neg hz]
  refine ⟨⟨cp :: l, ?_⟩, hkeep.badFrees⟩
  rcases hnew with ⟨h0, _⟩ | ⟨hfree, hlive⟩
  · exact absurd (UInt32.toNat_inj.mp h0) hz
  · have hnot : cp ∉ l := fun hm => hfree.not_live (h.live cp hm).live
    have h₁ := h.keeps hkeep
    refine ⟨h₁.links.push hz ?_ (fun b hb => ?_), List.nodup_cons.mpr ⟨hnot, h.nodup⟩, ?_⟩
    · exact congrArg StackCheckpoint.prev (pushRecord_self cp)
    · exact congrArg StackCheckpoint.prev (pushRecord_other fun e => hnot (e ▸ hb))
    · intro b hb
      rcases List.mem_cons.mp hb with rfl | hb
      · show (_, _) ∈ s₁.heap.live
        rw [hlive]
        exact List.mem_cons_self
      · exact h₁.live b hb

theorem pushFrame_keeps (frame size : UInt32) : KeepsRecords s (s.pushFrame frame size) := by
  unfold pushFrame linkFrame
  dsimp only
  split
  · exact ⟨rfl, rfl, rfl, fun _ hb => hb⟩
  · split <;> split <;> exact ⟨rfl, rfl, rfl, fun _ hb => hb⟩

theorem allocateFrame_keeps (size : UInt32) : KeepsRecords s (s.allocateFrame size).2 := by
  have hkeep : KeepsRecords s (s.kmalloc (sizeofStackFrame + size)).2 := s.kmalloc_keeps _
  unfold allocateFrame
  dsimp only
  split
  · exact hkeep
  · exact hkeep.trans ⟨rfl, rfl, rfl, fun _ hb => hb⟩

theorem grow_keeps (n : UInt32) : KeepsRecords s (s.grow n).2 := by
  have hframe : KeepsRecords s (s.allocateFrame (s.newFrameSize n)).2 := allocateFrame_keeps _
  unfold grow
  split
  · exact .refl s
  split
  · exact .refl s
  dsimp only
  split
  · exact hframe
  · exact hframe.trans (pushFrame_keeps _ _)

theorem take_keeps (p n : UInt32) : KeepsRecords s (s.take p n).2 := by
  unfold take
  dsimp only
  split <;> exact ⟨rfl, rfl, rfl, fun _ hb => hb⟩

/-- An allocation touches no record. -/
theorem alloc_keeps (size alignment : UInt32) : KeepsRecords s (s.alloc size alignment).2 := by
  have hcheck : KeepsRecords s s.countCheck := ⟨rfl, rfl, rfl, fun _ hb => hb⟩
  have hgrow : KeepsRecords s (s.countCheck.grow (alignSize size alignment * 2)).2 :=
    hcheck.trans (grow_keeps _)
  unfold alloc
  split
  · exact .refl s
  dsimp only
  split
  · generalize s.countCheck.grow (alignSize size alignment * 2) = r at hgrow ⊢
    obtain ⟨b, s₁⟩ := r
    cases b with
    | false => exact hgrow
    | true =>
        dsimp only
        split
        · exact hgrow
        · exact hgrow.trans (take_keeps _ _)
  · exact hcheck.trans (take_keeps _ _)

/-! ## Restoring, again -/

theorem LiveRecord.ne_zero (h : s.LiveRecord p) : p ≠ 0 := by
  rintro rfl
  exact (s.heap.placed _ h).1 rfl

theorem Chained.eq_nil_iff (h : Chained s l) : s.checkpointStack = 0 ↔ l = [] :=
  h.links.head_eq_null_iff

/-- After a restore there is a chain of records that are out if there was none
to give back, or its argument was on it. -/
theorem restoreCheckpoint_chained_iff (h : Chained s l) (hp : p ≠ 0) :
    (∃ l', Chained (s.restoreCheckpoint p) l') ↔ l = [] ∨ p ∈ l := by
  constructor
  · rintro ⟨l', h'⟩
    refine or_iff_not_imp_right.mpr fun hoff => ?_
    obtain ⟨hrel, hstack⟩ := restoreCheckpoint_off h hp hoff
    cases l with
    | nil => rfl
    | cons a l =>
        -- the first record of the chain was given back, and is still its first record
        obtain ⟨ha, hne, _⟩ := h.links
        have hhead : (s.restoreCheckpoint p).checkpointStack ≠ 0 := by
          rw [hstack, ha]
          exact hne
        obtain ⟨t, rfl, _⟩ := h'.links.exists_cons hhead
        have hfirst := h'.live _ List.mem_cons_self
        rw [hstack, ha] at hfirst
        exact absurd List.mem_cons_self ((hrel.live a).mp hfirst).2
  · rintro (rfl | hon)
    · obtain ⟨hrel, hstack⟩ := restoreCheckpoint_off h hp List.not_mem_nil
      exact ⟨[], hstack.trans h.links, List.nodup_nil, nofun⟩
    · obtain ⟨pre, post, rfl⟩ := List.append_of_mem hon
      exact ⟨post, (restoreCheckpoint_on h).2⟩

/-- A restore gives nothing back twice, and never gives back its argument. -/
theorem restoreCheckpoint_keeps (h : Chained s l) (hp : p ≠ 0) :
    (s.restoreCheckpoint p).heap.badFrees = s.heap.badFrees ∧
      ((s.restoreCheckpoint p).LiveRecord p ↔ s.LiveRecord p) := by
  by_cases hon : p ∈ l
  · obtain ⟨pre, post, rfl⟩ := List.append_of_mem hon
    have hrel := (restoreCheckpoint_on h).1
    have hnot : p ∉ pre := fun hm =>
      (List.nodup_append.mp h.nodup).2.2 p hm p List.mem_cons_self rfl
    exact ⟨hrel.badFrees, (hrel.live p).trans (and_iff_left hnot)⟩
  · have hrel := (restoreCheckpoint_off h hp hon).1
    exact ⟨hrel.badFrees, (hrel.live p).trans (and_iff_left hon)⟩

/-- The destructor of a scope restores its record, and then never finds it. -/
theorem leaveScope_eq {scope : ScopedStackAllocator} (h : Chained s l) (hact : scope.active = true)
    (hp : scope.checkpoint ≠ 0) : s.leaveScope scope = s.restoreCheckpoint scope.checkpoint := by
  refine (if_pos ⟨hact, hp⟩).trans ?_
  generalize scope.checkpoint = p at hp ⊢
  by_cases hon : p ∈ l
  · obtain ⟨pre, post, rfl⟩ := List.append_of_mem hon
    have h' := (restoreCheckpoint_on h).2
    obtain ⟨_, hnd, _⟩ := List.nodup_append.mp h.nodup
    exact destroyCheckpoint_off h'.links h'.length_lt hp (List.nodup_cons.mp hnd).1
  · obtain ⟨hrel, hstack⟩ := restoreCheckpoint_off h hp hon
    refine destroyCheckpoint_off ?_ h.length_lt hp hon
    rw [hrel.link, hstack]
    exact h.links

/-! ## Looking a record up on the chain -/

def onChainFrom (s : StackAllocator) (p : UInt32) : Nat → UInt32 → Bool
  | 0, _ => false
  | fuel + 1, cp => cp ≠ 0 && (cp == p || s.onChainFrom p fuel (s.link cp))

def OnChain (s : StackAllocator) (p : UInt32) : Prop :=
  s.onChainFrom p turns s.checkpointStack = true

instance : Decidable (s.OnChain p) := by
  unfold OnChain
  infer_instance

theorem onChainFrom_iff {cp : UInt32} {fuel : Nat} (hl : Sll 0 s.link cp l)
    (hfuel : l.length < fuel) : s.onChainFrom p fuel cp = true ↔ p ∈ l := by
  induction l generalizing cp fuel with
  | nil =>
      obtain ⟨n, rfl⟩ := Nat.exists_eq_succ_of_ne_zero (Nat.ne_zero_of_lt hfuel)
      obtain rfl : cp = 0 := hl
      simp [onChainFrom]
  | cons q l ih =>
      obtain ⟨n, rfl⟩ := Nat.exists_eq_succ_of_ne_zero (Nat.ne_zero_of_lt hfuel)
      obtain ⟨rfl, hne, ht⟩ := hl
      have hrest := ih ht (Nat.lt_of_succ_lt_succ hfuel)
      unfold onChainFrom
      rw [Bool.and_eq_true, Bool.or_eq_true, hrest, beq_iff_eq, decide_eq_true_eq, and_iff_right hne,
        List.mem_cons, eq_comm]

theorem Chained.onChain_iff (h : Chained s l) : s.OnChain p ↔ p ∈ l :=
  onChainFrom_iff h.links h.length_lt

end StackAllocator

/-! ## Clients -/

/-- A client with its open scopes, the innermost first, and the record of the
scope it has just left. -/
structure RecordClient where
  stack : StackAllocator
  scopes : List ScopedStackAllocator
  left : Option UInt32

inductive RecordCall
  | alloc (size alignment : UInt32)
  | createCheckpoint
  | restoreCheckpoint (checkpoint : UInt32)
  | destroyCheckpoint (checkpoint : UInt32)
  | reset
  | enterScope
  | leaveScope

/-- Scopes are left innermost first. -/
def recordStep (c : RecordClient) : RecordCall → Option RecordClient
  | .alloc size alignment =>
      some { c with stack := (c.stack.alloc size alignment).2, left := none }
  | .createCheckpoint => some { c with stack := c.stack.createCheckpoint.2, left := none }
  | .restoreCheckpoint cp => some { c with stack := c.stack.restoreCheckpoint cp, left := none }
  | .destroyCheckpoint cp => some { c with stack := c.stack.destroyCheckpoint cp, left := none }
  | .reset => some { c with stack := c.stack.reset, left := none }
  | .enterScope =>
      let (scope, s) := c.stack.enterScope
      some { stack := s, scopes := scope :: c.scopes, left := none }
  | .leaveScope =>
      match c.scopes with
      | [] => none
      | scope :: scopes =>
          some
            { stack := c.stack.leaveScope scope
              scopes := scopes
              left := if scope.active = true then some scope.checkpoint else none }

/-- A checkpoint given as an argument is null or a record that is out. -/
def ArgumentLive (c : RecordClient) : RecordCall → Prop
  | .restoreCheckpoint cp => cp = 0 ∨ c.stack.LiveRecord cp
  | .destroyCheckpoint cp => cp = 0 ∨ c.stack.LiveRecord cp
  | _ => True

/-- A checkpoint is restored while it is on the chain, or while the chain is
empty; and a scope is left that has no record, or when its record and the whole
chain were given back. -/
def KeepsChain (c : RecordClient) : RecordCall → Prop
  | .restoreCheckpoint cp => cp = 0 ∨ c.stack.checkpointStack = 0 ∨ c.stack.OnChain cp
  | .leaveScope =>
      ∀ scope ∈ c.scopes.head?, scope.active = true → scope.checkpoint ≠ 0 →
        c.stack.checkpointStack = 0 ∧ ¬ c.stack.LiveRecord scope.checkpoint
  | _ => True

/-- What is to hold after each call. -/
structure RecordsSound (c : RecordClient) : Prop where
  chain : ∃ l, c.stack.Chained l
  once : c.stack.heap.badFrees = 0
  left : ∀ p, c.left = some p → ¬ c.stack.LiveRecord p

namespace RecordsSound

variable {c c' : RecordClient}

/-- A call that does nothing. -/
theorem unchanged (h : RecordsSound c) {s : StackAllocator} (e : s = c.stack)
    (scopes : List ScopedStackAllocator) :
    RecordsSound { stack := s, scopes := scopes, left := none } := by
  subst e
  exact ⟨h.chain, h.once, nofun⟩

theorem restore_iff (h : RecordsSound c) (cp : UInt32) :
    RecordsSound { c with stack := c.stack.restoreCheckpoint cp, left := none } ↔
      KeepsChain c (.restoreCheckpoint cp) := by
  by_cases hcp : cp = 0
  · exact iff_of_true (h.unchanged (if_pos hcp) c.scopes) (.inl hcp)
  · obtain ⟨l, hl⟩ := h.chain
    have hiff := StackAllocator.restoreCheckpoint_chained_iff hl hcp
    rw [← hl.eq_nil_iff, ← hl.onChain_iff] at hiff
    have hb := (StackAllocator.restoreCheckpoint_keeps hl hcp).1
    constructor
    · intro h'
      exact .inr (hiff.mp h'.chain)
    · intro hk
      exact ⟨hiff.mpr (hk.resolve_left hcp), hb.trans h.once, nofun⟩

theorem destroy (h : RecordsSound c) (cp : UInt32) :
    RecordsSound { c with stack := c.stack.destroyCheckpoint cp, left := none } := by
  obtain ⟨l, hl⟩ := h.chain
  by_cases hon : cp ∈ l
  · obtain ⟨pre, post, rfl⟩ := List.append_of_mem hon
    obtain ⟨hc, hb⟩ := StackAllocator.destroyCheckpoint_on hl
    exact ⟨⟨_, hc⟩, hb.trans h.once, nofun⟩
  · refine h.unchanged ?_ c.scopes
    by_cases hcp : cp = 0
    · exact if_pos hcp
    · exact StackAllocator.destroyCheckpoint_off hl.links hl.length_lt hcp hon

theorem reset (h : RecordsSound c) :
    RecordsSound { c with stack := c.stack.reset, left := none } := by
  by_cases hinit : c.stack.initialized = true
  · obtain ⟨l, hl⟩ := h.chain
    obtain ⟨hrel, hc⟩ := StackAllocator.reset_spec hl hinit
    exact ⟨⟨[], hc⟩, hrel.badFrees.trans h.once, nofun⟩
  · exact h.unchanged (if_pos (by simpa using hinit)) c.scopes

theorem leave_iff (h : RecordsSound c) (scope : ScopedStackAllocator)
    (scopes : List ScopedStackAllocator) :
    RecordsSound
        { stack := c.stack.leaveScope scope
          scopes := scopes
          left := if scope.active = true then some scope.checkpoint else none } ↔
      (scope.active = true → scope.checkpoint ≠ 0 →
        c.stack.checkpointStack = 0 ∧ ¬ c.stack.LiveRecord scope.checkpoint) := by
  cases hact : scope.active with
  | false =>
      refine iff_of_true (h.unchanged (if_neg ?_) scopes) nofun
      rw [hact]
      exact nofun
  | true =>
      rw [if_pos rfl]
      by_cases hcp : scope.checkpoint = 0
      · have hsame : c.stack.leaveScope scope = c.stack := if_neg fun hc => hc.2 hcp
        rw [hsame]
        refine iff_of_true ⟨h.chain, h.once, fun p hp hlive => ?_⟩ fun _ hne => absurd hcp hne
        exact hlive.ne_zero ((Option.some.inj hp).symm.trans hcp)
      · obtain ⟨l, hl⟩ := h.chain
        rw [StackAllocator.leaveScope_eq hl hact hcp]
        generalize scope.checkpoint = cp at hcp ⊢
        have hiff := StackAllocator.restoreCheckpoint_chained_iff hl hcp
        obtain ⟨hb, hlive⟩ := StackAllocator.restoreCheckpoint_keeps hl hcp
        constructor
        · intro h' _ _
          have hout : ¬ c.stack.LiveRecord cp := fun hm => h'.left cp rfl (hlive.mpr hm)
          refine ⟨hl.eq_nil_iff.mpr ((hiff.mp h'.chain).resolve_right ?_), hout⟩
          exact fun hm => hout (hl.live cp hm)
        · intro hk
          obtain ⟨hstack, hout⟩ := hk rfl hcp
          refine ⟨hiff.mpr (.inl (hl.eq_nil_iff.mp hstack)), hb.trans h.once, ?_⟩
          rintro p hp hm
          obtain rfl := Option.some.inj hp
          exact hout (hlive.mp hm)

/-- **One call** keeps the records sound exactly if it meets the condition. -/
theorem step_iff (h : RecordsSound c) {call : RecordCall} (hs : recordStep c call = some c') :
    RecordsSound c' ↔ KeepsChain c call := by
  obtain ⟨l, hl⟩ := h.chain
  cases call with
  | alloc size alignment =>
      obtain rfl := Option.some.inj hs
      have hk := StackAllocator.alloc_keeps (s := c.stack) size alignment
      exact iff_of_true ⟨⟨l, hl.keeps hk⟩, hk.badFrees.trans h.once, nofun⟩ True.intro
  | createCheckpoint =>
      obtain rfl := Option.some.inj hs
      obtain ⟨hc, hb⟩ := StackAllocator.createCheckpoint_spec hl
      exact iff_of_true ⟨hc, hb.trans h.once, nofun⟩ True.intro
  | restoreCheckpoint cp =>
      obtain rfl := Option.some.inj hs
      exact h.restore_iff cp
  | destroyCheckpoint cp =>
      obtain rfl := Option.some.inj hs
      exact iff_of_true (h.destroy cp) True.intro
  | reset =>
      obtain rfl := Option.some.inj hs
      exact iff_of_true h.reset True.intro
  | enterScope =>
      obtain rfl := Option.some.inj hs
      obtain ⟨hc, hb⟩ := StackAllocator.createCheckpoint_spec hl
      exact iff_of_true ⟨hc, hb.trans h.once, nofun⟩ True.intro
  | leaveScope =>
      simp only [recordStep] at hs
      split at hs
      · cases hs
      · next scope scopes hsc =>
          obtain rfl := Option.some.inj hs
          refine (h.leave_iff scope scopes).trans ?_
          simp [KeepsChain, hsc]

end RecordsSound

/-! ## The result -/

instance (c : RecordClient) (call : RecordCall) : Decidable (ArgumentLive c call) := by
  cases call <;> (unfold ArgumentLive; infer_instance)

instance (c : RecordClient) (call : RecordCall) : Decidable (KeepsChain c call) := by
  cases call <;> (unfold KeepsChain; infer_instance)

/-- **The records of the chain are out, and none is given back twice**, in every
state of a run whose calls meet the condition; the first call that does not
meet it breaks this. -/
theorem checkpoint_records_sound {s : StackAllocator} (hempty : s.checkpointStack = 0)
    (honce : s.heap.badFrees = 0) {c : RecordClient}
    (hr : Reaches recordStep (fun c call => ArgumentLive c call ∧ KeepsChain c call)
      { stack := s, scopes := [], left := none } c) :
    RecordsSound c ∧ ∀ call c', ArgumentLive c call → recordStep c call = some c' →
      (RecordsSound c' ↔ KeepsChain c call) := by
  have h0 : RecordsSound { stack := s, scopes := [], left := none } :=
    ⟨⟨[], hempty, List.nodup_nil, nofun⟩, honce, nofun⟩
  have h : RecordsSound c := hr.invariant h0 fun _ _ _ h hok hs => (h.step_iff hs).mpr hok.2
  exact ⟨h, fun _ _ _ hs => h.step_iff hs⟩

/-- Two checkpoints restored, the outer one twice, and a scope that a reset
empties. -/
theorem checkpoint_records_sound_reset :
    ∃ c : RecordClient, c.left = some 0x500000 ∧ c.stack.LiveRecord 0x300000 ∧ RecordsSound c := by
  obtain ⟨c, hr, hp⟩ := Reaches.of_checked_script recordStep
    (fun c call => ArgumentLive c call ∧ KeepsChain c call)
    { stack := StackAllocator.raw.init 4096, scopes := [], left := none }
    (fun c => decide (c.left = some 0x500000 ∧ c.stack.LiveRecord 0x300000))
    [.createCheckpoint, .createCheckpoint, .alloc 100 16, .restoreCheckpoint 0x400000,
      .destroyCheckpoint 0x400000, .restoreCheckpoint 0x300000, .restoreCheckpoint 0x300000,
      .enterScope, .reset, .leaveScope] (by decide +kernel)
  obtain ⟨hleft, hlive⟩ := of_decide_eq_true hp
  exact ⟨c, hleft, hlive, (checkpoint_records_sound (by decide +kernel) (by decide +kernel) hr).1⟩

/-- A record that is restored once more leaves a chain of records that were
given back, and the next `reset` gives one back again; and a scope never gives
its record back. -/
theorem restored_twice_and_left :
    let s := StackAllocator.raw.init 4096
    let first := s.createCheckpoint
    let second := (first.2.restoreCheckpoint first.1).createCheckpoint
    let again := second.2.restoreCheckpoint first.1
    let scope := s.enterScope
    (second.2.LiveRecord first.1 ∧ again.checkpointStack = second.1 ∧ second.1 ≠ 0 ∧
      ¬ again.LiveRecord second.1 ∧ again.reset.heap.badFrees = 1) ∧
    scope.1.active = true ∧ (scope.2.leaveScope scope.1).LiveRecord scope.1.checkpoint := by
  decide +kernel

end KmOS
