/-
# `KmOS.Slob.Search` — the searches of `alloc` and `free`

`find_free_block` goes through the free lists of all pages and keeps the
smallest block with room for the request; it stops early at one that fits
exactly, which no other can undercut.  `SmallestFit` says what is known of the
best block so far, and what one more block or one more page adds to that.  The
search for a block's page ends at the page the block lies in.
-/
import KmOS.Lib.Chain
import KmOS.Slob.Invariant

namespace KmOS

namespace Slob

variable {m m' : Memory} {z : Slob} {P Q a b size : Nat} {l seen : List Nat}
  {bs : Nat → List SlobBlock} {best : Nat × Nat}

/-! ## The best block so far -/

/-- `best_fit` and `best_size` after the blocks of `seen`: a smallest of those
with room for `size`, or null when none has. -/
def SmallestFit (m : Memory) (size : Nat) (seen : List Nat) (best : Nat × Nat) : Prop :=
  (best = (0, 0xFFFFFFFF) ∧ ∀ b ∈ seen, Slob.size m b < size) ∨
    (best.1 ∈ seen ∧ best.2 = Slob.size m best.1 ∧ size ≤ best.2 ∧
      ∀ b ∈ seen, size ≤ Slob.size m b → best.2 ≤ Slob.size m b)

theorem SmallestFit.start (m : Memory) (size : Nat) : SmallestFit m size [] (0, 0xFFFFFFFF) :=
  Or.inl ⟨rfl, nofun⟩

/-- A block that is too small, or no smaller than the best one. -/
theorem SmallestFit.pass (h : SmallestFit m size seen best) (hb : Slob.size m b < 0xFFFFFFFF)
    (hno : ¬ (size ≤ Slob.size m b ∧ Slob.size m b < best.2)) :
    SmallestFit m size (seen ++ [b]) best := by
  rcases h with ⟨rfl, hnone⟩ | ⟨hmem, hsize, hle, hmin⟩
  · refine Or.inl ⟨rfl, fun c hc => ?_⟩
    rcases List.mem_append.mp hc with hc | hc
    · exact hnone c hc
    · obtain rfl := List.mem_singleton.mp hc
      dsimp only at hno
      omega
  · refine Or.inr ⟨List.mem_append_left _ hmem, hsize, hle, fun c hc hfit => ?_⟩
    rcases List.mem_append.mp hc with hc | hc
    · exact hmin c hc hfit
    · obtain rfl := List.mem_singleton.mp hc
      omega

/-- A smaller block that still has room. -/
theorem SmallestFit.take (h : SmallestFit m size seen best) (hfit : size ≤ Slob.size m b)
    (hlt : Slob.size m b < best.2) : SmallestFit m size (seen ++ [b]) (b, Slob.size m b) := by
  refine Or.inr ⟨List.mem_append_right _ List.mem_cons_self, rfl, hfit, fun c hc hc' => ?_⟩
  rcases List.mem_append.mp hc with hc | hc
  · rcases h with ⟨_, hnone⟩ | ⟨_, _, _, hmin⟩
    · exact absurd hc' (Nat.not_le.mpr (hnone c hc))
    · exact Nat.le_of_lt (Nat.lt_of_lt_of_le hlt (hmin c hc hc'))
  · obtain rfl := List.mem_singleton.mp hc
    exact Nat.le_refl _

/-- No block undercuts an exact fit. -/
theorem SmallestFit.exact (h : SmallestFit m size seen best) (hs : size < 0xFFFFFFFF)
    (he : best.2 = size) (more : List Nat) : SmallestFit m size (seen ++ more) best := by
  rcases h with ⟨rfl, _⟩ | ⟨hmem, hsize, hle, _⟩
  · dsimp only at he
    omega
  · refine Or.inr ⟨List.mem_append_left _ hmem, hsize, hle, fun c _ hfit => ?_⟩
    rw [he]
    exact hfit

/-! ## `find_free_block` -/

/-- The search through one free list. -/
theorem bestInPage_spec {p h fuel : Nat} (hs : size < 0xFFFFFFFF)
    (hl : Dll 0 (next m) (prev m) p h l) (hf : l.length < fuel)
    (hsize : ∀ b ∈ l, Slob.size m b < 0xFFFFFFFF) (hb : SmallestFit m size seen best) :
    ∃ r, bestInPage m size fuel h best = some r ∧ SmallestFit m size (seen ++ l) r := by
  induction l generalizing p h fuel best seen with
  | nil =>
      obtain ⟨fuel, rfl⟩ : ∃ k, fuel = k + 1 := ⟨fuel - 1, by simp at hf; omega⟩
      have hh : h = 0 := hl
      rw [List.append_nil]
      exact ⟨best, by rw [bestInPage, if_pos hh], hb⟩
  | cons b l ih =>
      obtain ⟨fuel, rfl⟩ : ∃ k, fuel = k + 1 := ⟨fuel - 1, by simp at hf; omega⟩
      obtain ⟨rfl, hne, _, ht⟩ := hl
      have hsize' : ∀ c ∈ l, Slob.size m c < 0xFFFFFFFF :=
        fun c hc => hsize c (List.mem_cons_of_mem h hc)
      have hf' : l.length < fuel := by
        simp at hf
        omega
      have hsplit : seen ++ h :: l = (seen ++ [h]) ++ l := by simp
      rw [bestInPage, if_neg hne, hsplit]
      split
      · next hfit =>
          have htake := hb.take hfit.1 hfit.2
          split
          · next he => exact ⟨_, rfl, htake.exact hs he l⟩
          · exact ih ht hf' hsize' htake
      · next hno => exact ih ht hf' hsize' (hb.pass (hsize h List.mem_cons_self) hno)

/-- A free block is no larger than its page. -/
theorem PageInv.size_lt {bs : List SlobBlock} (h : PageInv m P bs) (hb : b ∈ freeAddrs bs) :
    Slob.size m b < 0xFFFFFFFF := by
  obtain ⟨x, hx, _, rfl⟩ := mem_freeAddrs.mp hb
  have hbounds := h.layout.tiles.bounds hx
  rw [h.layout.size x hx]
  unfold sizeofSlobPage slobBlockSize at hbounds
  omega

/-- A free list is shorter than there are addresses. -/
theorem PageInv.freeAddrs_lt {bs : List SlobBlock} (h : PageInv m P bs) :
    (freeAddrs bs).length < turns := by
  have h₁ := h.layout.tiles.length_le
  have h₂ := length_freeAddrs_le bs
  have h₃ := h.inSpace
  unfold turns
  omega

/-- The search through the pages. -/
theorem bestInPages_spec {p h fuel : Nat} (hs : size < 0xFFFFFFFF)
    (hl : Dll 0 (pageNext m) (pagePrev m) p h l) (hf : l.length < fuel)
    (hpage : ∀ P ∈ l, PageInv m P (bs P)) (hb : SmallestFit m size seen best) :
    ∃ r, bestInPages m size fuel h best = some r.1 ∧
      SmallestFit m size (seen ++ l.flatMap fun P => freeAddrs (bs P)) r := by
  induction l generalizing p h fuel best seen with
  | nil =>
      obtain ⟨fuel, rfl⟩ : ∃ k, fuel = k + 1 := ⟨fuel - 1, by simp at hf; omega⟩
      have hh : h = 0 := hl
      rw [List.flatMap_nil, List.append_nil]
      exact ⟨best, by rw [bestInPages, if_pos hh], hb⟩
  | cons P l ih =>
      obtain ⟨fuel, rfl⟩ : ∃ k, fuel = k + 1 := ⟨fuel - 1, by simp at hf; omega⟩
      obtain ⟨rfl, hne, _, ht⟩ := hl
      have hP := hpage h List.mem_cons_self
      obtain ⟨r, hr, hfit⟩ := bestInPage_spec hs hP.layout.list hP.freeAddrs_lt
        (fun b hb => hP.size_lt hb) hb
      rw [bestInPages, if_neg hne, hr, List.flatMap_cons, ← List.append_assoc]
      simp only [Option.bind_eq_bind, Option.bind_some]
      split
      · next he => exact ⟨r, rfl, hfit.exact hs he _⟩
      · exact ih ht (by simp at hf; omega) (fun Q hQ => hpage Q (List.mem_cons_of_mem h hQ)) hfit

/-- A free block of one of the pages. -/
def FreeIn (z : Slob) (bs : Nat → List SlobBlock) (x : SlobBlock) : Prop :=
  ∃ P ∈ z.held, x ∈ bs P ∧ x.live = false

/-- A smallest of the free blocks with room for `size`. -/
def BestFit (z : Slob) (bs : Nat → List SlobBlock) (size : Nat) (x : SlobBlock) : Prop :=
  FreeIn z bs x ∧ size ≤ x.size ∧ ∀ y, FreeIn z bs y → size ≤ y.size → x.size ≤ y.size

theorem Pages.length_lt_turns (h : Pages z bs) : z.held.length < turns :=
  length_lt h.disjoint (fun P hP => (h.page P hP).inSpace)

/-- The addresses a search goes through are those of the free blocks. -/
theorem Pages.mem_free (h : Pages z bs) (hb : b ∈ z.held.flatMap fun P => freeAddrs (bs P)) :
    ∃ x, FreeIn z bs x ∧ x.addr = b ∧ Slob.size z.mem b = x.size ∧ b ≠ 0 := by
  obtain ⟨P, hP, hb⟩ := List.mem_flatMap.mp hb
  obtain ⟨x, hx, hlive, rfl⟩ := mem_freeAddrs.mp hb
  have hlay := (h.page P hP).layout
  exact ⟨x, ⟨P, hP, hx, hlive⟩, rfl, hlay.size x hx, hlay.addr_ne_zero hx⟩

theorem FreeIn.mem {x : SlobBlock} (hx : FreeIn z bs x) :
    x.addr ∈ z.held.flatMap fun P => freeAddrs (bs P) := by
  obtain ⟨P, hP, hx, hlive⟩ := hx
  exact List.mem_flatMap.mpr ⟨P, hP, mem_freeAddrs.mpr ⟨x, hx, hlive, rfl⟩⟩

theorem FreeIn.size_eq {x : SlobBlock} (h : Pages z bs) (hx : FreeIn z bs x) :
    Slob.size z.mem x.addr = x.size := by
  obtain ⟨P, hP, hx, _⟩ := hx
  exact (h.page P hP).layout.size x hx

/-- **`find_free_block`** ends, with null when no free block has room, and else
with a smallest of those that have. -/
theorem Pages.findFreeBlock (h : Pages z bs) (hs : size < 0xFFFFFFFF) :
    ∃ r, z.findFreeBlock size = some r ∧
      ((r = 0 ∧ ∀ x, FreeIn z bs x → x.size < size) ∨
        (r ≠ 0 ∧ ∃ x, BestFit z bs size x ∧ x.addr = r)) := by
  obtain ⟨r, hr, hfit⟩ := bestInPages_spec hs h.list h.length_lt_turns h.page
    (SmallestFit.start z.mem size)
  rw [List.nil_append] at hfit
  refine ⟨r.1, hr, ?_⟩
  rcases hfit with ⟨rfl, hnone⟩ | ⟨hmem, hsize, hle, hmin⟩
  · refine Or.inl ⟨rfl, fun x hx => ?_⟩
    have := hnone x.addr hx.mem
    rwa [hx.size_eq h] at this
  · obtain ⟨x, hx, hxa, hxs, hne⟩ := h.mem_free hmem
    rw [hsize, hxs] at hle
    refine Or.inr ⟨hne, x, ⟨hx, hle, fun y hy hfit => ?_⟩, hxa⟩
    have := hmin y.addr hy.mem
    rw [hy.size_eq h, hsize, hxs] at this
    exact this hfit

/-! ## The page of a block -/

/-- **The search for a block's page** ends, at the page it lies in. -/
theorem findPageLoop_eq {p h fuel : Nat} (hl : Dll 0 (pageNext m) (pagePrev m) p h l)
    (hf : l.length < fuel)
    (hpage : ∀ Q ∈ l, pageAddr m Q = Q ∧ totalSize m Q = slobBlockSize ∧ Q + slobBlockSize < wordSize)
    (hP : P ∈ l) (ha : P ≤ a ∧ a < P + slobBlockSize)
    (huniq : ∀ Q ∈ l, Q ≤ a ∧ a < Q + slobBlockSize → Q = P) :
    findPageLoop m a fuel h = some P := by
  have hsearch : findPageLoop m a fuel h =
      some ((l.find? fun Q => Q ≤ a ∧ a < Q + slobBlockSize).getD 0) := by
    refine hl.sll.search (f := findPageLoop m a) hf (fun _ => if_pos rfl) ?_
    intro fuel Q hQ hQ0
    obtain ⟨haddr, htotal, hspace⟩ := hpage Q hQ
    simp only [decide_eq_true_eq]
    rw [findPageLoop, if_neg hQ0, haddr, htotal, add32_eq hspace]
  rw [hsearch, find?_getD_of_unique (p := fun Q => Q ≤ a ∧ a < Q + slobBlockSize) (decide_eq_true ha)
    fun Q hQ h => huniq Q hQ (of_decide_eq_true h), if_pos hP]

/-- It does so also after a page has been written to. -/
theorem Pages.findPage_within (h : Pages z bs) (hQ : Q ∈ z.held) (hw : Within 8 Q z.mem m')
    (hP : P ∈ z.held) (ha : P ≤ a ∧ a < P + slobBlockSize) :
    findPage { z with mem := m' } a = some P := by
  refine findPageLoop_eq (h.list_within hQ hw) h.length_lt_turns (fun R hR => ?_) hP ha
    (fun _ hR hRa => h.page_unique hR hP hRa ha)
  have hpg := h.page R hR
  exact ⟨(h.words_within hQ hw hR (Or.inl (by decide))).trans hpg.addr,
    (h.words_within hQ hw hR (Or.inl (by decide))).trans hpg.total, hpg.inSpace⟩

end Slob

end KmOS
