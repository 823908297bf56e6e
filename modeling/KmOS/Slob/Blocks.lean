/-
# `KmOS.Slob.Blocks` — the blocks of one page

A page is cut into blocks without gaps (`Tiles`).  `Layout m P bs` says that
the memory `m` spells out the blocks `bs` in the page at `P`: their headers
hold their sizes, the live ones carry the magic number, and the free ones are
linked in order of address.

`split_block`, `remove_free_block`, `add_free_block` and `merge_free_blocks`
each rewrite a few header words.  Every one is described by what it does to the
list of blocks, and by the bytes it leaves alone (`Within`).
-/
import KmOS.Lib.Dll
import KmOS.Slob.Model

namespace KmOS

/-- A block: where it starts, its bytes with the header, and whether a client
holds it. -/
structure SlobBlock where
  addr : Nat
  size : Nat
  live : Bool
  deriving DecidableEq

namespace Slob

variable {m m' : Memory} {P a b c e v : Nat} {bs pre post : List SlobBlock}

/-! ## Tilings -/

/-- The blocks fill `[a, e)`, one after the other. -/
def Tiles : Nat → List SlobBlock → Nat → Prop
  | a, [], e => a = e
  | a, b :: bs, e => b.addr = a ∧ sizeofSlobBlock ≤ b.size ∧ Tiles (a + b.size) bs e

theorem tiles_append {xs ys : List SlobBlock} :
    Tiles a (xs ++ ys) e ↔ ∃ c, Tiles a xs c ∧ Tiles c ys e := by
  induction xs generalizing a with
  | nil => exact ⟨fun h => ⟨a, rfl, h⟩, fun ⟨_, h₁, h₂⟩ => by cases h₁; exact h₂⟩
  | cons x xs ih =>
      constructor
      · rintro ⟨ha, hs, ht⟩
        obtain ⟨c, h₁, h₂⟩ := ih.mp ht
        exact ⟨c, ⟨ha, hs, h₁⟩, h₂⟩
      · rintro ⟨c, ⟨ha, hs, h₁⟩, h₂⟩
        exact ⟨ha, hs, ih.mpr ⟨c, h₁, h₂⟩⟩

theorem Tiles.le (h : Tiles a bs e) : a ≤ e := by
  induction bs generalizing a with
  | nil => exact Nat.le_of_eq h
  | cons b bs ih =>
      have := ih h.2.2
      omega

/-- Every block lies inside. -/
theorem Tiles.bounds (h : Tiles a bs e) {x : SlobBlock} (hx : x ∈ bs) :
    a ≤ x.addr ∧ x.addr + x.size ≤ e ∧ sizeofSlobBlock ≤ x.size := by
  induction bs generalizing a with
  | nil => exact nomatch hx
  | cons b bs ih =>
      obtain ⟨ha, hs, ht⟩ := h
      have hle := ht.le
      rcases List.mem_cons.mp hx with rfl | hx
      · exact ⟨by omega, by omega, hs⟩
      · obtain ⟨h₁, h₂, h₃⟩ := ih ht hx
        exact ⟨by omega, h₂, h₃⟩

/-- A later block starts where an earlier one has ended. -/
theorem Tiles.pairwise (h : Tiles a bs e) :
    bs.Pairwise (fun x y => x.addr + x.size ≤ y.addr) := by
  induction bs generalizing a with
  | nil => exact List.Pairwise.nil
  | cons b bs ih =>
      obtain ⟨ha, _, ht⟩ := h
      refine List.pairwise_cons.mpr ⟨fun y hy => ?_, ih ht⟩
      rw [ha]
      exact (ht.bounds hy).1

/-- Two blocks of a tiling are one, or lie apart. -/
theorem Tiles.apart (h : Tiles a bs e) {x y : SlobBlock} (hx : x ∈ bs) (hy : y ∈ bs) :
    x = y ∨ x.addr + x.size ≤ y.addr ∨ y.addr + y.size ≤ x.addr := by
  induction bs generalizing a with
  | nil => exact nomatch hx
  | cons b bs ih =>
      have hlater := (List.pairwise_cons.mp h.pairwise).1
      rcases List.mem_cons.mp hx with rfl | hx'
      · rcases List.mem_cons.mp hy with rfl | hy'
        · exact Or.inl rfl
        · exact Or.inr (Or.inl (hlater y hy'))
      · rcases List.mem_cons.mp hy with rfl | hy'
        · exact Or.inr (Or.inr (hlater x hx'))
        · exact ih h.2.2 hx' hy'

theorem Tiles.apart_headers (h : Tiles a bs e) {x y : SlobBlock} (hx : x ∈ bs) (hy : y ∈ bs) :
    Memory.Apart sizeofSlobBlock x.addr y.addr := by
  have hx' := (h.bounds hx).2.2
  have hy' := (h.bounds hy).2.2
  rcases h.apart hx hy with rfl | h | h
  · exact Or.inl rfl
  · exact Or.inr (Or.inl (by omega))
  · exact Or.inr (Or.inr (by omega))

theorem Tiles.eq_of_addr_eq (h : Tiles a bs e) {x y : SlobBlock} (hx : x ∈ bs) (hy : y ∈ bs)
    (hxy : x.addr = y.addr) : x = y := by
  have hx' := (h.bounds hx).2.2
  have hy' := (h.bounds hy).2.2
  unfold sizeofSlobBlock at hx' hy'
  rcases h.apart hx hy with h | h | h
  · exact h
  · omega
  · omega

/-- In front of a block stand the blocks that end before it. -/
theorem Tiles.before {x y : SlobBlock} (h : Tiles a (pre ++ x :: post) e) (hy : y ∈ pre) :
    y.addr + y.size ≤ x.addr :=
  (List.pairwise_append.mp h.pairwise).2.2 y hy x List.mem_cons_self

/-- Behind a block stand the blocks that start after its end. -/
theorem Tiles.after {x y : SlobBlock} (h : Tiles a (pre ++ x :: post) e) (hy : y ∈ post) :
    x.addr + x.size ≤ y.addr :=
  (List.pairwise_cons.mp (List.pairwise_append.mp h.pairwise).2.1).1 y hy

/-- The other blocks of a tiling start elsewhere. -/
theorem Tiles.others {x y : SlobBlock} (h : Tiles a (pre ++ x :: post) e) (hy : y ∈ pre ++ post) :
    y ∈ pre ++ x :: post ∧ y.addr ≠ x.addr := by
  have hy' : y ∈ pre ++ x :: post := by
    rcases List.mem_append.mp hy with hy | hy <;> simp [hy]
  have hsize := (h.bounds hy').2.2
  have hsize' := (h.bounds (List.mem_append_right pre (List.mem_cons_self (a := x) (l := post)))).2.2
  unfold sizeofSlobBlock at hsize hsize'
  rcases List.mem_append.mp hy with hy | hy
  · have := h.before hy
    exact ⟨hy', by omega⟩
  · have := h.after hy
    exact ⟨hy', by omega⟩

/-- Whether a block is live does not matter to the tiling. -/
theorem Tiles.relabel {s : Nat} {l : Bool} (h : Tiles a (pre ++ ⟨b, s, l⟩ :: post) e) (l' : Bool) :
    Tiles a (pre ++ ⟨b, s, l'⟩ :: post) e := by
  obtain ⟨c, h₁, h₂⟩ := tiles_append.mp h
  exact tiles_append.mpr ⟨c, h₁, h₂⟩

theorem mem_replace {x' y : SlobBlock} (hy : y ∈ pre ++ x' :: post) :
    y = x' ∨ y ∈ pre ++ post := by
  rcases List.mem_append.mp hy with hy | hy
  · exact Or.inr (List.mem_append_left post hy)
  · rcases List.mem_cons.mp hy with rfl | hy
    · exact Or.inl rfl
    · exact Or.inr (List.mem_append_right pre hy)

/-! ## Free and live blocks -/

/-- The addresses of the free blocks, in order. -/
def freeAddrs (bs : List SlobBlock) : List Nat := (bs.filter (fun b => !b.live)).map SlobBlock.addr

/-- The bytes of the free blocks. -/
def freeBytes (bs : List SlobBlock) : Nat :=
  ((bs.filter (fun b => !b.live)).map SlobBlock.size).sum

/-- The bytes of the live blocks. -/
def liveBytes (bs : List SlobBlock) : Nat :=
  ((bs.filter (fun b => b.live)).map SlobBlock.size).sum

/-- No free block is followed by another. -/
def NoAdjacent (bs : List SlobBlock) : Prop :=
  bs.IsChain (fun x y => x.live = true ∨ y.live = true)

theorem freeAddrs_append (xs ys : List SlobBlock) :
    freeAddrs (xs ++ ys) = freeAddrs xs ++ freeAddrs ys := by
  simp [freeAddrs]

theorem freeAddrs_cons_free {x : SlobBlock} (hx : x.live = false) (xs : List SlobBlock) :
    freeAddrs (x :: xs) = x.addr :: freeAddrs xs := by
  simp [freeAddrs, hx]

theorem freeAddrs_cons_live {x : SlobBlock} (hx : x.live = true) (xs : List SlobBlock) :
    freeAddrs (x :: xs) = freeAddrs xs := by
  simp [freeAddrs, hx]

theorem mem_freeAddrs : a ∈ freeAddrs bs ↔ ∃ x ∈ bs, x.live = false ∧ x.addr = a := by
  simp only [freeAddrs, List.mem_map, List.mem_filter, Bool.not_eq_true', and_assoc]

/-- The free list of a tiling is strictly increasing. -/
theorem Tiles.freeAddrs_sorted (h : Tiles a bs e) : (freeAddrs bs).Pairwise (· < ·) := by
  have hpos : ∀ x ∈ bs, 0 < x.size := by
    intro x hx
    have := (h.bounds hx).2.2
    unfold sizeofSlobBlock at this
    omega
  refine List.pairwise_map.mpr (List.Pairwise.imp_of_mem ?_ (h.pairwise.sublist List.filter_sublist))
  intro x y hx _ hxy
  have := hpos x (List.mem_of_mem_filter hx)
  omega

theorem Tiles.freeAddrs_nodup (h : Tiles a bs e) : (freeAddrs bs).Nodup :=
  h.freeAddrs_sorted.imp (fun h => Nat.ne_of_lt h)

/-- Free and live bytes make up the whole. -/
theorem Tiles.bytes (h : Tiles a bs e) : a + (freeBytes bs + liveBytes bs) = e := by
  induction bs generalizing a with
  | nil => exact h
  | cons x xs ih =>
      have := ih h.2.2
      cases hx : x.live <;> simp [freeBytes, liveBytes, hx] at this ⊢ <;> omega

/-! ## Headers -/

/-- `struct slob_block`, as read at one address. -/
@[ext] structure BlockHeader where
  size : Nat
  magic : Nat
  next : Nat
  prev : Nat

/-- The header at `b`. -/
def header (m : Memory) (b : Nat) : BlockHeader := ⟨size m b, magic m b, next m b, prev m b⟩

/-- A header is decided by its sixteen bytes. -/
theorem header_congr (h : ∀ c, b ≤ c → c < b + sizeofSlobBlock → m' c = m c) :
    header m' b = header m b := by
  have h' : ∀ c, b ≤ c → c < b + 16 → m' c = m c := h
  ext <;> exact Memory.load32_congr (fun c h₁ h₂ => h' c (by omega) (by omega))

theorem header_setSize (h : Memory.Apart sizeofSlobBlock a b) (hv : v < wordSize) :
    header (setSize m a v) b = if b = a then { header m b with size := v } else header m b := by
  have hv' : v % 4294967296 = v := Nat.mod_eq_of_lt hv
  unfold header size magic next prev setSize
  simp (disch := decide) only [Memory.load32_store32_field h, hv']
  by_cases e : b = a <;> simp [e]

theorem header_setMagic (h : Memory.Apart sizeofSlobBlock a b) (hv : v < wordSize) :
    header (setMagic m a v) b = if b = a then { header m b with magic := v } else header m b := by
  have hv' : v % 4294967296 = v := Nat.mod_eq_of_lt hv
  unfold header size magic next prev setMagic
  simp (disch := decide) only [Memory.load32_store32_field h, hv']
  by_cases e : b = a <;> simp [e]

theorem header_setNext (h : Memory.Apart sizeofSlobBlock a b) (hv : v < wordSize) :
    header (setNext m a v) b = if b = a then { header m b with next := v } else header m b := by
  have hv' : v % 4294967296 = v := Nat.mod_eq_of_lt hv
  unfold header size magic next prev setNext
  simp (disch := decide) only [Memory.load32_store32_field h, hv']
  by_cases e : b = a <;> simp [e]

theorem header_setPrev (h : Memory.Apart sizeofSlobBlock a b) (hv : v < wordSize) :
    header (setPrev m a v) b = if b = a then { header m b with prev := v } else header m b := by
  have hv' : v % 4294967296 = v := Nat.mod_eq_of_lt hv
  unfold header size magic next prev setPrev
  simp (disch := decide) only [Memory.load32_store32_field h, hv']
  by_cases e : b = a <;> simp [e]

/-- `if (n) n->prev = v`, for a header that is not at null. -/
theorem header_setPrev_if {n : Nat} (hb : b ≠ 0) (h : n ≠ 0 → Memory.Apart sizeofSlobBlock n b)
    (hv : v < wordSize) :
    header (if n ≠ 0 then setPrev m n v else m) b =
      if b = n then { header m b with prev := v } else header m b := by
  split
  · next hn => exact header_setPrev (h hn) hv
  · next hn =>
      have hbn : b ≠ n := fun e => hn (e ▸ hb)
      rw [if_neg hbn]

/-- `if (p) p->next = v`, likewise. -/
theorem header_setNext_if {n : Nat} (hb : b ≠ 0) (h : n ≠ 0 → Memory.Apart sizeofSlobBlock n b)
    (hv : v < wordSize) :
    header (if n ≠ 0 then setNext m n v else m) b =
      if b = n then { header m b with next := v } else header m b := by
  split
  · next hn => exact header_setNext (h hn) hv
  · next hn =>
      have hbn : b ≠ n := fun e => hn (e ▸ hb)
      rw [if_neg hbn]

/-- The four stores that make a header. -/
theorem header_init {sz mg nx pv : Nat} (h : Memory.Apart sizeofSlobBlock a b) (hsz : sz < wordSize)
    (hmg : mg < wordSize) (hnx : nx < wordSize) (hpv : pv < wordSize) :
    header (setPrev (setNext (setMagic (setSize m a sz) a mg) a nx) a pv) b =
      if b = a then ⟨sz, mg, nx, pv⟩ else header m b := by
  rw [header_setPrev h hpv, header_setNext h hnx, header_setMagic h hmg, header_setSize h hsz]
  split <;> rfl

/-- Words of the page's own header, outside every block. -/
theorem load32_page_store {k : Nat} (hk : k + 4 ≤ sizeofSlobPage) (ha : P + sizeofSlobPage ≤ a) :
    (m.store32 a v).load32 (P + k) = m.load32 (P + k) :=
  Memory.load32_store32_of_disjoint (by omega)

theorem header_page_store {k : Nat} (hk : k + 4 ≤ sizeofSlobPage) (hb : P + sizeofSlobPage ≤ b) :
    header (m.store32 (P + k) v) b = header m b :=
  header_congr (fun _ h₁ _ => Memory.store32_eq_of_outside (by omega))

theorem next_lt (m : Memory) (b : Nat) : next m b < wordSize := Memory.load32_lt m (b + 8)

theorem prev_lt (m : Memory) (b : Nat) : prev m b < wordSize := Memory.load32_lt m (b + 12)

/-! ## What an operation leaves alone -/

/-- `m'` differs from `m` only inside the page at `P`: from offset `lo` of its
header on, its links to other pages excepted. -/
def Within (lo P : Nat) (m m' : Memory) : Prop :=
  ∀ c, c < P + lo ∨ (P + 20 ≤ c ∧ c < P + sizeofSlobPage) ∨ P + slobBlockSize ≤ c → m' c = m c

theorem Within.refl (lo P : Nat) (m : Memory) : Within lo P m m := fun _ _ => rfl

theorem Within.trans {lo : Nat} {m₁ m₂ m₃ : Memory} (h : Within lo P m₁ m₂)
    (h' : Within lo P m₂ m₃) : Within lo P m₁ m₃ :=
  fun c hc => (h' c hc).trans (h c hc)

theorem Within.mono {lo lo' : Nat} (h : Within lo P m m') (hlo : lo' ≤ lo) : Within lo' P m m' :=
  fun c hc => h c (by omega)

/-- A store behind the page's header. -/
theorem Within.store_block {lo : Nat} (h : Within lo P m m') (ha : P + sizeofSlobPage ≤ a)
    (ha' : a + 4 ≤ P + slobBlockSize) (hlo : lo ≤ 20) : Within lo P m (m'.store32 a v) := by
  refine h.trans (fun c hc => Memory.store32_eq_of_outside ?_)
  unfold sizeofSlobPage at *
  omega

/-- A store into the page's header. -/
theorem Within.store_page {lo k : Nat} (h : Within lo P m m') (hk : lo ≤ k) (hk' : k + 4 ≤ 20) :
    Within lo P m (m'.store32 (P + k) v) := by
  refine h.trans (fun c hc => Memory.store32_eq_of_outside ?_)
  unfold sizeofSlobPage slobBlockSize at *
  omega

/-- A header at `a` lies in the page, behind the page's own. -/
def InPage (P a : Nat) : Prop := P + sizeofSlobPage ≤ a ∧ a + sizeofSlobBlock ≤ P + slobBlockSize

theorem Within.setSize {lo : Nat} (h : Within lo P m m') (ha : InPage P a) (hlo : lo ≤ 20) :
    Within lo P m (Slob.setSize m' a v) :=
  h.store_block (by unfold InPage at ha; omega)
    (by unfold InPage sizeofSlobBlock at ha; omega) hlo

theorem Within.setMagic {lo : Nat} (h : Within lo P m m') (ha : InPage P a) (hlo : lo ≤ 20) :
    Within lo P m (Slob.setMagic m' a v) :=
  h.store_block (by unfold InPage at ha; omega)
    (by unfold InPage sizeofSlobBlock at ha; omega) hlo

theorem Within.setNext {lo : Nat} (h : Within lo P m m') (ha : InPage P a) (hlo : lo ≤ 20) :
    Within lo P m (Slob.setNext m' a v) :=
  h.store_block (by unfold InPage at ha; omega)
    (by unfold InPage sizeofSlobBlock at ha; omega) hlo

theorem Within.setPrev {lo : Nat} (h : Within lo P m m') (ha : InPage P a) (hlo : lo ≤ 20) :
    Within lo P m (Slob.setPrev m' a v) :=
  h.store_block (by unfold InPage at ha; omega)
    (by unfold InPage sizeofSlobBlock at ha; omega) hlo

theorem Within.setPrev_if {lo n : Nat} (h : Within lo P m m') (ha : n ≠ 0 → InPage P n)
    (hlo : lo ≤ 20) : Within lo P m (if n ≠ 0 then Slob.setPrev m' n v else m') := by
  split
  · next hn => exact h.setPrev (ha hn) hlo
  · exact h

theorem Within.setNext_if {lo n : Nat} (h : Within lo P m m') (ha : n ≠ 0 → InPage P n)
    (hlo : lo ≤ 20) : Within lo P m (if n ≠ 0 then Slob.setNext m' n v else m') := by
  split
  · next hn => exact h.setNext (ha hn) hlo
  · exact h

/-- The memory spells out the blocks `bs` of the page at `P`. -/
structure Layout (m : Memory) (P : Nat) (bs : List SlobBlock) : Prop where
  tiles : Tiles (P + sizeofSlobPage) bs (P + slobBlockSize)
  size : ∀ x ∈ bs, Slob.size m x.addr = x.size
  magic : ∀ x ∈ bs, x.live = true → Slob.magic m x.addr = slobMagic
  list : Dll 0 (next m) (prev m) 0 (freeList m P) (freeAddrs bs)

theorem Layout.inPage (h : Layout m P bs) {x : SlobBlock} (hx : x ∈ bs) : InPage P x.addr := by
  have hb := h.tiles.bounds hx
  exact ⟨hb.1, by omega⟩

theorem Layout.addr_ne_zero (h : Layout m P bs) {x : SlobBlock} (hx : x ∈ bs) : x.addr ≠ 0 := by
  have := (h.inPage hx).1
  unfold sizeofSlobPage at this
  omega

theorem Layout.inPage_free (h : Layout m P bs) (ha : a ∈ freeAddrs bs) : InPage P a := by
  obtain ⟨x, hx, _, rfl⟩ := mem_freeAddrs.mp ha
  exact h.inPage hx

theorem Layout.apart_free (h : Layout m P bs) (ha : a ∈ freeAddrs bs) {y : SlobBlock}
    (hy : y ∈ bs) : Memory.Apart sizeofSlobBlock a y.addr := by
  obtain ⟨x, hx, _, rfl⟩ := mem_freeAddrs.mp ha
  exact h.tiles.apart_headers hx hy

/-- The `next` link of a free block is null or a free block. -/
theorem Layout.next_mem_free (h : Layout m P bs) (ha : a ∈ freeAddrs bs) (hn : next m a ≠ 0) :
    next m a ∈ freeAddrs bs :=
  (h.list.next_mem ha).resolve_left hn

/-- The `prev` link of a free block is null or a free block. -/
theorem Layout.prev_mem_free (h : Layout m P bs) (ha : a ∈ freeAddrs bs) (hn : prev m a ≠ 0) :
    prev m a ∈ freeAddrs bs :=
  (h.list.prev_mem ha).resolve_left (fun e => hn e.2)

/-- **A stretch of a page laid out anew.**  The blocks before and behind it keep
size and mark, the new ones have theirs, and the free list fits. -/
theorem Layout.rebuild (h : Layout m P bs) (mid : List SlobBlock)
    (ht : Tiles (P + sizeofSlobPage) (pre ++ (mid ++ post)) (P + slobBlockSize))
    (hkeep : ∀ y ∈ pre ++ post, y ∈ bs ∧ Slob.size m' y.addr = Slob.size m y.addr ∧
      Slob.magic m' y.addr = Slob.magic m y.addr)
    (hmid : ∀ y ∈ mid, Slob.size m' y.addr = y.size ∧
      (y.live = true → Slob.magic m' y.addr = slobMagic))
    (hl : Dll 0 (next m') (prev m') 0 (freeList m' P) (freeAddrs (pre ++ (mid ++ post)))) :
    Layout m' P (pre ++ (mid ++ post)) := by
  have hold : ∀ y ∈ pre ++ post, Slob.size m' y.addr = y.size ∧
      (y.live = true → Slob.magic m' y.addr = slobMagic) := by
    intro y hy
    obtain ⟨hmem, hsize, hmagic⟩ := hkeep y hy
    exact ⟨hsize.trans (h.size y hmem), fun hlive => hmagic.trans (h.magic y hmem hlive)⟩
  have hall : ∀ y ∈ pre ++ (mid ++ post), Slob.size m' y.addr = y.size ∧
      (y.live = true → Slob.magic m' y.addr = slobMagic) := by
    intro y hy
    rcases List.mem_append.mp hy with hy | hy
    · exact hold y (List.mem_append_left post hy)
    · rcases List.mem_append.mp hy with hy | hy
      · exact hmid y hy
      · exact hold y (List.mem_append_right pre hy)
  exact ⟨ht, fun y hy => (hall y hy).1, fun y hy => (hall y hy).2, hl⟩

/-- The link of a free block leads to a free block behind it, if anywhere. -/
theorem Layout.next_free {x : SlobBlock} (h : Layout m P (pre ++ x :: post)) (hx : x.live = false) :
    Dll 0 (next m) (prev m) x.addr (next m x.addr) (freeAddrs post) := by
  have hl := h.list
  rw [freeAddrs_append, freeAddrs_cons_free hx] at hl
  exact hl.drop

theorem Layout.next_mem {x : SlobBlock} (h : Layout m P (pre ++ x :: post)) (hx : x.live = false)
    (hn : next m x.addr ≠ 0) : ∃ y ∈ post, y.live = false ∧ y.addr = next m x.addr := by
  obtain ⟨t, ht⟩ := (h.next_free hx).exists_cons hn
  exact mem_freeAddrs.mp (by rw [ht]; exact List.mem_cons_self)

/-- A layout reads the head of the free list and the headers of its blocks. -/
theorem Layout.congr_headers (h : Layout m P bs) (hfl : freeList m' P = freeList m P)
    (hhead : ∀ x ∈ bs, header m' x.addr = header m x.addr) : Layout m' P bs := by
  refine ⟨h.tiles, fun x hx => ?_, fun x hx hx' => ?_, ?_⟩
  · exact (congrArg BlockHeader.size (hhead x hx)).trans (h.size x hx)
  · exact (congrArg BlockHeader.magic (hhead x hx)).trans (h.magic x hx hx')
  · rw [hfl]
    refine h.list.congr (fun b hb => ?_)
    obtain ⟨x, hx, _, rfl⟩ := mem_freeAddrs.mp hb
    exact ⟨congrArg BlockHeader.next (hhead x hx), congrArg BlockHeader.prev (hhead x hx)⟩

/-- In particular it lies in the page, the page's links excepted. -/
theorem Layout.congr (h : Layout m P bs)
    (hag : ∀ c, P + 16 ≤ c ∧ c < P + 20 ∨ P + sizeofSlobPage ≤ c ∧ c < P + slobBlockSize → m' c = m c) :
    Layout m' P bs := by
  refine h.congr_headers (Memory.load32_congr (fun c h₁ h₂ => hag c (by omega))) (fun x hx => ?_)
  have hb := h.tiles.bounds hx
  exact header_congr (fun c h₁ h₂ => hag c (by omega))

end Slob

end KmOS
