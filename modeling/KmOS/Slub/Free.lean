/-
# `KmOS.Slub.Free` — `cache_free` and `free`

An object given back goes to rest on the running CPU, or to its page, which is
found by its address; a page that has all its objects back is given up if the
cache has another one.  `free` finds the cache the same way.
-/
import KmOS.Slub.Alloc

namespace KmOS

namespace SlubAllocator

variable {z z' : SlubAllocator} {cs : List Nat} {live blocks : List (Nat × Nat)} {g : Ghost}
  {a c o : Nat}

/-! ## The search for a page -/

/-- The loop returns the first page that has the object. -/
theorem findPageLoop_eq {l : List Nat} {head fuel : Nat} (hl : Sll 0 (pageNext z) head l)
    (hfuel : l.length < fuel) (hok : ∀ b ∈ l, (c, b) ∈ z.pages ∧ (arr z (c, b)).Fits) :
    z.findPageLoop o fuel head =
      some ((l.find? (fun b => decide ((arr z (c, b)).Has o))).getD 0) := by
  refine hl.search (f := z.findPageLoop o) hfuel (fun _ => if_pos rfl) ?_
  intro fuel b hb hb0
  have hadd : add32 (z.page b).pageBase (pageBytes (z.page b).order) =
      (z.page b).pageBase + pageBytes (z.page b).order := add32_eq (hok b hb).2.space
  simp only [decide_eq_true_eq]
  rw [findPageLoop, if_neg hb0, hadd]
  rfl

theorem SlubInv.findLoop (h : SlubInv z cs live blocks g a) (hc : c ∈ cs) (l : SlubList) (o : Nat) :
    z.findPageLoop o turns ((z.cache c).head l) =
      some (((g.lists (c, l)).find? (fun b => decide ((arr z (c, b)).Has o))).getD 0) := by
  refine findPageLoop_eq (h.lists.list (c, l) hc) (h.list_lt (i := (c, l)) hc) (fun b hb => ?_)
  have hp := (h.onList c hc b).mpr ⟨l, hb⟩
  exact ⟨hp, (h.pages.page _ hp).fits⟩

/-- **The page of an object is found.** -/
theorem SlubInv.findPage_some (h : SlubInv z cs live blocks g a) (hc : c ∈ cs) {b : Nat}
    (hb : (c, b) ∈ z.pages) (hin : (arr z (c, b)).Has o) {l k : SlubList} (hlk : l ≠ k) :
    z.findPage c o l k = some b := by
  have hb0 : b ≠ 0 := (h.pages.page _ hb).nonnull
  -- on the list that has the page nothing else is found, and on the other nothing at all
  have hfind : ∀ m, ((g.lists (c, m)).find? (fun x => decide ((arr z (c, x)).Has o))).getD 0 =
      if b ∈ g.lists (c, m) then b else 0 := by
    intro m
    have honly : ∀ x ∈ g.lists (c, m), (arr z (c, x)).Has o → x = b := by
      intro x hx hinx
      have hxp := (h.onList c hc x).mpr ⟨m, hx⟩
      exact congrArg Prod.snd (h.pages.page_unique hxp hb hinx hin)
    cases hres : (g.lists (c, m)).find? (fun x => decide ((arr z (c, x)).Has o)) with
    | none =>
        have hnot : b ∉ g.lists (c, m) := fun hm => by
          have := List.find?_eq_none.mp hres b hm
          exact this (by simpa using hin)
        rw [if_neg hnot]
        rfl
    | some x =>
        have hx := List.mem_of_find?_eq_some hres
        have hinx : (arr z (c, x)).Has o := by simpa using List.find?_some hres
        obtain rfl := honly x hx hinx
        rw [if_pos hx]
        rfl
  obtain ⟨m, hm⟩ := (h.onList c hc b).mp hb
  unfold findPage
  rw [h.findLoop hc l o, hfind l]
  show (if (if b ∈ g.lists (c, l) then b else 0) ≠ 0 then some (if b ∈ g.lists (c, l) then b else 0)
    else z.findPageLoop o turns ((z.cache c).head k)) = some b
  by_cases hl : b ∈ g.lists (c, l)
  · rw [if_pos hl, if_pos hb0]
  · have hk : b ∈ g.lists (c, k) := by
      have hmk : m = k := by
        cases m <;> cases l <;> cases k <;> first | rfl | exact absurd hm hl | exact absurd rfl hlk
      exact hmk ▸ hm
    rw [if_neg hl, if_neg (not_not.mpr rfl), h.findLoop hc k o, hfind k, if_pos hk]

/-- No page is found for an object of another cache, or of none. -/
theorem SlubInv.findPage_zero (h : SlubInv z cs live blocks g a) (hc : c ∈ cs)
    (hno : ∀ b, (c, b) ∈ z.pages → ¬ (arr z (c, b)).Has o) (l k : SlubList) :
    z.findPage c o l k = some 0 := by
  have hfind : ∀ m, ((g.lists (c, m)).find? (fun x => decide ((arr z (c, x)).Has o))).getD 0 = 0 := by
    intro m
    rw [List.find?_eq_none.mpr (fun x hx => ?_)]
    · rfl
    · have := hno x ((h.onList c hc x).mpr ⟨m, hx⟩)
      simpa using this
  unfold findPage
  rw [h.findLoop hc l o, hfind l]
  show (if (0 : Nat) ≠ 0 then some 0 else z.findPageLoop o turns ((z.cache c).head k)) = some 0
  rw [if_neg (not_not.mpr rfl), h.findLoop hc k o, hfind k]

/-! ## An object returns to its page -/

/-- The allocator after `free_to_page`, with the counter its caller updates. -/
def afterGive (z : SlubAllocator) (c a o : Nat) : SlubAllocator :=
  (z.freeToPage a o).modCache c fun s => { s with activeObjects := dec32 s.activeObjects }

theorem page_afterGive (z : SlubAllocator) (c a o b : Nat) :
    (z.afterGive c a o).page b = if b = a then { z.page a with
      freelist := o, inuse := dec32 (z.page a).inuse } else z.page b := by
  have hpage : (z.afterGive c a o).page b = (z.modPage a fun s => { s with
      freelist := o, inuse := dec32 s.inuse }).page b := rfl
  rw [hpage, page_modPage]

theorem cache_afterGive (z : SlubAllocator) (c a o d : Nat) :
    (z.afterGive c a o).cache d = if d = c then { z.cache c with
      activeObjects := dec32 (z.cache c).activeObjects } else z.cache d :=
  cache_modCache (z.freeToPage a o) c d _

theorem frame_afterGive (z : SlubAllocator) (c a o : Nat) : Frame z (z.afterGive c a o) := by
  have hpage : ∀ b, ∃ f n, (z.afterGive c a o).page b = { z.page b with freelist := f, inuse := n } := by
    intro b
    rw [page_afterGive]
    split
    · next e => exact ⟨_, _, by rw [e]⟩
    · exact ⟨_, _, rfl⟩
  have hcache : ∀ d, ∃ n, (z.afterGive c a o).cache d = { z.cache d with activeObjects := n } := by
    intro d
    rw [cache_afterGive]
    split
    · next e => exact ⟨_, by rw [e]⟩
    · exact ⟨_, rfl⟩
  refine ⟨rfl, rfl, rfl, rfl, rfl, fun b => ?_, fun b => ?_, fun b => ?_, fun d => ?_, fun d => ?_,
    fun d => ?_, fun d => ?_⟩
  · unfold pageNext
    obtain ⟨f, n, e⟩ := hpage b
    rw [e]
  · obtain ⟨f, n, e⟩ := hpage b
    rw [e]
  · obtain ⟨f, n, e⟩ := hpage b
    rw [e]
  · obtain ⟨n, e⟩ := hcache d
    rw [e]
  · obtain ⟨n, e⟩ := hcache d
    rw [e]
  · obtain ⟨n, e⟩ := hcache d
    rw [e]
    exact ⟨rfl, rfl, rfl⟩
  · obtain ⟨n, e⟩ := hcache d
    rw [e]

/-- **A client's object returns to its page.** -/
theorem SlubInv.giveObj (h : SlubInv z cs live blocks g 0) (hp : (c, a) ∈ z.pages)
    (ho : (c, o) ∈ live) (hin : (arr z (c, a)).Has o) :
    SlubInv (z.afterGive c a o) cs (live.erase (c, o)) blocks
      ⟨g.out.erase o, g.lists, Function.update g.fl a (o :: g.fl a), g.cf⟩ a ∧
    Carries z live g.out (z.afterGive c a o) (live.erase (c, o)) (g.out.erase o) := by
  have hok := h.pages.page _ hp
  have hout := h.cpu.live_out ho
  have hobj := hok.keeps.out_obj hout hin
  have hf := frame_afterGive z c a o
  have hself := (page_afterGive z c a o a).trans (if_pos rfl)
  have hu : OnePage z (z.afterGive c a o) (c, a) := by
    refine ⟨rfl, fun b hb => (page_afterGive z c a o b).trans (if_neg hb), fun d hd => ?_, hf.sizes,
      hf.base a, hf.order a, ?_, fun x hx => ?_⟩
    · rw [cache_afterGive, if_neg hd]
    · rw [hself]
    · refine (putsFree_setObject (by decide : 0 < wordSize)).other z.mem o _ x ?_
      have hb := hok.fits.bounds hobj
      have hsize := hok.fits.size
      unfold ObjArray.Has at hx
      omega
  have hpages : Pages (z.afterGive c a o) cs (g.out.erase o)
      (Function.update g.fl a (o :: g.fl a)) := by
    refine h.pages.give hp hout hin hu hself rfl ?_
    rw [cache_afterGive, if_pos rfl]
  have hcpu : Cpu (z.afterGive c a o) cs (live.erase (c, o)) (g.out.erase o) g.cf := by
    have hdrop := h.cpu.drop ho
    refine hdrop.congr (fun i _ => ?_) (fun i hi x hx => ?_) (fun d e x _ he hx => ⟨he, ?_⟩)
    · unfold cpuAt
      rw [cache_afterGive]
      split
      · next e => rw [e]
      · rfl
    · have hxo := hdrop.cf_out hi hx
      obtain ⟨q, hq, _, hobjx⟩ := h.pages.out_obj (List.mem_of_mem_erase hxo)
      refine h.pages.link_setObject hp hq hobj hobjx (fun e => ?_) (by decide)
      exact (h.pages.out_nodup.mem_erase_iff.mp hxo).1 e
    · rw [hu.arr_eq]
      exact hx
  have hmarked : Marked z live g.out →
      Marked (z.afterGive c a o) (live.erase (c, o)) (g.out.erase o) := by
    intro hm
    refine hm.put h.pages hp hobj (by decide : 0 < wordSize) rfl rfl hu.arr_eq (fun _ => rfl)
      (fun hno => absurd rfl (h.pages.out_nodup.mem_erase_iff.mp hno).1)
      (fun x hx => ⟨List.mem_erase_of_ne hx, ?_⟩)
    constructor
    · exact fun hm => (List.erase_sublist.map Prod.snd).subset hm
    · intro hm
      obtain ⟨q, hq, rfl⟩ := List.mem_map.mp hm
      exact List.mem_map.mpr ⟨q, (List.mem_erase_of_ne (fun e => hx (congrArg Prod.snd e))).mpr hq, rfl⟩
  have hquiet : Quiet z → Quiet (z.afterGive c a o) := by
    refine fun hq => hq.congr (fun i => ?_) hf.flags rfl
    unfold cpuAt
    rw [cache_afterGive]
    split
    · next e => rw [e]
    · rfl
  refine ⟨h.frame hf hpages hcpu (fun b hb0 hba => ⟨hb0, ?_, ?_⟩), ⟨hmarked, hquiet, hf.flags⟩⟩
  · rw [page_afterGive, if_neg hba]
  · rw [page_afterGive, if_neg hba]

/-! ## A page goes -/

theorem freeSlubPage_cache (z : SlubAllocator) (c a d : Nat) :
    ∃ n, (z.freeSlubPage c a).cache d = { z.cache d with totalPages := n } := by
  have heq : (z.freeSlubPage c a).cache d = (z.modCache c fun s => { s with
    totalPages := dec32 s.totalPages }).cache d := rfl
  rw [heq, cache_modCache]
  split
  · next e => exact ⟨_, by rw [e]⟩
  · exact ⟨_, rfl⟩

theorem sizes_freeSlubPage (z : SlubAllocator) (c a d : Nat) :
    SameSizes (z.cache d) ((z.freeSlubPage c a).cache d) := by
  obtain ⟨n, e⟩ := z.freeSlubPage_cache c a d
  rw [e]
  exact ⟨rfl, rfl, rfl⟩

theorem arr_freeSlubPage (z : SlubAllocator) (c a : Nat) (q : Nat × Nat) :
    arr (z.freeSlubPage c a) q = arr z q :=
  arr_congr ⟨rfl, rfl⟩ (z.sizes_freeSlubPage c a q.1)

theorem grows_freeSlubPage (z : SlubAllocator) (c a : Nat) (live : List (Nat × Nat)) (out : List Nat) :
    Grows z live out (z.freeSlubPage c a) live out := by
  have hflags : ∀ d, ((z.freeSlubPage c a).cache d).flags = (z.cache d).flags := by
    intro d
    obtain ⟨n, e⟩ := z.freeSlubPage_cache c a d
    rw [e]
  refine ⟨⟨fun hm => ⟨fun p hp x hx hno => ?_, hm.rest⟩, fun hq => ?_, hflags⟩, fun _ hx => hx⟩
  · rw [arr_freeSlubPage] at hx
    exact hm.free p (List.mem_of_mem_erase hp) x hx hno
  · refine hq.congr (fun i => ?_) hflags rfl
    obtain ⟨n, e⟩ := z.freeSlubPage_cache c a i.1
    unfold cpuAt
    rw [e]

theorem Pages.freeSlubPage {out : List Nat} {fl : Nat → List Nat} (h : Pages z cs out fl)
    (hp : (c, a) ∈ z.pages) (hzero : (z.page a).inuse = 0) :
    Pages (z.freeSlubPage c a) cs out fl := by
  refine h.destroy hp hzero rfl rfl rfl (z.sizes_freeSlubPage c a) (fun d => ?_)
  obtain ⟨n, e⟩ := z.freeSlubPage_cache c a d
  rw [e]

/-- The objects outside are in pages that are still there. -/
theorem Cpu.freeSlubPage {out : List Nat} {fl : Nat → List Nat} {cf : Nat × Nat → List Nat}
    (h : Cpu z cs live out cf) (hpages : Pages z cs out fl) (hp : (c, a) ∈ z.pages)
    (hzero : (z.page a).inuse = 0) : Cpu (z.freeSlubPage c a) cs live out cf := by
  refine h.congr (fun i _ => ?_) (fun _ _ _ _ => rfl) (fun d e x hx he hin => ⟨?_, ?_⟩)
  · obtain ⟨n, e⟩ := z.freeSlubPage_cache c a i.1
    unfold cpuAt
    rw [e]
  · obtain ⟨q, hq, hinq⟩ := (hpages.freeSlubPage hp hzero).out_page x hx
    rw [arr_freeSlubPage] at hinq
    rw [hpages.page_unique he (List.mem_of_mem_erase hq) hin hinq]
    exact hq
  · rw [arr_freeSlubPage]
    exact hin

/-- **A page with all objects back is given up.** -/
theorem SlubInv.releasePage (h : SlubInv z cs live blocks g 0) (hc : c ∈ cs)
    (ha : a ∈ g.lists (c, .partialPages)) (hzero : (z.page a).inuse = 0) :
    ∃ z₁ g', z.removePageFromList c .partialPages a = some z₁ ∧
      SlubInv (z₁.freeSlubPage c a) cs live blocks g' 0 ∧
      Grows z live g.out (z₁.freeSlubPage c a) live g'.out := by
  obtain ⟨z₁, hz₁, hs, hl⟩ := h.lists.remove (i := (c, .partialPages)) hc ha (h.list_lt hc)
  have hp : (c, a) ∈ z.pages := (h.onList c hc a).mpr ⟨_, ha⟩
  have hnd : z.pages.Nodup := List.Nodup.of_map _ h.pages.nodup
  have hp₁ : (c, a) ∈ z₁.pages := hs.pages ▸ hp
  have hzero₁ : (z₁.page a).inuse = 0 := by
    obtain ⟨n, e⟩ := hs.page a
    rw [e]
    exact hzero
  have hpages₁ : (z₁.freeSlubPage c a).pages = z.pages.erase (c, a) := by
    unfold freeSlubPage
    rw [← hs.pages]
    rfl
  refine ⟨z₁, ⟨g.out, Function.update g.lists (c, .partialPages)
    ((g.lists (c, .partialPages)).erase a), g.fl, g.cf⟩, hz₁, ⟨?_, h.nodup, h.small, ?_, ?_,
    fun d hd b => ?_, fun i hi b hb _ => ?_, (h.pages.same hs).freeSlubPage hp₁ hzero₁,
    (h.cpu.same hs).freeSlubPage (h.pages.same hs) hp₁ hzero₁, ?_⟩,
    (hs.grows live g.out).trans (z₁.grows_freeSlubPage c a live g.out)⟩
  · have hch : (z₁.freeSlubPage c a).cacheChain = z.cacheChain := hs.chain
    rw [hch]
    refine h.chain.congr (fun d _ => ?_)
    obtain ⟨n, e⟩ := z₁.freeSlubPage_cache c a d
    obtain ⟨f, k, e'⟩ := hs.cache d
    rw [e, e']
  · have hsz : (z₁.freeSlubPage c a).sizeCaches = z.sizeCaches := hs.sizeCaches
    rw [hsz]
    exact h.sizeCaches
  · refine hl.congr (fun d _ => ?_) (fun _ _ _ _ => rfl)
    obtain ⟨n, e⟩ := z₁.freeSlubPage_cache c a d
    rw [e]
  · rw [hpages₁, hnd.mem_erase_iff, h.onList d hd b]
    constructor
    · rintro ⟨hne, l, hm⟩
      refine ⟨l, (mem_erased h.lists (i := (c, .partialPages)) hc ha (k := (d, l)) hd).mpr
        ⟨fun e => hne ?_, hm⟩⟩
      subst e
      have := h.list_unique (i := (d, l)) (j := (c, .partialPages)) hd hc hm ha
      rw [show d = c from congrArg Prod.fst this]
    · rintro ⟨l, hm⟩
      obtain ⟨hne, hm⟩ := (mem_erased h.lists (i := (c, .partialPages)) hc ha (k := (d, l)) hd).mp hm
      exact ⟨fun e => hne (congrArg Prod.snd e), l, hm⟩
  · have hm := ((mem_erased h.lists (i := (c, .partialPages)) hc ha hi).mp hb).2
    obtain ⟨n, e⟩ := hs.page b
    have hb₁ : (z₁.freeSlubPage c a).page b = z₁.page b := rfl
    unfold Placed
    rw [hb₁, e]
    exact h.placed i hi b hm (h.ne_zero hi hm)
  · intro p hpm k hk
    have hpm' : p ∈ z.pages := List.mem_of_mem_erase (hpages₁ ▸ hpm)
    obtain ⟨n, e⟩ := hs.page p.2
    have hp₁ : (z₁.freeSlubPage c a).page p.2 = z₁.page p.2 := rfl
    unfold SlubHeap.pageLen
    rw [hp₁, e]
    exact h.blocks p hpm' k hk

/-! ## `cache_free` -/

/-- **A page with a free object is on the partial list**, where `cache_free` moves
it if it was full. -/
theorem SlubInv.moveIfRoom (h : SlubInv z cs live blocks g a) (hc : c ∈ cs) {l : SlubList}
    (hl : a ∈ g.lists (c, l)) (hlt : (z.page a).inuse < (z.page a).objects) {wasFull : Bool}
    (hwas : wasFull ↔ l = .fullPages) :
    ∃ z₁ g₁, z.moveIfRoom c a wasFull = some z₁ ∧ SlubInv z₁ cs live blocks g₁ 0 ∧
      a ∈ g₁.lists (c, .partialPages) ∧ Grows z live g.out z₁ live g₁.out := by
  have hpart : Placed z .partialPages a := ⟨nofun, fun e => absurd e (Nat.ne_of_lt hlt)⟩
  unfold SlubAllocator.moveIfRoom
  cases l with
  | fullPages =>
      rw [if_pos ⟨hwas.mpr rfl, hlt⟩]
      obtain ⟨z₁, hz₁, hs₁, hmem, hinv⟩ := h.move (k := .partialPages) hc hl (by decide) hpart
      exact ⟨_, ⟨g.out, moved g.lists (c, .fullPages) (c, .partialPages) a, g.fl, g.cf⟩,
        by rw [hz₁]; rfl, hinv, hmem, hs₁.grows _ _⟩
  | partialPages =>
      rw [if_neg (fun hh => nomatch hwas.mp hh.1)]
      exact ⟨_, g, rfl, h.stay hc hl hpart, hl, .refl _ _ _⟩

/-- A page with no object outside is given up, if there is another. -/
theorem SlubInv.releaseIfIdle (h : SlubInv z cs live blocks g 0) (hc : c ∈ cs)
    (ha : a ∈ g.lists (c, .partialPages)) :
    ∃ z' g', z.releaseIfIdle c a = some z' ∧ SlubInv z' cs live blocks g' 0 ∧
      Grows z live g.out z' live g'.out := by
  unfold SlubAllocator.releaseIfIdle
  by_cases hrel : (z.page a).inuse = 0 ∧ 1 < (z.cache c).totalPages
  · rw [if_pos hrel]
    obtain ⟨z₂, g₂, hz₂, h₂, hg₂⟩ := h.releasePage hc ha hrel.1
    exact ⟨_, g₂, by rw [hz₂]; rfl, h₂, hg₂⟩
  · rw [if_neg hrel]
    exact ⟨z, g, rfl, h, .refl _ _ _⟩

/-- `cache_free` once it has found the page. -/
def giveBack (c page : Nat) (wasFull : Bool) (z : SlubAllocator) : Option SlubAllocator :=
  (z.moveIfRoom c page wasFull).bind fun w => w.releaseIfIdle c page

theorem freeSlow_eq (z : SlubAllocator) (c o : Nat) :
    z.freeSlow c o = (z.findPage c o .fullPages .partialPages).bind fun page =>
      if page = 0 then some z
      else giveBack c page (decide ((z.page page).inuse = (z.page page).objects)) (z.afterGive c page o) :=
  rfl

/-- **`cache_free` to a page.** -/
theorem SlubInv.freeSlow (h : SlubInv z cs live blocks g 0) (hc : c ∈ cs) (ho : (c, o) ∈ live) :
    ∃ z' g', z.freeSlow c o = some z' ∧ SlubInv z' cs (live.erase (c, o)) blocks g' 0 ∧
      Carries z live g.out z' (live.erase (c, o)) g'.out ∧ ∀ x ∈ g.out, x ≠ o → x ∈ g'.out := by
  obtain ⟨a, hp, hin⟩ := h.cpu.owner (c, o) (List.mem_append_left _ ho)
  dsimp only at hp hin
  have hok := h.pages.page _ hp
  dsimp only at hok
  obtain ⟨hgive, hcarry⟩ := h.giveObj hp ho hin
  -- the page has an object outside, so the counter does not wrap
  have hout := h.cpu.live_out ho
  have hlen : 0 < ((arr z (c, a)).outOf g.out).length :=
    List.length_pos_of_mem (ObjArray.mem_outOf.mpr ⟨hout, hin⟩)
  have hself := (page_afterGive z c a o a).trans (if_pos rfl)
  have hlt : ((z.afterGive c a o).page a).inuse < ((z.afterGive c a o).page a).objects := by
    have hinuse := hok.inuse
    have hle := hok.inuse_le
    dsimp only at hinuse hle
    rw [hself]
    dsimp only
    rw [dec32_eq (by omega)]
    omega
  obtain ⟨l, hl⟩ := (h.onList c hc a).mp hp
  have hwas : decide ((z.page a).inuse = (z.page a).objects) ↔ l = .fullPages :=
    decide_eq_true_iff.trans (h.placed (c, l) hc a hl hok.nonnull).symm
  obtain ⟨z₁, g₁, hz₁, h₁, hmem, hg₁⟩ := hgive.moveIfRoom hc hl hlt hwas
  obtain ⟨z₂, g₂, hz₂, h₂, hg₂⟩ := h₁.releaseIfIdle hc hmem
  refine ⟨z₂, g₂, ?_, h₂, hcarry.trans (hg₁.trans hg₂).toCarries,
    fun x hx hne => (hg₁.trans hg₂).out x ((List.mem_erase_of_ne hne).mpr hx)⟩
  rw [freeSlow_eq, h.findPage_some hc hp hin (by decide), Option.bind_some, if_neg hok.nonnull]
  unfold giveBack
  rw [hz₁]
  exact hz₂

/-- **An object goes to rest** on the list of the CPU. -/
theorem SlubInv.restFree (h : SlubInv z cs live blocks g a) (hc : c ∈ cs) (ho : (c, o) ∈ live) :
    ∃ g', SlubInv (z.pushFree c o) cs (live.erase (c, o)) blocks g' a ∧ g'.out = g.out := by
  obtain ⟨b, hb, hin⟩ := h.cpu.owner (c, o) (List.mem_append_left _ ho)
  dsimp only at hb hin
  have hout := h.cpu.live_out ho
  have hok := h.pages.page _ hb
  have hobj := hok.keeps.out_obj hout hin
  have hnot : o ∉ g.out.erase o := fun hm => (h.pages.out_nodup.mem_erase_iff.mp hm).1 rfl
  have hcpu := ((h.cpu.drop ho).pushFree h.pages (fun x hx => List.mem_of_mem_erase hx) h.nodup hc hb
    hin hobj hnot).perm (List.perm_cons_erase hout).symm
  have hmemf : Frame z { z with mem := z.mem.store32 (o + 0) (z.cpuCache c).freelist } :=
    ⟨rfl, rfl, rfl, rfl, rfl, fun _ => rfl, fun _ => rfl, fun _ => rfl, fun _ => rfl, fun _ => rfl,
      fun _ => .refl _, fun _ => rfl⟩
  have hpages : Pages (z.pushFree c o) cs g.out g.fl := by
    refine Pages.modCpu (z := { z with mem := z.mem.store32 (o + 0) (z.cpuCache c).freelist }) ?_ c _ _
    refine h.pages.congr rfl (fun _ => .refl _) (fun _ => .refl _) (fun _ => rfl) (fun p hp x hx => ?_)
    -- a free object is not the one that was given back
    have hokp := h.pages.page p hp
    have hne : o ≠ x := fun e => hokp.keeps.not_out hokp.fits hx (e ▸ hout)
    have hap := h.pages.apart hb hp hobj (hokp.keeps.free_obj hx)
    have h₁ := hok.fits.size
    have h₂ := hokp.fits.size
    exact Memory.load32_store32_of_disjoint (by omega)
  exact ⟨_, h.frame (hmemf.trans (frame_modCpu _ c z.cpuIndex _)) hpages hcpu
    (fun b _ hb => ⟨hb, rfl, rfl⟩), rfl⟩

/-- The link is written, the magic word is not. -/
theorem SlubInv.grows_restFree (h : SlubInv z cs live blocks g a) (hper : percpu (z.cache c))
    (ho : (c, o) ∈ live) (hmagic : z.mem.mark o = slubMagic) :
    Grows z live g.out (z.pushFree c o) (live.erase (c, o)) g.out := by
  obtain ⟨b, hb, hin⟩ := h.cpu.owner (c, o) (List.mem_append_left _ ho)
  dsimp only at hb hin
  have hok := h.pages.page _ hb
  have hobj := hok.keeps.out_obj (h.cpu.live_out ho) hin
  have hmem : (z.pushFree c o).mem = z.mem.store32 (o + 0) (z.cpuCache c).freelist := rfl
  have hself : (z.pushFree c o).mem.mark o = z.mem.mark o := by
    rw [hmem]
    exact Memory.load32_store32_of_disjoint (by omega)
  refine ⟨⟨fun hm => ?_, fun hq => ?_, flags_modCpu _ c z.cpuIndex _⟩, fun _ hx => hx⟩
  · have hkeep : Marked (z.pushFree c o) live g.out := by
      refine hm.congr h.pages (fun p hp => hp) (fun p _ => arr_modCpu _ c z.cpuIndex _ p)
        (fun q hq x hx _ => ?_) (fun x hx => ?_)
      · by_cases e : x = o
        · rw [e]
          exact hself
        · have hap := h.pages.apart hb hq hobj hx
          have h₁ := hok.fits.size
          have h₂ := (h.pages.page _ hq).fits.size
          rw [hmem]
          exact Memory.load32_store32_of_disjoint (by omega)
      · obtain ⟨q, hq, rfl⟩ := List.mem_map.mp hx
        exact h.cpu.live_out (c := q.1) hq
    exact hkeep.drop (hself.trans hmagic)
  · have hq' : Quiet { z with mem := z.mem.store32 (o + 0) (z.cpuCache c).freelist } :=
      hq.congr (fun _ => rfl) (fun _ => rfl) rfl
    exact hq'.modCpu hper _

/-- **`cache_free`** of an object whose magic word is intact. -/
theorem SlubInv.cacheFree (h : SlubInv z cs live blocks g 0) (ho : (c, o) ∈ live)
    (hmagic : z.mem.mark o = slubMagic) :
    ∃ z' g', z.cacheFree c o = some z' ∧ SlubInv z' cs (live.erase (c, o)) blocks g' 0 ∧
      Carries z live g.out z' (live.erase (c, o)) g'.out ∧
      ∀ x ∈ g.out, x ≠ o ∨ percpu (z.cache c) → x ∈ g'.out := by
  obtain ⟨a, hp, hin⟩ := h.cpu.owner (c, o) (List.mem_append_left _ ho)
  dsimp only at hp hin
  have hc : c ∈ cs := h.pages.owner _ hp
  unfold SlubAllocator.cacheFree
  rw [if_neg (not_or.mpr ⟨h.chain.ne_null c hc, (h.pages.page _ hp).fits.ne_zero hin⟩),
    if_neg (not_not.mpr hmagic)]
  by_cases hper : percpu (z.cache c)
  · rw [if_pos hper]
    unfold cpuCacheFree
    by_cases hroom : (z.cpuCache c).batchCount < slubBatchSize
    · rw [if_pos hroom]
      exact ⟨_, g, rfl, h.restBatch hc ho hroom,
        (grows_restBatch z live g.out hper hmagic).toCarries, fun _ hx _ => hx⟩
    · rw [if_neg hroom]
      obtain ⟨g', h', hout⟩ := h.restFree hc ho
      refine ⟨z.pushFree c o, g', rfl, h', ?_, fun x hx _ => hout ▸ hx⟩
      rw [hout]
      exact (h.grows_restFree hper ho hmagic).toCarries
  · rw [if_neg hper]
    obtain ⟨z', g', hz', h', hcarry, hout⟩ := h.freeSlow hc ho
    exact ⟨z', g', hz', h', hcarry, fun x hx hne => hout x hx (hne.resolve_right hper)⟩

/-! ## `free` -/

/-- The walk of `free` along the caches stops at the first that has a page for
the object. -/
theorem findCache_eq {l : List Nat} {f : Nat → Nat} {head fuel : Nat}
    (hl : Sll 0 (fun c => (z.cache c).next) head l) (hfuel : l.length < fuel)
    (hf : ∀ c ∈ l, z.findPage c o .partialPages .fullPages = some (f c)) :
    z.findCache o fuel head = some ((l.find? (fun c => decide (f c ≠ 0))).getD 0) := by
  induction fuel generalizing l head with
  | zero => exact absurd hfuel (Nat.not_lt_zero _)
  | succ fuel ih =>
      unfold findCache
      cases l with
      | nil =>
          rw [if_pos (show head = 0 from hl)]
          rfl
      | cons c l =>
          obtain ⟨rfl, hc0, ht⟩ := hl
          rw [if_neg hc0, hf head List.mem_cons_self]
          show (if f head ≠ 0 then some head else z.findCache o fuel (z.cache head).next) = _
          by_cases hz : f head = 0
          · rw [if_neg (not_not.mpr hz), List.find?_cons_of_neg (by simpa using hz)]
            exact ih ht (Nat.lt_of_succ_lt_succ hfuel) (fun c hc => hf c (List.mem_cons_of_mem head hc))
          · rw [if_pos hz, List.find?_cons_of_pos (by simpa using hz)]
            rfl

theorem SlubInv.chain_lt (h : SlubInv z cs live blocks g a) : cs.length < turns :=
  h.chain.length_lt h.nodup h.small (by decide)

/-- **`free` returns an object to the cache it came from.** -/
theorem SlubInv.free_eq (h : SlubInv z cs live blocks g 0) (ho : (c, o) ∈ live) :
    z.free o = z.cacheFree c o := by
  obtain ⟨a, hp, hin⟩ := h.cpu.owner (c, o) (List.mem_append_left _ ho)
  dsimp only at hp hin
  have hok := h.pages.page _ hp
  have hc : c ∈ cs := h.pages.owner _ hp
  have hfind : ∀ d ∈ cs, z.findPage d o .partialPages .fullPages = some (if d = c then a else 0) := by
    intro d hd
    by_cases e : d = c
    · subst e
      rw [if_pos rfl]
      exact h.findPage_some hd hp hin (by decide)
    · rw [if_neg e]
      refine h.findPage_zero hd (fun b hb hinb => e ?_) .partialPages .fullPages
      exact congrArg Prod.fst (h.pages.page_unique hb hp hinb hin)
  have hres : (cs.find? (fun d => decide ((if d = c then a else 0) ≠ 0))).getD 0 = c := by
    have ha0 : a ≠ 0 := hok.nonnull
    have hsome : (cs.find? (fun d => decide ((if d = c then a else 0) ≠ 0))).isSome := by
      rw [List.find?_isSome]
      exact ⟨c, hc, by simpa using ha0⟩
    obtain ⟨d, hd⟩ := Option.isSome_iff_exists.mp hsome
    have hprop := List.find?_some hd
    have hdc : d = c := by
      by_contra e
      simp [e] at hprop
    rw [hd, hdc]
    rfl
  unfold SlubAllocator.free
  rw [if_neg (hok.fits.ne_zero hin), findCache_eq h.chain h.chain_lt hfind, hres]
  show (if c ≠ 0 then z.cacheFree c o else some z) = _
  rw [if_pos (h.chain.ne_null c hc)]

/-- What no cache has goes to the buddy allocator. -/
theorem SlubInv.free_other (h : SlubInv z cs live blocks g 0)
    (hno : ∀ p ∈ z.pages, ¬ (arr z p).Has o) : z.free o = some z := by
  unfold SlubAllocator.free
  by_cases ho : o = 0
  · rw [if_pos ho]
  · have hfind : ∀ d ∈ cs, z.findPage d o .partialPages .fullPages = some 0 :=
      fun d hd => h.findPage_zero hd (fun b hb => hno (d, b) hb) .partialPages .fullPages
    have hnone : cs.find? (fun _ => decide ((0 : Nat) ≠ 0)) = none :=
      List.find?_eq_none.mpr (fun _ _ => by decide)
    rw [if_neg ho, findCache_eq (f := fun _ => 0) h.chain h.chain_lt hfind, hnone]
    rfl

end SlubAllocator

end KmOS
