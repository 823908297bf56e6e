/-
# `KmOS.Swap.LruList` — the LRU list of `SwapManager`, with its links

`KmOS.Swap.Model` has the LRU list as a list of records.  Here it is what
`swap.cc` has: nodes named by their addresses, 0 being `nullptr`, with `next`
and `prev` links that `update_page_access`, `add_to_lru` and `remove_from_lru`
edit by hand, a head, a tail and a count.

The functions on links do what the functions on records do
(`updatePageAccess_refines`, `removeFromLru_refines`), and these keep the pages
in the order of `KmOS.Lib.Recency`.

**Result.**  From `init`, with `kmalloc` succeeding, after any calls of
`update_page_access` and `remove_from_lru`, the nodes from `lru_head` to
`lru_tail` are the pages accessed since they were last removed, once each and
the latest first, and the victim is the page whose last access lies furthest
back (`lru_list_ordered`).

A loop along links is given `turns` turns and is `none` when it has not ended
by then.
-/
import Mathlib.Data.Finset.Insert
import KmOS.Lib.Chain
import KmOS.Lib.Recency
import KmOS.Lib.Run
import KmOS.Slob.Model
import KmOS.Swap.Pressure

namespace KmOS

/-! ## The code -/

/-- `struct page_lru`. -/
structure LruNode extends PageLru where
  next : Nat
  prev : Nat

/-- The members of `SwapManager` the list is made of, with the nodes.  `live`
records the nodes in use; the manager never looks at it. -/
structure LruList where
  lruHead : Nat
  lruTail : Nat
  lruCount : Nat
  accessCounter : BitVec 32
  node : Nat → LruNode
  live : Finset Nat

namespace LruList

def next (m : LruList) (a : Nat) : Nat := (m.node a).next

def prev (m : LruList) (a : Nat) : Nat := (m.node a).prev

/-- What a node says about its page. -/
def record (m : LruList) (a : Nat) : PageLru := (m.node a).toPageLru

def modNode (m : LruList) (a : Nat) (f : LruNode → LruNode) : LruList :=
  { m with node := Function.update m.node a (f (m.node a)) }

def setNext (m : LruList) (a v : Nat) : LruList := m.modNode a fun d => { d with next := v }

def setPrev (m : LruList) (a v : Nat) : LruList := m.modNode a fun d => { d with prev := v }

def setRecord (m : LruList) (a : Nat) (r : PageLru) : LruList :=
  m.modNode a fun d => { d with toPageLru := r }

/-- The search that `update_page_access` and `remove_from_lru` begin with. -/
def findLoop (m : LruList) (virtualAddr : Nat) : Nat → Nat → Option Nat
  | 0, _ => none
  | fuel + 1, page =>
      if page = 0 then some 0
      else if (m.record page).virtualAddr = virtualAddr then some page
      else findLoop m virtualAddr fuel (m.next page)

def findNode (m : LruList) (virtualAddr : Nat) : Option Nat :=
  m.findLoop virtualAddr turns m.lruHead

/-- `if (page->prev) page->prev->next = page->next`. -/
def skipNext (m : LruList) (page : Nat) : LruList :=
  if m.prev page ≠ 0 then m.setNext (m.prev page) (m.next page) else m

/-- `if (page->next) page->next->prev = page->prev`. -/
def skipPrev (m : LruList) (page : Nat) : LruList :=
  if m.next page ≠ 0 then m.setPrev (m.next page) (m.prev page) else m

/-- The neighbours of a node skip it. -/
def detach (m : LruList) (page : Nat) : LruList := (m.skipNext page).skipPrev page

/-- `if (page == lru_tail) lru_tail = page->prev`. -/
def leaveTail (m : LruList) (page : Nat) : LruList :=
  if page = m.lruTail then { m with lruTail := m.prev page } else m

/-- `if (page == lru_head) lru_head = page->next`. -/
def leaveHead (m : LruList) (page : Nat) : LruList :=
  if page = m.lruHead then { m with lruHead := m.next page } else m

/-- The links of a node in front of the first one. -/
def linkFront (m : LruList) (page : Nat) : LruList :=
  let m := (m.setPrev page 0).setNext page m.lruHead
  if m.lruHead ≠ 0 then m.setPrev m.lruHead page else m

/-- The node goes to the front. -/
def pushNode (m : LruList) (page : Nat) : LruList :=
  let m := { m.linkFront page with lruHead := page }
  if m.lruTail = 0 then { m with lruTail := page } else m

/-- `add_to_lru`, with the answer of `kmalloc`. -/
def addToLru (m : LruList) (virtualAddr : Nat) : Option Nat → LruList
  | none => m
  | some page =>
      let m := { m with live := insert page m.live, accessCounter := m.accessCounter + 1 }
      let m := m.setRecord page
        { virtualAddr := virtualAddr, accessTime := m.accessCounter, flags := 0 }
      let m := m.pushNode page
      { m with lruCount := inc32 m.lruCount }

/-- `update_page_access`. -/
def updatePageAccess (m : LruList) (virtualAddr : Nat) (answer : Option Nat) : Option LruList := do
  let page ← m.findNode virtualAddr
  if page = 0 then some (m.addToLru virtualAddr answer)
  else
    let m := { m with accessCounter := m.accessCounter + 1 }
    let m := m.setRecord page { m.record page with accessTime := m.accessCounter }
    if page ≠ m.lruHead then some (((m.detach page).leaveTail page).pushNode page) else some m

/-- `remove_from_lru`. -/
def removeFromLru (m : LruList) (virtualAddr : Nat) : Option LruList := do
  let page ← m.findNode virtualAddr
  if page = 0 then some m
  else
    let m := ((m.detach page).leaveHead page).leaveTail page
    some { m with live := m.live.erase page, lruCount := dec32 m.lruCount }

/-- The loop of `find_victim_page`; 0 when it runs out of nodes. -/
def victimLoop (m : LruList) : Nat → Nat → Option Nat
  | 0, _ => none
  | fuel + 1, victim =>
      if victim = 0 then some 0
      else if (m.record victim).flags &&& swapFlagLocked = 0 then some victim
      else victimLoop m fuel (m.prev victim)

/-- `find_victim_page`. -/
def findVictimPage (m : LruList) : Option Nat := do
  if m.lruTail = 0 then some 0
  else
    let victim ← m.victimLoop turns m.lruTail
    if victim ≠ 0 then some victim else some m.lruTail

/-- What `SwapManager::init` sets. -/
def init : LruList where
  lruHead := 0
  lruTail := 0
  lruCount := 0
  accessCounter := 0
  node := fun _ => { virtualAddr := 0, accessTime := 0, flags := 0, next := 0, prev := 0 }
  live := ∅

end LruList

/-! ## Statement -/

inductive LruCall
  | access (virtualAddr : Nat) (answer : Option Nat)
  | remove (virtualAddr : Nat)

namespace LruList

/-- The state a call leaves; `none` if it never comes back. -/
def step (m : LruList) : LruCall → Option LruList
  | .access virtualAddr answer => m.updatePageAccess virtualAddr answer
  | .remove virtualAddr => m.removeFromLru virtualAddr

/-- `kmalloc` succeeds: it gives an object that is not in use. -/
def HeapAnswers (m : LruList) : LruCall → Prop
  | .access _ answer => ∃ page ∈ answer, page ≠ 0 ∧ page < wordSize ∧ page ∉ m.live
  | .remove _ => True

instance (m : LruList) : (c : LruCall) → Decidable (m.HeapAnswers c)
  | .access _ _ => inferInstanceAs (Decidable (∃ page ∈ _, _))
  | .remove _ => .isTrue trivial

end LruList

/-- What a call does to its page. -/
def LruCall.event : LruCall → KeyEvent Nat
  | .access virtualAddr _ => .access virtualAddr
  | .remove virtualAddr => .remove virtualAddr

/-- One call of a run, which is written down, the latest call first. -/
def lruStep (s : LruList × List (KeyEvent Nat)) (c : LruCall) :
    Option (LruList × List (KeyEvent Nat)) :=
  (s.1.step c).map fun m => (m, c.event :: s.2)

open KeyEvent

/-- The list is in order of access, after the calls of `h`. -/
structure LruOrdered (m : LruList) (h : List (KeyEvent Nat)) (nodes : List Nat) : Prop where
  nodup : nodes.Nodup
  list : Dll 0 m.next m.prev 0 m.lruHead nodes
  tail : m.lruTail = nodes.getLastD 0
  count : m.lruCount = nodes.length
  once : (nodes.map fun a => (m.record a).virtualAddr).Nodup
  pages : ∀ va, va ∈ (nodes.map fun a => (m.record a).virtualAddr) ↔ ∃ n, LastAccess h va n
  order : (nodes.map fun a => (m.record a).virtualAddr).Pairwise (MoreRecent h)

/-- The victim is the page whose last access lies furthest back. -/
def LeastRecent (m : LruList) (h : List (KeyEvent Nat)) (victim : Nat) : Prop :=
  ∃ n, LastAccess h (m.record victim).virtualAddr n ∧ ∀ va k, LastAccess h va k → k ≤ n

namespace LruList

variable {m m' : LruList} {a : Nat} {nodes : List Nat}

/-! ## Links and records -/

theorem node_modNode {f : LruNode → LruNode} (b : Nat) :
    (m.modNode a f).node b = if b = a then f (m.node a) else m.node b :=
  Function.update_apply m.node a _ b

theorem next_setNext {v : Nat} (b : Nat) :
    (m.setNext a v).next b = if b = a then v else m.next b := by
  unfold next setNext
  rw [node_modNode]
  split <;> rfl

theorem prev_setPrev {v : Nat} (b : Nat) :
    (m.setPrev a v).prev b = if b = a then v else m.prev b := by
  unfold prev setPrev
  rw [node_modNode]
  split <;> rfl

theorem record_setRecord {r : PageLru} (b : Nat) :
    (m.setRecord a r).record b = if b = a then r else m.record b := by
  unfold record setRecord
  rw [node_modNode]
  split <;> rfl

/-- A change of a node that keeps one of its fields keeps it everywhere. -/
theorem field_modNode {β : Type} (field : LruNode → β) {f : LruNode → LruNode}
    (hf : ∀ d, field (f d) = field d) (b : Nat) :
    field ((m.modNode a f).node b) = field (m.node b) := by
  rw [node_modNode]
  split
  · next hb => rw [hb, hf]
  · rfl

@[simp] theorem prev_setNext {v : Nat} : (m.setNext a v).prev = m.prev :=
  funext (field_modNode LruNode.prev fun _ => rfl)

@[simp] theorem next_setPrev {v : Nat} : (m.setPrev a v).next = m.next :=
  funext (field_modNode LruNode.next fun _ => rfl)

@[simp] theorem record_setNext {v : Nat} : (m.setNext a v).record = m.record :=
  funext (field_modNode LruNode.toPageLru fun _ => rfl)

@[simp] theorem record_setPrev {v : Nat} : (m.setPrev a v).record = m.record :=
  funext (field_modNode LruNode.toPageLru fun _ => rfl)

@[simp] theorem next_setRecord {r : PageLru} : (m.setRecord a r).next = m.next :=
  funext (field_modNode LruNode.next fun _ => rfl)

@[simp] theorem prev_setRecord {r : PageLru} : (m.setRecord a r).prev = m.prev :=
  funext (field_modNode LruNode.prev fun _ => rfl)

/-! ## The edits -/

theorem detach_next (b : Nat) :
    (m.detach a).next b = if m.prev a ≠ 0 ∧ b = m.prev a then m.next a else m.next b := by
  have hskip : (m.detach a).next = (m.skipNext a).next := by
    unfold detach skipPrev
    split
    · exact next_setPrev
    · rfl
  rw [hskip]
  unfold skipNext
  by_cases h : m.prev a = 0
  · rw [if_neg (not_not.mpr h), if_neg (fun hc => hc.1 h)]
  · rw [if_pos h, next_setNext]
    simp only [ne_eq, h, not_false_eq_true, true_and]

theorem detach_prev (hp : m.prev a ≠ a) (b : Nat) :
    (m.detach a).prev b = if m.next a ≠ 0 ∧ b = m.next a then m.prev a else m.prev b := by
  have hprev : (m.skipNext a).prev = m.prev := by
    unfold skipNext
    split
    · exact prev_setNext
    · rfl
  have hnext : (m.skipNext a).next a = m.next a := by
    unfold skipNext
    split
    · rw [next_setNext, if_neg (Ne.symm hp)]
    · rfl
  unfold detach skipPrev
  rw [hnext, hprev]
  by_cases h : m.next a = 0
  · rw [if_neg (not_not.mpr h), if_neg (fun hc => hc.1 h), hprev]
  · rw [if_pos h, prev_setPrev, hprev]
    simp only [ne_eq, h, not_false_eq_true, true_and]

/-- What `detach` leaves alone. -/
theorem detach_rest : (m.detach a).lruHead = m.lruHead ∧ (m.detach a).lruTail = m.lruTail ∧
    (m.detach a).lruCount = m.lruCount ∧ (m.detach a).accessCounter = m.accessCounter ∧
    (m.detach a).live = m.live ∧ (m.detach a).record = m.record := by
  have h : ∀ m : LruList, (m.skipNext a).lruHead = m.lruHead ∧
      (m.skipNext a).lruTail = m.lruTail ∧ (m.skipNext a).lruCount = m.lruCount ∧
      (m.skipNext a).accessCounter = m.accessCounter ∧ (m.skipNext a).live = m.live ∧
      (m.skipNext a).record = m.record := by
    intro m
    unfold skipNext
    split
    · exact ⟨rfl, rfl, rfl, rfl, rfl, record_setNext⟩
    · exact ⟨rfl, rfl, rfl, rfl, rfl, rfl⟩
  unfold detach skipPrev
  split
  · exact ⟨(h m).1, (h m).2.1, (h m).2.2.1, (h m).2.2.2.1, (h m).2.2.2.2.1,
      record_setPrev.trans (h m).2.2.2.2.2⟩
  · exact h m

/-- What `pushNode` does. -/
structure Pushed (m m' : LruList) (a : Nat) : Prop where
  next : ∀ b, m'.next b = if b = a then m.lruHead else m.next b
  prev : ∀ b, m'.prev b =
    if m.lruHead ≠ 0 ∧ b = m.lruHead then a else if b = a then 0 else m.prev b
  lruHead : m'.lruHead = a
  lruTail : m'.lruTail = if m.lruTail = 0 then a else m.lruTail
  lruCount : m'.lruCount = m.lruCount
  accessCounter : m'.accessCounter = m.accessCounter
  live : m'.live = m.live
  record : m'.record = m.record

theorem linkFront_next (b : Nat) :
    (m.linkFront a).next b = if b = a then m.lruHead else m.next b := by
  have h : ((m.setPrev a 0).setNext a m.lruHead).next b = if b = a then m.lruHead else m.next b := by
    rw [next_setNext, next_setPrev]
  unfold linkFront
  dsimp only
  split
  · rw [next_setPrev]
    exact h
  · exact h

theorem linkFront_prev (b : Nat) : (m.linkFront a).prev b =
    if m.lruHead ≠ 0 ∧ b = m.lruHead then a else if b = a then 0 else m.prev b := by
  have h : ((m.setPrev a 0).setNext a m.lruHead).prev b = if b = a then 0 else m.prev b := by
    rw [prev_setNext, prev_setPrev]
  unfold linkFront
  dsimp only
  split
  · next h0 =>
      have h0' : m.lruHead ≠ 0 := h0
      rw [prev_setPrev, h]
      exact if_congr (and_iff_right h0').symm rfl rfl
  · next h0 =>
      have h0' : ¬ m.lruHead ≠ 0 := h0
      rw [if_neg (fun hc => h0' hc.1)]
      exact h

theorem linkFront_rest : (m.linkFront a).lruTail = m.lruTail ∧
    (m.linkFront a).lruCount = m.lruCount ∧ (m.linkFront a).accessCounter = m.accessCounter ∧
    (m.linkFront a).live = m.live ∧ (m.linkFront a).record = m.record := by
  unfold linkFront
  dsimp only
  split
  · exact ⟨rfl, rfl, rfl, rfl, record_setPrev.trans (record_setNext.trans record_setPrev)⟩
  · exact ⟨rfl, rfl, rfl, rfl, record_setNext.trans record_setPrev⟩

theorem pushed (m : LruList) (a : Nat) : Pushed m (m.pushNode a) a := by
  obtain ⟨ht, hc, hac, hl, hr⟩ := linkFront_rest (m := m) (a := a)
  unfold pushNode
  dsimp only
  rw [ht]
  by_cases h0 : m.lruTail = 0
  · rw [if_pos h0]
    exact ⟨linkFront_next, linkFront_prev, rfl, (if_pos h0).symm, hc, hac, hl, hr⟩
  · rw [if_neg h0]
    exact ⟨linkFront_next, linkFront_prev, rfl, (if_neg h0).symm, hc, hac, hl, hr⟩

theorem leaveHead_eq : m.leaveHead a =
    { m with lruHead := if a = m.lruHead then m.next a else m.lruHead } := by
  unfold leaveHead
  split <;> rfl

theorem leaveTail_eq : m.leaveTail a =
    { m with lruTail := if a = m.lruTail then m.prev a else m.lruTail } := by
  unfold leaveTail
  split <;> rfl

/-- A search ends with the first node for the page, or with null. -/
theorem findLoop_eq {va fuel h : Nat} (hl : Sll 0 m.next h nodes) (hfuel : nodes.length < fuel) :
    m.findLoop va fuel h =
      some ((nodes.find? fun b => (m.record b).virtualAddr = va).getD 0) := by
  refine hl.search (f := m.findLoop va) hfuel (fun _ => if_pos rfl) ?_
  intro fuel b _ hb
  simp only [decide_eq_true_eq]
  exact if_neg hb

/-! ## The list -/

/-- The nodes of the list, in order. -/
structure Linked (m : LruList) (nodes : List Nat) : Prop where
  nodup : nodes.Nodup
  word : ∀ a ∈ nodes, a < wordSize
  list : Dll 0 m.next m.prev 0 m.lruHead nodes
  tail : m.lruTail = nodes.getLastD 0

namespace Linked

theorem length_lt (h : Linked m nodes) : nodes.length < wordSize :=
  h.list.sll.length_lt h.nodup h.word (by decide)

theorem ne_zero (h : Linked m nodes) (ha : a ∈ nodes) : a ≠ 0 := h.list.ne_null a ha

theorem prev_ne (h : Linked m nodes) (ha : a ∈ nodes) : m.prev a ≠ a :=
  h.list.prev_ne h.nodup ha (h.ne_zero ha)

theorem next_ne (h : Linked m nodes) (ha : a ∈ nodes) : m.next a ≠ a := by
  intro hn
  obtain ⟨l₁, l₂, rfl⟩ := List.append_of_mem ha
  have hdrop := h.list.drop
  rw [hn] at hdrop
  obtain ⟨t, rfl⟩ := hdrop.exists_cons (h.ne_zero ha)
  exact (List.nodup_cons.mp (List.nodup_append.mp h.nodup).2.1).1 List.mem_cons_self

/-- A list reads links and ends, and nothing else. -/
theorem congr (h : Linked m nodes) (hn : m'.next = m.next) (hp : m'.prev = m.prev)
    (hh : m'.lruHead = m.lruHead) (ht : m'.lruTail = m.lruTail) : Linked m' nodes where
  nodup := h.nodup
  word := h.word
  list := by
    rw [hn, hp, hh]
    exact h.list
  tail := ht.trans h.tail

/-- **A node put in front.** -/
theorem push (h : Linked m nodes) (ha : a ≠ 0) (haw : a < wordSize) (hat : a ∉ nodes) :
    Linked (m.pushNode a) (a :: nodes) := by
  have e := pushed m a
  have hne : ∀ b ∈ nodes, b ≠ a := fun b hb => ne_of_mem_of_not_mem hb hat
  have hhead : m.lruHead ≠ 0 → m.lruHead ≠ a := by
    intro h0
    obtain ⟨t, ht⟩ := h.list.exists_cons h0
    exact hne _ (ht ▸ List.mem_cons_self)
  refine ⟨List.nodup_cons.mpr ⟨hat, h.nodup⟩, ?_, ?_, ?_⟩
  · intro b hb
    rcases List.mem_cons.mp hb with rfl | hb
    · exact haw
    · exact h.word b hb
  · rw [e.lruHead]
    refine h.list.push h.nodup ha ?_ ?_ ?_ ?_
    · rw [e.next, if_pos rfl]
    · rw [e.prev, if_neg (fun hc => hhead hc.1 hc.2.symm), if_pos rfl]
    · intro h0
      rw [e.prev, if_pos ⟨h0, rfl⟩]
    · intro b hb
      refine ⟨?_, fun hbh => ?_⟩
      · rw [e.next, if_neg (hne b hb)]
      · rw [e.prev, if_neg (fun hc => hbh hc.2), if_neg (hne b hb)]
  · rw [e.lruTail, List.getLastD_cons, h.tail]
    cases nodes with
    | nil => exact if_pos rfl
    | cons b l =>
        rw [List.getLastD_cons, List.getLastD_cons]
        exact if_neg (h.ne_zero (List.getLastD_mem_cons))

/-- **A node taken out.** -/
theorem unlink (h : Linked m nodes) (ha : a ∈ nodes) :
    Linked (((m.detach a).leaveHead a).leaveTail a) (nodes.erase a) := by
  have hself := h.prev_ne ha
  obtain ⟨hh, ht, _⟩ := detach_rest (m := m) (a := a)
  -- the node still reads what it read
  have hna : (m.detach a).next a = m.next a := by
    rw [detach_next, if_neg (fun e => hself e.2.symm)]
  have hpa : (m.detach a).prev a = m.prev a := by
    rw [detach_prev hself, if_neg (fun e => h.next_ne ha e.2.symm)]
  rw [leaveTail_eq, leaveHead_eq]
  refine ⟨h.nodup.erase a, fun b hb => h.word b (List.mem_of_mem_erase hb), ?_, ?_⟩
  · show Dll 0 (m.detach a).next (m.detach a).prev 0
      (if a = (m.detach a).lruHead then (m.detach a).next a else (m.detach a).lruHead) _
    rw [hh, hna]
    refine h.list.unlink_agree h.nodup ha (fun b hb => ?_)
    have hb0 := h.ne_zero (List.mem_of_mem_erase hb)
    rw [detach_next, detach_prev hself]
    refine ⟨if_congr ⟨And.right, fun e => ⟨e ▸ hb0, e⟩⟩ rfl rfl, ?_⟩
    exact if_congr ⟨And.right, fun e => ⟨e ▸ hb0, e⟩⟩ rfl rfl
  · show (if a = (m.detach a).lruTail then (m.detach a).prev a else (m.detach a).lruTail) = _
    rw [ht, hpa, h.list.getLastD_erase ha, h.tail]
    exact if_congr (h.list.next_eq_null_iff h.nodup ha).symm rfl rfl

/-- The search ends with the first node for the page, or with null. -/
theorem findNode (h : Linked m nodes) (va : Nat) :
    m.findNode va = some ((nodes.find? fun b => (m.record b).virtualAddr = va).getD 0) :=
  findLoop_eq h.list.sll h.length_lt

end Linked

/-- The list holds the nodes in use, and counts them. -/
structure Threads (m : LruList) (nodes : List Nat) : Prop extends Linked m nodes where
  count : m.lruCount = nodes.length
  live : ∀ a, a ∈ m.live ↔ a ∈ nodes

/-! ## The list of records -/

/-- The links say what the list of records of a kernel whose heap does not fail
says. -/
structure Refines (m : LruList) (nodes : List Nat) (k : Kernel) : Prop extends Threads m nodes where
  lru : k.lru = nodes.map m.record
  accessCounter : k.accessCounter = m.accessCounter
  kmallocs : k.kmallocs = []

/-- Taking out the first element that is looked for. -/
theorem eraseP_eq_erase {p : Nat → Bool} {l : List Nat} (hf : l.find? p = some a) :
    l.eraseP p = l.erase a := by
  induction l with
  | nil => exact nomatch hf
  | cons b l ih =>
      by_cases hb : p b = true
      · rw [List.find?_cons_of_pos hb] at hf
        rw [List.eraseP_cons_of_pos hb, Option.some.inj hf, List.erase_cons_head]
      · rw [List.find?_cons_of_neg hb] at hf
        have hba : b ≠ a := fun e => hb (e ▸ List.find?_some hf)
        rw [List.eraseP_cons_of_neg hb, List.erase_cons_tail (by simpa using hba), ih hf]

variable {k : Kernel} {va page : Nat}

/-- Both lists are searched with the same result. -/
theorem Refines.find (h : Refines m nodes k) (va : Nat) :
    k.lru.find? (fun p => p.virtualAddr = va) =
      (nodes.find? fun b => (m.record b).virtualAddr = va).map m.record := by
  rw [h.lru, List.find?_map]
  rfl

theorem Refines.eraseP (h : Refines m nodes k)
    (hf : (nodes.find? fun b => (m.record b).virtualAddr = va) = some a) :
    k.lru.eraseP (fun p => p.virtualAddr = va) = (nodes.erase a).map m.record := by
  rw [h.lru, List.eraseP_map]
  exact congrArg (List.map m.record) (eraseP_eq_erase hf)

theorem Refines.kmalloc (h : Refines m nodes k) : k.kmalloc = (true, k) := by
  unfold Kernel.kmalloc
  rw [h.kmallocs]

/-- A new node for a page that has none. -/
theorem Refines.addToLru (h : Refines m nodes k) (h0 : page ≠ 0) (hw : page < wordSize)
    (hl : page ∉ m.live) (va : Nat) :
    Refines (m.addToLru va (some page)) (page :: nodes) (k.addToLru va) := by
  have hat : page ∉ nodes := fun hc => hl ((h.live page).mpr hc)
  have hk : k.addToLru va =
      { k with
        accessCounter := k.accessCounter + 1
        lru := { virtualAddr := va, accessTime := k.accessCounter + 1, flags := 0 } :: k.lru } := by
    unfold Kernel.addToLru
    rw [h.kmalloc]
  let m₁ : LruList := { m with live := insert page m.live, accessCounter := m.accessCounter + 1 }
  let r : PageLru := { virtualAddr := va, accessTime := m.accessCounter + 1, flags := 0 }
  have e := pushed (m₁.setRecord page r) page
  have hlinked : Linked (m₁.setRecord page r) nodes :=
    h.toLinked.congr next_setRecord prev_setRecord rfl rfl
  have hp := hlinked.push h0 hw hat
  rw [hk]
  refine ⟨⟨⟨hp.nodup, hp.word, hp.list, hp.tail⟩, ?_, ?_⟩, ?_, ?_, h.kmallocs⟩
  · show inc32 (((m₁.setRecord page r).pushNode page).lruCount) = nodes.length + 1
    rw [e.lruCount]
    show inc32 m.lruCount = nodes.length + 1
    have hlen := hp.length_lt
    rw [List.length_cons] at hlen
    rw [h.count]
    exact Nat.mod_eq_of_lt hlen
  · intro b
    show b ∈ ((m₁.setRecord page r).pushNode page).live ↔ b ∈ page :: nodes
    rw [e.live, List.mem_cons]
    exact Finset.mem_insert.trans (or_congr_right (h.live b))
  · show _ :: k.lru = ((m₁.setRecord page r).pushNode page).record page ::
      nodes.map ((m₁.setRecord page r).pushNode page).record
    rw [e.record]
    have hmap : nodes.map (m₁.setRecord page r).record = nodes.map m.record := by
      refine List.map_congr_left (fun b hb => ?_)
      rw [record_setRecord, if_neg (ne_of_mem_of_not_mem hb hat)]
      rfl
    rw [hmap, record_setRecord, if_pos rfl, h.lru, h.accessCounter]
  · show k.accessCounter + 1 = ((m₁.setRecord page r).pushNode page).accessCounter
    rw [e.accessCounter, h.accessCounter]
    rfl

/-- The node that a search finds. -/
theorem mem_of_find (hf : (nodes.find? fun b => (m.record b).virtualAddr = va) = some a) :
    a ∈ nodes ∧ (m.record a).virtualAddr = va :=
  ⟨List.mem_of_find?_eq_some hf, by simpa using List.find?_some hf⟩

/-- A node that is not the first one moves to the front. -/
theorem Linked.moveToFront (h : Linked m nodes) (ha : a ∈ nodes) (hh : a ≠ m.lruHead) :
    Linked (((m.detach a).leaveTail a).pushNode a) (a :: nodes.erase a) := by
  have hkeep : (m.detach a).leaveHead a = m.detach a := by
    unfold leaveHead
    rw [if_neg (by rw [detach_rest.1]; exact hh)]
  have hu := h.unlink ha
  rw [hkeep] at hu
  exact hu.push (h.ne_zero ha) (h.word a ha) (fun hc => (h.nodup.mem_erase_iff.mp hc).1 rfl)

/-- What the nodes say after one of them has changed and moved to the front. -/
theorem map_record_front {r : PageLru} (hnd : nodes.Nodup) :
    (a :: nodes.erase a).map (m.setRecord a r).record = r :: (nodes.erase a).map m.record := by
  rw [List.map_cons, record_setRecord, if_pos rfl]
  congr 1
  refine List.map_congr_left (fun b hb => ?_)
  rw [record_setRecord, if_neg (hnd.mem_erase_iff.mp hb).1]

/-- **`update_page_access` on the links** does what it does on the records. -/
theorem updatePageAccess_refines (h : Refines m nodes k) (h0 : page ≠ 0) (hw : page < wordSize)
    (hl : page ∉ m.live) (va : Nat) :
    ∃ m' nodes', m.updatePageAccess va (some page) = some m' ∧
      Refines m' nodes' (k.updatePageAccess va) := by
  unfold updatePageAccess Kernel.updatePageAccess
  rw [h.findNode, h.find]
  cases hf : nodes.find? fun b => (m.record b).virtualAddr = va with
  | none => exact ⟨_, _, rfl, h.addToLru h0 hw hl va⟩
  | some a =>
      obtain ⟨ha, hva⟩ := mem_of_find hf
      let r : PageLru := { m.record a with accessTime := m.accessCounter + 1 }
      let m₁ : LruList := { m with accessCounter := m.accessCounter + 1 }
      have hlinked : Linked (m₁.setRecord a r) nodes :=
        h.toLinked.congr next_setRecord prev_setRecord rfl rfl
      have hlen : (a :: nodes.erase a).length = nodes.length := by
        rw [List.length_cons, List.length_erase_of_mem ha]
        have := List.length_pos_of_mem ha
        omega
      have hmem : ∀ b, b ∈ m.live ↔ b ∈ a :: nodes.erase a := by
        intro b
        rw [h.live, (List.perm_cons_erase ha).mem_iff]
      have hlru : { m.record a with accessTime := k.accessCounter + 1 } ::
          k.lru.eraseP (fun p => p.virtualAddr = va) =
          (a :: nodes.erase a).map (m₁.setRecord a r).record := by
        rw [map_record_front h.nodup, h.eraseP hf, h.accessCounter]
        rfl
      have hne := h.ne_zero ha
      by_cases hh : a = m.lruHead
      · -- the first node stays where it is
        obtain ⟨t, ht⟩ := h.list.exists_cons (hh ▸ hne)
        rw [← hh] at ht
        have hsame : a :: nodes.erase a = nodes := by rw [ht, List.erase_cons_head]
        refine ⟨m₁.setRecord a r, a :: nodes.erase a, ?_, ?_⟩
        · show (if a = 0 then _ else if a ≠ m.lruHead then _ else some (m₁.setRecord a r)) = _
          rw [if_neg hne, if_neg (not_not.mpr hh)]
        · rw [hsame] at hlen hmem hlru ⊢
          exact ⟨⟨hlinked, h.count, hmem⟩, hlru, congrArg (· + 1) h.accessCounter, h.kmallocs⟩
      · refine ⟨(((m₁.setRecord a r).detach a).leaveTail a).pushNode a, a :: nodes.erase a, ?_, ?_⟩
        · show (if a = 0 then _ else if a ≠ m.lruHead then _ else _) = _
          rw [if_neg hne, if_pos hh]
          rfl
        · have e := pushed (((m₁.setRecord a r).detach a).leaveTail a) a
          obtain ⟨_, _, hc, hac, hlv, hr⟩ := detach_rest (m := m₁.setRecord a r) (a := a)
          rw [leaveTail_eq] at e
          refine ⟨⟨hlinked.moveToFront ha hh, ?_, ?_⟩, ?_, ?_, h.kmallocs⟩
          · rw [leaveTail_eq, e.lruCount, hlen, ← h.count]
            exact hc
          · intro b
            rw [leaveTail_eq, e.live, ← hmem]
            exact iff_of_eq (congrArg (b ∈ ·) hlv)
          · rw [leaveTail_eq, e.record]
            exact hlru.trans (congrArg (List.map · _) hr.symm)
          · rw [leaveTail_eq, e.accessCounter]
            exact (congrArg (· + 1) h.accessCounter).trans hac.symm

/-- **`remove_from_lru` on the links** does what it does on the records. -/
theorem removeFromLru_refines (h : Refines m nodes k) (va : Nat) :
    ∃ m' nodes', m.removeFromLru va = some m' ∧ Refines m' nodes' (k.removeFromLru va) := by
  unfold removeFromLru Kernel.removeFromLru
  rw [h.findNode]
  cases hf : nodes.find? fun b => (m.record b).virtualAddr = va with
  | none =>
      have hk : k.lru.eraseP (fun p => p.virtualAddr = va) = k.lru := by
        apply List.eraseP_of_forall_not
        apply List.find?_eq_none.mp
        rw [h.find, hf]
        rfl
      refine ⟨m, nodes, rfl, ?_⟩
      rw [hk]
      exact h
  | some a =>
      obtain ⟨ha, _⟩ := mem_of_find hf
      have hne := h.ne_zero ha
      obtain ⟨_, _, hc, hac, hlv, hr⟩ := detach_rest (m := m) (a := a)
      have hrest : (((m.detach a).leaveHead a).leaveTail a).lruCount = m.lruCount ∧
          (((m.detach a).leaveHead a).leaveTail a).accessCounter = m.accessCounter ∧
          (((m.detach a).leaveHead a).leaveTail a).live = m.live ∧
          (((m.detach a).leaveHead a).leaveTail a).record = m.record := by
        rw [leaveTail_eq, leaveHead_eq]
        exact ⟨hc, hac, hlv, hr⟩
      obtain ⟨hc, hac, hlv, hr⟩ := hrest
      have hu := h.unlink ha
      generalize hm₁ : ((m.detach a).leaveHead a).leaveTail a = m₁ at hc hac hlv hr hu
      refine ⟨{ m₁ with live := m₁.live.erase a, lruCount := dec32 m₁.lruCount }, nodes.erase a,
        ?_, ⟨⟨⟨hu.nodup, hu.word, hu.list, hu.tail⟩, ?_, ?_⟩, ?_, ?_, h.kmallocs⟩⟩
      · show (if a = 0 then _ else _) = _
        rw [if_neg hne, ← hm₁]
        rfl
      · show dec32 m₁.lruCount = (nodes.erase a).length
        have hpos := List.length_pos_of_mem ha
        rw [hc, h.count, List.length_erase_of_mem ha, dec32, if_neg (by omega)]
      · intro b
        show b ∈ m₁.live.erase a ↔ b ∈ nodes.erase a
        rw [hlv, Finset.mem_erase, h.live, h.nodup.mem_erase_iff]
      · show k.lru.eraseP _ = (nodes.erase a).map m₁.record
        rw [h.eraseP hf, hr]
      · exact h.accessCounter.trans hac.symm

end LruList

/-! ## The order of access -/

section
variable {k : Kernel} {va : Nat}

/-- The pages of the list of records. -/
def Kernel.lruPages (k : Kernel) : List Nat := k.lru.map PageLru.virtualAddr

theorem map_eraseP_virtualAddr (l : List PageLru) (va : Nat) :
    (l.eraseP fun p => p.virtualAddr = va).map PageLru.virtualAddr =
      (l.map PageLru.virtualAddr).erase va := by
  rw [List.erase_eq_eraseP', List.eraseP_map]
  rfl

theorem lruPages_removeFromLru (k : Kernel) (va : Nat) :
    (k.removeFromLru va).lruPages = k.lruPages.erase va := map_eraseP_virtualAddr k.lru va

/-- An accessed page is in front of the others. -/
theorem lruPages_updatePageAccess (hk : k.kmallocs = []) (va : Nat) :
    (k.updatePageAccess va).lruPages = va :: k.lruPages.erase va := by
  unfold Kernel.updatePageAccess
  cases hf : k.lru.find? fun p => p.virtualAddr = va with
  | some p =>
      have hp : p.virtualAddr = va := by simpa using List.find?_some hf
      show p.virtualAddr :: (k.lru.eraseP _).map PageLru.virtualAddr = _
      rw [hp, map_eraseP_virtualAddr]
      rfl
  | none =>
      have hout : va ∉ k.lruPages := by
        intro hc
        obtain ⟨p, hp, hva⟩ := List.mem_map.mp hc
        exact absurd (decide_eq_true hva) (by simpa using List.find?_eq_none.mp hf p hp)
      rw [List.erase_of_not_mem hout]
      show (k.addToLru va).lruPages = _
      unfold Kernel.addToLru Kernel.kmalloc
      rw [hk]
      rfl

/-- No page of the list is locked. -/
def NoFlags (k : Kernel) : Prop := ∀ p ∈ k.lru, p.flags = 0

theorem noFlags_removeFromLru (h : NoFlags k) (va : Nat) : NoFlags (k.removeFromLru va) :=
  fun p hp => h p (List.mem_of_mem_eraseP hp)

theorem noFlags_updatePageAccess (h : NoFlags k) (hk : k.kmallocs = []) (va : Nat) :
    NoFlags (k.updatePageAccess va) := by
  unfold Kernel.updatePageAccess
  cases hf : k.lru.find? fun p => p.virtualAddr = va with
  | some p =>
      intro q hq
      rcases List.mem_cons.mp hq with rfl | hq
      · exact h p (List.mem_of_find?_eq_some hf)
      · exact h q (List.mem_of_mem_eraseP hq)
  | none =>
      show NoFlags (k.addToLru va)
      unfold Kernel.addToLru Kernel.kmalloc
      rw [hk]
      intro q hq
      rcases List.mem_cons.mp hq with rfl | hq
      · rfl
      · exact h q hq

end

namespace LruList

variable {m m' : LruList} {nodes : List Nat} {h h' : List (KeyEvent Nat)}

/-- The links hold the records of a list that is in order of access. -/
def Recorded (m : LruList) (h : List (KeyEvent Nat)) : Prop :=
  ∃ nodes k, Refines m nodes k ∧ k.lruPages = recency h ∧ NoFlags k

theorem recorded_init : Recorded init [] := by
  refine ⟨[], Kernel.boot, ⟨⟨⟨List.nodup_nil, ?_, rfl, rfl⟩, rfl, ?_⟩, rfl, rfl, rfl⟩, rfl, ?_⟩
  · exact fun a ha => absurd ha List.not_mem_nil
  · exact fun a => ⟨fun ha => absurd ha (Finset.notMem_empty a), fun ha => absurd ha List.not_mem_nil⟩
  · exact fun p hp => absurd hp List.not_mem_nil

/-- **One call** comes back and keeps the order. -/
theorem Recorded.step (hr : Recorded m h) {c : LruCall} (hc : m.HeapAnswers c) :
    ∃ m', m.step c = some m' ∧ Recorded m' (c.event :: h) := by
  obtain ⟨nodes, k, hk, hp, hf⟩ := hr
  cases c with
  | access va answer =>
      obtain ⟨page, hpage, h0, hw, hl⟩ := hc
      obtain ⟨m', nodes', hm', hk'⟩ := updatePageAccess_refines hk h0 hw hl va
      rw [← Option.mem_def.mp hpage] at hm'
      refine ⟨m', hm', nodes', _, hk', ?_, noFlags_updatePageAccess hf hk.kmallocs va⟩
      rw [lruPages_updatePageAccess hk.kmallocs, hp]
      rfl
  | remove va =>
      obtain ⟨m', nodes', hm', hk'⟩ := removeFromLru_refines hk va
      refine ⟨m', hm', nodes', _, hk', ?_, noFlags_removeFromLru hf va⟩
      rw [lruPages_removeFromLru, hp]
      rfl

/-- No node is locked: the victim is the last one. -/
theorem findVictimPage_eq (hf : ∀ a ∈ nodes, (m.record a).flags = 0) (hl : Linked m nodes) :
    m.findVictimPage = some m.lruTail := by
  unfold findVictimPage
  split
  · next h0 => rw [h0]
  · next h0 =>
      have hmem : m.lruTail ∈ nodes := by
        rw [hl.tail] at h0 ⊢
        cases nodes with
        | nil => exact absurd rfl h0
        | cons b l =>
            rw [List.getLastD_cons]
            exact List.getLastD_mem_cons
      have hloop : m.victimLoop turns m.lruTail = some m.lruTail := by
        show m.victimLoop (wordSize - 1 + 1) m.lruTail = _
        unfold victimLoop
        rw [if_neg h0, hf _ hmem, if_pos (by decide)]
      rw [hloop]
      exact if_pos h0

/-- The order of the list, and its last page. -/
theorem Recorded.ordered (hr : Recorded m h) :
    ∃ nodes, LruOrdered m h nodes ∧ ∃ victim, m.findVictimPage = some victim ∧
      (victim = 0 ↔ nodes = []) ∧ (victim ≠ 0 → victim ∈ nodes ∧ LeastRecent m h victim) := by
  obtain ⟨nodes, k, hk, hp, hf⟩ := hr
  have hpages : nodes.map (fun a => (m.record a).virtualAddr) = recency h := by
    rw [← hp, Kernel.lruPages, hk.lru, List.map_map]
    rfl
  have hflags : ∀ a ∈ nodes, (m.record a).flags = 0 := by
    intro a ha
    refine hf (m.record a) ?_
    rw [hk.lru]
    exact List.mem_map_of_mem ha
  refine ⟨nodes, ⟨hk.nodup, hk.list, hk.tail, hk.count, ?_, ?_, ?_⟩, m.lruTail,
    findVictimPage_eq hflags hk.toLinked, ?_, ?_⟩
  · rw [hpages]
    exact recency_nodup h
  · intro va
    rw [hpages]
    exact mem_recency
  · rw [hpages]
    exact recency_pairwise h
  · rw [hk.tail]
    cases nodes with
    | nil => exact ⟨fun _ => rfl, fun _ => rfl⟩
    | cons b l =>
        rw [List.getLastD_cons]
        exact ⟨fun h0 => absurd h0 (hk.ne_zero List.getLastD_mem_cons), fun hn => nomatch hn⟩
  · intro h0
    have htail := hk.tail
    obtain rfl | ⟨l, c, rfl⟩ := nodes.eq_nil_or_concat'
    · exact absurd htail h0
    · have hc : m.lruTail = c := htail.trans (by simp)
      rw [hc]
      refine ⟨List.mem_append_right l (List.mem_singleton_self c),
        recency_last (l := l.map fun a => (m.record a).virtualAddr) ?_⟩
      rw [← hpages, List.map_append]
      rfl

end LruList

/-- **The LRU list is in LRU order.**  After any calls of `update_page_access`
and `remove_from_lru` it holds the pages accessed since they were last removed,
the latest first, and `find_victim_page` returns the last of them. -/
theorem lru_list_ordered {m : LruList} {h : List (KeyEvent Nat)}
    (hr : Reaches lruStep (fun s c => s.1.HeapAnswers c) (LruList.init, []) (m, h)) :
    (∃ nodes, LruOrdered m h nodes ∧ ∃ victim, m.findVictimPage = some victim ∧
      (victim = 0 ↔ nodes = []) ∧ (victim ≠ 0 → victim ∈ nodes ∧ LeastRecent m h victim)) ∧
    ∀ c, m.HeapAnswers c → ∃ m', m.step c = some m' := by
  have hrec : LruList.Recorded m h := by
    refine hr.invariant (I := fun s => s.1.Recorded s.2) LruList.recorded_init ?_
    intro s c s' hs hc hstep
    obtain ⟨m', hm', hrec⟩ := hs.step hc
    unfold lruStep at hstep
    rw [hm'] at hstep
    rw [← Option.some.inj hstep]
    exact hrec
  refine ⟨hrec.ordered, fun c hc => ?_⟩
  obtain ⟨m', hm', _⟩ := hrec.step hc
  exact ⟨m', hm'⟩

/-- Three pages are accessed, the first one again, and the third is removed: the
second is the victim. -/
theorem lru_list_ordered_moved : ∃ m h, (∃ nodes, LruOrdered m h nodes ∧ nodes.length = 2) ∧
    m.findVictimPage = some 0x2000 ∧ LeastRecent m h 0x2000 := by
  obtain ⟨⟨m, h⟩, hr, hp⟩ := Reaches.of_checked_script lruStep (fun s c => s.1.HeapAnswers c)
    (LruList.init, []) (fun s => decide (s.1.lruCount = 2 ∧ s.1.findVictimPage = some 0x2000))
    [.access 0x40000000 (some 0x1000), .access 0x40001000 (some 0x2000),
      .access 0x40002000 (some 0x3000), .access 0x40000000 (some 0x4000), .remove 0x40002000]
    (by decide +kernel)
  obtain ⟨hcount, hvictim⟩ := of_decide_eq_true hp
  obtain ⟨⟨nodes, ho, victim, hv, _, hlast⟩, _⟩ := lru_list_ordered hr
  have he : victim = 0x2000 := Option.some.inj (hv.symm.trans hvictim)
  subst he
  exact ⟨m, h, ⟨nodes, ho, ho.count.symm.trans hcount⟩, hvictim, (hlast (by decide)).2⟩

end KmOS
