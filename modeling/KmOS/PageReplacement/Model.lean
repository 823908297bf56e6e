/-
# `KmOS.PageReplacement.Model` — the page replacement manager

`PageReplacementManager` keeps a descriptor for every page it has been told of.
All descriptors are on the page list, and those of the LRU and FIFO algorithms
are on that algorithm's list as well.  The three lists are threaded through the
same `next` and `prev`.  CLOCK has a hand and a count instead of a list.

Descriptors are records named by their addresses, 0 being `nullptr`.  A loop
along links is given `turns` turns and is `none` when it has not ended by then.

**What the heap does.**  `add_page` is given the answer of `kmalloc`.  `tracked`
records the descriptors in use, oldest first; the manager never looks at it.

**What is left out.**  Printed text, `process_id`, `page_faults`, which are
never read, `set_memory_pressure_algorithm`, which calls `set_algorithm`, and
`set_page_replacement_algorithm`, which keeps values outside the enumeration
away from it.
-/
import KmOS.Slob.Model

namespace KmOS

/-! ## Data of `page_replacement.h` -/

inductive PageReplacementAlgorithm
  | lru
  | fifo
  | clock
  | lruEnhanced
  deriving DecidableEq

/-- `(algorithm + PR_ALGORITHM_COUNT - 1) % PR_ALGORITHM_COUNT`. -/
def PageReplacementAlgorithm.previous : PageReplacementAlgorithm → PageReplacementAlgorithm
  | lru => lruEnhanced
  | fifo => lru
  | clock => fifo
  | lruEnhanced => clock

def prFlagAccessed : UInt32 := 0x01
def prFlagDirty : UInt32 := 0x02
def prFlagLocked : UInt32 := 0x08

/-- `struct page_descriptor`.  `position` is the first word of the union, which
`lru_position`, `queue_position` and `clock_hand_passed` share. -/
structure PageDescriptor where
  virtualAddr : UInt32
  physicalAddr : UInt32
  flags : UInt32
  accessCount : UInt32
  lastAccessTime : UInt64
  creationTime : UInt64
  next : Nat
  prev : Nat
  position : UInt32
  referenceBit : UInt32

/-- `page->flags & PR_FLAG_LOCKED`. -/
def PageDescriptor.Locked (d : PageDescriptor) : Prop := d.flags &&& prFlagLocked ≠ 0

instance (d : PageDescriptor) : Decidable d.Locked := inferInstanceAs (Decidable (_ ≠ _))

/-- `struct replacement_stats`. -/
structure ReplacementStats where
  totalReplacements : UInt32
  hits : UInt32
  misses : UInt32
  dirtyWritebacks : UInt32
  totalAccessTime : UInt64
  algorithmSwitches : UInt32

def ReplacementStats.zero : ReplacementStats := ⟨0, 0, 0, 0, 0, 0⟩

/-- The lists of the manager. -/
inductive PageList
  | pages
  | lru
  | fifo
  deriving DecidableEq

/-- `class PageReplacementManager`, with the descriptors.  `head` is
`page_list_head`, `lru_head` and `fifo_head`, and `tail` likewise. -/
structure PageReplacementManager where
  currentAlgorithm : PageReplacementAlgorithm
  head : PageList → Nat
  tail : PageList → Nat
  totalPages : Nat
  accessCounter : UInt64
  stats : PageReplacementAlgorithm → ReplacementStats
  currentStats : ReplacementStats
  clockHand : Nat
  clockSize : Nat
  page : Nat → PageDescriptor
  tracked : List Nat

namespace PageReplacementManager

/-! ## Fields -/

def modPage (m : PageReplacementManager) (a : Nat) (f : PageDescriptor → PageDescriptor) :
    PageReplacementManager :=
  { m with page := Function.update m.page a (f (m.page a)) }

def modStats (m : PageReplacementManager) (f : ReplacementStats → ReplacementStats) :
    PageReplacementManager :=
  { m with currentStats := f m.currentStats }

def next (m : PageReplacementManager) (a : Nat) : Nat := (m.page a).next

def prev (m : PageReplacementManager) (a : Nat) : Nat := (m.page a).prev

def setNext (m : PageReplacementManager) (a v : Nat) : PageReplacementManager :=
  m.modPage a fun d => { d with next := v }

def setPrev (m : PageReplacementManager) (a v : Nat) : PageReplacementManager :=
  m.modPage a fun d => { d with prev := v }

def setHead (m : PageReplacementManager) (l : PageList) (a : Nat) : PageReplacementManager :=
  { m with head := Function.update m.head l a }

def setTail (m : PageReplacementManager) (l : PageList) (a : Nat) : PageReplacementManager :=
  { m with tail := Function.update m.tail l a }

/-- `get_system_time`. -/
def getSystemTime (m : PageReplacementManager) : PageReplacementManager × UInt64 :=
  ({ m with accessCounter := m.accessCounter + 1 }, m.accessCounter)

/-! ## Lists -/

/-- What stands before the page leads to what stands behind it. -/
def skipNext (m : PageReplacementManager) (l : PageList) (page : Nat) : PageReplacementManager :=
  if m.prev page ≠ 0 then m.setNext (m.prev page) (m.next page) else m.setHead l (m.next page)

/-- What stands behind the page points back at what stands before it. -/
def skipPrev (m : PageReplacementManager) (l : PageList) (page : Nat) : PageReplacementManager :=
  if m.next page ≠ 0 then m.setPrev (m.next page) (m.prev page) else m.setTail l (m.prev page)

/-- The body of `lru_remove_page` and `fifo_remove_page`, and what `remove_page`
does to the page list. -/
def unlinkPage (m : PageReplacementManager) (l : PageList) (page : Nat) : PageReplacementManager :=
  (m.skipNext l page).skipPrev l page

/-- The page goes to the front of a list. -/
def pushPage (m : PageReplacementManager) (l : PageList) (page : Nat) : PageReplacementManager :=
  let m := m.modPage page fun d => { d with position := m.accessCounter.toUInt32 }
  let m := { m with accessCounter := m.accessCounter + 1 }
  if m.head l ≠ 0 then
    ((m.setPrev (m.head l) page).setNext page (m.head l)).setHead l page
  else (m.setHead l page).setTail l page

def lruAddPage (m : PageReplacementManager) (page : Nat) : PageReplacementManager :=
  m.pushPage .lru page

def lruRemovePage (m : PageReplacementManager) (page : Nat) : PageReplacementManager :=
  m.unlinkPage .lru page

def lruUpdateAccess (m : PageReplacementManager) (page : Nat) : PageReplacementManager :=
  (m.lruRemovePage page).lruAddPage page

def fifoAddPage (m : PageReplacementManager) (page : Nat) : PageReplacementManager :=
  m.pushPage .fifo page

def fifoRemovePage (m : PageReplacementManager) (page : Nat) : PageReplacementManager :=
  m.unlinkPage .fifo page

def clockAddPage (m : PageReplacementManager) (page : Nat) : PageReplacementManager :=
  let m := m.modPage page fun d => { d with referenceBit := 1, position := 0 }
  let m := { m with clockSize := inc32 m.clockSize }
  if m.clockHand = 0 then { m with clockHand := page } else m

/-- `page->next ? page->next : page_list_head`. -/
def nextOrHead (m : PageReplacementManager) (page : Nat) : Nat :=
  if m.next page ≠ 0 then m.next page else m.head .pages

def clockRemovePage (m : PageReplacementManager) (page : Nat) : PageReplacementManager :=
  let m :=
    if m.clockHand = page then
      let hand := m.nextOrHead page
      { m with clockHand := if hand = page then 0 else hand }
    else m
  { m with clockSize := dec32 m.clockSize }

def clockUpdateAccess (m : PageReplacementManager) (page : Nat) : PageReplacementManager :=
  m.modPage page fun d => { d with referenceBit := 1 }

/-- The page goes into the structure of an algorithm. -/
def addTo (m : PageReplacementManager) : PageReplacementAlgorithm → Nat → PageReplacementManager
  | .lru, page => m.lruAddPage page
  | .lruEnhanced, page => m.lruAddPage page
  | .fifo, page => m.fifoAddPage page
  | .clock, page => m.clockAddPage page

/-- The page leaves the structure of an algorithm. -/
def removeFrom (m : PageReplacementManager) :
    PageReplacementAlgorithm → Nat → PageReplacementManager
  | .lru, page => m.lruRemovePage page
  | .lruEnhanced, page => m.lruRemovePage page
  | .fifo, page => m.fifoRemovePage page
  | .clock, page => m.clockRemovePage page

/-! ## Victims -/

/-- `while (victim && (victim->flags & PR_FLAG_LOCKED)) victim = victim->prev`. -/
def unlockedLoop (m : PageReplacementManager) : Nat → Nat → Option Nat
  | 0, _ => none
  | fuel + 1, victim =>
      if victim ≠ 0 ∧ (m.page victim).Locked then unlockedLoop m fuel (m.prev victim)
      else some victim

/-- The victim of a list; 0 if there is none. -/
def listFindVictim (m : PageReplacementManager) (l : PageList) : Option Nat :=
  if m.tail l = 0 then some 0 else m.unlockedLoop turns (m.tail l)

def lruFindVictim (m : PageReplacementManager) : Option Nat := m.listFindVictim .lru

def fifoFindVictim (m : PageReplacementManager) : Option Nat := m.listFindVictim .fifo

/-- `clock_hand = clock_hand->next ? clock_hand->next : page_list_head`. -/
def advanceHand (m : PageReplacementManager) : PageReplacementManager :=
  { m with clockHand := m.nextOrHead m.clockHand }

/-- A page that is not locked gets a second chance. -/
def clearReference (m : PageReplacementManager) (page : Nat) : PageReplacementManager :=
  if (m.page page).Locked then m
  else m.modPage page fun d => { d with referenceBit := 0, position := d.position + 1 }

/-- The loop of `clock_find_victim`.  A hand that is null faults. -/
def clockLoop (start : Nat) : Nat → PageReplacementManager → Option (PageReplacementManager × Nat)
  | 0, _ => none
  | fuel + 1, m =>
      if m.clockHand = 0 then none
      else if ¬(m.page m.clockHand).Locked ∧ (m.page m.clockHand).referenceBit = 0 then
        some (m.advanceHand, m.clockHand)
      else
        let m := (m.clearReference m.clockHand).advanceHand
        if m.clockHand ≠ start then clockLoop start fuel m else some (m, m.clockHand)

def clockFindVictim (m : PageReplacementManager) : Option (PageReplacementManager × Nat) :=
  if m.clockSize = 0 then some (m, 0)
  else
    let m := if m.clockHand = 0 then { m with clockHand := m.head .pages } else m
    clockLoop m.clockHand turns m

/-- `calculate_page_score`. -/
def calculatePageScore (m : PageReplacementManager) (page : Nat) :
    PageReplacementManager × UInt32 :=
  let (m, currentTime) := m.getSystemTime
  let d := m.page page
  let age := (currentTime - d.lastAccessTime).toUInt32
  let score := age >>> 10
  let score := score + (if 0 < d.accessCount then 1000 / d.accessCount else 1000)
  let score := if d.flags &&& prFlagDirty ≠ 0 then score + 500 else score
  let score := if d.flags &&& prFlagAccessed ≠ 0 then score - 100 else score
  (m, score)

/-- The loop of `lru_enhanced_find_victim`. -/
def lruEnhancedLoop : Nat → PageReplacementManager → Nat → UInt32 → Nat →
    Option (PageReplacementManager × Nat)
  | 0, _, _, _, _ => none
  | fuel + 1, m, page, bestScore, bestVictim =>
      if page = 0 then some (m, bestVictim)
      else if (m.page page).Locked then lruEnhancedLoop fuel m (m.next page) bestScore bestVictim
      else
        let (m, score) := m.calculatePageScore page
        if score < bestScore then lruEnhancedLoop fuel m (m.next page) score page
        else lruEnhancedLoop fuel m (m.next page) bestScore bestVictim

def lruEnhancedFindVictim (m : PageReplacementManager) : Option (PageReplacementManager × Nat) :=
  lruEnhancedLoop turns m (m.head .pages) 0xFFFFFFFF 0

/-- The victim of the current algorithm. -/
def algorithmVictim (m : PageReplacementManager) : Option (PageReplacementManager × Nat) :=
  match m.currentAlgorithm with
  | .lru => m.lruFindVictim.map fun victim => (m, victim)
  | .fifo => m.fifoFindVictim.map fun victim => (m, victim)
  | .clock => m.clockFindVictim
  | .lruEnhanced => m.lruEnhancedFindVictim

/-- What `find_victim_page` notes about a victim. -/
def noteVictim (m : PageReplacementManager) (startTime : UInt64) (victim : Nat) :
    PageReplacementManager :=
  let (m, now) := m.getSystemTime
  let dirty := (m.page victim).flags &&& prFlagDirty ≠ 0
  m.modStats fun s =>
    { s with totalReplacements := s.totalReplacements + 1
             totalAccessTime := s.totalAccessTime + (now - startTime)
             dirtyWritebacks := if dirty then s.dirtyWritebacks + 1 else s.dirtyWritebacks }

/-- `find_victim_page`; the victim is 0 if there is none. -/
def findVictimPage (m : PageReplacementManager) : Option (PageReplacementManager × Nat) :=
  if m.totalPages = 0 then some (m, 0)
  else do
    let (m, startTime) := m.getSystemTime
    let (m, victim) ← m.algorithmVictim
    if victim ≠ 0 then some (m.noteVictim startTime victim, victim) else some (m, victim)

/-! ## Pages -/

/-- The loop of `find_page`; 0 if no page has the address. -/
def findPageLoop (m : PageReplacementManager) (virtualAddr : UInt32) : Nat → Nat → Option Nat
  | 0, _ => none
  | fuel + 1, page =>
      if page = 0 then some 0
      else if (m.page page).virtualAddr = virtualAddr then some page
      else findPageLoop m virtualAddr fuel (m.next page)

def findPage (m : PageReplacementManager) (virtualAddr : UInt32) : Option Nat :=
  m.findPageLoop virtualAddr turns (m.head .pages)

/-- The end of the page list. -/
def appendPage (m : PageReplacementManager) (page : Nat) : PageReplacementManager :=
  if m.tail .pages ≠ 0 then
    ((m.setNext (m.tail .pages) page).setPrev page (m.tail .pages)).setTail .pages page
  else (m.setHead .pages page).setTail .pages page

/-- What `add_page` stores in a new descriptor. -/
def newPage (virtualAddr physicalAddr flags : UInt32) (time : UInt64) : PageDescriptor where
  virtualAddr := virtualAddr
  physicalAddr := physicalAddr
  flags := flags
  accessCount := 1
  lastAccessTime := time
  creationTime := time
  next := 0
  prev := 0
  position := 0
  referenceBit := 1

/-- `add_page` as far as the page list. -/
def enlistPage (m : PageReplacementManager) (virtualAddr physicalAddr flags : UInt32)
    (page : Nat) : PageReplacementManager :=
  let (m, time) := m.getSystemTime
  let m := m.modPage page fun _ => newPage virtualAddr physicalAddr flags time
  let m := { m with tracked := m.tracked ++ [page] }
  m.appendPage page

/-- `add_page`, where `kmalloc` gives `page`. -/
def addPage (m : PageReplacementManager) (virtualAddr physicalAddr flags : UInt32)
    (page : Option Nat) : PageReplacementManager :=
  match page with
  | none => m
  | some page =>
      let m := m.enlistPage virtualAddr physicalAddr flags page
      let m := m.addTo m.currentAlgorithm page
      { m with totalPages := inc32 m.totalPages }

def removePage (m : PageReplacementManager) (virtualAddr : UInt32) :
    Option PageReplacementManager := do
  let page ← m.findPage virtualAddr
  if page = 0 then some m
  else
    let m := m.removeFrom m.currentAlgorithm page
    let m := m.unlinkPage .pages page
    let m := { m with tracked := m.tracked.erase page }
    some { m with totalPages := dec32 m.totalPages }

/-- What the algorithm does about an access. -/
def noteAccess (m : PageReplacementManager) (page : Nat) : PageReplacementManager :=
  match m.currentAlgorithm with
  | .lru => m.lruUpdateAccess page
  | .lruEnhanced => m.lruUpdateAccess page
  | .clock => m.clockUpdateAccess page
  | .fifo => m

def updatePageAccess (m : PageReplacementManager) (virtualAddr : UInt32) :
    Option PageReplacementManager := do
  let page ← m.findPage virtualAddr
  if page = 0 then some (m.modStats fun s => { s with misses := s.misses + 1 })
  else
    let m := m.modStats fun s => { s with hits := s.hits + 1 }
    let (m, time) := m.getSystemTime
    let m := m.modPage page fun d =>
      { d with accessCount := d.accessCount + 1
               lastAccessTime := time
               flags := d.flags ||| prFlagAccessed }
    some (m.noteAccess page)

/-- `mark_page_dirty` and `mark_page_clean`, with what they do to the flags. -/
def markPage (m : PageReplacementManager) (f : UInt32 → UInt32) (virtualAddr : UInt32) :
    Option PageReplacementManager := do
  let page ← m.findPage virtualAddr
  if page = 0 then some m else some (m.modPage page fun d => { d with flags := f d.flags })

def markPageDirty (m : PageReplacementManager) (virtualAddr : UInt32) :
    Option PageReplacementManager :=
  m.markPage (· ||| prFlagDirty) virtualAddr

def markPageClean (m : PageReplacementManager) (virtualAddr : UInt32) :
    Option PageReplacementManager :=
  m.markPage (· &&& ~~~prFlagDirty) virtualAddr

/-! ## Algorithms -/

/-- The algorithm whose structure `set_algorithm` takes the pages from. -/
def migrationSource (m : PageReplacementManager) : PageReplacementAlgorithm :=
  if 0 < (m.stats m.currentAlgorithm).algorithmSwitches then m.currentAlgorithm.previous
  else m.currentAlgorithm

/-- The loop of `set_algorithm`. -/
def migrateLoop : Nat → PageReplacementManager → Nat → Option PageReplacementManager
  | 0, _, _ => none
  | fuel + 1, m, page =>
      if page = 0 then some m
      else
        let next := m.next page
        let m := m.removeFrom m.migrationSource page
        let m := m.addTo m.currentAlgorithm page
        migrateLoop fuel m next

/-- What `set_algorithm` does before its loop. -/
def chooseAlgorithm (m : PageReplacementManager) (algorithm : PageReplacementAlgorithm) :
    PageReplacementManager :=
  let m := { m with stats := Function.update m.stats m.currentAlgorithm m.currentStats }
  let m := m.modStats fun s => { s with algorithmSwitches := s.algorithmSwitches + 1 }
  { m with currentAlgorithm := algorithm }

def setAlgorithm (m : PageReplacementManager) (algorithm : PageReplacementAlgorithm) :
    Option PageReplacementManager :=
  let m := m.chooseAlgorithm algorithm
  migrateLoop turns m (m.head .pages)

def resetStats (m : PageReplacementManager) : PageReplacementManager :=
  m.modStats fun _ => .zero

def init : PageReplacementManager where
  currentAlgorithm := .lru
  head := fun _ => 0
  tail := fun _ => 0
  totalPages := 0
  accessCounter := 0
  stats := fun _ => .zero
  currentStats := .zero
  clockHand := 0
  clockSize := 0
  page := fun _ => newPage 0 0 0 0
  tracked := []

end PageReplacementManager

/-! ## Clients -/

inductive ReplacementCall
  | add (virtualAddr physicalAddr flags : UInt32) (page : Option Nat)
  | remove (virtualAddr : UInt32)
  | access (virtualAddr : UInt32)
  | markDirty (virtualAddr : UInt32)
  | markClean (virtualAddr : UInt32)
  | findVictim
  | resetStats
  | setAlgorithm (algorithm : PageReplacementAlgorithm)

namespace PageReplacementManager

/-- The state a call leaves; `none` if it never comes back. -/
def step (m : PageReplacementManager) : ReplacementCall → Option PageReplacementManager
  | .add virtualAddr physicalAddr flags page => some (m.addPage virtualAddr physicalAddr flags page)
  | .remove virtualAddr => m.removePage virtualAddr
  | .access virtualAddr => m.updatePageAccess virtualAddr
  | .markDirty virtualAddr => m.markPageDirty virtualAddr
  | .markClean virtualAddr => m.markPageClean virtualAddr
  | .findVictim => m.findVictimPage.map Prod.fst
  | .resetStats => some m.resetStats
  | .setAlgorithm algorithm => m.setAlgorithm algorithm

/-- What the heap promises: a descriptor is an object that is not in use, and
has an address other than null. -/
def HeapAnswers (m : PageReplacementManager) : ReplacementCall → Prop
  | .add _ _ _ (some page) => page ≠ 0 ∧ page < wordSize ∧ page ∉ m.tracked
  | _ => True

instance (m : PageReplacementManager) : (c : ReplacementCall) → Decidable (m.HeapAnswers c)
  | .add _ _ _ (some _) => inferInstanceAs (Decidable (_ ∧ _ ∧ _))
  | .add _ _ _ none => .isTrue trivial
  | .remove _ | .access _ | .markDirty _ | .markClean _ | .findVictim | .resetStats
  | .setAlgorithm _ => .isTrue trivial

end PageReplacementManager

end KmOS
