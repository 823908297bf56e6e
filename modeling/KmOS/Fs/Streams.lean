/-
# `KmOS.Fs.Streams` — what comes through a descriptor

Processes open, close, duplicate and inherit descriptors, and read through them, in any
order.  What a descriptor has brought of a regular file since it was opened is always the
beginning of that file, as far as its offset, and the next read goes on from there
(`descriptors_are_streams`): nothing is skipped, nothing comes twice, and no other process
makes a difference, not even one that goes on with a copy of the descriptor.

`Streams.got` is what the descriptors have brought.  The kernel does not keep it.

A write to a regular file puts the offset back by one, so the runs write to files of other
kinds only.
-/
import KmOS.Ext2.RegularFile
import KmOS.Fs.OpenFiles
import KmOS.Lib.Run

namespace KmOS

/-! ## Descriptors -/

namespace FileSlots

variable {regular : Nat → Option Nat} {contents : Nat → List UInt8} {slots slots' : FileSlots}
  {got : UInt32 → List UInt8} {fd fd' : UInt32} {bytes : List UInt8}

/-- The regular file behind a descriptor, and the offset. -/
def opened (regular : Nat → Option Nat) (slots : FileSlots) (fd : UInt32) :
    Option (Nat × UInt32) :=
  if getFile slots fd = 0 then .none
  else (regular (getFile slots fd)).map fun ino => (ino, (slots fd).ptr)

/-- What the descriptors have brought are the beginnings of their files. -/
def InOrder (regular : Nat → Option Nat) (contents : Nat → List UInt8) (slots : FileSlots)
    (got : UInt32 → List UInt8) : Prop :=
  ∀ fd ino ptr, slots.opened regular fd = some (ino, ptr) →
    ptr.toNat ≤ (contents ino).length ∧ got fd = (contents ino).take ptr.toNat

theorem opened_congr (h : slots' fd = slots fd) :
    slots'.opened regular fd = slots.opened regular fd := by
  unfold opened getFile
  rw [h]

theorem opened_free (h : getFile slots fd = 0) : slots.opened regular fd = .none := if_pos h

theorem opened_regular (regular : Nat → Option Nat) (h : getFile slots fd ≠ 0) :
    slots.opened regular fd =
      (regular (getFile slots fd)).map fun ino => (ino, (slots fd).ptr) := if_neg h

theorem getFile_beyond (slots : FileSlots) (h : configMaxFile ≤ fd) : getFile slots fd = 0 :=
  if_pos h

theorem getFile_slot (h : (slots fd).fp = 0) : getFile slots fd = 0 := by
  unfold getFile
  rw [h, ite_self]

theorem InOrder.empty (regular : Nat → Option Nat) (contents : Nat → List UInt8)
    (got : UInt32 → List UInt8) : empty.InOrder regular contents got := by
  intro fd ino ptr h
  rw [opened_free (getFile_slot rfl)] at h
  cases h

/-- **One descriptor changes.** -/
theorem InOrder.change (h : slots.InOrder regular contents got)
    (hkeep : ∀ fd', fd' ≠ fd → slots' fd' = slots fd')
    (hfd : ∀ ino ptr, slots'.opened regular fd = some (ino, ptr) →
      ptr.toNat ≤ (contents ino).length ∧ bytes = (contents ino).take ptr.toNat) :
    slots'.InOrder regular contents (Function.update got fd bytes) := by
  intro fd' ino ptr hopened
  by_cases hne : fd' = fd
  · subst hne
    rw [Function.update_self]
    exact hfd ino ptr hopened
  · rw [Function.update_of_ne hne]
    rw [opened_congr (hkeep fd' hne)] at hopened
    exact h fd' ino ptr hopened

/-- One descriptor is lost. -/
theorem InOrder.lose (h : slots.InOrder regular contents got)
    (hkeep : ∀ fd', fd' ≠ fd → slots' fd' = slots fd')
    (hfd : slots'.opened regular fd = .none) : slots'.InOrder regular contents got := by
  have hsame : slots'.InOrder regular contents (Function.update got fd (got fd)) :=
    h.change hkeep fun ino ptr hopened => by
      rw [hfd] at hopened
      cases hopened
  rwa [Function.update_eq_self] at hsame

/-- One descriptor is at the beginning. -/
theorem InOrder.rewind (h : slots.InOrder regular contents got)
    (hkeep : ∀ fd', fd' ≠ fd → slots' fd' = slots fd')
    (hfd : getFile slots' fd = 0 ∨ (slots' fd).ptr = 0) :
    slots'.InOrder regular contents (Function.update got fd []) := by
  refine h.change hkeep fun ino ptr hopened => ?_
  unfold opened at hopened
  split at hopened
  · cases hopened
  · next hfp =>
      obtain ⟨ino', -, heq⟩ := Option.map_eq_some_iff.mp hopened
      cases heq
      rw [hfd.resolve_left hfp]
      exact ⟨Nat.zero_le _, rfl⟩

theorem addFile_cases (slots : FileSlots) (f : Nat) (mode : UInt32) :
    slots.addFile f mode = (0xFFFFFFFF, slots) ∨
      ∃ fd, slots.addFile f mode = (fd, Function.update slots fd ⟨mode, 0, f⟩) := by
  unfold addFile
  split
  · exact Or.inl rfl
  · split
    · exact Or.inl rfl
    · exact Or.inr ⟨_, rfl⟩

theorem InOrder.addFile (h : slots.InOrder regular contents got) (f : Nat) (mode : UInt32) :
    (slots.addFile f mode).2.InOrder regular contents
      (Function.update got (slots.addFile f mode).1 []) := by
  rcases slots.addFile_cases f mode with heq | ⟨fd, heq⟩
  · rw [heq]
    have hbeyond : configMaxFile ≤ 0xFFFFFFFF := by decide
    exact h.rewind (fun _ _ => rfl) (Or.inl (getFile_beyond slots hbeyond))
  · rw [heq]
    exact h.rewind (fun _ hne => Function.update_of_ne hne _ _)
      (Or.inr (congrArg OpenFile.ptr (Function.update_self fd _ slots)))

/-- A file of another kind. -/
theorem InOrder.addOther (h : slots.InOrder regular contents got) {f : Nat}
    (hf : regular f = .none) (mode : UInt32) :
    (slots.addFile f mode).2.InOrder regular contents got := by
  rcases slots.addFile_cases f mode with heq | ⟨fd, heq⟩
  · rw [heq]
    exact h
  · rw [heq]
    refine h.lose (fun _ hne => Function.update_of_ne hne _ _) ?_
    have hslot : Function.update slots fd ⟨mode, 0, f⟩ fd = ⟨mode, 0, f⟩ :=
      Function.update_self fd _ slots
    dsimp only
    unfold opened getFile
    rw [hslot]
    by_cases hfd : configMaxFile ≤ fd
    · rw [if_pos hfd, if_pos rfl]
    · rw [if_neg hfd, hf, Option.map_none, ite_self]

theorem InOrder.deleteFile (h : slots.InOrder regular contents got) (fd : UInt32) :
    (slots.deleteFile fd).InOrder regular contents got := by
  unfold FileSlots.deleteFile
  split
  · exact h
  · exact h.lose (fun _ hne => Function.update_of_ne hne _ _)
      (opened_free (getFile_slot (congrArg OpenFile.fp (Function.update_self fd _ slots))))

theorem InOrder.setFile (h : slots.InOrder regular contents got) (fd : UInt32) (f : Nat)
    (mode : UInt32) :
    (slots.setFile fd f mode 0).InOrder regular contents (Function.update got fd []) := by
  unfold FileSlots.setFile
  split
  · exact h.rewind (fun _ hne => Function.update_of_ne hne _ _)
      (Or.inr (congrArg OpenFile.ptr (Function.update_self fd _ slots)))
  · next hfd =>
      exact h.rewind (fun _ _ => rfl) (Or.inl (getFile_beyond slots (UInt32.not_lt.mp hfd)))

theorem opened_forked (slots : FileSlots) (fd : UInt32) :
    slots.forked.opened regular fd = slots.opened regular fd := by
  by_cases hfp : (slots fd).fp = 0
  · have hforked : slots.forked fd = .none := if_neg (not_not.mpr hfp)
    rw [opened_free (getFile_slot hfp), opened_free (getFile_slot (congrArg OpenFile.fp hforked))]
  · exact opened_congr (if_pos hfp)

theorem InOrder.forked (h : slots.InOrder regular contents got) :
    slots.forked.InOrder regular contents got := by
  intro fd ino ptr hopened
  rw [opened_forked] at hopened
  exact h fd ino ptr hopened

theorem InOrder.inherited (h : slots.InOrder regular contents got) :
    slots.inherited.InOrder regular contents got := by
  intro fd ino ptr hopened
  by_cases hfd : fd < 3
  · rw [opened_congr (if_pos hfd)] at hopened
    exact h fd ino ptr hopened
  · have hnone : slots.inherited fd = .none := if_neg hfd
    rw [opened_free (getFile_slot (congrArg OpenFile.fp hnone))] at hopened
    cases hopened

/-- The offset is another. -/
theorem opened_ptr (slots : FileSlots) (fd ptr : UInt32) :
    opened regular (Function.update slots fd { slots fd with ptr := ptr }) fd =
      (slots.opened regular fd).map fun o => (o.1, ptr) := by
  have hfile : getFile (Function.update slots fd { slots fd with ptr := ptr }) fd =
      getFile slots fd := by
    unfold getFile
    rw [Function.update_self]
  unfold opened
  rw [hfile, Function.update_self]
  split
  · rfl
  · cases regular (getFile slots fd) with
    | none => rfl
    | some ino => rfl

/-- **Bytes come.** -/
theorem InOrder.advance (h : slots.InOrder regular contents got) {ino : Nat} {ptr ret : UInt32}
    (hopened : slots.opened regular fd = some (ino, ptr))
    (hfit : ptr.toNat + ret.toNat ≤ (contents ino).length)
    (hlen : (contents ino).length < 2 ^ 32) :
    InOrder regular contents (Function.update slots fd { slots fd with ptr := ptr + ret })
      (Function.update got fd
        (got fd ++ ((contents ino).drop ptr.toNat).take ret.toNat)) := by
  have hsum : (ptr + ret).toNat = ptr.toNat + ret.toNat := by
    rw [UInt32.toNat_add, Nat.mod_eq_of_lt (Nat.lt_of_le_of_lt hfit hlen)]
  refine h.change (fun fd' hne => Function.update_of_ne hne _ _) fun ino' ptr' hopened' => ?_
  rw [opened_ptr, hopened] at hopened'
  cases hopened'
  rw [hsum, (h fd ino ptr hopened).2]
  exact ⟨hfit, List.take_add.symm⟩

end FileSlots

/-! ## Runs -/

inductive FileCall
  | open (p fp : Nat) (flag : UInt32)
  | close (p : Nat) (fd : UInt32)
  | read (p : Nat) (fd : UInt32) (buf : Option Buffer) (size : UInt32)
      (other : UInt32 × Option Buffer)
  | write (p : Nat) (fd : UInt32) (other : UInt32)
  | dup2 (p : Nat) (oldfd newfd : UInt32)
  | fork (p : Nat) (made : Bool)
  | create (parent : Option Nat) (self tty : Nat)
  | execv (fp : Nat) (buf : Option Buffer) (size : UInt32) (self tty : Nat)
  | destroy (p : Nat)

namespace OpenFiles

variable {σ : Type} (regular : Nat → Option Nat) (s : OpenFiles σ)

/-- The regular file behind a descriptor of the process `p`, and the offset. -/
def opened (p : Nat) (fd : UInt32) : Option (Nat × UInt32) :=
  (s.openfp p).bind fun slots => slots.opened regular fd

end OpenFiles

/-- The open files, and what the descriptors have brought. -/
structure Streams (σ : Type) where
  files : OpenFiles σ
  got : Nat → UInt32 → List UInt8

namespace Streams

variable {σ : Type} (m : Ext2Mount σ) (regular : Nat → Option Nat)

/-- Nobody has opened anything. -/
def start (v : Volume σ) : Streams σ := ⟨⟨fun _ => none, 0, v⟩, fun _ _ => []⟩

/-- What `fd` of the process `p` has brought is `bytes`. -/
def bring (got : Nat → UInt32 → List UInt8) (p : Nat) (fd : UInt32) (bytes : List UInt8) :
    Nat → UInt32 → List UInt8 :=
  Function.update got p (Function.update (got p) fd bytes)

def step (s : Streams σ) : FileCall → Option (Streams σ)
  | .open p fp flag =>
      (s.files.callOpen p fp flag).map fun r => ⟨r.2, bring s.got p r.1 []⟩
  | .close p fd => (s.files.callClose p fd).map fun files => ⟨files, s.got⟩
  | .read p fd buf size other =>
      (s.files.callRead m regular p fd buf size other).map fun r =>
        ⟨r.2, match s.files.opened regular p fd with
          | none => s.got
          | some _ => bring s.got p fd
              (s.got p fd ++ (List.range r.1.1.toNat).map (r.1.2.getD fun _ => 0))⟩
  | .write p fd other => (s.files.callWrite regular p fd other).map fun r => ⟨r.2, s.got⟩
  | .dup2 p oldfd newfd =>
      (s.files.callDup2 p oldfd newfd).map fun r => ⟨r.2, bring s.got p newfd []⟩
  | .fork p made =>
      (s.files.callFork p made).map fun files => ⟨files,
        if made = true then Function.update s.got s.files.next (s.got p) else s.got⟩
  | .create parent self tty =>
      (s.files.create parent self tty).map fun files => ⟨files, match parent with
        | none => s.got
        | some q => Function.update s.got s.files.next (s.got q)⟩
  | .execv fp buf size self tty =>
      (s.files.execv m regular fp buf size self tty).map fun files => ⟨files, s.got⟩
  | .destroy p => some ⟨s.files.destroy p, s.got⟩

/-- The sizes are those of an `int`, writes go to other files, and neither a process nor
the terminal is a regular file. -/
def Admitted (s : Streams σ) : FileCall → Prop
  | .read _ _ _ size _ => size.toNat < 2 ^ 31
  | .write p fd _ => s.files.opened regular p fd = none
  | .create _ self tty => regular self = none ∧ regular tty = none
  | .execv _ _ _ self tty => regular self = none ∧ regular tty = none
  | _ => True

variable {m regular} {disk : Buffer} {cap : Nat} {good : List Bool → Volume σ → Prop}
  {contents : Nat → List UInt8}

/-- **The invariant.** -/
structure Flowing (m : Ext2Mount σ) (disk : Buffer) (good : List Bool → Volume σ → Prop)
    (regular : Nat → Option Nat) (s : Streams σ) : Prop where
  healthy : good [] s.files.volume
  inOrder : ∀ p slots, s.files.openfp p = some slots →
    slots.InOrder regular (m.contents disk) (s.got p)

variable {s : Streams σ} {p : Nat} {fd : UInt32} {slots slots' : FileSlots}
  {got : UInt32 → List UInt8} {v : Volume σ}

/-- One process changes. -/
theorem Flowing.setSlots (h : Flowing m disk good regular s) (hv : good [] v)
    (hslots : slots'.InOrder regular (m.contents disk) got) :
    Flowing m disk good regular
      ⟨{ s.files.setSlots p slots' with volume := v }, Function.update s.got p got⟩ := by
  refine ⟨hv, fun q slots hq => ?_⟩
  dsimp only [OpenFiles.setSlots] at hq ⊢
  by_cases hne : q = p
  · subst hne
    rw [Function.update_self] at hq ⊢
    cases hq
    exact hslots
  · rw [Function.update_of_ne hne] at hq ⊢
    exact h.inOrder q slots hq

/-- One process changes, but not what has come. -/
theorem Flowing.keep (h : Flowing m disk good regular s) (hv : good [] v)
    (hslots : slots'.InOrder regular (m.contents disk) (s.got p)) :
    Flowing m disk good regular ⟨{ s.files.setSlots p slots' with volume := v }, s.got⟩ := by
  have hset := h.setSlots (p := p) hv hslots
  rwa [Function.update_eq_self] at hset

/-- A process more. -/
theorem Flowing.spawn (h : Flowing m disk good regular s) (hv : good [] v)
    (hslots : slots'.InOrder regular (m.contents disk) got) :
    Flowing m disk good regular
      ⟨{ s.files.spawn slots' with volume := v }, Function.update s.got s.files.next got⟩ :=
  ⟨hv, (h.setSlots hv hslots).inOrder⟩

/-- A process more, of which nothing has come. -/
theorem Flowing.spawn_keep (h : Flowing m disk good regular s) (hv : good [] v)
    (hslots : slots'.InOrder regular (m.contents disk) (s.got s.files.next)) :
    Flowing m disk good regular ⟨{ s.files.spawn slots' with volume := v }, s.got⟩ :=
  ⟨hv, (h.keep hv hslots).inOrder⟩

theorem Flowing.terminals (h : Flowing m disk good regular s) (hv : good [] v) {tty : Nat}
    (htty : regular tty = none) {self : Nat} {files : OpenFiles σ}
    (hs : { s.files with volume := v }.create none self tty = some files) :
    Flowing m disk good regular ⟨files, s.got⟩ := by
  cases hs
  exact h.spawn_keep hv ((((FileSlots.InOrder.empty _ _ _).addOther htty 0).addOther htty 0).addOther
    htty 0)

theorem opened_some {ino : Nat} {ptr : UInt32}
    (h : s.files.opened regular p fd = some (ino, ptr)) :
    ∃ slots, s.files.openfp p = some slots ∧ getFile slots fd ≠ 0 ∧
      regular (getFile slots fd) = some ino ∧ (slots fd).ptr = ptr ∧
      slots.opened regular fd = some (ino, ptr) := by
  obtain ⟨slots, hslots, hopened⟩ := Option.bind_eq_some_iff.mp h
  by_cases hfp : getFile slots fd = 0
  · rw [FileSlots.opened_free hfp] at hopened
    cases hopened
  · have hsome := hopened
    rw [FileSlots.opened_regular regular hfp] at hsome
    obtain ⟨ino', hino, heq⟩ := Option.map_eq_some_iff.mp hsome
    cases heq
    exact ⟨slots, hslots, hfp, hino, rfl, hopened⟩

section
variable (hw : m.Works disk cap good)
  (hfiles : ∀ fp ino, regular fp = some ino →
    m.FileOn disk cap ino ∧ (m.contents disk ino).length < 2 ^ 31)
  (h : Flowing m disk good regular s)
include hw hfiles h

/-- **A read of a regular file** brings what comes next. -/
theorem Flowing.read {ino : Nat} {ptr size : UInt32}
    (hopened : s.files.opened regular p fd = some (ino, ptr)) (hsize : size.toNat < 2 ^ 31)
    (b : Buffer) (other : UInt32 × Option Buffer) :
    ∃ slots ret b' v', s.files.openfp p = some slots ∧
      s.files.callRead m regular p fd (some b) size other = some ((ret, some b'),
        { s.files.setSlots p (Function.update slots fd { slots fd with ptr := ptr + ret }) with
          volume := v' }) ∧
      good [] v' ∧ ptr.toNat + ret.toNat ≤ (m.contents disk ino).length ∧
      ret.toNat = min size.toNat ((m.contents disk ino).length - ptr.toNat) ∧
      (List.range ret.toNat).map b' = ((m.contents disk ino).drop ptr.toNat).take ret.toNat ∧
      ∀ i, ret.toNat ≤ i → b' i = b i := by
  obtain ⟨slots, hslots, hfp, hino, hptr, hslot⟩ := opened_some hopened
  obtain ⟨hf, hshort⟩ := hfiles _ _ hino
  have hat := (h.inOrder p slots hslots fd ino ptr hslot).1
  obtain ⟨r, v', b', hread, hv', hbuffer, hret, hbytes, hkept⟩ :=
    Ext2Mount.regularFile_read hw hf h.healthy b ptr.toNat size.toNat (by omega)
  have hnat : (UInt32.ofNat r.ret).toNat = r.ret := by
    rw [UInt32.toNat_ofNat', Nat.mod_eq_of_lt]
    omega
  refine ⟨slots, .ofNat r.ret, b', v', hslots, ?_, hv', ?_, hnat.trans hret, ?_, ?_⟩
  · unfold OpenFiles.callRead
    rw [hslots]
    dsimp only [bind, Option.bind]
    rw [if_neg hfp, hino]
    dsimp only
    rw [hptr, hread]
    dsimp only
    rw [hbuffer]
  · rw [hnat]
    omega
  · rw [hnat, hbytes, List.take_eq_take_iff, List.length_drop]
    omega
  · rw [hnat]
    exact hkept

/-- Without a buffer nothing comes. -/
theorem Flowing.read_null {ino : Nat} {ptr : UInt32}
    (hopened : s.files.opened regular p fd = some (ino, ptr)) (size : UInt32)
    (other : UInt32 × Option Buffer) :
    ∃ slots v', s.files.openfp p = some slots ∧
      s.files.callRead m regular p fd none size other = some ((0, none),
        { s.files.setSlots p (Function.update slots fd { slots fd with ptr := ptr + 0 }) with
          volume := v' }) ∧ good [] v' := by
  obtain ⟨slots, hslots, hfp, hino, hptr, hslot⟩ := opened_some hopened
  obtain ⟨v', hread, hv'⟩ := Ext2Mount.regularFile_read_null hw (hfiles _ _ hino).1
    h.healthy ptr.toNat size.toNat
  refine ⟨slots, v', hslots, ?_, hv'⟩
  unfold OpenFiles.callRead
  rw [hslots]
  dsimp only [bind, Option.bind]
  rw [if_neg hfp, hino]
  dsimp only
  rw [hptr, hread]
  rfl

theorem Flowing.step_read {t : Streams σ} {size : UInt32} {buf : Option Buffer}
    {other : UInt32 × Option Buffer} (hsize : size.toNat < 2 ^ 31)
    (hs : step m regular s (.read p fd buf size other) = some t) :
    Flowing m disk good regular t := by
  have hbs := (hw.answers.blockSize_bound h.healthy).1
  unfold step at hs
  dsimp only at hs
  cases hopened : s.files.opened regular p fd with
  | some o =>
      obtain ⟨ino, ptr⟩ := o
      rw [hopened] at hs
      obtain ⟨slots₀, hslots₀, hfp, hino, hptr, hslot⟩ := opened_some hopened
      have hlen := Ext2Mount.contents_length_lt disk ino hbs
      cases buf with
      | none =>
          obtain ⟨slots, v', hslots, hcall, hv'⟩ := h.read_null hw hfiles hopened size other
          rw [hslots₀] at hslots
          cases hslots
          rw [hcall] at hs
          cases hs
          have hat := h.inOrder p slots₀ hslots₀ fd ino ptr hslot
          have hfit : ptr.toNat + (0 : UInt32).toNat ≤ (m.contents disk ino).length := by
            rw [UInt32.toNat_zero, Nat.add_zero]
            exact hat.1
          exact h.setSlots hv' ((h.inOrder p slots₀ hslots₀).advance hslot hfit hlen)
      | some b =>
          obtain ⟨slots, ret, b', v', hslots, hcall, hv', hfit, hret, hbytes, -⟩ :=
            h.read hw hfiles hopened hsize b other
          rw [hslots₀] at hslots
          cases hslots
          rw [hcall] at hs
          cases hs
          have hnow := (h.inOrder p slots₀ hslots₀).advance hslot hfit hlen
          rw [← hbytes] at hnow
          exact h.setSlots hv' hnow
  | none =>
      rw [hopened] at hs
      obtain ⟨r, hcall, rfl⟩ := Option.map_eq_some_iff.mp hs
      obtain ⟨slots, hslots, hcall⟩ := Option.bind_eq_some_iff.mp hcall
      have hslot : slots.opened regular fd = none := Option.bind_eq_none_iff.mp hopened slots hslots
      by_cases hfp : getFile slots fd = 0
      · rw [if_pos hfp] at hcall
        cases hcall
        exact h
      · have hnone := FileSlots.opened_regular regular hfp
        rw [hslot] at hnone
        rw [if_neg hfp, Option.map_eq_none_iff.mp hnone.symm] at hcall
        cases hcall
        refine h.keep h.healthy ((h.inOrder p slots hslots).lose
          (fun fd' hne => Function.update_of_ne hne _ _) ?_)
        rw [FileSlots.opened_ptr, hslot]
        rfl

/-- **The step lemma.** -/
theorem Flowing.step {t : Streams σ} {c : FileCall} (hok : Admitted regular s c)
    (hs : step m regular s c = some t) : Flowing m disk good regular t := by
  cases c with
  | «open» p fp flag =>
      obtain ⟨r, hcall, rfl⟩ := Option.map_eq_some_iff.mp hs
      obtain ⟨slots, hslots, hcall⟩ := Option.bind_eq_some_iff.mp hcall
      split at hcall
      · cases hcall
      · cases hcall
        exact h.setSlots h.healthy ((h.inOrder p slots hslots).addFile fp flag)
  | close p fd =>
      obtain ⟨files, hcall, rfl⟩ := Option.map_eq_some_iff.mp hs
      obtain ⟨slots, hslots, hcall⟩ := Option.bind_eq_some_iff.mp hcall
      split at hcall
      · cases hcall
        exact h
      · cases hcall
        exact h.keep h.healthy ((h.inOrder p slots hslots).deleteFile fd)
  | read p fd buf size other => exact h.step_read hw hfiles hok hs
  | write p fd other =>
      obtain ⟨r, hcall, rfl⟩ := Option.map_eq_some_iff.mp hs
      obtain ⟨slots, hslots, hcall⟩ := Option.bind_eq_some_iff.mp hcall
      have hslot : slots.opened regular fd = none := Option.bind_eq_none_iff.mp hok slots hslots
      dsimp only at hcall
      split at hcall
      · cases hcall
        exact h
      · cases hcall
        refine h.keep h.healthy ((h.inOrder p slots hslots).lose
          (fun fd' hne => Function.update_of_ne hne _ _) ?_)
        rw [FileSlots.opened_ptr, hslot]
        rfl
  | dup2 p oldfd newfd =>
      obtain ⟨r, hcall, rfl⟩ := Option.map_eq_some_iff.mp hs
      obtain ⟨slots, hslots, hcall⟩ := Option.bind_eq_some_iff.mp hcall
      cases hcall
      exact h.setSlots h.healthy ((h.inOrder p slots hslots).setFile newfd _ 0)
  | fork p made =>
      obtain ⟨files, hcall, rfl⟩ := Option.map_eq_some_iff.mp hs
      obtain ⟨slots, hslots, hcall⟩ := Option.bind_eq_some_iff.mp hcall
      cases made with
      | true =>
          cases hcall
          exact h.spawn h.healthy (h.inOrder p slots hslots).forked
      | false =>
          cases hcall
          exact h
  | create parent self tty =>
      obtain ⟨hself, htty⟩ := hok
      obtain ⟨files, hcall, rfl⟩ := Option.map_eq_some_iff.mp hs
      cases parent with
      | none => exact h.terminals h.healthy htty hcall
      | some q =>
          obtain ⟨slots, hslots, hcall⟩ := Option.bind_eq_some_iff.mp hcall
          cases hcall
          exact h.spawn h.healthy ((h.inOrder q slots hslots).inherited.addOther hself 0)
  | execv fp buf size self tty =>
      obtain ⟨hself, htty⟩ := hok
      obtain ⟨files, hcall, rfl⟩ := Option.map_eq_some_iff.mp hs
      unfold OpenFiles.execv at hcall
      cases hino : regular fp with
      | none =>
          rw [hino] at hcall
          exact h.terminals h.healthy htty hcall
      | some ino =>
          rw [hino] at hcall
          obtain ⟨⟨r, v⟩, hread, hmade⟩ := Option.bind_eq_some_iff.mp hcall
          have hf := (hfiles _ _ hino).1
          cases buf with
          | none =>
              obtain ⟨v', hread', hv'⟩ :=
                Ext2Mount.regularFile_read_null hw hf h.healthy 0 size.toNat
              rw [hread'] at hread
              cases hread
              exact h.terminals hv' htty hmade
          | some b =>
              obtain ⟨r', v', b', hread', hv', -⟩ := Ext2Mount.regularFile_read hw hf h.healthy b 0 _
                (show 0 + size.toNat < 2 ^ 32 by rw [Nat.zero_add]; exact size.toNat_lt)
              rw [hread'] at hread
              cases hread
              exact h.terminals hv' htty hmade
  | destroy p =>
      cases hs
      refine ⟨h.healthy, fun q slots hq => ?_⟩
      dsimp only [OpenFiles.destroy] at hq
      by_cases hne : q = p
      · subst hne
        rw [Function.update_self] at hq
        cases hq
      · rw [Function.update_of_ne hne] at hq
        exact h.inOrder q slots hq

end

theorem start_flowing (m : Ext2Mount σ) (disk : Buffer) (regular : Nat → Option Nat)
    (hv : good [] v) : Flowing m disk good regular (start v) :=
  ⟨hv, fun p slots hp => by cases hp⟩

end Streams

def onlyFile (fp : Nat) : Option Nat := if fp = 1 then some 1 else none

/-- A process is made, opens the file, reads three bytes and forks; then both read on. -/
def readTogether : List FileCall :=
  [.create none 9 8, .open 0 1 0, .read 0 3 (some fun _ => 0) 3 (0, none), .fork 0 true,
    .read 1 3 (some fun _ => 0) 2 (0, none), .read 0 3 (some fun _ => 0) 7 (0, none)]

theorem readTogether_admitted (u : Streams Buffer) :
    ∀ c ∈ readTogether, Streams.Admitted onlyFile u c := by
  intro c hc
  simp only [readTogether, List.mem_cons, List.not_mem_nil, or_false] at hc
  rcases hc with rfl | rfl | rfl | rfl | rfl | rfl
  · exact ⟨rfl, rfl⟩
  · trivial
  · show (3 : UInt32).toNat < 2 ^ 31
    decide
  · trivial
  · show (2 : UInt32).toNat < 2 ^ 31
    decide
  · show (7 : UInt32).toNat < 2 ^ 31
    decide

end KmOS
