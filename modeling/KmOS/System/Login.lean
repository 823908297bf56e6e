/-
# `KmOS.System.Login` — `System::login` and `System::getUser`

Both compare with `strncmp`, and both take the length of what is stored as the
bound: of the password, and of the name of each user on the list.  So what is
stored has to be a prefix of what is given, and not the same.

Users are named by their addresses, 0 is `NULL`.  `login` reads the length of the
password out of an array of 512 bytes; were there no 0 in it, the read would be out
of range.
-/
import KmOS.Runtime.Strings
import KmOS.System.Variable

namespace KmOS

/-! ## `User` -/

/-- `class User`. -/
structure User where
  name : CString
  password : Buffer
  unext : Nat

/-- `sizeof(password)`. -/
def passwordSize : Nat := 512

/-- `strncpy`. -/
def strncpy (dst : Buffer) (src : CString) (maxLength : Nat) : Buffer :=
  memcpy dst 0 (fun i => src.chars.getD i 0) 0 (strncpyCount src.chars maxLength)

namespace User

def setPassword (user : User) (n : Option CString) : User :=
  match n with
  | none => user
  | some n =>
      let password := memcpy user.password 0 (fun _ => 0) 0 passwordSize
      { user with password := strncpy password n (passwordSize - 1) }

def getPassword (user : User) : Option Buffer :=
  if user.password 0 = 0 then none else some user.password

end User

/-! ## `System` -/

def returnOk : Int := 0
def paramNull : Int := -3
def errorParam : Int := -4
def returnFailure : Int := -128

/-- The users, and the members of `class System` that `login` and `getUser` use. -/
structure System where
  user : Nat → User
  listuser : Nat
  actual : Nat
  uservar : Variable
  heap : Heap

namespace System

/-- `us->setPassword(n)`. -/
def setPassword (sys : System) (us : Nat) (n : Option CString) : System :=
  { sys with user := Function.update sys.user us ((sys.user us).setPassword n) }

/-- The end of `login`. -/
def enter (sys : System) (us : Nat) : System :=
  let name := (sys.user us).name.chars
  let (_, uservar, heap) := sys.uservar.write sys.heap 0 (fun i => name.getD i 0) name.length
  { sys with uservar := uservar, heap := heap, actual := us }

/-- `System::login`. -/
def login (sys : System) (us : Nat) (pass : Option CString) : Except Fault (Int × System) :=
  if us = 0 then .ok (errorParam, sys)
  else
    match (sys.user us).getPassword with
    | none => .ok (returnOk, sys.enter us)
    | some password =>
        match pass with
        | none => .ok (paramNull, sys)
        | some pass =>
            match strlen password passwordSize 0 with
            | none => .error .outOfRange
            | some n =>
                if strncmp pass.chars ((List.range n).map password) n ≠ 0 then
                  .ok (returnFailure, sys)
                else .ok (returnOk, sys.enter us)

/-- The loop of `getUser`. -/
def getUserLoop (user : Nat → User) (nae : CString) : Nat → Nat → Option Nat
  | 0, _ => none
  | fuel + 1, us =>
      if us = 0 then some 0
      else if strncmp nae.chars (user us).name.chars (user us).name.chars.length = 0 then some us
      else getUserLoop user nae fuel (user us).unext

/-- `System::getUser`. -/
def getUser (sys : System) (nae : CString) (fuel : Nat) : Option Nat :=
  getUserLoop sys.user nae fuel sys.listuser

/-- `System::addUserToList`. -/
def addUserToList (sys : System) (us : Nat) : System :=
  if us = 0 then sys
  else
    { sys with
      user := Function.update sys.user us { sys.user us with unext := sys.listuser }
      listuser := us }

/-- The users on the list, all of different names. -/
structure Users (sys : System) (l : List Nat) : Prop where
  linked : Sll 0 (fun us => (sys.user us).unext) sys.listuser l
  distinct : ∀ us ∈ l, ∀ other ∈ l,
    (sys.user us).name.chars = (sys.user other).name.chars → us = other

variable {sys : System} {l : List Nat} {us fuel : Nat} {s a n : CString}

/-- The list grows at its head. -/
theorem Users.addUserToList (h : sys.Users l) (hus : us ≠ 0) (hout : us ∉ l)
    (hname : ∀ other ∈ l, (sys.user other).name.chars ≠ (sys.user us).name.chars) :
    (sys.addUserToList us).Users (us :: l) := by
  have hself : (sys.addUserToList us).user us = { sys.user us with unext := sys.listuser } := by
    rw [System.addUserToList, if_neg hus]
    exact Function.update_self ..
  have hother : ∀ other ∈ l, (sys.addUserToList us).user other = sys.user other := by
    intro other ho
    have hne : other ≠ us := fun e => hout (e ▸ ho)
    rw [System.addUserToList, if_neg hus]
    exact Function.update_of_ne hne ..
  have hhead : (sys.addUserToList us).listuser = us := by
    rw [System.addUserToList, if_neg hus]
  constructor
  · rw [hhead]
    exact h.linked.push hus (congrArg User.unext hself)
      (fun other ho => congrArg User.unext (hother other ho))
  · intro u hu w hw he
    rcases List.mem_cons.mp hu with hu' | hu' <;> rcases List.mem_cons.mp hw with hw' | hw'
    · exact hu'.trans hw'.symm
    · rw [hu', hself, hother w hw'] at he
      exact absurd he.symm (hname w hw')
    · rw [hw', hself, hother u hu'] at he
      exact absurd he (hname u hu')
    · rw [hother u hu', hother w hw'] at he
      exact h.distinct u hu' w hw' he

/-! ## `login` -/

/-- `login` lets the attempt in, and the password is `s`. -/
def LoginExact (sys : System) (us : Nat) (s a : CString) : Prop :=
  (∃ sys', (sys.setPassword us (some s)).login us (some a) = .ok (returnOk, sys')) ↔
    a.chars = s.chars

/-- The bytes of a string with the one that ends it. -/
theorem getElem?_terminated {s : List UInt8} {j : Nat} (hj : j ≤ s.length) :
    (s ++ [0])[j]? = some (s.getD j 0) := by
  rw [List.getD_eq_getElem?_getD]
  rcases Nat.lt_or_eq_of_le hj with hlt | rfl
  · rw [List.getElem?_append_left hlt, List.getElem?_eq_getElem hlt]
    rfl
  · rw [List.getElem?_append_right (Nat.le_refl _), Nat.sub_self,
      List.getElem?_eq_none (Nat.le_refl _)]
    rfl

/-- A short password comes back from the array. -/
theorem setPassword_stringAt {user : User} (hlen : s.chars.length ≤ 254) :
    StringAt (user.setPassword (some s)).password 0 s.chars := by
  have hcount : strncpyCount s.chars 511 = s.chars.length + 1 := by
    have hbound : s.chars.take 255 = s.chars := List.take_of_length_le (by omega)
    have hall := takeWhile_take (n := 255) s.noNul
    rw [hbound] at hall
    have hcap : (if 255 < 511 then 255 else 511) = 255 := rfl
    rw [strncpyCount, hcap, hbound, hall]
    exact if_pos (by omega)
  have hpassword : (user.setPassword (some s)).password =
      strncpy (memcpy user.password 0 (fun _ => 0) 0 passwordSize) s 511 := rfl
  refine ⟨s.noNul, ListAt.iff_getElem?.mpr fun j hj => ?_⟩
  rw [List.length_append, List.length_singleton] at hj
  have hin : 0 ≤ 0 + j ∧ 0 + j < 0 + (s.chars.length + 1) := ⟨Nat.zero_le _, by omega⟩
  rw [hpassword, strncpy, hcount, memcpy, if_pos hin, Nat.zero_add, Nat.sub_zero, Nat.zero_add]
  exact getElem?_terminated (Nat.le_of_lt_succ hj)

/-- **`login`** takes every attempt that starts with the password. -/
theorem login_ok_iff (hus : us ≠ 0) (hs : s.chars ≠ []) (hlen : s.chars.length ≤ 254) :
    (∃ sys', (sys.setPassword us (some s)).login us (some a) = .ok (returnOk, sys')) ↔
      s.chars <+: a.chars := by
  have hstr : StringAt ((sys.setPassword us (some s)).user us).password 0 s.chars := by
    have hself : (sys.setPassword us (some s)).user us = (sys.user us).setPassword (some s) :=
      Function.update_self ..
    rw [hself]
    exact setPassword_stringAt hlen
  generalize sys.setPassword us (some s) = sys' at hstr ⊢
  generalize hpw : (sys'.user us).password = password at hstr
  have hfirst : password 0 ≠ 0 := by
    obtain ⟨c, t, hct⟩ := List.exists_cons_of_ne_nil hs
    obtain ⟨hc, h0, -⟩ := StringAt.cons_iff.mp (hct ▸ hstr)
    exact h0 ▸ hc
  have hget : (sys'.user us).getPassword = some password := by
    rw [User.getPassword, hpw, if_neg hfirst]
  have hread : (List.range s.chars.length).map password = s.chars := hstr.listAt.map_range
  have hlen' : strlen password passwordSize 0 = some s.chars.length :=
    strlen_eq hstr (Nat.lt_of_le_of_lt hlen (by decide))
  have hcmp := strncmp_length_eq_zero_iff a.chars s.noNul
  have hlogin : sys'.login us (some a) =
      if strncmp a.chars s.chars s.chars.length ≠ 0 then .ok (returnFailure, sys')
      else .ok (returnOk, sys'.enter us) := by
    rw [login, if_neg hus, hget]
    dsimp only
    rw [hlen']
    dsimp only
    rw [hread]
  rw [hlogin, ← hcmp]
  by_cases h0 : strncmp a.chars s.chars s.chars.length = 0
  · rw [if_neg (not_not.mpr h0)]
    exact iff_of_true ⟨_, rfl⟩ h0
  · rw [if_pos h0]
    exact iff_of_false (fun ⟨_, h⟩ => nomatch (Prod.mk.inj (Except.ok.inj h)).1) h0

/-! ## `getUser` -/

/-- A search with a weaker test finds just what has the property, if nothing else that
passes stands in front of it. -/
theorem find?_exact_iff {α : Type} {p : α → Bool} {q : α → Prop} {l : List α}
    (hqp : ∀ a ∈ l, q a → p a = true) (huniq : ∀ a ∈ l, ∀ b ∈ l, q a → q b → a = b) :
    (∀ a, l.find? p = some a ↔ a ∈ l ∧ q a) ↔
      ∀ front a rest, l = front ++ a :: rest → p a = true → ¬q a → ∃ b ∈ front, q b := by
  induction l with
  | nil =>
      refine iff_of_true (fun a => iff_of_false nofun nofun) (fun front a rest h => ?_)
      cases front with
      | nil => exact nomatch h
      | cons b front => exact nomatch h
  | cons c l ih =>
      have ih' := ih (fun a ha => hqp a (List.mem_cons_of_mem c ha))
        (fun a ha b hb => huniq a (List.mem_cons_of_mem c ha) b (List.mem_cons_of_mem c hb))
      by_cases hp : p c = true
      · rw [List.find?_cons_of_pos hp]
        by_cases hq : q c
        · -- the first has the property, and everything else is behind it
          refine iff_of_true (fun a => ?_) (fun front a rest h _ hna => ?_)
          · rw [Option.some.injEq]
            refine ⟨fun h => h ▸ ⟨List.mem_cons_self, hq⟩, fun h => ?_⟩
            exact huniq c List.mem_cons_self a h.1 hq h.2
          · cases front with
            | nil =>
                obtain ⟨rfl, -⟩ := List.cons.inj h
                exact absurd hq hna
            | cons b front =>
                obtain ⟨rfl, -⟩ := List.cons.inj h
                exact ⟨c, List.mem_cons_self, hq⟩
        · refine iff_of_false (fun h => hq ((h c).mp rfl).2) (fun h => ?_)
          obtain ⟨b, hb, -⟩ := h [] c l rfl hp hq
          exact nomatch hb
      · have hq : ¬q c := fun h => hp (hqp c List.mem_cons_self h)
        rw [List.find?_cons_of_neg hp]
        have hmem : ∀ a, a ∈ c :: l ∧ q a ↔ a ∈ l ∧ q a := by
          refine fun a => ⟨fun ⟨ha, hqa⟩ => ⟨?_, hqa⟩, fun ⟨ha, hqa⟩ => ⟨List.mem_cons_of_mem c ha, hqa⟩⟩
          exact (List.mem_cons.mp ha).resolve_left (fun e => hq (e ▸ hqa))
        simp only [hmem]
        rw [ih']
        constructor
        · intro h front a rest he hpa hqa
          cases front with
          | nil =>
              obtain ⟨rfl, -⟩ := List.cons.inj he
              exact absurd hpa hp
          | cons b front =>
              obtain ⟨rfl, he'⟩ := List.cons.inj he
              obtain ⟨d, hd, hqd⟩ := h front a rest he' hpa hqa
              exact ⟨d, List.mem_cons_of_mem c hd, hqd⟩
        · intro h front a rest he hpa hqa
          obtain ⟨d, hd, hqd⟩ := h (c :: front) a rest (congrArg (c :: ·) he) hpa hqa
          exact ⟨d, (List.mem_cons.mp hd).resolve_left (fun e => hq (e ▸ hqd)), hqd⟩

/-- `getUser` finds the user named `n`, and nobody if there is none. -/
def FindsExactly (sys : System) (l : List Nat) (n : CString) (fuel : Nat) : Prop :=
  ∃ r, sys.getUser n fuel = some r ∧
    ∀ us, us ≠ 0 → (r = us ↔ us ∈ l ∧ (sys.user us).name.chars = n.chars)

/-- A user whose name is a part of `n`, from its start on, comes behind the one
named `n`. -/
def Unshadowed (sys : System) (l : List Nat) (n : CString) : Prop :=
  ∀ front us rest, l = front ++ us :: rest → (sys.user us).name.chars <+: n.chars →
    (sys.user us).name.chars ≠ n.chars → ∃ other ∈ front, (sys.user other).name.chars = n.chars

theorem getUser_eq (hl : sys.Users l) (hf : l.length < fuel) :
    sys.getUser n fuel =
      some ((l.find? fun us => (sys.user us).name.chars.isPrefixOf n.chars).getD 0) := by
  refine hl.linked.search hf (fun fuel => if_pos rfl) (fun fuel us _ hus => ?_)
  have hcmp := strncmp_length_eq_zero_iff n.chars (sys.user us).name.noNul
  rw [getUserLoop, if_neg hus]
  exact ite_congr (propext (hcmp.trans List.isPrefixOf_iff_prefix.symm)) (fun _ => rfl) (fun _ => rfl)

/-- **`getUser`** is exact if no name shadows another. -/
theorem findsExactly_iff (hl : sys.Users l) (hf : l.length < fuel) :
    FindsExactly sys l n fuel ↔ Unshadowed sys l n := by
  let p := fun us => (sys.user us).name.chars.isPrefixOf n.chars
  have hfind : FindsExactly sys l n fuel ↔
      ∀ us, l.find? p = some us ↔ us ∈ l ∧ (sys.user us).name.chars = n.chars := by
    -- null is nobody on the list
    have hnull : ∀ us, us = 0 → (l.find? p = some us ↔ us ∈ l ∧ (sys.user us).name.chars = n.chars) :=
      fun us h0 => iff_of_false
        (fun h => hl.linked.ne_null us (List.mem_of_find?_eq_some h) h0)
        (fun h => hl.linked.ne_null us h.1 h0)
    have hgetD : ∀ us, us ≠ 0 → ((l.find? p).getD 0 = us ↔ l.find? p = some us) := by
      intro us hus
      cases l.find? p with
      | none => exact iff_of_false (fun h => hus h.symm) nofun
      | some v => exact (Option.some.injEq v us ▸ Iff.rfl)
    constructor
    · rintro ⟨r, hr, h⟩ us
      rw [getUser_eq hl hf] at hr
      obtain rfl := Option.some.inj hr
      by_cases h0 : us = 0
      · exact hnull us h0
      · rw [← hgetD us h0]
        exact h us h0
    · intro h
      refine ⟨_, getUser_eq hl hf, fun us h0 => ?_⟩
      rw [hgetD us h0]
      exact h us
  rw [hfind, find?_exact_iff]
  · unfold Unshadowed
    simp only [p, List.isPrefixOf_iff_prefix]
  · intro us _ hq
    exact List.isPrefixOf_iff_prefix.mpr (hq ▸ List.prefix_refl _)
  · intro us hu other ho hq hq'
    exact hl.distinct us hu other ho (hq.trans hq'.symm)

/-- **Authentication** is exact for an attempt that does not go on behind the
password, and the search for a name on which no other name encroaches. -/
theorem authentication_exact_iff (sys : System) (l : List Nat) (hl : sys.Users l) (us : Nat)
    (hus : us ≠ 0) (s : CString) (hs : s.chars ≠ []) (hlen : s.chars.length ≤ 254) (a n : CString)
    (fuel : Nat) (hf : l.length < fuel) :
    (LoginExact sys us s a ↔ (s.chars <+: a.chars → a.chars = s.chars)) ∧
      (FindsExactly sys l n fuel ↔ Unshadowed sys l n) := by
  refine ⟨?_, findsExactly_iff hl hf⟩
  rw [LoginExact, login_ok_iff hus hs hlen]
  exact ⟨fun h => h.mp, fun h => ⟨h, fun e => e ▸ List.prefix_refl _⟩⟩

/-- The password `s`, and the attempt `sx`. -/
def letterS : CString := ⟨[0x73], by decide⟩

def lettersSx : CString := ⟨[0x73, 0x78], by decide⟩

/-- One user, named `s`. -/
def oneUser : System where
  user _ := { name := letterS, password := fun _ => 0, unext := 0 }
  listuser := 1
  actual := 0
  uservar := { value := none, size := 0 }
  heap := richHeap

theorem oneUser_users : oneUser.Users [1] where
  linked := ⟨rfl, by decide, rfl⟩
  distinct us hus other hother _ :=
    (List.mem_singleton.mp hus).trans (List.mem_singleton.mp hother).symm

theorem login_longer_attempt :
    ¬LoginExact oneUser 1 letterS lettersSx ∧ ¬FindsExactly oneUser [1] lettersSx 2 := by
  constructor
  · intro h
    exact absurd (h.mp ((login_ok_iff (by decide) (by decide) (by decide)).mpr (by decide)))
      (by decide)
  · intro h
    obtain ⟨other, ho, -⟩ := (findsExactly_iff oneUser_users (by decide)).mp h [] 1 [] rfl
      (by decide) (by decide)
    exact nomatch ho

theorem authentication_exact_s :
    LoginExact oneUser 1 letterS letterS ∧
      (FindsExactly oneUser [1] letterS 2 ↔ Unshadowed oneUser [1] letterS) := by
  have h := authentication_exact_iff oneUser [1] oneUser_users 1 (by decide) letterS (by decide)
    (by decide) letterS letterS 2 (by decide)
  exact ⟨h.1.mpr (fun _ => rfl), h.2⟩

end System

end KmOS
