import IntroNP.Chat.Request

/-!
# The chat server: a directory of accounts

What the session commands are for, said once: a table of accounts, each with a password and, while it is in use, the
socket it is used from and a status. No socket uses two accounts; that is a field of `Directory`, so that every
operation keeps it by being one.

`Directory.answer` says what a line with a session command does to the directory and what is answered. `accounts` is the
system of the directory under the events of the chat server. It has the flag of the rooms, by which an `exit` is heeded
or not; how the flag changes is not its business.
-/

namespace IntroNP.Chat

open Std

/-- Where an account is used from, and the status its user has set. -/
structure Presence where
  socket : Int
  status : Text
  deriving DecidableEq

/-- The status that others see. -/
def shownStatus : Option Presence → Text
  | some p => p.status
  | none => "offline"

structure Account where
  password : Text
  presence : Option Presence
  deriving DecidableEq

/-- The socket an account is used from. -/
def Account.socket (a : Account) : Option Int := a.presence.map (·.socket)

def Account.status (a : Account) : Text := shownStatus a.presence

/-- Accounts by name, no two of which are used from one socket. -/
structure Directory where
  accounts : ExtTreeMap Text Account
  unique : ∀ (u v : Text) (a b : Account) (s : Int), accounts[u]? = some a → accounts[v]? = some b →
    a.socket = some s → b.socket = some s → u = v

/-- The answer to a login that succeeds. -/
def loginReply (u : Text) : List Text := ["Welcome, ", u, ".\n% "]

namespace Directory

variable {d : Directory} {s t : Int} {u v p st : Text} {a b : Account} {l : Text}

def empty : Directory := ⟨∅, fun _ _ _ _ _ h => by simp at h⟩

/-- The account that is used from `s`. -/
def user (d : Directory) (s : Int) : Option Text :=
  (d.accounts.toList.find? fun e => e.2.socket = some s).map (·.1)

theorem user_eq_some : d.user s = some u ↔ ∃ a, d.accounts[u]? = some a ∧ a.socket = some s := by
  unfold user
  rw [Option.map_eq_some_iff]
  constructor
  · rintro ⟨⟨v, a⟩, hfind, rfl⟩
    exact ⟨a, ExtTreeMap.mem_toList_iff_getElem?_eq_some.1 (List.mem_of_find?_eq_some hfind),
      by simpa using List.find?_some hfind⟩
  · rintro ⟨a, ha, hs⟩
    cases hfind : d.accounts.toList.find? fun e => e.2.socket = some s with
    | none =>
      have hno := List.find?_eq_none.1 hfind (u, a) (ExtTreeMap.mem_toList_iff_getElem?_eq_some.2 ha)
      exact absurd (decide_eq_true hs) hno
    | some e =>
      obtain ⟨v, b⟩ := e
      have hb := ExtTreeMap.mem_toList_iff_getElem?_eq_some.1 (List.mem_of_find?_eq_some hfind)
      exact ⟨(v, b), rfl, d.unique v u b a s hb ha (by simpa using List.find?_some hfind) hs⟩

theorem user_eq_none : d.user s = none ↔
    ∀ (u : Text) (a : Account), d.accounts[u]? = some a → a.socket ≠ some s := by
  constructor
  · intro h u a ha hs
    rw [user_eq_some.2 ⟨a, ha, hs⟩] at h
    cases h
  · intro h
    cases hu : d.user s with
    | none => rfl
    | some u =>
      obtain ⟨a, ha, hs⟩ := user_eq_some.1 hu
      exact absurd hs (h u a ha)

/-! ## Operations -/

/-- A new account, which nobody uses. -/
def register (d : Directory) (u p : Text) : Directory where
  accounts := d.accounts.insert u ⟨p, none⟩
  unique := by
    have hold : ∀ {v : Text} {a : Account} {s : Int}, (d.accounts.insert u ⟨p, none⟩)[v]? = some a →
        a.socket = some s → d.accounts[v]? = some a := by
      intro v a s ha hs
      rw [ExtTreeMap.getElem?_insert] at ha
      split at ha
      · cases ha
        cases hs
      · exact ha
    exact fun v w a b s ha hb hsa hsb => d.unique v w a b s (hold ha hsa) (hold hb hsb) hsa hsb

/-- The account `u` is used as `x` says, from a socket that uses no other. -/
def use (d : Directory) (u : Text) (x : Option Presence)
    (h : ∀ p ∈ x, ∀ (v : Text) (a : Account), d.accounts[v]? = some a → a.socket = some p.socket → v = u) :
    Directory where
  accounts := d.accounts.modify u fun a => { a with presence := x }
  unique := by
    have hcell : ∀ {v : Text} {a : Account} {s : Int},
        (d.accounts.modify u fun a => { a with presence := x })[v]? = some a → a.socket = some s →
        (v = u ∧ ∃ p ∈ x, p.socket = s) ∨ (v ≠ u ∧ d.accounts[v]? = some a) := by
      intro v a s ha hs
      rw [ExtTreeMap.getElem?_modify] at ha
      split at ha
      · rename_i huv
        obtain ⟨b, _, rfl⟩ := Option.map_eq_some_iff.1 ha
        obtain ⟨p, hp, rfl⟩ := Option.map_eq_some_iff.1 hs
        exact .inl ⟨(Std.compare_eq_iff_eq.1 huv).symm, p, hp, rfl⟩
      · rename_i huv
        exact .inr ⟨fun e => huv (Std.compare_eq_iff_eq.2 e.symm), ha⟩
    intro v w a b s ha hb hsa hsb
    rcases hcell ha hsa with ⟨hv, p, hp, hps⟩ | ⟨hv, hva⟩
    · rcases hcell hb hsb with ⟨hw, _⟩ | ⟨hw, hwb⟩
      · exact hv.trans hw.symm
      · exact absurd (h p hp w b hwb (hps ▸ hsb)) hw
    · rcases hcell hb hsb with ⟨hw, p, hp, hps⟩ | ⟨hw, hwb⟩
      · exact absurd (h p hp v a hva (hps ▸ hsa)) hv
      · exact d.unique v w a b s hva hwb hsa hsb

/-- A socket that uses no account begins to use `u`. -/
def login (d : Directory) (s : Int) (u : Text) (h : d.user s = none) : Directory :=
  d.use u (some ⟨s, "online"⟩) fun p hp v a ha hs => by
    cases hp
    exact absurd hs (user_eq_none.1 h v a ha)

/-- The account that is used from `s`, if any, is used no more. -/
def logout (d : Directory) (s : Int) : Directory :=
  match d.user s with
  | none => d
  | some u => d.use u none fun p hp => by cases hp

/-- The user at `s` sets a status. -/
def setStatus (d : Directory) (s : Int) (u st : Text) (h : d.user s = some u) : Directory :=
  d.use u (some ⟨s, st⟩) fun p hp v a ha hs => by
    cases hp
    exact Option.some.inj ((user_eq_some.2 ⟨a, ha, hs⟩).symm.trans h)

theorem use_accounts {x : Option Presence}
    {h : ∀ p ∈ x, ∀ (v : Text) (a : Account), d.accounts[v]? = some a → a.socket = some p.socket → v = u} :
    (d.use u x h).accounts[v]? =
      if v = u then (d.accounts[u]?).map fun a => { a with presence := x } else d.accounts[v]? := by
  unfold use
  dsimp only
  rw [ExtTreeMap.getElem?_modify]
  simp only [Std.compare_eq_iff_eq, eq_comm (a := u) (b := v)]

/-- Who is where, after the account `u` is used in another way. -/
theorem user_use {x : Option Presence}
    {h : ∀ p ∈ x, ∀ (v : Text) (a : Account), d.accounts[v]? = some a → a.socket = some p.socket → v = u}
    (hu : u ∈ d.accounts) : (d.use u x h).user t =
      if x.map (·.socket) = some t then some u else if d.user t = some u then none else d.user t := by
  obtain ⟨b, hb⟩ := Option.isSome_iff_exists.1 (ExtTreeMap.mem_iff_isSome_getElem?.1 hu)
  have hcell : ∀ v, (d.use u x h).user t = some v ↔
      (v = u ∧ x.map (·.socket) = some t) ∨ (v ≠ u ∧ d.user t = some v) := by
    intro v
    rw [user_eq_some, user_eq_some, use_accounts]
    by_cases hv : v = u
    · subst hv
      rw [if_pos rfl, hb]
      constructor
      · rintro ⟨a, ha, hs⟩
        cases ha
        exact .inl ⟨rfl, hs⟩
      · rintro (⟨_, hp⟩ | ⟨hne, _⟩)
        · exact ⟨_, rfl, hp⟩
        · exact absurd rfl hne
    · rw [if_neg hv]
      simp only [hv, false_and, false_or, ne_eq, not_false_eq_true, true_and]
  refine Option.ext fun v => (hcell v).trans ?_
  by_cases hx : x.map (·.socket) = some t
  · rw [if_pos hx]
    obtain ⟨p, hp, hps⟩ := Option.map_eq_some_iff.1 hx
    constructor
    · rintro (⟨rfl, _⟩ | ⟨hne, hv⟩)
      · rfl
      · obtain ⟨a, ha, hat⟩ := user_eq_some.1 hv
        exact absurd (h p hp v a ha (hps ▸ hat)) hne
    · exact fun hv => .inl ⟨(Option.some.inj hv).symm, hx⟩
  · rw [if_neg hx]
    split
    · rename_i hut
      constructor
      · rintro (⟨_, hxt⟩ | ⟨hne, hv⟩)
        · exact absurd hxt hx
        · exact absurd (Option.some.inj (hv.symm.trans hut)) hne
      · exact fun hv => by cases hv
    · rename_i hut
      constructor
      · rintro (⟨_, hxt⟩ | ⟨_, hv⟩)
        · exact absurd hxt hx
        · exact hv
      · exact fun hv => .inr ⟨fun e => hut (e ▸ hv), hv⟩

/-- Passwords stay. -/
theorem use_passwords {x : Option Presence}
    {h : ∀ p ∈ x, ∀ (v : Text) (a : Account), d.accounts[v]? = some a → a.socket = some p.socket → v = u} :
    (d.use u x h).accounts.map (fun _ a => a.password) = d.accounts.map fun _ a => a.password := by
  refine ExtTreeMap.ext_getElem? fun v => ?_
  rw [ExtTreeMap.getElem?_map, ExtTreeMap.getElem?_map, use_accounts]
  by_cases hv : v = u
  · subst hv
    rw [if_pos rfl]
    cases d.accounts[v]? <;> rfl
  · rw [if_neg hv]

/-- Nobody uses a new account. -/
theorem user_register (hnew : u ∉ d.accounts) : (d.register u p).user t = d.user t := by
  refine Option.ext fun v => ?_
  rw [user_eq_some, user_eq_some]
  unfold register
  dsimp only
  by_cases hv : u = v
  · subst hv
    rw [ExtTreeMap.getElem?_insert_self, ExtTreeMap.getElem?_eq_none hnew]
    constructor
    · rintro ⟨a, ha, hs⟩
      cases ha
      cases hs
    · rintro ⟨a, ha, _⟩
      cases ha
  · rw [getElem?_insert_of_ne hv]

/-- Only the socket that logs in gets a user, when nobody used the account. -/
theorem user_login {h : d.user s = none} (hfree : d.accounts[u]? = some ⟨p, none⟩) :
    (d.login s u h).user t = if t = s then some u else d.user t := by
  have hnot : d.user t ≠ some u := by
    intro ht
    obtain ⟨a, ha, hat⟩ := user_eq_some.1 ht
    rw [hfree] at ha
    cases ha
    cases hat
  have hmem : u ∈ d.accounts := by
    rw [ExtTreeMap.mem_iff_isSome_getElem?, hfree]
    rfl
  unfold login
  rw [user_use hmem, if_neg hnot]
  simp only [Option.map_some, Option.some.injEq, eq_comm]

/-- The account that somebody uses. -/
theorem mem_of_user (h : d.user s = some u) : u ∈ d.accounts := by
  obtain ⟨a, ha, _⟩ := user_eq_some.1 h
  rw [ExtTreeMap.mem_iff_isSome_getElem?, ha]
  rfl

/-- No two sockets use one account. -/
theorem user_inj (hs : d.user s = some u) (ht : d.user t = some u) : s = t := by
  obtain ⟨a, ha, has⟩ := user_eq_some.1 hs
  obtain ⟨b, hb, hbt⟩ := user_eq_some.1 ht
  rw [ha] at hb
  cases hb
  exact Option.some.inj (has.symm.trans hbt)

theorem user_logout : (d.logout s).user t = if t = s then none else d.user t := by
  unfold logout
  split
  · rename_i hs
    split
    · rename_i hts
      rw [hts, hs]
    · rfl
  · rename_i u hs
    rw [user_use (mem_of_user hs), if_neg (by simp)]
    by_cases hts : t = s
    · rw [if_pos hts, hts, if_pos hs]
    · rw [if_neg hts, if_neg fun ht => hts (user_inj ht hs)]

theorem user_setStatus (h : d.user s = some u) : (d.setStatus s u st h).user t = d.user t := by
  unfold setStatus
  rw [user_use (mem_of_user h), Option.map_some]
  by_cases hts : s = t
  · rw [if_pos (congrArg some hts), ← hts, h]
  · rw [if_neg fun e => hts (Option.some.inj e), if_neg fun ht => hts (user_inj h ht)]

/-! ## Commands -/

def onRegister (d : Directory) (l : Text) : Directory × List Text :=
  match arg l, arg' l with
  | some u, some p =>
    if u ∈ d.accounts then (d, ["Username is already used.\n% "]) else (d.register u p, ["Register successfully.\n% "])
  | _, _ => (d, ["Usage: register <username> <password>\n% "])

/-- A login succeeds on an account with the password that nobody uses, from a socket that uses no account. -/
def onLogin (d : Directory) (s : Int) (l : Text) : Directory × List Text :=
  if h : d.user s = none then
    match arg l, arg' l with
    | some u, some p =>
      if d.accounts[u]? = some ⟨p, none⟩ then (d.login s u h, loginReply u)
      else (d, ["Login failed.\n% "])
    | _, _ => (d, ["Usage: login <username> <password>\n% "])
  else (d, ["Please logout first.\n% "])

def onLogout (d : Directory) (s : Int) (l : Text) : Directory × List Text :=
  match arg l, d.user s with
  | some _, _ => (d, ["Usage: logout\n% "])
  | none, none => (d, ["Please login first.\n% "])
  | none, some u => (d.logout s, ["Bye, ", u, ".\n% "])

def onWhoami (d : Directory) (s : Int) (l : Text) : List Text :=
  match arg l, d.user s with
  | some _, _ => ["Usage: whoami\n% "]
  | none, none => ["Please login first.\n% "]
  | none, some u => [u, "\n% "]

def onSetStatus (d : Directory) (s : Int) (l : Text) : Directory × List Text :=
  match arg l with
  | none => (d, ["Usage: set-status <status>\n% "])
  | some st =>
    match h : d.user s with
    | none => (d, ["Please login first.\n% "])
    | some u =>
      if st = "online" ∨ st = "offline" ∨ st = "busy" then (d.setStatus s u st h, [u, " ", st, "\n% "])
      else (d, ["set-status failed\n% "])

theorem onSetStatus_out (hl : arg l = some st) (hu : d.user s = none) :
    d.onSetStatus s l = (d, [("Please login first.\n% " : Text)]) := by
  unfold onSetStatus
  rw [hl]
  dsimp only
  split
  · rfl
  · rename_i u h
    rw [hu] at h
    cases h

theorem onSetStatus_in (hl : arg l = some st) (hu : d.user s = some u) : d.onSetStatus s l =
    if st = "online" ∨ st = "offline" ∨ st = "busy" then (d.setStatus s u st hu, [u, " ", st, "\n% "])
    else (d, [("set-status failed\n% " : Text)]) := by
  unfold onSetStatus
  rw [hl]
  dsimp only
  split
  · rename_i h
    rw [hu] at h
    cases h
  · rename_i v h
    rw [hu] at h
    cases h
    rfl

/-- Every account with its status, in the order of the names. -/
def listing (d : Directory) : List Text := d.accounts.toList.flatMap fun e => [e.1, " ", e.2.status, "\n"]

def onListUser (d : Directory) (s : Int) (l : Text) : List Text :=
  match arg l, d.user s with
  | some _, _ => ["Usage: list-user\n% "]
  | none, none => ["Please login first.\n% "]
  | none, some _ => d.listing ++ [("% " : Text)]

/-- An `exit` that is heeded. -/
def onExit (d : Directory) (s : Int) (l : Text) : Directory × List Text :=
  match arg l, d.user s with
  | some _, _ => (d, ["Usage: exit\n% "])
  | none, none => (d, [])
  | none, some u => (d.logout s, ["Bye, ", u, ".\n"])

/-- What a line with a session command does, and what is answered. While `in_flag` is set, `exit` is none. -/
def answer (d : Directory) (inFlag : Bool) (s : Int) (l : Text) : Option (Directory × List Text) :=
  if word l = some "register".toList then some (d.onRegister l)
  else if word l = some "login".toList then some (d.onLogin s l)
  else if word l = some "logout".toList then some (d.onLogout s l)
  else if word l = some "exit".toList ∧ inFlag = false then some (d.onExit s l)
  else if word l = some "whoami".toList then some (d, d.onWhoami s l)
  else if word l = some "set-status".toList then some (d.onSetStatus s l)
  else if word l = some "list-user".toList then some (d, d.onListUser s l)
  else none

/-- What a client that connects is sent. -/
def welcome : List Text := ["*********************************\n", "** Welcome to the Chat server. **\n",
  "*********************************\n% "]

/-- The directory under the events of the chat server. A session also ends when the client is gone, without a word. Only
the other lines, which are for the rooms, may change the flag. -/
inductive Step (d : Directory) (inFlag : Bool) : Event → Directory → Bool → Prop
  | command {s : Int} {l : Text} {d' : Directory} {ts : List Text} (h : d.answer inFlag s l = some (d', ts)) :
      Step d inFlag ⟨.line s l, sendAll s ts⟩ d' inFlag
  | other {s : Int} {l : Text} {sent : List Send} {inFlag' : Bool} (h : d.answer inFlag s l = none) :
      Step d inFlag ⟨.line s l, sent⟩ d inFlag'
  | connect {s : Int} : Step d inFlag ⟨.connect s, sendAll s welcome⟩ d inFlag
  | disconnect {s : Int} : Step d inFlag ⟨.disconnect s, []⟩ (d.logout s) inFlag

end Directory

/-- The directory of accounts, from its beginning. -/
def accounts : System (Directory × Bool) Event where
  init x := x = (.empty, false)
  step x e y := x.1.Step x.2 e y.1 y.2

end IntroNP.Chat
