import IntroNP.Chat.Step

/-!
# The chat server: what a line does

`request σ s l` is what the line `l` from socket `s` asks for in state `σ`, when it is granted; a line that is refused
or only answered is `nothing`. `handleCommand_outcome` says all that `handle_command` can do: for each request, the
checks that were passed, the tables after it and what was sent. Every invariant is proved from it, and no later proof
looks into `handle_command`.
-/

namespace IntroNP.Chat

open Std

/-- What a line asks for. -/
inductive Request
  | nothing
  | register (username password : Text)
  | login (username : Text)
  | logout
  | exit
  | setStatus (status : Text)
  | enter (r : Int)
  | close (r : Int) (roomNumberStr : Text)
  | pin (r : Int) (message : Text)
  | pinNull
  | deletePin (r : Int)
  | leave (r : Int)
  | listRoom (r : Int)
  | post (r : Int) (message : Text)
  deriving DecidableEq

/-! ## Reading a line -/

/-- The first word of a line. -/
def word (l : Text) : Option Text := (strtok blanks (strncpy l bufferSize)).1

/-- What follows the first word. -/
def rest (l : Text) : Text := (strtok blanks (strncpy l bufferSize)).2

/-- The second word. -/
def arg (l : Text) : Option Text := (strtok blanks (rest l)).1

/-- The third word. -/
def arg' (l : Text) : Option Text := (strtok blanks (strtok blanks (rest l)).2).1

/-- The text that follows the first word, up to the end of the line. -/
def tailText (l : Text) : Option Text := (strtok newline (rest l)).1

def registerRequest (σ : Server) (l : Text) : Request :=
  match arg l, arg' l with
  | some username, some password =>
    if username ∈ σ.registeredUsers then .nothing else .register username password
  | _, _ => .nothing

def loginRequest (σ : Server) (s : Int) (l : Text) : Request :=
  match arg l, arg' l with
  | some username, some password =>
    if s ∉ σ.loggedInClients ∧ σ.registeredUsers[username]? = some password ∧ username ∉ σ.loggedInUsernames then
      .login username
    else .nothing
  | _, _ => .nothing

def setStatusRequest (σ : Server) (s : Int) (l : Text) : Request :=
  match arg l with
  | some status =>
    if s ∈ σ.loggedInClients ∧ (status = "online" ∨ status = "offline" ∨ status = "busy") then .setStatus status
    else .nothing
  | none => .nothing

def enterRequest (σ : Server) (s : Int) (l : Text) : Request :=
  match arg l with
  | some str => if s ∈ σ.loggedInClients ∧ 1 ≤ atoi str ∧ atoi str ≤ 100 then .enter (atoi str) else .nothing
  | none => .nothing

def closeRequest (σ : Server) (s : Int) (l : Text) : Request :=
  match arg l with
  | some str =>
    if s ∈ σ.loggedInClients ∧ atoi str ∈ σ.chatRooms ∧
      σ.chatRoomCreators.getD (atoi str) [] = σ.username s then .close (atoi str) str else .nothing
  | none => .nothing

/-- What a line that starts with `token` asks for in room `r`. -/
def roomRequest (r : Int) (token l : Text) : Request :=
  if token.head? = some '/' then
    if token = "/pin" then
      match tailText l with
      | none => .pinNull
      | some message => if message.length ≤ 150 then .pin r message else .nothing
    else if token = "/delete-pin" then .deletePin r
    else if token = "/exit-chat-room" then .leave r
    else if token = "/list-user" then .listRoom r
    else .nothing
  else
    match tailText l with
    | none => .post r token
    | some message => if message.length ≤ 150 then .post r (token ++ " ".toList ++ message) else .nothing

/-- What a line that starts with `token` asks for. -/
def tokenRequest (σ : Server) (s : Int) (token l : Text) : Request :=
  if token = "register" then registerRequest σ l
  else if token = "login" then loginRequest σ s l
  else if token = "logout" then if arg l = none ∧ s ∈ σ.loggedInClients then .logout else .nothing
  else if token = "exit" ∧ σ.inFlag = false then if arg l = none then .exit else .nothing
  else if token = "whoami" then .nothing
  else if token = "set-status" then setStatusRequest σ s l
  else if token = "list-user" then .nothing
  else if token = "enter-chat-room" then enterRequest σ s l
  else if token = "list-chat-room" then .nothing
  else if token = "close-chat-room" then closeRequest σ s l
  else
    match σ.clientChatRooms[s]? with
    | some r => roomRequest r token l
    | none => .nothing

/-- What the line `l` from `s` asks for, when it is granted. -/
def request (σ : Server) (s : Int) (l : Text) : Request :=
  match word l with
  | some token => tokenRequest σ s token l
  | none => .nothing

/-! ## What a request does -/

/-- `σ'` is `σ`, but for default cells in two tables. -/
structure Quiet (σ : Server) (s : Int) (σ' : Server) : Prop where
  eq : σ' = { σ with clientUsernames := σ'.clientUsernames, chatRoomCreators := σ'.chatRoomCreators }
  usernames : Touched [] (· = s) σ.clientUsernames σ'.clientUsernames
  creators : Touched [] (fun _ => True) σ.chatRoomCreators σ'.chatRoomCreators

/-- The tables in which `close-chat-room` looks for the owner, after it has looked. -/
def ownerLookup (σ : Server) (s r : Int) : Server :=
  { σ.touchUsername s with chatRoomCreators := σ.chatRoomCreators.insertIfNew r [] }

/-- For each request: the checks passed, and the result. -/
inductive Outcome (σ : Server) (s : Int) (l : Text) : Request → Option (Server × List Send) → Prop
  | nothing {σ' : Server} {sent : List Send} (h : Quiet σ s σ') (hs : ∀ m ∈ sent, m.socket = s) :
      Outcome σ s l .nothing (some (σ', sent))
  | register {u p : Text} {sent : List Send} (hw : word l = some "register".toList) (hu : arg l = some u)
      (hp : arg' l = some p) (hnew : u ∉ σ.registeredUsers) (hs : ∀ m ∈ sent, m.socket = s) :
      Outcome σ s l (.register u p)
        (some ({ σ with registeredUsers := σ.registeredUsers.insert u p }, sent))
  | login {u p : Text} {sent : List Send} (hout : s ∉ σ.loggedInClients) (hu : u ≠ [])
      (hreg : σ.registeredUsers[u]? = some p) (hfree : u ∉ σ.loggedInUsernames) (hs : ∀ m ∈ sent, m.socket = s) :
      Outcome σ s l (.login u)
        (some ({ σ with
            loggedInClients := σ.loggedInClients.insert s
            clientUsernames := σ.clientUsernames.insert s u
            clientStatuses := σ.clientStatuses.insert u "online"
            loggedInUsernames := σ.loggedInUsernames.insert u }, sent))
  | logout {sent : List Send} (hin : s ∈ σ.loggedInClients) (hs : ∀ m ∈ sent, m.socket = s) :
      Outcome σ s l .logout (some (σ.endSession s, sent))
  | exit {sent : List Send} (hflag : σ.inFlag = false) (hs : ∀ m ∈ sent, m.socket = s) :
      Outcome σ s l .exit
        (some ((if s ∈ σ.loggedInClients then σ.endSession s else σ.touchUsername s).close s, sent))
  | setStatus {status : Text} {sent : List Send} (hin : s ∈ σ.loggedInClients)
      (hst : status = "online" ∨ status = "offline" ∨ status = "busy") (hs : ∀ m ∈ sent, m.socket = s) :
      Outcome σ s l (.setStatus status)
        (some ({ σ.touchUsername s with
          clientStatuses := σ.clientStatuses.insert (σ.username s) status }, sent))
  | enter {str : Text} (hw : word l = some "enter-chat-room".toList) (hstr : arg l = some str)
      (hin : s ∈ σ.loggedInClients) (h1 : 1 ≤ atoi str) (h100 : atoi str ≤ 100) :
      Outcome σ s l (.enter (atoi str)) (some (enterRoom σ s (atoi str)))
  | close {str : Text} (hw : word l = some "close-chat-room".toList) (hstr : arg l = some str)
      (hin : s ∈ σ.loggedInClients) (hr : atoi str ∈ σ.chatRooms)
      (hown : σ.chatRoomCreators.getD (atoi str) [] = σ.username s) :
      Outcome σ s l (.close (atoi str) str) (some (closeRoom (ownerLookup σ s (atoi str)) s (atoi str) str))
  | pin {r : Int} {message : Text} (hr : σ.clientChatRooms[s]? = some r) (hlen : message.length ≤ 150) :
      Outcome σ s l (.pin r message) (some (pinMessage σ s r message))
  | pinNull : Outcome σ s l .pinNull none
  | deletePin {r : Int} (hr : σ.clientChatRooms[s]? = some r) :
      Outcome σ s l (.deletePin r) (some (deletePin σ s r))
  | leave {r : Int} (hr : σ.clientChatRooms[s]? = some r) : Outcome σ s l (.leave r) (some (exitChatRoom σ s))
  | listRoom {r : Int} (hr : σ.clientChatRooms[s]? = some r) :
      Outcome σ s l (.listRoom r) (some (listRoomUser σ s r))
  | post {r : Int} {message : Text} (hr : σ.clientChatRooms[s]? = some r) :
      Outcome σ s l (.post r message) (some (postMessage σ s r message))

/-! ## The outcome of every command -/

variable {σ : Server} {s : Int} {l : Text}

@[simp] theorem mem_sendAll {ts : List Text} {m : Send} : m ∈ sendAll s ts ↔ ∃ t ∈ ts, sendMessage s t = m := by
  simp [sendAll]

theorem sendAll_socket (ts : List Text) : ∀ m ∈ sendAll s ts, m.socket = s := by
  intro m hm
  obtain ⟨t, _, rfl⟩ := mem_sendAll.1 hm
  rfl

theorem Quiet.refl (σ : Server) (s : Int) : Quiet σ s σ := ⟨rfl, .refl _, .refl _⟩

theorem quiet_touchUsername : Quiet σ s (σ.touchUsername s) := ⟨rfl, .insertIfNew rfl, .refl _⟩

theorem quiet_ownerLookup (r : Int) : Quiet σ s (ownerLookup σ s r) := ⟨rfl, .insertIfNew rfl, .insertIfNew trivial⟩

/-- A line that changes nothing and is answered to its sender. -/
theorem Outcome.answer (t : Text) : Outcome σ s l .nothing (some (σ, [sendMessage s t])) :=
  .nothing (.refl σ s) (by simp [sendMessage])

theorem register_outcome (hw : word l = some "register".toList) :
    Outcome σ s l (registerRequest σ l) (some (register σ s (rest l))) := by
  unfold register registerRequest arg arg'
  dsimp only
  cases hu : (strtok blanks (rest l)).1 with
  | none => exact .answer _
  | some u =>
    cases hp : (strtok blanks (strtok blanks (rest l)).2).1 with
    | none => exact .answer _
    | some p =>
      dsimp only
      split
      · exact .answer _
      · rename_i hnew
        exact .register hw hu hp hnew (by simp [sendMessage])

theorem login_outcome : Outcome σ s l (loginRequest σ s l) (some (login σ s (rest l))) := by
  unfold login loginRequest arg arg'
  dsimp only
  cases hu : (strtok blanks (rest l)).1 with
  | none =>
    dsimp only
    split <;> exact .answer _
  | some u =>
    cases hp : (strtok blanks (strtok blanks (rest l)).2).1 with
    | none =>
    dsimp only
    split <;> exact .answer _
    | some p =>
      dsimp only
      by_cases hs : s ∈ σ.loggedInClients
      · simp only [hs, not_true_eq_false, false_and, if_false, if_true]
        exact .answer _
      by_cases hreg : σ.registeredUsers[u]? = some p
      · by_cases hfree : u ∈ σ.loggedInUsernames
        · simp only [hs, hreg, hfree, not_true_eq_false, and_false, if_false, if_true, ne_eq]
          exact .answer _
        · simp only [hs, hreg, hfree, not_false_eq_true, and_self, if_false, if_true, ne_eq, not_true_eq_false]
          exact .login hs (strtok_ne_nil hu) hreg hfree (sendAll_socket _)
      · simp only [hs, hreg, not_false_eq_true, and_false, false_and, if_false, if_true, ne_eq]
        exact .answer _

theorem logout_outcome :
    Outcome σ s l (if arg l = none ∧ s ∈ σ.loggedInClients then .logout else .nothing)
      (some (logout σ s (rest l))) := by
  unfold logout arg
  cases (strtok blanks (rest l)).1 with
  | some _ => simpa using .answer _
  | none =>
    by_cases hs : s ∈ σ.loggedInClients
    · simpa [hs] using .logout hs (sendAll_socket _)
    · simpa [hs] using .answer _

theorem exit_outcome (hflag : σ.inFlag = false) :
    Outcome σ s l (if arg l = none then .exit else .nothing) (some (exit σ s (rest l))) := by
  unfold exit arg
  cases (strtok blanks (rest l)).1 with
  | some _ => simpa using .answer _
  | none =>
    by_cases hs : s ∈ σ.loggedInClients
    · simpa [hs] using Outcome.exit (l := l) (s := s) hflag (sendAll_socket ["Bye, ", σ.username s, ".\n"])
    · have hnone : ∀ m ∈ ([] : List Send), m.socket = s := by simp
      simpa [hs] using Outcome.exit (l := l) hflag hnone

theorem whoami_outcome : Outcome σ s l .nothing (some (whoami σ s (rest l))) := by
  unfold whoami
  split
  · exact .answer _
  · split
    · exact .answer _
    · exact .nothing quiet_touchUsername (sendAll_socket _)

theorem setStatus_outcome : Outcome σ s l (setStatusRequest σ s l) (some (setStatus σ s (rest l))) := by
  unfold setStatus setStatusRequest arg
  cases (strtok blanks (rest l)).1 with
  | none => exact .answer _
  | some status =>
    dsimp only
    by_cases hs : s ∈ σ.loggedInClients
    · by_cases hst : status = "online".toList ∨ status = "offline".toList ∨ status = "busy".toList
      · simp only [hs, hst, not_true_eq_false, and_self, if_false, if_true]
        exact .setStatus hs hst (sendAll_socket _)
      · simp only [hs, hst, not_true_eq_false, and_false, if_false]
        exact .nothing quiet_touchUsername (by simp [sendMessage])
    · simp only [hs, not_false_eq_true, false_and, if_false, if_true]
      exact .answer _

theorem listUser_outcome : Outcome σ s l .nothing (some (listUser σ s (rest l))) := by
  unfold listUser
  split
  · exact .answer _
  · split
    · exact .answer _
    · refine .nothing (.refl σ s) fun m hm => ?_
      rcases List.mem_append.1 hm with hm | hm
      · obtain ⟨p, _, hm⟩ := List.mem_flatMap.1 hm
        exact sendAll_socket _ m hm
      · rw [List.mem_singleton.1 hm]
        rfl

theorem enterChatRoom_outcome (hw : word l = some "enter-chat-room".toList) :
    Outcome σ s l (enterRequest σ s l) (some (enterChatRoom σ s (rest l))) := by
  unfold enterChatRoom enterRequest
  change Outcome σ s l _ (some (if _ then _ else match arg l with | none => _ | some str => _))
  cases hstr : arg l with
  | none =>
    dsimp only
    split <;> exact .answer _
  | some str =>
    dsimp only
    by_cases hs : s ∈ σ.loggedInClients
    · by_cases hr : 1 ≤ atoi str ∧ atoi str ≤ 100
      · rw [if_pos ⟨hs, hr⟩, if_neg (by simp [hs]), if_neg (by omega)]
        exact .enter hw hstr hs hr.1 hr.2
      · rw [if_neg (fun h => hr h.2), if_neg (by simp [hs]), if_pos (by omega)]
        exact .nothing (.refl σ s) (sendAll_socket _)
    · rw [if_neg (fun h => hs h.1), if_pos hs]
      exact .answer _

theorem listChatRoom_outcome : Outcome σ s l .nothing (some (listChatRoom σ s (rest l))) := by
  unfold listChatRoom
  split
  · exact .answer _
  · split
    · exact .answer _
    · refine .nothing ⟨rfl, .refl _, Touched.foldl _ (fun _ _ => trivial) _⟩ fun m hm => ?_
      rcases List.mem_append.1 hm with hm | hm
      · obtain ⟨r, _, rfl⟩ := List.mem_map.1 hm
        rfl
      · rw [List.mem_singleton.1 hm]
        rfl

theorem closeChatRoom_outcome (hw : word l = some "close-chat-room".toList) :
    Outcome σ s l (closeRequest σ s l) (some (closeChatRoom σ s (rest l))) := by
  unfold closeChatRoom closeRequest
  change Outcome σ s l _ (some (if _ then _ else match arg l with | none => _ | some str => _))
  cases hstr : arg l with
  | none =>
    dsimp only
    split <;> exact .answer _
  | some str =>
    dsimp only
    by_cases hs : s ∈ σ.loggedInClients
    · by_cases hr : atoi str ∈ σ.chatRooms
      · by_cases hown : σ.chatRoomCreators.getD (atoi str) [] = σ.username s
        · rw [if_pos ⟨hs, hr, hown⟩, if_neg (by simp [hs]), if_neg (by simp [hr]), if_neg (by simp [hown])]
          exact .close hw hstr hs hr hown
        · rw [if_neg (fun h => hown h.2.2), if_neg (by simp [hs]), if_neg (by simp [hr]), if_pos hown]
          exact .nothing (quiet_ownerLookup _) (by simp [sendMessage])
      · rw [if_neg (fun h => hr h.2.1), if_neg (by simp [hs]), if_pos hr]
        exact .nothing (.refl σ s) (sendAll_socket _)
    · rw [if_neg (fun h => hs h.1), if_pos hs]
      exact .answer _

theorem roomCommand_outcome {r : Int} {token : Text} (hr : σ.clientChatRooms[s]? = some r) :
    Outcome σ s l (roomRequest r token l) (roomCommand σ s r token (rest l)) := by
  unfold roomCommand roomRequest
  split
  · split
    · unfold pin tailText
      cases (strtok newline (rest l)).1 with
      | none => exact .pinNull
      | some message =>
        dsimp only
        split
        · rename_i hlen
          exact .pin hr hlen
        · exact .answer _
    · split
      · exact .deletePin hr
      · split
        · exact .leave hr
        · split
          · exact .listRoom hr
          · exact .answer _
  · unfold regularMessage tailText
    cases (strtok newline (rest l)).1 with
    | none => exact .post hr
    | some message =>
      dsimp only
      split
      · exact .post hr
      · exact .nothing quiet_touchUsername (by simp [sendMessage])

/-- `handle_command`, by the first word. -/
theorem handleCommand_eq (σ : Server) (s : Int) (l : Text) : handleCommand σ s l =
    match word l with
    | none => some (σ, [sendMessage s "Usage: Enter a valid command.\n% "])
    | some token => dispatch σ s token (rest l) := rfl

/-- **Every line**: the request it makes, and what `handle_command` does about it. -/
theorem handleCommand_outcome (σ : Server) (s : Int) (l : Text) :
    Outcome σ s l (request σ s l) (handleCommand σ s l) := by
  rw [handleCommand_eq, request]
  cases hw : word l with
  | none => exact .answer _
  | some token =>
    dsimp only
    unfold tokenRequest dispatch
    by_cases h1 : token = "register".toList
    · rw [if_pos h1, if_pos h1]
      exact register_outcome (h1 ▸ hw)
    rw [if_neg h1, if_neg h1]
    by_cases h2 : token = "login".toList
    · rw [if_pos h2, if_pos h2]
      exact login_outcome
    rw [if_neg h2, if_neg h2]
    by_cases h3 : token = "logout".toList
    · rw [if_pos h3, if_pos h3]
      exact logout_outcome
    rw [if_neg h3, if_neg h3]
    by_cases h4 : token = "exit".toList ∧ σ.inFlag = false
    · rw [if_pos h4, if_pos h4]
      exact exit_outcome h4.2
    rw [if_neg h4, if_neg h4]
    by_cases h5 : token = "whoami".toList
    · rw [if_pos h5, if_pos h5]
      exact whoami_outcome
    rw [if_neg h5, if_neg h5]
    by_cases h6 : token = "set-status".toList
    · rw [if_pos h6, if_pos h6]
      exact setStatus_outcome
    rw [if_neg h6, if_neg h6]
    by_cases h7 : token = "list-user".toList
    · rw [if_pos h7, if_pos h7]
      exact listUser_outcome
    rw [if_neg h7, if_neg h7]
    by_cases h8 : token = "enter-chat-room".toList
    · rw [if_pos h8, if_pos h8]
      exact enterChatRoom_outcome (h8 ▸ hw)
    rw [if_neg h8, if_neg h8]
    by_cases h9 : token = "list-chat-room".toList
    · rw [if_pos h9, if_pos h9]
      exact listChatRoom_outcome
    rw [if_neg h9, if_neg h9]
    by_cases h10 : token = "close-chat-room".toList
    · rw [if_pos h10, if_pos h10]
      exact closeChatRoom_outcome (h10 ▸ hw)
    rw [if_neg h10, if_neg h10]
    cases hr : σ.clientChatRooms[s]? with
    | none => exact .answer _
    | some r => exact roomCommand_outcome hr

end IntroNP.Chat
