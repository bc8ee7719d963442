import IntroNP.Chat.Server
import Mathlib.Data.List.Sort

/-!
# The chat server: the commands

The branches of `handle_command`, one definition each, under the source's names. A command is given the saved pointer
of `strtok`, that is what follows the first word of the line, and returns the new tables and what it sent, in order.
Where a branch has a part that only runs when all of its checks have passed, that part is a definition of its own
(`enterRoom`, `closeRoom`, `pinMessage`, `postMessage`).

`logout`, `exit` and the cleanup after a disconnect each write out the same four updates in another order, on four
different tables; `endSession` is their common effect.
-/

namespace IntroNP.Chat

open Std

/-- The delimiters `" \n"`. -/
def blanks (c : Char) : Bool := c == ' ' || c == '\n'

/-- The delimiter `"\n"`. -/
def newline (c : Char) : Bool := c == '\n'

namespace Server

/-- `client_usernames[s]`, as a value. -/
def username (σ : Server) (s : Int) : Text := σ.clientUsernames.getD s []

/-- `client_usernames[s]`, as an insertion. -/
def touchUsername (σ : Server) (s : Int) : Server :=
  { σ with clientUsernames := σ.clientUsernames.insertIfNew s [] }

/-- What `logout`, `exit` and a disconnect do to the tables of a client that is logged in. -/
def endSession (σ : Server) (s : Int) : Server :=
  { σ with
    loggedInClients := σ.loggedInClients.erase s
    loggedInUsernames := σ.loggedInUsernames.erase (σ.username s)
    clientUsernames := (σ.clientUsernames.insertIfNew s []).erase s
    clientStatuses := σ.clientStatuses.insert (σ.username s) "offline" }

/-- `close(s)`. -/
def close (σ : Server) (s : Int) : Server := { σ with openSockets := σ.openSockets.erase s }

end Server

/-- The loop over the sockets `others` that sends `messages` to each of them that is in room `r`. -/
def broadcast (σ : Server) (r : Int) (others : List Int) (messages : List Text) : Server × List Send :=
  let visited := visit r 0 (fun _ m => m) others σ.clientChatRooms
  ({ σ with clientChatRooms := visited.2 }, visited.1.flatMap (sendAll · messages))

/-- The sockets that are logged in, but for `s`. -/
def others (σ : Server) (s : Int) : List Int := σ.loggedInClients.toList.filter (· ≠ s)

/-! ## Sessions -/

def register (σ : Server) (s : Int) (rest : Text) : Server × List Send :=
  let username := strtok blanks rest
  let password := strtok blanks username.2
  match username.1, password.1 with
  | some username, some password =>
    if username ∈ σ.registeredUsers then (σ, [sendMessage s "Username is already used.\n% "])
    else
      ({ σ with registeredUsers := σ.registeredUsers.insert username password },
        [sendMessage s "Register successfully.\n% "])
  | _, _ => (σ, [sendMessage s "Usage: register <username> <password>\n% "])

def login (σ : Server) (s : Int) (rest : Text) : Server × List Send :=
  if s ∈ σ.loggedInClients then (σ, [sendMessage s "Please logout first.\n% "])
  else
    let username := strtok blanks rest
    let password := strtok blanks username.2
    match username.1, password.1 with
    | some username, some password =>
      if σ.registeredUsers[username]? ≠ some password then (σ, [sendMessage s "Login failed.\n% "])
      else if username ∈ σ.loggedInUsernames then (σ, [sendMessage s "Login failed.\n% "])
      else
        ({ σ with
            loggedInClients := σ.loggedInClients.insert s
            clientUsernames := σ.clientUsernames.insert s username
            clientStatuses := σ.clientStatuses.insert username "online"
            loggedInUsernames := σ.loggedInUsernames.insert username },
          sendAll s ["Welcome, ", username, ".\n% "])
    | _, _ => (σ, [sendMessage s "Usage: login <username> <password>\n% "])

def logout (σ : Server) (s : Int) (rest : Text) : Server × List Send :=
  match (strtok blanks rest).1 with
  | some _ => (σ, [sendMessage s "Usage: logout\n% "])
  | none =>
    if s ∉ σ.loggedInClients then (σ, [sendMessage s "Please login first.\n% "])
    else (σ.endSession s, sendAll s ["Bye, ", σ.username s, ".\n% "])

def exit (σ : Server) (s : Int) (rest : Text) : Server × List Send :=
  match (strtok blanks rest).1 with
  | some _ => (σ, [sendMessage s "Usage: exit\n% "])
  | none =>
    if s ∈ σ.loggedInClients then ((σ.endSession s).close s, sendAll s ["Bye, ", σ.username s, ".\n"])
    else ((σ.touchUsername s).close s, [])

def whoami (σ : Server) (s : Int) (rest : Text) : Server × List Send :=
  match (strtok blanks rest).1 with
  | some _ => (σ, [sendMessage s "Usage: whoami\n% "])
  | none =>
    if s ∉ σ.loggedInClients then (σ, [sendMessage s "Please login first.\n% "])
    else (σ.touchUsername s, sendAll s [σ.username s, "\n% "])

def setStatus (σ : Server) (s : Int) (rest : Text) : Server × List Send :=
  match (strtok blanks rest).1 with
  | none => (σ, [sendMessage s "Usage: set-status <status>\n% "])
  | some status =>
    if s ∉ σ.loggedInClients then (σ, [sendMessage s "Please login first.\n% "])
    else if status = "online" ∨ status = "offline" ∨ status = "busy" then
      ({ σ.touchUsername s with clientStatuses := σ.clientStatuses.insert (σ.username s) status },
        sendAll s [σ.username s, " ", status, "\n% "])
    else (σ.touchUsername s, [sendMessage s "set-status failed\n% "])

def listUser (σ : Server) (s : Int) (rest : Text) : Server × List Send :=
  match (strtok blanks rest).1 with
  | some _ => (σ, [sendMessage s "Usage: list-user\n% "])
  | none =>
    if s ∉ σ.loggedInClients then (σ, [sendMessage s "Please login first.\n% "])
    else
      (σ, (σ.registeredUsers.toList.flatMap fun (username, _) =>
          sendAll s [username, " ", σ.clientStatuses.getD username "offline", "\n"]) ++ [sendMessage s "% "])

/-! ## Rooms, from outside -/

/-- The first client to enter a room that has no owner becomes its owner. -/
def claimRoom (σ : Server) (s r : Int) : Server :=
  let creators := σ.chatRoomCreators.insertIfNew r []
  if creators.getD r [] = [] then
    { σ.touchUsername s with chatRoomCreators := creators.insert r (σ.username s) }
  else { σ with chatRoomCreators := creators }

/-- The history is sent when there is a message or a pin to show. -/
def showHistory (σ : Server) (s r : Int) : Server × List Send :=
  let σ := { σ with chatRooms := σ.chatRooms.insertIfNew r [] }
  if (σ.chatRooms.getD r []).length > 0 ∨ σ.chatRoomPins.getD r false then sendChatHistory σ s r
  else ({ σ with chatRoomPins := σ.chatRoomPins.insertIfNew r false }, [])

/-- `enter-chat-room` with a valid number, by a client that is logged in. -/
def enterRoom (σ : Server) (s r : Int) : Server × List Send :=
  let σ := claimRoom σ s r
  let σ := { σ with clientChatRooms := σ.clientChatRooms.insert s r, inFlag := true }
  let welcome := sendAll s ["Welcome to the public chat room.\n", "Room number: ", toDecimal r, "\n", "Owner: ",
    σ.chatRoomCreators.getD r [], "\n"]
  let history := showHistory σ s r
  let notices := broadcast history.1 r (others σ s) [σ.username s, " had enter the chat room.\n"]
  (if notices.2 = [] then notices.1 else notices.1.touchUsername s, welcome ++ history.2 ++ notices.2)

def enterChatRoom (σ : Server) (s : Int) (rest : Text) : Server × List Send :=
  if s ∉ σ.loggedInClients then (σ, [sendMessage s "Please login first.\n% "])
  else
    match (strtok blanks rest).1 with
    | none => (σ, [sendMessage s "Usage: enter-chat-room <number>\n% "])
    | some roomNumberStr =>
      let roomNumber := atoi roomNumberStr
      if roomNumber < 1 ∨ roomNumber > 100 then
        (σ, sendAll s ["Number ", toDecimal roomNumber, " is not valid.\n% "])
      else enterRoom σ s roomNumber

def listChatRoom (σ : Server) (s : Int) (rest : Text) : Server × List Send :=
  match (strtok blanks rest).1 with
  | some _ => (σ, [sendMessage s "Usage: list-chat-room\n% "])
  | none =>
    if s ∉ σ.loggedInClients then (σ, [sendMessage s "Please login first.\n% "])
    else
      ({ σ with chatRoomCreators := σ.chatRooms.keys.foldl (fun m r => m.insertIfNew r []) σ.chatRoomCreators },
        (σ.chatRooms.keys.map fun r =>
          sendMessage s (σ.chatRoomCreators.getD r [] ++ " ".toList ++ toDecimal r ++ "\n".toList)) ++
          [sendMessage s "% "])

/-- The three parts of the notice that a room was closed. -/
def closedNotice (roomNumberStr : Text) : List Text := ["Chat room ", roomNumberStr, " was closed.\n% "]

/-- `close-chat-room` on a room that exists, by its owner. -/
def closeRoom (σ : Server) (s r : Int) (roomNumberStr : Text) : Server × List Send :=
  let visited := visit r 0 (fun other m => m.erase other) σ.loggedInClients.toList σ.clientChatRooms
  ({ σ with
      clientChatRooms := visited.2
      chatRooms := σ.chatRooms.erase r
      chatRoomCreators := σ.chatRoomCreators.erase r },
    visited.1.flatMap (sendAll · (closedNotice roomNumberStr)) ++ sendAll s (closedNotice roomNumberStr))

def closeChatRoom (σ : Server) (s : Int) (rest : Text) : Server × List Send :=
  if s ∉ σ.loggedInClients then (σ, [sendMessage s "Please login first.\n% "])
  else
    match (strtok blanks rest).1 with
    | none => (σ, [sendMessage s "Usage: close-chat-room <number>\n% "])
    | some roomNumberStr =>
      let roomNumber := atoi roomNumberStr
      if roomNumber ∉ σ.chatRooms then (σ, sendAll s ["Chat room ", roomNumberStr, " does not exist.\n% "])
      else
        let roomOwner := σ.chatRoomCreators.getD roomNumber []
        let clientUsername := σ.username s
        let σ := { σ.touchUsername s with chatRoomCreators := σ.chatRoomCreators.insertIfNew roomNumber [] }
        if roomOwner ≠ clientUsername then (σ, [sendMessage s "Only the owner can close this chat room.\n% "])
        else closeRoom σ s roomNumber roomNumberStr

/-! ## Rooms, from inside -/

/-- The text of a pin. -/
def pinText (username message : Text) : Text := "Pin -> [".toList ++ username ++ "]: ".toList ++ filterMessage message

/-- `/pin` with a text that is not too long. -/
def pinMessage (σ : Server) (s r : Int) (message : Text) : Server × List Send :=
  let pinnedMessage := pinText (σ.username s) message
  let σ := { σ.touchUsername s with
    roomPinMessage := σ.roomPinMessage.insert r pinnedMessage
    chatRoomPins := σ.chatRoomPins.insert r true }
  let notices := broadcast σ r (others σ s) [pinnedMessage ++ "\n".toList]
  (notices.1, sendMessage s (pinnedMessage ++ "\n".toList) :: notices.2)

/-- `/pin`. The result is `none` when no text follows: a `string` is then made from a null pointer, which throws, and
nothing catches it. -/
def pin (σ : Server) (s r : Int) (rest : Text) : Option (Server × List Send) :=
  match (strtok newline rest).1 with
  | none => none
  | some message =>
    if message.length ≤ 150 then some (pinMessage σ s r message)
    else some (σ, [sendMessage s "Message length exceeds 150 characters or is empty.\n"])

def deletePin (σ : Server) (s r : Int) : Server × List Send :=
  let pinned := σ.chatRoomPins.getD r false
  let σ := { σ with chatRoomPins := σ.chatRoomPins.insertIfNew r false }
  if pinned then ({ σ with roomPinMessage := σ.roomPinMessage.insert r [] }, [])
  else (σ, sendAll s ["No pin message in chat room ", toDecimal r, "\n"])

def exitChatRoom (σ : Server) (s : Int) : Server × List Send :=
  match σ.clientChatRooms[s]? with
  | some roomNumber =>
    let clientUsername := σ.username s
    let notices :=
      broadcast (σ.touchUsername s) roomNumber (others σ s) [clientUsername ++ " had left the chat room.\n".toList]
    ({ notices.1 with
        chatRoomClients :=
          σ.chatRoomClients.insert roomNumber ((σ.chatRoomClients.getD roomNumber ∅).erase s)
        clientChatRooms := notices.1.clientChatRooms.erase s
        inFlag := false },
      notices.2 ++ [sendMessage s "% "])
  | none => (σ, [sendMessage s "You are not in a chat room.\n"])

/-- `/list-user`. -/
def listRoomUser (σ : Server) (s r : Int) : Server × List Send :=
  let visited := visit r 0 (fun _ m => m) σ.loggedInClients.toList σ.clientChatRooms
  let usernamesInRoom := (visited.1.map σ.username).insertionSort (fun a b => (compare a b).isLE)
  ({ σ with
      clientChatRooms := visited.2
      clientUsernames := visited.1.foldl (fun m other => m.insertIfNew other []) σ.clientUsernames
      clientStatuses := usernamesInRoom.foldl (fun m username => m.insertIfNew username []) σ.clientStatuses },
    usernamesInRoom.flatMap fun username =>
      sendAll s [username, " ", σ.clientStatuses.getD username [], "\n"])

/-- The text of a message. -/
def chatMessage (username message : Text) : Text := "[".toList ++ username ++ "]: ".toList ++ filterMessage message

/-- A regular message that is not too long. -/
def postMessage (σ : Server) (s r : Int) (message : Text) : Server × List Send :=
  let chatMessage := chatMessage (σ.username s) message
  let σ := { σ.touchUsername s with
    chatRooms := σ.chatRooms.insert r (σ.chatRooms.getD r [] ++ [chatMessage]) }
  broadcast σ r σ.loggedInClients.toList [chatMessage, "\n"]

/-- A line in a room that is no command of the room: the first word, and what follows it. Only what follows is
measured. -/
def regularMessage (σ : Server) (s r : Int) (token rest : Text) : Server × List Send :=
  match (strtok newline rest).1 with
  | none => postMessage σ s r token
  | some message =>
    if message.length ≤ 150 then postMessage σ s r (token ++ " ".toList ++ message)
    else (σ.touchUsername s, [sendMessage s "Message length exceeds 150 characters or is empty.\n"])

/-- The commands of a client that has an entry `r` in `client_chat_rooms`. -/
def roomCommand (σ : Server) (s r : Int) (token rest : Text) : Option (Server × List Send) :=
  if token.head? = some '/' then
    if token = "/pin" then pin σ s r rest
    else if token = "/delete-pin" then some (deletePin σ s r)
    else if token = "/exit-chat-room" then some (exitChatRoom σ s)
    else if token = "/list-user" then some (listRoomUser σ s r)
    else some (σ, [sendMessage s "Error: Unknown command\n"])
  else some (regularMessage σ s r token rest)

/-! ## Dispatch -/

/-- The branches of `handle_command`, in order, on the first word and what follows it. -/
def dispatch (σ : Server) (s : Int) (token rest : Text) : Option (Server × List Send) :=
  if token = "register" then some (register σ s rest)
  else if token = "login" then some (login σ s rest)
  else if token = "logout" then some (logout σ s rest)
  else if token = "exit" ∧ σ.inFlag = false then some (exit σ s rest)
  else if token = "whoami" then some (whoami σ s rest)
  else if token = "set-status" then some (setStatus σ s rest)
  else if token = "list-user" then some (listUser σ s rest)
  else if token = "enter-chat-room" then some (enterChatRoom σ s rest)
  else if token = "list-chat-room" then some (listChatRoom σ s rest)
  else if token = "close-chat-room" then some (closeChatRoom σ s rest)
  else
    match σ.clientChatRooms[s]? with
    | some roomNumber => roomCommand σ s roomNumber token rest
    | none => some (σ, [sendMessage s "Error: Unknown command\n% "])

/-- `handle_command`. `none` is the end of the process. -/
def handleCommand (σ : Server) (s : Int) (command : Text) : Option (Server × List Send) :=
  let cmd := strncpy command bufferSize
  let first := strtok blanks cmd
  match first.1 with
  | none => some (σ, [sendMessage s "Usage: Enter a valid command.\n% "])
  | some token => dispatch σ s token first.2

end IntroNP.Chat
