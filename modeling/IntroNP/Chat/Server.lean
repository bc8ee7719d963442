import IntroNP.Lib.Cells
import IntroNP.Lib.CString

/-!
# The chat server: its state

The process-wide tables of the chat server, the messages it sends, the content filter and the history shown to a
client that enters a room. A socket is the number of its descriptor. The tables are ordered maps and sets, read in
key order where the server loops over them; a subscript that the source reads through `operator[]` leaves a default
cell behind.
-/

namespace IntroNP.Chat

open Std

/-- The size of the receive buffer. -/
def bufferSize : Nat := 1024

/-- How many messages of a room's history a new member is shown. -/
def maxChatHistorySize : Int := 10

/-- The tables of the server, the descriptors that are open, and the sockets that a `handle_client` thread serves. -/
structure Server where
  clientSockets : List Int
  registeredUsers : ExtTreeMap Text Text
  loggedInClients : ExtTreeSet Int
  loggedInUsernames : ExtTreeSet Text
  clientUsernames : ExtTreeMap Int Text
  clientStatuses : ExtTreeMap Text Text
  clientChatRooms : ExtTreeMap Int Int
  chatRooms : ExtTreeMap Int (List Text)
  chatRoomClients : ExtTreeMap Int (ExtTreeSet Int)
  chatRoomCreators : ExtTreeMap Int Text
  chatRoomPins : ExtTreeMap Int Bool
  roomPinMessage : ExtTreeMap Int Text
  /-- The flag `in`. -/
  inFlag : Bool
  /-- The descriptors that are open. -/
  openSockets : ExtTreeSet Int
  /-- The sockets that running threads serve, one entry a thread. -/
  handlers : List Int

/-- The server after `main` has set up the pins of rooms 1 to 100. -/
def start : Server where
  clientSockets := []
  registeredUsers := ∅
  loggedInClients := ∅
  loggedInUsernames := ∅
  clientUsernames := ∅
  clientStatuses := ∅
  clientChatRooms := ∅
  chatRooms := ∅
  chatRoomClients := ∅
  chatRoomCreators := ∅
  chatRoomPins := (List.range 100).foldl (fun m r => m.insert (r + 1 : Int) false) ∅
  roomPinMessage := ∅
  inFlag := false
  openSockets := ∅
  handlers := []

/-- What one call of `send` hands to the network. -/
structure Send where
  socket : Int
  text : Text
  deriving DecidableEq

/-- `send_message`. -/
def sendMessage (clientSocket : Int) (message : Text) : Send := ⟨clientSocket, message⟩

/-- Several calls of `send_message` to one socket. -/
def sendAll (clientSocket : Int) (messages : List Text) : List Send := messages.map (sendMessage clientSocket)

/-! ## Content filtering -/

def filteredKeywords : List Text := ["superpie", "hello", "starburst stream", "domain expansion", "=="]

/-- `text.find(pattern, i)`: the first place at or after `i`. -/
def findFrom (text pattern : Text) (i : Nat) : Option Nat :=
  (List.range' i (text.length + 1 - i)).find? fun p => pattern.isPrefixOf (text.drop p)

/-- The first keyword that is masked at `i`, and the place where it was found. -/
def maskedKeyword (keywords : List Text) (message lowercaseMessage : Text) (i : Nat) : Option (Nat × Text) :=
  keywords.findSome? fun keyword =>
    match findFrom lowercaseMessage (keyword.map Char.toLower) i with
    | some pos => if pos = i ∨ ¬ (message.getD (pos - 1) ' ').isAlpha then some (pos, keyword) else none
    | none => none

/-- The loop of `filter_message` from position `i`. Every turn moves on by at least one when no keyword is empty, so
that a fuel of the message's length is enough. -/
def filterLoop (keywords : List Text) (message lowercaseMessage : Text) : Nat → Nat → Text
  | 0, _ => []
  | fuel + 1, i =>
    match message[i]? with
    | none => []
    | some c =>
      match maskedKeyword keywords message lowercaseMessage i with
      | some (pos, keyword) =>
        List.replicate keyword.length '*' ++
          filterLoop keywords message lowercaseMessage fuel (pos + keyword.length)
      | none => c :: filterLoop keywords message lowercaseMessage fuel (i + 1)

/-- `filter_message`. -/
def filterMessage (message : Text) : Text :=
  filterLoop filteredKeywords message (message.map Char.toLower) message.length 0

example : filterMessage "hello, i am ta1" = "*****, i am ta1" := by decide

/-! ## The history shown on entering -/

/-- The messages of a history that are shown. -/
def shown (messages : List Text) : List Text :=
  messages.drop (max 0 ((messages.length : Int) - maxChatHistorySize)).toNat

/-- `send_chat_history`. -/
def sendChatHistory (σ : Server) (clientSocket roomNumber : Int) : Server × List Send :=
  let history := match σ.chatRooms[roomNumber]? with
    | some messages => (shown messages).flatMap fun m => sendAll clientSocket [m, "\n"]
    | none => []
  let pinned := σ.chatRoomPins.getD roomNumber false
  let σ := { σ with chatRoomPins := σ.chatRoomPins.insertIfNew roomNumber false }
  if pinned then
    ({ σ with roomPinMessage := σ.roomPinMessage.insertIfNew roomNumber [] },
      history ++ sendAll clientSocket [σ.roomPinMessage.getD roomNumber [], "\n"])
  else (σ, history)

/-- The last ten messages are shown, all of them when there are fewer. -/
theorem shown_eq (messages : List Text) : shown messages = messages.drop (messages.length - 10) := by
  unfold shown maxChatHistorySize
  congr 1
  omega

end IntroNP.Chat
