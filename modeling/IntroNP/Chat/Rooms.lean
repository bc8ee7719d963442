import IntroNP.Chat.Request

/-!
# The chat server: what the room commands do to the tables

Each of the six room operations is described by the record it leaves (`enterRoom_fst` and so on): the tables it does
not name are as they were, and every other table is given exactly or as the old one with default cells in it.

Entering, pinning, leaving, listing and posting loop over other clients and read `client_chat_rooms` through
`operator[]`. `members_*` say who is found by these loops and `rooms_*` what the loops leave behind: an entry `0` for
every client visited that had none.
-/

namespace IntroNP.Chat

open Std

variable {σ : Server} {s r : Int}

/-! ## The clients visited -/

@[simp] theorem mem_others {t : Int} : t ∈ others σ s ↔ t ∈ σ.loggedInClients ∧ t ≠ s := by
  simp [others]

theorem nodup_loggedIn : σ.loggedInClients.toList.Nodup :=
  ExtTreeSet.distinct_toList.imp fun h e => h (Std.compare_eq_iff_eq.2 e)

/-! ## The records left -/

/-- The owners after `s` has entered room `r`. -/
def enterCreators (σ : Server) (s r : Int) : ExtTreeMap Int Text :=
  if σ.chatRoomCreators.getD r [] = [] then (σ.chatRoomCreators.insertIfNew r []).insert r (σ.username s)
  else σ.chatRoomCreators.insertIfNew r []

/-- `client_chat_rooms` after `s` has entered room `r`. -/
def enterRooms (σ : Server) (s r : Int) : ExtTreeMap Int Int :=
  (visit r 0 (fun _ m => m) (others σ s) (σ.clientChatRooms.insert s r)).2

theorem claimRoom_eq (σ : Server) (s r : Int) : ∃ names, Touched [] (· = s) σ.clientUsernames names ∧
    claimRoom σ s r = { σ with clientUsernames := names, chatRoomCreators := enterCreators σ s r } := by
  unfold claimRoom enterCreators
  dsimp only
  rw [getD_insertIfNew]
  split
  · exact ⟨_, .insertIfNew rfl, rfl⟩
  · exact ⟨_, .refl _, rfl⟩

theorem showHistory_fst (σ : Server) (s r : Int) : ∃ pins, Touched [] (· = r) σ.roomPinMessage pins ∧
    (showHistory σ s r).1 =
      { σ with
        chatRooms := σ.chatRooms.insertIfNew r []
        chatRoomPins := σ.chatRoomPins.insertIfNew r false
        roomPinMessage := pins } := by
  unfold showHistory sendChatHistory
  dsimp only
  split
  · split
    · exact ⟨_, .insertIfNew rfl, rfl⟩
    · exact ⟨_, .refl _, rfl⟩
  · exact ⟨_, .refl _, rfl⟩

theorem enterRoom_fst (σ : Server) (s r : Int) : ∃ names pins,
    Touched [] (· = s) σ.clientUsernames names ∧ Touched [] (· = r) σ.roomPinMessage pins ∧
    (enterRoom σ s r).1 =
      { σ with
        clientUsernames := names
        clientChatRooms := enterRooms σ s r
        chatRooms := σ.chatRooms.insertIfNew r []
        chatRoomCreators := enterCreators σ s r
        chatRoomPins := σ.chatRoomPins.insertIfNew r false
        roomPinMessage := pins
        inFlag := true } := by
  obtain ⟨names, hnames, hclaim⟩ := claimRoom_eq σ s r
  unfold enterRoom
  dsimp only
  rw [hclaim]
  obtain ⟨pins, hpins, hshow⟩ := showHistory_fst { σ with
    clientUsernames := names
    chatRoomCreators := enterCreators σ s r
    clientChatRooms := σ.clientChatRooms.insert s r
    inFlag := true } s r
  rw [hshow]
  split
  · exact ⟨names, pins, hnames, hpins, rfl⟩
  · exact ⟨names.insertIfNew s [], pins, hnames.trans (.insertIfNew rfl), hpins, rfl⟩

/-- `client_chat_rooms` after room `r` was closed. -/
def closeRooms (σ : Server) (r : Int) : ExtTreeMap Int Int :=
  (visit r 0 (fun other m => m.erase other) σ.loggedInClients.toList σ.clientChatRooms).2

theorem closeRoom_fst (σ : Server) (s r : Int) (str : Text) :
    (closeRoom (ownerLookup σ s r) s r str).1 =
      { σ with
        clientUsernames := σ.clientUsernames.insertIfNew s []
        clientChatRooms := closeRooms σ r
        chatRooms := σ.chatRooms.erase r
        chatRoomCreators := (σ.chatRoomCreators.insertIfNew r []).erase r } := rfl

theorem pinMessage_fst (σ : Server) (s r : Int) (message : Text) :
    (pinMessage σ s r message).1 =
      { σ with
        clientUsernames := σ.clientUsernames.insertIfNew s []
        clientChatRooms := (visit r 0 (fun _ m => m) (others σ s) σ.clientChatRooms).2
        chatRoomPins := σ.chatRoomPins.insert r true
        roomPinMessage := σ.roomPinMessage.insert r (pinText (σ.username s) message) } := rfl

theorem deletePin_fst (σ : Server) (s r : Int) :
    (deletePin σ s r).1 =
      { σ with
        chatRoomPins := σ.chatRoomPins.insertIfNew r false
        roomPinMessage :=
          if σ.chatRoomPins.getD r false then σ.roomPinMessage.insert r [] else σ.roomPinMessage } := by
  unfold deletePin
  dsimp only
  split <;> rfl

theorem exitChatRoom_fst (hr : σ.clientChatRooms[s]? = some r) :
    (exitChatRoom σ s).1 =
      { σ with
        clientUsernames := σ.clientUsernames.insertIfNew s []
        clientChatRooms := (visit r 0 (fun _ m => m) (others σ s) σ.clientChatRooms).2.erase s
        chatRoomClients := σ.chatRoomClients.insert r ((σ.chatRoomClients.getD r ∅).erase s)
        inFlag := false } := by
  unfold exitChatRoom
  rw [hr]
  rfl

theorem postMessage_fst (σ : Server) (s r : Int) (message : Text) :
    (postMessage σ s r message).1 =
      { σ with
        clientUsernames := σ.clientUsernames.insertIfNew s []
        clientChatRooms := (visit r 0 (fun _ m => m) σ.loggedInClients.toList σ.clientChatRooms).2
        chatRooms := σ.chatRooms.insert r (σ.chatRooms.getD r [] ++ [chatMessage (σ.username s) message]) } := rfl

theorem listRoomUser_fst (σ : Server) (s r : Int) : ∃ names statuses,
    Touched [] (· ∈ σ.loggedInClients) σ.clientUsernames names ∧
    Touched [] (fun u => ∃ t ∈ σ.loggedInClients, u = σ.username t) σ.clientStatuses statuses ∧
    (listRoomUser σ s r).1 =
      { σ with
        clientUsernames := names
        clientStatuses := statuses
        clientChatRooms := (visit r 0 (fun _ m => m) σ.loggedInClients.toList σ.clientChatRooms).2 } := by
  have hvis : ∀ t ∈ (visit r 0 (fun _ m => m) σ.loggedInClients.toList σ.clientChatRooms).1,
      t ∈ σ.loggedInClients := by
    intro t ht
    rw [visit_keep_fst] at ht
    exact ExtTreeSet.mem_toList.1 (List.mem_filter.1 ht).1
  refine ⟨_, _, .foldl _ hvis _, .foldl _ ?_ _, rfl⟩
  intro u hu
  obtain ⟨t, ht, rfl⟩ := List.mem_map.1 ((List.mem_insertionSort _).1 hu)
  exact ⟨t, hvis t ht, rfl⟩

/-! ## The entries after a line -/

/-- `client_chat_rooms` after a line of `s`. -/
def roomTable (σ : Server) (s : Int) : Request → ExtTreeMap Int Int
  | .enter r => enterRooms σ s r
  | .close r _ => closeRooms σ r
  | .pin r _ => (visit r 0 (fun _ m => m) (others σ s) σ.clientChatRooms).2
  | .leave r => (visit r 0 (fun _ m => m) (others σ s) σ.clientChatRooms).2.erase s
  | .listRoom r | .post r _ => (visit r 0 (fun _ m => m) σ.loggedInClients.toList σ.clientChatRooms).2
  | _ => σ.clientChatRooms

/-- **The entries**: only the room commands touch them. -/
theorem clientChatRooms_line {l : Text} {q : Request} {next : Server × List Send} (hc : Outcome σ s l q (some next)) :
    next.1.clientChatRooms = roomTable σ s q := by
  cases hc with
  | nothing hq =>
    dsimp only
    rw [hq.eq]
    rfl
  | exit =>
    dsimp only
    split <;> rfl
  | enter =>
    obtain ⟨_, _, _, _, h⟩ := enterRoom_fst σ s _
    rw [h]
    rfl
  | close => rw [closeRoom_fst, roomTable]
  | pin => rw [pinMessage_fst, roomTable]
  | deletePin =>
    rw [deletePin_fst]
    rfl
  | leave hr => rw [exitChatRoom_fst hr, roomTable]
  | listRoom =>
    obtain ⟨_, _, _, _, h⟩ := listRoomUser_fst σ s _
    rw [h, roomTable]
  | post => rw [postMessage_fst, roomTable]
  | register | login | logout | setStatus => rfl

end IntroNP.Chat
