import IntroNP.Chat.Membership

/-!
# The chat server: the limit of 150 characters

A message and the text of a pin may have 150 characters. A message is put together from the first word of its line and
what follows it, but only what follows is measured; `/pin` measures what follows, but makes a string of it first.

- `handleCommand_regular` and `handleCommand_pin`: the two kinds of lines, by what follows the first word;
- `limit_iff`: when the limit holds for the whole text of a message;
- `rejected_pin_iff`: when a `/pin` does what it should, and nothing when it is rejected.
-/

namespace IntroNP.Chat

open Std

/-- The answer to a text that is too long. -/
def lengthError (s : Int) : Send := sendMessage s "Message length exceeds 150 characters or is empty.\n"

/-- The line `l`, with the first word `token`, of a client that is in room `r`, is handled as a message: the word is no
command. While the flag `in` is set, `exit` is none. -/
structure Regular (σ : Server) (s r : Int) (token l : Text) : Prop where
  word : word l = some token
  room : σ.clientChatRooms[s]? = some r
  command : token ∈ commands → token = "exit".toList ∧ σ.inFlag = true
  slash : token.head? ≠ some '/'

/-- The whole text of a message: the first word, and what follows it. -/
def wholeText (token l : Text) : Text := (tailText l).elim token (token ++ " ".toList ++ ·)

/-- The message is at the end of the history of `r`, and was sent to everybody who is logged in and in `r`. -/
def Posted (σ : Server) (s r : Int) (text : Text) (σ' : Server) (sent : List Send) : Prop :=
  σ'.chatRooms.getD r [] = σ.chatRooms.getD r [] ++ [chatMessage (σ.username s) text] ∧
    ∀ c, heard c sent =
      if c ∈ σ.loggedInClients ∧ σ.clientChatRooms.getD c 0 = r then withNewline (chatMessage (σ.username s) text)
      else []

/-- The limit for a message: it is posted if it has at most 150 characters; otherwise nothing changes, and its sender is
told. -/
def LimitKept (σ : Server) (s r : Int) (text l : Text) : Prop :=
  ∃ σ' sent, handleCommand σ s l = some (σ', sent) ∧ (Posted σ s r text σ' sent ↔ text.length ≤ 150) ∧
    (150 < text.length → σ' = σ ∧ sent = [lengthError s])

/-- `σ` with the pin `text` in room `r`. -/
def Server.withPin (σ : Server) (r : Int) (text : Text) : Server :=
  { σ with
    roomPinMessage := σ.roomPinMessage.insert r text
    chatRoomPins := σ.chatRoomPins.insert r true }

/-- What `/pin` should do: without a text, or with one that is too long, nothing, and its sender is told; otherwise
the text and the flag of the room change, and nothing else. -/
def PinKept (σ : Server) (s r : Int) (l : Text) : Prop :=
  ∃ σ' sent, handleCommand σ s l = some (σ', sent) ∧
    ((∀ m, tailText l = some m → 150 < m.length) → σ' = σ ∧ sent = [lengthError s]) ∧
    ∀ m, tailText l = some m → m.length ≤ 150 → σ' = σ.withPin r (pinText (σ.username s) m)

variable {σ : Server} {s r : Int} {l token m : Text}

/-! ## Lines in a room -/

/-- A line whose first word is no command goes to the commands of the room. -/
theorem handleCommand_room (hw : word l = some token) (hr : σ.clientChatRooms[s]? = some r)
    (ht : token ∈ commands → token = "exit".toList ∧ σ.inFlag = true) :
    handleCommand σ s l = roomCommand σ s r token (rest l) := by
  have hne : ∀ c ∈ commands, c ≠ "exit".toList → token ≠ c := by
    rintro c hc hexit rfl
    exact hexit (ht hc).1
  have hexit : ¬ (token = "exit".toList ∧ σ.inFlag = false) := by
    rintro ⟨rfl, hflag⟩
    rw [(ht (by decide)).2] at hflag
    cases hflag
  rw [handleCommand_eq, hw]
  dsimp only
  unfold dispatch
  rw [if_neg (hne _ (by decide) (by decide)), if_neg (hne _ (by decide) (by decide)),
    if_neg (hne _ (by decide) (by decide)), if_neg hexit, if_neg (hne _ (by decide) (by decide)),
    if_neg (hne _ (by decide) (by decide)), if_neg (hne _ (by decide) (by decide)),
    if_neg (hne _ (by decide) (by decide)), if_neg (hne _ (by decide) (by decide)),
    if_neg (hne _ (by decide) (by decide)), hr]

/-- A message is posted or refused, by the length of what follows its first word. -/
theorem handleCommand_regular (h : Regular σ s r token l) : handleCommand σ s l = some
    (if ∀ m, tailText l = some m → m.length ≤ 150 then postMessage σ s r (wholeText token l)
    else (σ.touchUsername s, [lengthError s])) := by
  rw [handleCommand_room h.word h.room h.command, roomCommand, if_neg h.slash, regularMessage, wholeText, tailText]
  cases (strtok newline (rest l)).1 with
  | none => rw [if_pos (fun m hm => by cases hm), Option.elim_none]
  | some m =>
    dsimp only
    by_cases hm : m.length ≤ 150
    · rw [if_pos hm, if_pos (fun m' hm' => by cases hm'; exact hm), Option.elim_some]
    · rw [if_neg hm, if_neg (fun hall => hm (hall m rfl)), lengthError]

theorem handleCommand_pin (hw : word l = some "/pin".toList) (hr : σ.clientChatRooms[s]? = some r) :
    handleCommand σ s l = (tailText l).map fun m =>
      if m.length ≤ 150 then pinMessage σ s r m else (σ, [lengthError s]) := by
  rw [handleCommand_room hw hr (fun h => absurd h (by decide)), roomCommand,
    if_pos (by decide : "/pin".toList.head? = some '/'), if_pos rfl, pin, tailText]
  cases (strtok newline (rest l)).1 with
  | none => rfl
  | some m =>
    dsimp only [Option.map_some]
    split
    · rfl
    · rfl

/-! ## Messages -/

/-- The whole text of a line that is typed as a word, a blank and a text is the line. -/
theorem wholeText_typed (ht : token ≠ []) (hword : ∀ c ∈ token, blanks c = false) (hm : m ≠ [])
    (hline : ∀ c ∈ m, newline c = false) (hnul : ∀ c ∈ token ++ m, c ≠ Char.ofNat 0)
    (hlen : (token ++ ' ' :: m).length < bufferSize) :
    word (token ++ ' ' :: (m ++ "\n".toList)) = some token ∧
      wholeText token (token ++ ' ' :: (m ++ "\n".toList)) = token ++ ' ' :: m := by
  have hcopy : strncpy (token ++ ' ' :: (m ++ "\n".toList)) bufferSize = token ++ ' ' :: (m ++ "\n".toList) := by
    have hall : ∀ c ∈ token ++ ' ' :: (m ++ "\n".toList), (c != Char.ofNat 0) = true := by
      intro c hc
      simp only [List.mem_append, List.mem_cons] at hc
      rcases hc with hc | rfl | hc | hc
      · simpa using hnul c (List.mem_append_left m hc)
      · decide
      · simpa using hnul c (List.mem_append_right token hc)
      · rw [List.mem_singleton.1 hc]
        decide
    unfold strncpy
    rw [List.takeWhile_eq_self_iff.2 hall, List.take_of_length_le]
    simp only [List.length_append, List.length_cons] at hlen ⊢
    exact hlen
  have hfirst := strtok_token (p := m ++ "\n".toList) ht hword (d := ' ') rfl
  have hsecond := strtok_token (p := []) hm hline (d := '\n') rfl
  unfold wholeText tailText word rest
  rw [hcopy, hfirst]
  refine ⟨rfl, ?_⟩
  rw [show (strtok newline (m ++ "\n".toList)).1 = some m from congrArg Prod.fst hsecond, Option.elim_some,
    List.append_assoc]
  rfl

theorem length_le_wholeText (token : Text) (h : tailText l = some m) : m.length ≤ (wholeText token l).length := by
  rw [wholeText, h, Option.elim_some, List.length_append]
  omega

theorem posted_postMessage (σ : Server) (s r : Int) (text : Text) :
    Posted σ s r text (postMessage σ s r text).1 (postMessage σ s r text).2 := by
  constructor
  · rw [postMessage_fst]
    exact ExtTreeMap.getD_insert_self
  · exact fun c => heard_postMessage σ s r text

theorem touchUsername_eq_self_iff : σ.touchUsername s = σ ↔ s ∈ σ.clientUsernames :=
  ⟨fun h => insertIfNew_eq_self_iff.1 (congrArg Server.clientUsernames h), fun h => by
    rw [Server.touchUsername, insertIfNew_eq_self_iff.2 h]⟩

/-- A line of which what follows the first word is not too long is posted, whatever the length of its whole text. -/
theorem limitKept_posted (h : Regular σ s r token l) (hfits : ∀ m, tailText l = some m → m.length ≤ 150) :
    LimitKept σ s r (wholeText token l) l ↔ (wholeText token l).length ≤ 150 := by
  have hcommand := handleCommand_regular h
  rw [if_pos hfits] at hcommand
  have hposted := posted_postMessage σ s r (wholeText token l)
  constructor
  · rintro ⟨σ', sent, hc, hlimit, -⟩
    rw [hcommand, Option.some.injEq] at hc
    rw [hc] at hposted
    exact hlimit.1 hposted
  · intro hlen
    exact ⟨_, _, hcommand, iff_of_true hposted hlen, fun hlong => by omega⟩

/-- A line of which what follows the first word is too long is refused, but its sender may get an empty name. -/
theorem limitKept_refused (h : Regular σ s r token l) (hm : tailText l = some m) (hlong : 150 < m.length) :
    LimitKept σ s r (wholeText token l) l ↔ s ∈ σ.clientUsernames := by
  have hcommand := handleCommand_regular h
  rw [if_neg (fun hfits => absurd (hfits m hm) (by omega))] at hcommand
  have hwhole := length_le_wholeText token hm
  rw [← touchUsername_eq_self_iff]
  constructor
  · rintro ⟨σ', sent, hc, -, hrefused⟩
    rw [hcommand, Option.some.injEq, Prod.mk.injEq] at hc
    exact hc.1.trans (hrefused (by omega)).1
  · intro hname
    rw [hname] at hcommand
    refine ⟨σ, _, hcommand, iff_of_false (fun hposted => ?_) (by omega), fun _ => ⟨rfl, rfl⟩⟩
    exact absurd hposted.1 (by simp)

/-- **The limit for messages.** It holds for the whole text exactly if the text has at most 150 characters, or what
follows its first word has more, and the sender has a name. -/
theorem limit_iff (h : Regular σ s r token l) : LimitKept σ s r (wholeText token l) l ↔
    (wholeText token l).length ≤ 150 ∨ s ∈ σ.clientUsernames ∧ ∃ m, tailText l = some m ∧ 150 < m.length := by
  by_cases hfits : ∀ m, tailText l = some m → m.length ≤ 150
  · rw [limitKept_posted h hfits, or_iff_left]
    rintro ⟨-, m, hm, hlong⟩
    exact absurd (hfits m hm) (by omega)
  · push Not at hfits
    obtain ⟨m, hm, hlong⟩ := hfits
    have hwhole := length_le_wholeText token hm
    rw [limitKept_refused h hm hlong, or_iff_right (by omega), and_iff_left ⟨m, hm, hlong⟩]

/-- Tom is logged in, and in room 1. -/
theorem tom_in_room :
    let σ := after start [.connect 4, .line 4 "register tom pw\n", .line 4 "login tom pw\n",
      .line 4 "enter-chat-room 1\n"]
    σ.clientChatRooms[(4 : Int)]? = some 1 ∧ 4 ∈ σ.clientUsernames := by
  decide +kernel

/-- In room 1, Tom sends a word and 151 characters. -/
theorem limit_iff_refused :
    let σ := after start [.connect 4, .line 4 "register tom pw\n", .line 4 "login tom pw\n",
      .line 4 "enter-chat-room 1\n"]
    let l := "a ".toList ++ List.replicate 151 'b' ++ "\n".toList
    handleCommand σ 4 l = some (σ, [lengthError 4]) := by
  intro σ l
  obtain ⟨hroom, hname⟩ := tom_in_room
  obtain ⟨hword, htext⟩ : word l = some "a".toList ∧ tailText l = some (List.replicate 151 'b') := by decide +kernel
  have hregular : Regular σ 4 1 "a" l := ⟨hword, hroom, by decide, by decide⟩
  have hlong : 150 < (List.replicate 151 'b').length := by simp
  obtain ⟨σ', sent, hc, -, hrefused⟩ := (limit_iff hregular).2 (.inr ⟨hname, _, htext, hlong⟩)
  obtain ⟨rfl, rfl⟩ := hrefused (hlong.trans_le (length_le_wholeText _ htext))
  exact hc

/-- In room 1, Tom sends a word of 151 characters, and it is posted. -/
theorem limit_passed :
    let σ := after start [.connect 4, .line 4 "register tom pw\n", .line 4 "login tom pw\n",
      .line 4 "enter-chat-room 1\n"]
    let token := List.replicate 151 'a'
    let l := token ++ "\n".toList
    chat.Reachable σ ∧ Regular σ 4 1 token l ∧ (wholeText token l).length = 151 ∧
      ¬ LimitKept σ 4 1 (wholeText token l) l := by
  intro σ token l
  obtain ⟨hword, hnone, hcommand⟩ : word l = some token ∧ tailText l = none ∧ token ∉ commands := by decide +kernel
  have hregular : Regular σ 4 1 token l := ⟨hword, tom_in_room.1, fun h => absurd h hcommand, by decide⟩
  have hlen : (wholeText token l).length = 151 := by
    rw [wholeText, hnone, Option.elim_none]
    exact List.length_replicate
  refine ⟨reachable_after _, hregular, hlen, fun hkept => ?_⟩
  rw [limitKept_posted hregular (fun m hm => by rw [hnone] at hm; cases hm)] at hkept
  omega

/-! ## Pins -/

/-- A `/pin` with a text that is not too long changes nothing but the pin, exactly if its sender has a name and
everybody else who is logged in has an entry. -/
theorem pinMessage_fst_eq_iff : (pinMessage σ s r m).1 = σ.withPin r (pinText (σ.username s) m) ↔
    s ∈ σ.clientUsernames ∧ ∀ t ∈ σ.loggedInClients, t ≠ s → t ∈ σ.clientChatRooms := by
  have hothers : (∀ t ∈ others σ s, t ∈ σ.clientChatRooms) ↔
      ∀ t ∈ σ.loggedInClients, t ≠ s → t ∈ σ.clientChatRooms :=
    forall_congr' fun t => by rw [mem_others, and_imp]
  rw [pinMessage_fst, ← hothers, ← insertIfNew_eq_self_iff (d := ([] : Text)),
    ← visit_keep_eq_self_iff (v := r) (d := 0)]
  constructor
  · exact fun h => ⟨congrArg Server.clientUsernames h, congrArg Server.clientChatRooms h⟩
  · rintro ⟨hnames, hrooms⟩
    rw [hnames, hrooms, Server.withPin]

/-- Without a text, the server does not go on. -/
theorem not_pinKept (hw : word l = some "/pin".toList) (hr : σ.clientChatRooms[s]? = some r)
    (htext : tailText l = none) : ¬ PinKept σ s r l := by
  rintro ⟨σ', sent, hc, -⟩
  rw [handleCommand_pin hw hr, htext] at hc
  cases hc

/-- **Rejected pins.** A `/pin` does what it should exactly if a text follows it, and, where the text is not too long,
its sender has a name and everybody else who is logged in has an entry in `client_chat_rooms`. -/
theorem rejected_pin_iff (hw : word l = some "/pin".toList) (hr : σ.clientChatRooms[s]? = some r) :
    PinKept σ s r l ↔ ∃ m, tailText l = some m ∧
      (m.length ≤ 150 → s ∈ σ.clientUsernames ∧ ∀ t ∈ σ.loggedInClients, t ≠ s → t ∈ σ.clientChatRooms) := by
  cases htext : tailText l with
  | none => exact iff_of_false (not_pinKept hw hr htext) (fun ⟨m, hm, _⟩ => by cases hm)
  | some m =>
    unfold PinKept
    simp only [handleCommand_pin hw hr, htext, Option.map_some, Option.some.injEq, forall_eq', exists_eq_left']
    by_cases hlen : m.length ≤ 150
    · rw [if_pos hlen]
      constructor
      · rintro ⟨σ', sent, hc, -, hpinned⟩ -
        exact pinMessage_fst_eq_iff.1 ((congrArg Prod.fst hc).trans (hpinned hlen))
      · intro hcells
        exact ⟨_, _, rfl, fun hlong => by omega, fun _ => pinMessage_fst_eq_iff.2 (hcells hlen)⟩
    · rw [if_neg hlen]
      constructor
      · exact fun _ h => absurd h hlen
      · exact fun _ => ⟨_, _, rfl, fun _ => ⟨rfl, rfl⟩, fun h => absurd h hlen⟩

/-- In room 1, Tom pins 151 characters. -/
theorem rejected_pin_iff_long :
    let σ := after start [.connect 4, .line 4 "register tom pw\n", .line 4 "login tom pw\n",
      .line 4 "enter-chat-room 1\n"]
    let l := "/pin ".toList ++ List.replicate 151 'b' ++ "\n".toList
    handleCommand σ 4 l = some (σ, [lengthError 4]) := by
  intro σ l
  obtain ⟨hw, htext⟩ : word l = some "/pin".toList ∧ tailText l = some (List.replicate 151 'b') := by decide +kernel
  have hlong : 150 < (List.replicate 151 'b').length := by simp
  obtain ⟨σ', sent, hc, hrejected, -⟩ := (rejected_pin_iff hw tom_in_room.1).2 ⟨_, htext, fun h => by omega⟩
  obtain ⟨rfl, rfl⟩ := hrejected fun m hm => by
    rw [htext, Option.some.injEq] at hm
    rwa [← hm]
  exact hc

/-- In room 1, Tom sends `/pin` alone, and the server ends. -/
theorem rejected_pin_ends :
    let σ := after start [.connect 4, .line 4 "register tom pw\n", .line 4 "login tom pw\n",
      .line 4 "enter-chat-room 1\n"]
    chat.Reachable σ ∧ word "/pin\n" = some "/pin".toList ∧ σ.clientChatRooms[(4 : Int)]? = some 1 ∧
      handleCommand σ 4 "/pin\n" = none ∧ ¬ PinKept σ 4 1 "/pin\n" := by
  intro σ
  have hw : word "/pin\n" = some "/pin".toList := by decide
  have htext : tailText "/pin\n" = none := by decide
  refine ⟨reachable_after _, hw, tom_in_room.1, ?_, not_pinKept hw tom_in_room.1 htext⟩
  rw [handleCommand_pin hw tom_in_room.1, htext]
  rfl

end IntroNP.Chat
