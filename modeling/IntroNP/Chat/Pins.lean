import IntroNP.Chat.Speak

/-!
# The chat server: pins

A pin is held twice, as a flag in `chat_room_pins` and as a text in `room_pin_message`. `/pin` sets both, `/delete-pin`
empties the text and leaves the flag, and both a client that enters and the next `/delete-pin` look at the flag.

- `lastPin` follows the last operation on the pin of a room that succeeded;
- `pinTables_reachable`: what it leaves in the two tables;
- `pin_lifecycle`: entering and `/delete-pin` treat the pin as they should exactly when that operation was no
  `/delete-pin`.
-/

namespace IntroNP.Chat

open Std

/-! ## Pin operations -/

/-- An operation on a pin: a `/pin` with the text that is put up, or a `/delete-pin`. -/
inductive PinOp
  | pin (text : Text)
  | delete
  deriving DecidableEq

/-- The answer to a `/delete-pin` in a room without a pin. -/
def noPin (r : Int) : List Text := ["No pin message in chat room ", toDecimal r, "\n"]

/-- The operation on the pin of `r` that succeeds in a step. -/
def pinOp (r : Int) (σ : Server) (e : Event) : Option PinOp :=
  match e.act with
  | .line s l =>
    match request σ s l with
    | .pin r' m => if r' = r then some (.pin (pinText (σ.username s) m)) else none
    | .deletePin r' => if r' = r ∧ heard s e.sent ≠ noPin r then some .delete else none
    | _ => none
  | _ => none

/-- The last operation on the pin of `r` that succeeded, after a step. -/
def lastPin (r : Int) (σ : Server) (e : Event) (last : Option PinOp) : Option PinOp := (pinOp r σ e).or last

/-- The lines that show the pin in force. -/
def pinLine : Option PinOp → List Text
  | some (.pin text) => withNewline text
  | _ => []

/-- `s`, which enters `r`, is sent the welcome, the end of the history, and then the lines `pin`. -/
def Shows (σ : Server) (s r : Int) (pin : List Text) (sent : List Send) : Prop :=
  heard s sent = welcome r ((enterCreators σ s r).getD r []) ++
    ((shown (σ.chatRooms.getD r [])).flatMap withNewline ++ pin)

variable {σ σ' : Server} {s r : Int} {l : Text} {q : Request} {sent : List Send} {a : Act} {last : Option PinOp}

/-! ## The two tables through a step -/

/-- The flag of `r` after a request. -/
def flagAfter (σ : Server) (r : Int) : Request → Bool
  | .pin r' _ => if r' = r then true else σ.chatRoomPins.getD r false
  | _ => σ.chatRoomPins.getD r false

theorem flag_line {next : Server × List Send} (hc : Outcome σ s l q (some next)) (r : Int) :
    next.1.chatRoomPins.getD r false = flagAfter σ r q := by
  cases hc with
  | nothing hq =>
    dsimp only
    rw [hq.eq]
    rfl
  | exit =>
    dsimp only
    split <;> rfl
  | enter =>
    obtain ⟨_, _, _, _, h⟩ := enterRoom_fst σ s _
    rw [h]
    exact getD_insertIfNew
  | pin =>
    rw [pinMessage_fst, flagAfter, ExtTreeMap.getD_insert]
    simp only [Std.compare_eq_iff_eq]
  | deletePin =>
    rw [deletePin_fst]
    exact getD_insertIfNew
  | leave hr =>
    rw [exitChatRoom_fst hr]
    rfl
  | listRoom =>
    obtain ⟨_, _, _, _, h⟩ := listRoomUser_fst σ s _
    rw [h]
    rfl
  | register | login | logout | setStatus | close | post => rfl

theorem Outcome.eq_deletePin {o : Option (Server × List Send)} (h : Outcome σ s l (.deletePin r) o) :
    σ.clientChatRooms[s]? = some r ∧ o = some (Chat.deletePin σ s r) := by
  cases h with
  | deletePin hr => exact ⟨hr, rfl⟩

/-- The answer to `/delete-pin` looks at the flag. -/
theorem heard_deletePin (σ : Server) (s r : Int) :
    heard s (deletePin σ s r).2 = if σ.chatRoomPins.getD r false then [] else noPin r := by
  unfold deletePin
  dsimp only
  split
  · rfl
  · rw [heard_sendAll, if_pos rfl, noPin]

theorem sent_deletePin (hq : request σ s l = .deletePin r) (hst : step σ (.line s l) = some (σ', sent)) :
    heard s sent = if σ.chatRoomPins.getD r false then [] else noPin r := by
  obtain ⟨_, _, hc⟩ := step_line hst
  have ho := (hq ▸ hc ▸ handleCommand_outcome σ s l).eq_deletePin.2
  rw [← heard_deletePin, ← Option.some.inj ho]

/-- What a client is shown that enters a room. -/
theorem sent_enters {e : Event} (he : Enters s r σ e.act) (hst : chat.step σ e σ') :
    heard s e.sent = heard s (enterRoom σ s r).2 := congrArg (heard s ·.2) (he.step hst).symm

theorem noPin_ne_nil (r : Int) : noPin r ≠ [] := List.cons_ne_nil _ _

/-- What the last operation on the pin of `r` leaves in the two tables. -/
structure PinTables (r : Int) (σ : Server) (last : Option PinOp) : Prop where
  flag : σ.chatRoomPins.getD r false = last.isSome
  text : ∀ t, last = some (.pin t) → σ.roomPinMessage.getD r [] = t
  deleted : last = some .delete → σ.roomPinMessage.getD r [] = []

/-- A step without an operation on the pin of `r` leaves both tables alone at `r`. -/
theorem PinTables.of_eq (h : PinTables r σ last) (hflag : σ'.chatRoomPins.getD r false = σ.chatRoomPins.getD r false)
    (htext : σ'.roomPinMessage.getD r [] = σ.roomPinMessage.getD r []) : PinTables r σ' last :=
  ⟨hflag.trans h.flag, fun t ht => htext.trans (h.text t ht), fun hd => htext.trans (h.deleted hd)⟩

/-- **One step**: the tables follow the last operation. -/
theorem pinTables_step (h : PinTables r σ last) (hst : step σ a = some (σ', sent)) :
    PinTables r σ' (lastPin r σ ⟨a, sent⟩ last) := by
  cases a with
  | connect s =>
    obtain ⟨_, rfl, _⟩ := step_connect hst
    exact h.of_eq rfl rfl
  | disconnect s =>
    obtain ⟨_, rfl, _⟩ := step_disconnect hst
    unfold disconnect
    dsimp only
    split <;> exact h.of_eq rfl rfl
  | line s l =>
    obtain ⟨_, _, hc⟩ := step_line hst
    have ho := hc ▸ handleCommand_outcome σ s l
    have hflag : σ'.chatRoomPins.getD r false = _ := flag_line ho r
    have htext : σ'.roomPinMessage.getD r [] = _ := pin_line ho r
    unfold lastPin pinOp
    dsimp only
    split
    · rename_i r' m hq
      rw [hq] at hflag htext
      by_cases hr : r' = r
      · rw [if_pos hr, Option.some_or]
        rw [flagAfter, if_pos hr] at hflag
        rw [pinAfter, if_pos hr] at htext
        refine ⟨hflag, ?_, ?_⟩
        · rintro t ⟨⟩
          exact htext
        · rintro ⟨⟩
      · rw [if_neg hr, Option.none_or]
        rw [flagAfter, if_neg hr] at hflag
        rw [pinAfter, if_neg hr] at htext
        exact h.of_eq hflag htext
    · rename_i r' hq
      rw [hq] at hflag htext
      have hsent := sent_deletePin hq hst
      by_cases hr : r' = r
      · subst hr
        cases hp : σ.chatRoomPins.getD r' false with
        | true =>
          rw [if_pos ⟨rfl, by rw [hsent, hp]; exact (noPin_ne_nil r').symm⟩, Option.some_or]
          rw [pinAfter, if_pos ⟨rfl, hp⟩] at htext
          refine ⟨hflag.trans hp, ?_, fun _ => htext⟩
          rintro t ⟨⟩
        | false =>
          rw [if_neg (fun h => h.2 (by rw [hsent, hp]; rfl)), Option.none_or]
          rw [pinAfter, if_neg (fun h => by rw [hp] at h; cases h.2)] at htext
          exact h.of_eq hflag htext
      · rw [if_neg (fun h => hr h.1), Option.none_or]
        rw [pinAfter, if_neg (fun h => hr h.1)] at htext
        exact h.of_eq hflag htext
    · rename_i hpin hdel
      rw [Option.none_or]
      refine h.of_eq ?_ ?_
      · rw [hflag]
        unfold flagAfter
        split
        · rename_i r' m hq
          exact absurd hq (hpin r' m)
        · rfl
      · rw [htext]
        unfold pinAfter
        split
        · rename_i r' m hq
          exact absurd hq (hpin r' m)
        · rename_i r' hq
          exact absurd hq (hdel r')
        · rfl

theorem pinTables_start (r : Int) : PinTables r start none := by
  refine ⟨?_, ?_, ?_⟩
  · unfold start
    exact getD_foldl_insert (fun n : Nat => (n + 1 : Int)) (List.range 100) ExtTreeMap.getD_empty
  · rintro t ⟨⟩
  · rintro ⟨⟩

theorem pinTables_reachable (h : (chat.ghost none (lastPin r)).Reachable (σ, last)) : PinTables r σ last := by
  refine h.invariant (P := fun p => PinTables r p.1 p.2) ?_ ?_
  · rintro ⟨σ, last⟩ ⟨h0, hlast⟩
    cases h0
    cases hlast
    exact pinTables_start r
  · rintro ⟨σ, last⟩ e ⟨σ', last'⟩ _ ih ⟨hst, hlast⟩
    have hlast : last' = lastPin r σ e last := hlast
    subst hlast
    exact pinTables_step ih hst

/-! ## The lifecycle -/

/-- **Pins.** In a state of any run, with the last operation on the pin of `r` that succeeded: a client that enters `r`
is shown the pin in force, and no other, exactly when that operation was no `/delete-pin`; and a `/delete-pin` in `r` is
answered as it should be exactly then. Closing the room changes nothing about its pin. -/
theorem pin_lifecycle (h : (chat.ghost none (lastPin r)).Reachable (σ, last)) :
    (∀ s e σ', Enters s r σ e.act → chat.step σ e σ' →
      (Shows σ s r (pinLine last) e.sent ↔ last ≠ some .delete)) ∧
    ∀ s l sent σ', request σ s l = .deletePin r → step σ (.line s l) = some (σ', sent) →
      ((heard s sent = noPin r ↔ ∀ text, last ≠ some (.pin text)) ↔ last ≠ some .delete) := by
  obtain ⟨hflag, htext, hdeleted⟩ := pinTables_reachable h
  constructor
  · intro s e σ' he hst
    unfold Shows
    rw [sent_enters he hst, heard_enterRoom, List.append_cancel_left_eq, List.append_cancel_left_eq, pinShown, hflag]
    rcases last with _ | (text | _)
    · simp [pinLine]
    · simp [pinLine, htext text rfl]
    · simp [pinLine, withNewline]
  · intro s l sent σ' hq hst
    rw [sent_deletePin hq hst, hflag]
    rcases last with _ | (text | _)
    · simp
    · simp [(noPin_ne_nil r).symm]
    · simp [(noPin_ne_nil r).symm]

/-- Tom pins a text in room 1, and enters the room again. -/
theorem pin_lifecycle_pinned :
    let p := afterWith (lastPin 1) (start, none) [.connect 4, .line 4 "register tom pw\n", .line 4 "login tom pw\n",
      .line 4 "enter-chat-room 1\n", .line 4 "/pin hi\n"]
    ∃ sent, step p.1 (.line 4 "enter-chat-room 1\n") = some (after p.1 [.line 4 "enter-chat-room 1\n"], sent) ∧
      Shows p.1 4 1 ["Pin -> [tom]: hi".toList, "\n"] sent := by
  intro p
  have hp : (chat.ghost none (lastPin 1)).Reachable p := reachable_afterWith _ (.init ⟨rfl, rfl⟩)
  obtain ⟨hsome, he, hlast⟩ : (step p.1 (.line 4 "enter-chat-room 1\n")).isSome ∧
      Enters 4 1 p.1 (.line 4 "enter-chat-room 1\n") ∧ p.2 = some (.pin "Pin -> [tom]: hi".toList) := by
    decide +kernel
  clear_value p
  obtain ⟨sent, hst⟩ := step_after p.1 (.line 4 "enter-chat-room 1\n") hsome
  have hshows := ((pin_lifecycle hp).1 4 ⟨_, sent⟩ _ he hst).2 (by rw [hlast]; exact fun h => by cases h)
  rw [hlast] at hshows
  exact ⟨sent, hst, hshows⟩

/-- After a `/delete-pin` an empty line is shown for the pin, and another `/delete-pin` is not told that there is
none. -/
theorem pin_lifecycle_deleted :
    let p := afterWith (lastPin 1) (start, none) [.connect 4, .line 4 "register tom pw\n", .line 4 "login tom pw\n",
      .line 4 "enter-chat-room 1\n", .line 4 "/pin hi\n", .line 4 "/delete-pin\n"]
    (chat.ghost none (lastPin 1)).Reachable p ∧ p.2 = some .delete ∧
      (∃ σ' sent, Enters 4 1 p.1 (.line 4 "enter-chat-room 1\n") ∧
        step p.1 (.line 4 "enter-chat-room 1\n") = some (σ', sent) ∧ ¬ Shows p.1 4 1 [] sent) ∧
      ∃ σ' sent, request p.1 4 "/delete-pin\n" = .deletePin 1 ∧
        step p.1 (.line 4 "/delete-pin\n") = some (σ', sent) ∧ heard 4 sent ≠ noPin 1 := by
  intro p
  have hp : (chat.ghost none (lastPin 1)).Reachable p := reachable_afterWith _ (.init ⟨rfl, rfl⟩)
  obtain ⟨hsome, hsome', he, hq, hflag, hlast⟩ : (step p.1 (.line 4 "enter-chat-room 1\n")).isSome ∧
      (step p.1 (.line 4 "/delete-pin\n")).isSome ∧ Enters 4 1 p.1 (.line 4 "enter-chat-room 1\n") ∧
      request p.1 4 "/delete-pin\n" = .deletePin 1 ∧ p.1.chatRoomPins.getD 1 false = true ∧
      p.2 = some .delete := by
    decide +kernel
  clear_value p
  obtain ⟨sent, hst⟩ := step_after p.1 (.line 4 "enter-chat-room 1\n") hsome
  obtain ⟨sent', hst'⟩ := step_after p.1 (.line 4 "/delete-pin\n") hsome'
  refine ⟨hp, hlast, ⟨_, sent, he, hst, ?_⟩, _, sent', hq, hst', ?_⟩
  · have hsent : heard 4 sent = heard 4 (enterRoom p.1 4 1).2 :=
      sent_enters (e := ⟨.line 4 "enter-chat-room 1\n", sent⟩) he hst
    unfold Shows
    rw [hsent, heard_enterRoom, List.append_cancel_left_eq, List.append_cancel_left_eq, pinShown, if_pos hflag]
    exact List.cons_ne_nil _ _
  · rw [sent_deletePin hq hst', if_pos hflag]
    exact (noPin_ne_nil 1).symm

end IntroNP.Chat
