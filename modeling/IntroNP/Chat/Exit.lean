import IntroNP.Chat.Membership

/-!
# The chat server: the meaning of `exit`

In a room, `exit` is a message; outside, it ends the connection. The server decides by the flag `in`, one for the whole
process: every client sets it by entering a room and clears it by leaving one.

- `room_entry`: a client that has entered a room and not left it has the entry of this room;
- `exit_flag`: the line means what it should if and only if the flag says where its sender is.
-/

namespace IntroNP.Chat

open Std

/-- The chat server, with the rooms entered and left. -/
def roomChat : System (Server × (Int → Option Int)) Event := chat.ghost (fun _ => none) roomsAfter

/-- The line `exit`. -/
def exitLine : Text := "exit\n"

/-- What `exit` should do for a client `c` in `room`: in a room, it is posted there, and `c` stays connected, and logged
in if it was; outside, the session and the connection end. -/
def ExitMeaning (σ : Server) (c : Int) (room : Option Int) : Prop :=
  ∃ σ' sent, handleCommand σ c exitLine = some (σ', sent) ∧
    match room with
    | some r =>
      σ'.chatRooms.getD r [] = σ.chatRooms.getD r [] ++ [chatMessage (σ.username c) "exit"] ∧
        c ∈ σ'.openSockets ∧ (c ∈ σ'.loggedInClients ↔ c ∈ σ.loggedInClients)
    | none => c ∉ σ'.loggedInClients ∧ c ∉ σ'.openSockets

variable {σ σ' : Server} {s r t c : Int} {l : Text} {q : Request} {sent : List Send} {a : Act}

/-! ## Rooms and entries -/

/-- A line leaves the entry of a client that stays in its room. -/
theorem room_entry_line {next : Server × List Send} {room : Option Int} (hc : Outcome σ s l q (some next))
    (h : ∀ r, room = some r → σ.clientChatRooms[t]? = some r) (hr : entryAfter s t room q = some r) :
    next.1.clientChatRooms[t]? = some r := by
  rw [clientChatRooms_line hc]
  cases hc with
  | enter =>
    refine (visit_keep_touched _ _).keep ?_
    rw [entryAfter] at hr
    split at hr
    · rename_i hts
      rw [hts, ExtTreeMap.getElem?_insert_self, hr]
    · rename_i hts
      rw [getElem?_insert_of_ne (Ne.symm hts), h r hr]
  | close =>
    rw [entryAfter] at hr
    split at hr
    · cases hr
    · rename_i hne
      have ht := h r hr
      rw [hr] at hne
      rw [roomTable, closeRooms, visit_erase_snd _ _ nodup_loggedIn, ExtTreeMap.getD_eq_getD_getElem?, ht,
        Option.getD_some, if_neg (fun e => hne (congrArg some e)), ite_self]
  | leave =>
    rw [entryAfter] at hr
    split at hr
    · cases hr
    · rename_i hts
      rw [roomTable, getElem?_erase_of_ne (Ne.symm hts)]
      exact (visit_keep_touched _ _).keep (h r hr)
  | pin | listRoom | post => exact (visit_keep_touched _ _).keep (h r hr)
  | nothing | register | login | logout | exit | setStatus | deletePin => exact h r hr

/-- A client that has entered a room and not left it has the entry of this room. -/
theorem room_entry {room : Int → Option Int} (h : roomChat.Reachable (σ, room)) (hr : room t = some r) :
    σ.clientChatRooms[t]? = some r := by
  refine h.invariant (P := fun p => ∀ t r, p.2 t = some r → p.1.clientChatRooms[t]? = some r) ?_ ?_ t r hr
  · rintro ⟨σ, room⟩ ⟨_, hroom⟩ t r hr
    cases hroom
    cases hr
  · rintro ⟨σ, room⟩ ⟨a, sent⟩ ⟨σ', room'⟩ _ ih ⟨hst, hroom⟩ t r hr
    have hroom : room' = roomsAfter σ ⟨a, sent⟩ room := hroom
    subst hroom
    cases a with
    | connect s =>
      obtain ⟨_, rfl, _⟩ := step_connect hst
      unfold roomsAfter at hr
      dsimp only at hr
      split at hr
      · cases hr
      · exact ih t r hr
    | disconnect s =>
      obtain ⟨_, rfl, _⟩ := step_disconnect hst
      dsimp only
      rw [entries_disconnect]
      exact ih t r hr
    | line s l =>
      obtain ⟨_, _, hc⟩ := step_line hst
      exact room_entry_line (hc ▸ handleCommand_outcome σ s l) (ih t) hr

/-! ## The line -/

theorem word_exitLine : word exitLine = some "exit".toList := by decide

theorem arg_exitLine : arg exitLine = none := by decide

theorem tailText_exitLine : tailText exitLine = none := by decide

theorem request_exitLine (h : σ.inFlag = false) : request σ c exitLine = .exit := by
  unfold request
  rw [word_exitLine]
  change (if _ ∧ σ.inFlag = false then _ else _) = _
  rw [if_pos ⟨rfl, h⟩, arg_exitLine]
  rfl

theorem request_exitLine_set (h : σ.inFlag = true) : request σ c exitLine =
    match σ.clientChatRooms[c]? with
    | some r => .post r "exit"
    | none => .nothing := by
  unfold request
  rw [word_exitLine]
  change (if _ ∧ σ.inFlag = false then _ else _) = _
  rw [if_neg (by simp [h])]
  change (match σ.clientChatRooms[c]? with | some r => roomRequest r "exit" exitLine | none => _) = _
  cases σ.clientChatRooms[c]? with
  | none => rfl
  | some r =>
    dsimp only
    unfold roomRequest
    rw [tailText_exitLine]
    rfl

/-! ## What the line does -/

theorem Outcome.eq_exit {o : Option (Server × List Send)} (h : Outcome σ s l .exit o) :
    ∃ sent, o = some ((if s ∈ σ.loggedInClients then σ.endSession s else σ.touchUsername s).close s, sent) := by
  cases h
  exact ⟨_, rfl⟩

theorem Outcome.eq_nothing {o : Option (Server × List Send)} (h : Outcome σ s l .nothing o) :
    ∃ σ' sent, o = some (σ', sent) ∧ Quiet σ s σ' := by
  cases h with
  | nothing hq => exact ⟨_, _, rfl, hq⟩

/-- With the flag cleared, the line ends the connection. -/
theorem exit_closes (h : σ.inFlag = false) : ∃ σ' sent, handleCommand σ c exitLine = some (σ', sent) ∧
    c ∉ σ'.loggedInClients ∧ c ∉ σ'.openSockets := by
  obtain ⟨sent, ho⟩ := (request_exitLine h ▸ handleCommand_outcome σ c exitLine).eq_exit
  refine ⟨_, sent, ho, ?_, fun hc => (mem_set_erase.1 hc).1 rfl⟩
  split
  · exact fun hc => (mem_set_erase.1 hc).1 rfl
  · assumption

/-- With the flag set, the line of a client that has an entry is posted. -/
theorem exit_posts (h : σ.inFlag = true) (hr : σ.clientChatRooms[c]? = some r) :
    handleCommand σ c exitLine = some (postMessage σ c r "exit") := by
  have hq : request σ c exitLine = .post r "exit" := by rw [request_exitLine_set h, hr]
  exact (hq ▸ handleCommand_outcome σ c exitLine).eq_postMessage.2

/-- With the flag set, the line closes nothing. -/
theorem exit_stays (h : σ.inFlag = true) (hc : handleCommand σ c exitLine = some (σ', sent)) :
    σ'.openSockets = σ.openSockets := by
  cases hr : σ.clientChatRooms[c]? with
  | some r =>
    rw [exit_posts h hr] at hc
    have hσ' : σ' = (postMessage σ c r "exit").1 := congrArg Prod.fst (Option.some.inj hc).symm
    rw [hσ', postMessage_fst]
  | none =>
    have hq : request σ c exitLine = .nothing := by rw [request_exitLine_set h, hr]
    obtain ⟨σ₁, sent₁, ho, hquiet⟩ := (hq ▸ handleCommand_outcome σ c exitLine).eq_nothing
    obtain ⟨rfl, _⟩ := Prod.mk.inj (Option.some.inj (hc.symm.trans ho))
    rw [hquiet.eq]

/-! ## When it means what it should -/

/-- The flag says where `c` is. -/
def FlagRight (σ : Server) (room : Option Int) : Prop := σ.inFlag = true ↔ room.isSome

/-- **The meaning of `exit`.** The line of a client does what it should if and only if the flag `in`, which all clients
share, says whether this client is in a room. Two states in which it does, and in which the client is in the same room
or in none, treat the line alike. -/
theorem exit_flag {room : Int → Option Int} (h : roomChat.Reachable (σ, room)) (hc : c ∈ σ.openSockets) :
    (ExitMeaning σ c (room c) ↔ FlagRight σ (room c)) ∧
    ∀ σ₂ room₂, roomChat.Reachable (σ₂, room₂) → room₂ c = room c → FlagRight σ (room c) →
      FlagRight σ₂ (room c) → request σ₂ c exitLine = request σ c exitLine := by
  unfold FlagRight
  constructor
  · cases hflag : σ.inFlag with
    | false =>
      obtain ⟨σ', sent, hcmd, hout, hclosed⟩ := exit_closes (c := c) hflag
      cases hroom : room c with
      | none => exact ⟨fun _ => by simp, fun _ => ⟨σ', sent, hcmd, hout, hclosed⟩⟩
      | some r =>
        refine ⟨fun ⟨σ₁, sent₁, hcmd₁, _, hopen, _⟩ => ?_, fun hf => by simp at hf⟩
        obtain ⟨rfl, _⟩ := Prod.mk.inj (Option.some.inj (hcmd.symm.trans hcmd₁))
        exact absurd hopen hclosed
    | true =>
      cases hroom : room c with
      | none =>
        refine ⟨fun ⟨σ₁, sent₁, hcmd₁, _, hclosed⟩ => ?_, fun hf => by simp at hf⟩
        rw [exit_stays hflag hcmd₁] at hclosed
        exact absurd hc hclosed
      | some r =>
        have hcmd := exit_posts hflag (room_entry h hroom)
        exact ⟨fun _ => by simp, fun _ => ⟨_, _, hcmd, ExtTreeMap.getD_insert_self, hc, .rfl⟩⟩
  · intro σ₂ room₂ h₂ hsame hf hf₂
    cases hroom : room c with
    | none =>
      simp only [hroom, Option.isSome_none, Bool.false_eq_true, iff_false, Bool.not_eq_true] at hf hf₂
      rw [request_exitLine hf, request_exitLine hf₂]
    | some r =>
      simp only [hroom, Option.isSome_some, iff_true] at hf hf₂
      rw [request_exitLine_set hf, request_exitLine_set hf₂, room_entry h hroom,
        room_entry h₂ (hsame.trans hroom)]

/-- Ann has been in room 2, and left it; then Tom has entered room 1. His `exit` is posted there. -/
theorem exit_flag_tom :
    let p := afterWith roomsAfter (start, fun _ => none) [.connect 4, .connect 5, .line 4 "register tom pw\n",
      .line 4 "login tom pw\n", .line 5 "register ann pw\n", .line 5 "login ann pw\n", .line 5 "enter-chat-room 2\n",
      .line 5 "/exit-chat-room\n", .line 4 "enter-chat-room 1\n"]
    roomChat.Reachable p ∧ p.2 4 = some 1 ∧ p.2 5 = none ∧ 5 ∈ p.1.loggedInClients ∧ ExitMeaning p.1 4 (p.2 4) := by
  intro p
  have h : roomChat.Reachable p := reachable_afterWith _ (.init ⟨rfl, rfl⟩)
  obtain ⟨hfour, hfive, hann, hflag, hopen⟩ : p.2 4 = some 1 ∧ p.2 5 = none ∧ 5 ∈ p.1.loggedInClients ∧
      p.1.inFlag = true ∧ 4 ∈ p.1.openSockets := by decide +kernel
  clear_value p
  refine ⟨h, hfour, hfive, hann, (exit_flag h hopen).1.2 ?_⟩
  unfold FlagRight
  simp only [hflag, hfour, Option.isSome_some]

/-- Tom has entered a room. The `exit` of a client that is in no room, and not even logged in, is now refused; before,
it closed the connection. -/
theorem exit_refused :
    let σ := after start [.connect 4, .connect 5, .line 4 "register tom pw\n", .line 4 "login tom pw\n"]
    let σ' := after σ [.line 4 "enter-chat-room 1\n"]
    ∃ room room', roomChat.Reachable (σ, room) ∧ roomChat.Reachable (σ', room') ∧ room 5 = none ∧ room' 5 = none ∧
      5 ∉ σ.loggedInClients ∧ 5 ∉ σ'.loggedInClients ∧
      ExitMeaning σ 5 (room 5) ∧ ¬ ExitMeaning σ' 5 (room' 5) := by
  intro σ σ'
  obtain ⟨room, h⟩ : ∃ room, roomChat.Reachable (σ, room) := (reachable_after _).exists_ghost
  obtain ⟨room', h'⟩ : ∃ room, roomChat.Reachable (σ', room) := by
    obtain ⟨es, hr⟩ := run_after [.line 4 "enter-chat-room 1\n"] σ
    exact ((reachable_after _).run hr).exists_ghost
  obtain ⟨hno, hno', hout, hout', hflag, hflag', hopen'⟩ :
      σ.clientChatRooms[(5 : Int)]? = none ∧ σ'.clientChatRooms[(5 : Int)]? = none ∧ 5 ∉ σ.loggedInClients ∧
        5 ∉ σ'.loggedInClients ∧ σ.inFlag = false ∧ σ'.inFlag = true ∧ 5 ∈ σ'.openSockets := by decide +kernel
  have hroom : room 5 = none := by
    cases hr : room 5 with
    | none => rfl
    | some r => exact absurd (room_entry h hr) (by rw [hno]; simp)
  have hroom' : room' 5 = none := by
    cases hr : room' 5 with
    | none => rfl
    | some r => exact absurd (room_entry h' hr) (by rw [hno']; simp)
  refine ⟨room, room', h, h', hroom, hroom', hout, hout', ?_, ?_⟩
  · rw [hroom]
    exact exit_closes hflag
  · rw [hroom']
    rintro ⟨σ₁, sent₁, hcmd, _, hclosed⟩
    rw [exit_stays hflag' hcmd] at hclosed
    exact hclosed hopen'

end IntroNP.Chat
