import IntroNP.Chat.Membership

/-!
# The chat server: who speaks

A line speaks in a room when it is posted there or becomes its pin (`speaking`). The only check is the entry in
`client_chat_rooms`, and none of the three ways in which a session ends takes the entry out.

- `stored_step`: histories and pins only grow by what is spoken;
- `entries_loggedIn`: as long as no session ends with an entry left behind (`EndsClean`), whoever has an entry is
  logged in;
- `speaker_loggedIn`: in such runs the speaker is logged in, and named in the text.
-/

namespace IntroNP.Chat

open Std

/-- The room that a line speaks in, and the text that is stored and sent to the members. -/
def speaking (σ : Server) : Act → Option (Int × Text)
  | .line s l =>
    match request σ s l with
    | .post r m => some (r, chatMessage (σ.username s) m)
    | .pin r m => some (r, pinText (σ.username s) m)
    | _ => none
  | _ => none

/-- No session ends while its socket has an entry. -/
def EndsClean (σ : Server) : Act → Prop
  | .line s l => request σ s l = .logout ∨ request σ s l = .exit → s ∉ σ.clientChatRooms
  | .disconnect s => s ∉ σ.clientChatRooms
  | .connect _ => True

instance (σ : Server) : ∀ a, Decidable (EndsClean σ a)
  | .line s l => inferInstanceAs (Decidable (request σ s l = .logout ∨ request σ s l = .exit → s ∉ σ.clientChatRooms))
  | .disconnect s => inferInstanceAs (Decidable (s ∉ σ.clientChatRooms))
  | .connect _ => .isTrue trivial

/-- The text is by a client `c` that is logged in, and names it. -/
def AuthoredBy (σ : Server) (c : Int) (text : Text) : Prop :=
  c ∈ σ.loggedInClients ∧ ∃ u message, σ.clientUsernames[c]? = some u ∧ u ≠ [] ∧ u ∈ σ.registeredUsers ∧
    (text = chatMessage u message ∨ text = pinText u message)

/-- What a step stores is what is spoken in it: a history stays, is emptied or grows by the text; a pin stays, is
emptied or becomes the text. -/
structure StoredStep (σ : Server) (a : Act) (σ' : Server) : Prop where
  history : ∀ r, σ'.chatRooms.getD r [] = σ.chatRooms.getD r [] ∨ σ'.chatRooms.getD r [] = [] ∨
    ∃ text, speaking σ a = some (r, text) ∧ σ'.chatRooms.getD r [] = σ.chatRooms.getD r [] ++ [text]
  pin : ∀ r, σ'.roomPinMessage.getD r [] = σ.roomPinMessage.getD r [] ∨ σ'.roomPinMessage.getD r [] = [] ∨
    ∃ text, speaking σ a = some (r, text) ∧ σ'.roomPinMessage.getD r [] = text

variable {σ σ' : Server} {s r : Int} {l text : Text} {q : Request} {sent : List Send} {a : Act}

/-! ## What is stored -/

theorem speaking_of_posting (h : posting σ a = some (r, text)) : speaking σ a = some (r, text) := by
  cases a with
  | connect _ | disconnect _ => cases h
  | line s l =>
    unfold posting at h
    unfold speaking
    dsimp only at h ⊢
    split at h
    · rename_i hq
      rw [hq]
      exact h
    · cases h

theorem history_stored (hst : step σ a = some (σ', sent)) (r : Int) :
    σ'.chatRooms.getD r [] = σ.chatRooms.getD r [] ∨ σ'.chatRooms.getD r [] = [] ∨
      ∃ text, speaking σ a = some (r, text) ∧ σ'.chatRooms.getD r [] = σ.chatRooms.getD r [] ++ [text] := by
  rw [history_step hst r, logPosts]
  cases hp : posting σ a with
  | none =>
    dsimp only
    split
    · exact .inr (.inl rfl)
    · exact .inl rfl
  | some rm =>
    obtain ⟨r', m⟩ := rm
    dsimp only
    split
    · rename_i hr
      subst hr
      exact .inr (.inr ⟨m, speaking_of_posting hp, rfl⟩)
    · exact .inl rfl

/-- The pin of `r` after a request of `s`. -/
def pinAfter (σ : Server) (s r : Int) : Request → Text
  | .pin r' m => if r' = r then pinText (σ.username s) m else σ.roomPinMessage.getD r []
  | .deletePin r' => if r' = r ∧ σ.chatRoomPins.getD r' false then [] else σ.roomPinMessage.getD r []
  | _ => σ.roomPinMessage.getD r []

theorem pin_line {next : Server × List Send} (hc : Outcome σ s l q (some next)) (r : Int) :
    next.1.roomPinMessage.getD r [] = pinAfter σ s r q := by
  cases hc with
  | nothing hq =>
    dsimp only
    rw [hq.eq]
    rfl
  | exit =>
    dsimp only
    split <;> rfl
  | enter =>
    obtain ⟨_, _, _, hp, h⟩ := enterRoom_fst σ s _
    rw [h]
    exact hp.getD_eq
  | pin =>
    rw [pinMessage_fst, pinAfter, ExtTreeMap.getD_insert]
    simp only [Std.compare_eq_iff_eq]
  | @deletePin r' =>
    rw [deletePin_fst, pinAfter]
    dsimp only
    by_cases hp : σ.chatRoomPins.getD r' false
    · simp only [hp, if_true, and_true, ExtTreeMap.getD_insert, Std.compare_eq_iff_eq]
    · simp only [hp, if_false, and_false, Bool.false_eq_true]
  | leave hr =>
    rw [exitChatRoom_fst hr]
    rfl
  | listRoom =>
    obtain ⟨_, _, _, _, h⟩ := listRoomUser_fst σ s _
    rw [h]
    rfl
  | register | login | logout | setStatus | close | post => rfl

theorem pin_stored (hst : step σ a = some (σ', sent)) (r : Int) :
    σ'.roomPinMessage.getD r [] = σ.roomPinMessage.getD r [] ∨ σ'.roomPinMessage.getD r [] = [] ∨
      ∃ text, speaking σ a = some (r, text) ∧ σ'.roomPinMessage.getD r [] = text := by
  cases a with
  | connect s =>
    obtain ⟨_, rfl, _⟩ := step_connect hst
    exact .inl rfl
  | disconnect s =>
    obtain ⟨_, rfl, _⟩ := step_disconnect hst
    unfold disconnect
    dsimp only
    split <;> exact .inl rfl
  | line s l =>
    obtain ⟨_, _, hc⟩ := step_line hst
    rw [show σ'.roomPinMessage.getD r [] = _ from pin_line (hc ▸ handleCommand_outcome σ s l) r]
    unfold pinAfter speaking
    dsimp only
    split
    · rename_i r' m hq
      rw [hq]
      split
      · rename_i hr
        exact .inr (.inr ⟨_, by rw [hr], rfl⟩)
      · exact .inl rfl
    · split
      · exact .inr (.inl rfl)
      · exact .inl rfl
    · exact .inl rfl

theorem stored_step (hst : step σ a = some (σ', sent)) : StoredStep σ a σ' :=
  ⟨history_stored hst, pin_stored hst⟩

/-! ## Who has an entry -/

/-- A loop over clients that are logged in gives entries to these only. -/
theorem mem_visit {m : ExtTreeMap Int Int} {ts : List Int} {t : Int}
    (ht : t ∈ (visit r 0 (fun _ m => m) ts m).2) : t ∈ m ∨ t ∈ ts := by
  rw [ExtTreeMap.mem_iff_isSome_getElem?] at ht
  rcases visit_keep_touched (v := r) (d := 0) ts m t with h | ⟨hts, _⟩
  · exact .inl (ExtTreeMap.mem_iff_isSome_getElem?.2 (h ▸ ht))
  · exact .inr hts

theorem mem_closeRooms {t : Int} (ht : t ∈ closeRooms σ r) : t ∈ σ.clientChatRooms ∨ t ∈ σ.loggedInClients := by
  by_cases hin : t ∈ σ.loggedInClients
  · exact .inr hin
  · rw [ExtTreeMap.mem_iff_isSome_getElem?, closeRooms, visit_erase_snd _ _ nodup_loggedIn,
      if_neg (fun h => hin (ExtTreeSet.mem_toList.1 h)), ← ExtTreeMap.mem_iff_isSome_getElem?] at ht
    exact .inl ht

variable {next : Server × List Send} {t : Int}

/-- What a line adds to the entries, it adds for clients that are logged in. -/
theorem mem_roomTable (hc : Outcome σ s l q (some next)) (ht : t ∈ roomTable σ s q) :
    t ∈ σ.clientChatRooms ∨ t ∈ σ.loggedInClients := by
  have hothers : t ∈ others σ s → t ∈ σ.loggedInClients := fun ht => (mem_others.1 ht).1
  cases hc with
  | enter _ _ hin =>
    rcases mem_visit ht with ht | ht
    · rcases mem_map_insert.1 ht with rfl | ht
      · exact .inr hin
      · exact .inl ht
    · exact .inr (hothers ht)
  | close => exact mem_closeRooms ht
  | pin => exact (mem_visit ht).imp_right hothers
  | leave => exact (mem_visit (ExtTreeMap.mem_of_mem_erase ht)).imp_right hothers
  | listRoom | post => exact (mem_visit ht).imp_right ExtTreeSet.mem_toList.1
  | nothing | register | login | logout | exit | setStatus | deletePin => exact .inl ht

/-- A client is logged in after a line of another one, or a line that ends no session, if it was before. -/
theorem loggedIn_line (hc : Outcome σ s l q (some next)) (ht : t ∈ σ.loggedInClients)
    (hends : q = .logout ∨ q = .exit → t ≠ s) : t ∈ next.1.loggedInClients := by
  cases hc with
  | nothing hq =>
    dsimp only
    rw [hq.eq]
    exact ht
  | login => exact mem_set_insert.2 (.inr ht)
  | logout => exact mem_set_erase.2 ⟨hends (.inl rfl), ht⟩
  | exit =>
    dsimp only
    split
    · exact mem_set_erase.2 ⟨hends (.inr rfl), ht⟩
    · exact ht
  | enter =>
    obtain ⟨_, _, _, _, hent⟩ := enterRoom_fst σ s _
    rw [hent]
    exact ht
  | deletePin =>
    rw [deletePin_fst]
    exact ht
  | leave hr =>
    rw [exitChatRoom_fst hr]
    exact ht
  | listRoom =>
    obtain ⟨_, _, _, _, hlist⟩ := listRoomUser_fst σ s _
    rw [hlist]
    exact ht
  | close | pin | post | register | setStatus => exact ht

theorem entries_loggedIn_line (h : ∀ t ∈ σ.clientChatRooms, t ∈ σ.loggedInClients)
    (hends : q = .logout ∨ q = .exit → s ∉ σ.clientChatRooms) (hc : Outcome σ s l q (some next)) :
    ∀ t ∈ next.1.clientChatRooms, t ∈ next.1.loggedInClients := by
  intro t ht
  rw [clientChatRooms_line hc] at ht
  refine loggedIn_line hc ((mem_roomTable hc ht).elim (h t) id) fun hq => ?_
  -- the entries are as they were when a session ends
  rintro rfl
  refine hends hq ?_
  rcases hq with rfl | rfl <;> exact ht

theorem entries_loggedIn_step (h : ∀ t ∈ σ.clientChatRooms, t ∈ σ.loggedInClients) (hends : EndsClean σ a)
    (hst : step σ a = some (σ', sent)) : ∀ t ∈ σ'.clientChatRooms, t ∈ σ'.loggedInClients := by
  cases a with
  | connect s =>
    obtain ⟨_, rfl, _⟩ := step_connect hst
    exact h
  | disconnect s =>
    obtain ⟨_, rfl, _⟩ := step_disconnect hst
    intro t ht
    rw [entries_disconnect] at ht
    have hts : t ≠ s := fun e => hends (e ▸ ht)
    unfold disconnect
    dsimp only
    split
    · exact mem_set_erase.2 ⟨hts, h t ht⟩
    · exact h t ht
  | line s l =>
    obtain ⟨_, _, hc⟩ := step_line hst
    exact entries_loggedIn_line h hends (hc ▸ handleCommand_outcome σ s l)

/-- As long as no session ends with an entry left behind, whoever has an entry is logged in. -/
theorem entries_loggedIn (h : (chat.restrict fun σ e => EndsClean σ e.act).Reachable σ) :
    ∀ t ∈ σ.clientChatRooms, t ∈ σ.loggedInClients := by
  refine h.invariant (P := fun σ => ∀ t ∈ σ.clientChatRooms, t ∈ σ.loggedInClients) ?_ ?_
  · intro σ h0
    cases h0
    exact fun t ht => absurd ht ExtTreeMap.not_mem_empty
  · exact fun σ e σ' _ hi hst => entries_loggedIn_step hi hst.1 hst.2

/-! ## Speakers -/

theorem Outcome.eq_pinMessage {m : Text} {o : Option (Server × List Send)} (h : Outcome σ s l (.pin r m) o) :
    σ.clientChatRooms[s]? = some r ∧ o = some (pinMessage σ s r m) := by
  cases h with
  | pin hr => exact ⟨hr, rfl⟩

/-- What is sent in a step that speaks is the text, in one piece with its end of line or in two. -/
def Says (text : Text) (sent : List Send) : Prop :=
  ∀ m ∈ sent, m.text = text ∨ m.text = "\n".toList ∨ m.text = text ++ "\n".toList

theorem says_postMessage (message : Text) :
    Says (chatMessage (σ.username s) message) (postMessage σ s r message).2 := by
  intro m hm
  obtain ⟨t, _, hm⟩ := List.mem_flatMap.1 hm
  obtain ⟨x, hx, rfl⟩ := mem_sendAll.1 hm
  rcases List.mem_cons.1 hx with rfl | hx
  · exact .inl rfl
  · rw [List.mem_singleton.1 hx]
    exact .inr (.inl rfl)

theorem says_pinMessage (message : Text) : Says (pinText (σ.username s) message) (pinMessage σ s r message).2 := by
  intro m hm
  rcases List.mem_cons.1 hm with rfl | hm
  · exact .inr (.inr rfl)
  · obtain ⟨t, _, hm⟩ := List.mem_flatMap.1 hm
    obtain ⟨x, hx, rfl⟩ := mem_sendAll.1 hm
    rw [List.mem_singleton.1 hx]
    exact .inr (.inr rfl)

/-- A line that speaks in a room comes from a client that has an entry, and what is sent is what it says. -/
theorem speaking_entry (hst : step σ a = some (σ', sent)) (h : speaking σ a = some (r, text)) :
    a.client ∈ σ.clientChatRooms ∧ Says text sent ∧
      ∃ message, text = chatMessage (σ.username a.client) message ∨ text = pinText (σ.username a.client) message := by
  cases a with
  | connect _ | disconnect _ => cases h
  | line s l =>
    obtain ⟨_, _, hc⟩ := step_line hst
    have ho := hc ▸ handleCommand_outcome σ s l
    have hmem : ∀ {r}, σ.clientChatRooms[s]? = some r → s ∈ σ.clientChatRooms := fun hr =>
      ExtTreeMap.mem_iff_isSome_getElem?.2 (hr ▸ rfl)
    unfold speaking at h
    dsimp only at h
    split at h
    · rename_i r' m hq
      cases h
      obtain ⟨hr, he⟩ := (hq ▸ ho).eq_postMessage
      have hsent : sent = (postMessage σ s r m).2 := congrArg Prod.snd (Option.some.inj he)
      exact ⟨hmem hr, hsent ▸ says_postMessage m, m, .inl rfl⟩
    · rename_i r' m hq
      cases h
      obtain ⟨hr, he⟩ := (hq ▸ ho).eq_pinMessage
      have hsent : sent = (pinMessage σ s r m).2 := congrArg Prod.snd (Option.some.inj he)
      exact ⟨hmem hr, hsent ▸ says_pinMessage m, m, .inr rfl⟩
    · cases h

/-- **Only logged-in users speak**, as long as no session ends with an entry left behind: what a step stores in a
history or as a pin is spoken in it, the speaker is logged in and named in the text, and the text is what is sent. -/
theorem speaker_loggedIn (h : (chat.restrict fun σ e => EndsClean σ e.act).Reachable σ) {e : Event}
    (hst : chat.step σ e σ') : StoredStep σ e.act σ' ∧
      ∀ r text, speaking σ e.act = some (r, text) → AuthoredBy σ e.act.client text ∧ Says text e.sent := by
  refine ⟨stored_step hst, fun r text hsp => ?_⟩
  have hs := sessionInv_reachable h.of_restrict
  obtain ⟨hentry, hsays, message, htext⟩ := speaking_entry hst hsp
  have hin := entries_loggedIn h _ hentry
  exact ⟨⟨hin, _, message, hs.username_eq hin, (hs.username_registered hin).1, (hs.username_registered hin).2, htext⟩,
    hsays⟩

/-- Tom is logged in and in room 1, and says something. -/
theorem speaker_loggedIn_tom :
    let σ := after (after (after (after start [.connect 4]) [.line 4 "register tom pw\n"]) [.line 4 "login tom pw\n"])
      [.line 4 "enter-chat-room 1\n"]
    AuthoredBy σ 4 "[tom]: hi" := by
  intro σ
  have h1 := reachable_restrict_after (C := EndsClean) (.init rfl) (a := .connect 4) trivial (by decide)
  have h2 := reachable_restrict_after h1 (a := .line 4 "register tom pw\n") (by decide +kernel) (by decide +kernel)
  have h3 := reachable_restrict_after h2 (a := .line 4 "login tom pw\n") (by decide +kernel) (by decide +kernel)
  have h4 := reachable_restrict_after h3 (a := .line 4 "enter-chat-room 1\n") (by decide +kernel) (by decide +kernel)
  obtain ⟨sent, hst⟩ := step_after σ (.line 4 "hi\n") (by decide +kernel)
  have hsp : speaking σ (.line 4 "hi\n") = some (1, "[tom]: hi".toList) := by decide +kernel
  exact ((speaker_loggedIn h4 (e := ⟨.line 4 "hi\n", sent⟩) hst).2 1 _ hsp).1

/-- A client that has logged out without leaving its room posts there, and is named by nothing. -/
theorem speaker_loggedOut :
    let σ := after start [.connect 4, .line 4 "register tom pw\n", .line 4 "login tom pw\n",
      .line 4 "enter-chat-room 1\n", .line 4 "logout\n"]
    let a := .line 4 "hi\n"
    chat.Reachable σ ∧ (∃ sent, step σ a = some (after σ [a], sent)) ∧
      speaking σ a = some (1, "[]: hi".toList) ∧ (after σ [a]).chatRooms[(1 : Int)]? = some ["[]: hi".toList] ∧
      ¬ AuthoredBy σ 4 "[]: hi" := by
  intro σ a
  obtain ⟨hout, hsome, hspeaks, hstored⟩ : 4 ∉ σ.loggedInClients ∧ (step σ a).isSome ∧
      speaking σ a = some (1, "[]: hi".toList) ∧ (after σ [a]).chatRooms[(1 : Int)]? = some ["[]: hi".toList] := by
    decide +kernel
  exact ⟨reachable_after _, step_after _ _ hsome, hspeaks, hstored, fun h => hout h.1⟩

end IntroNP.Chat
