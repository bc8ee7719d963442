import IntroNP.Chat.Pins

/-!
# The chat server: closing a room

What the server knows about a room is in five tables keyed by its number and one keyed by the clients.
`close-chat-room` erases the room from two of the five, and takes out the entries of the members that are logged in. The
two tables of the pin stay as they are.

- `Fresh` is what a room is like that nobody has used since it was closed, and `fresh_step` keeps it until the room is
  entered;
- `close_erases`: a closed room is erased exactly when it had no pin, and nobody was in it without being logged in.
-/

namespace IntroNP.Chat

open Std

/-! ## What closing is for -/

/-- The line of `list-chat-room` about room `r`. -/
def roomLine (owner : Text) (r : Int) : Text := owner ++ " ".toList ++ toDecimal r ++ "\n".toList

/-- The client `c`, which enters `r` in the step from `σ` to `σ'`, finds a new room: it is the owner, it is shown
nothing but the welcome, and a `/delete-pin` is told that there is no pin. -/
structure FindsNew (r c : Int) (σ : Server) (sent : List Send) (σ' : Server) : Prop where
  owner : ∃ u, σ.clientUsernames[c]? = some u ∧ u ≠ [] ∧ σ'.chatRoomCreators[r]? = some u ∧ heard c sent = welcome r u
  noPin : ∀ l sent' σ'', request σ' c l = .deletePin r → step σ' (.line c l) = some (σ'', sent') →
    heard c sent' = noPin r

/-- Room `r` is erased in `σ`: no client that is logged in is a member, no `list-chat-room` has a line about it, and
the client that enters it next finds a new room. -/
structure Erased (r : Int) (σ : Server) : Prop where
  members : ∀ t ∈ σ.loggedInClients, σ.clientChatRooms[t]? ≠ some r
  listed : ∀ s l σ' sent owner, word l = some "list-chat-room".toList → step σ (.line s l) = some (σ', sent) →
    sendMessage s (roomLine owner r) ∉ sent
  next : ∀ es σ₁ c e σ₂, (chat.restrict fun σ e => ¬ ∃ s, Enters s r σ e.act).Run σ es σ₁ → Enters c r σ₁ e.act →
    chat.step σ₁ e σ₂ → FindsNew r c σ₁ e.sent σ₂

/-- Nothing is left of room `r` in the tables that are read when a client enters. -/
structure Fresh (r : Int) (σ : Server) : Prop where
  nobody : ∀ t : Int, σ.clientChatRooms[t]? ≠ some r
  unowned : Unowned r σ
  history : σ.chatRooms.getD r [] = []
  unpinned : σ.chatRoomPins.getD r false = false

variable {σ σ' : Server} {s t r : Int} {l str : Text} {q : Request} {sent : List Send} {a : Act}
  {next : Server × List Send}

/-! ## A room that nobody enters -/

/-- A line gives a client the entry `r` only if it enters `r`. -/
theorem roomTable_new (hc : Outcome σ s l q (some next)) (hr : r ≠ 0) (hne : q ≠ .enter r)
    (ht : (roomTable σ s q)[t]? = some r) : σ.clientChatRooms[t]? = some r := by
  have hvisit : ∀ {v : Int} {ts : List Int} {m : ExtTreeMap Int Int},
      (visit v 0 (fun _ m => m) ts m).2[t]? = some r → m[t]? = some r := by
    intro v ts m h
    rcases visit_keep_touched (v := v) (d := 0) ts m t with he | ⟨_, _, he⟩
    · exact he ▸ h
    · rw [he] at h
      exact absurd (Option.some.inj h).symm hr
  cases hc with
  | @enter str =>
    have h := hvisit ht
    by_cases hts : s = t
    · subst hts
      rw [ExtTreeMap.getElem?_insert_self] at h
      exact absurd (congrArg Request.enter (Option.some.inj h)) hne
    · rwa [getElem?_insert_of_ne hts] at h
  | @close str =>
    rw [roomTable, closeRooms, visit_erase_snd _ _ nodup_loggedIn] at ht
    split at ht
    · split at ht
      · cases ht
      · rw [ExtTreeMap.getD_eq_getD_getElem?] at ht
        cases hm : σ.clientChatRooms[t]? with
        | none =>
          rw [hm] at ht
          exact absurd (Option.some.inj ht).symm hr
        | some v =>
          rw [hm] at ht
          exact ht
    · exact ht
  | pin => exact hvisit ht
  | leave =>
    rw [roomTable] at ht
    by_cases hts : s = t
    · rw [hts, ExtTreeMap.getElem?_erase_self] at ht
      cases ht
    · rw [getElem?_erase_of_ne hts] at ht
      exact hvisit ht
  | listRoom | post => exact hvisit ht
  | nothing | register | login | logout | exit | setStatus | deletePin => exact ht

theorem enters_of_request (h : request σ s l = .enter r) : Enters s r σ (.line s l) := by
  have ho := h ▸ handleCommand_outcome σ s l
  generalize hn : handleCommand σ s l = o at ho
  cases ho with
  | enter hw hstr hin h1 h100 => exact ⟨rfl, hw, by rw [hstr]; rfl, hin, h1, h100⟩

/-- **One step**: a room of which nothing is left stays so, until it is entered. -/
theorem fresh_step (h : Fresh r σ) (hr : r ≠ 0) (hno : ¬ ∃ s, Enters s r σ a) (hst : step σ a = some (σ', sent)) :
    Fresh r σ' := by
  have hunowned := unowned_step hst hno h.unowned
  cases a with
  | connect s =>
    obtain ⟨_, rfl, _⟩ := step_connect hst
    exact { h with unowned := hunowned }
  | disconnect s =>
    obtain ⟨_, rfl, _⟩ := step_disconnect hst
    refine ⟨fun t => ?_, hunowned, ?_, ?_⟩
    · rw [entries_disconnect]
      exact h.nobody t
    · unfold disconnect
      dsimp only
      split <;> exact h.history
    · unfold disconnect
      dsimp only
      split <;> exact h.unpinned
  | line s l =>
    obtain ⟨_, _, hc⟩ := step_line hst
    have ho := hc ▸ handleCommand_outcome σ s l
    have hmember : ∀ r', σ.clientChatRooms[s]? = some r' → r' ≠ r := fun r' hr' e => h.nobody s (e ▸ hr')
    refine ⟨fun t ht => ?_, hunowned, ?_, ?_⟩
    · rw [show σ'.clientChatRooms = _ from clientChatRooms_line ho] at ht
      exact h.nobody t (roomTable_new ho hr (fun he => hno ⟨s, enters_of_request he⟩) ht)
    · rw [show σ'.chatRooms.getD r [] = _ from chatRooms_line ho r]
      unfold historyAfter
      split
      · rename_i r' m hq
        rw [if_neg (hmember r' (hq ▸ ho).eq_postMessage.1), h.history]
      · rw [h.history, ite_self]
      · exact h.history
    · rw [show σ'.chatRoomPins.getD r false = _ from flag_line ho r]
      unfold flagAfter
      split
      · rename_i r' m hq
        rw [if_neg (hmember r' (hq ▸ ho).eq_pinMessage.1), h.unpinned]
      · exact h.unpinned

/-- The client that enters a room of which nothing is left finds a new room. -/
theorem Fresh.findsNew {c : Int} (h : Fresh r σ) (hs : SessionInv σ) (he : Enters c r σ a)
    (hst : step σ a = some (σ', sent)) : FindsNew r c σ sent σ' := by
  obtain ⟨u, hu, hne, _, howner⟩ := owner_enter hs hst he h.unowned
  obtain ⟨_, _, _, _, hfst⟩ := enterRoom_fst σ c r
  have hent := he.step hst
  rw [hent] at hfst
  dsimp only at hfst
  constructor
  · have hcreators : (enterCreators σ c r).getD r [] = u := by
      rw [hfst] at howner
      rw [ExtTreeMap.getD_eq_getD_getElem?, howner]
      rfl
    have hpinned : pinShown σ r = [] := if_neg (by simp [h.unpinned])
    have hheard := heard_enterRoom σ c r
    rw [hent, hcreators, h.history, hpinned] at hheard
    exact ⟨u, hu, hne, howner, hheard.trans (List.append_nil _)⟩
  · intro l sent' σ'' hq hst'
    obtain ⟨_, _, hc⟩ := step_line hst'
    have ho := hc ▸ handleCommand_outcome σ' c l
    rw [hq] at ho
    have hheard := heard_deletePin σ' c r
    have hflag : σ'.chatRoomPins.getD r false = false := by rw [hfst, getD_insertIfNew, h.unpinned]
    rw [← Option.some.inj ho.eq_deletePin.2, hflag] at hheard
    exact hheard

/-! ## Closing -/

/-- Only rooms 1 to 100 have owners. -/
theorem owner_range (h : chat.Reachable σ) (hr : σ.chatRoomCreators.getD r [] ≠ []) : 1 ≤ r ∧ r ≤ 100 := by
  by_contra hno
  refine hr (unowned_iff.1 (h.invariant (P := Unowned r) ?_ ?_))
  · intro σ h0
    cases h0
    exact .inl ExtTreeMap.getElem?_empty
  · refine fun σ e σ' _ hun hst => unowned_step hst ?_ hun
    rintro ⟨s, he⟩
    obtain ⟨act, _⟩ := e
    cases act with
    | connect _ | disconnect _ => exact he
    | line t l => exact hno he.2.2.2.2

/-- What a granted `close-chat-room` was checked for, and what it does. -/
theorem Outcome.eq_closeRoom {o : Option (Server × List Send)} (h : Outcome σ s l (.close r str) o) :
    s ∈ σ.loggedInClients ∧ σ.chatRoomCreators.getD r [] = σ.username s ∧
      o = some (closeRoom (ownerLookup σ s r) s r str) := by
  cases h with
  | close _ _ hin _ hown => exact ⟨hin, hown, rfl⟩

/-- A client that is logged in has no entry for a room that was closed. -/
theorem closeRooms_members (ht : t ∈ σ.loggedInClients) : (closeRooms σ r)[t]? ≠ some r := by
  unfold closeRooms
  rw [visit_erase_snd _ _ nodup_loggedIn, if_pos (ExtTreeSet.mem_toList.2 ht)]
  split
  · exact fun h => by cases h
  · rename_i hne
    exact fun h => hne (Option.some.inj h)

theorem closeRooms_loggedOut (ht : t ∉ σ.loggedInClients) : (closeRooms σ r)[t]? = σ.clientChatRooms[t]? := by
  unfold closeRooms
  rw [visit_erase_snd _ _ nodup_loggedIn, if_neg (fun h => ht (ExtTreeSet.mem_toList.1 h))]

/-- Without a pin and without members that are not logged in, nothing is left of a closed room. -/
theorem fresh_close (hunpinned : σ.chatRoomPins.getD r false = false)
    (hout : ∀ t, t ∉ σ.loggedInClients → σ.clientChatRooms[t]? ≠ some r) :
    Fresh r (closeRoom (ownerLookup σ s r) s r str).1 := by
  rw [closeRoom_fst]
  refine ⟨fun t => ?_, .inl ExtTreeMap.getElem?_erase_self, ExtTreeMap.getD_erase_self, hunpinned⟩
  by_cases ht : t ∈ σ.loggedInClients
  · exact closeRooms_members ht
  · dsimp only
    rw [closeRooms_loggedOut ht]
    exact hout t ht

/-! ## The list of rooms -/

theorem handleCommand_listChatRoom (hw : word l = some "list-chat-room".toList) :
    handleCommand σ s l = some (listChatRoom σ s (rest l)) := by
  rw [handleCommand_eq, hw]
  rfl

/-- The text in front of the last `c` and the text behind it. -/
theorem append_cons_inj {c : Char} {u u' x x' : Text} (hx : c ∉ x) (hx' : c ∉ x') (h : u ++ c :: x = u' ++ c :: x') :
    x = x' := by
  rcases List.append_eq_append_iff.1 h with ⟨v, -, hv⟩ | ⟨v, -, hv⟩
  · rcases v with _ | ⟨d, v⟩
    · exact (List.cons.inj hv).2
    · rw [List.cons_append] at hv
      exact absurd ((List.cons.inj hv).2 ▸ List.mem_append_right v List.mem_cons_self) hx
  · rcases v with _ | ⟨d, v⟩
    · exact (List.cons.inj hv).2.symm
    · rw [List.cons_append] at hv
      exact absurd ((List.cons.inj hv).2 ▸ List.mem_append_right v List.mem_cons_self) hx'

theorem roomLine_injective {u u' : Text} {r' : Int} (h : roomLine u r = roomLine u' r') : r = r' := by
  have hline : ∀ (v : Text) (n : Int), roomLine v n = v ++ ' ' :: (toDecimal n ++ "\n".toList) := fun v n => by
    simp [roomLine]
  have hspace : ∀ n : Int, ' ' ∉ toDecimal n ++ "\n".toList := fun n h => by
    rcases List.mem_append.1 h with h | h
    · exact space_notMem_toDecimal n h
    · exact absurd h (by decide)
  rw [hline, hline] at h
  exact toDecimal_injective (List.append_cancel_right (append_cons_inj (hspace r) (hspace r') h))

/-- A room that does not exist has no line. -/
theorem not_listed (hr : r ∉ σ.chatRooms) (hw : word l = some "list-chat-room".toList)
    (hst : step σ (.line s l) = some (σ', sent)) (owner : Text) : sendMessage s (roomLine owner r) ∉ sent := by
  obtain ⟨_, _, hc⟩ := step_line hst
  rw [handleCommand_listChatRoom hw] at hc
  have hlast : ∀ t : Text, t.getLast? = some ' ' → sendMessage s (roomLine owner r) ≠ sendMessage s t := by
    intro t ht he
    have he := congrArg (fun m : Send => m.text.getLast?) he
    dsimp only [sendMessage] at he
    rw [ht, roomLine, List.getLast?_append] at he
    cases he
  unfold listChatRoom at hc
  split at hc
  · cases hc
    exact fun h => hlast _ (by decide) (List.mem_singleton.1 h)
  · split at hc
    · cases hc
      exact fun h => hlast _ (by decide) (List.mem_singleton.1 h)
    · cases hc
      intro h
      rcases List.mem_append.1 h with h | h
      · obtain ⟨r', hr', he⟩ := List.mem_map.1 h
        have hrr : r' = r := roomLine_injective (congrArg Send.text he)
        exact hr (hrr ▸ ExtTreeMap.mem_keys.1 hr')
      · exact hlast _ (by decide) (List.mem_singleton.1 h)

/-! ## What is left of a room -/

/-- The line with which a client asks to enter `r`. -/
def enterLine (r : Int) : Text := "enter-chat-room ".toList ++ toDecimal r ++ "\n".toList

theorem enterLine_spec (h1 : 1 ≤ r) (h100 : r ≤ 100) :
    word (enterLine r) = some "enter-chat-room".toList ∧ (arg (enterLine r)).map atoi = some r := by
  have hall : ∀ n : Fin 101, word (enterLine n.val) = some "enter-chat-room".toList ∧
      (arg (enterLine n.val)).map atoi = some (n.val : Int) := by decide +kernel
  obtain ⟨n, rfl⟩ := Int.eq_ofNat_of_zero_le (by omega : 0 ≤ r)
  exact hall ⟨n, by omega⟩

/-- A line starts no thread and ends none, and opens no socket. -/
theorem sockets_line (hc : Outcome σ s l q (some next)) :
    next.1.handlers = σ.handlers ∧ ∀ t ∈ next.1.openSockets, t ∈ σ.openSockets := by
  cases hc with
  | nothing hq =>
    dsimp only
    rw [hq.eq]
    exact ⟨rfl, fun _ => id⟩
  | exit =>
    dsimp only
    split <;> exact ⟨rfl, fun _ ht => (mem_set_erase.1 ht).2⟩
  | enter =>
    obtain ⟨_, _, _, _, h⟩ := enterRoom_fst σ s _
    rw [h]
    exact ⟨rfl, fun _ => id⟩
  | deletePin =>
    rw [deletePin_fst]
    exact ⟨rfl, fun _ => id⟩
  | leave hr =>
    rw [exitChatRoom_fst hr]
    exact ⟨rfl, fun _ => id⟩
  | listRoom =>
    obtain ⟨_, _, _, _, h⟩ := listRoomUser_fst σ s _
    rw [h]
    exact ⟨rfl, fun _ => id⟩
  | register | login | logout | setStatus | close | pin | post => exact ⟨rfl, fun _ => id⟩

/-- A socket that is open is served by a thread. -/
theorem openSockets_handlers (h : chat.Reachable σ) : ∀ t ∈ σ.openSockets, t ∈ σ.handlers := by
  refine h.invariant (P := fun σ => ∀ t ∈ σ.openSockets, t ∈ σ.handlers) ?_ ?_
  · intro σ h0
    cases h0
    exact fun t ht => absurd ht ExtTreeSet.not_mem_empty
  · rintro σ ⟨act, sent⟩ σ' _ ih hst t ht
    cases act with
    | connect s =>
      obtain ⟨_, rfl, _⟩ := step_connect hst
      rcases mem_set_insert.1 ht with rfl | ht
      · exact List.mem_cons_self
      · exact List.mem_cons_of_mem _ (ih t ht)
    | disconnect s =>
      obtain ⟨_, rfl, _⟩ := step_disconnect hst
      have hclosed : t ≠ s ∧ t ∈ σ.openSockets ∧ (disconnect σ s).handlers = σ.handlers.erase s := by
        unfold disconnect at ht ⊢
        dsimp only at ht ⊢
        split at ht
        · rename_i hin
          rw [if_pos hin]
          exact ⟨(mem_set_erase.1 ht).1, (mem_set_erase.1 ht).2, rfl⟩
        · rename_i hin
          rw [if_neg hin]
          exact ⟨(mem_set_erase.1 ht).1, (mem_set_erase.1 ht).2, rfl⟩
      obtain ⟨hts, hopen, heq⟩ := hclosed
      rw [heq]
      exact (List.mem_erase_of_ne hts).2 (ih t hopen)
    | line s l =>
      obtain ⟨_, _, hc⟩ := step_line hst
      obtain ⟨hh, ho⟩ := sockets_line (hc ▸ handleCommand_outcome σ s l)
      exact hh ▸ ih t (ho t ht)

theorem can_enter (hin : s ∈ σ.loggedInClients) (hopen : s ∈ σ.openSockets) (hserved : s ∈ σ.handlers) (h1 : 1 ≤ r)
    (h100 : r ≤ 100) : ∃ e σ', Enters s r σ e.act ∧ chat.step σ e σ' := by
  obtain ⟨hw, harg⟩ := enterLine_spec h1 h100
  have he : Enters s r σ (.line s (enterLine r)) := ⟨rfl, hw, harg, hin, h1, h100⟩
  refine ⟨⟨.line s (enterLine r), (enterRoom σ s r).2⟩, (enterRoom σ s r).1, he, ?_⟩
  have ho := (he.request ▸ handleCommand_outcome σ s (enterLine r)).eq_enterRoom
  exact (if_pos ⟨hopen, hserved⟩).trans ho

theorem shown_ne_nil {messages : List Text} (h : messages ≠ []) : shown messages ≠ [] := by
  have hpos := List.length_pos_iff.2 h
  rw [shown_eq, ← List.length_pos_iff, List.length_drop]
  omega

/-- As long as an erased room is not entered, there is nothing to show of it. -/
theorem Erased.empty {σ₁ : Server} {es : List Event} (h : Erased r σ)
    (hrun : (chat.restrict fun σ e => ¬ ∃ s, Enters s r σ e.act).Run σ es σ₁) (hin : s ∈ σ₁.loggedInClients)
    (hopen : s ∈ σ₁.openSockets) (hserved : s ∈ σ₁.handlers) (h1 : 1 ≤ r) (h100 : r ≤ 100) :
    σ₁.chatRooms.getD r [] = [] ∧ σ₁.chatRoomPins.getD r false = false := by
  obtain ⟨e, σ₂, he, hst⟩ := can_enter hin hopen hserved h1 h100
  obtain ⟨u, _, _, _, hheard⟩ := (h.next es σ₁ s e σ₂ hrun he hst).owner
  have hshown := heard_enterRoom σ₁ s r
  rw [he.step hst, hheard] at hshown
  -- the welcome is all that is sent, so that what follows it is empty
  have hlen := congrArg List.length hshown
  have hwelcome : ∀ v, (welcome r v).length = 7 := fun _ => rfl
  rw [List.length_append, List.length_append, hwelcome, hwelcome] at hlen
  constructor
  · by_contra hne
    obtain ⟨m, hm⟩ := List.exists_mem_of_ne_nil _ (shown_ne_nil hne)
    have hpos : 0 < ((shown (σ₁.chatRooms.getD r [])).flatMap withNewline).length :=
      List.length_pos_of_mem (List.mem_flatMap.2 ⟨m, hm, List.mem_cons_self⟩)
    omega
  · by_contra hne
    rw [pinShown, if_pos (by simpa using hne)] at hlen
    simp [withNewline] at hlen

/-- A client with an entry posts what it says, also when it is not logged in. -/
theorem can_post (hr : σ.clientChatRooms[t]? = some r) (hopen : t ∈ σ.openSockets) (hserved : t ∈ σ.handlers) :
    chat.step σ ⟨.line t "hi\n", (postMessage σ t r "hi").2⟩ (postMessage σ t r "hi").1 := by
  have hq : request σ t "hi\n" = .post r "hi" := by
    have hw : word "hi\n" = some "hi".toList := by decide
    unfold request
    rw [hw]
    dsimp only
    unfold tokenRequest
    rw [if_neg (by decide), if_neg (by decide), if_neg (by decide), if_neg (fun h => absurd h.1 (by decide)),
      if_neg (by decide), if_neg (by decide), if_neg (by decide), if_neg (by decide), if_neg (by decide),
      if_neg (by decide), hr]
    rfl
  have ho := (hq ▸ handleCommand_outcome σ t "hi\n").eq_postMessage
  exact (if_pos ⟨hopen, hserved⟩).trans ho.2

/-- A client with an entry can come to send lines, under its number, without anybody entering a room. -/
theorem can_send (h : chat.Reachable σ) (t : Int) : ∃ es σ₁,
    (chat.restrict fun σ e => ¬ ∃ s, Enters s r σ e.act).Run σ es σ₁ ∧ t ∈ σ₁.openSockets ∧ t ∈ σ₁.handlers ∧
    σ₁.clientChatRooms = σ.clientChatRooms ∧ σ₁.loggedInClients = σ.loggedInClients ∧
    (∀ s ∈ σ.openSockets, s ∈ σ₁.openSockets) ∧ ∀ s ∈ σ.handlers, s ∈ σ₁.handlers := by
  by_cases ht : t ∈ σ.openSockets
  · exact ⟨[], σ, .nil σ, ht, openSockets_handlers h t ht, rfl, rfl, fun _ => id, fun _ => id⟩
  · have hst : chat.step σ ⟨.connect t, (connect σ t).2⟩ (connect σ t).1 := if_neg ht
    refine ⟨_, _, .single ⟨fun ⟨_, he⟩ => he, hst⟩, mem_set_insert.2 (.inl rfl), List.mem_cons_self, rfl, rfl,
      fun s hs => mem_set_insert.2 (.inr hs), fun s hs => List.mem_cons_of_mem _ hs⟩

/-! ## The condition -/

/-- **Closing.** When its owner closes a room, the room is erased exactly when it had no pin and nobody was a member
without being logged in. -/
theorem close_erases (h : chat.Reachable σ) (hq : request σ s l = .close r str)
    (hst : step σ (.line s l) = some (σ', sent)) :
    Erased r σ' ↔ σ.chatRoomPins.getD r false = false ∧
      ∀ t, t ∉ σ.loggedInClients → σ.clientChatRooms[t]? ≠ some r := by
  obtain ⟨hopen, hserved, hc⟩ := step_line hst
  obtain ⟨hin, hown, ho⟩ := (hq ▸ handleCommand_outcome σ s l).eq_closeRoom
  have hclose := closeRoom_fst σ s r str
  rw [Option.some.inj (ho.symm.trans hc)] at hclose
  dsimp only at hclose
  obtain ⟨h1, h100⟩ := owner_range h (r := r) (hown ▸ ((sessionInv_reachable h).username_registered hin).1)
  have h' : chat.Reachable σ' := h.step (a := ⟨.line s l, sent⟩) hst
  constructor
  · intro he
    refine ⟨?_, fun t hout ht => ?_⟩
    · have hunpinned := (he.empty (s := s) (.nil σ') (by rw [hclose]; exact hin) (by rw [hclose]; exact hopen)
        (by rw [hclose]; exact hserved) h1 h100).2
      rwa [hclose] at hunpinned
    · -- the client left behind says something before the owner enters again
      have hentry : σ'.clientChatRooms[t]? = some r := by
        rw [hclose]
        exact (closeRooms_loggedOut hout).trans ht
      obtain ⟨es, σ₁, hrun, htopen, htserved, hrooms, hclients, hopened, hhandlers⟩ := can_send (r := r) h' t
      have hpost := can_post (hrooms ▸ hentry) htopen htserved
      have hno : ¬ ∃ s, Enters s r σ₁ (.line t "hi\n") := fun ⟨_, he⟩ => absurd he.2.1 (by decide)
      have hin' : s ∈ (postMessage σ₁ t r "hi").1.loggedInClients := by
        rw [postMessage_fst, hclients, hclose]
        exact hin
      have hopen' : s ∈ (postMessage σ₁ t r "hi").1.openSockets := hopened s (by rw [hclose]; exact hopen)
      have hserved' : s ∈ (postMessage σ₁ t r "hi").1.handlers := hhandlers s (by rw [hclose]; exact hserved)
      have hnil := (he.empty (hrun.append (.single ⟨hno, hpost⟩)) hin' hopen' hserved' h1 h100).1
      rw [postMessage_fst, ExtTreeMap.getD_insert_self] at hnil
      exact List.append_ne_nil_of_right_ne_nil _ (List.cons_ne_nil _ _) hnil
  · rintro ⟨hunpinned, hout⟩
    have hfresh : Fresh r (closeRoom (ownerLookup σ s r) s r str).1 := fresh_close hunpinned hout
    rw [Option.some.inj (ho.symm.trans hc)] at hfresh
    refine ⟨fun t ht => ?_, fun s' l' σ'' sent' owner hw hst' => ?_, fun es σ₁ c e σ₂ hrun he hst' => ?_⟩
    · exact hfresh.nobody t
    · refine not_listed ?_ hw hst' owner
      rw [hclose]
      exact fun hm => (ExtTreeMap.mem_erase.1 hm).1 (Std.compare_eq_iff_eq.2 rfl)
    · refine Fresh.findsNew ?_ (sessionInv_reachable (h'.run hrun.of_restrict)) he hst'
      exact hrun.preserves_restrict (fun σ e σ' _ hno hf hst => fresh_step hf (by omega) hno hst) h' hfresh

/-- Tom closes room 1, in which there was a message but no pin, and enters it again. -/
theorem close_erases_again :
    let σ := after start [.connect 4, .line 4 "register tom pw\n", .line 4 "login tom pw\n",
      .line 4 "enter-chat-room 1\n", .line 4 "hi\n"]
    let σ' := after σ [.line 4 "close-chat-room 1\n"]
    (∃ sent, step σ (.line 4 "close-chat-room 1\n") = some (σ', sent)) ∧ Erased 1 σ' ∧
      heard 4 (enterRoom σ' 4 1).2 = welcome 1 "tom" := by
  intro σ σ'
  have hσ : chat.Reachable σ := reachable_after _
  obtain ⟨hstep, hq, hunpinned, hrooms, hin, hshown⟩ : (step σ (.line 4 "close-chat-room 1\n")).isSome ∧
      request σ 4 "close-chat-room 1\n" = .close 1 "1" ∧ σ.chatRoomPins.getD 1 false = false ∧
      σ.clientChatRooms.toList = [(4, 1)] ∧ 4 ∈ σ.loggedInClients ∧ heard 4 (enterRoom σ' 4 1).2 = welcome 1 "tom" := by
    decide +kernel
  obtain ⟨sent, hst⟩ := step_after σ _ hstep
  have hout : ∀ t, t ∉ σ.loggedInClients → σ.clientChatRooms[t]? ≠ some 1 := by
    intro t ht hroom
    have hmem := ExtTreeMap.mem_toList_iff_getElem?_eq_some.2 hroom
    rw [hrooms, List.mem_singleton] at hmem
    cases hmem
    exact ht hin
  exact ⟨⟨sent, hst⟩, (close_erases hσ hq hst).2 ⟨hunpinned, hout⟩, hshown⟩

/-- Tom pins a text in room 1 and closes the room. When he enters it again he is shown the pin. -/
theorem close_keeps_pin :
    let σ := after start [.connect 4, .line 4 "register tom pw\n", .line 4 "login tom pw\n",
      .line 4 "enter-chat-room 1\n", .line 4 "/pin hi\n"]
    let σ' := after σ [.line 4 "close-chat-room 1\n"]
    chat.Reachable σ ∧ request σ 4 "close-chat-room 1\n" = .close 1 "1" ∧
      (∃ sent, step σ (.line 4 "close-chat-room 1\n") = some (σ', sent)) ∧
      heard 4 (enterRoom σ' 4 1).2 = welcome 1 "tom" ++ ["Pin -> [tom]: hi".toList, "\n"] ∧ ¬ Erased 1 σ' := by
  intro σ σ'
  obtain ⟨hstep, hq, hshown, hin, hopen, hserved, hpinned⟩ : (step σ (.line 4 "close-chat-room 1\n")).isSome ∧
      request σ 4 "close-chat-room 1\n" = .close 1 "1" ∧
      heard 4 (enterRoom σ' 4 1).2 = welcome 1 "tom" ++ ["Pin -> [tom]: hi".toList, "\n"] ∧
      4 ∈ σ'.loggedInClients ∧ 4 ∈ σ'.openSockets ∧ 4 ∈ σ'.handlers ∧ σ'.chatRoomPins.getD 1 false = true := by
    decide +kernel
  refine ⟨reachable_after _, hq, step_after σ _ hstep, hshown, fun he => ?_⟩
  have hunpinned := (he.empty (.nil σ') hin hopen hserved (by decide) (by decide)).2
  rw [hpinned] at hunpinned
  cases hunpinned

end IntroNP.Chat
