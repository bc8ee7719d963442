import IntroNP.Chat.Owner

/-!
# The chat server: histories

Two history variables follow a run. `logPosts` collects the messages posted to each room since it was last closed;
`Stream` collects, from some point on, the messages posted to one room and what every client was sent in the steps
that tell it messages: those that post one to any room, and its own that enter the room.

- `history_log`: the stored history of a room is its log;
- `received_posted`: a client that stays in a room and does not enter it again receives what is posted to it, each
  message once and in order;
- `heard_enterRoom`: a client that enters a room is shown the end of its history, and then the pin, if there is one.
-/

namespace IntroNP.Chat

open Std

/-- The room that a step posts a message to, and the message as it is stored. -/
def posting (σ : Server) : Act → Option (Int × Text)
  | .line s l =>
    match request σ s l with
    | .post r m => some (r, chatMessage (σ.username s) m)
    | _ => none
  | _ => none

/-- The room that a step closes. -/
def closing (σ : Server) : Act → Option Int
  | .line s l =>
    match request σ s l with
    | .close r _ => some r
    | _ => none
  | _ => none

/-- A message and its end of line. -/
def withNewline (m : Text) : List Text := [m, "\n"]

/-- The texts sent to `c`, in order. -/
def heard (c : Int) (sent : List Send) : List Text := (sent.filter (·.socket = c)).map (·.text)

variable {σ σ' : Server} {s r c d : Int} {l : Text} {q : Request} {sent sent' : List Send} {a : Act}

theorem Outcome.eq_postMessage {m : Text} {o : Option (Server × List Send)} (h : Outcome σ s l (.post r m) o) :
    σ.clientChatRooms[s]? = some r ∧ o = some (postMessage σ s r m) := by
  cases h with
  | post hr => exact ⟨hr, rfl⟩

/-- A step that posts a message is `postMessage`, by a client that has an entry. -/
theorem posting_step {m : Text} (hst : step σ a = some (σ', sent)) (hp : posting σ a = some (r, m)) :
    ∃ s l message, a = .line s l ∧ σ.clientChatRooms[s]? = some r ∧ m = chatMessage (σ.username s) message ∧
      postMessage σ s r message = (σ', sent) := by
  cases a with
  | connect _ | disconnect _ => cases hp
  | line s l =>
    obtain ⟨_, _, hc⟩ := step_line hst
    simp only [posting] at hp
    split at hp
    · rename_i r' message hq
      cases hp
      obtain ⟨hr, ho⟩ := (hq ▸ handleCommand_outcome σ s l).eq_postMessage
      exact ⟨s, l, message, rfl, hr, rfl, Option.some.inj (ho.symm.trans hc)⟩
    · cases hp

/-! ## What one client is sent -/

@[simp] theorem heard_append : heard c (sent ++ sent') = heard c sent ++ heard c sent' := by
  simp [heard]

@[simp] theorem heard_sendAll (ts : List Text) : heard c (sendAll s ts) = if s = c then ts else [] := by
  unfold heard sendAll
  induction ts with
  | nil => simp
  | cons t ts ih =>
    by_cases h : s = c
    · simpa [sendMessage, h] using ih
    · simp [sendMessage, h]

/-- The same messages to several sockets: each of them gets them once. -/
theorem heard_flatMap (ts : List Text) : ∀ ks : List Int, ks.Nodup →
    heard c (ks.flatMap (sendAll · ts)) = if c ∈ ks then ts else []
  | [], _ => rfl
  | k :: ks, hn => by
    obtain ⟨hk, hn⟩ := List.nodup_cons.1 hn
    rw [List.flatMap_cons, heard_append, heard_sendAll, heard_flatMap ts ks hn]
    by_cases h : k = c
    · subst h
      simp [hk]
    · simp [h, Ne.symm h]

/-- Several groups of messages to one socket. -/
theorem heard_flatMap_self {α : Type} (f : α → List Text) (xs : List α) :
    heard s (xs.flatMap fun x => sendAll s (f x)) = xs.flatMap f := by
  induction xs with
  | nil => rfl
  | cons x xs ih => simp [ih]

theorem heard_broadcast {ts : List Int} (hn : ts.Nodup) (ms : List Text) :
    heard c (broadcast σ r ts ms).2 = if c ∈ ts ∧ σ.clientChatRooms.getD c 0 = r then ms else [] := by
  unfold broadcast
  rw [heard_flatMap _ _ (by rw [visit_keep_fst]; exact hn.filter _), visit_keep_fst]
  simp only [List.mem_filter, decide_eq_true_eq]

theorem heard_postMessage (σ : Server) (s r : Int) (message : Text) : heard c (postMessage σ s r message).2 =
    if c ∈ σ.loggedInClients ∧ σ.clientChatRooms.getD c 0 = r then
      withNewline (chatMessage (σ.username s) message)
    else [] := by
  unfold postMessage
  dsimp only
  rw [heard_broadcast nodup_loggedIn]
  simp only [ExtTreeSet.mem_toList]
  rfl

theorem nodup_others : (others σ s).Nodup := nodup_loggedIn.filter _

/-! ## The stored history -/

/-- The history of `r` after a request of `s`. -/
def historyAfter (σ : Server) (s r : Int) : Request → List Text
  | .post r' m =>
    if r' = r then σ.chatRooms.getD r [] ++ [chatMessage (σ.username s) m] else σ.chatRooms.getD r []
  | .close r' _ => if r' = r then [] else σ.chatRooms.getD r []
  | _ => σ.chatRooms.getD r []

theorem chatRooms_line {next : Server × List Send} (hc : Outcome σ s l q (some next)) (r : Int) :
    next.1.chatRooms.getD r [] = historyAfter σ s r q := by
  cases hc with
  | nothing hq =>
    dsimp only
    rw [hq.eq]
    rfl
  | exit =>
    dsimp only
    split <;> rfl
  | enter =>
    obtain ⟨_, _, _, _, h⟩ := enterRoom_fst σ s _
    rw [h]
    exact getD_insertIfNew
  | close =>
    rw [closeRoom_fst, historyAfter, ExtTreeMap.getD_erase]
    simp only [Std.compare_eq_iff_eq]
  | deletePin =>
    rw [deletePin_fst]
    rfl
  | leave hr =>
    rw [exitChatRoom_fst hr]
    rfl
  | listRoom =>
    obtain ⟨_, _, _, _, h⟩ := listRoomUser_fst σ s _
    rw [h]
    rfl
  | post =>
    rw [postMessage_fst, historyAfter, ExtTreeMap.getD_insert]
    simp only [Std.compare_eq_iff_eq]
    split
    · rename_i h
      rw [h]
    · rfl
  | register | login | logout | setStatus | pin => rfl

/-- The log of every room after a step. -/
def logPosts (σ : Server) (e : Event) (log : Int → List Text) (r : Int) : List Text :=
  match posting σ e.act with
  | some (r', m) => if r' = r then log r ++ [m] else log r
  | none => if closing σ e.act = some r then [] else log r

theorem history_step (hst : step σ a = some (σ', sent)) (r : Int) :
    σ'.chatRooms.getD r [] = logPosts σ ⟨a, sent⟩ (fun r => σ.chatRooms.getD r []) r := by
  cases a with
  | connect s =>
    obtain ⟨_, rfl, _⟩ := step_connect hst
    rfl
  | disconnect s =>
    obtain ⟨_, rfl, _⟩ := step_disconnect hst
    unfold disconnect
    dsimp only
    split <;> rfl
  | line s l =>
    obtain ⟨_, _, hc⟩ := step_line hst
    rw [show σ'.chatRooms.getD r [] = _ from chatRooms_line (hc ▸ handleCommand_outcome σ s l) r]
    cases hq : request σ s l <;> simp [logPosts, posting, closing, historyAfter, hq]

/-- **The stored history** of a room is the list of the messages posted since it was last closed. -/
theorem history_log {log : Int → List Text} (h : (chat.ghost (fun _ => []) logPosts).Reachable (σ, log)) (r : Int) :
    σ.chatRooms.getD r [] = log r := by
  refine h.invariant (P := fun p => ∀ r, p.1.chatRooms.getD r [] = p.2 r) ?_ ?_ r
  · rintro ⟨σ, log⟩ ⟨h0, hlog⟩ r
    cases h0
    cases hlog
    rfl
  · rintro ⟨σ, log⟩ e ⟨σ', log'⟩ _ ih ⟨hst, hlog⟩ r
    rw [history_step hst r, hlog]
    exact congrArg (fun log => logPosts σ e log r) (funext ih)

/-! ## The history shown on entering -/

/-- What is sent first to a client that enters a room. -/
def welcome (r : Int) (owner : Text) : List Text :=
  ["Welcome to the public chat room.\n", "Room number: ", toDecimal r, "\n", "Owner: ", owner, "\n"]

/-- The pin of a room, when there is one. -/
def pinShown (σ : Server) (r : Int) : List Text :=
  if σ.chatRoomPins.getD r false then withNewline (σ.roomPinMessage.getD r []) else []

theorem heard_showHistory (σ : Server) (s r : Int) : heard s (showHistory σ s r).2 =
    (shown (σ.chatRooms.getD r [])).flatMap withNewline ++ pinShown σ r := by
  have hget : (σ.chatRooms.insertIfNew r [])[r]? = some (σ.chatRooms.getD r []) := getElem?_insertIfNew_self
  unfold showHistory
  dsimp only
  rw [getD_insertIfNew]
  split
  · unfold sendChatHistory pinShown
    dsimp only
    rw [hget]
    dsimp only
    have hself : heard s ((shown (σ.chatRooms.getD r [])).flatMap fun m => sendAll s [m, "\n"]) =
        (shown (σ.chatRooms.getD r [])).flatMap withNewline := heard_flatMap_self withNewline _
    split
    · rw [heard_append, hself, heard_sendAll, if_pos rfl]
      rfl
    · rw [hself, List.append_nil]
  · rename_i hno
    obtain ⟨hlen, hpin⟩ := not_or.1 hno
    have hnil : σ.chatRooms.getD r [] = [] := List.length_eq_zero_iff.1 (by omega)
    rw [hnil, pinShown, if_neg hpin]
    rfl

/-- **Entering**: the newcomer is shown the last messages of the history, oldest first, and then the pin. -/
theorem heard_enterRoom (σ : Server) (s r : Int) : heard s (enterRoom σ s r).2 =
    welcome r ((enterCreators σ s r).getD r []) ++
      ((shown (σ.chatRooms.getD r [])).flatMap withNewline ++ pinShown σ r) := by
  obtain ⟨names, _, hclaim⟩ := claimRoom_eq σ s r
  unfold enterRoom
  dsimp only
  rw [heard_append, heard_append, heard_sendAll, if_pos rfl, heard_broadcast nodup_others, if_neg,
    heard_showHistory, hclaim, List.append_nil]
  · rfl
  · exact fun h => (mem_others.1 h.1).2 rfl

/-! ## What a client receives in a room -/

/-- The steps in which a client of room `r` is sent messages. -/
def Tells (c r : Int) (σ : Server) (a : Act) : Prop := posting σ a ≠ none ∨ Enters c r σ a

instance (c r : Int) (σ : Server) (a : Act) : Decidable (Tells c r σ a) := inferInstanceAs (Decidable (_ ∨ _))

/-- The messages posted to one room, and what every client was sent in the steps that tell it messages. -/
structure Stream where
  posted : List Text
  received : Int → List Text

/-- The streams of room `r` after a step. -/
def follow (r : Int) (σ : Server) (e : Event) (g : Stream) : Stream where
  posted :=
    match posting σ e.act with
    | some (r', m) => if r' = r then g.posted ++ [m] else g.posted
    | none => g.posted
  received c := if Tells c r σ e.act then g.received c ++ heard c e.sent else g.received c

/-- Before anything was posted. -/
def Stream.empty : Stream := ⟨[], fun _ => []⟩

/-- `c` is logged in and in room `r`. -/
def Inside (c r : Int) (σ : Server) : Prop := c ∈ σ.loggedInClients ∧ σ.clientChatRooms[c]? = some r

/-- A client in a room receives what is posted to it, and nothing of what is posted elsewhere. -/
theorem heard_posting {m : Text} (hst : step σ a = some (σ', sent)) (hp : posting σ a = some (r, m))
    (hc : Inside c d σ) : heard c sent = if r = d then withNewline m else [] := by
  obtain ⟨s, l, message, rfl, _, rfl, hpost⟩ := posting_step hst hp
  have hd : σ.clientChatRooms.getD c 0 = d := by rw [ExtTreeMap.getD_eq_getD_getElem?, hc.2]; rfl
  have hs := heard_postMessage (c := c) σ s r message
  rw [hpost, hd] at hs
  refine hs.trans ?_
  simp only [hc.1, true_and, eq_comm]

/-- **Delivery.** A client that stays in a room, and does not enter it again, receives what is posted to it, each
message once and in order. -/
theorem received_posted {P : Server → Prop} {C : Server → Event → Prop} (hP : ∀ σ, P σ → Inside c r σ)
    (hC : ∀ σ e, C σ e → ¬ Enters c r σ e.act) {es : List Event} {p p' : Server × Stream}
    (hr : (((chat.within P).restrict C).ghost Stream.empty (follow r)).Run p es p')
    (h : p.2.received c = p.2.posted.flatMap withNewline) :
    p'.2.received c = p'.2.posted.flatMap withNewline := by
  induction hr with
  | nil => exact h
  | @cons p p₁ _ e _ hst _ ih =>
    obtain ⟨⟨hno, hin, _, hst⟩, hg⟩ := hst
    refine ih ?_
    rw [hg, follow]
    cases hp : posting p.1 e.act with
    | none =>
      have htells : ¬ Tells c r p.1 e.act := not_or.2 ⟨fun hne => hne hp, hC _ _ hno⟩
      dsimp only
      rw [if_neg htells]
      exact h
    | some rm =>
      obtain ⟨r', m⟩ := rm
      have htells : Tells c r p.1 e.act := .inl (hp ▸ Option.some_ne_none _)
      dsimp only
      rw [if_pos htells, heard_posting hst hp (hP _ hin), h]
      split
      · simp
      · simp

/-! ## What a client hears of the others -/

/-- What a client can be sent in a step of another client that posts nothing. -/
inductive Notice : List Text → Prop
  | nothing : Notice []
  | entered (u : Text) : Notice [u, " had enter the chat room.\n"]
  | left (u : Text) : Notice [u ++ " had left the chat room.\n".toList]
  | pinned (u message : Text) : Notice [pinText u message ++ "\n".toList]
  | closed (roomNumberStr : Text) : Notice (closedNotice roomNumberStr)

theorem Notice.ite {p : Prop} [Decidable p] {ts : List Text} (h : Notice ts) : Notice (if p then ts else []) := by
  split
  · exact h
  · exact .nothing

/-- Nobody but `s` hears what is sent to `s`. -/
theorem heard_of_socket (h : ∀ m ∈ sent, m.socket = s) (hc : c ≠ s) : heard c sent = [] := by
  unfold heard
  rw [List.filter_eq_nil_iff.2, List.map_nil]
  intro m hm
  simpa [h m hm] using hc.symm

theorem showHistory_socket (σ : Server) (s r : Int) : ∀ m ∈ (showHistory σ s r).2, m.socket = s := by
  have hshown : ∀ (ts : List Text), ∀ m ∈ ts.flatMap (fun t => sendAll s [t, "\n"]), m.socket = s := by
    intro ts m hm
    obtain ⟨t, _, hm⟩ := List.mem_flatMap.1 hm
    exact sendAll_socket _ m hm
  have hget : (σ.chatRooms.insertIfNew r [])[r]? = some (σ.chatRooms.getD r []) := getElem?_insertIfNew_self
  unfold showHistory sendChatHistory
  dsimp only
  rw [hget]
  dsimp only
  split
  · split
    · intro m hm
      rcases List.mem_append.1 hm with hm | hm
      · exact hshown _ m hm
      · exact sendAll_socket _ m hm
    · exact hshown _
  · simp

theorem notice_enterRoom (hc : c ≠ s) : Notice (heard c (enterRoom σ s r).2) := by
  unfold enterRoom
  dsimp only
  rw [heard_append, heard_append, heard_sendAll, if_neg hc.symm, heard_broadcast nodup_others,
    heard_of_socket (showHistory_socket _ s r) hc]
  exact (Notice.entered _).ite

theorem notice_closeRoom (hc : c ≠ s) (str : Text) : Notice (heard c (closeRoom σ s r str).2) := by
  unfold closeRoom
  dsimp only
  rw [heard_append, heard_sendAll, if_neg hc.symm, List.append_nil, visit_erase_fst _ _ nodup_loggedIn,
    heard_flatMap _ _ (nodup_loggedIn.filter _)]
  exact (Notice.closed str).ite

theorem notice_pinMessage (hc : c ≠ s) (message : Text) : Notice (heard c (pinMessage σ s r message).2) := by
  unfold pinMessage
  dsimp only
  rw [← List.singleton_append, heard_append, heard_broadcast nodup_others,
    heard_of_socket (s := s) (by simp [sendMessage]) hc]
  exact (Notice.pinned _ message).ite

theorem notice_exitChatRoom (hr : σ.clientChatRooms[s]? = some r) (hc : c ≠ s) :
    Notice (heard c (exitChatRoom σ s).2) := by
  unfold exitChatRoom
  rw [hr]
  dsimp only
  rw [heard_append, heard_broadcast nodup_others, heard_of_socket (s := s) (by simp [sendMessage]) hc,
    List.append_nil]
  exact (Notice.left _).ite

/-- **Other clients.** What a line of `s` that is no message sends to another client is a notice. -/
theorem notice_line {next : Server × List Send} (hc : c ≠ s) (ho : Outcome σ s l q (some next))
    (hq : ∀ r m, q ≠ .post r m) : Notice (heard c next.2) := by
  cases ho with
  | nothing _ hs => exact heard_of_socket hs hc ▸ .nothing
  | register _ _ _ _ hs => exact heard_of_socket hs hc ▸ .nothing
  | login _ _ _ _ hs => exact heard_of_socket hs hc ▸ .nothing
  | logout _ hs => exact heard_of_socket hs hc ▸ .nothing
  | exit _ hs => exact heard_of_socket hs hc ▸ .nothing
  | setStatus _ _ hs => exact heard_of_socket hs hc ▸ .nothing
  | enter => exact notice_enterRoom hc
  | close => exact notice_closeRoom hc _
  | pin => exact notice_pinMessage hc _
  | deletePin =>
    refine heard_of_socket (s := s) ?_ hc ▸ .nothing
    unfold deletePin
    dsimp only
    split
    · simp
    · exact sendAll_socket _
  | leave hr => exact notice_exitChatRoom hr hc
  | listRoom =>
    refine heard_of_socket (s := s) ?_ hc ▸ .nothing
    intro m hm
    obtain ⟨t, _, hm⟩ := List.mem_flatMap.1 hm
    exact sendAll_socket _ m hm
  | post => exact absurd rfl (hq _ _)

theorem notice_step (h : SessionInv σ) (hst : step σ a = some (σ', sent)) (hin : c ∈ σ.loggedInClients)
    (ha : ∀ l, a ≠ .line c l) (hp : posting σ a = none) : Notice (heard c sent) := by
  cases a with
  | connect s =>
    obtain ⟨hs, _, rfl⟩ := step_connect hst
    have hc : s ≠ c := fun e => hs (e ▸ h.opened c hin)
    exact (heard_of_socket (s := s) (sendAll_socket _) hc.symm) ▸ .nothing
  | disconnect s =>
    obtain ⟨_, _, rfl⟩ := step_disconnect hst
    exact .nothing
  | line s l =>
    obtain ⟨_, _, hh⟩ := step_line hst
    have hq : ∀ r m, request σ s l ≠ .post r m := by
      intro r m hq
      simp [posting, hq] at hp
    have hcs : c ≠ s := fun e => ha l (by rw [e])
    exact notice_line hcs (hh ▸ handleCommand_outcome σ s l) hq

end IntroNP.Chat
