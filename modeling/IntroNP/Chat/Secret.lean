import IntroNP.Chat.Speak

/-!
# The chat server: what is said in a room stays in it

Two servers run side by side on the same acts, except that what is posted or pinned in room `r` may be another text in
the second one (`Alike`, `sideBySide`). `room_secret`: they then differ at most in the texts kept for room `r`
(`SameBut`), can do the same things, and send the same to every client that is not in room `r` after the step.

- `Blind` is what most commands are: they neither read nor write the texts of a room;
- one lemma for each command that is not (`looksSame_enterRoom` .. `looksSame_postMessage`).
-/

namespace IntroNP.Chat

open Std

variable {σ τ : Server} {r q s t : Int} {l : Text} {n n' : Server × List Send}

/-- The server with other texts in its rooms. -/
def Server.withTexts (σ : Server) (c : ExtTreeMap Int (List Text)) (p : ExtTreeMap Int Text) : Server :=
  { σ with chatRooms := c, roomPinMessage := p }

/-- Two servers that differ at most in the texts of room `r`. -/
structure SameBut (r : Int) (σ τ : Server) : Prop where
  eq : τ = σ.withTexts τ.chatRooms τ.roomPinMessage
  made : ∀ q, q ∈ τ.chatRooms ↔ q ∈ σ.chatRooms
  rooms : ∀ q, q ≠ r → τ.chatRooms[q]? = σ.chatRooms[q]?
  pins : ∀ q, q ≠ r → τ.roomPinMessage[q]? = σ.roomPinMessage[q]?

/-- Two results that nobody outside room `r` can tell apart. -/
structure LooksSame (r : Int) (n n' : Server × List Send) : Prop where
  state : SameBut r n.1 n'.1
  heard : ∀ t, n.1.clientChatRooms[t]? ≠ some r → heard t n.2 = heard t n'.2

theorem SameBut.refl (r : Int) (σ : Server) : SameBut r σ σ := ⟨rfl, fun _ => .rfl, fun _ _ => rfl, fun _ _ => rfl⟩

/-! ## Commands that do not look at the texts -/

/-- A result with other texts. -/
def texts (c : ExtTreeMap Int (List Text)) (p : ExtTreeMap Int Text) (n : Server × List Send) : Server × List Send :=
  (n.1.withTexts c p, n.2)

/-- A command that neither reads nor writes the texts of a room. -/
def Blind (f : Server → Server × List Send) : Prop := ∀ σ c p, f (σ.withTexts c p) = texts c p (f σ)

/-- A blind command leaves the texts alone. -/
theorem Blind.kept {f : Server → Server × List Send} (hf : Blind f) (σ : Server) :
    (f σ).1.chatRooms = σ.chatRooms ∧ (f σ).1.roomPinMessage = σ.roomPinMessage := by
  have h : f σ = texts σ.chatRooms σ.roomPinMessage (f σ) := hf σ σ.chatRooms σ.roomPinMessage
  rw [h]
  exact ⟨rfl, rfl⟩

theorem Blind.looksSame {f : Server → Server × List Send} (hf : Blind f) (h : SameBut r σ τ) :
    LooksSame r (f σ) (f τ) := by
  obtain ⟨hc, hp⟩ := hf.kept σ
  rw [h.eq, hf σ]
  refine ⟨⟨rfl, fun q => ?_, fun q hq => ?_, fun q hq => ?_⟩, fun _ _ => rfl⟩
  · rw [hc]
    exact h.made q
  · rw [hc]
    exact h.rooms q hq
  · rw [hp]
    exact h.pins q hq

theorem blind_register (s : Int) (l : Text) : Blind (register · s l) := by
  intro σ c p
  unfold register
  dsimp only
  cases (strtok blanks l).1 with
  | none => rfl
  | some u =>
    cases (strtok blanks (strtok blanks l).2).1 with
    | none => rfl
    | some _ =>
      change (if u ∈ σ.registeredUsers then _ else _) = texts c p (if u ∈ σ.registeredUsers then _ else _)
      split <;> rfl

theorem blind_login (s : Int) (l : Text) : Blind (login · s l) := by
  intro σ c p
  unfold login
  dsimp only
  change (if s ∈ σ.loggedInClients then _ else _) = texts c p (if s ∈ σ.loggedInClients then _ else _)
  split
  · rfl
  · cases (strtok blanks l).1 with
    | none => rfl
    | some u =>
      cases (strtok blanks (strtok blanks l).2).1 with
      | none => rfl
      | some w =>
        change (if σ.registeredUsers[u]? ≠ some w then _ else if u ∈ σ.loggedInUsernames then _ else _) =
          texts c p (if σ.registeredUsers[u]? ≠ some w then _ else if u ∈ σ.loggedInUsernames then _ else _)
        split
        · rfl
        · split <;> rfl

theorem blind_logout (s : Int) (l : Text) : Blind (logout · s l) := by
  intro σ c p
  unfold logout
  cases (strtok blanks l).1 with
  | some _ => rfl
  | none =>
    change (if s ∉ σ.loggedInClients then _ else _) = texts c p (if s ∉ σ.loggedInClients then _ else _)
    split <;> rfl

theorem blind_exit (s : Int) (l : Text) : Blind (exit · s l) := by
  intro σ c p
  unfold exit
  cases (strtok blanks l).1 with
  | some _ => rfl
  | none =>
    change (if s ∈ σ.loggedInClients then _ else _) = texts c p (if s ∈ σ.loggedInClients then _ else _)
    split <;> rfl

theorem blind_whoami (s : Int) (l : Text) : Blind (whoami · s l) := by
  intro σ c p
  unfold whoami
  cases (strtok blanks l).1 with
  | some _ => rfl
  | none =>
    change (if s ∉ σ.loggedInClients then _ else _) = texts c p (if s ∉ σ.loggedInClients then _ else _)
    split <;> rfl

theorem blind_setStatus (s : Int) (l : Text) : Blind (setStatus · s l) := by
  intro σ c p
  unfold setStatus
  cases (strtok blanks l).1 with
  | none => rfl
  | some st =>
    change (if s ∉ σ.loggedInClients then _ else _) = texts c p (if s ∉ σ.loggedInClients then _ else _)
    split
    · rfl
    · dsimp only
      split <;> rfl

theorem blind_listUser (s : Int) (l : Text) : Blind (listUser · s l) := by
  intro σ c p
  unfold listUser
  cases (strtok blanks l).1 with
  | some _ => rfl
  | none =>
    change (if s ∉ σ.loggedInClients then _ else _) = texts c p (if s ∉ σ.loggedInClients then _ else _)
    split <;> rfl

theorem blind_exitChatRoom (s : Int) : Blind (exitChatRoom · s) := by
  intro σ c p
  change exitChatRoom (σ.withTexts c p) s = texts c p (exitChatRoom σ s)
  unfold exitChatRoom
  cases hs : σ.clientChatRooms[s]? with
  | none =>
    have hs' : (σ.withTexts c p).clientChatRooms[s]? = none := hs
    rw [hs']
    rfl
  | some q =>
    have hs' : (σ.withTexts c p).clientChatRooms[s]? = some q := hs
    rw [hs']
    rfl

theorem blind_listRoomUser (s q : Int) : Blind (listRoomUser · s q) := fun _ _ _ => rfl

theorem blind_answer (sent : List Send) : Blind fun σ => (σ, sent) := fun _ _ _ => rfl

theorem blind_touch (s : Int) (sent : List Send) : Blind fun σ => (σ.touchUsername s, sent) := fun _ _ _ => rfl

/-! ## Commands that look at the texts -/

/-- What `SameBut` says, with names for the other texts. -/
theorem SameBut.exists_texts (h : SameBut r σ τ) : ∃ t p, τ = σ.withTexts t p ∧ (∀ q, q ∈ t ↔ q ∈ σ.chatRooms) ∧
    (∀ q, q ≠ r → t[q]? = σ.chatRooms[q]?) ∧ ∀ q, q ≠ r → p[q]? = σ.roomPinMessage[q]? :=
  ⟨_, _, h.eq, h.made, h.rooms, h.pins⟩

/-- Rooms are there or not, and named, alike. -/
theorem looksSame_listChatRoom (h : SameBut r σ τ) : LooksSame r (listChatRoom σ s l) (listChatRoom τ s l) := by
  obtain ⟨c, p, rfl, hmade, hrooms, hpins⟩ := h.exists_texts
  have hkeys : c.keys = σ.chatRooms.keys := keys_eq_of_mem_iff hmade
  unfold listChatRoom
  cases (strtok blanks l).1 with
  | some _ => exact ⟨⟨rfl, hmade, hrooms, hpins⟩, fun _ _ => rfl⟩
  | none =>
    change LooksSame r (if s ∉ σ.loggedInClients then _ else _) (if s ∉ σ.loggedInClients then _ else
      (({ σ.withTexts c p with chatRoomCreators := c.keys.foldl _ _ }, (c.keys.map _) ++ _) : Server × List Send))
    split
    · exact ⟨⟨rfl, hmade, hrooms, hpins⟩, fun _ _ => rfl⟩
    · rw [hkeys]
      exact ⟨⟨rfl, hmade, hrooms, hpins⟩, fun _ _ => rfl⟩

theorem looksSame_closeRoom {str : Text} (h : SameBut r σ τ) :
    LooksSame r (closeRoom σ s q str) (closeRoom τ s q str) := by
  obtain ⟨c, p, rfl, hmade, hrooms, hpins⟩ := h.exists_texts
  refine ⟨⟨rfl, fun k => ?_, fun k hk => ?_, hpins⟩, fun _ _ => rfl⟩
  · exact ExtTreeMap.mem_erase.trans ((and_congr_right fun _ => hmade k).trans ExtTreeMap.mem_erase.symm)
  · refine ExtTreeMap.getElem?_erase.trans (Eq.trans ?_ ExtTreeMap.getElem?_erase.symm)
    exact congrArg (fun x => if compare q k = .eq then none else x) (hrooms k hk)

theorem looksSame_closeChatRoom (h : SameBut r σ τ) :
    LooksSame r (closeChatRoom σ s l) (closeChatRoom τ s l) := by
  have hlook : ∀ q, SameBut r (ownerLookup σ s q) (ownerLookup τ s q) := fun q =>
    ((show Blind fun σ => (ownerLookup σ s q, []) from fun _ _ _ => rfl).looksSame h).state
  have hmade := h.made
  have heq := h.eq
  unfold closeChatRoom
  have hin : s ∈ τ.loggedInClients ↔ s ∈ σ.loggedInClients := by rw [heq]; rfl
  by_cases hs : s ∈ σ.loggedInClients
  · rw [if_neg (not_not.2 hs), if_neg (not_not.2 (hin.2 hs))]
    cases (strtok blanks l).1 with
    | none => exact (blind_answer _).looksSame h
    | some str =>
      dsimp only
      by_cases hr : atoi str ∈ σ.chatRooms
      · rw [if_neg (not_not.2 hr), if_neg (not_not.2 ((hmade _).2 hr))]
        have howner : (τ.chatRoomCreators.getD (atoi str) [] ≠ τ.username s) =
            (σ.chatRoomCreators.getD (atoi str) [] ≠ σ.username s) := by rw [heq]; rfl
        simp only [howner]
        split
        · exact (blind_answer _).looksSame (hlook _)
        · exact looksSame_closeRoom (hlook _)
      · rw [if_pos hr, if_pos fun hm => hr ((hmade _).1 hm)]
        exact (blind_answer _).looksSame h
  · rw [if_pos hs, if_pos fun hm => hs (hin.1 hm)]
    exact (blind_answer _).looksSame h

theorem looksSame_deletePin (h : SameBut r σ τ) : LooksSame r (deletePin σ s q) (deletePin τ s q) := by
  obtain ⟨c, p, rfl, hmade, hrooms, hpins⟩ := h.exists_texts
  unfold deletePin
  change LooksSame r (if σ.chatRoomPins.getD q false then _ else _) (if σ.chatRoomPins.getD q false then _ else _)
  split
  · refine ⟨⟨rfl, hmade, hrooms, fun k hk => ?_⟩, fun _ _ => rfl⟩
    refine ExtTreeMap.getElem?_insert.trans (Eq.trans ?_ ExtTreeMap.getElem?_insert.symm)
    exact congrArg (fun x => if compare q k = .eq then some [] else x) (hpins k hk)
  · exact ⟨⟨rfl, hmade, hrooms, hpins⟩, fun _ _ => rfl⟩

/-- A client that the server looks up in room `r` has an entry for it afterwards. -/
theorem visited_entry {ts : List Int} {m : ExtTreeMap Int Int} (ht : t ∈ ts) (hr : m.getD t 0 = r) :
    (visit r 0 (fun _ m => m) ts m).2[t]? = some r := by
  rw [visit_keep_snd, if_pos ht, hr]

/-- Another text may be posted, when the room is `r`. -/
theorem looksSame_postMessage {m m' : Text} (h : SameBut r σ τ) (hm : q ≠ r → m' = m) :
    LooksSame r (postMessage σ s q m) (postMessage τ s q m') := by
  obtain ⟨c, p, rfl, hmade, hrooms, hpins⟩ := h.exists_texts
  refine ⟨⟨rfl, fun k => ?_, fun k hk => ?_, hpins⟩, fun t ht => ?_⟩
  · exact mem_map_insert.trans ((or_congr_right (hmade k)).trans mem_map_insert.symm)
  · rw [postMessage_fst, postMessage_fst]
    by_cases hq : q = r
    · have hne : q ≠ k := fun e => hk (e ▸ hq)
      exact (getElem?_insert_of_ne hne).trans ((hrooms k hk).trans (getElem?_insert_of_ne hne).symm)
    · have hget : c.getD q [] = σ.chatRooms.getD q [] := by
        rw [ExtTreeMap.getD_eq_getD_getElem?, ExtTreeMap.getD_eq_getD_getElem?, hrooms q hq]
      rw [hm hq]
      refine ExtTreeMap.getElem?_insert.trans (Eq.trans ?_ ExtTreeMap.getElem?_insert.symm)
      rw [show (σ.withTexts c p).chatRooms = c from rfl, hget, hrooms k hk]
      rfl
  · rw [heard_postMessage, heard_postMessage]
    by_cases hq : q = r
    · -- whoever hears it is in the room
      have hout : ¬ (t ∈ σ.loggedInClients ∧ σ.clientChatRooms.getD t 0 = q) := fun hin =>
        ht (hq ▸ visited_entry (ExtTreeSet.mem_toList.2 hin.1) hin.2)
      exact (if_neg hout).trans (if_neg hout).symm
    · rw [hm hq]
      rfl

theorem looksSame_pinMessage {m m' : Text} (h : SameBut r σ τ) (hs : σ.clientChatRooms[s]? = some q)
    (hm : q ≠ r → m' = m) : LooksSame r (pinMessage σ s q m) (pinMessage τ s q m') := by
  obtain ⟨c, p, rfl, hmade, hrooms, hpins⟩ := h.exists_texts
  by_cases hq : q = r
  · refine ⟨⟨rfl, hmade, hrooms, fun k hk => ?_⟩, fun t ht => ?_⟩
    · have hne : q ≠ k := fun e => hk (e ▸ hq)
      exact (getElem?_insert_of_ne hne).trans ((hpins k hk).trans (getElem?_insert_of_ne hne).symm)
    · have hself : t ≠ s := by
        rintro rfl
        refine ht (Eq.trans ?_ (hs.trans (congrArg some hq)))
        exact ((visit_keep_touched (others σ t) σ.clientChatRooms).keep hs).trans hs.symm
      have hout : ∀ text : Text, heard t (sendMessage s text ::
          (broadcast σ q (others σ s) [text]).2) = [] := by
        intro text
        have hcons : sendMessage s text :: (broadcast σ q (others σ s) [text]).2 =
            sendAll s [text] ++ (broadcast σ q (others σ s) [text]).2 := rfl
        rw [hcons, heard_append, heard_sendAll, if_neg hself.symm, heard_broadcast nodup_others, if_neg]
        · rfl
        · exact fun hin => ht (hq ▸ visited_entry hin.1 hin.2)
      exact (hout _).trans (hout _).symm
  · rw [hm hq]
    refine ⟨⟨rfl, hmade, hrooms, fun k hk => ?_⟩, fun _ _ => rfl⟩
    refine ExtTreeMap.getElem?_insert.trans (Eq.trans ?_ ExtTreeMap.getElem?_insert.symm)
    exact congrArg (fun x => if compare q k = .eq then some (pinText (σ.username s) m) else x) (hpins k hk)

/-! ## Entering -/

/-- The server when the history is sent to a newcomer. -/
def entered (σ : Server) (s q : Int) : Server :=
  { claimRoom σ s q with clientChatRooms := (claimRoom σ s q).clientChatRooms.insert s q, inFlag := true }

/-- The notice to those in the room. -/
def announce (q s : Int) (ts : List Int) (ms : List Text) (σ : Server) : Server × List Send :=
  (if (broadcast σ q ts ms).2 = [] then (broadcast σ q ts ms).1 else (broadcast σ q ts ms).1.touchUsername s,
    (broadcast σ q ts ms).2)

theorem claimRoom_texts (c : ExtTreeMap Int (List Text)) (p : ExtTreeMap Int Text) :
    claimRoom (σ.withTexts c p) s q = (claimRoom σ s q).withTexts c p := by
  unfold claimRoom
  change (if (σ.chatRoomCreators.insertIfNew q []).getD q [] = [] then _ else _) =
    Server.withTexts (if (σ.chatRoomCreators.insertIfNew q []).getD q [] = [] then _ else _) c p
  split <;> rfl

theorem blind_entered : Blind fun σ => (entered σ s q, []) := by
  intro σ c p
  change (entered (σ.withTexts c p) s q, ([] : List Send)) = _
  unfold entered
  rw [claimRoom_texts]
  rfl

theorem blind_announce (q s : Int) (ts : List Int) (ms : List Text) : Blind (announce q s ts ms) := by
  intro σ c p
  unfold announce
  change (if (broadcast σ q ts ms).2 = [] then _ else _, _) =
    texts c p (if (broadcast σ q ts ms).2 = [] then _ else _, _)
  split <;> rfl

/-- The tables after the history was sent. -/
theorem showHistory_texts (σ : Server) (s q : Int) : (showHistory σ s q).1 = { σ with
    chatRooms := σ.chatRooms.insertIfNew q []
    chatRoomPins := σ.chatRoomPins.insertIfNew q false
    roomPinMessage :=
      if σ.chatRoomPins.getD q false then σ.roomPinMessage.insertIfNew q [] else σ.roomPinMessage } := by
  unfold showHistory sendChatHistory
  dsimp only
  by_cases hpin : σ.chatRoomPins.getD q false = true
  · rw [if_pos (Or.inr hpin), if_pos hpin, if_pos hpin]
  · rw [if_neg hpin, if_neg hpin]
    split <;> rfl

theorem sameBut_showHistory (h : SameBut r σ τ) : SameBut r (showHistory σ s q).1 (showHistory τ s q).1 := by
  obtain ⟨c, p, rfl, hmade, hrooms, hpins⟩ := h.exists_texts
  rw [showHistory_texts, showHistory_texts]
  refine ⟨rfl, fun k => ?_, fun k hk => getElem?_insertIfNew_congr (hrooms k hk), fun k hk => ?_⟩
  · exact ExtTreeMap.mem_insertIfNew.trans ((or_congr_right (hmade k)).trans ExtTreeMap.mem_insertIfNew.symm)
  · change (if σ.chatRoomPins.getD q false then p.insertIfNew q [] else p)[k]? =
      (if σ.chatRoomPins.getD q false then σ.roomPinMessage.insertIfNew q [] else σ.roomPinMessage)[k]?
    split
    · exact getElem?_insertIfNew_congr (hpins k hk)
    · exact hpins k hk

/-- What an old or new member is shown, but for the texts of room `r`. -/
theorem heard_showHistory_same (h : SameBut r σ τ) (ht : q = r → t ≠ s) :
    heard t (showHistory σ s q).2 = heard t (showHistory τ s q).2 := by
  by_cases hts : t = s
  · have hq : q ≠ r := fun e => ht e hts
    obtain ⟨c, p, rfl, -, hrooms, hpins⟩ := h.exists_texts
    have hget : c.getD q [] = σ.chatRooms.getD q [] := by
      rw [ExtTreeMap.getD_eq_getD_getElem?, ExtTreeMap.getD_eq_getD_getElem?, hrooms q hq]
    have hpin : p.getD q [] = σ.roomPinMessage.getD q [] := by
      rw [ExtTreeMap.getD_eq_getD_getElem?, ExtTreeMap.getD_eq_getD_getElem?, hpins q hq]
    rw [hts, heard_showHistory, heard_showHistory]
    unfold pinShown Server.withTexts
    dsimp only
    rw [hget, hpin]
  · rw [heard_of_socket (showHistory_socket σ s q) hts, heard_of_socket (showHistory_socket τ s q) hts]

/-- `enterRoom`, in three parts. -/
theorem enterRoom_eq (σ : Server) (s q : Int) : enterRoom σ s q =
    ((announce q s (others (entered σ s q) s)
        [(entered σ s q).username s, " had enter the chat room.\n"] (showHistory (entered σ s q) s q).1).1,
      sendAll s (welcome q ((entered σ s q).chatRoomCreators.getD q [])) ++ (showHistory (entered σ s q) s q).2 ++
        (announce q s (others (entered σ s q) s)
          [(entered σ s q).username s, " had enter the chat room.\n"] (showHistory (entered σ s q) s q).1).2) := rfl

theorem announce_entry {ts : List Int} {ms : List Text} (hs : σ.clientChatRooms[s]? = some q) :
    (announce q s ts ms σ).1.clientChatRooms[s]? = some q := by
  unfold announce
  dsimp only
  split <;> exact (visit_keep_touched ts σ.clientChatRooms).keep hs

theorem looksSame_enterRoom (h : SameBut r σ τ) : LooksSame r (enterRoom σ s q) (enterRoom τ s q) := by
  have hentered : SameBut r (entered σ s q) (entered τ s q) := (blind_entered.looksSame h).state
  have hin : (entered σ s q).clientChatRooms[s]? = some q := ExtTreeMap.getElem?_insert_self
  rw [enterRoom_eq, enterRoom_eq]
  generalize entered σ s q = σ at hentered hin
  generalize entered τ s q = τ at hentered
  have hsame : others τ s = others σ s ∧ τ.username s = σ.username s ∧ τ.chatRoomCreators = σ.chatRoomCreators := by
    rw [hentered.eq]
    exact ⟨rfl, rfl, rfl⟩
  rw [hsame.1, hsame.2.1, hsame.2.2]
  have hannounce := (blind_announce q s (others σ s) [σ.username s, " had enter the chat room.\n"]).looksSame
    (sameBut_showHistory (s := s) (q := q) hentered)
  refine ⟨hannounce.state, fun t ht => ?_⟩
  have hts : q = r → t ≠ s := by
    rintro rfl rfl
    refine ht (announce_entry ?_)
    rw [showHistory_texts]
    exact hin
  rw [heard_append, heard_append, heard_append, heard_append, heard_showHistory_same hentered hts,
    hannounce.heard t ht]

theorem looksSame_enterChatRoom (h : SameBut r σ τ) :
    LooksSame r (enterChatRoom σ s l) (enterChatRoom τ s l) := by
  have hin : s ∈ τ.loggedInClients ↔ s ∈ σ.loggedInClients := by
    rw [h.eq]
    rfl
  unfold enterChatRoom
  by_cases hs : s ∈ σ.loggedInClients
  · rw [if_neg (not_not.2 hs), if_neg (not_not.2 (hin.2 hs))]
    cases (strtok blanks l).1 with
    | none => exact (blind_answer _).looksSame h
    | some str =>
      dsimp only
      split
      · exact (blind_answer _).looksSame h
      · exact looksSame_enterRoom h
  · rw [if_pos hs, if_pos fun hm => hs (hin.1 hm)]
    exact (blind_answer _).looksSame h

/-! ## Every line -/

/-- The commands of a client that is in a room, on one line. -/
theorem rel_roomCommand {token : Text} (h : SameBut r σ τ) (hs : σ.clientChatRooms[s]? = some q) :
    Option.Rel (LooksSame r) (roomCommand σ s q token l) (roomCommand τ s q token l) := by
  unfold roomCommand
  split
  · split
    · unfold pin
      cases (strtok newline l).1 with
      | none => exact .none
      | some m =>
        dsimp only
        split
        · exact .some (looksSame_pinMessage h hs fun _ => rfl)
        · exact .some ((blind_answer _).looksSame h)
    split
    · exact .some (looksSame_deletePin h)
    split
    · exact .some ((blind_exitChatRoom s).looksSame h)
    split
    · exact .some ((blind_listRoomUser s q).looksSame h)
    · exact .some ((blind_answer _).looksSame h)
  · unfold regularMessage
    refine .some ?_
    cases (strtok newline l).1 with
    | none => exact looksSame_postMessage h fun _ => rfl
    | some m =>
      dsimp only
      split
      · exact looksSame_postMessage h fun _ => rfl
      · exact (blind_touch s _).looksSame h

theorem rel_ite {p : Prop} [Decidable p] {a a' b b' : Option (Server × List Send)}
    {R : Server × List Send → Server × List Send → Prop} (ha : Option.Rel R a a') (hb : ¬ p → Option.Rel R b b') :
    Option.Rel R (if p then a else b) (if p then a' else b') := by
  split
  · exact ha
  · rename_i h
    exact hb h

theorem rel_dispatch {token : Text} (h : SameBut r σ τ) :
    Option.Rel (LooksSame r) (dispatch σ s token l) (dispatch τ s token l) := by
  have hflag : τ.inFlag = σ.inFlag := by
    rw [h.eq]
    rfl
  have hentry : τ.clientChatRooms[s]? = σ.clientChatRooms[s]? := by
    rw [h.eq]
    rfl
  unfold dispatch
  rw [hflag, hentry]
  refine rel_ite (.some ((blind_register s l).looksSame h)) fun _ =>
    rel_ite (.some ((blind_login s l).looksSame h)) fun _ =>
    rel_ite (.some ((blind_logout s l).looksSame h)) fun _ => rel_ite (.some ((blind_exit s l).looksSame h)) fun _ =>
    rel_ite (.some ((blind_whoami s l).looksSame h)) fun _ =>
    rel_ite (.some ((blind_setStatus s l).looksSame h)) fun _ =>
    rel_ite (.some ((blind_listUser s l).looksSame h)) fun _ => rel_ite (.some (looksSame_enterChatRoom h)) fun _ =>
    rel_ite (.some (looksSame_listChatRoom h)) fun _ => rel_ite (.some (looksSame_closeChatRoom h)) fun _ => ?_
  cases hs : σ.clientChatRooms[s]? with
  | some q => exact rel_roomCommand h hs
  | none => exact .some ((blind_answer _).looksSame h)

theorem rel_handleCommand (h : SameBut r σ τ) :
    Option.Rel (LooksSame r) (handleCommand σ s l) (handleCommand τ s l) := by
  rw [handleCommand_eq, handleCommand_eq]
  cases word l with
  | none => exact .some ((blind_answer _).looksSame h)
  | some token => exact rel_dispatch h

/-! ## Side by side -/

/-- One act in two servers: the same one, but for the text of a message or of a pin in room `r`. -/
inductive Alike (r : Int) (σ τ : Server) : Act → Act → Prop
  | same (a : Act) : Alike r σ τ a a
  | post {s : Int} {l l' m m' : Text} (h : request σ s l = .post r m) (h' : request τ s l' = .post r m') :
      Alike r σ τ (.line s l) (.line s l')
  | pin {s : Int} {l l' m m' : Text} (h : request σ s l = .pin r m) (h' : request τ s l' = .pin r m') :
      Alike r σ τ (.line s l) (.line s l')

/-- Two servers that do the same, but for the texts of room `r`. -/
def sideBySide (r : Int) : System (Server × Server) (Event × Event) where
  init p := p = (start, start)
  step p e q := Alike r p.1 p.2 e.1.act e.2.act ∧ chat.step p.1 e.1 q.1 ∧ chat.step p.2 e.2 q.2

theorem blind_disconnect (s : Int) : Blind fun σ => (disconnect σ s, []) := by
  intro σ c p
  change (disconnect (σ.withTexts c p) s, ([] : List Send)) = texts c p (disconnect σ s, [])
  unfold disconnect
  dsimp only
  change ((if s ∈ σ.loggedInClients then _ else _ : Server).close s, _) =
    texts c p ((if s ∈ σ.loggedInClients then _ else _ : Server).close s, _)
  split <;> rfl

/-- **One step of the two servers**: they can both do it or neither can, and whoever is not in room `r` after it sees
no difference. -/
theorem rel_step {a b : Act} (h : SameBut r σ τ) (ha : Alike r σ τ a b) :
    Option.Rel (LooksSame r) (step σ a) (step τ b) := by
  have hopen : τ.openSockets = σ.openSockets ∧ τ.handlers = σ.handlers := by
    rw [h.eq]
    exact ⟨rfl, rfl⟩
  cases ha with
  | same a =>
    cases a with
    | connect s =>
      unfold step
      dsimp only
      rw [hopen.1]
      exact rel_ite .none fun _ => .some ((show Blind (connect · s) from fun _ _ _ => rfl).looksSame h)
    | line s l =>
      unfold step
      dsimp only
      rw [hopen.1, hopen.2]
      exact rel_ite (rel_handleCommand h) fun _ => .none
    | disconnect s =>
      unfold step
      dsimp only
      rw [hopen.2]
      exact rel_ite (.some ((blind_disconnect s).looksSame h)) fun _ => .none
  | @post s l l' m m' hp hp' =>
    have hpost := handleCommand_outcome σ s l
    have hpost' := handleCommand_outcome τ s l'
    rw [hp] at hpost
    rw [hp'] at hpost'
    unfold step
    dsimp only
    rw [hopen.1, hopen.2, hpost.eq_postMessage.2, hpost'.eq_postMessage.2]
    exact rel_ite (.some (looksSame_postMessage h fun hne => absurd rfl hne)) fun _ => .none
  | @pin s l l' m m' hp hp' =>
    have hpin := handleCommand_outcome σ s l
    have hpin' := handleCommand_outcome τ s l'
    rw [hp] at hpin
    rw [hp'] at hpin'
    unfold step
    dsimp only
    rw [hopen.1, hopen.2, hpin.eq_pinMessage.2, hpin'.eq_pinMessage.2]
    exact rel_ite (.some (looksSame_pinMessage h hpin.eq_pinMessage.1 fun hne => absurd rfl hne)) fun _ => .none

theorem sameBut_reachable {p : Server × Server} (h : (sideBySide r).Reachable p) : SameBut r p.1 p.2 := by
  refine h.invariant (P := fun p => SameBut r p.1 p.2) ?_ ?_
  · rintro p rfl
    exact .refl r start
  · rintro p ⟨⟨a, sent⟩, b, sent'⟩ ⟨σ', τ'⟩ _ ih ⟨ha, hst, hst'⟩
    have hrel := rel_step ih ha
    rw [show step p.1 a = _ from hst, show step p.2 b = _ from hst'] at hrel
    cases hrel with
    | some hlook => exact hlook.state

/-- **What is said in a room stays in it.** Two servers that do the same, but for the texts that are posted and pinned
in room `r`, can do the same next; they then differ at most in the texts they keep for room `r`, and have sent the same
to every client that is not in room `r`. -/
theorem room_secret {p : Server × Server} {a b : Act} (h : (sideBySide r).Reachable p) (ha : Alike r p.1 p.2 a b) :
    Option.Rel (LooksSame r) (step p.1 a) (step p.2 b) := rel_step (sameBut_reachable h) ha

/-- Two servers that have done exactly the same. -/
theorem reachable_sideBySide (as : List Act) (h : (sideBySide r).Reachable (σ, σ)) :
    (sideBySide r).Reachable (after σ as, after σ as) := by
  induction as generalizing σ with
  | nil => exact h
  | cons a as ih =>
    unfold after
    split
    · rename_i σ' sent hst
      exact ih (h.step (a := (⟨a, sent⟩, ⟨a, sent⟩)) ⟨.same a, hst, hst⟩)
    · exact ih h

/-- Something else was said in room 1, and something else is said now: a client in room 2 cannot tell. -/
theorem room_secret_other :
    let σ := after start [.connect 4, .connect 5, .line 4 "register tom pw\n", .line 4 "login tom pw\n",
      .line 4 "enter-chat-room 1\n", .line 5 "register ann pw\n", .line 5 "login ann pw\n",
      .line 5 "enter-chat-room 2\n"]
    let σ₁ := after σ [.line 4 "hi\n"]
    let σ₂ := after σ [.line 4 "yo\n"]
    (sideBySide 1).Reachable (σ₁, σ₂) ∧ σ₁.chatRooms[(1 : Int)]? ≠ σ₂.chatRooms[(1 : Int)]? ∧
      Option.Rel (LooksSame 1) (step σ₁ (.line 4 "one\n")) (step σ₂ (.line 4 "two\n")) := by
  intro σ σ₁ σ₂
  obtain ⟨hhi, hyo, hone, htwo, hne⟩ : request σ 4 "hi\n" = .post 1 "hi" ∧ request σ 4 "yo\n" = .post 1 "yo" ∧
      request σ₁ 4 "one\n" = .post 1 "one" ∧ request σ₂ 4 "two\n" = .post 1 "two" ∧
      σ₁.chatRooms[(1 : Int)]? ≠ σ₂.chatRooms[(1 : Int)]? := by decide +kernel
  obtain ⟨hsome, hsome'⟩ : (step σ (.line 4 "hi\n")).isSome ∧ (step σ (.line 4 "yo\n")).isSome := by decide +kernel
  obtain ⟨sent, hst⟩ : ∃ sent, step σ (.line 4 "hi\n") = some (σ₁, sent) := step_after σ _ hsome
  obtain ⟨sent', hst'⟩ : ∃ sent, step σ (.line 4 "yo\n") = some (σ₂, sent) := step_after σ _ hsome'
  have hsame : (sideBySide 1).Reachable (σ, σ) := reachable_sideBySide _ (.init rfl)
  clear_value σ₁ σ₂ σ
  have hreach : (sideBySide 1).Reachable (σ₁, σ₂) :=
    hsame.step (a := (⟨.line 4 "hi\n", sent⟩, ⟨.line 4 "yo\n", sent'⟩)) ⟨.post hhi hyo, hst, hst'⟩
  exact ⟨hreach, hne, room_secret (p := (σ₁, σ₂)) hreach (.post hone htwo)⟩

end IntroNP.Chat
