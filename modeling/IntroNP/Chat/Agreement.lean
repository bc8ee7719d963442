import IntroNP.Chat.Close
import IntroNP.Chat.Secret

/-!
# The chat server: what the members of a room agree on

`history_agreement` is about a client from its entering a room on, as long as it stays there. It receives what is posted
to the room, each message once and in order, unless it enters the room again: it is then shown the end of the history
once more (`history_agreement_again`). In all other steps nothing that it is sent depends on what was posted anywhere
(`rel_heard_step`).
-/

namespace IntroNP.Chat

open Std

variable {σ σ' : Server} {c q r s : Int} {l token : Text} {a : Act} {sent : List Send}
  {t : ExtTreeMap Int (List Text)} {p : ExtTreeMap Int Text}

/-! ## Steps that tell no message -/

/-- Two results in which `c` is sent the same. -/
def HeardSame (c : Int) (n n' : Server × List Send) : Prop := heard c n.2 = heard c n'.2

theorem Blind.heardSame {f : Server → Server × List Send} (hf : Blind f) :
    HeardSame c (f σ) (f (σ.withTexts t p)) := by
  rw [hf σ]
  rfl

theorem heardSame_listChatRoom (hmade : ∀ q, q ∈ t ↔ q ∈ σ.chatRooms) :
    HeardSame c (listChatRoom σ s l) (listChatRoom (σ.withTexts t p) s l) := by
  have hkeys : t.keys = σ.chatRooms.keys := keys_eq_of_mem_iff hmade
  unfold listChatRoom
  cases (strtok blanks l).1 with
  | some _ => rfl
  | none =>
    change HeardSame c (if s ∉ σ.loggedInClients then _ else _) (if s ∉ σ.loggedInClients then _ else
      (({ σ.withTexts t p with chatRoomCreators := t.keys.foldl _ _ }, (t.keys.map _) ++ _) : Server × List Send))
    split
    · rfl
    · rw [hkeys]
      rfl

theorem heardSame_closeChatRoom (hmade : ∀ q, q ∈ t ↔ q ∈ σ.chatRooms) :
    HeardSame c (closeChatRoom σ s l) (closeChatRoom (σ.withTexts t p) s l) := by
  unfold closeChatRoom
  change HeardSame c (if s ∉ σ.loggedInClients then _ else _) (if s ∉ σ.loggedInClients then _ else _)
  split
  · rfl
  cases (strtok blanks l).1 with
  | none => rfl
  | some str =>
    dsimp only
    by_cases hr : atoi str ∈ σ.chatRooms
    · have hr' : atoi str ∈ (σ.withTexts t p).chatRooms := (hmade _).2 hr
      rw [if_neg (not_not.2 hr), if_neg (not_not.2 hr')]
      change HeardSame c (if σ.chatRoomCreators.getD (atoi str) [] ≠ σ.username s then _ else _)
        (if σ.chatRoomCreators.getD (atoi str) [] ≠ σ.username s then _ else _)
      split <;> rfl
    · have hr' : atoi str ∉ (σ.withTexts t p).chatRooms := fun hm => hr ((hmade _).1 hm)
      rw [if_pos hr, if_pos hr']
      rfl

theorem heardSame_deletePin : HeardSame c (deletePin σ s q) (deletePin (σ.withTexts t p) s q) := by
  unfold deletePin
  change HeardSame c (if σ.chatRoomPins.getD q false then _ else _) (if σ.chatRoomPins.getD q false then _ else _)
  split <;> rfl

/-- The members of a room hear nothing of what a newcomer is shown. -/
theorem heardSame_enterRoom (hc : c ≠ s) : HeardSame c (enterRoom σ s q) (enterRoom (σ.withTexts t p) s q) := by
  have hentered : entered (σ.withTexts t p) s q = (entered σ s q).withTexts t p :=
    congrArg Prod.fst (blind_entered σ t p)
  have hshown : ∀ σ : Server, ∃ t' p', (showHistory (σ.withTexts t p) s q).1 =
      (showHistory σ s q).1.withTexts t' p' := by
    intro σ
    rw [showHistory_texts, showHistory_texts]
    exact ⟨_, _, rfl⟩
  unfold HeardSame
  rw [enterRoom_eq, enterRoom_eq, hentered]
  obtain ⟨t', p', hshow⟩ := hshown (entered σ s q)
  rw [hshow, blind_announce, heard_append, heard_append, heard_append, heard_append, heard_sendAll, heard_sendAll,
    if_neg hc.symm, if_neg hc.symm, heard_of_socket (showHistory_socket _ s q) hc,
    heard_of_socket (showHistory_socket _ s q) hc]
  rfl

theorem heardSame_enterChatRoom (he : ∀ q, c = s → enterRequest σ s l ≠ .enter q) :
    HeardSame c (enterChatRoom σ s (rest l)) (enterChatRoom (σ.withTexts t p) s (rest l)) := by
  unfold enterRequest arg at he
  unfold enterChatRoom
  change HeardSame c (if s ∉ σ.loggedInClients then _ else _) (if s ∉ σ.loggedInClients then _ else _)
  split
  · rfl
  rename_i hin
  cases harg : (strtok blanks (rest l)).1 with
  | none => rfl
  | some str =>
    rw [harg] at he
    dsimp only
    split
    · rfl
    · rename_i hrange
      obtain ⟨h1, h100⟩ := not_or.1 hrange
      refine heardSame_enterRoom fun hcs => he (atoi str) hcs (if_pos ⟨not_not.1 hin, ?_, ?_⟩)
      · exact Int.not_lt.1 h1
      · exact Int.not_lt.1 h100

theorem rel_heard_roomCommand (hpost : ∀ m, roomRequest q token l ≠ .post q m) :
    Option.Rel (HeardSame c) (roomCommand σ s q token (rest l))
      (roomCommand (σ.withTexts t p) s q token (rest l)) := by
  unfold roomRequest tailText at hpost
  unfold roomCommand
  split
  · refine rel_ite ?_ fun _ => rel_ite (.some heardSame_deletePin) fun _ =>
      rel_ite (.some (blind_exitChatRoom s).heardSame) fun _ =>
      rel_ite (.some (blind_listRoomUser s q).heardSame) fun _ => .some rfl
    unfold pin
    cases (strtok newline (rest l)).1 with
    | none => exact .none
    | some m =>
      dsimp only
      split <;> exact .some rfl
  · rename_i hslash
    rw [if_neg hslash] at hpost
    unfold regularMessage
    refine .some ?_
    cases htail : (strtok newline (rest l)).1 with
    | none =>
      rw [htail] at hpost
      exact absurd rfl (hpost token)
    | some m =>
      rw [htail] at hpost
      dsimp only at hpost ⊢
      split
      · rename_i hlen
        rw [if_pos hlen] at hpost
        exact absurd rfl (hpost _)
      · rfl

theorem rel_heard_dispatch (hmade : ∀ q, q ∈ t ↔ q ∈ σ.chatRooms)
    (hpost : ∀ q m, tokenRequest σ s token l ≠ .post q m) (he : ∀ q, c = s → tokenRequest σ s token l ≠ .enter q) :
    Option.Rel (HeardSame c) (dispatch σ s token (rest l)) (dispatch (σ.withTexts t p) s token (rest l)) := by
  unfold tokenRequest at hpost he
  unfold dispatch
  rw [show (σ.withTexts t p).inFlag = σ.inFlag from rfl,
    show (σ.withTexts t p).clientChatRooms[s]? = σ.clientChatRooms[s]? from rfl]
  refine rel_ite (.some (blind_register s _).heardSame) fun h₁ => rel_ite (.some (blind_login s _).heardSame) fun h₂ =>
    rel_ite (.some (blind_logout s _).heardSame) fun h₃ => rel_ite (.some (blind_exit s _).heardSame) fun h₄ =>
    rel_ite (.some (blind_whoami s _).heardSame) fun h₅ => rel_ite (.some (blind_setStatus s _).heardSame) fun h₆ =>
    rel_ite (.some (blind_listUser s _).heardSame) fun h₇ => ?_
  rw [if_neg h₁, if_neg h₂, if_neg h₃, if_neg h₄, if_neg h₅, if_neg h₆, if_neg h₇] at hpost he
  by_cases h₈ : token = "enter-chat-room".toList
  · rw [if_pos h₈] at he ⊢
    rw [if_pos h₈]
    exact .some (heardSame_enterChatRoom he)
  rw [if_neg h₈] at hpost ⊢
  rw [if_neg h₈]
  refine rel_ite (.some (heardSame_listChatRoom hmade)) fun h₉ =>
    rel_ite (.some (heardSame_closeChatRoom hmade)) fun h => ?_
  rw [if_neg h₉, if_neg h] at hpost
  cases hroom : σ.clientChatRooms[s]? with
  | none => exact .some rfl
  | some q =>
    rw [hroom] at hpost
    exact rel_heard_roomCommand fun m => hpost q m

/-- **A step that tells no message**: what `c` is sent in it is the same whatever the rooms' histories and pins are. -/
theorem rel_heard_step (hmade : ∀ q, q ∈ t ↔ q ∈ σ.chatRooms) (hp : posting σ a = none)
    (he : ∀ q, ¬ Enters c q σ a) :
    Option.Rel (HeardSame c) (step σ a) (step (σ.withTexts t p) a) := by
  cases a with
  | connect s =>
    unfold step
    exact rel_ite .none fun _ => .some rfl
  | disconnect s =>
    unfold step
    exact rel_ite (.some rfl) fun _ => .none
  | line s l =>
    unfold step
    refine rel_ite ?_ fun _ => .none
    unfold posting request at hp
    rw [handleCommand_eq, handleCommand_eq]
    cases hw : word l with
    | none => exact .some rfl
    | some token =>
      dsimp only at hp ⊢
      rw [hw] at hp
      dsimp only at hp
      refine rel_heard_dispatch hmade (fun q m hq => ?_) fun q hcs hq => ?_
      · rw [hq] at hp
        cases hp
      · subst hcs
        refine he q (enters_of_request ?_)
        unfold request
        rw [hw]
        exact hq

/-! ## Agreement -/

theorem enterRoom_entry (σ : Server) (s q : Int) : (enterRoom σ s q).1.clientChatRooms[s]? = some q := by
  rw [enterRoom_eq]
  refine announce_entry ?_
  rw [showHistory_texts]
  exact ExtTreeMap.getElem?_insert_self

/-- The room that a client is in after it has entered one. -/
theorem Enters.eq_of_inside {e : Event} (he : Enters c q σ e.act) (hst : chat.step σ e σ') (hin : Inside c r σ') :
    q = r := by
  have hentry := enterRoom_entry σ c q
  rw [he.step hst] at hentry
  exact Option.some.inj (hentry.symm.trans hin.2)

/-- **Room histories.** In a state reached with the log `log`: the history of every room is its log; from there on,
clients that stay in one room and do not enter it again receive what is posted to it, each message once and in order,
hence all the same; in a step that neither posts nor lets it enter, a client of the room hears at most a notice of
another client, and what it hears is the same whatever the histories are; and a client that enters a room is shown the
last ten messages of its log, oldest first, and the pin, if there is one. -/
theorem history_agreement {log : Int → List Text} (h : (chat.ghost (fun _ => []) logPosts).Reachable (σ, log)) :
    (∀ r, σ.chatRooms.getD r [] = log r) ∧
    (∀ (r : Int) (C : Set Int) es σ' g,
      (((chat.within fun σ => ∀ c ∈ C, Inside c r σ).restrict fun σ e => ∀ c ∈ C, ¬ Enters c r σ e.act).ghost
        Stream.empty (follow r)).Run (σ, .empty) es (σ', g) →
      (∀ c ∈ C, g.received c = g.posted.flatMap withNewline) ∧ ∀ c ∈ C, ∀ d ∈ C, g.received c = g.received d) ∧
    (∀ c r e σ', Inside c r σ → Inside c r σ' → chat.step σ e σ' → ¬ Tells c r σ e.act →
      ((∀ l, e.act ≠ .line c l) → Notice (heard c e.sent)) ∧
      ∀ t p, (∀ q, q ∈ t ↔ q ∈ σ.chatRooms) → ∃ τ sent,
        step (σ.withTexts t p) e.act = some (τ, sent) ∧ heard c sent = heard c e.sent) ∧
    ∀ s r e σ', Enters s r σ e.act → chat.step σ e σ' → heard s e.sent =
      welcome r ((enterCreators σ s r).getD r []) ++
        (((log r).drop ((log r).length - 10)).flatMap withNewline ++ pinShown σ r) := by
  refine ⟨history_log h, ?_, ?_, ?_⟩
  · intro r C es σ' g hr
    have hall : ∀ c ∈ C, g.received c = g.posted.flatMap withNewline := fun c hc =>
      received_posted (fun σ hσ => hσ c hc) (fun σ e he => he c hc) hr rfl
    exact ⟨hall, fun c hc d hd => (hall c hc).trans (hall d hd).symm⟩
  · intro c r e σ' hin hin' hst htells
    obtain ⟨hpost, henter⟩ := not_or.1 htells
    have hnone : posting σ e.act = none := not_not.1 hpost
    refine ⟨fun ha => notice_step (sessionInv_reachable h.ghost_fst) hst hin.1 ha hnone, fun t p hmade => ?_⟩
    have hno : ∀ q, ¬ Enters c q σ e.act := fun q hq => henter (hq.eq_of_inside hst hin' ▸ hq)
    have hrel := rel_heard_step (p := p) hmade hnone hno
    rw [show step σ e.act = some (σ', e.sent) from hst] at hrel
    obtain ⟨⟨τ, sent⟩, hτ, hsame⟩ : ∃ n, step (σ.withTexts t p) e.act = some n ∧ HeardSame c (σ', e.sent) n := by
      cases hn : step (σ.withTexts t p) e.act with
      | none =>
        rw [hn] at hrel
        cases hrel
      | some n =>
        rw [hn] at hrel
        cases hrel with
        | some hsame => exact ⟨n, rfl, hsame⟩
    exact ⟨τ, sent, hτ, Eq.symm hsame⟩
  · intro s r e σ' he hst
    have hh := heard_enterRoom σ s r
    rw [he.step hst, shown_eq, history_log h] at hh
    exact hh

/-- Tom and Ann are in room 1; both receive what Tom posts. -/
theorem history_agreement_pair :
    let σ := after start [.connect 4, .connect 5, .line 4 "register tom pw\n", .line 4 "login tom pw\n",
      .line 5 "register ann pw\n", .line 5 "login ann pw\n", .line 4 "enter-chat-room 1\n",
      .line 5 "enter-chat-room 1\n"]
    ∃ sent, step σ (.line 4 "hi\n") = some (after σ [.line 4 "hi\n"], sent) ∧
      heard 4 sent = ["[tom]: hi".toList, "\n"] ∧ heard 5 sent = ["[tom]: hi".toList, "\n"] := by
  intro σ
  obtain ⟨sent, hst⟩ := step_after σ (.line 4 "hi\n") (by decide +kernel)
  obtain ⟨log, hlog⟩ : ∃ log, (chat.ghost (fun _ => []) logPosts).Reachable (σ, log) :=
    (reachable_after _).exists_ghost
  obtain ⟨hp, h4, h5, h4', h5'⟩ : posting σ (.line 4 "hi\n") = some (1, "[tom]: hi".toList) ∧
      (4 ∈ σ.loggedInClients ∧ σ.clientChatRooms[(4 : Int)]? = some 1) ∧
      (5 ∈ σ.loggedInClients ∧ σ.clientChatRooms[(5 : Int)]? = some 1) ∧
      (4 ∈ (after σ [.line 4 "hi\n"]).loggedInClients ∧
        (after σ [.line 4 "hi\n"]).clientChatRooms[(4 : Int)]? = some 1) ∧
      5 ∈ (after σ [.line 4 "hi\n"]).loggedInClients ∧
        (after σ [.line 4 "hi\n"]).clientChatRooms[(5 : Int)]? = some 1 := by decide +kernel
  have hin : ∀ c ∈ ({4, 5} : Set Int), Inside c 1 σ := by
    rintro c (rfl | rfl)
    · exact h4
    · exact h5
  have hin' : ∀ c ∈ ({4, 5} : Set Int), Inside c 1 (after σ [.line 4 "hi\n"]) := by
    rintro c (rfl | rfl)
    · exact h4'
    · exact h5'
  have hno : ∀ c ∈ ({4, 5} : Set Int), ¬ Enters c 1 σ (.line 4 "hi\n") := fun _ _ he => absurd he.2.1 (by decide)
  have htells : ∀ c, Tells c 1 σ (.line 4 "hi\n") := fun _ => .inl (hp ▸ Option.some_ne_none _)
  generalize after σ [.line 4 "hi\n"] = σ' at *
  clear_value σ
  have hrun := ((history_agreement hlog).2.1 1 {4, 5} [⟨.line 4 "hi\n", sent⟩] σ' _
    (.single ⟨⟨hno, hin, hin', hst⟩, rfl⟩)).1
  simp only [hp, htells, if_true] at hrun
  exact ⟨sent, hst, hrun 4 (.inl rfl), hrun 5 (.inr rfl)⟩

/-- Tom posts a message in room 1 and enters the room again: he stays in the room and receives the message twice. -/
theorem history_agreement_again :
    let σ := after start [.connect 4, .line 4 "register tom pw\n", .line 4 "login tom pw\n",
      .line 4 "enter-chat-room 1\n"]
    ∃ es σ' g, ((chat.within (Inside 4 1)).ghost Stream.empty (follow 1)).Run (σ, .empty) es (σ', g) ∧
      g.posted = ["[tom]: hi".toList] ∧ g.received 4 = ["[tom]: hi".toList, "\n"] ++
        (welcome 1 "tom" ++ ["[tom]: hi".toList, "\n"]) := by
  intro σ
  obtain ⟨sent, hst⟩ := step_after σ (.line 4 "hi\n") (by decide +kernel)
  obtain ⟨sent', hst'⟩ := step_after (after σ [.line 4 "hi\n"]) (.line 4 "enter-chat-room 1\n") (by decide +kernel)
  have hheard : (step σ (.line 4 "hi\n")).map (fun n => heard 4 n.2) = some ["[tom]: hi".toList, "\n"] := by
    decide +kernel
  have hheard' : (step (after σ [.line 4 "hi\n"]) (.line 4 "enter-chat-room 1\n")).map (fun n => heard 4 n.2) =
      some (welcome 1 "tom" ++ ["[tom]: hi".toList, "\n"]) := by decide +kernel
  rw [hst] at hheard
  rw [hst'] at hheard'
  obtain ⟨hp, hp', htells, htells'⟩ : posting σ (.line 4 "hi\n") = some (1, "[tom]: hi".toList) ∧
      posting (after σ [.line 4 "hi\n"]) (.line 4 "enter-chat-room 1\n") = none ∧ Tells 4 1 σ (.line 4 "hi\n") ∧
      Tells 4 1 (after σ [.line 4 "hi\n"]) (.line 4 "enter-chat-room 1\n") := by decide +kernel
  obtain ⟨hin, hin₁, hin₂⟩ : (4 ∈ σ.loggedInClients ∧ σ.clientChatRooms[(4 : Int)]? = some 1) ∧
      (4 ∈ (after σ [.line 4 "hi\n"]).loggedInClients ∧
        (after σ [.line 4 "hi\n"]).clientChatRooms[(4 : Int)]? = some 1) ∧
      4 ∈ (after (after σ [.line 4 "hi\n"]) [.line 4 "enter-chat-room 1\n"]).loggedInClients ∧
        (after (after σ [.line 4 "hi\n"]) [.line 4 "enter-chat-room 1\n"]).clientChatRooms[(4 : Int)]? = some 1 := by
    decide +kernel
  generalize after (after σ [.line 4 "hi\n"]) [.line 4 "enter-chat-room 1\n"] = σ₂ at *
  generalize after σ [.line 4 "hi\n"] = σ₁ at *
  clear_value σ
  have hfirst : ((chat.within (Inside 4 1)).ghost Stream.empty (follow 1)).step (σ, .empty)
      ⟨.line 4 "hi\n", sent⟩ (σ₁, follow 1 σ ⟨.line 4 "hi\n", sent⟩ .empty) := ⟨⟨hin, hin₁, hst⟩, rfl⟩
  refine ⟨[_, ⟨.line 4 "enter-chat-room 1\n", sent'⟩], σ₂, _, .cons hfirst (.single ⟨⟨hin₁, hin₂, hst'⟩, rfl⟩), ?_, ?_⟩
  · simp only [follow, hp, hp', if_true]
    rfl
  · simp only [follow, htells, htells', if_true, Option.some.inj hheard, Option.some.inj hheard']
    rfl

end IntroNP.Chat
