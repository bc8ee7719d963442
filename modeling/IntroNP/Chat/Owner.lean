import IntroNP.Chat.Session

/-!
# The chat server: owners of rooms

- `owner_step`: an owner stays, but for a `close-chat-room` of its room from a client that is logged in as the owner
  (`ClosesAs`);
- `unowned_step`: a room without an owner stays so, until a client enters it;
- `owner_enter`: the client that enters a room without an owner becomes its owner.

Ownership is compared by name: that only the owner's session can close a room rests on the names of `SessionLaw`.
-/

namespace IntroNP.Chat

open Std

/-- A `close-chat-room r` from a client that is logged in as `u`. -/
def ClosesAs (u : Text) (r : Int) (σ : Server) : Act → Prop
  | .line s l => word l = some "close-chat-room".toList ∧ (arg l).map atoi = some r ∧ s ∈ σ.loggedInClients ∧
      σ.clientUsernames[s]? = some u
  | _ => False

/-- An `enter-chat-room r` from `s` that succeeds. -/
def Enters (s r : Int) (σ : Server) : Act → Prop
  | .line t l => t = s ∧ word l = some "enter-chat-room".toList ∧ (arg l).map atoi = some r ∧
      s ∈ σ.loggedInClients ∧ 1 ≤ r ∧ r ≤ 100
  | _ => False

instance (u : Text) (r : Int) (σ : Server) : ∀ a, Decidable (ClosesAs u r σ a)
  | .line _ _ => inferInstanceAs (Decidable (_ ∧ _))
  | .connect _ => .isFalse id
  | .disconnect _ => .isFalse id

instance (s r : Int) (σ : Server) : ∀ a, Decidable (Enters s r σ a)
  | .line _ _ => inferInstanceAs (Decidable (_ ∧ _))
  | .connect _ => .isFalse id
  | .disconnect _ => .isFalse id

/-- The room has no owner. -/
def Unowned (r : Int) (σ : Server) : Prop := σ.chatRoomCreators[r]? = none ∨ σ.chatRoomCreators[r]? = some []

variable {σ σ' : Server} {s r : Int} {l u : Text} {q : Request} {sent : List Send} {a : Act}

theorem unowned_iff : Unowned r σ ↔ σ.chatRoomCreators.getD r [] = [] := by
  unfold Unowned
  rw [ExtTreeMap.getD_eq_getD_getElem?]
  cases σ.chatRoomCreators[r]? with
  | none => simp
  | some u => simp

theorem Enters.request (h : Enters s r σ (.line s l)) : request σ s l = .enter r := by
  obtain ⟨_, hw, hr, hin, h1, h100⟩ := h
  obtain ⟨str, hstr, rfl⟩ := Option.map_eq_some_iff.1 hr
  unfold Chat.request
  rw [hw]
  change enterRequest σ s l = _
  unfold enterRequest
  rw [hstr]
  exact if_pos ⟨hin, h1, h100⟩

/-! ## The table of owners through a step -/

/-- What a line does to the owners: nothing but default cells, or it enters a room or closes one. -/
theorem creators_line {next : Server × List Send} (hc : Outcome σ s l q (some next)) :
    Touched [] (fun _ => True) σ.chatRoomCreators next.1.chatRoomCreators ∨
    (∃ r, Enters s r σ (.line s l) ∧ next.1.chatRoomCreators = enterCreators σ s r) ∨
    ∃ r, (word l = some "close-chat-room".toList ∧ (arg l).map atoi = some r ∧ s ∈ σ.loggedInClients ∧
      σ.chatRoomCreators.getD r [] = σ.username s) ∧
      next.1.chatRoomCreators = (σ.chatRoomCreators.insertIfNew r []).erase r := by
  cases hc with
  | nothing hq => exact .inl hq.creators
  | enter hw hstr hin h1 h100 =>
    obtain ⟨_, _, _, _, h⟩ := enterRoom_fst σ s _
    exact .inr (.inl ⟨_, ⟨rfl, hw, by rw [hstr]; rfl, hin, h1, h100⟩, by rw [h]⟩)
  | close hw hstr hin _ hown => exact .inr (.inr ⟨_, ⟨hw, by rw [hstr]; rfl, hin, hown⟩, rfl⟩)
  | exit =>
    dsimp only
    split <;> exact .inl (.refl _)
  | deletePin =>
    rw [deletePin_fst]
    exact .inl (.refl _)
  | leave hr =>
    rw [exitChatRoom_fst hr]
    exact .inl (.refl _)
  | listRoom =>
    obtain ⟨_, _, _, _, h⟩ := listRoomUser_fst σ s _
    rw [h]
    exact .inl (.refl _)
  | register | login | logout | setStatus | pin | post => exact .inl (.refl _)

/-- **One step**: an owner stays, unless the room is closed as the owner. -/
theorem owner_step (h : SessionInv σ) (hst : step σ a = some (σ', sent)) (hno : ¬ ClosesAs u r σ a)
    (hu : σ.chatRoomCreators[r]? = some u) (hne : u ≠ []) : σ'.chatRoomCreators[r]? = some u := by
  cases a with
  | connect s =>
    obtain ⟨_, rfl, _⟩ := step_connect hst
    exact hu
  | disconnect s =>
    obtain ⟨_, rfl, _⟩ := step_disconnect hst
    unfold disconnect
    dsimp only
    split <;> exact hu
  | line s l =>
    obtain ⟨_, _, hc⟩ := step_line hst
    have hget : σ.chatRoomCreators.getD r [] = u := by rw [ExtTreeMap.getD_eq_getD_getElem?, hu]; rfl
    rcases creators_line (hc ▸ handleCommand_outcome σ s l) with ht | ⟨r', _, h'⟩ | ⟨r', ⟨hw, hr, hin, hown⟩, h'⟩
    · exact ht.keep hu
    · -- a room that has an owner is not claimed
      rw [h', enterCreators]
      split
      · rename_i hempty
        rw [getElem?_insert_of_ne, getElem?_insertIfNew_of_some hu]
        rintro rfl
        exact hne (hget.symm.trans hempty)
      · exact getElem?_insertIfNew_of_some hu
    · rw [h', getElem?_erase_of_ne, getElem?_insertIfNew_of_some hu]
      rintro rfl
      exact hno ⟨hw, hr, hin, by rw [h.username_eq hin, ← hown, hget]⟩

/-- **One step**: a room without an owner stays so, unless it is entered. -/
theorem unowned_step (hst : step σ a = some (σ', sent)) (hno : ¬ ∃ s, Enters s r σ a) (hr : Unowned r σ) :
    Unowned r σ' := by
  rw [unowned_iff] at hr ⊢
  cases a with
  | connect s =>
    obtain ⟨_, rfl, _⟩ := step_connect hst
    exact hr
  | disconnect s =>
    obtain ⟨_, rfl, _⟩ := step_disconnect hst
    unfold disconnect
    dsimp only
    split <;> exact hr
  | line s l =>
    obtain ⟨_, _, hc⟩ := step_line hst
    rcases creators_line (hc ▸ handleCommand_outcome σ s l) with ht | ⟨r', he, h'⟩ | ⟨r', _, h'⟩
    · exact ht.getD_eq.trans hr
    · have hne : r' ≠ r := fun e => hno ⟨s, e ▸ he⟩
      rw [h', enterCreators]
      split
      · rw [ExtTreeMap.getD_eq_getD_getElem?, getElem?_insert_of_ne hne, ← ExtTreeMap.getD_eq_getD_getElem?,
          getD_insertIfNew, hr]
      · rw [getD_insertIfNew, hr]
    · rw [h', ExtTreeMap.getD_erase, getD_insertIfNew, hr, ite_self]

theorem Outcome.eq_enterRoom {o : Option (Server × List Send)} (h : Outcome σ s l (.enter r) o) :
    o = some (enterRoom σ s r) := by
  cases h
  rfl

/-- A step that enters a room is `enterRoom`. -/
theorem Enters.step (he : Enters s r σ a) (hst : step σ a = some (σ', sent)) : enterRoom σ s r = (σ', sent) := by
  cases a with
  | connect _ | disconnect _ => exact he.elim
  | line t l =>
    obtain rfl : t = s := he.1
    obtain ⟨_, _, hc⟩ := step_line hst
    have ho := (he.request ▸ handleCommand_outcome σ t l).eq_enterRoom
    exact Option.some.inj (ho.symm.trans hc)

/-- **One step**: the client that enters a room without an owner owns it, under its registered name. -/
theorem owner_enter (h : SessionInv σ) (hst : step σ a = some (σ', sent)) (he : Enters s r σ a)
    (hr : Unowned r σ) : ∃ u, σ.clientUsernames[s]? = some u ∧ u ≠ [] ∧ u ∈ σ.registeredUsers ∧
      σ'.chatRoomCreators[r]? = some u := by
  have hin : s ∈ σ.loggedInClients := by
    cases a with
    | connect _ | disconnect _ => exact he.elim
    | line t l => exact he.2.2.2.1
  obtain ⟨names, pins, _, _, hent⟩ := enterRoom_fst σ s r
  rw [he.step hst] at hent
  dsimp only at hent
  refine ⟨σ.username s, h.username_eq hin, (h.username_registered hin).1, (h.username_registered hin).2, ?_⟩
  rw [hent, enterCreators, if_pos (unowned_iff.1 hr), ExtTreeMap.getElem?_insert_self]

/-! ## Runs -/

/-- **Ownership.** In a run without a `close-chat-room r` from a client that is logged in as `u`, the owner `u` of `r`
stays. A room without an owner stays so until a client enters it, and that client, under its registered name, is then
the owner. -/
theorem owner_stable (h : chat.Reachable σ) (r : Int) :
    (∀ u es σ', u ≠ [] → σ.chatRoomCreators[r]? = some u →
      (chat.restrict fun σ e => ¬ ClosesAs u r σ e.act).Run σ es σ' → σ'.chatRoomCreators[r]? = some u) ∧
    ∀ es σ' s e σ'', Unowned r σ → (chat.restrict fun σ e => ¬ ∃ s, Enters s r σ e.act).Run σ es σ' →
      Enters s r σ' e.act → chat.step σ' e σ'' →
      Unowned r σ' ∧ ∃ u, σ'.clientUsernames[s]? = some u ∧ u ≠ [] ∧ u ∈ σ'.registeredUsers ∧
        σ''.chatRoomCreators[r]? = some u := by
  constructor
  · intro u es σ' hne hu hr
    refine hr.preserves_restrict (P := fun σ => σ.chatRoomCreators[r]? = some u)
      (fun σ e σ' hσ hno hu hst => ?_) h hu
    exact owner_step (sessionInv_reachable hσ) hst hno hu hne
  · intro es σ' s e σ'' hun hr he hst
    have hun' : Unowned r σ' := hr.preserves_restrict (fun σ e σ' _ hno hun hst => unowned_step hst hno hun) h hun
    exact ⟨hun', owner_enter (sessionInv_reachable (h.run hr.of_restrict)) hst he hun'⟩

/-- Tom enters a new room, and owns it; Ann, who is logged in too, cannot close it. -/
theorem owner_stable_close_refused :
    let σ := after start [.connect 4, .connect 5, .line 4 "register tom pw\n", .line 4 "login tom pw\n",
      .line 5 "register ann pw\n", .line 5 "login ann pw\n", .line 4 "enter-chat-room 7\n"]
    let σ' := after σ [.line 5 "close-chat-room 7\n"]
    σ.chatRoomCreators[(7 : Int)]? = some "tom".toList ∧ σ'.chatRoomCreators[(7 : Int)]? = some "tom".toList := by
  intro σ σ'
  have hσ : σ.chatRoomCreators[(7 : Int)]? = some "tom".toList := by decide +kernel
  have hno : ¬ ClosesAs "tom" 7 σ (.line 5 "close-chat-room 7\n") := by decide +kernel
  obtain ⟨sent, hst⟩ := step_after σ (.line 5 "close-chat-room 7\n") (by decide +kernel)
  exact ⟨hσ, (owner_stable (reachable_after _) 7).1 "tom" [⟨.line 5 "close-chat-room 7\n", sent⟩] σ' (by decide) hσ
    (.single ⟨hno, hst⟩)⟩

end IntroNP.Chat
