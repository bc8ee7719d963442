import IntroNP.Chat.History

/-!
# The chat server: membership

A client is a member of room `r` when `client_chat_rooms` has the entry `r` for its socket. The loops of the room
commands read the entries of the other clients that are logged in through `operator[]`, and give the entry `0` to each
of them that has none: after that it is a member of room 0, which nobody can enter.

- `Covered` is the condition on a step that no loop meets a client without an entry;
- `entries_line`: what a line then does to the entries;
- `membership_kept`: in runs of such steps the entries follow the rooms entered and left.
-/

namespace IntroNP.Chat

open Std

/-- The client whose act it is. -/
def Act.client : Act → Int
  | .connect s => s
  | .line s _ => s
  | .disconnect s => s

/-- The entry of `t` after a request of `s`, when it was `room`. -/
def entryAfter (s t : Int) (room : Option Int) : Request → Option Int
  | .enter r => if t = s then some r else room
  | .leave _ => if t = s then none else room
  | .close r _ => if room = some r then none else room
  | _ => room

/-- The rooms that the clients have entered and not left, after a step. A room is also left when it is closed; a new
client has entered none. -/
def roomsAfter (σ : Server) (e : Event) (room : Int → Option Int) (t : Int) : Option Int :=
  match e.act with
  | .connect s => if t = s then none else room t
  | .line s l => entryAfter s t (room t) (request σ s l)
  | .disconnect _ => room t

/-- The other clients are where they were, but for those in a room that is closed. -/
def FrameStep (σ : Server) (a : Act) (σ' : Server) : Prop :=
  ∀ b, b ≠ a.client → σ'.clientChatRooms[b]? =
    match closing σ a with
    | some r => if σ.clientChatRooms[b]? = some r then none else σ.clientChatRooms[b]?
    | none => σ.clientChatRooms[b]?

/-- Every client whose entry a request of `s` reads has one. On a close, the members of the room are logged in, so that
the loop finds them. -/
def RequestCovered (σ : Server) (s : Int) : Request → Prop
  | .enter _ | .pin _ _ | .leave _ | .listRoom _ | .post _ _ =>
    ∀ t ∈ σ.loggedInClients, t ≠ s → t ∈ σ.clientChatRooms
  | .close r _ =>
    (∀ t ∈ σ.loggedInClients, t ∈ σ.clientChatRooms) ∧
      ∀ t, σ.clientChatRooms[t]? = some r → t ∈ σ.loggedInClients
  | _ => True

/-- Every client whose entry a step reads has one, and a new socket has no entry of a client before it. -/
def Covered (σ : Server) : Act → Prop
  | .connect s => s ∉ σ.clientChatRooms
  | .line s l => RequestCovered σ s (request σ s l)
  | .disconnect _ => True

/-- The words that `handle_command` compares the first word of a line with, before it looks for a room. -/
def commands : List Text :=
  ["register", "login", "logout", "exit", "whoami", "set-status", "list-user", "enter-chat-room", "list-chat-room",
    "close-chat-room"]

variable {σ σ' : Server} {s r t b c : Int} {l token : Text} {q : Request} {sent : List Send} {a : Act}

/-! ## The entries through a step -/

/-- A loop that only meets clients with an entry leaves the entries alone. -/
theorem visit_covered {m : ExtTreeMap Int Int} {ts : List Int} (h : ∀ t ∈ ts, t ∈ m) :
    (visit r 0 (fun _ m => m) ts m).2[t]? = m[t]? := by
  rcases visit_keep_touched (v := r) (d := 0) ts m t with h' | ⟨ht, hno, _⟩
  · exact h'
  · have hin := h t ht
    rw [ExtTreeMap.mem_iff_isSome_getElem?, hno] at hin
    cases hin

theorem others_covered (h : ∀ t ∈ σ.loggedInClients, t ≠ s → t ∈ σ.clientChatRooms) :
    ∀ t ∈ others σ s, t ∈ σ.clientChatRooms := fun t ht =>
  h t (mem_others.1 ht).1 (mem_others.1 ht).2

/-- All clients that are logged in have an entry, if the others have one and `s` is in a room. -/
theorem all_covered (hr : σ.clientChatRooms[s]? = some r)
    (h : ∀ t ∈ σ.loggedInClients, t ≠ s → t ∈ σ.clientChatRooms) :
    ∀ t ∈ σ.loggedInClients.toList, t ∈ σ.clientChatRooms := by
  intro t ht
  by_cases hts : t = s
  · rw [hts, ExtTreeMap.mem_iff_isSome_getElem?, hr]
    rfl
  · exact h t (ExtTreeSet.mem_toList.1 ht) hts

theorem closeRooms_covered (h : ∀ t ∈ σ.loggedInClients, t ∈ σ.clientChatRooms)
    (h' : ∀ t, σ.clientChatRooms[t]? = some r → t ∈ σ.loggedInClients) :
    (closeRooms σ r)[t]? = if σ.clientChatRooms[t]? = some r then none else σ.clientChatRooms[t]? := by
  unfold closeRooms
  rw [visit_erase_snd _ _ nodup_loggedIn]
  by_cases ht : t ∈ σ.loggedInClients
  · obtain ⟨v, hv⟩ := Option.isSome_iff_exists.1 (ExtTreeMap.mem_iff_isSome_getElem?.1 (h t ht))
    rw [if_pos (ExtTreeSet.mem_toList.2 ht), ExtTreeMap.getD_eq_getD_getElem?, hv]
    simp
  · rw [if_neg (fun hm => ht (ExtTreeSet.mem_toList.1 hm)), if_neg (fun e => ht (h' t e))]

theorem entries_line {next : Server × List Send} (hc : Outcome σ s l q (some next))
    (hcov : RequestCovered σ s q) (t : Int) :
    next.1.clientChatRooms[t]? = entryAfter s t (σ.clientChatRooms[t]?) q := by
  rw [clientChatRooms_line hc]
  cases hc with
  | enter =>
    rw [roomTable, enterRooms, visit_covered, entryAfter]
    · split
      · rename_i hts
        rw [hts, ExtTreeMap.getElem?_insert_self]
      · rename_i hts
        exact getElem?_insert_of_ne (Ne.symm hts)
    · exact fun t ht => mem_map_insert.2 (.inr (others_covered hcov t ht))
  | close => exact closeRooms_covered hcov.1 hcov.2
  | pin => exact visit_covered (others_covered hcov)
  | leave =>
    rw [roomTable, entryAfter]
    split
    · rename_i hts
      rw [hts, ExtTreeMap.getElem?_erase_self]
    · rename_i hts
      rw [getElem?_erase_of_ne (Ne.symm hts), visit_covered (others_covered hcov)]
  | listRoom hr | post hr => exact visit_covered (all_covered hr hcov)
  | nothing | register | login | logout | exit | setStatus | deletePin => rfl

theorem entries_disconnect : (disconnect σ s).clientChatRooms = σ.clientChatRooms := by
  unfold disconnect
  dsimp only
  split <;> rfl

/-- **One step**: the entries change as the rooms do. -/
theorem entries_step (hst : step σ a = some (σ', sent)) (hcov : Covered σ a) (t : Int) :
    σ'.clientChatRooms[t]? = roomsAfter σ ⟨a, sent⟩ (σ.clientChatRooms[·]?) t := by
  cases a with
  | connect s =>
    obtain ⟨_, rfl, _⟩ := step_connect hst
    unfold roomsAfter
    dsimp only
    split
    · rename_i hts
      rw [hts]
      exact ExtTreeMap.getElem?_eq_none hcov
    · rfl
  | disconnect s =>
    obtain ⟨_, rfl, _⟩ := step_disconnect hst
    rw [entries_disconnect]
    rfl
  | line s l =>
    obtain ⟨_, _, hc⟩ := step_line hst
    exact entries_line (hc ▸ handleCommand_outcome σ s l) hcov t

theorem frame_step (hst : step σ a = some (σ', sent)) (hcov : Covered σ a) : FrameStep σ a σ' := by
  intro b hb
  rw [entries_step hst hcov b]
  cases a with
  | connect s => exact if_neg hb
  | disconnect s => rfl
  | line s l =>
    unfold roomsAfter closing
    dsimp only
    cases request σ s l with
    | enter r => exact if_neg hb
    | leave r => exact if_neg hb
    | _ => rfl

/-! ## Lines that are no command -/

theorem handleCommand_unknown (hr : σ.clientChatRooms[s]? = none) (hw : word l = some token)
    (ht : token ∉ commands) :
    handleCommand σ s l = some (σ, [sendMessage s "Error: Unknown command\n% "]) := by
  simp only [commands, List.mem_cons, not_or] at ht
  obtain ⟨h1, h2, h3, h4, h5, h6, h7, h8, h9, h10, _⟩ := ht
  rw [handleCommand_eq, hw]
  dsimp only
  unfold dispatch
  rw [if_neg h1, if_neg h2, if_neg h3, if_neg (fun h => h4 h.1), if_neg h5, if_neg h6, if_neg h7, if_neg h8,
    if_neg h9, if_neg h10, hr]

/-! ## Runs -/

theorem Outcome.enter_range {o : Option (Server × List Send)} (h : Outcome σ s l (.enter r) o) :
    1 ≤ r ∧ r ≤ 100 := by
  cases h with
  | enter _ _ _ h1 h100 => exact ⟨h1, h100⟩

theorem entryAfter_some {room : Option Int} (h : entryAfter s t room q = some r) : room = some r ∨ q = .enter r := by
  unfold entryAfter at h
  split at h
  · split at h
    · exact .inr (congrArg Request.enter (Option.some.inj h))
    · exact .inl h
  · split at h
    · cases h
    · exact .inl h
  · split at h
    · cases h
    · exact .inl h
  · exact .inl h

/-- A client is only given a room by entering it. -/
theorem roomsAfter_range {e : Event} {room : Int → Option Int} (h : ∀ t r, room t = some r → 1 ≤ r ∧ r ≤ 100)
    (ht : roomsAfter σ e room t = some r) : 1 ≤ r ∧ r ≤ 100 := by
  unfold roomsAfter at ht
  split at ht
  · split at ht
    · cases ht
    · exact h t r ht
  · rename_i s l _
    rcases entryAfter_some ht with ht | hq
    · exact h t r ht
    · exact (hq ▸ handleCommand_outcome σ s l).enter_range
  · exact h t r ht

/-- The chat server, as long as every client whose entry is read has one, with the rooms entered and left. -/
def coveredChat : System (Server × (Int → Option Int)) Event :=
  (chat.restrict fun σ e => Covered σ e.act).ghost (fun _ => none) roomsAfter

/-- **Membership.** As long as every client whose entry is read has one: an entry is the room that its client has
entered and not left, a step of one client leaves the entries of the others alone, but for a close, and a client that
is in no room and sends a line that is no command is told so, and posts nothing. -/
theorem membership_kept {room : Int → Option Int} (h : coveredChat.Reachable (σ, room)) :
    (∀ b r, σ.clientChatRooms[b]? = some r → room b = some r ∧ 1 ≤ r ∧ r ≤ 100) ∧
    (∀ e σ', Covered σ e.act → chat.step σ e σ' → FrameStep σ e.act σ') ∧
    ∀ c l token, c ∈ σ.loggedInClients → room c = none → word l = some token → token ∉ commands →
      handleCommand σ c l = some (σ, [sendMessage c "Error: Unknown command\n% "]) := by
  have hinv : (∀ t, σ.clientChatRooms[t]? = room t) ∧ ∀ t r, room t = some r → 1 ≤ r ∧ r ≤ 100 := by
    refine h.invariant (P := fun p => (∀ t, p.1.clientChatRooms[t]? = p.2 t) ∧
      ∀ t r, p.2 t = some r → 1 ≤ r ∧ r ≤ 100) ?_ ?_
    · rintro ⟨σ, room⟩ ⟨h0, hroom⟩
      cases h0
      cases hroom
      exact ⟨fun t => ExtTreeMap.getElem?_empty, fun t r hr => by cases hr⟩
    · rintro ⟨σ, room⟩ e ⟨σ', room'⟩ _ ⟨heq, hrange⟩ ⟨⟨hcov, hst⟩, hroom⟩
      have hroom : room' = roomsAfter σ e room := hroom
      subst hroom
      refine ⟨fun t => ?_, fun t r ht => roomsAfter_range hrange ht⟩
      rw [show room = (σ.clientChatRooms[·]?) from funext fun t => (heq t).symm]
      exact entries_step hst hcov t
  refine ⟨fun b r hb => ?_, fun e σ' hcov hst => frame_step hst hcov, fun c l token _ hroom hw ht => ?_⟩
  · have hr := (hinv.1 b).symm.trans hb
    exact ⟨hr, hinv.2 b r hr⟩
  · exact handleCommand_unknown ((hinv.1 c).trans hroom) hw ht

theorem covered_line (hq : request σ s l = q) (h : RequestCovered σ s q) : Covered σ (.line s l) := by
  subst hq
  exact h

/-- A `register` and a `login` read no entry. -/
theorem covered_free {u p : Text} (hq : request σ s l = .register u p ∨ request σ s l = .login u) :
    Covered σ (.line s l) := by
  rcases hq with hq | hq <;> exact covered_line hq trivial

/-- To enter and to leave a room reads the entries of the others. -/
theorem covered_entries {ts : List Int} (hq : request σ s l = .leave r ∨ request σ s l = .enter r)
    (hlist : σ.loggedInClients.toList = ts) (hts : ∀ t ∈ ts, t ≠ s → t ∈ σ.clientChatRooms) :
    Covered σ (.line s l) := by
  have hall : ∀ t ∈ σ.loggedInClients, t ≠ s → t ∈ σ.clientChatRooms := fun t ht =>
    hts t (hlist ▸ ExtTreeSet.mem_toList.2 ht)
  rcases hq with hq | hq <;> exact covered_line hq hall

/-- Tom is in room 1 and Ann in room 2. Ann leaves it, and Tom stays. -/
theorem membership_kept_two :
    let σ₁ := after (after (after start [.connect 4]) [.line 4 "register tom pw\n"]) [.line 4 "login tom pw\n"]
    let σ₂ := after (after σ₁ [.line 4 "enter-chat-room 1\n"]) [.connect 5]
    let σ₃ := after (after σ₂ [.line 5 "register ann pw\n"]) [.line 5 "login ann pw\n"]
    let σ := after σ₃ [.line 5 "enter-chat-room 2\n"]
    let σ' := after σ [.line 5 "/exit-chat-room\n"]
    ∃ room, coveredChat.Reachable (σ, room) ∧ room 4 = some 1 ∧ room 5 = some 2 ∧
      σ'.clientChatRooms[(5 : Int)]? = none ∧ FrameStep σ (.line 5 "/exit-chat-room\n") σ' := by
  intro σ₁ σ₂ σ₃ σ σ'
  have go : ∀ {σ : Server} {a : Act}, (chat.restrict fun σ e => Covered σ e.act).Reachable σ → Covered σ a →
      (step σ a).isSome → (chat.restrict fun σ e => Covered σ e.act).Reachable (after σ [a]) :=
    reachable_restrict_after
  have h1 := go (.init rfl) (a := .connect 4) ExtTreeMap.not_mem_empty (by decide)
  have h2 := go h1 (a := .line 4 "register tom pw\n") (covered_free (u := "tom") (p := "pw") (.inl (by decide +kernel)))
    (by decide +kernel)
  have h3 := go h2 (a := .line 4 "login tom pw\n") (covered_free (u := "tom") (p := []) (.inr (by decide +kernel)))
    (by decide +kernel)
  have hone : σ₁.loggedInClients.toList = [4] := by decide +kernel
  have h4 := go (σ := σ₁) h3 (a := .line 4 "enter-chat-room 1\n")
    (covered_entries (r := 1) (.inr (by decide +kernel)) hone (by decide +kernel)) (by decide +kernel)
  have h5 : (chat.restrict fun σ e => Covered σ e.act).Reachable σ₂ :=
    go h4 (a := .connect 5) (show _ ∉ _ by decide +kernel) (by decide +kernel)
  -- what there is to know of Ann's lines
  obtain ⟨hregister, hregisters⟩ : request σ₂ 5 "register ann pw\n" = .register "ann" "pw" ∧
      (step σ₂ (.line 5 "register ann pw\n")).isSome := by decide +kernel
  obtain ⟨hlogin, hlogins⟩ : request (after σ₂ [.line 5 "register ann pw\n"]) 5 "login ann pw\n" = .login "ann" ∧
      (step (after σ₂ [.line 5 "register ann pw\n"]) (.line 5 "login ann pw\n")).isSome := by decide +kernel
  obtain ⟨henter, henters, hlist, hcells⟩ : request σ₃ 5 "enter-chat-room 2\n" = .enter 2 ∧
      (step σ₃ (.line 5 "enter-chat-room 2\n")).isSome ∧ σ₃.loggedInClients.toList = [4, 5] ∧
      ∀ t ∈ [4, 5], t ≠ 5 → t ∈ σ₃.clientChatRooms := by decide +kernel
  obtain ⟨hleave, hleaves, hlist', hcells'⟩ : request σ 5 "/exit-chat-room\n" = .leave 2 ∧
      (step σ (.line 5 "/exit-chat-room\n")).isSome ∧ σ.loggedInClients.toList = [4, 5] ∧
      ∀ t ∈ [4, 5], t ≠ 5 → t ∈ σ.clientChatRooms := by decide +kernel
  obtain ⟨hfour, hfive, hleft⟩ : σ.clientChatRooms[(4 : Int)]? = some 1 ∧ σ.clientChatRooms[(5 : Int)]? = some 2 ∧
      σ'.clientChatRooms[(5 : Int)]? = none := by decide +kernel
  clear_value σ₂
  have h6 := go h5 (covered_free (.inl hregister)) hregisters
  have h7 := go h6 (covered_free (p := []) (.inr hlogin)) hlogins
  have h8 : (chat.restrict fun σ e => Covered σ e.act).Reachable σ :=
    go h7 (covered_entries (.inr henter) hlist hcells) henters
  obtain ⟨room, hroom⟩ : ∃ room, coveredChat.Reachable (σ, room) := h8.exists_ghost
  obtain ⟨hentry, hframe, _⟩ := membership_kept hroom
  obtain ⟨sent, hst⟩ := step_after σ (.line 5 "/exit-chat-room\n") hleaves
  exact ⟨room, hroom, (hentry 4 1 hfour).1, (hentry 5 2 hfive).1, hleft,
    hframe ⟨.line 5 "/exit-chat-room\n", sent⟩ σ' (covered_entries (.inl hleave) hlist' hcells') hst⟩

/-- Tom enters room 1 while Ann, who is logged in, is in no room. Ann is then in room 0, and what she says is posted
there. -/
theorem membership_broken :
    let σ := after start [.connect 4, .connect 5, .line 4 "register tom pw\n", .line 4 "login tom pw\n",
      .line 5 "register ann pw\n", .line 5 "login ann pw\n"]
    let a := .line 4 "enter-chat-room 1\n"
    let σ' := after σ [a]
    chat.Reachable σ ∧ (∃ sent, step σ a = some (σ', sent)) ∧ ¬ FrameStep σ a σ' ∧
      σ'.clientChatRooms[(5 : Int)]? = some 0 ∧
      (after σ' [.line 5 "hi\n"]).chatRooms[(0 : Int)]? = some ["[ann]: hi".toList] := by
  intro σ a σ'
  obtain ⟨h5, h5', hcl, hsome, hposted⟩ : σ.clientChatRooms[(5 : Int)]? = none ∧
      σ'.clientChatRooms[(5 : Int)]? = some 0 ∧ closing σ a = none ∧ (step σ a).isSome ∧
      (after σ' [.line 5 "hi\n"]).chatRooms[(0 : Int)]? = some ["[ann]: hi".toList] := by decide +kernel
  refine ⟨reachable_after _, step_after _ _ hsome, fun h => ?_, h5', hposted⟩
  have hb := h 5 (by decide)
  rw [hcl, h5, h5'] at hb
  cases hb

end IntroNP.Chat
