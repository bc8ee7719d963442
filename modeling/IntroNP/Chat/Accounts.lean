import IntroNP.Chat.Directory
import IntroNP.Chat.Session

/-!
# The chat server: its session tables are a directory

`Represents σ d` says that the five session tables of the server hold the directory `d`: the passwords, who is logged in
where, and the statuses.

- one lemma for each operation on the tables (`Represents.kept`, `.register`, `.login`, `.endSession`, `.setStatus`);
- `register_answer` .. `listUser_answer`: each session command does what the directory says, and answers it;
- `sessions_refine`: every run of the server is a run of the directory, with the same events and answers.
-/

namespace IntroNP.Chat

open Std

variable {σ σ' : Server} {d d' : Directory} {s t : Int} {l u v p st : Text} {q : Request} {sent : List Send}

/-- The name that a socket is logged in under. -/
def Server.userAt (σ : Server) (s : Int) : Option Text := if s ∈ σ.loggedInClients then some (σ.username s) else none

/-- The session tables hold the directory. -/
structure Represents (σ : Server) (d : Directory) : Prop where
  inv : SessionInv σ
  passwords : d.accounts.map (fun _ a => a.password) = σ.registeredUsers
  users : ∀ s, d.user s = σ.userAt s
  statuses : ∀ (u : Text) (a : Account), d.accounts[u]? = some a → a.status = σ.clientStatuses.getD u "offline"

/-! ## Reading the directory -/

theorem Represents.password (h : Represents σ d) (u : Text) :
    (d.accounts[u]?).map (·.password) = σ.registeredUsers[u]? := by
  rw [← h.passwords, ExtTreeMap.getElem?_map]

theorem Represents.mem_accounts (h : Represents σ d) : u ∈ d.accounts ↔ u ∈ σ.registeredUsers := by
  rw [← h.passwords, ExtTreeMap.mem_map]

theorem Represents.user_none (h : Represents σ d) : d.user s = none ↔ s ∉ σ.loggedInClients := by
  rw [h.users, Server.userAt]
  split
  · rename_i hs
    exact iff_of_false (fun h => by cases h) (fun hno => hno hs)
  · rename_i hs
    exact iff_of_true rfl hs

theorem Represents.user_some (h : Represents σ d) (hs : s ∈ σ.loggedInClients) : d.user s = some (σ.username s) := by
  rw [h.users, Server.userAt, if_pos hs]

/-- An account is in use when its name is. -/
theorem Represents.presence_none {a : Account} (h : Represents σ d) (ha : d.accounts[u]? = some a) :
    a.presence = none ↔ u ∉ σ.loggedInUsernames := by
  rw [h.inv.names]
  constructor
  · rintro hp ⟨s, hs, hu⟩
    have hus : d.user s = some u := by
      rw [h.user_some hs, ← h.inv.username_eq hs, hu]
    obtain ⟨b, hb, hbs⟩ := Directory.user_eq_some.1 hus
    rw [ha] at hb
    cases hb
    rw [Account.socket, hp] at hbs
    cases hbs
  · intro hno
    cases hp : a.presence with
    | none => rfl
    | some x =>
      have hus : d.user x.socket = some u := Directory.user_eq_some.2 ⟨a, ha, by rw [Account.socket, hp]; rfl⟩
      have hin : x.socket ∈ σ.loggedInClients := by
        by_contra hout
        rw [h.user_none.2 hout] at hus
        cases hus
      rw [h.user_some hin] at hus
      exact absurd ⟨x.socket, hin, by rw [h.inv.username_eq hin, hus]⟩ hno

/-! ## The operations -/

/-- Tables that agree hold the same directory. -/
theorem Represents.congr (h : Represents σ d) (hinv : SessionInv σ') (hreg : σ'.registeredUsers = σ.registeredUsers)
    (hin : σ'.loggedInClients = σ.loggedInClients) (hname : ∀ s, σ'.username s = σ.username s)
    (hst : ∀ u : Text, σ'.clientStatuses[u]? = σ.clientStatuses[u]?) : Represents σ' d := by
  refine ⟨hinv, h.passwords.trans hreg.symm, fun s => ?_, fun u a ha => ?_⟩
  · rw [h.users, Server.userAt, Server.userAt, hin, hname]
  · rw [h.statuses u a ha, ExtTreeMap.getD_eq_getD_getElem?, ExtTreeMap.getD_eq_getD_getElem?, hst]

theorem Represents.kept (h : Represents σ d) (hk : SessionKept σ σ') : Represents σ' d := by
  refine h.congr (h.inv.kept hk) hk.registered hk.clients (fun s => hk.usernames.getD_eq) fun u => ?_
  -- a name in use has a status already
  rcases hk.statuses u with hu | ⟨⟨s, hs, rfl⟩, hno, _⟩
  · exact hu
  · have hin := h.inv.status _ ((h.inv.names _).2 ⟨s, hs, h.inv.username_eq hs⟩)
    rw [ExtTreeMap.mem_iff_isSome_getElem?, hno] at hin
    cases hin

theorem Represents.register (h : Represents σ d) (hnew : u ∉ σ.registeredUsers) :
    Represents { σ with registeredUsers := σ.registeredUsers.insert u p } (d.register u p) := by
  refine ⟨h.inv.register hnew, ?_, fun s => ?_, fun v a ha => ?_⟩
  · refine ExtTreeMap.ext_getElem? fun v => ?_
    unfold Directory.register
    dsimp only
    rw [ExtTreeMap.getElem?_map, ExtTreeMap.getElem?_insert, ExtTreeMap.getElem?_insert, ← h.password]
    split <;> rfl
  · exact (Directory.user_register fun hu => hnew (h.mem_accounts.1 hu)).trans (h.users s)
  · unfold Directory.register at ha
    dsimp only at ha
    by_cases hv : u = v
    · subst hv
      rw [ExtTreeMap.getElem?_insert_self] at ha
      cases ha
      have hno : u ∉ σ.clientStatuses := fun hu => hnew (h.inv.known u hu)
      exact (ExtTreeMap.getD_eq_fallback hno).symm
    · rw [getElem?_insert_of_ne hv] at ha
      exact h.statuses v a ha

/-- The account of a name in use. -/
theorem Represents.mem_username (h : Represents σ d) (hs : s ∈ σ.loggedInClients) : σ.username s ∈ d.accounts :=
  h.mem_accounts.2 (h.inv.username_registered hs).2

/-- An account is used in another way, and the tables say so. -/
theorem Represents.use (h : Represents σ d) {x : Option Presence}
    {hx : ∀ p ∈ x, ∀ (v : Text) (a : Account), d.accounts[v]? = some a → a.socket = some p.socket → v = u}
    (hinv : SessionInv σ') (hreg : σ'.registeredUsers = σ.registeredUsers) (hu : u ∈ d.accounts)
    (husers : ∀ t, σ'.userAt t =
      if x.map (·.socket) = some t then some u else if σ.userAt t = some u then none else σ.userAt t)
    (hself : σ'.clientStatuses.getD u "offline" = shownStatus x)
    (hother : ∀ v, v ≠ u → σ'.clientStatuses[v]? = σ.clientStatuses[v]?) : Represents σ' (d.use u x hx) := by
  refine ⟨hinv, ?_, fun t => ?_, fun v a ha => ?_⟩
  · rw [Directory.use_passwords, h.passwords, hreg]
  · rw [Directory.user_use hu, h.users, husers]
  · rw [Directory.use_accounts] at ha
    by_cases hv : v = u
    · subst hv
      rw [if_pos rfl] at ha
      obtain ⟨b, _, rfl⟩ := Option.map_eq_some_iff.1 ha
      exact hself.symm
    · rw [if_neg hv] at ha
      rw [h.statuses v a ha, ExtTreeMap.getD_eq_getD_getElem?, ExtTreeMap.getD_eq_getD_getElem?, hother v hv]

theorem Represents.login (h : Represents σ d) (hout : s ∉ σ.loggedInClients) (hu : u ≠ [])
    (hreg : σ.registeredUsers[u]? = some p) (hfree : u ∉ σ.loggedInUsernames) (ho : s ∈ σ.openSockets) :
    Represents { σ with
      loggedInClients := σ.loggedInClients.insert s
      clientUsernames := σ.clientUsernames.insert s u
      clientStatuses := σ.clientStatuses.insert u "online"
      loggedInUsernames := σ.loggedInUsernames.insert u } (d.login s u (h.user_none.2 hout)) := by
  have hmem : u ∈ d.accounts := by
    rw [h.mem_accounts, ExtTreeMap.mem_iff_isSome_getElem?, hreg]
    rfl
  refine h.use (h.inv.login hout hu hreg hfree ho) rfl hmem (fun t => ?_) ?_ fun v hv =>
    getElem?_insert_of_ne (Ne.symm hv)
  · unfold Server.userAt Server.username
    dsimp only [Option.map_some]
    by_cases hst : s = t
    · subst hst
      rw [if_pos rfl, if_pos (mem_set_insert.2 (.inl rfl)), ExtTreeMap.getD_insert_self]
    · rw [if_neg fun e => hst (Option.some.inj e), ExtTreeMap.getD_insert,
        if_neg fun e => hst (Std.compare_eq_iff_eq.1 e)]
      by_cases ht : t ∈ σ.loggedInClients
      · -- nobody else has the name
        have hne : ¬ some (σ.clientUsernames.getD t []) = some u := fun e =>
          hfree ((h.inv.names u).2 ⟨t, ht, (h.inv.username_eq ht).trans e⟩)
        rw [if_pos (mem_set_insert.2 (.inr ht)), if_pos ht, if_neg hne]
      · have hnot : t ∉ σ.loggedInClients.insert s := fun hm => (mem_set_insert.1 hm).elim (fun e => hst e.symm) ht
        rw [if_neg hnot, if_neg ht, if_neg (by simp)]
  · exact ExtTreeMap.getD_insert_self

/-- Who is logged in under the name of `s`. -/
theorem userAt_username (h : SessionInv σ) (hs : s ∈ σ.loggedInClients) :
    σ.userAt t = some (σ.username s) ↔ t = s := by
  unfold Server.userAt
  constructor
  · intro ht
    split at ht
    · rename_i hin
      exact h.unique t hin s hs (by rw [h.username_eq hin, ht, h.username_eq hs])
    · cases ht
  · rintro rfl
    exact if_pos hs

theorem Represents.endSession (h : Represents σ d) (hs : s ∈ σ.loggedInClients) :
    Represents (σ.endSession s) (d.logout s) := by
  unfold Directory.logout
  split
  · rename_i hnone
    exact absurd hs (h.user_none.1 hnone)
  · rename_i u hu
    rw [h.user_some hs] at hu
    cases hu
    refine h.use (h.inv.endSession hs) rfl (h.mem_username hs) (fun t => ?_) ExtTreeMap.getD_insert_self fun v hv =>
      getElem?_insert_of_ne (Ne.symm hv)
    rw [if_neg (by simp)]
    by_cases hts : t = s
    · rw [if_pos ((userAt_username h.inv hs).2 hts)]
      unfold Server.userAt Server.endSession
      exact if_neg fun hm => (mem_set_erase.1 hm).1 hts
    · rw [if_neg fun e => hts ((userAt_username h.inv hs).1 e)]
      unfold Server.userAt Server.endSession Server.username
      dsimp only
      rw [ExtTreeMap.getD_erase, if_neg fun e => hts (Std.compare_eq_iff_eq.1 e).symm, getD_insertIfNew]
      simp only [mem_set_erase, hts, ne_eq, not_false_eq_true, true_and]

/-- A socket that uses no account has nothing to end. -/
theorem Represents.logout_out (h : Represents σ d) (hs : s ∉ σ.loggedInClients) : d.logout s = d := by
  unfold Directory.logout
  split
  · rfl
  · rename_i u hu
    rw [h.user_none.2 hs] at hu
    cases hu

theorem Represents.setStatus (h : Represents σ d) (hs : s ∈ σ.loggedInClients)
    (hst : st = "online" ∨ st = "offline" ∨ st = "busy") :
    Represents { σ.touchUsername s with clientStatuses := σ.clientStatuses.insert (σ.username s) st }
      (d.setStatus s (σ.username s) st (h.user_some hs)) := by
  have hname : (σ.touchUsername s).username s = σ.username s := getD_insertIfNew
  have hinv := hname ▸ (h.inv.kept (quiet_touchUsername (s := s)).session).setStatus hs hst
  refine h.use hinv rfl (h.mem_username hs) (fun t => ?_) ExtTreeMap.getD_insert_self fun v hv =>
    getElem?_insert_of_ne (Ne.symm hv)
  have husers : Server.userAt { σ.touchUsername s with clientStatuses := σ.clientStatuses.insert (σ.username s) st } t =
      σ.userAt t := by
    unfold Server.userAt Server.username Server.touchUsername
    dsimp only
    rw [getD_insertIfNew]
  rw [husers]
  dsimp only [Option.map_some]
  by_cases hts : t = s
  · rw [if_pos (congrArg some hts.symm), (userAt_username h.inv hs).2 hts]
  · rw [if_neg fun e => hts (Option.some.inj e).symm, if_neg fun e => hts ((userAt_username h.inv hs).1 e)]

/-! ## The session commands -/

/-- A command does what the directory says, answers it, and leaves `in_flag` alone. -/
def Answers (σ : Server) (s : Int) (next : Server × List Send) (r : Directory × List Text) : Prop :=
  next.2 = sendAll s r.2 ∧ Represents next.1 r.1 ∧ next.1.inFlag = σ.inFlag

theorem register_answer (h : Represents σ d) : Answers σ s (register σ s (rest l)) (d.onRegister l) := by
  unfold register Directory.onRegister arg arg'
  dsimp only
  cases hu : (strtok blanks (rest l)).1 with
  | none => exact ⟨rfl, h, rfl⟩
  | some u =>
    cases hp : (strtok blanks (strtok blanks (rest l)).2).1 with
    | none => exact ⟨rfl, h, rfl⟩
    | some p =>
      dsimp only
      by_cases hreg : u ∈ σ.registeredUsers
      · rw [if_pos hreg, if_pos (h.mem_accounts.2 hreg)]
        exact ⟨rfl, h, rfl⟩
      · rw [if_neg hreg, if_neg fun hm => hreg (h.mem_accounts.1 hm)]
        exact ⟨rfl, h.register hreg, rfl⟩

/-- An account that one can log in to. -/
theorem Represents.free_account (h : Represents σ d) :
    d.accounts[u]? = some ⟨p, none⟩ ↔ σ.registeredUsers[u]? = some p ∧ u ∉ σ.loggedInUsernames := by
  rw [← h.password]
  constructor
  · intro ha
    rw [ha]
    exact ⟨rfl, (h.presence_none ha).1 rfl⟩
  · rintro ⟨hp, hfree⟩
    obtain ⟨a, ha, rfl⟩ := Option.map_eq_some_iff.1 hp
    rw [ha, ← (h.presence_none ha).2 hfree]

theorem login_answer (h : Represents σ d) (ho : s ∈ σ.openSockets) :
    Answers σ s (login σ s (rest l)) (d.onLogin s l) := by
  unfold login Directory.onLogin
  by_cases hs : s ∈ σ.loggedInClients
  · rw [if_pos hs, dif_neg fun hno => h.user_none.1 hno hs]
    exact ⟨rfl, h, rfl⟩
  rw [if_neg hs, dif_pos (h.user_none.2 hs)]
  unfold arg arg'
  dsimp only
  cases hu : (strtok blanks (rest l)).1 with
  | none => exact ⟨rfl, h, rfl⟩
  | some u =>
    cases hp : (strtok blanks (strtok blanks (rest l)).2).1 with
    | none => exact ⟨rfl, h, rfl⟩
    | some p =>
      dsimp only
      by_cases hok : d.accounts[u]? = some ⟨p, none⟩
      · obtain ⟨hreg, hfree⟩ := h.free_account.1 hok
        rw [if_neg (not_not.2 hreg), if_neg hfree, if_pos hok]
        exact ⟨rfl, h.login hs (strtok_ne_nil hu) hreg hfree ho, rfl⟩
      · rw [if_neg hok]
        by_cases hreg : σ.registeredUsers[u]? = some p
        · have hused : u ∈ σ.loggedInUsernames := of_not_not fun hfree => hok (h.free_account.2 ⟨hreg, hfree⟩)
          rw [if_neg (not_not.2 hreg), if_pos hused]
          exact ⟨rfl, h, rfl⟩
        · rw [if_pos hreg]
          exact ⟨rfl, h, rfl⟩

theorem logout_answer (h : Represents σ d) : Answers σ s (logout σ s (rest l)) (d.onLogout s l) := by
  unfold logout Directory.onLogout arg
  cases (strtok blanks (rest l)).1 with
  | some _ => exact ⟨rfl, h, rfl⟩
  | none =>
    dsimp only
    by_cases hs : s ∈ σ.loggedInClients
    · rw [if_neg (not_not.2 hs), h.user_some hs]
      exact ⟨rfl, h.endSession hs, rfl⟩
    · rw [if_pos hs, h.user_none.2 hs]
      exact ⟨rfl, h, rfl⟩

theorem whoami_answer (h : Represents σ d) : Answers σ s (whoami σ s (rest l)) (d, d.onWhoami s l) := by
  unfold whoami Directory.onWhoami arg
  cases (strtok blanks (rest l)).1 with
  | some _ => exact ⟨rfl, h, rfl⟩
  | none =>
    dsimp only
    by_cases hs : s ∈ σ.loggedInClients
    · rw [if_neg (not_not.2 hs), h.user_some hs]
      exact ⟨rfl, h.kept (quiet_touchUsername (s := s)).session, rfl⟩
    · rw [if_pos hs, h.user_none.2 hs]
      exact ⟨rfl, h, rfl⟩

theorem setStatus_answer (h : Represents σ d) : Answers σ s (setStatus σ s (rest l)) (d.onSetStatus s l) := by
  unfold setStatus
  cases hl : arg l with
  | none =>
    unfold Directory.onSetStatus
    rw [hl]
    unfold arg at hl
    rw [hl]
    exact ⟨rfl, h, rfl⟩
  | some st =>
    by_cases hs : s ∈ σ.loggedInClients
    · rw [Directory.onSetStatus_in hl (h.user_some hs)]
      unfold arg at hl
      rw [hl]
      dsimp only
      rw [if_neg (not_not.2 hs)]
      by_cases hst : st = "online".toList ∨ st = "offline".toList ∨ st = "busy".toList
      · rw [if_pos hst, if_pos hst]
        exact ⟨rfl, h.setStatus hs hst, rfl⟩
      · rw [if_neg hst, if_neg hst]
        exact ⟨rfl, h.kept (quiet_touchUsername (s := s)).session, rfl⟩
    · rw [Directory.onSetStatus_out hl (h.user_none.2 hs)]
      unfold arg at hl
      rw [hl]
      dsimp only
      rw [if_pos hs]
      exact ⟨rfl, h, rfl⟩

/-- The list of the server is that of the directory. -/
theorem Represents.listing (h : Represents σ d) : (σ.registeredUsers.toList.flatMap fun (u, _) =>
    sendAll s [u, " ", σ.clientStatuses.getD u "offline", "\n"]) = sendAll s d.listing := by
  unfold Directory.listing sendAll
  rw [← h.passwords, ExtTreeMap.toList_map, List.flatMap_map, List.map_flatMap]
  refine List.flatMap_congr fun e he => ?_
  rw [h.statuses e.1 e.2 (ExtTreeMap.mem_toList_iff_getElem?_eq_some.1 he)]

theorem listUser_answer (h : Represents σ d) : Answers σ s (listUser σ s (rest l)) (d, d.onListUser s l) := by
  unfold listUser Directory.onListUser arg
  cases (strtok blanks (rest l)).1 with
  | some _ => exact ⟨rfl, h, rfl⟩
  | none =>
    dsimp only
    by_cases hs : s ∈ σ.loggedInClients
    · rw [if_neg (not_not.2 hs), h.user_some hs]
      refine ⟨?_, h, rfl⟩
      dsimp only
      rw [h.listing, sendAll, sendAll, List.map_append]
      rfl
    · rw [if_pos hs, h.user_none.2 hs]
      exact ⟨rfl, h, rfl⟩

theorem exit_answer (h : Represents σ d) : Answers σ s (exit σ s (rest l)) (d.onExit s l) := by
  unfold exit Directory.onExit arg
  cases (strtok blanks (rest l)).1 with
  | some _ => exact ⟨rfl, h, rfl⟩
  | none =>
    dsimp only
    by_cases hs : s ∈ σ.loggedInClients
    · rw [if_pos hs, h.user_some hs]
      have hend := h.endSession hs
      have hclose := hend.inv.close fun hm => (mem_set_erase.1 hm).1 rfl
      exact ⟨rfl, hend.congr hclose rfl rfl (fun _ => rfl) fun _ => rfl, rfl⟩
    · rw [if_neg hs, h.user_none.2 hs]
      have htouch := h.kept (quiet_touchUsername (s := s)).session
      exact ⟨rfl, htouch.congr (htouch.inv.close hs) rfl rfl (fun _ => rfl) fun _ => rfl, rfl⟩

/-! ## The other commands -/

/-- The requests that change the session tables. -/
def Request.OfSession : Request → Prop
  | .register .. | .login _ | .logout | .exit | .setStatus _ => True
  | .nothing | .enter _ | .close .. | .pin .. | .pinNull | .deletePin _ | .leave _ | .listRoom _ | .post .. => False

theorem enterRequest_other : ¬ (enterRequest σ s l).OfSession := by
  unfold enterRequest
  split
  · split <;> exact id
  · exact id

theorem closeRequest_other : ¬ (closeRequest σ s l).OfSession := by
  unfold closeRequest
  split
  · split <;> exact id
  · exact id

theorem roomRequest_other {r : Int} {token : Text} : ¬ (roomRequest r token l).OfSession := by
  unfold roomRequest
  split
  · split
    · split
      · exact id
      · split <;> exact id
    · split
      · exact id
      · split
        · exact id
        · split <;> exact id
  · split
    · exact id
    · split <;> exact id

/-- Any other request leaves the directory alone. -/
theorem Represents.line_other {next : Server × List Send} (h : Represents σ d) (hc : Outcome σ s l q (some next))
    (hq : ¬ q.OfSession) : Represents next.1 d := by
  cases hc with
  | nothing hquiet => exact h.kept hquiet.session
  | register | login | logout | exit | setStatus => exact absurd trivial hq
  | enter => exact h.kept session_enterRoom
  | close => exact h.kept ⟨rfl, rfl, rfl, rfl, .insertIfNew trivial, .refl _⟩
  | pin => exact h.kept ⟨rfl, rfl, rfl, rfl, .insertIfNew trivial, .refl _⟩
  | deletePin => exact h.kept session_deletePin
  | leave hr => exact h.kept (session_exitChatRoom hr)
  | listRoom => exact h.kept session_listRoomUser
  | post => exact h.kept ⟨rfl, rfl, rfl, rfl, .insertIfNew trivial, .refl _⟩

/-! ## Every step -/

/-- A line that is for the rooms. -/
theorem Represents.line_rest {token : Text} (h : Represents σ d) (hw : word l = some token)
    (hstep : handleCommand σ s l = some (σ', sent)) (h1 : token ≠ "register".toList) (h2 : token ≠ "login".toList)
    (h3 : token ≠ "logout".toList) (h4 : ¬ (token = "exit".toList ∧ σ.inFlag = false)) (h5 : token ≠ "whoami".toList)
    (h6 : token ≠ "set-status".toList) (h7 : token ≠ "list-user".toList) :
    ∃ d', d.Step σ.inFlag ⟨.line s l, sent⟩ d' σ'.inFlag ∧ Represents σ' d' := by
  have hne : ∀ {w : Text}, token ≠ w → word l ≠ some w := fun hne he => hne (Option.some.inj (hw.symm.trans he))
  have hexit : ¬ (word l = some "exit".toList ∧ σ.inFlag = false) := fun ⟨he, hflag⟩ =>
    h4 ⟨Option.some.inj (hw.symm.trans he), hflag⟩
  have hnone : d.answer σ.inFlag s l = none := by
    unfold Directory.answer
    rw [if_neg (hne h1), if_neg (hne h2), if_neg (hne h3), if_neg hexit, if_neg (hne h5), if_neg (hne h6),
      if_neg (hne h7)]
  have hreq : ¬ (request σ s l).OfSession := by
    unfold request tokenRequest
    rw [hw]
    dsimp only
    rw [if_neg h1, if_neg h2, if_neg h3, if_neg h4, if_neg h5, if_neg h6, if_neg h7]
    split
    · exact enterRequest_other
    · split
      · exact id
      · split
        · exact closeRequest_other
        · split
          · exact roomRequest_other
          · exact id
  exact ⟨d, .other hnone, h.line_other (hstep ▸ handleCommand_outcome σ s l) hreq⟩

theorem Represents.line (h : Represents σ d) (ho : s ∈ σ.openSockets) (hstep : handleCommand σ s l = some (σ', sent)) :
    ∃ d', d.Step σ.inFlag ⟨.line s l, sent⟩ d' σ'.inFlag ∧ Represents σ' d' := by
  -- a session command does what the directory says
  have hcommand : ∀ {next : Server × List Send} {r : Directory × List Text}, Answers σ s next r →
      d.answer σ.inFlag s l = some r → handleCommand σ s l = some next →
      ∃ d', d.Step σ.inFlag ⟨.line s l, sent⟩ d' σ'.inFlag ∧ Represents σ' d' := by
    rintro ⟨_, _⟩ ⟨d', ts⟩ ⟨rfl, hrep, hflag⟩ hanswer hnext
    rw [hstep] at hnext
    cases hnext
    dsimp only at hflag
    exact ⟨d', hflag ▸ .command (hflag ▸ hanswer), hrep⟩
  cases hw : word l with
  | none =>
    rw [handleCommand_eq, hw] at hstep
    cases hstep
    exact ⟨d, .other (by rw [Directory.answer, hw]; rfl), h⟩
  | some token =>
    by_cases h1 : token = "register".toList
    · subst h1
      exact hcommand (register_answer h) (by rw [Directory.answer, hw]; rfl) (by rw [handleCommand_eq, hw]; rfl)
    by_cases h2 : token = "login".toList
    · subst h2
      exact hcommand (login_answer h ho) (by rw [Directory.answer, hw]; rfl) (by rw [handleCommand_eq, hw]; rfl)
    by_cases h3 : token = "logout".toList
    · subst h3
      exact hcommand (logout_answer h) (by rw [Directory.answer, hw]; rfl) (by rw [handleCommand_eq, hw]; rfl)
    by_cases h4 : token = "exit".toList ∧ σ.inFlag = false
    · obtain ⟨rfl, hflag⟩ := h4
      refine hcommand (exit_answer (l := l) h) ?_ ?_
      · rw [Directory.answer, hw, if_neg (by decide), if_neg (by decide), if_neg (by decide), if_pos ⟨rfl, hflag⟩]
      · rw [handleCommand_eq, hw]
        dsimp only
        rw [dispatch, if_neg (by decide), if_neg (by decide), if_neg (by decide), if_pos ⟨rfl, hflag⟩]
    by_cases h5 : token = "whoami".toList
    · subst h5
      exact hcommand (whoami_answer h) (by rw [Directory.answer, hw]; rfl) (by rw [handleCommand_eq, hw]; rfl)
    by_cases h6 : token = "set-status".toList
    · subst h6
      exact hcommand (setStatus_answer h) (by rw [Directory.answer, hw]; rfl) (by rw [handleCommand_eq, hw]; rfl)
    by_cases h7 : token = "list-user".toList
    · subst h7
      exact hcommand (listUser_answer h) (by rw [Directory.answer, hw]; rfl) (by rw [handleCommand_eq, hw]; rfl)
    · exact h.line_rest hw hstep h1 h2 h3 h4 h5 h6 h7

theorem Represents.connect (h : Represents σ d) : Represents (connect σ s).1 d :=
  h.congr h.inv.connect rfl rfl (fun _ => rfl) fun _ => rfl

theorem Represents.disconnect (h : Represents σ d) : Represents (disconnect σ s) (d.logout s) := by
  have hinv := h.inv.disconnect (s := s)
  unfold Chat.disconnect at hinv ⊢
  dsimp only at hinv ⊢
  by_cases hs : s ∈ σ.loggedInClients
  · rw [if_pos hs] at hinv ⊢
    exact (h.endSession hs).congr hinv rfl rfl (fun _ => rfl) fun _ => rfl
  · rw [if_neg hs] at hinv ⊢
    rw [h.logout_out hs]
    exact h.congr hinv rfl rfl (fun _ => rfl) fun _ => rfl

theorem represents_start : Represents start .empty := by
  refine ⟨sessionInv_start, ?_, fun s => ?_, fun u a ha => ?_⟩
  · exact ExtTreeMap.ext_getElem? fun u => by rw [ExtTreeMap.getElem?_map]; rfl
  · exact Directory.user_eq_none.2 fun u a ha => by cases ha
  · cases ha

/-- The server does to its session tables what the directory does. -/
theorem simulation_accounts : chat.Simulation accounts fun σ x => Represents σ x.1 ∧ σ.inFlag = x.2 where
  init σ h := ⟨(.empty, false), rfl, (show σ = start from h) ▸ ⟨represents_start, rfl⟩⟩
  step := by
    rintro σ ⟨a, sent⟩ σ' ⟨d, _⟩ ⟨h, rfl⟩ hst
    cases a with
    | connect s =>
      obtain ⟨_, rfl, rfl⟩ := step_connect hst
      exact ⟨(d, σ.inFlag), .connect, h.connect, rfl⟩
    | line s l =>
      obtain ⟨ho, _, hc⟩ := step_line hst
      obtain ⟨d', hd, hrep⟩ := h.line ho hc
      exact ⟨(d', σ'.inFlag), hd, hrep, rfl⟩
    | disconnect s =>
      obtain ⟨_, rfl, rfl⟩ := step_disconnect hst
      have hflag : (disconnect σ s).inFlag = σ.inFlag := by
        unfold Chat.disconnect
        dsimp only
        split <;> rfl
      exact ⟨(d.logout s, σ.inFlag), .disconnect, h.disconnect, hflag⟩

/-- A name that is registered has at most 15 characters, and so is in the string object itself. A longer one is on the
heap, and the reference through which the end of a session reads it is then to memory that has been freed. -/
def ShortName : Act → Prop
  | .line _ l => word l = some "register".toList → ∀ u ∈ arg l, u.length < 16
  | .connect _ | .disconnect _ => True

instance : DecidablePred ShortName
  | .line _ l => inferInstanceAs (Decidable (word l = some "register".toList → ∀ u ∈ arg l, u.length < 16))
  | .connect _ | .disconnect _ => .isTrue trivial

/-- **The session tables are a directory of accounts**, while names are short. Every run of the server, with all it
sends, is a run of the directory, and the tables hold the directory it ends in. -/
theorem sessions_refine {es : List Event} (hrun : (chat.restrict fun _ e => ShortName e.act).Run start es σ) :
    ∃ d, accounts.Run (.empty, false) es (d, σ.inFlag) ∧ Represents σ d := by
  obtain ⟨⟨d, _⟩, hd, hrep, rfl⟩ := simulation_accounts.run (t := (.empty, false)) hrun.of_restrict
    ⟨represents_start, rfl⟩
  exact ⟨d, hd, hrep⟩

/-- Three clients: the first has logged in and entered a room, the second has failed to log in to the same account, and
its `exit` was not heeded; the third is gone. -/
theorem sessions_refine_three :
    let σ := after start [.connect 4, .connect 5, .connect 6, .line 4 "register tom pw\n", .line 4 "login tom pw\n",
      .line 6 "exit\n", .line 4 "enter-chat-room 1\n", .line 5 "login tom pw\n", .line 5 "exit\n"]
    ∃ es d, accounts.Run (.empty, false) es (d, true) ∧ Represents σ d ∧ d.user 4 = some "tom".toList ∧
      d.user 5 = none ∧ 5 ∈ σ.openSockets ∧ 6 ∉ σ.openSockets := by
  intro σ
  obtain ⟨es, hrun⟩ := run_restrict_after (C := ShortName) [.connect 4, .connect 5, .connect 6,
    .line 4 "register tom pw\n", .line 4 "login tom pw\n", .line 6 "exit\n", .line 4 "enter-chat-room 1\n",
    .line 5 "login tom pw\n", .line 5 "exit\n"] start (by decide +kernel)
  obtain ⟨d, hd, hrep⟩ := sessions_refine hrun
  have hflag : σ.inFlag = true := by decide +kernel
  have htom : σ.userAt 4 = some "tom".toList := by decide +kernel
  have hnobody : σ.userAt 5 = none := by decide +kernel
  have hopen : 5 ∈ σ.openSockets ∧ 6 ∉ σ.openSockets := by decide +kernel
  exact ⟨es, d, hflag ▸ hd, hrep, (hrep.users 4).trans htom, (hrep.users 5).trans hnobody, hopen⟩

end IntroNP.Chat
