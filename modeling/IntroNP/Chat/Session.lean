import IntroNP.Chat.Rooms

/-!
# The chat server: sessions

The tables that say who is logged in, under which name and with which status stay in step in every run
(`sessionInv_reachable`): a socket that is logged in has a registered name, no two have the same, and the set of names
in use is exactly the set of their names.

- `SessionKept` is what every command that is not about sessions does to these tables: nothing, or default cells
  (`Outcome.session`);
- one lemma for each of the operations that do change them (`SessionInv.register`, `.login`, `.endSession`,
  `.setStatus`).
-/

namespace IntroNP.Chat

open Std

/-- The laws of the session tables. -/
structure SessionLaw (σ : Server) : Prop where
  /-- Every socket that is logged in has a name, and it is a registered one. -/
  named : ∀ s ∈ σ.loggedInClients, ∃ u, σ.clientUsernames[s]? = some u ∧ u ≠ [] ∧ u ∈ σ.registeredUsers
  /-- No two sockets that are logged in have the same name. -/
  unique : ∀ s ∈ σ.loggedInClients, ∀ t ∈ σ.loggedInClients,
    σ.clientUsernames[s]? = σ.clientUsernames[t]? → s = t
  /-- The names in use are the names of the sockets that are logged in. -/
  names : ∀ u, u ∈ σ.loggedInUsernames ↔ ∃ s ∈ σ.loggedInClients, σ.clientUsernames[s]? = some u
  /-- A registered name that is not in use has no status, or is offline. -/
  offline : ∀ u ∈ σ.registeredUsers, u ∉ σ.loggedInUsernames →
    σ.clientStatuses[u]? = none ∨ σ.clientStatuses[u]? = some "offline".toList
  /-- A status is one of three. -/
  statuses : ∀ (u st : Text), σ.clientStatuses[u]? = some st →
    st = "online".toList ∨ st = "offline".toList ∨ st = "busy".toList

/-- The laws, with what carries them through a run. -/
structure SessionInv (σ : Server) : Prop extends SessionLaw σ where
  /-- A name in use has a status. -/
  status : ∀ u ∈ σ.loggedInUsernames, u ∈ σ.clientStatuses
  /-- Only registered names have a status. -/
  known : ∀ u ∈ σ.clientStatuses, u ∈ σ.registeredUsers
  /-- A socket that is logged in is open. -/
  opened : ∀ s ∈ σ.loggedInClients, s ∈ σ.openSockets

/-- The session tables are as they were, but for default cells. -/
structure SessionKept (σ σ' : Server) : Prop where
  registered : σ'.registeredUsers = σ.registeredUsers
  clients : σ'.loggedInClients = σ.loggedInClients
  names : σ'.loggedInUsernames = σ.loggedInUsernames
  opened : σ'.openSockets = σ.openSockets
  usernames : Touched [] (fun _ => True) σ.clientUsernames σ'.clientUsernames
  statuses : Touched [] (fun u => ∃ s ∈ σ.loggedInClients, u = σ.username s) σ.clientStatuses σ'.clientStatuses

variable {σ σ' : Server} {s r : Int} {l u p : Text} {q : Request} {sent : List Send}

/-! ## Commands that leave the sessions alone -/

theorem Quiet.session (h : Quiet σ s σ') : SessionKept σ σ' := by
  rw [h.eq]
  exact ⟨rfl, rfl, rfl, rfl, h.usernames.mono fun _ _ => trivial, .refl _⟩

theorem session_enterRoom : SessionKept σ (enterRoom σ s r).1 := by
  obtain ⟨names, pins, hn, _, h⟩ := enterRoom_fst σ s r
  rw [h]
  exact ⟨rfl, rfl, rfl, rfl, hn.mono fun _ _ => trivial, .refl _⟩

theorem session_listRoomUser : SessionKept σ (listRoomUser σ s r).1 := by
  obtain ⟨names, statuses, hn, hs, h⟩ := listRoomUser_fst σ s r
  rw [h]
  exact ⟨rfl, rfl, rfl, rfl, hn.mono fun _ _ => trivial, hs⟩

theorem session_deletePin : SessionKept σ (deletePin σ s r).1 := by
  rw [deletePin_fst]
  exact ⟨rfl, rfl, rfl, rfl, .refl _, .refl _⟩

theorem session_exitChatRoom (hr : σ.clientChatRooms[s]? = some r) : SessionKept σ (exitChatRoom σ s).1 := by
  rw [exitChatRoom_fst hr]
  exact ⟨rfl, rfl, rfl, rfl, .insertIfNew trivial, .refl _⟩

/-! ## The laws through each operation -/

/-- A socket that is logged in has its name in `client_usernames`. -/
theorem SessionLaw.username_eq (h : SessionLaw σ) (hs : s ∈ σ.loggedInClients) :
    σ.clientUsernames[s]? = some (σ.username s) := by
  obtain ⟨u, hu, _⟩ := h.named s hs
  rw [hu, Server.username, ExtTreeMap.getD_eq_getD_getElem?, hu]
  rfl

theorem SessionLaw.username_registered (h : SessionLaw σ) (hs : s ∈ σ.loggedInClients) :
    σ.username s ≠ [] ∧ σ.username s ∈ σ.registeredUsers := by
  obtain ⟨u, hu, hne, hreg⟩ := h.named s hs
  rw [h.username_eq hs] at hu
  cases hu
  exact ⟨hne, hreg⟩

theorem SessionInv.kept (h : SessionInv σ) (hk : SessionKept σ σ') : SessionInv σ' := by
  have hname : ∀ s ∈ σ.loggedInClients, σ'.clientUsernames[s]? = σ.clientUsernames[s]? := by
    intro s hs
    obtain ⟨u, hu, _⟩ := h.named s hs
    rw [hu, hk.usernames.keep hu]
  -- a status cell that was inserted would be one of a name in use, and these have a status
  have hstat : ∀ u : Text, σ'.clientStatuses[u]? = σ.clientStatuses[u]? := by
    intro u
    rcases hk.statuses u with hu | ⟨⟨s, hs, rfl⟩, hno, _⟩
    · exact hu
    · have hin := h.status _ ((h.names _).2 ⟨s, hs, h.username_eq hs⟩)
      rw [ExtTreeMap.mem_iff_isSome_getElem?, hno] at hin
      cases hin
  have hmem : ∀ u, u ∈ σ'.clientStatuses ↔ u ∈ σ.clientStatuses := by
    intro u
    rw [ExtTreeMap.mem_iff_isSome_getElem?, hstat, ExtTreeMap.mem_iff_isSome_getElem?]
  constructor
  · constructor
    · intro s hs
      rw [hk.clients] at hs
      rw [hname s hs, hk.registered]
      exact h.named s hs
    · intro s hs t ht he
      rw [hk.clients] at hs ht
      rw [hname s hs, hname t ht] at he
      exact h.unique s hs t ht he
    · intro u
      rw [hk.names, hk.clients, h.names]
      exact exists_congr fun s => and_congr_right fun hs => by rw [hname s hs]
    · intro u hu hfree
      rw [hk.registered] at hu
      rw [hk.names] at hfree
      rw [hstat]
      exact h.offline u hu hfree
    · intro u st hst
      rw [hstat] at hst
      exact h.statuses u st hst
  · intro u hu
    rw [hk.names] at hu
    exact (hmem u).2 (h.status u hu)
  · intro u hu
    rw [hk.registered]
    exact h.known u ((hmem u).1 hu)
  · intro s hs
    rw [hk.clients] at hs
    rw [hk.opened]
    exact h.opened s hs

/-- A new name has no status, since only registered names have one. -/
theorem SessionInv.register (h : SessionInv σ) (hnew : u ∉ σ.registeredUsers) :
    SessionInv { σ with registeredUsers := σ.registeredUsers.insert u p } := by
  refine { h with named := ?_, offline := ?_, known := ?_ }
  · intro s hs
    obtain ⟨v, hv, hne, hreg⟩ := h.named s hs
    exact ⟨v, hv, hne, ExtTreeMap.mem_insert.2 (.inr hreg)⟩
  · intro v hv hfree
    rcases ExtTreeMap.mem_insert.1 hv with he | hv
    · have hno : u ∉ σ.clientStatuses := fun hu => hnew (h.known u hu)
      rw [← Std.compare_eq_iff_eq.1 he]
      exact .inl (ExtTreeMap.getElem?_eq_none hno)
    · exact h.offline v hv hfree
  · intro v hv
    exact ExtTreeMap.mem_insert.2 (.inr (h.known v hv))

/-- A login gives `s` a name that nobody has, and a status to the name. -/
theorem SessionInv.login (h : SessionInv σ) (hout : s ∉ σ.loggedInClients) (hu : u ≠ [])
    (hreg : σ.registeredUsers[u]? = some p) (hfree : u ∉ σ.loggedInUsernames) (hs : s ∈ σ.openSockets) :
    SessionInv { σ with
      loggedInClients := σ.loggedInClients.insert s
      clientUsernames := σ.clientUsernames.insert s u
      clientStatuses := σ.clientStatuses.insert u "online"
      loggedInUsernames := σ.loggedInUsernames.insert u } := by
  have hmem : u ∈ σ.registeredUsers := by rw [ExtTreeMap.mem_iff_isSome_getElem?, hreg]; rfl
  have hself : (σ.clientUsernames.insert s u)[s]? = some u := ExtTreeMap.getElem?_insert_self
  have hother : ∀ t ∈ σ.loggedInClients, (σ.clientUsernames.insert s u)[t]? = σ.clientUsernames[t]? := by
    intro t ht
    have hne : s ≠ t := fun e => hout (e ▸ ht)
    rw [ExtTreeMap.getElem?_insert, if_neg (fun e => hne (Std.compare_eq_iff_eq.1 e))]
  -- nobody else has the name
  have hnone : ∀ t ∈ σ.loggedInClients, σ.clientUsernames[t]? ≠ some u := fun t ht e =>
    hfree ((h.names u).2 ⟨t, ht, e⟩)
  constructor
  · constructor
    · intro t ht
      rcases mem_set_insert.1 ht with rfl | ht
      · exact ⟨u, hself, hu, hmem⟩
      · rw [hother t ht]
        exact h.named t ht
    · intro t ht t' ht' he
      rcases mem_set_insert.1 ht with hts | htl
      · subst hts
        rcases mem_set_insert.1 ht' with hts' | htl'
        · exact hts'.symm
        · exact absurd (((hother t' htl').symm.trans he.symm).trans hself) (hnone t' htl')
      · rcases mem_set_insert.1 ht' with hts' | htl'
        · subst hts'
          exact absurd (((hother t htl).symm.trans he).trans hself) (hnone t htl)
        · exact h.unique t htl t' htl' (((hother t htl).symm.trans he).trans (hother t' htl'))
    · intro v
      rw [mem_set_insert, h.names]
      constructor
      · rintro (rfl | ⟨t, ht, hv⟩)
        · exact ⟨s, mem_set_insert.2 (.inl rfl), hself⟩
        · exact ⟨t, mem_set_insert.2 (.inr ht), by rw [hother t ht, hv]⟩
      · rintro ⟨t, ht, hv⟩
        rcases mem_set_insert.1 ht with rfl | ht
        · rw [hself] at hv
          exact .inl (Option.some.inj hv).symm
        · rw [hother t ht] at hv
          exact .inr ⟨t, ht, hv⟩
    · intro v hv hv'
      rw [mem_set_insert, not_or] at hv'
      rw [getElem?_insert_of_ne (Ne.symm hv'.1)]
      exact h.offline v hv hv'.2
    · intro v st hst
      by_cases he : u = v
      · subst he
        rw [ExtTreeMap.getElem?_insert_self] at hst
        exact .inl (Option.some.inj hst).symm
      · rw [getElem?_insert_of_ne he] at hst
        exact h.statuses v st hst
  · intro v hv
    rcases mem_set_insert.1 hv with rfl | hv
    · exact mem_map_insert.2 (.inl rfl)
    · exact mem_map_insert.2 (.inr (h.status v hv))
  · intro v hv
    rcases mem_map_insert.1 hv with rfl | hv
    · exact hmem
    · exact h.known v hv
  · intro t ht
    rcases mem_set_insert.1 ht with rfl | ht
    · exact hs
    · exact h.opened t ht

/-- The end of a session takes the client out of every table, and its name offline. -/
theorem SessionInv.endSession (h : SessionInv σ) (hs : s ∈ σ.loggedInClients) : SessionInv (σ.endSession s) := by
  have hname := h.username_eq hs
  have hreg := (h.username_registered hs).2
  have hother : ∀ t, t ≠ s → ((σ.clientUsernames.insertIfNew s []).erase s)[t]? = σ.clientUsernames[t]? := by
    intro t ht
    rw [getElem?_erase_of_ne (Ne.symm ht), getElem?_insertIfNew_of_ne (Ne.symm ht)]
  -- the others have other names
  have hne : ∀ t ∈ σ.loggedInClients, t ≠ s → σ.clientUsernames[t]? ≠ some (σ.username s) := fun t ht hts e =>
    hts (h.unique t ht s hs (e.trans hname.symm))
  constructor
  · constructor
    · intro t ht
      obtain ⟨hts, ht⟩ := mem_set_erase.1 ht
      obtain ⟨u, hu, hr⟩ := h.named t ht
      exact ⟨u, (hother t hts).trans hu, hr⟩
    · intro t ht t' ht' he
      obtain ⟨hts, ht⟩ := mem_set_erase.1 ht
      obtain ⟨hts', ht'⟩ := mem_set_erase.1 ht'
      exact h.unique t ht t' ht' (((hother t hts).symm.trans he).trans (hother t' hts'))
    · intro v
      constructor
      · intro hv
        obtain ⟨hvu, hin⟩ := mem_set_erase.1 hv
        obtain ⟨t, ht, htv⟩ := (h.names v).1 hin
        have hts : t ≠ s := by
          rintro rfl
          exact hvu (Option.some.inj (htv.symm.trans hname))
        exact ⟨t, mem_set_erase.2 ⟨hts, ht⟩, (hother t hts).trans htv⟩
      · rintro ⟨t, ht, hv⟩
        obtain ⟨hts, ht⟩ := mem_set_erase.1 ht
        have hv := (hother t hts).symm.trans hv
        refine mem_set_erase.2 ⟨?_, (h.names v).2 ⟨t, ht, hv⟩⟩
        rintro rfl
        exact hne t ht hts hv
    · intro v hv hfree
      by_cases he : σ.username s = v
      · subst he
        exact .inr ExtTreeMap.getElem?_insert_self
      · exact (getElem?_insert_of_ne he).symm ▸
          h.offline v hv fun hin => hfree (mem_set_erase.2 ⟨Ne.symm he, hin⟩)
    · intro v st hst
      by_cases he : σ.username s = v
      · subst he
        exact .inr (.inl (Option.some.inj (hst.symm.trans ExtTreeMap.getElem?_insert_self)))
      · exact h.statuses v st ((getElem?_insert_of_ne he).symm.trans hst)
  · intro v hv
    exact mem_map_insert.2 (.inr (h.status v (mem_set_erase.1 hv).2))
  · intro v hv
    rcases mem_map_insert.1 hv with rfl | hv
    · exact hreg
    · exact h.known v hv
  · intro t ht
    exact h.opened t (mem_set_erase.1 ht).2

/-- A client that is logged in changes the status of its own name. -/
theorem SessionInv.setStatus {status : Text} (h : SessionInv σ) (hs : s ∈ σ.loggedInClients)
    (hst : status = "online" ∨ status = "offline" ∨ status = "busy") :
    SessionInv { σ with clientStatuses := σ.clientStatuses.insert (σ.username s) status } := by
  have hname := h.username_eq hs
  refine { h with offline := ?_, statuses := ?_, status := ?_, known := ?_ }
  · intro v hv hfree
    rw [getElem?_insert_of_ne]
    · exact h.offline v hv hfree
    · rintro rfl
      exact hfree ((h.names _).2 ⟨s, hs, hname⟩)
  · intro v st hst'
    by_cases he : σ.username s = v
    · subst he
      rw [ExtTreeMap.getElem?_insert_self] at hst'
      rw [← Option.some.inj hst']
      exact hst
    · rw [getElem?_insert_of_ne he] at hst'
      exact h.statuses v st hst'
  · intro v hv
    exact mem_map_insert.2 (.inr (h.status v hv))
  · intro v hv
    rcases mem_map_insert.1 hv with rfl | hv
    · exact (h.username_registered hs).2
    · exact h.known v hv

/-- A descriptor that is closed belongs to nobody who is logged in. -/
theorem SessionInv.close (h : SessionInv σ) (hs : s ∉ σ.loggedInClients) : SessionInv (σ.close s) :=
  { h with
    opened := fun t ht => mem_set_erase.2 ⟨fun e => hs (e ▸ ht), h.opened t ht⟩ }

/-! ## Every step -/

/-- **Lines**: no command breaks the laws. -/
theorem SessionInv.line {next : Server × List Send} (h : SessionInv σ) (ho : s ∈ σ.openSockets)
    (hc : Outcome σ s l q (some next)) : SessionInv next.1 := by
  cases hc with
  | nothing hq => exact h.kept hq.session
  | register _ _ _ hnew => exact h.register hnew
  | login hout hu hreg hfree => exact h.login hout hu hreg hfree ho
  | logout hin => exact h.endSession hin
  | exit =>
    dsimp only
    split
    · rename_i hin
      exact (h.endSession hin).close fun hs => (mem_set_erase.1 hs).1 rfl
    · rename_i hout
      exact (h.kept (quiet_touchUsername (s := s)).session).close hout
  | setStatus hin hst =>
    have hname : (σ.touchUsername s).username s = σ.username s := getD_insertIfNew
    exact hname ▸ (h.kept (quiet_touchUsername (s := s)).session).setStatus hin hst
  | enter => exact h.kept session_enterRoom
  | close => exact h.kept ⟨rfl, rfl, rfl, rfl, .insertIfNew trivial, .refl _⟩
  | pin => exact h.kept ⟨rfl, rfl, rfl, rfl, .insertIfNew trivial, .refl _⟩
  | deletePin => exact h.kept session_deletePin
  | leave hr => exact h.kept (session_exitChatRoom hr)
  | listRoom => exact h.kept session_listRoomUser
  | post => exact h.kept ⟨rfl, rfl, rfl, rfl, .insertIfNew trivial, .refl _⟩

theorem SessionInv.connect (h : SessionInv σ) : SessionInv (connect σ s).1 :=
  { h with opened := fun t ht => mem_set_insert.2 (.inr (h.opened t ht)) }

theorem SessionInv.disconnect (h : SessionInv σ) : SessionInv (disconnect σ s) := by
  have h' : SessionInv { σ with
      clientSockets := σ.clientSockets.filter (· ≠ s)
      handlers := σ.handlers.erase s } := { h with }
  unfold Chat.disconnect
  dsimp only
  split
  · rename_i hin
    exact (h'.endSession hin).close fun hs => (mem_set_erase.1 hs).1 rfl
  · rename_i hout
    exact h'.close hout

theorem sessionInv_start : SessionInv start := by
  have hno : ∀ {α : Type} [Ord α] [TransOrd α] (a : α), a ∉ (∅ : ExtTreeSet α) := fun _ => ExtTreeSet.not_mem_empty
  constructor
  · constructor
    · exact fun s hs => absurd hs (hno s)
    · exact fun s hs => absurd hs (hno s)
    · exact fun u => ⟨fun hu => absurd hu (hno u), fun ⟨s, hs, _⟩ => absurd hs (hno s)⟩
    · exact fun u hu => absurd hu ExtTreeMap.not_mem_empty
    · exact fun u st hst => absurd hst (by simp [start])
  · exact fun u hu => absurd hu (hno u)
  · exact fun u hu => absurd hu ExtTreeMap.not_mem_empty
  · exact fun s hs => absurd hs (hno s)

theorem SessionInv.step {a : Act} (h : SessionInv σ) (hst : step σ a = some (σ', sent)) : SessionInv σ' := by
  cases a with
  | connect s =>
    obtain ⟨_, rfl, _⟩ := step_connect hst
    exact h.connect
  | line s l =>
    obtain ⟨ho, _, hc⟩ := step_line hst
    exact h.line ho (hc ▸ handleCommand_outcome σ s l)
  | disconnect s =>
    obtain ⟨_, rfl, _⟩ := step_disconnect hst
    exact h.disconnect

/-- **Sessions.** The laws hold in every reachable state. -/
theorem sessionInv_reachable (h : chat.Reachable σ) : SessionInv σ := by
  refine h.invariant (fun σ h => ?_) fun σ e σ' _ hi hst => hi.step hst
  rw [h]
  exact sessionInv_start

/-! ## Passwords -/

/-- A line that registers `u` with the password `p`. -/
def Registers (u p : Text) : Act → Prop
  | .line _ l => word l = some "register".toList ∧ arg l = some u ∧ arg' l = some p
  | _ => False

theorem registeredUsers_line {next : Server × List Send} (hc : Outcome σ s l q (some next)) :
    next.1.registeredUsers = σ.registeredUsers ∨ ∃ u p, u ∉ σ.registeredUsers ∧ Registers u p (.line s l) ∧
      next.1.registeredUsers = σ.registeredUsers.insert u p := by
  cases hc with
  | nothing hq => exact .inl hq.session.registered
  | register hw hu hp hnew => exact .inr ⟨_, _, hnew, ⟨hw, hu, hp⟩, rfl⟩
  | exit =>
    dsimp only
    split <;> exact .inl rfl
  | enter => exact .inl session_enterRoom.registered
  | deletePin => exact .inl session_deletePin.registered
  | leave hr => exact .inl (session_exitChatRoom hr).registered
  | login | logout | setStatus | close | pin | listRoom | post => exact .inl rfl

theorem registeredUsers_step {a : Act} (hst : step σ a = some (σ', sent)) :
    σ'.registeredUsers = σ.registeredUsers ∨ ∃ u p, u ∉ σ.registeredUsers ∧ Registers u p a ∧
      σ'.registeredUsers = σ.registeredUsers.insert u p := by
  cases a with
  | connect s =>
    obtain ⟨_, rfl, _⟩ := step_connect hst
    exact .inl rfl
  | line s l =>
    obtain ⟨_, _, hc⟩ := step_line hst
    exact registeredUsers_line (hc ▸ handleCommand_outcome σ s l)
  | disconnect s =>
    obtain ⟨_, rfl, _⟩ := step_disconnect hst
    unfold disconnect
    dsimp only
    split <;> exact .inl rfl

/-- A step keeps the passwords there are. -/
theorem password_step {a : Act} (hst : step σ a = some (σ', sent)) (hu : σ.registeredUsers[u]? = some p) :
    σ'.registeredUsers[u]? = some p := by
  rcases registeredUsers_step hst with h | ⟨v, p', hnew, _, h⟩
  · rw [h, hu]
  · rw [h, getElem?_insert_of_ne, hu]
    rintro rfl
    rw [ExtTreeMap.getElem?_eq_none hnew] at hu
    cases hu

/-- A password that was not there before a step was registered in it. -/
theorem password_new {a : Act} (hst : step σ a = some (σ', sent)) (hnew : u ∉ σ.registeredUsers)
    (hu : σ'.registeredUsers[u]? = some p) : Registers u p a := by
  rcases registeredUsers_step hst with h | ⟨v, p', _, hreg, h⟩
  · rw [h, ExtTreeMap.getElem?_eq_none hnew] at hu
    cases hu
  · by_cases hv : v = u
    · subst hv
      rw [h, ExtTreeMap.getElem?_insert_self] at hu
      exact Option.some.inj hu ▸ hreg
    · rw [h, getElem?_insert_of_ne hv, ExtTreeMap.getElem?_eq_none hnew] at hu
      cases hu

theorem password_run {es : List Event} (hr : chat.Run σ es σ') (hu : σ.registeredUsers[u]? = some p) :
    σ'.registeredUsers[u]? = some p := by
  induction hr with
  | nil => exact hu
  | cons hst _ ih => exact ih (password_step hst hu)

/-- **The session tables** of a reachable state obey the laws of `SessionLaw`. A registered name keeps its password for
the rest of the run, and a step that registers a new name is a `register` line with this name and its password. -/
theorem session_laws (h : chat.Reachable σ) :
    SessionLaw σ ∧
    (∀ es σ', chat.Run σ es σ' → ∀ u p : Text, σ.registeredUsers[u]? = some p → σ'.registeredUsers[u]? = some p) ∧
    ∀ e σ', chat.step σ e σ' → ∀ u p : Text, u ∉ σ.registeredUsers → σ'.registeredUsers[u]? = some p →
      Registers u p e.act :=
  ⟨(sessionInv_reachable h).toSessionLaw, fun _ _ hr _ _ hu => password_run hr hu,
    fun _ _ hst _ _ hnew hu => password_new hst hnew hu⟩

/-- A client that has registered and logged in has its name. -/
theorem session_laws_login :
    let σ := after start [.connect 4, .line 4 "register tom pw\n", .line 4 "login tom pw\n"]
    4 ∈ σ.loggedInClients ∧ σ.clientUsernames[(4 : Int)]? = some "tom".toList ∧
      ∃ u, σ.clientUsernames[(4 : Int)]? = some u ∧ u ≠ [] ∧ u ∈ σ.registeredUsers :=
  ⟨by decide, by decide, (session_laws (reachable_after _)).1.named 4 (by decide)⟩

end IntroNP.Chat
