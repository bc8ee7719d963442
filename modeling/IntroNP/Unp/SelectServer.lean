import IntroNP.Lib.Bytes
import IntroNP.Lib.Countdown
import IntroNP.Lib.System
import IntroNP.Lib.Table
import Mathlib.Data.Finset.Card
import Mathlib.Data.Int.Interval

/-!
# The echo server with `select`

The loop of `tcpcliserv/tcpservselect01.c`: one process serves all connections, which it keeps in a table and in a set
of descriptors. The kernel's side is which descriptors are open, and which of them are ready.

- `Table`: what holds of the table and the set between two turns;
- `turn_serves`: in every state that the server can be in, a turn serves exactly the descriptors that are ready, each
  once, if none of its calls fails. It never has too many clients for its table: a descriptor for which a set has no bit
  comes first.
-/

namespace IntroNP.Unp

def FD_SETSIZE : Nat := 1024

/-- The variables of the loop. -/
structure SelectServer where
  client : List Int
  maxi : Int
  maxfd : Int
  allset : Finset Int

/-- What a turn does: it accepts a connection, sends bytes back, or closes a connection. -/
inductive Served
  | accepted (fd : Int)
  | echoed (fd : Int) (bytes : List Byte)
  | closed (fd : Int)
  deriving DecidableEq

/-- How the process ends: by `err_quit`, by `FD_SET` with a descriptor for which the set has no bit, or in `Accept`,
`Read` or `Writen`, when it would do this. -/
inductive Stop
  | tooManyClients
  | fdSet
  | call (what : Served)
  deriving DecidableEq

/-- What the calls of one turn return: the set that `Select` leaves in `rset`, the descriptor from `Accept`, what `Read`
finds on a descriptor, and which of the calls fail. -/
structure Turn where
  rset : Finset Int
  connfd : Int
  data : Int → List Byte
  fails : Served → Bool

namespace SelectServer

def start (listenfd : Int) : SelectServer := ⟨List.replicate FD_SETSIZE (-1), -1, listenfd, {listenfd}⟩

/-- A new connection. -/
def accept (s : SelectServer) (connfd : Int) : Except Stop SelectServer :=
  match s.client.findIdx? (· < 0) with
  | none => .error .tooManyClients
  | some i =>
    if connfd < FD_SETSIZE then
      .ok { client := s.client.set i connfd
            maxi := if (i : Int) > s.maxi then i else s.maxi
            maxfd := if connfd > s.maxfd then connfd else s.maxfd
            allset := insert connfd s.allset }
    else .error .fdSet

/-- `client[i] >= 0 && FD_ISSET(client[i], &rset)`. -/
def isSet (t : Turn) (p : SelectServer × List Served) (i : Nat) : Bool :=
  match p.1.client[i]? with
  | some sockfd => decide (0 ≤ sockfd) && decide (sockfd ∈ t.rset)
  | none => false

/-- What is done with the bytes that were read from `sockfd`. -/
def serve (t : Turn) (sockfd : Int) : Served :=
  if t.data sockfd = [] then .closed sockfd else .echoed sockfd (t.data sockfd)

/-- The connection at `i` is served. -/
def check (t : Turn) (p : SelectServer × List Served) (i : Nat) : SelectServer × List Served :=
  let sockfd := p.1.client.getD i (-1)
  (if t.data sockfd = [] then
    { p.1 with client := p.1.client.set i (-1), allset := p.1.allset.erase sockfd }
  else p.1, p.2 ++ [serve t sockfd])

/-- The loop over all clients. -/
def checkAll (s : SelectServer) (t : Turn) (nready : Int) (done : List Served) : SelectServer × List Served :=
  countdown (fun n => decide (n ≤ 0)) (isSet t) (check t) (List.range (s.maxi + 1).toNat) nready (s, done)

/-- A turn of the loop, after `Select` returned, if no call fails. -/
def serveReady (listenfd : Int) (s : SelectServer) (t : Turn) : Except Stop (SelectServer × List Served) :=
  let nready : Int := t.rset.card
  if listenfd ∈ t.rset then
    match s.accept t.connfd with
    | .error e => .error e
    | .ok s =>
      if nready - 1 ≤ 0 then .ok (s, [.accepted t.connfd])
      else .ok (s.checkAll t (nready - 1) [.accepted t.connfd])
  else .ok (s.checkAll t nready [])

/-- A turn of the loop. The process ends in the first call that fails, and its variables with it. -/
def turn (listenfd : Int) (s : SelectServer) (t : Turn) : Except Stop (SelectServer × List Served) :=
  if listenfd ∈ t.rset ∧ t.fails (.accepted t.connfd) then .error (.call (.accepted t.connfd))
  else
    match s.serveReady listenfd t with
    | .error e => .error e
    | .ok (s, done) =>
      match done.find? t.fails with
      | some what => .error (.call what)
      | none => .ok (s, done)

end SelectServer

/-! ## The server and the kernel -/

/-- The server, and the connections that are open. -/
structure Pool where
  server : SelectServer
  opened : Finset Int

/-- What becomes of the open connections. -/
def Served.apply (opened : Finset Int) : Served → Finset Int
  | .accepted fd => insert fd opened
  | .echoed _ _ => opened
  | .closed fd => opened.erase fd

/-- What `Select` leaves in `rset` of the descriptors that are ready. -/
def SelectServer.select (s : SelectServer) (ready : Finset Int) : Finset Int :=
  ready.filter fun fd => fd ∈ s.allset ∧ fd < s.maxfd + 1

/-- What the kernel may do in a turn: `Select` finds some of the open descriptors ready, and `Accept` gives a descriptor
that is free. -/
structure Offers (listenfd : Int) (p : Pool) (ready : Finset Int) (t : Turn) : Prop where
  opened : ready ⊆ insert listenfd p.opened
  rset : t.rset = p.server.select ready
  some : t.rset.Nonempty
  nonneg : 0 ≤ t.connfd
  fresh : t.connfd ∉ insert listenfd p.opened

variable {listenfd connfd fd : Int} {s s' : SelectServer} {opened ready : Finset Int} {t : Turn} {i j : Nat}
  {p p' : Pool} {done : List Served}

/-- The table has the open connections, each once, and so has the set, with the listening socket. -/
structure Table (listenfd : Int) (opened : Finset Int) (s : SelectServer) : Prop where
  length : s.client.length = FD_SETSIZE
  mem : ∀ fd, fd ∈ opened ↔ 0 ≤ fd ∧ fd ∈ s.client
  inj : ∀ (i j : Nat) (fd : Int), s.client[i]? = some fd → s.client[j]? = some fd → 0 ≤ fd → i = j
  maxi : ∀ (i : Nat) (fd : Int), s.client[i]? = some fd → 0 ≤ fd → (i : Int) ≤ s.maxi
  allset : s.allset = insert listenfd opened
  maxfd : ∀ fd ∈ s.allset, fd ≤ s.maxfd
  fits : ∀ fd ∈ opened, fd < FD_SETSIZE
  listen : listenfd ∉ opened

theorem Table.start : Table listenfd ∅ (.start listenfd) where
  length := List.length_replicate
  mem fd := by
    refine iff_of_false (Finset.notMem_empty fd) fun ⟨h, hmem⟩ => ?_
    have := List.eq_of_mem_replicate hmem
    omega
  inj i _ fd hi _ h := by
    have := List.eq_of_mem_replicate (List.mem_of_getElem? hi)
    omega
  maxi i fd hi h := by
    have := List.eq_of_mem_replicate (List.mem_of_getElem? hi)
    omega
  allset := rfl
  maxfd fd h := (Finset.mem_singleton.1 h).le
  fits fd h := absurd h (Finset.notMem_empty fd)
  listen := Finset.notMem_empty _

/-- **There is a free entry**: the connections are different from one another and from the listening socket, which all
have a bit in the set. -/
theorem Table.exists_free (h : Table listenfd opened s) (hlisten : 0 ≤ listenfd ∧ listenfd < FD_SETSIZE) :
    ∃ i, s.client.findIdx? (· < 0) = some i := by
  by_contra hnone
  have hnonneg : ∀ fd ∈ s.client, 0 ≤ fd := by
    have hnot : s.client.findIdx? (· < 0) = none := by
      cases hf : s.client.findIdx? (· < 0) with
      | none => rfl
      | some i => exact absurd ⟨i, hf⟩ hnone
    intro fd hfd
    have := List.findIdx?_eq_none_iff.1 hnot fd hfd
    simpa using this
  have hnodup : s.client.Nodup := by
    refine List.nodup_iff_injective_getElem.2 fun a b hab => Fin.ext ?_
    have ha := List.getElem?_eq_getElem a.2
    have hb := List.getElem?_eq_getElem b.2
    exact h.inj _ _ _ ha (hb.trans (congrArg some hab.symm)) (hnonneg _ (List.getElem_mem _))
  have hsub : s.client.toFinset ⊆ (Finset.Ico (0 : Int) FD_SETSIZE).erase listenfd := by
    intro fd hfd
    have hmem := List.mem_toFinset.1 hfd
    have hopened := (h.mem fd).2 ⟨hnonneg fd hmem, hmem⟩
    exact Finset.mem_erase.2 ⟨fun he => h.listen (he ▸ hopened),
      Finset.mem_Ico.2 ⟨hnonneg fd hmem, h.fits fd hopened⟩⟩
  have hsize : (Finset.Ico (0 : Int) FD_SETSIZE).card = FD_SETSIZE := Int.card_Ico 0 FD_SETSIZE
  have hcard := Finset.card_le_card hsub
  rw [List.toFinset_card_of_nodup hnodup, h.length, Finset.card_erase_of_mem (Finset.mem_Ico.2 hlisten), hsize] at hcard
  exact absurd hcard (by decide)

theorem Table.opened_of_entry (h : Table listenfd opened s) (hi : s.client[i]? = some fd) (h0 : 0 ≤ fd) : fd ∈ opened :=
  (h.mem fd).2 ⟨h0, List.mem_of_getElem? hi⟩

theorem Table.entry_of_opened (h : Table listenfd opened s) (hfd : fd ∈ opened) :
    0 ≤ fd ∧ ∃ i : Nat, s.client[i]? = some fd := by
  obtain ⟨h0, hmem⟩ := (h.mem fd).1 hfd
  exact ⟨h0, List.mem_iff_getElem?.1 hmem⟩

/-- **A free entry** is given to a new connection. -/
theorem Table.fill (h : Table listenfd opened s) (hi : s.client[i]? = some fd) (hfree : fd < 0) (hnonneg : 0 ≤ connfd)
    (hfresh : connfd ∉ insert listenfd opened) (hfits : connfd < FD_SETSIZE) :
    Table listenfd (insert connfd opened)
      ⟨s.client.set i connfd, if (i : Int) > s.maxi then i else s.maxi, if connfd > s.maxfd then connfd else s.maxfd,
        insert connfd s.allset⟩ := by
  have hil : i < s.client.length := (List.getElem?_eq_some_iff.1 hi).1
  obtain ⟨hne, hnot⟩ := not_or.1 (mt Finset.mem_insert.2 hfresh)
  constructor
  · exact (List.length_set).trans h.length
  · intro fd'
    rw [Finset.mem_insert]
    constructor
    · rintro (rfl | hfd)
      · exact ⟨hnonneg, List.mem_of_getElem? (List.getElem?_set_self hil)⟩
      · obtain ⟨h0, j, hj⟩ := h.entry_of_opened hfd
        have hij : i ≠ j := by
          rintro rfl
          cases hi.symm.trans hj
          omega
        exact ⟨h0, List.mem_of_getElem? ((List.getElem?_set_ne hij).trans hj)⟩
    · rintro ⟨h0, hmem⟩
      obtain ⟨j, hj⟩ := List.mem_iff_getElem?.1 hmem
      rcases getElem?_set_cases hj with ⟨_, rfl⟩ | ⟨_, hj⟩
      · exact .inl rfl
      · exact .inr (h.opened_of_entry hj h0)
  · intro j k fd' hj hk h0
    rcases getElem?_set_cases hj with ⟨rfl, rfl⟩ | ⟨_, hj'⟩
    · rcases getElem?_set_cases hk with ⟨rfl, _⟩ | ⟨_, hk'⟩
      · rfl
      · exact absurd (h.opened_of_entry hk' h0) hnot
    · rcases getElem?_set_cases hk with ⟨_, rfl⟩ | ⟨_, hk'⟩
      · exact absurd (h.opened_of_entry hj' h0) hnot
      · exact h.inj j k fd' hj' hk' h0
  · intro j fd' hj h0
    dsimp only
    rcases getElem?_set_cases hj with ⟨rfl, _⟩ | ⟨_, hj⟩
    · split <;> omega
    · have := h.maxi j fd' hj h0
      split <;> omega
  · dsimp only
    rw [h.allset, Finset.insert_comm]
  · intro fd' hfd
    dsimp only at hfd ⊢
    rcases Finset.mem_insert.1 hfd with rfl | hfd
    · split <;> omega
    · have := h.maxfd fd' hfd
      split <;> omega
  · intro fd' hfd
    rcases Finset.mem_insert.1 hfd with rfl | hfd
    · exact hfits
    · exact h.fits fd' hfd
  · intro hl
    rcases Finset.mem_insert.1 hl with heq | hl
    · exact hne heq.symm
    · exact h.listen hl

/-- **A new connection** gets an entry, if the set has a bit for it. -/
theorem Table.accept (h : Table listenfd opened s) (hlisten : 0 ≤ listenfd ∧ listenfd < FD_SETSIZE)
    (hnonneg : 0 ≤ connfd) (hfresh : connfd ∉ insert listenfd opened) :
    (s.accept connfd = .error .fdSet ∧ FD_SETSIZE ≤ connfd) ∨
      ∃ s', s.accept connfd = .ok s' ∧ Table listenfd (insert connfd opened) s' := by
  obtain ⟨i, hi⟩ := h.exists_free hlisten
  obtain ⟨hil, hneg, _⟩ := List.findIdx?_eq_some_iff_getElem.1 hi
  have hfree : s.client[i] < 0 := of_decide_eq_true hneg
  unfold SelectServer.accept
  rw [hi]
  dsimp only
  split
  · rename_i hfits
    exact .inr ⟨_, rfl, h.fill (List.getElem?_eq_getElem hil) hfree hnonneg hfresh hfits⟩
  · exact .inl ⟨rfl, by omega⟩

/-- **The entry of a connection** is free again when it was closed. -/
theorem Table.free (h : Table listenfd opened s) (hi : s.client[i]? = some fd) (h0 : 0 ≤ fd) :
    Table listenfd (opened.erase fd) { s with client := s.client.set i (-1), allset := s.allset.erase fd } := by
  have hentry : ∀ {j : Nat} {fd' : Int}, (s.client.set i (-1))[j]? = some fd' → 0 ≤ fd' →
      j ≠ i ∧ s.client[j]? = some fd' := by
    intro j fd' hj h0'
    rcases getElem?_set_cases hj with ⟨_, rfl⟩ | hold
    · omega
    · exact hold
  constructor
  · exact (List.length_set).trans h.length
  · intro fd'
    rw [Finset.mem_erase]
    constructor
    · rintro ⟨hne, hfd⟩
      obtain ⟨h0', j, hj⟩ := h.entry_of_opened hfd
      have hij : i ≠ j := by
        rintro rfl
        exact hne (Option.some.inj (hj.symm.trans hi))
      exact ⟨h0', List.mem_of_getElem? ((List.getElem?_set_ne hij).trans hj)⟩
    · rintro ⟨h0', hmem⟩
      obtain ⟨j, hj⟩ := List.mem_iff_getElem?.1 hmem
      obtain ⟨hji, hj⟩ := hentry hj h0'
      exact ⟨fun he => hji (h.inj j i fd (he ▸ hj) hi h0), h.opened_of_entry hj h0'⟩
  · intro j k fd' hj hk h0'
    exact h.inj j k fd' (hentry hj h0').2 (hentry hk h0').2 h0'
  · intro j fd' hj h0'
    exact h.maxi j fd' (hentry hj h0').2 h0'
  · have hne : listenfd ≠ fd := by
      rintro rfl
      exact h.listen (h.opened_of_entry hi h0)
    dsimp only
    rw [h.allset, Finset.erase_insert_of_ne hne]
  · intro fd' hfd
    exact h.maxfd fd' (Finset.mem_of_mem_erase hfd)
  · intro fd' hfd
    exact h.fits fd' (Finset.mem_of_mem_erase hfd)
  · exact fun hl => h.listen (Finset.mem_of_mem_erase hl)

theorem getElem?_check {q : SelectServer × List Served} (hji : j ≠ i) :
    (SelectServer.check t q i).1.client[j]? = q.1.client[j]? := by
  unfold SelectServer.check
  dsimp only
  split
  · exact List.getElem?_set_ne (Ne.symm hji)
  · rfl

/-- **A connection is served**: it stays as it is, or leaves the table and the set. -/
theorem Table.check (h : Table listenfd opened s) (hi : s.client[i]? = some fd) (h0 : 0 ≤ fd) :
    Table listenfd ((SelectServer.serve t fd).apply opened) (SelectServer.check t (s, done) i).1 ∧
      (SelectServer.check t (s, done) i).2 = done ++ [SelectServer.serve t fd] := by
  have hget : s.client.getD i (-1) = fd := by rw [List.getD_eq_getElem?_getD, hi]; rfl
  unfold SelectServer.check SelectServer.serve
  dsimp only
  rw [hget]
  split
  · exact ⟨h.free hi h0, rfl⟩
  · exact ⟨h, rfl⟩

/-! ## A turn -/

/-- The descriptors at some places of the table. -/
def SelectServer.at (s : SelectServer) (is : List Nat) : List Int := is.map fun i => s.client.getD i (-1)

theorem isSet_iff : SelectServer.isSet t (s, done) i ↔ ∃ fd, s.client[i]? = some fd ∧ 0 ≤ fd ∧ fd ∈ t.rset := by
  unfold SelectServer.isSet
  dsimp only
  cases s.client[i]? with
  | none => simp
  | some fd => simp

theorem isSet_check (t : Turn) (q : SelectServer × List Served) (i j : Nat) (hji : j ≠ i) :
    SelectServer.isSet t (SelectServer.check t q i) j = SelectServer.isSet t q j := by
  unfold SelectServer.isSet
  rw [getElem?_check hji]

/-- Several connections are served. -/
theorem Table.foldl_check : ∀ {is : List Nat} {s : SelectServer} {opened : Finset Int} (done : List Served),
    Table listenfd opened s → is.Nodup → (∀ i ∈ is, ∃ fd, s.client[i]? = some fd ∧ 0 ≤ fd) →
    Table listenfd (((s.at is).map (SelectServer.serve t)).foldl Served.apply opened)
      (is.foldl (SelectServer.check t) (s, done)).1 ∧
    (is.foldl (SelectServer.check t) (s, done)).2 = done ++ (s.at is).map (SelectServer.serve t)
  | [], _, _, _, h, _, _ => ⟨h, (List.append_nil _).symm⟩
  | i :: is, s, opened, done, h, hnodup, his => by
    obtain ⟨hnot, hnodup⟩ := List.nodup_cons.1 hnodup
    obtain ⟨fd, hi, h0⟩ := his i List.mem_cons_self
    have hget : s.client.getD i (-1) = fd := by rw [List.getD_eq_getElem?_getD, hi]; rfl
    obtain ⟨htable, hdone⟩ : _ ∧ (SelectServer.check t (s, done) i).2 = done ++ [SelectServer.serve t fd] :=
      h.check hi h0
    have hother' : ∀ j ∈ is, (SelectServer.check t (s, done) i).1.client[j]? = s.client[j]? :=
      fun j hj => getElem?_check fun he => hnot (he ▸ hj)
    have hat : (SelectServer.check t (s, done) i).1.at is = s.at is :=
      List.map_congr_left fun j hj => by
        rw [List.getD_eq_getElem?_getD, List.getD_eq_getElem?_getD, hother' j hj]
    have hcons : s.at (i :: is) = fd :: s.at is := by rw [← hget]; rfl
    have his' : ∀ j ∈ is, ∃ fd, (SelectServer.check t (s, done) i).1.client[j]? = some fd ∧ 0 ≤ fd := fun j hj => by
      rw [hother' j hj]
      exact his j (List.mem_cons_of_mem i hj)
    have ih := foldl_check (done ++ [SelectServer.serve t fd]) htable hnodup his'
    have hstate : SelectServer.check t (s, done) i =
        ((SelectServer.check t (s, done) i).1, done ++ [SelectServer.serve t fd]) := Prod.ext rfl hdone
    rw [hcons, List.foldl_cons, List.map_cons, List.foldl_cons, hstate]
    rw [hat] at ih
    exact ⟨ih.1, ih.2.trans (List.append_assoc _ _ _)⟩

/-- **The loop over all clients** serves the connections that are ready, each once. -/
theorem Table.checkAll {n : Int} (done : List Served) (h : Table listenfd opened s)
    (hrset : t.rset ⊆ insert listenfd opened) (hn : n = (t.rset.erase listenfd).card) :
    ∃ fds : List Int, fds.Nodup ∧ fds.toFinset = t.rset.erase listenfd ∧
      (s.checkAll t n done).2 = done ++ fds.map (SelectServer.serve t) ∧
      Table listenfd ((fds.map (SelectServer.serve t)).foldl Served.apply opened) (s.checkAll t n done).1 := by
  let is := (List.range (s.maxi + 1).toNat).filter (SelectServer.isSet t (s, done))
  have hset : ∀ i ∈ is, ∃ fd, s.client[i]? = some fd ∧ 0 ≤ fd ∧ fd ∈ t.rset := fun i hi =>
    isSet_iff.1 (List.mem_filter.1 hi).2
  have hnodup : is.Nodup := List.nodup_range.filter _
  have hget : ∀ {i : Nat} {fd : Int}, s.client[i]? = some fd → s.client.getD i (-1) = fd := fun hi => by
    rw [List.getD_eq_getElem?_getD, hi]
    rfl
  have hfds : (s.at is).Nodup := by
    refine (List.nodup_map_iff_inj_on hnodup).2 fun i hi j hj heq => ?_
    obtain ⟨fd, hfd, h0, _⟩ := hset i hi
    obtain ⟨fd', hfd', _⟩ := hset j hj
    rw [hget hfd, hget hfd'] at heq
    exact h.inj i j fd hfd (heq ▸ hfd') h0
  have hmem : (s.at is).toFinset = t.rset.erase listenfd := by
    ext fd
    rw [List.mem_toFinset, Finset.mem_erase]
    constructor
    · intro hfd
      obtain ⟨i, hi, rfl⟩ := List.mem_map.1 hfd
      obtain ⟨fd, hfd, h0, hready⟩ := hset i hi
      rw [hget hfd]
      refine ⟨fun he => ?_, hready⟩
      exact h.listen (he ▸ (h.mem fd).2 ⟨h0, List.mem_of_getElem? hfd⟩)
    · rintro ⟨hne, hready⟩
      have hopened := (Finset.mem_insert.1 (hrset hready)).resolve_left hne
      obtain ⟨h0, hclient⟩ := (h.mem fd).1 hopened
      obtain ⟨i, hi⟩ := List.mem_iff_getElem?.1 hclient
      have hle := h.maxi i fd hi h0
      refine List.mem_map.2 ⟨i, List.mem_filter.2 ⟨List.mem_range.2 (by omega), ?_⟩, hget hi⟩
      exact isSet_iff.2 ⟨fd, hi, h0, hready⟩
  have hlength : is.length = (t.rset.erase listenfd).card := by
    rw [← hmem, List.toFinset_card_of_nodup hfds]
    exact (List.length_map _).symm
  have hloop : s.checkAll t n done = is.foldl (SelectServer.check t) (s, done) := by
    refine countdown_eq_foldl (fun n => ?_) (fun q i j => isSet_check t q i j) List.nodup_range ?_
    · exact decide_eq_false (by omega)
    · rw [hn, ← hlength]
  have hentry : ∀ i ∈ is, ∃ fd, s.client[i]? = some fd ∧ 0 ≤ fd := fun i hi => by
    obtain ⟨fd, hfd, h0, _⟩ := hset i hi
    exact ⟨fd, hfd, h0⟩
  obtain ⟨htable, hdone⟩ := Table.foldl_check done h hnodup hentry
  rw [hloop]
  exact ⟨s.at is, hfds, hmem, hdone, htable⟩

/-- What a turn does that finds `fds` ready, besides the listening socket or not. -/
def served (t : Turn) (listening : Prop) [Decidable listening] (fds : List Int) : List Served :=
  (if listening then [.accepted t.connfd] else []) ++ fds.map (SelectServer.serve t)

/-- `Select` leaves out no descriptor that is ready. -/
theorem Table.select_eq (h : Table listenfd opened s) (hready : ready ⊆ insert listenfd opened) :
    s.select ready = ready := by
  refine Finset.filter_true_of_mem fun fd hfd => ?_
  have hmem : fd ∈ s.allset := h.allset ▸ hready hfd
  have := h.maxfd fd hmem
  exact ⟨hmem, by omega⟩

theorem Table.serveReady (h : Table listenfd p.opened p.server) (hlisten : 0 ≤ listenfd ∧ listenfd < FD_SETSIZE)
    (hoffers : Offers listenfd p ready t) :
    (p.server.serveReady listenfd t = .error .fdSet ∧ listenfd ∈ ready ∧ FD_SETSIZE ≤ t.connfd) ∨
      ∃ s' fds, fds.Nodup ∧ fds.toFinset = ready.erase listenfd ∧
        p.server.serveReady listenfd t = .ok (s', served t (listenfd ∈ ready) fds) ∧
        Table listenfd ((served t (listenfd ∈ ready) fds).foldl Served.apply p.opened) s' := by
  have hrset : t.rset = ready := hoffers.rset.trans (h.select_eq hoffers.opened)
  have hsub : t.rset ⊆ insert listenfd p.opened := hrset ▸ hoffers.opened
  rw [← hrset]
  unfold SelectServer.serveReady served
  dsimp only
  by_cases hl : listenfd ∈ t.rset
  · rw [if_pos hl, if_pos hl]
    rcases h.accept hlisten hoffers.nonneg hoffers.fresh with ⟨herr, hlarge⟩ | ⟨s₁, hok, h₁⟩
    · rw [herr]
      exact .inl ⟨rfl, hl, hlarge⟩
    rw [hok]
    dsimp only
    have hcard := Finset.card_erase_of_mem hl
    have hpos := Finset.card_pos.2 ⟨listenfd, hl⟩
    right
    split
    · -- nothing else is ready
      rename_i hlast
      have hempty : t.rset.erase listenfd = ∅ := Finset.card_eq_zero.1 (by omega)
      exact ⟨s₁, [], List.nodup_nil, hempty.symm, rfl, h₁⟩
    · have hsub₁ : t.rset ⊆ insert listenfd (insert t.connfd p.opened) :=
        hsub.trans (Finset.insert_subset_insert _ (Finset.subset_insert _ _))
      have hn : (t.rset.card : Int) - 1 = (t.rset.erase listenfd).card := by omega
      obtain ⟨fds, hnodup, hfds, hdone, htable⟩ := Table.checkAll [.accepted t.connfd] h₁ hsub₁ hn
      refine ⟨_, fds, hnodup, hfds, congrArg Except.ok (Prod.ext rfl hdone), ?_⟩
      exact htable
  · rw [if_neg hl, if_neg hl]
    have hn : (t.rset.card : Int) = (t.rset.erase listenfd).card := by rw [Finset.erase_eq_of_notMem hl]
    obtain ⟨fds, hnodup, hfds, hdone, htable⟩ := Table.checkAll [] h hsub hn
    exact .inr ⟨_, fds, hnodup, hfds, congrArg Except.ok (Prod.ext rfl hdone), htable⟩

/-- What a turn may come to: one of its calls fails, the new descriptor is too large, or all that is ready is served. -/
theorem Table.turn (h : Table listenfd p.opened p.server) (hlisten : 0 ≤ listenfd ∧ listenfd < FD_SETSIZE)
    (hoffers : Offers listenfd p ready t) :
    (∃ what, p.server.turn listenfd t = .error (.call what) ∧ t.fails what ∧
      (listenfd ∈ ready ∧ what = .accepted t.connfd ∨ ∃ fd ∈ ready.erase listenfd, what = SelectServer.serve t fd)) ∨
    (p.server.turn listenfd t = .error .fdSet ∧ listenfd ∈ ready ∧ FD_SETSIZE ≤ t.connfd) ∨
      ∃ s' fds, fds.Nodup ∧ fds.toFinset = ready.erase listenfd ∧
        p.server.turn listenfd t = .ok (s', served t (listenfd ∈ ready) fds) ∧
        (∀ what ∈ served t (listenfd ∈ ready) fds, ¬ t.fails what) ∧
        Table listenfd ((served t (listenfd ∈ ready) fds).foldl Served.apply p.opened) s' := by
  have hrset : t.rset = ready := hoffers.rset.trans (h.select_eq hoffers.opened)
  unfold SelectServer.turn
  rw [hrset]
  by_cases haccept : listenfd ∈ ready ∧ t.fails (.accepted t.connfd)
  · rw [if_pos haccept]
    exact .inl ⟨_, rfl, haccept.2, .inl ⟨haccept.1, rfl⟩⟩
  rw [if_neg haccept]
  rcases h.serveReady hlisten hoffers with ⟨herr, hl, hlarge⟩ | ⟨s', fds, hnodup, hfds, hok, htable⟩
  · rw [herr]
    exact .inr (.inl ⟨rfl, hl, hlarge⟩)
  rw [hok]
  dsimp only
  cases hfind : (served t (listenfd ∈ ready) fds).find? t.fails with
  | none => exact .inr (.inr ⟨s', fds, hnodup, hfds, rfl, List.find?_eq_none.1 hfind, htable⟩)
  | some what =>
    have hfails := List.find?_some hfind
    refine .inl ⟨what, rfl, hfails, ?_⟩
    rcases List.mem_append.1 (List.mem_of_find?_eq_some hfind) with hmem | hmem
    · split at hmem
      · rename_i hl
        obtain rfl := List.mem_singleton.1 hmem
        exact absurd ⟨hl, hfails⟩ haccept
      · cases hmem
    · obtain ⟨fd, hfd, rfl⟩ := List.mem_map.1 hmem
      exact .inr ⟨fd, hfds ▸ List.mem_toFinset.2 hfd, rfl⟩

end IntroNP.Unp
