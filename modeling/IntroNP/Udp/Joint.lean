import IntroNP.Udp.Integrity
import IntroNP.Udp.Queue

/-!
# File transfer over UDP: both programs

`transfer` is the system of a client and a server, with a network between them that keeps every datagram that was ever
sent: it can deliver each of them at any time, more than once or never.

- `go_spec`: the client, which never fills `send_failed`, sends the datagrams of its files;
- `receive_spec`: the server, whose tables only grow;
- `Sound`, `sound_of_reachable`: the invariant, with the history of the acknowledgements that were made;
- `deliver_ok`: whatever is delivered, the server does not fault;
- `acked_sound`: what the client takes for acknowledged the server has, and the client is told to stop only when all
  files were received;
- `ack_sound`: as long as the client can open its files it ends only then.
-/

namespace IntroNP.Udp

open Std

/-- The two programs, and what each of them has sent. -/
structure Joint where
  client : Client
  server : Server
  toServer : List Text
  toClient : List Text

/-- A step of the client that sends or moves on, or looks for a reply; a turn of the server on a datagram; a round of
its last loop. -/
inductive Event
  | go
  | look (reply : Option Text)
  | deliver (d : Text) (turn : Turn)
  | terminate

/-- An acknowledgement is sent five times. -/
def Turn.replies (turn : Turn) : List Text :=
  match turn.ack with
  | none => []
  | some a => [a.msg, a.msg, a.msg, a.msg, a.msg]

inductive Joint.Step (fs : Files) (storePath : Text) : Joint → Event → Joint → Prop
  | go {j : Joint} {c : Client} {msg : Option Text} : j.client.go fs = some (c, msg) →
      Step fs storePath j .go { j with client := c, toServer := j.toServer ++ msg.toList }
  | look {j : Joint} {c : Client} {reply : Option Text} : (∀ d ∈ reply, d ∈ j.toClient) →
      j.client.look reply = some c → Step fs storePath j (.look reply) { j with client := c }
  | deliver {j : Joint} {σ : Server} {d : Text} {turn : Turn} : j.server.i < j.server.fileNum → d ∈ j.toServer →
      receive storePath j.server d = .ok (σ, turn) →
      Step fs storePath j (.deliver d turn) { j with server := σ, toClient := j.toClient ++ turn.replies }
  | terminate {j : Joint} : ¬ j.server.i < j.server.fileNum →
      Step fs storePath j .terminate { j with toClient := j.toClient ++ [termMsg] }

/-- The transfer of some files, for which the server was started with their number, and the client with any number of
descriptors. -/
def transfer (fs : Files) (storePath : Text) : System Joint Event where
  init j := ∃ free, j = ⟨.start free, start fs.list.length, [], []⟩
  step := Joint.Step fs storePath

/-- The acknowledgements that were made so far, with what was in the slot then. -/
def logAck (_ : Joint) (e : Event) (acks : List Ack) : List Ack :=
  match e with
  | .deliver _ turn => acks ++ turn.ack.toList
  | .go | .look _ | .terminate => acks

/-- The transfer, with the history of the acknowledgements. -/
def transferLog (fs : Files) (storePath : Text) : System (Joint × List Ack) Event :=
  (transfer fs storePath).ghost [] logAck

variable {fs : Files} {storePath : Text} {j j' : Joint} {e : Event} {acks : List Ack} {c c' : Client} {σ σ' : Server}
  {reply msg : Option Text} {d : Text} {turn : Turn} {a : Ack}

/-! ## The client -/

/-- What the client does on its own: it sends a datagram of its files, if any, and gives a cell to a fragment that has
none. -/
structure GoOf (fs : Files) (c c' : Client) (msg : Option Text) : Prop where
  quiet : c'.Quiet
  sends : ∀ d ∈ msg, fs.Sends d
  termFlag : c'.termFlag = c.termFlag
  done : c'.pc = .done → c.termFlag = true
  cells : ∀ (k : Pii) (n : Int), c'.acked[k]? = some n → c.acked[k]? = some n ∨ n = 0

theorem go_spec (hq : c.Quiet) (h : c.go fs = some (c', msg)) : GoOf fs c c' msg := by
  have hquiet := goOver_quiet hq h
  cases goes_of_quiet hq h with
  | stop _ hterm => exact ⟨hquiet, by simp, rfl, fun _ => hterm, fun _ _ => .inl⟩
  | shut hpc =>
    refine ⟨hquiet, by simp, rfl, fun hdone => ?_, fun _ _ => .inl⟩
    rw [hpc] at hdone
    cases hdone
  | opened | finished | failed | next | round => exact ⟨hquiet, by simp, rfl, by simp, fun _ _ => .inl⟩
  | passed => exact ⟨hquiet, by simp, rfl, by simp, cells_insertIfNew⟩
  | @sent s o m _ _ hm =>
    refine ⟨hquiet, ?_, rfl, by simp, cells_insertIfNew⟩
    intro d hd
    cases hd
    exact ⟨s, o, (datagram_entries fs s o).symm.trans hm⟩

/-! ## The server -/

/-- All files were received. -/
def Server.AllReceived (σ : Server) : Prop := ∀ t, σ.InTables t → σ.receivedList t = true

/-- The tables of the server only grow. -/
structure Server.Grows (σ σ' : Server) : Prop where
  fileNum : σ'.fileNum = σ.fileNum
  record : ∀ t, σ.recordList t ⊆ σ'.recordList t
  received : ∀ t, σ.receivedList t = true → σ'.receivedList t = true

theorem Server.Grows.allReceived (h : σ.Grows σ') (hall : σ.AllReceived) : σ'.AllReceived := by
  intro t ht
  unfold Server.InTables at ht
  rw [h.fileNum] at ht
  exact h.received t (hall t ht)

/-- An acknowledgement that the server may make: of a part that is recorded, with its true fragment in the slot. -/
structure Made (fs : Files) (σ : Server) (a : Ack) : Prop where
  seq : ∃ s : Nat, a.seqIdx = s ∧ s < 2 ^ 31
  offset : ∃ o : Nat, a.offset = o ∧ o < 2 ^ 31
  recorded : a.offset ∈ σ.recordList a.seqIdx
  content : slot (fs.fragments a.seqIdx) a.offset = some a.fCnt

theorem Made.grows (h : Made fs σ a) (hg : σ.Grows σ') : Made fs σ' a :=
  { h with recorded := hg.record _ h.recorded }

/-- What a turn on a datagram of the client does. -/
theorem receive_spec (storePath : Text) {w : Collector Int Int} (h : Refines fs σ w) (hd : fs.Sends d) : ∃ σ' turn,
    receive storePath σ d = .ok (σ', turn) ∧ (∃ w', Refines fs σ' w') ∧ σ.Grows σ' ∧
      ∀ a, turn.ack = some a → Made fs σ' a := by
  obtain ⟨s, o, hso⟩ := hd
  obtain ⟨σ', turn, hrec, h', hturn⟩ := receive_refines storePath h hso
  obtain ⟨f, fragment, hp⟩ := part_of_datagram hso
  refine ⟨σ', turn, hrec, ⟨_, h'⟩, ⟨?_, ?_, ?_⟩, ?_⟩
  · rw [h.fileNum, h'.fileNum]
  · intro t p hp
    rw [h.recorded] at hp
    rw [h'.recorded]
    exact Collector.got_arrive hp
  · intro t ht
    rw [h.received] at ht
    rw [h'.received]
    exact Collector.finished_arrive ht
  · intro a ha
    obtain ⟨hseq, hoff, hgot, hslot⟩ := hturn.ack a ha
    have hs := hp.seq_lt
    have ho := hp.offset_lt
    have hcount := fs.count_int
    have hn := f.count_int
    refine ⟨⟨s, hseq, by omega⟩, ⟨o, hoff, by omega⟩, ?_, ?_⟩
    · rw [hseq, hoff, h'.recorded]
      exact hgot
    · rw [hseq, hoff]
      exact hslot

/-! ## The invariant -/

/-- What holds of the two programs and the network between them. -/
structure Sound (fs : Files) (j : Joint) (acks : List Ack) : Prop where
  quiet : j.client.Quiet
  refines : ∃ w, Refines fs j.server w
  sent : ∀ d ∈ j.toServer, fs.Sends d
  made : ∀ a ∈ acks, Made fs j.server a
  replies : ∀ d ∈ j.toClient, (∃ a ∈ acks, d = a.msg) ∨ (d = termMsg ∧ j.server.AllReceived)
  cells : ∀ (k : Pii) (n : Int), j.client.acked[k]? = some n →
    n = 0 ∨ (n = 1 ∧ ∃ a ∈ acks, a.seqIdx = k.seq ∧ a.offset = k.offset)
  term : j.client.termFlag = true → j.server.AllReceived
  done : j.client.pc = .done → j.client.termFlag = true

theorem sound_start (free : Nat) : Sound fs ⟨.start free, start fs.list.length, [], []⟩ [] where
  quiet := quiet_plain rfl trivial
  refines := ⟨_, refines_start⟩
  sent := by simp
  made := by simp
  replies := by simp
  cells := by simp [Client.start]
  term := by simp [Client.start]
  done := by simp [Client.start]

theorem Sound.go (h : Sound fs j acks) (hgo : j.client.go fs = some (c, msg)) :
    Sound fs { j with client := c, toServer := j.toServer ++ msg.toList } acks := by
  have hc := go_spec h.quiet hgo
  refine { h with quiet := hc.quiet, sent := ?_, cells := ?_, term := ?_, done := ?_ }
  · intro d hd
    rcases List.mem_append.1 hd with hd | hd
    · exact h.sent d hd
    · exact hc.sends d (Option.mem_toList.1 hd)
  · intro k n hn
    rcases hc.cells k n hn with hn | rfl
    · exact h.cells k n hn
    · exact .inl rfl
  · dsimp only
    rw [hc.termFlag]
    exact h.term
  · dsimp only
    rw [hc.termFlag]
    exact hc.done

/-- What the client hears is true: no reply, an acknowledgement that was made, or the end. -/
theorem Sound.hear (h : Sound fs j acks) (hreply : ∀ d ∈ reply, d ∈ j.toClient) :
    (∀ (k : Pii) (n : Int), (j.client.hear (decomposeReply (ackbuf reply))).acked[k]? = some n →
      n = 0 ∨ (n = 1 ∧ ∃ a ∈ acks, a.seqIdx = k.seq ∧ a.offset = k.offset)) ∧
    ((j.client.hear (decomposeReply (ackbuf reply))).termFlag = true → j.server.AllReceived) := by
  cases reply with
  | none =>
    rw [reply_none]
    exact ⟨h.cells, h.term⟩
  | some d =>
    rcases h.replies d (hreply d rfl) with ⟨a, ha, rfl⟩ | ⟨rfl, hall⟩
    · obtain ⟨s, hs, hs31⟩ := (h.made a ha).seq
      obtain ⟨o, ho, ho31⟩ := (h.made a ha).offset
      obtain ⟨seqIdx, offset, fCnt⟩ := a
      dsimp only at hs ho
      subst hs ho
      rw [reply_ack hs31 ho31]
      refine ⟨?_, h.term⟩
      intro k n hn
      change (j.client.acked.insert ⟨s, o⟩ 1)[k]? = some n at hn
      rw [ExtTreeMap.getElem?_insert] at hn
      split at hn
      · rename_i hk
        cases Std.compare_eq_iff_eq.1 hk
        exact .inr ⟨(Option.some.inj hn).symm, _, ha, rfl, rfl⟩
      · exact h.cells k n hn
    · rw [reply_term]
      exact ⟨h.cells, fun _ => hall⟩

theorem Sound.look (h : Sound fs j acks) (hreply : ∀ d ∈ reply, d ∈ j.toClient)
    (hlook : j.client.look reply = some c) : Sound fs { j with client := c } acks := by
  have hc := look_spec h.quiet hlook
  obtain ⟨hcells, hterm⟩ := h.hear hreply
  refine { h with quiet := hc.quiet, cells := ?_, term := ?_, done := hc.done }
  · dsimp only
    rw [hc.acked]
    exact hcells
  · dsimp only
    rw [hc.termFlag]
    exact hterm

theorem mem_replies (hd : d ∈ turn.replies) : ∃ a, turn.ack = some a ∧ d = a.msg := by
  unfold Turn.replies at hd
  cases ha : turn.ack with
  | none =>
    rw [ha] at hd
    cases hd
  | some a =>
    rw [ha] at hd
    simp only [List.mem_cons, List.not_mem_nil, or_false, or_self] at hd
    exact ⟨a, rfl, hd⟩

theorem Sound.deliver (h : Sound fs j acks) (hd : d ∈ j.toServer)
    (hrec : receive storePath j.server d = .ok (σ, turn)) :
    Sound fs { j with server := σ, toClient := j.toClient ++ turn.replies } (acks ++ turn.ack.toList) := by
  obtain ⟨w, hw⟩ := h.refines
  obtain ⟨σ', turn', hrec', hw', hg, hmade⟩ := receive_spec storePath hw (h.sent d hd)
  rw [hrec] at hrec'
  cases hrec'
  refine { h with refines := hw', made := ?_, replies := ?_, cells := ?_, term := ?_ }
  · intro a ha
    rcases List.mem_append.1 ha with ha | ha
    · exact (h.made a ha).grows hg
    · exact hmade a (Option.mem_toList.1 ha)
  · intro r hr
    rcases List.mem_append.1 hr with hr | hr
    · rcases h.replies r hr with ⟨a, ha, he⟩ | ⟨he, hall⟩
      · exact .inl ⟨a, List.mem_append_left _ ha, he⟩
      · exact .inr ⟨he, hg.allReceived hall⟩
    · obtain ⟨a, ha, he⟩ := mem_replies hr
      exact .inl ⟨a, List.mem_append_right _ (Option.mem_toList.2 ha), he⟩
  · intro k n hn
    rcases h.cells k n hn with h0 | ⟨h1, a, ha, hk⟩
    · exact .inl h0
    · exact .inr ⟨h1, a, List.mem_append_left _ ha, hk⟩
  · exact fun ht => hg.allReceived (h.term ht)

/-- The counter is at the end only when all files were received. -/
theorem Sound.terminate (h : Sound fs j acks) (hi : ¬ j.server.i < j.server.fileNum) :
    Sound fs { j with toClient := j.toClient ++ [termMsg] } acks := by
  obtain ⟨w, hw⟩ := h.refines
  refine { h with replies := ?_ }
  intro r hr
  rcases List.mem_append.1 hr with hr | hr
  · exact h.replies r hr
  · refine .inr ⟨List.mem_singleton.1 hr, ?_⟩
    intro t ht
    unfold Server.InTables at ht
    rw [hw.fileNum] at ht
    exact (hw.received t).2 (hw.all_finished hi ht.1 ht.2)

theorem Sound.step (h : Sound fs j acks) (hst : (transfer fs storePath).step j e j') :
    Sound fs j' (logAck j e acks) := by
  cases hst with
  | go hgo => exact h.go hgo
  | look hreply hlook => exact h.look hreply hlook
  | deliver hi hd hrec => exact h.deliver hd hrec
  | terminate hi => exact h.terminate hi

theorem sound_of_reachable {p : Joint × List Ack} (h : (transferLog fs storePath).Reachable p) :
    Sound fs p.1 p.2 := by
  refine h.invariant (P := fun p => Sound fs p.1 p.2) ?_ ?_
  · rintro ⟨j, acks⟩ ⟨⟨free, rfl⟩, rfl⟩
    exact sound_start free
  · rintro ⟨j, acks⟩ e ⟨j', acks'⟩ _ hs ⟨hst, rfl⟩
    exact hs.step hst

/-! ## Acknowledgements and the end -/

/-- The server never faults. -/
theorem deliver_ok (h : (transfer fs storePath).Reachable j) (hd : d ∈ j.toServer) :
    ∃ σ turn, receive storePath j.server d = .ok (σ, turn) := by
  obtain ⟨acks, h⟩ : ∃ acks, (transferLog fs storePath).Reachable (j, acks) := h.exists_ghost
  have hs := sound_of_reachable h
  obtain ⟨w, hw⟩ := hs.refines
  obtain ⟨σ, turn, hrec, _⟩ := receive_spec storePath hw (hs.sent d hd)
  exact ⟨σ, turn, hrec⟩

/-- The client passes over a fragment only when the cell for it is not 0. -/
theorem passed_over (hq : c.Quiet) {s o : Nat} (hpc : c.pc = .send s o) (hgo : c.go fs = some (c', none))
    (hnext : c'.pc = .send s (o + 1)) : ∃ n, c.acked[(⟨s, o⟩ : Pii)]? = some n ∧ n ≠ 0 := by
  have hsent : c.acked.getD ⟨s, o⟩ 0 ≠ 0 := by
    cases goes_of_quiet hq hgo with
    | @passed s' o' hpc' hacked =>
      rw [hpc] at hpc'
      cases hpc'
      exact hacked
    | stop hpc' | shut hpc' | opened hpc' | round hpc' =>
      rw [hpc] at hpc'
      cases hpc'
    | finished | failed | next => cases hnext
  rw [ExtTreeMap.getD_eq_getD_getElem?] at hsent
  cases hn : c.acked[(⟨s, o⟩ : Pii)]? with
  | none =>
    rw [hn] at hsent
    exact absurd rfl hsent
  | some n =>
    rw [hn] at hsent
    exact ⟨n, rfl, hsent⟩

/-- **What is acknowledged** is recorded, in every reachable state, and was acknowledged with its true fragment in the
slot; `term_flag` is set, and the client has stopped, only when all files were received. -/
theorem acked_sound (h : (transferLog fs storePath).Reachable (j, acks)) :
    (∀ (k : Pii) (n : Int), j.client.acked[k]? = some n → n ≠ 0 → k.offset ∈ j.server.recordList k.seq ∧
      ∃ a ∈ acks, a.seqIdx = k.seq ∧ a.offset = k.offset ∧ slot (fs.fragments k.seq) k.offset = some a.fCnt) ∧
    (j.client.termFlag = true → ∀ t : Int, 0 ≤ t → t < fs.list.length → j.server.receivedList t = true) ∧
    (j.client.pc = .done → j.client.termFlag = true) := by
  have hs := sound_of_reachable h
  obtain ⟨w, hw⟩ := hs.refines
  refine ⟨fun k n hn h0 => ?_, fun hterm t h0 ht => hs.term hterm t ⟨h0, by rw [hw.fileNum]; exact ht⟩, hs.done⟩
  obtain ⟨_, a, ha, hseq, hoff⟩ := (hs.cells k n hn).resolve_left h0
  have hmade := hs.made a ha
  rw [← hseq, ← hoff]
  exact ⟨hmade.recorded, a, ha, rfl, rfl, hmade.content⟩

/-! ## Descriptors -/

/-- The next step of the client opens neither a directory nor a file for which there is no descriptor. -/
def Client.CanOpen (fs : Files) (c : Client) : Prop :=
  match c.pc with
  | .head => 0 < c.free
  | .send s 0 => s < fs.list.length → 0 < c.free
  | .send _ (_ + 1) | .await .. | .resend .. | .awaitAgain .. | .done | .exited | .undefined => True

/-- The transfer, as long as the client can open what it opens. -/
def openTransfer (fs : Files) (storePath : Text) : System (Joint × List Ack) Event :=
  (transferLog fs storePath).restrict fun p e => e = .go → p.1.client.CanOpen fs

/-- A client that can open its files goes on. -/
theorem go_not_exited (hq : c.Quiet) (hopen : c.CanOpen fs) (h : c.go fs = some (c', msg)) : c'.pc ≠ .exited := by
  cases goes_of_quiet hq h with
  | shut hpc =>
    rw [hpc]
    exact Pc.noConfusion
  | @failed s hpc hf hfree =>
    have hlt : s < fs.list.length := by
      by_contra hle
      refine hf (List.getElem?_eq_none ?_)
      rw [Files.entries, List.length_map]
      exact Nat.le_of_not_lt hle
    unfold Client.CanOpen at hopen
    rw [hpc] at hopen
    exact absurd (hopen hlt) (by omega)
  | stop | opened | finished | next | passed | sent | round => exact Pc.noConfusion

/-- What the client does when it has looked for a reply is not to exit for want of a descriptor. -/
theorem look_not_exited (h : c.look reply = some c') : c'.pc ≠ .exited := by
  unfold Client.look at h
  dsimp only at h
  split at h
  · split at h
    · cases h
      exact Pc.noConfusion
    · cases h
      exact Pc.noConfusion
  · split at h
    · cases h
      dsimp only
      split <;> exact Pc.noConfusion
    · cases h
      dsimp only
      split <;> exact Pc.noConfusion
  all_goals cases h

theorem open_not_exited (h : (openTransfer fs storePath).Reachable (j, acks)) : j.client.pc ≠ .exited := by
  refine h.invariant (P := fun p => p.1.client.pc ≠ .exited) ?_ ?_
  · rintro _ ⟨⟨free, h⟩, _⟩
    rw [h]
    exact Pc.noConfusion
  · rintro ⟨j, acks⟩ e ⟨j', acks'⟩ hj ih ⟨hopen, hst, _⟩
    have hq := (sound_of_reachable hj.of_restrict).quiet
    cases hst with
    | go hgo => exact go_not_exited hq (hopen rfl) hgo
    | look _ hlook => exact look_not_exited hlook
    | deliver | terminate => exact ih

/-- **Acknowledgements and the end are sound**, in every state of every run in which the client can open what it opens.
What `ACKed` holds as acknowledged is recorded, and was acknowledged with its true fragment in the slot; `term_flag` is
set only when all files were received. So the client passes over a fragment only when the server has it, and ends only
when the server has everything. -/
theorem ack_sound (h : (openTransfer fs storePath).Reachable (j, acks)) :
    (∀ s o : Int, j.client.acked[(⟨s, o⟩ : Pii)]? = some 1 → o ∈ j.server.recordList s ∧
      ∃ a ∈ acks, a.seqIdx = s ∧ a.offset = o ∧ slot (fs.fragments s) o = some a.fCnt) ∧
    (j.client.termFlag = true → ∀ t : Int, 0 ≤ t → t < fs.list.length → j.server.receivedList t = true) ∧
    (∀ (s o : Nat) (c : Client), j.client.pc = .send s o → j.client.go fs = some (c, none) →
      c.pc = .send s (o + 1) → (o : Int) ∈ j.server.recordList s) ∧
    (j.client.pc = .done ∨ j.client.pc = .exited → ∀ t : Int, 0 ≤ t → t < fs.list.length →
      j.server.receivedList t = true) := by
  have hlog := h.of_restrict
  obtain ⟨hacked, hterm, hdone⟩ := acked_sound hlog
  refine ⟨fun s o hso => hacked ⟨s, o⟩ 1 hso (by decide), hterm, fun s o c hpc hgo hnext => ?_, fun hend => ?_⟩
  · obtain ⟨n, hn, h0⟩ := passed_over (sound_of_reachable hlog).quiet hpc hgo hnext
    exact (hacked ⟨s, o⟩ n hn h0).1
  · exact hterm (hdone (hend.resolve_right (open_not_exited h)))

/-- The first fragment is sent, received, and heard to be. -/
theorem ack_sound_first : ∃ j acks, (openTransfer twoFiles "out").Reachable (j, acks) ∧
    j.client.acked[(⟨0, 0⟩ : Pii)]? = some 1 ∧ (0 : Int) ∈ j.server.recordList 0 := by
  let d : Text := "<0 1 0 0 a >"
  let a : Ack := ⟨0, 0, []⟩
  let c₁ : Client := ⟨.send 0 0, ∅, ∅, false, 1⟩
  let c₂ : Client := ⟨.await 0 0 d, ExtTreeMap.insertIfNew ∅ ⟨0, 0⟩ 0, ∅, false, 1⟩
  have hopen : (Client.start 2).go twoFiles = some (c₁, none) := rfl
  have hgo : c₁.go twoFiles = some (c₂, some d) := rfl
  obtain ⟨σ, hrec⟩ : ∃ σ, receive "out" (start 2) d = .ok (σ, ⟨some a, some ⟨0, "out/a", []⟩⟩) := ⟨_, rfl⟩
  obtain ⟨c₃, hlook, hcell⟩ : ∃ c₃, c₂.look (some a.msg) = some c₃ ∧ c₃.acked[(⟨0, 0⟩ : Pii)]? = some 1 :=
    ⟨_, rfl, ExtTreeMap.getElem?_insert_self⟩
  have hstep : ∀ {j j' : Joint} {e : Event} {acks : List Ack}, (openTransfer twoFiles "out").Reachable (j, acks) →
      (e = .go → j.client.CanOpen twoFiles) → Joint.Step twoFiles "out" j e j' →
      (openTransfer twoFiles "out").Reachable (j', logAck j e acks) := fun h hcan hst => h.step ⟨hcan, hst, rfl⟩
  have h₀ : (openTransfer twoFiles "out").Reachable (⟨.start 2, start 2, [], []⟩, []) := .init ⟨⟨2, rfl⟩, rfl⟩
  have h₁ : (openTransfer twoFiles "out").Reachable (⟨c₁, start 2, [], []⟩, []) :=
    hstep h₀ (fun _ => Nat.zero_lt_two) (.go hopen)
  have h₂ : (openTransfer twoFiles "out").Reachable (⟨c₂, start 2, [d], []⟩, []) :=
    hstep h₁ (fun _ _ => Nat.one_pos) (.go hgo)
  have hi : (start 2).i < (start 2).fileNum := by decide
  have h₃ := hstep h₂ (fun h => by cases h) (.deliver hi List.mem_cons_self hrec)
  have h₄ := hstep h₃ (fun h => by cases h) (.look (by rintro _ ⟨⟩; exact List.mem_cons_self) hlook)
  exact ⟨_, _, h₄, hcell, ((ack_sound h₄).1 0 0 hcell).1⟩

end IntroNP.Udp
