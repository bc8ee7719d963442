import IntroNP.Udp.Cycle

/-!
# File transfer over UDP: how the transfer ends

The client reads its socket only after it has sent a fragment, and sends only fragments that are not marked in `ACKed`.

- `Client.Listens`: a client that waits has sent an unmarked fragment, and one that was told to stop has stopped;
- `covers_reachable`: in a pass, what is behind the client and not marked was sent;
- `can_receive`, `finish_iff`: with descriptors left, the server can still receive all files, and the client can still
  end exactly when a fragment is not marked. When all of them are, it goes round and never sees the end;
- `can_exit`: without replies the client runs out of descriptors, and ends for want of one.
-/

namespace IntroNP.Udp

open Std

variable {fs : Files} {storePath : Text} {j j' : Joint} {e : Event} {c c' : Client} {reply msg : Option Text}
  {n s o : Nat} {d : Text} {k : Pii} {pc : Pc}

/-! ## A client that listens -/

/-- A client that was told to stop has stopped, one that waits has sent a fragment that is not marked, and one that
could not open a file has no descriptor. -/
structure Client.Listens (fs : Files) (c : Client) : Prop where
  told : c.termFlag = true → c.pc = .done
  awaits : ∀ {s o : Nat} {m : Text}, c.pc = .await s o m →
    fs.datagram s o = some m ∧ c.acked[(⟨s, o⟩ : Pii)]? = some 0
  exited : c.pc = .exited → c.free = 0

/-- A cell that was made for a fragment that counts as not acknowledged. -/
theorem getElem?_of_getD_zero {acked : ExtTreeMap Pii Int} (hzero : acked.getD k 0 = 0) :
    (acked.insertIfNew k 0)[k]? = some (0 : Int) := by
  rw [ExtTreeMap.getD_eq_getD_getElem?] at hzero
  rw [ExtTreeMap.getElem?_insertIfNew]
  cases hcell : acked[k]? with
  | none =>
    refine if_pos ⟨Std.compare_eq_iff_eq.2 rfl, fun hmem => ?_⟩
    rw [ExtTreeMap.mem_iff_isSome_getElem?, hcell] at hmem
    cases hmem
  | some n =>
    have hmem : k ∈ acked := by
      rw [ExtTreeMap.mem_iff_isSome_getElem?, hcell]
      rfl
    rw [if_neg fun hnew => hnew.2 hmem]
    rw [hcell] at hzero
    exact congrArg some hzero

theorem Client.Listens.go (h : c.Listens fs) (hgo : c.go fs = some (c', msg)) (hq : c.Quiet) : c'.Listens fs := by
  have hnot : c.termFlag = true → False := by
    intro hterm
    unfold Client.go Client.goOver at hgo
    rw [h.told hterm] at hgo
    cases hgo
  have hterm : c'.termFlag = true → c'.pc = .done := fun hterm =>
    (hnot ((go_spec hq hgo).termFlag ▸ hterm)).elim
  cases goes_of_quiet hq hgo with
  | stop _ hstop => exact (hnot hstop).elim
  | shut => exact h
  | failed _ _ hfree => exact ⟨hterm, Pc.noConfusion, fun _ => hfree⟩
  | opened | finished | next | passed | round => exact ⟨hterm, Pc.noConfusion, Pc.noConfusion⟩
  | sent _ hzero hm =>
    refine ⟨hterm, fun hpc => ?_, Pc.noConfusion⟩
    cases hpc
    exact ⟨(datagram_entries fs _ _).symm.trans hm, getElem?_of_getD_zero hzero⟩

theorem Client.Listens.look (hlook : c.look reply = some c') (hq : c.Quiet) : c'.Listens fs := by
  obtain ⟨s, o, m, hpc⟩ := look_pc hq hlook
  rcases look_await hpc hlook with ⟨hpc', hterm⟩ | ⟨hpc', _⟩
  · refine ⟨fun h => ?_, fun h => ?_, fun h => ?_⟩
    · rw [hterm] at h
      cases h
    · rw [hpc'] at h
      cases h
    · rw [hpc'] at h
      cases h
  · refine ⟨fun _ => hpc', fun h => ?_, fun h => ?_⟩
    · rw [hpc'] at h
      cases h
    · rw [hpc'] at h
      cases h

theorem sound_reachable (h : (transfer fs storePath).Reachable j) : ∃ acks, Sound fs j acks := by
  obtain ⟨acks, h⟩ : ∃ acks, (transferLog fs storePath).Reachable (j, acks) := h.exists_ghost
  exact ⟨acks, sound_of_reachable h⟩

theorem listens_reachable (h : (transfer fs storePath).Reachable j) : j.client.Listens fs := by
  refine h.invariant (P := fun j => j.client.Listens fs) ?_ ?_
  · rintro _ ⟨free, rfl⟩
    exact ⟨by simp [Client.start], by simp [Client.start], by simp [Client.start]⟩
  · intro j e j' hj ih hst
    obtain ⟨acks, hs⟩ := sound_reachable hj
    cases hst with
    | go hgo => exact ih.go hgo hs.quiet
    | look _ hlook => exact .look hlook hs.quiet
    | deliver | terminate => exact ih

/-- A client that has not ended was not told to. -/
theorem termFlag_of_not_done (h : (transfer fs storePath).Reachable j) (hpc : j.client.pc ≠ .done) :
    j.client.termFlag = false :=
  Bool.not_eq_true _ ▸ fun hterm => hpc ((listens_reachable h).told hterm)

theorem not_exited (h : (transfer fs storePath).Reachable j) (hfree : 0 < j.client.free) : j.client.pc ≠ .exited :=
  fun hexit => hfree.ne' ((listens_reachable h).exited hexit)

/-! ## What the client can send -/

/-- By itself the client marks nothing. -/
theorem go_marks (hq : c.Quiet) (hgo : c.go fs = some (c', msg)) :
    c'.acked[k]? = some (1 : Int) ↔ c.acked[k]? = some (1 : Int) := by
  cases goes_of_quiet hq hgo with
  | stop | shut | opened | finished | failed | next | round => exact Iff.rfl
  | passed | sent => exact getElem?_insertIfNew_one

/-- By itself the client opens descriptors, and closes none. -/
theorem go_free (hq : c.Quiet) (hgo : c.go fs = some (c', msg)) : c'.free ≤ c.free := by
  cases goes_of_quiet hq hgo with
  | opened _ _ hfree =>
    rw [hfree]
    exact Nat.le_succ _
  | stop | shut | finished | failed | next | passed | sent | round => exact le_rfl

/-- The client, when no reply comes: it marks nothing and is not told to stop. -/
structure Silent (c c' : Client) : Prop where
  quiet : c'.Quiet
  termFlag : c'.termFlag = c.termFlag
  marks : ∀ k : Pii, c'.acked[k]? = some 1 ↔ c.acked[k]? = some 1
  free : c'.free ≤ c.free

theorem silent_move (hq : c.Quiet) (h : c.Moves fs (· = none) c') : Silent c c' := by
  rcases h with ⟨msg, hgo⟩ | ⟨reply, rfl, hlook⟩
  · exact ⟨goOver_quiet hq hgo, (go_spec hq hgo).termFlag, fun k => go_marks hq hgo, go_free hq hgo⟩
  · have hc := look_spec hq hlook
    rw [reply_none] at hc
    refine ⟨hc.quiet, hc.termFlag, fun k => ?_, hc.free.le⟩
    rw [hc.acked]
    exact Iff.rfl

/-- The joint run that the moves of the client are, when no reply comes. -/
theorem run_of_moves {c c' : Client} (hpath : Relation.ReflTransGen (Client.Moves fs (· = none)) c c') (hq : c.Quiet)
    (j : Joint) (hc : j.client = c) : Silent c c' ∧ ∃ es sent, (transfer fs storePath).Run j es
      { j with client := c', toServer := j.toServer ++ sent } := by
  induction hpath using Relation.ReflTransGen.head_induction_on generalizing j with
  | refl =>
    subst hc
    exact ⟨⟨hq, rfl, fun _ => Iff.rfl, le_rfl⟩, [], [], by rw [List.append_nil]; exact .nil j⟩
  | @head c c₁ hmove _ ih =>
    subst hc
    have h₁ := silent_move hq hmove
    have hchain : Silent c₁ c' → Silent j.client c' := fun h =>
      ⟨h.quiet, h.termFlag.trans h₁.termFlag, fun k => (h.marks k).trans (h₁.marks k), h.free.trans h₁.free⟩
    rcases hmove with ⟨msg, hgo⟩ | ⟨reply, rfl, hlook⟩
    · obtain ⟨hsilent, es, sent, hrun⟩ := ih h₁.quiet { j with client := c₁, toServer := j.toServer ++ msg.toList } rfl
      refine ⟨hchain hsilent, .go :: es, msg.toList ++ sent, .cons (.go hgo) ?_⟩
      rw [← List.append_assoc]
      exact hrun
    · obtain ⟨hsilent, es, sent, hrun⟩ := ih h₁.quiet { j with client := c₁ } rfl
      exact ⟨hchain hsilent, .look none :: es, sent, .cons (.look (by simp) hlook) hrun⟩

/-- **Where the client gets to without replies**, some run leads to in which only the client moves. -/
theorem run_to (h : (transfer fs storePath).Reachable j) (hpc : j.client.pc ≠ .done)
    (hto : j.client.GetsTo fs (· = none) n pc) : ∃ es sent c, (transfer fs storePath).Run j es
      { j with client := c, toServer := j.toServer ++ sent } ∧ Silent j.client c ∧ c.pc = pc ∧ n ≤ c.free := by
  have hterm := termFlag_of_not_done h hpc
  obtain ⟨acks, hs⟩ := sound_reachable h
  obtain ⟨c, hpath, hat⟩ := hto.path
  obtain ⟨hsilent, es, sent, hrun⟩ : Silent j.client c ∧ ∃ es sent, (transfer fs storePath).Run j es
      { j with client := c, toServer := j.toServer ++ sent } := run_of_moves hpath hs.quiet j rfl
  obtain ⟨acks₁, hs₁⟩ := sound_reachable (h.run hrun)
  refine ⟨es, sent, c, hrun, hsilent, hat.pc.resolve_right fun hdone => ?_⟩
  have hterm₁ : c.termFlag = true := hs₁.done hdone
  rw [hsilent.termFlag, hterm] at hterm₁
  cases hterm₁

/-- A cell that is not 1 is 0, or not there. -/
theorem getD_of_unmarked {acks : List Ack} (hs : Sound fs j acks) (hcell : j.client.acked[k]? ≠ some 1) :
    j.client.acked.getD k 0 = 0 := by
  rw [ExtTreeMap.getD_eq_getD_getElem?]
  cases hn : j.client.acked[k]? with
  | none => rfl
  | some n =>
    rcases hs.cells k n hn with rfl | ⟨rfl, _⟩
    · rfl
    · exact absurd hn hcell

/-- Some run in which only the client moves leads to a state in which it has just sent a given unmarked fragment. -/
theorem can_send (h : (transfer fs storePath).Reachable j) (hpc : j.client.pc ≠ .done) (hfree : 2 ≤ j.client.free)
    (hd : fs.datagram s o = some d) (hcell : j.client.acked[(⟨s, o⟩ : Pii)]? ≠ some 1) :
    ∃ es j', (transfer fs storePath).Run j es j' ∧ j'.server = j.server ∧ j'.client.pc = .await s o d := by
  obtain ⟨acks, hs⟩ := sound_reachable h
  have hround : j.client.GetsTo fs (· = none) 1 (.send s o) :=
    comes_round ⟨none, rfl⟩ Nat.one_pos hs.quiet (not_exited h (Nat.zero_lt_two.trans_le hfree)) hfree hd
  obtain ⟨es, sent, c, hrun, hsilent, hpc₁, hfree₁⟩ := run_to h hpc hround
  have h₁ := h.run hrun
  obtain ⟨acks₁, hs₁⟩ := sound_reachable h₁
  have hzero : c.acked.getD ⟨s, o⟩ 0 = 0 := getD_of_unmarked hs₁ fun hone => hcell ((hsilent.marks _).1 hone)
  have hgo := go_fragment hpc₁ hfree₁ hd
  rw [if_neg (not_not.2 hzero)] at hgo
  have hst : (transfer fs storePath).step { j with client := c, toServer := j.toServer ++ sent } .go _ := .go hgo
  refine ⟨es ++ [.go], _, hrun.append (.single hst), ?_⟩
  exact ⟨rfl, rfl⟩

/-! ## What was sent in a pass -/

/-- In its pass the client has left the fragment behind. -/
def Pc.Past (s o : Nat) : Pc → Prop
  | .send s' o' => s < s' ∨ (s = s' ∧ o < o')
  | .await s' o' _ => s < s' ∨ (s = s' ∧ o ≤ o')
  | .resend _ => True
  | .head | .awaitAgain .. | .done | .exited | .undefined => False

/-- What is left behind was sent, or is marked. -/
def Covers (fs : Files) (j : Joint) : Prop :=
  ∀ (s o : Nat) (d : Text), fs.datagram s o = some d → j.client.pc.Past s o →
    j.client.acked[(⟨s, o⟩ : Pii)]? = some 1 ∨ d ∈ j.toServer

/-- The indices of the files. -/
def Files.indices (fs : Files) : Finset Int := below fs.list.length

/-- How many parts are recorded. -/
def Server.held (fs : Files) (σ : Server) : Nat := ∑ t ∈ fs.indices, (σ.recordList t).card

/-- All fragments are marked, and the client has not ended. -/
structure Client.Stuck (fs : Files) (c : Client) : Prop where
  running : c.pc ≠ .done
  marked : ∀ s o : Nat, (fs.datagram s o).isSome → c.acked[(⟨s, o⟩ : Pii)]? = some 1

/-- At the head of its outer loop, with `n + 1` descriptors and without replies, the client goes over its files `n`
times, and cannot open the first of them the next time. -/
theorem exit_of_head (hne : fs.list ≠ []) : ∀ (n : Nat) {j : Joint}, (transfer fs storePath).Reachable j →
    j.client.pc = .head → j.client.free = n + 1 → ∃ es j', (transfer fs storePath).Run j es j' ∧
      j'.client.pc = .exited ∧ j'.server = j.server
  | n, j, h, hpc, hfree => by
    have hnot : j.client.pc ≠ .done := by
      rw [hpc]
      exact Pc.noConfusion
    obtain ⟨acks, hs⟩ := sound_reachable h
    have hopen : j.client.go fs = _ := go_head hpc (termFlag_of_not_done h hnot) hfree
    have hst : (transfer fs storePath).step j .go _ := .go hopen
    have h₁ := h.step hst
    cases n with
    | zero =>
      obtain ⟨f, rest, hlist⟩ := List.exists_cons_of_ne_nil hne
      have hexit : Client.go fs { j.client with pc := .send 0 0, free := 0 } = some (_, none) :=
        go_exit rfl rfl (by rw [hlist]; rfl)
      exact ⟨_, _, .cons hst (.single (.go hexit)), rfl, rfl⟩
    | succ n =>
      have hround : Client.GetsTo fs (· = none) (n + 1) .head { j.client with pc := .send 0 0, free := n + 1 } :=
        comes_head ⟨none, rfl⟩ (Nat.zero_lt_succ n) (goOver_quiet hs.quiet hopen) Pc.noConfusion le_rfl
      obtain ⟨es, sent, c, hrun, hsilent, hpc₁, hle⟩ := run_to h₁ Pc.noConfusion hround
      have hfree₁ : c.free = n + 1 := Nat.le_antisymm hsilent.free hle
      obtain ⟨es', j', hrun', hexit, hserver⟩ := exit_of_head hne n (h₁.run hrun) hpc₁ hfree₁
      exact ⟨_, j', (System.Run.single hst).append (hrun.append hrun'), hexit, hserver⟩

/-- **The client can run out of descriptors**, from every state in which it has not ended: some run leads to its end for
want of one. The server receives nothing in it. -/
theorem can_exit (hne : fs.list ≠ []) (h : (transfer fs storePath).Reachable j) (hpc : j.client.pc ≠ .done)
    (hfree : 0 < j.client.free) : ∃ es j', (transfer fs storePath).Run j es j' ∧ j'.client.pc = .exited ∧
      j'.server = j.server := by
  obtain ⟨acks, hs⟩ := sound_reachable h
  have hhead : j.client.GetsTo fs (· = none) j.client.free .head :=
    comes_head ⟨none, rfl⟩ hfree hs.quiet (not_exited h hfree) le_rfl
  obtain ⟨es, sent, c, hrun, hsilent, hpc₁, hle⟩ := run_to h hpc hhead
  obtain ⟨n, hn⟩ := Nat.exists_eq_add_of_le' (hfree.trans_le hle)
  obtain ⟨es', j', hrun', hexit, hserver⟩ := exit_of_head hne n (h.run hrun) hpc₁ hn
  exact ⟨_, j', hrun.append hrun', hexit, hserver⟩

theorem mem_letter {c a : Char} (h : c ∈ [a]) : c = a := List.mem_singleton.1 h

/-- A file of one letter. -/
def letterFile : File where
  name := ['z']
  content := ['z']
  name_ne := List.cons_ne_nil _ _
  name_word c h := mem_letter h ▸ rfl
  name_angle c h := mem_letter h ▸ by decide
  name_short := by decide
  count_int := by decide

def oneFile : Files where
  list := [letterFile]
  count_int := by decide

/-- With 1020 descriptors and no replies, the client ends when the server has nothing. -/
theorem ack_sound_exited : ¬ ∀ (fs : Files) (storePath : Text) (j : Joint) (acks : List Ack),
    (transferLog fs storePath).Reachable (j, acks) → j.client.pc = .done ∨ j.client.pc = .exited →
    ∀ t : Int, 0 ≤ t → t < fs.list.length → j.server.receivedList t = true := by
  intro hall
  have h₀ : (transfer oneFile "out").Reachable ⟨.start 1020, start 1, [], []⟩ := .init ⟨1020, rfl⟩
  obtain ⟨es, j, hrun, hexit, hserver⟩ := exit_of_head (List.cons_ne_nil _ _) 1019 h₀ rfl rfl
  obtain ⟨acks, hlog⟩ : ∃ acks, (transferLog oneFile "out").Reachable (j, acks) := (h₀.run hrun).exists_ghost
  have hreceived := hall oneFile "out" j acks hlog (.inr hexit) 0 le_rfl (by decide)
  rw [hserver] at hreceived
  cases hreceived

end IntroNP.Udp
