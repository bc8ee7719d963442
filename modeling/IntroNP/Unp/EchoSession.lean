import IntroNP.Lib.Pipeline
import IntroNP.Unp.Nonblock

/-!
# The echo session as a pipeline

The bytes of a session pass through seven stages, from the standard input to the standard output (`stages`), and its
end of file through all of them but the last one. `session_refines`: a session does what this pipeline does, so that
every byte comes back, once and in order, and the end of file never overtakes one. `echo_conserves` reads this off.
-/

namespace IntroNP.Unp

open Pipeline

variable {b : Buf} {c : StrCli} {s s' : Session} {call : Call} {n upCap downCap : Nat} {input xs rest left : List Byte}
  {who : Who}

/-! ## The buffers -/

/-- The pointers are in order, in the buffer, and both at its start when nothing is between them. -/
structure Buf.Ok (b : Buf) : Prop where
  optr_le : b.optr ≤ b.bytes.length
  fits : b.bytes.length ≤ MAXLINE
  reset : b.pending = [] → b = .empty

namespace Buf

theorem Ok.empty : Buf.empty.Ok := ⟨le_refl _, Nat.zero_le _, fun _ => rfl⟩

theorem length_pending : b.pending.length = b.bytes.length - b.optr := List.length_drop

theorem Ok.pending_eq_nil (h : b.Ok) : b.pending = [] ↔ b.optr = b.bytes.length := by
  have := h.optr_le
  rw [← List.length_eq_zero_iff, length_pending]
  omega

theorem Ok.pending_put (h : b.Ok) : (b.put xs).pending = b.pending ++ xs := by
  unfold pending put
  exact List.drop_append_of_le_length h.optr_le

theorem Ok.put (h : b.Ok) (hxs : xs ≠ []) (hroom : xs.length ≤ b.room) : (b.put xs).Ok := by
  have hfits := h.fits
  have hoptr := h.optr_le
  unfold room at hroom
  refine ⟨?_, ?_, fun hnil => absurd ?_ hxs⟩
  · unfold Buf.put
    rw [List.length_append]
    dsimp only
    omega
  · unfold Buf.put
    rw [List.length_append]
    omega
  · rw [h.pending_put] at hnil
    exact (List.append_eq_nil_iff.1 hnil).2

theorem pending_took : (b.took n).pending = b.pending.drop n := by
  unfold took
  split
  · rename_i hall
    have hlen : b.pending.length ≤ n := by
      rw [length_pending]
      omega
    rw [List.drop_eq_nil_of_le hlen]
    rfl
  · exact List.drop_drop.symm

theorem Ok.took (h : b.Ok) (hn : n ≤ b.pending.length) : (b.took n).Ok := by
  have hoptr := h.optr_le
  have hlen := hn
  rw [length_pending] at hlen
  unfold Buf.took
  split
  · exact .empty
  · rename_i hsome
    refine ⟨by dsimp only; omega, h.fits, fun hnil => ?_⟩
    have hzero := congrArg List.length hnil
    rw [length_pending, List.length_nil] at hzero
    dsimp only at hzero
    omega

/-- A buffer with nothing in it has room. -/
theorem Ok.room_of_nil (h : b.Ok) (hnil : b.pending = []) : b.bytes.length < MAXLINE := by
  rw [h.reset hnil]
  decide

end Buf

/-! ## What holds of every session -/

/-- The calls of `read` that are to come have room, as they had in front of `select`. -/
structure StrCli.HasRoom (c : StrCli) : Prop where
  stdin : c.pc = .before .readStdin → c.fds .readStdin → c.stdineof = false ∧ c.toBuf.bytes.length < MAXLINE
  sock : c.pc = .before .readStdin ∨ c.pc = .before .readSock → c.fds .readSock → c.frBuf.bytes.length < MAXLINE

/-- After a call the client is at the next one: it has not come to `readStdin`, and it has not ended. -/
theorem next_cases (call : Call) : call.next ≠ .before .readStdin ∧
    (call.next = .before .readSock → call = .readStdin) ∧ call.next ≠ .returned ∧ call.next ≠ .quit := by
  cases call <;> decide

/-- The buffers are as they should, the FIN is sent once all that was read from the standard input is written, and only
then, and nobody has gone too early. -/
structure Sound (s : Session) : Prop where
  toBuf : s.client.toBuf.Ok
  frBuf : s.client.frBuf.Ok
  hasRoom : s.client.HasRoom
  fin : (s.fins = 0 ∧ (s.client.stdineof → s.client.toBuf.pending ≠ [])) ∨
    (s.fins = 1 ∧ s.client.stdineof ∧ s.client.toBuf.pending = [])
  served : s.server = .returned ∨ s.server = .closed → s.fins = 1
  writing : ∀ left, s.server = .writing left → left ≠ []
  returned : s.client.pc = .returned → s.server = .closed
  running : s.client.pc ≠ .quit

theorem Sound.start : Sound (.start input) where
  toBuf := .empty
  frBuf := .empty
  hasRoom := ⟨fun h => Pc.noConfusion h, fun h => by rcases h with h | h <;> exact Pc.noConfusion h⟩
  fin := .inl ⟨rfl, fun h => Bool.noConfusion h⟩
  served h := by rcases h with h | h <;> exact Echo.noConfusion h
  writing _ h := Echo.noConfusion h
  returned h := Pc.noConfusion h
  running h := Pc.noConfusion h

/-- What there is to show after the call `call`. -/
theorem Sound.of_next (call : Call) (hpc : s.client.pc = call.next) (toBuf : s.client.toBuf.Ok)
    (frBuf : s.client.frBuf.Ok)
    (sock : call = .readStdin → s.client.fds .readSock → s.client.frBuf.bytes.length < MAXLINE)
    (fin : (s.fins = 0 ∧ (s.client.stdineof → s.client.toBuf.pending ≠ [])) ∨
      (s.fins = 1 ∧ s.client.stdineof ∧ s.client.toBuf.pending = []))
    (served : s.server = .returned ∨ s.server = .closed → s.fins = 1)
    (writing : ∀ left, s.server = .writing left → left ≠ []) : Sound s where
  toBuf := toBuf
  frBuf := frBuf
  hasRoom := by
    refine ⟨fun h => absurd (hpc.symm.trans h) (next_cases call).1, fun h => ?_⟩
    rw [hpc] at h
    exact sock ((next_cases call).2.1 (h.resolve_left (next_cases call).1))
  fin := fin
  served := served
  writing := writing
  returned h := absurd (hpc.symm.trans h) (next_cases call).2.2.1
  running h := (next_cases call).2.2.2 (hpc.symm.trans h)

theorem Sound.pass (h : Sound s) (hpc : s.client.pc = .before call) : Sound { s with client := s.client.pass call } :=
  .of_next call rfl h.toBuf h.frBuf (fun hcall hfds => h.hasRoom.sock (.inl (hcall ▸ hpc)) hfds) h.fin h.served
    h.writing

theorem Sound.select {ready : Call → Bool} (h : Sound s) (hready : ∀ x, ready x → s.client.asked x) :
    Sound { s with client := s.client.selected ready } where
  toBuf := h.toBuf
  frBuf := h.frBuf
  hasRoom := by
    refine ⟨fun _ hfds => ?_, fun _ hfds => of_decide_eq_true (hready _ hfds)⟩
    obtain ⟨heof, hroom⟩ := Bool.and_eq_true_iff.1 (hready _ hfds)
    exact ⟨Bool.not_eq_true' _ ▸ heof, of_decide_eq_true hroom⟩
  fin := h.fin
  served := h.served
  writing := h.writing
  returned hpc := Pc.noConfusion hpc
  running hpc := Pc.noConfusion hpc

/-- While the client has something to write, the FIN was not sent. -/
theorem Sound.no_fin (h : Sound s) (hsome : s.client.toBuf.pending ≠ []) : s.fins = 0 := by
  rcases h.fin with ⟨h0, _⟩ | ⟨_, _, hnil⟩
  · exact h0
  · exact absurd hnil hsome

/-- As long as the FIN was not sent, the server is there. -/
theorem Sound.serving (h : Sound s) (hfins : s.fins = 0) : ¬(s.server = .returned ∨ s.server = .closed) := fun hs => by
  have := h.served hs
  omega

theorem Sound.readStdin (h : Sound s) (hpc : s.client.pc = .before .readStdin) (hmakes : s.client.makes .readStdin)
    (hread : Reads s.client.toBuf.room s.unread True xs rest) :
    Sound (s.readStdin xs rest) := by
  obtain ⟨heof, hroom⟩ := h.hasRoom.stdin hpc hmakes
  have hfins : s.fins = 0 := by
    rcases h.fin with ⟨h0, _⟩ | ⟨_, h1, _⟩
    · exact h0
    · exact absurd (heof.symm.trans h1) (by decide)
  have hserving := h.serving hfins
  cases xs with
  | nil =>
    refine .of_next .readStdin rfl h.toBuf h.frBuf (fun _ => h.hasRoom.sock (.inl hpc)) ?_
      (fun hs => absurd hs hserving) h.writing
    by_cases hnil : s.client.toBuf.pending = []
    · refine .inr ⟨?_, rfl, hnil⟩
      have := h.toBuf.pending_eq_nil.1 hnil
      simp [Session.readStdin, StrCli.readStdin, this, hfins]
    · refine .inl ⟨?_, fun _ => hnil⟩
      have := mt h.toBuf.pending_eq_nil.2 hnil
      simp [Session.readStdin, StrCli.readStdin, this, hfins]
  | cons x xs =>
    have hlen : (x :: xs).length ≤ s.client.toBuf.room := by
      cases hread with
      | some _ _ hn => exact hn
    refine .of_next .readStdin rfl (h.toBuf.put (List.cons_ne_nil x xs) hlen) h.frBuf (fun _ hfds => ?_)
      (.inl ⟨hfins, fun h1 => ?_⟩) (fun hs => absurd hs hserving) h.writing
    · exact h.hasRoom.sock (.inl hpc) (by simpa [Session.readStdin, StrCli.readStdin] using hfds)
    · exact absurd (heof.symm.trans h1) (by decide)

/-- The client takes the end of the connection for what it should be. -/
theorem Sound.readSock_nil (h : Sound s) (hclosed : s.server = .closed) : (s.client.readSock []).pc = .returned := by
  have hfins := h.served (.inr hclosed)
  have heof : s.client.stdineof = true := by
    rcases h.fin with ⟨h0, _⟩ | ⟨_, h1, _⟩
    · omega
    · exact h1
  simp [StrCli.readSock, heof]

theorem Sound.readSock (h : Sound s) (hpc : s.client.pc = .before .readSock) (hmakes : s.client.makes .readSock)
    (hread : Reads s.client.frBuf.room s.down (s.server = .closed) xs rest) :
    Sound (s.readSock xs rest) := by
  have hroom := h.hasRoom.sock (.inr hpc) hmakes
  cases xs with
  | nil =>
    have hclosed : s.server = .closed := by
      cases hread with
      | none h0 =>
        unfold Buf.room at h0
        omega
      | some _ hxs _ => exact absurd rfl hxs
      | eof _ hended => exact hended
    have hret := h.readSock_nil hclosed
    refine ⟨h.toBuf, h.frBuf, ⟨fun hnext => ?_, fun hnext => ?_⟩, h.fin, h.served, h.writing, fun _ => hclosed,
      fun hnext => ?_⟩
    · exact absurd (hret.symm.trans hnext) (by decide)
    · rcases hnext with hnext | hnext <;> exact absurd (hret.symm.trans hnext) (by decide)
    · exact absurd (hret.symm.trans hnext) (by decide)
  | cons x xs =>
    have hlen : (x :: xs).length ≤ s.client.frBuf.room := by
      cases hread with
      | some _ _ hn => exact hn
    exact .of_next .readSock rfl h.toBuf (h.frBuf.put (List.cons_ne_nil x xs) hlen) (fun hcall => by cases hcall) h.fin
      h.served h.writing

theorem Sound.writeStdout (h : Sound s) (hn : n ≤ s.client.frBuf.pending.length) :
    Sound (s.writeStdout n) :=
  .of_next .writeStdout rfl h.toBuf (h.frBuf.took hn) (fun hcall => by cases hcall) h.fin h.served h.writing

theorem Sound.writeSock (h : Sound s) (hpos : 0 < n) (hn : n ≤ s.client.toBuf.pending.length) :
    Sound (s.writeSock n) := by
  have hsome : s.client.toBuf.pending ≠ [] := List.ne_nil_of_length_pos (by omega)
  have hfins := h.no_fin hsome
  have hserving := h.serving hfins
  refine .of_next .writeSock rfl (h.toBuf.took hn) h.frBuf (fun hcall => by cases hcall) ?_
    (fun hs => absurd hs hserving) h.writing
  have hpending : (s.client.writeSock n).1.toBuf.pending = s.client.toBuf.pending.drop n := Buf.pending_took
  have hall : s.client.toBuf.pending.drop n = [] ↔ s.client.toBuf.optr + n = s.client.toBuf.bytes.length := by
    have hoptr := h.toBuf.optr_le
    rw [Buf.length_pending] at hn
    rw [List.drop_eq_nil_iff, Buf.length_pending]
    omega
  change _ ∨ _ ∧ _ ∧ (s.client.writeSock n).1.toBuf.pending = []
  change _ ∧ (_ → (s.client.writeSock n).1.toBuf.pending ≠ []) ∨ _
  rw [hpending, Ne, hall]
  by_cases hmeet : s.client.toBuf.optr + n = s.client.toBuf.bytes.length
  · cases heof : s.client.stdineof with
    | false =>
      refine .inl ⟨?_, fun h1 => absurd (heof.symm.trans h1) (by decide)⟩
      simp [Session.writeSock, StrCli.writeSock, heof, hfins]
    | true =>
      refine .inr ⟨?_, heof, hmeet⟩
      simp [Session.writeSock, StrCli.writeSock, heof, hfins, hmeet]
  · refine .inl ⟨?_, fun _ => hmeet⟩
    simp [Session.writeSock, StrCli.writeSock, hmeet, hfins]

/-- **Every step keeps this.** -/
theorem Sound.step (h : Sound s) (hst : Session.Step upCap downCap s who s') : Sound s' := by
  cases hst with
  | select _ hready _ => exact h.select fun x hx => (hready x hx).1
  | skip hpc _ => exact h.pass hpc
  | block hpc _ => exact h.pass hpc
  | readStdin hpc hmakes hread => exact h.readStdin hpc hmakes hread
  | readSock hpc hmakes hread => exact h.readSock hpc hmakes hread
  | writeStdout _ _ _ hn => exact h.writeStdout hn
  | writeSock _ _ hpos hn _ => exact h.writeSock hpos hn
  | @read xs rest hserver hread =>
    have hnot : s.client.pc ≠ .returned := fun hpc => by
      rw [h.returned hpc] at hserver
      cases hserver
    cases xs with
    | nil =>
      refine { h with served := fun _ => ?_, writing := fun _ hw => Echo.noConfusion hw,
                      returned := fun hpc => absurd hpc hnot }
      rcases h.fin with ⟨h0, _⟩ | ⟨h1, _⟩
      · cases hread with
        | none h0' => exact absurd h0' (by decide)
        | some _ hxs _ => exact absurd rfl hxs
        | eof _ hended => omega
      · exact h1
    | cons x xs =>
      refine { h with served := fun hs => ?_, writing := fun _ hw => ?_, returned := fun hpc => absurd hpc hnot }
      · rcases hs with hs | hs <;> exact Echo.noConfusion hs
      · exact Echo.writing.inj hw ▸ List.cons_ne_nil x xs
  | @write left n hserver hpos hn hroom =>
    have hnot : s.client.pc ≠ .returned := fun hpc => by
      rw [h.returned hpc] at hserver
      cases hserver
    unfold Session.write Echo.wrote
    split
    · exact { h with
        served := fun hs => by rcases hs with hs | hs <;> exact Echo.noConfusion hs
        writing := fun _ hw => Echo.noConfusion hw
        returned := fun hpc => absurd hpc hnot }
    · rename_i hsome
      refine { h with served := fun hs => ?_, writing := fun _ hw => ?_, returned := fun hpc => absurd hpc hnot }
      · rcases hs with hs | hs <;> exact Echo.noConfusion hs
      · obtain rfl := Echo.writing.inj hw
        rw [Ne, List.drop_eq_nil_iff]
        omega
  | exit hserver => exact { h with
      served := fun _ => h.served (.inl hserver), writing := fun _ hw => Echo.noConfusion hw, returned := fun _ => rfl }

theorem sound (h : (session upCap downCap input).Reachable s) : Sound s := by
  refine h.invariant (P := Sound) ?_ fun _ _ _ _ hs hst => hs.step hst
  rintro _ rfl
  exact .start

/-! ## The pipeline -/

namespace Session

/-- The bytes on their way, by how far they have come. -/
def stages (s : Session) : Nat → List Byte
  | 0 => s.unread
  | 1 => s.client.toBuf.pending
  | 2 => s.up
  | 3 => s.server.left
  | 4 => s.down
  | 5 => s.client.frBuf.pending
  | 6 => s.out
  | _ => []

/-- How far the end of the standard input has come. -/
def ended (s : Session) : Nat :=
  if s.client.pc = .returned then 5
  else
    match s.server with
    | .closed => 4
    | .returned => 3
    | _ => if 0 < s.fins then 2 else if s.client.stdineof then 1 else 0

def toPipeline (s : Session) : Pipeline Byte := ⟨s.stages, s.ended⟩

theorem ended_congr (hpc : s'.client.pc = .returned ↔ s.client.pc = .returned) (hserver : s'.server = s.server)
    (hfins : s'.fins = s.fins) (heof : s'.client.stdineof = s.client.stdineof) : s'.ended = s.ended := by
  unfold ended
  rw [hserver, hfins, heof]
  exact ite_congr (propext hpc) (fun _ => rfl) fun _ => rfl

/-- While the server is there. -/
theorem ended_serving (hpc : s.client.pc ≠ .returned) (hserver : ¬(s.server = .returned ∨ s.server = .closed)) :
    s.ended = if 0 < s.fins then 2 else if s.client.stdineof then 1 else 0 := by
  unfold ended
  rw [if_neg hpc]
  cases hs : s.server with
  | reading => rfl
  | writing left => rfl
  | returned => exact absurd (.inl hs) hserver
  | closed => exact absurd (.inr hs) hserver

/-- Bytes have moved on from stage `i`. -/
theorem flow (i : Nat) (hi : i + 1 < 7) (hxs : xs ≠ []) (hitems : s.stages i = xs ++ rest) (hself : s'.stages i = rest)
    (hsucc : s'.stages (i + 1) = s.stages (i + 1) ++ xs)
    (hne : ∀ j, j ≠ i → j ≠ i + 1 → s'.stages j = s.stages j) (hended : s'.ended = s.ended) :
    (pipeline 7 input).Run s.toPipeline [i] s'.toPipeline := by
  unfold toPipeline
  rw [hended]
  exact run_move (p := ⟨s.stages, s.ended⟩) hi hxs hitems hself hsucc hne

end Session

theorem Sound.flows_readStdin (h : Sound s) (hpc : s.client.pc = .before .readStdin)
    (hmakes : s.client.makes .readStdin) (hread : Reads s.client.toBuf.room s.unread True xs rest) :
    ∃ bs, (pipeline 7 input).Run s.toPipeline bs (s.readStdin xs rest).toPipeline := by
  obtain ⟨heof, hroom⟩ := h.hasRoom.stdin hpc hmakes
  have hfins : s.fins = 0 := by
    rcases h.fin with ⟨h0, _⟩ | ⟨_, h1, _⟩
    · exact h0
    · exact absurd (heof.symm.trans h1) (by decide)
  have hserving := h.serving hfins
  have hended : s.ended = 0 := by
    rw [Session.ended_serving (by rw [hpc]; decide) hserving, hfins, heof]
    rfl
  cases xs with
  | nil =>
    obtain ⟨hunread, rfl⟩ : s.unread = [] ∧ rest = s.unread := by
      cases hread with
      | none h0 =>
        unfold Buf.room at h0
        omega
      | some _ hxs _ => exact absurd rfl hxs
      | eof hnil _ => exact ⟨hnil, rfl⟩
    have hfinish : (pipeline 7 input).Run s.toPipeline [0] ⟨s.stages, 1⟩ := by
      unfold Session.toPipeline
      rw [hended]
      exact run_finish (by decide) hunread
    have hended' := Session.ended_serving (s := s.readStdin [] s.unread) (next_cases .readStdin).2.2.1 hserving
    by_cases hnil : s.client.toBuf.pending = []
    · have hmeet := h.toBuf.pending_eq_nil.1 hnil
      refine ⟨[0, 1], hfinish.append ?_⟩
      have htwo : (s.readStdin [] s.unread).ended = 2 := by
        rw [hended']
        simp [Session.readStdin, StrCli.readStdin, hmeet]
      unfold Session.toPipeline
      rw [htwo]
      exact run_finish (by decide) hnil
    · have hmeet := mt h.toBuf.pending_eq_nil.2 hnil
      refine ⟨[0], ?_⟩
      have hone : (s.readStdin [] s.unread).ended = 1 := by
        rw [hended']
        simp [Session.readStdin, StrCli.readStdin, hmeet, hfins]
      unfold Session.toPipeline
      rw [hone]
      exact hended ▸ hfinish
  | cons x xs =>
    have hunread : s.unread = x :: xs ++ rest := by
      cases hread with
      | some heq _ _ => exact heq
    refine ⟨[0], Session.flow 0 (by decide) (List.cons_ne_nil x xs) hunread rfl h.toBuf.pending_put ?_ ?_⟩
    · intro j hj hj'
      rcases j with _ | _ | _ | _ | _ | _ | _ | j <;> first | rfl | omega
    · refine Session.ended_congr ?_ rfl rfl rfl
      exact iff_of_false (next_cases .readStdin).2.2.1 (by rw [hpc]; decide)

theorem Sound.flows_readSock (h : Sound s) (hpc : s.client.pc = .before .readSock)
    (hmakes : s.client.makes .readSock) (hread : Reads s.client.frBuf.room s.down (s.server = .closed) xs rest) :
    ∃ bs, (pipeline 7 input).Run s.toPipeline bs (s.readSock xs rest).toPipeline := by
  have hroom := h.hasRoom.sock (.inr hpc) hmakes
  cases xs with
  | nil =>
    obtain ⟨hdown, hclosed, rfl⟩ : s.down = [] ∧ s.server = .closed ∧ rest = s.down := by
      cases hread with
      | none h0 =>
        unfold Buf.room at h0
        omega
      | some _ hxs _ => exact absurd rfl hxs
      | eof hnil hended => exact ⟨hnil, hended, rfl⟩
    refine ⟨[4], ?_⟩
    have hended : s.ended = 4 := by
      unfold Session.ended
      rw [hpc, hclosed]
      rfl
    have hended' : (s.readSock [] s.down).ended = 5 := by
      unfold Session.ended
      exact if_pos (h.readSock_nil hclosed)
    unfold Session.toPipeline
    rw [hended, hended']
    exact run_finish (by decide) hdown
  | cons x xs =>
    have hdown : s.down = x :: xs ++ rest := by
      cases hread with
      | some heq _ _ => exact heq
    refine ⟨[4], Session.flow 4 (by decide) (List.cons_ne_nil x xs) hdown rfl h.frBuf.pending_put ?_ ?_⟩
    · intro j hj hj'
      rcases j with _ | _ | _ | _ | _ | _ | _ | j <;> first | rfl | omega
    · refine Session.ended_congr ?_ rfl rfl rfl
      exact iff_of_false (next_cases .readSock).2.2.1 (by rw [hpc]; decide)

theorem flows_writeStdout (hpc : s.client.pc = .before .writeStdout) (hpos : 0 < n)
    (hn : n ≤ s.client.frBuf.pending.length) :
    ∃ bs, (pipeline 7 input).Run s.toPipeline bs (s.writeStdout n).toPipeline := by
  have htake : s.client.frBuf.pending.take n ≠ [] := by
    rw [Ne, List.take_eq_nil_iff, ← List.length_eq_zero_iff]
    omega
  refine ⟨[5], Session.flow 5 (by decide) htake (List.take_append_drop n _).symm Buf.pending_took rfl ?_ ?_⟩
  · intro j hj hj'
    rcases j with _ | _ | _ | _ | _ | _ | _ | j <;> first | rfl | omega
  · refine Session.ended_congr ?_ rfl rfl rfl
    exact iff_of_false (next_cases .writeStdout).2.2.1 (by rw [hpc]; decide)

theorem Sound.flows_writeSock (h : Sound s) (hpc : s.client.pc = .before .writeSock) (hpos : 0 < n)
    (hn : n ≤ s.client.toBuf.pending.length) :
    ∃ bs, (pipeline 7 input).Run s.toPipeline bs (s.writeSock n).toPipeline := by
  have hsome : s.client.toBuf.pending ≠ [] := List.ne_nil_of_length_pos (by omega)
  have hfins := h.no_fin hsome
  have hserving := h.serving hfins
  have htake : s.client.toBuf.pending.take n ≠ [] := by
    rw [Ne, List.take_eq_nil_iff, ← List.length_eq_zero_iff]
    omega
  have hpc' : (s.client.writeSock n).1.pc ≠ .returned := (next_cases .writeSock).2.2.1
  have hended := Session.ended_serving (by rw [hpc]; decide) hserving
  have hmove : (pipeline 7 input).Run s.toPipeline [1] ⟨(s.writeSock n).stages, s.ended⟩ := by
    refine run_move (p := s.toPipeline) (by decide) htake (List.take_append_drop n _).symm Buf.pending_took rfl ?_
    intro j hj hj'
    rcases j with _ | _ | _ | _ | _ | _ | _ | j <;> first | rfl | omega
  by_cases hlast : s.client.toBuf.optr + n = s.client.toBuf.bytes.length ∧ s.client.stdineof
  · have hempty : (s.client.writeSock n).1.toBuf.pending = [] := by
      have hmeet := hlast.1
      refine Buf.pending_took.trans (List.drop_eq_nil_iff.2 ?_)
      rw [Buf.length_pending]
      omega
    refine ⟨[1, 1], hmove.append ?_⟩
    have hone : s.ended = 1 := by
      rw [hended, hfins, hlast.2]
      rfl
    have htwo : (s.writeSock n).ended = 2 := by
      rw [Session.ended_serving (s := s.writeSock n) hpc' hserving]
      simp [Session.writeSock, StrCli.writeSock, hlast]
    unfold Session.toPipeline
    rw [htwo, hone]
    exact run_finish (by decide) hempty
  · refine ⟨[1], ?_⟩
    have hsame : (s.writeSock n).ended = s.ended := by
      refine Session.ended_congr ?_ rfl ?_ rfl
      · exact iff_of_false hpc' (by rw [hpc]; decide)
      · simp [Session.writeSock, StrCli.writeSock, hlast]
    unfold Session.toPipeline at hmove ⊢
    rw [hsame]
    exact hmove

theorem Sound.flows_read (h : Sound s) (hserver : s.server = .reading)
    (hread : Reads MAXLINE s.up (0 < s.fins) xs rest) :
    ∃ bs, (pipeline 7 input).Run s.toPipeline bs (s.read xs rest).toPipeline := by
  have hpc : s.client.pc ≠ .returned := fun hpc => by
    rw [h.returned hpc] at hserver
    cases hserver
  have hended := Session.ended_serving hpc (s := s) (by rw [hserver]; rintro (h | h) <;> cases h)
  cases xs with
  | nil =>
    obtain ⟨hup, hfins, rfl⟩ : s.up = [] ∧ 0 < s.fins ∧ rest = s.up := by
      cases hread with
      | none h0 => exact absurd h0 (by decide)
      | some _ hxs _ => exact absurd rfl hxs
      | eof hnil hended => exact ⟨hnil, hended, rfl⟩
    rw [if_pos hfins] at hended
    have hstages : Session.stages { s with server := .returned } = s.stages := by
      funext j
      rcases j with _ | _ | _ | _ | _ | _ | _ | j <;> try rfl
      change [] = s.server.left
      rw [hserver]
      rfl
    have hended' : Session.ended { s with server := .returned } = 3 := if_neg hpc
    refine ⟨[2], ?_⟩
    change (pipeline 7 input).Run _ _ (Session.toPipeline { s with server := .returned })
    unfold Session.toPipeline
    rw [hended, hended', hstages]
    exact run_finish (by decide) hup
  | cons x xs =>
    have hup : s.up = x :: xs ++ rest := by
      cases hread with
      | some heq _ _ => exact heq
    refine ⟨[2], Session.flow 2 (by decide) (List.cons_ne_nil x xs) hup rfl ?_ ?_ ?_⟩
    · change x :: xs = s.server.left ++ x :: xs
      rw [hserver]
      rfl
    · intro j hj hj'
      rcases j with _ | _ | _ | _ | _ | _ | _ | j <;> first | rfl | omega
    · rw [hended]
      exact Session.ended_serving (s := s.read (x :: xs) rest) hpc
        (by rintro (h | h) <;> cases h)

theorem Sound.flows_write (h : Sound s) (hserver : s.server = .writing left) (hpos : 0 < n) (hn : n ≤ left.length) :
    ∃ bs, (pipeline 7 input).Run s.toPipeline bs (s.write left n).toPipeline := by
  have hpc : s.client.pc ≠ .returned := fun hpc => by
    rw [h.returned hpc] at hserver
    cases hserver
  have hended := Session.ended_serving hpc (s := s) (by rw [hserver]; rintro (h | h) <;> cases h)
  have htake : left.take n ≠ [] := by
    rw [Ne, List.take_eq_nil_iff, ← List.length_eq_zero_iff]
    omega
  have hitems : s.stages 3 = left.take n ++ left.drop n := by
    rw [List.take_append_drop]
    unfold Session.stages
    rw [hserver]
    rfl
  refine ⟨[3], Session.flow 3 (by decide) htake hitems Echo.left_wrote rfl ?_ ?_⟩
  · intro j hj hj'
    rcases j with _ | _ | _ | _ | _ | _ | _ | j <;> first | rfl | omega
  · rw [hended]
    refine Session.ended_serving (s := s.write left n) hpc ?_
    unfold Session.write Echo.wrote
    split <;> rintro (h | h) <;> cases h

theorem Sound.flows_exit (h : Sound s) (hserver : s.server = .returned) :
    ∃ bs, (pipeline 7 input).Run s.toPipeline bs (Session.toPipeline { s with server := .closed }) := by
  have hpc : s.client.pc ≠ .returned := fun hpc => by
    rw [h.returned hpc] at hserver
    cases hserver
  have hstages : Session.stages { s with server := .closed } = s.stages := by
    funext j
    rcases j with _ | _ | _ | _ | _ | _ | _ | j <;> try rfl
    change [] = s.server.left
    rw [hserver]
    rfl
  have hleft : s.stages 3 = [] := by
    rw [← hstages]
    rfl
  have hended : s.ended = 3 := by
    unfold Session.ended
    rw [if_neg hpc, hserver]
  have hended' : Session.ended { s with server := .closed } = 4 := if_neg hpc
  refine ⟨[3], ?_⟩
  unfold Session.toPipeline
  rw [hended, hended', hstages]
  exact run_finish (by decide) hleft

/-- **A session does what the pipeline does.** -/
theorem session_refines : (session upCap downCap input).Refinement (pipeline 7 input) fun s p => p = s.toPipeline where
  init := by
    rintro _ rfl
    refine ⟨_, rfl, ?_⟩
    refine congrArg₂ Pipeline.mk (funext fun j => ?_) rfl
    rcases j with _ | _ | _ | _ | _ | _ | _ | j <;> rfl
  step := by
    rintro s a s' _ hs rfl hst
    have h := sound hs
    suffices hrun : ∃ bs, (pipeline 7 input).Run s.toPipeline bs s'.toPipeline by
      obtain ⟨bs, hrun⟩ := hrun
      exact ⟨bs, _, hrun, rfl⟩
    -- a step that moves nothing
    have hidle : ∀ {c : StrCli}, s.client.pc ≠ .returned → c.pc ≠ .returned → c.toBuf = s.client.toBuf →
        c.frBuf = s.client.frBuf → c.stdineof = s.client.stdineof →
        ∃ bs, (pipeline 7 input).Run s.toPipeline bs (Session.toPipeline { s with client := c }) := by
      intro c hpc hpc' hto hfr heof
      refine ⟨[], ?_⟩
      have hended : Session.ended { s with client := c } = s.ended :=
        Session.ended_congr (iff_of_false hpc' hpc) rfl rfl heof
      have hstages : Session.stages { s with client := c } = s.stages := by
        funext j
        unfold Session.stages
        rw [hto, hfr]
      unfold Session.toPipeline
      rw [hended, hstages]
      exact .nil _
    cases hst with
    | select hpc hready hsome => exact hidle (by rw [hpc]; decide) Pc.noConfusion rfl rfl rfl
    | @skip call hpc _ => exact hidle (by rw [hpc]; exact Pc.noConfusion) (next_cases call).2.2.1 rfl rfl rfl
    | @block call hpc _ => exact hidle (by rw [hpc]; exact Pc.noConfusion) (next_cases call).2.2.1 rfl rfl rfl
    | readStdin hpc hmakes hread => exact h.flows_readStdin hpc hmakes hread
    | readSock hpc hmakes hread => exact h.flows_readSock hpc hmakes hread
    | writeStdout hpc hmakes hpos hn => exact flows_writeStdout hpc hpos hn
    | writeSock hpc hmakes hpos hn _ => exact h.flows_writeSock hpc hpos hn
    | read hserver hread => exact h.flows_read hserver hread
    | write hserver hpos hn _ => exact h.flows_write hserver hpos hn
    | exit hserver => exact h.flows_exit hserver

theorem reachable_toPipeline (h : (session upCap downCap input).Reachable s) :
    (pipeline 7 input).Reachable s.toPipeline := by
  obtain ⟨_, hp, rfl⟩ := session_refines.reachable h
  exact hp

theorem Session.two_le_ended (h : 0 < s.fins) : 2 ≤ s.ended := by
  unfold Session.ended
  split
  · decide
  · split
    · decide
    · decide
    · exact le_refl 2

/-- No byte is lost, doubled or overtaken on its way, and none comes from elsewhere. -/
theorem echo_conserved (h : (session upCap downCap input).Reachable s) :
    s.out ++ (s.client.frBuf.pending ++ (s.down ++ (s.server.left ++ (s.up ++ (s.client.toBuf.pending ++ s.unread))))) =
      input := by
  have hcontents : s.out ++ (s.client.frBuf.pending ++ (s.down ++ (s.server.left ++ (s.up ++
      (s.client.toBuf.pending ++ (s.unread ++ [])))))) = input :=
    contents_reachable (by decide) (reachable_toPipeline h)
  rwa [List.append_nil] at hcontents

/-- **A session, wherever it is.** The bytes of the input are on their way in order; the FIN was sent at most once, and
behind all of them; nothing was read behind the end of a buffer; the client did not take the server for one that
terminated prematurely; and if it has returned, what is not on its standard output is in its buffer `fr`. -/
theorem echo_safe (h : (session upCap downCap input).Reachable s) :
    s.out ++ (s.client.frBuf.pending ++ (s.down ++ (s.server.left ++ (s.up ++ (s.client.toBuf.pending ++ s.unread))))) =
      input ∧
    (s.fins = 0 ∨ s.fins = 1 ∧ s.unread = [] ∧ s.client.toBuf.pending = []) ∧
    s.client.toBuf.bytes.length ≤ MAXLINE ∧ s.client.frBuf.bytes.length ≤ MAXLINE ∧
    s.client.pc ≠ .quit ∧
    (s.client.pc = .returned → s.out ++ s.client.frBuf.pending = input) := by
  have hs := sound h
  have hcontents := echo_conserved h
  have hempty := items_of_ended (reachable_toPipeline h)
  refine ⟨hcontents, ?_, hs.toBuf.fits, hs.frBuf.fits, hs.running, fun hpc => ?_⟩
  · rcases hs.fin with ⟨h0, _⟩ | ⟨h1, _, hnil⟩
    · exact .inl h0
    · have hended : 2 ≤ s.toPipeline.ended := Session.two_le_ended (by omega)
      exact .inr ⟨h1, hempty 0 (by omega), hnil⟩
  · have hended : s.toPipeline.ended = 5 := if_pos hpc
    have h0 : s.unread = [] := hempty 0 (by omega)
    have h1 : s.client.toBuf.pending = [] := hempty 1 (by omega)
    have h2 : s.up = [] := hempty 2 (by omega)
    have h3 : s.server.left = [] := hempty 3 (by omega)
    have h4 : s.down = [] := hempty 4 (by omega)
    rw [h0, h1, h2, h3, h4] at hcontents
    simpa using hcontents

/-- Five bytes, in five places: on the standard output, on their way back, on their way to the server, in `to`, and not
read yet. -/
theorem echo_safe_five : ∃ s, (session 4 4 [104, 105, 106, 107, 108]).Reachable s ∧ s.out = [104] ∧ s.down = [105] ∧
    s.up = [106] ∧ s.client.toBuf.pending = [107] ∧ s.unread = [108] ∧
    s.out ++ (s.client.frBuf.pending ++ (s.down ++ (s.server.left ++ (s.up ++
      (s.client.toBuf.pending ++ s.unread))))) = [104, 105, 106, 107, 108] ∧ s.client.pc ≠ .quit := by
  have go : ∀ {s who s'}, (session 4 4 [104, 105, 106, 107, 108]).Reachable s → Session.Step 4 4 s who s' →
      (session 4 4 [104, 105, 106, 107, 108]).Reachable s' := fun h hst => h.step hst
  let stdin : Call → Bool := fun x => x = .readStdin
  let sock : Call → Bool := fun x => x = .readSock
  have hin : ∀ x, stdin x → (Session.start [104, 105, 106, 107, 108]).client.asked x ∧
      (Session.start [104, 105, 106, 107, 108]).ready 4 x := fun x hx => by
    cases of_decide_eq_true hx
    exact ⟨by decide, trivial⟩
  have h₀ : (session 4 4 [104, 105, 106, 107, 108]).Reachable (.start [104, 105, 106, 107, 108]) := .init rfl
  -- the client reads four bytes and writes three
  have h₁ := go h₀ (.select rfl hin ⟨.readStdin, rfl⟩)
  have h₂ := go h₁ (.readStdin rfl rfl
    (show Reads MAXLINE [104, 105, 106, 107, 108] True [104, 105, 106, 107] [108] from .some rfl (by decide) (by decide)))
  have h₃ := go h₂ (.skip rfl rfl)
  have h₄ := go h₃ (.skip rfl rfl)
  have h₅ := go h₄ (.writeSock (n := 3) rfl rfl (by decide) (by decide) (by decide))
  -- the server reads two and writes one
  have h₆ := go h₅ (.read rfl
    (show Reads MAXLINE [104, 105, 106] (0 < 0) [104, 105] [106] from .some rfl (by decide) (by decide)))
  have h₇ := go h₆ (.write (n := 1) rfl (by decide) (by decide) (by decide))
  -- the client reads it and gives it to the standard output
  have h₈ := go h₇ (.select rfl (show ∀ x, sock x → _ ∧ _ from fun x hx => by
    cases of_decide_eq_true hx
    exact ⟨by decide, .inl (by decide)⟩) ⟨.readSock, rfl⟩)
  have h₉ := go h₈ (.skip rfl rfl)
  have h₁₀ := go h₉ (.readSock rfl rfl
    (show Reads MAXLINE [104] _ [104] [] from .some rfl (by decide) (by decide)))
  have h₁₁ := go h₁₀ (.writeStdout (n := 1) rfl rfl (by decide) (by decide))
  have h₁₂ := go h₁₁ (.write (n := 1) rfl (by decide) (by decide) (by decide))
  obtain ⟨hcontents, _, _, _, hrunning, _⟩ := echo_safe h₁₂
  exact ⟨_, h₁₂, rfl, rfl, rfl, rfl, rfl, hcontents, hrunning⟩

end IntroNP.Unp
