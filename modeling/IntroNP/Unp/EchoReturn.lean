import IntroNP.Unp.EchoSession

/-!
# The echo session ends

Whatever a session has come to, it can go on until the client returns (`echo_can_return`): the client never waits for
the one stream while the other one could move, so that client and server do not come to wait for each other. The measure
is the work of the pipeline, which `advance` finds something to take from.
-/

namespace IntroNP.Unp

open Pipeline

variable {s s' : Session} {call : Call} {upCap downCap : Nat} {input left : List Byte} {as : List Who}

/-! ## The client goes on -/

theorem step_pass (hpc : s.client.pc = .before call) :
    Session.Step upCap downCap s .client { s with client := s.client.pass call } := by
  cases hmakes : s.client.makes call with
  | true => exact .block hpc hmakes
  | false => exact .skip hpc hmakes

/-- The client with other bits, at another place. -/
def Session.moved (s : Session) (fds : Call → Bool) (pc : Pc) : Session :=
  { s with client := { s.client with fds, pc } }

/-- The client goes back to `select`, and makes no call on its way. -/
theorem run_to_select (hreturned : s.client.pc ≠ .returned) (hquit : s.client.pc ≠ .quit) :
    ∃ as, (session upCap downCap input).Run s as (s.moved s.client.fds .select) := by
  have h4 : ∀ {s : Session}, s.client.pc = .before .writeSock →
      ∃ as, (session upCap downCap input).Run s as (s.moved s.client.fds .select) :=
    fun hpc => ⟨_, .single (step_pass hpc)⟩
  have h3 : ∀ {s : Session}, s.client.pc = .before .writeStdout →
      ∃ as, (session upCap downCap input).Run s as (s.moved s.client.fds .select) := fun {s} hpc => by
    obtain ⟨as, hrun⟩ := h4 (s := { s with client := s.client.pass .writeStdout }) rfl
    exact ⟨_, .cons (step_pass hpc) hrun⟩
  have h2 : ∀ {s : Session}, s.client.pc = .before .readSock →
      ∃ as, (session upCap downCap input).Run s as (s.moved s.client.fds .select) := fun {s} hpc => by
    obtain ⟨as, hrun⟩ := h3 (s := { s with client := s.client.pass .readSock }) rfl
    exact ⟨_, .cons (step_pass hpc) hrun⟩
  cases hpc : s.client.pc with
  | select =>
    have hsame : s.moved s.client.fds .select = s := by
      rw [← hpc]
      rfl
    rw [hsame]
    exact ⟨[], .nil s⟩
  | before call =>
    cases call with
    | readStdin =>
      obtain ⟨as, hrun⟩ := h2 (s := { s with client := s.client.pass .readStdin }) rfl
      exact ⟨_, .cons (step_pass hpc) hrun⟩
    | readSock => exact h2 hpc
    | writeStdout => exact h3 hpc
    | writeSock => exact h4 hpc
  | returned => exact absurd hpc hreturned
  | quit => exact absurd hpc hquit

/-- From `select` the client comes to the call that `select` allows. -/
theorem run_to_call (hasked : s.client.asked call) (hready : s.ready upCap call) :
    ∃ as, (session upCap downCap input).Run (s.moved s.client.fds .select) as
      (s.moved (fun x => decide (x = call)) (.before call)) := by
  have hselect : (session upCap downCap input).step (s.moved s.client.fds .select) .client
      (s.moved (fun x => decide (x = call)) (.before .readStdin)) := by
    refine .select rfl (fun x hx => ?_) ⟨call, decide_eq_true rfl⟩
    obtain rfl := of_decide_eq_true hx
    exact ⟨hasked, hready⟩
  have hskip : ∀ {x : Call}, x ≠ call → (session upCap downCap input).step
      (s.moved (fun x => decide (x = call)) (.before x)) .client (s.moved (fun x => decide (x = call)) x.next) := by
    intro x hx
    refine .skip rfl ?_
    cases x <;> simp [StrCli.makes, Session.moved, hx]
  cases call with
  | readStdin => exact ⟨_, .single hselect⟩
  | readSock => exact ⟨_, .cons hselect (.single (hskip (x := .readStdin) (by decide)))⟩
  | writeStdout =>
    exact ⟨_, .cons hselect (.cons (hskip (x := .readStdin) (by decide))
      (.single (hskip (x := .readSock) (by decide))))⟩
  | writeSock =>
    exact ⟨_, .cons hselect (.cons (hskip (x := .readStdin) (by decide))
      (.cons (hskip (x := .readSock) (by decide)) (.single (hskip (x := .writeStdout) (by decide)))))⟩

/-- **The client makes the call**, if it would ask for it and it is ready. -/
theorem run_call (h : Sound s) (hreturned : s.client.pc ≠ .returned) (call : Call) (hasked : s.client.asked call)
    (hready : s.ready upCap call) :
    ∃ fds as, (session upCap downCap input).Run s as (s.moved fds (.before call)) ∧
      (s.moved fds (.before call)).client.makes call := by
  obtain ⟨as, has⟩ := run_to_select hreturned h.running
  obtain ⟨bs, hbs⟩ := run_to_call hasked hready
  refine ⟨_, _, has.append hbs, ?_⟩
  have hto := h.toBuf.optr_le
  have hfr := h.frBuf.optr_le
  cases call with
  | readStdin | readSock => simp [StrCli.makes, Session.moved]
  | writeStdout =>
    have hne := of_decide_eq_true hasked
    simp only [StrCli.makes, Session.moved, decide_true, Bool.true_and]
    exact decide_eq_true (Nat.sub_pos_of_lt (lt_of_le_of_ne hfr hne))
  | writeSock =>
    have hne := of_decide_eq_true hasked
    simp only [StrCli.makes, Session.moved, decide_true, Bool.true_and]
    exact decide_eq_true (Nat.sub_pos_of_lt (lt_of_le_of_ne hto hne))

/-! ## Something moves -/

/-- A run that does something to the pipeline takes from its work. -/
theorem work_lt (h : (session upCap downCap input).Reachable s) (hrun : (session upCap downCap input).Run s as s')
    (hne : s'.toPipeline ≠ s.toPipeline) : work 7 s'.toPipeline < work 7 s.toPipeline := by
  obtain ⟨bs, _, hbs, rfl⟩ := session_refines.run hrun h rfl
  have hle := run_work_le hbs
  cases bs with
  | nil => exact absurd hbs.eq_of_nil hne
  | cons b bs =>
    rw [List.length_cons] at hle
    omega

theorem toPipeline_ne_of_stages (i : Nat) (h : (s'.stages i).length ≠ (s.stages i).length) :
    s'.toPipeline ≠ s.toPipeline := fun he =>
  h (congrArg (fun p : Pipeline Byte => (p.items i).length) he)

theorem toPipeline_ne_of_ended (h : s'.ended ≠ s.ended) : s'.toPipeline ≠ s.toPipeline := fun he =>
  h (congrArg Pipeline.ended he)

theorem one_le : 1 ≤ MAXLINE := by decide

/-- A step of the server that does something. -/
theorem advance_server (h : Sound s) (hDown : 0 < downCap) (hdown : s.down = []) (hclosed : s.server ≠ .closed)
    (hmore : s.server = .reading → s.up ≠ [] ∨ 0 < s.fins) :
    ∃ as s', (session upCap downCap input).Run s as s' ∧ s'.toPipeline ≠ s.toPipeline ∧ s'.out = s.out ∧
      s'.client = s.client := by
  have hpc : s.client.pc ≠ .returned := fun hpc => hclosed (h.returned hpc)
  cases hserver : s.server with
  | reading =>
    cases hup : s.up with
    | cons x xs =>
      have hread : Reads MAXLINE s.up (0 < s.fins) [x] xs := .some hup (List.cons_ne_nil x []) one_le
      refine ⟨_, _, .single (.read hserver hread), ?_, rfl, rfl⟩
      refine toPipeline_ne_of_stages 2 ?_
      change xs.length ≠ s.up.length
      rw [hup, List.length_cons]
      omega
    | nil =>
      have hfins : 0 < s.fins := (hmore hserver).resolve_left fun hne => hne hup
      refine ⟨_, _, .single (.read hserver (.eof hup hfins)), toPipeline_ne_of_ended ?_, rfl, rfl⟩
      have hended : s.ended = 2 := by
        rw [Session.ended_serving hpc (by rw [hserver]; rintro (h | h) <;> cases h), if_pos hfins]
      have hended' : (s.read [] s.up).ended = 3 := if_neg hpc
      omega
  | writing left =>
    have hpos : 0 < left.length := List.length_pos_iff.2 (h.writing left hserver)
    refine ⟨_, _, .single (.write (n := 1) hserver Nat.one_pos hpos (by rw [hdown]; exact hDown)), ?_, rfl, rfl⟩
    refine toPipeline_ne_of_stages 4 ?_
    change (s.down ++ left.take 1).length ≠ s.down.length
    rw [List.length_append, List.length_take]
    omega
  | returned =>
    refine ⟨_, _, .single (.exit hserver), toPipeline_ne_of_ended ?_, rfl, rfl⟩
    have hended : s.ended = 3 := by
      unfold Session.ended
      rw [if_neg hpc, hserver]
    have hended' : Session.ended { s with server := .closed } = 4 := if_neg hpc
    omega
  | closed => exact absurd hserver hclosed

/-- The standard output takes a byte. -/
theorem advance_stdout (h : Sound s) (hreturned : s.client.pc ≠ .returned) (hfr : s.client.frBuf.pending ≠ []) :
    ∃ as s', (session upCap downCap input).Run s as s' ∧ s'.toPipeline ≠ s.toPipeline ∧
      s'.out = s.out ++ s.client.frBuf.pending.take 1 ∧ s'.client.frBuf = s.client.frBuf.took 1 := by
  have hpos : 0 < s.client.frBuf.pending.length := List.length_pos_iff.2 hfr
  obtain ⟨_, as, has, hmakes⟩ := run_call h hreturned .writeStdout
    (decide_eq_true (mt h.frBuf.pending_eq_nil.2 hfr)) trivial
  refine ⟨_, _, has.append (.single (.writeStdout rfl hmakes Nat.one_pos hpos)), ?_, rfl, rfl⟩
  refine toPipeline_ne_of_stages 6 ?_
  change (s.out ++ s.client.frBuf.pending.take 1).length ≠ s.out.length
  rw [List.length_append, List.length_take]
  omega

/-- The client reads a byte from its standard input, or finds its end. -/
theorem advance_stdin (h : Sound s) (hreturned : s.client.pc ≠ .returned) (hfins : s.fins = 0)
    (hto : s.client.toBuf.pending = []) : ∃ as s', (session upCap downCap input).Run s as s' ∧
      s'.toPipeline ≠ s.toPipeline ∧ s'.out = s.out ∧ s'.client.frBuf = s.client.frBuf := by
  have heof : s.client.stdineof = false := by
    rcases h.fin with ⟨_, hne⟩ | ⟨h1, _⟩
    · exact Bool.eq_false_iff.2 fun h1 => hne h1 hto
    · omega
  have hroom := h.toBuf.room_of_nil hto
  obtain ⟨_, as, has, hmakes⟩ := run_call h hreturned .readStdin (by simp [StrCli.asked, heof, hroom]) trivial
  cases hunread : s.unread with
  | cons x xs =>
    have hread : Reads s.client.toBuf.room s.unread True [x] xs :=
      .some hunread (List.cons_ne_nil x []) (Nat.sub_pos_of_lt hroom)
    refine ⟨_, _, has.append (.single (.readStdin rfl hmakes hread)), ?_, rfl, rfl⟩
    refine toPipeline_ne_of_stages 0 ?_
    change xs.length ≠ s.unread.length
    rw [hunread, List.length_cons]
    omega
  | nil =>
    refine ⟨_, _, has.append (.single (.readStdin rfl hmakes (.eof hunread trivial))), ?_, rfl, rfl⟩
    have hended : s.ended = 0 := by
      rw [Session.ended_serving hreturned (h.serving hfins), hfins, heof]
      rfl
    have hmeet := h.toBuf.pending_eq_nil.1 hto
    refine toPipeline_ne_of_ended (ne_of_gt (hended ▸ lt_of_lt_of_le Nat.two_pos (Session.two_le_ended ?_)))
    simp [Session.readStdin, Session.moved, StrCli.readStdin, hmeet]

/-- The socket takes a byte. -/
theorem advance_sock (h : Sound s) (hreturned : s.client.pc ≠ .returned) (hroom : s.up.length < upCap)
    (hto : s.client.toBuf.pending ≠ []) : ∃ as s', (session upCap downCap input).Run s as s' ∧
      s'.toPipeline ≠ s.toPipeline ∧ s'.out = s.out ∧ s'.client.frBuf = s.client.frBuf := by
  have hpos : 0 < s.client.toBuf.pending.length := List.length_pos_iff.2 hto
  obtain ⟨_, as, has, hmakes⟩ := run_call h hreturned .writeSock
    (decide_eq_true (mt h.toBuf.pending_eq_nil.2 hto)) hroom
  refine ⟨_, _, has.append (.single (.writeSock rfl hmakes Nat.one_pos hpos hroom)), ?_, rfl, rfl⟩
  refine toPipeline_ne_of_stages 2 ?_
  change (s.up ++ s.client.toBuf.pending.take 1).length ≠ s.up.length
  rw [List.length_append, List.length_take]
  omega

/-- **There is always something to do**, even if nothing is written on the standard output, as long as `fr` has room. -/
theorem advance (hUp : 0 < upCap) (hDown : 0 < downCap) (h : Sound s) (hreturned : s.client.pc ≠ .returned)
    (hroom : s.client.frBuf.bytes.length < MAXLINE) :
    ∃ as s', (session upCap downCap input).Run s as s' ∧
      (s'.client.pc = .returned ∨ s'.toPipeline ≠ s.toPipeline) ∧ s'.out = s.out ∧
      (s'.client.frBuf = s.client.frBuf ∨ s.down ≠ [] ∧ ∃ x, s'.client.frBuf = s.client.frBuf.put [x]) := by
  cases hdown : s.down with
  | cons x xs =>
    obtain ⟨_, as, has, hmakes⟩ := run_call h hreturned .readSock (decide_eq_true hroom)
      (.inl (by rw [hdown]; exact List.cons_ne_nil x xs))
    have hread : Reads s.client.frBuf.room s.down (s.server = .closed) [x] xs :=
      .some hdown (List.cons_ne_nil x []) (Nat.sub_pos_of_lt hroom)
    refine ⟨_, _, has.append (.single (.readSock rfl hmakes hread)), .inr ?_, rfl,
      .inr ⟨List.cons_ne_nil x xs, x, rfl⟩⟩
    refine toPipeline_ne_of_stages 4 ?_
    change xs.length ≠ s.down.length
    rw [hdown, List.length_cons]
    omega
  | nil =>
    by_cases hclosed : s.server = .closed
    · -- the client finds the end of the connection
      obtain ⟨_, as, has, hmakes⟩ := run_call h hreturned .readSock (decide_eq_true hroom) (.inr hclosed)
      exact ⟨_, _, has.append (.single (.readSock rfl hmakes (.eof hdown hclosed))), .inl (h.readSock_nil hclosed), rfl,
        .inl rfl⟩
    by_cases hmore : s.server = .reading → s.up ≠ [] ∨ 0 < s.fins
    · obtain ⟨as, s', hrun, hne, hout, hclient⟩ : ∃ as s', (session upCap downCap input).Run s as s' ∧
          s'.toPipeline ≠ s.toPipeline ∧ s'.out = s.out ∧ s'.client = s.client :=
        advance_server h hDown hdown hclosed hmore
      exact ⟨as, s', hrun, .inr hne, hout, .inl (congrArg StrCli.frBuf hclient)⟩
    obtain ⟨_, hnot⟩ := Classical.not_imp.1 hmore
    obtain ⟨hup, hfins⟩ := not_or.1 hnot
    have hup : s.up = [] := not_not.1 hup
    by_cases hto : s.client.toBuf.pending = []
    · obtain ⟨as, s', hrun, hne, hout, hfr⟩ := advance_stdin h hreturned (by omega) hto
      exact ⟨as, s', hrun, .inr hne, hout, .inl hfr⟩
    · have hroom' : s.up.length < upCap := by rwa [hup]
      obtain ⟨as, s', hrun, hne, hout, hfr⟩ := advance_sock h hreturned hroom' hto
      exact ⟨as, s', hrun, .inr hne, hout, .inl hfr⟩

/-! ## The end of a session -/

/-- **The client can always return.** Wherever a session is, it can go on until all that was read from the standard
input has come back. -/
theorem echo_can_return (hUp : 0 < upCap) (hDown : 0 < downCap) (h : (session upCap downCap input).Reachable s) :
    ∃ as s', (session upCap downCap input).Run s as s' ∧ s'.client.pc = .returned := by
  generalize hw : work 7 s.toPipeline = w
  induction w using Nat.strong_induction_on generalizing s with
  | _ w ih =>
    subst hw
    by_cases hreturned : s.client.pc = .returned
    · exact ⟨[], s, .nil s, hreturned⟩
    have hs := sound h
    obtain ⟨as, s', hrun, hmoved⟩ : ∃ as s', (session upCap downCap input).Run s as s' ∧
        (s'.client.pc = .returned ∨ s'.toPipeline ≠ s.toPipeline) := by
      by_cases hfr : s.client.frBuf.pending = []
      · obtain ⟨as, s', hrun, hmoved, _⟩ := advance hUp hDown hs hreturned (hs.frBuf.room_of_nil hfr)
        exact ⟨as, s', hrun, hmoved⟩
      · obtain ⟨as, s', hrun, hne, _⟩ := advance_stdout hs hreturned hfr
        exact ⟨as, s', hrun, .inr hne⟩
    rcases hmoved with hdone | hne
    · exact ⟨as, s', hrun, hdone⟩
    · obtain ⟨bs, t, hbs, ht⟩ := ih _ (work_lt h hrun hne) (h.run hrun) rfl
      exact ⟨as ++ bs, t, hrun.append hbs, ht⟩

/-- At the start, over a connection that takes one byte each way. -/
theorem echo_can_return_narrow : ∃ as s', (session 1 1 [104, 105]).Run (.start [104, 105]) as s' ∧
    s'.client.pc = .returned :=
  echo_can_return Nat.one_pos Nat.one_pos (.init rfl)

/-- From where `fr` holds at most one byte, the session can come to an end without the last byte. -/
theorem exists_short_end (hUp : 0 < upCap) (hDown : 0 < downCap) (h : (session upCap downCap input).Reachable s)
    (hfr : s.client.frBuf.bytes.length ≤ 1) (hout : s.out.length < input.length) :
    ∃ s', (session upCap downCap input).Reachable s' ∧ s'.client.pc = .returned ∧ s'.out.length < input.length := by
  generalize hw : work 7 s.toPipeline = w
  induction w using Nat.strong_induction_on generalizing s with
  | _ w ih =>
    subst hw
    by_cases hreturned : s.client.pc = .returned
    · exact ⟨s, h, hreturned, hout⟩
    have hs := sound h
    have hroom : s.client.frBuf.bytes.length < MAXLINE := lt_of_le_of_lt hfr (by decide)
    by_cases hwrite : s.client.frBuf.pending ≠ [] ∧ s.out.length + 1 < input.length
    · obtain ⟨as, s', hrun, hne, hout', hfr'⟩ := advance_stdout hs hreturned hwrite.1
      refine ih _ (work_lt h hrun hne) (h.run hrun) ?_ ?_ rfl
      · rw [hfr']
        unfold Buf.took
        split
        · exact Nat.zero_le 1
        · exact hfr
      · rw [hout', List.length_append, List.length_take]
        omega
    · obtain ⟨as, s', hrun, hmoved, hout', hfr'⟩ := advance hUp hDown hs hreturned hroom
      rcases hmoved with hdone | hne
      · exact ⟨s', h.run hrun, hdone, hout' ▸ hout⟩
      refine ih _ (work_lt h hrun hne) (h.run hrun) ?_ (hout' ▸ hout) rfl
      rcases hfr' with hsame | ⟨hdown, x, hput⟩
      · rw [hsame]
        exact hfr
      · have hlength := congrArg List.length (echo_conserved h)
        have hpos : 0 < s.down.length := List.length_pos_iff.2 hdown
        simp only [List.length_append] at hlength
        have hnil : s.client.frBuf.pending = [] := by
          by_contra hne
          have := List.length_pos_iff.2 hne
          exact hwrite ⟨hne, by omega⟩
        rw [hput, hs.frBuf.reset hnil]
        exact le_refl 1

/-- **What the client may leave behind.** It returns as soon as it finds the end of the connection, whatever is in its
buffer `fr`: unless there is no input, it can be that not all of it is on the standard output then. -/
theorem echo_may_lose (hUp : 0 < upCap) (hDown : 0 < downCap) (hinput : input ≠ []) :
    ∃ s, (session upCap downCap input).Reachable s ∧ s.client.pc = .returned ∧ s.out.length < input.length :=
  exists_short_end hUp hDown (.init rfl) (Nat.zero_le 1) (List.length_pos_iff.2 hinput)

/-- One letter, which is read, sent, echoed and received. -/
theorem echo_may_lose_letter : ∃ s, (session 1 1 [104]).Reachable s ∧ s.client.pc = .returned ∧
    s.out.length < [(104 : Byte)].length :=
  echo_may_lose Nat.one_pos Nat.one_pos (List.cons_ne_nil _ _)

end IntroNP.Unp
