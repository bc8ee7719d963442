import IntroNP.Lib.Bytes
import IntroNP.Lib.Ring
import IntroNP.Lib.System
import Mathlib

/-!
# The echo server with `SIGIO`

`sigio/dgecho01.c`: the signal handler reads datagrams into a ring of buffers, and the main loop sends them back. The
handler may run between any two steps of the main loop in which the signal is not blocked, and datagrams arrive at any
time.

- `dgecho_echoes`: what is sent is what has arrived, in its order, and no buffer is used again too early;
- `dgecho_answers`: everything is answered, unless datagrams were there before the signal was turned on, or the handler
  runs before the socket is nonblocking;
- `dgecho_quits_iff`: for which numbers of datagrams the program may end by its test for an overflow.
-/

namespace IntroNP.Unp

def QSIZE : Nat := 8

def MAXDG : Nat := 4096

/-- A datagram, with the address of its client. -/
structure DG where
  data : List Byte
  sa : Nat
  deriving DecidableEq

/-- What `recvfrom` gives of a datagram. -/
def DG.cut (d : DG) : DG := { d with data := d.data.take MAXDG }

/-- Where the main loop is: in front of the `Ioctl` for `FIONBIO`, of the first `Sigprocmask`, of the test for an empty
queue, in `sigsuspend`, in front of `Sendto`, of `++iget`, of the `Sigprocmask` that blocks the signal, and of
`nqueue--`. -/
inductive DgPc
  | ioctl
  | setup
  | test
  | suspend
  | send
  | advance
  | block
  | decrement
  deriving DecidableEq

/-- The variables of the program, where it is, and the kernel's side: `pending` is for a signal that was raised and not
delivered, `handler` is `nread` of the handler if it runs. -/
structure DgEcho where
  dg : Nat → DG
  iget : Nat
  iput : Nat
  nqueue : Int
  cntread : Nat → Nat
  pc : DgPc
  handler : Option Nat
  quit : Bool
  pending : Bool
  socket : List DG
  arrived : List DG
  sent : List DG

/-- The steps: of the main loop, of the handler, and of the kernel, which delivers the signal, takes a datagram from the
network, or raises the signal for another reason. -/
inductive DgAct
  | main
  | receive
  | deliver
  | arrive (d : DG)
  | raise

/-- The steps for which nothing has to come from outside. -/
def DgAct.Own : DgAct → Prop
  | .main | .receive | .deliver => True
  | .arrive _ | .raise => False

/-- `SIGIO` is not blocked. -/
def DgPc.Unblocked (pc : DgPc) : Prop := pc ≠ .test ∧ pc ≠ .decrement

namespace DgEcho

/-- After the `Ioctl` for `FIOASYNC`, with the datagrams that came before. -/
def start (before : List DG) : DgEcho :=
  ⟨fun _ => ⟨[], 0⟩, 0, 0, 0, fun _ => 0, .ioctl, none, false, false, before, before, []⟩

/-- A step of `dg_echo`. -/
def main (s : DgEcho) : DgEcho :=
  match s.pc with
  | .ioctl => { s with pc := .setup }
  | .setup => { s with pc := .test }
  | .test => { s with pc := if s.nqueue = 0 then .suspend else .send }
  | .suspend => s
  | .send => { s with sent := s.sent ++ [s.dg s.iget], pc := .advance }
  | .advance => { s with iget := nextSlot QSIZE s.iget, pc := .block }
  | .block => { s with pc := .decrement }
  | .decrement => { s with nqueue := s.nqueue - 1, pc := .test }

/-- The body of the loop of `sig_io`. `sigsuspend` returns when the handler does. -/
def receive (s : DgEcho) (nread : Nat) : DgEcho :=
  if s.nqueue ≥ QSIZE then { s with quit := true }
  else
    match s.socket with
    | [] =>
      { s with
        cntread := Function.update s.cntread nread (s.cntread nread + 1)
        handler := none
        pc := if s.pc = .suspend then .test else s.pc }
    | d :: rest =>
      { s with
        dg := Function.update s.dg s.iput d.cut
        iput := nextSlot QSIZE s.iput
        nqueue := s.nqueue + 1
        socket := rest
        handler := some (nread + 1) }

/-- `recvfrom` waits: nothing is in the socket, and it is not nonblocking. -/
def Blocks (s : DgEcho) : Prop := s.pc = .ioctl ∧ s.socket = [] ∧ s.nqueue < QSIZE

inductive Step (s : DgEcho) : DgAct → DgEcho → Prop
  | main (hquit : s.quit = false) (hhandler : s.handler = none) (hpc : s.pc ≠ .suspend) : Step s .main s.main
  | receive {nread : Nat} (hquit : s.quit = false) (hhandler : s.handler = some nread) (hblocks : ¬ s.Blocks) :
      Step s .receive (s.receive nread)
  | deliver (hquit : s.quit = false) (hhandler : s.handler = none) (hpc : s.pc.Unblocked) (hpending : s.pending) :
      Step s .deliver { s with pending := false, handler := some 0 }
  | arrive {d : DG} :
      Step s (.arrive d) { s with socket := s.socket ++ [d], arrived := s.arrived ++ [d], pending := true }
  | raise : Step s .raise { s with pending := true }

end DgEcho

/-- The server, where the datagrams `before` were there before the signal was turned on. -/
def dgEcho (before : List DG) : System DgEcho DgAct where
  init s := s = .start before
  step := DgEcho.Step

/-! ## The queue -/

/-- How many datagrams the queue has at least. -/
def DgPc.least : DgPc → Nat
  | .send | .advance | .block | .decrement => 1
  | .ioctl | .setup | .test | .suspend => 0

/-- How many datagrams of the queue are sent. -/
def DgPc.taken : DgPc → Nat
  | .advance | .block | .decrement => 1
  | .ioctl | .setup | .test | .suspend | .send => 0

theorem DgPc.taken_le (pc : DgPc) : pc.taken ≤ pc.least := by
  cases pc <;> decide

namespace DgEcho

variable {before : List DG} {s s' : DgEcho} {a : DgAct} {nread : Nat}

/-- The buffer of the oldest datagram that is not sent. -/
def first (s : DgEcho) : Nat := if s.pc = .advance then (s.iget + 1) % QSIZE else s.iget

/-- How many datagrams are not sent. -/
def count (s : DgEcho) : Nat := s.nqueue.toNat - s.pc.taken

/-- The datagrams in the queue that are not sent. -/
def unsent (s : DgEcho) : List DG := ringItems QSIZE s.dg s.first s.count

/-- What holds between two steps. -/
structure Ok (s : DgEcho) : Prop where
  iget : s.iget < QSIZE
  least : s.pc.least ≤ s.nqueue
  nqueue : s.nqueue ≤ QSIZE
  iput : s.iput = (s.first + s.count) % QSIZE
  conserved : s.sent ++ s.unsent ++ s.socket.map DG.cut = s.arrived.map DG.cut
  taken : s.pc.taken ≤ s.sent.length
  handler : ∀ nread, s.handler = some nread → (nread : Int) ≤ s.nqueue ∧ s.pc.Unblocked
  idle : s.pc = .suspend → s.handler = none → s.nqueue = 0
  quit : s.quit → s.nqueue = QSIZE

theorem Ok.start : (start before).Ok where
  iget := show 0 < QSIZE by decide
  least := le_refl _
  nqueue := show (0 : Int) ≤ QSIZE by decide
  iput := rfl
  conserved := rfl
  taken := le_refl _
  handler _ h := by cases h
  idle h := by cases h
  quit h := by cases h

theorem Ok.iput_lt (h : s.Ok) : s.iput < QSIZE := by
  rw [h.iput]
  exact Nat.mod_lt _ (by decide)

/-- What there is to show where no handler runs. -/
theorem Ok.of_idle (hhandler : s.handler = none) (hquit : s.quit = false) (hidle : s.pc = .suspend → s.nqueue = 0)
    (higet : s.iget < QSIZE) (hleast : s.pc.least ≤ s.nqueue) (hnqueue : s.nqueue ≤ QSIZE)
    (hiput : s.iput = (s.first + s.count) % QSIZE)
    (hconserved : s.sent ++ s.unsent ++ s.socket.map DG.cut = s.arrived.map DG.cut)
    (htaken : s.pc.taken ≤ s.sent.length) : s.Ok where
  iget := higet
  least := hleast
  nqueue := hnqueue
  iput := hiput
  conserved := hconserved
  taken := htaken
  handler _ h := by cases hhandler.symm.trans h
  idle h _ := hidle h
  quit h := by cases hquit.symm.trans h

/-- **The main loop** sends the oldest datagram, and gives its buffer free when it is sent. -/
theorem Ok.main (h : s.Ok) (hquit : s.quit = false) (hhandler : s.handler = none) : s.main.Ok := by
  obtain ⟨dg, iget, iput, nqueue, cntread, pc, handler, quit, pending, socket, arrived, sent⟩ := s
  obtain ⟨higet, hleast, hnqueue, hiput, hconserved, htaken, _, hidle, _⟩ := h
  dsimp only at hhandler hquit
  subst hhandler hquit
  cases pc with
  | ioctl | setup | block =>
    exact .of_idle rfl rfl DgPc.noConfusion higet hleast hnqueue hiput hconserved htaken
  | suspend => exact .of_idle rfl rfl (fun h => hidle h rfl) higet hleast hnqueue hiput hconserved htaken
  | test =>
    unfold DgEcho.main
    dsimp only
    split
    · rename_i hzero
      exact .of_idle rfl rfl (fun _ => hzero) higet hleast hnqueue hiput hconserved htaken
    · rename_i hsome
      refine .of_idle rfl rfl DgPc.noConfusion higet ?_ hnqueue hiput hconserved htaken
      change ((0 : Nat) : Int) ≤ nqueue at hleast
      change ((1 : Nat) : Int) ≤ nqueue
      omega
  | send =>
    change ((1 : Nat) : Int) ≤ nqueue at hleast
    have hcount : nqueue.toNat - 0 = nqueue.toNat - 1 + 1 := by omega
    have hsplit : ringItems QSIZE dg iget (nqueue.toNat - 1 + 1) =
        dg iget :: ringItems QSIZE dg ((iget + 1) % QSIZE) (nqueue.toNat - 1) := ringItems_succ higet
    refine .of_idle rfl rfl DgPc.noConfusion higet hleast hnqueue ?_ ?_ ?_
    · change iput = ((iget + 1) % QSIZE + (nqueue.toNat - 1)) % QSIZE
      change iput = (iget + (nqueue.toNat - 0)) % QSIZE at hiput
      rw [hiput, hcount, Nat.mod_add_mod]
      exact congrArg (· % QSIZE) (by omega)
    · change sent ++ ringItems QSIZE dg iget (nqueue.toNat - 0) ++ socket.map DG.cut = arrived.map DG.cut at hconserved
      change sent ++ [dg iget] ++ ringItems QSIZE dg ((iget + 1) % QSIZE) (nqueue.toNat - 1) ++ socket.map DG.cut =
        arrived.map DG.cut
      rw [hcount, hsplit] at hconserved
      rw [← hconserved]
      simp
    · change 1 ≤ (sent ++ [dg iget]).length
      simp
  | advance =>
    have hnext : nextSlot QSIZE iget = (iget + 1) % QSIZE := nextSlot_eq higet
    refine .of_idle rfl rfl DgPc.noConfusion ?_ hleast hnqueue ?_ ?_ htaken
    · change nextSlot QSIZE iget < QSIZE
      rw [hnext]
      exact Nat.mod_lt _ (by decide)
    · change iput = (nextSlot QSIZE iget + (nqueue.toNat - 1)) % QSIZE
      rw [hnext]
      exact hiput
    · change sent ++ ringItems QSIZE dg (nextSlot QSIZE iget) (nqueue.toNat - 1) ++ _ = _
      rw [hnext]
      exact hconserved
  | decrement =>
    change ((1 : Nat) : Int) ≤ nqueue at hleast
    have hcount : nqueue.toNat - 1 = (nqueue - 1).toNat - 0 := by omega
    refine .of_idle rfl rfl DgPc.noConfusion higet ?_ ?_ ?_ ?_ (Nat.zero_le _)
    · change ((0 : Nat) : Int) ≤ nqueue - 1
      omega
    · change nqueue - 1 ≤ QSIZE
      dsimp only at hnqueue
      omega
    · change iput = (iget + ((nqueue - 1).toNat - 0)) % QSIZE
      rw [← hcount]
      exact hiput
    · change sent ++ ringItems QSIZE dg iget ((nqueue - 1).toNat - 0) ++ _ = _
      rw [← hcount]
      exact hconserved

/-- **The handler** puts a datagram behind the others, or ends the program if the queue is full. -/
theorem Ok.receive (h : s.Ok) (hquit : s.quit = false) (hhandler : s.handler = some nread) : (s.receive nread).Ok := by
  obtain ⟨hle, hunblocked⟩ := h.handler nread hhandler
  unfold DgEcho.receive
  split
  · rename_i hfull
    exact { h with quit := fun _ => le_antisymm h.nqueue hfull }
  rename_i hroom
  split
  · -- nothing is left in the socket
    rename_i hsocket
    obtain ⟨dg, iget, iput, nqueue, cntread, pc, handler, quit, pending, socket, arrived, sent⟩ := s
    obtain ⟨higet, hleast, hnqueue, hiput, hconserved, htaken, _, _, hquit'⟩ := h
    cases pc with
    | test => exact absurd rfl hunblocked.1
    | decrement => exact absurd rfl hunblocked.2
    | ioctl | setup | suspend | send | advance | block =>
      exact ⟨higet, hleast, hnqueue, hiput, hconserved, htaken, fun _ h => (by cases h), fun h => (by cases h), hquit'⟩
  · rename_i d rest hsocket
    have hleast := h.least
    have htaken := s.pc.taken_le
    have hcount : (s.nqueue + 1).toNat - s.pc.taken = s.count + 1 := by
      unfold count
      omega
    have hlt : s.count < QSIZE := by
      unfold count
      omega
    refine ⟨h.iget, ?_, ?_, ?_, ?_, h.taken, ?_, fun _ h => (by cases h), fun h => absurd hquit (by simpa using h)⟩
    · change (s.pc.least : Int) ≤ s.nqueue + 1
      omega
    · change s.nqueue + 1 ≤ QSIZE
      omega
    · change nextSlot QSIZE s.iput = (s.first + ((s.nqueue + 1).toNat - s.pc.taken)) % QSIZE
      rw [nextSlot_eq h.iput_lt, h.iput, hcount, Nat.mod_add_mod]
      rfl
    · change s.sent ++ ringItems QSIZE (Function.update s.dg s.iput d.cut) s.first
        ((s.nqueue + 1).toNat - s.pc.taken) ++ rest.map DG.cut = s.arrived.map DG.cut
      have hput : ringItems QSIZE (Function.update s.dg ((s.first + s.count) % QSIZE) d.cut) s.first (s.count + 1) =
          s.unsent ++ [d.cut] := ringItems_put hlt
      rw [h.iput, hcount, hput, ← h.conserved, hsocket]
      simp
    · intro n hn
      cases hn
      refine ⟨?_, hunblocked⟩
      change ((nread + 1 : Nat) : Int) ≤ s.nqueue + 1
      omega

/-- A step changes the queue only through the main loop and the handler. -/
theorem Ok.step (h : s.Ok) (hst : Step s a s') : s'.Ok := by
  cases hst with
  | main hquit hhandler _ => exact h.main hquit hhandler
  | receive hquit hhandler _ => exact h.receive hquit hhandler
  | deliver hquit hhandler hpc _ =>
    refine { h with handler := fun n hn => ?_, idle := fun _ hn => (by cases hn), quit := h.quit }
    cases hn
    have hleast := h.least
    exact ⟨by dsimp only; omega, hpc⟩
  | arrive =>
    refine { h with conserved := ?_ }
    change s.sent ++ s.unsent ++ (s.socket ++ [_]).map DG.cut = (s.arrived ++ [_]).map DG.cut
    rw [List.map_append, List.map_append, ← h.conserved, List.append_assoc]
    simp
  | raise => exact { h with }

theorem ok_reachable (h : (dgEcho before).Reachable s) : s.Ok := by
  refine h.invariant (P := Ok) ?_ fun _ _ _ _ hok hst => hok.step hst
  rintro _ rfl
  exact .start

/-! ## The signal -/

/-- Where there is something to read, the signal is raised, or the handler reads on. -/
def Woken (s : DgEcho) : Prop := s.socket ≠ [] → s.pending = true ∨ s.handler.isSome

theorem Woken.step (h : s.Woken) (hst : Step s a s') : s'.Woken := by
  cases hst with
  | main hquit hhandler hpc =>
    have hmain : s.main.socket = s.socket ∧ s.main.pending = s.pending ∧ s.main.handler = s.handler := by
      unfold DgEcho.main
      split <;> exact ⟨rfl, rfl, rfl⟩
    obtain ⟨hsocket, hpending, hhandler'⟩ := hmain
    intro hne
    rw [hpending, hhandler']
    exact h (hsocket ▸ hne)
  | @receive nread hquit hhandler _ =>
    unfold DgEcho.receive
    split
    · exact h
    · split
      · rename_i hsocket
        exact fun hne => absurd hsocket hne
      · exact fun _ => .inr rfl
  | deliver => exact fun _ => .inr rfl
  | arrive | raise => exact fun _ => .inl rfl

/-- Nothing can happen any more before something comes from outside. -/
def Stuck (s : DgEcho) : Prop := ∀ a s', a.Own → ¬ Step s a s'

/-- **The program waits** only in `sigsuspend`, with an empty queue, or in `recvfrom`. -/
theorem Ok.of_stuck (h : s.Ok) (hquit : s.quit = false) (hstuck : s.Stuck) :
    (s.pc = .suspend ∧ s.handler = none ∧ s.pending = false ∧ s.nqueue = 0) ∨ (s.handler.isSome ∧ s.Blocks) := by
  cases hhandler : s.handler with
  | some nread =>
    refine .inr ⟨rfl, ?_⟩
    by_contra hblocks
    exact hstuck .receive _ trivial (.receive hquit hhandler hblocks)
  | none =>
    have hpc : s.pc = .suspend := by
      by_contra hpc
      exact hstuck .main _ trivial (.main hquit hhandler hpc)
    refine .inl ⟨hpc, rfl, ?_, h.idle hpc hhandler⟩
    by_contra hpending
    have hunblocked : s.pc.Unblocked := by
      rw [hpc]
      exact ⟨by decide, by decide⟩
    exact hstuck .deliver _ trivial (.deliver hquit hhandler hunblocked (by simpa using hpending))

/-! ## Before the socket is nonblocking -/

/-- The handler runs before `FIONBIO`. -/
structure Early (s : DgEcho) : Prop where
  pc : s.pc = .ioctl
  handler : s.handler.isSome
  sent : s.sent = []

theorem Early.step (h : s.Early) (hst : Step s a s') : s'.Early := by
  obtain ⟨hpc, hhandler, hsent⟩ := h
  cases hst with
  | main _ hnone _ | deliver _ hnone _ _ =>
    rw [hnone] at hhandler
    cases hhandler
  | arrive | raise => exact ⟨hpc, hhandler, hsent⟩
  | @receive nread _ hsome hblocks =>
    unfold DgEcho.receive
    split
    · exact ⟨hpc, hhandler, hsent⟩
    rename_i hroom
    split
    · -- `recvfrom` does not return
      rename_i hsocket
      exact absurd ⟨hpc, hsocket, Int.not_le.1 hroom⟩ hblocks
    · exact ⟨hpc, rfl, hsent⟩

/-- Where no signal is delivered in front of `FIONBIO`, no handler runs there. -/
theorem late_step (h : s.pc = .ioctl → s.handler = none) (hno : s.pc = .ioctl → a ≠ .deliver) (hst : Step s a s') :
    s'.pc = .ioctl → s'.handler = none := by
  cases hst with
  | main _ hhandler _ =>
    unfold DgEcho.main
    split <;> exact fun _ => hhandler
  | @receive nread _ hhandler _ =>
    have hpc : s.pc ≠ .ioctl := fun hpc => by cases hhandler.symm.trans (h hpc)
    unfold DgEcho.receive
    split
    · exact fun hioctl => absurd hioctl hpc
    · split
      · exact fun _ => rfl
      · exact fun hioctl => absurd hioctl hpc
  | deliver => exact fun hioctl => absurd rfl (hno hioctl)
  | arrive | raise => exact h

/-- The main loop does not come back in front of `FIONBIO`. -/
theorem main_ne_ioctl (h : s.pc ≠ .suspend) : s.main.pc ≠ .ioctl := by
  unfold DgEcho.main
  cases hpc : s.pc with
  | suspend => exact absurd hpc h
  | test =>
    dsimp only
    split <;> exact DgPc.noConfusion
  | ioctl | setup | send | advance | block | decrement => exact DgPc.noConfusion

/-- In front of `FIONBIO` nothing was sent. -/
theorem sent_ioctl (h : (dgEcho before).Reachable s) : s.pc = .ioctl → s.sent = [] := by
  refine h.invariant (P := fun s => s.pc = .ioctl → s.sent = []) ?_ ?_
  · rintro _ rfl _
    rfl
  · intro s a s' _ ih hst
    cases hst with
    | main hquit hhandler hpc => exact fun hioctl => absurd hioctl (main_ne_ioctl hpc)
    | @receive nread hquit hhandler hblocks =>
      unfold DgEcho.receive
      split
      · exact ih
      · split
        · dsimp only
          split
          · exact fun hioctl => DgPc.noConfusion hioctl
          · exact ih
        · exact ih
    | deliver | arrive | raise => exact ih

/-! ## How long it takes -/

/-- What the main loop still has to do in its turn. -/
def rank : DgPc → Nat
  | .ioctl => 7
  | .setup => 6
  | .test => 5
  | .send => 4
  | .advance => 3
  | .block => 2
  | .decrement => 1
  | .suspend => 0

/-- What there is to do before the program waits or ends. -/
def work (s : DgEcho) : Nat :=
  7 * s.socket.length + 6 * s.nqueue.toNat + rank s.pc + (if s.handler = none then 0 else 6) +
    (if s.pending then 7 else 0) + if s.quit then 0 else 1

/-- Every step of the program makes it less. -/
theorem Ok.work_step (h : s.Ok) (hown : a.Own) (hst : Step s a s') : s'.work < s.work := by
  have hleast := h.least
  cases hst with
  | main hquit hhandler hpc =>
    obtain ⟨dg, iget, iput, nqueue, cntread, pc, handler, quit, pending, socket, arrived, sent⟩ := s
    cases pc with
    | suspend => exact absurd rfl hpc
    | test =>
      unfold DgEcho.main work
      dsimp only
      split <;> simp [rank]
    | ioctl | setup | send | advance | block =>
      unfold DgEcho.main work
      simp [rank]
    | decrement =>
      change ((1 : Nat) : Int) ≤ nqueue at hleast
      unfold DgEcho.main work
      dsimp only [rank]
      omega
  | @receive nread hquit hhandler _ =>
    have hnot : ¬ s.handler = none := by
      rw [hhandler]
      exact Option.some_ne_none nread
    unfold DgEcho.receive
    split
    · unfold work
      dsimp only
      rw [hquit]
      simp
    · split
      · rename_i hsocket
        unfold work
        dsimp only
        rw [if_neg hnot]
        by_cases hpc : s.pc = .suspend
        · simp [hpc, rank, hsocket]
        · simp [hpc, hsocket]
      · rename_i d rest hsocket
        unfold work
        dsimp only
        rw [if_neg hnot, hsocket, List.length_cons]
        simp
        omega
  | deliver hquit hhandler hpc hpending =>
    unfold work
    dsimp only
    rw [if_pos hhandler, if_pos hpending]
    simp
  | arrive | raise => exact hown.elim

theorem work_le : s.work ≤ 7 * s.socket.length + 6 * s.nqueue.toNat + 21 := by
  have hrank : rank s.pc ≤ 7 := by
    cases s.pc <;> decide
  unfold work
  split <;> split <;> split <;> omega

/-! ## The test for an overflow -/

/-- A burst of datagrams before the signal is delivered. -/
theorem exists_burst (n : Nat) : ∃ s, (dgEcho []).Reachable s ∧ s.quit = false ∧ s.handler = none ∧ s.pc = .setup ∧
    s.nqueue = 0 ∧ s.socket.length = n ∧ s.arrived.length = n ∧ (n ≠ 0 → s.pending = true) := by
  induction n with
  | zero =>
    have hstart : (dgEcho []).Reachable (.start []) := .init rfl
    exact ⟨_, hstart.step (.main rfl rfl DgPc.noConfusion), rfl, rfl, rfl, rfl, rfl, rfl, fun h => absurd rfl h⟩
  | succ n ih =>
    obtain ⟨s, hs, hquit, hhandler, hpc, hnqueue, hsocket, harrived, _⟩ := ih
    refine ⟨_, hs.step (.arrive (d := ⟨[], 0⟩)), hquit, hhandler, hpc, hnqueue, ?_, ?_, fun _ => rfl⟩
    · change (s.socket ++ [_]).length = n + 1
      rw [List.length_append, hsocket]
      rfl
    · change (s.arrived ++ [_]).length = n + 1
      rw [List.length_append, harrived]
      rfl

/-- The handler reads until the queue is full, and then it ends the program. -/
theorem exists_quit (k : Nat) (hs : (dgEcho before).Reachable s) (hquit : s.quit = false) (hpc : s.pc ≠ .ioctl)
    (hhandler : s.handler = some nread) (hnqueue : s.nqueue + k = QSIZE) (hk : k ≤ s.socket.length) :
    ∃ s', (dgEcho before).Reachable s' ∧ s'.quit = true ∧ s'.arrived = s.arrived := by
  induction k generalizing s nread with
  | zero =>
    refine ⟨_, hs.step (.receive hquit hhandler fun hblocks => hpc hblocks.1), ?_⟩
    unfold DgEcho.receive
    rw [if_pos (by omega)]
    exact ⟨rfl, rfl⟩
  | succ k ih =>
    obtain ⟨d, rest, hsocket⟩ : ∃ d rest, s.socket = d :: rest := List.exists_cons_of_length_pos (by omega)
    have hreceive : s.receive nread =
        { s with dg := Function.update s.dg s.iput d.cut, iput := nextSlot QSIZE s.iput, nqueue := s.nqueue + 1,
                 socket := rest, handler := some (nread + 1) } := by
      unfold DgEcho.receive
      rw [if_neg (by omega), hsocket]
    have hnext := hs.step (.receive hquit hhandler fun hblocks => hpc hblocks.1)
    rw [hreceive] at hnext
    rw [hsocket, List.length_cons] at hk
    have hnqueue' : s.nqueue + 1 + k = QSIZE := by omega
    obtain ⟨s', hs', hquit', harrived⟩ := ih hnext hquit hpc rfl hnqueue' (Nat.le_of_succ_le_succ hk)
    exact ⟨s', hs', hquit', harrived⟩

end DgEcho

/-- **What is sent is what has arrived**, cut to the size of the buffers, in its order, and each datagram once: the
datagrams that were sent, those in the buffers of the queue and those in the socket are all. The handler never writes
into a buffer that is still to be sent, and no index is out of range. -/
theorem dgecho_echoes {before : List DG} {s : DgEcho} (h : (dgEcho before).Reachable s) :
    s.sent <+: s.arrived.map DG.cut ∧ s.sent ++ s.unsent ++ s.socket.map DG.cut = s.arrived.map DG.cut ∧
      s.iget < QSIZE ∧ s.iput < QSIZE ∧ 0 ≤ s.nqueue ∧ s.nqueue ≤ QSIZE ∧
      ∀ nread, s.handler = some nread → nread ≤ QSIZE := by
  have hok := DgEcho.ok_reachable h
  have hleast := hok.least
  have hnqueue := hok.nqueue
  refine ⟨⟨s.unsent ++ s.socket.map DG.cut, ?_⟩, hok.conserved, hok.iget, hok.iput_lt, by omega, hnqueue, ?_⟩
  · rw [← List.append_assoc]
    exact hok.conserved
  · intro nread hn
    have := (hok.handler nread hn).1
    omega

/-- Of three datagrams one was sent back, one is in a buffer, and one in the socket. -/
theorem dgecho_echoes_three : ∃ s, (dgEcho []).Reachable s ∧ s.sent = [⟨[], 1⟩] ∧ s.unsent = [⟨[], 2⟩] ∧
    s.socket = [⟨[], 3⟩] ∧ s.sent <+: s.arrived.map DG.cut ∧
    s.sent ++ s.unsent ++ s.socket.map DG.cut = s.arrived.map DG.cut := by
  have hstart : (dgEcho []).Reachable (.start []) := .init rfl
  have hsetup := hstart.step (.main rfl rfl DgPc.noConfusion)
  have htwo := (hsetup.step (.arrive (d := ⟨[], 1⟩))).step (.arrive (d := ⟨[], 2⟩))
  have hdeliver := htwo.step (.deliver rfl rfl ⟨DgPc.noConfusion, DgPc.noConfusion⟩ rfl)
  have hread₁ := hdeliver.step (.receive rfl rfl fun hblocks => DgPc.noConfusion hblocks.1)
  have hread₂ := hread₁.step (.receive rfl rfl fun hblocks => DgPc.noConfusion hblocks.1)
  have hreturn := hread₂.step (.receive rfl rfl fun hblocks => DgPc.noConfusion hblocks.1)
  have htest := hreturn.step (.main rfl rfl DgPc.noConfusion)
  have hsend := htest.step (.main rfl rfl DgPc.noConfusion)
  have hsent := hsend.step (.main rfl rfl DgPc.noConfusion)
  have hthree := hsent.step (.arrive (d := ⟨[], 3⟩))
  obtain ⟨hsent, hconserved, _⟩ := dgecho_echoes hthree
  exact ⟨_, hthree, rfl, rfl, rfl, hsent, hconserved⟩

/-- **Everything is answered**: after a number of steps the program has ended or waits. When the handler did not run
before the socket was nonblocking, and the program waits, all that has arrived was sent back, for every order of events,
but only if no datagram was there before the signal was turned on. When the handler runs before that, nothing is ever
sent. -/
theorem dgecho_answers {before : List DG} :
    (∀ s as s', (dgEcho before).Reachable s → ((dgEcho before).restrict fun _ a => a.Own).Run s as s' →
      as.length ≤ 7 * s.socket.length + 6 * s.nqueue.toNat + 21) ∧
    ((∀ s, ((dgEcho before).restrict fun s a => s.pc = .ioctl → a ≠ .deliver).Reachable s → s.quit = false →
      s.Stuck → s.sent = s.arrived.map DG.cut) ↔ before = []) ∧
    (∃ s, (dgEcho before).Reachable s ∧ s.pc = .ioctl ∧ s.handler.isSome) ∧
    ∀ s as s', (dgEcho before).Reachable s → s.pc = .ioctl → s.handler.isSome → (dgEcho before).Run s as s' →
      s'.sent = [] := by
  have hstart : (dgEcho before).Reachable (.start before) := .init rfl
  refine ⟨fun s as s' hs hrun => ?_, ⟨fun h => ?_, ?_⟩, ?_, fun s as s' hs hpc hhandler hrun => ?_⟩
  · have hstep : ∀ s a t, DgEcho.Ok s → ((dgEcho before).restrict fun _ a => a.Own).step s a t →
        t.Ok ∧ t.work < s.work := fun _ _ _ hok hst => ⟨hok.step hst.2, hok.work_step hst.1 hst.2⟩
    have hlength := hrun.length_add_le hstep (DgEcho.ok_reachable hs)
    have hwork := s.work_le
    omega
  · -- with nothing in the queue the program waits at once, and the signal is not raised
    have hstart : ((dgEcho before).restrict fun s a => s.pc = .ioctl → a ≠ .deliver).Reachable (.start before) :=
      .init rfl
    have hsetup := hstart.step ⟨fun _ => DgAct.noConfusion, .main rfl rfl DgPc.noConfusion⟩
    have htest := hsetup.step ⟨fun _ => DgAct.noConfusion, .main rfl rfl DgPc.noConfusion⟩
    have hwait := htest.step ⟨fun _ => DgAct.noConfusion, .main rfl rfl DgPc.noConfusion⟩
    have hstuck : (DgEcho.start before).main.main.main.Stuck := by
      intro a s' hown hst
      cases hst with
      | main _ _ hpc => exact hpc rfl
      | receive _ hhandler => cases hhandler
      | deliver _ _ _ hpending => cases hpending
      | arrive | raise => exact hown
    have hsent := h _ hwait rfl hstuck
    exact List.map_eq_nil_iff.1 hsent.symm
  · rintro rfl s hs hquit hstuck
    have hok := DgEcho.ok_reachable hs.of_restrict
    have hwoken : s.Woken := by
      refine hs.of_restrict.invariant (P := DgEcho.Woken) ?_ fun _ _ _ _ hw hst => hw.step hst
      rintro _ rfl
      exact fun hne => absurd rfl hne
    have hlate : s.pc = .ioctl → s.handler = none := by
      refine hs.invariant (P := fun s => s.pc = .ioctl → s.handler = none) ?_ ?_
      · rintro _ rfl _
        rfl
      · rintro s a s' - ih ⟨hno, hst⟩
        exact DgEcho.late_step ih hno hst
    obtain ⟨hpc, hhandler, hpending, hnqueue⟩ | ⟨hhandler, hblocks⟩ := hok.of_stuck hquit hstuck
    · have hsocket : s.socket = [] := by
        by_contra hne
        rcases hwoken hne with h | h
        · cases hpending.symm.trans h
        · rw [hhandler] at h
          cases h
      have hcount : s.count = 0 := by
        unfold DgEcho.count
        omega
      have hunsent : s.unsent = [] := List.length_eq_zero_iff.1 (length_ringItems.trans hcount)
      rw [← hok.conserved, hunsent, hsocket]
      simp
    · rw [hlate hblocks.1] at hhandler
      cases hhandler
  · have hraise := hstart.step .raise
    exact ⟨_, hraise.step (.deliver rfl rfl ⟨DgPc.noConfusion, DgPc.noConfusion⟩ rfl), rfl, rfl⟩
  · have hearly : s.Early := ⟨hpc, hhandler, DgEcho.sent_ioctl hs hpc⟩
    exact (hrun.preserves (P := DgEcho.Early) (fun _ _ _ h hst => h.step hst) hearly).sent

/-- A datagram is sent back, and the program waits again: nothing else has arrived. -/
theorem dgecho_answers_one : ∃ s, ((dgEcho []).restrict fun s a => s.pc = .ioctl → a ≠ .deliver).Reachable s ∧
    s.pc = .suspend ∧ s.Stuck ∧ s.arrived = [⟨[], 1⟩] ∧ s.sent = s.arrived.map DG.cut := by
  have go : ∀ {s a s'}, ((dgEcho []).restrict fun s a => s.pc = .ioctl → a ≠ .deliver).Reachable s →
      DgEcho.Step s a s' → (s.pc = .ioctl → a ≠ .deliver) →
      ((dgEcho []).restrict fun s a => s.pc = .ioctl → a ≠ .deliver).Reachable s' := fun h hst hlate => h.step ⟨hlate, hst⟩
  have hnoblock : ∀ {s : DgEcho}, s.pc ≠ .ioctl → ¬ s.Blocks := fun hpc hblocks => hpc hblocks.1
  have hstart : ((dgEcho []).restrict fun s a => s.pc = .ioctl → a ≠ .deliver).Reachable (.start []) := .init rfl
  have hsetup := go hstart (.main rfl rfl DgPc.noConfusion) fun _ => DgAct.noConfusion
  have harrive := go hsetup (.arrive (d := ⟨[], 1⟩)) fun _ => DgAct.noConfusion
  have hdeliver := go harrive (.deliver rfl rfl ⟨DgPc.noConfusion, DgPc.noConfusion⟩ rfl) fun h => DgPc.noConfusion h
  have hread := go hdeliver (.receive rfl rfl (hnoblock DgPc.noConfusion)) fun _ => DgAct.noConfusion
  have hreturn := go hread (.receive rfl rfl (hnoblock DgPc.noConfusion)) fun _ => DgAct.noConfusion
  have htest := go hreturn (.main rfl rfl DgPc.noConfusion) fun _ => DgAct.noConfusion
  have hsend := go htest (.main rfl rfl DgPc.noConfusion) fun _ => DgAct.noConfusion
  have hsent := go hsend (.main rfl rfl DgPc.noConfusion) fun _ => DgAct.noConfusion
  have hadvance := go hsent (.main rfl rfl DgPc.noConfusion) fun _ => DgAct.noConfusion
  have hblock := go hadvance (.main rfl rfl DgPc.noConfusion) fun _ => DgAct.noConfusion
  have hdecrement := go hblock (.main rfl rfl DgPc.noConfusion) fun _ => DgAct.noConfusion
  have hwait := go hdecrement (.main rfl rfl DgPc.noConfusion) fun _ => DgAct.noConfusion
  refine ⟨_, hwait, rfl, ?_, rfl, (dgecho_answers.2.1.2 rfl) _ hwait rfl ?_⟩ <;>
  · intro a s' hown hst
    cases hst with
    | main _ _ hpc => exact hpc rfl
    | receive _ hhandler => cases hhandler
    | deliver _ _ _ hpending => cases hpending
    | arrive | raise => exact hown

/-- **The test for an overflow** looks at the queue before it looks at the socket: the program may end as soon as as
many datagrams have arrived as there are buffers, though there is a buffer for each of them, and not with less. -/
theorem dgecho_quits_iff {n : Nat} :
    (∃ s, (dgEcho []).Reachable s ∧ s.quit = true ∧ s.arrived.length = n) ↔ QSIZE ≤ n := by
  constructor
  · rintro ⟨s, hs, hquit, rfl⟩
    have hok := DgEcho.ok_reachable hs
    have hnqueue := hok.quit hquit
    have htaken := hok.taken
    have hlength := congrArg List.length hok.conserved
    have hunsent : s.unsent.length = s.nqueue.toNat - s.pc.taken := length_ringItems
    rw [List.length_append, List.length_append, List.length_map, List.length_map, hunsent] at hlength
    omega
  · intro hn
    obtain ⟨s, hs, hquit, hhandler, hpc, hnqueue, hsocket, harrived, hpending⟩ := DgEcho.exists_burst n
    have hpos : n ≠ 0 := by
      unfold QSIZE at hn
      omega
    have hunblocked : s.pc.Unblocked := by
      rw [hpc]
      exact ⟨by decide, by decide⟩
    have hdeliver := hs.step (.deliver hquit hhandler hunblocked (hpending hpos))
    have hroom : s.nqueue + QSIZE = QSIZE := by
      rw [hnqueue, zero_add]
    have hmain : s.pc ≠ .ioctl := by
      rw [hpc]
      exact DgPc.noConfusion
    obtain ⟨s', hs', hquit', harrived'⟩ := DgEcho.exists_quit QSIZE hdeliver hquit hmain rfl hroom
      (hn.trans hsocket.ge)
    exact ⟨s', hs', hquit', (congrArg List.length harrived').trans harrived⟩

end IntroNP.Unp
