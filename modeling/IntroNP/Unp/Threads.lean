import IntroNP.Lib.Ring
import IntroNP.Lib.System
import IntroNP.Lib.Table
import Mathlib

/-!
# The prethreaded server with a queue

`server/serv08.c` and `pthread08.c`: the main thread accepts the connections and puts them in a ring, from which the
other threads take them, under a mutex and with a condition variable. The threads run in any order, and
`Pthread_cond_wait` may return without a signal.

- `pool_serves`: every connection is taken once, in the order in which they were accepted;
- `pool_waits`: no signal is lost: a connection waits only for a thread that serves another one, and the program ends
  itself only if the ring is full.
-/

namespace IntroNP.Unp

def MAXNCLI : Nat := 32

/-- Where a thread is: in front of `Pthread_mutex_lock`, with the mutex in front of its test, in `Pthread_cond_wait`,
there after it was signalled, in front of `thread_count++` without the mutex, or in `web_child`. -/
inductive ThreadPc
  | lock
  | check
  | waiting
  | woken
  | counting (connfd : Nat)
  | serving (connfd : Nat)
  deriving DecidableEq

structure Thread where
  pc : ThreadPc
  count : Nat

/-- Where the main thread is: in `Accept`, in front of `Pthread_mutex_lock`, in front of `clifd[iput] = connfd`, and in
front of `Pthread_cond_signal`. -/
inductive MainPc
  | accept
  | lock (connfd : Nat)
  | put (connfd : Nat)
  | signal
  deriving DecidableEq

inductive Owner
  | main
  | thread (i : Nat)
  deriving DecidableEq

/-- The shared variables and the threads, with the connections that were accepted, taken from the ring, and served. -/
structure Threads where
  clifd : Nat → Nat
  iget : Nat
  iput : Nat
  mutex : Option Owner
  pc : MainPc
  tptr : List Thread
  quit : Bool
  accepted : List Nat
  taken : List Nat
  served : List Nat

namespace Threads

def start (nthreads : Nat) : Threads :=
  ⟨fun _ => 0, 0, 0, none, .accept, List.replicate nthreads ⟨.lock, 0⟩, false, [], [], []⟩

/-- The main thread puts a connection in the ring, if there is room for one more behind it. -/
def put (s : Threads) (connfd : Nat) : Threads :=
  if nextSlot MAXNCLI s.iput = s.iget then { s with quit := true }
  else { s with clifd := Function.update s.clifd s.iput connfd, iput := nextSlot MAXNCLI s.iput, pc := .signal }

/-- Thread `i` takes a connection from the ring, or waits for one. -/
def check (s : Threads) (i : Nat) (t : Thread) : Threads :=
  if s.iget = s.iput then { s with tptr := s.tptr.set i { t with pc := .waiting }, mutex := none }
  else
    { s with
      tptr := s.tptr.set i { t with pc := .counting (s.clifd s.iget) }
      iget := nextSlot MAXNCLI s.iget
      mutex := none
      taken := s.taken ++ [s.clifd s.iget] }

inductive Act
  | accept (connfd : Nat)
  | lockMain
  | put
  | signal (i : Option Nat)
  | lock (i : Nat)
  | check (i : Nat)
  | count (i : Nat)
  | wake (i : Nat)
  | done (i : Nat)

/-- The steps that wait for nothing but the mutex. -/
def Act.Own : Act → Prop
  | .lockMain | .put | .signal _ | .lock _ | .check _ | .count _ => True
  | .accept _ | .wake _ | .done _ => False

/-- The steps of the threads. `Pthread_cond_signal` wakes one thread that waits, if there is one. -/
inductive Step (s : Threads) : Act → Threads → Prop
  | accept {connfd : Nat} (hquit : s.quit = false) (hpc : s.pc = .accept) :
      Step s (.accept connfd) { s with pc := .lock connfd, accepted := s.accepted ++ [connfd] }
  | lockMain {connfd : Nat} (hquit : s.quit = false) (hpc : s.pc = .lock connfd) (hmutex : s.mutex = none) :
      Step s .lockMain { s with pc := .put connfd, mutex := some .main }
  | put {connfd : Nat} (hquit : s.quit = false) (hpc : s.pc = .put connfd) : Step s .put (s.put connfd)
  | signal {i : Nat} {t : Thread} (hquit : s.quit = false) (hpc : s.pc = .signal) (hi : s.tptr[i]? = some t)
      (ht : t.pc = .waiting) :
      Step s (.signal (some i)) { s with pc := .accept, mutex := none, tptr := s.tptr.set i { t with pc := .woken } }
  | noSignal (hquit : s.quit = false) (hpc : s.pc = .signal) (hnone : ∀ t ∈ s.tptr, t.pc ≠ .waiting) :
      Step s (.signal none) { s with pc := .accept, mutex := none }
  | lock {i : Nat} {t : Thread} (hquit : s.quit = false) (hi : s.tptr[i]? = some t) (ht : t.pc = .lock ∨ t.pc = .woken)
      (hmutex : s.mutex = none) :
      Step s (.lock i) { s with mutex := some (.thread i), tptr := s.tptr.set i { t with pc := .check } }
  | check {i : Nat} {t : Thread} (hquit : s.quit = false) (hi : s.tptr[i]? = some t) (ht : t.pc = .check) :
      Step s (.check i) (s.check i t)
  | count {i : Nat} {t : Thread} {connfd : Nat} (hquit : s.quit = false) (hi : s.tptr[i]? = some t)
      (ht : t.pc = .counting connfd) :
      Step s (.count i) { s with tptr := s.tptr.set i ⟨.serving connfd, t.count + 1⟩ }
  | wake {i : Nat} {t : Thread} (hquit : s.quit = false) (hi : s.tptr[i]? = some t) (ht : t.pc = .waiting) :
      Step s (.wake i) { s with tptr := s.tptr.set i { t with pc := .woken } }
  | done {i : Nat} {t : Thread} {connfd : Nat} (hquit : s.quit = false) (hi : s.tptr[i]? = some t)
      (ht : t.pc = .serving connfd) :
      Step s (.done i) { s with tptr := s.tptr.set i { t with pc := .lock }, served := s.served ++ [connfd] }

end Threads

/-- The server with some threads. -/
def threads (nthreads : Nat) : System Threads Threads.Act where
  init s := s = .start nthreads
  step := Threads.Step

/-! ## The ring and the threads -/

/-- What the main thread has accepted and not put in the ring. -/
def MainPc.held : MainPc → List Nat
  | .lock connfd | .put connfd => [connfd]
  | .accept | .signal => []

/-- What a thread has taken and not served. -/
def Thread.held (t : Thread) : List Nat :=
  match t.pc with
  | .counting connfd | .serving connfd => [connfd]
  | .lock | .check | .waiting | .woken => []

/-- The thread has taken a connection that it has not counted. -/
def Thread.owed (t : Thread) : Nat :=
  match t.pc with
  | .counting _ => 1
  | .lock | .check | .waiting | .woken | .serving _ => 0

/-- The thread will look into the ring before it waits. -/
def Thread.active (t : Thread) : Nat :=
  match t.pc with
  | .lock | .check | .woken => 1
  | .waiting | .counting _ | .serving _ => 0

/-- A signal that is about to be sent. -/
def MainPc.signals (pc : MainPc) : Nat := if pc = .signal then 1 else 0

namespace Threads

variable {nthreads : Nat} {s s' : Threads} {t t' : Thread} {a : Act} {i connfd : Nat}

/-- How many connections are in the ring. -/
def length (s : Threads) : Nat := (s.iput + MAXNCLI - s.iget) % MAXNCLI

/-- The connections in the ring. -/
def waiting (s : Threads) : List Nat := ringItems MAXNCLI s.clifd s.iget s.length

/-- What holds between two steps. -/
structure Ok (s : Threads) : Prop where
  iget : s.iget < MAXNCLI
  iput : s.iput < MAXNCLI
  conserved : s.taken ++ s.waiting ++ s.pc.held = s.accepted
  held : ∀ x, s.taken.count x = s.served.count x + (s.tptr.map fun t => t.held.count x).sum
  counts : (s.tptr.map fun t => t.count + t.owed).sum = s.taken.length
  main : s.mutex = some .main ↔ s.pc = .signal ∨ ∃ connfd, s.pc = .put connfd
  thread : ∀ i, s.mutex = some (.thread i) ↔ ∃ t, s.tptr[i]? = some t ∧ t.pc = .check
  wake : (∃ t ∈ s.tptr, t.pc = .waiting) → s.length ≤ (s.tptr.map Thread.active).sum + s.pc.signals
  quit : s.quit → s.length = MAXNCLI - 1

theorem Ok.start : (start nthreads).Ok where
  iget := show 0 < MAXNCLI by decide
  iput := show 0 < MAXNCLI by decide
  conserved := by simp [Threads.start, waiting, length, ringItems, MainPc.held]
  held x := by simp [Threads.start, Thread.held]
  counts := by simp [Threads.start, Thread.owed]
  main := by simp [Threads.start]
  thread i := by
    refine iff_of_false (fun h => by cases h) ?_
    rintro ⟨t, hi, ht⟩
    obtain rfl := List.eq_of_mem_replicate (List.mem_of_getElem? hi)
    cases ht
  wake _ := by simp [Threads.start, length]
  quit h := by cases h

theorem Ok.length_lt (_ : s.Ok) : s.length < MAXNCLI := Nat.mod_lt _ (by decide)

theorem Ok.iput_eq (h : s.Ok) : (s.iget + s.length) % MAXNCLI = s.iput := by
  have hget := h.iget
  have hput := h.iput
  unfold length
  unfold MAXNCLI at *
  omega

/-- **A thread changes**: what there is to show. -/
theorem Ok.set (h : s.Ok) (hi : s.tptr[i]? = some t) (htptr : s'.tptr = s.tptr.set i t') (higet : s'.iget < MAXNCLI)
    (hiput : s'.iput < MAXNCLI) (hconserved : s'.taken ++ s'.waiting ++ s'.pc.held = s'.accepted)
    (hheld : ∀ x, s'.taken.count x + s.served.count x + t.held.count x =
      s.taken.count x + s'.served.count x + t'.held.count x)
    (hcounts : s'.taken.length + (t.count + t.owed) = s.taken.length + (t'.count + t'.owed))
    (hmain : s'.mutex = some .main ↔ s'.pc = .signal ∨ ∃ connfd, s'.pc = .put connfd)
    (hself : s'.mutex = some (.thread i) ↔ t'.pc = .check)
    (hother : ∀ j, j ≠ i → (s'.mutex = some (.thread j) ↔ s.mutex = some (.thread j)))
    (hwake : s'.length = 0 ∨ t'.pc ≠ .waiting ∧
      s'.length + t.active + s.pc.signals ≤ s.length + t'.active + s'.pc.signals)
    (hquit : s'.quit = false) : s'.Ok := by
  have hil : i < s.tptr.length := (List.getElem?_eq_some_iff.1 hi).1
  refine ⟨higet, hiput, hconserved, fun x => ?_, ?_, hmain, fun j => ?_, fun hwaiting => ?_, fun hq => ?_⟩
  · have hsum := sum_map_set (fun t => t.held.count x) hi t'
    have := h.held x
    have := hheld x
    rw [htptr]
    omega
  · have hsum := sum_map_set (fun t => t.count + t.owed) hi t'
    have := h.counts
    rw [htptr]
    omega
  · rw [htptr]
    by_cases hji : j = i
    · subst hji
      rw [List.getElem?_set_self hil, hself]
      simp
    · rw [List.getElem?_set_ne (Ne.symm hji), hother j hji]
      exact h.thread j
  · rcases hwake with hzero | ⟨hnot, hle⟩
    · rw [hzero]
      exact Nat.zero_le _
    · have hsum := sum_map_set Thread.active hi t'
      obtain ⟨u, hu, hpc⟩ := hwaiting
      rw [htptr] at hu ⊢
      rcases List.mem_or_eq_of_mem_set hu with hu | rfl
      · have := h.wake ⟨u, hu, hpc⟩
        omega
      · exact absurd hpc hnot
  · cases hquit.symm.trans hq

/-- **A connection is put behind the others**, or the ring is full. -/
theorem Ok.put (h : s.Ok) (hpc : s.pc = .put connfd) : (s.put connfd).Ok := by
  have hget := h.iget
  have hput := h.iput
  unfold Threads.put
  rw [nextSlot_eq hput]
  split
  · rename_i hfull
    refine { h with quit := fun _ => ?_ }
    change (s.iput + MAXNCLI - s.iget) % MAXNCLI = MAXNCLI - 1
    unfold MAXNCLI at *
    omega
  · rename_i hroom
    have hlength : ((s.iput + 1) % MAXNCLI + MAXNCLI - s.iget) % MAXNCLI = s.length + 1 := by
      unfold length
      unfold MAXNCLI at *
      omega
    have hmain : s.mutex = some .main := h.main.2 (.inr ⟨connfd, hpc⟩)
    refine { h with iput := Nat.mod_lt _ (by decide), conserved := ?_, main := ?_, wake := fun hwaiting => ?_,
                    quit := fun hq => ?_ }
    · change s.taken ++ ringItems MAXNCLI (Function.update s.clifd s.iput connfd) s.iget
        (((s.iput + 1) % MAXNCLI + MAXNCLI - s.iget) % MAXNCLI) ++ [] = s.accepted
      have hring : ringItems MAXNCLI (Function.update s.clifd ((s.iget + s.length) % MAXNCLI) connfd) s.iget
          (s.length + 1) = s.waiting ++ [connfd] := by
        refine ringItems_put ?_
        unfold length
        exact Nat.mod_lt _ (by decide)
      rw [h.iput_eq] at hring
      rw [hlength, hring, ← h.conserved, hpc]
      simp [MainPc.held]
    · exact iff_of_true hmain (.inl rfl)
    · change ((s.iput + 1) % MAXNCLI + MAXNCLI - s.iget) % MAXNCLI ≤ _ + 1
      have hle : s.length ≤ (s.tptr.map Thread.active).sum + s.pc.signals := h.wake hwaiting
      have hzero : s.pc.signals = 0 := by
        rw [hpc]
        rfl
      rw [hlength]
      dsimp only
      omega
    · have hfull := h.quit hq
      change ((s.iput + 1) % MAXNCLI + MAXNCLI - s.iget) % MAXNCLI = MAXNCLI - 1
      unfold length at hfull
      unfold MAXNCLI at *
      omega

/-- **A thread takes the oldest connection**, or waits because there is none. -/
theorem Ok.check (h : s.Ok) (hquit : s.quit = false) (hi : s.tptr[i]? = some t) (ht : t.pc = .check) :
    (s.check i t).Ok := by
  have hget := h.iget
  have hput := h.iput
  have hmutex : s.mutex = some (.thread i) := (h.thread i).2 ⟨t, hi, ht⟩
  have hnot : ¬(s.pc = .signal ∨ ∃ connfd, s.pc = .put connfd) := fun hpc => by
    cases hmutex.symm.trans (h.main.2 hpc)
  have hother : ∀ j, j ≠ i → ((none : Option Owner) = some (.thread j) ↔ s.mutex = some (.thread j)) := by
    intro j hji
    rw [hmutex]
    simp [Ne.symm hji]
  have hheld : t.held = [] := by simp [Thread.held, ht]
  have hactive : t.active = 1 := by simp [Thread.active, ht]
  unfold Threads.check
  split
  · rename_i hempty
    have hzero : s.length = 0 := by
      unfold length
      unfold MAXNCLI at *
      omega
    refine h.set hi rfl hget hput h.conserved (fun x => ?_) ?_ (iff_of_false (by simp) hnot)
      (iff_of_false (by simp) ThreadPc.noConfusion) hother (.inl hzero) hquit
    · rw [hheld]
      rfl
    · simp [Thread.owed, ht]
  · rename_i hsome
    have hnext : nextSlot MAXNCLI s.iget = (s.iget + 1) % MAXNCLI := nextSlot_eq hget
    have hlength : (s.iput + MAXNCLI - (s.iget + 1) % MAXNCLI) % MAXNCLI + 1 = s.length := by
      unfold length
      unfold MAXNCLI at *
      omega
    refine h.set hi rfl ?_ hput ?_ (fun x => ?_) ?_ (iff_of_false (by simp) hnot)
      (iff_of_false (by simp) ThreadPc.noConfusion) hother (.inr ⟨ThreadPc.noConfusion, ?_⟩) hquit
    · change nextSlot MAXNCLI s.iget < MAXNCLI
      rw [hnext]
      exact Nat.mod_lt _ (by decide)
    · change s.taken ++ [s.clifd s.iget] ++ ringItems MAXNCLI s.clifd (nextSlot MAXNCLI s.iget)
        ((s.iput + MAXNCLI - nextSlot MAXNCLI s.iget) % MAXNCLI) ++ s.pc.held = s.accepted
      have hring : s.waiting = s.clifd s.iget :: ringItems MAXNCLI s.clifd ((s.iget + 1) % MAXNCLI)
          ((s.iput + MAXNCLI - (s.iget + 1) % MAXNCLI) % MAXNCLI) := by
        unfold waiting
        rw [← hlength]
        exact ringItems_succ hget
      rw [hnext, ← h.conserved, hring]
      simp
    · rw [hheld]
      simp [Thread.held]
      omega
    · simp [Thread.owed, ht]
      omega
    · change (s.iput + MAXNCLI - nextSlot MAXNCLI s.iget) % MAXNCLI + t.active + s.pc.signals ≤
        s.length + 0 + s.pc.signals
      rw [hnext]
      omega

/-- A thread without the mutex. -/
theorem Ok.not_owner (h : s.Ok) (hi : s.tptr[i]? = some t) (ht : t.pc ≠ .check) : ¬ s.mutex = some (.thread i) := by
  intro hm
  obtain ⟨u, hu, hcheck⟩ := (h.thread i).1 hm
  cases hi.symm.trans hu
  exact ht hcheck

theorem Ok.step (h : s.Ok) (hst : Step s a s') : s'.Ok := by
  cases hst with
  | @accept connfd hquit hpc =>
    have hnot : ¬ s.mutex = some .main := fun hm => by
      rcases h.main.1 hm with hp | ⟨_, hp⟩ <;> cases hpc.symm.trans hp
    refine { h with conserved := ?_, main := iff_of_false hnot (by simp), wake := fun hw => ?_ }
    · change s.taken ++ s.waiting ++ [connfd] = s.accepted ++ [connfd]
      rw [← h.conserved, hpc]
      simp [MainPc.held]
    · have := h.wake hw
      rw [hpc] at this
      exact this
  | @lockMain connfd hquit hpc hmutex =>
    refine { h with conserved := ?_, main := iff_of_true rfl (.inr ⟨connfd, rfl⟩), thread := fun i => ?_,
                    wake := fun hw => ?_ }
    · have := h.conserved
      rw [hpc] at this
      exact this
    · have := h.thread i
      rw [hmutex] at this
      exact iff_of_false (by simp) fun hex => by cases this.2 hex
    · have := h.wake hw
      rw [hpc] at this
      exact this
  | put hquit hpc => exact h.put hpc
  | @signal i t hquit hpc hi ht =>
    have hmutex : s.mutex = some .main := h.main.2 (.inl hpc)
    have hconserved := h.conserved
    rw [hpc] at hconserved
    refine h.set hi rfl h.iget h.iput hconserved (fun x => ?_) ?_ (by simp) (by simp) (fun j _ => by simp [hmutex])
      (.inr ⟨ThreadPc.noConfusion, ?_⟩) hquit
    · simp [Thread.held, ht]
    · simp [Thread.owed, ht]
    · simp [Thread.active, ht, hpc, MainPc.signals, length]
  | noSignal hquit hpc hnone =>
    have hmutex : s.mutex = some .main := h.main.2 (.inl hpc)
    refine { h with conserved := ?_, main := by simp, thread := fun i => ?_, wake := fun hw => ?_ }
    · have := h.conserved
      rw [hpc] at this
      exact this
    · have := h.thread i
      rw [hmutex] at this
      exact iff_of_false (by simp) fun hex => by cases this.2 hex
    · obtain ⟨t, ht, hpc'⟩ := hw
      exact absurd hpc' (hnone t ht)
  | @lock i t hquit hi ht hmutex =>
    have hnot : ¬(s.pc = .signal ∨ ∃ connfd, s.pc = .put connfd) := fun hpc => by
      cases hmutex.symm.trans (h.main.2 hpc)
    refine h.set hi rfl h.iget h.iput h.conserved (fun x => ?_) ?_ (iff_of_false (by simp) hnot)
      (iff_of_true rfl rfl) (fun j hji => by simp [hmutex, Ne.symm hji]) (.inr ⟨ThreadPc.noConfusion, ?_⟩) hquit
    · rcases ht with ht | ht <;> simp [Thread.held, ht]
    · rcases ht with ht | ht <;> simp [Thread.owed, ht]
    · rcases ht with ht | ht <;> simp [Thread.active, ht, length]
  | check hquit hi ht => exact h.check hquit hi ht
  | @count i t connfd hquit hi ht =>
    refine h.set hi rfl h.iget h.iput h.conserved (fun x => ?_) ?_ h.main
      (iff_of_false (h.not_owner hi (by simp [ht])) ThreadPc.noConfusion) (fun _ _ => Iff.rfl)
      (.inr ⟨ThreadPc.noConfusion, ?_⟩) hquit
    · simp [Thread.held, ht]
    · simp [Thread.owed, ht]
    · simp [Thread.active, ht, length]
  | @wake i t hquit hi ht =>
    refine h.set hi rfl h.iget h.iput h.conserved (fun x => ?_) ?_ h.main
      (iff_of_false (h.not_owner hi (by simp [ht])) ThreadPc.noConfusion) (fun _ _ => Iff.rfl)
      (.inr ⟨ThreadPc.noConfusion, ?_⟩) hquit
    · simp [Thread.held, ht]
    · simp [Thread.owed, ht]
    · simp [Thread.active, ht, length]
  | @done i t connfd hquit hi ht =>
    refine h.set hi rfl h.iget h.iput h.conserved (fun x => ?_) ?_ h.main
      (iff_of_false (h.not_owner hi (by simp [ht])) ThreadPc.noConfusion) (fun _ _ => Iff.rfl)
      (.inr ⟨ThreadPc.noConfusion, ?_⟩) hquit
    · simp [Thread.held, ht]
      omega
    · simp [Thread.owed, ht]
    · simp [Thread.active, ht, length]

theorem ok_reachable (h : (threads nthreads).Reachable s) : s.Ok := by
  refine h.invariant (P := Ok) ?_ fun _ _ _ _ hok hst => hok.step hst
  rintro _ rfl
  exact .start

/-- **A thread that can look into the ring does so**, and the main thread goes on until it waits in `Accept`. -/
theorem Ok.of_stuck (h : s.Ok) (hquit : s.quit = false) (hstuck : ∀ a s', a.Own → ¬ Step s a s') :
    s.pc = .accept ∧ s.mutex = none ∧ ∀ t ∈ s.tptr, t.pc = .waiting ∨ ∃ connfd, t.pc = .serving connfd := by
  have hput : ∀ connfd, s.pc ≠ .put connfd := fun _ hpc => hstuck .put _ trivial (.put hquit hpc)
  have hsignal : s.pc ≠ .signal := by
    intro hpc
    by_cases hwaiting : ∃ t ∈ s.tptr, t.pc = .waiting
    · obtain ⟨t, ht, htpc⟩ := hwaiting
      obtain ⟨i, hi⟩ := List.mem_iff_getElem?.1 ht
      exact hstuck (.signal (some i)) _ trivial (.signal hquit hpc hi htpc)
    · exact hstuck (.signal none) _ trivial (.noSignal hquit hpc fun t ht htpc => hwaiting ⟨t, ht, htpc⟩)
  have hcheck : ∀ (i : Nat) (t : Thread), s.tptr[i]? = some t → t.pc ≠ .check := fun i _ hi hpc =>
    hstuck (.check i) _ trivial (.check hquit hi hpc)
  have hmutex : s.mutex = none := by
    cases hm : s.mutex with
    | none => rfl
    | some o =>
      cases o with
      | main =>
        rcases h.main.1 hm with hpc | ⟨connfd, hpc⟩
        · exact absurd hpc hsignal
        · exact absurd hpc (hput connfd)
      | thread i =>
        obtain ⟨t, hi, hpc⟩ := (h.thread i).1 hm
        exact absurd hpc (hcheck i t hi)
  refine ⟨?_, hmutex, fun t ht => ?_⟩
  · cases hpc : s.pc with
    | accept => rfl
    | lock connfd => exact absurd (.lockMain hquit hpc hmutex) (hstuck .lockMain _ trivial)
    | put connfd => exact absurd hpc (hput connfd)
    | signal => exact absurd hpc hsignal
  · obtain ⟨i, hi⟩ := List.mem_iff_getElem?.1 ht
    cases hpc : t.pc with
    | lock => exact absurd (.lock hquit hi (.inl hpc) hmutex) (hstuck (.lock i) _ trivial)
    | woken => exact absurd (.lock hquit hi (.inr hpc) hmutex) (hstuck (.lock i) _ trivial)
    | check => exact absurd hpc (hcheck i t hi)
    | counting connfd => exact absurd (.count hquit hi hpc) (hstuck (.count i) _ trivial)
    | waiting => exact .inl rfl
    | serving connfd => exact .inr ⟨connfd, rfl⟩

/-- What the main thread still has to do. -/
def mainRank : MainPc → Nat
  | .lock _ => 6
  | .put _ => 5
  | .signal => 4
  | .accept => 0

/-- What a thread still has to do before it waits or serves. -/
def rank (t : Thread) : Nat :=
  match t.pc with
  | .lock | .woken => 3
  | .check => 2
  | .counting _ => 1
  | .waiting | .serving _ => 0

def work (s : Threads) : Nat := mainRank s.pc + (s.tptr.map rank).sum + if s.quit then 0 else 1

/-- Every step that waits only for the mutex makes it less. -/
theorem work_step (hown : a.Own) (hst : Step s a s') : s'.work < s.work := by
  cases hst with
  | accept | wake | done => exact hown.elim
  | lockMain hquit hpc _ =>
    unfold work
    dsimp only
    rw [hpc]
    simp [mainRank]
  | put hquit hpc =>
    unfold Threads.put work
    split
    · dsimp only
      rw [hquit]
      simp
    · dsimp only
      rw [hpc]
      simp [mainRank]
  | @signal i t hquit hpc hi ht =>
    have hsum := sum_map_set rank hi { t with pc := .woken }
    have hold : rank t = 0 := by simp [rank, ht]
    have hnew : rank { t with pc := .woken } = 3 := rfl
    unfold work
    dsimp only
    rw [hpc]
    simp only [mainRank]
    omega
  | noSignal hquit hpc _ =>
    unfold work
    dsimp only
    rw [hpc]
    simp [mainRank]
  | @lock i t hquit hi ht hmutex =>
    have hsum := sum_map_set rank hi { t with pc := .check }
    have hold : rank t = 3 := by rcases ht with ht | ht <;> simp [rank, ht]
    have hnew : rank { t with pc := .check } = 2 := rfl
    unfold work
    dsimp only
    omega
  | @check i t hquit hi ht =>
    have hold : rank t = 2 := by simp [rank, ht]
    unfold Threads.check work
    split
    · have hsum := sum_map_set rank hi { t with pc := .waiting }
      have hnew : rank { t with pc := .waiting } = 0 := rfl
      dsimp only
      omega
    · have hsum := sum_map_set rank hi { t with pc := .counting (s.clifd s.iget) }
      have hnew : rank { t with pc := .counting (s.clifd s.iget) } = 1 := rfl
      dsimp only
      omega
  | @count i t connfd hquit hi ht =>
    have hold : rank t = 1 := by simp [rank, ht]
    have hsum := sum_map_set rank hi ⟨.serving connfd, t.count + 1⟩
    have hnew : rank ⟨.serving connfd, t.count + 1⟩ = 0 := rfl
    unfold work
    dsimp only
    omega

theorem work_le : s.work ≤ 3 * s.tptr.length + 7 := by
  have hmain : mainRank s.pc ≤ 6 := by
    cases s.pc <;> simp [mainRank]
  have hsum : (s.tptr.map rank).sum ≤ (s.tptr.map rank).length • 3 := by
    refine List.sum_le_card_nsmul _ _ fun x hx => ?_
    obtain ⟨⟨pc, count⟩, _, rfl⟩ := List.mem_map.1 hx
    cases pc <;> simp [rank]
  rw [List.length_map, smul_eq_mul] at hsum
  unfold work
  split <;> omega

end Threads

/-- **Every connection is taken once**, in the order in which they were accepted, and is served or with one thread; the
counts of the threads are right, but for the threads that have released the mutex and not counted yet; and not two of
the threads are between lock and unlock. -/
theorem pool_serves {nthreads : Nat} {s : Threads} (h : (threads nthreads).Reachable s) :
    s.taken ++ s.waiting ++ s.pc.held = s.accepted ∧
      (∀ x, s.taken.count x = s.served.count x + (s.tptr.map fun t => t.held.count x).sum) ∧
      (s.tptr.map Thread.count).sum + (s.tptr.map Thread.owed).sum = s.taken.length ∧
      (∀ (i j : Nat) (t u : Thread), s.tptr[i]? = some t → s.tptr[j]? = some u →
        t.pc = .check → u.pc = .check → i = j) ∧
      ∀ t ∈ s.tptr, t.pc = .check → s.pc ≠ .signal ∧ ∀ connfd, s.pc ≠ .put connfd := by
  have hok := Threads.ok_reachable h
  refine ⟨hok.conserved, hok.held, ?_, fun i j t u hi hj ht hu => ?_, fun t ht hpc => ?_⟩
  · rw [← List.sum_map_add]
    exact hok.counts
  · have hmi := (hok.thread i).2 ⟨t, hi, ht⟩
    have hmj := (hok.thread j).2 ⟨u, hj, hu⟩
    cases hmi.symm.trans hmj
    rfl
  · obtain ⟨i, hi⟩ := List.mem_iff_getElem?.1 ht
    have hmutex := (hok.thread i).2 ⟨t, hi, hpc⟩
    refine ⟨fun hs => ?_, fun connfd hs => ?_⟩
    · cases hmutex.symm.trans (hok.main.2 (.inl hs))
    · cases hmutex.symm.trans (hok.main.2 (.inr ⟨connfd, hs⟩))

/-- Two threads: one has taken the first connection and not counted it, the second is in the ring, and the third with
the main thread. -/
theorem pool_serves_third : ∃ s, (threads 2).Reachable s ∧ s.tptr = [⟨.counting 7, 0⟩, ⟨.lock, 0⟩] ∧
    s.taken = [7] ∧ s.waiting = [8] ∧ s.pc = .lock 9 ∧
      (∀ x, s.taken.count x = s.served.count x + (s.tptr.map fun t => t.held.count x).sum) ∧
      (s.tptr.map Thread.count).sum + (s.tptr.map Thread.owed).sum = 1 := by
  have go : ∀ {s a s'}, (threads 2).Reachable s → Threads.Step s a s' → (threads 2).Reachable s' :=
    fun h hst => h.step hst
  have h₀ : (threads 2).Reachable (.start 2) := .init rfl
  have h₁ := go (a := .accept 7) h₀ (.accept rfl rfl)
  have h₂ := go h₁ (.lockMain rfl rfl rfl)
  have h₃ := go h₂ (.put rfl rfl)
  have h₄ := go h₃ (.noSignal rfl rfl (by decide))
  have h₅ := go (a := .lock 0) h₄ (.lock rfl rfl (.inl rfl) rfl)
  have h₆ := go (a := .check 0) h₅ (.check rfl rfl rfl)
  have h₇ := go (a := .accept 8) h₆ (.accept rfl rfl)
  have h₈ := go h₇ (.lockMain rfl rfl rfl)
  have h₉ := go h₈ (.put rfl rfl)
  have h₁₀ := go h₉ (.noSignal rfl rfl (by decide))
  have h₁₁ := go (a := .accept 9) h₁₀ (.accept rfl rfl)
  obtain ⟨_, hheld, hcounts, _⟩ := pool_serves h₁₁
  exact ⟨_, h₁₁, rfl, rfl, rfl, rfl, hheld, hcounts⟩

/-- **No signal is lost**: after a number of steps nothing can happen until a connection comes, a thread has served its
own, or `Pthread_cond_wait` returns by itself. The main thread is then in `Accept`, and a connection is left in the ring
only if every thread serves another one. The program ends itself only if all entries of the ring but one are taken. -/
theorem pool_waits {nthreads : Nat} :
    (∀ s as s', (threads nthreads).Reachable s → ((threads nthreads).restrict fun _ a => a.Own).Run s as s' →
      as.length ≤ 3 * s.tptr.length + 7) ∧
    (∀ s, (threads nthreads).Reachable s → s.quit = false → (∀ a s', a.Own → ¬ Threads.Step s a s') →
      s.pc = .accept ∧ s.mutex = none ∧ (s.waiting = [] ∨ ∀ t ∈ s.tptr, ∃ connfd, t.pc = .serving connfd)) ∧
    ∀ s, (threads nthreads).Reachable s → s.quit = true → s.waiting.length = MAXNCLI - 1 := by
  refine ⟨fun s as s' _ hrun => ?_, fun s h hquit hstuck => ?_, fun s h hquit => ?_⟩
  · have hstep : ∀ s a t, True → ((threads nthreads).restrict fun _ a => a.Own).step s a t →
        True ∧ t.work < s.work := fun _ _ _ _ hst => ⟨trivial, Threads.work_step hst.1 hst.2⟩
    have hlength := hrun.length_add_le hstep trivial
    have hwork := s.work_le
    omega
  · have hok := Threads.ok_reachable h
    obtain ⟨hpc, hmutex, hthreads⟩ := hok.of_stuck hquit hstuck
    refine ⟨hpc, hmutex, ?_⟩
    by_cases hwaiting : ∃ t ∈ s.tptr, t.pc = .waiting
    · left
      have hzero : (s.tptr.map Thread.active).sum = 0 := by
        refine sum_map_eq_zero_iff.2 fun t ht => ?_
        rcases hthreads t ht with hpc | ⟨_, hpc⟩ <;> simp [Thread.active, hpc]
      have hle := hok.wake hwaiting
      rw [hzero, hpc] at hle
      have hlength : s.waiting.length = s.length := length_ringItems
      exact List.length_eq_zero_iff.1 (hlength.trans (Nat.le_zero.1 hle))
    · exact .inr fun t ht => (hthreads t ht).resolve_left fun hpc => hwaiting ⟨t, ht, hpc⟩
  · exact length_ringItems.trans ((Threads.ok_reachable h).quit hquit)

end IntroNP.Unp
