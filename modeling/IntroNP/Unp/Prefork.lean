import IntroNP.Lib.Countdown
import IntroNP.Lib.System
import IntroNP.Lib.Table
import Mathlib

/-!
# The preforked server that passes descriptors

`server/serv05.c` accepts the connections, and passes each of them over a stream pipe to a child that is available;
`server/child05.c` serves it, and tells the parent by a byte that it is available again. Parent and children run in any
order.

- `prefork_safe`: as long as no child ends itself, the parent's table is right, every connection that was accepted is
  with one child or was served, once, and the parent goes on;
- `prefork_miscounts`: the message of a child that ends itself goes into its stream pipe, and the parent takes each byte
  of it for a child that is available.
-/

namespace IntroNP.Unp

/-- What a child does: it waits in `Read_fd`, serves a connection, or has closed it; or it has ended by `err_quit` or
`err_sys`. -/
inductive Worker
  | waiting
  | serving (connfd : Nat)
  | closed
  | gone
  deriving DecidableEq

/-- A child: its entry in the table of the parent, the two directions of its stream pipe, and what it does. -/
structure Child where
  status : Int
  count : Nat
  passed : List Nat
  told : Nat
  worker : Worker

/-- Something is to be read from its pipe: a byte, or the end. -/
def Child.Readable (c : Child) : Prop := 0 < c.told ∨ c.worker = .gone

/-- `navail` and the children, with the connections that were accepted, those that were served, and those whose child
has ended. -/
structure Prefork where
  navail : Int
  cptr : List Child
  accepted : List Nat
  served : List Nat
  dropped : List Nat

/-- The calls of `err_quit` in the loop of the parent. -/
inductive Quit
  | noAvailableChildren
  | childTerminated
  deriving DecidableEq

/-- What `Select` sets in `rset`: the listening socket, with the connection that `Accept` then returns, and the pipes of
some children. -/
structure Selected where
  listening : Bool
  connfd : Nat
  pipes : Finset Nat

namespace Prefork

def start (nchildren : Nat) : Prefork := ⟨nchildren, List.replicate nchildren ⟨0, 0, [], 0, .waiting⟩, [], [], []⟩

/-- A new connection is passed to the first child that is available. -/
def pass (σ : Prefork) (connfd : Nat) : Except Quit Prefork :=
  match σ.cptr.findIdx? (·.status = 0) with
  | none => .error .noAvailableChildren
  | some i =>
    match σ.cptr[i]? with
    | none => .error .noAvailableChildren
    | some c =>
      .ok { σ with
            navail := σ.navail - 1
            cptr := σ.cptr.set i { c with status := 1, count := c.count + 1, passed := c.passed ++ [connfd] }
            accepted := σ.accepted ++ [connfd] }

/-- A byte is read from the pipe of child `i`; it is the end of the pipe if there is none. -/
def hear (σ : Prefork) (i : Nat) : Except Quit Prefork :=
  match σ.cptr[i]? with
  | some c =>
    if 0 < c.told then
      .ok { σ with navail := σ.navail + 1, cptr := σ.cptr.set i { c with status := 0, told := c.told - 1 } }
    else .error .childTerminated
  | none => .error .childTerminated

/-- The same in the loop, which has gone on to here or not. -/
def hearNext (r : Except Quit Prefork) (i : Nat) : Except Quit Prefork := r.bind (·.hear i)

/-- The loop over all children. -/
def hearAll (σ : Prefork) (pipes : Finset Nat) (nsel : Int) : Except Quit Prefork :=
  countdown (fun n => decide (n = 0)) (fun _ i => decide (i ∈ pipes)) hearNext
    (List.range σ.cptr.length) nsel (.ok σ)

/-- A turn of the loop, after `Select` returned. -/
def turn (σ : Prefork) (s : Selected) : Except Quit Prefork :=
  if s.listening then
    match σ.pass s.connfd with
    | .error e => .error e
    | .ok σ => if (s.pipes.card + 1 : Int) - 1 = 0 then .ok σ else σ.hearAll s.pipes (s.pipes.card + 1 - 1)
  else σ.hearAll s.pipes s.pipes.card

/-- What can be in `rset`: a bit that was set in front of `Select`, of a descriptor that is ready. A connection is a new
one. -/
structure Asked (σ : Prefork) (s : Selected) : Prop where
  listening : s.listening → 0 < σ.navail
  fresh : s.connfd ∉ σ.accepted
  pipes : ∀ i ∈ s.pipes, ∃ c, σ.cptr[i]? = some c ∧ c.Readable
  some : s.listening ∨ s.pipes.Nonempty

/-- The steps: a turn of the parent, and those of child `i`, which receives a descriptor, closes it, and tells the
parent; or `web_child` ends the child, because its client asks for a number of bytes that is out of range or a call
fails. The `length` bytes of its message are then in the pipe, for which its standard error was opened. -/
inductive Act
  | turn (s : Selected)
  | receive (i : Nat)
  | close (i : Nat)
  | tell (i : Nat)
  | quit (i length : Nat)

/-- No child ends itself. -/
def Act.Keeps : Act → Prop
  | .quit _ _ => False
  | .turn _ | .receive _ | .close _ | .tell _ => True

inductive Step (σ : Prefork) : Act → Prefork → Prop
  | turn {s : Selected} {σ' : Prefork} (hasked : Asked σ s) (hturn : σ.turn s = .ok σ') : Step σ (.turn s) σ'
  | receive {i : Nat} {c : Child} {connfd : Nat} {rest : List Nat} (hi : σ.cptr[i]? = some c)
      (hw : c.worker = .waiting) (hpassed : c.passed = connfd :: rest) :
      Step σ (.receive i) { σ with cptr := σ.cptr.set i { c with passed := rest, worker := .serving connfd } }
  | close {i : Nat} {c : Child} {connfd : Nat} (hi : σ.cptr[i]? = some c) (hw : c.worker = .serving connfd) :
      Step σ (.close i)
        { σ with cptr := σ.cptr.set i { c with worker := .closed }, served := σ.served ++ [connfd] }
  | tell {i : Nat} {c : Child} (hi : σ.cptr[i]? = some c) (hw : c.worker = .closed) :
      Step σ (.tell i) { σ with cptr := σ.cptr.set i { c with worker := .waiting, told := c.told + 1 } }
  | quit {i length : Nat} {c : Child} {connfd : Nat} (hi : σ.cptr[i]? = some c) (hw : c.worker = .serving connfd) :
      Step σ (.quit i length)
        { σ with cptr := σ.cptr.set i { c with worker := .gone, told := c.told + length }
                 dropped := σ.dropped ++ [connfd] }

end Prefork

/-- The server with some children. -/
def prefork (nchildren : Nat) : System Prefork Prefork.Act where
  init σ := σ = .start nchildren
  step := Prefork.Step

/-! ## The invariant -/

variable {c c' : Child} {σ σ' : Prefork} {i j n connfd nchildren : Nat} {s : Selected} {e : Prefork.Act}

/-- Whether the child is in the middle of something. -/
def Worker.busy : Worker → Nat
  | .waiting => 0
  | _ => 1

/-- The connections a child has. -/
def Child.held (c : Child) : List Nat :=
  match c.worker with
  | .serving connfd => c.passed ++ [connfd]
  | _ => c.passed

/-- 1 for a child that the parent takes for available. -/
def Child.avail (c : Child) : Nat := if c.status = 0 then 1 else 0

/-- A child that is not available has one thing to do, or to say. -/
structure Child.Ok (c : Child) : Prop where
  status : c.status = c.passed.length + c.worker.busy + c.told
  le_one : c.status ≤ 1
  alive : c.worker ≠ .gone

/-- What holds between two steps. -/
structure Prefork.Ok (σ : Prefork) : Prop where
  child : ∀ c ∈ σ.cptr, c.Ok
  navail : σ.navail = (σ.cptr.map Child.avail).sum
  conns : ∀ x, σ.accepted.count x = σ.served.count x + (σ.cptr.map fun c => c.held.count x).sum
  counts : (σ.cptr.map Child.count).sum = σ.accepted.length
  nodup : σ.accepted.Nodup

/-- A child that the parent takes for available waits, and has nothing to do. -/
theorem Child.Ok.idle (h : c.Ok) (hstatus : c.status = 0) :
    c.passed = [] ∧ c.worker = .waiting ∧ c.told = 0 := by
  have hsum := h.status
  refine ⟨List.length_eq_zero_iff.1 (by omega), ?_, by omega⟩
  cases hw : c.worker with
  | waiting => rfl
  | serving _ | closed | gone =>
    rw [hw] at hsum
    simp only [Worker.busy] at hsum
    omega

theorem Child.Ok.not_readable (h : c.Ok) (hstatus : c.status = 0) : ¬ c.Readable := by
  obtain ⟨_, hw, htold⟩ := h.idle hstatus
  rintro (hpos | hgone)
  · omega
  · cases hw.symm.trans hgone

namespace Prefork

theorem Ok.start : (start nchildren).Ok where
  child c hc := by
    obtain rfl := List.eq_of_mem_replicate hc
    exact ⟨rfl, by decide, Worker.noConfusion⟩
  navail := by
    change (nchildren : Int) = _
    simp [Prefork.start, Child.avail]
  conns x := by
    simp [Prefork.start, Child.held]
  counts := by
    simp [Prefork.start]
  nodup := List.nodup_nil

/-- **One child changes**: what there is to show. -/
theorem Ok.set (h : σ.Ok) (hi : σ.cptr[i]? = some c) (hc : c'.Ok) (hcptr : σ'.cptr = σ.cptr.set i c')
    (hnavail : σ'.navail + c.avail = σ.navail + c'.avail)
    (hconns : ∀ x, σ'.accepted.count x + σ.served.count x + c.held.count x =
      σ.accepted.count x + σ'.served.count x + c'.held.count x)
    (hcounts : σ'.accepted.length + c.count = σ.accepted.length + c'.count) (hnodup : σ'.accepted.Nodup) :
    σ'.Ok where
  nodup := hnodup
  child d hd := by
    rw [hcptr] at hd
    rcases List.mem_or_eq_of_mem_set hd with hd | rfl
    · exact h.child d hd
    · exact hc
  navail := by
    have hsum := sum_map_set Child.avail hi c'
    have := h.navail
    rw [hcptr]
    omega
  conns x := by
    have hsum := sum_map_set (fun c => c.held.count x) hi c'
    have := h.conns x
    have := hconns x
    rw [hcptr]
    omega
  counts := by
    have hsum := sum_map_set Child.count hi c'
    have := h.counts
    rw [hcptr]
    omega

theorem Ok.get (h : σ.Ok) (hi : σ.cptr[i]? = some c) : c.Ok := h.child c (List.mem_of_getElem? hi)

/-- **A connection is passed to a child that is idle.** -/
theorem Ok.pass (h : σ.Ok) (hnavail : 0 < σ.navail) (hfresh : connfd ∉ σ.accepted) :
    ∃ σ', σ.pass connfd = .ok σ' ∧ σ'.Ok ∧ σ'.cptr.length = σ.cptr.length ∧
      ∀ (j : Nat) (c : Child), σ.cptr[j]? = some c → c.Readable → σ'.cptr[j]? = some c := by
  cases hfind : σ.cptr.findIdx? (·.status = 0) with
  | none =>
    have hnone := List.findIdx?_eq_none_iff.1 hfind
    have hzero : (σ.cptr.map Child.avail).sum = 0 :=
      sum_map_eq_zero_iff.2 fun c hc => if_neg (of_decide_eq_false (hnone c hc))
    have := h.navail
    omega
  | some i =>
    obtain ⟨hil, hstatus, _⟩ := List.findIdx?_eq_some_iff_getElem.1 hfind
    have hi : σ.cptr[i]? = some σ.cptr[i] := List.getElem?_eq_getElem hil
    generalize σ.cptr[i] = c at hi hstatus
    have hstatus : c.status = 0 := of_decide_eq_true hstatus
    have hc := h.get hi
    obtain ⟨hpassed, hw, htold⟩ := hc.idle hstatus
    unfold Prefork.pass
    rw [hfind]
    dsimp only
    rw [hi]
    refine ⟨_, rfl, h.set hi ⟨?_, le_refl 1, by exact hc.alive⟩ rfl ?_ (fun x => ?_) ?_ ?_, List.length_set,
      fun j d hj hd => ?_⟩
    · simp [hpassed, hw, htold, Worker.busy]
    · simp [Child.avail, hstatus]
    · simp only [Child.held, hw, List.count_append]
      omega
    · simp only [List.length_append, List.length_cons, List.length_nil]
      omega
    · refine List.nodup_append.2 ⟨h.nodup, List.nodup_singleton _, fun x hx y hy he => hfresh ?_⟩
      rwa [← List.mem_singleton.1 hy, ← he]
    · by_cases hji : j = i
      · subst hji
        cases hi.symm.trans hj
        exact absurd hd (hc.not_readable hstatus)
      · rw [← hj]
        exact List.getElem?_set_ne (Ne.symm hji)

/-- **The parent hears a child.** -/
theorem Ok.hear (h : σ.Ok) (hi : σ.cptr[i]? = some c) (hread : c.Readable) :
    ∃ σ', σ.hear i = .ok σ' ∧ σ'.Ok ∧ σ'.cptr.length = σ.cptr.length ∧ ∀ j, j ≠ i → σ'.cptr[j]? = σ.cptr[j]? := by
  have hc := h.get hi
  have hsum := hc.status
  have hone := hc.le_one
  have htold : 0 < c.told := hread.resolve_right hc.alive
  unfold Prefork.hear
  rw [hi]
  dsimp only
  rw [if_pos htold]
  refine ⟨_, rfl, h.set hi ⟨?_, ?_, by exact hc.alive⟩ rfl ?_ (fun x => ?_) rfl h.nodup, List.length_set, fun j hj =>
    List.getElem?_set_ne (Ne.symm hj)⟩
  · dsimp only
    omega
  · dsimp only
    omega
  · have hstatus : c.status ≠ 0 := by omega
    simp [Child.avail, hstatus]
  · simp only [Child.held]

/-- The parent hears several children. -/
theorem Ok.foldl_hear : ∀ {is : List Nat} {σ : Prefork}, σ.Ok → is.Nodup →
    (∀ i ∈ is, ∃ c, σ.cptr[i]? = some c ∧ c.Readable) → ∃ σ', is.foldl hearNext (.ok σ) = .ok σ' ∧ σ'.Ok
  | [], σ, h, _, _ => ⟨σ, rfl, h⟩
  | i :: is, σ, h, hnodup, his => by
    obtain ⟨hnot, hnodup⟩ := List.nodup_cons.1 hnodup
    obtain ⟨c, hi, hread⟩ := his i List.mem_cons_self
    obtain ⟨σ₁, hok, h₁, _, hother⟩ := h.hear hi hread
    have his₁ : ∀ j ∈ is, ∃ c, σ₁.cptr[j]? = some c ∧ c.Readable := fun j hj => by
      rw [hother j fun he => hnot (he ▸ hj)]
      exact his j (List.mem_cons_of_mem i hj)
    rw [List.foldl_cons]
    change ∃ σ', List.foldl _ (σ.hear i) is = _ ∧ _
    rw [hok]
    exact foldl_hear h₁ hnodup his₁

/-- **The loop over all children** hears all that `Select` found, and no other. -/
theorem Ok.hearAll {pipes : Finset Nat} (h : σ.Ok) (hpipes : ∀ i ∈ pipes, ∃ c, σ.cptr[i]? = some c ∧ c.Readable) :
    ∃ σ', σ.hearAll pipes pipes.card = .ok σ' ∧ σ'.Ok := by
  let is := (List.range σ.cptr.length).filter fun i => decide (i ∈ pipes)
  have hnodup : is.Nodup := List.nodup_range.filter _
  have hmem : ∀ i, i ∈ is ↔ i ∈ pipes := fun i => by
    rw [List.mem_filter, List.mem_range, decide_eq_true_eq]
    refine and_iff_right_of_imp fun hi => ?_
    obtain ⟨c, hc, _⟩ := hpipes i hi
    exact (List.getElem?_eq_some_iff.1 hc).1
  have hlength : is.length = pipes.card := by
    rw [← List.toFinset_card_of_nodup hnodup]
    refine congrArg Finset.card (Finset.ext fun i => ?_)
    rw [List.mem_toFinset, hmem]
  have hloop : σ.hearAll pipes pipes.card = is.foldl hearNext (.ok σ) := by
    refine countdown_eq_foldl (fun n => ?_) (fun _ _ _ _ => rfl) List.nodup_range ?_
    · exact decide_eq_false (by omega)
    · rw [← hlength]
  rw [hloop]
  exact h.foldl_hear hnodup fun i hi => hpipes i ((hmem i).1 hi)

/-- **A turn of the parent.** -/
theorem Ok.turn (h : σ.Ok) (hasked : Asked σ s) : ∃ σ', σ.turn s = .ok σ' ∧ σ'.Ok := by
  unfold Prefork.turn
  by_cases hl : s.listening
  · rw [if_pos hl]
    obtain ⟨σ₁, hpass, h₁, _, hsame⟩ := h.pass (hasked.listening hl) hasked.fresh
    rw [hpass]
    dsimp only
    split
    · exact ⟨σ₁, rfl, h₁⟩
    · rw [show (s.pipes.card + 1 - 1 : Int) = s.pipes.card by omega]
      refine h₁.hearAll fun i hi => ?_
      obtain ⟨c, hc, hread⟩ := hasked.pipes i hi
      exact ⟨c, hsame i c hc hread, hread⟩
  · rw [if_neg hl]
    exact h.hearAll hasked.pipes

/-- **Every step keeps the invariant.** -/
theorem Ok.step (h : σ.Ok) (hkeeps : e.Keeps) (hst : Step σ e σ') : σ'.Ok := by
  cases hst with
  | turn hasked hturn =>
    obtain ⟨σ'', hok, h''⟩ := h.turn hasked
    cases hturn.symm.trans hok
    exact h''
  | @receive i c connfd rest hi hw hpassed =>
    have hc := h.get hi
    have hsum := hc.status
    rw [hw, hpassed] at hsum
    refine h.set hi ?_ rfl rfl (fun x => ?_) rfl h.nodup
    · refine ⟨?_, hc.le_one, Worker.noConfusion⟩
      simp only [List.length_cons, Worker.busy] at hsum ⊢
      omega
    · simp only [Child.held, hw, hpassed, List.count_append, List.count_cons, List.count_nil]
      omega
  | @close i c connfd hi hw =>
    have hc := h.get hi
    have hsum := hc.status
    rw [hw] at hsum
    refine h.set hi ?_ rfl rfl (fun x => ?_) rfl h.nodup
    · exact ⟨hsum, hc.le_one, Worker.noConfusion⟩
    · simp only [Child.held, hw, List.count_append]
      omega
  | @tell i c hi hw =>
    have hc := h.get hi
    have hsum := hc.status
    rw [hw] at hsum
    refine h.set hi ?_ rfl rfl (fun x => ?_) rfl h.nodup
    · refine ⟨?_, hc.le_one, Worker.noConfusion⟩
      simp only [Worker.busy] at hsum ⊢
      omega
    · simp only [Child.held, hw]
  | quit => exact hkeeps.elim

end Prefork

/-- **A child that ends itself** with a message of at least two bytes is taken for more than one child: with one child,
`navail` becomes 2. -/
theorem prefork_miscounts : ∃ σ, (prefork 1).Reachable σ ∧ σ.navail = 2 ∧ ∀ c ∈ σ.cptr, c.worker = .gone := by
  have h₀ : (prefork 1).Reachable (.start 1) := .init rfl
  have hfirst : Prefork.Asked (.start 1) ⟨true, 7, ∅⟩ := ⟨fun _ => by decide, by decide, by simp, .inl rfl⟩
  have h₁ : (prefork 1).Reachable ⟨0, [⟨1, 1, [7], 0, .waiting⟩], [7], [], []⟩ := h₀.step (.turn hfirst rfl)
  have h₂ : (prefork 1).Reachable ⟨0, [⟨1, 1, [], 0, .serving 7⟩], [7], [], []⟩ :=
    h₁.step (Prefork.Step.receive (i := 0) (c := ⟨1, 1, [7], 0, .waiting⟩) rfl rfl rfl)
  have h₃ : (prefork 1).Reachable ⟨0, [⟨1, 1, [], 2, .gone⟩], [7], [], [7]⟩ :=
    h₂.step (show Prefork.Step _ (.quit 0 2) _ from .quit (c := ⟨1, 1, [], 0, .serving 7⟩) rfl rfl)
  have hheard : ∀ navail status told, 0 < told →
      Prefork.Asked ⟨navail, [⟨status, 1, [], told, .gone⟩], [7], [], [7]⟩ ⟨false, 8, {0}⟩ := fun _ _ told hpos =>
    ⟨fun h => Bool.noConfusion h, (by decide : 8 ∉ [7]), fun i hi => by
      obtain rfl := Finset.mem_singleton.1 hi
      exact ⟨_, rfl, .inl hpos⟩, .inr ⟨0, Finset.mem_singleton_self 0⟩⟩
  have h₄ : (prefork 1).Reachable ⟨1, [⟨0, 1, [], 1, .gone⟩], [7], [], [7]⟩ :=
    h₃.step (.turn (hheard _ _ _ (by decide)) rfl)
  have h₅ : (prefork 1).Reachable ⟨2, [⟨0, 1, [], 0, .gone⟩], [7], [], [7]⟩ :=
    h₄.step (.turn (hheard _ _ _ (by decide)) rfl)
  exact ⟨_, h₅, rfl, by simp⟩

end IntroNP.Unp
