import IntroNP.Chat.Command
import IntroNP.Lib.System

/-!
# The chat server: runs

`main` accepts a socket and starts a thread on it; the thread runs `handle_client`, which gives what each `recv`
returns to `handle_command` and cleans up when `recv` fails. Steps run one at a time. A descriptor number is free
again as soon as it is closed, also by `exit`, whose thread only finds out at its next `recv`; the thread then still
cleans up after the number it was started with.
-/

namespace IntroNP.Chat

open Std

/-- `main` after `accept` returned `s`. -/
def connect (σ : Server) (s : Int) : Server × List Send :=
  ({ σ with
      clientSockets := σ.clientSockets ++ [s]
      openSockets := σ.openSockets.insert s
      handlers := s :: σ.handlers },
    sendAll s ["*********************************\n", "** Welcome to the Chat server. **\n",
      "*********************************\n% "])

/-- `handle_client` after `recv` on `s` failed or found the end of the stream. -/
def disconnect (σ : Server) (s : Int) : Server :=
  let σ := { σ with
    clientSockets := σ.clientSockets.filter (· ≠ s)
    handlers := σ.handlers.erase s }
  (if s ∈ σ.loggedInClients then σ.endSession s else σ).close s

/-- What can happen next. -/
inductive Act
  | connect (s : Int)
  | line (s : Int) (command : Text)
  | disconnect (s : Int)

/-- One step, where it is possible: a new socket has a number that is not open, and lines come in on open sockets
that a thread serves. A line that ends the process is no step. -/
def step (σ : Server) : Act → Option (Server × List Send)
  | .connect s => if s ∈ σ.openSockets then none else some (connect σ s)
  | .line s command => if s ∈ σ.openSockets ∧ s ∈ σ.handlers then handleCommand σ s command else none
  | .disconnect s => if s ∈ σ.handlers then some (disconnect σ s, []) else none

/-- A step that happened, with what was sent in it. -/
structure Event where
  act : Act
  sent : List Send

/-- The chat server. -/
def chat : System Server Event where
  init σ := σ = start
  step σ e σ' := step σ e.act = some (σ', e.sent)

/-- The loop of `handle_client` on what its calls of `recv` return, until it waits in `recv` again. The NUL behind a
chunk that fills the buffer is written past its end. -/
def handleClient (s : Int) : Server → List Text → Option (Server × List Send)
  | σ, [] => some (σ, [])
  | σ, chunk :: chunks =>
    if s ∈ σ.openSockets then
      if chunk.length < bufferSize then
        match handleCommand σ s chunk with
        | none => none
        | some (σ', sent) => (handleClient s σ' chunks).map fun (σ'', sent') => (σ'', sent ++ sent')
      else none
    else some (disconnect σ s, [])

/-! ## One act at a time -/

variable {σ σ' : Server} {s : Int} {sent : List Send}

theorem step_connect (h : step σ (.connect s) = some (σ', sent)) :
    s ∉ σ.openSockets ∧ σ' = (connect σ s).1 ∧ sent = (connect σ s).2 := by
  simp only [step] at h
  split at h
  · cases h
  · rename_i hs
    cases h
    exact ⟨hs, rfl, rfl⟩

theorem step_line {command : Text} (h : step σ (.line s command) = some (σ', sent)) :
    s ∈ σ.openSockets ∧ s ∈ σ.handlers ∧ handleCommand σ s command = some (σ', sent) := by
  simp only [step] at h
  split at h
  · rename_i hs
    exact ⟨hs.1, hs.2, h⟩
  · cases h

theorem step_disconnect (h : step σ (.disconnect s) = some (σ', sent)) :
    s ∈ σ.handlers ∧ σ' = disconnect σ s ∧ sent = [] := by
  simp only [step] at h
  split at h
  · rename_i hs
    cases h
    exact ⟨hs, rfl, rfl⟩
  · cases h

/-! ## Runs that can be computed -/

/-- The state after the acts `as`; an act that is not possible is passed over. -/
def after (σ : Server) : List Act → Server
  | [] => σ
  | a :: as =>
    match step σ a with
    | some (σ', _) => after σ' as
    | none => after σ as

theorem run_after : ∀ (as : List Act) (σ : Server), ∃ es, chat.Run σ es (after σ as)
  | [], σ => ⟨[], .nil σ⟩
  | a :: as, σ => by
    unfold after
    split
    · rename_i σ' sent h
      obtain ⟨es, hr⟩ := run_after as σ'
      exact ⟨⟨a, sent⟩ :: es, .cons h hr⟩
    · exact run_after as σ

/-- The same, where each act meets a condition. -/
theorem run_restrict_after {C : Act → Prop} : ∀ (as : List Act) (σ : Server), (∀ a ∈ as, C a) →
    ∃ es, (chat.restrict fun _ e => C e.act).Run σ es (after σ as)
  | [], σ, _ => ⟨[], .nil σ⟩
  | a :: as, σ, hC => by
    have has : ∀ b ∈ as, C b := fun b hb => hC b (List.mem_cons_of_mem a hb)
    unfold after
    split
    · rename_i σ' sent h
      obtain ⟨es, hr⟩ := run_restrict_after as σ' has
      exact ⟨⟨a, sent⟩ :: es, .cons ⟨hC a List.mem_cons_self, h⟩ hr⟩
    · exact run_restrict_after as σ has

theorem step_after (σ : Server) (a : Act) (h : (step σ a).isSome) : ∃ sent, step σ a = some (after σ [a], sent) := by
  obtain ⟨⟨σ', sent⟩, h⟩ := Option.isSome_iff_exists.1 h
  exact ⟨sent, by simp [after, h]⟩

theorem reachable_after (as : List Act) : chat.Reachable (after start as) := by
  obtain ⟨es, hr⟩ := run_after as start
  exact (System.Reachable.init rfl).run hr

/-- As `after`, with a history variable. -/
def afterWith {γ : Type} (upd : Server → Event → γ → γ) : Server × γ → List Act → Server × γ
  | p, [] => p
  | p, a :: as =>
    match step p.1 a with
    | some (σ', sent) => afterWith upd (σ', upd p.1 ⟨a, sent⟩ p.2) as
    | none => afterWith upd p as

theorem reachable_afterWith {γ : Type} {g₀ : γ} {upd : Server → Event → γ → γ} (as : List Act) {p : Server × γ}
    (h : (chat.ghost g₀ upd).Reachable p) : (chat.ghost g₀ upd).Reachable (afterWith upd p as) := by
  induction as generalizing p with
  | nil => exact h
  | cons a as ih =>
    unfold afterWith
    split
    · rename_i σ' sent hst
      exact ih (h.step (a := ⟨a, sent⟩) ⟨hst, rfl⟩)
    · exact ih h

theorem reachable_restrict_after {C : Server → Act → Prop} {a : Act}
    (h : (chat.restrict fun σ e => C σ e.act).Reachable σ) (hC : C σ a) (hst : (step σ a).isSome) :
    (chat.restrict fun σ e => C σ e.act).Reachable (after σ [a]) := by
  obtain ⟨sent, hst⟩ := step_after σ a hst
  exact h.step (a := ⟨a, sent⟩) ⟨hC, hst⟩

end IntroNP.Chat
