import IntroNP.Lib.System
import Mathlib.Logic.Function.Basic

/-!
# Hub networks

Hosts around a core that is a host itself. A message goes up to the core, which passes it on to the host that `route`
names, or drops it, and down to that host; the links are queues. Messages on the way down and at their ends carry the
host they come from.

`Hub.flow_reachable`: for every two hosts, what has arrived, what is on its way down and what is on its way up is, in
this order, what was sent: nothing is lost, doubled, reordered or delivered elsewhere, whatever the order of the steps.
-/

namespace IntroNP

variable {H M : Type*} [DecidableEq H]

/-- What every host has sent, the messages on the links up and down, and what every host has received. -/
structure Hub (H M : Type*) where
  sent : H → List M
  up : H → List M
  down : H → List (H × M)
  received : H → List (H × M)

namespace Hub

/-- Nothing was sent yet. -/
def empty : Hub H M := ⟨fun _ => [], fun _ => [], fun _ => [], fun _ => []⟩

/-- The messages of one origin. -/
def ofOrigin (g : H) (ms : List (H × M)) : List M := ms.filterMap fun m => if m.1 = g then some m.2 else none

/-- The messages that go from `g` to `h`. -/
def bound (route : H → M → Option H) (g h : H) (ms : List M) : List M := ms.filter (route g · = some h)

/-- A queue with one more message. -/
def push {α : Type*} (q : H → List α) (h : H) (m : α) : H → List α := Function.update q h (q h ++ [m])

/-- The core passes on the message `m` of `g`. -/
def pass (core : H) (s : Hub H M) (g : H) (m : M) : Option H → Hub H M
  | none => s
  | some h =>
    if h = core then { s with received := push s.received core (g, m) } else { s with down := push s.down h (g, m) }

/-- The steps, each labelled with its message: a host sends, the core sends, the core reads from a link, a host
receives. -/
inductive Step (core : H) (route : H → M → Option H) (s : Hub H M) : M → Hub H M → Prop
  | send {g : H} {m : M} (hg : g ≠ core) :
      Step core route s m { s with sent := push s.sent g m, up := push s.up g m }
  | inject {m : M} :
      Step core route s m (pass core { s with sent := push s.sent core m } core m (route core m))
  | forward {g : H} {m : M} {ms : List M} (hg : g ≠ core) (hup : s.up g = m :: ms) :
      Step core route s m (pass core { s with up := Function.update s.up g ms } g m (route g m))
  | receive {g h : H} {m : M} {ms : List (H × M)} (hdown : s.down h = (g, m) :: ms) :
      Step core route s m
        { s with down := Function.update s.down h ms, received := push s.received h (g, m) }

end Hub

/-- A hub network. -/
def hub (core : H) (route : H → M → Option H) : System (Hub H M) M where
  init s := s = .empty
  step := Hub.Step core route

namespace Hub

variable {core g h i k : H} {route : H → M → Option H} {s s' : Hub H M} {m : M} {ms : List M}

/-! ## Queues -/

/-- The message `m` of `i`, if it goes from `g` to `h`. -/
def onWay (route : H → M → Option H) (g h i : H) (m : M) : List M := if i = g ∧ route i m = some h then [m] else []

theorem ofOrigin_push (q : H → List (H × M)) :
    ofOrigin g (push q k (i, m) h) = ofOrigin g (q h) ++ if h = k ∧ i = g then [m] else [] := by
  unfold ofOrigin push
  rw [Function.update_apply]
  by_cases hk : h = k
  · subst hk
    by_cases hi : i = g <;> simp [hi]
  · simp [hk]

theorem bound_push (q : H → List M) :
    bound route g h (push q i m g) = bound route g h (q g) ++ onWay route g h i m := by
  unfold bound push onWay
  rw [Function.update_apply]
  by_cases hi : g = i
  · subst hi
    by_cases hr : route g m = some h <;> simp [hr]
  · simp [hi, Ne.symm hi]

theorem bound_cons : bound route g h (m :: ms) = onWay route g h g m ++ bound route g h ms := by
  unfold bound onWay
  by_cases hr : route g m = some h <;> simp [hr]

/-! ## The flow between two hosts -/

/-- What has left the links up, from `g` to `h`. -/
def passed (s : Hub H M) (g h : H) : List M := ofOrigin g (s.received h) ++ ofOrigin g (s.down h)

/-- Every flow is in order, and the core has no link to itself. -/
structure Flow (core : H) (route : H → M → Option H) (s : Hub H M) : Prop where
  flow : ∀ g h, passed s g h ++ bound route g h (s.up g) = bound route g h (s.sent g)
  up : s.up core = []
  down : s.down core = []

theorem passed_pass (hdown : s.down core = []) :
    passed (pass core s i m (route i m)) g h = passed s g h ++ onWay route g h i m := by
  unfold pass passed onWay
  cases hr : route i m with
  | none => simp
  | some k =>
    dsimp only
    split
    · rename_i hk
      subst hk
      rw [ofOrigin_push]
      by_cases hh : h = k
      · subst hh
        have hnil : ofOrigin g (s.down h) = [] := by rw [hdown]; rfl
        simp [hnil]
      · simp [hh, Ne.symm hh]
    · rw [ofOrigin_push, List.append_assoc]
      by_cases hh : h = k
      · simp [hh]
      · simp [hh, Ne.symm hh]

theorem pass_down (hdown : s.down core = []) : (pass core s i m (route i m)).down core = [] := by
  unfold pass
  cases route i m with
  | none => exact hdown
  | some k =>
    dsimp only
    split
    · exact hdown
    · rename_i hk
      exact (Function.update_of_ne (Ne.symm hk) _ _).trans hdown

theorem pass_up : (pass core s i m (route i m)).up = s.up := by
  unfold pass
  cases route i m with
  | none => rfl
  | some k =>
    dsimp only
    split <;> rfl

theorem pass_sent : (pass core s i m (route i m)).sent = s.sent := by
  unfold pass
  cases route i m with
  | none => rfl
  | some k =>
    dsimp only
    split <;> rfl

/-- **Every step keeps the flows.** -/
theorem Flow.step (hf : Flow core route s) (hst : Step core route s m s') : Flow core route s' := by
  cases hst with
  | @send i m hi =>
    refine ⟨fun g h => ?_, ?_, hf.down⟩
    · dsimp only
      rw [bound_push, bound_push, ← List.append_assoc, ← hf.flow g h]
      rfl
    · exact (Function.update_of_ne (Ne.symm hi) _ _).trans hf.up
  | @inject m =>
    have hdown : ({ s with sent := push s.sent core m } : Hub H M).down core = [] := hf.down
    refine ⟨fun g h => ?_, (congrFun pass_up core).trans hf.up, pass_down hf.down⟩
    rw [passed_pass hdown, pass_up, pass_sent, bound_push, ← hf.flow g h]
    dsimp only
    -- the core has nothing on a link to itself
    by_cases hg : core = g
    · subst hg
      rw [hf.up]
      simp [bound, passed]
    · simp [onWay, hg, passed]
  | @forward i m ms hi hup =>
    have hdown : ({ s with up := Function.update s.up i ms } : Hub H M).down core = [] := hf.down
    refine ⟨fun g h => ?_, ?_, pass_down hf.down⟩
    · rw [passed_pass hdown, pass_up, pass_sent, ← hf.flow g h]
      dsimp only
      by_cases hg : i = g
      · subst hg
        rw [Function.update_self, hup, bound_cons, List.append_assoc]
        rfl
      · rw [Function.update_of_ne (Ne.symm hg)]
        simp [onWay, hg, passed]
    · rw [pass_up]
      exact (Function.update_of_ne (Ne.symm hi) _ _).trans hf.up
  | @receive i k m ms hdown =>
    refine ⟨fun g h => ?_, hf.up, ?_⟩
    · rw [← hf.flow g h]
      congr 1
      unfold passed
      dsimp only
      rw [ofOrigin_push]
      by_cases hk : h = k
      · subst hk
        rw [Function.update_self, hdown]
        by_cases hi : i = g <;> simp [ofOrigin, hi]
      · rw [Function.update_of_ne hk]
        simp [hk]
    · by_cases hk : core = k
      · subst hk
        rw [hf.down] at hdown
        cases hdown
      · exact (Function.update_of_ne hk _ _).trans hf.down

/-- **Hub networks** keep every flow in order: what has arrived, what is on its way down and what is on its way up is,
in this order, what was sent. -/
theorem flow_reachable (h : (hub core route).Reachable s) : Flow core route s := by
  refine h.invariant ?_ fun s e s' _ hf hst => hf.step hst
  rintro s rfl
  exact ⟨fun _ _ => rfl, rfl, rfl⟩

end Hub

end IntroNP
