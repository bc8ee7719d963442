import Mathlib.Logic.Relation

/-!
# Labelled transition systems

A system has initial states and labelled steps. This file gives the rules that the proofs about runs use and three
constructions on systems:

- `Reachable.invariant`: what holds at the start and is kept by every step holds of every reachable state;
- `Run.preserves_restrict`: what every step that meets a condition keeps, every run of such steps keeps;
- `Run.length_add_le`: a run is not longer than a measure that every step makes smaller;
- `restrict`: only the steps that meet a condition. A property of "every run whose steps all meet the condition" is
  a property of the reachable states of the restricted system;
- `within`: only the runs that stay inside a set of states; `run_within_iff` compares it with `restrict`;
- `ghost`: a history variable, computed from the steps and never read by them (`Reachable.ghost_fst`,
  `Reachable.exists_ghost`: it neither adds nor removes behaviour).

`Run.last_entry` finds the last step of a run into a set of states. `Simulation` compares two systems by their labels,
`Refinement` by what they do in their own labels.
-/

namespace IntroNP

/-- A labelled transition system. -/
structure System (σ α : Type*) where
  /-- The initial states. -/
  init : σ → Prop
  /-- The steps. -/
  step : σ → α → σ → Prop

namespace System

variable {σ α γ : Type*} {S : System σ α}

/-- A finite run, with the labels of its steps in order. -/
inductive Run (S : System σ α) : σ → List α → σ → Prop
  | nil (s : σ) : Run S s [] s
  | cons {s t u : σ} {a : α} {as : List α} : S.step s a t → Run S t as u → Run S s (a :: as) u

/-- The states that some run from an initial state ends in. -/
inductive Reachable (S : System σ α) : σ → Prop
  | init {s : σ} : S.init s → Reachable S s
  | step {s t : σ} {a : α} : Reachable S s → S.step s a t → Reachable S t

/-! ## Runs -/

theorem Run.single {s t : σ} {a : α} (h : S.step s a t) : S.Run s [a] t := .cons h (.nil t)

theorem Run.eq_of_nil {s t : σ} (h : S.Run s [] t) : t = s := by
  cases h
  rfl

theorem Run.append {s t u : σ} {as bs : List α} (h : S.Run s as t) (h' : S.Run t bs u) : S.Run s (as ++ bs) u := by
  induction h with
  | nil => exact h'
  | cons hst _ ih => exact .cons hst (ih h')

/-- A run from a reachable state ends in a reachable state. -/
theorem Reachable.run {s t : σ} {as : List α} (hs : S.Reachable s) (h : S.Run s as t) : S.Reachable t := by
  induction h with
  | nil => exact hs
  | cons hst _ ih => exact ih (hs.step hst)

/-! ## Invariants -/

/-- **The invariant rule.** -/
theorem Reachable.invariant {P : σ → Prop} (h0 : ∀ s, S.init s → P s)
    (hstep : ∀ s a t, S.Reachable s → P s → S.step s a t → P t) {s : σ} (h : S.Reachable s) : P s := by
  induction h with
  | init h => exact h0 _ h
  | step hs hst ih => exact hstep _ _ _ hs ih hst

/-- What every step keeps, every run keeps. -/
theorem Run.preserves {P : σ → Prop} (hstep : ∀ s a t, P s → S.step s a t → P t) {s t : σ} {as : List α}
    (h : S.Run s as t) (hP : P s) : P t := by
  induction h with
  | nil => exact hP
  | cons hst _ ih => exact ih (hstep _ _ _ hP hst)

/-- **Runs are bounded** where every step makes `μ` smaller. -/
theorem Run.length_add_le {P : σ → Prop} {μ : σ → Nat} (hstep : ∀ s a t, P s → S.step s a t → P t ∧ μ t < μ s)
    {s t : σ} {as : List α} (h : S.Run s as t) (hP : P s) : as.length + μ t ≤ μ s := by
  induction h with
  | nil s => exact Nat.le_of_eq (Nat.zero_add (μ s))
  | cons hst _ ih =>
    obtain ⟨hQ, hlt⟩ := hstep _ _ _ hP hst
    have hle := ih hQ
    rw [List.length_cons]
    omega

/-! ## Restricting the steps -/

/-- The system with only the steps that meet `C`. -/
def restrict (S : System σ α) (C : σ → α → Prop) : System σ α where
  init := S.init
  step s a t := C s a ∧ S.step s a t

theorem Reachable.of_restrict {C : σ → α → Prop} {s : σ} (h : (S.restrict C).Reachable s) : S.Reachable s :=
  h.invariant (fun _ h => .init h) fun _ _ _ _ hs hst => hs.step hst.2

theorem Run.of_restrict {C : σ → α → Prop} {s t : σ} {as : List α} (h : (S.restrict C).Run s as t) :
    S.Run s as t := by
  induction h with
  | nil => exact .nil _
  | cons hst _ ih => exact .cons hst.2 ih

/-- **The run rule**: what every step that meets `C` keeps, every run of such steps keeps. -/
theorem Run.preserves_restrict {C : σ → α → Prop} {P : σ → Prop}
    (hstep : ∀ s a t, S.Reachable s → C s a → P s → S.step s a t → P t) {s t : σ} {as : List α}
    (h : (S.restrict C).Run s as t) (hs : S.Reachable s) (hP : P s) : P t := by
  induction h with
  | nil => exact hP
  | cons hst _ ih => exact ih (hs.step hst.2) (hstep _ _ _ hs hst.1 hP hst.2)

/-- The system whose steps start and end in states of `P`. -/
def within (S : System σ α) (P : σ → Prop) : System σ α where
  init := S.init
  step s a t := P s ∧ P t ∧ S.step s a t

/-- Where a step from a state of `P` ends in one exactly when it meets `C`, the runs that stay inside `P` are the runs
whose steps all meet `C`. -/
theorem run_within_iff {P I : σ → Prop} {C : σ → α → Prop} (hI : ∀ s a t, I s → S.step s a t → I t)
    (hstep : ∀ s a t, I s → P s → S.step s a t → (P t ↔ C s a)) {s t : σ} {as : List α} (hi : I s) (hs : P s) :
    (S.within P).Run s as t ↔ (S.restrict C).Run s as t := by
  constructor
  · intro h
    induction h with
    | nil => exact .nil _
    | cons hst _ ih =>
      obtain ⟨_, ht, hst⟩ := hst
      exact .cons ⟨(hstep _ _ _ hi hs hst).1 ht, hst⟩ (ih (hI _ _ _ hi hst) ht)
  · intro h
    induction h with
    | nil => exact .nil _
    | cons hst _ ih =>
      obtain ⟨hC, hst⟩ := hst
      have ht := (hstep _ _ _ hi hs hst).2 hC
      exact .cons ⟨hs, ht, hst⟩ (ih (hI _ _ _ hi hst) ht)

/-! ## History variables -/

/-- The system with a history variable that starts at `g₀` and is updated by `upd` at every step. -/
def ghost (S : System σ α) (g₀ : γ) (upd : σ → α → γ → γ) : System (σ × γ) α where
  init p := S.init p.1 ∧ p.2 = g₀
  step p a q := S.step p.1 a q.1 ∧ q.2 = upd p.1 a p.2

variable {g₀ : γ} {upd : σ → α → γ → γ}

/-- A history variable adds no state. -/
theorem Reachable.ghost_fst {p : σ × γ} (h : (S.ghost g₀ upd).Reachable p) : S.Reachable p.1 := by
  induction h with
  | init h => exact .init h.1
  | step _ hst ih => exact ih.step hst.1

/-- A history variable removes no state. -/
theorem Reachable.exists_ghost {s : σ} (h : S.Reachable s) : ∃ g, (S.ghost g₀ upd).Reachable (s, g) := by
  induction h with
  | init h => exact ⟨g₀, .init ⟨h, rfl⟩⟩
  | step _ hst ih =>
    obtain ⟨g, hg⟩ := ih
    exact ⟨_, hg.step ⟨hst, rfl⟩⟩

theorem Run.exists_ghost {s t : σ} {as : List α} (h : S.Run s as t) (g : γ) :
    ∃ g', (S.ghost g₀ upd).Run (s, g) as (t, g') := by
  induction h generalizing g with
  | nil s => exact ⟨g, .nil _⟩
  | @cons s _ _ a _ hst _ ih =>
    obtain ⟨g', hg'⟩ := ih (upd s a g)
    exact ⟨g', .cons ⟨hst, rfl⟩ hg'⟩

/-! ## The last time -/

/-- A run that ends in `P` is inside from its first state on, or has a last step into `P` and is inside from there. -/
theorem Run.within_or_entry {P : σ → Prop} {s t : σ} {as : List α} (h : S.Run s as t) (ht : P t) :
    (P s ∧ (S.within P).Run s as t) ∨ ∃ bs a cs u v,
      as = bs ++ a :: cs ∧ S.Run s bs u ∧ ¬ P u ∧ S.step u a v ∧ P v ∧ (S.within P).Run v cs t := by
  induction h with
  | nil s => exact .inl ⟨ht, .nil s⟩
  | @cons s v t a as hst _ ih =>
    rcases ih ht with ⟨hv, hin⟩ | ⟨bs, b, cs, u, w, rfl, hbs, hu, hb, hw, hcs⟩
    · by_cases hs : P s
      · exact .inl ⟨hs, .cons ⟨hs, hv, hst⟩ hin⟩
      · exact .inr ⟨[], a, as, s, v, rfl, .nil s, hs, hst, hv, hin⟩
    · exact .inr ⟨a :: bs, b, cs, u, w, rfl, .cons hst hbs, hu, hb, hw, hcs⟩

/-- A run that ends in `P` and did not start there has a last step into `P`, and is inside from there. -/
theorem Run.last_entry {P : σ → Prop} {s t : σ} {as : List α} (h : S.Run s as t) (hs : ¬ P s) (ht : P t) :
    ∃ bs a cs u v, as = bs ++ a :: cs ∧ S.Run s bs u ∧ ¬ P u ∧ S.step u a v ∧ P v ∧ (S.within P).Run v cs t :=
  (h.within_or_entry ht).resolve_left fun hin => hs hin.1

/-! ## Simulation -/

variable {τ : Type*} {T : System τ α} {R : σ → τ → Prop}

/-- `T` can do what `S` does, label by label, and `R` says which states go together. -/
structure Simulation (S : System σ α) (T : System τ α) (R : σ → τ → Prop) : Prop where
  init : ∀ s, S.init s → ∃ t, T.init t ∧ R s t
  step : ∀ s a s' t, R s t → S.step s a s' → ∃ t', T.step t a t' ∧ R s' t'

/-- **The simulation rule**: every run of `S` is one of `T`. -/
theorem Simulation.run (h : S.Simulation T R) {s s' : σ} {t : τ} {as : List α} (hrun : S.Run s as s') (ht : R s t) :
    ∃ t', T.Run t as t' ∧ R s' t' := by
  induction hrun generalizing t with
  | nil => exact ⟨t, .nil t, ht⟩
  | cons hst _ ih =>
    obtain ⟨u, hu, hR⟩ := h.step _ _ _ _ ht hst
    obtain ⟨t', ht', hR'⟩ := ih hR
    exact ⟨t', .cons hu ht', hR'⟩

theorem Simulation.reachable (h : S.Simulation T R) {s : σ} (hs : S.Reachable s) : ∃ t, T.Reachable t ∧ R s t := by
  induction hs with
  | init hs =>
    obtain ⟨t, ht, hR⟩ := h.init _ hs
    exact ⟨t, .init ht, hR⟩
  | step _ hst ih =>
    obtain ⟨t, ht, hR⟩ := ih
    obtain ⟨t', ht', hR'⟩ := h.step _ _ _ _ hR hst
    exact ⟨t', ht.step ht', hR'⟩

/-! ## Refinement -/

variable {β : Type*} {T : System τ β} {R : σ → τ → Prop}

/-- What `S` does in one step, `T` does in a run; `R` says which states go together. -/
structure Refinement (S : System σ α) (T : System τ β) (R : σ → τ → Prop) : Prop where
  init : ∀ s, S.init s → ∃ t, T.init t ∧ R s t
  step : ∀ s a s' t, S.Reachable s → R s t → S.step s a s' → ∃ bs t', T.Run t bs t' ∧ R s' t'

theorem Refinement.run (h : S.Refinement T R) {s s' : σ} {t : τ} {as : List α} (hrun : S.Run s as s')
    (hs : S.Reachable s) (ht : R s t) : ∃ bs t', T.Run t bs t' ∧ R s' t' := by
  induction hrun generalizing t with
  | nil => exact ⟨[], t, .nil t, ht⟩
  | cons hst _ ih =>
    obtain ⟨bs, u, hu, hR⟩ := h.step _ _ _ _ hs ht hst
    obtain ⟨cs, t', ht', hR'⟩ := ih (hs.step hst) hR
    exact ⟨bs ++ cs, t', hu.append ht', hR'⟩

/-- **The refinement rule**: what holds of the states of `T` holds of those of `S` that go with them. -/
theorem Refinement.reachable (h : S.Refinement T R) {s : σ} (hs : S.Reachable s) : ∃ t, T.Reachable t ∧ R s t := by
  induction hs with
  | init hs =>
    obtain ⟨t, ht, hR⟩ := h.init _ hs
    exact ⟨t, .init ht, hR⟩
  | step hs hst ih =>
    obtain ⟨t, ht, hR⟩ := ih
    obtain ⟨bs, t', hrun, hR'⟩ := h.step _ _ _ _ hs hR hst
    exact ⟨t', ht.run hrun, hR'⟩

end System

end IntroNP
