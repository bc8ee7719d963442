import IntroNP.Lib.System
import Mathlib.Algebra.Order.BigOperators.Group.Finset
import Mathlib.Logic.Function.Basic

/-!
# Pipelines

Stages in a row, each a queue. Items move from the front of a stage to the end of the next one, and the end of the
input follows them: a stage ends when it is empty and the one in front of it has ended.

- `contents_reachable`: nothing is lost, doubled or overtaken, from the first stage to the last;
- `items_of_ended`: a stage that has ended is empty;
- `work_step`, `run_work_le`: every step takes from the work that is left, so that a run has no more steps than there
  is work.
-/

namespace IntroNP

/-- The queues, front first, and how many of them have ended. -/
structure Pipeline (α : Type*) where
  items : Nat → List α
  ended : Nat

namespace Pipeline

variable {α : Type*} {n i k : Nat} {p q : Pipeline α} {xs rest : List α}

/-- What is in the first `n` stages, the oldest first. -/
def contents (items : Nat → List α) : Nat → List α
  | 0 => []
  | n + 1 => items n ++ contents items n

/-- The items `xs` move from the front of stage `i`, which leaves `rest`, to the end of the next one. -/
def move (p : Pipeline α) (i : Nat) (xs rest : List α) : Pipeline α :=
  { p with items := Function.update (Function.update p.items i rest) (i + 1) (p.items (i + 1) ++ xs) }

/-- The steps of a pipeline with `n` stages: some items move, or a stage ends. -/
inductive Step (n : Nat) (p : Pipeline α) : Nat → Pipeline α → Prop
  | move {i : Nat} {xs rest : List α} (hi : i + 1 < n) (hxs : xs ≠ []) (hitems : p.items i = xs ++ rest) :
      Step n p i (p.move i xs rest)
  | finish (hi : p.ended + 1 < n) (hitems : p.items p.ended = []) :
      Step n p p.ended { p with ended := p.ended + 1 }

/-- What has still to be done: every item has to move on through the stages, and they have to end. -/
def work (n : Nat) (p : Pipeline α) : Nat :=
  ∑ k ∈ Finset.range (n - 1), (contents p.items (k + 1)).length + (n - 1 - p.ended)

end Pipeline

/-- A pipeline of `n` stages with its input in the first one. -/
def pipeline {α : Type*} (n : Nat) (input : List α) : System (Pipeline α) Nat where
  init p := p = ⟨fun i => if i = 0 then input else [], 0⟩
  step := Pipeline.Step n

namespace Pipeline

variable {α : Type*} {n i j k : Nat} {p q : Pipeline α} {xs rest input : List α} {f g : Nat → List α}

/-! ## What is in the stages -/

theorem contents_congr : ∀ {n : Nat}, (∀ i < n, f i = g i) → contents f n = contents g n
  | 0, _ => rfl
  | n + 1, h => by
    unfold contents
    rw [h n (Nat.lt_succ_self n), contents_congr fun i hi => h i (by omega)]

theorem move_items_self : (p.move i xs rest).items i = rest := by
  unfold move
  dsimp only
  rw [Function.update_of_ne (by omega), Function.update_self]

theorem move_items_succ : (p.move i xs rest).items (i + 1) = p.items (i + 1) ++ xs := Function.update_self _ _ _

theorem move_items_of_ne (hi : j ≠ i) (hi' : j ≠ i + 1) : (p.move i xs rest).items j = p.items j := by
  unfold move
  dsimp only
  rw [Function.update_of_ne hi', Function.update_of_ne hi]

/-- A move, by what it does to the stages. -/
theorem run_move (hi : i + 1 < n) (hxs : xs ≠ []) (hitems : p.items i = xs ++ rest) (hself : f i = rest)
    (hsucc : f (i + 1) = p.items (i + 1) ++ xs) (hne : ∀ j, j ≠ i → j ≠ i + 1 → f j = p.items j) :
    (pipeline n input).Run p [i] ⟨f, p.ended⟩ := by
  have heq : (⟨f, p.ended⟩ : Pipeline α) = p.move i xs rest := by
    refine congrArg (Pipeline.mk · p.ended) (funext fun j => ?_)
    rw [Function.update_apply, Function.update_apply]
    split
    · rename_i hj
      rw [hj, hsucc]
    · rename_i hj
      split
      · rename_i hj'
        rw [hj', hself]
      · rename_i hj'
        exact hne j hj' hj
  rw [heq]
  exact .single (.move hi hxs hitems)

theorem run_finish {m : Nat} (hi : m + 1 < n) (hitems : f m = []) :
    (pipeline n input).Run ⟨f, m⟩ [m] ⟨f, m + 1⟩ :=
  .single (.finish hi hitems)

/-- **A move keeps the contents.** -/
theorem contents_move (h : p.items i = xs ++ rest) :
    ∀ {n : Nat}, i + 1 < n → contents (p.move i xs rest).items n = contents p.items n
  | 0, hi => by omega
  | n + 1, hi => by
    by_cases hn : n = i + 1
    · subst hn
      have hbelow : contents (p.move i xs rest).items i = contents p.items i :=
        contents_congr fun j hj => move_items_of_ne (by omega) (by omega)
      change (p.move i xs rest).items (i + 1) ++ ((p.move i xs rest).items i ++ contents _ i) =
        p.items (i + 1) ++ (p.items i ++ contents _ i)
      rw [move_items_succ, move_items_self, hbelow, h]
      simp only [List.append_assoc]
    · change (p.move i xs rest).items n ++ contents _ n = p.items n ++ contents _ n
      rw [move_items_of_ne (by omega) hn, contents_move h (by omega)]

theorem contents_start : ∀ {n : Nat}, 0 < n → contents (fun i => if i = 0 then input else []) n = input
  | 1, _ => List.append_nil _
  | n + 2, _ => (List.nil_append _).trans (contents_start (Nat.succ_pos n))

/-- **Nothing is lost, doubled or overtaken.** -/
theorem contents_reachable (hn : 0 < n) (h : (pipeline n input).Reachable p) : contents p.items n = input := by
  refine h.invariant (P := fun p => contents p.items n = input) ?_ ?_
  · rintro _ rfl
    exact contents_start hn
  · intro p a q _ hp hst
    cases hst with
    | move hi _ hitems => exact (contents_move hitems hi).trans hp
    | finish _ _ => exact hp

/-! ## The end of the input -/

/-- **What has ended is empty.** -/
theorem items_of_ended (h : (pipeline n input).Reachable p) : ∀ i < p.ended, p.items i = [] := by
  refine h.invariant (P := fun p => ∀ i < p.ended, p.items i = []) ?_ ?_
  · rintro _ rfl i hi
    exact absurd hi (Nat.not_lt_zero i)
  · intro p i q _ hp hst
    cases hst with
    | @move _ xs rest hi hxs hitems =>
      intro j hj
      have hj' : j < p.ended := hj
      have hle : p.ended ≤ i := by
        by_contra hlt
        rw [hp i (by omega)] at hitems
        exact hxs (List.append_eq_nil_iff.1 hitems.symm).1
      rw [move_items_of_ne (by omega) (by omega), hp j hj']
    | finish hi hitems =>
      intro j hj
      have hj' : j < p.ended + 1 := hj
      obtain hlt | heq : j < p.ended ∨ j = p.ended := by omega
      · exact hp j hlt
      · exact heq ▸ hitems

/-! ## The work that is left -/

theorem length_contents_move_le (h : p.items i = xs ++ rest) :
    (contents (p.move i xs rest).items (k + 1)).length ≤ (contents p.items (k + 1)).length := by
  rcases Nat.lt_trichotomy k i with hk | rfl | hk
  · rw [contents_congr fun j hj => move_items_of_ne (by omega) (by omega)]
  · have hbelow : contents (p.move k xs rest).items k = contents p.items k :=
      contents_congr fun j hj => move_items_of_ne (by omega) (by omega)
    unfold contents
    rw [move_items_self, hbelow, h, List.length_append, List.length_append, List.length_append]
    omega
  · rw [contents_move h (by omega)]

/-- **Every step takes from the work.** -/
theorem work_step (h : Step n p i q) : work n q + 1 ≤ work n p := by
  cases h with
  | @move _ xs rest hi hxs hitems =>
    have hlt : (contents (p.move i xs rest).items (i + 1)).length < (contents p.items (i + 1)).length := by
      have hbelow : contents (p.move i xs rest).items i = contents p.items i :=
        contents_congr fun j hj => move_items_of_ne (by omega) (by omega)
      have hpos : 0 < xs.length := List.length_pos_iff.2 hxs
      unfold contents
      rw [move_items_self, hbelow, hitems, List.length_append, List.length_append, List.length_append]
      omega
    have hsum : ∑ k ∈ Finset.range (n - 1), (contents (p.move i xs rest).items (k + 1)).length <
        ∑ k ∈ Finset.range (n - 1), (contents p.items (k + 1)).length :=
      Finset.sum_lt_sum (fun k _ => length_contents_move_le hitems) ⟨i, Finset.mem_range.2 (by omega), hlt⟩
    have hended : (p.move i xs rest).ended = p.ended := rfl
    unfold work
    rw [hended]
    omega
  | finish hi _ =>
    unfold work
    dsimp only
    omega

/-- **A run has no more steps than there is work.** -/
theorem run_work_le {as : List Nat} (h : (pipeline n input).Run p as q) : as.length + work n q ≤ work n p := by
  induction h with
  | nil => exact (Nat.zero_add _).le
  | cons hst _ ih =>
    have := work_step hst
    rw [List.length_cons]
    omega

end Pipeline

end IntroNP
