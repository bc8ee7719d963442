import Mathlib.Algebra.BigOperators.Group.List.Basic
import Mathlib.Data.List.Induction

/-!
# Trails

A robot that executes letters moves by a vector of a commutative group for each. An edge is a place and a letter that
may be executed there.

- `displacement_append`: displacements add up;
- `Along`: every letter takes an edge;
- `Along.back`: the way back, whose letters undo those of the way in the opposite order, takes edges too, and undoes
  the displacement.
-/

namespace IntroNP.Trail

variable {G δ : Type*} [AddCommGroup G]

/-- Where the letters lead, from the start of the robot. -/
def displacement (delta : δ → G) (letters : List δ) : G := (letters.map delta).sum

/-- Every letter takes an edge, when the robot executes them from `p`. -/
def Along (delta : δ → G) (E : G → δ → Prop) : G → List δ → Prop
  | _, [] => True
  | p, d :: letters => E p d ∧ Along delta E (p + delta d) letters

/-- The way back. -/
def back (undo : δ → Option δ) (letters : List δ) : List δ := letters.reverse.filterMap undo

/-- Every edge can be taken in the other direction. -/
def Undoes (delta : δ → G) (E : G → δ → Prop) (undo : δ → Option δ) : Prop :=
  ∀ p d, E p d → ∃ d', undo d = some d' ∧ delta d' = -delta d ∧ E (p + delta d) d'

variable {delta : δ → G} {E E' : G → δ → Prop} {undo : δ → Option δ} {p : G} {d d' : δ} {l m : List δ}

/-! ## Displacements -/

@[simp] theorem displacement_nil : displacement delta [] = 0 := rfl

@[simp] theorem displacement_append : displacement delta (l ++ m) = displacement delta l + displacement delta m := by
  unfold displacement
  rw [List.map_append, List.sum_append]

@[simp] theorem displacement_singleton : displacement delta [d] = delta d := by
  unfold displacement
  simp

theorem displacement_cons : displacement delta (d :: l) = delta d + displacement delta l := by
  rw [← List.singleton_append, displacement_append, displacement_singleton]

/-! ## Edges -/

theorem along_append : Along delta E p (l ++ m) ↔ Along delta E p l ∧ Along delta E (p + displacement delta l) m := by
  induction l generalizing p with
  | nil => simp [Along]
  | cons d l ih => simp only [List.cons_append, Along, ih, displacement_cons, and_assoc, add_assoc]

@[simp] theorem along_singleton : Along delta E p [d] ↔ E p d := and_iff_left trivial

/-- With more edges, a trail is a trail. -/
theorem Along.mono (h : Along delta E p l) (hE : ∀ p d, E p d → E' p d) : Along delta E' p l := by
  induction l generalizing p with
  | nil => trivial
  | cons d l ih => exact ⟨hE p d h.1, ih h.2⟩

/-- The edge that a letter takes. -/
theorem Along.edge (h : Along delta E p (l ++ d :: m)) : E (p + displacement delta l) d := (along_append.1 h).2.1

/-! ## The way back -/

theorem back_append (hd : undo d = some d') : back undo (l ++ [d]) = d' :: back undo l := by
  unfold back
  rw [List.reverse_append, List.reverse_singleton, List.singleton_append, List.filterMap_cons_some hd]

/-- **The way back** leads back, along the same edges. -/
theorem Along.back (hundo : Undoes delta E undo) (h : Along delta E p l) :
    displacement delta (Trail.back undo l) = -displacement delta l ∧
      Along delta E (p + displacement delta l) (Trail.back undo l) := by
  induction l using List.reverseRecOn with
  | nil => exact ⟨neg_zero.symm, trivial⟩
  | append_singleton l d ih =>
    obtain ⟨hl, hd⟩ := along_append.1 h
    obtain ⟨d', hsome, hdelta, hedge⟩ := hundo _ d (along_singleton.1 hd)
    obtain ⟨hback, halong⟩ := ih hl
    rw [back_append hsome, displacement_cons, displacement_append, displacement_singleton, hback, hdelta]
    refine ⟨(neg_add_rev _ _).symm, ?_⟩
    rw [← add_assoc]
    refine ⟨hedge, ?_⟩
    rw [hdelta, add_neg_cancel_right]
    exact halong

end IntroNP.Trail
