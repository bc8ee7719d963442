import Mathlib.Order.Bounds.Basic

/-!
# The least of what a search can find

A search that tries its choices in order finds the least of what it looks for if the choices are in order, too.

- `LeastOf.skip`: a choice that leads to nothing may be skipped;
- `LeastOf.first`: what the first choice that leads to something leads to first.
-/

namespace IntroNP

/-- `r` is the least of `S`, and `none` if there is nothing in it. -/
def LeastOf {α : Type} [LE α] (S : Set α) : Option α → Prop
  | none => ∀ v, v ∉ S
  | some v => IsLeast S v

namespace LeastOf

variable {α : Type} [LE α] {S T : Set α} {r : Option α} {v : α}

theorem isSome_iff (h : LeastOf S r) : r.isSome ↔ ∃ v, v ∈ S := by
  cases r with
  | none => exact iff_of_false (by simp) fun ⟨v, hv⟩ => h v hv
  | some v => exact iff_of_true rfl ⟨v, h.1⟩

theorem congr (h : LeastOf S r) (he : ∀ v, v ∈ S ↔ v ∈ T) : LeastOf T r := by
  cases r with
  | none => exact fun v hv => h v ((he v).2 hv)
  | some v => exact ⟨(he v).1 h.1, fun w hw => h.2 ((he w).2 hw)⟩

/-- There is one least of a set, or none. -/
theorem unique {β : Type} [PartialOrder β] {S : Set β} {r r' : Option β} (h : LeastOf S r) (h' : LeastOf S r') :
    r = r' := by
  cases r with
  | none =>
    cases r' with
    | none => rfl
    | some w => exact absurd h'.1 (h w)
  | some v =>
    cases r' with
    | none => exact absurd h.1 (h' v)
    | some w => exact congrArg some (IsLeast.unique h h')

/-- Nothing comes from the first choice. -/
theorem skip (hS : ∀ v, v ∉ S) (h : LeastOf T r) : LeastOf (S ∪ T) r :=
  h.congr fun v => (or_iff_right (hS v)).symm

/-- The first choice leads to something, and what the others lead to comes behind. -/
theorem first (h : IsLeast S v) (hT : ∀ w ∈ T, v ≤ w) : LeastOf (S ∪ T) (some v) := by
  refine ⟨.inl h.1, fun w hw => ?_⟩
  rcases hw with hw | hw
  · exact h.2 hw
  · exact hT w hw

end LeastOf

end IntroNP
