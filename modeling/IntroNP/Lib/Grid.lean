import Mathlib.Data.List.Basic

/-!
# Tables of rows

A vector of vectors, with the cells named by row and column. Nothing can be read or written outside.
-/

namespace IntroNP.Grid

variable {α : Type*} {g : List (List α)} {p q : Nat × Nat} {v : α} {m n : Nat}

/-- The cell at `p`. -/
def cell (g : List (List α)) (p : Nat × Nat) : Option α := g[p.1]?.bind (·[p.2]?)

/-- The table after `v` is written at `p`. -/
def write (g : List (List α)) (p : Nat × Nat) (v : α) : Option (List (List α)) :=
  g[p.1]?.bind fun row => if p.2 < row.length then some (g.set p.1 (row.set p.2 v)) else none

theorem cell_replicate :
    cell (List.replicate m (List.replicate n v)) p = if p.1 < m ∧ p.2 < n then some v else none := by
  unfold cell
  by_cases hm : p.1 < m
  · simp [hm, List.getElem?_replicate]
  · simp [hm]

/-- **A write** inside the table changes one cell. -/
theorem exists_write (h : (cell g p).isSome) (v : α) :
    ∃ g', write g p v = some g' ∧ ∀ q, cell g' q = if q = p then some v else cell g q := by
  obtain ⟨u, hu⟩ := Option.isSome_iff_exists.1 h
  obtain ⟨row, hrow, hcell⟩ := Option.bind_eq_some_iff.1 hu
  obtain ⟨hcol, -⟩ := List.getElem?_eq_some_iff.1 hcell
  obtain ⟨hlt, -⟩ := List.getElem?_eq_some_iff.1 hrow
  refine ⟨g.set p.1 (row.set p.2 v), by rw [write, hrow, Option.bind_some, if_pos hcol], fun q => ?_⟩
  unfold cell
  by_cases hq : p.1 = q.1
  · rw [← hq, List.getElem?_set_self hlt, hrow, Option.bind_some, Option.bind_some]
    by_cases hq' : p.2 = q.2
    · rw [← hq', List.getElem?_set_self hcol, if_pos (Prod.ext hq hq').symm]
    · rw [List.getElem?_set_ne hq', if_neg (fun e => hq' (congrArg Prod.snd e).symm)]
  · rw [List.getElem?_set_ne hq, if_neg (fun e => hq (congrArg Prod.fst e).symm)]

end IntroNP.Grid
