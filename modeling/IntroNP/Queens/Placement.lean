import IntroNP.Queens.MinConflict
import Mathlib.Data.Set.Card
import Mathlib.Data.List.Perm.Basic
import Mathlib.Data.List.Nodup

/-!
# The queens: the board of the min-conflicts search and its queens

The queens are kept twice, as a list of positions and as the cells of a board that hold `1`; a move changes both.

- `getNewBoard_spec`, `Placed.moveQueen`: the constructor puts one queen in every row, and a move keeps it so
  (`Placed`), with the board that shows the list;
- `foldl_countQueen`: the three tests of a queen count it once;
- `queens_consistent`: in every state the assertion of a move holds, the conflicts are counted, and all queens are safe
  exactly on a solution.
-/

namespace IntroNP.Queens

/-- The board has `1` at the queens, and `0` elsewhere. -/
def Shows (n : Nat) (board : List (List Int)) (queens : List Pos) : Prop :=
  ∀ p, Grid.cell board p = if p.1 < n ∧ p.2 < n then some (if p ∈ queens then 1 else 0) else none

/-- There is one queen in every row, and the board shows the queens. -/
structure Placed (n : Nat) (σ : NQueens) : Prop where
  size : σ.n = n
  rows : (σ.queenPositions.map Prod.fst).Perm (List.range n)
  columns : ∀ p ∈ σ.queenPositions, p.2 < n
  board : Shows n σ.board σ.queenPositions

/-- Two positions on a diagonal. -/
def SameDiagonal (p q : Pos) : Prop := ((p.1 : Int) - q.1).natAbs = ((p.2 : Int) - q.2).natAbs

/-- Two positions in a column or on a diagonal. -/
def SharesLine (p q : Pos) : Prop := p ≠ q ∧ (p.2 = q.2 ∨ SameDiagonal p q)

instance (p q : Pos) : Decidable (SharesLine p q) :=
  inferInstanceAs (Decidable (p ≠ q ∧ (p.2 = q.2 ∨ ((p.1 : Int) - q.1).natAbs = ((p.2 : Int) - q.2).natAbs)))

/-- **A solution** of the problem of `n` queens: so many cells of the board, no two of them in a row, in a column or on
a diagonal. -/
structure Solution (n : Nat) (s : Set Pos) : Prop where
  card : s.ncard = n
  inside : ∀ p ∈ s, p.1 < n ∧ p.2 < n
  peaceful : s.Pairwise fun p q => p.1 ≠ q.1 ∧ p.2 ≠ q.2 ∧ ¬ SameDiagonal p q

variable {n : Nat} {σ σ' : NQueens} {p q : Pos} {board : List (List Int)} {queens : List Pos}

/-! ## The board -/

theorem Shows.isSome (h : Shows n board queens) (hp : p.1 < n ∧ p.2 < n) : (Grid.cell board p).isSome := by
  rw [h p, if_pos hp]
  rfl

/-- Writing `1` adds a queen. -/
theorem Shows.add (h : Shows n board queens) (hp : p.1 < n ∧ p.2 < n) :
    ∃ board', Grid.write board p 1 = some board' ∧ Shows n board' (queens ++ [p]) := by
  obtain ⟨board', hwrite, hcell⟩ := Grid.exists_write (h.isSome hp) 1
  refine ⟨board', hwrite, fun q => ?_⟩
  rw [hcell q]
  split
  · rename_i hq
    rw [if_pos (hq ▸ hp), if_pos (List.mem_append_right _ (List.mem_singleton.2 hq))]
  · rename_i hq
    rw [h q]
    simp [hq]

/-- Writing `0` removes a queen. -/
theorem Shows.remove (h : Shows n board queens) (hp : p.1 < n ∧ p.2 < n) :
    ∃ board', Grid.write board p 0 = some board' ∧ Shows n board' (queens.filter (· ≠ p)) := by
  obtain ⟨board', hwrite, hcell⟩ := Grid.exists_write (h.isSome hp) 0
  refine ⟨board', hwrite, fun q => ?_⟩
  rw [hcell q]
  split
  · rename_i hq
    rw [if_pos (hq ▸ hp), if_neg (fun hmem => by simp [hq] at hmem)]
  · rename_i hq
    rw [h q]
    simp [hq]

/-- The positions that the constructor chooses. -/
def chosen (n : Nat) (rand : Nat → Nat) (k : Nat) : List Pos := (List.range k).map fun x => (x, rand x % n)

/-- **The constructor**: a queen in every row, in any column. -/
theorem getNewBoard_spec (n : Nat) (rand : Nat → Nat) :
    ∃ board, getNewBoard n rand = some (board, chosen n rand n) ∧ Shows n board (chosen n rand n) := by
  have hloop : ∀ k ≤ n, ∃ board,
      (List.range k).foldlM (newRow n rand) (List.replicate n (List.replicate n 0), []) =
        some (board, chosen n rand k) ∧ Shows n board (chosen n rand k) := by
    intro k hk
    induction k with
    | zero =>
      refine ⟨_, rfl, fun p => ?_⟩
      rw [Grid.cell_replicate]
      simp [chosen]
    | succ k ih =>
      obtain ⟨board, hfold, hshows⟩ := ih (by omega)
      obtain ⟨board', hwrite, hshows'⟩ := hshows.add (p := (k, rand k % n)) ⟨by omega, Nat.mod_lt _ (by omega)⟩
      have hnext : chosen n rand (k + 1) = chosen n rand k ++ [(k, rand k % n)] := by
        rw [chosen, List.range_succ, List.map_append]
        rfl
      refine ⟨board', ?_, by rwa [hnext]⟩
      rw [List.range_succ, List.foldlM_append, hfold, hnext]
      simp [newRow, hwrite]
  exact hloop n le_rfl

theorem exists_newQueens (n : Nat) (rand : Nat → Nat) : ∃ σ, newQueens n rand = some σ ∧ Placed n σ := by
  obtain ⟨board, hnew, hshows⟩ := getNewBoard_spec n rand
  refine ⟨⟨board, chosen n rand n, n⟩, by rw [newQueens, hnew]; rfl, rfl, ?_, fun p hp => ?_, hshows⟩
  · simp [chosen, Function.comp_def]
  · obtain ⟨x, hx, rfl⟩ := List.mem_map.1 hp
    exact Nat.mod_lt _ (by have := List.mem_range.1 hx; omega)

/-! ## One queen in every row -/

theorem Placed.inside (h : Placed n σ) (hp : p ∈ σ.queenPositions) : p.1 < n ∧ p.2 < n :=
  ⟨List.mem_range.1 (h.rows.subset (List.mem_map_of_mem hp)), h.columns p hp⟩

theorem Placed.nodup_rows (h : Placed n σ) : (σ.queenPositions.map Prod.fst).Nodup :=
  h.rows.nodup_iff.2 List.nodup_range

theorem Placed.nodup (h : Placed n σ) : σ.queenPositions.Nodup := h.nodup_rows.of_map

theorem Placed.length (h : Placed n σ) : σ.queenPositions.length = n := by
  rw [← List.length_map, h.rows.length_eq, List.length_range]

/-- Two queens in one row are one. -/
theorem Placed.eq_of_row (h : Placed n σ) (hp : p ∈ σ.queenPositions) (hq : q ∈ σ.queenPositions) (hrow : p.1 = q.1) :
    p = q := List.inj_on_of_nodup_map h.nodup_rows hp hq hrow

theorem Placed.existsUnique (h : Placed n σ) {x : Nat} (hx : x < n) : ∃! p, p ∈ σ.queenPositions ∧ p.1 = x := by
  obtain ⟨p, hp, hrow⟩ := List.mem_map.1 (h.rows.symm.subset (List.mem_range.2 hx))
  exact ⟨p, ⟨hp, hrow⟩, fun q hq => h.eq_of_row hq.1 hp (hq.2.trans hrow.symm)⟩

/-- A queen can be picked, unless there is none. -/
theorem Placed.pickRandomQueen (h : Placed n σ) (hn : 0 < n) (rand : Nat) :
    ∃ p ∈ σ.queenPositions, σ.pickRandomQueen rand = some p := by
  have hlt : rand % σ.n < σ.queenPositions.length := by
    rw [h.length, h.size]
    exact Nat.mod_lt _ hn
  exact ⟨_, List.getElem_mem hlt, List.getElem?_eq_getElem hlt⟩

/-- **A move** keeps one queen in every row. -/
theorem Placed.moveQueen (h : Placed n σ) (hp : p ∈ σ.queenPositions) (hq : q ∈ σ.availablePositions p) :
    ∃ σ', σ.moveQueen p q = some σ' ∧ Placed n σ' := by
  obtain ⟨y, hy, rfl⟩ := List.mem_map.1 hq
  rw [h.size, List.mem_range] at hy
  have hinside := h.inside hp
  obtain ⟨board, hremove, hshows⟩ := h.board.remove hinside
  obtain ⟨board', hadd, hshows'⟩ := hshows.add (p := (p.1, y)) ⟨hinside.1, hy⟩
  have hassert : Grid.cell σ.board p = some 1 := by rw [h.board p, if_pos hinside, if_pos hp]
  refine ⟨⟨board', σ.queenPositions.filter (· ≠ p) ++ [(p.1, y)], σ.n⟩, ?_, h.size, ?_, ?_, hshows'⟩
  · simp [NQueens.moveQueen, hassert, hremove, hadd]
  · -- the row of the queen that is taken away is the row of the queen that is put back
    have hfilter : σ.queenPositions.filter (· ≠ p) = σ.queenPositions.erase p := by
      rw [h.nodup.erase_eq_filter]
      exact List.filter_congr fun r _ => by by_cases hr : r = p <;> simp [hr]
    have hback : (σ.queenPositions.erase p ++ [(p.1, y)]).map Prod.fst =
        (σ.queenPositions.erase p ++ [p]).map Prod.fst := by
      rw [List.map_append, List.map_append]
      rfl
    dsimp only
    rw [hfilter, hback]
    exact (((List.perm_append_singleton p _).trans (List.perm_cons_erase hp).symm).map Prod.fst).trans h.rows
  · intro r hr
    rcases List.mem_append.1 hr with hr | hr
    · exact h.columns r (List.mem_filter.1 hr).1
    · rw [List.mem_singleton.1 hr]
      exact hy

theorem placed_reachable (h : (minConflicts n).Reachable σ) : Placed n σ := by
  refine h.invariant (P := Placed n) ?_ ?_
  · rintro σ ⟨rand, hnew⟩
    obtain ⟨σ', hnew', hplaced⟩ := exists_newQueens n rand
    rwa [Option.some.inj (hnew.symm.trans hnew')]
  · rintro σ move σ' _ hplaced ⟨hp, hq, hmove⟩
    obtain ⟨σ'', hmove', hplaced'⟩ := hplaced.moveQueen hp hq
    rwa [Option.some.inj (hmove.symm.trans hmove')]

/-! ## Conflicts -/

/-- A queen that is in another row, or is the queen itself, is counted once if it shares a line with it: the tests of
the diagonal and of the column exclude each other. -/
theorem countQueen_eq {count : Nat} (hrow : p.1 = q.1 → p = q) :
    NQueens.countQueen p count q = count + if SharesLine p q then 1 else 0 := by
  unfold NQueens.countQueen onDiagonal SharesLine SameDiagonal
  by_cases hpq : p = q
  · simp [hpq]
  · have hne : q ≠ p := fun e => hpq e.symm
    have hrow : p.1 ≠ q.1 := fun e => hpq (hrow e)
    simp only [hne, hpq, hrow, ne_eq, not_false_eq_true, and_true, true_and, if_false, decide_eq_true_eq]
    grind

theorem foldl_countQueen {count : Nat} : ∀ {queens : List Pos}, (∀ q ∈ queens, p.1 = q.1 → p = q) →
    queens.foldl (NQueens.countQueen p) count = count + queens.countP (SharesLine p ·)
  | [], _ => rfl
  | q :: queens, h => by
    rw [List.foldl_cons, foldl_countQueen fun q hq => h q (List.mem_cons_of_mem _ hq),
      countQueen_eq (h q List.mem_cons_self), List.countP_cons]
    simp only [decide_eq_true_eq]
    omega

/-- A queen is attacked by those that share a line with it. -/
theorem Placed.underAttack_iff (h : Placed n σ) (hp : p ∈ σ.queenPositions) :
    σ.underAttack p = true ↔ ∃ q ∈ σ.queenPositions, SharesLine p q := by
  unfold NQueens.underAttack NQueens.attackViaDiagonal NQueens.attackViaRow NQueens.attackViaCol onDiagonal
  simp only [Bool.or_eq_true, List.any_eq_true, decide_eq_true_eq]
  constructor
  · rintro ((⟨q, hq, hdiag, hne⟩ | ⟨q, hq, hrow, hne⟩) | ⟨q, hq, hcol, hne⟩)
    · exact ⟨q, hq, hne.symm, .inr (by unfold SameDiagonal; omega)⟩
    · exact absurd (h.eq_of_row hq hp hrow.symm) hne
    · exact ⟨q, hq, hne.symm, .inl hcol⟩
  · rintro ⟨q, hq, hne, hcol | hdiag⟩
    · exact .inr ⟨q, hq, hcol, hne.symm⟩
    · exact .inl (.inl ⟨q, hq, by unfold SameDiagonal at hdiag; omega, hne.symm⟩)

/-- All queens are safe exactly if no two of them share a line. -/
theorem Placed.allQueensSafe_iff (h : Placed n σ) :
    σ.allQueensSafe = true ↔ ∀ p ∈ σ.queenPositions, ∀ q ∈ σ.queenPositions, ¬ SharesLine p q := by
  unfold NQueens.allQueensSafe
  rw [List.all_eq_true]
  refine forall₂_congr fun p hp => ?_
  rw [Bool.not_eq_true', ← Bool.not_eq_true, h.underAttack_iff hp]
  push Not
  rfl

/-- The cells that hold `1` are a solution exactly if no two queens share a line. -/
theorem Placed.solution_iff (h : Placed n σ) : Solution n {p | Grid.cell σ.board p = some 1} ↔
    ∀ p ∈ σ.queenPositions, ∀ q ∈ σ.queenPositions, ¬ SharesLine p q := by
  have hcells : {p | Grid.cell σ.board p = some 1} = ↑σ.queenPositions.toFinset := by
    ext p
    rw [Set.mem_ofPred_eq, h.board p, List.coe_toFinset, Set.mem_ofPred_eq]
    constructor
    · intro hp
      by_contra hno
      simp [hno] at hp
    · intro hp
      rw [if_pos (h.inside hp), if_pos hp]
  rw [hcells]
  constructor
  · rintro ⟨-, -, hpeace⟩ p hp q hq ⟨hne, hline⟩
    obtain ⟨-, hcol, hdiag⟩ := hpeace (by simpa using hp) (by simpa using hq) hne
    exact hline.elim hcol hdiag
  · intro hsafe
    refine ⟨?_, fun p hp => h.inside (by simpa using hp), fun p hp q hq hne => ?_⟩
    · rw [Set.ncard_coe_finset, List.toFinset_card_of_nodup h.nodup, h.length]
    · have hp : p ∈ σ.queenPositions := by simpa using hp
      have hq : q ∈ σ.queenPositions := by simpa using hq
      exact ⟨fun hrow => hne (h.eq_of_row hp hq hrow), fun hcol => hsafe p hp q hq ⟨hne, .inl hcol⟩,
        fun hdiag => hsafe p hp q hq ⟨hne, .inr hdiag⟩⟩

/-- **The board of the search.** After any choice of the constructor and any moves: there are `n` queens, one in every
row, and the board has `1` at them and `0` elsewhere, so that the assertion of a move holds; the conflicts of a queen
are the other queens in its column or on a diagonal, and there are none exactly if it is not under attack; all queens
are safe exactly if the board is a solution. -/
theorem queens_consistent (h : (minConflicts n).Reachable σ) :
    (σ.queenPositions.length = n ∧ σ.queenPositions.Nodup ∧ ∀ x < n, ∃! p, p ∈ σ.queenPositions ∧ p.1 = x) ∧
    (∀ p, p.1 < n → p.2 < n → Grid.cell σ.board p = some (if p ∈ σ.queenPositions then 1 else 0)) ∧
    (∀ p ∈ σ.queenPositions, ∀ q ∈ σ.availablePositions p, (σ.moveQueen p q).isSome) ∧
    (∀ p ∈ σ.queenPositions, ∃ count, σ.specificQueenConflicts p = some count ∧
      count = (σ.queenPositions.filter (SharesLine p ·)).length ∧ (count = 0 ↔ σ.underAttack p = false)) ∧
    (σ.allQueensSafe = true ↔ Solution n {p | Grid.cell σ.board p = some 1}) := by
  have hplaced := placed_reachable h
  refine ⟨⟨hplaced.length, hplaced.nodup, fun x hx => hplaced.existsUnique hx⟩, fun p hx hy => ?_, fun p hp q hq => ?_,
    fun p hp => ⟨_, if_pos hp, ?_, ?_⟩, hplaced.allQueensSafe_iff.trans hplaced.solution_iff.symm⟩
  · rw [hplaced.board p, if_pos ⟨hx, hy⟩]
  · obtain ⟨σ', hmove, -⟩ := hplaced.moveQueen hp hq
    rw [hmove]
    rfl
  · rw [foldl_countQueen fun q hq hrow => hplaced.eq_of_row hp hq hrow, Nat.zero_add, List.countP_eq_length_filter]
  · rw [foldl_countQueen fun q hq hrow => hplaced.eq_of_row hp hq hrow, Nat.zero_add, List.countP_eq_zero,
      ← Bool.not_eq_true, hplaced.underAttack_iff hp]
    simp

/-- Four queens, one of which is moved from the column of another to where no other queen attacks it. -/
theorem queens_consistent_four :
    let σ : NQueens := ⟨[[0, 1, 0, 0], [0, 0, 0, 1], [0, 0, 1, 0], [0, 0, 1, 0]], [(0, 1), (1, 3), (2, 2), (3, 2)], 4⟩
    let σ' : NQueens := ⟨[[0, 1, 0, 0], [0, 0, 0, 1], [1, 0, 0, 0], [0, 0, 1, 0]], [(0, 1), (1, 3), (3, 2), (2, 0)], 4⟩
    newQueens 4 (fun x => [1, 3, 2, 2].getD x 0) = some σ ∧ σ.specificQueenConflicts (2, 2) = some 2 ∧
      σ.moveQueen (2, 2) (2, 0) = some σ' ∧ Solution 4 {p | Grid.cell σ'.board p = some 1} := by
  intro σ σ'
  have hnew : newQueens 4 (fun x => [1, 3, 2, 2].getD x 0) = some σ := rfl
  have hmove : σ.moveQueen (2, 2) (2, 0) = some σ' := by decide
  have hreach : (minConflicts 4).Reachable σ := .init ⟨_, hnew⟩
  have hreach' : (minConflicts 4).Reachable σ' :=
    hreach.step (a := ((2, 2), (2, 0))) ⟨by decide, by decide, hmove⟩
  exact ⟨hnew, by decide, hmove, (queens_consistent hreach').2.2.2.2.1 (by decide)⟩

end IntroNP.Queens
