import IntroNP.Lib.Grid
import IntroNP.Lib.System
import Mathlib.Algebra.Group.Nat.Defs
import Mathlib.Algebra.Group.Int.Defs

/-!
# The queens: the board of the min-conflicts search

The class `NQueens`. A position is a row and a column. What `rand` returns is a parameter; an `assert` that fails, or an
index outside of the board, is `none`.
-/

namespace IntroNP.Queens

/-- A row and a column. -/
abbrev Pos := Nat × Nat

scoped instance : LawfulBEq Pos := inferInstance

structure NQueens where
  board : List (List Int)
  queenPositions : List Pos
  n : Nat
  deriving DecidableEq

/-- The turn of `getNewBoard` for row `x`, in which `rand` returns `rand x`. -/
def newRow (n : Nat) (rand : Nat → Nat) (made : List (List Int) × List Pos) (x : Nat) :
    Option (List (List Int) × List Pos) := do
  let randomIndex := rand x % n
  let newBoard ← Grid.write made.1 (x, randomIndex) 1
  some (newBoard, made.2 ++ [(x, randomIndex)])

def getNewBoard (n : Nat) (rand : Nat → Nat) : Option (List (List Int) × List Pos) :=
  (List.range n).foldlM (newRow n rand) (List.replicate n (List.replicate n 0), [])

/-- The constructor. -/
def newQueens (n : Nat) (rand : Nat → Nat) : Option NQueens :=
  (getNewBoard n rand).map fun (board, queenPositions) => ⟨board, queenPositions, n⟩

/-- `abs(queen.first - pos.first) == abs(queen.second - pos.second)`. -/
def onDiagonal (queen pos : Pos) : Bool :=
  ((queen.1 : Int) - pos.1).natAbs = ((queen.2 : Int) - pos.2).natAbs

namespace NQueens

def attackViaCol (σ : NQueens) (pos : Pos) : Bool :=
  σ.queenPositions.any fun queen => pos.2 = queen.2 ∧ queen ≠ pos

def attackViaRow (σ : NQueens) (pos : Pos) : Bool :=
  σ.queenPositions.any fun queen => pos.1 = queen.1 ∧ queen ≠ pos

def attackViaDiagonal (σ : NQueens) (pos : Pos) : Bool :=
  σ.queenPositions.any fun queen => onDiagonal queen pos ∧ queen ≠ pos

def underAttack (σ : NQueens) (position : Pos) : Bool :=
  σ.attackViaDiagonal position || σ.attackViaRow position || σ.attackViaCol position

def allQueensSafe (σ : NQueens) : Bool := σ.queenPositions.all fun pos => !σ.underAttack pos

/-- The turn of `specificQueenConflicts` on one queen. -/
def countQueen (pos : Pos) (count : Nat) (queen : Pos) : Nat :=
  let count := if onDiagonal queen pos ∧ queen ≠ pos then count + 1 else count
  let count := if pos.1 = queen.1 ∧ queen ≠ pos then count + 1 else count
  if pos.2 = queen.2 ∧ queen ≠ pos then count + 1 else count

def specificQueenConflicts (σ : NQueens) (pos : Pos) : Option Nat :=
  if pos ∈ σ.queenPositions then some (σ.queenPositions.foldl (countQueen pos) 0) else none

/-- `pickRandomQueen`, where `rand` returns `rand`. -/
def pickRandomQueen (σ : NQueens) (rand : Nat) : Option Pos := σ.queenPositions[rand % σ.n]?

def moveQueen (σ : NQueens) (startPos endPos : Pos) : Option NQueens := do
  guard (Grid.cell σ.board startPos = some 1)
  let board ← Grid.write σ.board startPos 0
  let board ← Grid.write board endPos 1
  some { σ with board, queenPositions := σ.queenPositions.filter (· ≠ startPos) ++ [endPos] }

def availablePositions (σ : NQueens) (pos : Pos) : List Pos := (List.range σ.n).map fun x => (pos.1, x)

end NQueens

/-- The search on `n` rows, with any choice of moves: a queen and one of the positions that are available to it. -/
def minConflicts (n : Nat) : System NQueens (Pos × Pos) where
  init σ := ∃ rand, newQueens n rand = some σ
  step σ move σ' := move.1 ∈ σ.queenPositions ∧ move.2 ∈ σ.availablePositions move.1 ∧
    σ.moveQueen move.1 move.2 = some σ'

example : (newQueens 4 fun x => x * x).bind (·.moveQueen (2, 0) (2, 3)) =
    some ⟨[[1, 0, 0, 0], [0, 1, 0, 0], [0, 0, 0, 1], [0, 1, 0, 0]], [(0, 0), (1, 1), (3, 1), (2, 3)], 4⟩ := rfl

end IntroNP.Queens
