import IntroNP.Lib.CString
import IntroNP.Lib.Python

/-!
# The mazes: searching

The searches of `3-3.py` and `3-2.py`. They differ in the order in which they try the directions only. A position is a
row and a column, and a maze is its rows.
-/

namespace IntroNP.Maze

/-- The row `y` and the column `x`. -/
abbrev Pos := Int × Int

/-- Why a search has no result: it had too few turns, or an index was out of range. -/
inductive Stop
  | turns
  | indexError
  deriving DecidableEq

/-- `maze[y][x]`. -/
def cell (maze : List Text) (y x : Int) : Option Char := (index maze y).bind (index · x)

/-- A letter, and how it moves. -/
structure Direction where
  letter : Char
  dy : Int
  dx : Int

def up : Direction := ⟨'W', -1, 0⟩

def down : Direction := ⟨'S', 1, 0⟩

def left : Direction := ⟨'A', 0, -1⟩

def right : Direction := ⟨'D', 0, 1⟩

/-- The position next to `p`. -/
def Direction.next (d : Direction) (p : Pos) : Pos := (p.1 + d.dy, p.2 + d.dx)

/-- `queue` and `visited`. -/
abbrev Marks := List (Pos × Text) × List Pos

/-- What lets a search step on `p`, where `c` is. -/
def Enters (c : Char) (visited : List Pos) (p : Pos) : Prop := (c = '.' ∨ c = 'E') ∧ p ∉ visited

instance (c : Char) (visited : List Pos) (p : Pos) : Decidable (Enters c visited p) :=
  inferInstanceAs (Decidable (_ ∧ _))

/-- One of the four tests of a turn. -/
def tryMove (maze : List Text) (cur : Pos) (curPath : Text) (s : Marks) (d : Direction) : Except Stop Marks :=
  match cell maze (d.next cur).1 (d.next cur).2 with
  | none => .error .indexError
  | some c =>
    if Enters c s.2 (d.next cur) then .ok (s.1 ++ [(d.next cur, curPath ++ [d.letter])], s.2 ++ [d.next cur])
    else .ok s

/-- The loop over the queue, for a number of turns. -/
def search (directions : List Direction) (maze : List Text) :
    Nat → List (Pos × Text) → List Pos → Except Stop Text
  | 0, _, _ => .error .turns
  | _ + 1, [], _ => .ok []
  | turns + 1, (cur, curPath) :: queue, visited =>
    match cell maze cur.1 cur.2 with
    | none => .error .indexError
    | some c =>
      if c = 'E' then .ok curPath
      else
        match directions.foldlM (tryMove maze cur curPath) (queue, visited) with
        | .error e => .error e
        | .ok (queue, visited) => search directions maze turns queue visited

/-- `find_path` of `3-3.py`. -/
def findPath (turns : Nat) (maze : List Text) (start : Pos) : Except Stop Text :=
  search [up, down, left, right] maze turns [(start, [])] [start]

/-- The search in `main` of `3-2.py`. -/
def mainSearch (turns : Nat) (maze : List Text) (start : Pos) : Except Stop Text :=
  search [down, up, right, left] maze turns [(start, [])] [start]

example : findPath 9 ["#####", "#*..#", "#.E.#", "#####"] (1, 1) = .ok "SD" := by decide +kernel
example : mainSearch 9 ["#####", "#*..#", "#.E.#", "#####"] (1, 1) = .ok "SD" := by decide +kernel

end IntroNP.Maze
