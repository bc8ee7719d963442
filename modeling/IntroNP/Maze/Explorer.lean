import IntroNP.Lib.Python
import IntroNP.Lib.System
import IntroNP.Maze.FindPath

/-!
# The maze that is seen in part

`find_path` of `3-4.py`: a depth-first search of a maze of which the server shows the rows and columns around the robot
only. The robot walks while it searches, and every answer of the server adds a row or a column to `known_maze`. The
server is not in the repository, so that its answers are arbitrary texts; so is what `int` makes of a text.

- `Explorer.turn`: a turn of the loop, for an answer to what it sends;
- `exploring`: the runs, of which `explore` computes one.
-/

namespace IntroNP.Maze

/-- The rows that `send_move` returns. -/
abbrev View := List (Int × Text)

/-- An element of `q`. -/
structure Entry where
  y : Int
  x : Int
  path : Text
  deriving DecidableEq

/-- The variables of `find_path`. The top of the stack `q` is first. The last four record the letters sent to the
server, the number of columns put in front of `knownMaze`, and what was taken out of and put in the stack, by where it
was in the first `knownMaze`; no branch reads them. -/
structure Explorer where
  cury : Int
  curx : Int
  knownMaze : List Text
  q : List Entry
  visit : List Pos
  sent : Text
  columns : Nat
  popped : List Pos
  recorded : List (Pos × Char)
  deriving DecidableEq

/-- How a run ends. -/
inductive Outcome
  | returned (flag : Text)
  | raised
  deriving DecidableEq

inductive Run
  | running (s : Explorer)
  | ended (s : Explorer) (outcome : Outcome)
  deriving DecidableEq

def Run.explorer : Run → Explorer
  | running s => s
  | ended s _ => s

def PAD : Char := '_'

/-- The directions, in the order of the tests. -/
def directions : List Direction := [up, down, left, right]

/-! ## What the server sends -/

section Views

variable (int : Text → Option Int)

/-- A line of the answer. -/
def addRow (newMaze : View) (mazeRow : Text) : Option View :=
  match split ':' ' ' mazeRow with
  | [i, m] => do
    let rowIdx ← int i
    let m := remove '\n' m
    let noSpaces := remove ' ' m
    some (if noSpaces ≠ [] then newMaze ++ [(rowIdx, m)] else newMaze)
  | _ => some newMaze

/-- What `send_move` makes of the answer. -/
def sendMove (raw : Text) : Option View := (raw.splitOn '\n').foldlM (addRow int) []

/-- What `get_flag` makes of the answer. -/
def getFlag (received : Text) : Text := remove '\n' received

/-- The first loop over the lines of the first view. -/
def initXlen : List Text → Int
  | [] => -1
  | mazeRow :: maze =>
    match split ':' ' ' mazeRow with
    | [_, m] =>
      let m := remove ' ' m
      if m ≠ [] then (remove '\n' m).length else initXlen maze
    | _ => initXlen maze

/-- The second loop: `known_maze`, `cury` and `curx`. -/
def readRow (s : List Text × Int × Int) (mazeRow : Text) : Option (List Text × Int × Int) :=
  match split ':' ' ' mazeRow with
  | [i, m] => do
    let rowIdx ← int i
    let m := remove '\n' (remove ' ' m)
    let knownMaze ← if m ≠ [] then setIndex s.1 rowIdx m else some s.1
    some (knownMaze, if '*' ∈ m then (rowIdx, (m.idxOf '*' : Int)) else s.2)
  | _ => some s

/-- Before the loop. -/
def Explorer.first (maze : List Text) (size : Int × Int) : Option Explorer := do
  let row := List.replicate (initXlen maze).toNat PAD
  let (knownMaze, cury, curx) ← maze.foldlM (readRow int) (List.replicate size.1.toNat row, -1, -1)
  some ⟨cury, curx, knownMaze, [⟨cury, curx, []⟩], [(cury, curx)], [], 0, [], []⟩

end Views

/-! ## The answer to a move -/

/-- The row that comes into view, after `W` and `S`. -/
def writeRow (vpw x : Int) (new : Int × Text) (knownMaze : List Text) : Option (List Text) := do
  let newRow := remove ' ' new.2
  let newRowIdx := new.1
  let first ← index knownMaze 0
  let left := if x - vpw / 2 ≥ 0 then x - vpw / 2 else 0
  let right := if x + vpw / 2 + 1 ≤ first.length then x + vpw / 2 + 1 else first.length
  let originRow ← index knownMaze newRowIdx
  if slice originRow left right ≠ newRow then
    setIndex knownMaze newRowIdx (sliceTo originRow left ++ newRow ++ sliceFrom originRow right)
  else some knownMaze

/-- A loop over the rows, after `A` and `D`: `inside` for those in view, with a character of theirs, and `outside` for
the others. -/
def writeColumn (yOffset : Int) (newMaze : View) (char : Text → Option Char) (inside : Char → Text → Text)
    (outside : Text → Text) : Nat → Nat → List Text → Option (List Text)
  | _, _, [] => some []
  | i, tmpIdx, row :: rows =>
    if yOffset ≤ i ∧ i < yOffset + newMaze.length then do
      let new ← newMaze[tmpIdx]?
      let c ← char (remove ' ' new.2)
      let rows ← writeColumn yOffset newMaze char inside outside (i + 1) (tmpIdx + 1) rows
      some (inside c row :: rows)
    else do
      let rows ← writeColumn yOffset newMaze char inside outside (i + 1) tmpIdx rows
      some (outside row :: rows)

namespace Explorer

/-- A column in front moves what the stack and `visit` hold. -/
def shift (s : Explorer) : Explorer :=
  { s with
    visit := s.visit.map fun v => (v.1, v.2 + 1)
    q := s.q.map fun p => { p with x := p.x + 1 }
    columns := s.columns + 1 }

/-- What the answer to a move from column `x` changes. -/
def update (vpw x : Int) (move : Char) (newMaze : View) (s : Explorer) : Option Explorer :=
  if move = 'W' then do
    let new ← index newMaze 0
    let knownMaze ← writeRow vpw x new s.knownMaze
    some { s with knownMaze }
  else if move = 'S' then do
    let new ← index newMaze (-1)
    let knownMaze ← writeRow vpw x new s.knownMaze
    some { s with knownMaze }
  else if move = 'A' then do
    let new ← index newMaze 0
    let newColIdx := x - vpw / 2
    if new.2.head? = some ' ' then
      let knownMaze ← writeColumn new.1 newMaze List.head? (fun c row => c :: sliceFrom row 1) id 0 0 s.knownMaze
      some { s with knownMaze }
    else if newColIdx = -1 then
      let knownMaze ← writeColumn new.1 newMaze List.head? List.cons (PAD :: ·) 0 0 s.knownMaze
      some { s.shift with knownMaze }
    else
      let knownMaze ← writeColumn new.1 newMaze List.head?
        (fun c row => sliceTo row newColIdx ++ c :: sliceFrom row (newColIdx + 1)) id 0 0 s.knownMaze
      some { s with knownMaze }
  else if move = 'D' then do
    let new ← index newMaze 0
    let newColIdx := x + vpw / 2
    if new.2.getLast? = some ' ' then
      let knownMaze ← writeColumn new.1 newMaze List.getLast? (fun c row => sliceTo row (-1) ++ [c]) id 0 0 s.knownMaze
      some { s with knownMaze }
    else
      let first ← index s.knownMaze 0
      if newColIdx = first.length then
        let knownMaze ← writeColumn new.1 newMaze List.getLast? (fun c row => row ++ [c]) (· ++ [PAD]) 0 0 s.knownMaze
        some { s with knownMaze }
      else
        let knownMaze ← writeColumn new.1 newMaze List.getLast?
          (fun c row => sliceTo row newColIdx ++ c :: sliceFrom row (newColIdx + 1)) id 0 0 s.knownMaze
        some { s with knownMaze }
  else some s

/-! ## The loop -/

/-- Where a position was in the first `knownMaze`. -/
def home (s : Explorer) (p : Pos) : Pos := (p.1, p.2 - s.columns)

def pop (s : Explorer) (e : Entry) (q : List Entry) : Explorer :=
  { s with q, popped := s.popped ++ [s.home (e.y, e.x)] }

def push (s : Explorer) (p : Pos) (path : Text) (c : Char) : Explorer :=
  { s with
    visit := s.visit ++ [p]
    q := ⟨p.1, p.2, path⟩ :: s.q
    recorded := s.recorded ++ [(s.home p, c)] }

def send (s : Explorer) (letters : Text) : Explorer := { s with sent := s.sent ++ letters }

/-- One of the four tests; the second component is `dead_end`. -/
def tryPush (e : Entry) (s : Explorer × Bool) (d : Direction) : Option (Explorer × Bool) := do
  let p := d.next (e.y, e.x)
  let c ← cell s.1.knownMaze p.1 p.2
  some (if Enters c s.1.visit p then (s.1.push p (e.path ++ [d.letter]) c, false) else s)

end Explorer

/-- The letter that undoes a letter. -/
def opposite : Char → Option Char
  | 'W' => some 'S'
  | 'S' => some 'W'
  | 'D' => some 'A'
  | 'A' => some 'D'
  | _ => none

/-- `get_reverse_path`. -/
def getReversePath (path parent : Text) : Text :=
  let toParentPath := sliceFrom path (parent.length - 1)
  toParentPath.reverse.filterMap opposite

section Runs

variable (int : Text → Option Int)

/-- `E` was popped. -/
def Explorer.arrive (s : Explorer) (e : Entry) (reply : Text) : Run :=
  match e.path.getLast? with
  | none => .ended s .raised
  | some move => .ended (s.send [move]) (.returned (getFlag reply))

/-- At a dead end, the robot goes back to where the next element of the stack was pushed. -/
def Explorer.turnBack (s : Explorer) (e : Entry) (reply : Text) : Run :=
  match s.q with
  | [] => .ended s .raised
  | next :: _ =>
    let s := s.send (getReversePath e.path.dropLast next.path)
    match sendMove int reply with
    | none => .ended s .raised
    | some _ => .running s

/-- Elsewhere it makes the last move of the path. -/
def Explorer.advance (vp : Int × Int) (s : Explorer) (e : Entry) (move : Char) (reply : Text) : Run :=
  let s := s.send [move]
  match (sendMove int reply).bind fun newMaze => s.update vp.2 e.x move newMaze with
  | none => .ended s .raised
  | some s => .running s

/-- A turn of the loop, when the server answers `reply` to what it sends. -/
def Explorer.turn (vp : Int × Int) (s : Explorer) (reply : Text) : Run :=
  match s.q with
  | [] => .ended s (.returned [])
  | e :: q =>
    let s := s.pop e q
    match cell s.knownMaze e.y e.x with
    | none => .ended s .raised
    | some c =>
      if c = 'E' then s.arrive e reply
      else
        match directions.foldlM (tryPush e) (s, true) with
        | none => .ended s .raised
        | some (s, deadEnd) =>
          match e.path.getLast? with
          | none => .running s
          | some move => if deadEnd then s.turnBack int e reply else s.advance int vp e move reply

/-- The loop, for a list of answers. -/
def Explorer.loop (vp : Int × Int) (s : Explorer) : List Text → Run
  | [] => .running s
  | reply :: replies =>
    match s.turn int vp reply with
    | .running s => s.loop vp replies
    | .ended s outcome => .ended s outcome

/-- `find_path`, for a list of answers; there is no run when the first view raises. -/
def explore (maze : List Text) (size vp : Int × Int) (replies : List Text) : Option Run :=
  (Explorer.first int maze size).map (·.loop int vp replies)

/-- The runs of `find_path`, with the answers of the server as labels. -/
def exploring (maze : List Text) (size vp : Int × Int) : System Run Text where
  init r := ∃ s, Explorer.first int maze size = some s ∧ r = .running s
  step r reply r' := ∃ s, r = .running s ∧ r' = s.turn int vp reply

variable {int : Text → Option Int} {maze : List Text} {size vp : Int × Int} {s : Explorer} {r : Run}

theorem reachable_loop (h : (exploring int maze size vp).Reachable (.running s)) :
    ∀ replies, (exploring int maze size vp).Reachable (s.loop int vp replies) := by
  intro replies
  induction replies generalizing s with
  | nil => exact h
  | cons reply replies ih =>
    have hturn : (exploring int maze size vp).Reachable (s.turn int vp reply) := h.step (a := reply) ⟨s, rfl, rfl⟩
    unfold Explorer.loop
    split
    · rename_i s' hs'
      exact ih (hs' ▸ hturn)
    · rename_i s' outcome hs'
      exact hs' ▸ hturn

theorem reachable_explore {replies : List Text} (h : explore int maze size vp replies = some r) :
    (exploring int maze size vp).Reachable r := by
  obtain ⟨s, hs, rfl⟩ := Option.map_eq_some_iff.1 h
  exact reachable_loop (.init ⟨s, hs, rfl⟩) replies

end Runs

end IntroNP.Maze
