import IntroNP.Lib.Bfs
import IntroNP.Maze.FindPath

/-!
# The mazes: shortest paths

Inside a border without open cells no index is out of range or negative, so that a search of the maze is a breadth-first
search of its open cells.

- `foldlM_tryMove`: the tests of a turn push the open cells next to a position;
- `search_eq_bfs`: the loop is a breadth-first search;
- `findPath_shortest`: both programs find a shortest path to an exit.
-/

namespace IntroNP.Maze

open Bfs

/-- What is at a position, if it is in the maze. -/
def cellAt (maze : List Text) (p : Pos) : Option Char :=
  if 0 ≤ p.1 ∧ 0 ≤ p.2 then maze[p.1.toNat]?.bind (·[p.2.toNat]?) else none

/-- A cell that may be stepped on. -/
def Open (maze : List Text) (p : Pos) : Prop := cellAt maze p = some '.' ∨ cellAt maze p = some 'E'

instance (maze : List Text) (p : Pos) : Decidable (Open maze p) := inferInstanceAs (Decidable (_ ∨ _))

def IsExit (maze : List Text) (p : Pos) : Prop := cellAt maze p = some 'E'

instance (maze : List Text) (p : Pos) : Decidable (IsExit maze p) := inferInstanceAs (Decidable (_ = _))

/-- A step on an open cell, with its letter. -/
def Moves (maze : List Text) (p : Pos) (letter : Char) (q : Pos) : Prop :=
  Open maze q ∧ ∃ d ∈ [up, down, left, right], letter = d.letter ∧ q = d.next p

/-- Strictly inside the border. -/
def Inside (maze : List Text) (width : Nat) (p : Pos) : Prop :=
  (0 < p.1 ∧ p.1 + 1 < maze.length) ∧ 0 < p.2 ∧ p.2 + 1 < width

instance (maze : List Text) (width : Nat) (p : Pos) : Decidable (Inside maze width p) :=
  inferInstanceAs (Decidable (_ ∧ _))

/-- A rectangular maze whose border has no open cell, and a start inside of it. -/
structure Bordered (maze : List Text) (width : Nat) (start : Pos) : Prop where
  rectangular : ∀ row ∈ maze, row.length = width
  border : ∀ y < maze.length, ∀ x < width, y = 0 ∨ y + 1 = maze.length ∨ x = 0 ∨ x + 1 = width → ¬ Open maze (y, x)
  inside : Inside maze width start
  star : cellAt maze start = some '*'

/-- The path is a shortest one to an exit, if one can be reached, and empty otherwise. -/
def Answers (maze : List Text) (start : Pos) (path : Text) : Prop :=
  ((∃ p b, Walk (Moves maze) start p b ∧ IsExit maze b) → Shortest (Moves maze) (IsExit maze) start path) ∧
    ((¬ ∃ p b, Walk (Moves maze) start p b ∧ IsExit maze b) → path = [])

variable {maze : List Text} {width : Nat} {start p q : Pos} {path : Text} {directions : List Direction}

/-! ## Positions -/

theorem cell_of_nonneg (hy : 0 ≤ p.1) (hx : 0 ≤ p.2) : cell maze p.1 p.2 = cellAt maze p := by
  unfold cell cellAt
  rw [if_pos ⟨hy, hx⟩, index_of_nonneg hy]
  congr 1
  funext row
  exact index_of_nonneg hx

/-- An open cell is inside. -/
theorem Bordered.inside_of_open (h : Bordered maze width start) (hq : Open maze q) : Inside maze width q := by
  have hsome : ∃ c, cellAt maze q = some c := by
    rcases hq with hq | hq
    · exact ⟨_, hq⟩
    · exact ⟨_, hq⟩
  obtain ⟨c, hc⟩ := hsome
  unfold cellAt at hc
  split at hc
  · rename_i hnonneg
    obtain ⟨row, hrow, hcell⟩ := Option.bind_eq_some_iff.1 hc
    have hy := (List.getElem?_eq_some_iff.1 hrow).1
    have hx := (List.getElem?_eq_some_iff.1 hcell).1
    have hwidth := h.rectangular row (List.mem_of_getElem? hrow)
    have hborder : ¬ (q.1.toNat = 0 ∨ q.1.toNat + 1 = maze.length ∨ q.2.toNat = 0 ∨ q.2.toNat + 1 = width) := by
      intro hb
      refine h.border _ hy _ (hwidth ▸ hx) hb ?_
      rwa [Int.toNat_of_nonneg hnonneg.1, Int.toNat_of_nonneg hnonneg.2]
    unfold Inside
    omega
  · cases hc

/-- A cell of the maze. -/
theorem Bordered.exists_cellAt (h : Bordered maze width start) (hy : 0 ≤ q.1) (hyl : q.1 < maze.length)
    (hx : 0 ≤ q.2) (hxl : q.2 < width) : ∃ c, cellAt maze q = some c := by
  have hrow : q.1.toNat < maze.length := by omega
  have hwidth := h.rectangular maze[q.1.toNat] (List.getElem_mem hrow)
  have hcell : q.2.toNat < maze[q.1.toNat].length := by omega
  unfold cellAt
  rw [if_pos ⟨hy, hx⟩, List.getElem?_eq_getElem hrow, Option.bind_some, List.getElem?_eq_getElem hcell]
  exact ⟨_, rfl⟩

theorem near {d : Direction} (hd : d ∈ [up, down, left, right]) : -1 ≤ d.dy ∧ d.dy ≤ 1 ∧ -1 ≤ d.dx ∧ d.dx ≤ 1 := by
  simp only [List.mem_cons, List.not_mem_nil, or_false] at hd
  rcases hd with rfl | rfl | rfl | rfl <;> decide

/-- **No index is out of range** next to a cell that is inside. -/
theorem Bordered.cell_next (h : Bordered maze width start) (hp : Inside maze width p) {d : Direction}
    (hd : d ∈ [up, down, left, right]) :
    ∃ c, cell maze (d.next p).1 (d.next p).2 = some c ∧ cellAt maze (d.next p) = some c := by
  obtain ⟨⟨hy, hyl⟩, hx, hxl⟩ := hp
  obtain ⟨hdy, hdy', hdx, hdx'⟩ := near hd
  have hy' : (d.next p).1 = p.1 + d.dy := rfl
  have hx' : (d.next p).2 = p.2 + d.dx := rfl
  obtain ⟨c, hc⟩ := h.exists_cellAt (q := d.next p) (by omega) (by omega) (by omega) (by omega)
  exact ⟨c, by rw [cell_of_nonneg (by omega) (by omega), hc], hc⟩

/-! ## The search -/

/-- The open cells next to a position, in the order of the directions. -/
def edges (directions : List Direction) (maze : List Text) (p : Pos) : List (Char × Pos) :=
  directions.filterMap fun d => if Open maze (d.next p) then some (d.letter, d.next p) else none

theorem mem_edges (hdirections : ∀ d, d ∈ directions ↔ d ∈ [up, down, left, right]) {letter : Char} :
    (letter, q) ∈ edges directions maze p ↔ Moves maze p letter q := by
  unfold edges Moves
  rw [List.mem_filterMap]
  constructor
  · rintro ⟨d, hd, hif⟩
    split at hif
    · rename_i hopen
      cases hif
      exact ⟨hopen, d, (hdirections d).1 hd, rfl, rfl⟩
    · cases hif
  · rintro ⟨hopen, d, hd, rfl, rfl⟩
    exact ⟨d, (hdirections d).2 hd, if_pos hopen⟩

/-- **The tests of a turn** push the open cells next to the position. -/
theorem foldlM_tryMove (h : Bordered maze width start) (hp : Inside maze width p) :
    ∀ {directions : List Direction}, (∀ d ∈ directions, d ∈ [up, down, left, right]) → ∀ (queue : List (Pos × Text))
      (visited : List Pos), directions.foldlM (tryMove maze p path) (queue, visited) =
        .ok (push path (edges directions maze p) queue visited)
  | [], _, queue, visited => rfl
  | d :: directions, hdirections, queue, visited => by
    have hrest := foldlM_tryMove h hp fun d' hd' => hdirections d' (List.mem_cons_of_mem d hd')
    obtain ⟨c, hcell, hc⟩ := h.cell_next hp (hdirections d List.mem_cons_self)
    have hopen : (c = '.' ∨ c = 'E') ↔ Open maze (d.next p) := by
      unfold Open
      rw [hc, Option.some.injEq, Option.some.injEq]
    have henters : Enters c visited (d.next p) ↔ Open maze (d.next p) ∧ d.next p ∉ visited := and_congr_left' hopen
    have htry : tryMove maze p path (queue, visited) d =
        .ok (if Open maze (d.next p) ∧ d.next p ∉ visited then
          (queue ++ [(d.next p, path ++ [d.letter])], visited ++ [d.next p]) else (queue, visited)) := by
      unfold tryMove
      rw [hcell]
      dsimp only
      by_cases hnew : Open maze (d.next p) ∧ d.next p ∉ visited
      · rw [if_pos (henters.2 hnew), if_pos hnew]
      · rw [if_neg (mt henters.1 hnew), if_neg hnew]
    rw [List.foldlM_cons, htry]
    dsimp only [bind, Except.bind]
    unfold edges
    rw [List.filterMap_cons]
    by_cases ho : Open maze (d.next p)
    · rw [if_pos ho]
      dsimp only
      unfold push
      by_cases hv : d.next p ∈ visited
      · rw [if_neg (fun hand => hand.2 hv), if_pos hv]
        exact hrest queue visited
      · rw [if_pos ⟨ho, hv⟩, if_neg hv]
        exact hrest _ _
    · rw [if_neg ho, if_neg (fun hand => ho hand.1)]
      exact hrest queue visited

/-- **The loop** is a breadth-first search. -/
theorem search_eq_bfs (h : Bordered maze width start)
    (hdirections : ∀ d, d ∈ directions ↔ d ∈ [up, down, left, right]) :
    ∀ {turns : Nat} {queue : List (Pos × Text)} {visited : List Pos}, visited.Nodup →
      (∀ e ∈ queue, Inside maze width e.1) → search directions maze turns queue visited =
        match bfs (edges directions maze) (fun p => decide (IsExit maze p)) turns queue visited with
        | none => .error .turns
        | some r => .ok (r.getD [])
  | 0, _, _, _, _ => rfl
  | _ + 1, [], _, _, _ => rfl
  | turns + 1, (cur, curPath) :: queue, visited, hnodup, hinside => by
    have hcur : Inside maze width cur := hinside (cur, curPath) List.mem_cons_self
    have ⟨⟨hy, hyl⟩, hx, hxl⟩ := hcur
    obtain ⟨c, hc⟩ := h.exists_cellAt (q := cur) (by omega) (by omega) (by omega) (by omega)
    have hexit : c = 'E' ↔ IsExit maze cur := by
      unfold IsExit
      rw [hc, Option.some.injEq]
    unfold search bfs
    rw [cell_of_nonneg (by omega) (by omega), hc]
    dsimp only
    rw [foldlM_tryMove h hcur fun d hd => (hdirections d).1 hd]
    by_cases he : IsExit maze cur
    · rw [if_pos (hexit.2 he), if_pos (decide_eq_true he)]
      rfl
    · rw [if_neg fun hE => he (hexit.1 hE), if_neg (by simpa using he)]
      obtain ⟨new, hpush, hnew, hedges, -⟩ := push_spec (edges directions maze cur) queue hnodup
      dsimp only
      refine search_eq_bfs h hdirections ?_ fun e hmem => ?_
      · rw [hpush]
        exact hnew
      · rw [hpush] at hmem
        rcases List.mem_append.1 hmem with hmem | hmem
        · exact hinside e (List.mem_cons_of_mem _ hmem)
        · obtain ⟨letter, hedge, -⟩ := hedges e hmem
          exact h.inside_of_open ((mem_edges hdirections).1 hedge).1

/-! ## Both programs -/

/-- The positions of the maze. -/
def positions (maze : List Text) (width : Nat) : List Pos :=
  (List.range maze.length).flatMap fun y : Nat => (List.range width).map fun x : Nat => ((y : Int), (x : Int))

theorem positions_length : (positions maze width).length = maze.length * width := by
  unfold positions
  simp [List.length_flatMap]

theorem mem_positions (hp : Inside maze width p) : p ∈ positions maze width := by
  obtain ⟨⟨hy, hyl⟩, hx, hxl⟩ := hp
  unfold positions
  have hy' : p.1.toNat < maze.length := by omega
  have hx' : p.2.toNat < width := by omega
  refine List.mem_flatMap.2 ⟨p.1.toNat, List.mem_range.2 hy', List.mem_map.2 ⟨p.2.toNat, List.mem_range.2 hx', ?_⟩⟩
  rw [Int.toNat_of_nonneg (by omega), Int.toNat_of_nonneg (by omega)]

/-- Walks stay inside. -/
theorem Bordered.inside_of_walk (h : Bordered maze width start) (hw : Walk (Moves maze) start path p) :
    Inside maze width p := by
  cases hw with
  | nil => exact h.inside
  | snoc _ hd => exact h.inside_of_open hd.1

/-- **One program** finds a shortest path to an exit, whatever the order of its directions. -/
theorem search_answers (h : Bordered maze width start)
    (hdirections : ∀ d, d ∈ directions ↔ d ∈ [up, down, left, right]) :
    ∃ path, (∀ turns, maze.length * width < turns → search directions maze turns [(start, [])] [start] = .ok path) ∧
      Answers maze start path := by
  obtain ⟨r, hr, hcorrect⟩ := bfs_start (fun b d c => mem_edges hdirections)
    fun p b hw => mem_positions (h.inside_of_walk hw)
  rw [positions_length] at hr
  refine ⟨r.getD [], fun turns hturns => ?_, ?_⟩
  · rw [search_eq_bfs h hdirections (List.nodup_singleton start), hr turns hturns]
    simpa using h.inside
  · cases r with
    | some p =>
      obtain ⟨hwalk, hleast⟩ := hcorrect
      simp only [decide_eq_true_eq] at hwalk hleast
      exact ⟨fun _ => ⟨hwalk, hleast⟩, fun hno => absurd ⟨p, hwalk⟩ hno⟩
    | none =>
      refine ⟨fun ⟨p, b, hw, he⟩ => ?_, fun _ => rfl⟩
      have hno := hcorrect p b hw
      exact absurd he (of_decide_eq_false hno)

/-- Shortest paths are of one length. -/
theorem Answers.length_eq {path' : Text} (h : Answers maze start path) (h' : Answers maze start path') :
    path'.length = path.length := by
  by_cases hexit : ∃ p b, Walk (Moves maze) start p b ∧ IsExit maze b
  · obtain ⟨⟨b, hw, he⟩, hleast⟩ := h.1 hexit
    obtain ⟨⟨b', hw', he'⟩, hleast'⟩ := h'.1 hexit
    exact Nat.le_antisymm (hleast' _ _ hw he) (hleast _ _ hw' he')
  · rw [h.2 hexit, h'.2 hexit]

/-- **Shortest paths**: in a maze with a border, both programs end without an index error, with a shortest path to an
exit if one can be reached and with an empty one otherwise. -/
theorem findPath_shortest (h : Bordered maze width start) : ∃ path path',
    (∀ turns, maze.length * width < turns →
      findPath turns maze start = .ok path ∧ mainSearch turns maze start = .ok path') ∧
      Answers maze start path ∧ Answers maze start path' ∧ path'.length = path.length := by
  have horder : ∀ d, d ∈ [down, up, right, left] ↔ d ∈ [up, down, left, right] := by
    intro d
    simp only [List.mem_cons, List.not_mem_nil, or_false]
    tauto
  obtain ⟨path, hpath, hanswers⟩ := search_answers h fun d => Iff.rfl
  obtain ⟨path', hpath', hanswers'⟩ := search_answers h horder
  exact ⟨path, path', fun turns hturns => ⟨hpath turns hturns, hpath' turns hturns⟩, hanswers, hanswers',
    hanswers.length_eq hanswers'⟩

/-- A maze with two shortest paths. -/
def square : List Text := ["#####", "#*..#", "#.E.#", "#####"]

theorem findPath_shortest_square : Answers square (1, 1) "SD" := by
  have hbordered : Bordered square 5 (1, 1) := ⟨by decide, by decide, by decide, by decide⟩
  obtain ⟨path, path', hrun, hanswers, -⟩ := findPath_shortest hbordered
  have hpath : findPath 21 square (1, 1) = .ok "SD" := by decide +kernel
  rw [(hrun 21 (by decide)).1] at hpath
  cases hpath
  exact hanswers

end IntroNP.Maze
