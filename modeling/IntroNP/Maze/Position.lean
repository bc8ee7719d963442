import Mathlib.Algebra.Group.Prod
import Mathlib.Data.List.Nodup
import IntroNP.Lib.Trail
import IntroNP.Maze.Explorer
import IntroNP.Maze.Shortest

/-!
# The maze that is seen in part: the position of the robot

The robot is taken to execute every letter it is sent. Before an element of the stack is popped it stands where the
element was pushed, so that the last letter of the path leads onto the cell of the element. Left of the first column
and above the first row the tests look at the last ones: a cell that is found there is not where the robot goes.

- `Explorer.OnMap`: the tests of a turn find no cell with a negative index;
- `Explorer.Ready`: what holds between two turns. The way back is computed from the lengths of two paths, which is right
  since of two elements of the stack, the lower one was pushed at a place on the path of the upper one;
- `Popped.push`, `Popped.turnBack`, `Popped.advance`: what a turn does;
- `explorer_positioned`: in a run whose turns are all `OnMap`, the robot never loses its position;
- `explorer_wraps`: the run that goes to an `E` on the other side of the map.
-/

namespace IntroNP.Maze

open Trail

/-- What a letter does to the robot. -/
def delta : Char → Pos
  | 'W' => (-1, 0)
  | 'S' => (1, 0)
  | 'A' => (0, -1)
  | 'D' => (0, 1)
  | _ => (0, 0)

namespace Explorer

def start (s : Explorer) : Pos := (s.cury, s.curx)

/-- A cell that was `.` or `E` when it was pushed, or the start. -/
def Opened (s : Explorer) (p : Pos) : Prop := p = s.start ∨ (p, '.') ∈ s.recorded ∨ (p, 'E') ∈ s.recorded

/-- The letter leads from an opened cell to an opened cell next to it. -/
def Edge (s : Explorer) (p : Pos) (letter : Char) : Prop :=
  ∃ d ∈ directions, letter = d.letter ∧ s.Opened p ∧ s.Opened (d.next p)

/-- The test in a direction puts no cell in the stack that it found with a negative index. -/
def Lands (s : Explorer) (e : Entry) (d : Direction) : Prop :=
  ∀ c ∈ cell s.knownMaze (d.next (e.y, e.x)).1 (d.next (e.y, e.x)).2,
    Enters c s.visit (d.next (e.y, e.x)) → 0 ≤ (d.next (e.y, e.x)).1 ∧ 0 ≤ (d.next (e.y, e.x)).2

instance (s : Explorer) (e : Entry) (d : Direction) : Decidable (s.Lands e d) :=
  Option.decidableForallMem _

/-- Nor does any test of the next turn. -/
def OnMap (s : Explorer) : Prop := ∀ e ∈ s.q.head?, ∀ d ∈ directions, s.Lands e d

instance (s : Explorer) : Decidable s.OnMap := Option.decidableForallMem _

/-- The robot is where the element was pushed, and the element is where its path leads. -/
structure Positioned (s : Explorer) (e : Entry) : Prop where
  robot : displacement delta s.sent = displacement delta e.path.dropLast
  cell : (e.y, e.x) = s.start + displacement delta e.path + (0, (s.columns : Int))

/-! ## The invariant -/

/-- What holds at any time. -/
structure Consistent (s : Explorer) : Prop where
  onMap : ∀ e ∈ s.q, e.path ≠ [] → 0 ≤ e.y ∧ 0 ≤ e.x
  placed : ∀ e ∈ s.q, s.home (e.y, e.x) = s.start + displacement delta e.path
  trails : ∀ e ∈ s.q, Along delta s.Edge s.start e.path
  opened : ∀ e ∈ s.q, s.Opened (s.home (e.y, e.x))
  marked : ∀ e ∈ s.q, (e.y, e.x) ∈ s.visit
  kept : ∀ p ∈ s.popped, (p.1, p.2 + (s.columns : Int)) ∈ s.visit
  nodup : (s.popped ++ s.q.map fun e => s.home (e.y, e.x)).Nodup
  walked : Along delta s.Edge s.start s.sent

/-- What holds between two turns. -/
structure Ready (s : Explorer) : Prop extends s.Consistent where
  chain : s.q.Pairwise fun e f => f.path.dropLast <+: e.path.dropLast
  robot : ∀ e q, s.q = e :: q → displacement delta s.sent = displacement delta e.path.dropLast
  alone : ∀ e ∈ s.q, e.path = [] → s.q = [e]

/-- What holds in a turn, after `e` was popped from above `rest`. -/
structure Popped (e : Entry) (rest : List Entry) (s : Explorer) (deadEnd : Bool) : Prop extends s.Consistent where
  place : s.home (e.y, e.x) = s.start + displacement delta e.path
  trail : Along delta s.Edge s.start e.path
  cell : s.Opened (s.home (e.y, e.x))
  robot : displacement delta s.sent = displacement delta e.path.dropLast
  stack : ∃ new, s.q = new ++ rest ∧ (deadEnd = true ↔ new = []) ∧ ∀ f ∈ new, f.path.dropLast = e.path ∧ f.path ≠ []

/-- The elements below `e`. -/
structure Below (e : Entry) (rest : List Entry) : Prop where
  chain : (e :: rest).Pairwise fun e f => f.path.dropLast <+: e.path.dropLast
  nonempty : ∀ f ∈ rest, f.path ≠ []
  alone : e.path = [] → rest = []

end Explorer

def Run.OnMap : Run → Prop
  | .running s => s.OnMap
  | .ended _ _ => True

instance : DecidablePred Run.OnMap
  | .running s => inferInstanceAs (Decidable s.OnMap)
  | .ended _ _ => inferInstanceAs (Decidable True)

open Explorer

variable {s s' : Explorer} {e : Entry} {rest : List Entry} {d : Direction} {p : Pos} {deadEnd : Bool} {letters : Text}

/-! ## Letters -/

theorem next_eq (hd : d ∈ directions) : d.next p = p + delta d.letter := by
  simp only [directions, List.mem_cons, List.not_mem_nil, or_false] at hd
  rcases hd with rfl | rfl | rfl | rfl <;> rfl

/-- Every edge can be taken in the other direction. -/
theorem undoes_opposite : Undoes delta s.Edge opposite := by
  rintro p letter ⟨d, hd, rfl, hp, hnext⟩
  rw [next_eq hd] at hnext
  have hback : ∃ d' ∈ directions, opposite d.letter = some d'.letter ∧ delta d'.letter = -delta d.letter := by
    simp only [directions, List.mem_cons, List.not_mem_nil, or_false] at hd
    rcases hd with rfl | rfl | rfl | rfl
    · exact ⟨down, by simp [directions], rfl, rfl⟩
    · exact ⟨up, by simp [directions], rfl, rfl⟩
    · exact ⟨right, by simp [directions], rfl, rfl⟩
    · exact ⟨left, by simp [directions], rfl, rfl⟩
  obtain ⟨d', hd', hopposite, hdelta⟩ := hback
  refine ⟨d'.letter, hopposite, hdelta, d', hd', rfl, hnext, ?_⟩
  rw [next_eq hd', hdelta, add_neg_cancel_right]
  exact hp

theorem getReversePath_append {parent : Text} (hparent : parent ≠ []) :
    getReversePath (parent.dropLast ++ letters) parent = back opposite letters := by
  unfold getReversePath back
  have hlength : (parent.length : Int) - 1 = (parent.dropLast.length : Nat) := by
    have hpos := List.length_pos_iff.2 hparent
    rw [List.length_dropLast]
    omega
  rw [hlength, sliceFrom_natCast, List.drop_left]

/-! ## Sending -/

theorem Explorer.Consistent.send (h : s.Consistent)
    (hl : Along delta s.Edge (s.start + displacement delta s.sent) letters) : (s.send letters).Consistent where
  onMap := h.onMap
  placed := h.placed
  trails := h.trails
  opened := h.opened
  marked := h.marked
  kept := h.kept
  nodup := h.nodup
  walked := along_append.2 ⟨h.walked, hl⟩

/-! ## Pushing -/

theorem Explorer.Opened.push {path : Text} {c : Char} {r : Pos} (h : s.Opened r) : (s.push p path c).Opened r :=
  h.imp_right (Or.imp (List.mem_append_left _) (List.mem_append_left _))

theorem Explorer.Edge.push {path : Text} {c letter : Char} {r : Pos} (h : s.Edge r letter) :
    (s.push p path c).Edge r letter := by
  obtain ⟨d, hd, hletter, hr, hnext⟩ := h
  exact ⟨d, hd, hletter, hr.push, hnext.push⟩

/-- Where a position is, from where it was. -/
theorem home_add : ((s.home p).1, (s.home p).2 + (s.columns : Int)) = p := Prod.ext rfl (sub_add_cancel _ _)

theorem home_inj {p r : Pos} (h : s.home p = s.home r) : p = r := by
  rw [← home_add (s := s) (p := p), h, home_add]

/-- What is not marked was neither popped nor pushed. -/
theorem Explorer.Consistent.home_notMem (h : s.Consistent) (hp : p ∉ s.visit) :
    s.home p ∉ s.popped ++ s.q.map fun e => s.home (e.y, e.x) := by
  intro hmem
  rcases List.mem_append.1 hmem with hmem | hmem
  · have hkept := h.kept _ hmem
    rw [home_add] at hkept
    exact hp hkept
  · obtain ⟨e, he, heq⟩ := List.mem_map.1 hmem
    have hmarked := h.marked e he
    rw [home_inj heq] at hmarked
    exact hp hmarked

/-- One of the tests pushes a cell next to the one that was popped. -/
theorem Explorer.Popped.push {c : Char} (h : s.Popped e rest deadEnd) (hd : d ∈ directions) (hc : c = '.' ∨ c = 'E')
    (hp : d.next (e.y, e.x) ∉ s.visit) (hmap : 0 ≤ (d.next (e.y, e.x)).1 ∧ 0 ≤ (d.next (e.y, e.x)).2) :
    (s.push (d.next (e.y, e.x)) (e.path ++ [d.letter]) c).Popped e rest false := by
  have hopened : (s.push (d.next (e.y, e.x)) (e.path ++ [d.letter]) c).Opened (s.home (d.next (e.y, e.x))) := by
    refine Or.inr (Or.imp ?_ ?_ hc) <;> rintro rfl <;> exact List.mem_append_right _ (List.mem_singleton.2 rfl)
  have hhome : s.home (d.next (e.y, e.x)) = d.next (s.home (e.y, e.x)) := Prod.ext rfl (add_sub_right_comm _ _ _)
  have htrail : Along delta (s.push (d.next (e.y, e.x)) (e.path ++ [d.letter]) c).Edge s.start
      (e.path ++ [d.letter]) := by
    refine along_append.2 ⟨h.trail.mono fun _ _ => Edge.push, along_singleton.2 ⟨d, hd, rfl, ?_, ?_⟩⟩
    · rw [← h.place]
      exact h.cell.push
    · rw [← h.place, ← hhome]
      exact hopened
  have hplaced : s.home (d.next (e.y, e.x)) = s.start + displacement delta (e.path ++ [d.letter]) := by
    rw [hhome, next_eq hd, h.place, displacement_append, displacement_singleton, add_assoc]
  obtain ⟨new, hq, -, hnew⟩ := h.stack
  exact
    { onMap := List.forall_mem_cons.2 ⟨fun _ => hmap, h.onMap⟩
      placed := List.forall_mem_cons.2 ⟨hplaced, h.placed⟩
      trails := List.forall_mem_cons.2 ⟨htrail, fun f hf => (h.trails f hf).mono fun _ _ => Edge.push⟩
      opened := List.forall_mem_cons.2 ⟨hopened, fun f hf => (h.opened f hf).push⟩
      marked := List.forall_mem_cons.2
        ⟨List.mem_append_right _ (List.mem_singleton.2 rfl), fun f hf => List.mem_append_left _ (h.marked f hf)⟩
      kept := fun r hr => List.mem_append_left _ (h.kept r hr)
      nodup := List.nodup_middle.2 (List.nodup_cons.2 ⟨h.home_notMem hp, h.nodup⟩)
      walked := h.walked.mono fun _ _ => Edge.push
      place := h.place
      trail := h.trail.mono fun _ _ => Edge.push
      cell := h.cell.push
      robot := h.robot
      stack := by
        refine ⟨⟨_, _, e.path ++ [d.letter]⟩ :: new, congrArg (List.cons _) hq, by simp, ?_⟩
        refine List.forall_mem_cons.2 ⟨⟨List.dropLast_concat, by simp⟩, hnew⟩ }

/-! ## Popping -/

theorem Explorer.Ready.below (h : s.Ready) (hq : s.q = e :: rest) : Below e rest where
  chain := hq ▸ h.chain
  nonempty f hf hnil := by
    have halone := h.alone f (hq ▸ List.mem_cons_of_mem e hf) hnil
    rw [hq, List.cons.injEq] at halone
    rw [halone.2] at hf
    cases hf
  alone hnil := by
    have halone := h.alone e (hq ▸ List.mem_cons_self) hnil
    rw [hq, List.cons.injEq] at halone
    exact halone.2

theorem Explorer.Ready.pop (h : s.Ready) (hq : s.q = e :: rest) : (s.pop e rest).Popped e rest true := by
  have he : e ∈ s.q := hq ▸ List.mem_cons_self
  have hrest : ∀ f ∈ rest, f ∈ s.q := fun f hf => hq ▸ List.mem_cons_of_mem e hf
  have hmarked : ((s.home (e.y, e.x)).1, (s.home (e.y, e.x)).2 + (s.columns : Int)) ∈ s.visit := by
    rw [home_add]
    exact h.marked e he
  have hnodup := h.nodup
  rw [hq, List.map_cons, List.append_cons] at hnodup
  exact
    { onMap := fun f hf => h.onMap f (hrest f hf)
      placed := fun f hf => h.placed f (hrest f hf)
      trails := fun f hf => h.trails f (hrest f hf)
      opened := fun f hf => h.opened f (hrest f hf)
      marked := fun f hf => h.marked f (hrest f hf)
      kept := List.forall_mem_append.2 ⟨h.kept, List.forall_mem_singleton.2 hmarked⟩
      nodup := hnodup
      walked := h.walked
      place := h.placed e he
      trail := h.trails e he
      cell := h.opened e he
      robot := h.robot e rest hq
      stack := ⟨[], rfl, by simp, by simp⟩ }

/-- **The tests** push cells next to the one that was popped. -/
theorem Explorer.Popped.tests : ∀ {ds : List Direction} {s s' : Explorer × Bool}, (∀ d ∈ ds, d ∈ directions) →
    (∀ d ∈ ds, s.1.Lands e d) → s.1.Popped e rest s.2 → ds.foldlM (tryPush e) s = some s' → s'.1.Popped e rest s'.2
  | [], s, s', _, _, h, hs => by
    cases hs
    exact h
  | d :: ds, s, s', hds, hmap, h, hs => by
    rw [List.foldlM_cons] at hs
    obtain ⟨t, ht, hs⟩ := Option.bind_eq_some_iff.1 hs
    obtain ⟨c, hc, ht⟩ := Option.bind_eq_some_iff.1 ht
    have hds' : ∀ d' ∈ ds, d' ∈ directions := fun d' hd' => hds d' (List.mem_cons_of_mem d hd')
    cases ht
    split at hs
    · rename_i hnew
      refine Popped.tests hds' (fun d' hd' c' hc' henter => ?_) ?_ hs
      · exact hmap d' (List.mem_cons_of_mem d hd') c' hc' ⟨henter.1, fun hv => henter.2 (List.mem_append_left _ hv)⟩
      · exact h.push (hds d List.mem_cons_self) hnew.1 hnew.2 (hmap d List.mem_cons_self c hc hnew)
    · exact Popped.tests hds' (fun d' hd' => hmap d' (List.mem_cons_of_mem d hd')) h hs

/-! ## Walking -/

/-- The last letter of the path leads onto the cell that was popped. -/
theorem Explorer.Popped.send_last {move : Char} (h : s.Popped e rest deadEnd) (hmove : e.path.getLast? = some move) :
    (s.send [move]).Consistent ∧ displacement delta (s.send [move]).sent = displacement delta e.path := by
  have hpath : e.path.dropLast ++ [move] = e.path := List.dropLast_append_getLast? move hmove
  have htrail := h.trail
  rw [← hpath] at htrail
  constructor
  · refine h.toConsistent.send ?_
    rw [h.robot]
    exact (along_append.1 htrail).2
  · have hsent : (s.send [move]).sent = s.sent ++ [move] := rfl
    rw [hsent, displacement_append, h.robot, ← displacement_append, hpath]

theorem send_nil : s.send [] = s := by
  unfold send
  rw [List.append_nil]

/-- Once the robot is on the cell that was popped, what was pushed from there comes next. -/
theorem Explorer.Popped.ready (h : s.Popped e rest deadEnd) (hb : Below e rest) (hs : deadEnd = false ∨ rest = [])
    (hsend : (s.send letters).Consistent)
    (hsent : displacement delta (s.send letters).sent = displacement delta e.path) : (s.send letters).Ready := by
  obtain ⟨new, hq, hdead, hnew⟩ := h.stack
  have hq' : (s.send letters).q = new ++ rest := hq
  obtain ⟨hbelow, hrest⟩ := List.pairwise_cons.1 hb.chain
  refine { hsend with chain := ?_, robot := ?_, alone := ?_ }
  · rw [hq']
    refine List.pairwise_append.2 ⟨List.pairwise_of_forall_mem_list fun f hf g hg => ?_, hrest, fun f hf g hg => ?_⟩
    · have heq : f.path.dropLast = g.path.dropLast := (hnew f hf).1.trans (hnew g hg).1.symm
      exact heq ▸ List.prefix_rfl
    · rw [(hnew f hf).1]
      exact (hbelow g hg).trans (List.dropLast_prefix _)
  · intro f q hfq
    have hf : f ∈ new := by
      cases new with
      | nil =>
        rcases hs with hs | hs
        · rw [hdead.2 rfl] at hs
          cases hs
        · rw [hq', hs] at hfq
          cases hfq
      | cons g new =>
        rw [hq', List.cons_append, List.cons.injEq] at hfq
        exact hfq.1 ▸ List.mem_cons_self
    rw [hsent, (hnew f hf).1]
  · intro f hf hnil
    rw [hq'] at hf
    rcases List.mem_append.1 hf with hf | hf
    · exact absurd hnil (hnew f hf).2
    · exact absurd hnil (hb.nonempty f hf)

/-! ## The answer to a move -/

/-- A part of the map is redrawn. -/
theorem Explorer.Ready.redraw (h : s.Ready) (knownMaze : List Text) : Ready { s with knownMaze } where
  onMap := h.onMap
  placed := h.placed
  trails := h.trails
  opened := h.opened
  marked := h.marked
  kept := h.kept
  nodup := h.nodup
  walked := h.walked
  chain := h.chain
  robot := h.robot
  alone := h.alone

theorem home_shift : s.shift.home (p.1, p.2 + 1) = s.home p := by
  refine Prod.ext rfl ?_
  have hcolumns : ((s.shift.columns : Nat) : Int) = s.columns + 1 := rfl
  unfold home
  rw [hcolumns]
  exact add_sub_add_right_eq_sub _ _ _

/-- **A column in front** moves every element and no place of the robot. -/
theorem Explorer.Ready.shift (h : s.Ready) : s.shift.Ready := by
  have hq : s.shift.q = s.q.map fun p => { p with x := p.x + 1 } := rfl
  have hhome : ∀ f : Entry, s.shift.home (f.y, f.x + 1) = s.home (f.y, f.x) := fun f => home_shift (p := (f.y, f.x))
  refine ⟨⟨?_, ?_, ?_, ?_, ?_, ?_, ?_, h.walked⟩, ?_, ?_, ?_⟩
  · refine List.forall_mem_map.2 fun f hf hpath => ?_
    obtain ⟨hy, hx⟩ := h.onMap f hf hpath
    exact ⟨hy, Int.le_add_one hx⟩
  · exact List.forall_mem_map.2 fun f hf => (hhome f).trans (h.placed f hf)
  · exact List.forall_mem_map.2 h.trails
  · refine List.forall_mem_map.2 fun f hf => ?_
    have hopened := h.opened f hf
    rw [← hhome] at hopened
    exact hopened
  · exact List.forall_mem_map.2 fun f hf => List.mem_map.2 ⟨_, h.marked f hf, rfl⟩
  · intro r hr
    refine List.mem_map.2 ⟨_, h.kept r hr, Prod.ext rfl ?_⟩
    exact add_assoc _ _ _
  · rw [hq, List.map_map]
    exact (List.map_congr_left fun f _ => hhome f) ▸ h.nodup
  · exact List.pairwise_map.2 h.chain
  · intro e q heq
    obtain ⟨f, q', hf, rfl, -⟩ := List.map_eq_cons_iff.1 heq
    exact h.robot f q' hf
  · refine List.forall_mem_map.2 fun f hf hnil => ?_
    rw [hq, h.alone f hf hnil]
    rfl

theorem exists_redrawn {o : Option (List Text)} {f : List Text → Explorer}
    (h : (o.bind fun knownMaze => some (f knownMaze)) = some s') : ∃ knownMaze, s' = f knownMaze := by
  obtain ⟨knownMaze, -, h⟩ := Option.bind_eq_some_iff.1 h
  exact ⟨knownMaze, (Option.some.inj h).symm⟩

/-- What the answer to a move changes. -/
theorem update_cases {vpw x : Int} {move : Char} {newMaze : View} (h : s.update vpw x move newMaze = some s') :
    (∃ knownMaze, s' = { s with knownMaze }) ∨ ∃ knownMaze, s' = { s.shift with knownMaze } := by
  unfold update at h
  split at h
  · obtain ⟨new, -, h⟩ := Option.bind_eq_some_iff.1 h
    exact .inl (exists_redrawn h)
  split at h
  · obtain ⟨new, -, h⟩ := Option.bind_eq_some_iff.1 h
    exact .inl (exists_redrawn h)
  split at h
  · obtain ⟨new, -, h⟩ := Option.bind_eq_some_iff.1 h
    dsimp only at h
    split at h
    · exact .inl (exists_redrawn h)
    split at h
    · exact .inr (exists_redrawn h)
    · exact .inl (exists_redrawn h)
  split at h
  · obtain ⟨new, -, h⟩ := Option.bind_eq_some_iff.1 h
    dsimp only at h
    split at h
    · exact .inl (exists_redrawn h)
    · obtain ⟨first, -, h⟩ := Option.bind_eq_some_iff.1 h
      split at h
      · exact .inl (exists_redrawn h)
      · exact .inl (exists_redrawn h)
  · exact .inl ⟨s.knownMaze, (Option.some.inj h).symm⟩

theorem Explorer.Ready.update {vpw x : Int} {move : Char} {newMaze : View} (h : s.Ready)
    (hs : s.update vpw x move newMaze = some s') : s'.Ready := by
  obtain ⟨knownMaze, rfl⟩ | ⟨knownMaze, rfl⟩ := update_cases hs
  · exact h.redraw knownMaze
  · exact h.shift.redraw knownMaze

/-! ## The end of a turn -/

/-- What holds of a run. -/
def Run.Kept : Run → Prop
  | .running s => s.Ready
  | .ended s _ => s.Consistent

section Turn

variable {int : Text → Option Int} {vp : Int × Int} {reply : Text} {move : Char}

theorem Explorer.Popped.arrive (h : s.Popped e rest deadEnd) : (s.arrive e reply).Kept := by
  unfold Explorer.arrive
  cases hmove : e.path.getLast? with
  | none => exact h.toConsistent
  | some move => exact (h.send_last hmove).1

/-- **A dead end**: the way back leads where the next element of the stack was pushed. -/
theorem Explorer.Popped.turnBack (h : s.Popped e rest true) (hb : Below e rest) : (s.turnBack int e reply).Kept := by
  obtain ⟨new, hq, hdead, -⟩ := h.stack
  rw [hdead.1 rfl, List.nil_append] at hq
  unfold Explorer.turnBack
  rw [hq]
  cases rest with
  | nil => exact h.toConsistent
  | cons next rest =>
    obtain ⟨hbelow, hrest⟩ := List.pairwise_cons.1 hb.chain
    obtain ⟨t, ht⟩ := hbelow next List.mem_cons_self
    obtain ⟨u, hu⟩ := List.dropLast_prefix e.path
    have htrail := h.trail
    rw [← hu, ← ht, along_append, along_append] at htrail
    obtain ⟨hback, halong⟩ := htrail.1.2.back undoes_opposite
    have hrobot := h.robot
    rw [← ht, displacement_append] at hrobot
    have hsend : (s.send (back opposite t)).Consistent := by
      refine h.toConsistent.send ?_
      rw [hrobot, ← add_assoc]
      exact halong
    have hsent : displacement delta (s.send (back opposite t)).sent = displacement delta next.path.dropLast := by
      have happend : (s.send (back opposite t)).sent = s.sent ++ back opposite t := rfl
      rw [happend, displacement_append, hrobot, hback, add_neg_cancel_right]
    dsimp only
    rw [← ht, getReversePath_append (hb.nonempty next List.mem_cons_self)]
    cases sendMove int reply with
    | none => exact hsend
    | some newMaze =>
      have hq' : (s.send (back opposite t)).q = next :: rest := hq
      refine { hsend with chain := ?_, robot := ?_, alone := ?_ }
      · rw [hq']
        exact hrest
      · intro f q hfq
        rw [hq', List.cons.injEq] at hfq
        rw [hsent, hfq.1]
      · intro f hf hnil
        rw [hq'] at hf
        exact absurd hnil (hb.nonempty f hf)

/-- **A move**: the robot is on the cell that was popped. -/
theorem Explorer.Popped.advance (h : s.Popped e rest false) (hb : Below e rest) (hmove : e.path.getLast? = some move) :
    (s.advance int vp e move reply).Kept := by
  obtain ⟨hsend, hsent⟩ := h.send_last hmove
  have hready := h.ready hb (.inl rfl) hsend hsent
  unfold Explorer.advance
  dsimp only
  split
  · exact hsend
  · rename_i s' hs'
    obtain ⟨newMaze, -, hs'⟩ := Option.bind_eq_some_iff.1 hs'
    exact hready.update hs'

/-- **A turn** keeps the position. -/
theorem Explorer.Ready.turn (h : s.Ready) (hmap : s.OnMap) : (s.turn int vp reply).Kept := by
  unfold Explorer.turn
  split
  · exact h.toConsistent
  rename_i e rest hq
  have hpopped := h.pop hq
  have hb := h.below hq
  dsimp only
  split
  · exact hpopped.toConsistent
  split
  · exact hpopped.arrive
  split
  · exact hpopped.toConsistent
  rename_i t deadEnd ht
  have hlands : ∀ d ∈ directions, s.Lands e d := hmap e (by rw [hq]; rfl)
  have htests := hpopped.tests (fun d hd => hd) hlands ht
  split
  · rename_i hnil
    rw [List.getLast?_eq_none_iff] at hnil
    have hconsistent : (t.send []).Consistent := send_nil.symm ▸ htests.toConsistent
    have hsent : displacement delta (t.send []).sent = displacement delta e.path := by
      rw [send_nil, htests.robot, hnil]
      rfl
    have hready := htests.ready hb (.inr (hb.alone hnil)) hconsistent hsent
    rwa [send_nil] at hready
  · rename_i move hmove
    split
    · rename_i hdead
      exact (hdead ▸ htests : Popped e rest t true).turnBack hb
    · rename_i hdead
      exact (Bool.eq_false_iff.2 hdead ▸ htests : Popped e rest t false).advance hb hmove

/-! ## What is recorded -/

theorem Explorer.recorded_arrive : (s.arrive e reply).explorer.recorded = s.recorded := by
  unfold Explorer.arrive
  split <;> rfl

theorem Explorer.recorded_turnBack : (s.turnBack int e reply).explorer.recorded = s.recorded := by
  unfold Explorer.turnBack
  split
  · rfl
  · dsimp only
    split <;> rfl

theorem Explorer.recorded_advance : (s.advance int vp e move reply).explorer.recorded = s.recorded := by
  unfold Explorer.advance
  dsimp only
  split
  · rfl
  · rename_i s' hs'
    obtain ⟨newMaze, -, hs'⟩ := Option.bind_eq_some_iff.1 hs'
    obtain ⟨knownMaze, rfl⟩ | ⟨knownMaze, rfl⟩ := update_cases hs'
    · rfl
    · rfl

/-- What is recorded from `s` on was read in the map of `s`. -/
structure Explorer.Sights (s t : Explorer) : Prop where
  knownMaze : t.knownMaze = s.knownMaze
  columns : t.columns = s.columns
  recorded : ∀ p c, (p, c) ∈ t.recorded → (p, c) ∈ s.recorded ∨ cellAt s.knownMaze (p.1, p.2 + s.columns) = some c

/-- **The tests** record what the map shows. -/
theorem Explorer.Sights.tests : ∀ {ds : List Direction} {t t' : Explorer × Bool}, s.Sights t.1 →
    (∀ d ∈ ds, t.1.Lands e d) → ds.foldlM (tryPush e) t = some t' → s.Sights t'.1
  | [], t, t', h, _, ht => by
    cases ht
    exact h
  | d :: ds, t, t', h, hlands, ht => by
    rw [List.foldlM_cons] at ht
    obtain ⟨u, hu, ht⟩ := Option.bind_eq_some_iff.1 ht
    obtain ⟨c, hc, hu⟩ := Option.bind_eq_some_iff.1 hu
    cases hu
    split at ht
    · rename_i hnew
      have hpush : s.Sights (t.1.push (d.next (e.y, e.x)) (e.path ++ [d.letter]) c) := by
        obtain ⟨hy, hx⟩ := hlands d List.mem_cons_self c hc hnew
        refine ⟨h.knownMaze, h.columns, fun p c' hmem => ?_⟩
        refine (List.mem_append.1 hmem).elim (h.recorded p c') fun heq => .inr ?_
        cases List.mem_singleton.1 heq
        rw [← h.columns, home_add, ← h.knownMaze, ← cell_of_nonneg hy hx]
        exact hc
      refine Sights.tests (t := (_, false)) hpush (fun d' hd' c' hc' henter => ?_) ht
      exact hlands d' (List.mem_cons_of_mem d hd') c' hc' ⟨henter.1, fun hv => henter.2 (List.mem_append_left _ hv)⟩
    · exact Sights.tests h (fun d' hd' => hlands d' (List.mem_cons_of_mem d hd')) ht

/-- **A turn** records what the map shows. -/
theorem Explorer.OnMap.recorded (h : s.OnMap) {p : Pos} {c : Char}
    (hp : (p, c) ∈ (s.turn int vp reply).explorer.recorded) :
    (p, c) ∈ s.recorded ∨ cellAt s.knownMaze (p.1, p.2 + s.columns) = some c := by
  unfold Explorer.turn at hp
  split at hp
  · exact .inl hp
  rename_i e rest hq
  have hlands : ∀ d ∈ directions, s.Lands e d := h e (by rw [hq]; rfl)
  have hpop : s.Sights (s.pop e rest) := ⟨rfl, rfl, fun _ _ => .inl⟩
  dsimp only at hp
  split at hp
  · exact .inl hp
  split at hp
  · rw [Explorer.recorded_arrive] at hp
    exact .inl hp
  split at hp
  · exact .inl hp
  rename_i t deadEnd ht
  have hsights := (hpop.tests hlands ht).recorded p c
  split at hp
  · exact hsights hp
  split at hp
  · rw [Explorer.recorded_turnBack] at hp
    exact hsights hp
  · rw [Explorer.recorded_advance] at hp
    exact hsights hp

end Turn

/-! ## Runs -/

section Runs

variable {int : Text → Option Int} {maze : List Text} {size vp : Int × Int} {r : Run}

theorem Run.Kept.consistent (h : r.Kept) : r.explorer.Consistent := by
  cases r with
  | running s => exact Explorer.Ready.toConsistent h
  | ended s outcome => exact h

/-- The runs whose turns are all on the map. -/
abbrev mapped (int : Text → Option Int) (maze : List Text) (size vp : Int × Int) : System Run Text :=
  (exploring int maze size vp).restrict fun r _ => r.OnMap

theorem reachable_loop_mapped {s : Explorer} (h : (mapped int maze size vp).Reachable (.running s)) :
    ∀ replies, (∀ k < replies.length, (s.loop int vp (replies.take k)).OnMap) →
      (mapped int maze size vp).Reachable (s.loop int vp replies) := by
  intro replies
  induction replies generalizing s with
  | nil => exact fun _ => h
  | cons reply replies ih =>
    intro hmap
    have hturn : (mapped int maze size vp).Reachable (s.turn int vp reply) :=
      h.step (a := reply) ⟨hmap 0 (Nat.zero_lt_succ _), s, rfl, rfl⟩
    unfold Explorer.loop
    split
    · rename_i s' hs'
      refine ih (hs' ▸ hturn) fun k hk => ?_
      have hnext := hmap (k + 1) (Nat.succ_lt_succ hk)
      rwa [List.take_succ_cons, Explorer.loop, hs'] at hnext
    · rename_i s' outcome hs'
      exact hs' ▸ hturn

/-- The stack holds the start. -/
theorem ready_first (h : Explorer.first int maze size = some s) : s.Ready := by
  obtain ⟨⟨knownMaze, cury, curx⟩, -, h⟩ := Option.bind_eq_some_iff.1 h
  cases h
  refine ⟨⟨?_, ?_, ?_, ?_, ?_, ?_, ?_, trivial⟩, List.pairwise_singleton _ _, ?_, ?_⟩
  · exact List.forall_mem_singleton.2 fun hpath => absurd rfl hpath
  · refine List.forall_mem_singleton.2 (Prod.ext ?_ ?_)
    · exact (add_zero _).symm
    · exact (sub_zero _).trans (add_zero _).symm
  · exact List.forall_mem_singleton.2 trivial
  · exact List.forall_mem_singleton.2 (.inl (Prod.ext rfl (sub_zero _)))
  · exact List.forall_mem_singleton.2 (List.mem_singleton.2 rfl)
  · exact List.forall_mem_nil _
  · exact List.nodup_singleton _
  · intro e q heq
    cases heq
    rfl
  · exact List.forall_mem_singleton.2 fun _ => rfl

theorem kept_of_reachable (h : (mapped int maze size vp).Reachable r) : r.Kept := by
  refine h.invariant ?_ ?_
  · rintro r ⟨s, hs, rfl⟩
    exact ready_first hs
  · rintro r reply r' - hr ⟨hmap, s, rfl, rfl⟩
    exact Explorer.Ready.turn hr hmap

theorem Explorer.Ready.positioned (h : s.Ready) (hq : s.q = e :: rest) : s.Positioned e := by
  have hplaced := h.placed e (hq ▸ List.mem_cons_self)
  refine ⟨h.robot e rest hq, ?_⟩
  rw [← hplaced]
  exact Prod.ext (add_zero _).symm (sub_add_cancel _ _).symm

/-- Whatever is recorded was shown by the map in an earlier turn. -/
theorem exists_shown {p : Pos} {c : Char} (h : (mapped int maze size vp).Reachable r)
    (hp : (p, c) ∈ r.explorer.recorded) :
    ∃ s replies, (mapped int maze size vp).Reachable (.running s) ∧
      (mapped int maze size vp).Run (.running s) replies r ∧
        cellAt s.knownMaze (p.1, p.2 + s.columns) = some c := by
  induction h with
  | init h =>
    obtain ⟨s, hs, rfl⟩ := h
    obtain ⟨⟨knownMaze, cury, curx⟩, -, hs⟩ := Option.bind_eq_some_iff.1 hs
    cases hs
    exact absurd hp List.not_mem_nil
  | @step r r' reply hr hstep ih =>
    obtain ⟨hmap, s, rfl, rfl⟩ := id hstep
    rcases Explorer.OnMap.recorded hmap hp with hp | hp
    · obtain ⟨t, replies, ht, hrun, hcell⟩ := ih hp
      exact ⟨t, replies ++ [reply], ht, hrun.append (.single hstep), hcell⟩
    · exact ⟨s, [reply], hr, .single hstep, hp⟩

/-- **The robot never loses its position**, whatever the server answers, while the tests find no cell with a negative
index: before an element is popped, the robot is where the element was pushed, and the element is where its path leads,
in the columns of the first view; no cell is popped twice; when `E` is popped, the map shows it there and the last
letter leads onto it; every letter leads from an opened cell to an opened cell, and the map showed every cell that was
recorded, where it was recorded. -/
theorem explorer_positioned (h : (mapped int maze size vp).Reachable r) :
    (∀ s e q, r = .running s → s.q = e :: q → e.path ≠ [] → s.Positioned e ∧ s.home (e.y, e.x) ∉ s.popped ∧
      (cell s.knownMaze e.y e.x = some 'E' → cellAt s.knownMaze (e.y, e.x) = some 'E' ∧ ∀ reply, ∃ move,
        s.turn int vp reply = .ended ((s.pop e q).send [move]) (.returned (getFlag reply)) ∧
          (e.y, e.x) = s.start + displacement delta (s.sent ++ [move]) + (0, (s.columns : Int)))) ∧
      r.explorer.popped.Nodup ∧
      (∀ before letter after, r.explorer.sent = before ++ letter :: after →
        r.explorer.Edge (r.explorer.start + displacement delta before) letter) ∧
      ∀ p c, (p, c) ∈ r.explorer.recorded → ∃ s replies, (mapped int maze size vp).Reachable (.running s) ∧
        (mapped int maze size vp).Run (.running s) replies r ∧
          cellAt s.knownMaze (p.1, p.2 + s.columns) = some c := by
  have hkept := kept_of_reachable h
  refine ⟨?_, (List.nodup_append.1 hkept.consistent.nodup).1, ?_, fun p c => exists_shown h⟩
  · rintro s e q rfl hq hpath
    have hready : s.Ready := hkept
    have hpositioned := hready.positioned hq
    refine ⟨hpositioned, ?_, fun hcell => ⟨?_, fun reply => ?_⟩⟩
    · intro hmem
      refine List.disjoint_of_nodup_append hready.nodup hmem (List.mem_map.2 ⟨e, ?_, rfl⟩)
      exact hq ▸ List.mem_cons_self
    · obtain ⟨hy, hx⟩ := hready.onMap e (hq ▸ List.mem_cons_self) hpath
      exact (cell_of_nonneg (p := (e.y, e.x)) hy hx).symm.trans hcell
    · obtain ⟨move, hmove⟩ := Option.ne_none_iff_exists'.1 (mt List.getLast?_eq_none_iff.1 hpath)
      have hsent := ((hready.pop hq).send_last hmove).2
      refine ⟨move, ?_, ?_⟩
      · unfold Explorer.turn Explorer.arrive
        rw [hq]
        dsimp only
        rw [show cell (s.pop e q).knownMaze e.y e.x = some 'E' from hcell, hmove]
        rfl
      · rw [show displacement delta (s.sent ++ [move]) = displacement delta e.path from hsent]
        exact hpositioned.cell
  · intro before letter after hsent
    have hwalked := hkept.consistent.walked
    rw [hsent] at hwalked
    exact hwalked.edge

/-- The decimal numbers without a sign. -/
def decimal (text : Text) : Option Int :=
  if text ≠ [] ∧ text.all Char.isDigit then some (digitsValue false text) else none

/-- A maze whose exit comes into view on the left. -/
def corridor : List Text := ["0: #####", "1: ..*.#", "2: #####"]

def atStart : Explorer where
  cury := 1
  curx := 2
  knownMaze := ["#####", "..*.#", "#####"]
  q := [⟨1, 2, []⟩]
  visit := [(1, 2)]
  sent := []
  columns := 0
  popped := []
  recorded := []

/-- Back from a dead end, the robot goes left until the exit is next to it. -/
def nearExit : Explorer where
  cury := 1
  curx := 2
  knownMaze := ["######", "E..*.#", "######"]
  q := [⟨1, 0, "AAA"⟩]
  visit := [(1, 3), (1, 2), (1, 4), (1, 1), (1, 0)]
  sent := "AA"
  columns := 1
  popped := [(1, 2), (1, 3), (1, 1), (1, 0)]
  recorded := [((1, 1), '.'), ((1, 3), '.'), ((1, 0), '.'), ((1, -1), 'E')]

theorem explorer_positioned_left :
    nearExit.Positioned ⟨1, 0, "AAA"⟩ ∧ cellAt nearExit.knownMaze (1, 0) = some 'E' := by
  let replies : List Text := ["", "", "0: #####\n1: E..*.\n2: #####\nEnter your move(s)>",
    "0:  ####\n1:  E..*\n2:  ####\nEnter your move(s)>"]
  have hfirst : (mapped decimal corridor (3, 6) (5, 5)).Reachable (.running atStart) :=
    .init ⟨atStart, by decide +kernel, rfl⟩
  have hmap : ∀ k < replies.length, (atStart.loop decimal (5, 5) (replies.take k)).OnMap := by decide +kernel
  have hrun : atStart.loop decimal (5, 5) replies = .running nearExit := by decide +kernel
  have hreachable := reachable_loop_mapped hfirst replies hmap
  rw [hrun] at hreachable
  obtain ⟨hpositioned, -, hexit⟩ := (explorer_positioned hreachable).1 nearExit _ _ rfl rfl (by decide)
  exact ⟨hpositioned, (hexit (by decide)).1⟩

/-- A maze that comes into view from its first to its last column. -/
def ring : List Text := ["0: ####", "1: *#.E", "2: ####"]

/-- The last column is taken for the one in front of the first. -/
def atEdge : Explorer where
  cury := 1
  curx := 0
  knownMaze := ["####", "*#.E", "####"]
  q := [⟨1, -1, "A"⟩]
  visit := [(1, 0), (1, -1)]
  sent := ""
  columns := 0
  popped := [(1, 0)]
  recorded := [((1, -1), 'E')]

/-- **The run that goes round**: the robot is sent to the left, and the only `E` is three columns to its right, behind a
wall. -/
theorem explorer_wraps :
    (exploring decimal ring (3, 4) (5, 5)).Reachable
        (.ended ((atEdge.pop ⟨1, -1, "A"⟩ []).send "A") (.returned "FLAG")) ∧
      atEdge.start + displacement delta "A" = (1, -1) ∧
      ∀ p, cellAt atEdge.knownMaze p = some 'E' → p = (1, 3) := by
  refine ⟨?_, rfl, fun ⟨y, x⟩ hp => ?_⟩
  · have hexplore : explore decimal ring (3, 4) (5, 5) [[]] = some (.running atEdge) := by decide +kernel
    exact (reachable_explore hexplore).step (a := "FLAG") ⟨atEdge, rfl, by decide +kernel⟩
  · have hcells : ∀ i < 3, ∀ j < 4, atEdge.knownMaze[i]?.bind (·[j]?) = some 'E' → (i, j) = (1, 3) := by decide
    unfold cellAt at hp
    split at hp
    · rename_i hnonneg
      obtain ⟨row, hrow, hcell⟩ := Option.bind_eq_some_iff.1 hp
      have hi : y.toNat < 3 := (List.getElem?_eq_some_iff.1 hrow).1
      have hlength : ∀ row ∈ atEdge.knownMaze, row.length = 4 := by decide
      have hj : x.toNat < 4 := hlength row (List.mem_of_getElem? hrow) ▸ (List.getElem?_eq_some_iff.1 hcell).1
      have heq := Prod.ext_iff.1 (hcells _ hi _ hj hp)
      dsimp only at heq hnonneg
      exact Prod.ext (by dsimp only; omega) (by dsimp only; omega)
    · cases hp

end Runs

end IntroNP.Maze
