import Mathlib.Data.List.Basic
import Mathlib.Algebra.Group.Nat.Defs
import Mathlib.Algebra.Group.Int.Defs

/-!
# The queens: the solver

`solve` of the N-queens client. A board is its rows by column, `0` for an empty column; `target` is passed along. The
recursion is allowed a depth, and `solve` says so when it is not enough.
-/

namespace IntroNP.Queens

/-- A cast to `uint8_t`. -/
def u8 (x : Int) : Nat := (x % 256).toNat

/-- A cast to `int8_t`. -/
def i8 (x : Int) : Int := x.bmod 256

/-- Why there is no result: the recursion is too deep, or `at` has thrown. -/
inductive Stop
  | depth
  | outOfRange
  deriving DecidableEq

/-- What `solve` returns, and `target` behind it. -/
abbrev Result := Except Stop (Bool × List (Nat × Nat))

/-- `init_board.at(idx) = queen_position`, if `idx` is that of a column. -/
def place (initBoard : List Nat) (idx : Int) (queenPosition : Nat) : Except Stop (List Nat) :=
  if idx ≥ 0 then
    if idx.toNat < initBoard.length then .ok (initBoard.set idx.toNat queenPosition) else .error .outOfRange
  else .ok initBoard

/-- The queens by column. The keys are those of a board of at most 256 columns, all different. -/
def queenMapping (initBoard : List Nat) : List (Nat × Nat) :=
  (initBoard.zipIdx.filter (·.1 ≠ 0)).map fun (queen, sz) => (u8 sz, queen)

/-- The first column that is not in the map. -/
def emptyColumn (initBoard : List Nat) : Option Nat :=
  (List.range initBoard.length).find? fun sz => (queenMapping initBoard).all (·.1 ≠ u8 sz)

/-- Some queen is in row `num`, or on a diagonal of column `sz` and row `num`. -/
def conflict (initBoard : List Nat) (sz num : Nat) : Bool :=
  (queenMapping initBoard).any fun queen =>
    let oen := u8 ((queen.1 : Int) - u8 sz).natAbs
    let tow := u8 ((queen.2 : Int) - u8 num).natAbs
    num = queen.2 ∨ oen = tow

/-- The pairs of row and column that are pushed for a full board. -/
def goal (initBoard : List Nat) : List (Nat × Nat) :=
  (List.range initBoard.length).flatMap fun x =>
    (List.range initBoard.length).filterMap fun y => if initBoard[y]? = some (x + 1) then some (x, y) else none

/-- The loop over the rows of the first empty column. -/
def tryRows (solveAt : Nat → List (Nat × Nat) → Result) (conflictAt : Nat → Bool) :
    List Nat → List (Nat × Nat) → Result
  | [], target => .ok (false, target)
  | num :: nums, target =>
    if conflictAt num then tryRows solveAt conflictAt nums target
    else
      match solveAt num target with
      | .error e => .error e
      | .ok (true, target) => .ok (true, target)
      | .ok (false, target) => tryRows solveAt conflictAt nums target

/-- `solve`, to a given depth. -/
def solve : Nat → List Nat → Int → Nat → List (Nat × Nat) → Result
  | 0, _, _, _, _ => .error .depth
  | depth + 1, initBoard, idx, queenPosition, target =>
    match place initBoard idx queenPosition with
    | .error e => .error e
    | .ok initBoard =>
      if (queenMapping initBoard).length = initBoard.length then .ok (true, target ++ goal initBoard)
      else
        match emptyColumn initBoard with
        | none => .ok (false, target)
        | some sz =>
          tryRows (fun num target => solve depth initBoard (i8 sz) (u8 num) target) (conflict initBoard sz)
            (List.range' 1 initBoard.length) target

example : solve 9 [0, 0, 0, 0] (-1) 0 [] = .ok (true, [(0, 2), (1, 0), (2, 3), (3, 1)]) := by decide +kernel

/-! ## What the parts compute -/

variable {b : List Nat} {c i num q k : Nat}

theorem u8_of_lt (h : k < 256) : u8 k = k := by
  unfold u8
  omega

theorem i8_of_lt (h : k < 128) : i8 k = k := by
  unfold i8
  rw [Int.bmod_def]
  split <;> omega

theorem mem_queenMapping {m : Nat} : (m, q) ∈ queenMapping b ↔ ∃ i : Nat, b[i]? = some q ∧ q ≠ 0 ∧ m = u8 i := by
  unfold queenMapping
  simp only [List.mem_map, List.mem_filter, Prod.exists, List.mem_zipIdx_iff_getElem?, Prod.mk.injEq, ne_eq,
    decide_not, Bool.not_eq_true', decide_eq_false_iff_not]
  constructor
  · rintro ⟨q', i, ⟨hi, hq⟩, rfl, rfl⟩
    exact ⟨i, hi, hq, rfl⟩
  · rintro ⟨i, hi, hq, rfl⟩
    exact ⟨q, i, ⟨hi, hq⟩, rfl, rfl⟩

/-- The map has every column exactly if none is empty. -/
theorem queenMapping_length : (queenMapping b).length = b.length ↔ ∀ q ∈ b, q ≠ 0 := by
  have hzip : b.length = b.zipIdx.length := List.length_zipIdx.symm
  unfold queenMapping
  rw [List.length_map, hzip, List.length_filter_eq_length_iff]
  constructor
  · intro h q hq
    obtain ⟨i, hi⟩ := List.mem_iff_getElem?.1 hq
    simpa using h (q, i) (List.mem_zipIdx_iff_getElem?.2 hi)
  · rintro h ⟨q, i⟩ hqi
    simpa using h q (List.mem_of_getElem? (List.mem_zipIdx_iff_getElem?.1 hqi))

/-- **The first empty column.** -/
theorem emptyColumn_eq_some (hb : b.length ≤ 256) :
    emptyColumn b = some c ↔ b[c]? = some 0 ∧ ∀ j < c, ∃ q, b[j]? = some q ∧ q ≠ 0 := by
  have hfree : ∀ {sz : Nat}, sz < b.length →
      ((queenMapping b).all (·.1 ≠ u8 sz) = true ↔ b[sz]? = some 0) := by
    intro sz hsz
    rw [List.all_eq_true]
    constructor
    · intro h
      rw [List.getElem?_eq_getElem hsz]
      by_contra hne
      have hmem : (u8 sz, b[sz]) ∈ queenMapping b :=
        mem_queenMapping.2 ⟨sz, List.getElem?_eq_getElem hsz, fun h0 => hne (by rw [h0]), rfl⟩
      simpa using h _ hmem
    · rintro h ⟨m, q⟩ hmem
      obtain ⟨i, hi, hq, rfl⟩ := mem_queenMapping.1 hmem
      have hil : i < b.length := (List.getElem?_eq_some_iff.1 hi).1
      rw [decide_eq_true_eq, u8_of_lt (by omega), u8_of_lt (by omega)]
      rintro rfl
      rw [hi] at h
      exact hq (Option.some.inj h)
  unfold emptyColumn
  rw [List.find?_range_eq_some]
  constructor
  · rintro ⟨hc, hmem, hbefore⟩
    have hcl : c < b.length := List.mem_range.1 hmem
    refine ⟨(hfree hcl).1 hc, fun j hj => ⟨b[j], List.getElem?_eq_getElem _, fun h0 => ?_⟩⟩
    have hj' := hbefore j hj
    rw [Bool.not_eq_true', Bool.eq_false_iff, Ne, hfree (by omega), List.getElem?_eq_getElem (by omega), h0] at hj'
    exact hj' rfl
  · rintro ⟨hc, hbefore⟩
    have hcl : c < b.length := (List.getElem?_eq_some_iff.1 hc).1
    refine ⟨(hfree hcl).2 hc, List.mem_range.2 hcl, fun j hj => ?_⟩
    obtain ⟨q, hq, hne⟩ := hbefore j hj
    rw [Bool.not_eq_true', Bool.eq_false_iff, Ne, hfree (by omega), hq]
    exact fun h => hne (Option.some.inj h)

/-- A queen in column `i` and row `p` attacks column `j` and row `q`. -/
def Attacks (i p j q : Nat) : Prop := p = q ∨ ((i : Int) - j).natAbs = ((p : Int) - q).natAbs

/-- **Conflicts** are attacks by a queen on the board. -/
theorem conflict_iff (hb : b.length ≤ 128) (hrange : ∀ q ∈ b, q ≤ b.length) (hc : c < b.length) (hk : k ≤ b.length) :
    conflict b c k ↔ ∃ i q, b[i]? = some q ∧ q ≠ 0 ∧ Attacks i q c k := by
  have hiff : ∀ {i q : Nat}, b[i]? = some q →
      (decide (k = q ∨ u8 ((u8 i : Int) - u8 c).natAbs = u8 ((q : Int) - u8 k).natAbs) = true ↔ Attacks i q c k) := by
    intro i q hi
    have hil : i < b.length := (List.getElem?_eq_some_iff.1 hi).1
    have hql := hrange q (List.mem_of_getElem? hi)
    have hi' : u8 i = i := u8_of_lt (by omega)
    have hc' : u8 c = c := u8_of_lt (by omega)
    have hk' : u8 k = k := u8_of_lt (by omega)
    unfold Attacks
    rw [decide_eq_true_eq, hi', hc', hk', u8_of_lt (by omega), u8_of_lt (by omega)]
    exact or_congr_left eq_comm
  unfold conflict
  rw [List.any_eq_true]
  constructor
  · rintro ⟨⟨m, q⟩, hmem, h⟩
    obtain ⟨i, hi, hq, rfl⟩ := mem_queenMapping.1 hmem
    exact ⟨i, q, hi, hq, (hiff hi).1 h⟩
  · rintro ⟨i, q, hi, hq, h⟩
    exact ⟨(u8 i, q), mem_queenMapping.2 ⟨i, hi, hq, rfl⟩, (hiff hi).2 h⟩

end IntroNP.Queens
