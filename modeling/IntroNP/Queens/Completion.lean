import IntroNP.Lib.Least
import IntroNP.Lib.Table
import IntroNP.Queens.Solve
import Mathlib.Data.List.Lex
import Mathlib.Data.Fintype.EquivFin

/-!
# The queens: completions

`solve` finds the least completion of the board that it is given, in the order of the rows by column. A row that it
skips has no completion, since a queen that is on the board attacks it, and completions with a queen in a lower row of
the first empty column come first.

- `completes_set_iff`: the completions with a given queen in the first empty column;
- `tryRows_finds`: the loop finds the least of what the rows lead to;
- `solve_finds`: and `solve` the least completion;
- `rows_goal`: what is pushed for a completion;
- `solve_correct`: the solver pushes the least completion, if there is one.
-/

namespace IntroNP.Queens

/-- No queen attacks another. -/
def Peaceful (b : List Nat) : Prop :=
  ∀ i j p q, i ≠ j → b[i]? = some p → b[j]? = some q → p ≠ 0 → q ≠ 0 → ¬ Attacks i p j q

/-- `v` is a full board without attacks, with the queens of `b`. -/
structure Completes (b v : List Nat) : Prop where
  length : v.length = b.length
  range : ∀ q ∈ v, 1 ≤ q ∧ q ≤ b.length
  peaceful : Peaceful v
  keeps : ∀ i q : Nat, b[i]? = some q → q ≠ 0 → v[i]? = some q

/-- A board that may be given to `solve`. -/
structure Board (b : List Nat) : Prop where
  length : b.length ≤ 128
  range : ∀ q ∈ b, q ≤ b.length
  peaceful : Peaceful b

/-- The pairs are those of the rows and columns of the queens, row by row. -/
def Rows (v : List Nat) (target : List (Nat × Nat)) : Prop :=
  target.map Prod.fst = List.range v.length ∧ ∀ x y, (x, y) ∈ target ↔ v[y]? = some (x + 1)

/-- The result tells whether there is anything in `S`, and pushes the pairs of the least of it. -/
def Finds (result : Result) (target : List (Nat × Nat)) (S : Set (List Nat)) : Prop :=
  ∃ r : Option (List Nat), result = .ok (r.isSome, target ++ (r.map goal).getD []) ∧ LeastOf S r

variable {b b' v w : List Nat} {c k j q queen depth : Nat} {idx : Int} {target : List (Nat × Nat)}

/-! ## Placing a queen -/

theorem Attacks.symm {i p j q : Nat} (h : Attacks i p j q) : Attacks j q i p := by
  unfold Attacks at *
  omega

/-- A queen that is not attacked may be placed. -/
theorem Board.set (hb : Board b) (hc : b[c]? = some 0) (hk : k ≤ b.length)
    (hfree : ∀ i q : Nat, b[i]? = some q → q ≠ 0 → ¬ Attacks i q c k) : Board (b.set c k) := by
  refine ⟨by rw [List.length_set]; exact hb.length, fun q hq => ?_, fun i j p q hij hi hj hp hq => ?_⟩
  · rw [List.length_set]
    rcases List.mem_or_eq_of_mem_set hq with hq | rfl
    · exact hb.range q hq
    · exact hk
  · rcases getElem?_set_cases hi with ⟨rfl, rfl⟩ | ⟨-, hi'⟩
    · rcases getElem?_set_cases hj with ⟨rfl, -⟩ | ⟨-, hj'⟩
      · exact absurd rfl hij
      · exact fun h => hfree j q hj' hq h.symm
    · rcases getElem?_set_cases hj with ⟨rfl, rfl⟩ | ⟨-, hj'⟩
      · exact hfree i p hi' hp
      · exact hb.peaceful i j p q hij hi' hj' hp hq

/-- **A queen placed** in an empty column leaves the completions that have it. -/
theorem completes_set_iff (hc : b[c]? = some 0) (hk : k ≠ 0) :
    Completes (b.set c k) v ↔ Completes b v ∧ v[c]? = some k := by
  have hcl : c < b.length := (List.getElem?_eq_some_iff.1 hc).1
  constructor
  · rintro ⟨hlen, hrange, hpeace, hkeeps⟩
    rw [List.length_set] at hlen hrange
    refine ⟨⟨hlen, hrange, hpeace, fun i q hi hq => hkeeps i q ?_ hq⟩, hkeeps c k ?_ hk⟩
    · rwa [List.getElem?_set_ne]
      rintro rfl
      rw [hc] at hi
      exact hq (Option.some.inj hi).symm
    · rw [List.getElem?_set_self hcl]
  · rintro ⟨⟨hlen, hrange, hpeace, hkeeps⟩, hvc⟩
    refine ⟨by rw [List.length_set, hlen], by rwa [List.length_set], hpeace, fun i q hi hq => ?_⟩
    rcases getElem?_set_cases hi with ⟨rfl, rfl⟩ | ⟨-, hi⟩
    · exact hvc
    · exact hkeeps i q hi hq

/-- A queen that is attacked is in no completion. -/
theorem Completes.not_attacked {i : Nat} (h : Completes b v) (hc : b[c]? = some 0) (hvc : v[c]? = some k)
    (hi : b[i]? = some q) (hq : q ≠ 0) : ¬ Attacks i q c k := by
  have hic : i ≠ c := by
    rintro rfl
    rw [hc] at hi
    exact hq (Option.some.inj hi).symm
  have hk := h.range k (List.mem_of_getElem? hvc)
  exact h.peaceful i c q k hic (h.keeps i q hi hq) hvc hq (by omega)

/-- Completions with a lower queen in the first empty column come first. -/
theorem Completes.le (hv : Completes b v) (hw : Completes b w) (hbefore : ∀ j < c, ∃ q, b[j]? = some q ∧ q ≠ 0)
    (hvc : v[c]? = some j) (hwc : w[c]? = some k) (hjk : j < k) : v ≤ w := by
  obtain ⟨hcv, hvc'⟩ := List.getElem?_eq_some_iff.1 hvc
  obtain ⟨hcw, hwc'⟩ := List.getElem?_eq_some_iff.1 hwc
  refine le_of_lt (List.lt_iff_exists.2 (.inr ⟨c, hcv, hcw, fun i hi => ?_, by omega⟩))
  obtain ⟨q, hq, hne⟩ := hbefore i hi
  exact (List.getElem?_eq_some_iff.1 (hv.keeps i q hq hne)).2.trans
    (List.getElem?_eq_some_iff.1 (hw.keeps i q hq hne)).2.symm

/-- A full board is its own completion, and has no other. -/
theorem Board.isLeast (hb : Board b) (hfull : ∀ q ∈ b, q ≠ 0) : IsLeast {v | Completes b v} b := by
  refine ⟨⟨rfl, fun q hq => ⟨Nat.pos_of_ne_zero (hfull q hq), hb.range q hq⟩, hb.peaceful, fun _ _ h _ => h⟩,
    fun v hv => le_of_eq (List.ext_getElem? fun i => ?_)⟩
  cases hi : b[i]? with
  | none =>
    have hle := List.getElem?_eq_none_iff.1 hi
    exact (List.getElem?_eq_none (by rw [hv.length]; exact hle)).symm
  | some q => exact (hv.keeps i q hi (hfull q (List.mem_of_getElem? hi))).symm

/-! ## The search -/

/-- **The loop** finds the least of what the rows lead to. -/
theorem tryRows_finds {solveAt : Nat → List (Nat × Nat) → Result} {conflictAt : Nat → Bool} {S : Nat → Set (List Nat)}
    (horder : ∀ j k, j < k → ∀ v ∈ S j, ∀ w ∈ S k, v ≤ w) :
    ∀ {nums : List Nat}, nums.Pairwise (· < ·) → (∀ num ∈ nums, conflictAt num = true → ∀ v, v ∉ S num) →
      (∀ num ∈ nums, conflictAt num = false → ∀ target, Finds (solveAt num target) target (S num)) →
      ∀ target, Finds (tryRows solveAt conflictAt nums target) target {v | ∃ num ∈ nums, v ∈ S num}
  | [], _, _, _, target => ⟨none, by simp [tryRows], by simp [LeastOf]⟩
  | num :: nums, hsorted, hconflict, hsolve, target => by
    obtain ⟨hfirst, hrest⟩ := List.pairwise_cons.1 hsorted
    have htail := tryRows_finds horder hrest (fun n hn => hconflict n (List.mem_cons_of_mem _ hn))
      fun n hn => hsolve n (List.mem_cons_of_mem _ hn)
    have hunion : ∀ v, v ∈ S num ∪ {v | ∃ n ∈ nums, v ∈ S n} ↔ v ∈ {v | ∃ n ∈ num :: nums, v ∈ S n} := by
      intro v
      simp
    unfold tryRows
    cases hc : conflictAt num with
    | true =>
      rw [if_pos rfl]
      obtain ⟨r, hr, hleast⟩ := htail target
      exact ⟨r, hr, (hleast.skip (hconflict num List.mem_cons_self hc)).congr hunion⟩
    | false =>
      rw [if_neg (by simp)]
      obtain ⟨r, hr, hleast⟩ := hsolve num List.mem_cons_self hc target
      rw [hr]
      cases r with
      | some v =>
        refine ⟨some v, rfl, (LeastOf.first hleast fun w hw => ?_).congr hunion⟩
        obtain ⟨n, hn, hw⟩ := hw
        exact horder num n (hfirst n hn) v hleast.1 w hw
      | none =>
        obtain ⟨r, hr', hleast'⟩ := htail target
        refine ⟨r, ?_, (hleast'.skip hleast).congr hunion⟩
        simpa using hr'

theorem place_i8 (hb : b.length ≤ 128) (hc : c < b.length) (hk : k ≤ b.length) :
    place b (i8 c) (u8 k) = .ok (b.set c k) := by
  unfold place
  rw [i8_of_lt (by omega), u8_of_lt (by omega), if_pos (by omega), Int.toNat_natCast, if_pos hc]

theorem Finds.congr {result : Result} {S T : Set (List Nat)} (h : Finds result target S) (he : ∀ v, v ∈ S ↔ v ∈ T) :
    Finds result target T := by
  obtain ⟨r, hr, hleast⟩ := h
  exact ⟨r, hr, hleast.congr he⟩

/-- A board that is not full has a first empty column. -/
theorem exists_emptyColumn (hb : Board b) (h : ¬ ∀ q ∈ b, q ≠ 0) : ∃ c, emptyColumn b = some c := by
  have hzero : ∃ c : Nat, b[c]? = some 0 := by
    simp only [not_forall, not_not] at h
    obtain ⟨q, hq, rfl⟩ := h
    exact List.mem_iff_getElem?.1 hq
  have hlength := hb.length
  refine ⟨Nat.find hzero, (emptyColumn_eq_some (by omega)).2 ⟨Nat.find_spec hzero, fun j hj => ?_⟩⟩
  have hl : Nat.find hzero < b.length := (List.getElem?_eq_some_iff.1 (Nat.find_spec hzero)).1
  have hj' := Nat.find_min hzero hj
  rw [List.getElem?_eq_getElem (by omega)] at hj'
  exact ⟨_, List.getElem?_eq_getElem (by omega), fun h0 => hj' (by rw [h0])⟩

/-- One column less is empty. -/
theorem count_set (hc : b[c]? = some 0) (hk : k ≠ 0) : (b.set c k).count 0 + 1 = b.count 0 := by
  obtain ⟨hcl, hbc⟩ := List.getElem?_eq_some_iff.1 hc
  have hpos : 0 < b.count 0 := List.count_pos_iff.2 (List.mem_of_getElem? hc)
  rw [List.count_set hcl]
  simp [hbc, hk]
  omega

/-- **The solver** finds the least completion, at a depth greater than the number of empty columns. -/
theorem solve_finds : ∀ {depth : Nat} {b b' : List Nat} {idx : Int} {queen : Nat}, place b idx queen = .ok b' →
    Board b' → b'.count 0 < depth → ∀ target, Finds (solve depth b idx queen target) target {v | Completes b' v}
  | 0, _, _, _, _, _, _, hdepth, _ => absurd hdepth (Nat.not_lt_zero _)
  | depth + 1, b, b', idx, queen, hplace, hb, hdepth, target => by
    unfold solve
    rw [hplace]
    dsimp only
    split
    · rename_i hfull
      exact ⟨some b', rfl, hb.isLeast (queenMapping_length.1 hfull)⟩
    · rename_i hfull
      obtain ⟨c, hempty⟩ := exists_emptyColumn hb (queenMapping_length.not.1 hfull)
      have hlength := hb.length
      obtain ⟨hc, hbefore⟩ := (emptyColumn_eq_some (by omega)).1 hempty
      have hcl : c < b'.length := (List.getElem?_eq_some_iff.1 hc).1
      rw [hempty]
      dsimp only
      have hconflict : ∀ num ∈ List.range' 1 b'.length, (conflict b' c num = true ↔ _) := fun num hnum =>
        conflict_iff hlength hb.range hcl (by have := List.mem_range'_1.1 hnum; omega)
      refine Finds.congr (tryRows_finds (S := fun num => {v | Completes b' v ∧ v[c]? = some num}) ?_
        List.pairwise_lt_range' ?_ ?_ target) fun v => ?_
      · rintro j k hjk v ⟨hv, hvc⟩ w ⟨hw, hwc⟩
        exact hv.le hw hbefore hvc hwc hjk
      · rintro num hnum hconf v ⟨hv, hvc⟩
        obtain ⟨i, q, hi, hq, hattack⟩ := (hconflict num hnum).1 hconf
        exact hv.not_attacked hc hvc hi hq hattack
      · intro num hnum hconf target
        have hle := List.mem_range'_1.1 hnum
        have hfree : ∀ i q : Nat, b'[i]? = some q → q ≠ 0 → ¬ Attacks i q c num := by
          intro i q hi hq hattack
          rw [(hconflict num hnum).2 ⟨i, q, hi, hq, hattack⟩] at hconf
          cases hconf
        have hcount := count_set hc (show num ≠ 0 by omega)
        refine (solve_finds (place_i8 hlength hcl (by omega)) (hb.set hc (by omega) hfree) (by omega) target).congr ?_
        exact fun v => completes_set_iff hc (by omega)
      · constructor
        · rintro ⟨num, -, hv, -⟩
          exact hv
        · intro hv
          have hvl : c < v.length := by rw [hv.length]; exact hcl
          have hvc : v[c]? = some v[c] := List.getElem?_eq_getElem hvl
          have hrange := hv.range v[c] (List.getElem_mem hvl)
          exact ⟨v[c], List.mem_range'_1.2 ⟨by omega, by omega⟩, hv, hvc⟩

/-! ## The pairs -/

theorem Completes.injective {i j : Nat} (h : Completes b v) (hi : v[i]? = some q) (hj : v[j]? = some q) : i = j := by
  by_contra hij
  have hq := h.range q (List.mem_of_getElem? hi)
  exact h.peaceful i j q q hij hi hj (by omega) (by omega) (.inl rfl)

/-- A completion has a queen in every row: there are as many rows as columns. -/
theorem Completes.exists_row {x : Nat} (h : Completes b v) (hx : x < v.length) : ∃ y : Nat, v[y]? = some (x + 1) := by
  have hrange : ∀ i : Fin v.length, 1 ≤ v[i.1] ∧ v[i.1] ≤ v.length := by
    intro i
    have hi := h.range v[i.1] (List.getElem_mem i.2)
    exact ⟨hi.1, hi.2.trans h.length.ge⟩
  let row : Fin v.length → Fin v.length := fun i => ⟨v[i.1] - 1, by have := hrange i; omega⟩
  have hinj : Function.Injective row := by
    intro i j hij
    have hrow : v[i.1] - 1 = v[j.1] - 1 := congrArg Fin.val hij
    have heq : v[j.1] = v[i.1] := by
      have hi := hrange i
      have hj := hrange j
      omega
    have hj : v[j.1]? = some v[i.1] := (List.getElem?_eq_getElem j.2).trans (congrArg some heq)
    exact Fin.ext (h.injective (List.getElem?_eq_getElem i.2) hj)
  obtain ⟨y, hy⟩ := Finite.surjective_of_injective hinj ⟨x, hx⟩
  have hyx : v[y.1] - 1 = x := congrArg Fin.val hy
  have hy' := hrange y
  refine ⟨y.1, (List.getElem?_eq_getElem y.2).trans (congrArg some ?_)⟩
  omega

/-- One pair is pushed for a row. -/
theorem row_goal {x : Nat} (h : Completes b v) (hx : x < v.length) : ((List.range v.length).filterMap fun y =>
    if v[y]? = some (x + 1) then some (x, y) else none).map Prod.fst = [x] := by
  obtain ⟨y, hy⟩ := h.exists_row hx
  have hyl : y < v.length := (List.getElem?_eq_some_iff.1 hy).1
  have hsome : (fun z : Nat => (if v[z]? = some (x + 1) then some (x, z) else none).isSome) = (· == y) := by
    funext z
    split
    · rename_i hz
      rw [h.injective hz hy]
      simp
    · rename_i hz
      have hzy : z ≠ y := by
        rintro rfl
        exact hz hy
      simp [hzy]
  have hone : ∀ l : List Nat, l.length = 1 → (∀ z ∈ l, z = x) → l = [x] := fun l hl hz =>
    List.eq_replicate_iff.2 ⟨hl, hz⟩
  refine hone _ ?_ fun z hz => ?_
  · rw [List.length_map, List.length_filterMap_eq_countP, hsome]
    exact List.count_eq_one_of_mem List.nodup_range (List.mem_range.2 hyl)
  · obtain ⟨⟨x', y'⟩, hp, rfl⟩ := List.mem_map.1 hz
    obtain ⟨z, -, hif⟩ := List.mem_filterMap.1 hp
    split at hif
    · cases hif
      rfl
    · cases hif

/-- **What is pushed** for a completion is its rows, one after the other. -/
theorem rows_goal (h : Completes b v) : Rows v (goal v) := by
  constructor
  · unfold goal
    rw [List.map_flatMap, List.flatMap_congr fun x hx => row_goal h (List.mem_range.1 hx), List.flatMap_singleton']
  · intro x y
    unfold goal
    simp only [List.mem_flatMap, List.mem_range, List.mem_filterMap]
    constructor
    · rintro ⟨x', -, y', -, hif⟩
      split at hif
      · rename_i hy
        cases hif
        exact hy
      · cases hif
    · intro hy
      have hyl : y < v.length := (List.getElem?_eq_some_iff.1 hy).1
      have hx := (h.range _ (List.mem_of_getElem? hy)).2
      exact ⟨x, by rw [h.length]; omega, y, hyl, if_pos hy⟩

/-! ## The solver -/

/-- **The solver**, on a board of at most 128 columns whose queens do not attack each other: it ends, says whether the
board can be completed, and pushes the pairs of the least completion, or nothing. -/
theorem solve_correct {init : List Nat} (hlength : init.length ≤ 128) (hrange : ∀ q ∈ init, q ≤ init.length)
    (hpeaceful : Peaceful init) :
    ∃ found target, (∀ depth, init.length < depth → solve depth init (-1) 0 [] = .ok (found, target)) ∧
      (found = true ↔ ∃ v, Completes init v) ∧
      (found = true → ∃ v, IsLeast {v | Completes init v} v ∧ Rows v target) ∧
      (found = false → target = []) := by
  have hplace : place init (-1) 0 = .ok init := rfl
  have hcount : init.count 0 ≤ init.length := List.count_le_length
  have hfinds : ∀ depth, init.length < depth → Finds (solve depth init (-1) 0 []) [] {v | Completes init v} :=
    fun depth hdepth => solve_finds hplace ⟨hlength, hrange, hpeaceful⟩ (by omega) []
  obtain ⟨r, hr, hleast⟩ := hfinds (init.length + 1) (by omega)
  refine ⟨r.isSome, (r.map goal).getD [], fun depth hdepth => ?_, hleast.isSome_iff, fun hfound => ?_, fun hnone => ?_⟩
  · obtain ⟨r', hr', hleast'⟩ := hfinds depth hdepth
    rw [hr', hleast'.unique hleast]
    rfl
  · obtain ⟨v, rfl⟩ := Option.isSome_iff_exists.1 hfound
    exact ⟨v, hleast, rows_goal hleast.1⟩
  · rw [Option.isSome_eq_false_iff, Option.isNone_iff_eq_none] at hnone
    rw [hnone]
    rfl

/-- A board of four columns with a queen in the last one. -/
theorem solve_correct_last :
    ∃ v, IsLeast {v | Completes [0, 0, 0, 3] v} v ∧ Rows v [(0, 2), (1, 0), (2, 3), (3, 1)] := by
  have hpeaceful : Peaceful [0, 0, 0, 3] := by
    have hlast : ∀ {i p : Nat}, ([0, 0, 0, 3] : List Nat)[i]? = some p → p ≠ 0 → i = 3 := by
      intro i p hi hp
      match i with
      | 0 | 1 | 2 => exact absurd (Option.some.inj hi).symm hp
      | 3 => rfl
      | i + 4 => simp at hi
    intro i j p q hij hi hj hp hq
    exact absurd ((hlast hi hp).trans (hlast hj hq).symm) hij
  obtain ⟨found, target, hsolve, -, hfound, -⟩ := solve_correct (by decide) (by decide) hpeaceful
  have hrun : solve 5 [0, 0, 0, 3] (-1) 0 [] = .ok (true, [(0, 2), (1, 0), (2, 3), (3, 1)]) := by decide +kernel
  rw [hsolve 5 (by decide)] at hrun
  cases hrun
  exact hfound rfl

end IntroNP.Queens
