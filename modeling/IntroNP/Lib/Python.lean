import IntroNP.Lib.CString
import Mathlib.Data.List.Sort

/-!
# Sequences, strings and dictionaries of Python

`none` is an exception. A `dict` is the list of its items, in the order in which the keys came in.

- `foldlM_range`: a loop over `range(i, j)` that only uses the indices to look into a list is a loop over the elements;
- `setItem_new`, `pairwise_sortedItems`: items with different keys are appended, and sorted strictly.
-/

namespace IntroNP

variable {α : Type}

/-! ## Sequences -/

/-- `xs[i]`: a negative index counts from the end, and `none` is an `IndexError`. -/
def index (xs : List α) (i : Int) : Option α :=
  if 0 ≤ i then xs[i.toNat]? else if -(xs.length : Int) ≤ i then xs[(xs.length + i).toNat]? else none

example : index [1, 2, 3] (-1) = some 3 := rfl
example : index [1, 2, 3] (-4) = none := rfl

/-- `xs[i] = x`. -/
def setIndex (xs : List α) (i : Int) (x : α) : Option (List α) :=
  if 0 ≤ i then if i < xs.length then some (xs.set i.toNat x) else none
  else if -(xs.length : Int) ≤ i then some (xs.set (xs.length + i).toNat x) else none

/-- Where a bound of a slice is. -/
def bound (xs : List α) (i : Int) : Nat := if 0 ≤ i then i.toNat else (xs.length + i).toNat

/-- `xs[:i]`. -/
def sliceTo (xs : List α) (i : Int) : List α := xs.take (bound xs i)

/-- `xs[i:]`. -/
def sliceFrom (xs : List α) (i : Int) : List α := xs.drop (bound xs i)

/-- `xs[i:j]`. -/
def slice (xs : List α) (i j : Int) : List α := (xs.take (bound xs j)).drop (bound xs i)

example : slice [1, 2, 3, 4] 1 (-1) = [2, 3] := rfl
example : sliceTo [1, 2, 3, 4] 9 = [1, 2, 3, 4] ∧ sliceFrom [1, 2, 3, 4] (-9) = [1, 2, 3, 4] := ⟨rfl, rfl⟩

variable {xs : List α} {i : Int}

theorem index_of_nonneg (h : 0 ≤ i) : index xs i = xs[i.toNat]? := if_pos h

theorem sliceFrom_natCast (n : Nat) : sliceFrom xs n = xs.drop n := by
  unfold sliceFrom bound
  rw [if_pos (Int.natCast_nonneg n), Int.toNat_natCast]

/-! ## Strings -/

/-- `text.split(sep)`, where `sep` is the two characters `a` and `b`. -/
def split (a b : Char) : Text → List Text
  | [] => [[]]
  | [c] => [[c]]
  | c :: d :: text => if c = a ∧ d = b then [] :: split a b text else (split a b (d :: text)).modifyHead (c :: ·)

/-- `text.replace(c, '')`. -/
def remove (c : Char) (text : Text) : Text := text.filter (· ≠ c)

example : split ':' ' ' "7: a:: b".toList = ["7".toList, "a:".toList, "b".toList] := by decide +kernel

/-- `text.find(pattern)`. -/
def find (text pattern : Text) : Int :=
  ((List.range (text.length + 1)).find? fun i => pattern.isPrefixOf (text.drop i)).elim (-1) Int.ofNat

/-- `pattern in text`. -/
def contains (text pattern : Text) : Bool := find text pattern ≠ -1

/-- White space of ASCII, as `strip` sees it. -/
def isWhite (c : Char) : Bool := c == ' ' || (9 ≤ c.toNat && c.toNat ≤ 13) || (28 ≤ c.toNat && c.toNat ≤ 31)

/-- `int(text)` of an ASCII text: digits, of which single underscores may join groups, with a sign in front and white
space around. -/
def int (text : Text) : Option Int :=
  let (neg, digits) := sign ((text.dropWhile isWhite).reverse.dropWhile isWhite).reverse
  if (digits.splitOn '_').all fun group => !group.isEmpty && group.all Char.isDigit then
    let v : Int := Nat.ofDigitChars 10 (digits.filter (· ≠ '_')) 0
    some (if neg then -v else v)
  else none

example : int " -1_2" = some (-12) ∧ int "1__2" = none ∧ int "" = none := by decide +kernel

/-- `chr(n)`, as the list of its code point. -/
def chr (n : Nat) : Option (List Nat) := if n < 0x110000 then some [n] else none

/-- `str(data)` of a `bytes`. -/
def strBytes (data : List UInt8) : Text :=
  let quote := if 39 ∈ data ∧ 34 ∉ data then '"' else '\''
  let body := data.flatMap fun b =>
    let c := Char.ofNat b.toNat
    if c = '\\' ∨ c = quote then ['\\', c]
    else if c = '\t' then "\\t"
    else if c = '\n' then "\\n"
    else if c = '\r' then "\\r"
    else if b < 32 ∨ 127 ≤ b then "\\x".toList ++ hex2 b.toNat
    else [c]
  "b".toList ++ quote :: body ++ [quote]

example : strBytes [72, 39, 10, 255] = "b\"H'\\n\\xff\"".toList := by decide +kernel

/-! ## Loops and dictionaries -/

/-- `range(i, j)`. -/
def range (i j : Int) : List Int := (List.range (j - i).toNat).map fun k : Nat => i + k

/-- `d[key] = value`. -/
def setItem {β : Type} (d : List (Int × β)) (key : Int) (value : β) : List (Int × β) :=
  if d.any (·.1 = key) then d.map fun item => if item.1 = key then (key, value) else item else d ++ [(key, value)]

/-- The order of items by their keys. -/
def KeyLe {β : Type} (a b : Int × β) : Prop := a.1 ≤ b.1

instance {β : Type} : DecidableRel (@KeyLe β) := fun a b => inferInstanceAs (Decidable (a.1 ≤ b.1))

instance {β : Type} : Std.Total (@KeyLe β) := ⟨fun a b => le_total a.1 b.1⟩

instance {β : Type} : IsTrans (Int × β) KeyLe := ⟨fun _ _ _ => le_trans⟩

/-- `sorted(d.items(), key=lambda x: x[0])`. -/
def sortedItems {β : Type} (d : List (Int × β)) : List (Int × β) := d.insertionSort KeyLe

variable {β : Type} {d : List (Int × β)} {key : Int} {value : β}

theorem setItem_new (h : key ∉ d.map Prod.fst) : setItem d key value = d ++ [(key, value)] := by
  unfold setItem
  rw [if_neg]
  simpa using h

theorem sortedItems_perm : (sortedItems d).Perm d := List.perm_insertionSort _ _

/-- Different keys are sorted strictly. -/
theorem pairwise_sortedItems (h : (d.map Prod.fst).Nodup) : (sortedItems d).Pairwise (·.1 < ·.1) := by
  have hnodup : (sortedItems d).Pairwise (·.1 ≠ ·.1) :=
    List.pairwise_map.1 ((sortedItems_perm.map Prod.fst).nodup_iff.2 h)
  exact (List.pairwise_insertionSort KeyLe d).imp₂ (fun _ _ hle hne => lt_of_le_of_ne hle hne) hnodup

theorem range_succ {i : Int} {k : Nat} : range i (i + (k + 1 : Nat)) = i :: range (i + 1) (i + 1 + k) := by
  have hlen : (i + (k + 1 : Nat) - i).toNat = k + 1 := by omega
  have hlen' : (i + 1 + k - (i + 1)).toNat = k := by omega
  unfold range
  rw [hlen, hlen', List.range_succ_eq_map, List.map_cons, List.map_map]
  refine congrArg₂ List.cons (by simp) (List.map_congr_left fun j _ => ?_)
  simp only [Function.comp_apply]
  omega

theorem mem_range {i j k : Int} : k ∈ range i j ↔ i ≤ k ∧ k < j := by
  rw [range, List.mem_map]
  constructor
  · rintro ⟨n, hn, rfl⟩
    rw [List.mem_range] at hn
    omega
  · rintro ⟨hi, hj⟩
    exact ⟨(k - i).toNat, List.mem_range.2 (by omega), by omega⟩

theorem pairwise_range (i j : Int) : (range i j).Pairwise (· < ·) := by
  rw [range, List.pairwise_map]
  exact List.pairwise_lt_range.imp fun h => by omega

/-- **A loop over indices** is a loop over what they point to. -/
theorem foldlM_range {m : Type → Type} [Monad m] {σ : Type} {f : σ → Int → m σ} {g : σ → α → m σ} :
    ∀ (ys : List α) (i : Int), (∀ s (j : Nat) y, ys[j]? = some y → f s (i + j) = g s y) → ∀ s,
      (range i (i + ys.length)).foldlM f s = ys.foldlM g s
  | [], i, _, s => by simp [range]
  | y :: ys, i, h, s => by
    rw [List.length_cons, range_succ, List.foldlM_cons, List.foldlM_cons]
    have hfirst : f s i = g s y := by simpa using h s 0 y rfl
    rw [hfirst]
    refine congrArg _ (funext fun s' => foldlM_range ys (i + 1) (fun s j z hz => ?_) s')
    have hnext := h s (j + 1) z (by simpa using hz)
    rwa [show i + ((j + 1 : Nat) : Int) = i + 1 + j by omega] at hnext

end IntroNP
