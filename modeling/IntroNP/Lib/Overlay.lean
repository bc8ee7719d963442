import Mathlib.Data.List.Basic

/-!
# Pieces laid over an array

Pieces of data are written into an array one after another, each element by element. A write behind the end of the
array gives nothing.

- `place_eq`: a piece that fits is there, and the rest of the array is as before;
- `overlay_eq`: of the pieces that cover a place, the last one is seen there.
-/

namespace IntroNP

/-- Loops that do the same with the elements of a list. -/
theorem foldlM_congr {m : Type → Type} [Monad m] {σ α : Type} {f g : σ → α → m σ} :
    ∀ {xs : List α}, (∀ x ∈ xs, ∀ s, f s x = g s x) → ∀ s, xs.foldlM f s = xs.foldlM g s
  | [], _, _ => rfl
  | x :: xs, h, s => by
    rw [List.foldlM_cons, List.foldlM_cons, h x List.mem_cons_self]
    exact congrArg _ (funext fun s' => foldlM_congr (fun y hy => h y (List.mem_cons_of_mem _ hy)) s')

/-- Data for the places from `start` on. -/
structure Piece (α : Type) where
  start : Nat
  data : List α

namespace Piece

variable {α : Type}

/-- What the piece has for the place `a`. -/
def at? (p : Piece α) (a : Nat) : Option α := if p.start ≤ a then p.data[a - p.start]? else none

def Covers (p : Piece α) (a : Nat) : Prop := p.start ≤ a ∧ a < p.start + p.data.length

instance (p : Piece α) (a : Nat) : Decidable (p.Covers a) := inferInstanceAs (Decidable (_ ∧ _))

/-- What the last of the pieces that cover `a` has for it. -/
def lastAt (ps : List (Piece α)) (a : Nat) : Option α := ps.reverse.findSome? (·.at? a)

/-- `array[i] = x`. -/
def store (array : List α) (i : Nat) (x : α) : Option (List α) :=
  if i < array.length then some (array.set i x) else none

/-- The element `j` of a piece is written. -/
def placeElem (p : Piece α) (array : List α) (j : Nat) : Option (List α) := do
  let x ← p.data[j]?
  store array (p.start + j) x

def place (array : List α) (p : Piece α) : Option (List α) := (List.range p.data.length).foldlM p.placeElem array

variable {p : Piece α} {ps : List (Piece α)} {array : List α} {a : Nat} {x : α}

theorem at?_isSome : (p.at? a).isSome ↔ p.Covers a := by
  unfold at? Covers
  split
  · rw [← Option.ne_none_iff_isSome, ne_eq, List.getElem?_eq_none_iff]
    omega
  · simp only [Option.isSome_none, Bool.false_eq_true, false_iff]
    omega

/-- A place is seen through all pieces exactly if one of them covers it. -/
theorem lastAt_isSome : (lastAt ps a).isSome ↔ ∃ p ∈ ps, p.Covers a := by
  unfold lastAt
  rw [List.findSome?_isSome_iff]
  simp only [List.mem_reverse, at?_isSome]

/-- **The last piece** that covers a place gives what is there. -/
theorem lastAt_eq_some : lastAt ps a = some x ↔
    ∃ pre p post, ps = pre ++ p :: post ∧ p.at? a = some x ∧ ∀ q ∈ post, ¬ q.Covers a := by
  unfold lastAt
  rw [List.findSome?_eq_some_iff]
  constructor
  · rintro ⟨post, p, pre, hps, hx, hpost⟩
    refine ⟨pre.reverse, p, post.reverse, by rw [← List.reverse_reverse ps, hps]; simp, hx, fun q hq => ?_⟩
    rw [← at?_isSome, hpost q (List.mem_reverse.1 hq)]
    exact nofun
  · rintro ⟨pre, p, post, rfl, hx, hpost⟩
    refine ⟨post.reverse, p, pre.reverse, by simp, hx, fun q hq => ?_⟩
    have hnone := hpost q (List.mem_reverse.1 hq)
    rwa [← at?_isSome, Option.not_isSome_iff_eq_none] at hnone

theorem lastAt_append (qs : List (Piece α)) : lastAt (ps ++ qs) a = (lastAt qs a).or (lastAt ps a) := by
  unfold lastAt
  rw [List.reverse_append, List.findSome?_append]

/-- The first `n` elements of a piece that fits, written. -/
theorem place_take (h : p.start + p.data.length ≤ array.length) : ∀ n ≤ p.data.length, ∃ array',
    (List.range n).foldlM p.placeElem array = some array' ∧ array'.length = array.length ∧
    ∀ a, array'[a]? = (if a < p.start + n then p.at? a else none).or array[a]?
  | 0, _ => ⟨array, rfl, rfl, fun a => by
    unfold at?
    split
    · rw [if_neg (by omega)]
      rfl
    · rfl⟩
  | n + 1, hn => by
    obtain ⟨array', hfold, hlen, hget⟩ := place_take h n (by omega)
    have hdata : p.data[n]? = some p.data[n] := List.getElem?_eq_getElem (by omega)
    have helem : p.placeElem array' n = some (array'.set (p.start + n) p.data[n]) := by
      rw [placeElem, hdata]
      exact if_pos (by omega)
    refine ⟨array'.set (p.start + n) p.data[n], ?_, by rw [List.length_set, hlen], fun a => ?_⟩
    · rw [List.range_succ, List.foldlM_append, hfold]
      simp only [List.foldlM_cons, List.foldlM_nil, Option.bind_eq_bind, Option.bind_some, helem, Option.pure_def]
    · rw [List.getElem?_set, hget]
      by_cases ha : p.start + n = a
      · rw [if_pos ha, if_pos (by omega), if_pos (by omega), at?, if_pos (by omega), ← ha, Nat.add_sub_cancel_left,
          hdata, Option.some_or]
      · rw [if_neg ha]
        by_cases hlt : a < p.start + n
        · rw [if_pos hlt, if_pos (by omega)]
        · rw [if_neg hlt, if_neg (by omega)]

/-- **A piece that fits** is seen, and the array behind it elsewhere. -/
theorem place_eq (h : p.start + p.data.length ≤ array.length) : ∃ array', place array p = some array' ∧
    array'.length = array.length ∧ ∀ a, array'[a]? = (p.at? a).or array[a]? := by
  obtain ⟨array', hfold, hlen, hget⟩ := place_take h p.data.length (Nat.le_refl _)
  refine ⟨array', hfold, hlen, fun a => ?_⟩
  rw [hget]
  split
  · rfl
  · rename_i ha
    have hnone : p.at? a = none := by
      rw [← Option.not_isSome_iff_eq_none, at?_isSome, Covers]
      omega
    rw [hnone]

/-- **Later pieces win**: through pieces that fit, the last one that covers a place is seen there. -/
theorem overlay_eq : ∀ {ps : List (Piece α)} {array : List α},
    (∀ p ∈ ps, p.start + p.data.length ≤ array.length) → ∃ array', ps.foldlM place array = some array' ∧
      array'.length = array.length ∧ ∀ a, array'[a]? = (lastAt ps a).or array[a]?
  | [], array, _ => ⟨array, rfl, rfl, fun _ => rfl⟩
  | p :: ps, array, h => by
    obtain ⟨array', hplace, hlen, hget⟩ := place_eq (h p List.mem_cons_self)
    have hfits : ∀ q ∈ ps, q.start + q.data.length ≤ array'.length := fun q hq => by
      rw [hlen]
      exact h q (List.mem_cons_of_mem _ hq)
    obtain ⟨array'', hfold, hlen', hget'⟩ := overlay_eq hfits
    refine ⟨array'', by rw [List.foldlM_cons, hplace]; exact hfold, hlen'.trans hlen, fun a => ?_⟩
    have hone : lastAt [p] a = p.at? a := by simp [lastAt]
    rw [hget', hget, ← List.singleton_append, lastAt_append, Option.or_assoc, hone]

end Piece

end IntroNP
