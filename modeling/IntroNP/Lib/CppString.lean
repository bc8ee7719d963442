import IntroNP.Lib.Stream
import Mathlib.Data.List.Basic

/-!
# Members of `std::string`

Places in a text, the rest of a text from a place on, and numbers. A call that C++ lets end in an exception returns an
`Exn`; a place that was not found is `none`.

- `substr_append`: the rest behind a given front;
- `stoi_eq_ok`: the number that `stoi` reads from a text without white space and signs;
- `stoi_toDecimal`: the decimal text of an `int` is read back.
-/

namespace IntroNP

/-- The exceptions of the functions of this module. -/
inductive Exn
  | outOfRange
  | invalidArgument
  deriving DecidableEq

/-- `t.find_last_of(c)` for one character; `none` is `npos`. -/
def findLastOf (t : Text) (c : Char) : Option Nat :=
  if c ∈ t then some (t.length - 1 - t.reverse.idxOf c) else none

/-- The place behind one that was found; `npos + 1` is `0`. -/
def behind : Option Nat → Nat
  | none => 0
  | some pos => pos + 1

/-- `t.substr(pos)`. -/
def substr (t : Text) (pos : Nat) : Except Exn Text := if pos ≤ t.length then .ok (t.drop pos) else .error .outOfRange

/-- `std::stoi`. -/
def stoi (t : Text) : Except Exn Int :=
  let (neg, t) := sign (t.dropWhile isspace)
  if t.takeWhile Char.isDigit = [] then .error .invalidArgument
  else
    let v := digitsValue neg t
    if -2 ^ 31 ≤ v ∧ v < 2 ^ 31 then .ok v else .error .outOfRange

/-- The text starts with digits that stand for `n`. -/
def StartsNumber (t : Text) (n : Nat) : Prop :=
  t.takeWhile Char.isDigit ≠ [] ∧ Nat.ofDigitChars 10 (t.takeWhile Char.isDigit) 0 = n

instance (t : Text) (n : Nat) : Decidable (StartsNumber t n) := inferInstanceAs (Decidable (_ ∧ _))

variable {p t : Text} {c : Char} {n : Nat}

/-- The last place of a character is that behind which it does not occur. -/
theorem findLastOf_append (h : c ∉ t) : findLastOf (p ++ c :: t) c = some p.length := by
  have hidx : (p ++ c :: t).reverse.idxOf c = t.length := by
    rw [List.reverse_append, List.reverse_cons, List.append_assoc, List.idxOf_append_of_notMem (by simpa using h)]
    simp
  unfold findLastOf
  rw [if_pos (by simp), hidx, List.length_append, List.length_cons]
  congr 1
  omega

/-- What stands behind the last `c` of a text. -/
theorem substr_append (h : c ∉ t) : substr (p ++ c :: t) (behind (findLastOf (p ++ c :: t) c)) = .ok t := by
  rw [findLastOf_append h]
  unfold substr
  rw [behind, if_pos (by rw [List.length_append, List.length_cons]; omega), ← List.singleton_append,
    ← List.append_assoc, List.drop_left' (by simp)]

/-- **Reading a number** from a text in which there is no white space and no sign. -/
theorem stoi_eq_ok (hplain : ∀ c ∈ t, isspace c = false ∧ c ≠ '-' ∧ c ≠ '+') (hn : n < 2 ^ 31) :
    stoi t = .ok (n : Int) ↔ StartsNumber t n := by
  have hskip : t.dropWhile isspace = t := by
    cases t with
    | nil => rfl
    | cons c cs => rw [List.dropWhile_cons_of_neg (by simp [(hplain c List.mem_cons_self).1])]
  have hsign : sign t = (false, t) := by
    unfold sign
    split
    · exact absurd rfl (hplain _ List.mem_cons_self).2.1
    · exact absurd rfl (hplain _ List.mem_cons_self).2.2
    · rfl
  have hvalue : digitsValue false t = (Nat.ofDigitChars 10 (t.takeWhile Char.isDigit) 0 : Nat) := rfl
  unfold stoi StartsNumber
  rw [hskip, hsign]
  dsimp only
  rw [hvalue]
  split
  · rename_i hnil
    simp [hnil]
  · rename_i hnil
    split
    · rw [Except.ok.injEq, Int.natCast_inj]
      exact ⟨fun hv => ⟨hnil, hv⟩, And.right⟩
    · rename_i hrange
      refine iff_of_false (by simp) ?_
      rintro ⟨-, hv⟩
      rw [hv] at hrange
      omega

/-- A run of digits stands for less than its length allows. -/
theorem ofDigitChars_lt : ∀ {ds : Text}, (∀ c ∈ ds, c.isDigit) → Nat.ofDigitChars 10 ds 0 < 10 ^ ds.length
  | [], _ => by simp
  | d :: ds, h => by
    have hds := ofDigitChars_lt fun c hc => h c (List.mem_cons_of_mem d hc)
    have hd : d.toNat ≤ 57 := by
      have hdigit := h d List.mem_cons_self
      simp only [Char.isDigit, ge_iff_le, Bool.and_eq_true, decide_eq_true_eq, UInt32.le_iff_toNat_le] at hdigit
      exact hdigit.2
    have hfirst : 10 ^ ds.length * (d.toNat - 48) ≤ 10 ^ ds.length * 9 := Nat.mul_le_mul_left _ (by omega)
    rw [Nat.ofDigitChars_cons, Nat.ofDigitChars_eq_ofDigitChars_zero, List.length_cons, Nat.pow_succ]
    simp only [Char.reduceToNat, Nat.mul_zero, Nat.zero_add]
    omega

/-- No end of the decimal text of a number stands for the number, but the whole text. -/
theorem not_startsNumber_drop {k : Nat} (hk : 0 < k) : ¬ StartsNumber ((Nat.toDigits 10 n).drop k) n := by
  have hdigit : ∀ c ∈ (Nat.toDigits 10 n).drop k, c.isDigit := fun c hc =>
    Nat.isDigit_of_mem_toDigits (by decide) (by decide) (List.mem_of_mem_drop hc)
  unfold StartsNumber
  rw [List.takeWhile_eq_self_iff.2 hdigit]
  rintro ⟨hne, hv⟩
  have hlt := ofDigitChars_lt hdigit
  rw [hv, List.length_drop] at hlt
  have hpos := List.length_pos_iff.2 hne
  rw [List.length_drop] at hpos
  have hle := (Nat.length_toDigits_le_iff (by decide) hpos).2 hlt
  omega

theorem stoi_toDecimal (hn : n < 2 ^ 31) : stoi (toDecimal n) = .ok (n : Int) := by
  have hdigit : ∀ c ∈ Nat.toDigits 10 n, c.isDigit := fun c hc => Nat.isDigit_of_mem_toDigits (by decide) (by decide) hc
  refine (stoi_eq_ok (fun c hc => ?_) hn).2 ?_
  · have hd := hdigit c hc
    refine ⟨IStream.not_isspace_of_isDigit hd, ?_, ?_⟩
    · rintro rfl
      exact absurd hd (by decide)
    · rintro rfl
      exact absurd hd (by decide)
  · change StartsNumber (Nat.toDigits 10 n) n
    unfold StartsNumber
    rw [List.takeWhile_eq_self_iff.2 hdigit]
    exact ⟨Nat.toDigits_ne_nil, Nat.ofDigitChars_ten_toDigits⟩

end IntroNP
