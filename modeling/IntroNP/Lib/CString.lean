import Mathlib.Data.List.TakeWhile
import Mathlib.Algebra.Group.Nat.Defs
import Mathlib.Algebra.Group.Int.Defs

/-!
# Text functions of the C library

Texts are lists of characters; a `char` of C is one of them. `strtok` takes the saved pointer as an argument and
returns the new one, so that a chain of calls is a chain of lets.

- a token is not empty and has no delimiter (`strtok_ne_nil`, `strtok_notMem`), and such a text in front of a delimiter
  is the next token (`strtok_token`);
- delimiters in front are skipped (`strtok_append_left`), and a delimiter behind the text cannot be told from its end
  (`strtok_fst_append_right`, `strtok_snd_append_right`).
-/

namespace IntroNP

/-- A C or C++ string. -/
abbrev Text := List Char

scoped instance : Coe String Text := ⟨String.toList⟩

/-! ## Copying and tokenising -/

/-- The C string that `strncpy(dest, src, n)` leaves in a large enough `dest`: up to the first NUL, at most `n`
characters. -/
def strncpy (src : Text) (n : Nat) : Text := (src.takeWhile (· != Char.ofNat 0)).take n

/-- `strtok(p, delim)` from the saved pointer `p`: the next token, if there is one, and the new saved pointer. -/
def strtok (delim : Char → Bool) (p : Text) : Option Text × Text :=
  match p.dropWhile delim with
  | [] => (none, [])
  | c :: cs => (some ((c :: cs).takeWhile (!delim ·)), ((c :: cs).dropWhile (!delim ·)).tail)

section Strtok

variable {delim : Char → Bool} {p t q : Text}

theorem strtok_ne_nil (h : (strtok delim p).1 = some t) : t ≠ [] := by
  unfold strtok at h
  split at h
  · cases h
  · rename_i c cs hc
    have hd : ¬ delim c := by simpa [hc] using List.head_dropWhile_not delim (l := p) (by simp [hc])
    cases h
    simp [hd]

/-- A token has no delimiter. -/
theorem strtok_notMem (h : (strtok delim p).1 = some t) : ∀ c ∈ t, delim c = false := by
  unfold strtok at h
  split at h
  · cases h
  · cases h
    intro c hc
    simpa using List.mem_takeWhile_imp hc

/-- A token in front of a delimiter. -/
theorem strtok_token {d : Char} (h : t ≠ []) (ht : ∀ c ∈ t, delim c = false) (hd : delim d) :
    strtok delim (t ++ d :: p) = (some t, p) := by
  obtain ⟨c, cs, rfl⟩ := List.exists_cons_of_ne_nil h
  have hdrop : (c :: cs ++ d :: p).dropWhile delim = c :: (cs ++ d :: p) := by
    rw [List.cons_append, List.dropWhile_cons_of_neg (by simp [ht c List.mem_cons_self])]
  have hall : ∀ x ∈ c :: cs, (!delim x) = true := fun x hx => by rw [ht x hx]; rfl
  unfold strtok
  rw [hdrop]
  dsimp only
  rw [← List.cons_append, List.takeWhile_append_of_pos hall, List.dropWhile_append_of_pos hall,
    List.takeWhile_cons_of_neg (by simp [hd]), List.dropWhile_cons_of_neg (by simp [hd]), List.append_nil,
    List.tail_cons]

/-- Delimiters in front are skipped. -/
theorem strtok_append_left (h : ∀ c ∈ q, delim c) : strtok delim (q ++ p) = strtok delim p := by
  unfold strtok
  rw [List.dropWhile_append_of_pos h]

/-- Delimiters behind the text do not change the token. -/
theorem strtok_fst_append_right (h : ∀ c ∈ q, delim c) : (strtok delim (p ++ q)).1 = (strtok delim p).1 := by
  have hq : q.dropWhile delim = [] := List.dropWhile_eq_nil_iff.2 h
  unfold strtok
  rw [List.dropWhile_append]
  cases hp : p.dropWhile delim with
  | nil => simp [hq]
  | cons c cs =>
    have ht : q.takeWhile (!delim ·) = [] := by
      cases q with
      | nil => rfl
      | cons d ds => simp [h d List.mem_cons_self]
    simp only [List.isEmpty_cons, Bool.false_eq_true, ↓reduceIte, List.cons_append, Option.some.injEq]
    rw [← List.cons_append, List.takeWhile_append]
    split
    · rename_i hl
      rw [ht, List.append_nil, (List.takeWhile_prefix _).eq_of_length hl]
    · rfl

/-- The saved pointer of a text with delimiters behind it is that of the text, with delimiters behind it. -/
theorem strtok_snd_append_right (h : ∀ c ∈ q, delim c) :
    ∃ q' : Text, (strtok delim (p ++ q)).2 = (strtok delim p).2 ++ q' ∧ ∀ c ∈ q', c ∈ q := by
  unfold strtok
  rw [List.dropWhile_append]
  cases hp : p.dropWhile delim with
  | nil =>
    have hq : q.dropWhile delim = [] := List.dropWhile_eq_nil_iff.2 h
    exact ⟨[], by simp [hq], by simp⟩
  | cons c cs =>
    simp only [List.isEmpty_cons, Bool.false_eq_true, ↓reduceIte, List.cons_append]
    rw [← List.cons_append, List.dropWhile_append]
    cases hr : (c :: cs).dropWhile (!delim ·) with
    | nil =>
      refine ⟨(q.dropWhile (!delim ·)).tail, by simp, fun d hd => ?_⟩
      exact (List.dropWhile_sublist _).subset (List.mem_of_mem_tail hd)
    | cons d ds => exact ⟨q, by simp, fun _ h => h⟩

end Strtok

/-! ## Numbers -/

/-- White space of the C locale. -/
def isspace (c : Char) : Bool := c == ' ' || (9 ≤ c.toNat && c.toNat ≤ 13)

/-- An optional sign: whether it is a minus, and what follows. -/
def sign : Text → Bool × Text
  | '-' :: t => (true, t)
  | '+' :: t => (false, t)
  | t => (false, t)

/-- The value of the decimal digits at the start of a text, with the sign given. -/
def digitsValue (neg : Bool) (t : Text) : Int :=
  let v : Int := Nat.ofDigitChars 10 (t.takeWhile Char.isDigit) 0
  if neg then -v else v

/-- `atoi`, as `(int) strtol(t, NULL, 10)`: `strtol` stops at the ends of `long`, the cast keeps the low 32 bits. -/
def atoi (t : Text) : Int :=
  let (neg, t) := sign (t.dropWhile isspace)
  (max (-2 ^ 63) (min (2 ^ 63 - 1) (digitsValue neg t))).bmod (2 ^ 32)

/-- `std::to_string` of an `int`. -/
def toDecimal : Int → Text
  | .ofNat n => Nat.toDigits 10 n
  | .negSucc n => '-' :: Nat.toDigits 10 (n + 1)

/-- Two hexadecimal digits, as `%02x` prints a byte. -/
def hex2 (n : Nat) : Text := [(n / 16).digitChar, (n % 16).digitChar]

/-- The hexadecimal digits of a byte, with a zero in front of a single one. -/
theorem hex2_eq {n : Nat} (h : n < 256) :
    (hex2 n).length = 2 ∧ hex2 n = (if n < 16 then ['0'] else []) ++ Nat.toDigits 16 n := by
  have hall : ∀ n < 256, (hex2 n).length = 2 ∧ hex2 n = (if n < 16 then ['0'] else []) ++ Nat.toDigits 16 n := by
    decide +kernel
  exact hall n h

example : atoi " -12 x" = -12 := by decide
example : toDecimal (-12) = "-12" := by decide

theorem minus_notMem_toDigits {n : Nat} : '-' ∉ Nat.toDigits 10 n := fun h =>
  absurd (Nat.isDigit_of_mem_toDigits (by decide) (by decide) h) (by decide)

theorem toDecimal_injective {n m : Int} (h : toDecimal n = toDecimal m) : n = m := by
  have hinj : ∀ {j k : Nat}, Nat.toDigits 10 j = Nat.toDigits 10 k → j = k := fun {j k} he => by
    rw [← Nat.ofDigitChars_ten_toDigits (n := j), he, Nat.ofDigitChars_ten_toDigits]
  -- only a negative number starts with a minus
  have hsign : ∀ {j k : Nat}, Nat.toDigits 10 j ≠ '-' :: Nat.toDigits 10 k := fun {j k} he =>
    minus_notMem_toDigits (he ▸ List.mem_cons_self)
  cases n with
  | ofNat n =>
    cases m with
    | ofNat m => exact congrArg Int.ofNat (hinj h)
    | negSucc m => exact absurd h hsign
  | negSucc n =>
    cases m with
    | ofNat m => exact absurd h.symm hsign
    | negSucc m => exact congrArg Int.negSucc (Nat.succ.inj (hinj (List.cons.inj h).2))

theorem space_notMem_toDecimal (n : Int) : ' ' ∉ toDecimal n := by
  have hdigits : ∀ k : Nat, ' ' ∉ Nat.toDigits 10 k := fun k h =>
    absurd (Nat.isDigit_of_mem_toDigits (by decide) (by decide) h) (by decide)
  cases n with
  | ofNat n => exact hdigits n
  | negSucc n =>
    rw [toDecimal, List.mem_cons, not_or]
    exact ⟨by decide, hdigits _⟩

end IntroNP
