import IntroNP.Lib.CString

/-!
# Reading from a string stream

`operator>>` of an input stream over a text. A variable that has not been set is `none`; a read that finds the stream
no longer good leaves it so.

- `readInt` reads an `int`: a number that does not fit stops at the ends of `int` and fails, no number at all reads `0`
  and fails;
- `readWord` reads a word;
- `readInt_toDecimal`, `readWord_append`: what was written before a white space is read back;
- `readInt_good`, `readWord_good`: what a good stream says about the reads before;
- `readInt_int`: a number that is read is an `int`.
-/

namespace IntroNP

/-- The text that is left, and whether the stream is good. -/
structure IStream where
  text : Text
  good : Bool
  deriving DecidableEq

namespace IStream

/-- A new stream. -/
def ofText (t : Text) : IStream := ⟨t, true⟩

/-- `is >> v` for an `int` that was `old`. -/
def readInt (is : IStream) (old : Option Int) : Option Int × IStream :=
  if is.good then
    match is.text.dropWhile isspace with
    | [] => (old, ⟨[], false⟩)
    | c :: cs =>
      let (neg, t) := sign (c :: cs)
      let rest := t.dropWhile Char.isDigit
      if t.takeWhile Char.isDigit = [] then (some 0, ⟨rest, false⟩)
      else
        let v := digitsValue neg t
        if v < -2 ^ 31 then (some (-2 ^ 31), ⟨rest, false⟩)
        else if v > 2 ^ 31 - 1 then (some (2 ^ 31 - 1), ⟨rest, false⟩)
        else (some v, ⟨rest, !rest.isEmpty⟩)
  else (old, ⟨is.text, false⟩)

/-- `is >> v` for a `string` that was `old`. -/
def readWord (is : IStream) (old : Text) : Text × IStream :=
  if is.good then
    match is.text.dropWhile isspace with
    | [] => (old, ⟨[], false⟩)
    | c :: cs =>
      let rest := (c :: cs).dropWhile (!isspace ·)
      ((c :: cs).takeWhile (!isspace ·), ⟨rest, !rest.isEmpty⟩)
  else (old, ⟨is.text, false⟩)

/-! ## Reading back -/

variable {t w : Text} {n : Nat} {old : Option Int} {old' : Text}

/-- White space in front is skipped. -/
theorem readInt_skip (h : ∀ c ∈ w, isspace c) : readInt ⟨w ++ t, true⟩ old = readInt ⟨t, true⟩ old := by
  unfold readInt
  rw [if_pos rfl, if_pos rfl, List.dropWhile_append_of_pos h]

theorem readWord_skip (h : ∀ c ∈ w, isspace c) : readWord ⟨w ++ t, true⟩ old' = readWord ⟨t, true⟩ old' := by
  unfold readWord
  rw [if_pos rfl, if_pos rfl, List.dropWhile_append_of_pos h]

theorem not_isspace_of_isDigit {c : Char} (h : c.isDigit) : isspace c = false := by
  simp only [Char.isDigit, ge_iff_le, Bool.and_eq_true, decide_eq_true_eq, UInt32.le_iff_toNat_le] at h
  have hc : 48 ≤ c.toNat := h.1
  simp only [isspace, Bool.or_eq_false_iff, beq_eq_false_iff_ne, ne_eq, Bool.and_eq_false_iff,
    decide_eq_false_iff_not]
  constructor
  · rintro rfl
    exact absurd hc (by decide)
  · omega

/-- **Numbers**: the decimal text of a number that is an `int` is read back, up to a white space. -/
theorem readInt_toDecimal {s : Char} (hn : n < 2 ^ 31) (hs : isspace s) :
    readInt ⟨toDecimal n ++ s :: t, true⟩ old = (some (n : Int), ⟨s :: t, true⟩) := by
  have hdigit : ∀ c ∈ Nat.toDigits 10 n, c.isDigit := fun c hc => Nat.isDigit_of_mem_toDigits (by decide) (by decide) hc
  have hsd : s.isDigit = false := by
    cases h : s.isDigit with
    | false => rfl
    | true => rw [not_isspace_of_isDigit h] at hs; cases hs
  change readInt ⟨Nat.toDigits 10 n ++ s :: t, true⟩ old = _
  have htake : (Nat.toDigits 10 n ++ s :: t).takeWhile Char.isDigit = Nat.toDigits 10 n := by
    rw [List.takeWhile_append_of_pos hdigit, List.takeWhile_cons_of_neg (by simp [hsd]), List.append_nil]
  have hdrop : (Nat.toDigits 10 n ++ s :: t).dropWhile Char.isDigit = s :: t := by
    rw [List.dropWhile_append_of_pos hdigit, List.dropWhile_cons_of_neg (by simp [hsd])]
  obtain ⟨d, ds, hd⟩ := List.exists_cons_of_ne_nil (Nat.toDigits_ne_nil (n := n) (b := 10))
  have hdd : d.isDigit := hdigit d (by rw [hd]; exact List.mem_cons_self)
  have hskip : (Nat.toDigits 10 n ++ s :: t).dropWhile isspace = d :: (ds ++ s :: t) := by
    rw [hd, List.cons_append, List.dropWhile_cons_of_neg (by simp [not_isspace_of_isDigit hdd])]
  have hsign : sign (d :: (ds ++ s :: t)) = (false, d :: (ds ++ s :: t)) := by
    unfold sign
    split
    · rename_i h
      cases h
      exact absurd hdd (by decide)
    · rename_i h
      cases h
      exact absurd hdd (by decide)
    · rfl
  have hvalue : digitsValue false (Nat.toDigits 10 n ++ s :: t) = n := by
    unfold digitsValue
    rw [htake, Nat.ofDigitChars_ten_toDigits]
    rfl
  unfold readInt
  rw [if_pos rfl, hskip]
  dsimp only
  rw [hsign]
  dsimp only
  rw [← List.cons_append, ← hd, htake, hdrop, hvalue, if_neg (by rw [hd]; simp), if_neg (by omega), if_neg (by omega)]
  rfl

/-- **Words**: a word is read back, up to a white space. -/
theorem readWord_append {s : Char} (hne : w ≠ []) (hw : ∀ c ∈ w, isspace c = false) (hs : isspace s) :
    readWord ⟨w ++ s :: t, true⟩ old' = (w, ⟨s :: t, true⟩) := by
  obtain ⟨c, cs, rfl⟩ := List.exists_cons_of_ne_nil hne
  have hc : isspace c = false := hw c List.mem_cons_self
  unfold readWord
  rw [if_pos rfl, List.cons_append, List.dropWhile_cons_of_neg (by simp [hc])]
  dsimp only
  rw [← List.cons_append, List.takeWhile_append_of_pos (by simpa using hw),
    List.dropWhile_append_of_pos (by simpa using hw),
    List.takeWhile_cons_of_neg (by simp [hs]), List.dropWhile_cons_of_neg (by simp [hs]), List.append_nil]
  rfl

/-- A word that was read has no white space. -/
theorem readWord_not_isspace {c : Char} (hc : c ∈ (readWord ⟨t, true⟩ []).1) : isspace c = false := by
  unfold readWord at hc
  rw [if_pos rfl] at hc
  split at hc
  · simp at hc
  · simpa using List.all_eq_true.1 List.all_takeWhile c hc

/-- A number that is read leaves a good stream only if the stream was good, and then the number is set. -/
theorem readInt_good {is : IStream} {old : Option Int} (h : (is.readInt old).2.good = true) :
    is.good = true ∧ ∃ v, (is.readInt old).1 = some v := by
  unfold readInt at h ⊢
  by_cases hgood : is.good = true
  · rw [if_pos hgood] at h ⊢
    refine ⟨hgood, ?_⟩
    split at h
    · cases h
    · dsimp only at h ⊢
      split at h
      · cases h
      · split at h
        · cases h
        · split at h
          · cases h
          · rename_i hne hlow hhigh
            rw [if_neg hne, if_neg hlow, if_neg hhigh]
            exact ⟨_, rfl⟩
  · rw [if_neg hgood] at h
    cases h

/-- A number that is read is an `int`. -/
theorem readInt_int {is : IStream} {v : Int} (h : (is.readInt none).1 = some v) : -2 ^ 31 ≤ v ∧ v < 2 ^ 31 := by
  unfold readInt at h
  split at h
  · split at h
    · cases h
    · dsimp only at h
      split at h
      · cases h
        omega
      · split at h
        · cases h
          omega
        · split at h
          · cases h
            omega
          · cases h
            omega
  · cases h

/-- A word is only read from a good stream. -/
theorem readWord_good {is : IStream} (h : (is.readWord []).1 ≠ []) : is.good = true := by
  by_contra hbad
  unfold readWord at h
  rw [if_neg hbad] at h
  exact h rfl

end IStream

end IntroNP
