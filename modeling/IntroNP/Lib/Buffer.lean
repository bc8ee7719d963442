import IntroNP.Lib.CString

/-!
# Texts in arrays

A C string in an array of fixed capacity. There is room for the terminator behind the text; an operation that would
write past the end of the array gives nothing.

- `strcpy_isSome`, `strcpy_eq_some`, `strcat_eq_some`: when a text fits, and what is then in the array;
- `exists_memmove`: the end of a text can always be moved to the front;
- `strcatAll_eq`: texts that are put behind one another fit one by one exactly if all of them fit together.
-/

namespace IntroNP

/-- A text in an array of `capacity` characters, with its terminator. -/
structure Buffer (capacity : Nat) where
  text : Text
  fits : text.length + 1 ≤ capacity

namespace Buffer

variable {capacity : Nat} {b b' : Buffer capacity} {t : Text} {ts : List Text} {k : Nat}

/-- `char a[] = "…"`: the array is as large as the literal. -/
def literal (t : Text) : Buffer (t.length + 1) := ⟨t, le_rfl⟩

/-- `strcpy(a, t)` into an array of `capacity` characters. -/
def strcpy (capacity : Nat) (t : Text) : Option (Buffer capacity) :=
  if h : t.length + 1 ≤ capacity then some ⟨t, h⟩ else none

/-- `strcat(a, t)`. -/
def strcat (b : Buffer capacity) (t : Text) : Option (Buffer capacity) := strcpy capacity (b.text ++ t)

/-- `memmove(a, a + k, n)`, where the `n` characters are those up to the terminator, and it. -/
def memmove (b : Buffer capacity) (k : Nat) : Option (Buffer capacity) := strcpy capacity (b.text.drop k)

/-- `strcat(a, t)` for one text after another. -/
def strcatAll (b : Buffer capacity) : List Text → Option (Buffer capacity)
  | [] => some b
  | t :: ts => do strcatAll (← b.strcat t) ts

theorem strcpy_eq_some : strcpy capacity t = some b ↔ b.text = t := by
  unfold strcpy
  split
  · rename_i h
    rw [Option.some.injEq]
    constructor
    · rintro rfl
      rfl
    · rintro rfl
      rfl
  · rename_i h
    refine iff_of_false nofun ?_
    rintro rfl
    exact h b.fits

theorem strcpy_isSome : (strcpy capacity t).isSome ↔ t.length + 1 ≤ capacity := by
  unfold strcpy
  split
  · rename_i h
    exact iff_of_true rfl h
  · rename_i h
    exact iff_of_false nofun h

/-- A text that fits is there. -/
theorem exists_strcpy (h : t.length + 1 ≤ capacity) : ∃ b : Buffer capacity, strcpy capacity t = some b ∧ b.text = t :=
  ⟨⟨t, h⟩, strcpy_eq_some.2 rfl, rfl⟩

theorem map_strcpy {α : Type*} (f : Text → α) :
    ((strcpy capacity t).map fun b => f b.text) = if t.length + 1 ≤ capacity then some (f t) else none := by
  split
  · rename_i h
    obtain ⟨b, hb, rfl⟩ := exists_strcpy h
    rw [hb, Option.map_some]
  · rename_i h
    rw [Option.not_isSome_iff_eq_none.1 fun hs => h (strcpy_isSome.1 hs), Option.map_none]

theorem strcat_eq_some : b.strcat t = some b' ↔ b'.text = b.text ++ t := strcpy_eq_some

/-- The end of a text is not longer than the text. -/
theorem exists_memmove (b : Buffer capacity) (k : Nat) :
    ∃ b' : Buffer capacity, b.memmove k = some b' ∧ b'.text = b.text.drop k := by
  have hfits := b.fits
  refine exists_strcpy ?_
  rw [List.length_drop]
  omega

/-- **One after another**: what is put behind a text is there in the end exactly if all of it fits. -/
theorem strcatAll_eq : b.strcatAll ts = strcpy capacity (b.text ++ ts.flatten) := by
  induction ts generalizing b with
  | nil =>
    rw [List.flatten_nil, List.append_nil]
    exact (strcpy_eq_some.2 rfl).symm
  | cons t ts ih =>
    unfold strcatAll
    rw [List.flatten_cons, ← List.append_assoc]
    cases h : b.strcat t with
    | some b' =>
      rw [Option.bind_eq_bind, Option.bind_some, ih, strcat_eq_some.1 h]
    | none =>
      -- a text that does not fit does not fit with more behind it
      have hlen : ¬ (b.text ++ t).length + 1 ≤ capacity := by
        rw [← strcpy_isSome, ← strcat, h]
        exact nofun
      have hnone : ¬ (strcpy capacity (b.text ++ t ++ ts.flatten)).isSome := by
        rw [strcpy_isSome, List.length_append]
        omega
      rw [Option.bind_eq_bind, Option.bind_none, eq_comm]
      simpa using hnone

end Buffer

end IntroNP
