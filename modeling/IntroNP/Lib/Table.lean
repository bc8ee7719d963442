import Mathlib

/-!
# Tables

Tables in which one entry changes at a time: what the other entries are, and what becomes of a sum over all of them.
-/

namespace IntroNP

variable {α : Type*} {l : List α} {a b : α} {i j : Nat}

/-- An entry of the table is the one that was set, or an old one at another place. -/
theorem getElem?_set_cases (h : (l.set i a)[j]? = some b) : j = i ∧ b = a ∨ j ≠ i ∧ l[j]? = some b := by
  rw [List.getElem?_set] at h
  split at h
  · rename_i hij
    split at h
    · exact .inl ⟨hij.symm, (Option.some.inj h).symm⟩
    · cases h
  · rename_i hij
    exact .inr ⟨Ne.symm hij, h⟩

/-- Some entry has a property: this one, or one at another place. -/
theorem exists_mem_iff {P : α → Prop} (hi : l[i]? = some a) :
    (∃ c ∈ l, P c) ↔ P a ∨ ∃ (j : Nat) (c : α), j ≠ i ∧ l[j]? = some c ∧ P c := by
  constructor
  · rintro ⟨c, hc, hP⟩
    obtain ⟨j, hj⟩ := List.mem_iff_getElem?.1 hc
    by_cases hji : j = i
    · subst hji
      cases hi.symm.trans hj
      exact .inl hP
    · exact .inr ⟨j, c, hji, hj, hP⟩
  · rintro (hP | ⟨j, c, _, hj, hP⟩)
    · exact ⟨a, List.mem_of_getElem? hi, hP⟩
    · exact ⟨c, List.mem_of_getElem? hj, hP⟩

theorem exists_mem_set_iff {P : α → Prop} (hi : i < l.length) :
    (∃ c ∈ l.set i b, P c) ↔ P b ∨ ∃ (j : Nat) (c : α), j ≠ i ∧ l[j]? = some c ∧ P c := by
  rw [exists_mem_iff (List.getElem?_set_self hi)]
  refine or_congr Iff.rfl (exists_congr fun j => exists_congr fun c => and_congr_right fun hji => ?_)
  rw [List.getElem?_set_ne (Ne.symm hji)]

/-- The keys of the entries with a property, when the entry `a` becomes `b`, and no other entry with the property has
the key of `a`. -/
theorem exists_key_set_iff {β : Type*} {p : α → Prop} {k : α → β} {x : β} (hi : l[i]? = some a)
    (hinj : ∀ j c, l[j]? = some c → p a → p c → k c = k a → j = i) :
    (∃ c ∈ l.set i b, p c ∧ k c = x) ↔ (p b ∧ k b = x) ∨ (∃ c ∈ l, p c ∧ k c = x) ∧ ¬(p a ∧ k a = x) := by
  have hother : (∃ (j : Nat) (c : α), j ≠ i ∧ l[j]? = some c ∧ p c ∧ k c = x) → ¬(p a ∧ k a = x) := by
    rintro ⟨j, c, hji, hj, hc, rfl⟩ ⟨ha, hk⟩
    exact hji (hinj j c hj ha hc hk.symm)
  rw [exists_mem_set_iff (List.getElem?_eq_some_iff.1 hi).1, exists_mem_iff hi]
  exact or_congr Iff.rfl ⟨fun h => ⟨.inr h, hother h⟩, fun ⟨h, hnot⟩ => h.resolve_left hnot⟩

/-- A sum over a table in which one entry is changed. -/
theorem sum_map_set (g : α → Nat) (hi : l[i]? = some a) (b : α) :
    ((l.set i b).map g).sum + g a = (l.map g).sum + g b := by
  obtain ⟨hil, rfl⟩ := List.getElem?_eq_some_iff.1 hi
  obtain ⟨l₁, l₂, hl, _, hset⟩ : ∃ l₁ l₂, l = l₁ ++ l[i] :: l₂ ∧ l₁.length = i ∧ l.set i b = l₁ ++ b :: l₂ :=
    List.exists_of_set hil
  rw [hset]
  conv_rhs => rw [hl]
  simp only [List.map_append, List.map_cons, List.sum_append, List.sum_cons]
  omega

theorem sum_map_eq_zero_iff {g : α → Nat} : (l.map g).sum = 0 ↔ ∀ a ∈ l, g a = 0 := by
  rw [List.sum_eq_zero_iff_forall_eq_nat]
  exact List.forall_mem_map

end IntroNP
