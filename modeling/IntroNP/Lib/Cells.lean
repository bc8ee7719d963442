import Std.Data.ExtTreeMap
import Std.Data.ExtTreeSet
import Mathlib.Data.List.Nodup

/-!
# Maps whose subscript inserts

`m[k]` of a `std::map` inserts a default value at an absent key. A read is `m.getD k d`, and the map after it is
`m.insertIfNew k d`; an inserted default is not seen by the next such read (`getD_insertIfNew`).

`Touched d K m m'` says that `m'` is `m` but for such cells.

`visit` is the loop `for (k : ks) if (m[k] == v) hit(k)`: it reads every key, and so leaves a cell at each of them.
`visit_keep_*` describe it when the body leaves the map alone, `visit_erase_*` when the body erases the cell it is at.
-/

namespace IntroNP

open Std

variable {κ β : Type} [Ord κ] [TransOrd κ]

/-- Writing the default at any keys is not seen by a defaulting read. -/
theorem getD_foldl_insert {α : Type} (f : α → κ) (xs : List α) {m : ExtTreeMap κ β} {j : κ} {d : β}
    (h : m.getD j d = d) :
    (xs.foldl (fun m x => m.insert (f x) d) m).getD j d = d := by
  induction xs generalizing m with
  | nil => exact h
  | cons x xs ih =>
    refine ih ?_
    rw [ExtTreeMap.getD_insert]
    split
    · rfl
    · exact h

section Cells

variable [LawfulEqOrd κ] {m : ExtTreeMap κ β} {k j : κ} {d v : β}

/-- An inserted default is what a defaulting read gives anyway. -/
theorem getD_insertIfNew : (m.insertIfNew k d).getD j d = m.getD j d := by
  simp only [ExtTreeMap.getD_eq_getD_getElem?, ExtTreeMap.getElem?_insertIfNew, Std.compare_eq_iff_eq]
  split
  · rename_i h
    rw [← Std.compare_eq_iff_eq.1 h.1, ExtTreeMap.getElem?_eq_none h.2]
    rfl
  · rfl

/-- A cell that was there is as it was. -/
theorem getElem?_insertIfNew_of_some (h : m[j]? = some v) : (m.insertIfNew k d)[j]? = some v := by
  rw [ExtTreeMap.getElem?_insertIfNew, if_neg, h]
  rintro ⟨he, hk⟩
  rw [← Std.compare_eq_iff_eq.1 he, ExtTreeMap.getElem?_eq_none hk] at h
  cases h

theorem getElem?_insertIfNew_of_ne (h : k ≠ j) : (m.insertIfNew k d)[j]? = m[j]? := by
  rw [ExtTreeMap.getElem?_insertIfNew, if_neg]
  exact fun he => h (Std.compare_eq_iff_eq.1 he.1)

theorem getElem?_insertIfNew_self : (m.insertIfNew k d)[k]? = some (m.getD k d) := by
  rw [ExtTreeMap.getElem?_insertIfNew, ExtTreeMap.getD_eq_getD_getElem?]
  by_cases hk : k ∈ m
  · rw [if_neg (fun h => h.2 hk)]
    cases hv : m[k]? with
    | none => exact absurd (ExtTreeMap.mem_iff_isSome_getElem?.1 hk) (by simp [hv])
    | some v => rfl
  · rw [if_pos ⟨Std.compare_eq_iff_eq.2 rfl, hk⟩, ExtTreeMap.getElem?_eq_none hk]
    rfl

/-- What is at a key after a read that inserts is decided by what was there. -/
theorem getElem?_insertIfNew_congr {m' : ExtTreeMap κ β} (h : m'[j]? = m[j]?) :
    (m'.insertIfNew k d)[j]? = (m.insertIfNew k d)[j]? := by
  by_cases hj : k = j
  · subst hj
    rw [getElem?_insertIfNew_self, getElem?_insertIfNew_self, ExtTreeMap.getD_eq_getD_getElem?,
      ExtTreeMap.getD_eq_getD_getElem?, h]
  · rw [getElem?_insertIfNew_of_ne hj, getElem?_insertIfNew_of_ne hj, h]

/-- Two maps with the same keys list them in the same order. -/
theorem keys_eq_of_mem_iff {γ : Type} {m' : ExtTreeMap κ γ} (h : ∀ k, k ∈ m' ↔ k ∈ m) : m'.keys = m.keys := by
  have hunit : m'.map (fun _ _ => ()) = m.map fun _ _ => () := by
    refine ExtTreeMap.ext_mem_unit fun k => ?_
    rw [ExtTreeMap.mem_map, ExtTreeMap.mem_map, h]
  rw [← ExtTreeMap.keys_map (f := fun _ _ => ()), hunit, ExtTreeMap.keys_map]

theorem getElem?_insert_of_ne (h : k ≠ j) : (m.insert k v)[j]? = m[j]? := by
  rw [ExtTreeMap.getElem?_insert, if_neg (fun e => h (Std.compare_eq_iff_eq.1 e))]

theorem getElem?_erase_of_ne (h : k ≠ j) : (m.erase k)[j]? = m[j]? := by
  rw [ExtTreeMap.getElem?_erase, if_neg (fun e => h (Std.compare_eq_iff_eq.1 e))]

/-- A read that inserts leaves a map alone exactly if the cell is there. -/
theorem insertIfNew_eq_self_iff : m.insertIfNew k d = m ↔ k ∈ m := by
  constructor
  · intro h
    rw [← h]
    exact ExtTreeMap.mem_insertIfNew_self
  · intro hk
    refine ExtTreeMap.ext_getElem? fun j => ?_
    rw [ExtTreeMap.getElem?_insertIfNew, if_neg (fun h => h.2 hk)]

theorem mem_map_insert : j ∈ m.insert k v ↔ j = k ∨ j ∈ m := by
  rw [ExtTreeMap.mem_insert, Std.compare_eq_iff_eq, eq_comm]

variable {s : ExtTreeSet κ}

theorem mem_set_insert : j ∈ s.insert k ↔ j = k ∨ j ∈ s := by
  rw [ExtTreeSet.mem_insert, Std.compare_eq_iff_eq, eq_comm]

theorem mem_set_erase : j ∈ s.erase k ↔ j ≠ k ∧ j ∈ s := by
  rw [ExtTreeSet.mem_erase, Ne, Std.compare_eq_iff_eq, eq_comm]

end Cells

/-! ## Maps up to inserted defaults -/

/-- `m'` is `m`, but for default cells inserted at keys of `K`. -/
def Touched (d : β) (K : κ → Prop) (m m' : ExtTreeMap κ β) : Prop :=
  ∀ j, m'[j]? = m[j]? ∨ K j ∧ m[j]? = none ∧ m'[j]? = some d

namespace Touched

variable {d v : β} {K L : κ → Prop} {m m' m'' : ExtTreeMap κ β} {j k : κ}

theorem refl (m : ExtTreeMap κ β) : Touched d K m m := fun _ => .inl rfl

theorem mono (hKL : ∀ j, K j → L j) (h : Touched d K m m') : Touched d L m m' := fun j =>
  (h j).imp_right fun ⟨hk, h'⟩ => ⟨hKL j hk, h'⟩

theorem trans (h : Touched d K m m') (h' : Touched d K m' m'') : Touched d K m m'' := by
  intro j
  rcases h j with h1 | ⟨hk, h1, h2⟩
  · rw [← h1]; exact h' j
  · rcases h' j with h3 | ⟨_, h3, _⟩
    · exact .inr ⟨hk, h1, h3.trans h2⟩
    · rw [h2] at h3; cases h3

theorem insertIfNew [LawfulEqOrd κ] (hk : K k) : Touched d K m (m.insertIfNew k d) := by
  intro j
  by_cases hj : k = j
  · subst hj
    rw [getElem?_insertIfNew_self, ExtTreeMap.getD_eq_getD_getElem?]
    cases hm : m[k]? with
    | none => exact .inr ⟨hk, rfl, rfl⟩
    | some v => exact .inl rfl
  · exact .inl (getElem?_insertIfNew_of_ne hj)

/-- Reading a list of cells only inserts defaults, at the keys read. -/
theorem foldl [LawfulEqOrd κ] : ∀ (ks : List κ), (∀ k ∈ ks, K k) → ∀ m : ExtTreeMap κ β,
    Touched d K m (ks.foldl (fun m k => m.insertIfNew k d) m)
  | [], _, _ => refl _
  | k :: ks, hK, _ =>
    trans (insertIfNew (hK k List.mem_cons_self)) (foldl ks (fun j hj => hK j (List.mem_cons_of_mem _ hj)) _)

/-- Cells that were there are as they were. -/
theorem keep (h : Touched d K m m') (hj : m[j]? = some v) : m'[j]? = some v := by
  rcases h j with h | ⟨_, h, _⟩
  · rw [h, hj]
  · rw [hj] at h; cases h

/-- Defaulting reads see no difference. -/
theorem getD_eq (h : Touched d K m m') : m'.getD j d = m.getD j d := by
  simp only [ExtTreeMap.getD_eq_getD_getElem?]
  rcases h j with h | ⟨_, h1, h2⟩
  · rw [h]
  · rw [h1, h2]; rfl

end Touched

/-! ## The loop -/

section Visit

variable [DecidableEq β] (v d : β) (hit : κ → ExtTreeMap κ β → ExtTreeMap κ β)

/-- The keys of `ks` whose cell holds `v`, and the map after the loop. -/
def visit : List κ → ExtTreeMap κ β → List κ × ExtTreeMap κ β
  | [], m => ([], m)
  | k :: ks, m =>
    let m' := m.insertIfNew k d
    if m.getD k d = v then
      let r := visit ks (hit k m')
      (k :: r.1, r.2)
    else visit ks m'

variable [LawfulEqOrd κ] {v d} {j : κ}

/-- The body does nothing to the map: the keys found are those whose cell, or default, is `v`. -/
theorem visit_keep_fst : ∀ (ks : List κ) (m : ExtTreeMap κ β),
    (visit v d (fun _ m => m) ks m).1 = ks.filter (fun k => m.getD k d = v)
  | [], _ => rfl
  | k :: ks, m => by
    have ih := visit_keep_fst ks (m.insertIfNew k d)
    simp only [getD_insertIfNew] at ih
    by_cases h : m.getD k d = v
    · simp [visit, h, ih]
    · simp [visit, h, ih]

/-- The body does nothing to the map: every key visited has a cell after the loop. -/
theorem visit_keep_snd [DecidableEq κ] : ∀ (ks : List κ) (m : ExtTreeMap κ β),
    (visit v d (fun _ m => m) ks m).2[j]? = if j ∈ ks then some (m.getD j d) else m[j]?
  | [], _ => by simp [visit]
  | k :: ks, m => by
    have ih := visit_keep_snd ks (m.insertIfNew k d)
    have hs : (visit v d (fun _ m => m) (k :: ks) m).2 = (visit v d (fun _ m => m) ks (m.insertIfNew k d)).2 := by
      by_cases h : m.getD k d = v <;> simp [visit, h]
    rw [hs, ih, getD_insertIfNew]
    by_cases hj : j ∈ ks
    · simp [hj]
    · by_cases hk : k = j
      · subst hk
        rw [if_neg hj, if_pos List.mem_cons_self, getElem?_insertIfNew_self]
      · simp [hj, getElem?_insertIfNew_of_ne hk, Ne.symm hk]

/-- The body does nothing to the map: the loop only inserts defaults, at the keys visited. -/
theorem visit_keep_touched [DecidableEq κ] (ks : List κ) (m : ExtTreeMap κ β) :
    Touched d (· ∈ ks) m (visit v d (fun _ m => m) ks m).2 := by
  intro j
  rw [visit_keep_snd, ExtTreeMap.getD_eq_getD_getElem?]
  split
  · rename_i hj
    cases hm : m[j]? with
    | none => exact .inr ⟨hj, rfl, rfl⟩
    | some v => exact .inl rfl
  · exact .inl rfl

/-- The body does nothing to the map: the loop leaves the map alone exactly if every key visited has a cell. -/
theorem visit_keep_eq_self_iff [DecidableEq κ] (ks : List κ) (m : ExtTreeMap κ β) :
    (visit v d (fun _ m => m) ks m).2 = m ↔ ∀ k ∈ ks, k ∈ m := by
  constructor
  · intro h k hk
    rw [← h, ExtTreeMap.mem_iff_isSome_getElem?, visit_keep_snd, if_pos hk]
    rfl
  · intro h
    refine ExtTreeMap.ext_getElem? fun j => ?_
    rcases visit_keep_touched ks m j with he | ⟨hj, hno, _⟩
    · exact he
    · exact absurd (h j hj) (fun hm => by rw [ExtTreeMap.mem_iff_isSome_getElem?, hno] at hm; cases hm)

/-- The body erases the cell it is at: the keys found are those whose cell, or default, is `v`. -/
theorem visit_erase_fst : ∀ (ks : List κ) (m : ExtTreeMap κ β), ks.Nodup →
    (visit v d (fun k m => m.erase k) ks m).1 = ks.filter (fun k => m.getD k d = v)
  | [], _, _ => rfl
  | k :: ks, m, hn => by
    obtain ⟨hk, hn⟩ := List.nodup_cons.1 hn
    by_cases h : m.getD k d = v
    · have ih := visit_erase_fst ks ((m.insertIfNew k d).erase k) hn
      have hc : ∀ j ∈ ks, ((m.insertIfNew k d).erase k).getD j d = m.getD j d := by
        intro j hj
        have hne : k ≠ j := fun e => hk (e ▸ hj)
        rw [ExtTreeMap.getD_erase, if_neg (fun e => hne (Std.compare_eq_iff_eq.1 e)), getD_insertIfNew]
      simp only [visit, h, ↓reduceIte, ih, List.filter_cons, decide_true]
      congr 1
      exact List.filter_congr fun j hj => by rw [hc j hj]
    · have ih := visit_erase_fst ks (m.insertIfNew k d) hn
      simp only [getD_insertIfNew] at ih
      simp [visit, h, ih]

/-- The body erases the cell it is at: after the loop the keys found have no cell, the other keys visited have one. -/
theorem visit_erase_snd [DecidableEq κ] : ∀ (ks : List κ) (m : ExtTreeMap κ β), ks.Nodup →
    (visit v d (fun k m => m.erase k) ks m).2[j]? =
      if j ∈ ks then if m.getD j d = v then none else some (m.getD j d) else m[j]?
  | [], _, _ => by simp [visit]
  | k :: ks, m, hn => by
    obtain ⟨hk, hn⟩ := List.nodup_cons.1 hn
    by_cases h : m.getD k d = v
    · have ih := visit_erase_snd ks ((m.insertIfNew k d).erase k) hn
      simp only [visit, h, ↓reduceIte, ih]
      by_cases hj : k = j
      · subst hj
        simp [hk, h]
      · have he : compare k j ≠ .eq := fun e => hj (Std.compare_eq_iff_eq.1 e)
        simp [Ne.symm hj, ExtTreeMap.getElem?_erase, ExtTreeMap.getD_erase, he, getD_insertIfNew,
          getElem?_insertIfNew_of_ne hj]
    · have ih := visit_erase_snd ks (m.insertIfNew k d) hn
      simp only [visit, h, ↓reduceIte, ih, getD_insertIfNew]
      by_cases hj : k = j
      · subst hj
        rw [if_neg hk, if_pos List.mem_cons_self, if_neg h, getElem?_insertIfNew_self]
      · simp [Ne.symm hj, getElem?_insertIfNew_of_ne hj]

end Visit

end IntroNP
