import Mathlib.Data.List.Range
import Mathlib.Data.Nat.ModEq

/-!
# Rings

A queue in a ring of slots: the items are in the slots from `first` on, and go on at slot `0` behind the last slot.
-/

namespace IntroNP

variable {α : Type*} {size first n i : Nat} {slots : Nat → α} {a : α}

/-- The `n` items of the queue, the oldest first. -/
def ringItems (size : Nat) (slots : Nat → α) (first n : Nat) : List α :=
  (List.range n).map fun k => slots ((first + k) % size)

/-- The slot behind `i`. -/
def nextSlot (size i : Nat) : Nat := if i + 1 ≥ size then 0 else i + 1

theorem nextSlot_eq (hi : i < size) : nextSlot size i = (i + 1) % size := by
  unfold nextSlot
  split
  · rename_i hlast
    rw [show i + 1 = size by omega, Nat.mod_self]
  · rename_i hnot
    rw [Nat.mod_eq_of_lt (by omega)]

@[simp] theorem length_ringItems : (ringItems size slots first n).length = n := by
  simp [ringItems]

/-- An item is put behind the others; the slots of the others are other ones. -/
theorem ringItems_put (hn : n < size) :
    ringItems size (Function.update slots ((first + n) % size) a) first (n + 1) =
      ringItems size slots first n ++ [a] := by
  unfold ringItems
  rw [List.range_succ, List.map_append, List.map_singleton, Function.update_self]
  refine congrArg (· ++ [a]) (List.map_congr_left fun k hk => Function.update_of_ne (fun he => ?_) _ _)
  have hk : k < n := List.mem_range.1 hk
  have hmod : k ≡ n [MOD size] := Nat.ModEq.add_left_cancel' first he
  have := hmod.eq_of_lt_of_lt (by omega) hn
  omega

/-- The oldest item is in the first slot. -/
theorem ringItems_succ (hfirst : first < size) :
    ringItems size slots first (n + 1) = slots first :: ringItems size slots ((first + 1) % size) n := by
  unfold ringItems
  rw [List.range_succ_eq_map, List.map_cons, List.map_map, Nat.add_zero, Nat.mod_eq_of_lt hfirst]
  refine congrArg (slots first :: ·) (List.map_congr_left fun k _ => congrArg slots ?_)
  rw [Nat.mod_add_mod]
  exact congrArg (· % size) (by omega)

end IntroNP
