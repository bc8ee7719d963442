import Mathlib.Data.List.Nodup

/-!
# Loops that count down

After `select` or `poll` a program goes over a table and serves the entries that are ready. It counts down how many are
left, and stops when there are none. `countdown_eq_foldl`: if the count is right, none is left out.
-/

namespace IntroNP

variable {σ α : Type*}

/-- The loop over the entries: those that are ready are served, until the count `n` says stop. -/
def countdown (stop : Int → Bool) (ready : σ → α → Bool) (serve : σ → α → σ) : List α → Int → σ → σ
  | [], _, s => s
  | a :: as, n, s =>
    if ready s a then
      if stop (n - 1) then serve s a else countdown stop ready serve as (n - 1) (serve s a)
    else countdown stop ready serve as n s

variable {stop : Int → Bool} {ready : σ → α → Bool} {serve : σ → α → σ} {s : σ} {n : Int} {as : List α}

/-- **None is left out**, where to serve an entry does not make another one ready or not. -/
theorem countdown_eq_foldl (hgo : ∀ n : Nat, stop (n + 1) = false)
    (hserve : ∀ s a b, b ≠ a → ready (serve s a) b = ready s b) (hnodup : as.Nodup)
    (hn : n = (as.filter (ready s)).length) :
    countdown stop ready serve as n s = (as.filter (ready s)).foldl serve s := by
  induction as generalizing s n with
  | nil => rfl
  | cons a as ih =>
    obtain ⟨hnot, hnodup⟩ := List.nodup_cons.1 hnodup
    have hsame : as.filter (ready (serve s a)) = as.filter (ready s) :=
      List.filter_congr fun b hb => hserve s a b fun he => hnot (he ▸ hb)
    unfold countdown
    by_cases ha : ready s a
    · rw [List.filter_cons_of_pos ha, List.length_cons] at hn
      rw [if_pos ha, List.filter_cons_of_pos ha, List.foldl_cons]
      split
      · -- the count is one, and so no other entry is ready
        rename_i hlast
        have hnil : as.filter (ready s) = [] := by
          by_contra hne
          obtain ⟨m, hm⟩ := Nat.exists_eq_succ_of_ne_zero (mt List.length_eq_zero_iff.1 hne)
          have hgo' := hgo m
          rw [hn, hm] at hlast
          rw [show ((m.succ + 1 : Nat) : Int) - 1 = m + 1 by omega, hgo'] at hlast
          exact Bool.noConfusion hlast
        rw [hnil]
        rfl
      · rw [← hsame]
        exact ih hnodup (by rw [hsame]; omega)
    · rw [if_neg ha, List.filter_cons_of_neg ha]
      rw [List.filter_cons_of_neg ha] at hn
      exact ih hnodup hn

end IntroNP
