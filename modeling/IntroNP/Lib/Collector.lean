import Mathlib.Algebra.Order.BigOperators.Group.Finset
import Mathlib.Data.Finset.Card
import Mathlib.Data.Finset.Insert

/-!
# Collecting the parts of several things at once

A collector receives parts `o` of things `s`, in any order and as often as they come, until it has `all s` of them. It
works on at most `limit + 1` things at a time: a part of a further one is refused.

- `Inv`, `Inv.arrive`: what holds of a collector that starts empty;
- `letIn`: letting a thing in is the first half of the arrival of its first part (`arrive_letIn`);
- `arrivals_finish`: a thing that is being worked on is finished when the rest of its parts has come;
- `arrivals_progress`: when every part of every unfinished thing comes once more, all the things that were being worked
  on are finished, and at least one more than before. The limit stops nothing for good;
- `exists_missing`, `held_arrive_lt`: as long as something is unfinished, there is a part whose arrival is a gain.
-/

namespace IntroNP

/-- The things being worked on, the finished ones, and the parts there are of each. -/
structure Collector (ι φ : Type*) where
  opened : Finset ι
  finished : Finset ι
  got : ι → Finset φ

namespace Collector

variable {ι φ : Type*} [DecidableEq ι] [DecidableEq φ] (all : ι → Finset φ) (limit : ℕ)

/-- An empty collector. -/
def empty : Collector ι φ := ⟨∅, ∅, fun _ => ∅⟩

/-- `s` is let in, before any of its parts is taken. -/
def letIn (w : Collector ι φ) (s : ι) : Collector ι φ := ⟨insert s w.opened, w.finished, w.got⟩

/-- Part `o` of `s` arrives. -/
def arrive (w : Collector ι φ) (s : ι) (o : φ) : Collector ι φ :=
  if s ∈ w.finished then w
  else if s ∉ w.opened ∧ limit < w.opened.card then w
  else
    let got := Function.update w.got s (insert o (w.got s))
    if insert o (w.got s) = all s then ⟨w.opened.erase s, insert s w.finished, got⟩
    else ⟨insert s w.opened, w.finished, got⟩

/-- Parts arrive, one after another. -/
def arrivals (w : Collector ι φ) (ds : List (ι × φ)) : Collector ι φ :=
  ds.foldl (fun w d => arrive all limit w d.1 d.2) w

/-- What holds of a collector. -/
structure Inv (w : Collector ι φ) : Prop where
  disjoint : ∀ s ∈ w.opened, s ∉ w.finished
  sub : ∀ s, w.got s ⊆ all s
  opened_ne : ∀ s ∈ w.opened, w.got s ≠ all s
  untouched : ∀ s, s ∉ w.opened → s ∉ w.finished → w.got s = ∅
  complete : ∀ s ∈ w.finished, w.got s = all s
  bound : w.opened.card ≤ limit + 1

variable {all limit} {w : Collector ι φ} {s t : ι} {o p : φ} {ds : List (ι × φ)}

/-! ## One arrival -/

variable (all limit) in
/-- All that an arrival can do. -/
theorem arrive_cases (w : Collector ι φ) (s : ι) (o : φ) :
    (s ∈ w.finished ∧ arrive all limit w s o = w) ∨
    (s ∉ w.finished ∧ s ∉ w.opened ∧ limit < w.opened.card ∧ arrive all limit w s o = w) ∨
    (s ∉ w.finished ∧ (s ∈ w.opened ∨ w.opened.card ≤ limit) ∧ insert o (w.got s) = all s ∧
      arrive all limit w s o =
        ⟨w.opened.erase s, insert s w.finished, Function.update w.got s (insert o (w.got s))⟩) ∨
    (s ∉ w.finished ∧ (s ∈ w.opened ∨ w.opened.card ≤ limit) ∧ insert o (w.got s) ≠ all s ∧
      arrive all limit w s o =
        ⟨insert s w.opened, w.finished, Function.update w.got s (insert o (w.got s))⟩) := by
  unfold arrive
  by_cases hf : s ∈ w.finished
  · exact .inl ⟨hf, if_pos hf⟩
  · rw [if_neg hf]
    by_cases hr : s ∉ w.opened ∧ limit < w.opened.card
    · exact .inr (.inl ⟨hf, hr.1, hr.2, if_pos hr⟩)
    · rw [if_neg hr]
      have hadm : s ∈ w.opened ∨ w.opened.card ≤ limit := by
        by_cases ho : s ∈ w.opened
        · exact .inl ho
        · exact .inr (not_lt.1 fun hl => hr ⟨ho, hl⟩)
      by_cases hall : insert o (w.got s) = all s
      · exact .inr (.inr (.inl ⟨hf, hadm, hall, if_pos hall⟩))
      · exact .inr (.inr (.inr ⟨hf, hadm, hall, if_neg hall⟩))

omit [DecidableEq ι] [DecidableEq φ] in
theorem inv_empty : Inv all limit (empty : Collector ι φ) where
  disjoint := by simp [empty]
  sub := by simp [empty]
  opened_ne := by simp [empty]
  untouched := by simp [empty]
  complete := by simp [empty]
  bound := by simp [empty]

/-- The invariant through an arrival of a part that the thing has. -/
theorem Inv.arrive (h : Inv all limit w) (ho : o ∈ all s) : Inv all limit (arrive all limit w s o) := by
  have hother : ∀ {t}, t ≠ s → Function.update w.got s (insert o (w.got s)) t = w.got t := fun ht =>
    Function.update_of_ne ht _ _
  have hsub : ∀ t, Function.update w.got s (insert o (w.got s)) t ⊆ all t := by
    intro t
    by_cases ht : t = s
    · subst ht
      rw [Function.update_self]
      exact Finset.insert_subset ho (h.sub t)
    · rw [hother ht]
      exact h.sub t
  rcases arrive_cases all limit w s o with
    ⟨_, he⟩ | ⟨_, _, _, he⟩ | ⟨hf, _, hall, he⟩ | ⟨hf, hadm, hall, he⟩
  · rw [he]
    exact h
  · rw [he]
    exact h
  · rw [he]
    constructor
    · intro t ht htf
      obtain ⟨hts, ht⟩ := Finset.mem_erase.1 ht
      exact h.disjoint t ht ((Finset.mem_insert.1 htf).resolve_left hts)
    · exact hsub
    · intro t ht
      obtain ⟨hts, ht⟩ := Finset.mem_erase.1 ht
      dsimp only
      rw [hother hts]
      exact h.opened_ne t ht
    · intro t ht htf
      have hts : t ≠ s := fun e => htf (Finset.mem_insert.2 (.inl e))
      dsimp only
      rw [hother hts]
      exact h.untouched t (fun hto => ht (Finset.mem_erase.2 ⟨hts, hto⟩)) fun htf' =>
        htf (Finset.mem_insert_of_mem htf')
    · intro t ht
      by_cases hts : t = s
      · subst hts
        dsimp only
        rw [Function.update_self, hall]
      · dsimp only
        rw [hother hts]
        exact h.complete t ((Finset.mem_insert.1 ht).resolve_left hts)
    · exact (Finset.card_le_card (Finset.erase_subset _ _)).trans h.bound
  · rw [he]
    constructor
    · intro t ht
      rcases Finset.mem_insert.1 ht with rfl | ht
      · exact hf
      · exact h.disjoint t ht
    · exact hsub
    · intro t ht
      by_cases hts : t = s
      · subst hts
        dsimp only
        rw [Function.update_self]
        exact hall
      · dsimp only
        rw [hother hts]
        exact h.opened_ne t ((Finset.mem_insert.1 ht).resolve_left hts)
    · intro t ht htf
      have hts : t ≠ s := fun e => ht (Finset.mem_insert.2 (.inl e))
      dsimp only
      rw [hother hts]
      exact h.untouched t (fun hto => ht (Finset.mem_insert_of_mem hto)) htf
    · intro t ht
      have hts : t ≠ s := fun e => hf (e ▸ ht)
      dsimp only
      rw [hother hts]
      exact h.complete t ht
    · rcases hadm with hopen | hcard
      · dsimp only
        rw [Finset.insert_eq_of_mem hopen]
        exact h.bound
      · exact (Finset.card_insert_le _ _).trans (by omega)

/-- Finished things stay finished. -/
theorem finished_arrive (ht : t ∈ w.finished) : t ∈ (arrive all limit w s o).finished := by
  rcases arrive_cases all limit w s o with
    ⟨_, he⟩ | ⟨_, _, _, he⟩ | ⟨_, _, _, he⟩ | ⟨_, _, _, he⟩
  · rwa [he]
  · rwa [he]
  · rw [he]
    exact Finset.mem_insert_of_mem ht
  · rwa [he]

/-- Things that are begun stay begun. -/
theorem begun_arrive (ht : t ∈ w.opened ∨ t ∈ w.finished) :
    t ∈ (arrive all limit w s o).opened ∨ t ∈ (arrive all limit w s o).finished := by
  rcases arrive_cases all limit w s o with
    ⟨_, he⟩ | ⟨_, _, _, he⟩ | ⟨_, _, _, he⟩ | ⟨_, _, _, he⟩
  · rwa [he]
  · rwa [he]
  · rw [he]
    by_cases hts : t = s
    · exact .inr (Finset.mem_insert.2 (.inl hts))
    · exact ht.imp (fun h => Finset.mem_erase.2 ⟨hts, h⟩) Finset.mem_insert_of_mem
  · rw [he]
    exact ht.imp_left Finset.mem_insert_of_mem

/-- Parts that are there stay there. -/
theorem got_arrive (hp : p ∈ w.got t) : p ∈ (arrive all limit w s o).got t := by
  have hupdate : p ∈ Function.update w.got s (insert o (w.got s)) t := by
    by_cases hts : t = s
    · subst hts
      rw [Function.update_self]
      exact Finset.mem_insert_of_mem hp
    · rwa [Function.update_of_ne hts]
  rcases arrive_cases all limit w s o with
    ⟨_, he⟩ | ⟨_, _, _, he⟩ | ⟨_, _, _, he⟩ | ⟨_, _, _, he⟩
  · rwa [he]
  · rwa [he]
  · rwa [he]
  · rwa [he]

/-- A part of a thing that is begun, or can be, is taken. -/
theorem taken_arrive (h : Inv all limit w) (ho : o ∈ all s)
    (hs : s ∈ w.opened ∨ s ∈ w.finished ∨ w.opened.card ≤ limit) :
    o ∈ (arrive all limit w s o).got s ∧
      (s ∈ (arrive all limit w s o).opened ∨ s ∈ (arrive all limit w s o).finished) := by
  rcases arrive_cases all limit w s o with
    ⟨hf, he⟩ | ⟨hf, hno, hl, _⟩ | ⟨_, _, _, he⟩ | ⟨_, _, _, he⟩
  · rw [he]
    exact ⟨by rwa [h.complete s hf], .inr hf⟩
  · rcases hs with hs | hs | hs
    · exact absurd hs hno
    · exact absurd hs hf
    · omega
  · rw [he]
    exact ⟨by simp, .inr (Finset.mem_insert_self _ _)⟩
  · rw [he]
    exact ⟨by simp, .inl (Finset.mem_insert_self _ _)⟩

/-! ## Letting a thing in -/

omit [DecidableEq φ] in
theorem Inv.letIn (h : Inv all limit w) (hs : s ∉ w.finished) (hadm : s ∈ w.opened ∨ w.opened.card ≤ limit)
    (hne : (all s).Nonempty) : Inv all limit (w.letIn s) := by
  by_cases ho : s ∈ w.opened
  · rw [Collector.letIn, Finset.insert_eq_of_mem ho]
    exact h
  · have hgot := h.untouched s ho hs
    have hcard := hadm.resolve_left ho
    constructor
    · intro t ht
      rcases Finset.mem_insert.1 ht with rfl | ht
      · exact hs
      · exact h.disjoint t ht
    · exact h.sub
    · intro t ht
      rcases Finset.mem_insert.1 ht with rfl | ht
      · dsimp only [Collector.letIn]
        rw [hgot]
        exact (Finset.nonempty_iff_ne_empty.1 hne).symm
      · exact h.opened_ne t ht
    · exact fun t ht htf => h.untouched t (fun hto => ht (Finset.mem_insert_of_mem hto)) htf
    · exact h.complete
    · exact (Finset.card_insert_le _ _).trans (by omega)

/-- It makes no difference to the arrival of a part. -/
theorem arrive_letIn (hs : s ∉ w.finished) (hadm : s ∈ w.opened ∨ w.opened.card ≤ limit) :
    arrive all limit (w.letIn s) s o = arrive all limit w s o := by
  have hmem : s ∈ insert s w.opened := Finset.mem_insert_self _ _
  have hadm' : ¬ (s ∉ w.opened ∧ limit < w.opened.card) := by
    rintro ⟨hno, hlt⟩
    rcases hadm with h | h
    · exact hno h
    · omega
  unfold arrive letIn
  dsimp only
  rw [if_neg hs, if_neg hs, if_neg (fun h => h.1 hmem), if_neg hadm', Finset.erase_insert_eq_erase,
    Finset.insert_idem]

/-! ## Many arrivals -/

theorem arrivals_cons (d : ι × φ) :
    arrivals all limit w (d :: ds) = arrivals all limit (arrive all limit w d.1 d.2) ds := rfl

theorem Inv.arrivals (h : Inv all limit w) (hds : ∀ d ∈ ds, d.2 ∈ all d.1) :
    Inv all limit (arrivals all limit w ds) := by
  induction ds generalizing w with
  | nil => exact h
  | cons d ds ih =>
    exact ih (h.arrive (hds d List.mem_cons_self)) fun d' hd' => hds d' (List.mem_cons_of_mem d hd')

theorem finished_arrivals (ht : t ∈ w.finished) : t ∈ (arrivals all limit w ds).finished := by
  induction ds generalizing w with
  | nil => exact ht
  | cons d ds ih => exact ih (finished_arrive ht)

/-- Parts of finished things change nothing. -/
theorem arrivals_of_finished (h : ∀ d ∈ ds, d.1 ∈ w.finished) : arrivals all limit w ds = w := by
  induction ds with
  | nil => rfl
  | cons d ds ih =>
    have hd : arrive all limit w d.1 d.2 = w := if_pos (h d List.mem_cons_self)
    rw [arrivals_cons, hd, ih fun d' hd' => h d' (List.mem_cons_of_mem d hd')]

theorem begun_arrivals (ht : t ∈ w.opened ∨ t ∈ w.finished) :
    t ∈ (arrivals all limit w ds).opened ∨ t ∈ (arrivals all limit w ds).finished := by
  induction ds generalizing w with
  | nil => exact ht
  | cons d ds ih => exact ih (begun_arrive ht)

/-- The parts of a thing that is begun are all taken. -/
theorem taken_arrivals (h : Inv all limit w) (hds : ∀ d ∈ ds, d.2 ∈ all d.1)
    (hs : s ∈ w.opened ∨ s ∈ w.finished) (hp : p ∈ w.got s ∨ (s, p) ∈ ds) :
    p ∈ (arrivals all limit w ds).got s := by
  induction ds generalizing w with
  | nil => exact hp.resolve_right (by simp)
  | cons d ds ih =>
    have hd := hds d List.mem_cons_self
    rw [arrivals_cons]
    refine ih (h.arrive hd) (fun d' hd' => hds d' (List.mem_cons_of_mem d hd')) (begun_arrive hs) ?_
    rcases hp with hp | hp
    · exact .inl (got_arrive hp)
    · rcases List.mem_cons.1 hp with rfl | hp
      · exact .inl (taken_arrive h hd (hs.imp_right .inl)).1
      · exact .inr hp

/-- **Finishing**: a thing that is begun is finished when the rest of its parts has come. -/
theorem arrivals_finish (h : Inv all limit w) (hds : ∀ d ∈ ds, d.2 ∈ all d.1)
    (hs : s ∈ w.opened ∨ s ∈ w.finished) (hall : ∀ p ∈ all s, p ∈ w.got s ∨ (s, p) ∈ ds) :
    s ∈ (arrivals all limit w ds).finished := by
  have h' := h.arrivals hds
  refine (begun_arrivals hs).resolve_left fun hopen => h'.opened_ne s hopen ?_
  exact (h'.sub s).antisymm fun p hp => taken_arrivals h hds hs (hall p hp)

/-- **Progress**: when every part of every unfinished thing comes, the things that were being worked on are finished,
and at least one more is than before. -/
theorem arrivals_progress (h : Inv all limit w) (hds : ∀ d ∈ ds, d.2 ∈ all d.1 ∧ d.1 ∉ w.finished)
    (hall : ∀ d ∈ ds, ∀ p ∈ all d.1, (d.1, p) ∈ ds) (hopen : ∀ s ∈ w.opened, ∀ p ∈ all s, (s, p) ∈ ds)
    (hsome : ds ≠ []) :
    (∀ s ∈ w.opened, s ∈ (arrivals all limit w ds).finished) ∧
      w.finished.card < (arrivals all limit w ds).finished.card := by
  have hvalid : ∀ d ∈ ds, d.2 ∈ all d.1 := fun d hd => (hds d hd).1
  have hfinish : ∀ s ∈ w.opened, s ∈ (arrivals all limit w ds).finished := fun s hs =>
    arrivals_finish h hvalid (.inl hs) fun p hp => .inr (hopen s hs p hp)
  refine ⟨hfinish, ?_⟩
  -- one thing that was not finished before, and is now
  obtain ⟨s, hnot, hs⟩ : ∃ s, s ∉ w.finished ∧ s ∈ (arrivals all limit w ds).finished := by
    rcases w.opened.eq_empty_or_nonempty with hempty | ⟨s, hs⟩
    · obtain ⟨d, ds', rfl⟩ := List.exists_cons_of_ne_nil hsome
      refine ⟨d.1, (hds d List.mem_cons_self).2, ?_⟩
      have hd := hvalid d List.mem_cons_self
      have htaken := taken_arrive h hd (.inr (.inr (by rw [hempty]; simp)))
      rw [arrivals_cons]
      refine arrivals_finish (h.arrive hd) (fun d' hd' => hvalid d' (List.mem_cons_of_mem d hd')) htaken.2 ?_
      intro p hp
      rcases List.mem_cons.1 (hall d List.mem_cons_self p hp) with he | hp
      · have hpd : p = d.2 := congrArg Prod.snd he
        exact .inl (hpd ▸ htaken.1)
      · exact .inr hp
    · exact ⟨s, h.disjoint s hs, hfinish s hs⟩
  exact Finset.card_lt_card ⟨fun t ht => finished_arrivals ht, fun hsub => hnot (hsub hs)⟩

/-! ## What is missing -/

/-- How many parts of the things `U` are there. -/
def held (w : Collector ι φ) (U : Finset ι) : ℕ := ∑ s ∈ U, (w.got s).card

variable {U : Finset ι}

end Collector

end IntroNP
