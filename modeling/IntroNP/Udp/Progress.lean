import IntroNP.Udp.Integrity
import Mathlib.Data.List.Perm.Basic

/-!
# File transfer over UDP: progress

Only 301 files are open at a time, and the parts of a further file are refused. That stops nothing for good: when every
part of every file that is not yet received comes once more, in any order, all files that were open are received, and
at least one file more than before (`windowed_progress`).
-/

namespace IntroNP.Udp

variable {fs : Files} {σ : Server} {w : Collector Int Int} {storePath : Text} {ds : List Text}

/-- The server is in state `σ` after some deliveries of the client's datagrams. -/
def Delivered (fs : Files) (storePath : Text) (σ : Server) : Prop :=
  ∃ ds turns, (∀ d ∈ ds, fs.Sends d) ∧ serve storePath (start fs.list.length) ds = .ok (σ, turns)

/-- The parts of the files that are not yet received. -/
def Files.missing (fs : Files) (σ : Server) : List (Nat × Nat) :=
  ((List.range fs.list.length).filter fun (s : Nat) => !σ.receivedList s).flatMap fun (s : Nat) =>
    (List.range (fs.fragments s).length).map fun (o : Nat) => (s, o)

/-- One full set of datagrams: each part of each file that is not yet received, once. -/
def Files.fullSet (fs : Files) (σ : Server) : List Text :=
  (fs.missing σ).filterMap fun p => fs.datagram p.1 p.2

/-- How many files are received. -/
def Server.receivedCount (σ : Server) : Nat :=
  ((below σ.fileNum.toNat).filter fun t => σ.receivedList t = true).card

theorem Delivered.refines (h : Delivered fs storePath σ) : ∃ w, Refines fs σ w := by
  obtain ⟨ds, turns, hds, hserve⟩ := h
  obtain ⟨ps, hps⟩ := areParts_of_sends hds
  obtain ⟨σ', turns', hserve', hrefines, _⟩ := serve_refines storePath hps refines_start
  rw [hserve] at hserve'
  cases hserve'
  exact ⟨_, hrefines⟩

theorem Refines.receivedCount_eq (h : Refines fs σ w) : σ.receivedCount = w.finished.card := by
  unfold Server.receivedCount
  congr 1
  ext t
  rw [Finset.mem_filter, h.received, mem_below, h.fileNum, Int.toNat_natCast]
  exact and_iff_right_of_imp fun ht => h.begun t (.inr ht)

/-! ## The full set -/

theorem mem_missing {s o : Nat} : (s, o) ∈ fs.missing σ ↔
    (s < fs.list.length ∧ σ.receivedList s = false) ∧ o < (fs.fragments s).length := by
  simp only [Files.missing, List.mem_flatMap, List.mem_filter, List.mem_range, List.mem_map, Prod.mk.injEq,
    Bool.not_eq_eq_eq_not, Bool.not_true]
  constructor
  · rintro ⟨s', hs', o', ho', rfl, rfl⟩
    exact ⟨hs', ho'⟩
  · rintro ⟨hs, ho⟩
    exact ⟨s, hs, o, ho, rfl, rfl⟩

/-- Every part has a datagram. -/
theorem datagram_isSome {s o : Nat} (hs : s < fs.list.length) (ho : o < (fs.fragments s).length) :
    ∃ d, fs.datagram s o = some d := by
  have hf : fs.list[s]? = some fs.list[s] := List.getElem?_eq_getElem hs
  rw [fragments_eq hf] at ho
  unfold Files.datagram
  rw [hf]
  dsimp only
  rw [List.getElem?_eq_getElem ho]
  exact ⟨_, rfl⟩

theorem areParts_filterMap : ∀ (ps : List (Nat × Nat)), (∀ p ∈ ps, ∃ d, fs.datagram p.1 p.2 = some d) →
    fs.AreParts (ps.filterMap fun p => fs.datagram p.1 p.2) ps
  | [], _ => .nil
  | p :: ps, h => by
    obtain ⟨d, hd⟩ := h p List.mem_cons_self
    rw [List.filterMap_cons_some (f := fun (p : Nat × Nat) => fs.datagram p.1 p.2) hd]
    exact .cons hd (areParts_filterMap ps fun p' hp' => h p' (List.mem_cons_of_mem p hp'))

/-- Datagrams in the order of the full set, or any other, are those of the missing parts. -/
theorem areParts_fullSet (h : ds.Perm (fs.fullSet σ)) : ∃ ps, fs.AreParts ds ps ∧ ps.Perm (fs.missing σ) := by
  have hall : fs.AreParts (fs.fullSet σ) (fs.missing σ) := by
    refine areParts_filterMap _ fun p hp => ?_
    obtain ⟨⟨hs, _⟩, ho⟩ := mem_missing.1 hp
    exact datagram_isSome hs ho
  exact List.perm_comp_forall₂ h hall

/-- The full set, as the collector sees it. -/
theorem mem_map_partOf (hw : Refines fs σ w) {ps : List (Nat × Nat)} (hperm : ps.Perm (fs.missing σ)) {t p : Int} :
    (t, p) ∈ ps.map partOf ↔ (0 ≤ t ∧ t < fs.list.length ∧ t ∉ w.finished) ∧ p ∈ fs.offsets t := by
  simp only [List.mem_map, partOf, Prod.mk.injEq, mem_offsets]
  constructor
  · rintro ⟨⟨s, o⟩, hso, rfl, rfl⟩
    obtain ⟨⟨hs, hr⟩, ho⟩ := mem_missing.1 (hperm.mem_iff.1 hso)
    exact ⟨⟨by omega, by omega, hw.not_received.1 hr⟩, by omega, Int.ofNat_lt.2 ho⟩
  · rintro ⟨⟨h0, ht, hfin⟩, hp0, hp⟩
    have hts : ((t.toNat : Nat) : Int) = t := Int.toNat_of_nonneg h0
    have hpo : ((p.toNat : Nat) : Int) = p := Int.toNat_of_nonneg hp0
    refine ⟨(t.toNat, p.toNat), hperm.mem_iff.2 (mem_missing.2 ⟨⟨by omega, ?_⟩, ?_⟩), hts, hpo⟩
    · rw [hts]
      exact hw.not_received.2 hfin
    · rw [hts]
      omega

/-- Every file has a first part, also an empty one. -/
theorem zero_mem_offsets {t : Int} (h0 : 0 ≤ t) (ht : t < fs.list.length) : (0 : Int) ∈ fs.offsets t := by
  obtain ⟨s, rfl⟩ := Int.eq_ofNat_of_zero_le h0
  have hs : s < fs.list.length := by omega
  have hpos : 0 < (fs.fragments s).length := by
    rw [fragments_eq (List.getElem?_eq_getElem hs)]
    exact List.length_pos_iff.2 (split_ne_nil _)
  exact mem_offsets.2 ⟨le_refl 0, by omega⟩

/-! ## Progress -/

/-- **No stuck state.** From any state that the server reaches on deliveries of the client's datagrams, in which some
file is not yet received, and for every order of one full set of datagrams: all files that are open are received in the
end, and more files than before. -/
theorem windowed_progress (h : Delivered fs storePath σ) (hsome : ∃ t, σ.InTables t ∧ σ.receivedList t = false)
    (hds : ds.Perm (fs.fullSet σ)) : ∃ σ' turns, serve storePath σ ds = .ok (σ', turns) ∧
      (∀ t, σ.fStat t = true → σ.receivedList t = false → σ'.receivedList t = true) ∧
      σ.receivedCount < σ'.receivedCount := by
  obtain ⟨w, hw⟩ := h.refines
  obtain ⟨ps, hps, hperm⟩ := areParts_fullSet hds
  obtain ⟨σ', turns, hserve, hw', _⟩ := serve_refines storePath hps hw
  have hmem : ∀ {t p : Int}, (t, p) ∈ ps.map partOf ↔
      (0 ≤ t ∧ t < fs.list.length ∧ t ∉ w.finished) ∧ p ∈ fs.offsets t := mem_map_partOf hw hperm
  have hne : ps.map partOf ≠ [] := by
    obtain ⟨t, ht, hr⟩ := hsome
    have hlt : t < fs.list.length := by rw [← hw.fileNum]; exact ht.2
    exact List.ne_nil_of_mem (hmem.2 ⟨⟨ht.1, hlt, hw.not_received.1 hr⟩, zero_mem_offsets ht.1 hlt⟩)
  obtain ⟨hopen, hcount⟩ := Collector.arrivals_progress hw.inv
    (fun q hq => ⟨(hmem.1 hq).2, (hmem.1 hq).1.2.2⟩)
    (fun q hq p hp => hmem.2 ⟨(hmem.1 hq).1, hp⟩)
    (fun t ht p hp => hmem.2 ⟨⟨(hw.begun t (.inl ht)).1, (hw.begun t (.inl ht)).2, hw.inv.disjoint t ht⟩, hp⟩) hne
  refine ⟨σ', turns, hserve, fun t hstat hr => ?_, ?_⟩
  · exact (hw'.received t).2 (hopen t (((hw.stat t).1 hstat).resolve_right (hw.not_received.1 hr)))
  · rw [hw.receivedCount_eq, hw'.receivedCount_eq]
    exact hcount

theorem count_long : (split (List.replicate 1500 'x')).length < 2 ^ 31 := by decide +kernel

/-- A file of one letter, and one of two fragments. -/
def longFile : Files where
  list := [⟨"c", "z", by simp, by simp [isspace], by simp, by simp, by decide⟩,
    ⟨"d", List.replicate 1500 'x', by simp, by simp [isspace], by simp, by simp, count_long⟩]
  count_int := by decide

/-- The first fragment of the second file has come. The full set of three datagrams comes in the wrong order, and the file
is received. -/
theorem windowed_progress_half :
    ∃ d σ turns, longFile.datagram 1 0 = some d ∧ serve "out" (start longFile.list.length) [d] = .ok (σ, turns) ∧
      σ.fStat 1 = true ∧ σ.receivedList 1 = false ∧ (longFile.fullSet σ).length = 3 ∧
      ∃ σ' turns', serve "out" σ (longFile.fullSet σ).reverse = .ok (σ', turns') ∧ σ'.receivedList 1 = true ∧
        σ.receivedCount < σ'.receivedCount := by
  obtain ⟨d, hd⟩ : ∃ d, longFile.datagram 1 0 = some d := Option.isSome_iff_exists.1 (by decide +kernel)
  have hps : longFile.AreParts [d] [(1, 0)] := .cons hd .nil
  obtain ⟨σ, turns, hserve, hw, _⟩ := serve_refines "out" hps refines_start
  have hsends : ∀ d' ∈ [d], longFile.Sends d' := by
    intro d' hd'
    rw [List.mem_singleton.1 hd']
    exact ⟨1, 0, hd⟩
  have hstat : σ.fStat 1 = true := (hw.stat 1).2 (.inl (by decide +kernel))
  have hmissing : σ.receivedList 1 = false := hw.not_received.2 (by decide +kernel)
  have hmissing' : σ.receivedList 0 = false := hw.not_received.2 (by decide +kernel)
  have hnum : σ.InTables 1 := ⟨by decide, by rw [hw.fileNum]; decide⟩
  have hboth : (List.range longFile.list.length).filter (fun (t : Nat) => !σ.receivedList t) = [0, 1] := by
    have hrange : List.range longFile.list.length = [0, 1] := by decide
    rw [hrange, List.filter_cons, List.filter_singleton]
    simp [hmissing, hmissing']
  have hall : longFile.missing σ = [(0, 0), (1, 0), (1, 1)] := by
    rw [Files.missing, hboth]
    decide +kernel
  have hset : (longFile.fullSet σ).length = 3 := by
    rw [Files.fullSet, hall]
    decide +kernel
  obtain ⟨σ', turns', hserve', hopen, hcount⟩ :=
    windowed_progress ⟨_, _, hsends, hserve⟩ ⟨1, hnum, hmissing⟩ (List.reverse_perm _)
  exact ⟨d, σ, turns, hd, hserve, hstat, hmissing, hset, σ', turns', hserve', hopen 1 hstat hmissing, hcount⟩

end IntroNP.Udp
