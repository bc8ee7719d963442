import IntroNP.Udp.Receiver

/-!
# File transfer over UDP: what is written

- `serve_refines`: the receive loop on any deliveries of the client's datagrams does not fault, and follows the
  collector;
- `transfer_integrity`: every file that is written has its own name and bytes, and is written once.
-/

namespace IntroNP.Udp

variable {fs : Files} {σ : Server} {w : Collector Int Int} {storePath : Text} {ds : List Text}

/-- A datagram that the client sends. -/
def Files.Sends (fs : Files) (d : Text) : Prop := ∃ s o, fs.datagram s o = some d

/-- The part of a datagram, as the collector names it. -/
def partOf (p : Nat × Nat) : Int × Int := (p.1, p.2)

/-- The files that are written in some turns. -/
def writes (turns : List Turn) : List Written := turns.filterMap (·.written)

/-- What is written between two states of the collector: files that become finished, each once, under its name and
with its bytes. -/
structure WritesOf (fs : Files) (storePath : Text) (w w' : Collector Int Int) (vs : List Written) : Prop where
  whole : ∀ v ∈ vs, ∃ (s : Nat) (f : File), v.seqIdx = s ∧ fs.list[s]? = some f ∧
    v.fPath = storePath ++ "/".toList ++ f.name ∧ v.cnt = f.content
  fresh : ∀ v ∈ vs, v.seqIdx ∉ w.finished ∧ v.seqIdx ∈ w'.finished
  once : (vs.map (·.seqIdx)).Nodup

theorem writesOf_nil {w' : Collector Int Int} : WritesOf fs storePath w w' [] :=
  ⟨by simp, by simp, List.nodup_nil⟩

/-- Turns follow one another. -/
theorem WritesOf.cons {s o : Nat} {turn : Turn} {turns : List Turn} {w₁ w₂ : Collector Int Int}
    (ht : TurnOf fs storePath s o w w₁ turn) (h : WritesOf fs storePath w₁ w₂ (writes turns))
    (h₁ : w.finished ⊆ w₁.finished) (h₂ : w₁.finished ⊆ w₂.finished) :
    WritesOf fs storePath w w₂ (writes (turn :: turns)) := by
  cases hv : turn.written with
  | none =>
    rw [writes, List.filterMap_cons_none hv]
    exact ⟨h.whole, fun v hv => ⟨fun hf => (h.fresh v hv).1 (h₁ hf), (h.fresh v hv).2⟩, h.once⟩
  | some v =>
    obtain ⟨hnot, hfin, hseq, f, hf, hpath, hcnt⟩ := ht.written v hv
    rw [writes, List.filterMap_cons_some hv]
    refine ⟨?_, ?_, ?_⟩
    · intro v' hv'
      rcases List.mem_cons.1 hv' with rfl | hv'
      · exact ⟨s, f, hseq, hf, hpath, hcnt⟩
      · exact h.whole v' hv'
    · intro v' hv'
      rcases List.mem_cons.1 hv' with rfl | hv'
      · rw [hseq]
        exact ⟨hnot, h₂ hfin⟩
      · exact ⟨fun hf => (h.fresh v' hv').1 (h₁ hf), (h.fresh v' hv').2⟩
    · rw [List.map_cons, List.nodup_cons]
      refine ⟨fun hmem => ?_, h.once⟩
      -- a file that is written later was not finished after this turn
      obtain ⟨v', hv', he⟩ := List.mem_map.1 hmem
      exact (h.fresh v' hv').1 (by rw [he, hseq]; exact hfin)

/-- When the loop has ended, every file is finished. -/
theorem Refines.all_finished (h : Refines fs σ w) (hi : ¬ σ.i < σ.fileNum) {t : Int} (h0 : 0 ≤ t)
    (ht : t < fs.list.length) : t ∈ w.finished := by
  have hsub : w.finished ⊆ below fs.list.length := fun t ht => mem_below.2 (h.begun t (.inr ht))
  have hcard : (below fs.list.length).card ≤ w.finished.card := by
    rw [h.counter, h.fileNum] at hi
    rw [card_below]
    omega
  rw [Finset.eq_of_subset_of_card_le hsub hcard]
  exact mem_below.2 ⟨h0, ht⟩

/-- The datagrams `ds` are those of the parts `ps`. -/
def Files.AreParts (fs : Files) (ds : List Text) (ps : List (Nat × Nat)) : Prop :=
  List.Forall₂ (fun d p => fs.datagram p.1 p.2 = some d) ds ps

theorem Files.AreParts.seq_lt {ps : List (Nat × Nat)} (h : fs.AreParts ds ps) : ∀ p ∈ ps, p.1 < fs.list.length := by
  induction h with
  | nil => simp
  | cons hd _ ih =>
    intro p hp
    rcases List.mem_cons.1 hp with rfl | hp
    · obtain ⟨f, fragment, hpart⟩ := part_of_datagram hd
      exact hpart.seq_lt
    · exact ih p hp

/-- **Any deliveries**: the receive loop does not fault, and follows the collector. -/
theorem serve_refines (storePath : Text) {ps : List (Nat × Nat)} (hps : fs.AreParts ds ps) (h : Refines fs σ w) :
    ∃ σ' turns, serve storePath σ ds = .ok (σ', turns) ∧ Refines fs σ' (w.arrivals fs.offsets 300 (ps.map partOf)) ∧
      WritesOf fs storePath w (w.arrivals fs.offsets 300 (ps.map partOf)) (writes turns) := by
  induction hps generalizing σ w with
  | nil => exact ⟨σ, [], rfl, h, writesOf_nil⟩
  | @cons d p ds ps hd hps ih =>
    unfold serve
    by_cases hi : σ.i < σ.fileNum
    · obtain ⟨σ₁, turn, hrec, h₁, hturn⟩ := receive_refines storePath h hd
      obtain ⟨σ₂, turns, hserve, h₂, hwrites⟩ := ih h₁
      rw [if_pos hi, hrec]
      dsimp only
      rw [hserve]
      have hfirst : w.finished ⊆ (w.arrive fs.offsets 300 p.1 p.2).finished := fun t ht =>
        Collector.finished_arrive ht
      have hrest : (w.arrive fs.offsets 300 p.1 p.2).finished ⊆
          ((w.arrive fs.offsets 300 p.1 p.2).arrivals fs.offsets 300 (ps.map partOf)).finished := fun t ht =>
        Collector.finished_arrivals ht
      exact ⟨σ₂, turn :: turns, rfl, h₂, hwrites.cons hturn hfirst hrest⟩
    · rw [if_neg hi]
      have hdone : w.arrivals fs.offsets 300 ((p :: ps).map partOf) = w := by
        refine Collector.arrivals_of_finished fun q hq => ?_
        obtain ⟨p', hp', rfl⟩ := List.mem_map.1 hq
        have hlt := Files.AreParts.seq_lt (.cons hd hps) p' hp'
        have h0 : (0 : Int) ≤ p'.1 := by omega
        have hN : (p'.1 : Int) < fs.list.length := by omega
        exact h.all_finished hi h0 hN
      rw [hdone]
      exact ⟨σ, [], rfl, h, writesOf_nil⟩

theorem areParts_of_sends (h : ∀ d ∈ ds, fs.Sends d) : ∃ ps, fs.AreParts ds ps := by
  induction ds with
  | nil => exact ⟨[], .nil⟩
  | cons d ds ih =>
    obtain ⟨s, o, hd⟩ := h d List.mem_cons_self
    obtain ⟨ps, hps⟩ := ih fun d' hd' => h d' (List.mem_cons_of_mem d hd')
    exact ⟨(s, o) :: ps, .cons hd hps⟩

/-- **Integrity.** For any deliveries of the client's datagrams, with losses and repetitions, in any order: the server
does not fault, every file that it writes is one of the client's, under its own name and with its own bytes, and no file
is written twice. -/
theorem transfer_integrity (fs : Files) (storePath : Text) (ds : List Text) (h : ∀ d ∈ ds, fs.Sends d) :
    ∃ σ turns, serve storePath (start fs.list.length) ds = .ok (σ, turns) ∧
      (∀ v ∈ writes turns, ∃ (s : Nat) (f : File), v.seqIdx = s ∧ fs.list[s]? = some f ∧
        v.fPath = storePath ++ "/".toList ++ f.name ∧ v.cnt = f.content) ∧
      ((writes turns).map (·.seqIdx)).Nodup := by
  obtain ⟨ps, hps⟩ := areParts_of_sends h
  obtain ⟨σ, turns, hserve, _, hwrites⟩ := serve_refines storePath hps refines_start
  exact ⟨σ, turns, hserve, hwrites.whole, hwrites.once⟩

/-- An empty file and a short one. -/
def twoFiles : Files where
  list := [⟨"a", [], by simp, by simp [isspace], by simp, by simp, by decide⟩,
    ⟨"b", "xyz", by simp, by simp [isspace], by simp, by simp, by decide⟩]
  count_int := by decide

/-- The second file comes before the first, and twice. -/
theorem transfer_integrity_twice :
    let ds : List Text := ["<1 1 0 3 b >xyz", "<1 1 0 3 b >xyz", "<0 1 0 0 a >"]
    (serve "out" (start twoFiles.list.length) ds).toOption.map (fun r => writes r.2) =
        some [⟨1, "out/b", "xyz"⟩, ⟨0, "out/a", []⟩] ∧
      ∃ σ turns, serve "out" (start twoFiles.list.length) ds = .ok (σ, turns) ∧
        (∀ v ∈ writes turns, ∃ (s : Nat) (f : File), v.seqIdx = s ∧ twoFiles.list[s]? = some f ∧
          v.fPath = "out".toList ++ "/".toList ++ f.name ∧ v.cnt = f.content) ∧
        ((writes turns).map (·.seqIdx)).Nodup := by
  intro ds
  have hsends : ∀ d ∈ ds, twoFiles.Sends d := by
    intro d hd
    simp only [ds, List.mem_cons, List.not_mem_nil, or_false] at hd
    rcases hd with rfl | rfl | rfl
    · exact ⟨1, 0, by decide +kernel⟩
    · exact ⟨1, 0, by decide +kernel⟩
    · exact ⟨0, 0, by decide +kernel⟩
  exact ⟨by decide +kernel, transfer_integrity twoFiles "out" ds hsends⟩

end IntroNP.Udp
