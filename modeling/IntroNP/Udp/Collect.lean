import IntroNP.Lib.Collector
import IntroNP.Udp.Tables
import Mathlib.Data.Finset.Image

/-!
# File transfer over UDP: the tables follow a collector

`Keeps count fileNum σ w` says that the tables of the server are those of the collector `w`, in which the file `s` has
`count s` parts: the recorded offsets are the parts there are, an open file is one that is being worked on and has a
slot for every part, `f_count` and `i` count the open and the received files.

- `Keeps.tables`: such tables are in order;
- `Keeps.makeSlots`, `Keeps.setSlot`, `Keeps.record`: each operation of a turn is one of the collector, or none.
-/

namespace IntroNP.Udp

variable {count : Int → Int} {fileNum : Int} {σ : Server} {w : Collector Int Int} {s n off t p : Int} {d fcnt : Text}

/-! ## Indices -/

/-- The indices of a table of size `n`. -/
def below (n : Nat) : Finset Int := (Finset.range n).image fun (k : Nat) => (k : Int)

theorem mem_below {n : Nat} : p ∈ below n ↔ 0 ≤ p ∧ p < n := by
  simp only [below, Finset.mem_image, Finset.mem_range]
  constructor
  · rintro ⟨k, hk, rfl⟩
    omega
  · rintro ⟨h0, hn⟩
    exact ⟨p.toNat, by omega, Int.toNat_of_nonneg h0⟩

theorem card_below (n : Nat) : (below n).card = n := by
  have hinj : Function.Injective fun (k : Nat) => (k : Int) := fun _ _ h => Int.ofNat.inj h
  rw [below, Finset.card_image_of_injective _ hinj, Finset.card_range]

/-- The offsets of a file. -/
def parts (count : Int → Int) (s : Int) : Finset Int := below (count s).toNat

theorem mem_parts : off ∈ parts count s ↔ 0 ≤ off ∧ off < count s := by
  rw [parts, mem_below]
  omega

/-- A datagram of a client that has `fileNum` files, the file `s` in `count s` parts. -/
structure WellFormed (count : Int → Int) (fileNum : Int) (d : Text) : Prop where
  file : 0 ≤ (headerOf d).seqNum ∧ (headerOf d).seqNum < fileNum
  parts : (headerOf d).numPacket = some (count (headerOf d).seqNum)
  offset : ∃ off ∈ (headerOf d).off, 0 ≤ off ∧ off < count (headerOf d).seqNum
  size : (headerOf d).fragSize ≠ none

/-- The number of parts of a file is an `int`. -/
theorem WellFormed.int (hd : WellFormed count fileNum d) : count (headerOf d).seqNum < 2 ^ 31 :=
  (IStream.readInt_int hd.parts).2

theorem WellFormed.count_pos (hd : WellFormed count fileNum d) : 0 < count (headerOf d).seqNum := by
  obtain ⟨_, _, hlt⟩ := hd.offset
  omega

theorem WellFormed.mem_below (hd : WellFormed count fileNum d) : (headerOf d).seqNum ∈ below fileNum.toNat := by
  have hfile := hd.file
  rw [Udp.mem_below]
  omega

/-! ## The relation -/

/-- The tables hold what the collector has collected. -/
structure Keeps (count : Int → Int) (fileNum : Int) (σ : Server) (w : Collector Int Int) : Prop where
  inv : w.Inv (parts count) 300
  files : σ.fileNum = fileNum
  recorded : σ.recordList = w.got
  received : ∀ t, σ.receivedList t = true ↔ t ∈ w.finished
  stat : ∀ t, σ.fStat t = true ↔ t ∈ w.opened ∨ t ∈ w.finished
  card : σ.fCount = w.opened.card
  counter : σ.i = w.finished.card
  length : ∀ t ∈ w.opened, ((σ.fcntList t).length : Int) = count t
  closed : ∀ t, t ∉ w.opened → σ.fcntList t = []
  begun : ∀ t, t ∈ w.opened ∨ t ∈ w.finished → t ∈ below fileNum.toNat

theorem keeps_start : Keeps count fileNum (start fileNum) .empty where
  inv := Collector.inv_empty
  files := rfl
  recorded := rfl
  received := by simp [start, Collector.empty]
  stat := by simp [start, Collector.empty]
  card := rfl
  counter := rfl
  length := by simp [Collector.empty]
  closed _ _ := rfl
  begun := by simp [Collector.empty]

theorem Keeps.not_received (h : Keeps count fileNum σ w) : σ.receivedList t = false ↔ t ∉ w.finished := by
  rw [← h.received, Bool.not_eq_true]

/-- A file that is being worked on has a part. -/
theorem Keeps.count_pos (h : Keeps count fileNum σ w) (ht : t ∈ w.opened) : 0 < count t := by
  by_contra hle
  refine h.inv.opened_ne t ht ((h.inv.sub t).antisymm fun p hp => ?_)
  rw [mem_parts] at hp
  omega

/-- The files that have slots are those that are being worked on. -/
theorem Keeps.slots_iff (h : Keeps count fileNum σ w) : σ.fcntList t ≠ [] ↔ t ∈ w.opened := by
  constructor
  · intro hne
    by_contra hno
    exact hne (h.closed t hno)
  · intro ht he
    have hlen := h.length t ht
    have hpos := h.count_pos ht
    rw [he, List.length_nil] at hlen
    omega

theorem Keeps.tables (h : Keeps count fileNum σ w) : Tables σ where
  stat t hne := (h.stat t).2 (.inl (h.slots_iff.1 hne))
  recorded t hrec o ho := by
    rw [h.recorded] at ho
    by_cases ht : t ∈ w.opened
    · have hlen := h.length t ht
      have hmem := mem_parts.1 (h.inv.sub t ho)
      omega
    · rw [h.inv.untouched t ht (h.not_received.1 hrec)] at ho
      exact absurd ho (Finset.notMem_empty o)

/-! ## The parts of a turn -/

theorem Keeps.setPacket (h : Keeps count fileNum σ w) : Keeps count fileNum (σ.setPacket s n) w := { h with }

/-- A file that is let in is being worked on. -/
theorem Keeps.makeSlots (h : Keeps count fileNum σ w) (hs : s ∈ below fileNum.toNat) (hpos : 0 < count s)
    (hnot : s ∉ w.finished) (hadm : s ∈ w.opened ∨ w.opened.card ≤ 300) :
    Keeps count fileNum (σ.makeSlots s (count s)) (w.letIn s) := by
  have hne : (parts count s).Nonempty := ⟨0, mem_parts.2 ⟨le_rfl, hpos⟩⟩
  have hinv := h.inv.letIn hnot hadm hne
  have hother : ∀ {t}, t ∈ insert s w.opened → t ≠ s → t ∈ w.opened := fun ht hts =>
    (Finset.mem_insert.1 ht).resolve_left hts
  unfold Server.makeSlots
  unfold Collector.letIn at hinv ⊢
  constructor
  · exact hinv
  · exact h.files
  · exact h.recorded
  · exact h.received
  · intro t
    dsimp only
    by_cases hts : t = s
    · subst hts
      simp
    · rw [Function.update_of_ne hts, h.stat, Finset.mem_insert]
      simp only [hts, false_or]
  · dsimp only
    by_cases ho : s ∈ w.opened
    · rw [if_neg (h.slots_iff.2 ho), Finset.insert_eq_of_mem ho, h.card]
    · rw [if_pos (h.closed s ho), Finset.card_insert_of_notMem ho, h.card]
      rfl
  · exact h.counter
  · intro t ht
    dsimp only
    by_cases hts : t = s
    · subst hts
      rw [Function.update_self]
      unfold Server.slotsFor
      split
      · rw [List.length_replicate]
        omega
      · rename_i hslots
        exact h.length t (h.slots_iff.1 hslots)
    · rw [Function.update_of_ne hts, h.length t (hother ht hts)]
  · intro t ht
    rw [Finset.mem_insert, not_or] at ht
    dsimp only
    rw [Function.update_of_ne ht.1, h.closed t ht.2]
  · intro t ht
    by_cases hts : t = s
    · rw [hts]
      exact hs
    · exact h.begun t (ht.imp_left fun ht => hother ht hts)

theorem Keeps.setSlot (h : Keeps count fileNum σ w) (hs : s ∈ w.opened) :
    Keeps count fileNum (σ.setSlot s off fcnt) w := by
  refine { h with length := fun t ht => ?_, closed := fun t ht => ?_ }
  · by_cases hts : t = s
    · subst hts
      rw [setSlot_length, h.length t ht]
    · unfold Server.setSlot
      dsimp only
      rw [Function.update_of_ne hts, h.length t ht]
  · have hts : t ≠ s := fun e => ht (e ▸ hs)
    unfold Server.setSlot
    dsimp only
    rw [Function.update_of_ne hts, h.closed t ht]

/-- `decompose` of a part of a file that is let in. -/
theorem Keeps.putPart (h : Keeps count fileNum σ w) (hs : s ∈ below fileNum.toNat) (hpos : 0 < count s)
    (hnot : s ∉ w.finished) (hadm : s ∈ w.opened ∨ w.opened.card ≤ 300) :
    Keeps count fileNum (σ.putPart s (count s) off fcnt) (w.letIn s) :=
  (h.setPacket.makeSlots hs hpos hnot hadm).setSlot (Finset.mem_insert_self _ _)

/-- The offsets that are recorded are as many as the file has when they are all of them. -/
theorem Keeps.last_iff (h : Keeps count fileNum σ w) (hs : s ∈ w.opened) (hpacket : σ.packetList s = count s)
    (hint : count s < 2 ^ 31) (hoff : off ∈ parts count s) :
    (σ.addOffset s off).Last s ↔ insert off (w.got s) = parts count s := by
  have hpos := h.count_pos hs
  have hsub : insert off (w.got s) ⊆ parts count s := Finset.insert_subset hoff (h.inv.sub s)
  have hsize : toSize (count s) = count s := Int.emod_eq_of_lt (by omega) (by omega)
  have hcard : (parts count s).card = (count s).toNat := card_below _
  have hrec : σ.receivedList s = false := h.not_received.2 (h.inv.disjoint s hs)
  unfold Server.Last Server.addOffset
  dsimp only
  rw [Function.update_self, h.recorded, hpacket, hsize, hrec, and_iff_left rfl]
  constructor
  · intro he
    exact Finset.eq_of_subset_of_card_le hsub (by omega)
  · intro he
    rw [he, hcard]
    omega

/-- A part is recorded that is not the last one. -/
theorem Keeps.addOffset (h : Keeps count fileNum σ w)
    (hinv : Collector.Inv (parts count) 300
      ⟨w.opened, w.finished, Function.update w.got s (insert off (w.got s))⟩) :
    Keeps count fileNum (σ.addOffset s off) ⟨w.opened, w.finished, Function.update w.got s (insert off (w.got s))⟩ := by
  refine { h with inv := hinv, recorded := ?_ }
  unfold Server.addOffset
  rw [h.recorded]

/-- The last part is recorded, and the file is written. -/
theorem Keeps.complete (h : Keeps count fileNum σ w) (hs : s ∈ w.opened)
    (hinv : Collector.Inv (parts count) 300
      ⟨w.opened.erase s, insert s w.finished, Function.update w.got s (insert off (w.got s))⟩) :
    Keeps count fileNum ((σ.addOffset s off).complete s)
      ⟨w.opened.erase s, insert s w.finished, Function.update w.got s (insert off (w.got s))⟩ := by
  have hnot := h.inv.disjoint s hs
  unfold Server.complete mergePackets Server.addOffset
  constructor
  · exact hinv
  · exact h.files
  · dsimp only
    rw [h.recorded]
  · intro t
    dsimp only
    by_cases hts : t = s
    · subst hts
      simp
    · rw [Function.update_of_ne hts, h.received, Finset.mem_insert]
      simp only [hts, false_or]
  · intro t
    dsimp only
    rw [h.stat, Finset.mem_insert, Finset.mem_erase]
    by_cases hts : t = s
    · subst hts
      simp [hs]
    · simp only [hts, ne_eq, not_false_eq_true, true_and, false_or]
  · dsimp only
    have hpos : 0 < w.opened.card := Finset.card_pos.2 ⟨_, hs⟩
    rw [Finset.card_erase_of_mem hs, h.card]
    omega
  · dsimp only
    rw [Finset.card_insert_of_notMem hnot, h.counter]
    rfl
  · intro t ht
    obtain ⟨hts, ht⟩ := Finset.mem_erase.1 ht
    dsimp only
    rw [Function.update_of_ne hts, h.length t ht]
  · intro t ht
    dsimp only
    by_cases hts : t = s
    · subst hts
      exact Function.update_self ..
    · rw [Function.update_of_ne hts]
      exact h.closed t fun hto => ht (Finset.mem_erase.2 ⟨hts, hto⟩)
  · intro t ht
    by_cases hts : t = s
    · exact hts ▸ h.begun s (.inl hs)
    · exact h.begun t (ht.imp (fun ht => (Finset.mem_erase.1 ht).2) fun ht =>
        (Finset.mem_insert.1 ht).resolve_left hts)

/-- **The end of a turn** is the arrival of the part. -/
theorem Keeps.record (storePath fCnt fName : Text) (h : Keeps count fileNum σ w) (hs : s ∈ w.opened)
    (hpacket : σ.packetList s = count s) (hint : count s < 2 ^ 31) (hoff : off ∈ parts count s) :
    Keeps count fileNum (record storePath σ s off fCnt fName).1 (w.arrive (parts count) 300 s off) := by
  have hinv := h.inv.arrive hoff
  have hlast := h.last_iff hs hpacket hint hoff
  rcases Collector.arrive_cases (parts count) 300 w s off with
    ⟨hf, _⟩ | ⟨_, hno, _, _⟩ | ⟨_, _, hall, he⟩ | ⟨_, _, hall, he⟩
  · exact absurd hf (h.inv.disjoint s hs)
  · exact absurd hs hno
  · rw [he] at hinv ⊢
    rw [record_last (hlast.2 hall)]
    exact h.complete hs hinv
  · rw [he, Finset.insert_eq_of_mem hs] at hinv ⊢
    rw [record_part fun hl => hall (hlast.1 hl)]
    exact h.addOffset hinv

/-! ## A turn -/

/-- The header of a datagram of a client is safe. -/
theorem Keeps.safe (h : Keeps count fileNum σ w) (hd : WellFormed count fileNum d) : σ.Safe (headerOf d) := by
  obtain ⟨off, hoff, hlt⟩ := hd.offset
  refine ⟨_, hd.parts, ⟨hd.file.1, by rw [h.files]; exact hd.file.2⟩, .inr (.inr ⟨off, hoff, ⟨hlt.1, ?_⟩, hd.size⟩)⟩
  unfold Server.slotsFor
  split
  · rw [List.length_replicate]
    omega
  · rename_i hslots
    have hlen := h.length _ (h.slots_iff.1 hslots)
    omega

/-- The server refuses a part as the collector does. -/
theorem Keeps.refuses_iff (h : Keeps count fileNum σ w) :
    σ.Refuses s ↔ s ∈ w.finished ∨ (s ∉ w.opened ∧ 300 < w.opened.card) := by
  have hcard := h.card
  unfold Server.Refuses
  rw [h.received]
  by_cases hf : s ∈ w.finished
  · exact iff_of_true (.inl hf) (.inl hf)
  have hstat : σ.fStat s = false ↔ s ∉ w.opened := by
    rw [← Bool.not_eq_true, h.stat, or_iff_left hf]
  rw [hstat]
  exact or_congr_right (and_congr_right fun _ => by omega)

/-- A part that is refused changes nothing in the collector. -/
theorem Keeps.arrive_refused (h : Keeps count fileNum σ w) (hr : σ.Refuses s) :
    w.arrive (parts count) 300 s off = w := by
  unfold Collector.arrive
  by_cases hf : s ∈ w.finished
  · exact if_pos hf
  · rw [if_neg hf, if_pos ((h.refuses_iff.1 hr).resolve_left hf)]

/-- A part that is not refused is one of a file that can be let in. -/
theorem Keeps.admits (h : Keeps count fileNum σ w) (hr : ¬ σ.Refuses s) :
    s ∉ w.finished ∧ (s ∈ w.opened ∨ w.opened.card ≤ 300) := by
  rw [h.refuses_iff, not_or, not_and] at hr
  refine ⟨hr.1, ?_⟩
  by_cases hs : s ∈ w.opened
  · exact .inl hs
  · exact .inr (not_lt.1 (hr.2 hs))

/-- **A turn** on a datagram of a client: the part is refused, or put into its slot and looked at again. -/
theorem Keeps.receive_cases (storePath : Text) (h : Keeps count fileNum σ w) (hd : WellFormed count fileNum d)
    (hs : (headerOf d).seqNum = s) :
    (σ.Refuses s ∧ receive storePath σ d = .ok (σ.setPacket s (count s), .skip)) ∨
      (¬ σ.Refuses s ∧ ∃ off ∈ (headerOf d).off, ∃ size ∈ (headerOf d).fragSize, ∃ fCnt, off ∈ parts count s ∧
        slot ((σ.putPart s (count s) off (headerOf d).fcnt).fcntList s) off = some fCnt ∧
        receive storePath σ d = .ok (finish storePath (σ.putPart s (count s) off (headerOf d).fcnt) s off size fCnt
          (headerOf d).fileName)) := by
  subst hs
  obtain ⟨off, hoff, hlt⟩ := hd.offset
  have hcases := Udp.receive_cases storePath d h.tables
  generalize receive storePath σ d = r at hcases ⊢
  cases hcases with
  | nothing hnil =>
    rw [hnil] at hoff
    cases hoff
  | undefined _ hsafe _ => exact absurd (h.safe hd) hsafe
  | oversized _ hn _ hover =>
    obtain rfl := Option.some.inj (hn.symm.trans hd.parts)
    have hneg := hover.2
    omega
  | refused _ hn _ hrefuse =>
    obtain rfl := Option.some.inj (hn.symm.trans hd.parts)
    exact .inl ⟨hrefuse, rfl⟩
  | @part _ off' size fCnt _ hn _ hrefuse _ hoff' hsize _ hcnt =>
    obtain rfl := Option.some.inj (hn.symm.trans hd.parts)
    obtain rfl := Option.some.inj (hoff.symm.trans hoff')
    exact .inr ⟨hrefuse, off, hoff, size, hsize, fCnt, mem_parts.2 hlt, hcnt, rfl⟩

end IntroNP.Udp
