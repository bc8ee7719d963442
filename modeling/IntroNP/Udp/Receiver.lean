import IntroNP.Udp.Collect
import IntroNP.Udp.Datagram

/-!
# File transfer over UDP: the receiver is a collector

`Refines fs σ w` says that the five tables of the server hold what the collector `w` has collected of the files `fs`:
the recorded offsets are the parts there are, an open file is one that is being worked on and its slots hold its true
fragments at the recorded offsets, `f_count` and `i` count the open and the received files.

`receive_refines`: on a datagram of the client the receive loop does not fault, and takes one step of the collector. A
datagram is acknowledged when its part is there, and a file is written when it becomes finished (`TurnOf`).
-/

namespace IntroNP.Udp

variable {fs : Files} {σ : Server} {w : Collector Int Int} {s o : Nat} {t p : Int} {d storePath fragment : Text}
  {f : File}

/-! ## The parts of the files -/

/-- The fragments of a file. -/
def Files.fragments (fs : Files) (t : Int) : List Text :=
  if t < 0 then []
  else
    match fs.list[t.toNat]? with
    | some f => split f.content
    | none => []

/-- The offsets of a file. -/
def Files.offsets (fs : Files) (t : Int) : Finset Int := below (fs.fragments t).length

theorem mem_offsets : p ∈ fs.offsets t ↔ 0 ≤ p ∧ p < (fs.fragments t).length := mem_below

/-- The number of parts of a file. -/
def Files.count (fs : Files) (t : Int) : Int := (fs.fragments t).length

/-- `d` is the datagram of fragment `o` of the file `f`, which has number `s`. -/
structure Part (fs : Files) (s o : Nat) (f : File) (fragment d : Text) : Prop where
  file : fs.list[s]? = some f
  part : (split f.content)[o]? = some fragment
  data : d = message s (split f.content).length o f.name fragment

theorem part_of_datagram (h : fs.datagram s o = some d) : ∃ f fragment, Part fs s o f fragment d := by
  unfold Files.datagram at h
  split at h
  · cases h
  · rename_i f hf
    obtain ⟨fragment, hfrag, rfl⟩ := Option.map_eq_some_iff.1 h
    exact ⟨f, fragment, hf, hfrag, rfl⟩

theorem fragments_eq (hf : fs.list[s]? = some f) : fs.fragments s = split f.content := by
  unfold Files.fragments
  rw [if_neg (by omega), Int.toNat_natCast, hf]

theorem slot_natCast (slots : List Text) (o : Nat) : slot slots o = slots[o]? := by
  unfold slot
  rw [if_neg (by omega), Int.toNat_natCast]

namespace Part

variable (h : Part fs s o f fragment d)

include h

theorem seq_lt : s < fs.list.length := (List.getElem?_eq_some_iff.1 h.file).1

theorem offset_lt : o < (split f.content).length := (List.getElem?_eq_some_iff.1 h.part).1

theorem fragments : fs.fragments s = split f.content := fragments_eq h.file

theorem mem_offsets : (o : Int) ∈ fs.offsets s := by
  have ho := h.offset_lt
  rw [Udp.mem_offsets, h.fragments]
  omega

theorem count : fs.count s = (split f.content).length := congrArg (fun l => (List.length l : Int)) h.fragments

theorem slot_eq : slot (fs.fragments s) o = some fragment := by rw [h.fragments, slot_natCast, h.part]

theorem fragment_le : fragment.length ≤ 1000 := split_le _ _ (List.mem_of_getElem? h.part)

theorem header : parse d.tail =
    ⟨s, some (split f.content).length, some o, some fragment.length, f.name, fragment⟩ := by
  have hs := h.seq_lt
  have hn := f.count_int
  have ho := h.offset_lt
  have hcount := fs.count_int
  have hsize : fragment.length < 2 ^ 31 := h.fragment_le.trans_lt (by decide)
  rw [h.data]
  exact parse_message (by omega) hn (by omega) hsize f.name_ne f.name_word f.name_angle

theorem take : d.take 10000 = d := by
  have hs := h.seq_lt
  have hn := f.count_int
  have ho := h.offset_lt
  have hcount := fs.count_int
  rw [h.data]
  exact List.take_of_length_le (message_length (by omega) hn (by omega) h.fragment_le f.name_short)

theorem headerOf : headerOf d =
    ⟨s, some (split f.content).length, some o, some fragment.length, f.name, fragment⟩ := by
  unfold Udp.headerOf
  rw [h.take, h.header]

theorem wellFormed : WellFormed fs.count fs.list.length d := by
  have hseq := h.seq_lt
  have ho := h.offset_lt
  constructor
  · rw [h.headerOf]
    dsimp only
    omega
  · rw [h.headerOf]
    dsimp only
    rw [h.count]
  · rw [h.headerOf]
    dsimp only
    rw [h.count]
    exact ⟨o, rfl, by omega⟩
  · rw [h.headerOf]
    exact Option.some_ne_none _

end Part

/-! ## The relation -/

/-- The tables of the server hold what the collector has collected. -/
structure Refines (fs : Files) (σ : Server) (w : Collector Int Int) : Prop where
  inv : w.Inv fs.offsets 300
  fileNum : σ.fileNum = fs.list.length
  recorded : σ.recordList = w.got
  received : ∀ t, σ.receivedList t = true ↔ t ∈ w.finished
  stat : ∀ t, σ.fStat t = true ↔ t ∈ w.opened ∨ t ∈ w.finished
  count : σ.fCount = w.opened.card
  counter : σ.i = w.finished.card
  packets : ∀ t ∈ w.opened, σ.packetList t = (fs.fragments t).length
  size : ∀ t ∈ w.opened, (σ.fcntList t).length = (fs.fragments t).length
  slots : ∀ t ∈ w.opened, ∀ p ∈ w.got t, slot (σ.fcntList t) p = slot (fs.fragments t) p
  closed : ∀ t, t ∉ w.opened → σ.fcntList t = []
  begun : ∀ t, t ∈ w.opened ∨ t ∈ w.finished → 0 ≤ t ∧ t < fs.list.length

theorem refines_start : Refines fs (start fs.list.length) .empty where
  inv := Collector.inv_empty
  fileNum := rfl
  recorded := rfl
  received := by simp [start, Collector.empty]
  stat := by simp [start, Collector.empty]
  count := rfl
  counter := rfl
  packets := by simp [Collector.empty]
  size := by simp [Collector.empty]
  slots := by simp [Collector.empty]
  closed _ _ := rfl
  begun := by simp [Collector.empty]

theorem Refines.not_received (h : Refines fs σ w) : σ.receivedList t = false ↔ t ∉ w.finished := by
  rw [← h.received, Bool.not_eq_true]

/-- What the tables are without their texts. -/
theorem Refines.keeps (h : Refines fs σ w) : Keeps fs.count fs.list.length σ w where
  inv := h.inv
  files := h.fileNum
  recorded := h.recorded
  received := h.received
  stat := h.stat
  card := h.count
  counter := h.counter
  length t ht := congrArg Nat.cast (h.size t ht)
  closed := h.closed
  begun t ht := by
    have hrange := h.begun t ht
    rw [mem_below]
    omega

/-- The tables are those of the collector when the texts are there too. -/
theorem Keeps.refines (h : Keeps fs.count fs.list.length σ w)
    (hpackets : ∀ t ∈ w.opened, σ.packetList t = (fs.fragments t).length)
    (hslots : ∀ t ∈ w.opened, ∀ p ∈ w.got t, slot (σ.fcntList t) p = slot (fs.fragments t) p) : Refines fs σ w where
  inv := h.inv
  fileNum := h.files
  recorded := h.recorded
  received := h.received
  stat := h.stat
  count := h.card
  counter := h.counter
  packets := hpackets
  size t ht := Int.ofNat.inj (h.length t ht)
  slots := hslots
  closed := h.closed
  begun t ht := by
    have hrange := h.begun t ht
    rw [mem_below] at hrange
    omega

/-! ## The parts of a turn -/

/-- `packet_list[seq_num] = num_packet`. -/
theorem Refines.setPacket (h : Refines fs σ w) (hf : fs.list[s]? = some f) :
    Refines fs (σ.setPacket s (split f.content).length) w := by
  refine h.keeps.setPacket.refines (fun t ht => ?_) h.slots
  unfold Server.setPacket
  dsimp only
  by_cases hts : t = s
  · subst hts
    rw [Function.update_self, fragments_eq hf]
  · rw [Function.update_of_ne hts, h.packets t ht]

/-- A file that is let in is being worked on. -/
theorem Refines.makeSlots (h : Refines fs σ w) (hp : Part fs s o f fragment d)
    (hpacket : σ.packetList s = (split f.content).length) (hnot : (s : Int) ∉ w.finished)
    (hadm : (s : Int) ∈ w.opened ∨ w.opened.card ≤ 300) :
    Refines fs (σ.makeSlots s (fs.count s)) (w.letIn s) := by
  have hmem : (s : Int) ∈ below (fs.list.length : Int).toNat := by
    have hseq := hp.seq_lt
    rw [mem_below]
    omega
  have hpos : 0 < fs.count s := by
    have hoff : (o : Int) ∈ parts fs.count s := hp.mem_offsets
    have hlt := mem_parts.1 hoff
    omega
  refine (h.keeps.makeSlots hmem hpos hnot hadm).refines (fun t ht => ?_) fun t ht q hq => ?_
  · by_cases hts : t = s
    · subst hts
      rw [hp.fragments]
      exact hpacket
    · exact h.packets t ((Finset.mem_insert.1 ht).resolve_left hts)
  · by_cases hts : t = s
    · subst hts
      by_cases hs : (s : Int) ∈ w.opened
      · have hslots : σ.slotsFor s (fs.count s) = σ.fcntList s := if_neg (h.keeps.slots_iff.2 hs)
        rw [makeSlots_slots, hslots, h.slots s hs q hq]
      · -- nothing of a new file is there
        have hgot : q ∈ w.got s := hq
        rw [h.inv.untouched s hs hnot] at hgot
        exact absurd hgot (Finset.notMem_empty q)
    · unfold Server.makeSlots
      dsimp only
      rw [Function.update_of_ne hts, h.slots t ((Finset.mem_insert.1 ht).resolve_left hts) q hq]

/-- The slot of a part that is there, or has just come, holds the true fragment. -/
theorem Refines.setSlot (h : Refines fs σ w) (hp : Part fs s o f fragment d) (hs : (s : Int) ∈ w.opened) :
    Refines fs (σ.setSlot s o fragment) w ∧ slot ((σ.setSlot s o fragment).fcntList s) o = some fragment := by
  have hsize := h.size s hs
  have hlt := hp.offset_lt
  rw [hp.fragments] at hsize
  refine ⟨h.keeps.setSlot hs |>.refines h.packets fun t ht q hq => ?_, ?_⟩
  · unfold Server.setSlot
    dsimp only
    by_cases hts : t = s
    · subst hts
      rw [Function.update_self]
      split
      · exact h.slots _ hs q hq
      · rename_i ho
        -- the new part is not one that was recorded
        have hqo : q ≠ o := fun e => ho (by rw [h.recorded]; exact e ▸ hq)
        have hq0 := (Udp.mem_offsets.1 (h.inv.sub _ hq)).1
        rw [← h.slots _ hs q hq]
        unfold slot
        rw [if_neg (by omega), if_neg (by omega), List.getElem?_set_ne (by omega)]
    · rw [Function.update_of_ne hts, h.slots t ht q hq]
  · unfold Server.setSlot
    dsimp only
    rw [Function.update_self]
    split
    · rename_i ho
      rw [h.recorded] at ho
      rw [h.slots s hs o ho, hp.slot_eq]
    · rw [slot_natCast, Int.toNat_natCast, List.getElem?_set_self (by omega)]

/-- `decompose` of a part of a file that is let in. -/
theorem Refines.putPart (h : Refines fs σ w) (hp : Part fs s o f fragment d) (hnot : (s : Int) ∉ w.finished)
    (hadm : (s : Int) ∈ w.opened ∨ w.opened.card ≤ 300) :
    Refines fs (σ.putPart s (fs.count s) o fragment) (w.letIn s) ∧
      slot ((σ.putPart s (fs.count s) o fragment).fcntList s) o = some fragment := by
  have hcount := hp.count
  have hpacket : (σ.setPacket s (fs.count s)).packetList s = (split f.content).length := by
    rw [hcount]
    exact Function.update_self ..
  have h₁ : Refines fs (σ.setPacket s (fs.count s)) w := by
    rw [hcount]
    exact h.setPacket hp.file
  exact (h₁.makeSlots hp hpacket hnot hadm).setSlot hp (Finset.mem_insert_self _ _)

/-! ## A turn of the loop -/

/-- What a turn on a datagram of part `o` of file `s` does for the outside, when it takes `w` to `w'`: the part is
acknowledged only when it is there, with its true content in the slot; the file is written only when it becomes
finished, under its name and with its content. -/
structure TurnOf (fs : Files) (storePath : Text) (s o : Nat) (w w' : Collector Int Int) (turn : Turn) : Prop where
  ack : ∀ a, turn.ack = some a → a.seqIdx = s ∧ a.offset = o ∧ (o : Int) ∈ w'.got s ∧
    slot (fs.fragments s) o = some a.fCnt
  written : ∀ v, turn.written = some v → (s : Int) ∉ w.finished ∧ (s : Int) ∈ w'.finished ∧ v.seqIdx = s ∧
    ∃ f, fs.list[s]? = some f ∧ v.fPath = storePath ++ "/".toList ++ f.name ∧ v.cnt = f.content

theorem turnOf_skip {w' : Collector Int Int} : TurnOf fs storePath s o w w' .skip where
  ack _ h := by cases h
  written _ h := by cases h

/-- Slots that hold all the parts are the fragments. -/
theorem Refines.slots_all (h : Refines fs σ w) (hp : Part fs s o f fragment d) (hs : (s : Int) ∈ w.opened)
    (hslot : slot (σ.fcntList s) o = some fragment) (hall : insert (o : Int) (w.got s) = fs.offsets s) :
    σ.fcntList s = split f.content := by
  have hsize := h.size s hs
  rw [hp.fragments] at hsize
  apply List.ext_getElem?
  intro k
  by_cases hk : k < (split f.content).length
  · have hmem : (k : Int) ∈ insert (o : Int) (w.got s) := by
      rw [hall, Udp.mem_offsets, hp.fragments]
      omega
    rw [← slot_natCast, ← slot_natCast]
    rcases Finset.mem_insert.1 hmem with he | hgot
    · rw [he, hslot, ← hp.fragments, hp.slot_eq]
    · rw [h.slots s hs k hgot, hp.fragments]
  · rw [List.getElem?_eq_none (by omega), List.getElem?_eq_none (by omega)]

/-- The last part of a file is recorded when all of its offsets are. -/
theorem Refines.last_iff (h : Refines fs σ w) (hp : Part fs s o f fragment d) (hs : (s : Int) ∈ w.opened) :
    (σ.addOffset s o).Last s ↔ insert (o : Int) (w.got s) = fs.offsets s := by
  have hint := f.count_int
  have hcount := hp.count
  exact h.keeps.last_iff hs (h.packets s hs) (by omega) hp.mem_offsets

/-- The end of a turn is the arrival of the part. -/
theorem Refines.record (storePath : Text) (h : Refines fs σ w) (hp : Part fs s o f fragment d)
    (hs : (s : Int) ∈ w.opened) (hslot : slot (σ.fcntList s) o = some fragment) :
    Refines fs (record storePath σ s o fragment f.name).1 (w.arrive fs.offsets 300 s o) := by
  have hint := f.count_int
  have hcount := hp.count
  have hkeeps : Keeps fs.count fs.list.length (Udp.record storePath σ s o fragment f.name).1
      (w.arrive fs.offsets 300 s o) :=
    h.keeps.record storePath fragment f.name hs (h.packets s hs) (by omega) hp.mem_offsets
  rcases Collector.arrive_cases fs.offsets 300 w s o with
    ⟨hf, _⟩ | ⟨_, hno, _, _⟩ | ⟨_, _, hall, he⟩ | ⟨_, _, hall, he⟩
  · exact absurd hf (h.inv.disjoint s hs)
  · exact absurd hs hno
  · -- the last part: the slots of the other files stay
    rw [he, record_last ((h.last_iff hp hs).2 hall)] at hkeeps ⊢
    refine hkeeps.refines (fun t ht => h.packets t (Finset.mem_erase.1 ht).2) fun t ht q hq => ?_
    obtain ⟨hts, ht⟩ := Finset.mem_erase.1 ht
    unfold Server.complete mergePackets Server.addOffset
    dsimp only at hq ⊢
    rw [Function.update_of_ne hts] at hq
    rw [Function.update_of_ne hts, h.slots t ht q hq]
  · rw [he, record_part fun hl => hall ((h.last_iff hp hs).1 hl), Finset.insert_eq_of_mem hs] at hkeeps ⊢
    refine hkeeps.refines h.packets fun t ht q hq => ?_
    dsimp only [Server.addOffset] at hq ⊢
    by_cases hts : t = s
    · subst hts
      rw [Function.update_self] at hq
      rcases Finset.mem_insert.1 hq with rfl | hq
      · rw [hslot, hp.slot_eq]
      · exact h.slots _ ht q hq
    · rw [Function.update_of_ne hts] at hq
      exact h.slots t ht q hq

/-- What it does for the outside. -/
theorem Refines.turnOf (storePath : Text) (h : Refines fs σ w) (hp : Part fs s o f fragment d)
    (hs : (s : Int) ∈ w.opened) (hslot : slot (σ.fcntList s) o = some fragment) :
    TurnOf fs storePath s o w (w.arrive fs.offsets 300 s o) (Udp.record storePath σ s o fragment f.name).2 := by
  have hnot := h.inv.disjoint s hs
  have hgot : (o : Int) ∈ (w.arrive fs.offsets 300 s o).got s :=
    (Collector.taken_arrive h.inv hp.mem_offsets (.inl hs)).1
  have hack : ∀ a, some (⟨s, o, fragment⟩ : Ack) = some a → a.seqIdx = s ∧ a.offset = o ∧
      (o : Int) ∈ (w.arrive fs.offsets 300 s o).got s ∧ slot (fs.fragments s) o = some a.fCnt := by
    intro a ha
    cases ha
    exact ⟨rfl, rfl, hgot, hp.slot_eq⟩
  by_cases hall : insert (o : Int) (w.got s) = fs.offsets s
  · have harrive : (s : Int) ∈ (w.arrive fs.offsets 300 s o).finished := by
      unfold Collector.arrive
      rw [if_neg hnot, if_neg (fun hno => hno.1 hs), if_pos hall]
      exact Finset.mem_insert_self _ _
    rw [record_last ((h.last_iff hp hs).2 hall)]
    refine ⟨hack, ?_⟩
    intro v hv
    cases hv
    refine ⟨hnot, harrive, rfl, f, hp.file, rfl, ?_⟩
    dsimp only
    rw [h.slots_all hp hs hslot hall, split_flatten]
  · rw [record_part fun hl => hall ((h.last_iff hp hs).1 hl)]
    refine ⟨hack, ?_⟩
    intro v hv
    cases hv

/-- **One delivery**: on a datagram of the client the receive loop does not fault, and takes one step of the
collector. -/
theorem receive_refines (storePath : Text) (h : Refines fs σ w) (hd : fs.datagram s o = some d) : ∃ σ' turn,
    receive storePath σ d = .ok (σ', turn) ∧ Refines fs σ' (w.arrive fs.offsets 300 s o) ∧
      TurnOf fs storePath s o w (w.arrive fs.offsets 300 s o) turn := by
  obtain ⟨f, fragment, hp⟩ := part_of_datagram hd
  have hcount := hp.count
  have hcases := h.keeps.receive_cases storePath hp.wellFormed (s := s) (by rw [hp.headerOf])
  rw [hp.headerOf] at hcases
  rcases hcases with ⟨hrefuse, hrec⟩ | ⟨hrefuse, off, hoff, size, hsize, fCnt, _, hcnt, hrec⟩
  · -- a late datagram of a finished file, or a file that is refused
    have harrive : w.arrive fs.offsets 300 s o = w := h.keeps.arrive_refused hrefuse
    rw [harrive]
    exact ⟨_, _, hrec, hcount ▸ h.setPacket hp.file, turnOf_skip⟩
  · cases hoff
    cases hsize
    obtain ⟨hnot, hadm⟩ := h.keeps.admits hrefuse
    have hs : (s : Int) ∈ (w.letIn s).opened := Finset.mem_insert_self _ _
    obtain ⟨hput, hslot⟩ := h.putPart hp hnot hadm
    obtain rfl : fCnt = fragment := Option.some.inj (hcnt.symm.trans hslot)
    have hsize : ¬ ((fCnt.length : Int) ≠ toSize fCnt.length) := by
      have hle := hp.fragment_le
      rw [not_not, toSize, Int.emod_eq_of_lt (by omega) (by omega)]
    have hturn := hput.turnOf storePath hp hs hslot
    have hrefines := hput.record storePath hp hs hslot
    rw [Collector.arrive_letIn hnot hadm] at hrefines hturn
    rw [finish, if_neg hsize] at hrec
    exact ⟨_, _, hrec, hrefines, hturn.ack, hturn.written⟩

end IntroNP.Udp
