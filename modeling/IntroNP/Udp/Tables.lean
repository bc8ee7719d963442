import IntroNP.Udp.Server

/-!
# File transfer over UDP: the indices of the tables

The server puts the numbers of a datagram into its tables as they come. `Server.Safe` is the condition under which that
is defined: the number of parts is there, the file is one of the tables', and, when the part is looked at, its offset is
one of the slots and its size is there.

- `receive_cases`: what a turn does with any datagram (`Received`), as long as the recorded offsets of the open files
  are among their slots (`Tables`, which every turn keeps);
- `serve_defined`: a run of the loop uses no index that a table does not have, and no number that was not read, exactly
  when every datagram is safe in the state that it comes to.
-/

namespace IntroNP.Udp

variable {σ σ' : Server} {s n off size : Int} {d storePath fcnt fCnt fName : Text} {turn : Turn}

/-! ## What a datagram may be -/

/-- No part of the file is looked at: it was received, or it is not let in now. -/
def Server.Refuses (σ : Server) (s : Int) : Prop := σ.receivedList s = true ∨ (σ.fStat s = false ∧ σ.fCount > 300)

/-- The slots that a part of the file is put into: those there are, else those that are made for `n` parts. -/
def Server.slotsFor (σ : Server) (s n : Int) : List Text :=
  if σ.fcntList s = [] then List.replicate n.toNat [] else σ.fcntList s

/-- Slots have to be made, and a vector cannot be made for that many. -/
def Server.Oversized (σ : Server) (s n : Int) : Prop := σ.fcntList s = [] ∧ n < 0

/-- The offset of a part is one of the slots. -/
def Server.InSlots (σ : Server) (s n off : Int) : Prop := 0 ≤ off ∧ off < (σ.slotsFor s n).length

/-- The numbers of a header are there, as far as they are looked at, and the tables have the places they name. -/
def Server.Safe (σ : Server) (h : Header) : Prop :=
  ∃ n ∈ h.numPacket, σ.InTables h.seqNum ∧
    (σ.Refuses h.seqNum ∨ σ.Oversized h.seqNum n ∨ ∃ off ∈ h.off, σ.InSlots h.seqNum n off ∧ h.fragSize ≠ none)

/-- The header of a datagram, as far as the buffer holds it. -/
def headerOf (d : Text) : Header := parse (d.take 10000).tail

/-! ## What a turn does -/

/-- `packet_list[seq_num] = num_packet`. -/
def Server.setPacket (σ : Server) (s n : Int) : Server := { σ with packetList := Function.update σ.packetList s n }

/-- The file has its slots. -/
def Server.makeSlots (σ : Server) (s n : Int) : Server :=
  { σ with
    fCount := if σ.fcntList s = [] then σ.fCount + 1 else σ.fCount
    fStat := Function.update σ.fStat s true
    fcntList := Function.update σ.fcntList s (σ.slotsFor s n) }

/-- The part is in its slot, unless it was recorded before. -/
def Server.setSlot (σ : Server) (s off : Int) (fcnt : Text) : Server :=
  { σ with
    fcntList := Function.update σ.fcntList s
      (if off ∈ σ.recordList s then σ.fcntList s else (σ.fcntList s).set off.toNat fcnt) }

/-- The tables after `decompose` looked at a part. -/
def Server.putPart (σ : Server) (s n off : Int) (fcnt : Text) : Server :=
  ((σ.setPacket s n).makeSlots s n).setSlot s off fcnt

/-- A part whose slot has the wrong size is not recorded. -/
def finish (storePath : Text) (σ : Server) (s off size : Int) (fCnt fName : Text) : Server × Turn :=
  if (fCnt.length : Int) ≠ toSize size then (σ, .skip) else record storePath σ s off fCnt fName

/-- What a turn makes of a datagram. -/
inductive Received (storePath : Text) (σ : Server) (d : Text) : Except Fault (Server × Turn) → Prop
  | nothing (hd : d = []) : Received storePath σ d (.ok (σ, .skip))
  | undefined {e : Fault} (hd : d ≠ []) (hsafe : ¬ σ.Safe (headerOf d)) (he : e = .index ∨ e = .unset) :
      Received storePath σ d (.error e)
  | oversized {n : Int} (hd : d ≠ []) (hn : n ∈ (headerOf d).numPacket) (hin : σ.InTables (headerOf d).seqNum)
      (hover : σ.Oversized (headerOf d).seqNum n) : Received storePath σ d (.error .size)
  | refused {n : Int} (hd : d ≠ []) (hn : n ∈ (headerOf d).numPacket) (hin : σ.InTables (headerOf d).seqNum)
      (hrefuse : σ.Refuses (headerOf d).seqNum) :
      Received storePath σ d (.ok (σ.setPacket (headerOf d).seqNum n, .skip))
  | part {n off size : Int} {fCnt : Text} (hd : d ≠ []) (hn : n ∈ (headerOf d).numPacket)
      (hin : σ.InTables (headerOf d).seqNum) (hrefuse : ¬ σ.Refuses (headerOf d).seqNum)
      (hover : ¬ σ.Oversized (headerOf d).seqNum n) (hoff : off ∈ (headerOf d).off)
      (hsize : size ∈ (headerOf d).fragSize) (hslots : σ.InSlots (headerOf d).seqNum n off)
      (hcnt : slot ((σ.putPart (headerOf d).seqNum n off (headerOf d).fcnt).fcntList (headerOf d).seqNum) off =
        some fCnt) :
      Received storePath σ d (.ok (finish storePath (σ.putPart (headerOf d).seqNum n off (headerOf d).fcnt)
        (headerOf d).seqNum off size fCnt (headerOf d).fileName))

/-- A file with slots is in use, and the recorded offsets of a file that was not received are among its slots. -/
structure Tables (σ : Server) : Prop where
  stat : ∀ s, σ.fcntList s ≠ [] → σ.fStat s = true
  recorded : ∀ s, σ.receivedList s = false → ∀ o ∈ σ.recordList s, 0 ≤ o ∧ o < (σ.fcntList s).length

/-! ### The parts of `decompose` -/

theorem establish_oversized (h : σ.Oversized s n) : establish σ s n = .error .size := by
  unfold establish
  rw [if_pos h.1, if_pos h.2]

theorem establish_eq (ht : Tables σ) (h : ¬ σ.Oversized s n) : establish σ s n = .ok (σ.makeSlots s n) := by
  unfold establish Server.makeSlots Server.slotsFor
  by_cases he : σ.fcntList s = []
  · rw [if_pos he, if_neg fun hn => h ⟨he, hn⟩, if_pos he, if_pos he]
  · have hstat : Function.update σ.fStat s true = σ.fStat := by
      rw [← ht.stat s he, Function.update_eq_self]
    rw [if_neg he, if_neg he, if_neg he, hstat, Function.update_eq_self]

theorem fill_eq (h : 0 ≤ off ∧ off < (σ.fcntList s).length) :
    fill σ s (some off) fcnt = .ok (σ.setSlot s off fcnt) := by
  unfold fill Server.setSlot
  dsimp only
  by_cases ho : off ∈ σ.recordList s
  · rw [if_pos ho, if_pos ho, Function.update_eq_self]
  · rw [if_neg ho, if_neg ho, if_pos h]

/-- An offset that is not one of the slots is not recorded either. -/
theorem fill_index (hrec : ∀ o ∈ σ.recordList s, 0 ≤ o ∧ o < (σ.fcntList s).length)
    (h : ¬ (0 ≤ off ∧ off < (σ.fcntList s).length)) : fill σ s (some off) fcnt = .error .index := by
  unfold fill
  dsimp only
  rw [if_neg fun ho => h (hrec off ho), if_neg h]

theorem makeSlots_slots : (σ.makeSlots s n).fcntList s = σ.slotsFor s n := Function.update_self ..

theorem setSlot_length : ((σ.setSlot s off fcnt).fcntList s).length = (σ.fcntList s).length := by
  unfold Server.setSlot
  dsimp only
  rw [Function.update_self]
  split
  · rfl
  · rw [List.length_set]

theorem putPart_length : ((σ.putPart s n off fcnt).fcntList s).length = (σ.slotsFor s n).length := by
  unfold Server.putPart
  rw [setSlot_length, makeSlots_slots]
  rfl

/-- The slots of another file are not touched. -/
theorem putPart_of_ne {t : Int} (hts : t ≠ s) : (σ.putPart s n off fcnt).fcntList t = σ.fcntList t := by
  unfold Server.putPart Server.setSlot Server.makeSlots
  dsimp only
  rw [Function.update_of_ne hts, Function.update_of_ne hts]
  rfl

theorem slot_of_lt {slots : List Text} (h0 : 0 ≤ off) (h : off < slots.length) : ∃ c, slot slots off = some c := by
  have hlt : off.toNat < slots.length := by omega
  unfold slot
  rw [if_neg (by omega)]
  exact ⟨slots[off.toNat], List.getElem?_eq_getElem hlt⟩

/-- The slots that a part is put into hold the offsets that were recorded. -/
theorem Tables.recorded_slotsFor (ht : Tables σ) (hrec : σ.receivedList s = false) :
    ∀ o ∈ σ.recordList s, 0 ≤ o ∧ o < (σ.slotsFor s n).length := by
  intro o ho
  have hlt := ht.recorded s hrec o ho
  unfold Server.slotsFor
  split
  · rename_i he
    -- a file without slots has no offset recorded
    rw [he, List.length_nil] at hlt
    omega
  · exact hlt

/-! ### `decompose` -/

section

variable {content : Text} {h : Header} (hp : parse content.tail = h)

include hp

theorem decompose_unset (hn : h.numPacket = none) : decompose σ content = .error .unset := by
  unfold decompose
  dsimp only
  rw [hp, hn]

variable (hn : h.numPacket = some n)

include hn

theorem decompose_index (hin : ¬ σ.InTables h.seqNum) : decompose σ content = .error .index := by
  unfold decompose
  dsimp only
  rw [hp, hn]
  exact if_pos hin

variable (hin : σ.InTables h.seqNum)

include hin

theorem decompose_refuses (hrefuse : σ.Refuses h.seqNum) :
    decompose σ content = .ok (σ.setPacket h.seqNum n, .ofSeq h.seqNum) := by
  unfold decompose
  dsimp only
  rw [hp, hn]
  dsimp only
  rw [if_neg (not_not.2 hin)]
  by_cases hrec : σ.receivedList h.seqNum = true
  · exact if_pos hrec
  · rw [if_neg hrec, if_pos (hrefuse.resolve_left hrec)]
    rfl

variable (hrefuse : ¬ σ.Refuses h.seqNum)

include hrefuse

theorem decompose_letIn : decompose σ content =
    match establish (σ.setPacket h.seqNum n) h.seqNum n with
    | .error e => .error e
    | .ok σ =>
      match fill σ h.seqNum h.off h.fcnt with
      | .error e => .error e
      | .ok σ => .ok (σ, ⟨h.seqNum, some n, h.off, h.fragSize, h.fileName⟩) := by
  have hrec : ¬ σ.receivedList h.seqNum = true := fun hr => hrefuse (.inl hr)
  have hwin : ¬ (σ.fStat h.seqNum = false ∧ σ.fCount > 300) := fun hw => hrefuse (.inr hw)
  unfold decompose
  dsimp only
  rw [hp, hn]
  dsimp only
  rw [if_neg (not_not.2 hin), if_neg hrec, if_neg hwin]
  rfl

theorem decompose_oversized (hover : σ.Oversized h.seqNum n) : decompose σ content = .error .size := by
  have hest : establish (σ.setPacket h.seqNum n) h.seqNum n = .error .size := establish_oversized hover
  rw [decompose_letIn hp hn hin hrefuse, hest]

variable (ht : Tables σ) (hover : ¬ σ.Oversized h.seqNum n)

include ht hover

theorem decompose_fill : decompose σ content =
    match fill ((σ.setPacket h.seqNum n).makeSlots h.seqNum n) h.seqNum h.off h.fcnt with
    | .error e => .error e
    | .ok σ => .ok (σ, ⟨h.seqNum, some n, h.off, h.fragSize, h.fileName⟩) := by
  have ht₁ : Tables (σ.setPacket h.seqNum n) := ⟨ht.stat, ht.recorded⟩
  have hover₁ : ¬ (σ.setPacket h.seqNum n).Oversized h.seqNum n := hover
  rw [decompose_letIn hp hn hin hrefuse, establish_eq ht₁ hover₁]

theorem decompose_noOffset (hoff : h.off = none) : decompose σ content = .error .unset := by
  rw [decompose_fill hp hn hin hrefuse ht hover, hoff]
  rfl

variable (hoff : h.off = some off)

include hoff

theorem decompose_outside (hslots : ¬ σ.InSlots h.seqNum n off) : decompose σ content = .error .index := by
  have hrec : σ.receivedList h.seqNum = false := Bool.eq_false_iff.2 fun hr => hrefuse (.inl hr)
  have hrecorded : ∀ o ∈ σ.recordList h.seqNum, 0 ≤ o ∧ o < (σ.slotsFor h.seqNum n).length :=
    ht.recorded_slotsFor hrec
  have hfill : fill ((σ.setPacket h.seqNum n).makeSlots h.seqNum n) h.seqNum (some off) h.fcnt = .error .index := by
    refine fill_index ?_ ?_
    · rw [makeSlots_slots]
      exact hrecorded
    · rw [makeSlots_slots]
      exact hslots
  rw [decompose_fill hp hn hin hrefuse ht hover, hoff, hfill]

theorem decompose_part (hslots : σ.InSlots h.seqNum n off) : decompose σ content =
    .ok (σ.putPart h.seqNum n off h.fcnt, ⟨h.seqNum, some n, some off, h.fragSize, h.fileName⟩) := by
  have hfill : fill ((σ.setPacket h.seqNum n).makeSlots h.seqNum n) h.seqNum (some off) h.fcnt =
      .ok (σ.putPart h.seqNum n off h.fcnt) := by
    refine fill_eq ?_
    rw [makeSlots_slots]
    exact hslots
  rw [decompose_fill hp hn hin hrefuse ht hover, hoff, hfill]

end

/-! ### A turn -/

section

variable {e : Fault} {numOff : Option Int} (hd : d ≠ [])

include hd

theorem take_ne_nil : d.take 10000 ≠ [] := by
  rw [Ne, List.take_eq_nil_iff]
  simpa using hd

theorem receive_error (h : decompose σ (d.take 10000) = .error e) : receive storePath σ d = .error e := by
  unfold receive
  dsimp only
  rw [if_neg (take_ne_nil hd), h]

theorem receive_ofSeq (h : decompose σ (d.take 10000) = .ok (σ', .ofSeq s))
    (hskip : σ'.receivedList s = true ∨ σ'.fStat s = false) : receive storePath σ d = .ok (σ', .skip) := by
  unfold receive
  dsimp only
  rw [if_neg (take_ne_nil hd), h]
  dsimp only [Packet.ofSeq]
  by_cases hrec : σ'.receivedList s = true
  · exact if_pos hrec
  · rw [if_neg hrec]
    exact if_pos (hskip.resolve_left hrec)

/-- A part of an open file is looked at again in its slot, and with its size. -/
theorem receive_unset (h : decompose σ (d.take 10000) = .ok (σ', ⟨s, numOff, some off, none, fName⟩))
    (hrec : ¬ σ'.receivedList s = true) (hstat : ¬ σ'.fStat s = false) :
    receive storePath σ d = .error .unset := by
  unfold receive
  dsimp only
  rw [if_neg (take_ne_nil hd), h]
  dsimp only
  rw [if_neg hrec, if_neg hstat]

theorem receive_part (h : decompose σ (d.take 10000) = .ok (σ', ⟨s, numOff, some off, some size, fName⟩))
    (hrec : ¬ σ'.receivedList s = true) (hstat : ¬ σ'.fStat s = false) (hcnt : slot (σ'.fcntList s) off = some fCnt) :
    receive storePath σ d = .ok (finish storePath σ' s off size fCnt fName) := by
  unfold receive finish
  dsimp only
  rw [if_neg (take_ne_nil hd), h]
  dsimp only
  rw [if_neg hrec, if_neg hstat, hcnt]
  dsimp only
  split
  · rfl
  · rfl

end

/-- The part of a file that was let in has a slot. -/
theorem putPart_slot (fcnt : Text) (hslots : σ.InSlots s n off) :
    ∃ c, slot ((σ.putPart s n off fcnt).fcntList s) off = some c := by
  refine slot_of_lt hslots.1 ?_
  rw [putPart_length]
  exact hslots.2

/-- **A turn**, on any datagram. -/
theorem receive_cases (storePath d : Text) (ht : Tables σ) : Received storePath σ d (receive storePath σ d) := by
  by_cases hd : d = []
  · subst hd
    exact .nothing rfl
  have hp : parse (d.take 10000).tail = headerOf d := rfl
  cases hn : (headerOf d).numPacket with
  | none =>
    rw [receive_error hd (decompose_unset hp hn)]
    refine .undefined hd ?_ (.inr rfl)
    rintro ⟨n, hn', _⟩
    rw [hn] at hn'
    cases hn'
  | some n =>
    by_cases hin : σ.InTables (headerOf d).seqNum
    swap
    · rw [receive_error hd (decompose_index hp hn hin)]
      exact .undefined hd (fun ⟨_, _, hin', _⟩ => hin hin') (.inl rfl)
    by_cases hrefuse : σ.Refuses (headerOf d).seqNum
    · rw [receive_ofSeq hd (decompose_refuses hp hn hin hrefuse) (hrefuse.imp_right And.left)]
      exact .refused hd hn hin hrefuse
    by_cases hover : σ.Oversized (headerOf d).seqNum n
    · rw [receive_error hd (decompose_oversized hp hn hin hrefuse hover)]
      exact .oversized hd hn hin hover
    -- a header that is unsafe here lacks an offset among the slots, or the size
    have hsafe : σ.Safe (headerOf d) →
        ∃ off ∈ (headerOf d).off, σ.InSlots (headerOf d).seqNum n off ∧ (headerOf d).fragSize ≠ none := by
      rintro ⟨n', hn', _, hcases⟩
      obtain rfl : n = n' := Option.some.inj (hn.symm.trans hn')
      exact (hcases.resolve_left hrefuse).resolve_left hover
    cases hoff : (headerOf d).off with
    | none =>
      rw [receive_error hd (decompose_noOffset hp hn hin hrefuse ht hover hoff)]
      refine .undefined hd (fun h => ?_) (.inr rfl)
      obtain ⟨off, hoff', _⟩ := hsafe h
      rw [hoff] at hoff'
      cases hoff'
    | some off =>
      by_cases hslots : σ.InSlots (headerOf d).seqNum n off
      swap
      · rw [receive_error hd (decompose_outside hp hn hin hrefuse ht hover hoff hslots)]
        refine .undefined hd (fun h => ?_) (.inl rfl)
        obtain ⟨off', hoff', hslots', _⟩ := hsafe h
        obtain rfl : off = off' := Option.some.inj (hoff.symm.trans hoff')
        exact hslots hslots'
      have hrec : ¬ (σ.putPart (headerOf d).seqNum n off (headerOf d).fcnt).receivedList (headerOf d).seqNum = true :=
        fun hr => hrefuse (.inl hr)
      have hstat : ¬ (σ.putPart (headerOf d).seqNum n off (headerOf d).fcnt).fStat (headerOf d).seqNum = false := by
        have htrue : (σ.putPart (headerOf d).seqNum n off (headerOf d).fcnt).fStat (headerOf d).seqNum = true :=
          Function.update_self ..
        rw [htrue]
        exact Bool.noConfusion
      obtain ⟨fCnt, hcnt⟩ := putPart_slot (headerOf d).fcnt hslots
      have hdec := decompose_part hp hn hin hrefuse ht hover hoff hslots
      cases hsize : (headerOf d).fragSize with
      | none =>
        rw [hsize] at hdec
        rw [receive_unset hd hdec hrec hstat]
        refine .undefined hd (fun h => ?_) (.inr rfl)
        obtain ⟨_, _, _, hsize'⟩ := hsafe h
        exact hsize' hsize
      | some size =>
        rw [hsize] at hdec
        rw [receive_part hd hdec hrec hstat hcnt]
        exact .part hd hn hin hrefuse hover hoff hsize hslots hcnt

/-! ## What a turn keeps -/

theorem tables_start (N : Int) : Tables (start N) where
  stat _ h := absurd rfl h
  recorded _ _ _ h := absurd h (Finset.notMem_empty _)

theorem Tables.setPacket (ht : Tables σ) : Tables (σ.setPacket s n) := ⟨ht.stat, ht.recorded⟩

theorem Tables.putPart (ht : Tables σ) : Tables (σ.putPart s n off fcnt) where
  stat t hne := by
    by_cases hts : t = s
    · subst hts
      exact Function.update_self ..
    · rw [putPart_of_ne hts] at hne
      exact (Function.update_of_ne hts _ _).trans (ht.stat t hne)
  recorded t hrec o ho := by
    by_cases hts : t = s
    · subst hts
      rw [putPart_length]
      exact ht.recorded_slotsFor hrec o ho
    · rw [putPart_of_ne hts]
      exact ht.recorded t hrec o ho

/-- The tables with one more offset recorded. -/
def Server.addOffset (σ : Server) (s off : Int) : Server :=
  { σ with recordList := Function.update σ.recordList s (insert off (σ.recordList s)) }

/-- The tables after the file was written. -/
def Server.complete (σ : Server) (s : Int) : Server :=
  (mergePackets { σ with i := σ.i + 1, receivedList := Function.update σ.receivedList s true } s).1

/-- The file is written when all its parts are recorded. -/
def Server.Last (σ : Server) (s : Int) : Prop :=
  ((σ.recordList s).card : Int) = toSize (σ.packetList s) ∧ σ.receivedList s = false

theorem record_last (h : (σ.addOffset s off).Last s) : record storePath σ s off fCnt fName =
    ((σ.addOffset s off).complete s,
      ⟨some ⟨s, off, fCnt⟩, some ⟨s, storePath ++ "/".toList ++ fName, (σ.fcntList s).flatten⟩⟩) := by
  unfold record
  dsimp only
  exact if_pos h

theorem record_part (h : ¬ (σ.addOffset s off).Last s) :
    record storePath σ s off fCnt fName = (σ.addOffset s off, ⟨some ⟨s, off, fCnt⟩, none⟩) := by
  unfold record
  dsimp only
  exact if_neg h

theorem Tables.addOffset (ht : Tables σ) (hoff : 0 ≤ off ∧ off < (σ.fcntList s).length) :
    Tables (σ.addOffset s off) where
  stat := ht.stat
  recorded t hrec o ho := by
    unfold Server.addOffset at ho
    dsimp only at ho
    by_cases hts : t = s
    · subst hts
      rw [Function.update_self] at ho
      rcases Finset.mem_insert.1 ho with rfl | ho
      · exact hoff
      · exact ht.recorded t hrec o ho
    · rw [Function.update_of_ne hts] at ho
      exact ht.recorded t hrec o ho

theorem Tables.complete (ht : Tables σ) : Tables (σ.complete s) where
  stat t hne := by
    unfold Server.complete mergePackets at hne
    dsimp only at hne
    by_cases hts : t = s
    · subst hts
      rw [Function.update_self] at hne
      exact absurd rfl hne
    · rw [Function.update_of_ne hts] at hne
      exact ht.stat t hne
  recorded t hrec o ho := by
    unfold Server.complete mergePackets at hrec ho ⊢
    dsimp only at hrec ho ⊢
    by_cases hts : t = s
    · subst hts
      rw [Function.update_self] at hrec
      cases hrec
    · rw [Function.update_of_ne hts] at hrec ⊢
      exact ht.recorded t hrec o ho

theorem Tables.finish (ht : Tables σ) (hoff : 0 ≤ off ∧ off < (σ.fcntList s).length) :
    Tables (finish storePath σ s off size fCnt fName).1 := by
  unfold Udp.finish
  split
  · exact ht
  · by_cases hlast : (σ.addOffset s off).Last s
    · rw [record_last hlast]
      exact (ht.addOffset hoff).complete
    · rw [record_part hlast]
      exact ht.addOffset hoff

/-- **A turn keeps the tables.** -/
theorem Tables.receive (ht : Tables σ) (hr : receive storePath σ d = .ok (σ', turn)) : Tables σ' := by
  have hcases := receive_cases storePath d ht
  rw [hr] at hcases
  generalize hres : (Except.ok (σ', turn) : Except Fault (Server × Turn)) = r at hcases
  cases hcases with
  | nothing hd =>
    cases hres
    exact ht
  | undefined hd hsafe he => cases hres
  | oversized hd hn hin hover => cases hres
  | refused hd hn hin hrefuse =>
    cases hres
    exact ht.setPacket
  | part hd hn hin hrefuse hover hoff hsize hslots hcnt =>
    have hstate := congrArg Prod.fst (Except.ok.inj hres)
    dsimp only at hstate
    rw [hstate]
    refine ht.putPart.finish ?_
    rw [putPart_length]
    exact hslots

/-! ## Any datagrams -/

/-- No index was used that a table does not have, and no number was read that was not set. -/
def Defined {α : Type} (r : Except Fault α) : Prop := r ≠ .error .index ∧ r ≠ .error .unset

theorem defined_ok {α : Type} {a : α} : Defined (.ok a : Except Fault α) := ⟨nofun, nofun⟩

theorem defined_error {α : Type} {e : Fault} : Defined (.error e : Except Fault α) ↔ e ≠ .index ∧ e ≠ .unset := by
  simp [Defined]

theorem defined_map {α β : Type} {r : Except Fault α} {f : α → β} : Defined (r.map f) ↔ Defined r := by
  cases r with
  | error e => rw [Except.map, defined_error, defined_error]
  | ok v => exact iff_of_true defined_ok defined_ok

/-- **A turn is defined** exactly when nothing came or the header is safe. -/
theorem receive_defined (storePath d : Text) (ht : Tables σ) :
    Defined (receive storePath σ d) ↔ d = [] ∨ σ.Safe (headerOf d) := by
  have hcases := receive_cases storePath d ht
  generalize receive storePath σ d = r at hcases ⊢
  cases hcases with
  | nothing hd => exact iff_of_true defined_ok (.inl hd)
  | undefined hd hsafe he =>
    refine iff_of_false ?_ (fun h => h.elim hd hsafe)
    rintro ⟨hindex, hunset⟩
    rcases he with rfl | rfl
    · exact hindex rfl
    · exact hunset rfl
  | oversized _ hn hin hover => exact iff_of_true ⟨nofun, nofun⟩ (.inr ⟨_, hn, hin, .inr (.inl hover)⟩)
  | refused _ hn hin hrefuse => exact iff_of_true defined_ok (.inr ⟨_, hn, hin, .inl hrefuse⟩)
  | part _ hn hin _ _ hoff hsize hslots _ =>
    have hset : ∀ {v : Option Int} {size : Int}, size ∈ v → v ≠ none := by
      rintro v size hsize rfl
      cases hsize
    exact iff_of_true defined_ok (.inr ⟨_, hn, hin, .inr (.inr ⟨_, hoff, hslots, hset hsize⟩)⟩)

/-- Every datagram is safe in the state that it comes to. -/
def SafeRun (storePath : Text) : Server → List Text → Prop
  | _, [] => True
  | σ, d :: ds => σ.i < σ.fileNum →
    (d = [] ∨ σ.Safe (headerOf d)) ∧ ∀ σ' turn, receive storePath σ d = .ok (σ', turn) → SafeRun storePath σ' ds

/-- The run rule. -/
theorem Tables.run_defined (storePath : Text) (ht : Tables σ) (ds : List Text) :
    Defined (serve storePath σ ds) ↔ SafeRun storePath σ ds := by
  induction ds generalizing σ with
  | nil => exact iff_of_true defined_ok trivial
  | cons d ds ih =>
    unfold serve SafeRun
    by_cases hi : σ.i < σ.fileNum
    swap
    · rw [if_neg hi]
      exact iff_of_true defined_ok fun h => absurd h hi
    rw [if_pos hi, ← receive_defined storePath d ht]
    cases hr : Udp.receive storePath σ d with
    | error e =>
      dsimp only
      rw [defined_error, defined_error]
      constructor
      · exact fun h _ => ⟨h, nofun⟩
      · exact fun h => (h hi).1
    | ok p =>
      obtain ⟨σ', turn⟩ := p
      dsimp only
      rw [defined_map, ih (ht.receive hr)]
      constructor
      · intro h _
        refine ⟨defined_ok, fun σ'' turn' hr' => ?_⟩
        cases hr'
        exact h
      · exact fun h => (h hi).2 _ _ rfl

/-- **Any datagrams.** Whatever datagrams arrive, and in whatever order: the server uses only indices that its tables
have and numbers that it has read, exactly when every datagram is safe in the state that it comes to. -/
theorem serve_defined (storePath : Text) (fileNum : Int) (ds : List Text) :
    Defined (serve storePath (start fileNum) ds) ↔ SafeRun storePath (start fileNum) ds :=
  (tables_start fileNum).run_defined storePath ds

/-- A datagram that names the sixth file of one. -/
theorem serve_undefined : ¬ ∀ (storePath : Text) (fileNum : Int) (ds : List Text), (∀ d ∈ ds, d ≠ []) →
    Defined (serve storePath (start fileNum) ds) := by
  intro hall
  have hne : ∀ d ∈ [("<5 1 0 3 a >xyz" : Text)], d ≠ [] := by
    intro d hd
    rw [List.mem_singleton.1 hd]
    decide
  exact (hall "out" 1 [("<5 1 0 3 a >xyz" : Text)] hne).1 (by rfl)

end IntroNP.Udp
