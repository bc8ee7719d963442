import IntroNP.Udp.Integrity

/-!
# File transfer over UDP: the accounts of the receiver

The datagrams of a client give every file one number of parts, and each names one of the files and one of its parts
(`WellFormed`); what else they hold is free. On such datagrams, lost, repeated and in any order, the tables are those of
a collector (`Keeps`), which may let a file in and then take no part of it, when the part has the wrong size.

`serve_accounts`: at the head of the loop `f_count` is the number of the files that are open, which are those that have
slots; it stays between 0 and 301; an open file has as many slots as parts, and not all of its offsets; `i` counts the
received files.
-/

namespace IntroNP.Udp

variable {count : Int → Int} {fileNum : Int} {σ : Server} {w : Collector Int Int} {t : Int} {d : Text}
  {ds : List Text}

/-- A file is open: it was let in, and is not received. -/
def Server.Open (σ : Server) (s : Int) : Prop := σ.fStat s = true ∧ σ.receivedList s = false

instance (σ : Server) (s : Int) : Decidable (σ.Open s) := inferInstanceAs (Decidable (_ ∧ _))

/-- The accounts of the receiver. -/
structure Accounts (count : Int → Int) (fileNum : Int) (σ : Server) : Prop where
  opened : σ.fCount = ((below fileNum.toNat).filter σ.Open).card
  slots : σ.fCount = ((below fileNum.toNat).filter fun s => σ.fcntList s ≠ []).card
  bounds : 0 ≤ σ.fCount ∧ σ.fCount ≤ 301
  length : ∀ s, σ.Open s → ((σ.fcntList s).length : Int) = count s
  proper : ∀ s, σ.Open s → σ.recordList s ⊂ parts count s
  received : σ.i = ((below fileNum.toNat).filter fun s => σ.receivedList s = true).card

/-! ## What the collector says -/

/-- The open files are those that are being worked on. -/
theorem Keeps.open_iff (h : Keeps count fileNum σ w) : σ.Open t ↔ t ∈ w.opened := by
  rw [Server.Open, h.stat, h.not_received]
  constructor
  · exact fun ⟨hb, hn⟩ => hb.resolve_right hn
  · exact fun ht => ⟨.inl ht, h.inv.disjoint t ht⟩

/-- The indices of the table with a property are the members of a set of them. -/
theorem filter_below {P : Int → Prop} [DecidablePred P] {S : Finset Int} {n : Nat} (h : ∀ t, P t ↔ t ∈ S)
    (hS : ∀ t ∈ S, t ∈ below n) : (below n).filter P = S := by
  ext t
  rw [Finset.mem_filter, h]
  exact ⟨And.right, fun ht => ⟨hS t ht, ht⟩⟩

theorem Keeps.accounts (h : Keeps count fileNum σ w) : Accounts count fileNum σ where
  opened := by rw [filter_below (fun _ => h.open_iff) fun t ht => h.begun t (.inl ht), h.card]
  slots := by rw [filter_below (fun _ => h.slots_iff) fun t ht => h.begun t (.inl ht), h.card]
  bounds := by
    have hcard := h.card
    have hbound := h.inv.bound
    omega
  length t ht := h.length t (h.open_iff.1 ht)
  proper t ht := by
    rw [h.recorded]
    exact (h.inv.sub t).ssubset_of_ne (h.inv.opened_ne t (h.open_iff.1 ht))
  received := by rw [filter_below h.received fun t ht => h.begun t (.inr ht), h.counter]

/-! ## Any deliveries -/

/-- **One delivery**: on a datagram of a client, or none, the receive loop does not fault, and the tables follow. -/
theorem Keeps.receive (storePath : Text) (h : Keeps count fileNum σ w) (hd : d = [] ∨ WellFormed count fileNum d) :
    ∃ σ' turn w', receive storePath σ d = .ok (σ', turn) ∧ Keeps count fileNum σ' w' := by
  rcases hd with rfl | hd
  · exact ⟨σ, .skip, w, rfl, h⟩
  rcases h.receive_cases storePath hd rfl with
    ⟨_, hrec⟩ | ⟨hrefuse, off, _, size, _, fCnt, hoff, _, hrec⟩
  · exact ⟨_, _, w, hrec, h.setPacket⟩
  · obtain ⟨hnot, hadm⟩ := h.admits hrefuse
    have hput : Keeps count fileNum (σ.putPart (headerOf d).seqNum (count (headerOf d).seqNum) off (headerOf d).fcnt)
        (w.letIn (headerOf d).seqNum) := h.putPart hd.mem_below (hd.count_pos) hnot hadm
    have hpacket : (σ.putPart (headerOf d).seqNum (count (headerOf d).seqNum) off (headerOf d).fcnt).packetList
        (headerOf d).seqNum = count (headerOf d).seqNum := Function.update_self ..
    have hmem : (headerOf d).seqNum ∈ (w.letIn (headerOf d).seqNum).opened := Finset.mem_insert_self _ _
    unfold finish at hrec
    split at hrec
    · -- the part has the wrong size, and is not recorded
      exact ⟨_, _, _, hrec, hput⟩
    · exact ⟨_, _, _, hrec, hput.record storePath fCnt (headerOf d).fileName hmem hpacket hd.int hoff⟩

theorem Keeps.serve (storePath : Text) (h : Keeps count fileNum σ w)
    (hds : ∀ d ∈ ds, d = [] ∨ WellFormed count fileNum d) :
    ∃ σ' turns w', serve storePath σ ds = .ok (σ', turns) ∧ Keeps count fileNum σ' w' := by
  induction ds generalizing σ w with
  | nil => exact ⟨σ, [], w, rfl, h⟩
  | cons d ds ih =>
    unfold Udp.serve
    by_cases hi : σ.i < σ.fileNum
    · obtain ⟨σ₁, turn, w₁, hrec, h₁⟩ := h.receive storePath (hds d List.mem_cons_self)
      obtain ⟨σ₂, turns, w₂, hserve, h₂⟩ := ih h₁ fun d' hd' => hds d' (List.mem_cons_of_mem d hd')
      rw [if_pos hi, hrec]
      dsimp only
      rw [hserve]
      exact ⟨σ₂, turn :: turns, w₂, rfl, h₂⟩
    · rw [if_neg hi]
      exact ⟨σ, [], w, rfl, h⟩

/-- The datagrams that the client of `fs` sends are such. -/
theorem Files.Sends.wellFormed {fs : Files} (h : fs.Sends d) : WellFormed fs.count fs.list.length d := by
  obtain ⟨s, o, hd⟩ := h
  obtain ⟨f, fragment, hp⟩ := part_of_datagram hd
  exact hp.wellFormed

/-- **The accounts.** Whatever well-formed datagrams of a client arrive, with losses and repetitions, in any order: the
server does not fault, and at the head of its loop the accounts are right. -/
theorem serve_accounts (storePath : Text) (count : Int → Int) (fileNum : Int) (ds : List Text)
    (h : ∀ d ∈ ds, d = [] ∨ WellFormed count fileNum d) :
    ∃ σ turns, serve storePath (start fileNum) ds = .ok (σ, turns) ∧ Accounts count fileNum σ := by
  obtain ⟨σ, turns, w, hserve, hkeeps⟩ := keeps_start.serve storePath h
  exact ⟨σ, turns, hserve, hkeeps.accounts⟩

/-- One file of two parts, and another of one; a part comes twice, and once with the wrong size. -/
theorem serve_accounts_open :
    let count : Int → Int := fun s => if s = 0 then 2 else 1
    let ds : List Text := ["<0 2 1 3 a >xyz", [], "<0 2 1 3 a >xyz", "<0 2 0 4 a >xyz", "<1 1 0 0 b >"]
    (serve "out" (start 3) ds).toOption.map (fun r => (r.1.fCount, r.1.i)) = some (1, 1) ∧
      ∃ σ turns, serve "out" (start 3) ds = .ok (σ, turns) ∧ Accounts count 3 σ := by
  intro count ds
  have hwell : ∀ d ∈ ds, d = [] ∨ WellFormed count 3 d := by
    intro d hd
    simp only [ds, List.mem_cons, List.not_mem_nil, or_false] at hd
    rcases hd with rfl | rfl | rfl | rfl | rfl
    · exact .inr ⟨by decide +kernel, by decide +kernel, ⟨1, by decide +kernel⟩, by decide +kernel⟩
    · exact .inl rfl
    · exact .inr ⟨by decide +kernel, by decide +kernel, ⟨1, by decide +kernel⟩, by decide +kernel⟩
    · exact .inr ⟨by decide +kernel, by decide +kernel, ⟨0, by decide +kernel⟩, by decide +kernel⟩
    · exact .inr ⟨by decide +kernel, by decide +kernel, ⟨0, by decide +kernel⟩, by decide +kernel⟩
  exact ⟨by decide +kernel, serve_accounts "out" count 3 ds hwell⟩

end IntroNP.Udp
