import IntroNP.UdpFlag.Capture
import Mathlib.Tactic.MkIffOfInductiveProp

/-!
# The UDP flag: gaps

The packets of a capture have numbers, and those between the two marks carry the characters of the flag. The last loop
of `parse_packet` goes over them in order. Behind a gap it lists what is missing and also the packet that ended the
gap, whose character it does not store. The end mark is not looked at, and neither is a gap in front of it.

- `parsePacket_eq`: the loop, over the items between the marks;
- `foldlM_consecutive`, `foldlM_gap`: what it does when there is no gap, and when there is one;
- `recovered_iff`: the flag is recovered exactly if nothing is missing.
-/

namespace IntroNP.UdpFlag

/-- The number of a packet. -/
def Packet.number (p : Packet) : Option Int := if p.idx ≠ -1 then p.seqNo else none

/-- The numbers that were captured. -/
def numbers (capture : List Packet) : List Int := capture.filterMap Packet.number

def Packet.Begins (p : Packet) : Prop := contains (strBytes p.data) "BEGIN FLAG"

def Packet.Ends (p : Packet) : Prop := contains (strBytes p.data) "END FLAG"

instance (p : Packet) : Decidable p.Begins :=
  inferInstanceAs (Decidable (contains (strBytes p.data) "BEGIN FLAG" = true))

instance (p : Packet) : Decidable p.Ends := inferInstanceAs (Decidable (contains (strBytes p.data) "END FLAG" = true))

/-- A capture of packets with different numbers, of which `b` is that of the only packet that begins the flag, and `e`
that of the only one that ends it. Packets that do not have `SEQ` in them have no number. -/
@[mk_iff]
structure Marked (capture : List Packet) (b e : Int) : Prop where
  readable : ∀ p ∈ capture, p.idx ≠ -1 → p.seqNo.isSome
  distinct : (numbers capture).Nodup
  begins : ∃ p ∈ capture, p.number = some b ∧ p.Begins
  ends : ∃ p ∈ capture, p.number = some e ∧ p.Ends
  begins_only : ∀ p ∈ capture, p.number.isSome → p.Begins → p.number = some b
  ends_only : ∀ p ∈ capture, p.number.isSome → p.Ends → p.number = some e
  lt : b < e
  length_le : e - b - 1 ≤ 55

instance (capture : List Packet) (b e : Int) : Decidable (Marked capture b e) :=
  decidable_of_iff' _ (marked_iff capture b e)

/-- The indices of the numbers between the marks that were not captured. -/
def missing (capture : List Packet) (b e : Int) : List Int :=
  ((range (b + 1) e).filter (· ∉ numbers capture)).map (· - b - 1)

/-- The flag is recovered: the character of every packet captured between the marks is in its place, and exactly what
was not captured is reported. -/
def Recovered (capture : List Packet) (b e : Int) : Prop :=
  ∃ flag missIdx, parsePacket capture = some (flag, missIdx) ∧
    (∀ p ∈ capture, ∀ s, p.number = some s → b < s → s < e →
      flag[(s - b - 1).toNat]? = some [p.data.length + p.opts.length]) ∧
    missIdx = missing capture b e

/-- The items that the packets of a capture leave. -/
def entries (capture : List Packet) : List Item := capture.filterMap fun p => p.number.map (·, p.value)

variable {capture : List Packet} {b e prev cur : Int} {items mid pre post : List Item} {B E x : Item}
  {s found : Found} {flag : List (List Nat)} {missIdx : List Int} {marks : Int × Int}

/-! ## Reading the packets -/

/-- The length of payload and options is a code point. -/
theorem Packet.value_lt (p : Packet) : p.value.2 < 0x110000 := by
  have hdata := p.data_lt
  have hopts := p.opts_le
  unfold Packet.value
  dsimp only
  omega

theorem map_fst_entries : (entries capture).map Prod.fst = numbers capture := by
  unfold entries numbers
  rw [List.map_filterMap]
  congr 1
  funext p
  cases p.number <;> rfl

theorem mem_entries : x ∈ entries capture ↔ ∃ p ∈ capture, p.number = some x.1 ∧ x.2 = p.value := by
  unfold entries
  simp only [List.mem_filterMap, Option.map_eq_some_iff]
  constructor
  · rintro ⟨p, hp, s, hs, rfl⟩
    exact ⟨p, hp, hs, rfl⟩
  · rintro ⟨p, hp, hs, hv⟩
    exact ⟨p, hp, x.1, hs, Prod.ext rfl hv.symm⟩

/-- Packets with different numbers that can be read leave their items in the order in which they were captured. -/
theorem foldlM_readPacket : ∀ {capture : List Packet} (d : List Item) (seqNo : Option Int),
    (∀ p ∈ capture, p.idx ≠ -1 → p.seqNo.isSome) → (d.map Prod.fst ++ numbers capture).Nodup →
    ∃ seqNo', capture.foldlM readPacket (d, seqNo) = some (d ++ entries capture, seqNo')
  | [], d, seqNo, _, _ => ⟨seqNo, by simp [entries]⟩
  | p :: capture, d, seqNo, hread, hnodup => by
    have hread' := fun q hq => hread q (List.mem_cons_of_mem _ hq)
    by_cases hidx : p.idx = -1
    · have hnone : p.number = none := if_neg (by simpa using hidx)
      have hnumbers : numbers (p :: capture) = numbers capture := by simp [numbers, hnone]
      have hentries : entries (p :: capture) = entries capture := by simp [entries, hnone]
      obtain ⟨seqNo', hrec⟩ := foldlM_readPacket d seqNo hread' (hnumbers ▸ hnodup)
      refine ⟨seqNo', ?_⟩
      rw [List.foldlM_cons, readPacket, if_neg (by simpa using hidx), hentries]
      exact hrec
    · obtain ⟨n, hn⟩ := Option.isSome_iff_exists.1 (hread p List.mem_cons_self hidx)
      have hsome : p.number = some n := (if_pos hidx).trans hn
      have hnumbers : numbers (p :: capture) = n :: numbers capture := by simp [numbers, hsome]
      have hentries : entries (p :: capture) = (n, p.value) :: entries capture := by simp [entries, hsome]
      rw [hnumbers] at hnodup
      have hnew : n ∉ d.map Prod.fst := fun hmem =>
        (List.nodup_append.1 hnodup).2.2 n hmem n List.mem_cons_self rfl
      obtain ⟨seqNo', hrec⟩ := foldlM_readPacket (d ++ [(n, p.value)]) (some n) hread' (by simpa using hnodup)
      refine ⟨seqNo', ?_⟩
      rw [List.foldlM_cons, readPacket, if_pos hidx, hn, hentries]
      dsimp only
      rw [setItem_new hnew]
      simpa using hrec

/-! ## The marks -/

theorem findMarks_skip {xs : List Item} {rest : List (Item × Nat)} {k : Nat}
    (h : ∀ x ∈ xs, ¬ contains x.2.1 "BEGIN FLAG" ∧ ¬ contains x.2.1 "END FLAG") :
    findMarks (xs.zipIdx k ++ rest) marks = findMarks rest marks := by
  induction xs generalizing k with
  | nil => rfl
  | cons x xs ih =>
    obtain ⟨hb, he⟩ := h x List.mem_cons_self
    rw [List.zipIdx_cons, List.cons_append, findMarks, if_neg hb, if_neg he]
    exact ih fun y hy => h y (List.mem_cons_of_mem _ hy)

/-- Items in strict order, cut at two of them. -/
theorem exists_cut (h : items.Pairwise (·.1 < ·.1)) (hB : B ∈ items) (hE : E ∈ items) (hlt : B.1 < E.1) :
    ∃ pre mid post, items = pre ++ B :: (mid ++ E :: post) := by
  obtain ⟨pre, rest, rfl⟩ := List.append_of_mem hB
  have hpre := (List.pairwise_append.1 h).2.2
  have hrest : E ∈ rest := by
    rcases List.mem_append.1 hE with hE | hE
    · exact absurd (hpre E hE B List.mem_cons_self) (by omega)
    · exact (List.mem_cons.1 hE).resolve_left (fun he => by rw [he] at hlt; omega)
  obtain ⟨mid, post, rfl⟩ := List.append_of_mem hrest
  exact ⟨pre, mid, post, rfl⟩

theorem mem_mid (h : (pre ++ B :: (mid ++ E :: post)).Pairwise (·.1 < ·.1)) :
    x ∈ mid ↔ x ∈ pre ++ B :: (mid ++ E :: post) ∧ B.1 < x.1 ∧ x.1 < E.1 := by
  simp only [List.pairwise_append, List.pairwise_cons, List.mem_append, List.mem_cons] at h ⊢
  grind

/-- Where the first item with a beginning and the first with an end behind it are found. -/
theorem findMarks_cut (post : List Item) (hpre : ∀ x ∈ pre, ¬ contains x.2.1 "BEGIN FLAG" ∧ ¬ contains x.2.1 "END FLAG")
    (hmid : ∀ x ∈ mid, ¬ contains x.2.1 "BEGIN FLAG" ∧ ¬ contains x.2.1 "END FLAG")
    (hB : contains B.2.1 "BEGIN FLAG") (hE : ¬ contains E.2.1 "BEGIN FLAG") (hE' : contains E.2.1 "END FLAG") :
    findMarks (pre ++ B :: (mid ++ E :: post)).zipIdx (-1, -1) =
      ((pre.length : Int), (pre.length : Int) + 1 + mid.length) := by
  rw [List.zipIdx_append, findMarks_skip hpre, List.zipIdx_cons, findMarks, if_pos hB, List.zipIdx_append,
    findMarks_skip hmid, List.zipIdx_cons, findMarks, if_neg hE, if_pos hE']
  simp

theorem index_cut (pre : List Item) (B : Item) (mid : List Item) (E : Item) (post : List Item) :
    index (pre ++ B :: (mid ++ E :: post)) pre.length = some B ∧
    index (pre ++ B :: (mid ++ E :: post)) (pre.length + 1 + mid.length) = some E ∧
    ∀ (j : Nat) y, mid[j]? = some y → index (pre ++ B :: (mid ++ E :: post)) (pre.length + 1 + j) = some y := by
  have hnat : ∀ k : Nat, index (pre ++ B :: (mid ++ E :: post)) k = (pre ++ B :: (mid ++ E :: post))[k]? := fun k => by
    rw [index_of_nonneg (Int.natCast_nonneg k), Int.toNat_natCast]
  have hbehind : ∀ k : Nat, index (pre ++ B :: (mid ++ E :: post)) (pre.length + 1 + k) = (mid ++ E :: post)[k]? :=
    fun k => by
      have h := hnat (pre.length + 1 + k)
      push_cast at h
      rw [h, List.getElem?_append_right (by omega), show pre.length + 1 + k - pre.length = k + 1 by omega,
        List.getElem?_cons_succ]
  refine ⟨?_, ?_, fun j y hy => ?_⟩
  · rw [hnat]
    simp
  · rw [hbehind]
    simp
  · rw [hbehind, List.getElem?_append_left (List.getElem?_eq_some_iff.1 hy).1, hy]

/-- The last loop, over the items between two of them. -/
theorem foldlM_checkIndex : (range (pre.length + 1) (pre.length + 1 + mid.length)).foldlM
    (checkIndex (pre ++ B :: (mid ++ E :: post)) pre.length) s = mid.foldlM (checkItem B.1) s := by
  obtain ⟨hbegin, -, hmid⟩ := index_cut pre B mid E post
  refine foldlM_range mid (pre.length + 1) (fun s j y hy => ?_) s
  rw [checkIndex, hmid j y hy, hbegin]
  rfl

/-- The items of a capture, cut at the marks; no other item has a mark in it. -/
theorem exists_marks (h : Marked capture b e) : ∃ pre B mid E post,
    sortedItems (entries capture) = pre ++ B :: (mid ++ E :: post) ∧ B.1 = b ∧ E.1 = e ∧
    contains B.2.1 "BEGIN FLAG" ∧ ¬ contains E.2.1 "BEGIN FLAG" ∧ contains E.2.1 "END FLAG" ∧
    ∀ x ∈ pre ++ mid, ¬ contains x.2.1 "BEGIN FLAG" ∧ ¬ contains x.2.1 "END FLAG" := by
  have hsorted := pairwise_sortedItems (d := entries capture) (by rw [map_fst_entries]; exact h.distinct)
  have hmem : ∀ x, x ∈ sortedItems (entries capture) ↔ ∃ p ∈ capture, p.number = some x.1 ∧ x.2 = p.value :=
    fun x => sortedItems_perm.mem_iff.trans mem_entries
  obtain ⟨p, hp, hpb, hbegins⟩ := h.begins
  obtain ⟨q, hq, hqe, hends⟩ := h.ends
  obtain ⟨pre, mid, post, hcut⟩ := exists_cut hsorted ((hmem (b, p.value)).2 ⟨p, hp, hpb, rfl⟩)
    ((hmem (e, q.value)).2 ⟨q, hq, hqe, rfl⟩) h.lt
  have hbegin : ∀ x ∈ sortedItems (entries capture), contains x.2.1 "BEGIN FLAG" → x.1 = b := by
    intro x hx hbegin
    obtain ⟨r, hr, hrx, hv⟩ := (hmem x).1 hx
    have hrb := h.begins_only r hr (by rw [hrx]; rfl) (show contains r.value.1 "BEGIN FLAG" from hv ▸ hbegin)
    exact Option.some.inj (hrx.symm.trans hrb)
  have hend : ∀ x ∈ sortedItems (entries capture), contains x.2.1 "END FLAG" → x.1 = e := by
    intro x hx hend
    obtain ⟨r, hr, hrx, hv⟩ := (hmem x).1 hx
    have hre := h.ends_only r hr (by rw [hrx]; rfl) (show contains r.value.1 "END FLAG" from hv ▸ hend)
    exact Option.some.inj (hrx.symm.trans hre)
  have hlt := h.lt
  rw [hcut] at hsorted hbegin hend
  refine ⟨pre, _, mid, _, post, hcut, rfl, rfl, hbegins, fun hqb => ?_, hends, fun x hx => ?_⟩
  · exact absurd (hbegin _ (by simp) hqb) (by dsimp only; omega)
  · have hx' : x ∈ pre ++ (b, p.value) :: (mid ++ (e, q.value) :: post) := by
      rcases List.mem_append.1 hx with hx | hx <;> simp [hx]
    have hne : x.1 ≠ b ∧ x.1 ≠ e := by
      rcases List.mem_append.1 hx with hx | hx
      · have hxb : x.1 < b := (List.pairwise_append.1 hsorted).2.2 x hx (b, p.value) List.mem_cons_self
        omega
      · obtain ⟨hbx, hxe⟩ := ((mem_mid hsorted).1 hx).2
        dsimp only at hbx hxe
        omega
    exact ⟨fun hc => hne.1 (hbegin x hx' hc), fun hc => hne.2 (hend x hx' hc)⟩

/-- **The loop** of `parse_packet` goes over the items between the marks, in order. -/
theorem parsePacket_eq (h : Marked capture b e) : ∃ mid : List Item, mid.Pairwise (·.1 < ·.1) ∧
    (∀ x, x ∈ mid ↔ (∃ p ∈ capture, p.number = some x.1 ∧ x.2 = p.value) ∧ b < x.1 ∧ x.1 < e) ∧
    parsePacket capture = (mid.foldlM (checkItem b) ⟨b, List.replicate 55 [], []⟩).map fun found =>
      (found.flag, found.missIdx) := by
  have hsorted := pairwise_sortedItems (d := entries capture) (by rw [map_fst_entries]; exact h.distinct)
  obtain ⟨pre, B, mid, E, post, hcut, rfl, rfl, hB, hE, hE', hno⟩ := exists_marks h
  have hmarks := findMarks_cut post (fun x hx => hno x (List.mem_append_left mid hx))
    (fun x hx => hno x (List.mem_append_right pre hx)) hB hE hE'
  obtain ⟨hbegin, hend, -⟩ := index_cut pre B mid E post
  rw [hcut] at hsorted
  refine ⟨mid, ?_, fun x => ?_, ?_⟩
  · exact (List.pairwise_append.1 (List.pairwise_cons.1 (List.pairwise_append.1 hsorted).2.1).2).1
  · rw [mem_mid hsorted, ← hcut, sortedItems_perm.mem_iff, mem_entries]
  · obtain ⟨seqNo, hread⟩ := foldlM_readPacket [] none h.readable (by simpa using h.distinct)
    unfold parsePacket
    rw [hread]
    simp only [Option.bind_eq_bind, Option.bind_some, List.nil_append, hcut, hmarks, hend, hbegin, foldlM_checkIndex,
      Option.map_eq_bind]
    rfl

/-! ## Gaps -/

theorem gapLoop_eq (b prev : Int) (missIdx : List Int) (k : Nat) : gapLoop b (prev + k) k prev missIdx =
    (prev + k, missIdx ++ range (prev - b) (prev - b + k)) := by
  induction k generalizing prev missIdx with
  | zero => simp [gapLoop, range]
  | succ k ih =>
    have hnext : prev + ((k + 1 : Nat) : Int) = prev + 1 + k := by omega
    have hindex : prev + 1 - b = prev - b + 1 := by omega
    rw [gapLoop, if_pos (by omega), range_succ, hnext, ih, hindex, List.append_assoc]
    rfl

/-- Behind a gap everything up to the item itself is listed, and the character is not stored. -/
theorem checkItem_gap (h : prev + 1 < x.1) : checkItem b ⟨prev, flag, missIdx⟩ x =
    some ⟨x.1, flag, missIdx ++ range (prev - b) (x.1 - b)⟩ := by
  have hcur : x.1 = prev + (x.1 - prev).toNat := by omega
  have hindex : prev - b + (x.1 - prev).toNat = x.1 - b := by omega
  have hloop := gapLoop_eq b prev missIdx (x.1 - prev).toNat
  rw [← hcur, hindex] at hloop
  unfold checkItem
  dsimp only
  rw [if_pos (by omega), hloop]

/-- Without a gap, the character is stored. -/
theorem checkItem_next (flag : List (List Nat)) (missIdx : List Int) (h : x.1 = prev + 1) (hb : b ≤ prev)
    (hflag : prev - b < flag.length) (hchr : x.2.2 < 0x110000) :
    checkItem b ⟨prev, flag, missIdx⟩ x = some ⟨x.1, flag.set (prev - b).toNat [x.2.2], missIdx⟩ := by
  have hindex : x.1 - b - 1 = prev - b := by omega
  have hset : setIndex flag (prev - b) [x.2.2] = some (flag.set (prev - b).toNat [x.2.2]) := by
    rw [setIndex, if_pos (by omega), if_pos hflag]
  have hc : chr x.2.2 = some [x.2.2] := if_pos hchr
  unfold checkItem
  dsimp only
  rw [if_neg (by omega), hc, hindex]
  dsimp only [Option.bind_eq_bind, Option.bind_some]
  rw [hset]
  rfl

/-- A turn moves on to its item, and keeps what was listed. -/
theorem checkItem_some (h : checkItem b s x = some found) (hlt : s.prevSeqNo < x.1) :
    found.prevSeqNo = x.1 ∧ s.missIdx ⊆ found.missIdx := by
  by_cases hgap : s.prevSeqNo + 1 < x.1
  · rw [checkItem_gap hgap] at h
    cases h
    exact ⟨rfl, List.subset_append_left _ _⟩
  · unfold checkItem at h
    dsimp only at h
    rw [if_neg (by omega)] at h
    obtain ⟨c, -, h⟩ := Option.bind_eq_some_iff.1 h
    obtain ⟨flag, -, h⟩ := Option.bind_eq_some_iff.1 h
    cases h
    exact ⟨rfl, List.Subset.refl _⟩

/-- **No gap**: every character is stored in its place, and nothing is listed. -/
theorem foldlM_consecutive : ∀ (mid : List Item) (prev : Int) (flag : List (List Nat)) (missIdx : List Int),
    mid.map Prod.fst = range (prev + 1) (prev + 1 + mid.length) → b ≤ prev → prev + mid.length - b ≤ flag.length →
    (∀ x ∈ mid, x.2.2 < 0x110000) → ∃ flag',
      mid.foldlM (checkItem b) ⟨prev, flag, missIdx⟩ = some ⟨prev + mid.length, flag', missIdx⟩ ∧
      (∀ x ∈ mid, flag'[(x.1 - b - 1).toNat]? = some [x.2.2]) ∧
      ∀ j : Nat, j < (prev - b).toNat → flag'[j]? = flag[j]?
  | [], prev, flag, _, _, _, _, _ => ⟨flag, by simp, by simp, fun _ _ => rfl⟩
  | x :: mid, prev, flag, missIdx, h, hb, hflag, hchr => by
    rw [List.map_cons, List.length_cons, range_succ, List.cons.injEq] at h
    obtain ⟨hx, hmid⟩ := h
    rw [List.length_cons] at hflag
    push_cast at hflag
    have hturn := checkItem_next flag missIdx hx hb (by omega) (hchr x List.mem_cons_self)
    obtain ⟨flag', hfold, hstored, hkept⟩ := foldlM_consecutive mid x.1 (flag.set (prev - b).toNat [x.2.2]) missIdx
      (by rw [hx]; exact hmid) (by omega) (by rw [List.length_set]; omega)
      (fun y hy => hchr y (List.mem_cons_of_mem _ hy))
    refine ⟨flag', ?_, fun y hy => ?_, fun j hj => ?_⟩
    · rw [List.foldlM_cons, hturn]
      refine hfold.trans ?_
      rw [hx, List.length_cons]
      congr 2
      omega
    · rcases List.mem_cons.1 hy with rfl | hy
      · have hlt : (prev - b).toNat < flag.length := by omega
        rw [hkept _ (by omega), show (y.1 - b - 1).toNat = (prev - b).toNat by omega, List.getElem?_set_self hlt]
      · exact hstored y hy
    · rw [hkept j (by omega), List.getElem?_set_ne (by omega)]

theorem foldlM_missIdx : ∀ {mid : List Item} {s : Found}, mid.Pairwise (·.1 < ·.1) → (∀ x ∈ mid, s.prevSeqNo < x.1) →
    mid.foldlM (checkItem b) s = some found → s.missIdx ⊆ found.missIdx
  | [], s, _, _, h => by
    cases h
    exact List.Subset.refl _
  | x :: mid, s, hsorted, hlt, h => by
    rw [List.foldlM_cons] at h
    obtain ⟨s', hturn, h⟩ := Option.bind_eq_some_iff.1 h
    obtain ⟨hprev, hkept⟩ := checkItem_some hturn (hlt x List.mem_cons_self)
    obtain ⟨hx, hmid⟩ := List.pairwise_cons.1 hsorted
    exact fun i hi => foldlM_missIdx hmid (fun y hy => hprev ▸ hx y hy) h (hkept hi)

/-- **A gap**: a number that was captured is listed. -/
theorem foldlM_gap : ∀ (mid : List Item) (s : Found), mid.Pairwise (·.1 < ·.1) → (∀ x ∈ mid, s.prevSeqNo < x.1) →
    b ≤ s.prevSeqNo → mid.foldlM (checkItem b) s = some found →
    mid.map Prod.fst = range (s.prevSeqNo + 1) (s.prevSeqNo + 1 + mid.length) ∨ ∃ x ∈ mid, x.1 - b - 1 ∈ found.missIdx
  | [], s, _, _, _, _ => .inl (by simp [range])
  | x :: mid, s, hsorted, hlt, hb, h => by
    have hlt' := hlt x List.mem_cons_self
    rw [List.foldlM_cons] at h
    obtain ⟨s', hturn, h⟩ := Option.bind_eq_some_iff.1 h
    obtain ⟨hprev, -⟩ := checkItem_some hturn hlt'
    obtain ⟨hx, hmid⟩ := List.pairwise_cons.1 hsorted
    have hnext : ∀ y ∈ mid, s'.prevSeqNo < y.1 := fun y hy => hprev ▸ hx y hy
    by_cases hgap : s.prevSeqNo + 1 < x.1
    · -- the last number listed is that of the packet behind the gap
      rw [checkItem_gap hgap] at hturn
      cases hturn
      refine .inr ⟨x, List.mem_cons_self, foldlM_missIdx hmid hnext h (List.mem_append_right _ ?_)⟩
      rw [range, List.mem_map]
      exact ⟨(x.1 - s.prevSeqNo - 1).toNat, List.mem_range.2 (by omega), by omega⟩
    · rcases foldlM_gap mid s' hmid hnext (by omega) h with hall | ⟨y, hy, hlisted⟩
      · left
        have hx' : x.1 = s.prevSeqNo + 1 := by omega
        rw [List.map_cons, List.length_cons, range_succ, hall, hprev, hx']
      · exact .inr ⟨y, List.mem_cons_of_mem _ hy, hlisted⟩

/-! ## The flag -/

theorem mem_missing {s : Int} : s - b - 1 ∈ missing capture b e ↔ (b < s ∧ s < e) ∧ s ∉ numbers capture := by
  unfold missing
  simp only [List.mem_map, List.mem_filter, mem_range, decide_eq_true_eq]
  constructor
  · rintro ⟨s', ⟨⟨hb, he⟩, hno⟩, hs⟩
    obtain rfl : s' = s := by omega
    exact ⟨⟨by omega, he⟩, hno⟩
  · rintro ⟨⟨hb, he⟩, hno⟩
    exact ⟨s, ⟨⟨by omega, he⟩, hno⟩, rfl⟩

theorem missing_eq_nil_iff : missing capture b e = [] ↔ ∀ s, b < s → s < e → s ∈ numbers capture := by
  constructor
  · intro hnil s hb he
    by_contra hno
    have hmem := mem_missing.2 ⟨⟨hb, he⟩, hno⟩
    rw [hnil] at hmem
    cases hmem
  · intro hall
    refine List.eq_nil_iff_forall_not_mem.2 fun i hi => ?_
    obtain ⟨⟨hb, he⟩, hno⟩ := mem_missing.1 (show i + b + 1 - b - 1 ∈ missing capture b e by
      rwa [show i + b + 1 - b - 1 = i by omega])
    exact hno (hall _ hb he)

/-- Items without a gap end in front of the end mark. -/
theorem add_length_lt (h : mid.map Prod.fst = range (b + 1) (b + 1 + mid.length)) (hlt : ∀ x ∈ mid, x.1 < e)
    (hbe : b < e) : b + (mid.length : Int) < e := by
  rcases Nat.eq_zero_or_pos mid.length with h0 | hpos
  · omega
  · have hlast : b + mid.length ∈ mid.map Prod.fst := by
      rw [h, mem_range]
      omega
    obtain ⟨x, hx, he⟩ := List.mem_map.1 hlast
    have := hlt x hx
    omega

theorem mem_numbers {s : Int} : s ∈ numbers capture ↔ ∃ p ∈ capture, p.number = some s := List.mem_filterMap

/-- Nothing missing, so that the flag is recovered. -/
theorem recovered_of_all (h : Marked capture b e) (hall : ∀ s, b < s → s < e → s ∈ numbers capture) :
    Recovered capture b e := by
  obtain ⟨mid, hsorted, hmem, hparse⟩ := parsePacket_eq h
  have hlen := h.length_le
  -- the numbers between the marks, without a gap
  have hmid : mid.map Prod.fst = range (b + 1) e := by
    refine (List.pairwise_map.2 hsorted).eq_of_mem_iff (pairwise_range _ _) fun s => ?_
    rw [mem_range, List.mem_map]
    constructor
    · rintro ⟨x, hx, rfl⟩
      have hx := ((hmem x).1 hx).2
      omega
    · rintro ⟨hb, he⟩
      obtain ⟨p, hp, hs⟩ := mem_numbers.1 (hall s (by omega) he)
      exact ⟨(s, p.value), (hmem _).2 ⟨⟨p, hp, hs, rfl⟩, by dsimp only; omega, he⟩, rfl⟩
  have hlt := h.lt
  have hlength : (mid.length : Int) = e - b - 1 := by
    have hlength := congrArg List.length hmid
    rw [List.length_map, range, List.length_map, List.length_range] at hlength
    omega
  have hend : b + 1 + (mid.length : Int) = e := by omega
  obtain ⟨flag, hfold, hstored, -⟩ := foldlM_consecutive mid b (List.replicate 55 []) []
    (by rw [hmid, hend]) le_rfl (by rw [List.length_replicate]; omega) (fun x hx => by
      obtain ⟨⟨p, -, -, hv⟩, -⟩ := (hmem x).1 hx
      exact hv ▸ p.value_lt)
  refine ⟨flag, [], by rw [hparse, hfold]; rfl, fun p hp s hs hbs hse => ?_, (missing_eq_nil_iff.2 hall).symm⟩
  exact hstored (s, p.value) ((hmem _).2 ⟨⟨p, hp, hs, rfl⟩, hbs, hse⟩)

/-- The flag is recovered, so that nothing is missing. -/
theorem all_of_recovered (h : Marked capture b e) (hrec : Recovered capture b e) :
    ∀ s, b < s → s < e → s ∈ numbers capture := by
  obtain ⟨mid, hsorted, hmem, hparse⟩ := parsePacket_eq h
  obtain ⟨flag, missIdx, hsome, -, hmiss⟩ := hrec
  rw [hparse, Option.map_eq_some_iff] at hsome
  obtain ⟨found, hfold, hfound⟩ := hsome
  obtain ⟨-, hlisted⟩ := Prod.mk.inj hfound
  rw [hmiss] at hlisted
  have hbetween : ∀ x ∈ mid, b < x.1 ∧ x.1 < e := fun x hx => ((hmem x).1 hx).2
  have hgap : mid.map Prod.fst = range (b + 1) (b + 1 + mid.length) ∨ ∃ x ∈ mid, x.1 - b - 1 ∈ found.missIdx :=
    foldlM_gap mid ⟨b, List.replicate 55 [], []⟩ hsorted (fun x hx => (hbetween x hx).1) le_rfl hfold
  rcases hgap with hall | ⟨x, hx, hx'⟩
  · -- without a gap nothing is listed
    have hlen := h.length_le
    have hlast := add_length_lt hall (fun x hx => (hbetween x hx).2) h.lt
    obtain ⟨flag', hfold', -, -⟩ := foldlM_consecutive mid b (List.replicate 55 []) [] hall le_rfl
      (by rw [List.length_replicate]; omega) (fun x hx => by
        obtain ⟨⟨p, -, -, hv⟩, -⟩ := (hmem x).1 hx
        exact hv ▸ p.value_lt)
    refine missing_eq_nil_iff.1 ?_
    rw [← hlisted, Option.some.inj (hfold.symm.trans hfold')]
  · -- behind a gap, a number is listed that was captured
    rw [hlisted] at hx'
    obtain ⟨⟨p, hp, hpx, -⟩, -⟩ := (hmem x).1 hx
    exact absurd (mem_numbers.2 ⟨p, hp, hpx⟩) (mem_missing.1 hx').2

/-- **The flag** is recovered, and what is missing is reported, exactly if nothing between the marks is missing. -/
theorem recovered_iff (h : Marked capture b e) :
    Recovered capture b e ↔ ∀ s, b < s → s < e → s ∈ numbers capture :=
  ⟨all_of_recovered h, recovered_of_all h⟩

/-- Packets 1, 2 and 3, where the first begins the flag and the last ends it. -/
theorem recovered_iff_three :
    let capture := [packetOf "SEQ:00003 END FLAG" (by decide), packetOf "SEQ:00002 ..." (by decide),
      packetOf "SEQ:00001 BEGIN FLAG" (by decide)]
    Recovered capture 1 3 := by
  intro capture
  obtain ⟨hmarked, htwo⟩ : Marked capture 1 3 ∧ 2 ∈ numbers capture := by decide +kernel
  refine (recovered_iff hmarked).2 fun s h1 h3 => ?_
  rwa [show s = 2 by omega]

/-- Packet 2 is missing in front of packet 3. Both are reported, and the character of packet 3 is not in the flag. -/
theorem not_recovered_gap :
    let capture := [packetOf "SEQ:00001 BEGIN FLAG" (by decide), packetOf "SEQ:00003 ..." (by decide),
      packetOf "SEQ:00004 END FLAG" (by decide)]
    Marked capture 1 4 ∧ parsePacket capture = some (List.replicate 55 [], [0, 1]) ∧ missing capture 1 4 = [0] ∧
      ¬ Recovered capture 1 4 := by
  intro capture
  obtain ⟨hmarked, hparse, hmissing⟩ : Marked capture 1 4 ∧
      parsePacket capture = some (List.replicate 55 [], [0, 1]) ∧ missing capture 1 4 = [0] := by
    decide +kernel
  refine ⟨hmarked, hparse, hmissing, fun ⟨flag, missIdx, hsome, _, hmiss⟩ => ?_⟩
  rw [hparse] at hsome
  cases hsome
  rw [hmissing] at hmiss
  cases hmiss

end IntroNP.UdpFlag
