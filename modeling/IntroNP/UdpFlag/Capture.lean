import IntroNP.Lib.Python

/-!
# The UDP flag: the capture

`parse_packet`, on the packets of the file as `dpkt` decodes them. A string of the flag is the list of its code points,
so that `''` is `[]`. What is only printed is left out, but for the items that are looked up for it.
-/

namespace IntroNP.UdpFlag

/-- A captured packet: the payload of its UDP datagram and its IP options. -/
structure Packet where
  data : List UInt8
  opts : List UInt8
  data_lt : data.length < 2 ^ 16
  opts_le : opts.length ≤ 40

/-- An item of `udp_dict`: the payload as a text, and the length of payload and options. -/
abbrev Item := Int × (Text × Nat)

/-- The place of `SEQ` in the payload. -/
def Packet.idx (p : Packet) : Int := find (strBytes p.data) "SEQ"

/-- `int(payload[idx+5:idx+9])`. -/
def Packet.seqNo (p : Packet) : Option Int := int (slice (strBytes p.data) (p.idx + 5) (p.idx + 9))

def Packet.value (p : Packet) : Text × Nat := (strBytes p.data, p.data.length + p.opts.length)

/-- The turn of the first loop. Before its first assignment `seq_no` is `none`; printing it raises then. -/
def readPacket (s : List Item × Option Int) (p : Packet) : Option (List Item × Option Int) :=
  if p.idx ≠ -1 then
    match p.seqNo with
    | some seqNo => some (setItem s.1 seqNo p.value, some seqNo)
    | none => if s.2.isSome then some s else none
  else some s

/-- The loop that looks for the two marks, with the indices found before. -/
def findMarks : List (Item × Nat) → Int × Int → Int × Int
  | [], marks => marks
  | (buf, idx) :: rest, (beginIdx, endIdx) =>
    if contains buf.2.1 "BEGIN FLAG" then findMarks rest (idx, endIdx)
    else if contains buf.2.1 "END FLAG" then (beginIdx, idx)
    else findMarks rest (beginIdx, endIdx)

/-- What the last loop keeps. -/
structure Found where
  prevSeqNo : Int
  flag : List (List Nat)
  missIdx : List Int

/-- The `while` loop. As many turns are allowed as `prev_seq_no` is away from `cur_seq_no`. -/
def gapLoop (begin cur : Int) : Nat → Int → List Int → Int × List Int
  | 0, prev, missIdx => (prev, missIdx)
  | turns + 1, prev, missIdx =>
    if prev ≠ cur then gapLoop begin cur turns (prev + 1) (missIdx ++ [prev - begin]) else (prev, missIdx)

/-- The turn of the last loop for an item, where `begin` is the number of the first mark. -/
def checkItem (begin : Int) (s : Found) (item : Item) : Option Found :=
  let flagNo := item.1 - begin - 1
  let curSeqNo := item.1
  if curSeqNo - s.prevSeqNo > 1 then
    let gap := gapLoop begin curSeqNo (curSeqNo - s.prevSeqNo).toNat s.prevSeqNo s.missIdx
    some { s with prevSeqNo := gap.1, missIdx := gap.2 }
  else do
    let c ← chr item.2.2
    let flag ← setIndex s.flag flagNo c
    some { s with prevSeqNo := curSeqNo, flag }

/-- The turn of the last loop for the index `i`. -/
def checkIndex (items : List Item) (beginIdx : Int) (s : Found) (i : Int) : Option Found := do
  let item ← index items i
  let begin ← index items beginIdx
  checkItem begin.1 s item

/-- `parse_packet`: `flag` and `miss_idx`. -/
def parsePacket (capture : List Packet) : Option (List (List Nat) × List Int) := do
  let udpDict ← capture.foldlM readPacket ([], none)
  let items := sortedItems udpDict.1
  let marks := findMarks items.zipIdx (-1, -1)
  let _ ← index items marks.2
  let begin ← index items marks.1
  let found ← (range (marks.1 + 1) marks.2).foldlM (checkIndex items marks.1)
    ⟨begin.1, List.replicate 55 [], []⟩
  some (found.flag, found.missIdx)

/-- A packet with the payload `SEQ:`, the number and a text, as it stands in a capture. -/
def packetOf (text : Text) (h : text.length < 2 ^ 16) : Packet :=
  ⟨text.map fun c => UInt8.ofNat c.toNat, [], by rwa [List.length_map], by decide⟩

example : parsePacket [packetOf "SEQ:00003 END FLAG" (by decide), packetOf "SEQ:00001 BEGIN FLAG" (by decide),
    packetOf "SEQ:00002 ....................................................." (by decide)] =
    some ([63] :: List.replicate 54 [], []) := by decide +kernel

end IntroNP.UdpFlag
