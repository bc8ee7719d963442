import IntroNP.Lib.Stream
import Mathlib.Data.Finset.Card
import Mathlib.Logic.Function.Basic

/-!
# File transfer over UDP: the server

`decompose`, `MergePackets` and the receive loop of the server. The tables are vectors that are sized once, to the
number of files, so that a table is a function of the index and `InTables` says which indices it has; the slots of a
file are a list of their own. What C++ leaves undefined is a `Fault`: an index that a vector does not have, a variable
that the header did not set, a size that a vector cannot be given.
-/

namespace IntroNP.Udp

/-- What the server does that C++ does not define. -/
inductive Fault
  | index
  | unset
  | size
  deriving DecidableEq

/-- A `struct Packet`; the fields that are never set are `none`. -/
structure Packet where
  seqIdx : Int
  numOff : Option Int
  offset : Option Int
  fragSize : Option Int
  fName : Text

/-- A packet of which only the index is set. -/
def Packet.ofSeq (seqNum : Int) : Packet := ⟨seqNum, none, none, none, []⟩

/-- The tables of the server, and the counter `i` of its loop. -/
structure Server where
  fileNum : Int
  packetList : Int → Int
  receivedList : Int → Bool
  recordList : Int → Finset Int
  fcntList : Int → List Text
  fStat : Int → Bool
  fCount : Int
  i : Int

/-- The server after its tables were initialised. -/
def start (fileNum : Int) : Server where
  fileNum := fileNum
  packetList _ := 0
  receivedList _ := false
  recordList _ := ∅
  fcntList _ := []
  fStat _ := false
  fCount := 0
  i := 0

/-- The tables have the index. -/
def Server.InTables (σ : Server) (s : Int) : Prop := 0 ≤ s ∧ s < σ.fileNum

instance (σ : Server) (s : Int) : Decidable (σ.InTables s) := inferInstanceAs (Decidable (_ ∧ _))

/-- An `int`, compared with a `size_t`. -/
def toSize (n : Int) : Int := n % 2 ^ 64

/-- `v[off]` of a vector of strings. -/
def slot (slots : List Text) (off : Int) : Option Text := if off < 0 then none else slots[off.toNat]?

/-! ## Reading a datagram -/

/-- What `decompose` reads from a datagram without its first character. -/
structure Header where
  seqNum : Int
  numPacket : Option Int
  off : Option Int
  fragSize : Option Int
  fileName : Text
  fcnt : Text
  deriving DecidableEq

/-- `content.substr(content.find('>') + 1)`: all of it when there is no `>`, whose place is then `npos`. -/
def afterAngle (content : Text) : Text :=
  match content.dropWhile (· != '>') with
  | [] => content
  | _ :: fcnt => fcnt

def parse (content : Text) : Header :=
  let seqNum := (IStream.ofText content).readInt (some 0)
  let numPacket := seqNum.2.readInt none
  let off := numPacket.2.readInt none
  let fragSize := off.2.readInt none
  let fileName := fragSize.2.readWord []
  ⟨seqNum.1.getD 0, numPacket.1, off.1, fragSize.1, fileName.1, afterAngle content⟩

/-- The slots of a file are made when its first part is let in. -/
def establish (σ : Server) (seqNum numPacket : Int) : Except Fault Server :=
  if σ.fcntList seqNum = [] then
    if numPacket < 0 then .error .size
    else
      .ok { σ with
        fCount := σ.fCount + 1
        fStat := Function.update σ.fStat seqNum true
        fcntList := Function.update σ.fcntList seqNum (List.replicate numPacket.toNat []) }
  else .ok σ

/-- `fcnt_list[seq_num][off] = fcnt`, for a part that was not recorded before. -/
def fill (σ : Server) (seqNum : Int) (off : Option Int) (fcnt : Text) : Except Fault Server :=
  match off with
  | none => .error .unset
  | some off =>
    if off ∈ σ.recordList seqNum then .ok σ
    else if 0 ≤ off ∧ off < (σ.fcntList seqNum).length then
      .ok { σ with fcntList := Function.update σ.fcntList seqNum ((σ.fcntList seqNum).set off.toNat fcnt) }
    else .error .index

/-- `decompose`, of a datagram that is not empty. -/
def decompose (σ : Server) (content : Text) : Except Fault (Server × Packet) :=
  let h := parse content.tail
  match h.numPacket with
  | none => .error .unset
  | some numPacket =>
    if ¬ σ.InTables h.seqNum then .error .index
    else
      let σ := { σ with packetList := Function.update σ.packetList h.seqNum numPacket }
      if σ.receivedList h.seqNum then .ok (σ, .ofSeq h.seqNum)
      else if σ.fStat h.seqNum = false ∧ σ.fCount > 300 then .ok (σ, .ofSeq h.seqNum)
      else
        match establish σ h.seqNum numPacket with
        | .error e => .error e
        | .ok σ =>
          match fill σ h.seqNum h.off h.fcnt with
          | .error e => .error e
          | .ok σ => .ok (σ, ⟨h.seqNum, some numPacket, h.off, h.fragSize, h.fileName⟩)

/-! ## The receive loop -/

/-- An acknowledgement, with the content of the slot at that moment. -/
structure Ack where
  seqIdx : Int
  offset : Int
  fCnt : Text
  deriving DecidableEq

/-- `ack_msg`. -/
def Ack.msg (a : Ack) : Text := toDecimal a.seqIdx ++ " ".toList ++ toDecimal a.offset ++ " ACK".toList

/-- A file that is written. -/
structure Written where
  seqIdx : Int
  fPath : Text
  cnt : Text
  deriving DecidableEq

/-- What one turn of the receive loop does for the outside: it acknowledges, and writes a file. -/
structure Turn where
  ack : Option Ack
  written : Option Written
  deriving DecidableEq

/-- A turn that ends in `continue`. -/
def Turn.skip : Turn := ⟨none, none⟩

/-- `MergePackets`. -/
def mergePackets (σ : Server) (idx : Int) : Server × Text :=
  ({ σ with fcntList := Function.update σ.fcntList idx [], fCount := σ.fCount - 1 }, (σ.fcntList idx).flatten)

/-- The end of a turn: the part is recorded, and the file is written when it was the last. -/
def record (storePath : Text) (σ : Server) (seqIdx offset : Int) (fCnt fName : Text) : Server × Turn :=
  let ack := some ⟨seqIdx, offset, fCnt⟩
  let σ := { σ with recordList := Function.update σ.recordList seqIdx (insert offset (σ.recordList seqIdx)) }
  if ((σ.recordList seqIdx).card : Int) = toSize (σ.packetList seqIdx) ∧ σ.receivedList seqIdx = false then
    let σ := { σ with i := σ.i + 1, receivedList := Function.update σ.receivedList seqIdx true }
    let merged := mergePackets σ seqIdx
    (merged.1, ⟨ack, some ⟨seqIdx, storePath ++ "/".toList ++ fName, merged.2⟩⟩)
  else (σ, ⟨ack, none⟩)

/-- One turn of the receive loop, on what `recvfrom` returned. -/
def receive (storePath : Text) (σ : Server) (fileBuf : Text) : Except Fault (Server × Turn) :=
  let converted := fileBuf.take 10000
  if converted = [] then .ok (σ, .skip)
  else
    match decompose σ converted with
    | .error e => .error e
    | .ok (σ, packet) =>
      if σ.receivedList packet.seqIdx then .ok (σ, .skip)
      else if σ.fStat packet.seqIdx = false then .ok (σ, .skip)
      else
        match packet.offset, packet.fragSize with
        | some offset, some fragSize =>
          match slot (σ.fcntList packet.seqIdx) offset with
          | none => .error .index
          | some fCnt =>
            if (fCnt.length : Int) ≠ toSize fragSize then .ok (σ, .skip)
            else .ok (record storePath σ packet.seqIdx offset fCnt packet.fName)
        | _, _ => .error .unset

/-- The receive loop on a sequence of deliveries. It ends when all files were received. -/
def serve (storePath : Text) : Server → List Text → Except Fault (Server × List Turn)
  | σ, [] => .ok (σ, [])
  | σ, d :: ds =>
    if σ.i < σ.fileNum then
      match receive storePath σ d with
      | .error e => .error e
      | .ok (σ', turn) => (serve storePath σ' ds).map fun (σ'', turns) => (σ'', turn :: turns)
    else .ok (σ, [])

/-- `term_msg`. -/
def termMsg : Text := "-1 -1 terminate"

end IntroNP.Udp
