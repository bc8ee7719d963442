import IntroNP.Lib.Bytes
import IntroNP.Lib.CString
import IntroNP.Lib.Overlay

/-!
# The binary flag: the decoder

The decoding steps of `main`, on the bytes of the file. `none` is a file that ends too early, or an access outside of
an array. The fields of the header that are only printed are left out.
-/

namespace IntroNP.BinFlag

/-- `binflag_header_t`, of 16 bytes. -/
structure Header where
  datasize : BitVec 32
  nBlocks : BitVec 16

/-- `block_t`, of which 8 bytes are in the file in front of the payload. -/
structure Block where
  offset : BitVec 32
  cksum : BitVec 16
  length : BitVec 16
  payload : List Byte

def readHeader (file : List Byte) : Option (Header × List Byte) := do
  let (tmp, file) ← readBytes 16 file
  some (⟨ntohl (load32 tmp 8), ntohs (load16 tmp 12)⟩, file)

def readBlock (file : List Byte) : Option (Block × List Byte) := do
  let (tmp, file) ← readBytes 8 file
  let length := ntohs (load16 tmp 6)
  let (payload, file) ← readBytes length.toNat file
  some (⟨ntohl (load32 tmp 0), ntohs (load16 tmp 4), length, payload⟩, file)

/-- The loop over the payload, which takes two bytes at a time: a single byte at the end is read together with the one
behind the array. -/
def checksum : List Byte → BitVec 16 → Option (BitVec 16)
  | [], sum => some sum
  | [_], _ => none
  | a :: b :: payload, sum =>
    let tocheck := (a.setWidth 16 <<< 8) + b.setWidth 16
    checksum payload (sum ^^^ tocheck)

/-- A turn of the first loop: a block and its `check`. -/
def readChecked (file : List Byte) : Option ((Block × Bool) × List Byte) := do
  let (block, file) ← readBlock file
  let sum ← checksum block.payload 0
  some ((block, sum == block.cksum), file)

/-- `dict[offset + j] = payload[j]`, where the sum is one of 32 bits. -/
def Block.copyByte (block : Block) (dict : List Byte) (j : Nat) : Option (List Byte) := do
  let x ← block.payload[j]?
  Piece.store dict (block.offset + BitVec.ofNat 32 j).toNat x

/-- A turn of the second loop. -/
def copyBlock (dict : List Byte) (block : Block × Bool) : Option (List Byte) :=
  if block.2 then (List.range block.1.length.toNat).foldlM block.1.copyByte dict else some dict

/-- The offsets of `flag_t`. -/
def readFlag (file : List Byte) : Option (List (BitVec 32)) := do
  let (tmp, file) ← readBytes 2 file
  let length := ntohs (load16 tmp 0)
  let (offset, _) ← readBytes (length.toNat * 4) file
  some ((List.range length.toNat).map fun i => ntohl (load32 offset (i * 4)))

/-- What the two calls of `sprintf` write for an offset. -/
def hexUnit (dict : List Byte) (offset : BitVec 32) : Option Text := do
  let a ← dict[offset.toNat]?
  let b ← dict[(offset + 1).toNat]?
  some (hex2 a.toNat ++ hex2 b.toNat)

/-- The decoding steps, up to the text in `flags`. What `malloc` leaves in `dict` is `fresh`; every `sprintf` starts at
the terminator of the one before. -/
def decode (fresh : Nat → Byte) (file : List Byte) : Option Text := do
  let (header, file) ← readHeader file
  let (blocks, file) ← readList readChecked header.nBlocks.toNat file
  let dict ← blocks.foldlM copyBlock ((List.range header.datasize.toNat).map fresh)
  let flag ← readFlag file
  let units ← flag.mapM (hexUnit dict)
  some units.flatten

end IntroNP.BinFlag
