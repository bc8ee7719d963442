import IntroNP.BinFlag.Decode

/-!
# The binary flag: decoding what was sent

A challenge as the comments on the structures say that it is sent, with all numbers big-endian.

- `byteAt_eq_some`: which block gives the byte at an address;
- `checksum_eq`: the loop is the exclusive or of the units of a payload;
- `readChecked_serialise`, `readFlag_serialise`: blocks and offsets are read back;
- `foldlM_copyBlock`: the blocks that pass their check are laid over one another;
- `decode_serialise`: the flag that was sent is decoded.
-/

namespace IntroNP.BinFlag

/-! ## Challenges -/

/-- The units of two bytes, big-endian. -/
def units : List Byte → List (BitVec 16)
  | a :: b :: payload => (a ++ b) :: units payload
  | _ => []

/-- A block as it is sent. -/
structure Sent where
  offset : BitVec 32
  cksum : BitVec 16
  payload : List Byte
  length_lt : payload.length < 2 ^ 16
  even : payload.length % 2 = 0

/-- The checksum of the block is that of its payload. -/
def Sent.Valid (b : Sent) : Prop := b.cksum = (units b.payload).foldl (· ^^^ ·) 0

instance (b : Sent) : Decidable b.Valid := inferInstanceAs (Decidable (_ = _))

def Sent.piece (b : Sent) : Piece Byte := ⟨b.offset.toNat, b.payload⟩

/-- A block with the right checksum covers `a`. -/
def Covered (blocks : List Sent) (a : Nat) : Prop := ∃ b ∈ blocks, b.Valid ∧ b.piece.Covers a

instance (blocks : List Sent) (a : Nat) : Decidable (Covered blocks a) :=
  inferInstanceAs (Decidable (∃ b ∈ blocks, b.Valid ∧ b.piece.Covers a))

/-- What a file says: blocks inside the data, and offsets of pairs of bytes that are known. -/
structure Challenge where
  datasize : BitVec 32
  blocks : List Sent
  offsets : List (BitVec 32)
  blocks_lt : blocks.length < 2 ^ 16
  offsets_lt : offsets.length < 2 ^ 16
  fits : ∀ b ∈ blocks, b.offset.toNat + b.payload.length ≤ datasize.toNat
  inside : ∀ f ∈ offsets, f.toNat + 1 < datasize.toNat
  covered : ∀ f ∈ offsets, Covered blocks f.toNat ∧ Covered blocks (f.toNat + 1)

/-- The data of the blocks with the right checksum. -/
def validPieces (blocks : List Sent) : List (Piece Byte) := (blocks.filter fun b => decide b.Valid).map Sent.piece

/-- What the last block that covers `a` and has the right checksum has for it. -/
def byteAt (blocks : List Sent) (a : Nat) : Option Byte := Piece.lastAt (validPieces blocks) a

theorem mem_validPieces {blocks : List Sent} {p : Piece Byte} :
    p ∈ validPieces blocks ↔ ∃ b ∈ blocks, b.Valid ∧ b.piece = p := by
  unfold validPieces
  simp only [List.mem_map, List.mem_filter, decide_eq_true_eq, and_assoc]

theorem byteAt_isSome {blocks : List Sent} {a : Nat} : (byteAt blocks a).isSome ↔ Covered blocks a := by
  unfold byteAt Covered
  rw [Piece.lastAt_isSome]
  constructor
  · rintro ⟨p, hp, ha⟩
    obtain ⟨b, hb, hvalid, rfl⟩ := mem_validPieces.1 hp
    exact ⟨b, hb, hvalid, ha⟩
  · rintro ⟨b, hb, hvalid, ha⟩
    exact ⟨b.piece, mem_validPieces.2 ⟨b, hb, hvalid, rfl⟩, ha⟩

/-- **The byte at `a`** is that of a block with the right checksum that covers it, behind which no such block covers it
again. -/
theorem byteAt_eq_some {blocks : List Sent} {a : Nat} {x : Byte} : byteAt blocks a = some x ↔
    ∃ pre b post, blocks = pre ++ b :: post ∧ b.Valid ∧ b.piece.at? a = some x ∧ ¬ Covered post a := by
  unfold byteAt
  rw [Piece.lastAt_eq_some]
  constructor
  · rintro ⟨before, p, behind, hsplit, hx, hlast⟩
    obtain ⟨kept, rest, hkept, -, hrest⟩ := List.map_eq_append_iff.1 hsplit
    obtain ⟨b, kept', rfl, rfl, rfl⟩ := List.map_eq_cons_iff.1 hrest
    obtain ⟨pre, tail, rfl, -, htail⟩ := List.filter_eq_append_iff.1 hkept
    obtain ⟨skipped, post, rfl, -, hvalid, rfl⟩ := List.filter_eq_cons_iff.1 htail
    refine ⟨pre ++ skipped, b, post, by rw [List.append_assoc], of_decide_eq_true hvalid, hx, ?_⟩
    rintro ⟨c, hc, hcvalid, hcovers⟩
    exact hlast c.piece (mem_validPieces.2 ⟨c, hc, hcvalid, rfl⟩) hcovers
  · rintro ⟨pre, b, post, rfl, hvalid, hx, hlast⟩
    refine ⟨validPieces pre, b.piece, validPieces post, by simp [validPieces, hvalid], hx, fun p hp hcovers => ?_⟩
    obtain ⟨c, hc, hcvalid, rfl⟩ := mem_validPieces.1 hp
    exact hlast ⟨c, hc, hcvalid, hcovers⟩

/-- The byte at an address that is known. -/
def Challenge.byte (c : Challenge) (a : Nat) (h : Covered c.blocks a) : Byte :=
  (byteAt c.blocks a).get (byteAt_isSome.2 h)

/-- The digits of an offset of the flag. -/
def Challenge.unit (c : Challenge) (f : {f // f ∈ c.offsets}) : Text :=
  hex2 (c.byte f.1.toNat (c.covered f.1 f.2).1).toNat ++ hex2 (c.byte (f.1.toNat + 1) (c.covered f.1 f.2).2).toNat

/-- The flag, in hexadecimal digits. -/
def Challenge.text (c : Challenge) : Text := c.offsets.attach.flatMap c.unit

/-! ## The file -/

/-- The characters `BINFLAG` with their terminator. -/
def magic : List Byte := "BINFLAG\x00".toList.map fun c => BitVec.ofNat 8 c.toNat

def Sent.serialise (b : Sent) : List Byte :=
  be32 b.offset ++ (be16 b.cksum ++ (be16 (BitVec.ofNat 16 b.payload.length) ++ b.payload))

def Challenge.header (c : Challenge) : List Byte :=
  magic ++ (be32 c.datasize ++ (be16 (BitVec.ofNat 16 c.blocks.length) ++ be16 0))

def Challenge.serialise (c : Challenge) : List Byte :=
  c.header ++ (c.blocks.flatMap Sent.serialise ++
    (be16 (BitVec.ofNat 16 c.offsets.length) ++ c.offsets.flatMap be32))

variable {b : Sent} {c : Challenge} {payload file : List Byte} {sum : BitVec 16}

/-! ## Reading it back -/

theorem shift_add_eq_append (x y : Byte) : (x.setWidth 16 <<< 8) + y.setWidth 16 = x ++ y := by
  have hx := x.isLt
  have hy := y.isLt
  refine BitVec.eq_of_toNat_eq ?_
  rw [BitVec.toNat_append, ← Nat.shiftLeft_add_eq_or_of_lt hy]
  simp only [BitVec.toNat_add, BitVec.toNat_shiftLeft, BitVec.toNat_setWidth, Nat.shiftLeft_eq]
  omega

/-- **The checksum** of a payload of whole units. -/
theorem checksum_eq : ∀ {payload : List Byte} {sum : BitVec 16}, payload.length % 2 = 0 →
    checksum payload sum = some ((units payload).foldl (· ^^^ ·) sum)
  | [], _, _ => rfl
  | [_], _, h => by cases h
  | a :: b :: payload, sum, h => by
    rw [checksum, shift_add_eq_append, units, List.foldl_cons]
    rw [List.length_cons, List.length_cons] at h
    exact checksum_eq (by omega)

theorem toNat_ofNat_length {α : Type} {xs : List α} (h : xs.length < 2 ^ 16) :
    (BitVec.ofNat 16 xs.length).toNat = xs.length := by
  rw [BitVec.toNat_ofNat, Nat.mod_eq_of_lt h]

theorem readHeader_header : readHeader (c.header ++ file) =
    some (⟨c.datasize, BitVec.ofNat 16 c.blocks.length⟩, file) := by
  have hread : readBytes 16 (c.header ++ file) = some (c.header, file) := readBytes_append _ rfl
  have hdatasize : ntohl (load32 c.header 8) = c.datasize := ntohl_load32 _ _ _ rfl
  have hblocks : ntohs (load16 c.header 12) = BitVec.ofNat 16 c.blocks.length := by
    unfold Challenge.header
    rw [← List.append_assoc]
    exact ntohs_load16 _ _ _ rfl
  rw [readHeader, hread, ← hdatasize, ← hblocks]
  rfl

/-- The block that is read back. -/
def Sent.block (b : Sent) : Block := ⟨b.offset, b.cksum, BitVec.ofNat 16 b.payload.length, b.payload⟩

theorem readBlock_serialise : readBlock (b.serialise ++ file) = some (b.block, file) := by
  let tmp := be32 b.offset ++ (be16 b.cksum ++ be16 (BitVec.ofNat 16 b.payload.length))
  have hsplit : b.serialise ++ file = tmp ++ (b.payload ++ file) := by simp [Sent.serialise, tmp]
  have hread : readBytes 8 (tmp ++ (b.payload ++ file)) = some (tmp, b.payload ++ file) := readBytes_append _ rfl
  have hoffset : ntohl (load32 tmp 0) = b.offset := ntohl_load32 [] _ _ rfl
  have hcksum : ntohs (load16 tmp 4) = b.cksum := ntohs_load16 _ _ _ rfl
  have hlength : ntohs (load16 tmp 6) = BitVec.ofNat 16 b.payload.length := by
    have h := ntohs_load16 (be32 b.offset ++ be16 b.cksum) [] (BitVec.ofNat 16 b.payload.length) (i := 6) rfl
    rwa [List.append_nil, List.append_assoc] at h
  have hpayload : readBytes (BitVec.ofNat 16 b.payload.length).toNat (b.payload ++ file) = some (b.payload, file) :=
    readBytes_append _ (toNat_ofNat_length b.length_lt).symm
  rw [hsplit, readBlock, hread]
  dsimp only [Option.bind_eq_bind, Option.bind_some]
  rw [hlength, hpayload, hoffset, hcksum]
  rfl

/-- A block is read back, and it passes its check exactly if its checksum is the right one. -/
theorem readChecked_serialise : readChecked (b.serialise ++ file) = some ((b.block, decide b.Valid), file) := by
  have hsum : checksum b.block.payload 0 = some ((units b.payload).foldl (· ^^^ ·) 0) := checksum_eq b.even
  have hcheck : ((units b.payload).foldl (· ^^^ ·) 0 == b.cksum) = decide b.Valid := by
    rw [Bool.eq_iff_iff, beq_iff_eq, decide_eq_true_eq]
    exact eq_comm
  rw [readChecked, readBlock_serialise]
  dsimp only [Option.bind_eq_bind, Option.bind_some]
  rw [hsum, ← hcheck]
  rfl

theorem readFlag_serialise {offsets : List (BitVec 32)} (h : offsets.length < 2 ^ 16) :
    readFlag (be16 (BitVec.ofNat 16 offsets.length) ++ offsets.flatMap be32) = some offsets := by
  have hread : readBytes 2 (be16 (BitVec.ofNat 16 offsets.length) ++ offsets.flatMap be32) =
      some (be16 (BitVec.ofNat 16 offsets.length), offsets.flatMap be32) := readBytes_append _ rfl
  have hlength : ntohs (load16 (be16 (BitVec.ofNat 16 offsets.length)) 0) = BitVec.ofNat 16 offsets.length :=
    ntohs_load16 [] [] _ rfl
  have hoffset : readBytes (offsets.length * 4) (offsets.flatMap be32) = some (offsets.flatMap be32, []) := by
    have hall := readBytes_append [] (length_flatMap_be32 offsets)
    rwa [List.append_nil] at hall
  rw [readFlag, hread]
  dsimp only [Option.bind_eq_bind, Option.bind_some]
  rw [hlength, toNat_ofNat_length h, hoffset, Option.bind_some, map_ntohl_load32]

/-! ## The overlay -/

theorem foldlM_copyByte (dict : List Byte) (h : b.offset.toNat + b.payload.length < 2 ^ 32) :
    (List.range b.payload.length).foldlM b.block.copyByte dict = Piece.place dict b.piece := by
  refine foldlM_congr (fun j hj dict => ?_) dict
  have hj := List.mem_range.1 hj
  have hplace : (b.offset + BitVec.ofNat 32 j).toNat = b.offset.toNat + j := by
    rw [BitVec.toNat_add, BitVec.toNat_ofNat, Nat.mod_eq_of_lt (by omega : j < 2 ^ 32), Nat.mod_eq_of_lt (by omega)]
  unfold Block.copyByte Piece.placeElem
  change (b.payload[j]?.bind fun x => Piece.store dict (b.offset + BitVec.ofNat 32 j).toNat x) = _
  rw [hplace]
  rfl

/-- **The second loop** lays the pieces of the blocks with the right checksum over one another. -/
theorem foldlM_copyBlock {blocks : List Sent} (dict : List Byte)
    (h : ∀ b ∈ blocks, b.offset.toNat + b.payload.length < 2 ^ 32) :
    (blocks.map fun b => (b.block, decide b.Valid)).foldlM copyBlock dict =
      (validPieces blocks).foldlM Piece.place dict := by
  rw [validPieces, List.foldlM_map, List.foldlM_map, List.foldlM_filter]
  refine foldlM_congr (fun b hb dict => ?_) dict
  unfold copyBlock
  dsimp only
  split
  · have hcopy := foldlM_copyByte dict (h b hb)
    rwa [← toNat_ofNat_length b.length_lt] at hcopy
  · rfl

/-! ## The flag -/

theorem mapM_attach {α β : Type} {xs : List α} {f : α → Option β} {g : {x // x ∈ xs} → β}
    (h : ∀ x, f x.1 = some (g x)) : xs.mapM f = some (xs.attach.map g) := by
  conv_lhs => rw [← List.attach_map_subtype_val xs]
  rw [List.mapM_map, show f ∘ Subtype.val = fun x => some (g x) from funext h]
  exact List.mapM_pure

theorem Challenge.byte_eq {a : Nat} (h : Covered c.blocks a) : byteAt c.blocks a = some (c.byte a h) :=
  (Option.some_get _).symm

theorem readBlocks_serialise (c : Challenge) (file : List Byte) :
    readList readChecked (BitVec.ofNat 16 c.blocks.length).toNat (c.blocks.flatMap Sent.serialise ++ file) =
      some (c.blocks.map fun b => (b.block, decide b.Valid), file) := by
  rw [toNat_ofNat_length c.blocks_lt]
  exact readList_append (fun b _ ys => readChecked_serialise) file

/-- The bytes that are known are in `dict` after the second loop. -/
theorem exists_dict (fresh : Nat → Byte) (c : Challenge) : ∃ dict,
    (c.blocks.map fun b => (b.block, decide b.Valid)).foldlM copyBlock ((List.range c.datasize.toNat).map fresh) =
      some dict ∧ ∀ a (h : Covered c.blocks a), dict[a]? = some (c.byte a h) := by
  have hsize : ((List.range c.datasize.toNat).map fresh).length = c.datasize.toNat := by simp
  have hfits : ∀ p ∈ validPieces c.blocks,
      p.start + p.data.length ≤ ((List.range c.datasize.toNat).map fresh).length := by
    intro p hp
    obtain ⟨b, hb, -, rfl⟩ := mem_validPieces.1 hp
    rw [hsize]
    exact c.fits b hb
  obtain ⟨dict, hdict, -, hget⟩ := Piece.overlay_eq hfits
  refine ⟨dict, ?_, fun a h => ?_⟩
  · rw [foldlM_copyBlock _ fun b hb => lt_of_le_of_lt (c.fits b hb) c.datasize.isLt]
    exact hdict
  · rw [hget, ← byteAt, c.byte_eq h, Option.some_or]

theorem hexUnit_eq {dict : List Byte} (h : ∀ a (h : Covered c.blocks a), dict[a]? = some (c.byte a h))
    (f : {f // f ∈ c.offsets}) : hexUnit dict f.1 = some (c.unit f) := by
  have hlt := c.datasize.isLt
  have hinside := c.inside f.1 f.2
  have hnext : (f.1 + 1).toNat = f.1.toNat + 1 := by
    rw [BitVec.toNat_add, show (1 : BitVec 32).toNat = 1 from rfl, Nat.mod_eq_of_lt (by omega)]
  rw [hexUnit, hnext, h _ (c.covered f.1 f.2).1, h _ (c.covered f.1 f.2).2]
  rfl

/-- **The flag** that was sent is decoded, whatever the memory held before. -/
theorem decode_serialise (fresh : Nat → Byte) (c : Challenge) : decode fresh c.serialise = some c.text := by
  obtain ⟨dict, hcopy, hbyte⟩ := exists_dict fresh c
  rw [decode, Challenge.serialise, readHeader_header]
  dsimp only [Option.bind_eq_bind, Option.bind_some]
  rw [readBlocks_serialise, Option.bind_some]
  dsimp only
  rw [hcopy, Option.bind_some, readFlag_serialise c.offsets_lt, Option.bind_some, mapM_attach (hexUnit_eq hbyte),
    Option.bind_some, Challenge.text, List.flatMap_def]

/-- Three blocks: the second one covers a part of the first one, and the third one has a wrong checksum. -/
def overlapping : Challenge where
  datasize := 4
  blocks := [⟨0, 0x0206#16, [0x61, 0x62, 0x63, 0x64], by decide, by decide⟩,
    ⟨1, 0x6566#16, [0x65, 0x66], by decide, by decide⟩, ⟨2, 0#16, [0x67, 0x68], by decide, by decide⟩]
  offsets := [2]
  blocks_lt := by decide
  offsets_lt := by decide
  fits := by decide
  inside := List.forall_mem_singleton.2 (by decide)
  covered := List.forall_mem_singleton.2 (by decide)

theorem decode_serialise_overlapping : decode (fun _ => 0) overlapping.serialise = some "6664".toList :=
  (decode_serialise _ overlapping).trans (by decide +kernel)

end IntroNP.BinFlag
