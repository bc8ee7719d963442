import Mathlib.Data.List.Basic

/-!
# Numbers in bytes

Numbers of 16 and 32 bits as big-endian bytes, and as a little-endian machine finds them in its memory, where `ntohs`
and `ntohl` turn them round. `none` is an access outside of an array, or a file that ends too early.

- `ntohs_load16`, `ntohl_load32`: what was written big-endian is read back;
- `map_ntohl_load32`: so is an array of numbers;
- `readBytes_append`, `readList_append`: reading takes bytes, and items, off the front.
-/

namespace IntroNP

abbrev Byte := BitVec 8

def be16 (x : BitVec 16) : List Byte := [x.extractLsb' 8 8, x.extractLsb' 0 8]

def be32 (x : BitVec 32) : List Byte :=
  [x.extractLsb' 24 8, x.extractLsb' 16 8, x.extractLsb' 8 8, x.extractLsb' 0 8]

/-- The 16 bits at `i` in the memory of a little-endian machine. -/
def load16 (bs : List Byte) (i : Nat) : BitVec 16 := bs.getD (i + 1) 0 ++ bs.getD i 0

/-- The 32 bits at `i` in the memory of a little-endian machine. -/
def load32 (bs : List Byte) (i : Nat) : BitVec 32 :=
  bs.getD (i + 3) 0 ++ bs.getD (i + 2) 0 ++ bs.getD (i + 1) 0 ++ bs.getD i 0

def ntohs (x : BitVec 16) : BitVec 16 := x.extractLsb' 0 8 ++ x.extractLsb' 8 8

def ntohl (x : BitVec 32) : BitVec 32 :=
  x.extractLsb' 0 8 ++ x.extractLsb' 8 8 ++ x.extractLsb' 16 8 ++ x.extractLsb' 24 8

/-- `read` of `n` bytes that are there. -/
def readBytes (n : Nat) (file : List Byte) : Option (List Byte × List Byte) :=
  if n ≤ file.length then some (file.take n, file.drop n) else none

/-- `n` items are read, one after another. -/
def readList {α : Type} (read : List Byte → Option (α × List Byte)) : Nat → List Byte → Option (List α × List Byte)
  | 0, file => some ([], file)
  | n + 1, file => do
    let (x, file) ← read file
    let (xs, file) ← readList read n file
    some (x :: xs, file)

variable {xs ys : List Byte} {i n : Nat}

@[simp] theorem be16_length (x : BitVec 16) : (be16 x).length = 2 := rfl

@[simp] theorem be32_length (x : BitVec 32) : (be32 x).length = 4 := rfl

theorem getD_append_add (xs ys : List Byte) (k : Nat) : (xs ++ ys).getD (xs.length + k) 0 = ys.getD k 0 := by
  rw [List.getD_eq_getElem?_getD, List.getElem?_append_right (by omega), Nat.add_sub_cancel_left,
    List.getD_eq_getElem?_getD]

theorem ntohs_append (a b : Byte) : ntohs (b ++ a) = a ++ b := by
  unfold ntohs
  rw [BitVec.extractLsb'_append_eq_right, BitVec.extractLsb'_append_eq_left]

theorem ntohl_append (a b c d : Byte) : ntohl (d ++ c ++ b ++ a) = a ++ b ++ c ++ d := by
  unfold ntohl
  rw [BitVec.extractLsb'_append_eq_right, BitVec.extractLsb'_append_eq_of_le (by omega),
    BitVec.extractLsb'_append_eq_right, BitVec.extractLsb'_append_eq_of_le (by omega),
    BitVec.extractLsb'_append_eq_of_le (by omega), BitVec.extractLsb'_append_eq_right,
    BitVec.extractLsb'_append_eq_of_le (by omega), BitVec.extractLsb'_append_eq_of_le (by omega),
    BitVec.extractLsb'_append_eq_left]

theorem ntohs_load16 (xs ys : List Byte) (x : BitVec 16) (h : xs.length = i) :
    ntohs (load16 (xs ++ (be16 x ++ ys)) i) = x := by
  subst h
  have h0 := getD_append_add xs (be16 x ++ ys) 0
  rw [Nat.add_zero] at h0
  rw [load16, getD_append_add, h0, ntohs_append]
  exact (BitVec.extractLsb'_append_extractLsb'_eq_extractLsb' rfl).trans BitVec.extractLsb'_eq_self

theorem ntohl_load32 (xs ys : List Byte) (x : BitVec 32) (h : xs.length = i) :
    ntohl (load32 (xs ++ (be32 x ++ ys)) i) = x := by
  subst h
  have h0 := getD_append_add xs (be32 x ++ ys) 0
  rw [Nat.add_zero] at h0
  rw [load32, getD_append_add, getD_append_add, getD_append_add, h0, ntohl_append]
  have hhigh : x.extractLsb' 24 8 ++ x.extractLsb' 16 8 = x.extractLsb' 16 16 :=
    BitVec.extractLsb'_append_extractLsb'_eq_extractLsb' rfl
  have hmid : x.extractLsb' 16 16 ++ x.extractLsb' 8 8 = x.extractLsb' 8 24 :=
    BitVec.extractLsb'_append_extractLsb'_eq_extractLsb' rfl
  have hlow : x.extractLsb' 8 24 ++ x.extractLsb' 0 8 = x.extractLsb' 0 32 :=
    BitVec.extractLsb'_append_extractLsb'_eq_extractLsb' rfl
  change x.extractLsb' 24 8 ++ x.extractLsb' 16 8 ++ x.extractLsb' 8 8 ++ x.extractLsb' 0 8 = x
  rw [hhigh, hmid, hlow]
  exact BitVec.extractLsb'_eq_self

theorem readBytes_append (ys : List Byte) (h : xs.length = n) : readBytes n (xs ++ ys) = some (xs, ys) := by
  subst h
  simp [readBytes]

/-- **Items** that are read back one by one are read back. -/
theorem readList_append {α β : Type} {read : List Byte → Option (α × List Byte)} {write : β → List Byte} {f : β → α} :
    ∀ {xs : List β}, (∀ x ∈ xs, ∀ ys, read (write x ++ ys) = some (f x, ys)) → ∀ ys,
      readList read xs.length (xs.flatMap write ++ ys) = some (xs.map f, ys)
  | [], _, _ => rfl
  | x :: xs, h, ys => by
    have hrest : readList read xs.length (xs.flatMap write ++ ys) = some (xs.map f, ys) :=
      readList_append (fun y hy => h y (List.mem_cons_of_mem _ hy)) ys
    rw [List.flatMap_cons, List.append_assoc, List.length_cons, readList, h x List.mem_cons_self]
    dsimp only [Option.bind_eq_bind, Option.bind_some]
    rw [hrest]
    rfl

theorem length_flatMap_be32 (xs : List (BitVec 32)) : (xs.flatMap be32).length = xs.length * 4 := by
  simp [List.length_flatMap]

/-- An array of 32-bit numbers is read back. -/
theorem map_ntohl_load32 (xs : List (BitVec 32)) :
    (List.range xs.length).map (fun i => ntohl (load32 (xs.flatMap be32) (i * 4))) = xs := by
  refine List.ext_getElem (by simp) fun i h h' => ?_
  have hsplit : xs = xs.take i ++ xs[i] :: xs.drop (i + 1) := by simp
  have hbytes : xs.flatMap be32 = (xs.take i).flatMap be32 ++ (be32 xs[i] ++ (xs.drop (i + 1)).flatMap be32) := by
    conv_lhs => rw [hsplit]
    rw [List.flatMap_append, List.flatMap_cons]
  rw [List.getElem_map, List.getElem_range, hbytes]
  exact ntohl_load32 _ _ _ (by rw [length_flatMap_be32, List.length_take]; omega)

end IntroNP
