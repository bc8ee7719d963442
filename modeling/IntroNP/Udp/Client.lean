import IntroNP.Lib.Stream
import IntroNP.Lib.Cells

/-!
# File transfer over UDP: the client

The client splits each file into fragments of at most 1000 bytes and sends them, one datagram each, in passes over all
the files, and looks after each datagram whether a reply has come. A fragment that is acknowledged is passed over. The
fragments for which `ACKed` has no cell are queued in `send_failed`, and sent again after the pass until none is left.
The client stops when it is told to.

Every pass opens the directory, which is never closed, and every file, which is. So each pass takes one descriptor for
good, and a client that has no descriptor left for a file stops as well.

`ACKed[{seq_num, offset}]` is read through `operator[]` before a fragment is sent, and so has a cell for it.
-/

namespace IntroNP.Udp

open Std

/-- A `pair<int, int>`. -/
structure Pii where
  seq : Int
  offset : Int
  deriving DecidableEq

instance : Ord Pii := ⟨compareLex (compareOn Pii.seq) (compareOn Pii.offset)⟩

instance : TransOrd Pii := inferInstanceAs (TransCmp (compareLex (compareOn Pii.seq) (compareOn Pii.offset)))

instance : LawfulEqOrd Pii where
  compare_self {a} := (inferInstance : ReflCmp (compareLex (compareOn Pii.seq) (compareOn Pii.offset))).compare_self
  eq_of_compare {a b} h := by
    have hlex : compareLex (compareOn Pii.seq) (compareOn Pii.offset) a b = .eq := h
    obtain ⟨hs, ho⟩ := Ordering.then_eq_eq.1 hlex
    cases a
    cases b
    cases Std.compare_eq_iff_eq.1 hs
    cases Std.compare_eq_iff_eq.1 ho
    rfl

/-! ## Files and datagrams -/

/-- The `n` calls of `fread` that read 1000 bytes each, and what is left. -/
def readChunks : Nat → Text → List Text × Text
  | 0, fp => ([], fp)
  | n + 1, fp =>
    let r := readChunks n (fp.drop 1000)
    (fp.take 1000 :: r.1, r.2)

/-- The vector `content` of a file. -/
def split (file : Text) : List Text :=
  if file.length < 1000 then [file]
  else
    let r := readChunks (file.length / 1000) file
    if file.length % 1000 ≠ 0 then r.1 ++ [r.2.take (file.length - 1000 * (file.length / 1000))] else r.1

/-- The datagram of one fragment. -/
def message (seqNum n offset : Nat) (name fragment : Text) : Text :=
  "<".toList ++ toDecimal seqNum ++ " ".toList ++ toDecimal n ++ " ".toList ++ toDecimal offset ++ " ".toList ++
    toDecimal fragment.length ++ " ".toList ++ name ++ " >".toList ++ fragment

/-- An entry of the directory that is read: any name, and the content of the file. -/
structure Entry where
  name : Text
  content : Text

/-- A file of the directory. Its name, a `d_name`, is at most 255 bytes long, and has no white space and no `>` in it;
the number of its fragments is an `int`. -/
structure File where
  name : Text
  content : Text
  name_ne : name ≠ []
  name_word : ∀ c ∈ name, isspace c = false
  name_angle : ∀ c ∈ name, c ≠ '>'
  name_short : name.length ≤ 255
  count_int : (split content).length < 2 ^ 31

/-- The files that are sent, numbered from 0. -/
structure Files where
  list : List File
  count_int : list.length < 2 ^ 31

/-- The files, as the client finds them in its directory. -/
def Files.entries (fs : Files) : List Entry := fs.list.map fun f => ⟨f.name, f.content⟩

/-- The datagram of fragment `offset` of file `seqNum`, if there is one. -/
def Files.datagram (fs : Files) (seqNum offset : Nat) : Option Text :=
  match fs.list[seqNum]? with
  | none => none
  | some f => ((split f.content)[offset]?).map fun fragment =>
      message seqNum (split f.content).length offset f.name fragment

/-! ## Replies -/

/-- What `decompose` reads from a reply. -/
structure Reply where
  seq : Option Int
  offset : Option Int
  buf : Text
  deriving DecidableEq

/-- The stream operations of `decompose`. -/
def decomposeReply (content : Text) : Reply :=
  let seq := (IStream.ofText content).readInt none
  let offset := seq.2.readInt none
  let buf := offset.2.readWord []
  ⟨seq.1, offset.1, buf.1⟩

/-- What `recvfrom` leaves in a cleared buffer of 1024 bytes, as a C string; nothing when no datagram was there. -/
def ackbuf (d : Option Text) : Text := ((d.getD []).take 1024).takeWhile (· != Char.ofNat 0)

/-! ## The machine -/

/-- Where the client is: at the head of its outer loop; at the head of the loop over the fragments, waiting for a reply
to a fragment; at the head of the loop over `send_failed`, with the keys that are left, waiting for a reply there; at its
end, as it was told to stop; at its end, as it could not open a file; or in a loop over elements of which it has erased
the one that it is at, about which C++ says nothing. -/
inductive Pc
  | head
  | send (seqNum offset : Nat)
  | await (seqNum offset : Nat) (msg : Text)
  | resend (keys : List Pii)
  | awaitAgain (key : Pii) (keys : List Pii)
  | done
  | exited
  | undefined
  deriving DecidableEq

/-- The globals of the client, and the number of descriptors that it can still open. -/
structure Client where
  pc : Pc
  acked : ExtTreeMap Pii Int
  sendFailed : ExtTreeMap Pii Text
  termFlag : Bool
  free : Nat

/-- A client that can open `free` descriptors besides those it was started with. -/
def Client.start (free : Nat) : Client := ⟨.head, ∅, ∅, false, free⟩

/-- A reply is looked at: the flag is set by `terminate`, and a cell of `ACKed` by `ACK`. -/
def Client.hear (c : Client) (r : Reply) : Client :=
  if r.buf = "terminate" then { c with termFlag := true }
  else if r.buf = "ACK" then
    match r.seq, r.offset with
    | some seq, some offset => { c with acked := c.acked.insert ⟨seq, offset⟩ 1 }
    | _, _ => c
  else c

/-- What the client does next with the entries `dir` of its directory when it need not wait, and the datagram it
sends. -/
def Client.goOver (dir : List Entry) (c : Client) : Option (Client × Option Text) :=
  match c.pc with
  | .head =>
    if c.termFlag then some ({ c with pc := .done }, none)
    else
      match c.free with
      -- `opendir` fails, and nothing is read
      | 0 => some (c, none)
      -- the directory is never closed
      | free + 1 => some ({ c with pc := .send 0 0, free := free }, none)
  | .send seqNum offset =>
    match dir[seqNum]? with
    | none =>
      -- the pass is over
      some ({ c with pc := .resend c.sendFailed.keys }, none)
    | some f =>
      -- `fopen` needs a descriptor, until the `fclose` behind the last fragment
      if offset = 0 ∧ c.free = 0 then some ({ c with pc := .exited }, none)
      else
        match (split f.content)[offset]? with
        | none => some ({ c with pc := .send (seqNum + 1) 0 }, none)
        | some fragment =>
          let acked := c.acked.getD ⟨seqNum, offset⟩ 0
          let c := { c with acked := c.acked.insertIfNew ⟨seqNum, offset⟩ 0 }
          if acked ≠ 0 then some ({ c with pc := .send seqNum (offset + 1) }, none)
          else
            let msg := message seqNum (split f.content).length offset f.name fragment
            some ({ c with pc := .await seqNum offset msg }, some msg)
  | .resend [] =>
    if c.sendFailed.isEmpty then some ({ c with pc := .head }, none)
    else some ({ c with pc := .resend c.sendFailed.keys }, none)
  | .resend (key :: keys) => some ({ c with pc := .awaitAgain key keys }, c.sendFailed[key]?)
  | .await .. | .awaitAgain .. | .done | .exited | .undefined => none

/-- What the client does next with its files when it need not wait, and the datagram it sends. -/
def Client.go (fs : Files) (c : Client) : Option (Client × Option Text) := c.goOver fs.entries

/-- What the client does when it has looked for a reply. -/
def Client.look (c : Client) (d : Option Text) : Option Client :=
  let r := decomposeReply (ackbuf d)
  match c.pc with
  | .await seqNum offset msg =>
    let c := c.hear r
    if c.termFlag then some { c with pc := .done }
    else
      some { c with
        pc := .send seqNum (offset + 1)
        sendFailed := if ⟨seqNum, offset⟩ ∈ c.acked then c.sendFailed else c.sendFailed.insert ⟨seqNum, offset⟩ msg }
  | .awaitAgain key keys =>
    let c := c.hear r
    if r.buf = "ACK" then
      -- the loop is at the element that is erased
      some { c with sendFailed := c.sendFailed.erase key, pc := if c.termFlag then .done else .undefined }
    else some { c with pc := if c.termFlag then .done else .resend keys }
  | .head | .send .. | .resend .. | .done | .exited | .undefined => none

end IntroNP.Udp
