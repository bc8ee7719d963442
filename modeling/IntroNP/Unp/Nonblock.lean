import IntroNP.Lib.Bytes
import IntroNP.Lib.System

/-!
# The echo client with nonblocking I/O, and its server

`str_cli` of `nonblock/strclinonb.c` moves bytes from the standard input to a socket and from the socket to the
standard output, through two buffers, and never waits in a call but in `select`. At the other end of the connection is
`str_echo`. Both run over the same kernel: a call of `read` or `write` moves some of the bytes it could move.
-/

namespace IntroNP.Unp

def MAXLINE : Nat := 4096

/-! ## The client -/

/-- A buffer of `MAXLINE` bytes: those in front of its input pointer, and the place of its output pointer. -/
structure Buf where
  bytes : List Byte
  optr : Nat

namespace Buf

def empty : Buf := ⟨[], 0⟩

/-- What is between the pointers. -/
def pending (b : Buf) : List Byte := b.bytes.drop b.optr

/-- `&to[MAXLINE] - toiptr`. -/
def room (b : Buf) : Nat := MAXLINE - b.bytes.length

/-- `n` bytes were read to the input pointer. -/
def put (b : Buf) (xs : List Byte) : Buf := { b with bytes := b.bytes ++ xs }

/-- `n` bytes were written from the output pointer; both pointers go back when they meet. -/
def took (b : Buf) (n : Nat) : Buf :=
  if b.optr + n = b.bytes.length then empty else { b with optr := b.optr + n }

end Buf

/-- The calls in the loop behind `select`, in order. -/
inductive Call
  | readStdin
  | readSock
  | writeStdout
  | writeSock
  deriving DecidableEq

/-- Where the client is. `quit` is `err_quit`, which ends the process. -/
inductive Pc
  | select
  | before (call : Call)
  | returned
  | quit
  deriving DecidableEq

def Call.next : Call → Pc
  | .readStdin => .before .readSock
  | .readSock => .before .writeStdout
  | .writeStdout => .before .writeSock
  | .writeSock => .select

/-- The variables of `str_cli`. Its two sets have a bit for each of the four calls. -/
structure StrCli where
  toBuf : Buf
  frBuf : Buf
  stdineof : Bool
  fds : Call → Bool
  pc : Pc

namespace StrCli

def start : StrCli := ⟨.empty, .empty, false, fun _ => false, .select⟩

/-- The bits that are set in front of `select`. -/
def asked (c : StrCli) : Call → Bool
  | .readStdin => !c.stdineof && decide (c.toBuf.bytes.length < MAXLINE)
  | .readSock => decide (c.frBuf.bytes.length < MAXLINE)
  | .writeStdout => decide (c.frBuf.optr ≠ c.frBuf.bytes.length)
  | .writeSock => decide (c.toBuf.optr ≠ c.toBuf.bytes.length)

/-- Whether a call is made when the client gets there. -/
def makes (c : StrCli) : Call → Bool
  | .readStdin => c.fds .readStdin
  | .readSock => c.fds .readSock
  | .writeStdout => c.fds .writeStdout && decide (0 < c.frBuf.bytes.length - c.frBuf.optr)
  | .writeSock => c.fds .writeSock && decide (0 < c.toBuf.bytes.length - c.toBuf.optr)

/-- `select` returned. -/
def selected (c : StrCli) (ready : Call → Bool) : StrCli := { c with fds := ready, pc := .before .readStdin }

/-- A call is not made, or it would have blocked. -/
def pass (c : StrCli) (call : Call) : StrCli := { c with pc := call.next }

/-- `read` on the standard input returned these bytes; and how often `Shutdown` is then called. -/
def readStdin (c : StrCli) : List Byte → StrCli × Nat
  | [] => ({ c.pass .readStdin with stdineof := true }, if c.toBuf.optr = c.toBuf.bytes.length then 1 else 0)
  | xs => ({ c.pass .readStdin with toBuf := c.toBuf.put xs, fds := fun x => x = .writeSock ∨ c.fds x }, 0)

/-- `read` on the socket returned these bytes. -/
def readSock (c : StrCli) : List Byte → StrCli
  | [] => { c with pc := if c.stdineof then .returned else .quit }
  | xs => { c.pass .readSock with frBuf := c.frBuf.put xs, fds := fun x => x = .writeStdout ∨ c.fds x }

/-- `write` on the standard output has written `n` bytes. -/
def writeStdout (c : StrCli) (n : Nat) : StrCli := { c.pass .writeStdout with frBuf := c.frBuf.took n }

/-- `write` on the socket has written `n` bytes; and how often `Shutdown` is then called. -/
def writeSock (c : StrCli) (n : Nat) : StrCli × Nat :=
  ({ c.pass .writeSock with toBuf := c.toBuf.took n },
    if c.toBuf.optr + n = c.toBuf.bytes.length ∧ c.stdineof then 1 else 0)

end StrCli

/-! ## The server -/

/-- Where `str_echo` is: in `read`, in `Writen` with these bytes left, back in its caller, and gone. -/
inductive Echo
  | reading
  | writing (left : List Byte)
  | returned
  | closed

/-- What `Writen` has left. -/
def Echo.left : Echo → List Byte
  | .writing xs => xs
  | _ => []

/-- `read` returned these bytes. -/
def Echo.read : List Byte → Echo
  | [] => .returned
  | xs => .writing xs

/-- `write` has written `n` bytes. -/
def Echo.wrote (left : List Byte) (n : Nat) : Echo := if n = left.length then .reading else .writing (left.drop n)

theorem Echo.left_wrote {left : List Byte} {n : Nat} : (Echo.wrote left n).left = left.drop n := by
  unfold Echo.wrote
  split
  · rename_i hall
    rw [hall, List.drop_length]
    rfl
  · rfl

/-! ## The two of them -/

/-- `read` of at most `n` bytes from a stream, which has ended behind these or not: what it returns, and what is
left. -/
inductive Reads (n : Nat) (stream : List Byte) (ended : Prop) : List Byte → List Byte → Prop
  | none (h : n = 0) : Reads n stream ended [] stream
  | some {xs rest : List Byte} (h : stream = xs ++ rest) (hxs : xs ≠ []) (hn : xs.length ≤ n) :
      Reads n stream ended xs rest
  | eof (h : stream = []) (hended : ended) : Reads n stream ended [] stream

/-- What the standard input has still to give, the client, the bytes on their way to the server and how often a FIN was
sent behind them, the server, the bytes on their way back, and what the standard output was given. -/
structure Session where
  unread : List Byte
  client : StrCli
  up : List Byte
  fins : Nat
  server : Echo
  down : List Byte
  out : List Byte

/-- The two processes. -/
inductive Who
  | client
  | server

namespace Session

def start (input : List Byte) : Session := ⟨input, .start, [], 0, .reading, [], []⟩

/-- What `select` finds ready, where the connection has room for `upCap` bytes. -/
def ready (upCap : Nat) (s : Session) : Call → Prop
  | .readStdin => True
  | .readSock => s.down ≠ [] ∨ s.server = .closed
  | .writeStdout => True
  | .writeSock => s.up.length < upCap

/-- The client read `xs` from its standard input, which has still to give `rest`. -/
def readStdin (s : Session) (xs rest : List Byte) : Session :=
  { s with unread := rest, client := (s.client.readStdin xs).1, fins := s.fins + (s.client.readStdin xs).2 }

def readSock (s : Session) (xs rest : List Byte) : Session := { s with down := rest, client := s.client.readSock xs }

def writeStdout (s : Session) (n : Nat) : Session :=
  { s with out := s.out ++ s.client.frBuf.pending.take n, client := s.client.writeStdout n }

def writeSock (s : Session) (n : Nat) : Session :=
  { s with
    up := s.up ++ s.client.toBuf.pending.take n, client := (s.client.writeSock n).1,
    fins := s.fins + (s.client.writeSock n).2 }

/-- The server read `xs`. -/
def read (s : Session) (xs rest : List Byte) : Session := { s with up := rest, server := .read xs }

def write (s : Session) (left : List Byte) (n : Nat) : Session :=
  { s with down := s.down ++ left.take n, server := .wrote left n }

/-- A step of one process. -/
inductive Step (upCap downCap : Nat) (s : Session) : Who → Session → Prop
  | select {ready : Call → Bool} (hpc : s.client.pc = .select)
      (hready : ∀ x, ready x → s.client.asked x ∧ s.ready upCap x) (hsome : ∃ x, ready x) :
      Step upCap downCap s .client { s with client := s.client.selected ready }
  | skip {call : Call} (hpc : s.client.pc = .before call) (hmakes : s.client.makes call = false) :
      Step upCap downCap s .client { s with client := s.client.pass call }
  | block {call : Call} (hpc : s.client.pc = .before call) (hmakes : s.client.makes call) :
      Step upCap downCap s .client { s with client := s.client.pass call }
  | readStdin {xs rest : List Byte} (hpc : s.client.pc = .before .readStdin) (hmakes : s.client.makes .readStdin)
      (hread : Reads s.client.toBuf.room s.unread True xs rest) :
      Step upCap downCap s .client (s.readStdin xs rest)
  | readSock {xs rest : List Byte} (hpc : s.client.pc = .before .readSock) (hmakes : s.client.makes .readSock)
      (hread : Reads s.client.frBuf.room s.down (s.server = .closed) xs rest) :
      Step upCap downCap s .client (s.readSock xs rest)
  | writeStdout {n : Nat} (hpc : s.client.pc = .before .writeStdout) (hmakes : s.client.makes .writeStdout)
      (hpos : 0 < n) (hn : n ≤ s.client.frBuf.pending.length) :
      Step upCap downCap s .client (s.writeStdout n)
  | writeSock {n : Nat} (hpc : s.client.pc = .before .writeSock) (hmakes : s.client.makes .writeSock)
      (hpos : 0 < n) (hn : n ≤ s.client.toBuf.pending.length) (hroom : s.up.length + n ≤ upCap) :
      Step upCap downCap s .client (s.writeSock n)
  | read {xs rest : List Byte} (hserver : s.server = .reading) (hread : Reads MAXLINE s.up (0 < s.fins) xs rest) :
      Step upCap downCap s .server (s.read xs rest)
  | write {left : List Byte} {n : Nat} (hserver : s.server = .writing left) (hpos : 0 < n) (hn : n ≤ left.length)
      (hroom : s.down.length + n ≤ downCap) :
      Step upCap downCap s .server (s.write left n)
  | exit (hserver : s.server = .returned) : Step upCap downCap s .server { s with server := .closed }

end Session

/-- A session over a connection that has room for `upCap` bytes on their way to the server and `downCap` on their way
back, with this standard input. -/
def session (upCap downCap : Nat) (input : List Byte) : System Session Who where
  init s := s = .start input
  step := Session.Step upCap downCap

end IntroNP.Unp
