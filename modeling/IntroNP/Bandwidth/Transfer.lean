import IntroNP.Lib.CString

/-!
# The bandwidth test: server and client

What the server sends on a connection, and the loop in which the client receives it. `none` is an error of a call. The
times that the client takes, and what it computes from them, are left out.
-/

namespace IntroNP.Bandwidth

/-! ## The server -/

/-- How the calls of the server turn out: what it reads, and how much each `send` takes of what it is given. -/
structure Calls where
  request : Option Text
  ack : Option Nat
  send : Nat → Option Nat

/-- `"let me sleep"`, which is sent with its terminator. -/
def ackMsg : Text := "let me sleep\x00".toList

def message : Text := List.replicate (1024 * 1024) 'T'

/-- The loop over the blocks, from turn `i` on. -/
def sendBlocks (send : Nat → Option Nat) : Nat → Nat → Text
  | 0, _ => []
  | turns + 1, i =>
    match send i with
    | none => []
    | some num => message.take num ++ sendBlocks send turns (i + 1)

/-- What the server sends on a connection until it closes it. -/
def serve (calls : Calls) : Text :=
  match calls.request with
  | none => []
  | some str =>
    if str = "Wake up".toList then
      match calls.ack with
      | none => []
      | some num => ackMsg.take num ++ sendBlocks calls.send 50 0
    else sendBlocks calls.send 50 0

/-! ## The client -/

/-- The counters of the loop, and whether `buffer[bytesRead] = '\0'` wrote behind the array. -/
structure Client where
  byteAll : Nat
  getTime : Nat
  overrun : Bool

/-- The sizes of the arrays that `recv` is given: one for the reply, and one in every turn of the loop. -/
def room : Nat → Nat
  | 0 => 1024
  | _ + 1 => 1024 * 1024

/-- A turn of the loop. -/
def Client.turn (s : Client) : Option Text → Client
  | none => s
  | some bytes => ⟨s.byteAll + bytes.length, s.getTime + 1, s.overrun || bytes.length == 1024 * 1024⟩

/-- The loop, from call `k` of `recv` on: `none` if it has not ended after `turns` turns. -/
def receiveLoop (recv : Nat → Option Text) : Nat → Nat → Client → Option Client
  | 0, _, _ => none
  | turns + 1, k, s =>
    if s.byteAll < 50 * 1024 * 1024 then receiveLoop recv turns (k + 1) (s.turn (recv k)) else some s

/-- The client, once its request is sent. It fails if the reply cannot be received. -/
def client (turns : Nat) (recv : Nat → Option Text) : Option (Except Unit Client) :=
  match recv 0 with
  | none => some (.error ())
  | some _ => (receiveLoop recv turns 1 ⟨0, 0, false⟩).map .ok

end IntroNP.Bandwidth
