import IntroNP.Lib.CppString

/-!
# The VPN tunnel

`tunvpn_server` and `tunvpn_client` between their calls of `read` and `write`. The server keeps nothing from one call of
`read` to the next, so that it is what it makes of the bytes of one call, and a run is the calls in the order in which
`poll` lets them happen. An exception that `std::string` throws is not caught and ends the server.
-/

namespace IntroNP.Vpn

/-! ## Addresses -/

/-- An IPv4 address, as the four bytes of a `struct in_addr`. -/
structure Addr where
  a : UInt8
  b : UInt8
  c : UInt8
  d : UInt8
  deriving DecidableEq

/-- The address that `htonl` makes of a number. -/
def Addr.htonl (n : Nat) : Addr := ⟨.ofNat (n / 2 ^ 24), .ofNat (n / 2 ^ 16), .ofNat (n / 2 ^ 8), .ofNat n⟩

def inetNtoa (addr : Addr) : Text :=
  toDecimal addr.a.toNat ++ '.' :: (toDecimal addr.b.toNat ++ '.' :: (toDecimal addr.c.toNat ++ '.' ::
    toDecimal addr.d.toNat))

example : inetNtoa (.htonl 0x0a0000fe) = "10.0.0.254" := by decide

/-- The number of the address to which a client adds its own. -/
def addrBase : Int := 0x0a00000a

/-- What a call of `read` puts in the buffer. -/
abbrev Packet := List UInt8

/-- `sizeof(struct iphdr)`. -/
def sizeofIphdr : Nat := 20

/-- The field `daddr` of the header at the start of the buffer. -/
def daddr (buffer : Packet) : Addr := ⟨buffer.getD 16 0, buffer.getD 17 0, buffer.getD 18 0, buffer.getD 19 0⟩

/-! ## The server -/

/-- The descriptors of `poll_fd` in `tunvpn_server`. -/
inductive Fd
  | tun
  | client1
  | client2
  deriving DecidableEq

/-- A call of `write`, with the descriptor from which its bytes were read. -/
structure Copy where
  source : Fd
  target : Fd
  bytes : Packet
  deriving DecidableEq

/-- The first `if` of the loop: a packet from the tunnel device. -/
def fromTun (clientAddr1 clientAddr2 : Addr) (buffer : Packet) : Except Exn (List Copy) :=
  if buffer.length ≥ sizeofIphdr then do
    let destAddrStr := inetNtoa (daddr buffer)
    let clientAddrStr1 := inetNtoa clientAddr1
    let clientAddrStr2 := inetNtoa clientAddr2
    let lastDotPosdest := findLastOf destAddrStr '.'
    let lastDotPos1 := findLastOf clientAddrStr1 '.'
    -- the second place, too, is taken from the text of the first client
    let lastDotPos2 := findLastOf clientAddrStr1 '.'
    let lastdest ← substr destAddrStr (behind lastDotPosdest)
    let lastone ← substr clientAddrStr1 (behind lastDotPos1)
    let lasttwo ← substr clientAddrStr2 (behind lastDotPos2)
    let lastNumdest ← stoi lastdest
    let lastNumber1 ← stoi lastone
    let lastNumber2 ← stoi lasttwo
    if lastNumber1 = lastNumdest - 10 then return [⟨.tun, .client1, buffer⟩]
    else if lastNumber2 = lastNumdest - 10 then return [⟨.tun, .client2, buffer⟩]
    else return []
  else return []

/-- The other two: a packet from `source`, a client, goes to `other` if it is for it, else to the tunnel device. -/
def fromClient (source other : Fd) (otherAddr : Addr) (buffer : Packet) : Except Exn (List Copy) :=
  if buffer.length ≥ sizeofIphdr then do
    let destAddrStr := inetNtoa (daddr buffer)
    let otherAddrStr := inetNtoa otherAddr
    let lastDotPosdest := findLastOf destAddrStr '.'
    let lastDotPos := findLastOf otherAddrStr '.'
    let lastdest ← substr destAddrStr (behind lastDotPosdest)
    let lastother ← substr otherAddrStr (behind lastDotPos)
    let lastNumdest ← stoi lastdest
    let lastNumber ← stoi lastother
    if lastNumber = lastNumdest - 10 then return [⟨source, other, buffer⟩]
    else return [⟨source, .tun, buffer⟩]
  else return []

def fromClient1 (clientAddr2 : Addr) (buffer : Packet) : Except Exn (List Copy) :=
  fromClient .client1 .client2 clientAddr2 buffer

def fromClient2 (clientAddr1 : Addr) (buffer : Packet) : Except Exn (List Copy) :=
  fromClient .client2 .client1 clientAddr1 buffer

/-- What the server does with what it read from a descriptor. -/
def relay (clientAddr1 clientAddr2 : Addr) : Fd → Packet → Except Exn (List Copy)
  | .tun => fromTun clientAddr1 clientAddr2
  | .client1 => fromClient1 clientAddr2
  | .client2 => fromClient2 clientAddr1

/-- `tunvpn_server`, over the calls of `read` that return. -/
def tunvpnServer (clientAddr1 clientAddr2 : Addr) : List (Fd × Packet) → Except Exn (List Copy)
  | [] => return []
  | (fd, buffer) :: reads => do
    let copies ← relay clientAddr1 clientAddr2 fd buffer
    let rest ← tunvpnServer clientAddr1 clientAddr2 reads
    return copies ++ rest

/-! ## The client -/

/-- A socket address, as `getifaddrs` finds it; `other` is one of another family than IPv4 and IPv6. -/
inductive Sockaddr
  | inet (addr : Addr)
  | inet6 (addr : List UInt8)
  | other

/-- A `struct ifaddrs`. -/
structure Ifaddrs where
  name : Text
  addr : Option Sockaddr

/-- `get_eth0_addr`, over the list of `getifaddrs`. `getnameinfo` is that of the system; `none` is a failure. -/
def getEth0Addr (getnameinfo : Sockaddr → Option Text) : List Ifaddrs → Except Exn Int
  | [] => return 0
  | ifa :: rest =>
    match ifa.addr with
    | none | some .other => getEth0Addr getnameinfo rest
    | some addr =>
      match getnameinfo addr with
      | none => getEth0Addr getnameinfo rest
      | some hostStr =>
        if ifa.name = "eth0" then do
          let lastPart ← substr hostStr (behind (findLastOf hostStr '.'))
          stoi lastPart
        else getEth0Addr getnameinfo rest

/-- The address that `tunvpn_client` gives its tunnel device. -/
def tunnelAddr (getnameinfo : Sockaddr → Option Text) (ifaddr : List Ifaddrs) : Except Exn Addr := do
  let offset ← getEth0Addr getnameinfo ifaddr
  return .htonl ((addrBase + offset) % 2 ^ 32).toNat

/-- The descriptors of `poll_fd` in `tunvpn_client`. -/
inductive ClientFd
  | tun
  | socket
  deriving DecidableEq

/-- Where the client writes what it read. -/
def ClientFd.other : ClientFd → ClientFd
  | .tun => .socket
  | .socket => .tun

/-- The loop of `tunvpn_client`, from the calls of `read` that return to the calls of `write`. -/
def tunvpnClient (reads : List (ClientFd × Packet)) : List (ClientFd × Packet) :=
  reads.map fun (fd, buffer) => (fd.other, buffer)

/-! ## What is written -/

/-- What stands in front of the last octet. -/
def front (addr : Addr) : Text :=
  toDecimal addr.a.toNat ++ '.' :: (toDecimal addr.b.toNat ++ '.' :: toDecimal addr.c.toNat)

variable {addr dest a1 a2 : Addr} {buffer : Packet}

theorem inetNtoa_eq : inetNtoa addr = front addr ++ '.' :: toDecimal addr.d.toNat := by
  unfold inetNtoa front
  simp only [List.append_assoc, List.cons_append]

theorem isDigit_octet {x : UInt8} {c : Char} (hc : c ∈ toDecimal x.toNat) : c.isDigit :=
  Nat.isDigit_of_mem_toDigits (by decide) (by decide) hc

theorem octet_lt (x : UInt8) : x.toNat < 2 ^ 31 := by
  have := x.toNat_lt
  omega

theorem dot_notMem_octet (x : UInt8) : '.' ∉ toDecimal x.toNat := by
  intro h
  exact absurd (isDigit_octet h) (by decide)

theorem findLastOf_inetNtoa : findLastOf (inetNtoa addr) '.' = some (front addr).length := by
  rw [inetNtoa_eq, findLastOf_append (dot_notMem_octet _)]

theorem substr_inetNtoa :
    substr (inetNtoa addr) (behind (findLastOf (inetNtoa addr) '.')) = .ok (toDecimal addr.d.toNat) := by
  rw [inetNtoa_eq, substr_append (dot_notMem_octet _)]

/-- **Between the clients** nothing is raised, and a packet goes where its address says. -/
theorem fromClient_eq {source other : Fd} (h : sizeofIphdr ≤ buffer.length) :
    fromClient source other addr buffer =
      .ok [⟨source, if addr.d.toNat + 10 = (daddr buffer).d.toNat then other else .tun, buffer⟩] := by
  unfold fromClient
  rw [if_pos h]
  dsimp only
  rw [substr_inetNtoa, substr_inetNtoa]
  dsimp only [bind, Except.bind]
  rw [stoi_toDecimal (octet_lt _), stoi_toDecimal (octet_lt _)]
  dsimp only
  by_cases hd : addr.d.toNat + 10 = (daddr buffer).d.toNat
  · rw [if_pos (by omega), if_pos hd]
    rfl
  · rw [if_neg (by omega), if_neg hd]
    rfl

/-- What the server takes for the number of the second client, for a packet from the tunnel device. -/
def lastNumber2 (a1 a2 : Addr) : Except Exn Int := do
  let lasttwo ← substr (inetNtoa a2) ((front a1).length + 1)
  stoi lasttwo

theorem fromTun_eq (h : sizeofIphdr ≤ buffer.length) : fromTun a1 a2 buffer = (lastNumber2 a1 a2).map fun n : Int =>
    if a1.d.toNat + 10 = (daddr buffer).d.toNat then [⟨.tun, .client1, buffer⟩]
    else if n + 10 = (daddr buffer).d.toNat then [⟨.tun, .client2, buffer⟩]
    else [] := by
  unfold fromTun lastNumber2
  rw [if_pos h]
  dsimp only
  rw [substr_inetNtoa, substr_inetNtoa, findLastOf_inetNtoa]
  dsimp only [bind, Except.bind, behind]
  cases substr (inetNtoa a2) ((front a1).length + 1) with
  | error e => rfl
  | ok lasttwo =>
    dsimp only
    rw [stoi_toDecimal (octet_lt _), stoi_toDecimal (octet_lt _)]
    dsimp only
    cases stoi lasttwo with
    | error e => rfl
    | ok n =>
      dsimp only [Except.map]
      by_cases h1 : a1.d.toNat + 10 = (daddr buffer).d.toNat
      · rw [if_pos (by omega), if_pos h1]
        rfl
      · rw [if_neg (by omega), if_neg h1]
        by_cases h2 : n + 10 = (daddr buffer).d.toNat
        · rw [if_pos (by omega), if_pos h2]
          rfl
        · rw [if_neg (by omega), if_neg h2]
          rfl

end IntroNP.Vpn
