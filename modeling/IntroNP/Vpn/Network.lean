import IntroNP.Vpn.Routing
import IntroNP.Lib.Hub

/-!
# The VPN tunnel: the whole network

The server, its two clients, the TCP connections between them and their tunnel devices, in any order of steps in which
every call of `read` returns one whole packet. `tunnel_delivers`: when the texts of the clients' addresses line up,
every packet goes where the last octet of its address says, in order, once, and nowhere else.

The tunnel is a hub network (`simulation_hub`); that the packets on it do not say from whom they are is seen there.
-/

namespace IntroNP.Vpn

/-- The packets read from every tunnel device and written to it, and those in the connections with the clients. A host
is the descriptor that the server has for it. -/
structure Tunnel where
  tunRead : Fd → List Packet
  toServer : Fd → List Packet
  toClient : Fd → List Packet
  tunWritten : Fd → List Packet

namespace Tunnel

def empty : Tunnel := ⟨fun _ => [], fun _ => [], fun _ => [], fun _ => []⟩

/-- What the server writes. -/
def write (σ : Tunnel) (c : Copy) : Tunnel :=
  if c.target = .tun then { σ with tunWritten := Hub.push σ.tunWritten .tun c.bytes }
  else { σ with toClient := Hub.push σ.toClient c.target c.bytes }

/-- A turn of one of the four loops: the client at `i` reads from its tunnel device or from its connection, the server
reads from its tunnel device or from a connection. The label is what was read. -/
inductive Step (a1 a2 : Addr) (σ : Tunnel) : Packet → Tunnel → Prop
  | clientTun {i : Fd} {p : Packet} (hi : i ≠ .tun) :
      Step a1 a2 σ p { σ with tunRead := Hub.push σ.tunRead i p, toServer := Hub.push σ.toServer i p }
  | clientSocket {i : Fd} {p : Packet} {ps : List Packet} (hi : i ≠ .tun) (hread : σ.toClient i = p :: ps) :
      Step a1 a2 σ p
        { σ with toClient := Function.update σ.toClient i ps, tunWritten := Hub.push σ.tunWritten i p }
  | serverTun {p : Packet} {copies : List Copy} (hrelay : relay a1 a2 .tun p = .ok copies) :
      Step a1 a2 σ p (copies.foldl write { σ with tunRead := Hub.push σ.tunRead .tun p })
  | serverSocket {i : Fd} {p : Packet} {ps : List Packet} {copies : List Copy} (hi : i ≠ .tun)
      (hread : σ.toServer i = p :: ps) (hrelay : relay a1 a2 i p = .ok copies) :
      Step a1 a2 σ p (copies.foldl write { σ with toServer := Function.update σ.toServer i ps })

end Tunnel

/-- The network of the tunnel. -/
def tunnel (a1 a2 : Addr) : System Tunnel Packet where
  init σ := σ = .empty
  step := Tunnel.Step a1 a2

/-- Where a packet from `g` is to go: to the client whose number its address ends in, or else, from a client, to the
server's own tunnel device. -/
def target (a1 a2 : Addr) (g : Fd) (p : Packet) : Option Fd :=
  if p.length < sizeofIphdr then none
  else if g ≠ .client1 ∧ a1.d.toNat + 10 = (daddr p).d.toNat then some .client1
  else if g ≠ .client2 ∧ a2.d.toNat + 10 = (daddr p).d.toNat then some .client2
  else if g = .tun then none
  else some .tun

variable {a1 a2 : Addr} {g h i : Fd} {p : Packet} {σ σ' : Tunnel} {s : Hub Fd Packet}

/-! ## The relay -/

theorem target_tun (hlen : sizeofIphdr ≤ p.length) : target a1 a2 .tun p =
    if a1.d.toNat + 10 = (daddr p).d.toNat then some .client1
    else if a2.d.toNat + 10 = (daddr p).d.toNat then some .client2
    else none := by
  unfold target
  rw [if_neg (by omega)]
  simp only [ne_eq, reduceCtorEq, not_false_eq_true, true_and, if_true]

theorem target_client1 (hlen : sizeofIphdr ≤ p.length) : target a1 a2 .client1 p =
    some (if a2.d.toNat + 10 = (daddr p).d.toNat then .client2 else .tun) := by
  unfold target
  rw [if_neg (by omega), if_neg fun h => h.1 rfl, apply_ite some]
  simp only [ne_eq, reduceCtorEq, not_false_eq_true, true_and, if_false]

theorem target_client2 (hlen : sizeofIphdr ≤ p.length) : target a1 a2 .client2 p =
    some (if a1.d.toNat + 10 = (daddr p).d.toNat then .client1 else .tun) := by
  unfold target
  rw [if_neg (by omega), if_neg (c := (_ ≠ _ ∧ a2.d.toNat + 10 = _)) fun h => h.1 rfl, apply_ite some]
  simp only [ne_eq, reduceCtorEq, not_false_eq_true, true_and, if_false]

/-- **The server** does what the address says. -/
theorem relay_eq (hline : LinesUp a1 a2) (g : Fd) (p : Packet) :
    relay a1 a2 g p = .ok ((target a1 a2 g p).map fun h => ⟨g, h, p⟩).toList := by
  by_cases hlen : sizeofIphdr ≤ p.length
  · cases g with
    | tun =>
      change fromTun a1 a2 p = _
      rw [fromTun_eq hlen, lastNumber2_eq_ok.2 hline, target_tun hlen]
      have hcast : ((a2.d.toNat : Int) + 10 = (daddr p).d.toNat) ↔ a2.d.toNat + 10 = (daddr p).d.toNat := by omega
      dsimp only [Except.map]
      simp only [hcast]
      split
      · rfl
      · split <;> rfl
    | client1 =>
      change fromClient .client1 .client2 a2 p = _
      rw [fromClient_eq hlen, target_client1 hlen]
      rfl
    | client2 =>
      change fromClient .client2 .client1 a1 p = _
      rw [fromClient_eq hlen, target_client2 hlen]
      rfl
  · have hnone : target a1 a2 g p = none := if_pos (by omega)
    rw [hnone]
    cases g <;> exact if_neg hlen

/-! ## The hub -/

/-- The tunnel is the hub, without the origins of the packets. -/
structure Untagged (σ : Tunnel) (s : Hub Fd Packet) : Prop where
  sent : σ.tunRead = s.sent
  up : σ.toServer = s.up
  down : ∀ h, σ.toClient h = (s.down h).map (·.2)
  received : ∀ h, σ.tunWritten h = (s.received h).map (·.2)

theorem push_map {q : Fd → List Packet} {q' : Fd → List (Fd × Packet)} (hq : ∀ h, q h = (q' h).map (·.2)) :
    Hub.push q i p h = (Hub.push q' i (g, p) h).map (·.2) := by
  unfold Hub.push
  rw [Function.update_apply, Function.update_apply, hq, hq]
  split
  · rw [List.map_append]
    rfl
  · rfl

/-- What the server writes is what the hub passes on. -/
theorem Untagged.pass (hu : Untagged σ s) (x : Option Fd) :
    Untagged (((x.map fun h => (⟨g, h, p⟩ : Copy)).toList).foldl Tunnel.write σ) (Hub.pass .tun s g p x) := by
  cases x with
  | none => exact hu
  | some h =>
    change Untagged (σ.write ⟨g, h, p⟩) _
    unfold Tunnel.write Hub.pass
    dsimp only
    split
    · exact ⟨hu.sent, hu.up, hu.down, fun _ => push_map hu.received⟩
    · exact ⟨hu.sent, hu.up, fun _ => push_map hu.down, hu.received⟩

/-- **The tunnel is a hub network**, when the addresses line up. -/
theorem simulation_hub (hline : LinesUp a1 a2) :
    (tunnel a1 a2).Simulation (hub .tun (target a1 a2)) Untagged where
  init σ hσ := ⟨.empty, rfl, (show σ = .empty from hσ) ▸ ⟨rfl, rfl, fun _ => rfl, fun _ => rfl⟩⟩
  step := by
    intro σ p σ' s hu hst
    cases hst with
    | @clientTun i _ hi =>
      exact ⟨_, .send hi, by rw [hu.sent], by rw [hu.up], hu.down, hu.received⟩
    | @clientSocket i _ ps hi hread =>
      rw [hu.down] at hread
      obtain ⟨⟨g, _⟩, ms, hdown, rfl, rfl⟩ := List.map_eq_cons_iff.1 hread
      refine ⟨_, .receive hdown, hu.sent, hu.up, fun h => ?_, fun _ => push_map hu.received⟩
      dsimp only
      rw [Function.update_apply, Function.update_apply, hu.down]
      split <;> rfl
    | serverTun hrelay =>
      rw [relay_eq hline] at hrelay
      cases hrelay
      refine ⟨_, .inject, Untagged.pass ?_ _⟩
      exact ⟨by rw [hu.sent], hu.up, hu.down, hu.received⟩
    | @serverSocket i _ ps _ hi hread hrelay =>
      rw [relay_eq hline] at hrelay
      cases hrelay
      rw [hu.up] at hread
      refine ⟨_, .forward hi hread, Untagged.pass ?_ _⟩
      exact ⟨hu.sent, by rw [hu.up], hu.down, hu.received⟩

/-- **The tunnel delivers.** When the addresses of the clients line up, the server never stops on what it reads, and in
every reachable state the packets that were written to a tunnel device, and those on their way to a client, can be
assigned to the hosts they come from so that for every two hosts `g` and `h` the packets from `g` that `h` has, those on
their way down and those on their way up are, in this order, the packets for `h` that were read at `g`. -/
theorem tunnel_delivers (hline : LinesUp a1 a2) (h : (tunnel a1 a2).Reachable σ) :
    (∀ g p, ∃ copies, relay a1 a2 g p = .ok copies) ∧
    ∃ written way : Fd → List (Fd × Packet), (∀ h, (written h).map (·.2) = σ.tunWritten h) ∧
      (∀ h, (way h).map (·.2) = σ.toClient h) ∧
      ∀ g h, Hub.ofOrigin g (written h) ++ Hub.ofOrigin g (way h) ++ Hub.bound (target a1 a2) g h (σ.toServer g) =
        Hub.bound (target a1 a2) g h (σ.tunRead g) := by
  obtain ⟨s, hs, hu⟩ := (simulation_hub hline).reachable h
  refine ⟨fun g p => ⟨_, relay_eq hline g p⟩, s.received, s.down, fun h => (hu.received h).symm,
    fun h => (hu.down h).symm, fun g h => ?_⟩
  rw [hu.up, hu.sent]
  exact (Hub.flow_reachable hs).flow g h

/-- A packet between the clients, on its way. -/
theorem tunnel_delivers_bridge : ∃ σ : Tunnel,
    (tunnel ⟨172, 17, 0, 3⟩ ⟨172, 17, 0, 4⟩).Reachable σ ∧ σ.tunWritten .client2 = [headerOnly ⟨10, 0, 0, 14⟩] ∧
    ∃ written way : Fd → List (Fd × Packet), (∀ h, (written h).map (·.2) = σ.tunWritten h) ∧
      (∀ h, (way h).map (·.2) = σ.toClient h) ∧
      ∀ g h, Hub.ofOrigin g (written h) ++ Hub.ofOrigin g (way h) ++
          Hub.bound (target ⟨172, 17, 0, 3⟩ ⟨172, 17, 0, 4⟩) g h (σ.toServer g) =
        Hub.bound (target ⟨172, 17, 0, 3⟩ ⟨172, 17, 0, 4⟩) g h (σ.tunRead g) := by
  have h0 : (tunnel ⟨172, 17, 0, 3⟩ ⟨172, 17, 0, 4⟩).Reachable .empty := .init rfl
  have h1 := h0.step (.clientTun (i := .client1) (p := headerOnly ⟨10, 0, 0, 14⟩) (by decide))
  have hrelay : relay ⟨172, 17, 0, 3⟩ ⟨172, 17, 0, 4⟩ .client1 (headerOnly ⟨10, 0, 0, 14⟩) =
      .ok [⟨.client1, .client2, headerOnly ⟨10, 0, 0, 14⟩⟩] := by decide +kernel
  have h2 := h1.step (.serverSocket (by decide) rfl hrelay)
  have h3 := h2.step (.clientSocket (i := .client2) (by decide) rfl)
  exact ⟨_, h3, rfl, (tunnel_delivers (by decide) h3).2⟩

end IntroNP.Vpn
