import IntroNP.Vpn.Tunnel
import Mathlib.Data.List.Flatten

/-!
# The VPN tunnel: packet boundaries

Packets are written to the stream as they are, with nothing between them, and what one call of `read` returns is taken
for one packet.

- `copies_of_client`: what the server writes of what it read from a client;
- `eq_iff_cutAt`: what is read is the packets exactly if the stream is cut where they end;
- `boundaries_iff`: packets keep their boundaries exactly if every call of `read` returns one whole packet.
-/

namespace IntroNP.Vpn

/-- What is read from, or written to, one descriptor. -/
def onFd {α : Type} [DecidableEq α] (fd : α) (events : List (α × Packet)) : List Packet :=
  events.filterMap fun e => if e.1 = fd then some e.2 else none

/-- What the server writes of what it read from `fd`. -/
def copiesFrom (fd : Fd) (copies : List Copy) : List Packet := (copies.filter (·.source = fd)).map (·.bytes)

/-- What the server writes to `fd`. -/
def copiesTo (fd : Fd) (copies : List Copy) : List Packet := (copies.filter (·.target = fd)).map (·.bytes)

/-- The calls of `read` return the stream of `packets` in pieces of any size that fits the buffer, none of them empty.
-/
structure Segments (packets chunks : List Packet) : Prop where
  stream : chunks.flatten = packets.flatten
  size : ∀ chunk ∈ chunks, chunk ≠ [] ∧ chunk.length ≤ 1400

/-- Every call of `read` returns as many bytes as one packet has. -/
def CutAt (packets chunks : List Packet) : Prop := chunks.map List.length = packets.map List.length

variable {a1 a2 : Addr} {i : Fd} {buffer : Packet} {reads : List (Fd × Packet)} {copies : List Copy}
  {client : List (ClientFd × Packet)} {packets chunks : List Packet}

/-! ## The server -/

/-- One packet from a client is one call of `write`, on another descriptor, unless it is too short. -/
theorem relay_client (hi : i ≠ .tun) (h : relay a1 a2 i buffer = .ok copies) :
    copiesFrom i copies = [buffer].filter (sizeofIphdr ≤ ·.length) ∧ ∀ c ∈ copies, c.source = i ∧ c.target ≠ i := by
  have hclient : ∀ {source other : Fd} {addr : Addr}, source ≠ .tun → other ≠ source →
      fromClient source other addr buffer = .ok copies →
      copiesFrom source copies = [buffer].filter (sizeofIphdr ≤ ·.length) ∧
        ∀ c ∈ copies, c.source = source ∧ c.target ≠ source := by
    intro source other addr htun hother h
    by_cases hlen : sizeofIphdr ≤ buffer.length
    · rw [fromClient_eq hlen] at h
      cases h
      refine ⟨by simp [copiesFrom, hlen], fun c hc => ?_⟩
      rw [List.mem_singleton.1 hc]
      refine ⟨rfl, ?_⟩
      dsimp only
      split
      · exact hother
      · exact htun.symm
    · unfold fromClient at h
      rw [if_neg hlen] at h
      cases h
      exact ⟨by simp [copiesFrom, hlen], by simp⟩
  cases i with
  | tun => exact absurd rfl hi
  | client1 => exact hclient hi (by decide) h
  | client2 => exact hclient hi (by decide) h

/-- What is read from one descriptor makes no copies from another. -/
theorem relay_source {fd : Fd} (h : relay a1 a2 fd buffer = .ok copies) : ∀ c ∈ copies, c.source = fd := by
  cases fd with
  | tun =>
    have h : fromTun a1 a2 buffer = .ok copies := h
    by_cases hlen : sizeofIphdr ≤ buffer.length
    · rw [fromTun_eq hlen] at h
      cases hn : lastNumber2 a1 a2 with
      | error e =>
        rw [hn] at h
        cases h
      | ok n =>
        rw [hn] at h
        cases h
        dsimp only
        split
        · simp
        · split
          · simp
          · simp
    · unfold fromTun at h
      rw [if_neg hlen] at h
      cases h
      simp
  | client1 => exact fun c hc => ((relay_client (by decide) h).2 c hc).1
  | client2 => exact fun c hc => ((relay_client (by decide) h).2 c hc).1

/-- A run goes call by call. -/
theorem tunvpnServer_cons {fd : Fd} (h : tunvpnServer a1 a2 ((fd, buffer) :: reads) = .ok copies) :
    ∃ c cs, relay a1 a2 fd buffer = .ok c ∧ tunvpnServer a1 a2 reads = .ok cs ∧ copies = c ++ cs := by
  unfold tunvpnServer at h
  cases hc : relay a1 a2 fd buffer with
  | error e =>
    rw [hc] at h
    cases h
  | ok c =>
    cases hcs : tunvpnServer a1 a2 reads with
    | error e =>
      rw [hc, hcs] at h
      cases h
    | ok cs =>
      rw [hc, hcs] at h
      cases h
      exact ⟨c, cs, rfl, rfl, rfl⟩

/-- **The server**: whatever else it reads in between, what it writes of a client's bytes is what its calls of `read`
returned, but for pieces that are too short to be a packet. -/
theorem copiesFrom_tunvpnServer (hi : i ≠ .tun) (h : tunvpnServer a1 a2 reads = .ok copies) :
    copiesFrom i copies = (onFd i reads).filter (sizeofIphdr ≤ ·.length) ∧
      ∀ c ∈ copies, c.source = i → c.target ≠ i := by
  induction reads generalizing copies with
  | nil =>
    cases h
    exact ⟨rfl, by simp⟩
  | cons read reads ih =>
    obtain ⟨fd, buffer⟩ := read
    obtain ⟨c, cs, hc, hcs, rfl⟩ := tunvpnServer_cons h
    obtain ⟨hcopies, htarget⟩ := ih hcs
    have happend : copiesFrom i (c ++ cs) = copiesFrom i c ++ copiesFrom i cs := by
      unfold copiesFrom
      rw [List.filter_append, List.map_append]
    rw [happend, hcopies]
    by_cases hfd : fd = i
    · subst hfd
      obtain ⟨hone, hother⟩ := relay_client hi hc
      refine ⟨?_, fun d hd => ?_⟩
      · rw [hone, ← List.filter_append]
        simp [onFd]
      · rcases List.mem_append.1 hd with hd | hd
        · exact fun _ => (hother d hd).2
        · exact htarget d hd
    · have hsource := relay_source hc
      have hnone : copiesFrom i c = [] := by
        unfold copiesFrom
        rw [List.map_eq_nil_iff, List.filter_eq_nil_iff]
        intro d hd
        simpa [hsource d hd] using hfd
      refine ⟨?_, fun d hd => ?_⟩
      · rw [hnone, List.nil_append]
        simp [onFd, hfd]
      · rcases List.mem_append.1 hd with hd | hd
        · exact fun e => absurd ((hsource d hd).symm.trans e) hfd
        · exact htarget d hd

/-! ## The client -/

/-- What the client writes to one descriptor is what it read from the other. -/
theorem onFd_tunvpnClient (fd : ClientFd) : onFd fd (tunvpnClient client) = onFd fd.other client := by
  unfold onFd tunvpnClient
  rw [List.filterMap_map]
  congr 1
  funext e
  obtain ⟨fd', buffer⟩ := e
  cases fd <;> cases fd' <;> rfl

/-! ## Boundaries -/

/-- Pieces that are left out are missed in the stream. -/
theorem filter_eq_self_of_flatten {p : Packet → Bool} (hne : ∀ chunk ∈ chunks, chunk ≠ [])
    (h : (chunks.filter p).flatten = chunks.flatten) : chunks.filter p = chunks := by
  induction chunks with
  | nil => rfl
  | cons chunk chunks ih =>
    have htail := ih fun c hc => hne c (List.mem_cons_of_mem _ hc)
    by_cases hp : p chunk
    · rw [List.filter_cons_of_pos hp] at h ⊢
      rw [List.flatten_cons, List.flatten_cons] at h
      rw [htail (List.append_cancel_left h)]
    · rw [List.filter_cons_of_neg hp] at h
      have hlen := congrArg List.length h
      have hle : (chunks.filter p).flatten.length ≤ chunks.flatten.length :=
        List.filter_sublist.flatten.length_le
      have hpos := List.length_pos_iff.2 (hne chunk List.mem_cons_self)
      rw [List.flatten_cons, List.length_append] at hlen
      omega

/-- What is long enough for a packet is the packets exactly if every piece is a packet. -/
theorem filter_eq_iff (h : Segments packets chunks) (hlen : ∀ p ∈ packets, sizeofIphdr ≤ p.length) :
    chunks.filter (sizeofIphdr ≤ ·.length) = packets ↔ chunks = packets := by
  constructor
  · intro hfilter
    rw [← hfilter]
    refine (filter_eq_self_of_flatten (fun c hc => (h.size c hc).1) ?_).symm
    rw [hfilter, h.stream]
  · rintro rfl
    rw [List.filter_eq_self]
    simpa using hlen

/-- Pieces of a stream are its packets exactly if the stream is cut where they end. -/
theorem eq_iff_cutAt (h : Segments packets chunks) : chunks = packets ↔ CutAt packets chunks := by
  unfold CutAt
  rw [List.eq_iff_flatten_eq]
  exact and_iff_right h.stream

/-- **Packet boundaries**, for a connection of the server with a client: in either direction the packets that are
written out are those that were written to the stream, one call of `write` each and in order, exactly if every call of
`read` from the stream returned one of them. -/
theorem boundaries_iff (hi : i ≠ .tun) (hrun : tunvpnServer a1 a2 reads = .ok copies)
    (hip : ∀ p ∈ onFd .tun client, sizeofIphdr ≤ p.length)
    (hup : Segments (onFd .socket (tunvpnClient client)) (onFd i reads))
    (hdown : Segments (copiesTo i copies) (onFd .socket client)) :
    (copiesFrom i copies = onFd .tun client ↔ CutAt (onFd .tun client) (onFd i reads)) ∧
      (∀ c ∈ copies, c.source = i → c.target ≠ i) ∧
      (onFd .tun (tunvpnClient client) = copiesTo i copies ↔ CutAt (copiesTo i copies) (onFd .socket client)) := by
  obtain ⟨hcopies, htarget⟩ := copiesFrom_tunvpnServer hi hrun
  have hup : Segments (onFd .tun client) (onFd i reads) := onFd_tunvpnClient .socket ▸ hup
  have hto : copiesFrom i copies = onFd .tun client ↔ CutAt (onFd .tun client) (onFd i reads) := by
    rw [hcopies, filter_eq_iff hup hip]
    exact eq_iff_cutAt hup
  have hback : onFd .tun (tunvpnClient client) = copiesTo i copies ↔
      CutAt (copiesTo i copies) (onFd .socket client) := by
    rw [onFd_tunvpnClient]
    exact eq_iff_cutAt hdown
  exact ⟨hto, htarget, hback⟩

/-- A packet of a header only, for the server. -/
def toServer : Packet := List.replicate 16 0 ++ [10, 0, 0, 254]

/-- A packet of a header only, for the first client. -/
def toClient : Packet := List.replicate 16 0 ++ [10, 0, 0, 13]

/-- A packet in each direction, each read by itself. -/
theorem boundaries_iff_single :
    let reads : List (Fd × Packet) := [(.client1, toServer), (.tun, toClient)]
    let copies : List Copy := [⟨.client1, .tun, toServer⟩, ⟨.tun, .client1, toClient⟩]
    let client : List (ClientFd × Packet) := [(.tun, toServer), (.socket, toClient)]
    tunvpnServer ⟨172, 17, 0, 3⟩ ⟨172, 17, 0, 4⟩ reads = .ok copies ∧ copiesFrom .client1 copies = onFd .tun client ∧
      onFd .tun (tunvpnClient client) = copiesTo .client1 copies := by
  intro reads copies client
  have hrun : tunvpnServer ⟨172, 17, 0, 3⟩ ⟨172, 17, 0, 4⟩ reads = .ok copies := by decide +kernel
  have hip : ∀ p ∈ onFd .tun client, sizeofIphdr ≤ p.length := by decide
  have hup : Segments (onFd .socket (tunvpnClient client)) (onFd .client1 reads) := ⟨by decide, by decide⟩
  have hdown : Segments (copiesTo .client1 copies) (onFd .socket client) := ⟨by decide, by decide⟩
  obtain ⟨hto, -, hback⟩ := boundaries_iff (by decide) hrun hip hup hdown
  exact ⟨hrun, hto.2 rfl, hback.2 rfl⟩

/-- Two packets that TCP joins come out as one. -/
theorem joined_packets :
    let reads : List (Fd × Packet) := [(.client1, toServer ++ toServer)]
    let copies : List Copy := [⟨.client1, .tun, toServer ++ toServer⟩]
    let client : List (ClientFd × Packet) := [(.tun, toServer), (.tun, toServer)]
    Segments (onFd .socket (tunvpnClient client)) (onFd .client1 reads) ∧
      tunvpnServer ⟨172, 17, 0, 3⟩ ⟨172, 17, 0, 4⟩ reads = .ok copies ∧
      copiesFrom .client1 copies ≠ onFd .tun client := by
  intro reads copies client
  exact ⟨⟨by decide, by decide⟩, by decide +kernel, by decide⟩

end IntroNP.Vpn
