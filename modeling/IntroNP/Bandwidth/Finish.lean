import IntroNP.Bandwidth.Transfer
import IntroNP.Lib.Cut

/-!
# The bandwidth test: when the client is done

The loop of the client counts to 50 MiB, but not what came with the reply, and it does not notice that the stream has
ended.

- `length_serve_le`: the server sends the reply and at most 50 MiB;
- `Counts.turn`, `counts_of_client`: what the counters say in every turn, and in the end;
- `first_le_of_finishes`: a client that ends has received no more in its first call than the reply has bytes;
- `finishes_iff`: the client is done exactly if what is behind the first piece of the stream is 50 MiB.
-/

namespace IntroNP.Bandwidth

/-- The client ends when its calls of `recv` return these pieces. -/
def Finishes (recv : Nat → Text) : Prop := ∃ turns, (client turns fun k => some (recv k)).isSome

/-- What the counters say of the pieces in the loop so far, behind the one for the reply. -/
structure Counts (recv : Nat → Text) (s : Client) : Prop where
  byteAll : s.byteAll + (recv 0).length = (received recv (s.getTime + 1)).length
  overrun : s.overrun ↔ ∃ k, 1 ≤ k ∧ k ≤ s.getTime ∧ (recv k).length = 1024 * 1024

variable {calls : Calls} {recv : Nat → Text} {s s' : Client} {stream : Text}

/-! ## The stream -/

theorem length_ackMsg : ackMsg.length = 13 := rfl

theorem length_sendBlocks_le (send : Nat → Option Nat) :
    ∀ turns i, (sendBlocks send turns i).length ≤ turns * (1024 * 1024)
  | 0, _ => Nat.zero_le _
  | turns + 1, i => by
    unfold sendBlocks
    split
    · exact Nat.zero_le _
    · rename_i num _
      have ih := length_sendBlocks_le send turns (i + 1)
      rw [List.length_append, List.length_take, message, List.length_replicate]
      omega

/-- The reply, and at most 50 blocks. -/
theorem length_serve_le : (serve calls).length ≤ 13 + 50 * 1024 * 1024 := by
  have hblocks := length_sendBlocks_le calls.send 50 0
  unfold serve
  split
  · exact Nat.zero_le _
  · split
    · split
      · exact Nat.zero_le _
      · rw [List.length_append, List.length_take, length_ackMsg]
        omega
    · omega

theorem length_sendBlocks : ∀ turns i, (sendBlocks (fun _ => some (1024 * 1024)) turns i).length = turns * (1024 * 1024)
  | 0, _ => (Nat.zero_mul _).symm
  | turns + 1, i => by
    have ih := length_sendBlocks turns (i + 1)
    rw [sendBlocks, List.length_append, List.length_take, message, List.length_replicate, ih]
    omega

/-! ## The loop -/

theorem Counts.start (recv : Nat → Text) : Counts recv ⟨0, 0, false⟩ where
  byteAll := by
    rw [Nat.zero_add]
    exact length_received_one.symm
  overrun := by
    refine iff_of_false nofun ?_
    rintro ⟨k, h1, h0, -⟩
    exact absurd (Nat.le_trans h1 h0) (by decide)

/-- **A turn** counts the next piece. -/
theorem Counts.turn (h : Counts recv s) : Counts recv (s.turn (some (recv (s.getTime + 1)))) where
  byteAll := by
    have hsucc : (received recv (s.getTime + 1 + 1)).length =
        (received recv (s.getTime + 1)).length + (recv (s.getTime + 1)).length := length_received_succ
    have hbytes := h.byteAll
    unfold Client.turn
    dsimp only
    omega
  overrun := by
    unfold Client.turn
    dsimp only
    rw [Bool.or_eq_true, h.overrun, beq_iff_eq]
    constructor
    · rintro (⟨k, h1, hk, hfull⟩ | hfull)
      · exact ⟨k, h1, by omega, hfull⟩
      · exact ⟨_, by omega, le_rfl, hfull⟩
    · rintro ⟨k, h1, hk, hfull⟩
      rcases Nat.lt_or_eq_of_le hk with hk | rfl
      · exact .inl ⟨k, h1, by omega, hfull⟩
      · exact .inr hfull

/-- The counters when the loop has ended. -/
theorem Counts.loop : ∀ {turns : Nat} {s : Client}, Counts recv s →
    receiveLoop (fun k => some (recv k)) turns (s.getTime + 1) s = some s' →
    Counts recv s' ∧ 50 * 1024 * 1024 ≤ s'.byteAll
  | 0, _, _, hs => by cases hs
  | turns + 1, s, h, hs => by
    unfold receiveLoop at hs
    split at hs
    · exact Counts.loop (s := s.turn (some (recv (s.getTime + 1)))) h.turn hs
    · rename_i hdone
      cases hs
      exact ⟨h, by omega⟩

/-- The loop ends in the turn in which 50 MiB have come behind the reply. -/
theorem Counts.loop_isSome : ∀ {turns : Nat} {s : Client}, Counts recv s →
    ((receiveLoop (fun k => some (recv k)) turns (s.getTime + 1) s).isSome ↔
      ∃ j < turns, 50 * 1024 * 1024 + (recv 0).length ≤ (received recv (s.getTime + 1 + j)).length)
  | 0, _, _ => iff_of_false nofun fun ⟨_, hj, _⟩ => absurd hj (Nat.not_lt_zero _)
  | turns + 1, s, h => by
    have hbytes := h.byteAll
    unfold receiveLoop
    split
    · rename_i hmore
      refine (Counts.loop_isSome (s := s.turn (some (recv (s.getTime + 1)))) h.turn).trans ?_
      have htime : (s.turn (some (recv (s.getTime + 1)))).getTime = s.getTime + 1 := rfl
      rw [htime]
      constructor
      · rintro ⟨j, hj, hcome⟩
        refine ⟨j + 1, by omega, ?_⟩
        rwa [show s.getTime + 1 + (j + 1) = s.getTime + 1 + 1 + j by omega]
      · rintro ⟨_ | j, hj, hcome⟩
        · rw [Nat.add_zero] at hcome
          omega
        · refine ⟨j, by omega, ?_⟩
          rwa [show s.getTime + 1 + 1 + j = s.getTime + 1 + (j + 1) by omega]
    · refine iff_of_true rfl ⟨0, by omega, ?_⟩
      rw [Nat.add_zero]
      omega

/-- **The counters** of a client that has ended: it has received 50 MiB behind the reply, and wrote behind the array
exactly if a piece filled it. -/
theorem counts_of_client {turns : Nat} (h : (client turns fun k => some (recv k)) = some (.ok s)) :
    Counts recv s ∧ 50 * 1024 * 1024 ≤ s.byteAll := by
  obtain ⟨s', hs, he⟩ := Option.map_eq_some_iff.1 h
  cases he
  exact (Counts.start recv).loop hs

theorem finishes_iff_received : Finishes recv ↔
    ∃ k, 50 * 1024 * 1024 + (recv 0).length ≤ (received recv (1 + k)).length := by
  have hclient : ∀ turns, (client turns fun k => some (recv k)).isSome ↔
      ∃ j < turns, 50 * 1024 * 1024 + (recv 0).length ≤ (received recv (1 + j)).length := fun turns => by
    unfold client
    dsimp only
    rw [Option.isSome_map]
    exact (Counts.start recv).loop_isSome
  constructor
  · rintro ⟨turns, hturns⟩
    obtain ⟨j, -, hcome⟩ := (hclient turns).1 hturns
    exact ⟨j, hcome⟩
  · rintro ⟨k, hcome⟩
    exact ⟨k + 1, (hclient _).2 ⟨k, Nat.lt_succ_self k, hcome⟩⟩

/-- For any stream, the client ends exactly if 50 MiB of it are behind the first piece. -/
theorem finishes_iff_stream (h : Cut room stream recv) :
    Finishes recv ↔ 50 * 1024 * 1024 + (recv 0).length ≤ stream.length := by
  rw [finishes_iff_received]
  constructor
  · rintro ⟨k, hcome⟩
    exact hcome.trans (received_length_le h _)
  · intro hlen
    refine ⟨stream.length, ?_⟩
    rwa [received_all h (by omega)]

/-- A client that ends has received no more in its first call than the reply has bytes. -/
theorem first_le_of_finishes (h : Cut room (serve calls) recv) (hfin : Finishes recv) : (recv 0).length ≤ 13 := by
  have hlen := (finishes_iff_stream h).1 hfin
  have hserve : (serve calls).length ≤ 13 + 50 * 1024 * 1024 := length_serve_le
  omega

/-! ## The whole stream -/

/-- The calls of a server that answers and sends all of its blocks. -/
def allSent : Calls := ⟨some "Wake up".toList, some 13, fun _ => some (1024 * 1024)⟩

theorem length_serve_allSent : (serve allSent).length = 13 + 50 * 1024 * 1024 := by
  rw [serve, allSent]
  dsimp only
  rw [if_pos rfl, List.length_append, length_sendBlocks, List.length_take, length_ackMsg, Nat.min_self, Nat.mul_assoc]

/-- The first piece has `n` bytes, the others 1000. -/
def sizes (n : Nat) : Nat → Nat
  | 0 => n
  | _ + 1 => 1000

theorem cut_sizes {n : Nat} (h0 : 0 < n) (h : n ≤ 1024) : Cut room stream (pieces (sizes n) stream) := by
  refine cut_pieces (fun k => ?_) fun k => ?_
  · cases k with
    | zero => exact h0
    | succ k => exact Nat.succ_pos _
  · cases k with
    | zero => exact h
    | succ k => exact (by decide : 1000 ≤ 1024 * 1024)

theorem length_first {n : Nat} (h : n ≤ stream.length) : (pieces (sizes n) stream 0).length = n := by
  simp [pieces, beginning, sizes, h]

/-- **The client** ends exactly if 50 MiB of what the server sends are behind the first piece that it receives. -/
theorem finishes_iff (h : Cut room (serve calls) recv) :
    Finishes recv ↔ 50 * 1024 * 1024 + (recv 0).length ≤ (serve calls).length :=
  finishes_iff_stream h

/-- The first piece is the reply. -/
theorem finishes_iff_reply : Finishes (pieces (sizes 13) (serve allSent)) := by
  have hfirst : (pieces (sizes 13) (serve allSent) 0).length = 13 := length_first (by rw [length_serve_allSent]; omega)
  refine (finishes_iff (cut_sizes (by decide) (by decide))).2 ?_
  rw [hfirst, length_serve_allSent]

/-- The first piece is the reply and a byte of the first block, so that the loop waits for a byte that never comes. -/
theorem not_finishes_fourteen :
    Cut room (serve allSent) (pieces (sizes 14) (serve allSent)) ∧ ¬ Finishes (pieces (sizes 14) (serve allSent)) := by
  have hfirst : (pieces (sizes 14) (serve allSent) 0).length = 14 := length_first (by rw [length_serve_allSent]; omega)
  have hcut : Cut room (serve allSent) (pieces (sizes 14) (serve allSent)) := cut_sizes (by decide) (by decide)
  refine ⟨hcut, fun h => ?_⟩
  have hlen := (finishes_iff_stream hcut).1 h
  rw [hfirst, length_serve_allSent] at hlen
  omega

end IntroNP.Bandwidth
