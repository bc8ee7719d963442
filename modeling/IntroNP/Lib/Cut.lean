import Mathlib.Data.List.Basic

/-!
# A stream in pieces

What the calls of `recv` return of a stream that the other side closes at its end: pieces of any size for which there
is room, and nothing once all of it has come.

- `received_length_le`, `min_le_length_received`: how much has come;
- `received_all`: after as many calls as the stream has bytes, all of it has come;
- `cut_pieces`: there is a cut for all sizes that fit.
-/

namespace IntroNP

variable {α : Type}

/-- What has come in the first `k` calls. -/
def received (recv : Nat → List α) (k : Nat) : List α := (List.range k).flatMap recv

/-- The calls of `recv` return the stream, where call `k` has room for `room k` bytes. -/
structure Cut (room : Nat → Nat) (stream : List α) (recv : Nat → List α) : Prop where
  in_order : ∀ k, received recv k <+: stream
  fits : ∀ k, (recv k).length ≤ room k
  closed : ∀ k, recv k = [] → received recv k = stream

/-- Where piece `k` begins, for pieces of the sizes given. -/
def beginning (size : Nat → Nat) : Nat → Nat
  | 0 => 0
  | k + 1 => beginning size k + size k

/-- The pieces of a stream of the sizes given. -/
def pieces (size : Nat → Nat) (stream : List α) (k : Nat) : List α := (stream.drop (beginning size k)).take (size k)

variable {room size : Nat → Nat} {stream : List α} {recv : Nat → List α} {k : Nat}

theorem received_succ : received recv (k + 1) = received recv k ++ recv k := by
  simp [received, List.range_succ]

theorem length_received_succ : (received recv (k + 1)).length = (received recv k).length + (recv k).length := by
  rw [received_succ, List.length_append]

theorem length_received_one : (received recv 1).length = (recv 0).length := by simp [received]

theorem received_length_le (h : Cut room stream recv) (k : Nat) : (received recv k).length ≤ stream.length :=
  (h.in_order k).length_le

/-- Every call returns something, up to the end of the stream. -/
theorem min_le_length_received (h : Cut room stream recv) : ∀ k, min k stream.length ≤ (received recv k).length
  | 0 => by simp
  | k + 1 => by
    have ih := min_le_length_received h k
    rw [length_received_succ]
    by_cases hend : recv k = []
    · rw [h.closed k hend]
      omega
    · have hpos := List.length_pos_iff.2 hend
      omega

/-- **All of the stream** comes. -/
theorem received_all (h : Cut room stream recv) (hk : stream.length ≤ k) : received recv k = stream := by
  have hmin := min_le_length_received h k
  exact (h.in_order k).eq_of_length_le (by omega)

theorem received_pieces : ∀ k, received (pieces size stream) k = stream.take (beginning size k)
  | 0 => by simp [received, beginning]
  | k + 1 => by rw [received_succ, received_pieces k, pieces, beginning, List.take_add]

theorem cut_pieces (hpos : ∀ k, 0 < size k) (hroom : ∀ k, size k ≤ room k) :
    Cut room stream (pieces size stream) where
  in_order k := by
    rw [received_pieces]
    exact List.take_prefix _ _
  fits k := Nat.le_trans (List.length_take_le _ _) (hroom k)
  closed k h := by
    rw [pieces, List.take_eq_nil_iff, List.drop_eq_nil_iff] at h
    rw [received_pieces]
    exact List.take_of_length_le (h.resolve_left (Nat.ne_of_gt (hpos k)))

end IntroNP
