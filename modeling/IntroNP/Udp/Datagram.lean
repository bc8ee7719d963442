import IntroNP.Udp.Client
import IntroNP.Udp.Server

/-!
# File transfer over UDP: datagrams

- `split_flatten`, `split_length`, `split_ne_nil`: the fragments of a file are at least one, of at most 1000 bytes, and
  together they are the file;
- `parse_message`: the server reads from a datagram what the client wrote, if the name has no white space and no `>`;
- `message_length`: and the datagram fits the buffer;
- `reply_none`, `reply_ack`, `reply_term`: what the client hears when no reply is there, and what it reads from the
  replies of the server.
-/

namespace IntroNP.Udp

variable {s n o : Nat} {name fragment file t : Text}

/-! ## Fragments -/

theorem readChunks_flatten : ∀ (n : Nat) (fp : Text), (readChunks n fp).1.flatten ++ (readChunks n fp).2 = fp
  | 0, fp => rfl
  | n + 1, fp => by
    unfold readChunks
    dsimp only
    rw [List.flatten_cons, List.append_assoc, readChunks_flatten n, List.take_append_drop]

theorem readChunks_length : ∀ (n : Nat) (fp : Text), (readChunks n fp).1.length = n
  | 0, _ => rfl
  | n + 1, fp => by
    unfold readChunks
    dsimp only
    rw [List.length_cons, readChunks_length n]

theorem readChunks_le : ∀ (n : Nat) (fp : Text), ∀ c ∈ (readChunks n fp).1, c.length ≤ 1000
  | 0, _ => by simp [readChunks]
  | n + 1, fp => by
    intro c hc
    rcases List.mem_cons.1 hc with rfl | hc
    · exact List.length_take_le _ _
    · exact readChunks_le n _ c hc

theorem readChunks_rest : ∀ (n : Nat) (fp : Text), (readChunks n fp).2 = fp.drop (1000 * n)
  | 0, fp => rfl
  | n + 1, fp => by
    unfold readChunks
    dsimp only
    rw [readChunks_rest n, List.drop_drop]
    congr 1
    omega

/-- What is left after the whole chunks is less than one. -/
theorem rest_length (file : Text) : (file.drop (1000 * (file.length / 1000))).length = file.length % 1000 := by
  rw [List.length_drop]
  omega

/-- **The fragments are the file.** -/
theorem split_flatten (file : Text) : (split file).flatten = file := by
  have hrest := rest_length file
  have hall := readChunks_flatten (file.length / 1000) file
  rw [readChunks_rest] at hall
  unfold split
  split
  · simp
  · dsimp only
    split
    · rw [readChunks_rest, List.flatten_append, List.take_of_length_le (by rw [hrest]; omega)]
      simpa using hall
    · rename_i hz
      rw [List.length_eq_zero_iff.1 (hrest.trans (not_not.1 hz)), List.append_nil] at hall
      exact hall

theorem split_le (file : Text) : ∀ c ∈ split file, c.length ≤ 1000 := by
  intro c hc
  unfold split at hc
  split at hc
  · rw [List.mem_singleton.1 hc]
    omega
  · dsimp only at hc
    split at hc
    · rcases List.mem_append.1 hc with hc | hc
      · exact readChunks_le _ _ c hc
      · rw [List.mem_singleton.1 hc]
        refine (List.length_take_le _ _).trans ?_
        omega
    · exact readChunks_le _ _ c hc

theorem split_ne_nil (file : Text) : split file ≠ [] := by
  unfold split
  split
  · simp
  · dsimp only
    have hn : (readChunks (file.length / 1000) file).1 ≠ [] := by
      rw [Ne, ← List.length_eq_zero_iff, readChunks_length]
      omega
    split
    · simp
    · exact hn

/-! ## Reading a datagram back -/

/-- The numbers of the header, with the blank after each. -/
def header (s n o size : Nat) : Text :=
  toDecimal s ++ ' ' :: (toDecimal n ++ ' ' :: (toDecimal o ++ ' ' :: (toDecimal size ++ [' '])))

theorem message_eq : message s n o name fragment =
    '<' :: (toDecimal s ++ ' ' :: (toDecimal n ++ ' ' :: (toDecimal o ++ ' ' ::
      (toDecimal fragment.length ++ ' ' :: (name ++ ' ' :: '>' :: fragment))))) := by
  have hopen : "<".toList = ['<'] := rfl
  have hblank : " ".toList = [' '] := rfl
  have hclose : " >".toList = [' ', '>'] := rfl
  unfold message
  rw [hopen, hblank, hclose]
  simp only [List.append_assoc, List.cons_append, List.nil_append]

theorem message_tail : (message s n o name fragment).tail =
    header s n o fragment.length ++ (name ++ ' ' :: '>' :: fragment) := by
  rw [message_eq, List.tail_cons]
  unfold header
  simp only [List.append_assoc, List.cons_append, List.nil_append]

theorem mem_toDecimal {c : Char} (h : c ∈ toDecimal n) : c.isDigit :=
  Nat.isDigit_of_mem_toDigits (by decide) (by decide) h

theorem toDecimal_length (h : n < 2 ^ 31) : (toDecimal n).length ≤ 10 := by
  change (Nat.toDigits 10 n).length ≤ 10
  rw [Nat.length_toDigits_le_iff (by decide) (by decide)]
  omega

/-- No white space in front of a number but the one that follows the field before it. -/
theorem readInt_next {old : Option Int} (hn : n < 2 ^ 31) :
    IStream.readInt ⟨' ' :: (toDecimal n ++ ' ' :: t), true⟩ old = (some (n : Int), ⟨' ' :: t, true⟩) := by
  rw [← List.singleton_append, IStream.readInt_skip (by simp [isspace]), IStream.readInt_toDecimal hn (by decide)]

theorem afterAngle_append (fragment : Text) {p : Text} (hp : ∀ c ∈ p, c ≠ '>') :
    afterAngle (p ++ '>' :: fragment) = fragment := by
  unfold afterAngle
  rw [List.dropWhile_append_of_pos (by simpa using hp), List.dropWhile_cons_of_neg (by simp)]

theorem header_ne {size : Nat} {c : Char} (hc : c ∈ header s n o size) : c ≠ '>' := by
  have hdigit : ∀ {k : Nat}, c ∈ toDecimal k → c ≠ '>' := by
    rintro k hc rfl
    exact absurd (mem_toDecimal hc) (by decide)
  unfold header at hc
  simp only [List.mem_append, List.mem_cons, List.not_mem_nil, or_false] at hc
  rcases hc with hc | rfl | hc | rfl | hc | rfl | hc | rfl
  · exact hdigit hc
  · decide
  · exact hdigit hc
  · decide
  · exact hdigit hc
  · decide
  · exact hdigit hc
  · decide

/-- What the header holds: the numbers, the name read up to a white space, and what comes after the first `>`. -/
theorem parse_tail (hs : s < 2 ^ 31) (hn : n < 2 ^ 31) (ho : o < 2 ^ 31) (hsize : fragment.length < 2 ^ 31) :
    parse (message s n o name fragment).tail = ⟨s, some n, some o, some fragment.length,
      (IStream.readWord ⟨name ++ ' ' :: '>' :: fragment, true⟩ []).1, afterAngle (name ++ ' ' :: '>' :: fragment)⟩ := by
  have hafter : afterAngle (message s n o name fragment).tail = afterAngle (name ++ ' ' :: '>' :: fragment) := by
    rw [message_tail]
    unfold afterAngle
    rw [List.dropWhile_append_of_pos (by simpa using fun c hc => header_ne hc)]
    have hne : (name ++ ' ' :: '>' :: fragment).dropWhile (· != '>') ≠ [] := by
      rw [Ne, List.dropWhile_eq_nil_iff]
      exact fun h => absurd (h '>' (by simp)) (by decide)
    split
    · contradiction
    · rfl
  unfold parse
  rw [hafter, message_eq, List.tail_cons]
  dsimp only [IStream.ofText]
  rw [IStream.readInt_toDecimal hs (by decide), readInt_next hn, readInt_next ho, readInt_next hsize]
  dsimp only
  rw [← List.singleton_append, IStream.readWord_skip (by simp [isspace])]
  rfl

/-- **The header is read back.** -/
theorem parse_message (hs : s < 2 ^ 31) (hn : n < 2 ^ 31) (ho : o < 2 ^ 31) (hsize : fragment.length < 2 ^ 31)
    (hne : name ≠ []) (hword : ∀ c ∈ name, isspace c = false) (hangle : ∀ c ∈ name, c ≠ '>') :
    parse (message s n o name fragment).tail = ⟨s, some n, some o, some fragment.length, name, fragment⟩ := by
  have hafter : afterAngle (name ++ ' ' :: '>' :: fragment) = fragment := by
    have hheader : ∀ c ∈ name ++ [' '], c ≠ '>' := by
      intro c hc
      rcases List.mem_append.1 hc with hc | hc
      · exact hangle c hc
      · rw [List.mem_singleton.1 hc]
        decide
    simpa using afterAngle_append fragment hheader
  rw [parse_tail hs hn ho hsize, hafter, IStream.readWord_append hne hword (by decide)]

/-- The datagram fits the buffer of the server. -/
theorem message_length (hs : s < 2 ^ 31) (hn : n < 2 ^ 31) (ho : o < 2 ^ 31) (hsize : fragment.length ≤ 1000)
    (hname : name.length ≤ 255) : (message s n o name fragment).length ≤ 10000 := by
  have h1 := toDecimal_length hs
  have h2 := toDecimal_length hn
  have h3 := toDecimal_length ho
  have h4 := toDecimal_length (n := fragment.length) (by omega)
  rw [message_eq]
  simp only [List.length_cons, List.length_append]
  omega

/-! ## Replies -/

theorem reply_none : decomposeReply (ackbuf none) = ⟨none, none, []⟩ := rfl

theorem reply_term : decomposeReply (ackbuf (some termMsg)) = ⟨some (-1), some (-1), "terminate"⟩ := by
  decide +kernel

theorem msg_eq {fCnt : Text} :
    Ack.msg ⟨s, o, fCnt⟩ = toDecimal s ++ ' ' :: (toDecimal o ++ ' ' :: ['A', 'C', 'K']) := by
  have hblank : " ".toList = [' '] := rfl
  have hack : " ACK".toList = [' ', 'A', 'C', 'K'] := rfl
  unfold Ack.msg
  rw [hblank, hack]
  simp only [List.append_assoc, List.cons_append, List.nil_append]

/-- **An acknowledgement is read back.** -/
theorem reply_ack {fCnt : Text} (hs : s < 2 ^ 31) (ho : o < 2 ^ 31) :
    decomposeReply (ackbuf (some (Ack.msg ⟨s, o, fCnt⟩))) = ⟨some s, some o, "ACK"⟩ := by
  have hdigit : ∀ {k : Nat}, ∀ c ∈ toDecimal k, c ≠ Char.ofNat 0 := by
    rintro k c hc rfl
    exact absurd (mem_toDecimal hc) (by decide)
  have hnul : ∀ c ∈ Ack.msg ⟨s, o, fCnt⟩, (c != Char.ofNat 0) = true := by
    intro c hc
    rw [bne_iff_ne]
    rw [msg_eq] at hc
    simp only [List.mem_append, List.mem_cons, List.not_mem_nil, or_false] at hc
    rcases hc with hc | rfl | hc | rfl | rfl | rfl | rfl
    · exact hdigit c hc
    · decide
    · exact hdigit c hc
    · decide
    · decide
    · decide
    · decide
  have hbuf : ackbuf (some (Ack.msg ⟨s, o, fCnt⟩)) = Ack.msg ⟨s, o, fCnt⟩ := by
    have h1 := toDecimal_length hs
    have h2 := toDecimal_length ho
    have hle : (Ack.msg ⟨s, o, fCnt⟩).length ≤ 1024 := by
      rw [msg_eq]
      simp only [List.length_cons, List.length_append, List.length_nil]
      omega
    unfold ackbuf
    rw [Option.getD_some, List.take_of_length_le hle, List.takeWhile_eq_self_iff.2 hnul]
  unfold decomposeReply
  rw [hbuf, msg_eq]
  dsimp only [IStream.ofText]
  rw [IStream.readInt_toDecimal hs (by decide), readInt_next ho]
  rfl

end IntroNP.Udp
