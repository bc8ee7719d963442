import IntroNP.Web.Server

/-!
# The web server: decoding a path

`Encodes u s` is what percent-encoding may make of `s`. The loop of `url_decode` is written here as the code has it,
with positions: a read past the terminator and a write past the end of the copy are an `Overrun`.

- `urlDecode_encodes`: an encoding is decoded to what it encodes;
- `turn_nil`, `turn_escape`, `turn_cons`: what one turn of the loop does;
- `decodeLoop_from`, `decodeLoop_eq`: on any C string the loop ends, without an overrun, and leaves what `urlDecode`
  says.
-/

namespace IntroNP.Web

variable {hex : Nat → Nat} {s t u url decoded : Text} {a b c : Char} {i k x y : Nat}

/-- The terminator of a C string. -/
abbrev nul : Char := Char.ofNat 0

/-! ## Encodings -/

/-- `u` is a percent-encoding of `s`: every byte is written as `%XX`, or stands for itself if it is not `%` or `+`, or is
a blank that is written as `+`. -/
inductive Encodes : Text → Text → Prop
  | nil : Encodes [] []
  | escape {a b c : Char} {x y : Nat} {u s : Text} (ha : hexDigit a = some x) (hb : hexDigit b = some y)
      (hc : c.toNat = 16 * x + y) (h : Encodes u s) : Encodes ('%' :: a :: b :: u) (c :: s)
  | plain {c : Char} {u s : Text} (hpercent : c ≠ '%') (hplus : c ≠ '+') (h : Encodes u s) : Encodes (c :: u) (c :: s)
  | blank {u s : Text} (h : Encodes u s) : Encodes ('+' :: u) (' ' :: s)

/-- Digits are between `0` and `f`, and their values below 16. -/
theorem hexDigit_range (h : hexDigit c = some x) : x < 16 ∧ 48 ≤ c.toNat ∧ c.toNat ≤ 102 := by
  unfold hexDigit at h
  simp only [Char.isDigit, Char.le_def, UInt32.le_iff_toNat_le, Bool.and_eq_true, decide_eq_true_eq, ge_iff_le] at h
  change (if 48 ≤ c.toNat ∧ c.toNat ≤ 57 then some (c.toNat - 48)
    else if 97 ≤ c.toNat ∧ c.toNat ≤ 102 then some (c.toNat - 97 + 10)
    else if 65 ≤ c.toNat ∧ c.toNat ≤ 70 then some (c.toNat - 65 + 10) else none) = some x at h
  split at h
  · cases h
    omega
  · split at h
    · cases h
      omega
    · split at h
      · cases h
        omega
      · cases h

theorem hexDigit_ne {d : Char} (h : hexDigit c = some x) (hd : hexDigit d = none) : c ≠ d := by
  rintro rfl
  rw [hd] at h
  cases h

/-- **Two digits** are read as a byte. -/
theorem scanHex_digits (ha : hexDigit a = some x) (hb : hexDigit b = some y) :
    scanHex (a :: b :: t) = some (16 * x + y) := by
  have hrange := hexDigit_range ha
  have hspace : isspace a = false := by
    have hblank : a ≠ ' ' := hexDigit_ne ha (by decide)
    simp only [isspace, Bool.or_eq_false_iff, beq_eq_false_iff_ne, ne_eq, Bool.and_eq_false_iff,
      decide_eq_false_iff_not]
    exact ⟨hblank, .inr (by omega)⟩
  have hsign : sign [a, b] = (false, [a, b]) := by
    unfold sign
    split
    · rename_i h
      cases h
      exact absurd rfl (hexDigit_ne ha (d := '-') (by decide))
    · rename_i h
      cases h
      exact absurd rfl (hexDigit_ne ha (d := '+') (by decide))
    · rfl
  have hprefix : ¬ ([a, b] = ("0x" : Text) ∨ [a, b] = ("0X" : Text)) := by
    rintro (h | h)
    · cases h
      exact absurd rfl (hexDigit_ne hb (d := 'x') (by decide))
    · cases h
      exact absurd rfl (hexDigit_ne hb (d := 'X') (by decide))
  unfold scanHex
  rw [List.dropWhile_cons_of_neg (by simp [hspace])]
  dsimp only [List.take]
  rw [hsign]
  dsimp only
  rw [if_neg hprefix]
  simp [ha, hb]

/-! ## Decoding an encoding -/

/-- Characters that do not begin an escape stand for themselves, or for a blank. -/
theorem urlDecodeFrom_cons (h : ¬ (c = '%' ∧ 2 ≤ t.length)) :
    urlDecodeFrom hex i (c :: t) = (if c = '+' then ' ' else c) :: urlDecodeFrom hex (i + 1) t := by
  match c, t with
  | c, [] => simp [urlDecodeFrom]
  | c, [a] => simp [urlDecodeFrom]
  | c, a :: b :: t =>
    have hc : c ≠ '%' := fun hc => h ⟨hc, by simp⟩
    rw [urlDecodeFrom]
    rintro a' b' t' rfl
    exact absurd rfl hc

theorem urlDecodeFrom_encodes (h : Encodes u s) (i : Nat) : urlDecodeFrom hex i u = s := by
  induction h generalizing i with
  | nil => rfl
  | @escape a b c x y u s ha hb hc _ ih =>
    have hx := (hexDigit_range ha).1
    have hy := (hexDigit_range hb).1
    have hbyte : (16 * x + y) % 256 = c.toNat := by omega
    rw [urlDecodeFrom, scanHex_digits ha hb, Option.getD_some, hbyte, Char.ofNat_toNat, ih]
  | plain hpercent hplus _ ih => rw [urlDecodeFrom_cons fun h => hpercent h.1, if_neg hplus, ih]
  | blank _ ih => rw [urlDecodeFrom_cons fun h => absurd h.1 (by decide), if_pos rfl, ih]

theorem takeWhile_nul (h : nul ∉ s) : s.takeWhile (· != nul) = s := by
  rw [List.takeWhile_eq_self_iff]
  intro c hc
  rw [bne_iff_ne]
  rintro rfl
  exact h hc

/-- **Decoding** inverts encoding. -/
theorem urlDecode_encodes (h : Encodes u s) (hs : nul ∉ s) : urlDecode hex u = s := by
  unfold urlDecode
  rw [urlDecodeFrom_encodes h, takeWhile_nul hs]

/-! ## The loop, with positions -/

/-- What is not defined: to read past the terminator of `url`, or to write past the end of the copy. -/
inductive Overrun
  | read
  | write
  deriving DecidableEq

/-- `url[k]`. -/
def charAt (url : Text) (k : Nat) : Except Overrun Char :=
  if k < url.length then .ok (url.getD k nul)
  else if k = url.length then .ok nul
  else .error .read

/-- `url[i] == '%' && url[i+1] && url[i+2]`: a character is only read if those in front of it are as they should. -/
def escapeAt (url : Text) (i : Nat) : Except Overrun Bool := do
  if (← charAt url i) = '%' then
    if (← charAt url (i + 1)) = nul then return false
    else return (← charAt url (i + 2)) ≠ nul
  else return false

/-- `sscanf(&url[k], "%2x", &hex)`, which reads a C string that begins at `k`: what `hex` is then. -/
def scanAt (url : Text) (k old : Nat) : Except Overrun Nat :=
  if k ≤ url.length then .ok ((scanHex (url.drop k)).getD old) else .error .read

/-- `decoded_url[j++] = c`, where `j` characters were written before and there is memory for `strlen(url) + 1`. -/
def put (url decoded : Text) (c : Char) : Except Overrun Text :=
  if decoded.length < url.length + 1 then .ok (decoded ++ [c]) else .error .write

/-- One turn of the loop from `i`: the new position and what was written, or nothing when the loop ends. -/
def turn (hex : Nat → Nat) (url : Text) (i : Nat) (decoded : Text) : Except Overrun (Option (Nat × Text)) := do
  let c ← charAt url i
  if c = nul then return none
  if ← escapeAt url i then
    let v ← scanAt url (i + 1) (hex i)
    return some (i + 2 + 1, ← put url decoded (.ofNat (v % 256)))
  else if c = '+' then return some (i + 1, ← put url decoded ' ')
  else return some (i + 1, ← put url decoded c)

/-- The loop and the terminator behind it: all that was written, or nothing when the turns do not suffice. -/
def decodeLoop (hex : Nat → Nat) (url : Text) : Nat → Nat → Text → Except Overrun (Option Text)
  | 0, _, _ => .ok none
  | turns + 1, i, decoded => do
    match ← turn hex url i decoded with
    | none => return some (← put url decoded nul)
    | some (i, decoded) => decodeLoop hex url turns i decoded

example : decodeLoop (fun _ => 0) "%4" 3 0 [] = .ok (some ['%', '4', nul]) := by decide

/-! ### Reads and writes -/

theorem ok_bind {α β : Type} (v : α) (f : α → Except Overrun β) : (Except.ok v >>= f) = f v := rfl

theorem charAt_drop (h : url.drop i = t) (hi : i ≤ url.length) (hk : k ≤ t.length) :
    charAt url (i + k) = .ok (t.getD k nul) := by
  have hlen : t.length = url.length - i := by rw [← h, List.length_drop]
  unfold charAt
  split
  · rw [← h]
    simp [List.getD_eq_getElem?_getD, List.getElem?_drop]
  · rw [if_pos (by omega), List.getD_eq_getElem?_getD, List.getElem?_eq_none (by omega), Option.getD_none]

theorem escapeAt_eq (h : url.drop i = c :: t) (hi : i ≤ url.length) (hurl : nul ∉ url) :
    escapeAt url i = .ok (decide (c = '%' ∧ 2 ≤ t.length)) := by
  have hnul : ∀ d ∈ c :: t, d ≠ nul := by
    rintro d hd rfl
    exact hurl (List.mem_of_mem_drop (h ▸ hd))
  have hc : charAt url i = .ok c := charAt_drop (k := 0) h hi (by simp)
  have ha : charAt url (i + 1) = .ok (t.getD 0 nul) := charAt_drop (k := 1) h hi (by simp)
  unfold escapeAt
  rw [hc, ok_bind]
  by_cases hpercent : c = '%'
  · rw [if_pos hpercent, ha, ok_bind]
    match t, h, hnul with
    | [], _, _ => simp [pure, Except.pure]
    | [a], h, hnul =>
      have hb : charAt url (i + 2) = .ok nul := charAt_drop (k := 2) h hi (by simp)
      have hane : ¬ [a].getD 0 nul = nul := hnul a (by simp)
      rw [if_neg hane, hb, ok_bind]
      simp [pure, Except.pure]
    | a :: b :: t, h, hnul =>
      have hb : charAt url (i + 2) = .ok b := charAt_drop (k := 2) h hi (by simp)
      have hane : ¬ (a :: b :: t).getD 0 nul = nul := hnul a (by simp)
      have hbne : b ≠ nul := hnul b (by simp)
      rw [if_neg hane, hb, ok_bind]
      simp [pure, Except.pure, hpercent, hbne]
  · rw [if_neg hpercent]
    simp [pure, Except.pure, hpercent]

theorem put_eq (h : decoded.length ≤ url.length) : put url decoded c = .ok (decoded ++ [c]) := by
  unfold put
  rw [if_pos (by omega)]

/-! ### Turns -/

/-- The loop ends at the terminator. -/
theorem turn_nil (h : url.drop i = []) (hi : i ≤ url.length) : turn hex url i decoded = .ok none := by
  have hc : charAt url i = .ok nul := charAt_drop (k := 0) h hi (by simp)
  unfold turn
  rw [hc, ok_bind, if_pos rfl]
  rfl

/-- A turn on an escape. -/
theorem turn_escape (h : url.drop i = '%' :: a :: b :: t) (hi : i ≤ url.length) (hurl : nul ∉ url)
    (hd : decoded.length ≤ url.length) : turn hex url i decoded =
      .ok (some (i + 3, decoded ++ [.ofNat ((scanHex (a :: b :: t)).getD (hex i) % 256)])) := by
  have hc : charAt url i = .ok '%' := charAt_drop (k := 0) h hi (by simp)
  have hlen := congrArg List.length h
  simp only [List.length_drop, List.length_cons] at hlen
  have hscan : scanAt url (i + 1) (hex i) = .ok ((scanHex (a :: b :: t)).getD (hex i)) := by
    have hdrop : url.drop (i + 1) = a :: b :: t := by
      rw [← List.drop_drop, h]
      rfl
    unfold scanAt
    rw [if_pos (by omega), hdrop]
  unfold turn
  rw [hc, ok_bind, if_neg (by decide), escapeAt_eq h hi hurl, ok_bind, if_pos (by simp), hscan, ok_bind, put_eq hd]
  rfl

/-- A turn on any other character. -/
theorem turn_cons (h : url.drop i = c :: t) (hi : i ≤ url.length) (hurl : nul ∉ url)
    (hd : decoded.length ≤ url.length) (hescape : ¬ (c = '%' ∧ 2 ≤ t.length)) :
    turn hex url i decoded = .ok (some (i + 1, decoded ++ [if c = '+' then ' ' else c])) := by
  have hc : charAt url i = .ok c := charAt_drop (k := 0) h hi (by simp)
  have hne : c ≠ nul := by
    rintro rfl
    exact hurl (List.mem_of_mem_drop (h ▸ List.mem_cons_self))
  unfold turn
  rw [hc, ok_bind, if_neg hne, escapeAt_eq h hi hurl, ok_bind, if_neg (by simpa using hescape)]
  by_cases hplus : c = '+'
  · rw [if_pos hplus, if_pos hplus, put_eq hd]
    rfl
  · rw [if_neg hplus, if_neg hplus, put_eq hd]
    rfl

/-- **The loop** ends without an overrun, from every position that it comes to: there, no more was written than was
read. -/
theorem decodeLoop_from (hurl : nul ∉ url) : ∀ (turns i : Nat) (decoded : Text), i ≤ url.length →
    url.length - i < turns → decoded.length ≤ i →
      decodeLoop hex url turns i decoded = .ok (some (decoded ++ urlDecodeFrom hex i (url.drop i) ++ [nul]))
  | 0, _, _, _, hturns, _ => by omega
  | turns + 1, i, decoded, hi, hturns, hd => by
    unfold decodeLoop
    match h : url.drop i with
    | [] =>
      rw [turn_nil h hi, ok_bind]
      dsimp only
      rw [put_eq (by omega), ok_bind]
      simp [urlDecodeFrom, pure, Except.pure]
    | c :: t =>
      have hlen := congrArg List.length h
      simp only [List.length_drop, List.length_cons] at hlen
      by_cases hescape : c = '%' ∧ 2 ≤ t.length
      · obtain ⟨rfl, h2⟩ := hescape
        match t, h2 with
        | a :: b :: t, _ =>
          simp only [List.length_cons] at hlen
          have hdrop : url.drop (i + 3) = t := by
            rw [← List.drop_drop, h]
            rfl
          rw [turn_escape h hi hurl (by omega), ok_bind]
          dsimp only
          rw [decodeLoop_from hurl turns (i + 3) _ (by omega) (by omega) (by simp; omega), hdrop, urlDecodeFrom]
          simp
      · have hdrop : url.drop (i + 1) = t := by
          rw [← List.drop_drop, h]
          rfl
        rw [turn_cons h hi hurl (by omega) hescape, ok_bind]
        dsimp only
        rw [decodeLoop_from hurl turns (i + 1) _ (by omega) (by omega) (by simp; omega), hdrop,
          urlDecodeFrom_cons hescape]
        simp

theorem urlDecodeFrom_length : ∀ (i : Nat) (t : Text), (urlDecodeFrom hex i t).length ≤ t.length := by
  intro i t
  fun_induction urlDecodeFrom hex i t with
  | case1 i a b url ih =>
    simp only [List.length_cons]
    omega
  | case2 i c url _ ih =>
    simp only [List.length_cons]
    omega
  | case3 => exact le_rfl

/-- **The loop** is `urlDecode`: what it writes is a C string with that text, no longer than the memory. -/
theorem decodeLoop_eq (hex : Nat → Nat) (hurl : nul ∉ url) :
    ∃ written, decodeLoop hex url (url.length + 1) 0 [] = .ok (some written) ∧ written.length ≤ url.length + 1 ∧
      written.takeWhile (· != nul) = urlDecode hex url := by
  refine ⟨_, decodeLoop_from hurl _ 0 [] (Nat.zero_le _) (by omega) le_rfl, ?_, ?_⟩
  · have hlen : (urlDecodeFrom hex 0 url).length ≤ url.length := urlDecodeFrom_length 0 url
    simp only [List.nil_append, List.drop_zero, List.length_append, List.length_singleton]
    omega
  · have hend : ([nul] : Text).takeWhile (· != nul) = [] := by decide
    rw [List.nil_append, List.drop_zero, urlDecode, List.takeWhile_append]
    split
    · rename_i h
      rw [hend, List.append_nil, (List.takeWhile_prefix _).eq_of_length h]
    · rfl

/-- **Decoding** inverts percent-encoding, and on every C string, whatever its escapes are, the loop ends and stays in
its two buffers. -/
theorem urlDecode_inverts (hex : Nat → Nat) :
    (∀ s u, nul ∉ s → Encodes u s → urlDecode hex u = s) ∧
      ∀ url, nul ∉ url → ∃ written, decodeLoop hex url (url.length + 1) 0 [] = .ok (some written) ∧
        written.length ≤ url.length + 1 ∧ written.takeWhile (· != nul) = urlDecode hex url :=
  ⟨fun _ _ hs h => urlDecode_encodes h hs, fun _ hurl => decodeLoop_eq hex hurl⟩

/-- An encoding with each kind of character, and a text that ends within an escape. -/
theorem urlDecode_inverts_mixed : urlDecode (fun _ => 7) "/%4D+b%2e" = "/M b." ∧
    ∃ written, decodeLoop (fun _ => 7) "a%4" 4 0 [] = .ok (some written) ∧ written.length ≤ 4 ∧
      written.takeWhile (· != nul) = urlDecode (fun _ => 7) "a%4" := by
  have hencodes : Encodes "/%4D+b%2e" "/M b." :=
    .plain (by decide) (by decide) (.escape (x := 4) (y := 13) (by decide) (by decide) (by decide)
      (.blank (.plain (by decide) (by decide) (.escape (x := 2) (y := 14) (by decide) (by decide) (by decide) .nil))))
  have h := urlDecode_inverts fun _ => 7
  exact ⟨h.1 _ _ (by decide) hencodes, h.2 "a%4" (by decide)⟩

end IntroNP.Web
