import IntroNP.Chat.Server
import Mathlib.Order.Bounds.Basic

/-!
# The chat server: content filtering

`filter_message` looks for a keyword from its index on, and goes on behind the place where it found one. What stands
between the index and that place is lost, so that the message is masked as it should exactly when every keyword that the
loop masks stands at the index it is looked for from (`InPlace`).

- `maskedKeyword_eq_some`: the keyword that the loop masks is the first of the list that counts;
- `filterLoop_length`: the text keeps its length exactly when the keywords are found in place;
- `masks_iff`: and this is when it is masked as it should;
- `filtered_clean`: whatever is lost, no keyword is left in the text, and a second call changes nothing.
-/

namespace IntroNP.Chat

/-! ## Masking -/

/-- The keyword occurs at `p`, in whatever case. -/
def Occurs (message keyword : Text) (p : Nat) : Prop :=
  keyword.map Char.toLower <+: (message.map Char.toLower).drop p

/-- Position `k` is in an occurrence of some keyword. -/
def InKeyword (keywords : List Text) (message : Text) (k : Nat) : Prop :=
  ∃ keyword ∈ keywords, ∃ p, Occurs message keyword p ∧ p ≤ k ∧ k < p + keyword.length

/-- What a filter should do: every character keeps its place, and only those of a keyword are masked. -/
structure Masks (keywords : List Text) (message result : Text) : Prop where
  length : result.length = message.length
  plain : ∀ k, ¬ InKeyword keywords message k → result[k]? = message[k]?
  masked : ∀ k, InKeyword keywords message k → result[k]? = message[k]? ∨ result[k]? = some '*'

/-- The keyword is next found at `pos`, looked for from `i` on, and counts there: `pos` is `i` itself, or no letter
stands in front of it. -/
def Counts (message keyword : Text) (i pos : Nat) : Prop :=
  IsLeast {p | i ≤ p ∧ Occurs message keyword p} pos ∧ (pos = i ∨ ¬ (message.getD (pos - 1) ' ').isAlpha)

/-- From `i` on, the first keyword of the list that counts stands where it is looked for, as long as there is one. -/
inductive InPlace (keywords : List Text) (message : Text) : Nat → Prop
  | done {i : Nat} (h : message.length ≤ i) : InPlace keywords message i
  | plain {i : Nat} (hnone : ∀ keyword ∈ keywords, ∀ pos, ¬ Counts message keyword i pos)
      (hnext : InPlace keywords message (i + 1)) : InPlace keywords message i
  | masked {i : Nat} {before after : List Text} {keyword : Text} (hsplit : keywords = before ++ keyword :: after)
      (hbefore : ∀ k ∈ before, ∀ pos, ¬ Counts message k i pos) (hoccurs : Occurs message keyword i)
      (hnext : InPlace keywords message (i + keyword.length)) : InPlace keywords message i

/-- The text that `filter_message` makes of the message, whatever the keywords. -/
def filtered (keywords : List Text) (message : Text) : Text :=
  filterLoop keywords message (message.map Char.toLower) message.length 0

theorem filterMessage_eq (message : Text) : filterMessage message = filtered filteredKeywords message := rfl

variable {keywords : List Text} {message keyword part : Text} {fuel i pos k : Nat}

/-! ## Looking for keywords -/

theorem Occurs.le (hne : keyword ≠ []) (h : Occurs message keyword pos) : pos + keyword.length ≤ message.length := by
  have hlen := h.length_le
  have hpos := List.length_pos_iff.2 hne
  rw [List.length_drop, List.length_map, List.length_map] at hlen
  omega

theorem Occurs.counts (h : Occurs message keyword i) : Counts message keyword i i :=
  ⟨⟨⟨le_rfl, h⟩, fun _ hp => hp.1⟩, .inl rfl⟩

theorem findFrom_eq_some (hne : keyword ≠ []) :
    findFrom (message.map Char.toLower) (keyword.map Char.toLower) i = some pos ↔
      IsLeast {p | i ≤ p ∧ Occurs message keyword p} pos := by
  unfold findFrom
  rw [List.find?_range'_eq_some, List.isPrefixOf_iff_prefix, List.length_map]
  constructor
  · rintro ⟨hp, hmem, hleast⟩
    refine ⟨⟨by simpa using (List.mem_range'_1.1 hmem).1, hp⟩, fun p ⟨hi, hocc⟩ => ?_⟩
    by_contra hlt
    have hno := hleast p hi (by omega)
    rw [Bool.not_eq_true', List.isPrefixOf_iff_prefix.2 hocc] at hno
    cases hno
  · rintro ⟨⟨hi, hocc⟩, hleast⟩
    have hle := hocc.le hne
    refine ⟨hocc, List.mem_range'_1.2 ⟨hi, by omega⟩, fun p hip hlt => ?_⟩
    rw [Bool.not_eq_true', Bool.eq_false_iff, Ne, List.isPrefixOf_iff_prefix]
    exact fun hp => absurd (hleast ⟨hip, hp⟩) (by omega)

/-- What the loop asks of one keyword. -/
def counted (message : Text) (i : Nat) (keyword : Text) : Option (Nat × Text) :=
  match findFrom (message.map Char.toLower) (keyword.map Char.toLower) i with
  | some pos => if pos = i ∨ ¬ (message.getD (pos - 1) ' ').isAlpha then some (pos, keyword) else none
  | none => none

theorem maskedKeyword_eq : maskedKeyword keywords message (message.map Char.toLower) i =
    keywords.findSome? (counted message i) := rfl

theorem counted_eq_some (hne : keyword ≠ []) {r : Nat × Text} :
    counted message i keyword = some r ↔ r.2 = keyword ∧ Counts message keyword i r.1 := by
  unfold counted Counts
  constructor
  · intro h
    split at h
    · rename_i pos hfind
      split at h
      · rename_i hcounts
        cases h
        exact ⟨rfl, (findFrom_eq_some hne).1 hfind, hcounts⟩
      · cases h
    · cases h
  · rintro ⟨rfl, hleast, hcounts⟩
    rw [(findFrom_eq_some hne).2 hleast]
    dsimp only
    rw [if_pos hcounts]

theorem counted_eq_none (hne : keyword ≠ []) :
    counted message i keyword = none ↔ ∀ pos, ¬ Counts message keyword i pos := by
  rw [Option.eq_none_iff_forall_ne_some]
  constructor
  · exact fun h pos hc => h (pos, keyword) ((counted_eq_some hne).2 ⟨rfl, hc⟩)
  · rintro h ⟨pos, k⟩ hk
    exact h pos ((counted_eq_some hne).1 hk).2

section Nonempty

variable (hne : ∀ keyword ∈ keywords, keyword ≠ [])
include hne

theorem maskedKeyword_eq_none : maskedKeyword keywords message (message.map Char.toLower) i = none ↔
    ∀ keyword ∈ keywords, ∀ pos, ¬ Counts message keyword i pos := by
  rw [maskedKeyword_eq, List.findSome?_eq_none_iff]
  exact forall₂_congr fun keyword hk => counted_eq_none (hne keyword hk)

/-- **The keyword that is masked** is the first of the list that counts. -/
theorem maskedKeyword_eq_some : maskedKeyword keywords message (message.map Char.toLower) i = some (pos, keyword) ↔
    ∃ before after, keywords = before ++ keyword :: after ∧ (∀ k ∈ before, ∀ p, ¬ Counts message k i p) ∧
      Counts message keyword i pos := by
  rw [maskedKeyword_eq, List.findSome?_eq_some_iff]
  constructor
  · rintro ⟨before, k, after, rfl, hk, hbefore⟩
    obtain ⟨rfl, hc⟩ := (counted_eq_some (hne k (by simp))).1 hk
    exact ⟨before, after, rfl, fun k' hk' => (counted_eq_none (hne k' (by simp [hk']))).1 (hbefore k' hk'), hc⟩
  · rintro ⟨before, after, rfl, hbefore, hc⟩
    refine ⟨before, keyword, after, rfl, (counted_eq_some (hne _ (by simp))).2 ⟨rfl, hc⟩, fun k' hk' => ?_⟩
    exact (counted_eq_none (hne k' (by simp [hk']))).2 (hbefore k' hk')

/-- A turn that masks nothing is in place when the next is. -/
theorem inPlace_of_none (hi : i < message.length)
    (h : maskedKeyword keywords message (message.map Char.toLower) i = none) :
    InPlace keywords message i ↔ InPlace keywords message (i + 1) := by
  have hnone := (maskedKeyword_eq_none hne).1 h
  constructor
  · rintro (hdone | ⟨-, hnext⟩ | ⟨rfl, -, hoccurs, -⟩)
    · omega
    · exact hnext
    · exact absurd hoccurs.counts (hnone _ (by simp) i)
  · exact .plain hnone

/-- A turn that masks a keyword is in place when the keyword stands at the index, and the next turn is. -/
theorem inPlace_of_some (h : maskedKeyword keywords message (message.map Char.toLower) i = some (pos, keyword)) :
    InPlace keywords message i ↔ pos = i ∧ InPlace keywords message (i + keyword.length) := by
  obtain ⟨before, after, hsplit, hbefore, hc⟩ := (maskedKeyword_eq_some hne).1 h
  have hmem : keyword ∈ keywords := hsplit ▸ by simp
  have hle := hc.1.1.2.le (hne keyword hmem)
  have hpos := List.length_pos_iff.2 (hne keyword hmem)
  constructor
  · rintro (hdone | ⟨hnone, -⟩ | ⟨hsplit', hbefore', hoccurs, hnext⟩)
    · have := hc.1.1.1
      omega
    · exact absurd hc (hnone keyword hmem pos)
    · have h' := (maskedKeyword_eq_some hne).2 ⟨_, _, hsplit', hbefore', hoccurs.counts⟩
      rw [h] at h'
      cases h'
      exact ⟨rfl, hnext⟩
  · rintro ⟨rfl, hnext⟩
    exact .masked hsplit hbefore hc.1.1.2 hnext

/-! ## The loop -/

/-- **Length**: the text that the loop makes is never too long, and is as long as the rest of the message exactly when
the keywords are found in place. -/
theorem filterLoop_length (hfuel : message.length ≤ i + fuel) :
    (filterLoop keywords message (message.map Char.toLower) fuel i).length ≤ message.length - i ∧
      ((filterLoop keywords message (message.map Char.toLower) fuel i).length = message.length - i ↔
        InPlace keywords message i) := by
  induction fuel generalizing i with
  | zero =>
    unfold filterLoop
    exact ⟨Nat.zero_le _, iff_of_true (by rw [List.length_nil]; omega) (.done hfuel)⟩
  | succ fuel ih =>
    unfold filterLoop
    rcases Nat.lt_or_ge i message.length with hi | hi
    · rw [List.getElem?_eq_getElem hi]
      dsimp only
      split
      · rename_i pos keyword hmasked
        obtain ⟨before, after, hsplit, -, hc⟩ := (maskedKeyword_eq_some hne).1 hmasked
        have hk := hne keyword (hsplit ▸ by simp)
        have hle := hc.1.1.2.le hk
        have hip : i ≤ pos := hc.1.1.1
        have hpos := List.length_pos_iff.2 hk
        obtain ⟨hshort, hiff⟩ := ih (i := pos + keyword.length) (by omega)
        rw [inPlace_of_some hne hmasked, List.length_append, List.length_replicate]
        refine ⟨by omega, fun h => ?_, ?_⟩
        · have hpi : pos = i := by omega
          exact ⟨hpi, hpi ▸ hiff.1 (by omega)⟩
        · rintro ⟨rfl, hnext⟩
          rw [hiff.2 hnext]
          omega
      · rename_i hmasked
        obtain ⟨hshort, hiff⟩ := ih (i := i + 1) (by omega)
        rw [inPlace_of_none hne hi hmasked, ← hiff, List.length_cons]
        omega
    · rw [List.getElem?_eq_none hi]
      exact ⟨Nat.zero_le _, iff_of_true (by rw [List.length_nil]; omega) (.done hi)⟩

/-- **Characters**: in place, what is not in a keyword is kept, and anything else is kept or masked. -/
theorem filterLoop_getElem? (hfuel : message.length ≤ i + fuel) (h : InPlace keywords message i) (k : Nat) :
    (filterLoop keywords message (message.map Char.toLower) fuel i)[k]? = message[i + k]? ∨
      InKeyword keywords message (i + k) ∧
        (filterLoop keywords message (message.map Char.toLower) fuel i)[k]? = some '*' := by
  induction fuel generalizing i k with
  | zero =>
    unfold filterLoop
    exact .inl (by rw [List.getElem?_nil, List.getElem?_eq_none (by omega)])
  | succ fuel ih =>
    unfold filterLoop
    rcases Nat.lt_or_ge i message.length with hi | hi
    · rw [List.getElem?_eq_getElem hi]
      dsimp only
      split
      · rename_i pos keyword hmasked
        obtain ⟨before, after, hsplit, -, hc⟩ := (maskedKeyword_eq_some hne).1 hmasked
        obtain ⟨rfl, hnext⟩ := (inPlace_of_some hne hmasked).1 h
        have hmem : keyword ∈ keywords := hsplit ▸ by simp
        have hpos := List.length_pos_iff.2 (hne keyword hmem)
        rcases Nat.lt_or_ge k keyword.length with hk | hk
        · refine .inr ⟨⟨keyword, hmem, pos, hc.1.1.2, by omega, by omega⟩, ?_⟩
          rw [List.getElem?_append_left (by simpa using hk), List.getElem?_replicate, if_pos hk]
        · rw [List.getElem?_append_right (by simpa using hk), List.length_replicate]
          have hstep := ih (by omega) hnext (k - keyword.length)
          rwa [show pos + keyword.length + (k - keyword.length) = pos + k by omega] at hstep
      · rename_i hmasked
        have hnext := (inPlace_of_none hne hi hmasked).1 h
        cases k with
        | zero => exact .inl (by rw [List.getElem?_cons_zero, Nat.add_zero, List.getElem?_eq_getElem hi])
        | succ k =>
          rw [List.getElem?_cons_succ]
          have hstep := ih (by omega) hnext k
          rwa [show i + 1 + k = i + (k + 1) by omega] at hstep
    · rw [List.getElem?_eq_none hi]
      exact .inl (by rw [List.getElem?_nil, List.getElem?_eq_none (by omega)])

/-- **Masking**: a message is masked as it should exactly when its keywords are found in place. -/
theorem masks_iff : Masks keywords message (filtered keywords message) ↔ InPlace keywords message 0 := by
  have hfuel : message.length ≤ 0 + message.length := by omega
  constructor
  · intro h
    exact (filterLoop_length hne hfuel).2.1 (by rw [Nat.sub_zero]; exact h.length)
  · intro h
    have hat := filterLoop_getElem? hne hfuel h
    simp only [Nat.zero_add] at hat
    refine ⟨?_, fun k hk => ?_, fun k _ => (hat k).imp_right And.right⟩
    · have hlen := (filterLoop_length hne hfuel).2.2 h
      rwa [Nat.sub_zero] at hlen
    · exact (hat k).resolve_right fun hc => hk hc.1

/-! ## What is left of the keywords

The loop writes one block of asterisks after another, and between two blocks characters of the message that stood next
to each other. At each of them every keyword was looked for, and none stood there. -/

/-- A turn that keeps its character: no keyword occurs at the index. -/
theorem not_occurs_of_none (h : maskedKeyword keywords message (message.map Char.toLower) i = none) :
    ∀ keyword ∈ keywords, ¬ Occurs message keyword i :=
  fun keyword hk hocc => (maskedKeyword_eq_none hne).1 h keyword hk i hocc.counts

/-- What the loop writes from `i` on up to the next asterisk stands at `i` in the message. -/
theorem filterLoop_prefix (hstar : '*' ∉ part)
    (h : part <+: filterLoop keywords message (message.map Char.toLower) fuel i) : part <+: message.drop i := by
  induction fuel generalizing i part with
  | zero =>
    unfold filterLoop at h
    rw [List.prefix_nil.1 h]
    exact List.nil_prefix
  | succ fuel ih =>
    unfold filterLoop at h
    rcases part with _ | ⟨c, part⟩
    · exact List.nil_prefix
    rcases Nat.lt_or_ge i message.length with hi | hi
    · rw [List.getElem?_eq_getElem hi] at h
      dsimp only at h
      split at h
      · rename_i pos keyword hmasked
        obtain ⟨before, after, hsplit, -, -⟩ := (maskedKeyword_eq_some hne).1 hmasked
        obtain ⟨n, hn⟩ := Nat.exists_eq_succ_of_ne_zero
          (Nat.pos_iff_ne_zero.1 (List.length_pos_iff.2 (hne keyword (hsplit ▸ by simp))))
        rw [hn, List.replicate_succ, List.cons_append, List.cons_prefix_cons] at h
        exact absurd h.1.symm (fun hc => hstar (by rw [hc]; exact List.mem_cons_self))
      · obtain ⟨rfl, hrest⟩ := List.cons_prefix_cons.1 h
        rw [List.drop_eq_getElem_cons hi, List.cons_prefix_cons]
        exact ⟨rfl, ih (fun hmem => hstar (List.mem_cons_of_mem _ hmem)) hrest⟩
    · rw [List.getElem?_eq_none hi] at h
      exact absurd (List.prefix_nil.1 h) (List.cons_ne_nil _ _)

/-- Text without an asterisk that the loop writes comes from a place of the message where no keyword occurs. -/
theorem filterLoop_source (hpart : part ≠ []) (hstar : '*' ∉ part)
    (h : part <+: (filterLoop keywords message (message.map Char.toLower) fuel i).drop k) :
    ∃ q, part <+: message.drop q ∧ ∀ keyword ∈ keywords, ¬ Occurs message keyword q := by
  induction fuel generalizing i k with
  | zero =>
    unfold filterLoop at h
    rw [List.drop_nil] at h
    exact absurd (List.prefix_nil.1 h) hpart
  | succ fuel ih =>
    have hwhole := h
    unfold filterLoop at h
    rcases Nat.lt_or_ge i message.length with hi | hi
    · rw [List.getElem?_eq_getElem hi] at h
      dsimp only at h
      split at h
      · rename_i pos keyword hmasked
        rcases Nat.lt_or_ge k keyword.length with hk | hk
        · -- the text would begin inside of a block
          rw [List.drop_append_of_le_length (by simpa using hk.le), List.drop_replicate,
            ← Nat.succ_pred_eq_of_pos (Nat.sub_pos_of_lt hk), List.replicate_succ, List.cons_append] at h
          obtain ⟨c, rest, rfl⟩ := List.exists_cons_of_ne_nil hpart
          rw [List.cons_prefix_cons] at h
          exact absurd h.1.symm (fun hc => hstar (by rw [hc]; exact List.mem_cons_self))
        · rw [List.drop_append, List.drop_eq_nil_of_le (by simpa using hk), List.nil_append] at h
          exact ih h
      · rename_i hmasked
        cases k with
        | zero => exact ⟨i, filterLoop_prefix hne hstar hwhole, not_occurs_of_none hne hmasked⟩
        | succ k => exact ih h
    · rw [List.getElem?_eq_none hi, List.drop_nil] at h
      exact absurd (List.prefix_nil.1 h) hpart

/-- Without a keyword in it the text is kept. -/
theorem filterLoop_of_clean (hclean : ∀ keyword ∈ keywords, ∀ p, ¬ Occurs message keyword p)
    (hfuel : message.length ≤ i + fuel) :
    filterLoop keywords message (message.map Char.toLower) fuel i = message.drop i := by
  induction fuel generalizing i with
  | zero =>
    unfold filterLoop
    rw [List.drop_eq_nil_of_le (by omega)]
  | succ fuel ih =>
    have hnone : maskedKeyword keywords message (message.map Char.toLower) i = none :=
      (maskedKeyword_eq_none hne).2 fun keyword hk pos hc => hclean keyword hk pos hc.1.1.2
    unfold filterLoop
    rcases Nat.lt_or_ge i message.length with hi | hi
    · rw [List.getElem?_eq_getElem hi, hnone]
      dsimp only
      rw [ih (by omega), List.drop_eq_getElem_cons hi]
    · rw [List.getElem?_eq_none hi, List.drop_eq_nil_of_le hi]

end Nonempty

/-- An asterisk is its own lower case, and that of nothing else. -/
theorem toLower_eq_star {c : Char} : c.toLower = '*' ↔ c = '*' := by
  refine ⟨fun h => ?_, fun h => by rw [h]; rfl⟩
  unfold Char.toLower at h
  split at h
  · rename_i hupper
    have hval : (c.val + ('a'.val - 'A'.val)).toNat = '*'.val.toNat := congrArg (fun c => c.val.toNat) h
    have hlow : 'A'.val.toNat ≤ c.val.toNat := UInt32.le_iff_toNat_le.1 hupper.1
    have hhigh : c.val.toNat ≤ 'Z'.val.toNat := UInt32.le_iff_toNat_le.1 hupper.2
    rw [UInt32.toNat_add] at hval
    simp at hval hlow hhigh
    omega
  · exact h

theorem map_toLower_star {text : Text} : '*' ∈ text.map Char.toLower ↔ '*' ∈ text := by
  rw [List.mem_map]
  exact ⟨fun ⟨c, hc, hlower⟩ => toLower_eq_star.1 hlower ▸ hc, fun h => ⟨'*', h, rfl⟩⟩

/-- No keyword is left in the text. -/
theorem not_occurs_filtered (hne : ∀ keyword ∈ keywords, keyword ≠ []) (hstar : ∀ keyword ∈ keywords, '*' ∉ keyword)
    (hk : keyword ∈ keywords) (p : Nat) : ¬ Occurs (filtered keywords message) keyword p := by
  intro hocc
  have hle := hocc.le (hne keyword hk)
  unfold Occurs at hocc
  rw [← List.map_drop, List.prefix_iff_eq_take, ← List.map_take, List.length_map] at hocc
  -- the characters that make up the occurrence
  have hpart : ((filtered keywords message).drop p).take keyword.length ≠ [] := by
    intro hnil
    rw [hnil, List.map_nil, List.map_eq_nil_iff] at hocc
    exact hne keyword hk hocc
  have hplain : '*' ∉ ((filtered keywords message).drop p).take keyword.length := by
    rw [← map_toLower_star, ← hocc, map_toLower_star]
    exact hstar keyword hk
  obtain ⟨q, hq, hfree⟩ := filterLoop_source hne hpart hplain (List.take_prefix _ _)
  refine hfree keyword hk ?_
  unfold Occurs
  rw [hocc, ← List.map_drop]
  exact hq.map _

/-- **Clean**: no keyword is left in a filtered text, in whatever case, and filtering it again changes nothing. -/
theorem filtered_clean (hne : ∀ keyword ∈ keywords, keyword ≠ []) (hstar : ∀ keyword ∈ keywords, '*' ∉ keyword) :
    (∀ keyword ∈ keywords, ∀ p, ¬ Occurs (filtered keywords message) keyword p) ∧
      filtered keywords (filtered keywords message) = filtered keywords message := by
  have hclean : ∀ keyword ∈ keywords, ∀ p, ¬ Occurs (filtered keywords message) keyword p :=
    fun _ hk p => not_occurs_filtered hne hstar hk p
  refine ⟨hclean, ?_⟩
  have hlen : (filtered keywords message).length ≤ 0 + (filtered keywords message).length := by omega
  exact (filterLoop_of_clean hne hclean hlen).trans List.drop_zero

theorem filteredKeywords_ne_nil : ∀ keyword ∈ filteredKeywords, keyword ≠ [] := by decide

/-- Keywords next to each other, and an equals sign that is left of three. -/
theorem filtered_clean_adjacent : filterMessage "helloHELLO===" = "************=" ∧
    (∀ keyword ∈ filteredKeywords, ∀ p, ¬ Occurs (filtered filteredKeywords "helloHELLO===") keyword p) ∧
      filtered filteredKeywords (filtered filteredKeywords "helloHELLO===") =
        filtered filteredKeywords "helloHELLO===" :=
  ⟨by decide +kernel, filtered_clean filteredKeywords_ne_nil (by decide)⟩

/-- A keyword in front is masked. -/
theorem masks_iff_front :
    Masks filteredKeywords "domain expansion!!!???" (filterMessage "domain expansion!!!???") := by
  have hfuel : ("domain expansion!!!???" : Text).length ≤ 0 + 22 := by decide
  exact (masks_iff filteredKeywords_ne_nil).2
    ((filterLoop_length filteredKeywords_ne_nil hfuel).2.1 (by decide +kernel))

/-- What stands in front of a keyword is lost. -/
theorem filterMessage_behind : filterMessage "hey hello" = "*****" ∧
    ¬ Masks filteredKeywords "hey hello" (filterMessage "hey hello") :=
  ⟨by decide, fun h => absurd h.length (by decide)⟩

end IntroNP.Chat
