import IntroNP.Lib.CString
import Mathlib.Data.List.Forall2
import Mathlib.Data.List.Flatten

/-!
# Streams of lines, and their chunks

A stream of lines is read in chunks. `mark r` keeps the line feeds of a text and the places of all other characters: the
`r`-th of these becomes an `x`, the others become blanks. The same mark can be put into the lines or into the chunks of a
stream (`stream_markAll`, `flatten_markAll`), and shows which line and which chunk a character is in.

- `strip_lengths`: lines and chunks in which the marks show up in the same places have the same number of characters;
- `forall₂_whole`: chunks that are the lines but for line feeds hold them in one piece;
- `strip_lengths_eq`: where the lengths of lines and chunks are the same, so are the numbers of characters in each chunk.
-/

namespace IntroNP

/-- Lines, with a line feed behind each. -/
def stream (lines : List Text) : Text := (lines.map (· ++ ['\n'])).flatten

/-- The characters that are not line feeds. -/
def strip (t : Text) : Text := t.filter (· ≠ '\n')

/-- `chunk` is the line `l`, with line feeds in front and behind. -/
def Whole (chunk l : Text) : Prop := ∃ m n, chunk = List.replicate m '\n' ++ l ++ List.replicate n '\n'

/-- `t` with its line feeds, an `x` for the `r`-th of its other characters and blanks for the rest. -/
def mark : Int → Text → Text
  | _, [] => []
  | r, c :: t => if c = '\n' then '\n' :: mark r t else (if r = 0 then 'x' else ' ') :: mark (r - 1) t

/-- The same for texts behind one another. -/
def markAll : Int → List Text → List Text
  | _, [] => []
  | r, t :: ts => mark r t :: markAll (r - (strip t).length) ts

/-- The mark is in `t`. -/
def marked (t : Text) : Bool := 'x' ∈ t

variable {r : Int} {c : Char} {s t u l : Text} {lines chunks : List Text}

/-! ## Lines and line feeds -/

theorem stream_cons : stream (l :: lines) = l ++ '\n' :: stream lines := by simp [stream]

theorem strip_append : strip (s ++ t) = strip s ++ strip t := List.filter_append ..

theorem strip_cons (h : c ≠ '\n') : strip (c :: t) = c :: strip t := List.filter_cons_of_pos (by simpa using h)

theorem strip_newline : strip ('\n' :: t) = strip t := List.filter_cons_of_neg (by simp)

theorem strip_eq_self (h : '\n' ∉ t) : strip t = t := by
  refine List.filter_eq_self.2 fun c hc => ?_
  rw [decide_eq_true_eq]
  rintro rfl
  exact h hc

/-- A text of line feeds only. -/
theorem eq_replicate_of_strip (h : strip t = []) : t = List.replicate t.length '\n' := by
  refine List.eq_replicate_of_mem fun c hc => ?_
  simpa using List.filter_eq_nil_iff.1 h c hc

/-- A text with other characters begins with line feeds, and one of these. -/
theorem exists_of_strip (h : strip t = c :: s) :
    ∃ e u, t = List.replicate e '\n' ++ c :: u ∧ strip u = s ∧ c ≠ '\n' := by
  induction t with
  | nil => cases h
  | cons d t ih =>
    by_cases hd : d = '\n'
    · subst hd
      rw [strip_newline] at h
      obtain ⟨e, u, rfl, hu⟩ := ih h
      exact ⟨e + 1, u, rfl, hu⟩
    · rw [strip_cons hd] at h
      cases h
      exact ⟨0, t, rfl, rfl, hd⟩

/-- The first other character ends the line feeds in front. -/
theorem replicate_append_inj {d : Char} (hc : c ≠ '\n') (hd : d ≠ '\n') : ∀ {m n : Nat},
    List.replicate m '\n' ++ c :: s = List.replicate n '\n' ++ d :: t → m = n ∧ c = d ∧ s = t
  | 0, 0, h => ⟨rfl, List.cons.inj h⟩
  | 0, n + 1, h => absurd (List.cons.inj h).1 hc
  | m + 1, 0, h => absurd (List.cons.inj h).1.symm hd
  | m + 1, n + 1, h => by
    obtain ⟨rfl, hcd, hst⟩ := replicate_append_inj hc hd (List.cons.inj h).2
    exact ⟨rfl, hcd, hst⟩

/-- **In one piece**: chunks of a stream that are its lines but for line feeds. The chunks may be `d` line feeds ahead
of the lines, or `m` behind. -/
theorem forall₂_whole : ∀ {chunks lines : List Text} (d m : Nat), (∀ l ∈ lines, '\n' ∉ l) →
    chunks.map strip = lines →
    List.replicate d '\n' ++ chunks.flatten = List.replicate m '\n' ++ stream lines → List.Forall₂ Whole chunks lines
  | [], _, _, _, _, rfl, _ => .nil
  | t :: chunks, lines, d, m, hline, hmap, h => by
    obtain rfl : strip t :: chunks.map strip = lines := hmap
    rw [stream_cons, List.flatten_cons] at h
    have hnext : ∀ d m, List.replicate d '\n' ++ chunks.flatten = List.replicate m '\n' ++ stream (chunks.map strip) →
        List.Forall₂ Whole chunks (chunks.map strip) := fun d m =>
      forall₂_whole d m (fun l hl => hline l (List.mem_cons_of_mem _ hl)) rfl
    cases hl : strip t with
    | nil =>
      have ht := eq_replicate_of_strip hl
      refine .cons ⟨t.length, 0, by simpa using ht⟩ (hnext (d + t.length) (m + 1) ?_)
      rw [hl, List.nil_append, ht, List.append_cons, ← List.replicate_succ', ← List.append_assoc,
        List.replicate_append_replicate] at h
      simpa using h
    | cons c l =>
      obtain ⟨e, u, rfl, hu, hc⟩ := exists_of_strip hl
      rw [hl, List.append_assoc, ← List.append_assoc, List.replicate_append_replicate, List.cons_append,
        List.cons_append] at h
      obtain ⟨-, -, h⟩ := replicate_append_inj hc hc h
      -- the rest of the line is the beginning of the rest of the chunk
      have hlen : l.length ≤ u.length := hu ▸ List.length_filter_le _ _
      obtain ⟨v, rfl⟩ : l <+: u :=
        List.prefix_of_prefix_length_le (h ▸ List.prefix_append l _) (List.prefix_append u _) hlen
      have hself : strip l = l := by
        refine strip_eq_self fun hmem => hline _ List.mem_cons_self ?_
        rw [hl]
        exact List.mem_cons_of_mem _ hmem
      have hv : strip v = [] := by
        rw [strip_append, hself] at hu
        simpa using hu
      have hfeeds := eq_replicate_of_strip hv
      refine .cons ⟨e, v.length, by rw [← hfeeds]; simp⟩ (hnext v.length 1 ?_)
      rw [List.append_assoc, List.append_cancel_left_eq] at h
      rw [← hfeeds, h]
      rfl

/-! ## Marks -/

theorem mark_append : ∀ (r : Int) (s t : Text), mark r (s ++ t) = mark r s ++ mark (r - (strip s).length) t
  | r, [], t => by simp [mark, strip]
  | r, c :: s, t => by
    rw [List.cons_append, mark, mark]
    split
    · rename_i hc
      rw [mark_append r s t, hc, strip_newline, List.cons_append]
    · rename_i hc
      rw [mark_append (r - 1) s t, strip_cons hc, List.cons_append, List.length_cons]
      congr 3
      omega

theorem length_mark : ∀ (r : Int) (t : Text), (mark r t).length = t.length
  | _, [] => rfl
  | r, c :: t => by
    rw [mark]
    split <;> rw [List.length_cons, length_mark, List.length_cons]

theorem map_length_markAll : ∀ (r : Int) (ts : List Text), (markAll r ts).map List.length = ts.map List.length
  | _, [] => rfl
  | r, t :: ts => by rw [markAll, List.map_cons, List.map_cons, length_mark, map_length_markAll]

theorem mem_markAll : ∀ {r : Int} {ts : List Text}, s ∈ markAll r ts → ∃ i, ∃ t ∈ ts, s = mark i t
  | r, t :: ts, h => by
    rw [markAll] at h
    rcases List.mem_cons.1 h with rfl | h
    · exact ⟨r, t, List.mem_cons_self, rfl⟩
    · obtain ⟨i, u, hu, he⟩ := mem_markAll h
      exact ⟨i, u, List.mem_cons_of_mem _ hu, he⟩

theorem flatten_markAll : ∀ (r : Int) (ts : List Text), (markAll r ts).flatten = mark r ts.flatten
  | _, [] => rfl
  | r, t :: ts => by rw [markAll, List.flatten_cons, List.flatten_cons, mark_append, flatten_markAll]

theorem stream_markAll : ∀ (r : Int) (lines : List Text), stream (markAll r lines) = mark r (stream lines)
  | _, [] => rfl
  | r, l :: lines => by
    rw [markAll, stream_cons, stream_cons, mark_append, stream_markAll, mark, if_pos rfl]

/-- Which characters a marked text has. -/
theorem of_mem_mark : ∀ {r : Int} {t : Text}, c ∈ mark r t → c = 'x' ∨ c = ' ' ∨ c = '\n' ∧ '\n' ∈ t
  | r, d :: t, h => by
    rw [mark] at h
    split at h
    · rename_i hd
      rcases List.mem_cons.1 h with rfl | h
      · exact .inr (.inr ⟨rfl, hd ▸ List.mem_cons_self⟩)
      · exact (of_mem_mark h).imp_right (Or.imp_right (And.imp_right (List.mem_cons_of_mem _)))
    · rcases List.mem_cons.1 h with rfl | h
      · split
        · exact .inl rfl
        · exact .inr (.inl rfl)
      · exact (of_mem_mark h).imp_right (Or.imp_right (And.imp_right (List.mem_cons_of_mem _)))

theorem marked_cons : marked (c :: t) ↔ 'x' = c ∨ marked t := by simp [marked]

/-- The mark is in the text that has the `r`-th character. -/
theorem marked_mark : ∀ {r : Int} {t : Text}, marked (mark r t) ↔ 0 ≤ r ∧ r < (strip t).length
  | r, [] => by
    refine iff_of_false (by simp [marked, mark]) fun h => ?_
    have hlt : r < (0 : Nat) := h.2
    omega
  | r, c :: t => by
    rw [mark]
    split
    · rename_i hc
      rw [marked_cons, marked_mark, hc, strip_newline]
      exact or_iff_right (by decide)
    · rename_i hc
      rw [marked_cons, marked_mark, strip_cons hc, List.length_cons]
      split
      · rename_i hr
        exact iff_of_true (.inl rfl) (by omega)
      · rename_i hr
        rw [or_iff_right (by decide)]
        omega

/-- **The marks count**: where they show up in the same places, the numbers of characters are the same. -/
theorem strip_lengths : ∀ {chunks lines : List Text},
    (∀ r, (markAll r chunks).map marked = (markAll r lines).map marked) →
    (chunks.map strip).map List.length = (lines.map strip).map List.length
  | [], [], _ => rfl
  | [], _ :: _, h => nomatch h 0
  | _ :: _, [], h => nomatch h 0
  | t :: chunks, l :: lines, h => by
    have hhead : ∀ r : Int, (0 ≤ r ∧ r < (strip t).length) ↔ (0 ≤ r ∧ r < (strip l).length) := by
      intro r
      rw [← marked_mark, ← marked_mark, (List.cons.inj (h r)).1]
    have hlen : (strip t).length = (strip l).length := by
      have hle := hhead (strip t).length
      have hge := hhead (strip l).length
      omega
    have htail : ∀ r, (markAll r chunks).map marked = (markAll r lines).map marked := by
      intro r
      have hr := (List.cons.inj (h (r + (strip t).length))).2
      rwa [← hlen, Int.add_sub_cancel] at hr
    rw [List.map_cons, List.map_cons, List.map_cons, List.map_cons, hlen, strip_lengths htail]

/-- Chunks of a stream that have as many characters as its lines are its lines, but for line feeds. -/
theorem map_strip_eq (hline : ∀ l ∈ lines, '\n' ∉ l) (hstream : chunks.flatten = stream lines)
    (hlen : (chunks.map strip).map List.length = (lines.map strip).map List.length) : chunks.map strip = lines := by
  have hself : lines.map strip = lines :=
    (List.map_congr_left fun l hl => strip_eq_self (hline l hl)).trans (List.map_id lines)
  have hflat : ∀ ls : List Text, (∀ l ∈ ls, '\n' ∉ l) → strip (stream ls) = ls.flatten := by
    intro ls
    induction ls with
    | nil => exact fun _ => rfl
    | cons l ls ih =>
      intro h
      rw [stream_cons, strip_append, strip_newline, ih fun x hx => h x (List.mem_cons_of_mem _ hx),
        strip_eq_self (h l List.mem_cons_self), List.flatten_cons]
  rw [hself] at hlen
  refine List.eq_iff_flatten_eq.2 ⟨?_, hlen⟩
  rw [← hflat lines hline, ← hstream]
  exact List.filter_flatten.symm

/-! ## Streams of the same lengths -/

/-- Where the line feeds of a text are. -/
def feeds (t : Text) : List Bool := t.map (· = '\n')

theorem strip_length (t : Text) : (strip t).length = (feeds t).count false := by
  induction t with
  | nil => rfl
  | cons c t ih =>
    by_cases hc : c = '\n'
    · rw [hc, strip_newline, ih]
      simp [feeds]
    · rw [strip_cons hc, List.length_cons, ih]
      simp [feeds, hc]

theorem feeds_eq_replicate (h : '\n' ∉ l) : feeds l = List.replicate l.length false := by
  refine List.eq_replicate_iff.2 ⟨List.length_map .., fun b hb => ?_⟩
  obtain ⟨c, hc, rfl⟩ := List.mem_map.1 hb
  rw [decide_eq_false_iff_not]
  rintro rfl
  exact h hc

/-- The lengths of the lines tell where the line feeds are. -/
theorem feeds_stream : ∀ {lines lines' : List Text}, (∀ l ∈ lines, '\n' ∉ l) → (∀ l ∈ lines', '\n' ∉ l) →
    lines.map List.length = lines'.map List.length → feeds (stream lines) = feeds (stream lines')
  | [], [], _, _, _ => rfl
  | [], _ :: _, _, _, h => nomatch h
  | _ :: _, [], _, _, h => nomatch h
  | l :: lines, l' :: lines', hl, hl', h => by
    obtain ⟨hhead, htail⟩ := List.cons.inj h
    have hrest := feeds_stream (fun x hx => hl x (List.mem_cons_of_mem _ hx))
      (fun x hx => hl' x (List.mem_cons_of_mem _ hx)) htail
    have happend : ∀ s t, feeds (s ++ '\n' :: t) = feeds s ++ true :: feeds t := fun s t => by simp [feeds]
    rw [stream_cons, stream_cons, happend, happend, hrest, feeds_eq_replicate (hl l List.mem_cons_self),
      feeds_eq_replicate (hl' l' List.mem_cons_self), hhead]

/-- Where the lengths are the same, the chunks have the same numbers of characters. -/
theorem strip_lengths_eq {lines' chunks' : List Text} (hline : ∀ l ∈ lines, '\n' ∉ l) (hline' : ∀ l ∈ lines', '\n' ∉ l)
    (hstream : chunks.flatten = stream lines) (hstream' : chunks'.flatten = stream lines')
    (hlines : lines.map List.length = lines'.map List.length)
    (hchunks : chunks.map List.length = chunks'.map List.length) :
    (chunks.map strip).map List.length = (chunks'.map strip).map List.length := by
  have hflat : ∀ ts : List Text, (ts.map feeds).flatten = feeds ts.flatten := fun ts => List.map_flatten.symm
  have hlen : ∀ ts : List Text, (ts.map feeds).map List.length = ts.map List.length := fun ts => by
    simp [feeds, Function.comp_def]
  have hfeeds : chunks.map feeds = chunks'.map feeds := by
    refine List.eq_iff_flatten_eq.2 ⟨?_, by rw [hlen, hlen, hchunks]⟩
    rw [hflat, hflat, hstream, hstream', feeds_stream hline hline' hlines]
  have hcount := congrArg (List.map (List.count false)) hfeeds
  rw [List.map_map, List.map_map] at hcount
  rw [List.map_map, List.map_map]
  simpa only [Function.comp_def, strip_length] using hcount

end IntroNP
