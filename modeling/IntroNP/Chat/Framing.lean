import IntroNP.Chat.Exit
import IntroNP.Lib.Lines

/-!
# The chat server: framing

`handle_client` keeps nothing between two calls of `recv`: what one call returns is one command, whole lines or not. A
line that comes alone in its chunk is understood, and on which side of a cut its line feed falls makes no difference.

- `handleCommand_carries`: a chunk that carries a line is handled as the line;
- `handleClient_carries`: hence all cuts of a stream that leave each line in a chunk of its own are handled alike;
- `Cut.carries_of_alike`: and no others, as marks in the lines show to a client that is only connected;
- `run_handleClient`: every chunk is handled once, in order, until the connection ends.
-/

namespace IntroNP.Chat

open Std

/-- The chunk is shorter than the buffer, and is the line `l`, with line feeds before or behind it. -/
def Carries (chunk l : Text) : Prop :=
  chunk.length < bufferSize ∧
    ∃ m n, chunk = List.replicate m '\n' ++ l ++ List.replicate n '\n'

variable {σ σ' : Server} {s c r : Int} {l q token rest chunk : Text} {sent : List Send}

/-! ## Line feeds behind the line -/

/-- `q` has nothing but line feeds in it. -/
def LineFeeds (q : Text) : Prop := ∀ c ∈ q, c = '\n'

theorem LineFeeds.blanks (h : LineFeeds q) : ∀ c ∈ q, blanks c := by
  intro c hc
  rw [h c hc]
  rfl

theorem LineFeeds.newline (h : LineFeeds q) : ∀ c ∈ q, newline c := by
  intro c hc
  rw [h c hc]
  rfl

theorem strtok_blanks_append (h : LineFeeds q) : (strtok blanks (rest ++ q)).1 = (strtok blanks rest).1 :=
  strtok_fst_append_right h.blanks

theorem strtok_newline_append (h : LineFeeds q) : (strtok newline (rest ++ q)).1 = (strtok newline rest).1 :=
  strtok_fst_append_right h.newline

theorem strtok_blanks_append' (h : LineFeeds q) :
    (strtok blanks (strtok blanks (rest ++ q)).2).1 = (strtok blanks (strtok blanks rest).2).1 := by
  obtain ⟨q', he, hq'⟩ := strtok_snd_append_right (p := rest) h.blanks
  rw [he, strtok_fst_append_right fun c hc => h.blanks c (hq' c hc)]

/-- No command sees the line feeds. -/
theorem dispatch_append (h : LineFeeds q) : dispatch σ s token (rest ++ q) = dispatch σ s token rest := by
  unfold dispatch register login logout exit whoami setStatus listUser enterChatRoom listChatRoom closeChatRoom
    roomCommand pin regularMessage
  simp only [strtok_blanks_append h, strtok_blanks_append' h, strtok_newline_append h]

/-! ## Chunks that carry a line -/

theorem Carries.line_lt (h : Carries chunk l) : l.length < bufferSize := by
  obtain ⟨hlen, m, n, rfl⟩ := h
  simp only [List.length_append, List.length_replicate] at hlen
  omega

/-- What `strncpy` copies of a chunk that carries a line. -/
theorem strncpy_carries (h : Carries chunk l) : ∃ p q, LineFeeds p ∧ LineFeeds q ∧
    strncpy chunk bufferSize = p ++ (strncpy l bufferSize ++ q) := by
  have hl := h.line_lt
  obtain ⟨hlen, m, n, rfl⟩ := h
  have hfeeds : ∀ k, LineFeeds (List.replicate k '\n') := fun k c hc => List.eq_of_mem_replicate hc
  have hshort : ∀ t : Text, t.length < bufferSize → strncpy t bufferSize = t.takeWhile (· != Char.ofNat 0) := by
    intro t ht
    exact List.take_of_length_le ((List.takeWhile_sublist _).length_le.trans (by omega))
  rw [hshort _ hlen, hshort _ hl, List.append_assoc, List.takeWhile_append_of_pos
    (fun c hc => by rw [hfeeds m c hc]; rfl), List.takeWhile_append]
  split
  · rename_i hall
    refine ⟨_, (List.replicate n '\n').takeWhile (· != Char.ofNat 0), hfeeds m, ?_, ?_⟩
    · exact fun c hc => hfeeds n c ((List.takeWhile_sublist _).subset hc)
    · rw [(List.takeWhile_prefix _).eq_of_length hall]
  · exact ⟨_, [], hfeeds m, fun c hc => by simp at hc, by rw [List.append_nil]⟩

/-- **One chunk**: a chunk that carries a line is handled as the line. -/
theorem handleCommand_carries (h : Carries chunk l) : handleCommand σ s chunk = handleCommand σ s l := by
  obtain ⟨p, q, hp, hq, hcopy⟩ := strncpy_carries h
  unfold handleCommand
  dsimp only
  rw [hcopy, strtok_append_left hp.blanks, strtok_blanks_append hq]
  cases (strtok blanks (strncpy l bufferSize)).1 with
  | none => rfl
  | some token =>
    obtain ⟨q', he, hq'⟩ := strtok_snd_append_right (p := strncpy l bufferSize) hq.blanks
    dsimp only
    rw [he, dispatch_append fun c hc => hq c (hq' c hc)]

/-- **All chunks**: they are handled as the lines they carry. -/
theorem handleClient_carries {cs ls : List Text} (h : List.Forall₂ Carries cs ls) (σ : Server) :
    handleClient c σ cs = handleClient c σ ls := by
  induction h generalizing σ with
  | nil => rfl
  | cons hh _ ih =>
    unfold handleClient
    rw [handleCommand_carries hh, if_pos hh.1, if_pos hh.line_lt]
    split
    · split
      · rfl
      · rw [ih]
    · rfl

/-! ## Chunks as steps -/

theorem handlers_line {q : Request} {next : Server × List Send} (hc : Outcome σ s l q (some next)) :
    next.1.handlers = σ.handlers := by
  cases hc with
  | nothing hq =>
    dsimp only
    rw [hq.eq]
  | exit =>
    dsimp only
    split <;> rfl
  | enter =>
    obtain ⟨_, _, _, _, h⟩ := enterRoom_fst σ s _
    rw [h]
  | deletePin => rw [deletePin_fst]
  | leave hr => rw [exitChatRoom_fst hr]
  | listRoom =>
    obtain ⟨_, _, _, _, h⟩ := listRoomUser_fst σ s _
    rw [h]
  | register | login | logout | setStatus | close | pin | post => rfl

/-- **Every chunk is handled once and in order**: what `handle_client` does with chunks is a run in which each of them
comes in as one line. Only a chunk that finds the socket closed ends the connection. -/
theorem run_handleClient : ∀ (cs : List Text) {σ σ' : Server} {sent : List Send}, c ∈ σ.handlers →
    handleClient c σ cs = some (σ', sent) →
    ∃ es σ₁, chat.Run σ es σ₁ ∧ es.flatMap (·.sent) = sent ∧
      ((es.map (·.act) = cs.map (.line c) ∧ σ' = σ₁) ∨
        ∃ k < cs.length, es.map (·.act) = (cs.take k).map (.line c) ∧ c ∉ σ₁.openSockets ∧ σ' = disconnect σ₁ c)
  | [], σ, _, _, _, h => by
    cases h
    exact ⟨[], σ, .nil σ, rfl, .inl ⟨rfl, rfl⟩⟩
  | chunk :: cs, σ, _, _, hc, h => by
    unfold handleClient at h
    split at h
    · rename_i hopen
      split at h
      · split at h
        · cases h
        · rename_i σ₁ sent₁ hcmd
          obtain ⟨⟨σ₂, sent₂⟩, hrest, he⟩ := Option.map_eq_some_iff.1 h
          cases he
          have hhandlers : σ₁.handlers = σ.handlers := handlers_line (hcmd ▸ handleCommand_outcome σ c chunk)
          obtain ⟨es, σ₃, hr, hsent, hacts⟩ := run_handleClient cs (hhandlers ▸ hc) hrest
          have hst : chat.step σ ⟨.line c chunk, sent₁⟩ σ₁ := by
            exact (if_pos ⟨hopen, hc⟩).trans hcmd
          refine ⟨_, _, .cons hst hr, by rw [List.flatMap_cons, hsent], ?_⟩
          rcases hacts with ⟨hacts, he⟩ | ⟨k, hk, hacts, hclosed, he⟩
          · exact .inl ⟨by rw [List.map_cons, hacts, List.map_cons], he⟩
          · exact .inr ⟨k + 1, Nat.succ_lt_succ hk, by rw [List.map_cons, hacts, List.take_succ_cons, List.map_cons],
              hclosed, he⟩
      · cases h
    · rename_i hclosed
      cases h
      exact ⟨[], σ, .nil σ, rfl, .inr ⟨0, Nat.zero_lt_succ _, rfl, hclosed, rfl⟩⟩

/-! ## A client that is only connected -/

/-- The server after its first client came. -/
def fresh (c : Int) : Server := (connect start c).1

theorem reachable_fresh (c : Int) : chat.Reachable (fresh c) := by
  have hfree : c ∉ start.openSockets := ExtTreeSet.not_mem_empty
  have hst : step start (.connect c) = some (connect start c) := by rw [step, if_neg hfree]
  exact (System.Reachable.init rfl).step (a := ⟨.connect c, (connect start c).2⟩) hst

/-- The answer to a line of blanks, and to one with the mark. -/
def answer (known : Bool) : Text := if known then "Error: Unknown command\n% " else "Usage: Enter a valid command.\n% "

theorem answer_injective : Function.Injective answer := by
  intro a b h
  cases a <;> cases b
  · rfl
  · exact absurd h (by decide)
  · exact absurd h (by decide)
  · rfl

/-- No command begins with an `x`. -/
theorem dispatch_x (hx : token.head? = some 'x') (hroom : σ.clientChatRooms[s]? = none) :
    dispatch σ s token rest = some (σ, [sendMessage s "Error: Unknown command\n% "]) := by
  have hne : ∀ w : Text, w.head? ≠ some 'x' → token ≠ w := by
    rintro w hw rfl
    exact hw hx
  unfold dispatch
  rw [if_neg (hne _ (by decide)), if_neg (hne _ (by decide)), if_neg (hne _ (by decide)),
    if_neg fun h => hne _ (by decide) h.1, if_neg (hne _ (by decide)), if_neg (hne _ (by decide)),
    if_neg (hne _ (by decide)), if_neg (hne _ (by decide)), if_neg (hne _ (by decide)), if_neg (hne _ (by decide)),
    hroom]

/-- A marked text, from a client that is in no room. -/
theorem handleCommand_mark {i : Int} (ht : (mark i l).length < bufferSize) (hroom : σ.clientChatRooms[s]? = none) :
    handleCommand σ s (mark i l) = some (σ, [sendMessage s (answer (marked (mark i l)))]) := by
  have hchars : ∀ d ∈ mark i l, d = 'x' ∨ blanks d := by
    intro d hd
    rcases of_mem_mark hd with rfl | rfl | ⟨rfl, -⟩
    · exact .inl rfl
    · exact .inr rfl
    · exact .inr rfl
  generalize mark i l = t at ht hchars
  have hcopy : strncpy t bufferSize = t := by
    unfold strncpy
    rw [List.takeWhile_eq_self_iff.2, List.take_of_length_le (Nat.le_of_lt ht)]
    intro d hd
    rcases hchars d hd with rfl | hblank
    · rfl
    · rw [bne_iff_ne]
      rintro rfl
      exact absurd hblank (by decide)
  unfold handleCommand strtok
  dsimp only
  rw [hcopy]
  cases hdrop : t.dropWhile blanks with
  | nil =>
    have hmark : marked t = false := by
      rw [marked, decide_eq_false_iff_not]
      exact fun hx => absurd (List.dropWhile_eq_nil_iff.1 hdrop _ hx) (by decide)
    rw [hmark]
    rfl
  | cons d ds =>
    have hd : ¬ blanks d := by simpa [hdrop] using List.head_dropWhile_not blanks (l := t) (by simp [hdrop])
    have hmem : d ∈ t := (List.dropWhile_sublist _).subset (hdrop ▸ List.mem_cons_self)
    obtain rfl := (hchars d hmem).resolve_right hd
    have hmark : marked t = true := decide_eq_true hmem
    rw [hmark]
    exact dispatch_x rfl hroom

/-- **Marked chunks** are answered one by one. -/
theorem handleClient_markAll (i : Int) (ts : List Text) : handleClient c (fresh c) (markAll i ts) =
    if ∀ t ∈ ts, t.length < bufferSize then
      some (fresh c, ((markAll i ts).map marked).map fun known => sendMessage c (answer known))
    else none := by
  have hopen : c ∈ (fresh c).openSockets := by simp [fresh, connect, start]
  have hroom : (fresh c).clientChatRooms[c]? = none := by simp [fresh, connect, start]
  induction ts generalizing i with
  | nil => rfl
  | cons t ts ih =>
    have hcons : (∀ u ∈ t :: ts, u.length < bufferSize) ↔ t.length < bufferSize ∧ ∀ u ∈ ts, u.length < bufferSize :=
      List.forall_mem_cons
    rw [markAll, handleClient, if_pos hopen, length_mark]
    by_cases ht : t.length < bufferSize
    · rw [if_pos ht, handleCommand_mark (by rwa [length_mark]) hroom]
      dsimp only
      rw [ih]
      by_cases hts : ∀ u ∈ ts, u.length < bufferSize
      · rw [if_pos hts, if_pos (hcons.2 ⟨ht, hts⟩)]
        rfl
      · rw [if_neg hts, if_neg fun h => hts (hcons.1 h).2]
        rfl
    · rw [if_neg ht, if_neg fun h => ht (hcons.1 h).1]

/-! ## All cuts -/

/-- `chunks` is what calls of `recv` return of the stream of `lines`, each of which is shorter than the buffer. -/
structure Cut (lines chunks : List Text) : Prop where
  stream : chunks.flatten = stream lines
  line : ∀ l ∈ lines, '\n' ∉ l ∧ l.length + 1 < bufferSize
  chunk : ∀ chunk ∈ chunks, chunk ≠ [] ∧ chunk.length ≤ bufferSize

/-- Lines of the same lengths, cut in the same places. -/
def SameCut (lines chunks lines' chunks' : List Text) : Prop :=
  lines'.map List.length = lines.map List.length ∧ chunks'.map List.length = chunks.map List.length

variable {lines chunks : List Text}

/-- Marks can be put into a stream that is cut. -/
theorem Cut.markAll (h : Cut lines chunks) (i : Int) : Cut (markAll i lines) (markAll i chunks) where
  stream := by rw [flatten_markAll, stream_markAll, h.stream]
  line l hl := by
    obtain ⟨j, u, hu, rfl⟩ := mem_markAll hl
    refine ⟨fun hmem => ?_, by rw [length_mark]; exact (h.line u hu).2⟩
    rcases of_mem_mark hmem with hx | hx | ⟨-, hx⟩
    · exact absurd hx (by decide)
    · exact absurd hx (by decide)
    · exact (h.line u hu).1 hx
  chunk t ht := by
    obtain ⟨j, u, hu, rfl⟩ := mem_markAll ht
    rw [← List.length_pos_iff, length_mark, List.length_pos_iff]
    exact h.chunk u hu

/-- Chunks that have the characters of the lines carry them. -/
theorem Cut.carries (h : Cut lines chunks)
    (hlen : (chunks.map strip).map List.length = (lines.map strip).map List.length)
    (hlt : ∀ chunk ∈ chunks, chunk.length < bufferSize) : List.Forall₂ Carries chunks lines := by
  have hline : ∀ l ∈ lines, '\n' ∉ l := fun l hl => (h.line l hl).1
  exact (List.forall₂_and_left _ _).2 ⟨hlt, forall₂_whole 0 0 hline (map_strip_eq hline h.stream hlen) h.stream⟩

theorem strip_carries (h : List.Forall₂ Carries chunks lines) (hline : ∀ l ∈ lines, '\n' ∉ l) :
    chunks.map strip = lines := by
  induction h with
  | nil => rfl
  | @cons chunk l _ _ hh _ ih =>
    obtain ⟨-, m, n, rfl⟩ := hh
    have hfeeds : ∀ k, strip (List.replicate k '\n') = [] := fun k =>
      List.filter_eq_nil_iff.2 fun c hc => by simp [List.eq_of_mem_replicate hc]
    rw [List.map_cons, ih fun l hl => hline l (List.mem_cons_of_mem _ hl), strip_append, strip_append, hfeeds, hfeeds,
      strip_eq_self (hline l List.mem_cons_self), List.nil_append, List.append_nil]

/-- A cut that leaves each line in a chunk of its own does so for all lines of the same lengths. -/
theorem SameCut.carries {lines' chunks' : List Text} (hsame : SameCut lines chunks lines' chunks')
    (h : Cut lines chunks) (h' : Cut lines' chunks') (hc : List.Forall₂ Carries chunks lines) :
    List.Forall₂ Carries chunks' lines' := by
  have hline : ∀ l ∈ lines, '\n' ∉ l := fun l hl => (h.line l hl).1
  have hline' : ∀ l ∈ lines', '\n' ∉ l := fun l hl => (h'.line l hl).1
  have hself : ∀ ls : List Text, (∀ l ∈ ls, '\n' ∉ l) → ls.map strip = ls := fun ls hls =>
    (List.map_congr_left fun l hl => strip_eq_self (hls l hl)).trans (List.map_id ls)
  refine h'.carries ?_ fun chunk hchunk => ?_
  · rw [strip_lengths_eq hline' hline h'.stream h.stream hsame.1 hsame.2, strip_carries hc hline, hself lines' hline',
      hsame.1]
  · have hmem : chunk.length ∈ chunks.map List.length := hsame.2 ▸ List.mem_map_of_mem hchunk
    obtain ⟨u, hu, hlen⟩ := List.mem_map.1 hmem
    exact hlen ▸ ((List.forall₂_and_left _ _).1 hc).1 u hu

/-- **Only such cuts**: where marked lines are answered alike in chunks, each chunk carries one of the lines. -/
theorem Cut.carries_of_alike (h : Cut lines chunks)
    (halike : ∀ i, handleClient c (fresh c) (IntroNP.markAll i chunks) =
      handleClient c (fresh c) (IntroNP.markAll i lines)) :
    List.Forall₂ Carries chunks lines := by
  have hlt : ∀ l ∈ lines, l.length < bufferSize := fun l hl => (Nat.lt_succ_self _).trans (h.line l hl).2
  simp only [handleClient_markAll, if_pos hlt] at halike
  have hshort : ∀ chunk ∈ chunks, chunk.length < bufferSize := by
    by_contra hlong
    have hnone := halike 0
    rw [if_neg hlong] at hnone
    cases hnone
  refine h.carries (strip_lengths fun i => ?_) hshort
  have hi := halike i
  rw [if_pos hshort, Option.some.injEq, Prod.mk.injEq] at hi
  refine List.map_injective_iff.2 (fun a b hab => ?_) hi.2
  exact answer_injective (congrArg Send.text hab)

/-- **Framing.** For the lengths of the lines of a stream and the places where it is cut: whatever the lines are and
whatever state they find, `handle_client` does with the chunks what it does with the lines one after another, exactly if
every chunk carries one of the lines. What it does with chunks, and so with lines, is to handle each of them once, in
order, as one command, until one finds the socket closed. -/
theorem framing (c : Int) (h : Cut lines chunks) :
    ((∀ lines' chunks', Cut lines' chunks' → SameCut lines chunks lines' chunks' → ∀ σ, chat.Reachable σ →
        c ∈ σ.handlers → handleClient c σ chunks' = handleClient c σ lines') ↔ List.Forall₂ Carries chunks lines) ∧
      ∀ σ cs σ' sent, c ∈ σ.handlers → handleClient c σ cs = some (σ', sent) →
        ∃ es σ₁, chat.Run σ es σ₁ ∧ es.flatMap (·.sent) = sent ∧
          ((es.map (·.act) = cs.map (.line c) ∧ σ' = σ₁) ∨
            ∃ k < cs.length, es.map (·.act) = (cs.take k).map (.line c) ∧ c ∉ σ₁.openSockets ∧
              σ' = disconnect σ₁ c) := by
  refine ⟨⟨fun halike => ?_, fun hc lines' chunks' h' hsame σ _ _ => ?_⟩, fun σ cs σ' sent => run_handleClient cs⟩
  · have hhandler : c ∈ (fresh c).handlers := by simp [fresh, connect]
    exact h.carries_of_alike fun i => halike _ _ (h.markAll i) ⟨map_length_markAll i lines, map_length_markAll i chunks⟩
      _ (reachable_fresh c) hhandler
  · exact handleClient_carries (hsame.carries h h' hc) σ

/-- Two lines, with the line feed between them on either side of the cut. -/
theorem framing_line_feed :
    let σ := after start [.connect 4]
    let lines : List Text := ["register 0 0", "login 0 0"]
    handleClient 4 σ ["register 0 0\n", "login 0 0\n"] = handleClient 4 σ lines ∧
      handleClient 4 σ ["register 0 0", "\nlogin 0 0\n"] = handleClient 4 σ lines := by
  intro σ lines
  have hσ : chat.Reachable σ := reachable_after _
  have hc : 4 ∈ σ.handlers := by decide
  have hbehind : Cut lines ["register 0 0\n", "login 0 0\n"] := ⟨by decide, by decide, by decide⟩
  have hfront : Cut lines ["register 0 0", "\nlogin 0 0\n"] := ⟨by decide, by decide, by decide⟩
  exact ⟨(framing 4 hbehind).1.2 (.cons ⟨by decide, 0, 1, rfl⟩ (.cons ⟨by decide, 0, 1, rfl⟩ .nil)) _ _ hbehind
      ⟨rfl, rfl⟩ σ hσ hc,
    (framing 4 hfront).1.2 (.cons ⟨by decide, 0, 0, rfl⟩ (.cons ⟨by decide, 1, 1, rfl⟩ .nil)) _ _ hfront
      ⟨rfl, rfl⟩ σ hσ hc⟩

/-- The same two lines in one chunk: only the first is understood. -/
theorem framing_glued :
    let σ := after start [.connect 4]
    let lines : List Text := ["register 0 0", "login 0 0"]
    let glued : List Text := ["register 0 0\nlogin 0 0\n"]
    let apart : List Text := ["register 0 0\n", "login 0 0\n"]
    chat.Reachable σ ∧ Cut lines glued ∧ Cut lines apart ∧
      (handleClient 4 σ glued).map (·.2) = some [⟨4, "Register successfully.\n% "⟩] ∧
      handleClient 4 σ glued ≠ handleClient 4 σ apart := by
  intro σ lines glued apart
  have hglued : (handleClient 4 σ glued).map (·.2) = some [⟨4, "Register successfully.\n% "⟩] := by decide +kernel
  refine ⟨reachable_after _, ⟨by decide, by decide, by decide⟩, ⟨by decide, by decide, by decide⟩, hglued, fun h => ?_⟩
  have hreplies : (handleClient 4 σ apart).map (·.2) ≠ some [⟨4, "Register successfully.\n% "⟩] := by decide +kernel
  exact hreplies (h ▸ hglued)

end IntroNP.Chat
