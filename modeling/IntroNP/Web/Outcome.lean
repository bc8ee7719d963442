import IntroNP.Web.Server

/-!
# The web server: what comes out

- `serveFile_outcome`: the answer is one of seven, and what decides between them;
- `forbidden_eq`, `movedPermanently_eq`, `notFound_eq`, `ok_eq`: the answers that are messages;
- `statusLine_of_ok`: the first line of the others is that of a 200;
- `handleRequest_cases`: which targets there are.
-/

namespace IntroNP.Web

/-- What `serve_file` answers, for the `directory` that it opens and the last character of the path that it was given.
-/
inductive Outcome (opn : Nat → Text → Option Text) (hex : Nat → Nat) (last : Option Char) (directory : Text) :
    Served → Prop
  | listing (hdot : '.' ∉ directory) (hopen : opn 0 directory ≠ none) (hlast : last = some '/') :
    Outcome opn hex last directory ⟨forbidden directory, none⟩
  | moved (hdot : '.' ∉ directory) (hopen : opn 0 directory ≠ none) (hlast : last ≠ some '/') :
    Outcome opn hex last directory ⟨movedPermanently directory, none⟩
  | refused (hdot : '.' ∉ directory) (hopen : opn 0 directory = none) (hslash : strstr "/%" directory) :
    Outcome opn hex last directory ⟨forbidden directory, none⟩
  | notDecoded (hpercent : '%' ∈ directory)
    (hfile : '.' ∈ directory ∨ opn 0 directory = none ∧ ¬ strstr "/%" directory)
    (hopen : opn 1 (urlDecode hex (withoutSlash directory)) = none) :
    Outcome opn hex last directory ⟨ok ++ notFound, none⟩
  | decoded {bytes : Text} (hpercent : '%' ∈ directory)
    (hfile : '.' ∈ directory ∨ opn 0 directory = none ∧ ¬ strstr "/%" directory)
    (hopen : opn 1 (urlDecode hex (withoutSlash directory)) = some bytes) :
    Outcome opn hex last directory ⟨ok ++ typeHeader (urlDecode hex (withoutSlash directory)) ++ bytes,
      some (urlDecode hex (withoutSlash directory), bytes)⟩
  | plain (hpercent : '%' ∉ directory) (hdot : '.' ∈ directory) :
    Outcome opn hex last directory ⟨ok ++ typeHeader directory ++ (opn 0 directory).getD [],
      (opn 0 directory).map (directory, ·)⟩
  | missing (hpercent : '%' ∉ directory) (hdot : '.' ∉ directory) (hopen : opn 0 directory = none) :
    Outcome opn hex last directory ⟨notFound, none⟩

/-- The answer is a refusal, a redirection or a 404, whatever a decoded name would lead to. -/
def NoFile (opn : Nat → Text → Option Text) (directory : Text) : Prop :=
  '.' ∉ directory ∧ (opn 0 directory ≠ none ∨ strstr "/%" directory ∨ '%' ∉ directory)

instance (opn : Nat → Text → Option Text) (directory : Text) : Decidable (NoFile opn directory) :=
  inferInstanceAs (Decidable (_ ∧ _))

variable {opn : Nat → Text → Option Text} {hex : Nat → Nat} {filePath directory path rest target : Text}

/-- A name that is decoded. -/
theorem not_noFile (hpercent : '%' ∈ directory)
    (hfile : '.' ∈ directory ∨ opn 0 directory = none ∧ ¬ strstr "/%" directory) : ¬ NoFile opn directory := by
  rintro ⟨hdot, hno⟩
  rcases hfile with hdot' | ⟨hnone, hslash⟩
  · exact hdot hdot'
  · rcases hno with h | h | h
    · exact h hnone
    · exact hslash h
    · exact h hpercent

theorem strrchr_eq_none {t : Text} {c : Char} : strrchr t c = none ↔ c ∉ t := by
  unfold strrchr
  split
  · rename_i h
    exact iff_of_false (by simp) fun hn => hn h
  · rename_i h
    exact iff_of_true rfl h

theorem typeOf_of_notMem (h : '.' ∉ path) : typeOf path = none := by
  unfold typeOf
  rw [strrchr_eq_none.2 h]
  rfl

theorem mem_of_strstr {pattern t : Text} (h : strstr pattern t) : ∀ c ∈ pattern, c ∈ t := by
  induction t with
  | nil =>
    rw [List.isEmpty_iff.1 h]
    simp
  | cons d t ih =>
    intro c hc
    rcases Bool.or_eq_true_iff.1 h with hprefix | hrest
    · exact (List.isPrefixOf_iff_prefix.1 hprefix).subset hc
    · exact List.mem_cons_of_mem d (ih hrest c hc)

/-- **The outcome** of `serve_file`. -/
theorem serveFile_outcome (opn : Nat → Text → Option Text) (hex : Nat → Nat) (filePath : Text) :
    Outcome opn hex (cutQuery filePath).getLast? (directoryOf filePath) (serveFile opn hex filePath) := by
  unfold serveFile
  simp only [strrchr_eq_none, Option.isSome_iff_ne_none]
  split
  · rename_i h
    exact .listing h.2.1 h.1 h.2.2
  · rename_i hlisting
    split
    · rename_i h
      exact .moved h.2.1 h.1 h.2.2
    · rename_i hmoved
      have hopen : '.' ∉ directoryOf filePath → opn 0 (directoryOf filePath) = none := by
        intro hdot
        by_contra hopen
        by_cases hlast : (cutQuery filePath).getLast? = some '/'
        · exact hlisting ⟨hopen, hdot, hlast⟩
        · exact hmoved ⟨hopen, hdot, hlast⟩
      split
      · rename_i h
        exact .refused h.2 (hopen h.2) h.1
      · rename_i hrefused
        split
        · rename_i hpercent
          have hfile : '.' ∈ directoryOf filePath ∨
              opn 0 (directoryOf filePath) = none ∧ ¬ strstr "/%" (directoryOf filePath) := by
            by_cases hdot : '.' ∈ directoryOf filePath
            · exact .inl hdot
            · exact .inr ⟨hopen hdot, fun hs => hrefused ⟨hs, hdot⟩⟩
          split
          · rename_i h
            exact .notDecoded hpercent hfile h
          · rename_i bytes h
            exact .decoded hpercent hfile h
        · rename_i hpercent
          split
          · rename_i hdot
            exact .plain hpercent (not_not.1 (strrchr_eq_none.not.1 hdot))
          · rename_i hdot
            have hdot' := strrchr_eq_none.1 (not_not.1 hdot)
            exact .missing hpercent hdot' (hopen hdot')

/-! ## Messages -/

theorem isStatusLine_ok : IsStatusLine "HTTP/1.1 200 OK" := ⟨"200", "OK", rfl, rfl, by simp, by simp⟩

theorem isStatusLine_moved : IsStatusLine "HTTP/1.1 301 Moved Permanently" :=
  ⟨"301", "Moved Permanently", rfl, rfl, by simp, by simp⟩

theorem isStatusLine_forbidden : IsStatusLine "HTTP/1.1 403 Forbidden" :=
  ⟨"403", "Forbidden", rfl, rfl, by simp, by simp⟩

theorem isStatusLine_notFound : IsStatusLine "HTTP/1.1 404 Not Found" :=
  ⟨"404", "Not Found", rfl, rfl, by simp, by simp⟩

/-- The header that tells where a directory is. -/
def locationLine (directory : Text) : Text := "Location: ".toList ++ withoutHtml directory ++ "/".toList

theorem isHeader_location (h : '\n' ∉ directory) : IsHeader (locationLine directory) := by
  refine ⟨"Location", " ".toList ++ withoutHtml directory ++ "/".toList, rfl, ⟨by simp, by simp⟩, ?_⟩
  have hdrop : '\n' ∉ withoutHtml directory := by
    unfold withoutHtml
    split
    · exact fun hc => h (List.mem_of_mem_drop hc)
    · exact h
  simp only [List.mem_append, not_or]
  exact ⟨⟨by decide, hdrop⟩, by decide⟩

/-- The answer that names the directory. -/
def located (statusLine directory : Text) (hs : IsStatusLine statusLine) (h : '\n' ∉ directory) : Message where
  statusLine := statusLine
  headers := [locationLine directory]
  body := []
  isStatusLine := hs
  isHeader := by
    intro line hl
    rw [List.mem_singleton.1 hl]
    exact isHeader_location h

theorem forbidden_eq (h : '\n' ∉ directory) :
    (located "HTTP/1.1 403 Forbidden" directory isStatusLine_forbidden h).render = forbidden directory := by
  have hline : "HTTP/1.1 403 Forbidden\r\nLocation: ".toList =
      "HTTP/1.1 403 Forbidden".toList ++ Message.crlf ++ "Location: ".toList := rfl
  have hend : "\r\n\r\n".toList = Message.crlf ++ Message.crlf := rfl
  unfold Message.render located forbidden locationLine
  rw [hline, hend]
  simp

theorem movedPermanently_eq (h : '\n' ∉ directory) :
    (located "HTTP/1.1 301 Moved Permanently" directory isStatusLine_moved h).render = movedPermanently directory := by
  have hline : "HTTP/1.1 301 Moved Permanently\r\nLocation: ".toList =
      "HTTP/1.1 301 Moved Permanently".toList ++ Message.crlf ++ "Location: ".toList := rfl
  have hend : "\r\n\r\n".toList = Message.crlf ++ Message.crlf := rfl
  unfold Message.render located movedPermanently locationLine
  rw [hline, hend]
  simp

/-- The answer for what is not there. -/
def notFoundMessage : Message := ⟨"HTTP/1.1 404 Not Found", [], [], isStatusLine_notFound, by simp⟩

theorem notFound_eq : notFoundMessage.render = notFound := by decide

theorem newline_notMem_contentType {ext type : Text} (h : contentType ext = some type) : '\n' ∉ type := by
  unfold contentType at h
  repeat' split at h
  all_goals cases h
  all_goals decide

/-- The answer with the bytes of a file of a known type. -/
def okMessage (type bytes : Text) (h : '\n' ∉ type) : Message where
  statusLine := "HTTP/1.1 200 OK"
  headers := ["Content-Type: ".toList ++ type]
  body := bytes
  isStatusLine := isStatusLine_ok
  isHeader := by
    intro line hl
    rw [List.mem_singleton.1 hl]
    refine ⟨"Content-Type", ' ' :: type, rfl, ⟨by simp, by simp⟩, ?_⟩
    rw [List.mem_cons, not_or]
    exact ⟨by decide, h⟩

theorem ok_eq {type bytes : Text} (h : typeOf path = some type) (hn : '\n' ∉ type) :
    (okMessage type bytes hn).render = ok ++ typeHeader path ++ bytes := by
  have hline : ok = "HTTP/1.1 200 OK".toList ++ Message.crlf := rfl
  have hend : "\r\n\r\n".toList = Message.crlf ++ Message.crlf := rfl
  unfold Message.render okMessage typeHeader
  rw [h, hline]
  dsimp only
  rw [hend]
  simp

theorem newline_notMem_typeOf {type : Text} (h : typeOf path = some type) : '\n' ∉ type := by
  obtain ⟨ext, -, hext⟩ := Option.bind_eq_some_iff.1 h
  exact newline_notMem_contentType hext

/-- **What starts as a 200** is one, if it is a message. -/
theorem statusLine_of_ok {m : Message} (h : m.render = ok ++ rest) :
    m.statusLine = "HTTP/1.1 200 OK" ∧ m.headers.flatMap (· ++ Message.crlf) ++ (Message.crlf ++ m.body) = rest := by
  have hline : m.render = "HTTP/1.1 200 OK".toList ++ Message.crlf ++ rest := h
  exact Message.render_statusLine hline (by decide)

theorem code_of_ok {m : Message} (h : m.render = ok ++ rest) : m.code = "200" := by
  unfold Message.code
  rw [(statusLine_of_ok h).1]
  rfl

/-- Without a type, there is no empty line in front of the bytes. -/
theorem not_message_untyped {m : Message} (h : typeOf path = none) (hr : m.render = ok ++ typeHeader path ++ bytes) :
    m.body ≠ bytes := by
  intro hbody
  unfold typeHeader at hr
  rw [h] at hr
  dsimp only at hr
  rw [List.append_nil] at hr
  have hlen := m.body_length_lt
  rw [(statusLine_of_ok hr).2, hbody] at hlen
  omega

/-! ## Targets -/

theorem newline_notMem_directoryOf (h : '\n' ∉ filePath) : '\n' ∉ directoryOf filePath := by
  have hcut : '\n' ∉ cutQuery filePath := by
    unfold cutQuery
    split
    · exact h
    · exact fun hc => h ((List.takeWhile_sublist _).subset hc)
  unfold directoryOf
  split
  · decide
  · exact hcut

theorem newline_notMem_fullPath (h : '\n' ∉ target) : '\n' ∉ fullPath target := by
  intro hc
  rcases List.mem_append.1 (List.mem_of_mem_take hc) with hc | hc
  · exact absurd hc (by decide)
  · exact h hc

/-- **A request** is answered for a target without a line feed, or as one of a method that is not known. -/
theorem handleRequest_cases {request : Text} {served : Served} (h : handleRequest opn hex request = some served) :
    (∃ target, '\n' ∉ target ∧ served = serveFile opn hex (fullPath target)) ∨
      served = ⟨"HTTP/1.1 501 Not Implemented\r\n\r\n", none⟩ := by
  obtain ⟨httpMethod, -, h⟩ := Option.bind_eq_some_iff.1 h
  split at h
  · obtain ⟨target, htarget, h⟩ := Option.bind_eq_some_iff.1 h
    refine .inl ⟨target, fun hc => ?_, (Option.some.inj h).symm⟩
    have hseparator := strtok_notMem htarget _ hc
    cases hseparator
  · exact .inr (Option.some.inj h).symm

end IntroNP.Web
