import IntroNP.Web.Outcome

/-!
# The web server: well-formed answers

A file goes out behind a status line and its type, and the empty line is sent with the type. An answer without a type is
no message, nor is one that begins as a 200 and goes on as a 404.

- `not_message_notFound`, `wellFormed_typed`: the two that may not be well formed;
- `wellFormed_iff`: when the answer is.
-/

namespace IntroNP.Web

/-- What is sent is one message, with the bytes of the file if it is a 200 and no body otherwise. -/
def WellFormed (served : Served) : Prop :=
  ∃ m : Message, m.render = served.sent ∧
    m.body = if m.code = "200" then (served.source.map Prod.snd).getD [] else []

/-- Answers that do not begin as a 200, and those for which the type is known, of a file that was opened if its name is
decoded. -/
def OneMessage (opn : Nat → Text → Option Text) (hex : Nat → Nat) (directory : Text) : Prop :=
  NoFile opn directory ∨
    ('%' ∉ directory ∧ typeOf directory ≠ none) ∨
    ('%' ∈ directory ∧ opn 1 (urlDecode hex (withoutSlash directory)) ≠ none ∧
      typeOf (urlDecode hex (withoutSlash directory)) ≠ none)

instance (opn : Nat → Text → Option Text) (hex : Nat → Nat) (directory : Text) :
    Decidable (OneMessage opn hex directory) :=
  inferInstanceAs (Decidable (_ ∨ _))

variable {opn : Nat → Text → Option Text} {hex : Nat → Nat} {directory path bytes target : Text} {served : Served}
  {last : Option Char}

/-! ## No messages -/

/-- A second status line is no header. -/
theorem not_message_notFound {m : Message} : m.render ≠ ok ++ notFound := by
  intro h
  have hrest := (statusLine_of_ok h).2
  have hline : notFound = "HTTP/1.1 404 Not Found".toList ++ Message.crlf ++ Message.crlf := rfl
  rw [hline] at hrest
  rcases Message.headers_next m.isHeader hrest (by decide) with hnil | ⟨name, value, hheader, -, -⟩
  · cases hnil
  · have hcolon : ':' ∈ ("HTTP/1.1 404 Not Found" : Text) := by
      rw [hheader]
      simp
    exact absurd hcolon (by decide)

/-- What is sent for a file. -/
theorem wellFormed_typed {source : Option (Text × Text)} (hs : (source.map Prod.snd).getD [] = bytes) :
    WellFormed ⟨ok ++ typeHeader path ++ bytes, source⟩ ↔ typeOf path ≠ none := by
  unfold WellFormed
  rw [hs]
  constructor
  · rintro ⟨m, hr, hbody⟩ h
    have hok := hr
    rw [List.append_assoc] at hok
    rw [if_pos (code_of_ok hok)] at hbody
    exact not_message_untyped h hr hbody
  · intro h
    obtain ⟨type, htype⟩ := Option.ne_none_iff_exists'.1 h
    exact ⟨okMessage type _ (newline_notMem_typeOf htype), ok_eq htype _, (if_pos rfl).symm⟩

/-! ## All answers -/

/-- The answer of each outcome. -/
theorem Outcome.wellFormed_iff_oneMessage (h : Outcome opn hex last directory served) (hd : '\n' ∉ directory) :
    WellFormed served ↔ OneMessage opn hex directory := by
  cases h with
  | listing hdot hopen =>
    exact iff_of_true ⟨_, forbidden_eq hd, rfl⟩ (.inl ⟨hdot, .inl hopen⟩)
  | moved hdot hopen =>
    exact iff_of_true ⟨_, movedPermanently_eq hd, rfl⟩ (.inl ⟨hdot, .inl hopen⟩)
  | refused hdot hopen hslash =>
    exact iff_of_true ⟨_, forbidden_eq hd, rfl⟩ (.inl ⟨hdot, .inr (.inl hslash)⟩)
  | notDecoded hpercent hfile hopen =>
    refine iff_of_false (fun ⟨m, hr, _⟩ => not_message_notFound hr) ?_
    rintro (hno | ⟨hpercent', -⟩ | ⟨-, hopen', -⟩)
    · exact not_noFile hpercent hfile hno
    · exact hpercent' hpercent
    · exact hopen' hopen
  | @decoded bytes hpercent hfile hopen =>
    refine (wellFormed_typed (by rfl)).trans ⟨fun htype => .inr (.inr ⟨hpercent, by simp [hopen], htype⟩), ?_⟩
    rintro (hno | ⟨hpercent', -⟩ | ⟨-, -, htype⟩)
    · exact absurd hno (not_noFile hpercent hfile)
    · exact absurd hpercent hpercent'
    · exact htype
  | plain hpercent hdot =>
    have hbytes : (((opn 0 directory).map (directory, ·)).map Prod.snd).getD [] = (opn 0 directory).getD [] := by
      cases opn 0 directory <;> rfl
    refine (wellFormed_typed hbytes).trans ⟨fun htype => .inr (.inl ⟨hpercent, htype⟩), ?_⟩
    rintro (⟨hdot', -⟩ | ⟨-, htype⟩ | ⟨hpercent', -⟩)
    · exact absurd hdot hdot'
    · exact htype
    · exact absurd hpercent' hpercent
  | missing hpercent hdot hopen =>
    exact iff_of_true ⟨notFoundMessage, notFound_eq, rfl⟩ (.inl ⟨hdot, .inr (.inr hpercent)⟩)

/-- **One message**: whatever the calls of `open` find, the answer to a request is one well-formed message exactly if it
is a refusal, a redirection or a 404 from the start, or a file whose type is known. -/
theorem wellFormed_iff (hn : '\n' ∉ target) :
    WellFormed (serveFile opn hex (fullPath target)) ↔ OneMessage opn hex (directoryOf (fullPath target)) :=
  (serveFile_outcome opn hex _).wellFormed_iff_oneMessage (newline_notMem_directoryOf (newline_notMem_fullPath hn))

/-- The page of the directory. -/
theorem wellFormed_iff_index : WellFormed (serveFile (fun _ _ => some "<p>hi</p>") (fun _ => 0) (fullPath "/")) :=
  (wellFormed_iff (by decide)).2 (by decide)

/-- A script is sent without an empty line in front of it. -/
theorem not_wellFormed_script :
    (serveFile (fun _ _ => some "let x = 1;\n") (fun _ => 0) (fullPath "/app.js")).sent =
      "HTTP/1.1 200 OK\r\nlet x = 1;\n" ∧
    ¬ WellFormed (serveFile (fun _ _ => some "let x = 1;\n") (fun _ => 0) (fullPath "/app.js")) := by
  have hserved : serveFile (fun _ _ => some "let x = 1;\n") (fun _ => 0) (fullPath "/app.js") =
      ⟨ok ++ typeHeader "/app.js" ++ "let x = 1;\n".toList, some ("/html/app.js", "let x = 1;\n")⟩ := by
    decide
  have htype : typeOf "/app.js" = none := by decide
  rw [hserved]
  exact ⟨by decide, fun h => (wellFormed_typed (by rfl)).1 h htype⟩

end IntroNP.Web
