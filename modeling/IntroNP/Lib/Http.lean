import IntroNP.Lib.CString

/-!
# HTTP answers

A message is a status line, header lines, an empty line and a body. Lines end in CRLF.

- `render_statusLine`: the bytes of a message tell its status line;
- `render_headers`: and whether a line is the next header.
-/

namespace IntroNP

/-- A name that a header may have. -/
def IsName (name : Text) : Prop := name ≠ [] ∧ ∀ c ∈ name, c ≠ ':' ∧ 32 < c.toNat ∧ c.toNat < 127

/-- `name: value`, on one line. -/
def IsHeader (line : Text) : Prop := ∃ name value, line = name ++ ':' :: value ∧ IsName name ∧ '\n' ∉ value

/-- The version, a code of three digits, and the reason, on one line. -/
def IsStatusLine (line : Text) : Prop :=
  ∃ code reason : Text, line = "HTTP/1.1 ".toList ++ code ++ ' ' :: reason ∧ code.length = 3 ∧
    (∀ c ∈ code, c.isDigit) ∧ '\n' ∉ reason

/-- An answer. -/
structure Message where
  statusLine : Text
  headers : List Text
  body : Text
  isStatusLine : IsStatusLine statusLine
  isHeader : ∀ line ∈ headers, IsHeader line

namespace Message

/-- The end of a line. -/
def crlf : Text := ['\r', '\n']

/-- The bytes of a message. -/
def render (m : Message) : Text :=
  m.statusLine ++ crlf ++ (m.headers.flatMap (· ++ crlf) ++ (crlf ++ m.body))

/-- The code of a message. -/
def code (m : Message) : Text := (m.statusLine.drop 9).take 3

variable {m : Message} {line line' rest rest' : Text}

theorem newline_notMem_statusLine (h : IsStatusLine line) : '\n' ∉ line := by
  obtain ⟨code, reason, rfl, -, hdigit, hreason⟩ := h
  simp only [List.mem_append, List.mem_cons, not_or]
  refine ⟨⟨by decide, fun hc => ?_⟩, by decide, hreason⟩
  exact absurd (hdigit _ hc) (by decide)

theorem newline_notMem_header (h : IsHeader line) : '\n' ∉ line := by
  obtain ⟨name, value, rfl, ⟨-, hname⟩, hvalue⟩ := h
  simp only [List.mem_append, List.mem_cons, not_or]
  refine ⟨fun hc => ?_, by decide, hvalue⟩
  exact absurd (hname _ hc).2.1 (by decide)

/-- A text has one first line. -/
theorem line_unique (h : line ++ crlf ++ rest = line' ++ crlf ++ rest') (hl : '\n' ∉ line) (hl' : '\n' ∉ line') :
    line = line' ∧ rest = rest' := by
  have hfirst : ∀ {line rest : Text}, '\n' ∉ line →
      (line ++ crlf ++ rest).takeWhile (· != '\n') = line ++ ['\r'] := by
    intro line rest hline
    have hpos : ∀ c ∈ line, (c != '\n') = true := by
      intro c hc
      rw [bne_iff_ne]
      rintro rfl
      exact hline hc
    unfold crlf
    rw [List.append_assoc, List.takeWhile_append_of_pos hpos]
    simp
  have heq := congrArg (List.takeWhile (· != '\n')) h
  rw [hfirst hl, hfirst hl'] at heq
  have hline := List.append_cancel_right heq
  subst hline
  exact ⟨rfl, List.append_cancel_left h⟩

/-- **The status line** of a message is its first line. -/
theorem render_statusLine (h : m.render = line ++ crlf ++ rest) (hl : '\n' ∉ line) :
    m.statusLine = line ∧ m.headers.flatMap (· ++ crlf) ++ (crlf ++ m.body) = rest :=
  line_unique h (newline_notMem_statusLine m.isStatusLine) hl

/-- **The next line** is a header, unless it is empty. -/
theorem headers_next {headers : List Text} {body : Text} (hh : ∀ line ∈ headers, IsHeader line)
    (h : headers.flatMap (· ++ crlf) ++ (crlf ++ body) = line ++ crlf ++ rest) (hl : '\n' ∉ line) :
    line = [] ∨ IsHeader line := by
  cases headers with
  | nil =>
    have hempty : ([] : Text) ++ crlf ++ body = line ++ crlf ++ rest := h
    exact .inl (line_unique hempty (by simp) hl).1.symm
  | cons header headers =>
    have hheader := hh header List.mem_cons_self
    rw [List.flatMap_cons, List.append_assoc] at h
    obtain ⟨rfl, -⟩ := line_unique h (newline_notMem_header hheader) hl
    exact .inr hheader

/-- The body is shorter than what follows the status line. -/
theorem body_length_lt (m : Message) :
    m.body.length < (m.headers.flatMap (· ++ crlf) ++ (crlf ++ m.body)).length := by
  unfold crlf
  simp only [List.length_append, List.length_cons]
  omega

end Message

end IntroNP
