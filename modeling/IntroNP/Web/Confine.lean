import IntroNP.Web.Outcome

/-!
# The web server: what it reads

The path that is opened is what the client sent behind `/html`, and nothing is taken out of it: what is sent to the
client is a file of `/html` exactly if the names of its path lead there.

- `kind_source`: bytes that are sent are those of the file that the names of the path lead to;
- `confined_iff`: when nothing but files under `/html` can be sent.
-/

namespace IntroNP.Web

open FileTree

/-- The names of the path lead to a place in `/html`. -/
def Inside (path : Text) : Prop := ["html".toList] <+: resolve [] (segments path)

instance (path : Text) : Decidable (Inside path) := inferInstanceAs (Decidable (_ <+: _))

/-- Every path from which bytes are sent is inside. -/
def Confined (served : Served) : Prop := ∀ path bytes, served.source = some (path, bytes) → bytes ≠ [] → Inside path

/-- The path that is read, if any is. -/
def readPath (hex : Nat → Nat) (directory : Text) : Text :=
  if '%' ∈ directory then urlDecode hex (withoutSlash directory) else directory

/-- The path that is read is inside, or nothing is there to be read, or no file is sent. -/
def Stays (fs : FileTree) (hex : Nat → Nat) (directory : Text) : Prop :=
  Inside (readPath hex directory) ∨ (fs.openRead (readPath hex directory)).getD [] = [] ∨
    NoFile (fun _ => fs.openRead) directory

instance (fs : FileTree) (hex : Nat → Nat) (directory : Text) : Decidable (Stays fs hex directory) :=
  inferInstanceAs (Decidable (_ ∨ _))

variable {fs : FileTree} {hex : Nat → Nat} {directory path bytes target : Text} {served : Served} {last : Option Char}

/-- The bytes of an outcome are those that a call of `open` made readable. -/
theorem Outcome.source {opn : Nat → Text → Option Text} (h : Outcome opn hex last directory served)
    (hs : served.source = some (path, bytes)) : ∃ k, opn k path = some bytes := by
  cases h with
  | listing | moved | refused | notDecoded | missing => cases hs
  | decoded hpercent hfile hopen =>
    cases hs
    exact ⟨1, hopen⟩
  | plain hpercent hdot =>
    obtain ⟨b, hopen, heq⟩ := Option.map_eq_some_iff.1 hs
    cases heq
    exact ⟨0, hopen⟩

/-- **What is sent** is a file, at the place that the names of its path lead to. -/
theorem kind_source (h : Outcome (fun _ => fs.openRead) hex last directory served)
    (hs : served.source = some (path, bytes)) (hne : bytes ≠ []) :
    fs.kind (resolve [] (segments path)) = some (.file (some bytes)) := by
  obtain ⟨_, hopen⟩ := h.source hs
  exact kind_resolve (openRead_ne_nil hopen hne)

/-- What comes from a path is inside if the path is, or nothing comes from it. -/
theorem confined_some : Confined ⟨bytes, some (path, target)⟩ ↔ Inside path ∨ target = [] := by
  constructor
  · intro h
    by_cases hnil : target = []
    · exact .inr hnil
    · exact .inl (h path target rfl hnil)
  · rintro (h | h) p b hs hne
    · cases hs
      exact h
    · cases hs
      exact absurd h hne

theorem confined_none : Confined ⟨bytes, none⟩ := by
  intro p b hs
  cases hs

theorem Outcome.confined_iff_stays (h : Outcome (fun _ => fs.openRead) hex last directory served) :
    Confined served ↔ Stays fs hex directory := by
  unfold Stays readPath
  cases h with
  | listing hdot hopen => exact iff_of_true confined_none (.inr (.inr ⟨hdot, .inl hopen⟩))
  | moved hdot hopen => exact iff_of_true confined_none (.inr (.inr ⟨hdot, .inl hopen⟩))
  | refused hdot hopen hslash => exact iff_of_true confined_none (.inr (.inr ⟨hdot, .inr (.inl hslash)⟩))
  | notDecoded hpercent hfile hopen =>
    rw [if_pos hpercent, hopen]
    exact iff_of_true confined_none (.inr (.inl rfl))
  | decoded hpercent hfile hopen =>
    rw [if_pos hpercent, hopen, confined_some]
    exact or_congr_right ⟨.inl, fun h => h.resolve_right (not_noFile hpercent hfile)⟩
  | plain hpercent hdot =>
    rw [if_neg hpercent]
    cases hopen : fs.openRead directory with
    | none => exact iff_of_true confined_none (.inr (.inl rfl))
    | some bytes =>
      rw [Option.map_some, confined_some]
      exact or_congr_right ⟨.inl, fun h => h.resolve_right fun hno => hno.1 hdot⟩
  | missing hpercent hdot => exact iff_of_true confined_none (.inr (.inr ⟨hdot, .inr (.inr hpercent)⟩))

/-- **Confinement** of the answer to one request. -/
theorem confined_iff : Confined (serveFile (fun _ => fs.openRead) hex (fullPath target)) ↔
    Stays fs hex (directoryOf (fullPath target)) :=
  (serveFile_outcome _ hex _).confined_iff_stays

/-- A page, next to the key of the server. -/
def pages : FileTree :=
  .ofList [([], .dir true), (["html"], .dir true), (["html", "my page.txt"], .file "hello"), (["cert"], .dir true),
    (["cert", "server.key"], .file "secret")] (by decide) (by decide)

/-- A page is sent, and it is in `/html`. -/
theorem confined_page :
    (serveFile (fun _ => pages.openRead) (fun _ => 32) (fullPath "/../html/my%20page.txt")).source =
      some ("/html/../html/my page.txt".toList, "hello".toList) ∧
    Confined (serveFile (fun _ => pages.openRead) (fun _ => 32) (fullPath "/../html/my%20page.txt")) :=
  ⟨by decide +kernel, confined_iff.2 (by decide +kernel)⟩

/-- The pages, and the key of the server, as the container has them. -/
def chroot : FileTree :=
  .ofList [([], .dir true), (["html"], .dir true), (["cert"], .dir true), (["cert", "server.key"], .file "secret")]
    (by decide) (by decide)

/-- The key of the server is sent. -/
theorem not_confined_key :
    (serveFile (fun _ => chroot.openRead) (fun _ => 0) (fullPath "/../cert/server.key")).sent =
      "HTTP/1.1 200 OK\r\nsecret" ∧
    ¬ Confined (serveFile (fun _ => chroot.openRead) (fun _ => 0) (fullPath "/../cert/server.key")) := by
  have hserved : serveFile (fun _ => chroot.openRead) (fun _ => 0) (fullPath "/../cert/server.key") =
      ⟨"HTTP/1.1 200 OK\r\nsecret", some ("/html/../cert/server.key", "secret")⟩ := by
    decide
  rw [hserved, confined_some]
  exact ⟨rfl, by decide⟩

end IntroNP.Web
