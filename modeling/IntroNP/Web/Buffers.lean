import IntroNP.Lib.Buffer
import IntroNP.Web.Decode
import IntroNP.Web.Outcome

/-!
# The web server: its arrays

`serve_file` again, with the arrays in which it builds its texts: `directory` and the `response` of a redirection have
1024 characters, the `response` of a refusal is as large as the literal that it is initialised with.

- `addIndex_eq`, `cutHtml_eq`: the path always fits `directory`;
- `locate_literal`, `locate_moved`: the texts of refusals never fit, those of redirections if the path is short;
- `serveFileIn_eq`, `handleRequestIn_fits`: when every text fits, and that the answer is then that of `serveFile`.
-/

namespace IntroNP.Web

open Buffer

variable {opn : Nat → Text → Option Text} {hex : Nat → Nat} {filePath t target request : Text} {capacity : Nat}
  {served : Served}

/-- `BUFSIZE`. -/
def bufsize : Nat := 1024

/-- The page of the root, behind the path of the root. -/
def addIndex (directory : Buffer bufsize) : Option (Buffer bufsize) :=
  if directory.text = "/html/" then directory.strcat "index.html" else some directory

/-- `directory` without the `/html` in front. -/
def cutHtml (directory : Buffer bufsize) : Option (Buffer bufsize) :=
  if directory.text.length ≥ 5 then directory.memmove 5 else some directory

/-- A `response` that names the `directory`. -/
def locate (directory : Buffer bufsize) (response : Buffer capacity) : Option Served := do
  let directory ← cutHtml directory
  let response ← response.strcatAll [directory.text, "/", "\r\n\r\n"]
  return ⟨response.text, none⟩

/-- `serve_file`, or nothing when a text does not fit its array. -/
def serveFileIn (opn : Nat → Text → Option Text) (hex : Nat → Nat) (filePath : Text) : Option Served := do
  let copied ← strcpy bufsize (cutQuery filePath)
  let last := copied.text.getLast?
  let directory ← addIndex copied
  let fd := opn 0 directory.text
  let dot := strrchr directory.text '.'
  if fd.isSome ∧ dot = none ∧ last = some '/' then
    locate directory (literal "HTTP/1.1 403 Forbidden\r\nLocation: ")
  else if fd.isSome ∧ dot = none ∧ last ≠ some '/' then
    locate directory (← strcpy bufsize "HTTP/1.1 301 Moved Permanently\r\nLocation: ")
  else if strstr "/%" directory.text ∧ dot = none then
    locate directory (literal "HTTP/1.1 403 Forbidden\r\nLocation: ")
  else if '%' ∈ directory.text then
    let decodedPath := urlDecode hex (withoutSlash directory.text)
    -- `directory` is cleared, and holds the decoded path from here on
    let _ ← strcpy bufsize decodedPath
    match opn 1 decodedPath with
    | none => return ⟨ok ++ notFound, none⟩
    | some bytes => return ⟨ok ++ typeHeader decodedPath ++ bytes, some (decodedPath, bytes)⟩
  else if dot ≠ none then
    return ⟨ok ++ typeHeader directory.text ++ fd.getD [], fd.map (directory.text, ·)⟩
  else return ⟨notFound, none⟩

/-- What `main` does with a request; `some none` where a text does not fit its array. -/
def handleRequestIn (opn : Nat → Text → Option Text) (hex : Nat → Nat) (request : Text) : Option (Option Served) := do
  let (httpMethod, rest) := strtok separators request
  let (directory, _) := strtok separators rest
  if (← httpMethod) = "GET" then return serveFileIn opn hex (fullPath (← directory))
  else return some ⟨"HTTP/1.1 501 Not Implemented\r\n\r\n", none⟩

/-! ## Each array -/

theorem cutQuery_length : (cutQuery t).length ≤ t.length := by
  unfold cutQuery
  split
  · exact le_rfl
  · exact (List.takeWhile_sublist _).length_le

theorem withoutSlash_length : (withoutSlash t).length ≤ t.length := by
  unfold withoutSlash
  split
  · rw [List.length_dropLast]
    omega
  · exact le_rfl

theorem urlDecode_length : (urlDecode hex t).length ≤ t.length :=
  (List.takeWhile_sublist _).length_le.trans (urlDecodeFrom_length 0 t)

/-- The path fits, and so does the page of the root. -/
theorem addIndex_eq (h : filePath.length + 1 ≤ bufsize) : ∃ copied directory : Buffer bufsize,
    strcpy bufsize (cutQuery filePath) = some copied ∧ copied.text = cutQuery filePath ∧
      addIndex copied = some directory ∧ directory.text = directoryOf filePath := by
  have hcut : (cutQuery filePath).length + 1 ≤ bufsize := (Nat.succ_le_succ cutQuery_length).trans h
  obtain ⟨copied, hcopied, htext⟩ := exists_strcpy hcut
  by_cases hroot : copied.text = "/html/"
  · have hindex : ("/html/".toList ++ "index.html".toList : Text).length + 1 ≤ bufsize := by decide
    obtain ⟨directory, hdirectory, hpath⟩ := exists_strcpy hindex
    refine ⟨copied, directory, hcopied, htext, ?_, ?_⟩
    · rw [addIndex, if_pos hroot, strcat, hroot, hdirectory]
    · rw [directoryOf, if_pos (htext ▸ hroot), hpath]
      rfl
  · refine ⟨copied, copied, hcopied, htext, if_neg hroot, ?_⟩
    rw [directoryOf, if_neg (htext ▸ hroot), htext]

theorem cutHtml_eq (directory : Buffer bufsize) : ∃ front : Buffer bufsize, cutHtml directory = some front ∧
    front.text = withoutHtml directory.text := by
  unfold cutHtml withoutHtml
  split
  · exact exists_memmove directory 5
  · exact ⟨directory, rfl, rfl⟩

/-- **A response** that names the directory fits if its text does. -/
theorem locate_eq (directory : Buffer bufsize) (response : Buffer capacity) : locate directory response =
    if (response.text ++ (withoutHtml directory.text ++ ("/".toList ++ "\r\n\r\n".toList))).length + 1 ≤ capacity then
      some ⟨response.text ++ (withoutHtml directory.text ++ ("/".toList ++ "\r\n\r\n".toList)), none⟩
    else none := by
  obtain ⟨front, hfront, htext⟩ := cutHtml_eq directory
  rw [← map_strcpy fun t => (⟨t, none⟩ : Served)]
  unfold locate
  rw [hfront, Option.bind_eq_bind, Option.bind_some, strcatAll_eq, htext, Option.map_eq_bind]
  simp only [List.flatten_cons, List.flatten_nil, List.append_nil]
  rfl

theorem end_length : ("/".toList ++ "\r\n\r\n".toList : Text).length = 5 := rfl

/-- The text of a refusal never fits into an array that is as large as its beginning. -/
theorem locate_literal (directory : Buffer bufsize) : locate directory (literal t) = none := by
  have htext : (literal t).text = t := rfl
  rw [locate_eq, htext, if_neg]
  rw [List.length_append, List.length_append, end_length]
  omega

/-- That of a redirection fits for a path of at most 981 characters. -/
theorem locate_moved {directory response : Buffer bufsize}
    (h : response.text = "HTTP/1.1 301 Moved Permanently\r\nLocation: ") : locate directory response =
      if directory.text.length ≤ 981 then some ⟨movedPermanently directory.text, none⟩ else none := by
  have hsent : response.text ++ (withoutHtml directory.text ++ ("/".toList ++ "\r\n\r\n".toList)) =
      movedPermanently directory.text := by
    rw [h]
    unfold movedPermanently
    simp only [List.append_assoc]
  have hroom : (movedPermanently directory.text).length + 1 ≤ bufsize ↔ directory.text.length ≤ 981 := by
    have hbegin : response.text.length = 42 := congrArg List.length h
    rw [← hsent, List.length_append, List.length_append, end_length, hbegin]
    unfold withoutHtml bufsize
    split
    · rw [List.length_drop]
      omega
    · omega
  rw [locate_eq, hsent]
  exact if_congr hroom rfl rfl

/-! ## All of them -/

/-- The answer is no refusal, and a redirection only of a path of at most 981 characters. -/
def Fits (opn : Nat → Text → Option Text) (last : Option Char) (directory : Text) : Prop :=
  '.' ∈ directory ∨ (opn 0 directory = none ∧ ¬ strstr "/%" directory) ∨
    (opn 0 directory ≠ none ∧ last ≠ some '/' ∧ directory.length ≤ 981)

instance (opn : Nat → Text → Option Text) (last : Option Char) (directory : Text) : Decidable (Fits opn last directory) :=
  inferInstanceAs (Decidable (_ ∨ _))

/-- **The arrays** hold every text of `serve_file` exactly if `Fits`, and then the answer is that of `serveFile`. -/
theorem serveFileIn_eq (opn : Nat → Text → Option Text) (hex : Nat → Nat) (h : filePath.length + 1 ≤ bufsize) :
    serveFileIn opn hex filePath = if Fits opn (cutQuery filePath).getLast? (directoryOf filePath) then
      some (serveFile opn hex filePath) else none := by
  obtain ⟨copied, directory, hcopied, htext, hindex, hpath⟩ := addIndex_eq h
  have hlen : directory.text.length + 1 ≤ bufsize := directory.fits
  unfold serveFileIn serveFile Fits
  rw [hcopied, Option.bind_eq_bind, Option.bind_some, htext]
  dsimp only
  rw [hindex, Option.bind_some, hpath]
  simp only [strrchr_eq_none, Option.isSome_iff_ne_none]
  rw [hpath] at hlen
  by_cases hlisting : opn 0 (directoryOf filePath) ≠ none ∧ '.' ∉ directoryOf filePath ∧
      (cutQuery filePath).getLast? = some '/'
  · rw [if_pos hlisting, locate_literal, if_neg]
    rintro (hdot | ⟨hopen, -⟩ | ⟨-, hlast, -⟩)
    · exact hlisting.2.1 hdot
    · exact hlisting.1 hopen
    · exact hlast hlisting.2.2
  rw [if_neg hlisting, if_neg hlisting]
  by_cases hmoved : opn 0 (directoryOf filePath) ≠ none ∧ '.' ∉ directoryOf filePath ∧
      (cutQuery filePath).getLast? ≠ some '/'
  · have hliteral : ("HTTP/1.1 301 Moved Permanently\r\nLocation: " : Text).length + 1 ≤ bufsize := by decide
    obtain ⟨response, hresponse, hbegin⟩ := exists_strcpy hliteral
    rw [if_pos hmoved, if_pos hmoved, hresponse, Option.bind_some, locate_moved hbegin, hpath]
    refine if_congr ⟨fun h => .inr (.inr ⟨hmoved.1, hmoved.2.2, h⟩), ?_⟩ rfl rfl
    rintro (hdot | ⟨hopen, -⟩ | ⟨-, -, hle⟩)
    · exact absurd hdot hmoved.2.1
    · exact absurd hopen hmoved.1
    · exact hle
  rw [if_neg hmoved, if_neg hmoved]
  have hopen : '.' ∉ directoryOf filePath → opn 0 (directoryOf filePath) = none := by
    intro hdot
    by_contra hopen
    by_cases hlast : (cutQuery filePath).getLast? = some '/'
    · exact hlisting ⟨hopen, hdot, hlast⟩
    · exact hmoved ⟨hopen, hdot, hlast⟩
  by_cases hrefused : strstr "/%" (directoryOf filePath) ∧ '.' ∉ directoryOf filePath
  · rw [if_pos hrefused, locate_literal, if_neg]
    rintro (hdot | ⟨-, hslash⟩ | ⟨hsome, -⟩)
    · exact hrefused.2 hdot
    · exact hslash hrefused.1
    · exact hsome (hopen hrefused.2)
  have hfits : '.' ∈ directoryOf filePath ∨
      (opn 0 (directoryOf filePath) = none ∧ ¬ strstr "/%" (directoryOf filePath)) ∨
      (opn 0 (directoryOf filePath) ≠ none ∧ (cutQuery filePath).getLast? ≠ some '/' ∧
        (directoryOf filePath).length ≤ 981) := by
    by_cases hdot : '.' ∈ directoryOf filePath
    · exact .inl hdot
    · exact .inr (.inl ⟨hopen hdot, fun hs => hrefused ⟨hs, hdot⟩⟩)
  rw [if_neg hrefused, if_neg hrefused, if_pos hfits]
  by_cases hpercent : '%' ∈ directoryOf filePath
  · have hdecoded : (urlDecode hex (withoutSlash (directoryOf filePath))).length + 1 ≤ bufsize :=
      (Nat.succ_le_succ (urlDecode_length.trans withoutSlash_length)).trans hlen
    obtain ⟨b, hb, -⟩ := exists_strcpy hdecoded
    rw [if_pos hpercent, if_pos hpercent, hb, Option.bind_some]
    cases opn 1 (urlDecode hex (withoutSlash (directoryOf filePath))) with
    | none => rfl
    | some bytes => rfl
  · rw [if_neg hpercent, if_neg hpercent]
    split <;> rfl

/-- A path that does not fit `directory` overruns it at once. -/
theorem serveFileIn_long (h : ¬ (cutQuery filePath).length ≤ 1023) : serveFileIn opn hex filePath = none := by
  have hcopied : strcpy bufsize (cutQuery filePath) = none := by
    rw [strcpy, dif_neg]
    exact fun hroom => h (Nat.le_of_succ_le_succ hroom)
  unfold serveFileIn
  rw [hcopied]
  rfl

theorem fullPath_length : (fullPath target).length + 1 ≤ bufsize := by
  have hle : (fullPath target).length ≤ 1023 := List.length_take_le _ _
  have hsize : bufsize = 1024 := rfl
  omega

/-- **A request** for a target: every text fits its array, whatever the calls of `open` find, exactly if `Fits`; the
answer is then that of `serveFile`. -/
theorem handleRequestIn_fits (opn : Nat → Text → Option Text) (hex : Nat → Nat) {request target : Text}
    (hget : (strtok separators request).1 = some "GET".toList)
    (htarget : (strtok separators (strtok separators request).2).1 = some target) :
    ∃ served, handleRequestIn opn hex request = some served ∧
      (served ≠ none ↔ Fits opn (cutQuery (fullPath target)).getLast? (directoryOf (fullPath target))) ∧
      ∀ answer, served = some answer → handleRequest opn hex request = some answer := by
  have hin : handleRequestIn opn hex request = some (serveFileIn opn hex (fullPath target)) := by
    unfold handleRequestIn
    dsimp only
    rw [hget, htarget]
    rfl
  have hout : handleRequest opn hex request = some (serveFile opn hex (fullPath target)) := by
    unfold handleRequest
    dsimp only
    rw [hget, htarget]
    rfl
  refine ⟨_, hin, ?_, ?_⟩
  · rw [serveFileIn_eq opn hex fullPath_length]
    split
    · rename_i h
      exact iff_of_true (Option.some_ne_none _) h
    · rename_i h
      exact iff_of_false (not_not.2 rfl) h
  · intro answer h
    rw [serveFileIn_eq opn hex fullPath_length] at h
    split at h
    · cases h
      exact hout
    · cases h

/-- A directory of music that opens, without a slash. -/
theorem handleRequestIn_fits_music : ∃ served,
    handleRequestIn (fun _ _ => some []) (fun _ => 0) "GET /music HTTP/1.1" = some served ∧ served ≠ none := by
  have hget : (strtok separators "GET /music HTTP/1.1").1 = some "GET".toList := by decide
  have htarget : (strtok separators (strtok separators "GET /music HTTP/1.1").2).1 = some "/music".toList := by decide
  obtain ⟨served, hserved, hfits, -⟩ := handleRequestIn_fits (fun _ _ => some []) (fun _ => 0) hget htarget
  exact ⟨served, hserved, hfits.2 (by decide)⟩

/-- With a slash, the refusal does not fit its array. -/
theorem not_handleRequestIn_fits : ¬ ∀ (opn : Nat → Text → Option Text) (hex : Nat → Nat) (request target : Text),
    request.length ≤ 1023 → (strtok separators request).1 = some "GET".toList →
    (strtok separators (strtok separators request).2).1 = some target →
    handleRequestIn opn hex request ≠ some none := by
  intro hall
  exact hall (fun _ _ => some []) (fun _ => 0) "GET /music/ HTTP/1.1" "/music/" (by decide) (by decide) (by decide)
    (by decide)

end IntroNP.Web
