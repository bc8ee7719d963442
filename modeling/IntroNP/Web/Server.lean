import IntroNP.Lib.FileTree
import IntroNP.Lib.Http

/-!
# The web server

`serve_file` and the part of `main` that calls it. The two calls of `open` are a function of their number and the path,
so that they may find the same or different things; a descriptor is what can be read from it. Texts are as long as they
are: the buffers are large enough.
-/

namespace IntroNP.Web

/-! ## Decoding -/

/-- A digit of `%x`. -/
def hexDigit (c : Char) : Option Nat :=
  if c.isDigit then some (c.toNat - '0'.toNat)
  else if 'a' ≤ c ∧ c ≤ 'f' then some (c.toNat - 'a'.toNat + 10)
  else if 'A' ≤ c ∧ c ≤ 'F' then some (c.toNat - 'A'.toNat + 10)
  else none

/-- `sscanf(t, "%2x", &hex)`: the `unsigned int` that is stored, if the conversion succeeds. White space is skipped, and
a sign and the prefix `0x` count among the two characters. -/
def scanHex (t : Text) : Option Nat :=
  let (neg, t) := sign ((t.dropWhile isspace).take 2)
  if t = "0x" ∨ t = "0X" then none
  else
    match (t.takeWhile fun c => (hexDigit c).isSome).filterMap hexDigit with
    | [] => none
    | ds =>
      let v := ds.foldl (fun v d => 16 * v + d) 0
      some (if neg then (2 ^ 32 - v) % 2 ^ 32 else v)

example : scanHex "2e./" = some 0x2e := by decide
example : scanHex " -1x" = some (2 ^ 32 - 1) := by decide

/-- The characters that `url_decode` writes from position `i` on; `hex` at a position where no conversion succeeded is
what the memory holds. -/
def urlDecodeFrom (hex : Nat → Nat) (i : Nat) : Text → Text
  | '%' :: a :: b :: url => .ofNat ((scanHex (a :: b :: url)).getD (hex i) % 256) :: urlDecodeFrom hex (i + 3) url
  | c :: url => (if c = '+' then ' ' else c) :: urlDecodeFrom hex (i + 1) url
  | [] => []

/-- `url_decode`: the C string that it returns. -/
def urlDecode (hex : Nat → Nat) (url : Text) : Text := (urlDecodeFrom hex 0 url).takeWhile (· != Char.ofNat 0)

example : urlDecode (fun _ => 0) "/html/%2e%2E/a+b%00c" = "/html/../a b" := by decide

/-! ## Texts -/

/-- `strrchr(t, c)`, as the text from there on. -/
def strrchr (t : Text) (c : Char) : Option Text :=
  if c ∈ t then some (c :: (t.reverse.takeWhile (· != c)).reverse) else none

/-- `strstr(t, pattern)` finds it. -/
def strstr (pattern : Text) : Text → Bool
  | [] => pattern.isEmpty
  | c :: t => pattern.isPrefixOf (c :: t) || strstr pattern t

/-- The text that ends in its first `?`, unless it starts with it. -/
def cutQuery (filePath : Text) : Text :=
  if filePath.head? = some '?' then filePath else filePath.takeWhile (· != '?')

/-- `directory` without the `/html` in front, as it is moved to the front of its buffer. -/
def withoutHtml (directory : Text) : Text := if directory.length ≥ 5 then directory.drop 5 else directory

/-- `directory` without a slash at the end. -/
def withoutSlash (directory : Text) : Text :=
  if directory.getLast? = some '/' then directory.dropLast else directory

/-- The type of an extension, as the chain of `strcmp` tells it. -/
def contentType (fileExtension : Text) : Option Text :=
  if fileExtension = ".html" then some "text/html"
  else if fileExtension = ".css" then some "text/css"
  else if fileExtension = ".txt" then some "text/plain; charset=utf-8"
  else if fileExtension = ".jpg" ∨ fileExtension = ".jpeg" then some "image/jpeg"
  else if fileExtension = ".png" then some "image/png"
  else if fileExtension = ".gif" then some "image/gif"
  else if fileExtension = ".mp3" then some "audio/mpeg"
  else none

/-- The type of a path, from its extension. -/
def typeOf (path : Text) : Option Text := (strrchr path '.').bind contentType

/-! ## Answers -/

def ok : Text := "HTTP/1.1 200 OK\r\n"

def notFound : Text := "HTTP/1.1 404 Not Found\r\n\r\n"

def forbidden (directory : Text) : Text :=
  "HTTP/1.1 403 Forbidden\r\nLocation: ".toList ++ withoutHtml directory ++ "/".toList ++ "\r\n\r\n".toList

def movedPermanently (directory : Text) : Text :=
  "HTTP/1.1 301 Moved Permanently\r\nLocation: ".toList ++ withoutHtml directory ++ "/".toList ++ "\r\n\r\n".toList

/-- The `Content-Type` of a path and the empty line behind it, if the type is known. -/
def typeHeader (path : Text) : Text :=
  match typeOf path with
  | some type => "Content-Type: ".toList ++ type ++ "\r\n\r\n".toList
  | none => []

/-- What is sent to the client, and the path of the descriptor from which the read loop reads, with the bytes that it
reads and sends. -/
structure Served where
  sent : Text
  source : Option (Text × Text)
  deriving DecidableEq

/-- `directory` when the file is opened. -/
def directoryOf (filePath : Text) : Text :=
  if cutQuery filePath = "/html/" then "/html/index.html" else cutQuery filePath

/-- `serve_file`. -/
def serveFile (opn : Nat → Text → Option Text) (hex : Nat → Nat) (filePath : Text) : Served :=
  let last := (cutQuery filePath).getLast?
  let directory := directoryOf filePath
  let fd := opn 0 directory
  let dot := strrchr directory '.'
  if fd.isSome ∧ dot = none ∧ last = some '/' then ⟨forbidden directory, none⟩
  else if fd.isSome ∧ dot = none ∧ last ≠ some '/' then ⟨movedPermanently directory, none⟩
  else if strstr "/%" directory ∧ dot = none then ⟨forbidden directory, none⟩
  else if '%' ∈ directory then
    let decodedPath := urlDecode hex (withoutSlash directory)
    match opn 1 decodedPath with
    | none => ⟨ok ++ notFound, none⟩
    | some bytes => ⟨ok ++ typeHeader decodedPath ++ bytes, some (decodedPath, bytes)⟩
  else if dot ≠ none then
    ⟨ok ++ typeHeader directory ++ fd.getD [], fd.map (directory, ·)⟩
  else ⟨notFound, none⟩

/-- `full_path`: what `snprintf` leaves in a buffer of 1024 bytes. -/
def fullPath (directory : Text) : Text := ("/html".toList ++ directory).take 1023

/-- What `strtok` cuts a request at. -/
def separators (c : Char) : Bool := c == ' ' || c == '\t' || c == '\n'

/-- What `main` does with a request; `none` where it compares or prints a null pointer. -/
def handleRequest (opn : Nat → Text → Option Text) (hex : Nat → Nat) (request : Text) : Option Served := do
  let (httpMethod, rest) := strtok separators request
  let (directory, _) := strtok separators rest
  if (← httpMethod) = "GET" then return serveFile opn hex (fullPath (← directory))
  else return ⟨"HTTP/1.1 501 Not Implemented\r\n\r\n", none⟩

end IntroNP.Web
