import IntroNP.Web.Outcome

/-!
# The web server: files, directories and what is not there

The server does not ask what its target is. A name without a dot is taken for a directory if it opens, and one with a
dot for a file whether it opens or not, so that the answer is right exactly when the name tells the kind
(`NameTellsKind`).

- `directoryOf_target`: what is opened for a plain target;
- `followsKind_iff`: when the answer follows the kind of the target.
-/

namespace IntroNP.Web

open FileTree

/-- The answer is a message with the code. -/
def HasCode (served : Served) (code : Text) : Prop := ∃ m : Message, m.render = served.sent ∧ m.code = code

/-- The answer is a 200, with the content of the file. -/
def SendsFile (served : Served) (content : Text) : Prop :=
  ∃ m : Message, m.render = served.sent ∧ m.code = "200" ∧ m.body = content

/-- The answer for the target `p` is that for what is at `/html` followed by `p`. -/
structure FollowsKind (fs : FileTree) (p : Text) (served : Served) : Prop where
  file : ∀ content, fs.kindAt ("/html".toList ++ p) = some (.file (some content)) → SendsFile served content
  index : p = "/" → ∀ content, fs.kindAt "/html/index.html" = some (.file (some content)) → SendsFile served content
  redirect : ∀ readable, fs.kindAt ("/html".toList ++ p) = some (.dir readable) → p.getLast? ≠ some '/' →
    ∃ m : Message, m.render = served.sent ∧ m.code = "301" ∧ "Location: ".toList ++ p ++ "/".toList ∈ m.headers
  listing : ∀ readable, fs.kindAt ("/html".toList ++ p) = some (.dir readable) → p.getLast? = some '/' → p ≠ "/" →
    HasCode served "403"
  missing : fs.kindAt ("/html".toList ++ p) = none → HasCode served "404"

/-- A file that may be read has a known extension, a directory other than the root has no dot in its path and may be
listed, and the path of what is not there has no dot. -/
structure NameTellsKind (fs : FileTree) (p : Text) : Prop where
  file : ∀ content, fs.kindAt ("/html".toList ++ p) = some (.file (some content)) → typeOf ("/html".toList ++ p) ≠ none
  dir : ∀ readable, fs.kindAt ("/html".toList ++ p) = some (.dir readable) → p = "/" ∨ readable = true ∧ '.' ∉ p
  missing : fs.kindAt ("/html".toList ++ p) = none → p ≠ "/" ∧ '.' ∉ p

variable {fs : FileTree} {hex : Nat → Nat} {p content rest : Text} {served : Served}

/-! ## Targets -/

theorem fullPath_target (hfits : p.length + 48 ≤ 1024) : fullPath p = "/html".toList ++ p := by
  unfold fullPath
  rw [List.take_of_length_le]
  have hlen : ("/html" : Text).length = 5 := rfl
  rw [List.length_append, hlen]
  omega

theorem cutQuery_target (hquery : '?' ∉ p) : cutQuery ("/html".toList ++ p) = "/html".toList ++ p := by
  have hall : ∀ c ∈ "/html".toList ++ p, (c != '?') = true := by
    intro c hc
    rw [bne_iff_ne]
    rintro rfl
    rcases List.mem_append.1 hc with hc | hc
    · exact absurd hc (by decide)
    · exact hquery hc
  unfold cutQuery
  split
  · rfl
  · exact List.takeWhile_eq_self_iff.2 hall

/-- **What is opened** for a target without a query. -/
theorem directoryOf_target (hquery : '?' ∉ p) :
    directoryOf ("/html".toList ++ p) = if p = "/" then ("/html/index.html" : Text) else "/html".toList ++ p := by
  have hroot : ("/html/" : Text) = "/html".toList ++ ['/'] := rfl
  unfold directoryOf
  rw [cutQuery_target hquery, hroot]
  simp only [List.append_cancel_left_eq]
  rfl

theorem withoutHtml_target : withoutHtml ("/html".toList ++ p) = p := by
  have hlen : ("/html" : Text).length = 5 := rfl
  unfold withoutHtml
  rw [if_pos (by rw [List.length_append, hlen]; omega), ← hlen, List.drop_left]

theorem mem_target {c : Char} (hc : c ∉ ("/html" : Text)) : c ∈ "/html".toList ++ p ↔ c ∈ p := by
  rw [List.mem_append]
  exact or_iff_right hc

/-! ## Codes -/

theorem code_unique {m m' : Message} (h : m.render = m'.render) : m.code = m'.code := by
  have hline := Message.render_statusLine h (Message.newline_notMem_statusLine m'.isStatusLine)
  unfold Message.code
  rw [hline.1]

/-- An answer that begins as a 200 has no other code. -/
theorem not_hasCode_of_ok {source : Option (Text × Text)} {code : Text} (hcode : code ≠ "200") :
    ¬ HasCode ⟨ok ++ rest, source⟩ code := by
  rintro ⟨m, hr, hc⟩
  exact hcode (hc.symm.trans (code_of_ok hr))

/-- A message has one code. -/
theorem not_hasCode_of_message {m : Message} {source : Option (Text × Text)} {code : Text} (hcode : m.code ≠ code) :
    ¬ HasCode ⟨m.render, source⟩ code := by
  rintro ⟨m', hr, hc⟩
  exact hcode ((code_unique hr).symm.trans hc)

theorem SendsFile.hasCode (h : SendsFile served content) : HasCode served "200" := by
  obtain ⟨m, hr, hc, -⟩ := h
  exact ⟨m, hr, hc⟩

/-- A file is sent as it is exactly if its type is known. -/
theorem sendsFile_iff {path : Text} {source : Option (Text × Text)} :
    SendsFile ⟨ok ++ typeHeader path ++ content, source⟩ content ↔ typeOf path ≠ none := by
  constructor
  · rintro ⟨m, hr, -, hbody⟩ h
    exact not_message_untyped h hr hbody
  · intro h
    obtain ⟨type, htype⟩ := Option.ne_none_iff_exists'.1 h
    exact ⟨okMessage type _ (newline_notMem_typeOf htype), ok_eq htype _, rfl, rfl⟩

/-! ## The root -/

theorem followsKind_root (hserved : Outcome (fun _ => fs.openRead) hex (some '/') "/html/index.html" served) :
    FollowsKind fs "/" served ↔ NameTellsKind fs "/" := by
  have hslash : ("/html".toList ++ ("/" : Text)) = "/html".toList ++ ['/'] := rfl
  have hfile : ∀ c, fs.kindAt ("/html".toList ++ ("/" : Text)) ≠ some (.file c) := by
    intro c hc
    rw [hslash] at hc
    obtain ⟨_, hk⟩ := kindAt_slash hc
    cases hk
  cases hserved with
  | listing hdot | moved hdot | refused hdot | missing _ hdot => exact absurd (by decide) hdot
  | notDecoded hpercent | decoded hpercent => exact absurd hpercent (by decide)
  | plain hpercent hdot =>
    constructor
    · intro h
      refine ⟨fun c hc => absurd hc (hfile _), fun _ _ => .inl rfl, fun hnone => ?_⟩
      have hcode := h.missing hnone
      rw [List.append_assoc] at hcode
      exact absurd hcode (not_hasCode_of_ok (by decide))
    · intro h
      refine ⟨fun c hc => absurd hc (hfile _), fun _ content hc => ?_, fun _ _ hlast => absurd rfl hlast,
        fun _ _ _ hroot => absurd rfl hroot, fun hnone => absurd rfl (h.missing hnone).1⟩
      rw [openRead_file hc]
      exact sendsFile_iff.2 (by decide)

/-! ## Other targets -/

theorem dot_mem_target : '.' ∈ "/html".toList ++ p ↔ '.' ∈ p := mem_target (by decide)

theorem newline_notMem_target (hn : '\n' ∉ p) : '\n' ∉ "/html".toList ++ p := (mem_target (by decide)).not.2 hn

/-- A directory that was opened can be. -/
theorem eq_true_of_openRead {path : Text} {r : Bool} (hr : fs.kindAt path = some (.dir r))
    (hopen : fs.openRead path ≠ none) : r = true := by
  rw [openRead_dir hr] at hopen
  by_contra h
  exact hopen (if_neg h)

/-- A directory without a dot that was opened, with a slash at its end. -/
theorem followsKind_listing (hroot : p ≠ "/") (hn : '\n' ∉ p) (hdot : '.' ∉ "/html".toList ++ p)
    (hopen : fs.openRead ("/html".toList ++ p) ≠ none) (hlast : p.getLast? = some '/') :
    FollowsKind fs p ⟨forbidden ("/html".toList ++ p), none⟩ ↔ NameTellsKind fs p := by
  have hfile : ∀ c, fs.kindAt ("/html".toList ++ p) ≠ some (.file c) := by
    intro c hc
    obtain ⟨q, rfl⟩ := List.getLast?_eq_some_iff.1 hlast
    rw [← List.append_assoc] at hc
    obtain ⟨_, hk⟩ := kindAt_slash hc
    cases hk
  refine iff_of_true ⟨fun c hc => absurd hc (hfile _), fun h => absurd h hroot, fun _ _ h => absurd hlast h,
    fun _ _ _ _ => ⟨_, forbidden_eq (newline_notMem_target hn), rfl⟩,
    fun hnone => absurd (openRead_none hnone) hopen⟩ ?_
  exact ⟨fun c hc => absurd hc (hfile _),
    fun r hr => .inr ⟨eq_true_of_openRead hr hopen, fun h => hdot (dot_mem_target.2 h)⟩,
    fun hnone => absurd (openRead_none hnone) hopen⟩

/-- Something without a dot that was opened, without a slash at its end. -/
theorem followsKind_moved (hroot : p ≠ "/") (hn : '\n' ∉ p) (hdot : '.' ∉ "/html".toList ++ p)
    (hopen : fs.openRead ("/html".toList ++ p) ≠ none) (hlast : p.getLast? ≠ some '/') :
    FollowsKind fs p ⟨movedPermanently ("/html".toList ++ p), none⟩ ↔ NameTellsKind fs p := by
  have hmoved := movedPermanently_eq (newline_notMem_target hn)
  constructor
  · intro h
    refine ⟨fun c hc => ?_, fun r hr => .inr ⟨eq_true_of_openRead hr hopen, fun h => hdot (dot_mem_target.2 h)⟩,
      fun hnone => absurd (openRead_none hnone) hopen⟩
    have hcode := (h.file c hc).hasCode
    rw [← hmoved] at hcode
    exact absurd hcode (not_hasCode_of_message (show ("301" : Text) ≠ "200" by decide))
  · intro h
    refine ⟨fun c hc => absurd (typeOf_of_notMem hdot) (h.file c hc), fun h => absurd h hroot, fun _ _ _ => ?_,
      fun _ _ h => absurd h hlast, fun hnone => absurd (openRead_none hnone) hopen⟩
    have hline : locationLine ("/html".toList ++ p) = "Location: ".toList ++ p ++ "/".toList := by
      unfold locationLine
      rw [withoutHtml_target]
    exact ⟨_, hmoved, rfl, List.mem_singleton.2 hline.symm⟩

/-- Something with a dot. -/
theorem followsKind_plain (hroot : p ≠ "/") (hdot : '.' ∈ "/html".toList ++ p) {source : Option (Text × Text)} :
    FollowsKind fs p ⟨ok ++ typeHeader ("/html".toList ++ p) ++ (fs.openRead ("/html".toList ++ p)).getD [], source⟩ ↔
      NameTellsKind fs p := by
  constructor
  · intro h
    refine ⟨fun c hc => ?_, fun r hr => ?_, fun hnone => ?_⟩
    · have hsends := h.file c hc
      rw [openRead_file hc] at hsends
      exact sendsFile_iff.1 hsends
    · by_cases hlast : p.getLast? = some '/'
      · have hcode := h.listing r hr hlast hroot
        rw [List.append_assoc] at hcode
        exact absurd hcode (not_hasCode_of_ok (by decide))
      · obtain ⟨m, hr, hc, -⟩ := h.redirect r hr hlast
        rw [List.append_assoc] at hr
        rw [code_of_ok hr] at hc
        cases hc
    · have hcode := h.missing hnone
      rw [List.append_assoc] at hcode
      exact absurd hcode (not_hasCode_of_ok (by decide))
  · intro h
    have hdir : ∀ r, fs.kindAt ("/html".toList ++ p) ≠ some (.dir r) := by
      intro r hr
      rcases h.dir r hr with h | h
      · exact hroot h
      · exact h.2 (dot_mem_target.1 hdot)
    refine ⟨fun c hc => ?_, fun h => absurd h hroot, fun r hr => absurd hr (hdir r), fun r hr => absurd hr (hdir r),
      fun hnone => absurd (dot_mem_target.1 hdot) (h.missing hnone).2⟩
    rw [openRead_file hc]
    exact sendsFile_iff.2 (h.file c hc)

/-- Something without a dot that was not opened. -/
theorem followsKind_missing (hroot : p ≠ "/") (hdot : '.' ∉ "/html".toList ++ p)
    (hopen : fs.openRead ("/html".toList ++ p) = none) : FollowsKind fs p ⟨notFound, none⟩ ↔ NameTellsKind fs p := by
  have hfile : ∀ c, fs.kindAt ("/html".toList ++ p) ≠ some (.file (some c)) := by
    intro c hc
    rw [openRead_file hc] at hopen
    cases hopen
  constructor
  · intro h
    refine ⟨fun c hc => absurd hc (hfile c), fun r hr => ?_, fun _ => ⟨hroot, fun h => hdot (dot_mem_target.2 h)⟩⟩
    have hcode : HasCode ⟨notFoundMessage.render, none⟩ "403" ∨ HasCode ⟨notFoundMessage.render, none⟩ "301" := by
      rw [notFound_eq]
      by_cases hlast : p.getLast? = some '/'
      · exact .inl (h.listing r hr hlast hroot)
      · obtain ⟨m, hm, hc, -⟩ := h.redirect r hr hlast
        exact .inr ⟨m, hm, hc⟩
    rcases hcode with hcode | hcode
    · exact absurd hcode (not_hasCode_of_message (by decide))
    · exact absurd hcode (not_hasCode_of_message (by decide))
  · intro h
    have hdir : ∀ r, fs.kindAt ("/html".toList ++ p) ≠ some (.dir r) := by
      intro r hr
      rcases h.dir r hr with h | h
      · exact hroot h
      · rw [openRead_dir hr, if_pos h.1] at hopen
        cases hopen
    exact ⟨fun c hc => absurd hc (hfile c), fun h => absurd h hroot, fun r hr => absurd hr (hdir r),
      fun r hr => absurd hr (hdir r), fun _ => ⟨_, notFound_eq, rfl⟩⟩

theorem followsKind_target (hroot : p ≠ "/") (hpercent : '%' ∉ p) (hn : '\n' ∉ p)
    (hserved : Outcome (fun _ => fs.openRead) hex p.getLast? ("/html".toList ++ p) served) :
    FollowsKind fs p served ↔ NameTellsKind fs p := by
  have hpercent' : '%' ∉ "/html".toList ++ p := (mem_target (by decide)).not.2 hpercent
  cases hserved with
  | listing hdot hopen hlast => exact followsKind_listing hroot hn hdot hopen hlast
  | moved hdot hopen hlast => exact followsKind_moved hroot hn hdot hopen hlast
  | refused hdot hopen hslash => exact absurd (mem_of_strstr hslash '%' (by decide)) hpercent'
  | notDecoded hmem | decoded hmem => exact absurd hmem hpercent'
  | plain _ hdot => exact followsKind_plain hroot hdot
  | missing _ hdot hopen => exact followsKind_missing hroot hdot hopen

/-- **Kinds**: the answer for a plain target follows the kind of what is there exactly if the name tells the kind. -/
theorem followsKind_iff (hslash : p.head? = some '/') (hpercent : '%' ∉ p) (hquery : '?' ∉ p) (hn : '\n' ∉ p)
    (hfits : p.length + 48 ≤ 1024) :
    FollowsKind fs p (serveFile (fun _ => fs.openRead) hex (fullPath p)) ↔ NameTellsKind fs p := by
  have hserved := serveFile_outcome (fun _ => fs.openRead) hex (fullPath p)
  rw [fullPath_target hfits] at hserved ⊢
  rw [directoryOf_target hquery, cutQuery_target hquery] at hserved
  have hlast : ("/html".toList ++ p).getLast? = p.getLast? := by
    cases p with
    | nil => cases hslash
    | cons c t => simp
  rw [hlast] at hserved
  by_cases hroot : p = "/"
  · subst hroot
    exact followsKind_root hserved
  · rw [if_neg hroot] at hserved
    exact followsKind_target hroot hpercent hn hserved

/-- A page, and a directory of music. -/
def site : FileTree :=
  .ofList [([], .dir true), (["html"], .dir true), (["html", "index.html"], .file "<p>hi</p>"),
    (["html", "music"], .dir true)] (by decide) (by decide)

/-- A directory without a dot in its name. -/
theorem followsKind_iff_music :
    FollowsKind site "/music" (serveFile (fun _ => site.openRead) (fun _ => 0) (fullPath "/music")) := by
  have hkind : site.kindAt ("/html".toList ++ "/music".toList) = some (.dir true) := by decide
  refine (followsKind_iff rfl (by decide) (by decide) (by decide) (by decide)).2 ⟨?_, ?_, ?_⟩
  · intro c hc
    rw [hkind] at hc
    cases hc
  · intro r hr
    rw [hkind] at hr
    cases hr
    exact .inr ⟨rfl, by decide⟩
  · intro hnone
    rw [hkind] at hnone
    cases hnone

/-- A file that is not there is found, and empty. -/
theorem not_followsKind_missing :
    (serveFile (fun _ => site.openRead) (fun _ => 0) (fullPath "/nope.txt")).sent =
      "HTTP/1.1 200 OK\r\nContent-Type: text/plain; charset=utf-8\r\n\r\n" ∧
    ¬ FollowsKind site "/nope.txt" (serveFile (fun _ => site.openRead) (fun _ => 0) (fullPath "/nope.txt")) := by
  have hserved : serveFile (fun _ => site.openRead) (fun _ => 0) (fullPath "/nope.txt") =
      ⟨ok ++ "Content-Type: text/plain; charset=utf-8\r\n\r\n".toList, none⟩ := by
    decide
  rw [hserved]
  exact ⟨rfl, fun h => not_hasCode_of_ok (by decide) (h.missing (by decide))⟩

end IntroNP.Web
