import IntroNP.Web.Buffers
import IntroNP.Web.Kinds

/-!
# The web server: encoded names

A file is asked for by its name or by an encoding of it. What is encoded goes another way through `serve_file`, and that
way asks whether the name has a dot before it decodes it.

- `serveFile_plain`: the answer for the name itself;
- `sent_encoded`: the answer for an encoding is the same exactly if the encoding has a dot, or neither opens nor has an
  escape behind a slash;
- `serveFile_encoded`: the same with the arrays of `serve_file`, which the encoding must fit.
-/

namespace IntroNP.Web

open FileTree

variable {fs : FileTree} {hex : Nat → Nat} {p e q content rest directory : Text} {c : Char}

/-! ## Encodings of a path -/

/-- `e` is an encoding of the path `p`: every byte but `/` is left as it is or written as `%XX`. -/
inductive PathEncodes : Text → Text → Prop
  | nil : PathEncodes [] []
  | escape {a b c : Char} {x y : Nat} {e p : Text} (hslash : c ≠ '/') (ha : hexDigit a = some x)
      (hb : hexDigit b = some y) (hc : c.toNat = 16 * x + y) (h : PathEncodes e p) :
      PathEncodes ('%' :: a :: b :: e) (c :: p)
  | plain {c : Char} {e p : Text} (h : PathEncodes e p) : PathEncodes (c :: e) (c :: p)

namespace PathEncodes

/-- A path without `%` and `+` is what its encodings encode. -/
theorem encodes (h : PathEncodes e p) (hpercent : '%' ∉ p) (hplus : '+' ∉ p) : Encodes e p := by
  induction h with
  | nil => exact .nil
  | escape _ ha hb hc _ ih =>
    rw [List.mem_cons, not_or] at hpercent hplus
    exact .escape ha hb hc (ih hpercent.2 hplus.2)
  | plain _ ih =>
    rw [List.mem_cons, not_or] at hpercent hplus
    exact .plain (Ne.symm hpercent.1) (Ne.symm hplus.1) (ih hpercent.2 hplus.2)

/-- An encoding has no characters but those of the path, `%` and digits. -/
theorem notMem (h : PathEncodes e p) (hc : c ∉ p) (hpercent : c ≠ '%') (hdigit : hexDigit c = none) : c ∉ e := by
  induction h with
  | nil => exact hc
  | escape _ ha hb _ _ ih =>
    rw [List.mem_cons, not_or] at hc
    simp only [List.mem_cons, not_or]
    exact ⟨hpercent, (hexDigit_ne ha hdigit).symm, (hexDigit_ne hb hdigit).symm, ih hc.2⟩
  | plain _ ih =>
    rw [List.mem_cons, not_or] at hc ⊢
    exact ⟨hc.1, ih hc.2⟩

/-- An encoding without an escape is the path. -/
theorem eq_of_notMem (h : PathEncodes e p) (he : '%' ∉ e) : e = p := by
  induction h with
  | nil => rfl
  | escape => exact absurd List.mem_cons_self he
  | plain _ ih => rw [ih fun hc => he (List.mem_cons_of_mem _ hc)]

theorem nil_iff (h : PathEncodes e p) : e = [] ↔ p = [] := by
  cases h with
  | nil => exact Iff.rfl
  | escape => exact iff_of_false (List.cons_ne_nil _ _) (List.cons_ne_nil _ _)
  | plain => exact iff_of_false (List.cons_ne_nil _ _) (List.cons_ne_nil _ _)

/-- A slash at the end of an encoding is one of the path. -/
theorem getLast_slash (h : PathEncodes e p) (he : e.getLast? = some '/') : p.getLast? = some '/' := by
  induction h with
  | nil => exact he
  | @escape a b c x y e p _ _ hb _ h ih =>
    rw [List.getLast?_cons_cons, List.getLast?_cons_cons, List.getLast?_cons, Option.some.injEq] at he
    cases hlast : e.getLast? with
    | none =>
      rw [hlast, Option.getD_none] at he
      exact absurd he (hexDigit_ne hb (by decide))
    | some d =>
      rw [hlast, Option.getD_some] at he
      rw [List.getLast?_cons, ih (by rw [hlast, he]), Option.getD_some]
  | @plain c e p h ih =>
    rw [List.getLast?_cons, Option.some.injEq] at he
    cases hlast : e.getLast? with
    | none =>
      rw [hlast, Option.getD_none] at he
      rw [h.nil_iff.1 (List.getLast?_eq_none_iff.1 hlast), he]
      rfl
    | some d =>
      rw [hlast, Option.getD_some] at he
      rw [List.getLast?_cons, ih (by rw [hlast, he]), Option.getD_some]

/-- An encoding is not shorter than the path. -/
theorem length_le (h : PathEncodes e p) : p.length ≤ e.length := by
  induction h with
  | nil => exact le_rfl
  | escape _ _ _ _ _ ih =>
    simp only [List.length_cons]
    omega
  | plain _ ih => exact Nat.succ_le_succ ih

theorem append (q : Text) (h : PathEncodes e p) : PathEncodes (q ++ e) (q ++ p) := by
  induction q with
  | nil => exact h
  | cons c q ih => exact .plain ih

end PathEncodes

/-! ## The two ways -/

/-- What does not begin as a 200. -/
theorem ne_ok {t : Text} (ht : t[9]? = some c) (hc : c ≠ '2') : t ≠ ok ++ rest := by
  rintro rfl
  have hok : (ok ++ rest)[9]? = some '2' := rfl
  exact hc (Option.some.inj (ht.symm.trans hok))

theorem forbidden_ne_ok : forbidden directory ≠ ok ++ rest := ne_ok (c := '4') rfl (by decide)

theorem movedPermanently_ne_ok : movedPermanently directory ≠ ok ++ rest := ne_ok (c := '3') rfl (by decide)

/-- A path of a file does not end in a slash. -/
theorem getLast_file {path : Text} {r : Option Text} (h : fs.kindAt path = some (.file r)) :
    path.getLast? ≠ some '/' := by
  intro hlast
  obtain ⟨q, rfl⟩ := List.getLast?_eq_some_iff.1 hlast
  obtain ⟨_, hk⟩ := kindAt_slash h
  cases hk

/-- What is opened for a target that is not the root. -/
theorem directoryOf_file (hquery : '?' ∉ p) (hlast : ("/html".toList ++ p).getLast? ≠ some '/') :
    directoryOf ("/html".toList ++ p) = "/html".toList ++ p := by
  rw [directoryOf_target hquery, if_neg]
  rintro rfl
  exact hlast rfl

section

variable (hfile : fs.kindAt ("/html".toList ++ p) = some (.file (some content)))
  (htype : typeOf ("/html".toList ++ p) ≠ none) (hpercent : '%' ∉ p) (hquery : '?' ∉ p)

include hfile htype hpercent hquery

/-- **The name itself**: the file is sent, behind its type. -/
theorem serveFile_plain : (serveFile (fun _ => fs.openRead) hex ("/html".toList ++ p)).sent =
    ok ++ typeHeader ("/html".toList ++ p) ++ content := by
  have hserved := serveFile_outcome (fun _ => fs.openRead) hex ("/html".toList ++ p)
  rw [directoryOf_file hquery (getLast_file hfile)] at hserved
  have hdot : '.' ∈ "/html".toList ++ p := by
    by_contra hdot
    exact htype (typeOf_of_notMem hdot)
  have hpercent' : '%' ∉ "/html".toList ++ p := (mem_target (by decide)).not.2 hpercent
  generalize serveFile (fun _ => fs.openRead) hex ("/html".toList ++ p) = served at hserved ⊢
  cases hserved with
  | listing hno | moved hno | refused hno | missing _ hno => exact absurd hdot hno
  | notDecoded h | decoded h => exact absurd h hpercent'
  | plain => rw [openRead_file hfile, Option.getD_some]

/-- **An encoding**: where no file has the name as it is encoded, the answer is that for the name itself exactly if a
dot was left in it, or if it does not open and no name in it begins with an escape. -/
theorem sent_encoded (hplus : '+' ∉ p) (hnul : nul ∉ p) (he : PathEncodes e p)
    (hno : ∀ r, fs.kindAt ("/html".toList ++ e) ≠ some (.file r)) :
    (serveFile (fun _ => fs.openRead) hex ("/html".toList ++ e)).sent =
        (serveFile (fun _ => fs.openRead) hex ("/html".toList ++ p)).sent ↔
      '.' ∈ e ∨ (fs.openRead ("/html".toList ++ e) = none ∧ ¬ strstr "/%" ("/html".toList ++ e)) := by
  have hquery' : '?' ∉ e := he.notMem hquery (by decide) (by decide)
  have hlast : ("/html".toList ++ e).getLast? ≠ some '/' := fun h =>
    getLast_file hfile ((he.append _).getLast_slash h)
  have hescape : '%' ∈ "/html".toList ++ e := by
    by_contra h
    -- without an escape the two names are one
    exact hno _ ((he.append _).eq_of_notMem h ▸ hfile)
  have hdecode : urlDecode hex (withoutSlash ("/html".toList ++ e)) = "/html".toList ++ p := by
    have hplus' : '+' ∉ "/html".toList ++ p := (mem_target (by decide)).not.2 hplus
    have hpercent' : '%' ∉ "/html".toList ++ p := (mem_target (by decide)).not.2 hpercent
    have hnul' : nul ∉ "/html".toList ++ p := (mem_target (by decide)).not.2 hnul
    unfold withoutSlash
    rw [if_neg hlast, urlDecode_encodes ((he.append _).encodes hpercent' hplus') hnul']
  have hserved := serveFile_outcome (fun _ => fs.openRead) hex ("/html".toList ++ e)
  rw [directoryOf_file hquery' hlast] at hserved
  rw [serveFile_plain hfile htype hpercent hquery, List.append_assoc]
  generalize serveFile (fun _ => fs.openRead) hex ("/html".toList ++ e) = served at hserved ⊢
  cases hserved with
  | listing hdot hopen =>
    exact iff_of_false forbidden_ne_ok fun h => h.elim (fun hd => hdot (dot_mem_target.2 hd)) fun h => hopen h.1
  | moved hdot hopen =>
    exact iff_of_false movedPermanently_ne_ok fun h => h.elim (fun hd => hdot (dot_mem_target.2 hd)) fun h => hopen h.1
  | refused hdot hopen hslash =>
    exact iff_of_false forbidden_ne_ok fun h => h.elim (fun hd => hdot (dot_mem_target.2 hd)) fun h => h.2 hslash
  | notDecoded _ _ hopen =>
    rw [hdecode, openRead_file hfile] at hopen
    cases hopen
  | decoded _ hway hopen =>
    rw [hdecode, openRead_file hfile] at hopen
    cases hopen
    rw [hdecode, List.append_assoc]
    exact iff_of_true rfl (hway.imp_left dot_mem_target.1)
  | plain h | missing h => exact absurd hescape h

/-- **The arrays**: `serve_file` gives the same answer for an encoding as for the name itself, and every text fits its
array, exactly if the path with the encoding has at most 1023 characters, and a dot was left in it, or it does not open
and no name in it begins with an escape. -/
theorem serveFile_encoded (hplus : '+' ∉ p) (hnul : nul ∉ p) (he : PathEncodes e p)
    (hno : ∀ r, fs.kindAt ("/html".toList ++ e) ≠ some (.file r)) :
    (∃ encoded plain, serveFileIn (fun _ => fs.openRead) hex ("/html".toList ++ e) = some encoded ∧
        serveFileIn (fun _ => fs.openRead) hex ("/html".toList ++ p) = some plain ∧ encoded.sent = plain.sent) ↔
      ("/html".toList ++ e).length ≤ 1023 ∧
        ('.' ∈ e ∨ (fs.openRead ("/html".toList ++ e) = none ∧ ¬ strstr "/%" ("/html".toList ++ e))) := by
  have hquery' : '?' ∉ e := he.notMem hquery (by decide) (by decide)
  have hlast : ("/html".toList ++ e).getLast? ≠ some '/' := fun h =>
    getLast_file hfile ((he.append _).getLast_slash h)
  have hsame : (serveFile (fun _ => fs.openRead) hex ("/html".toList ++ e)).sent =
      (serveFile (fun _ => fs.openRead) hex ("/html".toList ++ p)).sent ↔ _ :=
    sent_encoded hfile htype hpercent hquery hplus hnul he hno
  by_cases hlen : ("/html".toList ++ e).length ≤ 1023
  · have hroom : ("/html".toList ++ e).length + 1 ≤ bufsize := Nat.succ_le_succ hlen
    have hroom' : ("/html".toList ++ p).length + 1 ≤ bufsize :=
      (Nat.succ_le_succ (he.append _).length_le).trans hroom
    have hdot : '.' ∈ "/html".toList ++ p := by
      by_contra hdot
      exact htype (typeOf_of_notMem hdot)
    have hplain : serveFileIn (fun _ => fs.openRead) hex ("/html".toList ++ p) =
        some (serveFile (fun _ => fs.openRead) hex ("/html".toList ++ p)) := by
      rw [serveFileIn_eq _ _ hroom', directoryOf_file hquery (getLast_file hfile), if_pos (.inl hdot)]
    rw [and_iff_right hlen, ← hsame, hplain, serveFileIn_eq _ _ hroom, directoryOf_file hquery' hlast]
    constructor
    · rintro ⟨encoded, plain, hencoded, hplain, hsent⟩
      cases hplain
      split at hencoded
      · cases hencoded
        exact hsent
      · cases hencoded
    · intro hsent
      -- where the answer is that of the file, no text is a refusal or a redirection
      have hfits := hsame.1 hsent
      exact ⟨_, _, if_pos (hfits.imp dot_mem_target.2 Or.inl), rfl, hsent⟩
  · refine iff_of_false ?_ fun h => hlen h.1
    rintro ⟨encoded, -, hencoded, -⟩
    rw [serveFileIn_long (by rwa [cutQuery_target hquery'])] at hencoded
    cases hencoded

end

/-- A directory of one text. -/
def shelf : FileTree :=
  .ofList [([], .dir true), (["html"], .dir true), (["html", "a.txt"], .file "hi")] (by decide) (by decide)

/-- Its name, with the letter encoded and the dot left. -/
theorem serveFile_encoded_letter : ∃ encoded plain,
    serveFileIn (fun _ => shelf.openRead) (fun _ => 0) ("/html".toList ++ "/%61.txt".toList) = some encoded ∧
      serveFileIn (fun _ => shelf.openRead) (fun _ => 0) ("/html".toList ++ "/a.txt".toList) = some plain ∧
      encoded.sent = plain.sent := by
  have he : PathEncodes "/%61.txt" "/a.txt" :=
    .plain (.escape (x := 6) (y := 1) (by decide) (by decide) (by decide) (by decide)
      (.plain (.plain (.plain (.plain .nil)))))
  have hno : ∀ r, shelf.kindAt ("/html".toList ++ "/%61.txt".toList) ≠ some (.file r) := by
    have hnone : shelf.kindAt ("/html".toList ++ "/%61.txt".toList) = none := by decide
    rw [hnone]
    exact fun _ => nofun
  have hfile : shelf.kindAt ("/html".toList ++ "/a.txt".toList) = some (.file (some "hi")) := by decide
  exact (serveFile_encoded hfile (by decide) (by decide) (by decide) (by decide) (by decide) he hno).2
    ⟨by decide, .inl (by decide)⟩

/-- With the dot encoded too, the name of the file is refused. -/
theorem serveFile_encoded_dot : ¬ ∀ (fs : FileTree) (hex : Nat → Nat) (p e content : Text),
    fs.kindAt ("/html".toList ++ p) = some (.file (some content)) → typeOf ("/html".toList ++ p) ≠ none →
    '%' ∉ p → '+' ∉ p → '?' ∉ p → nul ∉ p → PathEncodes e p → fs.kindAt ("/html".toList ++ e) = none →
    ("/html".toList ++ e).length ≤ 1023 →
    (serveFile (fun _ => fs.openRead) hex ("/html".toList ++ e)).sent =
      (serveFile (fun _ => fs.openRead) hex ("/html".toList ++ p)).sent := by
  intro hall
  have he : PathEncodes "/%61%2Etxt" "/a.txt" :=
    .plain (.escape (x := 6) (y := 1) (by decide) (by decide) (by decide) (by decide)
      (.escape (x := 2) (y := 14) (by decide) (by decide) (by decide) (by decide) (.plain (.plain (.plain .nil)))))
  have h := hall shelf (fun _ => 0) "/a.txt" "/%61%2Etxt" "hi" (by decide) (by decide) (by decide) (by decide)
    (by decide) (by decide) he (by decide) (by decide)
  exact absurd h (by decide)

end IntroNP.Web
