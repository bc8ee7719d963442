import IntroNP.Lib.CString

/-!
# A file tree without links

A tree says what there is at a location, the list of names that leads there from the root. A path is walked name by
name, and what is walked through must be a directory.

- `walk_eq_resolve`: where a walk ends is what its names say, whatever is in the tree;
- `kindAt_of_slash`: a path that ends in a slash is one of a directory.
-/

namespace IntroNP

/-- What there may be at a location: a file, with its bytes if it may be read, or a directory, which may be listed or
not. -/
inductive Kind
  | file (content : Option Text)
  | dir (readable : Bool)
  deriving DecidableEq

/-- What there is at every location; what has a name is in a directory. -/
structure FileTree where
  kind : List Text → Option Kind
  root : ∃ readable, kind [] = some (.dir readable)
  parent : ∀ loc name, kind (loc ++ [name]) ≠ none → ∃ readable, kind loc = some (.dir readable)

namespace FileTree

/-- The names of a path, empty ones included. -/
def segments : Text → List Text
  | [] => [[]]
  | c :: t =>
    if c = '/' then [] :: segments t
    else
      match segments t with
      | [] => [[c]]
      | s :: ss => (c :: s) :: ss

/-- Where one name leads. -/
def enter (loc : List Text) (name : Text) : List Text :=
  if name = [] ∨ name = "." then loc
  else if name = ".." then loc.dropLast
  else loc ++ [name]

/-- Where a list of names leads. -/
def resolve (loc names : List Text) : List Text := names.foldl enter loc

/-- What is at a location can be walked through. -/
def isDir (fs : FileTree) (loc : List Text) : Bool :=
  match fs.kind loc with
  | some (.dir _) => true
  | _ => false

/-- The end of a walk, if all that is walked through are directories. -/
def walk (fs : FileTree) (loc : List Text) : List Text → Option (List Text)
  | [] => some loc
  | name :: names => if fs.isDir loc then fs.walk (enter loc name) names else none

/-- What there is at an absolute path. -/
def kindAt (fs : FileTree) (path : Text) : Option Kind := (fs.walk [] (segments path)).bind fs.kind

/-- `open(path, O_RDONLY)`, if it succeeds, with what can be read from the descriptor: nothing from a directory. -/
def openRead (fs : FileTree) (path : Text) : Option Text :=
  match fs.kindAt path with
  | some (.file content) => content
  | some (.dir true) => some []
  | _ => none

/-- The tree of a list of places, each of which stands in a directory of the list. -/
def ofList (entries : List (List Text × Kind)) (root : entries.lookup [] = some (.dir true))
    (parent : ∀ e ∈ entries, e.1 ≠ [] → entries.lookup e.1.dropLast = some (.dir true)) : FileTree where
  kind loc := entries.lookup loc
  root := ⟨true, root⟩
  parent loc name h := by
    obtain ⟨k, hk⟩ := Option.ne_none_iff_exists'.1 h
    have hmem : (loc ++ [name], k) ∈ entries := by
      rw [List.lookup_eq_some_iff] at hk
      obtain ⟨before, after, rfl, -⟩ := hk
      simp
    have hdir := parent _ hmem (by simp)
    rw [List.dropLast_concat] at hdir
    exact ⟨true, hdir⟩

variable {fs : FileTree} {loc loc' names : List Text} {path content : Text} {k : Kind}

theorem walk_eq_resolve (h : fs.walk loc names = some loc') : loc' = resolve loc names := by
  induction names generalizing loc with
  | nil =>
    cases h
    rfl
  | cons name names ih =>
    unfold walk at h
    split at h
    · exact ih h
    · cases h

/-- What is at a path is at the location that its names lead to. -/
theorem kind_resolve (h : fs.kindAt path = some k) : fs.kind (resolve [] (segments path)) = some k := by
  obtain ⟨loc, hwalk, hkind⟩ := Option.bind_eq_some_iff.1 h
  rwa [← walk_eq_resolve hwalk]

theorem isDir_iff : fs.isDir loc ↔ ∃ readable, fs.kind loc = some (.dir readable) := by
  unfold isDir
  split
  · rename_i readable h
    exact iff_of_true rfl ⟨readable, h⟩
  · rename_i h
    exact iff_of_false (by simp) fun ⟨readable, hk⟩ => h readable hk

/-- A walk that ends in an empty name ends in a directory. -/
theorem walk_empty (h : fs.walk loc (names ++ [[]]) = some loc') : fs.isDir loc' := by
  induction names generalizing loc with
  | nil =>
    rw [List.nil_append] at h
    unfold walk at h
    split at h
    · rename_i hdir
      cases h
      exact hdir
    · cases h
  | cons name names ih =>
    rw [List.cons_append] at h
    unfold walk at h
    split at h
    · exact ih h
    · cases h

theorem segments_ne_nil : ∀ t : Text, segments t ≠ []
  | [] => by simp [segments]
  | c :: t => by
    unfold segments
    split
    · simp
    · split
      · simp
      · simp

theorem segments_slash : ∀ t : Text, segments (t ++ ['/']) = segments t ++ [[]]
  | [] => rfl
  | c :: t => by
    rw [List.cons_append]
    unfold segments
    rw [segments_slash t]
    split
    · rfl
    · cases h : segments t with
      | nil => exact absurd h (segments_ne_nil t)
      | cons s ss => rfl

/-- **A slash at the end** of a path is one of a directory. -/
theorem kindAt_slash (h : fs.kindAt (path ++ ['/']) = some k) : ∃ readable, k = .dir readable := by
  obtain ⟨loc, hwalk, hkind⟩ := Option.bind_eq_some_iff.1 h
  rw [segments_slash] at hwalk
  obtain ⟨readable, hdir⟩ := isDir_iff.1 (walk_empty hwalk)
  rw [hdir] at hkind
  cases hkind
  exact ⟨readable, rfl⟩

theorem openRead_file {c : Option Text} (h : fs.kindAt path = some (.file c)) : fs.openRead path = c := by
  unfold openRead
  rw [h]

theorem openRead_dir {readable : Bool} (h : fs.kindAt path = some (.dir readable)) :
    fs.openRead path = if readable then some [] else none := by
  unfold openRead
  rw [h]
  cases readable <;> rfl

theorem openRead_none (h : fs.kindAt path = none) : fs.openRead path = none := by
  unfold openRead
  rw [h]

/-- Bytes are read from a file. -/
theorem openRead_ne_nil (h : fs.openRead path = some content) (hne : content ≠ []) :
    fs.kindAt path = some (.file (some content)) := by
  unfold openRead at h
  split at h
  · rename_i c hk
    rw [hk, h]
  · cases h
    exact absurd rfl hne
  · cases h

end FileTree

end IntroNP
