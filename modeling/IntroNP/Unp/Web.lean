import IntroNP.Lib.System
import IntroNP.Lib.Table
import IntroNP.Unp.Nonblock
import IntroNP.Unp.SelectServer
import Mathlib

/-!
# The web client

`nonblock/web.c`, with `start_connect.c` and `write_get_cmd.c`: the files of a server are fetched over several
connections at the same time, and no call of `connect` waits. The kernel's side is which descriptors are ready, and when.

- `turn_file`: a turn changes every file on its own;
- `web_fetches`: the counts and the sets of descriptors are right in every state, and at the end every file was asked
  for once and was read to its end;
- `web_finishes`: the program comes to its end if it may open a connection at all.

A call that fails ends the process. So does a connection that cannot be made: the program says so, and sends the request
nevertheless.
-/

namespace IntroNP.Unp

def MAXFILES : Nat := 20

namespace Web

/-- `f_flags`. -/
inductive Flags
  | none
  | connecting
  | reading
  | done
  deriving DecidableEq

/-- A file, with the number of bytes that are still to come from the server. -/
structure File where
  fd : Int
  flags : Flags
  left : Nat

/-- Its connection is open. -/
def File.Opened (f : File) : Prop := f.flags = .connecting ∨ f.flags = .reading

/-- What `Select` leaves in `rs` and `ws`, and how many bytes `Read` returns. -/
structure Ready where
  rs : Finset Int
  ws : Finset Int
  n : Int → Nat

/-- How the process ends before its time: by `err_quit`, or by `FD_SET` with a descriptor for which the set has no
bit. -/
inductive Stop
  | nothingFound
  | fdSet
  deriving DecidableEq

inductive Act
  | connect (fd : Int) (now : Bool)
  | turn (t : Ready)
  | fail

end Web

/-- The variables of the program, the files for which a request was sent, and whether a failed call has ended it. -/
structure Web where
  file : List Web.File
  nconn : Int
  nlefttoconn : Int
  nlefttoread : Int
  maxfd : Int
  rset : Finset Int
  wset : Finset Int
  asked : List Nat
  ended : Bool

namespace Web

/-- There are as many files as arguments, or as fit in the table. -/
def start (replies : List Nat) : Web :=
  ⟨(replies.take MAXFILES).map fun left => ⟨0, .none, left⟩, 0, (min replies.length MAXFILES : Nat),
    (min replies.length MAXFILES : Nat), -1, ∅, ∅, [], false⟩

/-- `write_get_cmd`. -/
def writeGetCmd (w : Web) (i : Nat) (f : File) : Web :=
  { w with
    file := w.file.set i { f with flags := .reading }
    rset := insert f.fd w.rset
    maxfd := if f.fd > w.maxfd then f.fd else w.maxfd
    asked := w.asked ++ [i] }

/-- `start_connect`: `Socket` returned `fd`, and `connect` is done at once or goes on. -/
def startConnect (w : Web) (i : Nat) (f : File) (fd : Int) (now : Bool) : Except Stop Web :=
  if fd < FD_SETSIZE then
    .ok (if now then w.writeGetCmd i { f with fd } else
      { w with
        file := w.file.set i { f with fd, flags := .connecting }
        rset := insert fd w.rset
        wset := insert fd w.wset
        maxfd := if fd > w.maxfd then fd else w.maxfd })
  else .error .fdSet

/-- The body of the loop that starts connections. -/
def connectNext (w : Web) (fd : Int) (now : Bool) : Except Stop Web :=
  match w.file.findIdx? (·.flags = .none) with
  | none => .error .nothingFound
  | some i =>
    match w.file[i]? with
    | none => .error .nothingFound
    | some f =>
      match w.startConnect i f fd now with
      | .error e => .error e
      | .ok w => .ok { w with nconn := w.nconn + 1, nlefttoconn := w.nlefttoconn - 1 }

/-- The body of the loop over all files. -/
def check (t : Ready) (w : Web) (i : Nat) : Web :=
  match w.file[i]? with
  | none => w
  | some f =>
    match f.flags with
    | .none | .done => w
    | .connecting =>
      if f.fd ∈ t.rs ∨ f.fd ∈ t.ws then { w with wset := w.wset.erase f.fd }.writeGetCmd i f else w
    | .reading =>
      if f.fd ∈ t.rs then
        if t.n f.fd = 0 then
          { w with
            file := w.file.set i { f with flags := .done }
            rset := w.rset.erase f.fd
            nconn := w.nconn - 1
            nlefttoread := w.nlefttoread - 1 }
        else { w with file := w.file.set i { f with left := f.left - t.n f.fd } }
      else w

/-- The loop over all files, after `Select` returned. -/
def turn (w : Web) (t : Ready) : Web := (List.range w.file.length).foldl (check t) w

/-- What the kernel may do: some descriptors for which it was asked are ready, and `Read` returns some of the bytes that
are still to come, or none at the end. -/
structure Selects (w : Web) (t : Ready) : Prop where
  rs : ∀ fd ∈ t.rs, fd ∈ w.rset ∧ fd < w.maxfd + 1
  ws : ∀ fd ∈ t.ws, fd ∈ w.wset ∧ fd < w.maxfd + 1
  some : t.rs.Nonempty ∨ t.ws.Nonempty
  read : ∀ f ∈ w.file, f.flags = .reading → f.fd ∈ t.rs →
    t.n f.fd ≤ f.left ∧ t.n f.fd ≤ MAXLINE ∧ (t.n f.fd = 0 → f.left = 0)

/-- The steps: a connection is started, or the program waits and looks at all files; or it ends in `Socket`, in
`connect`, or in `Read` or `Writen` behind `Select`. `Socket` returns a descriptor that is not open. -/
inductive Step (maxnconn : Int) (w : Web) : Act → Web → Prop
  | connect {fd : Int} {now : Bool} {w' : Web} (hended : w.ended = false) (hleft : 0 < w.nlefttoread)
      (hmore : w.nconn < maxnconn ∧ 0 < w.nlefttoconn) (hnonneg : 0 ≤ fd) (hfresh : ∀ f ∈ w.file, f.Opened → f.fd ≠ fd)
      (hok : w.connectNext fd now = .ok w') : Step maxnconn w (.connect fd now) w'
  | turn {t : Ready} (hended : w.ended = false) (hleft : 0 < w.nlefttoread)
      (hmore : ¬ (w.nconn < maxnconn ∧ 0 < w.nlefttoconn)) (hready : w.Selects t) : Step maxnconn w (.turn t) (w.turn t)
  | fail (hended : w.ended = false) (hleft : 0 < w.nlefttoread)
      (hcall : (w.nconn < maxnconn ∧ 0 < w.nlefttoconn) ∨ ∃ t, w.Selects t) :
      Step maxnconn w .fail { w with ended := true }

end Web

/-- The program, with what the server replies. -/
def web (maxnconn : Int) (replies : List Nat) : System Web Web.Act where
  init w := w = .start replies
  step := Web.Step maxnconn

namespace Web

/-! ## The counts and the sets -/

/-- Open connections: of one file, none or one. -/
def File.conns (f : File) : Nat :=
  match f.flags with
  | .connecting | .reading => 1
  | .none | .done => 0

/-- Connections to start. -/
def File.toConn (f : File) : Nat := if f.flags = .none then 1 else 0

/-- Files to read. -/
def File.toRead (f : File) : Nat := if f.flags = .done then 0 else 1

/-- The request was sent. -/
def File.Asked (f : File) : Prop := f.flags = .reading ∨ f.flags = .done

variable {maxnconn fd : Int} {replies : List Nat} {w w' : Web} {f f' g : File} {i j nfiles : Nat} {t : Ready}
  {now : Bool}

/-- What holds between two steps, and between two files in the loop. -/
structure Ok (maxnconn : Int) (nfiles : Nat) (w : Web) : Prop where
  nconn : w.nconn = (w.file.map File.conns).sum
  nlefttoconn : w.nlefttoconn = (w.file.map File.toConn).sum
  nlefttoread : w.nlefttoread = (w.file.map File.toRead).sum
  inj : ∀ (i j : Nat) (f g : File), w.file[i]? = some f → w.file[j]? = some g →
    f.Opened → g.Opened → f.fd = g.fd → i = j
  rset : ∀ fd, fd ∈ w.rset ↔ ∃ f ∈ w.file, f.Opened ∧ f.fd = fd
  wset : ∀ fd, fd ∈ w.wset ↔ ∃ f ∈ w.file, f.flags = .connecting ∧ f.fd = fd
  maxfd : ∀ fd ∈ w.rset, fd ≤ w.maxfd
  asked : w.asked.Nodup
  mem_asked : ∀ i, i ∈ w.asked ↔ ∃ f, w.file[i]? = some f ∧ f.Asked
  le_maxnconn : w.nconn ≤ max maxnconn 0
  length : w.file.length = nfiles

theorem flags_start (hf : f ∈ (start replies).file) : f.flags = .none := by
  obtain ⟨_, _, rfl⟩ := List.mem_map.1 hf
  rfl

theorem sum_start {g : File → Nat} {c : Nat} (hg : ∀ f : File, f.flags = .none → g f = c) :
    ((start replies).file.map g).sum = min replies.length MAXFILES * c := by
  have hconst : (start replies).file.map g = List.replicate (min replies.length MAXFILES) c := by
    refine List.eq_replicate_iff.2 ⟨by simp [Web.start, Nat.min_comm], fun b hb => ?_⟩
    obtain ⟨f, hf, rfl⟩ := List.mem_map.1 hb
    exact hg f (flags_start hf)
  rw [hconst, List.sum_replicate, smul_eq_mul]

theorem Ok.start : (start replies).Ok maxnconn (min replies.length MAXFILES) where
  nconn := by
    rw [sum_start (c := 0) fun f hf => by simp [File.conns, hf]]
    rfl
  nlefttoconn := by
    rw [sum_start (c := 1) fun f hf => by simp [File.toConn, hf], Nat.mul_one]
    rfl
  nlefttoread := by
    rw [sum_start (c := 1) fun f hf => by simp [File.toRead, hf], Nat.mul_one]
    rfl
  inj i j f g hi _ hf := by
    simp [File.Opened, flags_start (List.mem_of_getElem? hi)] at hf
  rset fd := by
    refine iff_of_false (Finset.notMem_empty fd) ?_
    rintro ⟨f, hf, hopened, _⟩
    simp [File.Opened, flags_start hf] at hopened
  wset fd := by
    refine iff_of_false (Finset.notMem_empty fd) ?_
    rintro ⟨f, hf, hflags, _⟩
    cases (flags_start hf).symm.trans hflags
  maxfd fd h := absurd h (Finset.notMem_empty fd)
  asked := List.nodup_nil
  mem_asked i := by
    refine iff_of_false List.not_mem_nil ?_
    rintro ⟨f, hi, hasked⟩
    simp [File.Asked, flags_start (List.mem_of_getElem? hi)] at hasked
  le_maxnconn := le_max_right _ _
  length := by simp [Web.start, Nat.min_comm]

/-- **One file changes**: what there is to show. -/
theorem Ok.set (h : w.Ok maxnconn nfiles) (hi : w.file[i]? = some f) (hfile : w'.file = w.file.set i f')
    (hnconn : w'.nconn + f.conns = w.nconn + f'.conns)
    (htoConn : w'.nlefttoconn + f.toConn = w.nlefttoconn + f'.toConn)
    (htoRead : w'.nlefttoread + f.toRead = w.nlefttoread + f'.toRead)
    (hfd : f'.Opened → f.Opened ∧ f'.fd = f.fd ∨ f'.fd ∉ w.rset)
    (hrset : ∀ fd, fd ∈ w'.rset ↔ (f'.Opened ∧ f'.fd = fd) ∨ fd ∈ w.rset ∧ ¬(f.Opened ∧ f.fd = fd))
    (hwset : ∀ fd, fd ∈ w'.wset ↔
      (f'.flags = .connecting ∧ f'.fd = fd) ∨ fd ∈ w.wset ∧ ¬(f.flags = .connecting ∧ f.fd = fd))
    (hmaxfd : w.maxfd ≤ w'.maxfd ∧ (f'.Opened → f'.fd ≤ w'.maxfd))
    (hasked : w'.asked = w.asked ∧ (f'.Asked ↔ f.Asked) ∨ w'.asked = w.asked ++ [i] ∧ ¬ f.Asked ∧ f'.Asked)
    (hle : w'.nconn ≤ max maxnconn 0) : w'.Ok maxnconn nfiles := by
  have hil : i < w.file.length := (List.getElem?_eq_some_iff.1 hi).1
  have hother : ∀ {j : Nat} {g : File}, w.file[j]? = some g → j ≠ i → g.Opened → f'.Opened → f'.fd ≠ g.fd := by
    intro j g hj hji hg hf' he
    rcases hfd hf' with ⟨hf, hsame⟩ | hnew
    · exact hji (h.inj j i g f hj hi hg hf (he.symm.trans hsame))
    · exact hnew ((h.rset _).2 ⟨g, List.mem_of_getElem? hj, hg, he.symm⟩)
  constructor
  · have hsum := sum_map_set File.conns hi f'
    have := h.nconn
    rw [hfile]
    omega
  · have hsum := sum_map_set File.toConn hi f'
    have := h.nlefttoconn
    rw [hfile]
    omega
  · have hsum := sum_map_set File.toRead hi f'
    have := h.nlefttoread
    rw [hfile]
    omega
  · intro j k g g' hj hk hg hg' he
    rw [hfile] at hj hk
    rcases getElem?_set_cases hj with ⟨rfl, rfl⟩ | ⟨hji, hj'⟩
    · rcases getElem?_set_cases hk with ⟨rfl, _⟩ | ⟨hki, hk'⟩
      · rfl
      · exact absurd he (hother hk' hki hg' hg)
    · rcases getElem?_set_cases hk with ⟨rfl, rfl⟩ | ⟨hki, hk'⟩
      · exact absurd he.symm (hother hj' hji hg hg')
      · exact h.inj j k g g' hj' hk' hg hg' he
  · intro fd
    rw [hrset, hfile, exists_key_set_iff hi fun j c hj ha hc hk => h.inj j i c f hj hi hc ha hk, h.rset]
  · intro fd
    rw [hwset, hfile, exists_key_set_iff hi fun j c hj ha hc hk => h.inj j i c f hj hi (.inl hc) (.inl ha) hk, h.wset]
  · intro fd hfd'
    rcases (hrset fd).1 hfd' with ⟨hopened, rfl⟩ | ⟨hold, _⟩
    · exact hmaxfd.2 hopened
    · exact (h.maxfd fd hold).trans hmaxfd.1
  · rcases hasked with ⟨he, _⟩ | ⟨he, hnot, _⟩
    · rw [he]
      exact h.asked
    · rw [he]
      refine List.nodup_append.2 ⟨h.asked, List.nodup_singleton _, ?_⟩
      intro x hx y hy he
      obtain ⟨g, hg, hgasked⟩ := (h.mem_asked x).1 hx
      rw [he, List.mem_singleton.1 hy] at hg
      cases hi.symm.trans hg
      exact hnot hgasked
  · intro j
    rw [hfile]
    by_cases hji : j = i
    · subst hji
      rw [List.getElem?_set_self hil]
      rcases hasked with ⟨he, hsame⟩ | ⟨he, _, hnew⟩
      · rw [he, h.mem_asked, hi]
        simp [hsame]
      · rw [he]
        simp [hnew]
    · rw [List.getElem?_set_ne (Ne.symm hji), ← h.mem_asked]
      rcases hasked with ⟨he, _⟩ | ⟨he, _⟩
      · rw [he]
      · rw [he]
        simp [hji]
  · exact hle
  · rw [hfile, List.length_set, h.length]


/-! ## What becomes of a file -/

theorem Ok.in_progress (h : w.Ok maxnconn nfiles) (hi : w.file[i]? = some f) (hnone : f.flags = .none)
    (hmore : w.nconn < maxnconn) (hfresh : fd ∉ w.rset) :
    Ok maxnconn nfiles
      ⟨w.file.set i { f with fd, flags := .connecting }, w.nconn + 1, w.nlefttoconn - 1, w.nlefttoread,
        if fd > w.maxfd then fd else w.maxfd, insert fd w.rset, insert fd w.wset, w.asked, w.ended⟩ := by
  have hnot : fd ∉ w.wset := fun hw => by
    obtain ⟨g, hg, hflags, hfd⟩ := (h.wset fd).1 hw
    exact hfresh ((h.rset fd).2 ⟨g, hg, .inl hflags, hfd⟩)
  refine h.set hi rfl ?_ ?_ ?_ (fun _ => .inr hfresh) (fun x => ?_) (fun x => ?_) ?_ (.inl ⟨rfl, ?_⟩) ?_
  · simp [File.conns, hnone]
  · simp [File.toConn, hnone]
  · simp [File.toRead, hnone]
  · simp [File.Opened, hnone, eq_comm]
  · simp [hnone, eq_comm]
  · dsimp only
    split <;> exact ⟨by omega, fun _ => by omega⟩
  · simp [File.Asked, hnone]
  · have := le_max_left maxnconn 0
    dsimp only
    omega

/-- `connect` is done at once. -/
theorem Ok.at_once (h : w.Ok maxnconn nfiles) (hi : w.file[i]? = some f) (hnone : f.flags = .none)
    (hmore : w.nconn < maxnconn) (hfresh : fd ∉ w.rset) :
    Ok maxnconn nfiles
      ⟨w.file.set i { f with fd, flags := .reading }, w.nconn + 1, w.nlefttoconn - 1, w.nlefttoread,
        if fd > w.maxfd then fd else w.maxfd, insert fd w.rset, w.wset, w.asked ++ [i], w.ended⟩ := by
  refine h.set hi rfl ?_ ?_ ?_ (fun _ => .inr hfresh) (fun x => ?_) (fun x => ?_) ?_ (.inr ⟨rfl, ?_, ?_⟩) ?_
  · simp [File.conns, hnone]
  · simp [File.toConn, hnone]
  · simp [File.toRead, hnone]
  · simp [File.Opened, hnone, eq_comm]
  · simp [hnone]
  · dsimp only
    split <;> exact ⟨by omega, fun _ => by omega⟩
  · simp [File.Asked, hnone]
  · simp [File.Asked]
  · have := le_max_left maxnconn 0
    dsimp only
    omega

/-- A connection is there, and the request is sent. -/
theorem Ok.established (h : w.Ok maxnconn nfiles) (hi : w.file[i]? = some f) (hflags : f.flags = .connecting) :
    ({ w with wset := w.wset.erase f.fd }.writeGetCmd i f).Ok maxnconn nfiles := by
  have hopened : f.fd ∈ w.rset := (h.rset _).2 ⟨f, List.mem_of_getElem? hi, .inl hflags, rfl⟩
  refine h.set hi rfl ?_ ?_ ?_ (fun _ => .inl ⟨.inl hflags, rfl⟩) (fun x => ?_) (fun x => ?_) ?_ (.inr ⟨rfl, ?_, ?_⟩)
    h.le_maxnconn
  · simp [writeGetCmd, File.conns, hflags]
  · simp [writeGetCmd, File.toConn, hflags]
  · simp [writeGetCmd, File.toRead, hflags]
  · simp only [writeGetCmd, Finset.mem_insert, File.Opened, hflags]
    by_cases hx : f.fd = x
    · simp [hx]
    · simp [hx, Ne.symm hx]
  · simp [writeGetCmd, hflags, eq_comm, and_comm]
  · dsimp only [writeGetCmd]
    split <;> exact ⟨by omega, fun _ => by omega⟩
  · simp [File.Asked, hflags]
  · simp [File.Asked]

/-- Some bytes are read. -/
theorem Ok.received (h : w.Ok maxnconn nfiles) (hi : w.file[i]? = some f) (hflags : f.flags = .reading) (n : Nat) :
    Ok maxnconn nfiles { w with file := w.file.set i { f with left := n } } := by
  have hopened : f.fd ∈ w.rset := (h.rset _).2 ⟨f, List.mem_of_getElem? hi, .inr hflags, rfl⟩
  refine h.set hi rfl rfl rfl rfl (fun hf => .inl ⟨hf, rfl⟩) (fun x => ?_) (fun x => ?_) ⟨le_refl _, fun _ => ?_⟩
    (.inl ⟨rfl, Iff.rfl⟩) h.le_maxnconn
  · simp only [File.Opened, hflags]
    by_cases hx : f.fd = x
    · subst hx
      simp [hopened]
    · simp [hx]
  · simp [hflags]
  · exact h.maxfd _ hopened

/-- The end of a file is read. -/
theorem Ok.ended (h : w.Ok maxnconn nfiles) (hi : w.file[i]? = some f) (hflags : f.flags = .reading) :
    Ok maxnconn nfiles
      { w with file := w.file.set i { f with flags := .done }, rset := w.rset.erase f.fd, nconn := w.nconn - 1,
               nlefttoread := w.nlefttoread - 1 } := by
  refine h.set hi rfl ?_ ?_ ?_ ?_ (fun x => ?_) (fun x => ?_) ⟨le_refl _, ?_⟩ (.inl ⟨rfl, ?_⟩) ?_
  · simp [File.conns, hflags]
  · simp [File.toConn, hflags]
  · simp [File.toRead, hflags]
  · simp [File.Opened]
  · simp [File.Opened, hflags, eq_comm, and_comm]
  · simp [hflags]
  · simp [File.Opened]
  · simp [File.Asked, hflags]
  · have := h.le_maxnconn
    dsimp only
    omega

theorem Ok.check (h : w.Ok maxnconn nfiles) (t : Ready) (i : Nat) : (check t w i).Ok maxnconn nfiles := by
  unfold Web.check
  cases hi : w.file[i]? with
  | none => exact h
  | some f =>
    dsimp only
    cases hflags : f.flags with
    | none | done => exact h
    | connecting =>
      dsimp only
      split
      · exact h.established hi hflags
      · exact h
    | reading =>
      dsimp only
      split
      swap
      · exact h
      split
      · exact h.ended hi hflags
      · have hreceived := h.received hi hflags (f.left - t.n f.fd)
        rwa [hflags] at hreceived

theorem Ok.foldl_check (h : w.Ok maxnconn nfiles) (is : List Nat) :
    (is.foldl (Web.check t) w).Ok maxnconn nfiles := by
  induction is generalizing w with
  | nil => exact h
  | cons i is ih => exact ih (h.check t i)

theorem Ok.turn (h : w.Ok maxnconn nfiles) (t : Ready) : (w.turn t).Ok maxnconn nfiles := h.foldl_check _

theorem Ok.exists_unconnected (h : w.Ok maxnconn nfiles) (hsome : 0 < w.nlefttoconn) :
    ∃ i f, w.file.findIdx? (·.flags = .none) = some i ∧ w.file[i]? = some f ∧ f.flags = .none := by
  cases hfind : w.file.findIdx? (·.flags = .none) with
  | none =>
    have hnone := List.findIdx?_eq_none_iff.1 hfind
    have hzero : (w.file.map File.toConn).sum = 0 :=
      sum_map_eq_zero_iff.2 fun f hf => if_neg (of_decide_eq_false (hnone f hf))
    have := h.nlefttoconn
    omega
  | some i =>
    obtain ⟨hil, hflags, _⟩ := List.findIdx?_eq_some_iff_getElem.1 hfind
    exact ⟨i, _, rfl, List.getElem?_eq_getElem hil, of_decide_eq_true hflags⟩

/-- **A connection is started** for a file that has none, if the set has a bit for it. -/
theorem Ok.connectNext (h : w.Ok maxnconn nfiles) (now : Bool) (hmore : w.nconn < maxnconn ∧ 0 < w.nlefttoconn)
    (hfresh : ∀ f ∈ w.file, f.Opened → f.fd ≠ fd) :
    (w.connectNext fd now = .error .fdSet ∧ FD_SETSIZE ≤ fd) ∨
      ∃ w' i f f', w.connectNext fd now = .ok w' ∧ w'.Ok maxnconn nfiles ∧ w.file[i]? = some f ∧ f.flags = .none ∧
        w'.file = w.file.set i f' ∧ f'.Opened ∧ f'.left = f.left := by
  have hfresh' : fd ∉ w.rset := fun hr => by
    obtain ⟨f, hf, hopened, hfd⟩ := (h.rset fd).1 hr
    exact hfresh f hf hopened hfd
  obtain ⟨i, f, hfind, hi, hflags⟩ := h.exists_unconnected hmore.2
  unfold Web.connectNext Web.startConnect
  rw [hfind]
  dsimp only
  rw [hi]
  dsimp only
  by_cases hfits : fd < FD_SETSIZE
  · rw [if_pos hfits]
    right
    cases now with
    | true =>
      have hok := h.at_once hi hflags hmore.1 hfresh'
      exact ⟨_, i, _, _, rfl, hok, hi, hflags, rfl, .inr rfl, rfl⟩
    | false =>
      have hok := h.in_progress hi hflags hmore.1 hfresh'
      exact ⟨_, i, _, _, rfl, hok, hi, hflags, rfl, .inl rfl, rfl⟩
  · rw [if_neg hfits]
    exact .inl ⟨rfl, by omega⟩

/-! ## A turn, file by file -/

/-- What a turn makes of a file. -/
def File.after (t : Ready) (f : File) : File :=
  match f.flags with
  | .none | .done => f
  | .connecting => if f.fd ∈ t.rs ∨ f.fd ∈ t.ws then { f with flags := .reading } else f
  | .reading =>
    if f.fd ∈ t.rs then
      if t.n f.fd = 0 then { f with flags := .done } else { f with left := f.left - t.n f.fd }
    else f

theorem getElem?_file_check : (check t w i).file[j]? = if j = i then w.file[j]?.map (File.after t) else w.file[j]? := by
  unfold check
  cases hi : w.file[i]? with
  | none =>
    dsimp only
    split
    · rename_i hji
      rw [hji, hi]
      rfl
    · rfl
  | some f =>
    have hset : ∀ f' : File, f.after t = f' →
        (w.file.set i f')[j]? = if j = i then w.file[j]?.map (File.after t) else w.file[j]? := by
      rintro f' rfl
      by_cases hji : j = i
      · subst hji
        rw [List.getElem?_set_self (List.getElem?_eq_some_iff.1 hi).1, if_pos rfl, hi]
        rfl
      · rw [List.getElem?_set_ne (Ne.symm hji), if_neg hji]
    have hkeep : f.after t = f → w.file[j]? = if j = i then w.file[j]?.map (File.after t) else w.file[j]? := by
      intro hf
      split
      · rename_i hji
        rw [hji, hi, Option.map_some, hf]
      · rfl
    obtain ⟨fd, flags, left⟩ := f
    dsimp only
    cases flags with
    | none | done => exact hkeep rfl
    | connecting =>
      dsimp only
      split
      · rename_i hready
        exact hset _ (if_pos hready)
      · rename_i hready
        exact hkeep (if_neg hready)
    | reading =>
      dsimp only
      split
      · rename_i hready
        split
        · rename_i hend
          exact hset _ ((if_pos hready).trans (if_pos hend))
        · rename_i hsome
          exact hset _ ((if_pos hready).trans (if_neg hsome))
      · rename_i hready
        exact hkeep (if_neg hready)

/-- **A turn changes every file on its own.** -/
theorem turn_file : (w.turn t).file = w.file.map (File.after t) := by
  have hfold : ∀ (n j : Nat), ((List.range n).foldl (check t) w).file[j]? =
      if j < n then w.file[j]?.map (File.after t) else w.file[j]? := by
    intro n j
    induction n with
    | zero => rfl
    | succ n ih =>
      rw [List.range_succ, List.foldl_append, List.foldl_cons, List.foldl_nil, getElem?_file_check, ih]
      by_cases hjn : j = n
      · rw [if_pos hjn, if_neg (by omega), if_pos (by omega)]
      · rw [if_neg hjn]
        split
        · rw [if_pos (by omega)]
        · rw [if_neg (by omega)]
  refine List.ext_getElem? fun j => ?_
  unfold Web.turn
  rw [hfold, List.getElem?_map]
  split
  · rfl
  · rename_i hj
    rw [List.getElem?_eq_none (by omega)]
    rfl

/-! ## The end -/

/-- How much is left to do for a file. -/
def File.cost (f : File) : Nat :=
  match f.flags with
  | .none => f.left + 3
  | .connecting => f.left + 2
  | .reading => f.left + 1
  | .done => 0

def cost (w : Web) : Nat := (w.file.map File.cost).sum

theorem cost_after_le : (f.after t).cost ≤ f.cost := by
  obtain ⟨fd, flags, left⟩ := f
  cases flags with
  | none | done => exact le_refl _
  | connecting =>
    unfold File.after
    dsimp only
    split
    · exact Nat.le_succ _
    · exact le_refl _
  | reading =>
    unfold File.after
    dsimp only
    split
    · split
      · exact Nat.zero_le _
      · exact Nat.succ_le_succ (Nat.sub_le _ _)
    · exact le_refl _

theorem cost_after_lt (hopened : f.Opened) (hready : f.fd ∈ t.rs ∨ f.flags = .connecting ∧ f.fd ∈ t.ws)
    (hread : f.flags = .reading → f.fd ∈ t.rs → t.n f.fd ≤ f.left) : (f.after t).cost < f.cost := by
  obtain ⟨fd, flags, left⟩ := f
  cases flags with
  | none | done => rcases hopened with h | h <;> cases h
  | connecting =>
    unfold File.after
    dsimp only
    rw [if_pos (hready.imp_right And.right)]
    exact Nat.lt_succ_self _
  | reading =>
    have hrs : fd ∈ t.rs := hready.resolve_right fun h => by cases h.1
    have hle : t.n fd ≤ left := hread rfl hrs
    unfold File.after
    dsimp only
    rw [if_pos hrs]
    split
    · exact Nat.succ_pos _
    · change left - t.n fd + 1 < left + 1
      omega

/-- **Every turn does something.** -/
theorem Ok.cost_turn (h : w.Ok maxnconn nfiles) (hready : w.Selects t) : (w.turn t).cost < w.cost := by
  obtain ⟨f, hf, hlt⟩ : ∃ f ∈ w.file, (f.after t).cost < f.cost := by
    rcases hready.some with ⟨fd, hrs⟩ | ⟨fd, hws⟩
    · obtain ⟨f, hf, hopened, rfl⟩ := (h.rset _).1 (hready.rs _ hrs).1
      exact ⟨f, hf, cost_after_lt hopened (.inl hrs) fun hflags hrs => (hready.read f hf hflags hrs).1⟩
    · obtain ⟨f, hf, hflags, rfl⟩ := (h.wset _).1 (hready.ws _ hws).1
      exact ⟨f, hf, cost_after_lt (.inl hflags) (.inr ⟨hflags, hws⟩) fun hflags hrs =>
        (hready.read f hf hflags hrs).1⟩
  unfold cost
  rw [turn_file, List.map_map]
  exact List.sum_lt_sum _ _ (fun f _ => cost_after_le) ⟨f, hf, hlt⟩

/-- How long the program can go on. -/
def work (w : Web) : Nat := w.cost + if w.ended then 0 else 1

theorem ended_foldl (is : List Nat) : (is.foldl (check t) w).ended = w.ended := by
  induction is generalizing w with
  | nil => rfl
  | cons i is ih =>
    rw [List.foldl_cons, ih]
    unfold check
    split
    · rfl
    · split
      · rfl
      · rfl
      · split <;> rfl
      · split
        · split <;> rfl
        · rfl

theorem ended_connectNext (hok : w.connectNext fd now = .ok w') : w'.ended = w.ended := by
  unfold connectNext startConnect at hok
  split at hok
  · cases hok
  split at hok
  · cases hok
  split at hok
  · cases hok
  rename_i hstart
  cases hok
  split at hstart
  · cases hstart
    split <;> rfl
  · cases hstart

theorem Ok.step (h : w.Ok maxnconn nfiles) {a : Act} (hst : Step maxnconn w a w') :
    w'.Ok maxnconn nfiles ∧ w'.work < w.work := by
  cases hst with
  | @connect fd now _ _ hleft hmore hnonneg hfresh hok =>
    have hended := ended_connectNext hok
    rcases h.connectNext now hmore hfresh with ⟨herr, _⟩ | ⟨w'', i, f, f', hok', hw, hi, hnone, hfile, hf', hsame⟩
    · cases herr.symm.trans hok
    · cases hok'.symm.trans hok
      refine ⟨hw, ?_⟩
      have hsum := sum_map_set File.cost hi f'
      have hcost : f'.cost < f.cost := by
        rcases hf' with hf' | hf' <;> simp [File.cost, hnone, hf', hsame]
      unfold work cost
      rw [hfile, hended]
      omega
  | @turn t _ _ _ hready =>
    have hended : (w.turn t).ended = w.ended := ended_foldl _
    refine ⟨h.turn _, ?_⟩
    unfold work
    rw [hended]
    exact Nat.add_lt_add_right (h.cost_turn hready) _
  | fail hended _ _ =>
    refine ⟨{ h with }, ?_⟩
    unfold work
    rw [hended]
    exact Nat.lt_succ_self _

/-- A file that is done was read to its end. -/
def Emptied (w : Web) : Prop := ∀ f ∈ w.file, f.flags = .done → f.left = 0

theorem Emptied.turn (h : w.Emptied) (hready : w.Selects t) : (w.turn t).Emptied := by
  intro f hf
  rw [turn_file] at hf
  obtain ⟨⟨fd, flags, left⟩, hg, rfl⟩ := List.mem_map.1 hf
  cases flags with
  | none => exact fun hdone => by cases hdone
  | done => exact h _ hg
  | connecting =>
    unfold File.after
    dsimp only
    split <;> exact fun hdone => by cases hdone
  | reading =>
    unfold File.after
    dsimp only
    split
    · rename_i hrs
      split
      · rename_i hend
        exact fun _ => (hready.read _ hg rfl hrs).2.2 hend
      · exact fun hdone => by cases hdone
    · exact fun hdone => by cases hdone

theorem Ok.emptied_step (h : w.Ok maxnconn nfiles) {a : Act} (he : w.Emptied) (hst : Step maxnconn w a w') :
    w'.Emptied := by
  cases hst with
  | fail => exact he
  | @connect fd now _ _ hleft hmore hnonneg hfresh hok =>
    rcases h.connectNext now hmore hfresh with ⟨herr, _⟩ | ⟨w'', i, f, f', hok', hw, hi, hnone, hfile, hf', hsame⟩
    · cases herr.symm.trans hok
    · cases hok'.symm.trans hok
      intro g hg hdone
      rw [hfile] at hg
      rcases List.mem_or_eq_of_mem_set hg with hg | rfl
      · exact he g hg hdone
      · rcases hf' with hf' | hf' <;> cases hf'.symm.trans hdone
  | turn _ _ _ hready => exact he.turn hready

theorem Ok.reachable (h : (web maxnconn replies).Reachable w) :
    w.Ok maxnconn (min replies.length MAXFILES) ∧ w.Emptied := by
  refine h.invariant (P := fun w => w.Ok maxnconn (min replies.length MAXFILES) ∧ w.Emptied) ?_ ?_
  · rintro _ rfl
    refine ⟨.start, fun f hf hdone => ?_⟩
    cases (flags_start hf).symm.trans hdone
  · rintro w a w' _ ⟨hok, hemptied⟩ hst
    exact ⟨(hok.step hst).1, hok.emptied_step hemptied hst⟩

/-- A file that is not read yet has a connection, or is to get one. -/
theorem Ok.nlefttoread_eq (h : w.Ok maxnconn nfiles) : w.nlefttoread = w.nconn + w.nlefttoconn := by
  have hsum : (w.file.map File.toRead).sum = (w.file.map File.conns).sum + (w.file.map File.toConn).sum := by
    rw [← List.sum_map_add]
    refine congrArg (fun g => (w.file.map g).sum) (funext fun f => ?_)
    obtain ⟨fd, flags, left⟩ := f
    cases flags <;> rfl
  rw [h.nlefttoread, h.nconn, h.nlefttoconn, hsum]
  exact Int.natCast_add _ _

theorem Ok.all_done (h : w.Ok maxnconn nfiles) (hend : w.nlefttoread ≤ 0) (hf : f ∈ w.file) : f.flags = .done := by
  have hsum := h.nlefttoread
  have hread : f.toRead = 0 := sum_map_eq_zero_iff.1 (show (w.file.map File.toRead).sum = 0 by omega) f hf
  by_contra hnot
  rw [File.toRead, if_neg hnot] at hread
  cases hread

theorem Ok.exists_open (h : w.Ok maxnconn nfiles) (hpos : 0 < w.nconn) : ∃ f ∈ w.file, f.Opened := by
  by_contra hnone
  have hzero : (w.file.map File.conns).sum = 0 := by
    refine sum_map_eq_zero_iff.2 fun f hf => ?_
    have hnot : ¬ f.Opened := fun hf' => hnone ⟨f, hf, hf'⟩
    obtain ⟨fd, flags, left⟩ := f
    cases flags with
    | none | done => rfl
    | connecting => exact absurd (.inl rfl) hnot
    | reading => exact absurd (.inr rfl) hnot
  have := h.nconn
  omega

/-- A descriptor for which the sets have a bit, and which no file has. -/
theorem exists_fresh (hlength : w.file.length ≤ MAXFILES) :
    ∃ fd : Int, 0 ≤ fd ∧ fd < FD_SETSIZE ∧ ∀ f ∈ w.file, f.fd ≠ fd := by
  have hcard : (w.file.map File.fd).toFinset.card <
      ((Finset.range FD_SETSIZE).image fun n : Nat => (n : Int)).card := by
    have hle := List.toFinset_card_le (w.file.map File.fd)
    rw [List.length_map] at hle
    rw [Finset.card_image_of_injective _ Nat.cast_injective, Finset.card_range]
    unfold MAXFILES at hlength
    unfold FD_SETSIZE
    omega
  obtain ⟨fd, hfd, hnot⟩ := Finset.exists_mem_notMem_of_card_lt_card hcard
  obtain ⟨n, hn, rfl⟩ := Finset.mem_image.1 hfd
  refine ⟨n, Int.natCast_nonneg n, Int.ofNat_lt.2 (Finset.mem_range.1 hn), fun f hf he => hnot ?_⟩
  exact List.mem_toFinset.2 (List.mem_map.2 ⟨f, hf, he⟩)

/-- **The program goes on** until all is read. -/
theorem Ok.exists_step (h : w.Ok maxnconn nfiles) (hfiles : nfiles ≤ MAXFILES) (hmax : 0 < maxnconn)
    (hended : w.ended = false) (hleft : 0 < w.nlefttoread) : ∃ a w', Step maxnconn w a w' := by
  by_cases hmore : w.nconn < maxnconn ∧ 0 < w.nlefttoconn
  · obtain ⟨fd, h0, hfits, hfresh⟩ := exists_fresh (h.length.le.trans hfiles)
    have hfresh' : ∀ f ∈ w.file, f.Opened → f.fd ≠ fd := fun f hf _ => hfresh f hf
    rcases h.connectNext false hmore hfresh' with ⟨_, hlarge⟩ | ⟨w', _, _, _, hok, _⟩
    · omega
    · exact ⟨_, w', .connect hended hleft hmore h0 hfresh' hok⟩
  · have heq := h.nlefttoread_eq
    obtain ⟨f, hf, hopened⟩ := h.exists_open (by omega)
    obtain ⟨i, hi⟩ := List.mem_iff_getElem?.1 hf
    have hrset : f.fd ∈ w.rset := (h.rset _).2 ⟨f, hf, hopened, rfl⟩
    have hready : w.Selects ⟨{f.fd}, ∅, fun _ => min f.left MAXLINE⟩ := by
      refine ⟨fun fd hfd => ?_, fun fd hfd => absurd hfd (Finset.notMem_empty fd),
        .inl (Finset.singleton_nonempty _), ?_⟩
      · cases Finset.mem_singleton.1 hfd
        exact ⟨hrset, Int.lt_add_one_of_le (h.maxfd _ hrset)⟩
      · -- no other file has this descriptor
        intro g hg hflags hfd
        obtain ⟨j, hj⟩ := List.mem_iff_getElem?.1 hg
        cases h.inj j i g f hj hi (.inr hflags) hopened (Finset.mem_singleton.1 hfd)
        cases hi.symm.trans hj
        refine ⟨min_le_left _ _, min_le_right _ _, fun hzero => ?_⟩
        unfold MAXLINE at hzero
        dsimp only at hzero
        omega
    exact ⟨_, _, .turn hended hleft hmore hready⟩

theorem work_start : (start replies).work = ((replies.take MAXFILES).map (· + 3)).sum + 1 := by
  unfold work cost Web.start
  rw [List.map_map]
  rfl

end Web

open Web in
/-- **Every file is fetched.** In every state there are at most `maxnconn` connections, the sets have the descriptors of
the connections that are open and of those that are being started, and a file is found when one is to be connected. At
the end every file was asked for once, and was read to its end, and no connection is left open. -/
theorem web_fetches {maxnconn : Int} {replies : List Nat} {w : Web} (h : (web maxnconn replies).Reachable w) :
    w.nconn ≤ max maxnconn 0 ∧ w.nconn = (w.file.map File.conns).sum ∧
      (∀ fd, fd ∈ w.rset ↔ ∃ f ∈ w.file, f.Opened ∧ f.fd = fd) ∧
      (∀ fd, fd ∈ w.wset ↔ ∃ f ∈ w.file, f.flags = .connecting ∧ f.fd = fd) ∧
      (0 < w.nlefttoconn → ∀ fd now, w.connectNext fd now ≠ .error .nothingFound) ∧
      (w.nlefttoread ≤ 0 → w.asked.Perm (List.range (min replies.length MAXFILES)) ∧
        (∀ f ∈ w.file, f.flags = .done ∧ f.left = 0) ∧ w.rset = ∅) := by
  obtain ⟨hok, hemptied⟩ := Ok.reachable h
  refine ⟨hok.le_maxnconn, hok.nconn, hok.rset, hok.wset, fun hsome fd now => ?_, fun hend => ⟨?_, ?_, ?_⟩⟩
  · obtain ⟨i, f, hfind, hi, _⟩ := hok.exists_unconnected hsome
    unfold connectNext startConnect
    rw [hfind]
    dsimp only
    rw [hi]
    by_cases hfits : fd < FD_SETSIZE <;> simp [hfits]
  · refine (List.perm_ext_iff_of_nodup hok.asked List.nodup_range).2 fun i => ?_
    rw [hok.mem_asked, List.mem_range, ← hok.length]
    constructor
    · rintro ⟨f, hi, _⟩
      exact (List.getElem?_eq_some_iff.1 hi).1
    · intro hi
      exact ⟨_, List.getElem?_eq_getElem hi, .inr (hok.all_done hend (List.getElem_mem hi))⟩
  · exact fun f hf => ⟨hok.all_done hend hf, hemptied f hf (hok.all_done hend hf)⟩
  · refine Finset.eq_empty_of_forall_notMem fun fd hfd => ?_
    obtain ⟨f, hf, hopened, _⟩ := (hok.rset fd).1 hfd
    have hdone := hok.all_done hend hf
    rcases hopened with h | h <;> cases h.symm.trans hdone

namespace Web

/-- A run with two files over two connections, until the second is done and three bytes of the first are to come. -/
theorem reachable_two :
    (web 2 [5, 1]).Reachable ⟨[⟨3, .reading, 3⟩, ⟨4, .done, 0⟩], 1, 0, 1, 4, {3}, ∅, [1, 0], false⟩ := by
  let w : Web := ⟨[⟨3, .reading, 3⟩, ⟨4, .done, 0⟩], 1, 0, 1, 4, {3}, ∅, [1, 0], false⟩
  let w₁ : Web := ⟨[⟨3, .connecting, 5⟩, ⟨0, .none, 1⟩], 1, 1, 2, 3, {3}, {3}, [], false⟩
  let w₂ : Web := ⟨[⟨3, .connecting, 5⟩, ⟨4, .reading, 1⟩], 2, 0, 2, 4, {4, 3}, {3}, [1], false⟩
  let w₃ : Web := ⟨[⟨3, .reading, 5⟩, ⟨4, .reading, 0⟩], 2, 0, 2, 4, {4, 3}, ∅, [1, 0], false⟩
  have h₀ : (web 2 [5, 1]).Reachable (.start [5, 1]) := .init rfl
  have h₁ : Step 2 (.start [5, 1]) (.connect 3 false) w₁ :=
    .connect rfl (by decide) (by decide) (by decide) (by simp [Web.start, File.Opened, MAXFILES]) rfl
  have h₂ : Step 2 w₁ (.connect 4 true) w₂ :=
    .connect rfl (by decide) (by decide) (by decide) (by simp [w₁, File.Opened]) rfl
  have h₃ : Step 2 w₂ (.turn ⟨{4}, {3}, fun _ => 1⟩) w₃ := by
    refine Step.turn (w := w₂) rfl (by decide) (by decide) ⟨by simp [w₂], by simp [w₂], .inl ⟨4, by simp⟩, ?_⟩
    simp [w₂, MAXLINE]
  have h₄ : Step 2 w₃ (.turn ⟨{4, 3}, ∅, fun fd => if fd = 3 then 2 else 0⟩) w := by
    refine Step.turn (w := w₃) rfl (by decide) (by decide) ⟨by simp [w₃], by simp, .inl ⟨3, by simp⟩, ?_⟩
    simp [w₃, MAXLINE]
  exact (((h₀.step h₁).step h₂).step h₃).step h₄

end Web

open Web in
/-- Two files over two connections. The second is done, and of the first, which was asked for later, three bytes are to
come. -/
theorem web_fetches_two :
    let w : Web := ⟨[⟨3, .reading, 3⟩, ⟨4, .done, 0⟩], 1, 0, 1, 4, {3}, ∅, [1, 0], false⟩
    (web 2 [5, 1]).Reachable w ∧ w.nconn = (w.file.map File.conns).sum ∧
      (∀ fd, fd ∈ w.rset ↔ ∃ f ∈ w.file, f.Opened ∧ f.fd = fd) ∧
      ∀ fd, fd ∈ w.wset ↔ ∃ f ∈ w.file, f.flags = .connecting ∧ f.fd = fd := by
  intro w
  have hreachable : (web 2 [5, 1]).Reachable w := reachable_two
  obtain ⟨_, hnconn, hrset, hwset, _⟩ := web_fetches hreachable
  exact ⟨hreachable, hnconn, hrset, hwset⟩

open Web in
/-- **The program ends** after a number of steps that the replies bound, and when it cannot go on, all is read, or a
call has failed: so it is if it may open a connection, and only then. -/
theorem web_finishes {maxnconn : Int} {replies : List Nat} :
    (∀ as w', (web maxnconn replies).Run (.start replies) as w' →
      as.length ≤ ((replies.take MAXFILES).map (· + 3)).sum + 1) ∧
    ((∀ w, (web maxnconn replies).Reachable w → (∀ a w', ¬ Step maxnconn w a w') → w.nlefttoread ≤ 0 ∨ w.ended) ↔
      0 < maxnconn ∨ replies = []) := by
  refine ⟨fun as w' hrun => ?_, fun h => ?_, fun h w hw hstuck => ?_⟩
  · have hlength := hrun.length_add_le (P := Ok maxnconn (min replies.length MAXFILES)) (μ := work)
      (fun _ _ _ h hst => h.step hst) .start
    rw [work_start] at hlength
    omega
  · -- with no connection at all, the first call of `Select` waits for ever
    by_contra hnot
    obtain ⟨hmax, hne⟩ := not_or.1 hnot
    have hwaits : ∀ t, ¬ (start replies).Selects t := by
      intro t hready
      rcases hready.some with ⟨fd, hfd⟩ | ⟨fd, hfd⟩
      · exact absurd (hready.rs fd hfd).1 (Finset.notMem_empty fd)
      · exact absurd (hready.ws fd hfd).1 (Finset.notMem_empty fd)
    have hstuck : ∀ a w', ¬ Step maxnconn (.start replies) a w' := by
      intro a w' hst
      cases hst with
      | connect _ _ hmore => exact hmax hmore.1
      | turn _ _ _ hready => exact hwaits _ hready
      | fail _ _ hcall =>
        rcases hcall with hmore | ⟨t, hready⟩
        · exact hmax hmore.1
        · exact hwaits t hready
    have hend := (h _ (.init rfl) hstuck).resolve_right Bool.noConfusion
    have hpos : 0 < replies.length := List.length_pos_iff.2 hne
    change ((min replies.length MAXFILES : Nat) : Int) ≤ 0 at hend
    unfold MAXFILES at hend
    omega
  · obtain ⟨hok, _⟩ := Ok.reachable hw
    rcases h with hmax | rfl
    · by_contra hleft
      obtain ⟨hread, hended⟩ := not_or.1 hleft
      obtain ⟨a, w', hst⟩ := hok.exists_step (min_le_right _ _) hmax (Bool.eq_false_iff.2 hended) (by omega)
      exact hstuck a w' hst
    · have hnil : w.file = [] := List.length_eq_zero_iff.1 hok.length
      rw [hok.nlefttoread, hnil]
      exact .inl (le_refl _)

open Web in
/-- The two files read to their ends: the program cannot go on, and no call has failed. -/
theorem web_finishes_two : ∃ w, (web 2 [5, 1]).Reachable w ∧ (∀ a w', ¬ Step 2 w a w') ∧ w.ended = false ∧
    w.nlefttoread ≤ 0 ∧ w.asked = [1, 0] := by
  let w₁ : Web := ⟨[⟨3, .reading, 3⟩, ⟨4, .done, 0⟩], 1, 0, 1, 4, {3}, ∅, [1, 0], false⟩
  let w₂ : Web := ⟨[⟨3, .reading, 0⟩, ⟨4, .done, 0⟩], 1, 0, 1, 4, {3}, ∅, [1, 0], false⟩
  let w₃ : Web := ⟨[⟨3, .done, 0⟩, ⟨4, .done, 0⟩], 0, 0, 0, 4, ∅, ∅, [1, 0], false⟩
  have h₁ : (web 2 [5, 1]).Reachable w₁ := reachable_two
  have h₂ : Step 2 w₁ (.turn ⟨{3}, ∅, fun _ => 3⟩) w₂ := by
    refine Step.turn (w := w₁) rfl (by decide) (by decide) ⟨by simp [w₁], by simp, .inl ⟨3, by simp⟩, ?_⟩
    simp [w₁, MAXLINE]
  have h₃ : Step 2 w₂ (.turn ⟨{3}, ∅, fun _ => 0⟩) w₃ := by
    refine Step.turn (w := w₂) rfl (by decide) (by decide) ⟨by simp [w₂], by simp, .inl ⟨3, by simp⟩, ?_⟩
    simp [w₂, MAXLINE]
  have hreachable : (web 2 [5, 1]).Reachable w₃ := (h₁.step h₂).step h₃
  have hstuck : ∀ a w', ¬ Step 2 w₃ a w' := by
    intro a w' hst
    cases hst <;> contradiction
  have hend := web_finishes.2.2 (.inl (by decide)) w₃ hreachable hstuck
  exact ⟨w₃, hreachable, hstuck, rfl, hend.resolve_right Bool.noConfusion, rfl⟩

end IntroNP.Unp
