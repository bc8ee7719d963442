import Mathlib.Data.List.Nodup
import Mathlib.Data.List.Perm.Subperm

/-!
# Breadth-first search

A search of a graph with labelled edges. The queue holds nodes with the labels of a walk that leads there; a node is
marked when it is put in the queue. Since nodes leave the queue in the order in which they were marked, the marks are
the nodes that were taken out followed by those in the queue, and the lengths of their walks do not decrease.

- `push_spec`: what one node puts in the queue;
- `Inv.step`: what a turn preserves;
- `Inv.walk_bound`: a walk that is not accounted for is longer than what is first in the queue;
- `bfs_start`: a search of a finite graph ends with a shortest walk to a goal, if there is any.
-/

namespace IntroNP.Bfs

variable {α β : Type}

/-- The labels of a walk from `start`, along the edges of `R`. -/
inductive Walk (R : α → β → α → Prop) (start : α) : List β → α → Prop
  | nil : Walk R start [] start
  | snoc {p : List β} {b c : α} {d : β} (hp : Walk R start p b) (hd : R b d c) : Walk R start (p ++ [d]) c

/-- The walk leads to a goal, and no other that does is shorter. -/
structure Shortest (R : α → β → α → Prop) (goal : α → Prop) (start : α) (p : List β) : Prop where
  walk : ∃ b, Walk R start p b ∧ goal b
  least : ∀ p' b, Walk R start p' b → goal b → p.length ≤ p'.length

/-- What holds between two turns; `done` are the nodes that were taken out of the queue. -/
structure Inv (R : α → β → α → Prop) (goal : α → Bool) (start : α) (done queue : List (α × List β))
    (visited : List α) : Prop where
  marks : visited = (done ++ queue).map Prod.fst
  nodup : visited.Nodup
  root : (start, []) ∈ done ++ queue
  walk : ∀ e ∈ done ++ queue, Walk R start e.2 e.1
  sorted : (done ++ queue).Pairwise fun e f => e.2.length ≤ f.2.length
  level : ∀ e ∈ done ++ queue, ∀ f ∈ queue, e.2.length ≤ f.2.length + 1
  closed : ∀ e ∈ done, goal e.1 = false ∧
    ∀ d c, R e.1 d c → ∃ f ∈ done ++ queue, f.1 = c ∧ f.2.length ≤ e.2.length + 1

variable {R : α → β → α → Prop} {goal : α → Bool} {start b : α} {p : List β} {done queue : List (α × List β)}
  {visited : List α}

/-! ## Shortest walks -/

/-- At the start, the queue has the start. -/
theorem Inv.init : Inv R goal start [] [(start, [])] [start] := by
  refine ⟨rfl, List.nodup_singleton _, by simp, ?_, by simp, by simp, by simp⟩
  intro e he
  rw [List.mem_singleton.1 he]
  exact .nil

/-- What is first in the queue has the shortest walk there. -/
theorem Inv.head_le (h : Inv R goal start done ((b, p) :: queue) visited) :
    ∀ f ∈ (b, p) :: queue, p.length ≤ f.2.length := by
  intro f hf
  rcases List.mem_cons.1 hf with rfl | hf
  · exact Nat.le_refl _
  · have hqueue := (List.pairwise_append.1 h.sorted).2.1
    exact (List.pairwise_cons.1 hqueue).1 f hf

/-- **Walks**: the end of a walk is marked by a walk that is not longer, or something in the queue is shorter. -/
theorem Inv.walk_bound {p' : List β} {c : α} (h : Inv R goal start done queue visited) (hw : Walk R start p' c) :
    (∃ e ∈ done ++ queue, e.1 = c ∧ e.2.length ≤ p'.length) ∨ ∃ f ∈ queue, f.2.length < p'.length := by
  induction hw with
  | nil => exact .inl ⟨_, h.root, rfl, Nat.le_refl _⟩
  | @snoc p' b c d hp hd ih =>
    rw [List.length_append, List.length_singleton]
    rcases ih with ⟨e, he, rfl, hle⟩ | ⟨f, hf, hlt⟩
    · rcases List.mem_append.1 he with he | he
      · obtain ⟨f, hf, hfc, hfle⟩ := (h.closed e he).2 d c hd
        exact .inl ⟨f, hf, hfc, by omega⟩
      · exact .inr ⟨e, he, by omega⟩
    · exact .inr ⟨f, hf, by omega⟩

/-- A goal at the head of the queue has a shortest walk. -/
theorem Inv.shortest (h : Inv R goal start done ((b, p) :: queue) visited) (hgoal : goal b = true) :
    Shortest R (goal · = true) start p := by
  refine ⟨⟨b, h.walk (b, p) (by simp), hgoal⟩, fun p' c hw hc => ?_⟩
  rcases h.walk_bound hw with ⟨e, he, rfl, hle⟩ | ⟨f, hf, hlt⟩
  · rcases List.mem_append.1 he with he | he
    · rw [(h.closed e he).1] at hc
      cases hc
    · exact Nat.le_trans (h.head_le e he) hle
  · exact Nat.le_trans (h.head_le f hf) (Nat.le_of_lt hlt)

/-- With an empty queue, no goal is left. -/
theorem Inv.no_goal (h : Inv R goal start done [] visited) {p' : List β} {c : α} (hw : Walk R start p' c) :
    goal c = false := by
  rcases h.walk_bound hw with ⟨e, he, rfl, -⟩ | ⟨f, hf, -⟩
  · rw [List.append_nil] at he
    exact (h.closed e he).1
  · cases hf

/-! ## The search -/

variable [DecidableEq α] {succ : α → List (β × α)}

/-- The unmarked ends of some edges are put in the queue, and marked. -/
def push (p : List β) : List (β × α) → List (α × List β) → List α → List (α × List β) × List α
  | [], queue, visited => (queue, visited)
  | (d, c) :: edges, queue, visited =>
    if c ∈ visited then push p edges queue visited
    else push p edges (queue ++ [(c, p ++ [d])]) (visited ++ [c])

/-- The search, for a number of turns: `none` if they are not enough, else the labels of the walk that it finds. -/
def bfs (succ : α → List (β × α)) (goal : α → Bool) : Nat → List (α × List β) → List α → Option (Option (List β))
  | 0, _, _ => none
  | _ + 1, [], _ => some none
  | turns + 1, (b, p) :: queue, visited =>
    if goal b then some (some p)
    else bfs succ goal turns (push p (succ b) queue visited).1 (push p (succ b) queue visited).2

/-- **What is pushed**: new nodes, by one label more, so that all ends of the edges are marked. -/
theorem push_spec (edges : List (β × α)) (queue : List (α × List β)) {visited : List α} (hnodup : visited.Nodup) :
    ∃ new : List (α × List β), push p edges queue visited = (queue ++ new, visited ++ new.map Prod.fst) ∧
      (visited ++ new.map Prod.fst).Nodup ∧ (∀ e ∈ new, ∃ d, (d, e.1) ∈ edges ∧ e.2 = p ++ [d]) ∧
      ∀ d c, (d, c) ∈ edges → c ∈ visited ++ new.map Prod.fst := by
  induction edges generalizing queue visited with
  | nil => exact ⟨[], by simp [push], by simpa using hnodup, by simp, by simp⟩
  | cons edge edges ih =>
    obtain ⟨d, c⟩ := edge
    unfold push
    split
    · rename_i hc
      obtain ⟨new, hpush, hnew, hedges, hmarked⟩ := ih queue hnodup
      refine ⟨new, hpush, hnew, fun e he => ?_, fun d' c' h => ?_⟩
      · obtain ⟨d', hd', hp⟩ := hedges e he
        exact ⟨d', List.mem_cons_of_mem _ hd', hp⟩
      · rcases List.mem_cons.1 h with h | h
        · cases h
          exact List.mem_append_left _ hc
        · exact hmarked d' c' h
    · rename_i hc
      have hnodup' : (visited ++ [c]).Nodup :=
        List.nodup_append.2 ⟨hnodup, List.nodup_singleton c, fun a ha a' ha' e => by
          rw [List.mem_singleton.1 ha'] at e
          exact hc (e ▸ ha)⟩
      obtain ⟨new, hpush, hnew, hedges, hmarked⟩ := ih (queue ++ [(c, p ++ [d])]) hnodup'
      have hmap : visited ++ [c] ++ new.map Prod.fst = visited ++ ((c, p ++ [d]) :: new).map Prod.fst := by
        rw [List.append_assoc]
        rfl
      rw [hmap] at hpush hnew hmarked
      refine ⟨(c, p ++ [d]) :: new, ?_, hnew, fun e he => ?_, fun d' c' h => ?_⟩
      · rw [hpush, List.append_assoc]
        rfl
      · rcases List.mem_cons.1 he with rfl | he
        · exact ⟨d, List.mem_cons_self, rfl⟩
        · obtain ⟨d', hd', hp⟩ := hedges e he
          exact ⟨d', List.mem_cons_of_mem _ hd', hp⟩
      · rcases List.mem_cons.1 h with h | h
        · cases h
          simp
        · exact hmarked d' c' h

/-- **One turn** takes a node that is no goal out of the queue and puts the new ends of its edges in. -/
theorem Inv.step (hsucc : ∀ d c, (d, c) ∈ succ b ↔ R b d c) (hgoal : goal b = false)
    (h : Inv R goal start done ((b, p) :: queue) visited) :
    Inv R goal start (done ++ [(b, p)]) (push p (succ b) queue visited).1 (push p (succ b) queue visited).2 := by
  obtain ⟨new, hpush, hnodup, hedges, hmarked⟩ := push_spec (p := p) (succ b) queue h.nodup
  have hall : done ++ [(b, p)] ++ (queue ++ new) = done ++ (b, p) :: queue ++ new := by simp
  have hlength : ∀ e ∈ new, e.2.length = p.length + 1 := by
    intro e he
    obtain ⟨d, -, hp⟩ := hedges e he
    rw [hp, List.length_append, List.length_singleton]
  have hhead := h.head_le
  have hold : ∀ e ∈ done ++ (b, p) :: queue, e.2.length ≤ p.length + 1 :=
    fun e he => h.level e he (b, p) List.mem_cons_self
  have hmarks : visited ++ new.map Prod.fst = (done ++ (b, p) :: queue ++ new).map Prod.fst := by
    rw [List.map_append, ← h.marks]
  rw [hpush]
  constructor
  · rw [hall, ← hmarks]
  · exact hnodup
  · rw [hall]
    exact List.mem_append_left _ h.root
  · rw [hall]
    intro e he
    rcases List.mem_append.1 he with he | he
    · exact h.walk e he
    · obtain ⟨d, hd, hp⟩ := hedges e he
      rw [hp]
      exact .snoc (h.walk (b, p) (by simp)) ((hsucc d e.1).1 hd)
  · rw [hall, List.pairwise_append]
    refine ⟨h.sorted, List.pairwise_iff_forall_sublist.2 fun {e f} hef => ?_, fun e he f hf => ?_⟩
    · exact Nat.le_of_eq ((hlength e (hef.subset (by simp))).trans (hlength f (hef.subset (by simp))).symm)
    · rw [hlength f hf]
      exact hold e he
  · rw [hall]
    have hle : ∀ f ∈ queue ++ new, p.length ≤ f.2.length := by
      intro f hf
      rcases List.mem_append.1 hf with hf | hf
      · exact hhead f (List.mem_cons_of_mem _ hf)
      · rw [hlength f hf]
        omega
    intro e he f hf
    have hf' := hle f hf
    rcases List.mem_append.1 he with he | he
    · have he' := hold e he
      omega
    · rw [hlength e he]
      omega
  · rw [hall]
    intro e he
    rcases List.mem_append.1 he with he | he
    · obtain ⟨hno, hends⟩ := h.closed e he
      refine ⟨hno, fun d c hd => ?_⟩
      obtain ⟨f, hf, hfc⟩ := hends d c hd
      exact ⟨f, List.mem_append_left _ hf, hfc⟩
    · rw [List.mem_singleton.1 he]
      refine ⟨hgoal, fun d c hd => ?_⟩
      have hc := hmarked d c ((hsucc d c).2 hd)
      rw [hmarks] at hc
      obtain ⟨f, hf, rfl⟩ := List.mem_map.1 hc
      refine ⟨f, hf, rfl, ?_⟩
      rcases List.mem_append.1 hf with hf | hf
      · exact hold f hf
      · exact Nat.le_of_eq (hlength f hf)

/-- **The search** of a graph whose nodes are in a list ends with a shortest walk to a goal, or says that there is none.
-/
theorem bfs_correct {nodes : List α} (hsucc : ∀ b d c, (d, c) ∈ succ b ↔ R b d c)
    (hnodes : ∀ p b, Walk R start p b → b ∈ nodes) :
    ∀ {turns : Nat} {done queue : List (α × List β)} {visited : List α}, Inv R goal start done queue visited →
      nodes.length < done.length + turns → ∃ r, bfs succ goal turns queue visited = some r ∧
        match r with
        | some p => Shortest R (goal · = true) start p
        | none => ∀ p b, Walk R start p b → goal b = false
  | 0, done, queue, visited, h, hturns => by
    have hdone : (done.map Prod.fst).Nodup := by
      have hmarks := h.nodup
      rw [h.marks, List.map_append] at hmarks
      exact (List.nodup_append.1 hmarks).1
    have hsub : done.map Prod.fst ⊆ nodes := by
      intro a ha
      obtain ⟨e, he, rfl⟩ := List.mem_map.1 ha
      exact hnodes e.2 e.1 (h.walk e (List.mem_append_left _ he))
    have hle := (hdone.subperm hsub).length_le
    rw [List.length_map] at hle
    omega
  | turns + 1, done, [], visited, h, _ => ⟨none, rfl, fun _ _ hw => h.no_goal hw⟩
  | turns + 1, done, (b, p) :: queue, visited, h, hturns => by
    unfold bfs
    cases hgoal : goal b with
    | true => exact ⟨some p, rfl, h.shortest hgoal⟩
    | false =>
      refine bfs_correct hsucc hnodes (h.step (hsucc b) hgoal) ?_
      rw [List.length_append, List.length_singleton]
      omega

/-- More turns change nothing. -/
theorem bfs_add {turns : Nat} {r : Option (List β)} (h : bfs succ goal turns queue visited = some r) (k : Nat) :
    bfs succ goal (turns + k) queue visited = some r := by
  induction turns generalizing queue visited with
  | zero => cases h
  | succ turns ih =>
    rw [Nat.succ_add]
    cases queue with
    | nil => exact h
    | cons e queue =>
      obtain ⟨b, p⟩ := e
      unfold bfs at h ⊢
      split
      · rename_i hgoal
        rwa [if_pos hgoal] at h
      · rename_i hgoal
        rw [if_neg hgoal] at h
        exact ih h

/-- **From the start**: there are turns enough, and then a result that does not change. -/
theorem bfs_start {nodes : List α} (hsucc : ∀ b d c, (d, c) ∈ succ b ↔ R b d c)
    (hnodes : ∀ p b, Walk R start p b → b ∈ nodes) :
    ∃ r, (∀ turns, nodes.length < turns → bfs succ goal turns [(start, [])] [start] = some r) ∧
      match r with
      | some p => Shortest R (goal · = true) start p
      | none => ∀ p b, Walk R start p b → goal b = false := by
  have hinit : Inv R goal start [] [(start, [])] [start] := .init
  have hturns : nodes.length < ([] : List (α × List β)).length + (nodes.length + 1) := by
    rw [List.length_nil]
    omega
  obtain ⟨r, hr, hcorrect⟩ := bfs_correct hsucc hnodes hinit hturns
  refine ⟨r, fun turns hlt => ?_, hcorrect⟩
  obtain ⟨k, rfl⟩ := Nat.exists_eq_add_of_le (Nat.succ_le_of_lt hlt)
  exact bfs_add hr k

end IntroNP.Bfs
