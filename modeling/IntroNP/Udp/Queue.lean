import IntroNP.Udp.Client
import IntroNP.Lib.System

/-!
# File transfer over UDP: the queue of the client

A fragment that is not acknowledged when the client has looked for a reply is to be queued in `send_failed`. The test
for it asks whether `ACKed` has no cell for the fragment, and a cell was made for every fragment before it was sent.

- `goes_of_quiet`, `goOver_quiet`, `look_spec`: the client, which never fills `send_failed`;
- `Pass`: the fragments sent in a pass over the files, and the fragments that the replies read in it acknowledge;
- `pass_queued`: nothing sent in a pass is lost exactly when every fragment sent is acknowledged in the pass.
-/

namespace IntroNP.Udp

open Std

/-- The datagram of fragment `offset` of entry `seqNum`, if there is one. -/
def datagramOf (dir : List Entry) (seqNum offset : Nat) : Option Text :=
  match dir[seqNum]? with
  | none => none
  | some f => ((split f.content)[offset]?).map fun fragment =>
      message seqNum (split f.content).length offset f.name fragment

variable {dir : List Entry} {c c' : Client} {reply msg : Option Text} {k : Pii} {r : Reply}

theorem datagram_entries (fs : Files) (s o : Nat) : datagramOf fs.entries s o = fs.datagram s o := by
  unfold datagramOf Files.datagram Files.entries
  rw [List.getElem?_map]
  cases fs.list[s]? <;> rfl

/-! ## The steps of the client -/

/-- A client that sends nothing again: before it waits for the reply to a fragment there is a cell for the fragment. -/
structure Client.Quiet (c : Client) : Prop where
  empty : c.sendFailed = ∅
  await : ∀ {s o m}, c.pc = .await s o m → (⟨s, o⟩ : Pii) ∈ c.acked
  resend : ∀ {keys}, c.pc = .resend keys → keys = []
  again : ∀ {key keys}, c.pc ≠ .awaitAgain key keys
  defined : c.pc ≠ .undefined

/-- The client neither waits nor has a key to send again. -/
def Pc.Plain : Pc → Prop
  | .head | .send .. | .resend [] | .done | .exited => True
  | .await .. | .resend (_ :: _) | .awaitAgain .. | .undefined => False

theorem quiet_plain (h : c.sendFailed = ∅) (hpc : c.pc.Plain) : c.Quiet where
  empty := h
  await h' := by
    rw [h'] at hpc
    exact hpc.elim
  resend {keys} h' := by
    rw [h'] at hpc
    cases keys with
    | nil => rfl
    | cons => exact hpc.elim
  again h' := by
    rw [h'] at hpc
    exact hpc.elim
  defined h' := by
    rw [h'] at hpc
    exact hpc.elim

/-- All that the client can do at the head of the loop over `send_failed`: the loop is over; a round is; or the next
fragment is sent again. -/
theorem goOver_resend {keys : List Pii} (hpc : c.pc = .resend keys) (h : c.goOver dir = some (c', msg)) :
    (keys = [] ∧ c.sendFailed = ∅ ∧ msg = none ∧ c' = { c with pc := .head }) ∨
    (keys = [] ∧ c.sendFailed ≠ ∅ ∧ msg = none ∧ c' = { c with pc := .resend c.sendFailed.keys }) ∨
    ∃ key keys', keys = key :: keys' ∧ msg = c.sendFailed[key]? ∧ c' = { c with pc := .awaitAgain key keys' } := by
  unfold Client.goOver at h
  rw [hpc] at h
  cases keys with
  | nil =>
    dsimp only at h
    by_cases hempty : c.sendFailed = ∅
    · rw [if_pos (ExtTreeMap.isEmpty_iff.2 hempty)] at h
      cases h
      exact .inl ⟨rfl, hempty, rfl, rfl⟩
    · rw [if_neg (fun h => hempty (ExtTreeMap.isEmpty_iff.1 h))] at h
      cases h
      exact .inr (.inl ⟨rfl, hempty, rfl, rfl⟩)
  | cons key keys =>
    cases h
    exact .inr (.inr ⟨key, keys, rfl, rfl, rfl⟩)

/-- Where the client goes on by itself it does not look for a reply. -/
theorem look_of_goOver (h : c.goOver dir = some (c', msg)) : c.look reply = none := by
  unfold Client.goOver at h
  unfold Client.look
  cases hpc : c.pc with
  | head | send | resend | done | exited | undefined => rfl
  | await | awaitAgain =>
    rw [hpc] at h
    cases h

/-- All that a quiet client can do on its own. In the outer loop: it was told to stop; the directory cannot be opened;
a pass begins. In the pass: it is over; a file cannot be opened; a file is over; a fragment is acknowledged, and passed
over; or it is sent. And there is nothing to send again. -/
inductive Goes (dir : List Entry) (c : Client) : Client → Option Text → Prop
  | stop (hpc : c.pc = .head) (hterm : c.termFlag = true) : Goes dir c { c with pc := .done } none
  | shut (hpc : c.pc = .head) (hfree : c.free = 0) : Goes dir c c none
  | opened {free : Nat} (hpc : c.pc = .head) (hterm : c.termFlag = false) (hfree : c.free = free + 1) :
      Goes dir c { c with pc := .send 0 0, free := free } none
  | finished {s o : Nat} (hpc : c.pc = .send s o) (hend : dir[s]? = none) : Goes dir c { c with pc := .resend [] } none
  | failed {s : Nat} (hpc : c.pc = .send s 0) (hf : dir[s]? ≠ none) (hfree : c.free = 0) :
      Goes dir c { c with pc := .exited } none
  | next {s o : Nat} (hpc : c.pc = .send s o) (hend : datagramOf dir s o = none) :
      Goes dir c { c with pc := .send (s + 1) 0 } none
  | passed {s o : Nat} (hpc : c.pc = .send s o) (hacked : c.acked.getD ⟨s, o⟩ 0 ≠ 0) :
      Goes dir c { c with acked := c.acked.insertIfNew ⟨s, o⟩ 0, pc := .send s (o + 1) } none
  | sent {s o : Nat} {m : Text} (hpc : c.pc = .send s o) (hzero : c.acked.getD ⟨s, o⟩ 0 = 0)
      (hm : datagramOf dir s o = some m) :
      Goes dir c { c with acked := c.acked.insertIfNew ⟨s, o⟩ 0, pc := .await s o m } (some m)
  | round (hpc : c.pc = .resend []) : Goes dir c { c with pc := .head } none

theorem goes_head (hpc : c.pc = .head) (h : c.goOver dir = some (c', msg)) : Goes dir c c' msg := by
  unfold Client.goOver at h
  rw [hpc] at h
  dsimp only at h
  by_cases hterm : c.termFlag = true
  · rw [if_pos hterm] at h
    cases h
    exact .stop hpc hterm
  rw [if_neg hterm] at h
  cases hfree : c.free with
  | zero =>
    rw [hfree] at h
    cases h
    exact .shut hpc hfree
  | succ free =>
    rw [hfree] at h
    cases h
    exact .opened hpc (Bool.not_eq_true _ ▸ hterm) hfree

theorem goes_send {s o : Nat} (hempty : c.sendFailed = ∅) (hpc : c.pc = .send s o)
    (h : c.goOver dir = some (c', msg)) : Goes dir c c' msg := by
  unfold Client.goOver at h
  rw [hpc] at h
  dsimp only at h
  cases hf : dir[s]? with
  | none =>
    have hkeys : c.sendFailed.keys = [] := by rw [hempty]; rfl
    rw [hf] at h
    dsimp only at h
    rw [hkeys] at h
    cases h
    exact .finished hpc hf
  | some f =>
    rw [hf] at h
    dsimp only at h
    by_cases hopen : o = 0 ∧ c.free = 0
    · rw [if_pos hopen] at h
      obtain ⟨rfl, hfree⟩ := hopen
      cases h
      exact .failed hpc (by simp [hf]) hfree
    rw [if_neg hopen] at h
    have hdata : datagramOf dir s o = ((split f.content)[o]?).map fun fragment =>
        message s (split f.content).length o f.name fragment := by
      unfold datagramOf
      rw [hf]
    cases hfrag : (split f.content)[o]? with
    | none =>
      rw [hfrag] at h
      cases h
      exact .next hpc (by rw [hdata, hfrag]; rfl)
    | some fragment =>
      rw [hfrag] at h
      dsimp only at h
      by_cases hacked : c.acked.getD ⟨s, o⟩ 0 = 0
      · rw [if_neg (not_not.2 hacked)] at h
        cases h
        exact .sent hpc hacked (by rw [hdata, hfrag]; rfl)
      · rw [if_pos hacked] at h
        cases h
        exact .passed hpc hacked

/-- **What a quiet client does.** -/
theorem goes_of_quiet (hq : c.Quiet) (h : c.goOver dir = some (c', msg)) : Goes dir c c' msg := by
  cases hpc : c.pc with
  | head => exact goes_head hpc h
  | send s o => exact goes_send hq.empty hpc h
  | resend keys =>
    rcases goOver_resend hpc h with ⟨rfl, _, rfl, rfl⟩ | ⟨_, hne, _, _⟩ | ⟨key, keys', hkeys, _⟩
    · exact .round hpc
    · exact absurd hq.empty hne
    · rw [hq.resend hpc] at hkeys
      cases hkeys
  | await | awaitAgain | done | exited | undefined =>
    unfold Client.goOver at h
    rw [hpc] at h
    cases h

theorem cells_insertIfNew {acked : ExtTreeMap Pii Int} {k₀ : Pii} : ∀ (k : Pii) (n : Int),
    (acked.insertIfNew k₀ 0)[k]? = some n → acked[k]? = some n ∨ n = 0 := by
  intro k n h
  rw [ExtTreeMap.getElem?_insertIfNew] at h
  split at h
  · exact .inr (Option.some.inj h).symm
  · exact .inl h

/-- The client stays quiet when it sends or moves on. -/
theorem goOver_quiet (hq : c.Quiet) (h : c.goOver dir = some (c', msg)) : c'.Quiet := by
  have hempty := hq.empty
  cases goes_of_quiet hq h with
  | shut => exact hq
  | stop | opened | finished | failed | next | passed | round => exact quiet_plain hempty trivial
  | sent =>
    refine ⟨hempty, ?_, by simp, by simp, by simp⟩
    intro s' o' m' hm'
    cases hm'
    exact ExtTreeMap.mem_insertIfNew_self

theorem mem_hear {k : Pii} {r : Reply} (h : k ∈ c.acked) : k ∈ (c.hear r).acked := by
  unfold Client.hear
  split
  · exact h
  · split
    · split
      · exact ExtTreeMap.mem_insert.2 (.inr h)
      · exact h
    · exact h

/-- What the client does when it has looked for a reply: nothing but hear it, and stop when it was told to. -/
structure LookOf (c c' : Client) (r : Reply) : Prop where
  quiet : c'.Quiet
  acked : c'.acked = (c.hear r).acked
  termFlag : c'.termFlag = (c.hear r).termFlag
  free : c'.free = c.free
  done : c'.pc = .done → c'.termFlag = true

theorem hear_sendFailed (c : Client) (r : Reply) : (c.hear r).sendFailed = c.sendFailed := by
  unfold Client.hear
  split
  · rfl
  · split
    · split <;> rfl
    · rfl

theorem hear_free (c : Client) (r : Reply) : (c.hear r).free = c.free := by
  unfold Client.hear
  split
  · rfl
  · split
    · split <;> rfl
    · rfl

theorem look_spec (hq : c.Quiet) (h : c.look reply = some c') : LookOf c c' (decomposeReply (ackbuf reply)) := by
  have hempty := hq.empty
  rw [← hear_sendFailed c (decomposeReply (ackbuf reply))] at hempty
  unfold Client.look at h
  dsimp only at h
  cases hpc : c.pc with
  | await s o m =>
    have hmem := mem_hear (r := decomposeReply (ackbuf reply)) (hq.await hpc)
    rw [hpc] at h
    dsimp only at h
    by_cases hterm : (c.hear (decomposeReply (ackbuf reply))).termFlag = true
    · rw [if_pos hterm] at h
      cases h
      exact ⟨quiet_plain hempty trivial, rfl, rfl, hear_free c _, fun _ => hterm⟩
    · rw [if_neg hterm, if_pos hmem] at h
      cases h
      exact ⟨quiet_plain hempty trivial, rfl, rfl, hear_free c _, by simp⟩
  | awaitAgain key keys => exact absurd hpc hq.again
  | head | send | resend | done | exited | undefined =>
    rw [hpc] at h
    cases h

/-! ## Acknowledgements -/

/-- The fragment that a reply acknowledges. -/
def Reply.acks (r : Reply) : Option Pii :=
  if r.buf = "ACK" then
    match r.seq, r.offset with
    | some seq, some offset => some ⟨seq, offset⟩
    | _, _ => none
  else none

/-- The fragment that is acknowledged by what `recvfrom` returned. -/
def ackOf (reply : Option Text) : Option Pii := (decomposeReply (ackbuf reply)).acks

theorem hear_acked (c : Client) (r : Reply) (k : Pii) :
    (c.hear r).acked[k]? = if r.acks = some k then some 1 else c.acked[k]? := by
  unfold Client.hear Reply.acks
  by_cases hterm : r.buf = "terminate".toList
  · rw [if_pos hterm, if_neg (by rw [hterm, if_neg (by decide)]; exact fun h => by cases h)]
  · rw [if_neg hterm]
    by_cases hack : r.buf = "ACK".toList
    · rw [if_pos hack, if_pos hack]
      cases r.seq with
      | none => rfl
      | some seq =>
        cases r.offset with
        | none => rfl
        | some offset =>
          dsimp only
          rw [ExtTreeMap.getElem?_insert]
          simp only [Std.compare_eq_iff_eq, Option.some.injEq]
    · rw [if_neg hack, if_neg hack]
      rfl

/-! ## A pass -/

/-- What the client does on its own, with the datagram that it sends; or it looks for a reply. -/
inductive Move
  | go (msg : Option Text)
  | look (reply : Option Text)

/-- The client with the entries `dir` of its directory, any number of descriptors, and any replies. -/
def clientRun (dir : List Entry) : System Client Move where
  init c := ∃ free, c = .start free
  step c e c' :=
    match e with
    | .go msg => c.goOver dir = some (c', msg)
    | .look reply => c.look reply = some c'

/-- The fragments that were sent since the pass began, each with its datagram, and the fragments that were acknowledged
since. -/
structure Pass where
  sent : List (Pii × Text)
  acks : List Pii

/-- A pass that begins. -/
def Pass.empty : Pass := ⟨[], []⟩

/-- The pass after a move of the client. The next one begins when the loop over `send_failed` is over. -/
def logPass (c : Client) (e : Move) (g : Pass) : Pass :=
  match e with
  | .go msg =>
    match c.pc, msg with
    | .send s o, some m => { g with sent := g.sent ++ [(⟨s, o⟩, m)] }
    | .resend _, _ => .empty
    | _, _ => g
  | .look reply => { g with acks := g.acks ++ (ackOf reply).toList }

/-- A fragment that was acknowledged in the pass is marked, and one that was sent in the pass is only marked when it was
acknowledged in the pass. -/
structure PassInv (c : Client) (g : Pass) : Prop where
  quiet : c.Quiet
  acks : ∀ k ∈ g.acks, c.acked[k]? = some 1
  sent : ∀ p ∈ g.sent, c.acked[p.1]? = some 1 → p.1 ∈ g.acks

variable {g g' : Pass} {e : Move}

theorem PassInv.empty (hq : c.Quiet) : PassInv c .empty := ⟨hq, by simp [Pass.empty], by simp [Pass.empty]⟩

/-- Making a cell for a fragment marks none. -/
theorem getElem?_insertIfNew_one {acked : ExtTreeMap Pii Int} {k₀ : Pii} :
    (acked.insertIfNew k₀ 0)[k]? = some (1 : Int) ↔ acked[k]? = some (1 : Int) := by
  constructor
  · intro h
    exact (cells_insertIfNew k 1 h).resolve_right (by decide)
  · exact getElem?_insertIfNew_of_some

theorem PassInv.go (h : PassInv c g) (hgo : c.goOver dir = some (c', msg)) : PassInv c' (logPass c (.go msg) g) := by
  have hq := goOver_quiet h.quiet hgo
  unfold logPass
  cases goes_of_quiet h.quiet hgo with
  | stop hpc | shut hpc | opened hpc | finished hpc | failed hpc | next hpc =>
    rw [hpc]
    exact ⟨hq, h.acks, h.sent⟩
  | passed hpc =>
    rw [hpc]
    exact ⟨hq, fun k hk => getElem?_insertIfNew_one.2 (h.acks k hk),
      fun p hp hone => h.sent p hp (getElem?_insertIfNew_one.1 hone)⟩
  | sent hpc hzero =>
    rw [hpc]
    refine ⟨hq, fun k hk => getElem?_insertIfNew_one.2 (h.acks k hk), fun p hp hone => ?_⟩
    have hone := getElem?_insertIfNew_one.1 hone
    rcases List.mem_append.1 hp with hp | hp
    · exact h.sent p hp hone
    · -- the fragment that is sent now is not marked
      rw [List.mem_singleton.1 hp] at hone
      rw [ExtTreeMap.getD_eq_getD_getElem?, hone] at hzero
      cases hzero
  | round hpc =>
    rw [hpc]
    exact .empty hq

theorem PassInv.look (h : PassInv c g) (hlook : c.look reply = some c') : PassInv c' (logPass c (.look reply) g) := by
  have hc := look_spec h.quiet hlook
  have hcell : ∀ k, c'.acked[k]? = if ackOf reply = some k then some 1 else c.acked[k]? := fun k => by
    rw [hc.acked, hear_acked]
    rfl
  refine ⟨hc.quiet, fun k hk => ?_, fun p hp hone => ?_⟩
  · rw [hcell]
    rcases List.mem_append.1 hk with hk | hk
    · rw [h.acks k hk, ite_self]
    · rw [if_pos (Option.mem_toList.1 hk)]
  · rw [hcell] at hone
    split at hone
    · rename_i hack
      exact List.mem_append_right _ (Option.mem_toList.2 hack)
    · exact List.mem_append_left _ (h.sent p hp hone)

theorem passInv_reachable (h : ((clientRun dir).ghost .empty logPass).Reachable (c, g)) : PassInv c g := by
  refine h.invariant (P := fun p => PassInv p.1 p.2) ?_ ?_
  · rintro ⟨c, g⟩ ⟨⟨free, rfl⟩, rfl⟩
    exact .empty (quiet_plain rfl trivial)
  · rintro ⟨c, g⟩ e ⟨c', g'⟩ _ ih ⟨hst, hg⟩
    have hg : g' = logPass c e g := hg
    subst hg
    cases e with
    | go msg => exact ih.go hst
    | look reply => exact ih.look hst

/-- **The queue.** In every state of the client, whatever its directory and the replies, and so also when a pass is over
and the loop over `send_failed` begins: the fragments sent in the pass are marked in `ACKed`, or queued with their
datagrams, exactly when every one of them was acknowledged in the pass. -/
theorem pass_queued (h : ((clientRun dir).ghost .empty logPass).Reachable (c, g)) :
    (∀ p ∈ g.sent, c.acked[p.1]? = some 1 ∨ c.sendFailed[p.1]? = some p.2) ↔ ∀ p ∈ g.sent, p.1 ∈ g.acks := by
  have hi := passInv_reachable h
  refine forall₂_congr fun p hp => ?_
  rw [hi.quiet.empty, ExtTreeMap.getElem?_empty]
  constructor
  · rintro (hone | hqueued)
    · exact hi.sent p hp hone
    · cases hqueued
  · exact fun hack => .inl (hi.acks p.1 hack)

/-- Two files of one fragment. -/
def twoEntries : List Entry := [⟨"a", []⟩, ⟨"b", "xyz"⟩]

/-- Both fragments are sent in the pass, and acknowledged in it. The pass is over. -/
theorem pass_queued_acked :
    ∃ c g, ((clientRun twoEntries).ghost .empty logPass).Reachable (c, g) ∧ c.pc = .resend [] ∧
      g.sent = [(⟨0, 0⟩, "<0 1 0 0 a >".toList), (⟨1, 0⟩, "<1 1 0 3 b >xyz".toList)] ∧
      g.acks = [⟨0, 0⟩, ⟨1, 0⟩] ∧ ∀ p ∈ g.sent, c.acked[p.1]? = some 1 ∨ c.sendFailed[p.1]? = some p.2 := by
  let d₀ : Text := "<0 1 0 0 a >"
  let d₁ : Text := "<1 1 0 3 b >xyz"
  let reply₀ : Text := "0 0 ACK"
  let reply₁ : Text := "1 0 ACK"
  let acked₀ : ExtTreeMap Pii Int := ExtTreeMap.insertIfNew ∅ ⟨0, 0⟩ 0
  let acked₁ : ExtTreeMap Pii Int := (acked₀.insert ⟨0, 0⟩ 1).insertIfNew ⟨1, 0⟩ 0
  have hack₀ : ackOf (some reply₀) = some ⟨0, 0⟩ := by decide +kernel
  have hack₁ : ackOf (some reply₁) = some ⟨1, 0⟩ := by decide +kernel
  let system := (clientRun twoEntries).ghost .empty logPass
  have h₀ : system.Reachable (.start 5, .empty) := .init ⟨⟨5, rfl⟩, rfl⟩
  have h₁ : system.Reachable (⟨.send 0 0, ∅, ∅, false, 4⟩, .empty) := h₀.step (a := .go none) ⟨rfl, rfl⟩
  have h₂ : system.Reachable (⟨.await 0 0 d₀, acked₀, ∅, false, 4⟩, ⟨[(⟨0, 0⟩, d₀)], []⟩) :=
    h₁.step (a := .go (some d₀)) ⟨rfl, rfl⟩
  have h₃ : system.Reachable (⟨.send 0 1, acked₀.insert ⟨0, 0⟩ 1, ∅, false, 4⟩, ⟨[(⟨0, 0⟩, d₀)], [⟨0, 0⟩]⟩) :=
    h₂.step (a := .look (some reply₀)) ⟨rfl, by rw [logPass, hack₀]; rfl⟩
  have h₄ : system.Reachable (⟨.send 1 0, acked₀.insert ⟨0, 0⟩ 1, ∅, false, 4⟩, ⟨[(⟨0, 0⟩, d₀)], [⟨0, 0⟩]⟩) :=
    h₃.step (a := .go none) ⟨rfl, rfl⟩
  have h₅ : system.Reachable
      (⟨.await 1 0 d₁, acked₁, ∅, false, 4⟩, ⟨[(⟨0, 0⟩, d₀), (⟨1, 0⟩, d₁)], [⟨0, 0⟩]⟩) :=
    h₄.step (a := .go (some d₁)) ⟨rfl, rfl⟩
  let acked₂ : ExtTreeMap Pii Int := acked₁.insert ⟨1, 0⟩ 1
  let g : Pass := ⟨[(⟨0, 0⟩, d₀), (⟨1, 0⟩, d₁)], [⟨0, 0⟩, ⟨1, 0⟩]⟩
  have h₆ : system.Reachable (⟨.send 1 1, acked₂, ∅, false, 4⟩, g) :=
    h₅.step (a := .look (some reply₁)) ⟨rfl, by rw [logPass, hack₁]; rfl⟩
  have h₇ : system.Reachable (⟨.send 2 0, acked₂, ∅, false, 4⟩, g) := h₆.step (a := .go none) ⟨rfl, rfl⟩
  have h₈ : system.Reachable (⟨.resend [], acked₂, ∅, false, 4⟩, g) := h₇.step (a := .go none) ⟨rfl, rfl⟩
  refine ⟨_, _, h₈, rfl, rfl, rfl, (pass_queued h₈).2 fun p hp => ?_⟩
  rcases List.mem_cons.1 hp with rfl | hp
  · exact List.mem_cons_self
  · rw [List.mem_singleton.1 hp]
    exact List.mem_cons_of_mem _ List.mem_cons_self

/-- A client with one file of one fragment, when its first pass is over and no reply came. -/
def lostClient : Client := ⟨.resend [], ExtTreeMap.insertIfNew ∅ ⟨0, 0⟩ 0, ∅, false, 4⟩

theorem lostClient_reachable : ((clientRun [⟨"a", []⟩]).ghost .empty logPass).Reachable
    (lostClient, ⟨[(⟨0, 0⟩, "<0 1 0 0 a >".toList)], []⟩) := by
  let d : Text := "<0 1 0 0 a >"
  let acked : ExtTreeMap Pii Int := ExtTreeMap.insertIfNew ∅ ⟨0, 0⟩ 0
  let system := (clientRun [⟨"a", []⟩]).ghost .empty logPass
  have h₀ : system.Reachable (.start 5, .empty) := .init ⟨⟨5, rfl⟩, rfl⟩
  have h₁ : system.Reachable (⟨.send 0 0, ∅, ∅, false, 4⟩, .empty) := h₀.step (a := .go none) ⟨rfl, rfl⟩
  have h₂ : system.Reachable (⟨.await 0 0 d, acked, ∅, false, 4⟩, ⟨[(⟨0, 0⟩, d)], []⟩) :=
    h₁.step (a := .go (some d)) ⟨rfl, rfl⟩
  have h₃ : system.Reachable (⟨.send 0 1, acked, ∅, false, 4⟩, ⟨[(⟨0, 0⟩, d)], []⟩) :=
    h₂.step (a := .look none) ⟨rfl, rfl⟩
  have h₄ : system.Reachable (⟨.send 1 0, acked, ∅, false, 4⟩, ⟨[(⟨0, 0⟩, d)], []⟩) :=
    h₃.step (a := .go none) ⟨rfl, rfl⟩
  exact h₄.step (a := .go none) ⟨rfl, rfl⟩

/-- No reply is there for the only fragment of the only file. The pass is over, and the fragment is neither marked nor
queued. -/
theorem pass_queued_lost :
    ∃ c g, ((clientRun [⟨"a", []⟩]).ghost .empty logPass).Reachable (c, g) ∧ c.pc = .resend [] ∧
      g.sent = [(⟨0, 0⟩, "<0 1 0 0 a >".toList)] ∧
      ¬ ∀ p ∈ g.sent, c.acked[p.1]? = some 1 ∨ c.sendFailed[p.1]? = some p.2 := by
  refine ⟨_, _, lostClient_reachable, rfl, rfl, fun h => ?_⟩
  rcases h _ List.mem_cons_self with hone | hqueued
  · have hzero : lostClient.acked[(⟨0, 0⟩ : Pii)]? = some 0 := getElem?_insertIfNew_self
    rw [hzero] at hone
    cases hone
  · rw [lostClient, ExtTreeMap.getElem?_empty] at hqueued
    cases hqueued

end IntroNP.Udp
