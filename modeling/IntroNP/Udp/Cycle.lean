import IntroNP.Lib.Inevitable
import IntroNP.Udp.Joint
import IntroNP.Udp.Progress

/-!
# File transfer over UDP: the passes of the client

A client that is not told to stop goes over its files again and again, as long as it has descriptors: each pass takes
one, and its files need another. `comes_over`, `comes_round`: with that many, from wherever it is and whatever replies
come, it gets to the end of a pass, and to the head of its loop at each of its fragments; or to its end.

The moves of the client are `Client.Moves`, for the replies that may come: any of them, or only the empty one.
-/

namespace IntroNP.Udp

open Std

variable {fs : Files} {c c' d : Client} {comes : Option Text → Prop} {reply msg : Option Text} {n s o k : Nat} {m : Text}
  {pc pc' : Pc}

/-- What the client can do, when only such replies come. -/
def Client.Moves (fs : Files) (comes : Option Text → Prop) (c c' : Client) : Prop :=
  (∃ msg, c.go fs = some (c', msg)) ∨ ∃ reply, comes reply ∧ c.look reply = some c'

/-- The client is at `pc`, with at least `n` descriptors left, or it was told to stop. -/
structure Client.At (n : Nat) (pc : Pc) (c : Client) : Prop where
  quiet : c.Quiet
  pc : (c.pc = pc ∧ n ≤ c.free) ∨ c.pc = .done

/-- However the client moves, it gets to `pc` with at least `n` descriptors left, or it is told to stop. -/
def Client.GetsTo (fs : Files) (comes : Option Text → Prop) (n : Nat) (pc : Pc) (c : Client) : Prop :=
  Inevitable (Client.Moves fs comes) (Client.At n pc) c

/-! ## One move -/

/-- Where the client goes on by itself it has one move. -/
theorem moves_go (hgo : c.go fs = some (c', msg)) (h : c.Moves fs comes d) : d = c' := by
  rcases h with ⟨_, h⟩ | ⟨reply, _, h⟩
  · rw [hgo] at h
    exact (congrArg Prod.fst (Option.some.inj h)).symm
  · rw [look_of_goOver hgo] at h
    cases h

theorem getsTo_go (hgo : c.go fs = some (c', msg)) (h : c'.GetsTo fs comes n pc) : c.GetsTo fs comes n pc :=
  .moves ⟨c', .inl ⟨msg, hgo⟩⟩ fun _ hd => moves_go hgo hd ▸ h

/-- The client is told to stop, and does, or goes on with the next fragment. -/
theorem look_await (hpc : c.pc = .await s o m) (h : c.look reply = some c') :
    (c'.pc = .send s (o + 1) ∧ c'.termFlag = false) ∨ (c'.pc = .done ∧ c'.termFlag = true) := by
  unfold Client.look at h
  rw [hpc] at h
  dsimp only at h
  split at h
  · rename_i hterm
    cases h
    exact .inr ⟨rfl, hterm⟩
  · rename_i hterm
    cases h
    exact .inl ⟨rfl, Bool.not_eq_true _ ▸ hterm⟩

/-- A quiet client looks for a reply only to a fragment. -/
theorem look_pc (hq : c.Quiet) (h : c.look reply = some c') : ∃ s o m, c.pc = .await s o m := by
  unfold Client.look at h
  cases hpc : c.pc with
  | await s o m => exact ⟨s, o, m, rfl⟩
  | awaitAgain key keys => exact absurd hpc hq.again
  | head | send | resend | done | exited | undefined =>
    rw [hpc] at h
    cases h

theorem look_isSome (reply : Option Text) (hpc : c.pc = .await s o m) : ∃ c', c.look reply = some c' := by
  unfold Client.look
  rw [hpc]
  dsimp only
  split
  · exact ⟨_, rfl⟩
  · exact ⟨_, rfl⟩

/-- When a reply was looked for, the next fragment is next. -/
theorem getsTo_await (hq : c.Quiet) (hpc : c.pc = .await s o m) (hfree : n ≤ c.free) (hcomes : ∃ reply, comes reply) :
    c.GetsTo fs comes n (.send s (o + 1)) := by
  obtain ⟨reply, hreply⟩ := hcomes
  obtain ⟨c', hlook⟩ := look_isSome reply hpc
  refine .moves ⟨c', .inr ⟨reply, hreply, hlook⟩⟩ fun d hd => .here ?_
  rcases hd with ⟨msg, hgo⟩ | ⟨reply, _, hlook⟩
  · rw [look_of_goOver hgo] at hlook
    cases hlook
  · have hc := look_spec hq hlook
    exact ⟨hc.quiet, (look_await hpc hlook).imp (fun h => ⟨h.1, hc.free.symm ▸ hfree⟩) And.left⟩

/-- **Composition**: what comes after `pc` comes. -/
theorem Client.GetsTo.bind {n' : Nat} (h : c.GetsTo fs comes n pc)
    (hpc : ∀ c' : Client, c'.Quiet → c'.pc = pc → n ≤ c'.free → c'.GetsTo fs comes n' pc') :
    c.GetsTo fs comes n' pc' := by
  refine Inevitable.bind h fun c' h' => ?_
  rcases h'.pc with ⟨hc, hfree⟩ | hdone
  · exact hpc c' h'.quiet hc hfree
  · exact .here ⟨h'.quiet, .inr hdone⟩

/-! ## A pass -/

theorem entries_getElem? : fs.entries[s]? = (fs.list[s]?).map fun f => (⟨f.name, f.content⟩ : Entry) :=
  List.getElem?_map ..

/-- Behind the last file the pass is over. -/
theorem go_pass_end (hpc : c.pc = .send s o) (hs : fs.list[s]? = none) :
    c.go fs = some ({ c with pc := .resend c.sendFailed.keys }, none) := by
  unfold Client.go Client.goOver
  rw [hpc]
  dsimp only
  rw [entries_getElem?, hs]
  rfl

/-- Behind the last fragment of a file the next file is next. -/
theorem go_file_end {f : File} (hpc : c.pc = .send s o) (hfree : 0 < c.free) (hf : fs.list[s]? = some f)
    (ho : (split f.content)[o]? = none) : c.go fs = some ({ c with pc := .send (s + 1) 0 }, none) := by
  unfold Client.go Client.goOver
  rw [hpc]
  dsimp only
  rw [entries_getElem?, hf]
  dsimp only [Option.map_some]
  rw [if_neg (by omega), ho]

/-- A fragment is passed over, or sent. -/
theorem go_fragment (hpc : c.pc = .send s o) (hfree : 0 < c.free) (hd : fs.datagram s o = some m) :
    c.go fs = if c.acked.getD ⟨s, o⟩ 0 ≠ 0 then
        some ({ c with acked := c.acked.insertIfNew ⟨s, o⟩ 0, pc := .send s (o + 1) }, none)
      else some ({ c with acked := c.acked.insertIfNew ⟨s, o⟩ 0, pc := .await s o m }, some m) := by
  obtain ⟨f, fragment, hp⟩ := part_of_datagram hd
  unfold Client.go Client.goOver
  rw [hpc]
  dsimp only
  rw [entries_getElem?, hp.file]
  dsimp only [Option.map_some]
  rw [if_neg (by omega), hp.part]
  dsimp only
  rw [hp.data]

/-- A file that cannot be opened. -/
theorem go_exit {f : File} (hpc : c.pc = .send s 0) (hfree : c.free = 0) (hf : fs.list[s]? = some f) :
    c.go fs = some ({ c with pc := .exited }, none) := by
  unfold Client.go Client.goOver
  rw [hpc]
  dsimp only
  rw [entries_getElem?, hf]
  exact if_pos ⟨rfl, hfree⟩

/-- Nothing is sent again. -/
theorem go_resend (hq : c.Quiet) (hpc : c.pc = .resend []) : c.go fs = some ({ c with pc := .head }, none) := by
  unfold Client.go Client.goOver
  rw [hpc]
  dsimp only
  rw [if_pos (ExtTreeMap.isEmpty_iff.2 hq.empty)]

/-- The next pass takes a descriptor. -/
theorem go_head (hpc : c.pc = .head) (hterm : c.termFlag = false) (hfree : c.free = n + 1) :
    c.go fs = some ({ c with pc := .send 0 0, free := n }, none) := by
  unfold Client.go Client.goOver
  rw [hpc, hterm, hfree]
  rfl

section

variable (hcomes : ∃ reply, comes reply) (hn : 0 < n)

include hcomes hn

/-- The client gets over a fragment. -/
theorem getsTo_fragment (hq : c.Quiet) (hpc : c.pc = .send s o) (hfree : n ≤ c.free) (hd : fs.datagram s o = some m) :
    c.GetsTo fs comes n (.send s (o + 1)) := by
  have hgo := go_fragment hpc (hn.trans_le hfree) hd
  split at hgo
  · exact getsTo_go hgo (.here ⟨goOver_quiet hq hgo, .inl ⟨rfl, hfree⟩⟩)
  · exact getsTo_go hgo (getsTo_await (goOver_quiet hq hgo) rfl hfree hcomes)

/-- It gets to a later place in the file. -/
theorem getsTo_later {f : File} (hf : fs.list[s]? = some f) (hk : k ≤ (split f.content).length) : ∀ (d o : Nat),
    o + d = k → ∀ c : Client, c.Quiet → c.pc = .send s o → n ≤ c.free → c.GetsTo fs comes n (.send s k)
  | 0, o, ho, c, hq, hpc, hfree => .here ⟨hq, .inl ⟨by rw [hpc, ← ho, Nat.add_zero], hfree⟩⟩
  | d + 1, o, ho, c, hq, hpc, hfree => by
    obtain ⟨m, hm⟩ : ∃ m, fs.datagram s o = some m := by
      refine datagram_isSome (List.getElem?_eq_some_iff.1 hf).1 ?_
      rw [fragments_eq hf]
      omega
    refine Client.GetsTo.bind (getsTo_fragment hcomes hn hq hpc hfree hm) fun c' hq' hpc' hfree' => ?_
    exact getsTo_later hf hk d (o + 1) (by omega) c' hq' hpc' hfree'

/-- It gets to the next file. -/
theorem getsTo_file {f : File} (hf : fs.list[s]? = some f) (hq : c.Quiet) (hpc : c.pc = .send s o)
    (hfree : n ≤ c.free) : c.GetsTo fs comes n (.send (s + 1) 0) := by
  have hend : ∀ k, (split f.content).length ≤ k → ∀ c : Client, c.Quiet → c.pc = .send s k → n ≤ c.free →
      c.GetsTo fs comes n (.send (s + 1) 0) := by
    intro k hk c hq hpc hfree
    have hgo := go_file_end hpc (hn.trans_le hfree) hf (List.getElem?_eq_none hk)
    exact getsTo_go hgo (.here ⟨goOver_quiet hq hgo, .inl ⟨rfl, hfree⟩⟩)
  rcases le_total (split f.content).length o with hle | hle
  · exact hend o hle c hq hpc hfree
  · obtain ⟨d, hd⟩ := Nat.exists_eq_add_of_le hle
    exact Client.GetsTo.bind (getsTo_later hcomes hn hf le_rfl d o hd.symm c hq hpc hfree) (hend _ le_rfl)

/-- It gets to a later file, or to the end of the pass. -/
theorem getsTo_files (hk : k ≤ fs.list.length) : ∀ (d s : Nat), s + d + 1 = k → ∀ (o : Nat) (c : Client), c.Quiet →
    c.pc = .send s o → n ≤ c.free → c.GetsTo fs comes n (.send k 0)
  | 0, s, hs, o, c, hq, hpc, hfree => by
    subst hs
    exact getsTo_file hcomes hn (List.getElem?_eq_getElem hk) hq hpc hfree
  | d + 1, s, hs, o, c, hq, hpc, hfree => by
    have hlt : s < fs.list.length := by omega
    refine Client.GetsTo.bind (getsTo_file hcomes hn (List.getElem?_eq_getElem hlt) hq hpc hfree)
      fun c' hq' hpc' hfree' => ?_
    exact getsTo_files hk d (s + 1) (by omega) 0 c' hq' hpc' hfree'

/-- It gets to the end of the pass. -/
theorem getsTo_over (hq : c.Quiet) (hpc : c.pc = .send s o) (hfree : n ≤ c.free) :
    c.GetsTo fs comes n (.resend []) := by
  have hend : ∀ k, fs.list.length ≤ k → ∀ (o : Nat) (c : Client), c.Quiet → c.pc = .send k o → n ≤ c.free →
      c.GetsTo fs comes n (.resend []) := by
    intro k hk o c hq hpc hfree
    have hgo : c.go fs = _ := go_pass_end hpc (List.getElem?_eq_none hk)
    have hq' := goOver_quiet hq hgo
    exact getsTo_go hgo (.here ⟨hq', .inl ⟨congrArg Pc.resend (hq'.resend rfl), hfree⟩⟩)
  rcases le_or_gt fs.list.length s with hle | hlt
  · exact hend s hle o c hq hpc hfree
  · obtain ⟨d, hd⟩ := Nat.exists_eq_add_of_le (Nat.succ_le_of_lt hlt)
    exact Client.GetsTo.bind (getsTo_files hcomes hn le_rfl d s (by omega) o c hq hpc hfree) (hend _ le_rfl 0)

/-! ## Round and round -/

omit hcomes hn in
/-- It gets from the end of a pass to the head of its outer loop. -/
theorem getsTo_resend (hq : c.Quiet) (hpc : c.pc = .resend []) (hfree : n ≤ c.free) : c.GetsTo fs comes n .head := by
  have hgo : c.go fs = _ := go_resend hq hpc
  exact getsTo_go hgo (.here ⟨goOver_quiet hq hgo, .inl ⟨rfl, hfree⟩⟩)

omit hcomes hn in
/-- It begins a pass, with one descriptor less. -/
theorem getsTo_head (hq : c.Quiet) (hpc : c.pc = .head) (hfree : n + 1 ≤ c.free) :
    c.GetsTo fs comes n (.send 0 0) := by
  obtain ⟨k, hk⟩ := Nat.exists_eq_add_of_le' ((Nat.le_add_left 1 n).trans hfree)
  cases hterm : c.termFlag with
  | false =>
    have hgo : c.go fs = _ := go_head hpc hterm hk
    exact getsTo_go hgo (.here ⟨goOver_quiet hq hgo, .inl ⟨rfl, show n ≤ k by omega⟩⟩)
  | true =>
    have hgo : c.go fs = some ({ c with pc := .done }, none) := by
      unfold Client.go Client.goOver
      rw [hpc, hterm]
      rfl
    exact getsTo_go hgo (.here ⟨goOver_quiet hq hgo, .inr rfl⟩)

/-- From wherever it is, it gets to the head of its outer loop. -/
theorem comes_head (hq : c.Quiet) (hexit : c.pc ≠ .exited) (hfree : n ≤ c.free) : c.GetsTo fs comes n .head := by
  have hsend : ∀ (s o : Nat) (c : Client), c.Quiet → c.pc = .send s o → n ≤ c.free → c.GetsTo fs comes n .head :=
    fun s o c hq hpc hfree => Client.GetsTo.bind (getsTo_over hcomes hn hq hpc hfree) fun _ => getsTo_resend
  cases hpc : c.pc with
  | head => exact .here ⟨hq, .inl ⟨hpc, hfree⟩⟩
  | send s o => exact hsend s o c hq hpc hfree
  | await s o m => exact Client.GetsTo.bind (getsTo_await hq hpc hfree hcomes) (hsend s (o + 1))
  | resend keys =>
    rw [hq.resend hpc] at hpc
    exact getsTo_resend hq hpc hfree
  | awaitAgain key keys => exact absurd hpc hq.again
  | done => exact .here ⟨hq, .inr hpc⟩
  | exited => exact absurd hpc hexit
  | undefined => exact absurd hpc hq.defined

/-- **Each fragment comes round**: from wherever the client is, it gets to the head of its loop at the fragment, or to
its end, and takes one descriptor at most. -/
theorem comes_round (hq : c.Quiet) (hexit : c.pc ≠ .exited) (hfree : n + 1 ≤ c.free) (hd : fs.datagram s o = some m) :
    c.GetsTo fs comes n (.send s o) := by
  obtain ⟨f, fragment, hp⟩ := part_of_datagram hd
  have hfile : ∀ c : Client, c.Quiet → c.pc = .send s 0 → n ≤ c.free → c.GetsTo fs comes n (.send s o) :=
    fun c => getsTo_later hcomes hn hp.file hp.offset_lt.le o 0 (Nat.zero_add o) c
  refine Client.GetsTo.bind (comes_head hcomes (Nat.zero_lt_succ n) hq hexit hfree) fun c₁ hq₁ hpc₁ hfree₁ => ?_
  refine Client.GetsTo.bind (getsTo_head hq₁ hpc₁ hfree₁) fun c₂ hq₂ hpc₂ hfree₂ => ?_
  cases s with
  | zero => exact hfile c₂ hq₂ hpc₂ hfree₂
  | succ s =>
    exact Client.GetsTo.bind (getsTo_files hcomes hn hp.seq_lt.le s 0 (by omega) 0 c₂ hq₂ hpc₂ hfree₂) hfile

end

end IntroNP.Udp
