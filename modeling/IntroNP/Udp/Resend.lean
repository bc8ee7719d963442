import IntroNP.Udp.Queue

/-!
# File transfer over UDP: the loop over `send_failed`

The loop sends a fragment, looks for one reply, and takes the fragment out of `send_failed` when the reply is an
acknowledgement, of whatever fragment. It is then at an element that is gone, and C++ does not say what comes next.

- `entered_empty`: the client only enters the loop with an empty `send_failed`;
- `kept_iff`: entered with any `ACKed` and any `send_failed`, one step of the loop forgets no fragment that was not
  acknowledged, exactly when the acknowledgement that is read is one of the fragment that was sent, or that fragment was
  acknowledged before (`AnswersKey`);
- `resend_forgets`: whole runs of the loop, as the client enters it and with any contents.
-/

namespace IntroNP.Udp

open Std

/-! ## Reading an acknowledgement -/

/-- The fragment that an `ACK` names was read. -/
theorem acks_of_buf {t : Text} (h : (decomposeReply t).buf = "ACK") : ∃ k, (decomposeReply t).acks = some k := by
  have hword : (decomposeReply t).buf ≠ [] := by
    rw [h]
    decide
  obtain ⟨hgood, offset, hoffset⟩ := IStream.readInt_good (IStream.readWord_good hword)
  obtain ⟨_, seq, hseq⟩ := IStream.readInt_good hgood
  have hseq' : (decomposeReply t).seq = some seq := hseq
  have hoffset' : (decomposeReply t).offset = some offset := hoffset
  refine ⟨⟨seq, offset⟩, ?_⟩
  unfold Reply.acks
  rw [if_pos h, hseq', hoffset']

/-! ## The loop -/

/-- The client is in the loop over `send_failed`. -/
def Client.Resends (c : Client) : Prop :=
  match c.pc with
  | .resend [] => c.sendFailed ≠ ∅
  | .resend (_ :: _) | .awaitAgain .. => True
  | .head | .send .. | .await .. | .done | .exited | .undefined => False

/-- The fragments that were acknowledged, after a move of the client. -/
def logAcks (_ : Client) (e : Move) (acks : List Pii) : List Pii :=
  match e with
  | .go _ => acks
  | .look reply => acks ++ (ackOf reply).toList

/-- The loop, with the fragments that the replies read in it acknowledge. -/
def resendLoop (dir : List Entry) : System (Client × List Pii) Move :=
  ((clientRun dir).restrict fun c _ => c.Resends).ghost [] logAcks

/-- In the loop that was entered in `c₀`, a fragment was only taken out of `send_failed` when an acknowledgement of it
was received, in the loop or before. -/
def Kept (c₀ : Client) (p : Client × List Pii) : Prop :=
  ∀ k ∈ c₀.sendFailed, k ∉ p.1.sendFailed → k ∈ p.2 ∨ c₀.acked[k]? = some 1

/-- An acknowledgement that is read after a fragment was sent is one of this fragment, unless the fragment was
acknowledged before. -/
def AnswersKey (c₀ : Client) (p : Client × List Pii) (e : Move) : Prop :=
  match e, p.1.pc with
  | .look reply, .awaitAgain key _ => ∀ k, ackOf reply = some k → k = key ∨ key ∈ p.2 ∨ c₀.acked[key]? = some 1
  | _, _ => True

/-- The keys that are left for a round of the loop. -/
def Pc.keys : Pc → List Pii
  | .resend keys => keys
  | .awaitAgain key keys => key :: keys
  | .head | .send .. | .await .. | .done | .exited | .undefined => []

/-- What holds in the loop that was entered in `c₀`. -/
structure LoopInv (c₀ : Client) (p : Client × List Pii) : Prop where
  nodup : p.1.pc.keys.Nodup
  queued : ∀ k ∈ p.1.pc.keys, k ∈ p.1.sendFailed
  sub : ∀ k ∈ p.1.sendFailed, k ∈ c₀.sendFailed

variable {dir : List Entry} {c c' c₀ : Client} {acks : List Pii} {p p' : Client × List Pii} {e : Move} {key : Pii}
  {keys : List Pii} {reply : Option Text}

theorem ackOf_isSome : (ackOf reply).isSome ↔ (decomposeReply (ackbuf reply)).buf = "ACK" := by
  constructor
  · intro hs
    by_contra hbuf
    unfold ackOf Reply.acks at hs
    rw [if_neg hbuf] at hs
    cases hs
  · intro hbuf
    obtain ⟨k, hk⟩ := acks_of_buf hbuf
    exact Option.isSome_iff_exists.2 ⟨k, hk⟩

/-- The loop hears a reply. Behind an acknowledgement it has no next element. -/
theorem look_awaitAgain (hpc : c.pc = .awaitAgain key keys) (h : c.look reply = some c') :
    c'.sendFailed = (if (ackOf reply).isSome then c.sendFailed.erase key else c.sendFailed) ∧
    (c'.pc = .done ∨ c'.pc = .resend keys ∨ c'.pc = .undefined) := by
  unfold Client.look at h
  dsimp only at h
  rw [hpc] at h
  dsimp only at h
  have hfailed := hear_sendFailed c (decomposeReply (ackbuf reply))
  by_cases hbuf : (decomposeReply (ackbuf reply)).buf = "ACK"
  · rw [if_pos hbuf] at h
    rw [if_pos (ackOf_isSome.2 hbuf), ← hfailed]
    cases h
    refine ⟨rfl, ?_⟩
    dsimp only
    split
    · exact .inl rfl
    · exact .inr (.inr rfl)
  · rw [if_neg hbuf] at h
    rw [if_neg (fun hs => hbuf (ackOf_isSome.1 hs)), ← hfailed]
    cases h
    refine ⟨rfl, ?_⟩
    dsimp only
    split
    · exact .inl rfl
    · exact .inr (.inl rfl)

/-- All that can happen in the loop: the client moves on or sends, and its tables stay; or it hears a reply to the
fragment that it has sent. -/
theorem resendLoop_cases (h : (resendLoop dir).step p e p') :
    ((∃ msg, e = .go msg) ∧ p'.2 = p.2 ∧ p'.1.sendFailed = p.1.sendFailed ∧
      (p'.1.pc.keys = p.1.pc.keys ∨ p'.1.pc.keys = p.1.sendFailed.keys)) ∨
    ∃ reply key keys, e = .look reply ∧ p.1.pc = .awaitAgain key keys ∧ p'.2 = p.2 ++ (ackOf reply).toList ∧
      p'.1.sendFailed = (if (ackOf reply).isSome then p.1.sendFailed.erase key else p.1.sendFailed) ∧
      (p'.1.pc.keys = [] ∨ p'.1.pc.keys = keys) := by
  obtain ⟨c, acks⟩ := p
  obtain ⟨c', acks'⟩ := p'
  obtain ⟨⟨hloop, hst⟩, hacks⟩ := h
  dsimp only at hloop hst hacks ⊢
  unfold Client.Resends at hloop
  cases e with
  | go msg =>
    have hgo : c.goOver dir = some (c', msg) := hst
    refine .inl ⟨⟨msg, rfl⟩, hacks, ?_⟩
    cases hpc : c.pc with
    | resend keys =>
      rw [hpc] at hloop
      rcases goOver_resend hpc hgo with ⟨rfl, hempty, _, _⟩ | ⟨rfl, _, _, rfl⟩ | ⟨key, keys', rfl, _, rfl⟩
      · exact absurd hempty hloop
      · exact ⟨rfl, .inr rfl⟩
      · exact ⟨rfl, .inl rfl⟩
    | awaitAgain =>
      unfold Client.goOver at hgo
      rw [hpc] at hgo
      cases hgo
    | head | send | await | done | exited | undefined =>
      rw [hpc] at hloop
      exact hloop.elim
  | look reply =>
    have hlook : c.look reply = some c' := hst
    cases hpc : c.pc with
    | awaitAgain key keys =>
      obtain ⟨hfailed, hnext⟩ := look_awaitAgain hpc hlook
      refine .inr ⟨reply, key, keys, rfl, rfl, hacks, hfailed, ?_⟩
      rcases hnext with hnext | hnext | hnext
      · exact .inl (by rw [hnext]; rfl)
      · exact .inr (by rw [hnext]; rfl)
      · exact .inl (by rw [hnext]; rfl)
    | resend keys =>
      unfold Client.look at hlook
      rw [hpc] at hlook
      cases hlook
    | head | send | await | done | exited | undefined =>
      rw [hpc] at hloop
      exact hloop.elim

/-! ## What a step keeps -/

theorem LoopInv.start (hpc : c₀.pc = .resend c₀.sendFailed.keys) : LoopInv c₀ (c₀, []) := by
  have hkeys : c₀.pc.keys = c₀.sendFailed.keys := by rw [hpc]; rfl
  refine ⟨?_, fun k hk => ?_, fun _ => id⟩
  · rw [hkeys]
    exact ExtTreeMap.distinct_keys.imp fun h e => h (Std.compare_eq_iff_eq.2 e)
  · rw [hkeys] at hk
    exact ExtTreeMap.mem_keys.1 hk

theorem loopInv_step (hi : LoopInv c₀ p) (hst : (resendLoop dir).step p e p') : LoopInv c₀ p' := by
  rcases resendLoop_cases hst with ⟨_, _, hfailed, hkeys⟩ | ⟨reply, key, keys, _, hpc, _, hfailed, hkeys⟩
  · refine ⟨?_, fun k hk => ?_, fun k hk => hi.sub k (hfailed ▸ hk)⟩
    · rcases hkeys with hkeys | hkeys
      · exact hkeys ▸ hi.nodup
      · rw [hkeys]
        exact ExtTreeMap.distinct_keys.imp fun h e => h (Std.compare_eq_iff_eq.2 e)
    · rw [hfailed]
      rcases hkeys with hkeys | hkeys
      · exact hi.queued k (hkeys ▸ hk)
      · exact ExtTreeMap.mem_keys.1 (hkeys ▸ hk)
  · have hold : p.1.pc.keys = key :: keys := by rw [hpc]; rfl
    obtain ⟨hkey, hnodup⟩ := List.nodup_cons.1 (hold ▸ hi.nodup)
    have hmem : ∀ k, k ∈ p'.1.sendFailed → k ∈ p.1.sendFailed := by
      intro k hk
      rw [hfailed] at hk
      split at hk
      · exact ExtTreeMap.mem_of_mem_erase hk
      · exact hk
    refine ⟨?_, fun k hk => ?_, fun k hk => hi.sub k (hmem k hk)⟩
    · rcases hkeys with hkeys | hkeys
      · exact hkeys ▸ List.nodup_nil
      · exact hkeys ▸ hnodup
    · rcases hkeys with hkeys | hkeys
      · rw [hkeys] at hk
        cases hk
      · rw [hkeys] at hk
        have hne : key ≠ k := fun h => hkey (h ▸ hk)
        have hqueued := hi.queued k (hold ▸ List.mem_cons_of_mem key hk)
        rw [hfailed]
        split
        · exact ExtTreeMap.mem_erase.2 ⟨fun h => hne (Std.compare_eq_iff_eq.1 h), hqueued⟩
        · exact hqueued

/-- **One step** forgets nothing that was not acknowledged exactly when it answers the key. -/
theorem kept_iff (hi : LoopInv c₀ p) (hk : Kept c₀ p) (hst : (resendLoop dir).step p e p') :
    Kept c₀ p' ↔ AnswersKey c₀ p e := by
  rcases resendLoop_cases hst with ⟨⟨msg, rfl⟩, hacks, hfailed, _⟩ | ⟨reply, key, keys, rfl, hpc, hacks, hfailed, _⟩
  · have hkept : Kept c₀ p' := by
      unfold Kept
      rw [hacks, hfailed]
      exact hk
    exact iff_of_true hkept trivial
  · unfold AnswersKey
    rw [hpc]
    dsimp only
    have hqueued : key ∈ p.1.sendFailed := hi.queued key (by rw [hpc]; exact List.mem_cons_self)
    cases hack : ackOf reply with
    | none =>
      rw [hack] at hacks hfailed
      have hkept : Kept c₀ p' := by
        unfold Kept
        rw [hacks, hfailed, Option.toList_none, List.append_nil, if_neg (by simp)]
        exact hk
      exact iff_of_true hkept fun k h => by cases h
    | some a =>
      rw [hack] at hacks hfailed
      rw [if_pos (by rfl)] at hfailed
      unfold Kept
      rw [hacks, hfailed]
      constructor
      · rintro hkept k ⟨⟩
        have hgone : key ∉ p.1.sendFailed.erase key := fun h =>
          (ExtTreeMap.mem_erase.1 h).1 (Std.compare_eq_iff_eq.2 rfl)
        rcases hkept key (hi.sub key hqueued) hgone with h | h
        · rcases List.mem_append.1 h with h | h
          · exact .inr (.inl h)
          · exact .inl (List.mem_singleton.1 h).symm
        · exact .inr (.inr h)
      · intro hans k hk₀ hk'
        by_cases hkey : key = k
        · subst hkey
          rcases hans a rfl with rfl | h | h
          · exact .inl (List.mem_append_right _ List.mem_cons_self)
          · exact .inl (List.mem_append_left _ h)
          · exact .inr h
        · have hnot : k ∉ p.1.sendFailed := fun h =>
            hk' (ExtTreeMap.mem_erase.2 ⟨fun e => hkey (Std.compare_eq_iff_eq.1 e), h⟩)
          exact (hk k hk₀ hnot).imp_left (List.mem_append_left _)

/-! ## Runs of the loop -/

/-- The client has nothing in `send_failed` when it comes to the loop, whatever its directory and the replies. -/
theorem entered_empty (h : (clientRun dir).Reachable c) : c.sendFailed = ∅ := by
  obtain ⟨g, h⟩ : ∃ g, ((clientRun dir).ghost .empty logPass).Reachable (c, g) := h.exists_ghost
  exact (passInv_reachable h).quiet.empty

/-- **The loop over `send_failed`**, with any replies. As the client enters it, a fragment is only taken out of
`send_failed` when it was acknowledged, and when the loop ends without the client being told to stop, every fragment that
was queued is marked. Entered with any `ACKed` and any `send_failed`, a run of the loop never forgets a fragment that was
not acknowledged exactly when every acknowledgement that is read in it answers the fragment that was sent last, or that
fragment was acknowledged before. -/
theorem resend_forgets (dir : List Entry) :
    (∀ c₀ keys, (clientRun dir).Reachable c₀ → c₀.pc = .resend keys → ∀ es c acks,
      (resendLoop dir).Run (c₀, []) es (c, acks) →
        (∀ k ∈ c₀.sendFailed, k ∉ c.sendFailed → k ∈ acks ∨ c₀.acked[k]? = some 1) ∧
        (c.pc = .resend [] → c.sendFailed = ∅ → ∀ k ∈ c₀.sendFailed, c.acked[k]? = some 1)) ∧
    ∀ c₀ : Client, c₀.pc = .resend c₀.sendFailed.keys → ∀ es p,
      ((resendLoop dir).within (Kept c₀)).Run (c₀, []) es p ↔
        ((resendLoop dir).restrict (AnswersKey c₀)).Run (c₀, []) es p := by
  constructor
  · intro c₀ keys h _ es c acks _
    have hnone : ∀ k : Pii, k ∉ c₀.sendFailed := by
      rw [entered_empty h]
      exact fun k => ExtTreeMap.not_mem_empty
    exact ⟨fun k hk => absurd hk (hnone k), fun _ _ k hk => absurd hk (hnone k)⟩
  · intro c₀ hpc es p
    have hkept : Kept c₀ (c₀, []) := fun k hk hno => absurd hk hno
    exact System.run_within_iff (fun p e p' => loopInv_step) (fun p e p' => kept_iff) (LoopInv.start hpc) hkept

/-- A client with one fragment in the queue, which is not acknowledged. -/
def oneQueued : Client := ⟨.resend [⟨0, 0⟩], ∅, ExtTreeMap.insert ∅ ⟨0, 0⟩ "<0 2 0 3 a >xyz", false, 4⟩

/-- The same client, when it has sent the fragment again. -/
def oneAwaited : Client := ⟨.awaitAgain ⟨0, 0⟩ [], ∅, ExtTreeMap.insert ∅ ⟨0, 0⟩ "<0 2 0 3 a >xyz", false, 4⟩

theorem oneQueued_go : (resendLoop []).step (oneQueued, []) (.go (some "<0 2 0 3 a >xyz")) (oneAwaited, []) := by
  have hsent : oneQueued.sendFailed[(⟨0, 0⟩ : Pii)]? = some "<0 2 0 3 a >xyz".toList := ExtTreeMap.getElem?_insert_self
  refine ⟨⟨trivial, ?_⟩, rfl⟩
  change some (oneAwaited, _) = _
  rw [hsent]

/-- The loop as it is entered after a pass in which a fragment was lost, and a loop that is entered with a fragment and
reads the acknowledgement of it. -/
theorem resend_forgets_acked :
    (∀ es c acks, (resendLoop [⟨"a", []⟩]).Run (lostClient, []) es (c, acks) → c.pc = .resend [] → c.sendFailed = ∅ →
      ∀ k ∈ lostClient.sendFailed, c.acked[k]? = some 1) ∧
    ∃ es c, ((resendLoop []).within (Kept oneQueued)).Run (oneQueued, []) es (c, [⟨0, 0⟩]) ∧
      (⟨0, 0⟩ : Pii) ∉ c.sendFailed := by
  refine ⟨fun es c acks hrun => ((resend_forgets [⟨"a", []⟩]).1 lostClient [] lostClient_reachable.ghost_fst rfl es c
    acks hrun).2, ?_⟩
  have hack : ackOf (some "0 0 ACK") = some ⟨0, 0⟩ := by decide +kernel
  obtain ⟨c, hlook⟩ : ∃ c, oneAwaited.look (some "0 0 ACK") = some c := ⟨_, rfl⟩
  obtain ⟨hfailed, -⟩ := look_awaitAgain rfl hlook
  have hst : (resendLoop []).step (oneAwaited, []) (.look (some "0 0 ACK")) (c, [⟨0, 0⟩]) :=
    ⟨⟨trivial, hlook⟩, by rw [logAcks, hack]; rfl⟩
  have hrun : ((resendLoop []).restrict (AnswersKey oneQueued)).Run (oneQueued, [])
      [.go (some "<0 2 0 3 a >xyz"), .look (some "0 0 ACK")] (c, [⟨0, 0⟩]) := by
    refine .cons ⟨trivial, oneQueued_go⟩ (.single ⟨?_, hst⟩)
    intro k hk
    rw [hack] at hk
    exact .inl (Option.some.inj hk).symm
  refine ⟨_, c, ((resend_forgets []).2 oneQueued (by decide +kernel) _ _).2 hrun, ?_⟩
  rw [hfailed, hack, if_pos (by rfl)]
  exact fun h => (ExtTreeMap.mem_erase.1 h).1 (Std.compare_eq_iff_eq.2 rfl)

end IntroNP.Udp
