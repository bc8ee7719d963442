import IntroNP.Chat.Accounts

/-!
# The chat server: who is logged in has given the password

- `Directory.Step.user_new`: in the directory, only a `login` line with the password of an account that nobody uses
  makes a socket use it;
- `login_authentic`: so in every run of the server, whoever is logged in under a name sent such a line, with a password
  that was registered before, and has been logged in under the name since.
-/

namespace IntroNP.Chat

open Std

variable {σ σ' : Server} {d d' : Directory} {s t : Int} {l u v p st : Text} {e : Event} {sent : List Send}

/-- A line that gives the name `u` and the password `p`. -/
def LogsIn (u p l : Text) : Prop := word l = some "login".toList ∧ arg l = some u ∧ arg' l = some p

/-! ## In the directory -/

namespace Directory

theorem user_onRegister : (d.onRegister l).1.user t = d.user t := by
  unfold onRegister
  split
  · split
    · rfl
    · rename_i hnew
      exact user_register hnew
  · rfl

/-- Who is somewhere after a `login`. -/
theorem user_onLogin (h : (d.onLogin s l).1.user t = some u) : d.user t = some u ∨
    t = s ∧ ∃ p, arg l = some u ∧ arg' l = some p ∧ d.accounts[u]? = some ⟨p, none⟩ ∧
      (d.onLogin s l).2 = loginReply u := by
  unfold onLogin at h ⊢
  split at h
  · rename_i hout
    rw [dif_pos hout]
    split at h
    · rename_i v p hv hp
      rw [hv, hp]
      split at h
      · rename_i hfree
        rw [user_login hfree] at h
        split at h
        · rename_i hts
          cases h
          exact .inr ⟨hts, p, rfl, rfl, hfree, by rw [if_pos hfree]⟩
        · exact .inl h
      · exact .inl h
    · exact .inl h
  · exact .inl h

theorem user_onLogout (h : (d.onLogout s l).1.user t = some u) : d.user t = some u := by
  unfold onLogout at h
  split at h
  · exact h
  · exact h
  · rw [user_logout] at h
    split at h
    · cases h
    · exact h

theorem user_onExit (h : (d.onExit s l).1.user t = some u) : d.user t = some u := by
  unfold onExit at h
  split at h
  · exact h
  · exact h
  · rw [user_logout] at h
    split at h
    · cases h
    · exact h

theorem user_onSetStatus : (d.onSetStatus s l).1.user t = d.user t := by
  cases hl : arg l with
  | none =>
    unfold onSetStatus
    rw [hl]
  | some st =>
    cases hu : d.user s with
    | none => rw [onSetStatus_out hl hu]
    | some u =>
      rw [onSetStatus_in hl hu]
      split
      · exact user_setStatus hu
      · rfl

/-- **Only a login makes a socket use an account.** -/
theorem Step.user_new {inFlag inFlag' : Bool} (h : d.Step inFlag e d' inFlag') (hold : d.user t ≠ some u) (hnew : d'.user t = some u) :
    ∃ p l, e = ⟨.line t l, sendAll t (loginReply u)⟩ ∧ LogsIn u p l ∧
      d.accounts[u]? = some ⟨p, none⟩ := by
  cases h with
  | @command s l _ ts h =>
    have hr : ∀ {r : Directory × List Text}, some r = some (d', ts) → r.1.user t = some u ∧ r.2 = ts := by
      rintro _ ⟨⟩
      exact ⟨hnew, rfl⟩
    unfold answer at h
    split at h
    · exact absurd (user_onRegister.symm.trans (hr h).1) hold
    split at h
    · rename_i hw
      rcases user_onLogin (hr h).1 with hin | ⟨rfl, p, hu, hp, hfree, hsent⟩
      · exact absurd hin hold
      · exact ⟨p, l, by rw [← (hr h).2, hsent], ⟨hw, hu, hp⟩, hfree⟩
    split at h
    · exact absurd (user_onLogout (hr h).1) hold
    split at h
    · exact absurd (user_onExit (hr h).1) hold
    split at h
    · exact absurd (hr h).1 hold
    split at h
    · exact absurd (user_onSetStatus.symm.trans (hr h).1) hold
    split at h
    · exact absurd (hr h).1 hold
    · cases h
  | disconnect =>
    rw [user_logout] at hnew
    split at hnew
    · cases hnew
    · exact absurd hnew hold
  | other | connect => exact absurd hnew hold

end Directory

/-! ## In the server -/

/-- **Only a login logs in.** A step after which `t` is logged in as `u`, and was not before, is a `login` line from `t`
that gives `u` and its password, while nobody is logged in as `u`. -/
theorem userAt_new (h : chat.Reachable σ) (hst : chat.step σ e σ') (hold : σ.userAt t ≠ some u)
    (hnew : σ'.userAt t = some u) :
    ∃ p l, e = ⟨.line t l, sendAll t (loginReply u)⟩ ∧ LogsIn u p l ∧
      σ.registeredUsers[u]? = some p ∧ u ∉ σ.loggedInUsernames := by
  obtain ⟨⟨d, _⟩, -, hrep, hflag⟩ := simulation_accounts.reachable h
  obtain ⟨⟨d', _⟩, hd, hrep', _⟩ := simulation_accounts.step _ _ _ _ ⟨hrep, hflag⟩ hst
  obtain ⟨p, l, rfl, hlog, hfree⟩ := hd.user_new (hrep.users t ▸ hold) ((hrep'.users t).trans hnew)
  exact ⟨p, l, rfl, hlog, hrep.free_account.1 hfree⟩

/-- A password was registered at some point of the run. -/
theorem registered_run {es : List Event} (hrun : chat.Run start es σ) (hp : σ.registeredUsers[u]? = some p) :
    ∃ e ∈ es, Registers u p e.act := by
  have hstart : start.registeredUsers[u]? ≠ some p := by simp [start]
  obtain ⟨bs, e, cs, τ, τ', rfl, -, hno, hst, hin, -⟩ := hrun.last_entry
    (P := fun τ => τ.registeredUsers[u]? = some p) hstart hp
  refine ⟨e, by simp, password_new hst ?_ hin⟩
  intro hmem
  -- a registered name keeps its password, so it would have had `p` before
  obtain ⟨p', hp'⟩ := Option.isSome_iff_exists.1 (ExtTreeMap.mem_iff_isSome_getElem?.1 hmem)
  rw [password_step hst hp'] at hin
  exact hno (hp'.trans hin)

/-- **Authenticity.** Whoever is logged in under a name has sent a `login` line with the password that the name had in
the state before, and that a `register` line of an earlier step had given; nobody was logged in under the name then. That
line is the step in which the socket was logged in, and it has been so ever since. -/
theorem login_authentic {es : List Event} (hrun : chat.Run start es σ) (hs : s ∈ σ.loggedInClients) :
    ∃ p l es₁ es₂ σ₁ σ₂, LogsIn (σ.username s) p l ∧
      es = es₁ ++ ⟨.line s l, sendAll s (loginReply (σ.username s))⟩ :: es₂ ∧
      (∃ e ∈ es₁, Registers (σ.username s) p e.act) ∧ chat.Run start es₁ σ₁ ∧
      σ₁.registeredUsers[σ.username s]? = some p ∧ σ.username s ∉ σ₁.loggedInUsernames ∧
      chat.step σ₁ ⟨.line s l, sendAll s (loginReply (σ.username s))⟩ σ₂ ∧
      (chat.within fun τ => τ.userAt s = some (σ.username s)).Run σ₂ es₂ σ := by
  have hin : σ.userAt s = some (σ.username s) := if_pos hs
  obtain ⟨es₁, e, es₂, σ₁, σ₂, rfl, hrun₁, hno, hst, hyes, hrun₂⟩ := hrun.last_entry
    (P := fun τ => τ.userAt s = some (σ.username s)) (by simp [Server.userAt, start]) hin
  obtain ⟨p, l, rfl, hlog, hp, hfree⟩ := userAt_new ((System.Reachable.init rfl).run hrun₁) hst hno hyes
  exact ⟨p, l, es₁, es₂, σ₁, σ₂, hlog, rfl, registered_run hrun₁ hp, hrun₁, hp, hfree, hst, hrun₂⟩

/-- The second of two clients that log in to one account after each other. -/
theorem login_authentic_second :
    let σ := after start [.connect 4, .line 4 "register tom pw\n", .line 4 "login tom pw\n", .line 4 "logout\n",
      .connect 5, .line 5 "login tom pw\n"]
    ∃ p l, ∃ σ₁ : Server, ∃ es₂ σ₂, LogsIn "tom" p l ∧ σ₁.registeredUsers[("tom" : Text)]? = some p ∧
      ("tom" : Text) ∉ σ₁.loggedInUsernames ∧ chat.step σ₁ ⟨.line 5 l, sendAll 5 (loginReply "tom")⟩ σ₂ ∧
      (chat.within fun τ => τ.userAt 5 = some "tom".toList).Run σ₂ es₂ σ := by
  obtain ⟨es, hrun⟩ := run_after [.connect 4, .line 4 "register tom pw\n", .line 4 "login tom pw\n",
    .line 4 "logout\n", .connect 5, .line 5 "login tom pw\n"] start
  have hin : 5 ∈ (after start [.connect 4, .line 4 "register tom pw\n", .line 4 "login tom pw\n",
    .line 4 "logout\n", .connect 5, .line 5 "login tom pw\n"]).loggedInClients := by decide
  have hname : (after start [.connect 4, .line 4 "register tom pw\n", .line 4 "login tom pw\n",
    .line 4 "logout\n", .connect 5, .line 5 "login tom pw\n"]).username 5 = "tom".toList := by decide
  obtain ⟨p, l, _, es₂, σ₁, σ₂, hlog, _, _, _, hp, hfree, hst, hrun₂⟩ := login_authentic hrun hin
  rw [hname] at hlog hp hfree hst hrun₂
  exact ⟨p, l, σ₁, es₂, σ₂, hlog, hp, hfree, hst, hrun₂⟩

end IntroNP.Chat
