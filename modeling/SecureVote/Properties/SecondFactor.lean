import SecureVote.Properties.OtpLifecycle

/-!
# The second factor of a login

A client holds the state of a pending login in a signed cookie, which it can present again but not
forge. So a session token of a login with the second factor goes back, from cookie to cookie, to a
request that has checked the password, and to a code accepted for the challenge that this request
has issued; no challenge gives two tokens. From the read of the password to the token the login is
under way (`SigningIn`), but `verify_mfa` does not look at the session version again: only in runs
in which no password changes under a login, the token rests on the password of its user.
-/

open Txn Txn.Rules

namespace SecureVote

open Py

variable {L : AuthLib} {E : AuthEnvironment} {mfa : Bool} {d : AuthDb} {w : E.World}
  {s s' : Sys (authMachine L E mfa)} {b : Label} {i j k u : ℕ} {cid : PyStr}

/-! ### Clients -/

/-- A request of a client, not the call of a service function. -/
def AuthRequest.Endpoint : AuthRequest → Prop
  | .issueOtp _ _ _ _ | .verifyOtp _ _ _ _ => False
  | _ => True

/-- The two sessions have the same pending login. -/
def Session.SamePending (σ σ' : Session) : Prop :=
  σ.mfaPendingUserId = σ'.mfaPendingUserId ∧ σ.mfaChallengeId = σ'.mfaChallengeId

instance (σ σ' : Session) : Decidable (σ.SamePending σ') :=
  inferInstanceAs (Decidable (_ ∧ _))

theorem Session.SamePending.pending {σ σ' : Session} (h : σ.SamePending σ')
    (hσ : σ.Pending u cid) : σ'.Pending u cid :=
  ⟨h.1.symm.trans hσ.1, h.2.symm.trans hσ.2⟩

/-- Request `i` presents the pending login of the session that came with the reply of request `k`;
the other pages keep its keys. -/
def Presents (s : Sys (authMachine L E mfa)) (k i : ℕ) : Prop :=
  ∃ t p σ, s.threads[i]? = some t ∧ (k, .page p σ) ∈ s.replies ∧ t.request.session.SamePending σ

/-- A pending login that a client presents is one that the server has signed: cookies can be
replayed, but not forged. Nothing is asked of the arrival of a request, which does nothing yet. -/
def Signed (s : Sys (authMachine L E mfa)) (b : Label) : Prop :=
  b ≠ .start → ∀ i t, s.threads[i]? = some t →
    t.request.session.SamePending .empty ∨ ∃ k, Presents s k i

/-- The steps of runs of clients. -/
abbrev ClientStep : Sys (authMachine L E mfa) → Label → Prop :=
  Asked (fun s b => FreshIds s b ∧ Signed s b) AuthRequest.Endpoint

theorem Presents.step (h : Presents s k i) (hs : Step (authMachine L E mfa) b s s') :
    Presents s' k i := by
  obtain ⟨t, p, σ, ht, hk, hσ⟩ := h
  obtain ⟨t', ht', hreq, -⟩ := hs.threads ht
  exact ⟨t', p, σ, ht', (hs.trace_prefix.filterMap _).subset hk, by rw [hreq]; exact hσ⟩

/-! ### Logins under way -/

/-- A login of the user is under way: a request has read a row of the user with the right password,
or has checked it, or a challenge of the user is open, or a request has accepted a code for one and
has not issued its token. -/
inductive SigningIn (s : Sys (authMachine L E mfa)) (u : ℕ) : Prop
  | loaded {i t p l cookie session form d₀ x} (runs : s.Runs i t p l)
      (request : t.request = .login cookie session form) (read : l.snap .voters = some d₀)
      (row : d₀.base.userByUsername L.toLib form.username = some x) (user : x.id = u)
      (right : L.checkPasswordHash x.passwordHash form.password = true)
  | checked {i t p l v} (runs : s.Runs i t p l) (event : (i, .passwordChecked u v) ∈ s.emitted)
  | pending {c} (row : c ∈ s.db.otps.rows) (user : c.userId = u) (purpose : c.purpose = loginMfa)
      (live : c.consumedAt = none)
  | accepted {i t p l d₁ d₂ cid code} (runs : s.Runs i t p l) (commit : (i, d₁, d₂) ∈ s.commits)
      (accepts : Accepts L cid u loginMfa code d₁ d₂)
      (before : ∀ v token, (i, .loginCompleted u v token) ∉ s.emitted)

/-- Steps that meet `C` and are taken while a login of the user is under way. -/
abbrev DuringLogin (C : Sys (authMachine L E mfa) → Label → Prop) (u : ℕ) :
    Sys (authMachine L E mfa) → Label → Prop :=
  fun s b => C s b ∧ SigningIn s u

variable {C : Sys (authMachine L E mfa) → Label → Prop}

/-- From the read of a row with the right password on, a login of its user is under way. -/
theorem during_of_loaded (h : ReachIf C (Sys.init d w) s) {t : Thread (authMachine L E mfa)} {p l}
    (hr : s.Runs i t p l) {cookie : Option PyStr} {session : Session} {form : LoginForm}
    (hreq : t.request = .login cookie session form) {d₀ : AuthDb}
    (hread : l.snap .voters = some d₀) {x : User}
    (hrow : d₀.base.userByUsername L.toLib form.username = some x)
    (hright : L.checkPasswordHash x.passwordHash form.password = true) :
    ∃ s₀, ReachIf C (Sys.init d w) s₀ ∧ s₀.db = d₀ ∧ ReachIf (DuringLogin C x.id) s₀ s := by
  induction h generalizing t p l with
  | refl => simp [Sys.Runs, Sys.init] at hr
  | @tail s₁ s₂ h₁ hstep ih =>
    obtain ⟨b, hb, hC⟩ := hstep
    rcases hb.snap hr hread with ⟨t₀, p₀, l₀, hr₀, hread₀⟩ | ⟨rfl, -⟩
    · obtain ⟨t', ht', hreq', -⟩ := hb.threads hr₀.1
      obtain rfl : t = t' := Option.some.inj (hr.1.symm.trans ht')
      have hreq₀ := hreq'.symm.trans hreq
      obtain ⟨s₀, hs₀, hdb, hduring⟩ := ih hr₀ hreq₀ hread₀
      exact ⟨s₀, hs₀, hdb, hduring.step hb ⟨hC, .loaded hr₀ hreq₀ hread₀ hrow rfl hright⟩⟩
    · exact ⟨s₂, ReachIf.step h₁ hb hC, rfl, .refl⟩

/-- Request `j` has checked the password against the row `x` in the step from `s₁` to `s₂`, and from
the read of the row to the state `s` a login of its user has been under way. -/
structure CheckedBy (C : Sys (authMachine L E mfa) → Label → Prop) (d : AuthDb) (w : E.World)
    (s : Sys (authMachine L E mfa)) (j : ℕ) (x : User) (s₁ s₂ : Sys (authMachine L E mfa)) :
    Prop where
  loaded : ∃ s₀, ReachIf C (Sys.init d w) s₀ ∧ s₀.db.base.users.get? x.id = some x ∧
    ReachIf (DuringLogin C x.id) s₀ s₁
  check : StepIf (DuringLogin C x.id) s₁ s₂
  event : s₂.emitted = s₁.emitted ++ [(j, .passwordChecked x.id x.sessionVersion)]
  since : ReachIf (DuringLogin C x.id) s₂ s
  request : ∃ t cookie session form, s.threads[j]? = some t ∧
    t.request = .login cookie session form ∧
    L.checkPasswordHash x.passwordHash form.password = true

theorem CheckedBy.step {x : User} {s₁ s₂ : Sys (authMachine L E mfa)}
    (h : CheckedBy C d w s j x s₁ s₂) (hs : Step (authMachine L E mfa) b s s') (hC : C s b)
    (hin : SigningIn s x.id) : CheckedBy C d w s' j x s₁ s₂ := by
  obtain ⟨t, cookie, session, form, ht, hreq, hright⟩ := h.request
  obtain ⟨t', ht', hreq', -⟩ := hs.threads ht
  exact ⟨h.loaded, h.check, h.event, h.since.step hs ⟨hC, hin⟩,
    t', cookie, session, form, ht', hreq'.trans hreq, hright⟩

/-- A thread that has left an event and runs after a step was running before it. -/
theorem runs_of_emitted (h : Reach (Sys.init d w) s) (hs : Step (authMachine L E mfa) b s s')
    {t : Thread (authMachine L E mfa)} {p l} (hr : s'.Runs i t p l)
    {e : Ev AuthDb AuthEvent AuthReply} (he : (i, e) ∈ s.trace) :
    ∃ t₀ p₀ l₀, s.Runs i t₀ p₀ l₀ ∧ t₀.request = t.request := by
  rcases hs.runs hr with hold | hge
  · exact hold
  · exact absurd ((authCertified h).bound _ he) (not_lt.mpr hge)

/-- While a request runs that has checked a password, a login of the user is under way. -/
theorem checked_of_running (h : ReachIf C (Sys.init d w) s) {t : Thread (authMachine L E mfa)}
    {p l} (hr : s.Runs j t p l) {v : ℤ} (hj : (j, .passwordChecked u v) ∈ s.emitted) :
    ∃ x s₁ s₂, x.id = u ∧ CheckedBy C d w s j x s₁ s₂ := by
  induction h generalizing t p l v with
  | refl => simp [Sys.Runs, Sys.init] at hr
  | @tail s₁ s₂ h₁ hstep ih =>
    obtain ⟨b, hb, hC⟩ := hstep
    have hold : (j, .passwordChecked u v) ∈ s₁.emitted →
        ∃ x s₃ s₄, x.id = u ∧ CheckedBy C d w s₂ j x s₃ s₄ := by
      intro hj
      obtain ⟨t₀, p₀, l₀, hr₀, -⟩ := runs_of_emitted (ReachIf.reach h₁) hb hr (Sys.mem_emitted.mp hj)
      obtain ⟨x, s₃, s₄, rfl, hx⟩ := ih hr₀ hj
      exact ⟨x, s₃, s₄, rfl, hx.step hb hC (.checked hr₀ hj)⟩
    rcases authEmit_of_step (ReachIf.reach h₁) hb with heq | ⟨pid, t', q, l', o, rfl, hr', hemit, -, heq⟩
    · exact hold (heq ▸ hj)
    rw [heq] at hj
    rcases List.mem_append.mp hj with hj | hj
    · exact hold hj
    -- the check itself: the row it has read is one of its snapshot
    cases List.mem_singleton.mp hj
    obtain ⟨cookie, session, form, d₀, x, hreq, hread, hrow, rfl, rfl, hright⟩ := hemit
    obtain ⟨s₀, hs₀, rfl, hduring⟩ := during_of_loaded h₁ hr' hreq hread hrow hright
    have hin : SigningIn s₁ x.id := .loaded hr' hreq hread hrow rfl hright
    obtain ⟨t₂, ht₂, hreq₂, -⟩ := hb.threads hr'.1
    refine ⟨x, s₁, s₂, rfl, ⟨s₀, hs₀, ?_, hduring⟩, ⟨_, hb, hC, hin⟩, heq, .refl,
      t₂, cookie, session, form, ht₂, hreq₂.trans hreq, hright⟩
    exact Table.get?_key (List.mem_of_find?_eq_some hrow)

/-! ### Pending logins -/

/-- Request `j` has issued the challenge to the user for a login. -/
def ChallengeOf (s : Sys (authMachine L E mfa)) (j u : ℕ) (cid : PyStr) : Prop :=
  ∃ t d₁ d₂ clock c, s.threads[j]? = some t ∧ (j, d₁, d₂) ∈ s.commits ∧
    OtpIssued L t.request d₁ clock d₂ c ∧ c.id = cid ∧ c.userId = u ∧ c.purpose = loginMfa

theorem ChallengeOf.step (h : ChallengeOf s j u cid) (hs : Step (authMachine L E mfa) b s s') :
    ChallengeOf s' j u cid := by
  obtain ⟨t, d₁, d₂, clock, c, ht, hmem, hissued, hc⟩ := h
  obtain ⟨t', ht', hreq, -⟩ := hs.threads ht
  exact ⟨t', d₁, d₂, clock, c, ht', (hs.trace_prefix.filterMap _).subset hmem,
    by rw [hreq]; exact hissued, hc⟩

/-- The challenge of the user is open. -/
def OpenFor (s : Sys (authMachine L E mfa)) (u : ℕ) (cid : PyStr) : Prop :=
  ∃ c, s.db.otps.get? cid = some c ∧ c.userId = u ∧ c.purpose = loginMfa ∧ c.consumedAt = none

theorem OpenFor.signingIn (h : OpenFor s u cid) : SigningIn s u := by
  obtain ⟨c, hc, hu, hp, hlive⟩ := h
  exact .pending (OtpTable.get?_eq_some.mp hc).1 hu hp hlive

/-- A challenge that was issued before a step and is open after it was open before it. -/
theorem OpenFor.of_step (h : ReachIf FreshIds (Sys.init d w) s)
    (hs : Step (authMachine L E mfa) b s s') (hfresh : FreshIds s b) (hj : ChallengeOf s j u cid)
    (ho : OpenFor s' u cid) : OpenFor s u cid := by
  obtain ⟨c, hc, hu, hp, hlive⟩ := ho
  rcases rowStep_of_step h hs hfresh cid with ⟨hdb, -⟩ | ⟨pid, t, -, -, hrow, hnew⟩
  · exact ⟨c, hdb ▸ hc, hu, hp, hlive⟩
  cases hrow with
  | same heq => exact ⟨c, heq ▸ hc, hu, hp, hlive⟩
  | removed hnone why =>
    rw [hnone] at hc
    cases hc
  | @created c' hid before after hissued =>
    -- the id is known already
    obtain ⟨hfree, hfreed⟩ := hnew c' hissued.creates
    obtain ⟨t₀, d₁, d₂, clock, c₀, -, hmem, hissued₀, hid₀, -⟩ := hj
    have hsome : (d₂.otps.get? cid).isSome := by
      rw [OtpTable.get?_eq_some.mpr ⟨hissued₀.mem, hid₀⟩]
      rfl
    rw [hid] at hfree hfreed
    rcases known_id h hmem hsome with hknown | ⟨y, hy, hknown⟩
    · simp [hfree] at hknown
    · simp [hfreed y hy] at hknown
  | @judged c₁ c' code now result hid before after hjudged =>
    obtain rfl : c' = c := Option.some.inj (after.symm.trans hc)
    obtain ⟨-, hu', hp', -⟩ := judge_keeps hjudged.judged
    exact ⟨c₁, before, hu'.symm.trans hu, hp'.symm.trans hp, hjudged.live⟩

/-- **A pending login goes back to a password check.** The session of a reply with a pending login
goes back to a request that has checked the password and issued the challenge, and as long as the
challenge is open, the login is under way. -/
theorem pending_login (hC : ∀ s b, C s b → ClientStep s b) (h : ReachIf C (Sys.init d w) s)
    {q : Response} {σ : Session} (hk : (k, .page q σ) ∈ s.replies) (hσ : σ.Pending u cid) :
    ∃ j, ChallengeOf s j u cid ∧ Relation.ReflTransGen (Presents s) j k ∧
      (OpenFor s u cid → ∃ x s₁ s₂, x.id = u ∧ CheckedBy C d w s j x s₁ s₂) := by
  induction h generalizing k q σ with
  | refl => cases hk
  | @tail s₁ s₂ h₁ hstep ih =>
    obtain ⟨b, hb, hCb⟩ := hstep
    obtain ⟨⟨hfresh, hsigned⟩, -⟩ := hC _ _ hCb
    have hfresh₁ : ReachIf FreshIds (Sys.init d w) s₁ := ReachIf.mono (fun _ _ hCs => (hC _ _ hCs).1.1) h₁
    have hold : ∀ {k q σ}, (k, .page q σ) ∈ s₁.replies → σ.Pending u cid →
        ∃ j, ChallengeOf s₂ j u cid ∧ Relation.ReflTransGen (Presents s₂) j k ∧
          (OpenFor s₂ u cid → ∃ x s₃ s₄, x.id = u ∧ CheckedBy C d w s₂ j x s₃ s₄) := by
      intro k q σ hk hσ
      obtain ⟨j, hj, hchain, hchecked⟩ := ih hk hσ
      refine ⟨j, hj.step hb, ?_, fun ho => ?_⟩
      · exact Relation.ReflTransGen.mono (fun _ _ hp => hp.step hb) _ _ hchain
      have ho₁ := OpenFor.of_step hfresh₁ hb hfresh hj ho
      obtain ⟨x, s₃, s₄, rfl, hx⟩ := hchecked ho₁
      exact ⟨x, s₃, s₄, rfl, hx.step hb hCb ho₁.signingIn⟩
    rcases hb.replies with heq | ⟨pid, t, a, l, hr, heq, t', ht', hreq, hfin⟩
    · exact hold (heq ▸ hk) hσ
    have hk' := hk
    rw [heq] at hk'
    rcases List.mem_append.mp hk' with hk' | hk'
    · exact hold hk' hσ
    cases List.mem_singleton.mp hk'
    obtain ⟨log, hlog, hpost⟩ := (authCertified ((ReachIf.reach h₁).step hb)).finished ht' hfin
    rcases hpost.pending rfl hσ with hcarried | ⟨⟨v, hv⟩, c, code, hid, hu, hp, d₁, d₂, clock, hw,
      hissued, -⟩
    · -- the pending login came with the request
      rw [hreq] at hcarried
      rcases hsigned (hb.ne_start_of_reply heq) k t hr.1 with hempty | ⟨k₀, t₀, p₀, σ₀, ht₀, hk₀, hsame⟩
      · cases (hempty.pending hcarried).1
      obtain rfl : t = t₀ := Option.some.inj (hr.1.symm.trans ht₀)
      obtain ⟨j, hj, hchain, hchecked⟩ := hold hk₀ (hsame.pending hcarried)
      have hpresents : Presents s₁ k₀ k := ⟨t, p₀, σ₀, ht₀, hk₀, hsame⟩
      exact ⟨j, hj, hchain.tail (hpresents.step hb), hchecked⟩
    · -- the request has started it
      obtain ⟨hdb, hemitted, -⟩ := hb.of_reply heq
      have hmem : ∀ e ∈ log, e ∈ s₂.log k := fun e he => by
        rw [hlog]
        exact List.mem_append_left _ he
      refine ⟨k, ⟨t', d₁, d₂, clock, c, ht', Sys.mem_writes_log.mp (hmem _ hw), hissued, hid, hu,
        hp⟩, .refl, fun _ => ?_⟩
      have hevent : (k, .passwordChecked u v) ∈ s₁.emitted := by
        rw [← hemitted]
        exact Sys.mem_emit_log.mp (hmem _ hv)
      obtain ⟨x, s₃, s₄, rfl, hx⟩ := checked_of_running h₁ hr hevent
      exact ⟨x, s₃, s₄, rfl, hx.step hb hCb (.checked hr hevent)⟩

/-! ### Accepted codes -/

/-- Request `i` has accepted a code for a challenge that request `j` has issued after it had checked
the password against the row `x`, and the session of `i` goes back to `j`. The state `s₃` is the one
after the acceptance. -/
structure AcceptedBy (C : Sys (authMachine L E mfa) → Label → Prop) (d : AuthDb) (w : E.World)
    (s : Sys (authMachine L E mfa)) (i j : ℕ) (x : User) (cid : PyStr)
    (s₁ s₂ s₃ : Sys (authMachine L E mfa)) : Prop where
  challenge : ChallengeOf s j x.id cid
  chain : Relation.TransGen (Presents s) j i
  checked : CheckedBy C d w s₃ j x s₁ s₂
  fresh : ∀ t p l, s₃.Runs i t p l → l = .fresh
  since : ReachIf (DuringLogin C x.id) s₃ s

theorem AcceptedBy.step {x : User} {s₁ s₂ s₃ : Sys (authMachine L E mfa)}
    (h : AcceptedBy C d w s i j x cid s₁ s₂ s₃) (hs : Step (authMachine L E mfa) b s s')
    (hC : C s b) (hin : SigningIn s x.id) : AcceptedBy C d w s' i j x cid s₁ s₂ s₃ :=
  ⟨h.challenge.step hs, Relation.TransGen.mono (fun _ _ hp => hp.step hs) _ _ h.chain, h.checked,
    h.fresh, h.since.step hs ⟨hC, hin⟩⟩

/-- The challenge that a commit accepts is open before it. -/
theorem Accepts.openFor {code : PyStr} {d' : AuthDb}
    (h : Accepts L cid u loginMfa code s.db d') : OpenFor s u cid := by
  obtain ⟨c, -, hc, hid, hu, hp, hlive, -⟩ := h
  exact ⟨c, OtpTable.get?_eq_some.mpr ⟨hc, hid⟩, hu, hp, hlive⟩

/-- The request whose commit accepts a code has submitted one for the challenge. -/
theorem verifies_of_accepts (h : ReachIf FreshIds (Sys.init d w) s)
    (hs : Step (authMachine L E mfa) b s s') (hfresh : FreshIds s b) {code : PyStr}
    (hacc : Accepts L cid u loginMfa code s.db s'.db)
    (hcommits : s'.commits = s.commits ++ [(i, s.db, s'.db)]) :
    ∃ t code, s.threads[i]? = some t ∧ t.request.Verifies cid u loginMfa code := by
  have hacceptance := hacc.acceptance
  obtain ⟨c, -, hc, hid, rfl, hp, -⟩ := hacc
  have hget : s.db.otps.get? cid = some c := OtpTable.get?_eq_some.mpr ⟨hc, hid⟩
  rcases rowStep_of_step h hs hfresh cid with ⟨-, heq⟩ | ⟨pid, t, ht, heq, hrow, -⟩
  · rw [heq] at hcommits
    simp at hcommits
  obtain rfl : pid = i := by
    have hlast := List.append_cancel_left (heq.symm.trans hcommits)
    simpa using hlast
  cases hrow with
  | same hsame => simp [acceptance_of_eq hsame] at hacceptance
  | removed hnone why => simp [acceptance, hnone] at hacceptance
  | created hid before after hissued =>
    rw [hget] at before
    cases before
  | @judged c₁ c' code' now result hid₁ before after hjudged =>
    obtain rfl : c = c₁ := Option.some.inj (hget.symm.trans before)
    have hreq := hjudged.request
    rw [hid, hp] at hreq
    exact ⟨t, code', ht, hreq⟩

/-- **An accepted code goes back to a password check**, until the token is issued. -/
theorem accepted_login (hC : ∀ s b, C s b → ClientStep s b) (h : ReachIf C (Sys.init d w) s)
    {t : Thread (authMachine L E mfa)} {p l} (hr : s.Runs i t p l) {d₁ d₂ : AuthDb} {code : PyStr}
    (hmem : (i, d₁, d₂) ∈ s.commits) (hacc : Accepts L cid u loginMfa code d₁ d₂)
    (hno : ∀ v token, (i, .loginCompleted u v token) ∉ s.emitted) :
    ∃ j x s₁ s₂ s₃, x.id = u ∧ AcceptedBy C d w s i j x cid s₁ s₂ s₃ := by
  induction h generalizing t p l with
  | refl => simp [Sys.Runs, Sys.init] at hr
  | @tail s₁ s₂ h₁ hstep ih =>
    obtain ⟨b, hb, hCb⟩ := hstep
    obtain ⟨⟨hfresh, hsigned⟩, hasked⟩ := hC _ _ hCb
    have hno₁ : ∀ v token, (i, .loginCompleted u v token) ∉ s₁.emitted := fun v token hi =>
      hno v token ((hb.trace_prefix.filterMap _).subset hi)
    have hold : (i, d₁, d₂) ∈ s₁.commits →
        ∃ j x s₃ s₄ s₅, x.id = u ∧ AcceptedBy C d w s₂ i j x cid s₃ s₄ s₅ := by
      intro hmem
      obtain ⟨t₀, p₀, l₀, hr₀, -⟩ :=
        runs_of_emitted (ReachIf.reach h₁) hb hr (Sys.mem_commits.mp hmem)
      obtain ⟨j, x, s₃, s₄, s₅, rfl, hx⟩ := ih hr₀ hmem hno₁
      exact ⟨j, x, s₃, s₄, s₅, rfl, hx.step hb hCb (.accepted hr₀ hmem hacc hno₁)⟩
    rcases hb.commits with ⟨-, heq⟩ | ⟨pid, heq⟩
    · exact hold (heq ▸ hmem)
    have hmem' := hmem
    rw [heq] at hmem'
    rcases List.mem_append.mp hmem' with hmem' | hmem'
    · exact hold hmem'
    cases List.mem_singleton.mp hmem'
    -- the commit itself: its request presents the pending login of a signed session
    have hopen := hacc.openFor
    have hfresh₁ : ReachIf FreshIds (Sys.init d w) s₁ :=
      ReachIf.mono (fun _ _ hCs => (hC _ _ hCs).1.1) h₁
    obtain ⟨t₁, code', ht₁, hreq⟩ := verifies_of_accepts hfresh₁ hb hfresh hacc heq
    have hpending : t₁.request.session.Pending u cid := by
      rcases hreq with hreq | ⟨cookie, session, otp, hreq, hu, hid, -⟩
      · have hclient := hasked t₁ (List.mem_of_getElem? ht₁)
        rw [hreq] at hclient
        exact hclient.elim
      · rw [hreq]
        exact ⟨hu, hid⟩
    rcases hsigned (hb.ne_start_of_commit heq) i t₁ ht₁ with hempty | ⟨k, t₀, p₀, σ, ht₀, hk, hsame⟩
    · cases (hempty.pending hpending).1
    obtain rfl : t₁ = t₀ := Option.some.inj (ht₁.symm.trans ht₀)
    obtain ⟨j, hj, hchain, hchecked⟩ := pending_login hC h₁ hk (hsame.pending hpending)
    obtain ⟨x, s₃, s₄, rfl, hx⟩ := hchecked hopen
    have hpresents : Presents s₁ k i := ⟨t₁, p₀, σ, ht₁, hk, hsame⟩
    refine ⟨j, x, s₃, s₄, s₂, rfl, hj.step hb, ?_, hx.step hb hCb hopen.signingIn,
      fun t p l hr => hb.fresh_of_commit heq hr, .refl⟩
    exact Relation.TransGen.mono (fun _ _ hp => hp.step hb) _ _
      (Relation.TransGen.tail' hchain hpresents)

/-! ### Session tokens -/

/-- The issue of a session token by `_complete_login`. -/
def AuthEvent.isToken : AuthEvent → Bool
  | .loginCompleted _ _ _ => true
  | _ => false

/-- The session tokens of requests that the challenge has returned `valid` to. -/
def tokensOf (s : Sys (authMachine L E mfa)) (cid : PyStr) : List (ℕ × AuthEvent) :=
  s.emitted.filter fun e => e.2.isToken && s.emitted.any fun v => v.1 = e.1 && v.2.isValid cid

/-- With the second factor on, a request issues at most one session token. -/
theorem tokens_of_request {s : Sys (authMachine L E true)} (h : Reach (Sys.init d w) s) (i : ℕ) :
    (s.emitted.filter fun e => e.1 = i && e.2.isToken).length ≤ 1 := by
  induction h with
  | refl => exact Nat.zero_le _
  | @tail s₁ s₂ hr hstep ih =>
    obtain ⟨b, hb, -⟩ := hstep
    rcases authEmit_of_step hr hb with heq | ⟨pid, t, q, l, o, -, -, hemit, -, heq⟩
    · rw [heq]
      exact ih
    rw [heq, filter_snoc]
    split
    swap
    · simpa using ih
    next hlast =>
      simp only [Bool.and_eq_true, decide_eq_true_eq] at hlast
      obtain ⟨rfl, htoken⟩ := hlast
      have hnone : (s₁.emitted.filter fun e => decide (e.1 = pid) && e.2.isToken) = [] := by
        refine List.filter_eq_nil_iff.mpr fun e he hp => ?_
        simp only [Bool.and_eq_true, decide_eq_true_eq] at hp
        cases o with
        | loginCompleted u v token =>
          refine (hemit.2 rfl).1 ⟨e.2, Sys.mem_emit_log.mpr ?_, ?_⟩
          · rw [← hp.1]
            exact he
          · cases he₂ : e.2 <;> rw [he₂] at hp <;> first | trivial | cases hp.2
        | _ => cases htoken
      rw [hnone]
      exact le_rfl

/-- **A challenge gives at most one session token.** -/
theorem tokensOf_le_one {s : Sys (authMachine L E true)} (h : ReachIf FreshIds (Sys.init d w) s)
    (cid : PyStr) : (tokensOf s cid).length ≤ 1 := by
  have hvalid : ∀ {v : ℕ × AuthEvent}, v ∈ s.emitted → v.2.isValid cid = true →
      v ∈ validReturns s cid := fun hv hcid => List.mem_filter.mpr ⟨hv, hcid⟩
  cases hreturns : validReturns s cid with
  | nil =>
    have hnil : tokensOf s cid = [] := by
      refine List.filter_eq_nil_iff.mpr fun e he hp => ?_
      simp only [Bool.and_eq_true, List.any_eq_true, decide_eq_true_eq] at hp
      obtain ⟨-, v, hv, -, hcid⟩ := hp
      have hmem := hvalid hv hcid
      rw [hreturns] at hmem
      cases hmem
    rw [hnil]
    exact Nat.zero_le _
  | cons v₀ vs =>
    -- all tokens of the challenge are of the one request that `valid` was returned to
    have hone := validReturns_le_one h cid
    rw [hreturns, List.length_cons] at hone
    obtain rfl : vs = [] := List.length_eq_zero_iff.mp (by omega)
    have hsub : List.Sublist (tokensOf s cid)
        (s.emitted.filter fun e => e.1 = v₀.1 && e.2.isToken) := by
      refine List.monotone_filter_right _ fun e hp => ?_
      simp only [Bool.and_eq_true, List.any_eq_true, decide_eq_true_eq] at hp ⊢
      obtain ⟨htoken, v, hv, hid, hcid⟩ := hp
      have hmem := hvalid hv hcid
      rw [hreturns] at hmem
      exact ⟨by rw [← hid, List.mem_singleton.mp hmem], htoken⟩
    exact hsub.length_le.trans (tokens_of_request h.reach v₀.1)

/-- The session token that request `i` is about to issue to the user rests on a login: request `j`
has checked the password of the user against the row `x`, the session of `i` goes back to `j`, and
`i` has accepted a code for the challenge that `j` has issued. The check is the step to `s₂`. -/
structure RestsOn (d : AuthDb) (w : E.World) (s : Sys (authMachine L E mfa)) (i u j : ℕ) (x : User)
    (cid code : PyStr) (s₂ : Sys (authMachine L E mfa)) : Prop where
  user : x.id = u
  password : ∃ t cookie session form, s.threads[j]? = some t ∧
    t.request = .login cookie session form ∧
    L.checkPasswordHash x.passwordHash form.password = true
  check : ∃ s₁ b, Reach (Sys.init d w) s₁ ∧ Step (authMachine L E mfa) b s₁ s₂ ∧
    s₂.emitted = s₁.emitted ++ [(j, .passwordChecked u x.sessionVersion)]
  since : Reach s₂ s
  chain : Relation.TransGen (Presents s) j i
  challenge : ChallengeOf s j u cid
  accepted : ∃ d₁ d₂, (i, d₁, d₂) ∈ s.commits ∧ Accepts L cid u loginMfa code d₁ d₂
  verified : (i, .otpVerified cid u loginMfa code .valid) ∈ s.emitted

theorem CheckedBy.of_reach {x : User} {s₁ s₂ : Sys (authMachine L E mfa)}
    (h : CheckedBy C d w s j x s₁ s₂) (hs : ReachIf (DuringLogin C x.id) s s') :
    CheckedBy C d w s' j x s₁ s₂ := by
  induction hs with
  | refl => exact h
  | tail hr hstep ih =>
    obtain ⟨b, hb, hC, hin⟩ := hstep
    exact ih.step hb hC hin

/-- **With the second factor on, a session token rests on a login**, which has been under way since
its request has read the password. -/
theorem login_of_token {s s' : Sys (authMachine L E true)}
    {C : Sys (authMachine L E true) → Label → Prop} (hC : ∀ s b, C s b → ClientStep s b)
    (h : ReachIf C (Sys.init d w) s) (hs : Step (authMachine L E true) b s s') {v : ℤ}
    {token : PyStr} (htoken : s'.emitted = s.emitted ++ [(i, .loginCompleted u v token)]) :
    ∃ j x cid code s₁ s₂ s₃, RestsOn d w s i u j x cid code s₂ ∧
      AcceptedBy C d w s i j x cid s₁ s₂ s₃ ∧
      ∃ t p l c d₀ y, s.Runs i t p l ∧ l.snap c = some d₀ ∧ d₀.base.users.get? u = some y ∧
        y.sessionVersion = v := by
  rcases authEmit_of_step h.reach hs with heq | ⟨pid, t, p, l, o, -, hr, hemit, -, heq⟩
  · rw [heq] at htoken
    simp at htoken
  cases List.mem_singleton.mp (by
    rw [← List.append_cancel_left (heq.symm.trans htoken)]
    exact List.mem_singleton_self _)
  obtain ⟨⟨c, d₀, y, iat, hread, hrow, hver, -⟩, hmfa⟩ := hemit
  obtain ⟨hfirst, cid, code, -, hvalid⟩ := hmfa rfl
  have hverified := Sys.mem_emit_log.mp hvalid
  obtain ⟨-, d₁, d₂, -, -, hmem, hacc⟩ := accepts_of_emitted h.reach hverified
  have hno : ∀ v token, (i, .loginCompleted u v token) ∉ s.emitted := fun v token hi =>
    hfirst ⟨_, Sys.mem_emit_log.mpr hi, trivial⟩
  obtain ⟨j, x, s₁, s₂, s₃, rfl, hx⟩ := accepted_login hC h hr hmem hacc hno
  have hchecked := hx.checked.of_reach hx.since
  obtain ⟨s₀, hs₀, -, hduring⟩ := hchecked.loaded
  obtain ⟨b', hb', -⟩ := hchecked.check
  refine ⟨j, x, cid, code, s₁, s₂, s₃, ?_, hx, t, p, l, c, d₀, y, hr, hread, hrow, hver⟩
  exact ⟨rfl, hchecked.request, ⟨s₁, b', hs₀.reach.trans hduring.reach, hb', hchecked.event⟩,
    hchecked.since.reach, hx.chain, hx.challenge, ⟨d₁, d₂, hmem, hacc⟩, hverified⟩

/-! ### Passwords that stay -/

/-- What a password is to the code: the hash that it is checked against, and the session version. -/
def passwordState (d : AuthDb) (u : ℕ) : Option (PyStr × ℤ) :=
  (d.base.users.get? u).map fun x => (x.passwordHash, x.sessionVersion)

/-- A step that commits a change of the password or the session version of a user is not taken while
a login of the user is under way. -/
def PasswordStays (s : Sys (authMachine L E mfa)) (b : Label) : Prop :=
  ∀ pid t p l d' u, b = .run pid → s.Runs pid t p l → p.commit? s.db = some d' → SigningIn s u →
    passwordState d' u = passwordState s.db u

/-- The password of the user has been the one of the row `x` since the state `s₂`. -/
structure PasswordKept (s₂ s : Sys (authMachine L E mfa)) (x : User) : Prop where
  now : passwordState s.db x.id = some (x.passwordHash, x.sessionVersion)
  commits : ∃ ys, s.commits = s₂.commits ++ ys ∧ ∀ y ∈ ys,
    passwordState y.2.1 x.id = some (x.passwordHash, x.sessionVersion) ∧
    passwordState y.2.2 x.id = some (x.passwordHash, x.sessionVersion)

/-- While a login is under way its password stays. -/
theorem passwordKept_of_during {s₀ : Sys (authMachine L E mfa)}
    (hC : ∀ s b, C s b → PasswordStays s b) (h : Reach (Sys.init d w) s₀) {x : User}
    (hnow : passwordState s₀.db x.id = some (x.passwordHash, x.sessionVersion))
    (hs : ReachIf (DuringLogin C x.id) s₀ s) : PasswordKept s₀ s x := by
  induction hs with
  | refl => exact ⟨hnow, [], (List.append_nil _).symm, fun y hy => by cases hy⟩
  | @tail s₁ s₂ hr hstep ih =>
    obtain ⟨b, hb, hCb, hin⟩ := hstep
    obtain ⟨ys, hys, hkept⟩ := ih.commits
    rcases authAct_of_step (h.trans (ReachIf.reach hr)) hb with
      ⟨hdb, hcommits⟩ | ⟨pid, t, p, l, hlabel, hrun, hcommit, -, hcommits⟩
    · exact ⟨hdb ▸ ih.now, ys, hcommits.trans hys, hkept⟩
    have hnext : passwordState s₂.db x.id = some (x.passwordHash, x.sessionVersion) :=
      (hC _ _ hCb pid t p l _ x.id hlabel hrun hcommit hin).trans ih.now
    refine ⟨hnext, ys ++ [(pid, s₁.db, s₂.db)], ?_, fun y hy => ?_⟩
    · rw [hcommits, hys, List.append_assoc]
    · rcases List.mem_append.mp hy with hy | hy
      · exact hkept y hy
      · rw [List.mem_singleton.mp hy]
        exact ⟨ih.now, hnext⟩

/-- The steps of runs of clients in which no password changes under a login. -/
abbrev SteadyStep : Sys (authMachine L E mfa) → Label → Prop :=
  fun s b => ClientStep s b ∧ PasswordStays s b

/-- **The second factor.** With it on, in a run of clients in which no password changes under a
login: every session token rests on a login, whose request has checked the password that the user
still has, and which the token carries the session version of; and a challenge gives at most one
token. -/
theorem second_factor {s : Sys (authMachine L E true)} (h : ReachIf SteadyStep (Sys.init d w) s) :
    (∀ s' b i u v token, Step (authMachine L E true) b s s' →
      s'.emitted = s.emitted ++ [(i, .loginCompleted u v token)] →
      ∃ j x cid code s₂, RestsOn d w s i u j x cid code s₂ ∧ x.sessionVersion = v ∧
        PasswordKept s₂ s x) ∧
    ∀ cid, (tokensOf s cid).length ≤ 1 := by
  refine ⟨fun s' b i u v token hs htoken => ?_,
    tokensOf_le_one (h.mono fun _ _ hC => hC.1.1.1)⟩
  have hclient : ∀ (s : Sys (authMachine L E true)) b, SteadyStep s b → ClientStep s b :=
    fun _ _ hC => hC.1
  have hstays : ∀ (s : Sys (authMachine L E true)) b, SteadyStep s b → PasswordStays s b :=
    fun _ _ hC => hC.2
  obtain ⟨j, x, cid, code, s₁, s₂, s₃, hrests, hx, t, p, l, c, d₀, y, hr, hread, hrow, rfl⟩ :=
    login_of_token hclient h hs htoken
  obtain ⟨s₀, hs₀, hrow₀, hbefore⟩ := hx.checked.loaded
  have hloaded : passwordState s₀.db x.id = some (x.passwordHash, x.sessionVersion) := by
    rw [passwordState, hrow₀]
    rfl
  have hduring : ReachIf (DuringLogin SteadyStep x.id) s₀ s₂ := hbefore.tail hx.checked.check
  have hcheck := passwordKept_of_during hstays hs₀.reach hloaded hduring
  have hreach : Reach (Sys.init d w) s₂ := hs₀.reach.trans hduring.reach
  refine ⟨j, x, cid, code, s₂, hrests, ?_, passwordKept_of_during hstays hreach hcheck.now
    (hx.checked.since.trans hx.since)⟩
  -- the row that the token was issued for was read after the code had been accepted
  rcases ReachIf.snap hx.since hr hread with ⟨t₀, p₀, l₀, hr₀, hread₀⟩ | ⟨s₅, hs₅, -, rfl⟩
  · rw [hx.fresh _ _ _ hr₀] at hread₀
    cases hread₀
  · have hkept := passwordKept_of_during hstays hreach hcheck.now (hx.checked.since.trans hs₅)
    have hnow := hkept.now
    rw [passwordState, hrests.user, hrow] at hnow
    exact (congrArg Prod.snd (Option.some.inj hnow)).symm

/-! ### A login, and a login with a change of the password in it -/

/-- A test for signed sessions. -/
def signedTest (s : Sys (authMachine L E mfa)) (b : Label) : Bool :=
  b = .start || s.threads.all fun t => t.request.session.SamePending .empty ||
    s.replies.any fun x =>
      match x.2 with
      | .page _ σ => t.request.session.SamePending σ
      | _ => false

theorem signed_of_test (h : signedTest s b = true) : Signed s b := by
  intro hb i t ht
  have hall := (Bool.or_eq_true_iff.mp h).resolve_left (by simpa using hb)
  rcases Bool.or_eq_true_iff.mp (List.all_eq_true.mp hall t (List.mem_of_getElem? ht)) with
    hempty | hreply
  · exact .inl (of_decide_eq_true hempty)
  · obtain ⟨⟨k, a⟩, hk, hsame⟩ := List.any_eq_true.mp hreply
    cases a with
    | page p σ => exact .inr ⟨k, t, p, σ, ht, hk, of_decide_eq_true hsame⟩
    | _ => cases hsame

/-- The password states of all accounts. -/
def passwordStates (d : AuthDb) : List (ℕ × PyStr × ℤ) :=
  d.base.users.rows.map fun x => (x.id, x.passwordHash, x.sessionVersion)

theorem passwordState_of_states {d d' : AuthDb} (h : passwordStates d' = passwordStates d) (u : ℕ) :
    passwordState d' u = passwordState d u := by
  have hfind : ∀ d : AuthDb, passwordState d u =
      ((passwordStates d).find? fun y => y.1 = u).map Prod.snd := by
    intro d
    rw [passwordStates, List.find?_map, Option.map_map]
    rfl
  rw [hfind, hfind, h]

/-- A test for states without a login under way, before the first commit. -/
def idleTest (s : Sys (authMachine L E mfa)) : Bool :=
  s.commits.isEmpty && s.db.otps.rows.isEmpty &&
    (s.threads.all fun t =>
      match t.request with
      | .login _ _ _ => false
      | _ => true) &&
    s.emitted.all fun e =>
      match e.2 with
      | .passwordChecked _ _ => false
      | _ => true

theorem not_signingIn_of_idle (h : idleTest s = true) : ¬SigningIn s u := by
  simp only [idleTest, Bool.and_eq_true, List.isEmpty_iff, List.all_eq_true] at h
  obtain ⟨⟨⟨hcommits, hrows⟩, hthreads⟩, hemitted⟩ := h
  intro hin
  cases hin with
  | loaded runs request read row user right =>
    have hlogin := hthreads _ (List.mem_of_getElem? runs.1)
    rw [request] at hlogin
    cases hlogin
  | checked runs event => cases hemitted _ event
  | pending row user purpose live =>
    rw [hrows] at row
    cases row
  | accepted runs commit accepts before =>
    rw [hcommits] at commit
    cases commit

/-- A test for passwords that stay: the step changes none, or no login is under way. -/
def passwordTest (s : Sys (authMachine L E mfa)) : Label → Bool
  | .run pid =>
    match s.threads[pid]? with
    | some ⟨_, _, .running p _⟩ =>
      (p.commit? s.db).all fun d' => passwordStates d' = passwordStates s.db || idleTest s
    | _ => true
  | _ => true

theorem passwordStays_of_test (h : passwordTest s b = true) : PasswordStays s b := by
  rintro pid ⟨r, wk, st⟩ p l d' u rfl ⟨ht, hst⟩ hcommit hin
  obtain rfl : st = .running p l := hst
  have htest : passwordStates d' = passwordStates s.db ∨ idleTest s = true := by
    simpa [passwordTest, ht, hcommit] using h
  rcases htest with hsame | hidle
  · exact passwordState_of_states hsame u
  · exact absurd hin (not_signingIn_of_idle hidle)

/-- The password step of a login of the voter. -/
def passwordStep (password : String) : AuthRequest :=
  .login none .empty ⟨true, py "vera", py password⟩

/-- The second step, with the session that the first one has left. -/
def codeStep : AuthRequest :=
  .verifyMfa none ⟨none, some 2, some Sample.hexToken.text⟩ (some Sample.otpCode)

/-- A change of the voter's password in an older session of the voter. -/
def passwordChange : AuthRequest :=
  .base (.changePassword (some Sample.voterToken)
    ⟨py "Password-0000", py "Password-0001", py "Password-0001"⟩)

/-- A run of the sample deployment whose steps pass a test, up to the token of the second step. -/
def tokenRun (test : Sys (authMachine Sample.authLib Sample.authEnvironment true) → Label → Bool)
    (before : List AuthRequest) : Sys (authMachine Sample.authLib Sample.authEnvironment true) :=
  (Sys.init Sample.authDb ()).runs (fun s b => test s b = true) Sample.authOracle
    (Sample.inTurn 0 before ++ [.start codeStep 0, .run 2 9])

theorem tokenRun_sound
    (test : Sys (authMachine Sample.authLib Sample.authEnvironment true) → Label → Bool)
    (hstart : ∀ s, test s .start = true) (before : List AuthRequest)
    (hbefore : ∀ r ∈ Turn.requests (Sample.inTurn 0 before ++ [.start codeStep 0, .run 2 9]),
      r.Endpoint) :
    ReachIf (Asked (fun s b => test s b = true) AuthRequest.Endpoint) (Sys.init Sample.authDb ())
      (tokenRun test before) :=
  (Sys.runs_sound Sample.authOracle_sound hstart (List.forall_mem_nil _) hbefore).1

/-- The next statement of the second step issues the token of the voter's new password. -/
def IssuesToken (s : Sys (authMachine Sample.authLib Sample.authEnvironment true)) : Prop :=
  (s.step₁ Sample.authOracle 2).map (fun x => x.2.emitted) =
    some (s.emitted ++ [(2, .loginCompleted 2 1 Sample.renewedToken)])

instance (s : Sys (authMachine Sample.authLib Sample.authEnvironment true)) :
    Decidable (IssuesToken s) := inferInstanceAs (Decidable (_ = _))

theorem IssuesToken.step {s : Sys (authMachine Sample.authLib Sample.authEnvironment true)}
    (h : IssuesToken s) :
    ∃ b s', Step (authMachine Sample.authLib Sample.authEnvironment true) b s s' ∧
      s'.emitted = s.emitted ++ [(2, .loginCompleted 2 1 Sample.renewedToken)] := by
  obtain ⟨⟨b, s'⟩, hstep, hemitted⟩ := Option.map_eq_some_iff.mp h
  exact ⟨b, s', (Sys.step₁_sound Sample.authOracle_sound hstep).1, hemitted⟩

/-- The tests of steps of clients. -/
def clientTest (s : Sys (authMachine L E mfa)) (b : Label) : Bool :=
  freshIdsTest s b && signedTest s b

theorem client_of_test
    (h : Asked (fun s b => clientTest s b = true) AuthRequest.Endpoint s b) : ClientStep s b := by
  obtain ⟨hfresh, hsigned⟩ := Bool.and_eq_true_iff.mp h.1
  exact ⟨⟨freshIds_of_test hfresh, signed_of_test hsigned⟩, h.2⟩

/-- The run in which the voter changes the password and then logs in with the new one. -/
def changedFirst : Sys (authMachine Sample.authLib Sample.authEnvironment true) :=
  tokenRun (fun s b => clientTest s b && passwordTest s b)
    [passwordChange, passwordStep "Password-0001"]

theorem changedFirst_sound : ReachIf SteadyStep (Sys.init Sample.authDb ()) changedFirst := by
  have htests := tokenRun_sound (fun s b => clientTest s b && passwordTest s b) (fun _ => rfl)
    [passwordChange, passwordStep "Password-0001"]
    (by simp [Turn.requests, Sample.inTurn, AuthRequest.Endpoint, passwordChange, passwordStep,
      codeStep])
  refine htests.mono fun s b hC => ?_
  obtain ⟨hclient, hpassword⟩ := Bool.and_eq_true_iff.mp hC.1
  exact ⟨client_of_test ⟨hclient, hC.2⟩, passwordStays_of_test hpassword⟩

/-- The token of that run rests on the login with the new password. -/
theorem second_factor_changedFirst :
    (∃ j x cid code s₂, RestsOn Sample.authDb () changedFirst 2 2 j x cid code s₂ ∧
      x.sessionVersion = 1 ∧ PasswordKept s₂ changedFirst x) ∧
      ∀ cid, (tokensOf changedFirst cid).length ≤ 1 := by
  have htoken : IssuesToken changedFirst := by decide +kernel
  obtain ⟨b, s', hstep, hemitted⟩ := htoken.step
  have hsecond := second_factor changedFirst_sound
  exact ⟨hsecond.1 _ _ _ _ _ _ hstep hemitted, hsecond.2⟩

/-- The run in which the voter changes the password after the password step of a login. -/
def changedLate : Sys (authMachine Sample.authLib Sample.authEnvironment true) :=
  tokenRun clientTest [passwordStep "Password-0000", passwordChange]

theorem changedLate_sound : ReachIf ClientStep (Sys.init Sample.authDb ()) changedLate := by
  have htests := tokenRun_sound clientTest (fun _ => rfl)
    [passwordStep "Password-0000", passwordChange]
    (by simp [Turn.requests, Sample.inTurn, AuthRequest.Endpoint, passwordChange, passwordStep,
      codeStep])
  exact htests.mono fun s b hC => client_of_test hC

/-- The session version of a checked password. -/
def AuthEvent.checkedVersion : AuthEvent → Option ℤ
  | .passwordChecked _ v => some v
  | _ => none

/-- **A code for the old password signs in under the new one.** The login of that run ends with a
token for the new session version, although the password has changed since it was checked. -/
theorem token_after_passwordChange :
    ∃ s s' : Sys (authMachine Sample.authLib Sample.authEnvironment true), ∃ b,
      ReachIf ClientStep (Sys.init Sample.authDb ()) s ∧
      Step (authMachine Sample.authLib Sample.authEnvironment true) b s s' ∧
      s'.emitted = s.emitted ++ [(2, .loginCompleted 2 1 Sample.renewedToken)] ∧
      ¬∃ j x cid code s₂, RestsOn Sample.authDb () s 2 2 j x cid code s₂ ∧ PasswordKept s₂ s x := by
  have hrun : IssuesToken changedLate ∧
      (changedLate.emitted.filterMap fun e => e.2.checkedVersion) = [0] ∧
      (passwordState changedLate.db 2).map Prod.snd = some 1 := by
    decide +kernel
  obtain ⟨htoken, hchecked, hnow⟩ := hrun
  obtain ⟨b, s', hstep, hemitted⟩ := htoken.step
  refine ⟨changedLate, s', b, changedLate_sound, hstep, hemitted, ?_⟩
  rintro ⟨j, x, cid, code, s₂, hrests, hkept⟩
  obtain ⟨s₁, b₁, -, -, hevent⟩ := hrests.check
  have hmem : (j, .passwordChecked 2 x.sessionVersion) ∈ changedLate.emitted := by
    refine hrests.since.emitted_prefix.subset ?_
    rw [hevent]
    exact List.mem_append_right _ (List.mem_singleton_self _)
  have hzero : x.sessionVersion ∈ [0] := by
    rw [← hchecked]
    exact List.mem_filterMap.mpr ⟨_, hmem, rfl⟩
  rw [← hrests.user, hkept.now] at hnow
  have hone : x.sessionVersion = 1 := Option.some.inj hnow
  rw [hone] at hzero
  simp at hzero

end SecureVote
