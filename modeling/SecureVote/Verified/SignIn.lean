import SecureVote.Auth.Rules
import SecureVote.Verified.Accounts

/-!
# Sign-in is verified

The requests of the other handlers meet the rules of sign-in because they meet their own. The
identity hook has no commits. The service functions of one-time passwords and the two steps of a
login are verified from their statements.
-/

open Txn Txn.Rules

namespace SecureVote

open Py

/-! ### Programs without commits -/

section ReadOnly

variable {L : Lib}

theorem readOnly_isPasswordExpired (u : User) : u.isPasswordExpired.ReadOnly := by
  unfold User.isPasswordExpired
  split
  · exact trivial
  · exact fun _ => trivial

theorem readOnly_issueToken (userId : ℕ) (sessionVersion : ℤ) :
    (issueToken L userId sessionVersion).ReadOnly := fun _ => trivial

theorem readOnly_refreshToken (p : Payload) (u : User) : (refreshToken L p u).ReadOnly := by
  unfold refreshToken
  refine Prog.Writes.bind (fun _ => trivial) fun now => ?_
  dsimp only
  split
  · refine Prog.Writes.bind (readOnly_isPasswordExpired u) fun expired => ?_
    split
    · exact trivial
    · exact readOnly_issueToken _ _
  · exact trivial

theorem readOnly_acceptUser (token : PyStr) (p : Payload) (changing : Bool) (u : User)
    (role : Option PyStr) : (acceptUser L token p changing u role).ReadOnly := by
  unfold acceptUser
  refine Prog.Writes.bind (readOnly_isPasswordExpired u) fun expired => ?_
  refine Prog.Writes.bind trivial fun _ => ?_
  split
  · exact trivial
  · exact Prog.Writes.bind (readOnly_refreshToken p u) fun _ => trivial

/-- The identity hook commits nothing. -/
theorem readOnly_loadUserFromJwt (cookie : Option PyStr) (changing : Bool) :
    (loadUserFromJwt L cookie changing).ReadOnly := by
  unfold loadUserFromJwt
  split
  · exact trivial
  · exact trivial
  · refine Prog.Writes.bind (fun _ => trivial) fun now => ?_
    split
    · exact trivial
    · split
      · exact trivial
      · refine Prog.Writes.bind (fun _ => trivial) fun found => ?_
        split
        · exact trivial
        · split
          · exact trivial
          · exact readOnly_acceptUser _ _ _ _ _

/-- The commits of a page for managers are the commits of what it does for one. -/
theorem writes_adminOnly {Φ : Db → Db → Prop} {cookie : Option PyStr}
    {k : CurrentUser → Handler Response} (hk : ∀ cu, (k cu).Writes Φ) :
    (adminOnly L cookie k).Writes Φ := by
  unfold adminOnly loginRequired
  refine Prog.Writes.bind ((readOnly_loadUserFromJwt cookie false).mono fun _ _ => False.elim) ?_
  intro res
  split
  · exact trivial
  · exact trivial
  · dsimp only
    split
    · exact hk _
    · exact trivial

/-- `unlock_user` clears the lock columns of an account. -/
theorem writes_unlockUser (cookie : Option PyStr) (userId : ℕ) :
    (unlockUser L cookie userId).Writes fun d d' =>
      ∃ i u, d'.toTables = resetFailedLogins i u d.toTables := by
  unfold unlockUser
  refine writes_adminOnly fun cu => Prog.Writes.bind ?_ fun found => ?_
  · unfold getUser
    split
    · exact trivial
    · exact fun _ => trivial
  · split
    · exact trivial
    · refine Prog.Writes.bind ⟨fun d b d' hw => ?_, fun _ => trivial⟩ fun saved => ?_
      · obtain ⟨x, hx, heq⟩ := Option.map_eq_some_iff.mp hw
        cases heq
        exact ⟨_, _, Db.commit_eq_some.mp hx⟩
      · split
        · exact trivial
        · refine Prog.Writes.bind (fun _ => trivial) fun u => ?_
          split
          · exact trivial
          · exact trivial

end ReadOnly

variable {L : AuthLib} {E : AuthEnvironment} {mfa : Bool} {r : AuthRequest} {wk : ℕ}
  {c : AuthConf L E mfa}

/-! ### The other handlers -/

theorem lifts_base (q : Request) :
    Lifts baseStore (rules L.toLib E.base) (authRules L E mfa) id q (.base q) where
  holds := baseStore_holds
  rely h := AuthRelies.base h
  inv _ := trivial
  answer h := E.answer_base h
  guar h := .base rfl h rfl
  emit := trivial

/-- A request of another handler. -/
theorem wp_base (q : Request) (d : AuthDb) (w : E.World) :
    (authRules L E mfa).wp (.base q) wk (Handler.lift (handle L.toLib q)) (fun _ _ => True)
      ⟨.fresh, d, w, []⟩ := by
  have hverified := verified L.toLib E.base q wk d.base w trivial
  exact wp_mono (Lifts.wp (lifts_base q) (g := []) hverified) fun _ _ _ => trivial

/-- The identity hook leaves events of the other handlers only. -/
theorem spec_hook (cookie : Option PyStr) :
    (authRules L E mfa).wp r wk (Handler.lift (loadUserFromJwt L.toLib cookie false))
      (fun _ c' => ∃ os : List Event, c'.log = c.log ++ os.map fun o => .emit (.base o)) c :=
  wp_lift_readOnly (readOnly_loadUserFromJwt cookie false) fun _ _ _ => trivial

/-! ### Logs -/

/-- The log has events of the other handlers only, and no commits. -/
def Hooked (log : AuthLog) : Prop := ∀ e ∈ log, ∃ o, e = .emit (.base o)

theorem hooked_of_eq {log : AuthLog} {os : List Event}
    (h : log = [] ++ os.map fun o => .emit (.base o)) : Hooked log := by
  subst h
  intro e he
  obtain ⟨o, -, rfl⟩ := List.mem_map.mp he
  exact ⟨o, rfl⟩

theorem Hooked.not_reported {log : AuthLog} (h : Hooked log) {p : AuthEvent → Prop}
    (hp : ∀ o, ¬p (.base o)) : ¬Reported log p := by
  rintro ⟨e, he, hpe⟩
  obtain ⟨o, heq⟩ := h _ he
  cases heq
  exact hp o hpe

theorem reported_append {log log' : AuthLog} {p : AuthEvent → Prop}
    (h : Reported (log ++ log') p) : Reported log p ∨ Reported log' p := by
  obtain ⟨e, he, hp⟩ := h
  rcases List.mem_append.mp he with he | he
  · exact .inl ⟨e, he, hp⟩
  · exact .inr ⟨e, he, hp⟩

/-! ### Sessions -/

theorem Session.Pending.of_afterToken {s : Session} {cookie : Option PyStr}
    {u : Option CurrentUser} {i : ℕ} {cid : PyStr} (h : (s.afterToken cookie u).Pending i cid) :
    s.Pending i cid := by
  unfold Session.afterToken at h
  split at h
  · exact h
  · split at h
    · split at h
      · cases h.1
      · exact h
    · split at h
      · cases h.1
      · exact h
    · cases h.1

theorem Session.not_pending_popPending {s : Session} {i : ℕ} {cid : PyStr} :
    ¬s.popPending.Pending i cid := fun h => by cases h.1

/-- A page that starts no second step. -/
theorem post_page {p : Response} {s : Session} {log : AuthLog}
    (h : ∀ i cid, s.Pending i cid → r.session.Pending i cid) : AuthPost L r (.page p s) log where
  pending heq hs := by
    cases heq
    exact .inl (h _ _ hs)
  issued heq := by cases heq

/-- A reply that is no page and returns no code. -/
theorem post_other {a : AuthReply} {log : AuthLog} (hpage : ∀ p s, a ≠ .page p s)
    (hissued : ∀ x, a ≠ .otpIssued (.ok x)) : AuthPost L r a log :=
  ⟨fun heq => absurd heq (hpage _ _), fun heq => absurd heq (hissued _)⟩

/-! ### Accounts -/

theorem spec_isAccountLocked (u : User) :
    (authRules L E mfa).wp r wk u.isAccountLocked
      (fun _ c' => c'.loc = c.loc ∧ c'.log = c.log) c := by
  unfold User.isAccountLocked
  split
  · exact ⟨rfl, rfl⟩
  · exact wp_bind.mpr (wp_call.mpr fun _ _ _ _ _ _ => ⟨rfl, rfl⟩)

theorem spec_lift_isPasswordExpired (u : User) :
    (authRules L E mfa).wp r wk (Handler.lift u.isPasswordExpired)
      (fun _ c' => c'.loc = c.loc ∧ c'.log = c.log) c := by
  unfold User.isPasswordExpired
  split
  · exact ⟨rfl, rfl⟩
  · exact fun _ _ _ _ _ _ => ⟨rfl, rfl⟩

/-- A commit of lock columns. -/
theorem spec_saveAccount {f : Tables → Tables} {P : Option Unit → AuthConf L E mfa → Prop}
    (hf : (∃ u lock, f = recordFailedLogin u lock) ∨ ∃ i u, f = resetFailedLogins i u)
    (hnone : ∀ d w, P none ⟨c.loc, d, w, c.log⟩)
    (hsome : ∀ d w d', P (some ()) ⟨.fresh, d', w, c.log ++ [.write d d']⟩) :
    (authRules L E mfa).wp r wk (Handler.lift (save f)) P c := by
  intro d w _
  refine ⟨fun _ => hnone d w, fun b d' hw => ?_⟩
  obtain ⟨⟨⟨⟩, d₁⟩, hd₁, heq⟩ := Option.map_eq_some_iff.mp hw
  obtain ⟨d₂, hd₂, heq₂⟩ := Option.map_eq_some_iff.mp hd₁
  cases heq₂
  cases heq
  have hafter : d₁.toTables = f d.base.toTables := Db.commit_eq_some.mp hd₂
  refine ⟨.account ?_ rfl, hsome d w _⟩
  rcases hf with ⟨u, lock, rfl⟩ | ⟨i, u, rfl⟩
  · exact .inl ⟨u, lock, hafter⟩
  · exact .inr ⟨i, u, hafter⟩

/-- After a wrong password the login page comes back. -/
theorem wp_failLogin {session : Session} {u : User}
    (hs : ∀ i cid, session.Pending i cid → r.session.Pending i cid) :
    (authRules L E mfa).wp r wk (failLogin session u) (fun a c' => AuthPost L r a c'.log) c := by
  have hsave : ∀ lock (k : Option Unit → AuthHandler AuthReply) (c : AuthConf L E mfa),
      (∀ saved c', (authRules L E mfa).wp r wk (k saved)
        (fun a c' => AuthPost L r a c'.log) c') →
      (authRules L E mfa).wp r wk (Handler.lift (save (recordFailedLogin u lock)) >>= k)
        (fun a c' => AuthPost L r a c'.log) c := fun lock k c hk =>
    wp_bind.mpr (spec_saveAccount (.inl ⟨u, lock, rfl⟩) (fun _ _ => hk _ _)
      fun _ _ _ => hk _ _)
  unfold failLogin
  split
  on_goal 1 => refine wp_bind.mpr (wp_bind.mpr (wp_call.mpr fun d w _ now w' _ =>
    hsave _ _ _ ?_))
  on_goal 2 => refine wp_bind.mpr (hsave _ _ _ ?_)
  all_goals
    rintro (_ | ⟨⟩) c₁
    · exact post_page hs
    · refine wp_bind.mpr (wp_select.mpr fun d₁ w₁ _ => ?_)
      cases (c₁.loc.view Bind.voters d₁).base.users.get? u.id with
      | none => exact post_page hs
      | some u' => exact wp_bind_of (spec_isAccountLocked u') fun _ _ _ => post_page hs

/-! ### One-time passwords -/

/-- What `issue_otp_challenge` ends with: it has committed a challenge for the code that it
returns, or nothing. -/
def IssueOutcome (L : AuthLib) (r : AuthRequest) (userId : ℕ) (purpose : PyStr) (log : AuthLog)
    (res : Except OtpError (PyStr × PyStr)) (log' : AuthLog) : Prop :=
  match res with
  | .error _ => log' = log
  | .ok (cid, code) => ∃ d d' clock x, log' = log ++ [.write d d'] ∧ x.id = cid ∧
      x.userId = userId ∧ x.purpose = purpose ∧ r.Issues x code ∧ OtpIssued L r d clock d' x ∧
      otpDigest L x.id code = some x.codeDigest

/-- A challenge that a locking read finds is held. -/
theorem held_challenge (l : AuthLoc) (m : Mode) {d : AuthDb} {x : OtpChallenge}
    (rows : List AuthRow) (hx : x ∈ d.otps.rows) (hrows : AuthRow.otp x.id ∈ rows) :
    (AuthRow.otp x.id, m) ∈ (l.take (found d rows) m).held := by
  refine List.mem_append_left _ (List.mem_map_of_mem (mem_found.mpr ⟨hrows, ?_⟩))
  rw [val_otp, OtpTable.get?_eq_some.mpr ⟨hx, rfl⟩]
  rfl

theorem otpLifetime_pos (ttlSeconds : ℤ) : 0 < otpLifetime ttlSeconds := by
  have hmax : (60 : ℤ) ≤ max 60 (min ttlSeconds 900) := le_max_left _ _
  exact Int.mul_pos (by omega) (by decide)

/-- `issue_otp_challenge` for a code of six digits. -/
theorem wp_createChallenge {userId : ℕ} {purpose : PyStr} {ttl : ℤ} {code : PyStr}
    (hreq : ∀ x : OtpChallenge, x.userId = userId → x.purpose = purpose → r.Issues x code) :
    (authRules L E mfa).wp r wk (createChallenge L userId purpose ttl code)
      (fun res c' => IssueOutcome L r userId purpose c.log res c'.log) c := by
  unfold createChallenge
  refine wp_bind.mpr (wp_call.mpr fun d₁ w₁ _ (now : Time) w₁' hans => ?_)
  have hnow : now ≤ E.clock w₁' := (E.now_clock hans).2
  refine wp_bind.mpr (wp_call.mpr fun d₂ w₂ hl₂ (token : HexToken) w₂' htoken => ?_)
  refine wp_bind.mpr (wp_selectLocking.mpr fun d₃ w₃ hl₃ => ?_)
  split
  · exact rfl
  next hactive =>
    split
    · exact rfl
    next digest hdigest =>
      refine wp_bind.mpr (wp_write.mpr fun d₄ w₄ hl₄ => ⟨fun _ => rfl, fun b d' hw => ?_⟩)
      obtain ⟨d₅, hafter, heq⟩ := Option.map_eq_some_iff.mp hw
      cases heq
      have hrely₂ : AuthRelies E _ _ _ _ _ := hl₂.1
      have hrely₃ : AuthRelies E _ _ _ _ _ := hl₃.1
      have hrely₄ : AuthRelies E _ _ _ _ _ := hl₄.1
      have hclock : now ≤ E.clock w₄ := hnow.trans (hrely₂.clock.trans
        ((E.answer_clock htoken).trans (hrely₃.clock.trans hrely₄.clock)))
      -- the challenge that was locked is still the one of the user
      have hexisting : d₄.otps.ofUser userId purpose = d₃.otps.ofUser userId purpose := by
        cases hof : d₃.otps.ofUser userId purpose with
        | none =>
          rw [hof] at hafter
          exact ofUser_of_replaceChallenge hafter
        | some e =>
          obtain ⟨hmem, rfl, rfl⟩ := OtpTable.ofUser_eq_some hof
          have hheld := held_challenge c.loc .exclusive
            ((d₃.otps.ofUser e.userId e.purpose).map fun c => AuthRow.otp c.id).toList hmem
            (by rw [hof]; exact List.mem_singleton_self _)
          exact OtpTable.ofUser_of_mem (hrely₄.challenge hheld hmem)
      have hissued : OtpIssued L r d₄ (E.clock w₄) d' ⟨token.text, userId, purpose, digest,
          now + otpLifetime ttl, 0, none, now⟩ := by
        refine ⟨⟨code, hreq _ rfl rfl, hdigest⟩, hclock, ?_, rfl, rfl, ?_, ?_⟩
        · exact Int.lt_add_of_pos_right now (otpLifetime_pos ttl)
        · intro e he
          rw [hexisting] at he
          have hno : ¬e.active now = true := by simpa [he] using hactive
          exact Bool.eq_false_iff.mpr hno
        · rw [hexisting]
          exact hafter
      exact ⟨.issued hissued, _, _, _, _, rfl, rfl, rfl, rfl, hreq _ rfl rfl, hissued, hdigest⟩

/-- `issue_otp_challenge`. -/
theorem wp_issueOtpChallenge {userId : ℕ} {purpose : PyStr} {ttl : ℤ} {given : Option PyStr}
    (hreq : ∀ (x : OtpChallenge) code, x.userId = userId → x.purpose = purpose →
      (∀ y, given = some y → code = y) → r.Issues x code) :
    (authRules L E mfa).wp r wk (issueOtpChallenge L userId purpose ttl given)
      (fun res c' => IssueOutcome L r userId purpose c.log res c'.log) c := by
  unfold issueOtpChallenge
  have hcode : ∀ code (c₁ : AuthConf L E mfa), c₁.log = c.log →
      (∀ y, given = some y → code = y) → (authRules L E mfa).wp r wk
        (if code.length ≠ 6 ∨ isDigitText code = false then
          pure (.error (.valueError "OTP code must contain exactly six digits"))
        else createChallenge L userId purpose ttl code)
        (fun res c' => IssueOutcome L r userId purpose c.log res c'.log) c₁ := by
    intro code c₁ hlog hgiven
    split
    · exact hlog
    · rw [← hlog]
      exact wp_createChallenge fun x hu hp => hreq x code hu hp hgiven
  split
  · exact rfl
  · split
    · exact hcode _ c rfl fun y hy => Option.some.inj hy
    · exact wp_bind.mpr (wp_call.mpr fun d w _ code w' _ => hcode _ _ rfl fun y hy => by cases hy)

/-- What `verify_otp_challenge` does to the row it judges. -/
theorem judge_eq_some {x x' : OtpChallenge} {now : Time} {code : PyStr} {result : OtpResult}
    (h : judge L x now code = some (x', result)) :
    (result = .expired ∧ x.expiresAt ≤ now ∧ x' = { x with consumedAt := some now }) ∨
    (result = .locked ∧ now < x.expiresAt ∧ maxFailedAttempts ≤ x.failedAttempts ∧
      x' = { x with consumedAt := some now }) ∨
    (now < x.expiresAt ∧ x.failedAttempts < maxFailedAttempts ∧
      ∃ supplied, otpDigest L x.id code = some supplied ∧
        ((supplied ≠ x.codeDigest ∧ x.failedAttempts + 1 = maxFailedAttempts ∧ result = .locked ∧
          x' = { x with failedAttempts := x.failedAttempts + 1, consumedAt := some now }) ∨
        (supplied ≠ x.codeDigest ∧ x.failedAttempts + 1 < maxFailedAttempts ∧ result = .invalid ∧
          x' = { x with failedAttempts := x.failedAttempts + 1 }) ∨
        (supplied = x.codeDigest ∧ result = .valid ∧ x' = { x with consumedAt := some now }))) := by
  unfold judge at h
  split at h
  next hexpired =>
    cases h
    exact .inl ⟨rfl, hexpired, rfl⟩
  next hexpired =>
    have hnow : now < x.expiresAt := lt_of_not_ge hexpired
    split at h
    next hfull =>
      cases h
      exact .inr (.inl ⟨rfl, hnow, hfull, rfl⟩)
    next hfull =>
      refine .inr (.inr ⟨hnow, lt_of_not_ge hfull, ?_⟩)
      obtain ⟨supplied, hsupplied, heq⟩ := Option.map_eq_some_iff.mp h
      refine ⟨supplied, hsupplied, ?_⟩
      split at heq
      next hwrong =>
        split at heq
        next hlast =>
          cases heq
          exact .inl ⟨hwrong, by omega, rfl, rfl⟩
        next hlast =>
          cases heq
          exact .inr (.inl ⟨hwrong, by omega, rfl, rfl⟩)
      next hright =>
        cases heq
        exact .inr (.inr ⟨not_not.mp hright, rfl, rfl⟩)

/-- A verdict keeps the identity of the challenge. -/
theorem judge_keeps {x x' : OtpChallenge} {now : Time} {code : PyStr} {result : OtpResult}
    (h : judge L x now code = some (x', result)) : x'.id = x.id ∧ x'.userId = x.userId ∧
      x'.purpose = x.purpose ∧ x'.codeDigest = x.codeDigest ∧ x'.expiresAt = x.expiresAt := by
  rcases judge_eq_some h with ⟨-, -, rfl⟩ | ⟨-, -, -, rfl⟩ | ⟨-, -, s, -, h⟩
  · exact ⟨rfl, rfl, rfl, rfl, rfl⟩
  · exact ⟨rfl, rfl, rfl, rfl, rfl⟩
  · rcases h with ⟨-, -, -, rfl⟩ | ⟨-, -, -, rfl⟩ | ⟨-, -, rfl⟩ <;>
      exact ⟨rfl, rfl, rfl, rfl, rfl⟩

/-- What `verify_otp_challenge` ends with: it has reported its result, and a code that it accepts
was accepted in a commit. -/
def VerifyOutcome (cid : PyStr) (i : ℕ) (purpose code : PyStr) (log : AuthLog)
    (res : Option OtpResult) (log' : AuthLog) : Prop :=
  (∀ result, res = some result → .emit (.otpVerified cid i purpose code result) ∈ log') ∧
    ∀ e, .emit e ∈ log' → .emit e ∈ log ∨ e.isOtpVerified

/-- `verify_otp_challenge`. -/
theorem wp_verifyOtpChallenge {cid : PyStr} {i : ℕ} {purpose code : PyStr}
    (hreq : r.Verifies cid i purpose code) (hlog : ¬Reported c.log AuthEvent.isOtpVerified) :
    (authRules L E mfa).wp r wk (verifyOtpChallenge L cid i purpose code)
      (fun res c' => VerifyOutcome cid i purpose code c.log res c'.log) c := by
  unfold verifyOtpChallenge
  -- the result before it is reported
  have hreport : ∀ {k : Option OtpResult → AuthHandler (Option OtpResult)}, k none = pure none →
      (∀ result, k (some result) =
        Prog.report (.otpVerified cid i purpose code result) >>= fun _ => pure (some result)) →
      ∀ (res : Option OtpResult) (c₁ : AuthConf L E mfa),
      (∀ e, .emit e ∈ c₁.log → .emit e ∈ c.log) →
      (res = some .valid → ∃ d d', .write d d' ∈ c₁.log ∧ Accepts L cid i purpose code d d') →
      (authRules L E mfa).wp r wk (pure res >>= k)
        (fun res c' => VerifyOutcome cid i purpose code c.log res c'.log) c₁ := by
    intro k hnone hsome res c₁ hsub hvalid
    show (authRules L E mfa).wp r wk (k res) _ c₁
    cases res with
    | none =>
      rw [hnone]
      show VerifyOutcome cid i purpose code c.log none c₁.log
      exact ⟨fun _ h => (Option.some_ne_none _ h.symm).elim, fun e he => .inl (hsub e he)⟩
    | some result =>
      rw [hsome]
      refine wp_bind.mpr (wp_report.mpr ⟨⟨?_, hreq, fun h => hvalid (by rw [h])⟩, ?_, ?_⟩)
      · rintro ⟨e, he, hp⟩
        exact hlog ⟨e, hsub e he, hp⟩
      · intro result' h
        cases h
        exact List.mem_append_right _ (List.mem_singleton_self _)
      · intro e he
        rcases List.mem_append.mp he with he | he
        · exact .inl (hsub e he)
        · cases List.mem_singleton.mp he
          exact .inr trivial
  dsimp only
  split
  · exact hreport (by rfl) (fun _ => by rfl) (some .missing) c (fun _ h => h) fun h => by cases h
  · refine wp_bind.mpr (wp_selectLocking.mpr fun d₁ w₁ _ => ?_)
    split
    · exact hreport (by rfl) (fun _ => by rfl) (some .missing) _ (fun _ h => h) fun h => by cases h
    next x hx =>
      obtain ⟨hfound, hlive⟩ := Option.filter_eq_some_iff.mp hx
      obtain ⟨hmem, rfl, rfl, rfl⟩ := OtpTable.challenge_eq_some hfound
      refine wp_bind.mpr (wp_call.mpr fun d₂ w₂ hl₂ (now : Time) w₂' hans => ?_)
      have hnow : now ≤ E.clock w₂' := (E.now_clock hans).2
      split
      · exact hreport (by rfl) (fun _ => by rfl) none _ (fun _ h => h) fun h => by cases h
      next x' result hjudge =>
        refine wp_bind.mpr (wp_write.mpr fun d₃ w₃ hl₃ =>
          ⟨fun _ => hreport (by rfl) (fun _ => by rfl) none _ (fun _ h => h)
              (fun h => by cases h), fun b d' hw => ?_⟩)
        obtain ⟨d₄, hafter, heq⟩ := Option.map_eq_some_iff.mp hw
        cases heq
        have hrely₂ : AuthRelies E _ _ _ _ _ := hl₂.1
        have hrely₃ : AuthRelies E _ _ _ _ _ := hl₃.1
        have hheld := held_challenge c.loc .exclusive
          ((d₁.otps.challenge x.id x.userId x.purpose).map fun c => AuthRow.otp c.id).toList hmem
          (by rw [hfound]; exact List.mem_singleton_self _)
        have hrow : x ∈ d₃.otps.rows :=
          hrely₃.challenge hheld (hrely₂.challenge hheld hmem)
        have hnone : x.consumedAt = none := by simpa using hlive
        refine ⟨.judged ⟨hreq, hrow, hnone, hnow.trans hrely₃.clock, hjudge, hafter⟩, ?_⟩
        refine hreport (by rfl) (fun _ => by rfl) (some result) _ ?_ ?_
        · intro e he
          rcases List.mem_append.mp he with he | he
          · exact he
          · cases List.mem_singleton.mp he
        · intro hvalid
          cases hvalid
          rcases judge_eq_some hjudge with ⟨h, -⟩ | ⟨h, -⟩ | ⟨hlt, hfew, s, hs, h⟩
          · cases h
          · cases h
          · rcases h with ⟨-, -, h, -⟩ | ⟨-, -, h, -⟩ | ⟨rfl, -, rfl⟩
            · cases h
            · cases h
            · exact ⟨d₃, d', List.mem_append_right _ (List.mem_singleton_self _), x, now, hrow,
                rfl, rfl, rfl, hnone, hlt, hfew, hs, hafter⟩

/-! ### The two steps of a login -/

/-- `_complete_login`: the session keeps what is pending in it. -/
theorem wp_completeLogin {b : Bind} {session : Session} {i : ℕ} {loaded : Option User}
    (hs : ∀ j cid, session.Pending j cid → r.session.Pending j cid)
    (hemit : mfa = true → ¬Reported c.log AuthEvent.isLoginCompleted ∧
      ∃ cid code, r.Verifies cid i loginMfa code ∧
        .emit (.otpVerified cid i loginMfa code .valid) ∈ c.log) :
    (authRules L E mfa).wp r wk (completeLogin L b session i loaded)
      (fun a c' => AuthPost L r a c'.log) c := by
  unfold completeLogin
  refine wp_bind.mpr (spec_saveAccount (.inr ⟨i, loaded, rfl⟩) (fun _ _ => post_page hs) ?_)
  intro d w d'
  refine wp_bind.mpr (wp_select.mpr fun d₁ w₁ _ => ?_)
  cases hu : (Local.view Local.fresh b d₁).base.users.get? i with
  | none => exact post_page hs
  | some u =>
    obtain rfl : u.id = i := Table.key_of_get? hu
    refine wp_bind_of (spec_lift_isPasswordExpired u) ?_
    rintro expired c₂ ⟨hloc, hlog⟩
    refine wp_bind.mpr (wp_call.mpr fun d₃ w₃ _ (now : Time) w₃' _ => ?_)
    refine wp_bind.mpr (wp_report.mpr ⟨⟨⟨b, _, u, _, ?_, hu, rfl, rfl⟩, fun hmfa => ?_⟩, ?_⟩)
    · rw [hloc]
      exact Local.snap_look_self _ _ _
    · -- the log has grown by the commit
      obtain ⟨hnone, cid, code, hreq, hvalid⟩ := hemit hmfa
      refine ⟨?_, cid, code, hreq, ?_⟩
      · rintro ⟨e, he, hp⟩
        rw [hlog] at he
        rcases List.mem_append.mp he with he | he
        · exact hnone ⟨e, he, hp⟩
        · cases List.mem_singleton.mp he
      · rw [hlog]
        exact List.mem_append_left _ hvalid
    · dsimp only
      split
      · exact post_page fun j cid h => hs j cid h
      · exact post_page fun j cid h => hs j cid h

/-- The second factor after a right password. -/
theorem wp_startMfa {cookie : Option PyStr} {session₀ session : Session} {form : LoginForm}
    {u : User} {v : ℤ} (hchecked : .emit (.passwordChecked u.id v) ∈ c.log) :
    (authRules L E mfa).wp (.login cookie session₀ form) wk (startMfa L session u)
      (fun a c' => AuthPost L (.login cookie session₀ form) a c'.log) c := by
  unfold startMfa
  have hfail : ∀ log, AuthPost L (.login cookie session₀ form) (codeNotSent session) log :=
    fun log => post_page fun _ _ h => absurd h Session.not_pending_popPending
  refine wp_bind_of (wp_issueOtpChallenge fun x code hi hp _ =>
    .inr ⟨cookie, session₀, form, rfl, hp⟩) ?_
  intro res c₁ hres
  match res, hres with
  | .error e, _ => exact wp_bind.mpr (wp_abort.mpr fun _ _ _ => hfail _)
  | .ok (cid, code), ⟨d, d', clock, x, hlog, hid, hi, hp, hreq, hissued, hdigest⟩ =>
    have hpost : ∀ log p, c₁.log <+: log → AuthPost L (.login cookie session₀ form)
        (.page p { session with mfaPendingUserId := some u.id, mfaChallengeId := some cid })
        log := by
      intro log p hpre
      refine ⟨fun heq hpending => ?_, fun heq => by cases heq⟩
      cases heq
      obtain ⟨hi', hid'⟩ := hpending
      cases hi'
      cases hid'
      rw [hlog] at hpre
      have hmem : ∀ e ∈ c.log ++ [.write d d'], e ∈ log := fun e he => hpre.subset he
      exact .inr ⟨⟨v, hmem _ (List.mem_append_left _ hchecked)⟩, x, code, hid, hi, hp, d, d',
        clock, hmem _ (List.mem_append_right _ (List.mem_singleton_self _)), hissued, hdigest⟩
    refine wp_bind.mpr (wp_select.mpr fun d₁ w₁ _ => ?_)
    have hsent : ∀ (sent : Bool) (c₂ : AuthConf L E mfa), c₂.log = c₁.log →
        (authRules L E mfa).wp (.login cookie session₀ form) wk
          (if sent then
            pure (.page (.redirect [] "" "auth.verify_mfa")
              { session with mfaPendingUserId := some u.id, mfaChallengeId := some cid })
          else do
            Prog.abort
            let _ ← Prog.write fun d => (deleteChallenge cid d).map fun d' => ((), d')
            pure (codeNotSent session))
          (fun a c' => AuthPost L (.login cookie session₀ form) a c'.log) c₂ := by
      intro sent c₂ hsame
      cases sent with
      | true => exact hpost _ _ (hsame ▸ List.prefix_refl _)
      | false =>
        refine wp_bind.mpr (wp_abort.mpr fun d₂ w₂ _ => ?_)
        refine wp_bind.mpr (wp_write.mpr fun d₃ w₃ _ => ⟨fun _ => hfail _, fun b d₄ hw => ?_⟩)
        obtain ⟨d₅, hafter, heq⟩ := Option.map_eq_some_iff.mp hw
        cases heq
        exact ⟨.withdrawn rfl hafter, hfail _⟩
    dsimp only
    split
    · exact wp_bind.mpr (hsent false _ rfl)
    · exact wp_bind.mpr (wp_call.mpr fun d₂ w₂ _ (sent : Bool) w₂' _ => hsent sent _ rfl)

/-- `login`. -/
theorem wp_login {cookie : Option PyStr} {session : Session} {form : LoginForm}
    (hlog : c.log = []) :
    (authRules L E mfa).wp (.login cookie session form) wk (login L mfa cookie session form)
      (fun a c' => AuthPost L (.login cookie session form) a c'.log) c := by
  unfold login
  refine wp_bind_of (spec_hook cookie) ?_
  rintro res c₁ -
  have hs : ∀ (u : Option CurrentUser) i cid, (session.afterToken cookie u).Pending i cid →
      session.Pending i cid := fun u i cid h => h.of_afterToken
  match res with
  | .error p => exact post_page fun _ _ h => h
  | .ok (some cu) => exact post_page (hs _)
  | .ok none =>
    dsimp only
    split
    · exact post_page (hs none)
    · refine wp_bind.mpr (wp_select.mpr fun d w _ => ?_)
      cases hu : (c₁.loc.view Bind.voters d).base.userByUsername L.toLib form.username with
      | none => exact post_page (hs none)
      | some u =>
        refine wp_bind_of (spec_isAccountLocked u) ?_
        rintro locked c₂ ⟨hloc₂, hlog₂⟩
        split
        · exact post_page (hs none)
        · split
          · exact wp_failLogin (hs none)
          next hright =>
            rw [not_or] at hright
            have hcheck : L.checkPasswordHash u.passwordHash form.password = true := by
              simpa using hright.2
            refine wp_bind.mpr (wp_report.mpr ⟨⟨cookie, session, form, c₁.loc.view Bind.voters d,
              u, rfl, ?_, hu, rfl, rfl, hcheck⟩, ?_⟩)
            · rw [hloc₂]
              exact Local.snap_look_self _ _ _
            · cases mfa with
              | true =>
                exact wp_startMfa (List.mem_append_right _ (List.mem_singleton_self _))
              | false => exact wp_completeLogin (hs none) fun h => by cases h

/-- `verify_mfa`. -/
theorem wp_verifyMfa {cookie : Option PyStr} {session : Session} {otp : Option PyStr}
    (hlog : c.log = []) :
    (authRules L E mfa).wp (.verifyMfa cookie session otp) wk (verifyMfa L cookie session otp)
      (fun a c' => AuthPost L (.verifyMfa cookie session otp) a c'.log) c := by
  unfold verifyMfa
  refine wp_bind_of (spec_hook cookie) ?_
  rintro res c₁ ⟨os, hos⟩
  have hhooked : Hooked c₁.log := hooked_of_eq (by rw [← hlog]; exact hos)
  cases res with
  | error p => exact post_page fun _ _ h => h
  | ok user =>
    dsimp only
    set session' := session.afterToken cookie user with hsession'
    have hs : ∀ i cid, session'.Pending i cid → session.Pending i cid :=
      fun i cid h => h.of_afterToken
    have hcleared : ∀ i cid, ¬Session.Pending { session' with mfaPendingUserId := none } i cid :=
      fun i cid h => by cases h.1
    split
    · exact post_page hs
    next i hi =>
      obtain ⟨hi, -⟩ := Option.filter_eq_some_iff.mp hi
      have hget : (authRules L E mfa).wp (.verifyMfa cookie session otp) wk
          (getPendingUser user ((user.map CurrentUser.bind).getD .voters) i)
          (fun found c' => c'.log = c₁.log ∧ ∀ u, found = some u → u.id = i) c₁ := by
        unfold getPendingUser
        split
        next cu hcu =>
          obtain ⟨-, hid⟩ := Option.filter_eq_some_iff.mp hcu
          refine ⟨rfl, fun u hu => ?_⟩
          cases hu
          simpa using hid
        · exact wp_select.mpr fun d w _ => ⟨rfl, fun u hu => Table.key_of_get? hu⟩
      refine wp_bind_of hget ?_
      rintro found c₂ ⟨hlog₂, hid⟩
      cases found with
      | none => exact post_page fun j cid h => absurd h (hcleared j cid)
      | some u =>
        obtain rfl := hid u rfl
        cases otp with
        | none => exact post_page hs
        | some code =>
          dsimp only
          unfold submitCode
          split
          · exact post_page fun j cid h => absurd h (hcleared j cid)
          next cid hcid =>
            obtain ⟨hcid, -⟩ := Option.filter_eq_some_iff.mp hcid
            have hpending : session.Pending u.id cid := hs _ _ ⟨hi, hcid⟩
            have hreq : (AuthRequest.verifyMfa cookie session (some code)).Verifies cid u.id
                loginMfa (strip code) :=
              .inr ⟨cookie, session, code, rfl, hpending.1, hpending.2, rfl, rfl⟩
            rw [← hlog₂] at hhooked
            refine wp_bind_of (wp_verifyOtpChallenge hreq
              (hhooked.not_reported fun _ h => h)) ?_
            rintro result c₃ ⟨hreported, hevents⟩
            have hpop : ∀ {p}, AuthPost L (.verifyMfa cookie session (some code))
                (.page p session'.popPending) c₃.log :=
              post_page fun j cid h => absurd h Session.not_pending_popPending
            cases result with
            | none => exact post_page hs
            | some outcome =>
              cases outcome with
              | missing => exact hpop
              | expired => exact hpop
              | locked => exact hpop
              | invalid => exact post_page hs
              | valid =>
                refine wp_completeLogin
                  (fun j cid h => absurd h Session.not_pending_popPending) ?_
                refine fun _ => ⟨?_, cid, strip code, hreq, hreported _ rfl⟩
                rintro ⟨e, he, hp⟩
                rcases hevents e he with he | he
                · exact hhooked.not_reported (fun _ h => h) ⟨e, he, hp⟩
                · cases e <;> first | exact hp | exact he

/-! ### The system -/

/-- **Every sign-in request is verified.** -/
theorem authVerified (L : AuthLib) (E : AuthEnvironment) (mfa : Bool) :
    (authRules L E mfa).Verified (AuthPost L) := by
  intro r wk d w _
  cases r with
  | login cookie session form => exact wp_login rfl
  | verifyMfa cookie session otp => exact wp_verifyMfa rfl
  | unlockUser cookie userId =>
    refine wp_bind_of (wp_lift (writes_unlockUser cookie userId) ?_ fun _ _ _ => trivial) ?_
    · exact fun l d w b h => .account (.inr h) rfl
    · exact fun p c _ => post_other (by simp) (by simp)
  | issueOtp userId purpose ttl given =>
    refine wp_bind_of (wp_issueOtpChallenge fun x code hi hp hgiven =>
      .inl ⟨ttl, given, by rw [hi, hp], hgiven⟩) ?_
    intro res c hres
    match res, hres with
    | .error e, _ => exact post_other (by simp) (by simp)
    | .ok (cid, code), ⟨d₁, d₂, clock, x, hlog, hid, hi, hp, hreq, hissued, hdigest⟩ =>
      refine ⟨fun h => (by cases h), fun h => ?_⟩
      cases h
      refine ⟨x, hid, hreq, d₁, d₂, clock, ?_, hissued, hdigest⟩
      rw [hlog]
      exact List.mem_append_right _ (List.mem_singleton_self _)
  | verifyOtp challengeId userId purpose code =>
    refine wp_bind_of (wp_verifyOtpChallenge (.inl rfl) fun ⟨e, he, _⟩ => by cases he) ?_
    exact fun res c _ => post_other (by simp) (by simp)
  | base q => exact wp_bind_of (wp_base q d w) fun p c _ => post_other (by simp) (by simp)

end SecureVote
