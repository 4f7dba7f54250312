import SecureVote.Auth.Machine
import SecureVote.Rules

/-!
# The rely–guarantee rules of sign-in

What the commits of the sign-in system do (`AuthAct`): a commit of another handler is an action of
the system without sign-in, a commit of sign-in writes the lock columns of an account or one
challenge. `authRules` extends the rules of the other handlers, so that what has been verified of
them still holds next to sign-in.
-/

open Txn

namespace SecureVote

open Py

variable {L : AuthLib} {E : AuthEnvironment}

/-- The transaction-local state of a sign-in request. -/
abbrev AuthLoc := Local AuthDb AuthRow AuthTable Bind

/-! ### Commits -/

/-- The request issues the challenge `c` for `code`. -/
def AuthRequest.Issues (r : AuthRequest) (c : OtpChallenge) (code : PyStr) : Prop :=
  (∃ ttl given, r = .issueOtp c.userId c.purpose ttl given ∧ ∀ x, given = some x → code = x) ∨
    ∃ cookie session form, r = .login cookie session form ∧ c.purpose = loginMfa

/-- The request submits `code` for a challenge. -/
def AuthRequest.Verifies (r : AuthRequest) (challengeId : PyStr) (userId : ℕ)
    (purpose code : PyStr) : Prop :=
  r = .verifyOtp challengeId userId purpose code ∨
    ∃ cookie session otp, r = .verifyMfa cookie session (some otp) ∧
      session.mfaPendingUserId = some userId ∧ session.mfaChallengeId = some challengeId ∧
      purpose = loginMfa ∧ code = strip otp

/-- The commit of `issue_otp_challenge`. -/
structure OtpIssued (L : AuthLib) (r : AuthRequest) (d : AuthDb) (clock : Time) (d' : AuthDb)
    (c : OtpChallenge) : Prop where
  request : ∃ code, r.Issues c code ∧ otpDigest L c.id code = some c.codeDigest
  created : c.createdAt ≤ clock
  expires : c.createdAt < c.expiresAt
  failed : c.failedAttempts = 0
  consumed : c.consumedAt = none
  replaceable : ∀ e, d.otps.ofUser c.userId c.purpose = some e → e.active c.createdAt = false
  after : replaceChallenge (d.otps.ofUser c.userId c.purpose) c d = some d'

/-- The commit of `verify_otp_challenge` on the challenge `c`. -/
structure OtpJudged (L : AuthLib) (r : AuthRequest) (d : AuthDb) (clock : Time) (d' : AuthDb)
    (c c' : OtpChallenge) (code : PyStr) (now : Time) (result : OtpResult) : Prop where
  request : r.Verifies c.id c.userId c.purpose code
  row : c ∈ d.otps.rows
  live : c.consumedAt = none
  read : now ≤ clock
  judged : judge L c now code = some (c', result)
  after : updateChallenge c' d = some d'

/-- A commit of the sign-in system, when the clock reads `clock`. -/
inductive AuthAct (L : AuthLib) (r : AuthRequest) (l : AuthLoc) (d : AuthDb) (clock : Time)
    (d' : AuthDb) : Prop
  | base {q} (request : r = .base q) (act : Act L.toLib q (baseStore.loc l) d.base d'.base)
      (otps : d'.otps = d.otps)
  | account (after : (∃ u lock, d'.base.toTables = recordFailedLogin u lock d.base.toTables) ∨
        ∃ i u, d'.base.toTables = resetFailedLogins i u d.base.toTables)
      (otps : d'.otps = d.otps)
  | issued {c} (h : OtpIssued L r d clock d' c)
  | judged {c c' code now result} (h : OtpJudged L r d clock d' c c' code now result)
  | withdrawn {id cookie session form} (request : r = .login cookie session form)
      (after : deleteChallenge id d = some d')

/-! ### What a commit leaves alone -/

theorem base_of_replaceChallenge {existing : Option OtpChallenge} {c : OtpChallenge}
    {d d' : AuthDb} (h : replaceChallenge existing c d = some d') : d'.base = d.base ∧
      d'.otps.rows = (d.otps.rows.filter fun r => existing.all fun e => r.id ≠ e.id) ++ [c] := by
  unfold replaceChallenge at h
  split at h
  · cases h
  · obtain ⟨t, ht, rfl⟩ := Option.map_eq_some_iff.mp h
    exact ⟨rfl, OtpTable.ofRows_eq_some ht⟩

/-- An insert that replaces nothing finds no challenge of the user. -/
theorem ofUser_of_replaceChallenge {c : OtpChallenge} {d d' : AuthDb}
    (h : replaceChallenge none c d = some d') : d.otps.ofUser c.userId c.purpose = none := by
  cases hof : d.otps.ofUser c.userId c.purpose with
  | none => rfl
  | some e =>
    obtain ⟨hmem, hu, hp⟩ := OtpTable.ofUser_eq_some hof
    have hrows : d'.otps.rows = d.otps.rows ++ [c] := by
      simpa using (base_of_replaceChallenge h).2
    have hnodup := d'.otps.uq_user_purpose
    rw [hrows, List.map_append, List.nodup_append] at hnodup
    refine absurd ?_ (hnodup.2.2 _ (List.mem_map_of_mem hmem) _ (List.mem_singleton_self _))
    rw [hu, hp]

theorem base_of_updateChallenge {c : OtpChallenge} {d d' : AuthDb}
    (h : updateChallenge c d = some d') : d'.base = d.base ∧
      d'.otps.rows = d.otps.rows.map fun r => if r.id = c.id then c else r := by
  obtain ⟨t, ht, rfl⟩ := Option.map_eq_some_iff.mp h
  exact ⟨rfl, OtpTable.ofRows_eq_some ht⟩

theorem base_of_deleteChallenge {id : PyStr} {d d' : AuthDb} (h : deleteChallenge id d = some d') :
    d'.base = d.base ∧ d'.otps.rows = d.otps.rows.filter fun c => c.id ≠ id := by
  obtain ⟨t, ht, rfl⟩ := Option.map_eq_some_iff.mp h
  exact ⟨rfl, OtpTable.ofRows_eq_some ht⟩

/-- The lock columns of an account leave its id, role and session version. -/
theorem users_of_account {d d' : Db}
    (h : (∃ u lock, d'.toTables = recordFailedLogin u lock d.toTables) ∨
      ∃ i u, d'.toTables = resetFailedLogins i u d.toTables) :
    ∃ i f hf, d'.toTables = { d.toTables with users := d.users.update i f hf } ∧
      ∀ u : User, (f u).roleId = u.roleId ∧ (f u).sessionVersion = u.sessionVersion := by
  rcases h with ⟨u, lock, h⟩ | ⟨i, u, h⟩
  · exact ⟨_, _, _, h, fun _ => ⟨rfl, rfl⟩⟩
  · refine ⟨_, _, _, h, fun _ => ?_⟩
    cases u <;> exact ⟨rfl, rfl⟩

/-- A commit of sign-in itself changes at most lock columns of accounts. -/
theorem AuthAct.base_cases {r : AuthRequest} {l : AuthLoc} {d d' : AuthDb} {clock : Time}
    (h : AuthAct L r l d clock d') :
    (∃ q, r = .base q ∧ Act L.toLib q (baseStore.loc l) d.base d'.base) ∨
      ∃ i f hf, d'.base.toTables = { d.base.toTables with users := d.base.users.update i f hf } ∧
        ∀ u : User, (f u).roleId = u.roleId ∧ (f u).sessionVersion = u.sessionVersion := by
  have hsame : d'.base = d.base →
      ∃ i f hf, d'.base.toTables = { d.base.toTables with users := d.base.users.update i f hf } ∧
        ∀ u : User, (f u).roleId = u.roleId ∧ (f u).sessionVersion = u.sessionVersion := by
    intro heq
    refine ⟨0, id, fun _ => rfl, ?_, fun _ => ⟨rfl, rfl⟩⟩
    rw [heq, Table.update_id]
  cases h with
  | base request act otps => exact .inl ⟨_, request, act⟩
  | account after otps => exact .inr (users_of_account after)
  | issued h => exact .inr (hsame (base_of_replaceChallenge h.after).1)
  | judged h => exact .inr (hsame (base_of_updateChallenge h.after).1)
  | withdrawn request after => exact .inr (hsame (base_of_deleteChallenge after).1)

/-! ### Events and replies -/

/-- The commit accepts the challenge `challengeId`, which is live, for `code`. -/
def Accepts (L : AuthLib) (challengeId : PyStr) (userId : ℕ) (purpose code : PyStr)
    (d d' : AuthDb) : Prop :=
  ∃ c now, c ∈ d.otps.rows ∧ c.id = challengeId ∧ c.userId = userId ∧ c.purpose = purpose ∧
    c.consumedAt = none ∧ now < c.expiresAt ∧ c.failedAttempts < maxFailedAttempts ∧
    otpDigest L c.id code = some c.codeDigest ∧
    updateChallenge { c with consumedAt := some now } d = some d'

/-- The events of a sign-in request. -/
abbrev AuthLog := List (Ev AuthDb AuthEvent AuthReply)

/-- The log has an event of this kind. -/
def Reported (log : AuthLog) (p : AuthEvent → Prop) : Prop := ∃ e, .emit e ∈ log ∧ p e

/-- The return of a verification. -/
def AuthEvent.isOtpVerified : AuthEvent → Prop
  | .otpVerified _ _ _ _ _ => True
  | _ => False

/-- The issue of a session token by `_complete_login`. -/
def AuthEvent.isLoginCompleted : AuthEvent → Prop
  | .loginCompleted _ _ _ => True
  | _ => False

/-- The events a request may leave. -/
def AuthEmits (L : AuthLib) (mfa : Bool) (r : AuthRequest) (l : AuthLoc) (log : AuthLog) :
    AuthEvent → Prop
  | .base _ => True
  | .passwordChecked i v => ∃ cookie session form d₀ u, r = .login cookie session form ∧
      l.snap .voters = some d₀ ∧ d₀.base.userByUsername L.toLib form.username = some u ∧
      u.id = i ∧ u.sessionVersion = v ∧ L.checkPasswordHash u.passwordHash form.password = true
  | .otpVerified cid i purpose code result => ¬Reported log AuthEvent.isOtpVerified ∧
      r.Verifies cid i purpose code ∧
      (result = .valid → ∃ d d', .write d d' ∈ log ∧ Accepts L cid i purpose code d d')
  | .loginCompleted i v token => (∃ b d₀ u iat, l.snap b = some d₀ ∧
      d₀.base.users.get? i = some u ∧ u.sessionVersion = v ∧
      token = L.jwtEncode ⟨.str (natRepr 10 i), iat, iat + tokenLifetime, .int v⟩) ∧
      (mfa = true → ¬Reported log AuthEvent.isLoginCompleted ∧
        ∃ cid code, r.Verifies cid i loginMfa code ∧
          .emit (.otpVerified cid i loginMfa code .valid) ∈ log)

/-- The session is in the second step of a login. -/
def Session.Pending (s : Session) (userId : ℕ) (challengeId : PyStr) : Prop :=
  s.mfaPendingUserId = some userId ∧ s.mfaChallengeId = some challengeId

/-- The request has committed the challenge `c`. -/
def CommitsChallenge (L : AuthLib) (r : AuthRequest) (log : AuthLog) (c : OtpChallenge)
    (code : PyStr) : Prop :=
  ∃ d d' clock, .write d d' ∈ log ∧ OtpIssued L r d clock d' c ∧
    otpDigest L c.id code = some c.codeDigest

/-- What a reply says: a pending login has come with the request, or has been started by it after
a password check, and a code that is returned is the one of a committed challenge. -/
structure AuthPost (L : AuthLib) (r : AuthRequest) (a : AuthReply) (log : AuthLog) : Prop where
  pending : ∀ {p s i cid}, a = .page p s → s.Pending i cid → r.session.Pending i cid ∨
    (∃ v, .emit (.passwordChecked i v) ∈ log) ∧
      ∃ c code, c.id = cid ∧ c.userId = i ∧ c.purpose = loginMfa ∧ CommitsChallenge L r log c code
  issued : ∀ {cid code}, a = .otpIssued (.ok (cid, code)) →
    ∃ c, c.id = cid ∧ r.Issues c code ∧ CommitsChallenge L r log c code

/-! ### The rules -/

/-- How others may move the committed state past the locks in `l`. -/
structure AuthRelies (E : AuthEnvironment) (l : AuthLoc) (d : AuthDb) (w : E.World) (d' : AuthDb)
    (w' : E.World) : Prop where
  held : ∀ h ∈ l.held, Store.val d' h.1 = Store.val d h.1
  clock : E.clock w ≤ E.clock w'
  base : Relies E.base (baseStore.loc l) d.base w d'.base w'

theorem AuthRelies.refl (l : AuthLoc) (d : AuthDb) (w : E.World) : AuthRelies E l d w d w :=
  ⟨fun _ _ => rfl, le_rfl, .refl _ _ _⟩

theorem AuthRelies.trans {l : AuthLoc} {d d' d'' : AuthDb} {w w' w'' : E.World}
    (h : AuthRelies E l d w d' w') (h' : AuthRelies E l d' w' d'' w'') :
    AuthRelies E l d w d'' w'' :=
  ⟨fun x hx => (h'.held x hx).trans (h.held x hx), h.clock.trans h'.clock, h.base.trans h'.base⟩

theorem AuthRelies.of_world {l : AuthLoc} {d : AuthDb} {w w' : E.World}
    (hclock : E.clock w ≤ E.clock w')
    (hcached : ∀ {wk i k}, E.base.cached w wk i = some k → E.base.cached w' wk i = some k) :
    AuthRelies E l d w d w' :=
  ⟨fun _ _ => rfl, hclock, .of_world hcached⟩

/-- A held challenge is what it was. -/
theorem AuthRelies.challenge {l : AuthLoc} {d d' : AuthDb} {w w' : E.World}
    (h : AuthRelies E l d w d' w') {m : Mode} {c : OtpChallenge}
    (hc : (AuthRow.otp c.id, m) ∈ l.held) (hrow : c ∈ d.otps.rows) : c ∈ d'.otps.rows := by
  have hval := h.held _ hc
  rw [val_otp, val_otp, OtpTable.get?_eq_some.mpr ⟨hrow, rfl⟩] at hval
  obtain ⟨c', hc', heq⟩ := Option.map_eq_some_iff.mp hval
  cases heq
  exact (OtpTable.get?_eq_some.mp hc').1

/-- A change of lock columns moves nothing that other requests rely on, but the held rows. -/
theorem relies_of_account {l : Loc} {d d' : Db} {w : E.World} {i : ℕ} {f : User → User} {hf}
    (h : d'.toTables = { d.toTables with users := d.users.update i f hf })
    (hrole : ∀ u, (f u).roleId = u.roleId)
    (hheld : ∀ h ∈ l.held, Store.val d' h.1 = Store.val d h.1) :
    Relies E.base l d w d' w where
  evolves := by
    have h' : d'.toTables = { d.toTables with
        users := d.users.update i f hf
        rolls := d.rolls } := h
    exact .of_users h' fun hu => update_user_keeps_role hrole hu
  held := hheld
  roster _ := (congrArg (Tables.roster · _) h :)
  votes _ := (congrArg (Tables.votesFor · _) h :)
  tokens _ := (congrArg (Tables.tokensFor · _) h :)
  opened := fun _ {_ _} he hopen =>
    ⟨_, by rw [← show d'.elections = d.elections from (congrArg Tables.elections h :)]; exact he,
      hopen⟩
  cached hk := hk

/-- The rules. -/
def authRules (L : AuthLib) (E : AuthEnvironment) (mfa : Bool) : Rules (authMachine L E mfa) where
  Inv _ _ := True
  Rely := AuthRelies E
  Guar r l d w d' := AuthAct L r l d (E.clock w) d'
  Emit := AuthEmits L mfa
  rely_refl := AuthRelies.refl
  rely_trans _ := AuthRelies.trans
  rely_mono hh hs h :=
    ⟨fun x hx => h.held x (hh hx), h.clock, (rules L.toLib E.base).rely_mono
      (fun x hx => Embedding.mem_held.mpr (hh (Embedding.mem_held.mp hx)))
      (fun x hx => Embedding.mem_scanned.mpr (hs (Embedding.mem_scanned.mp hx))) h.base⟩
  guar_inv _ _ := trivial
  guar_rely {r l m d w d'} hc _ hact hval := by
    have hbase : ∀ h ∈ (baseStore.loc m).held, Store.val d'.base h.1 = Store.val d.base h.1 := by
      rintro ⟨x, b⟩ hx
      have heq := hval _ (Embedding.mem_held.mp hx)
      exact Option.map_injective (fun a b h => by cases h; rfl) heq
    refine ⟨hval, le_rfl, ?_⟩
    rcases hact.base_cases with ⟨q, -, hq⟩ | ⟨i, f, hf, heq, hkeep⟩
    · exact (rules L.toLib E.base).guar_rely (Embedding.compat hc) trivial hq hbase
    · exact relies_of_account heq (fun u => (hkeep u).1) hbase
  answer_inv _ _ := trivial
  answer_rely _ _ h := .of_world (E.answer_clock h) (E.answer_cached h)
  drift_inv _ _ := trivial
  drift_rely _ _ h := .of_world (E.drift_clock h) (E.base.drift_cached h)

/-- The configurations of a sign-in thread. -/
abbrev AuthConf (L : AuthLib) (E : AuthEnvironment) (mfa : Bool) := Cfg (authMachine L E mfa)

end SecureVote
