import SecureVote.Services.OtpService
import SecureVote.Routes.Accounts

/-!
# Sign-in (`auth.py`)

The two steps of a login, and the pending state between them, which lives in a signed cookie that
the client holds. Whether a login form passes the checks against bots is an input; the page that a
login goes on to after its last step is left out.
-/

open Txn

namespace SecureVote

open Py

/-! ### Sessions -/

/-- The keys of the Flask session that sign-in uses. -/
structure Session where
  /-- `_user_id`, of Flask-Login. -/
  userId : Option ℕ
  mfaPendingUserId : Option ℕ
  mfaChallengeId : Option PyStr
  deriving DecidableEq, Repr

/-- The session of a client without a cookie. -/
def Session.empty : Session := ⟨none, none, none⟩

/-- `session.pop` of the keys of a pending login. -/
def Session.popPending (s : Session) : Session :=
  { s with mfaPendingUserId := none, mfaChallengeId := none }

/-- The session after `_load_user_from_jwt`: a rejected session token, or a Flask-Login identity
without one, clears it. -/
def Session.afterToken (s : Session) (cookie : Option PyStr) (user : Option CurrentUser) :
    Session :=
  match user with
  | some cu => { s with userId := some cu.user.id }
  | none =>
    match cookie with
    | none | some [] => if s.userId.isSome then .empty else s
    | some _ => .empty

/-- What a sign-in request ends with: a page with the session it leaves, or the return of a
service function. -/
inductive AuthReply
  | page (r : Response) (session : Session)
  | base (r : Response)
  | otpIssued (result : Except OtpError (PyStr × PyStr))
  | otpVerified (result : Option OtpResult)

/-! ### Completing a login -/

/-- `User.is_account_locked`. -/
def User.isAccountLocked (u : User) : AuthHandler Bool :=
  match u.accountLockedUntil with
  | none => pure false
  | some t => do
    let now : Time ← Prog.call (AuthQuery.base .now)
    pure (decide (now < t))

/-- The write of `reset_failed_logins`, from the row as loaded; an expired row is written as it
is. -/
def resetFailedLogins (userId : ℕ) (loaded : Option User) (t : Tables) : Tables :=
  let reset (u : User) : User :=
    match loaded with
    | none => { u with failedLoginAttempts := 0, accountLockedUntil := none }
    | some l => { u with
        failedLoginAttempts := assign l.failedLoginAttempts 0 u.failedLoginAttempts
        accountLockedUntil := assign l.accountLockedUntil none u.accountLockedUntil }
  { t with users := t.users.update userId reset fun u => by cases loaded <;> rfl }

/-- `_complete_login`. -/
def completeLogin (L : AuthLib) (b : Bind) (session : Session) (userId : ℕ)
    (loaded : Option User) : AuthHandler AuthReply := do
  match ← Handler.lift (save (resetFailedLogins userId loaded)) with
  | none => pure (.page (.uncaught .integrityError) session)
  | some () =>
    match ← Prog.select b fun d : AuthDb => d.base.users.get? userId with
    | none => pure (.page .objectDeleted session)
    | some u =>
      let expired ← Handler.lift u.isPasswordExpired
      let now : Time ← Prog.call (AuthQuery.base .now)
      let iat := epochSeconds now
      Prog.report (.loginCompleted u.id u.sessionVersion
        (L.jwtEncode ⟨.str (natRepr 10 u.id), iat, iat + tokenLifetime, .int u.sessionVersion⟩))
      let session := { session with userId := some u.id }
      if expired then
        pure (.page (.redirect (py "Your password has expired. Please change it to continue.")
          "warning" "password.change_password") session)
      else pure (.page (.redirect [] "" "main.dashboard") session)

/-! ### `login` -/

/-- The form of `login`. -/
structure LoginForm where
  /-- The checks against bots pass. -/
  human : Bool
  username : PyStr
  password : PyStr
  deriving DecidableEq, Repr

/-- `User.query.filter_by(username=username).first()`, under the collation of the column. -/
def Tables.userByUsername (L : Lib) (t : Tables) (username : PyStr) : Option User :=
  t.users.rows.find? fun u => L.collateEq username u.username

/-- The lockout of `record_failed_login`: `max_attempts=5` and `lockout_minutes=30`. -/
def maxLoginAttempts : ℤ := 5

/-- `timedelta(minutes=30)`. -/
def lockoutTime : Time := 30 * 60 * 1000000

/-- The write of `record_failed_login`, with the values computed from the row as loaded. -/
def recordFailedLogin (loaded : User) (lockedUntil : Option Time) (t : Tables) : Tables :=
  let record (u : User) : User := { u with
    failedLoginAttempts := loaded.failedLoginAttempts + 1
    accountLockedUntil := lockedUntil.or u.accountLockedUntil }
  { t with users := t.users.update loaded.id record fun _ => rfl }

/-- The login form again, with a message. -/
def loginPage (message : PyStr) (session : Session) : AuthReply :=
  .page (.render "login.html" message) session

/-- `flash('Invalid username or password')`. -/
def invalidLogin : PyStr := py "Invalid username or password"

/-- The part of `login` after a wrong password. -/
def failLogin (session : Session) (user : User) : AuthHandler AuthReply := do
  let lockedUntil : Option Time ←
    if maxLoginAttempts ≤ user.failedLoginAttempts + 1 then do
      let now : Time ← Prog.call (AuthQuery.base .now)
      pure (some (now + lockoutTime))
    else pure none
  match ← Handler.lift (save (recordFailedLogin user lockedUntil)) with
  | none => pure (.page (.uncaught .integrityError) session)
  | some () =>
    match ← Prog.select Bind.voters fun d : AuthDb => d.base.users.get? user.id with
    | none => pure (.page .objectDeleted session)
    | some u =>
      let locked ← u.isAccountLocked
      pure (loginPage (if locked then
        invalidLogin ++ py "; Account has been locked due to multiple failed login attempts. " ++
          py "Please try again in 30 minutes or contact support."
        else invalidLogin) session)

/-- `flash('Verification code could not be sent. Please try again.', 'error')`, without the keys of
a pending login. -/
def codeNotSent (session : Session) : AuthReply :=
  .page (.redirect (py "Verification code could not be sent. Please try again.") "error"
    "auth.login") session.popPending

/-- `OtpChallenge.query.filter_by(id=challenge_id).delete()`. -/
def deleteChallenge (challengeId : PyStr) (d : AuthDb) : Option AuthDb :=
  (OtpTable.ofRows (d.otps.rows.filter fun c => c.id ≠ challengeId)).map
    fun otps => { d with otps := otps }

/-- The part of `login` after the right password, with the second factor on. -/
def startMfa (L : AuthLib) (session : Session) (user : User) : AuthHandler AuthReply := do
  match ← issueOtpChallenge L user.id loginMfa 300 none with
  | .error _ =>
    Prog.abort
    pure (codeNotSent session)
  | .ok (challengeId, code) =>
    let email ← Prog.select Bind.voters fun d : AuthDb =>
      (d.base.users.get? user.id).map User.email
    let sent : Bool ← match email with
      | none => pure false
      | some email => Prog.call (AuthQuery.sendMail email code)
    if sent then
      pure (.page (.redirect [] "" "auth.verify_mfa")
        { session with mfaPendingUserId := some user.id, mfaChallengeId := some challengeId })
    else
      Prog.abort
      let _ ← Prog.write fun d => (deleteChallenge challengeId d).map fun d' => ((), d')
      pure (codeNotSent session)

/-- `login`, as a `POST`. `mfa` is `ENABLE_MFA`. -/
def login (L : AuthLib) (mfa : Bool) (cookie : Option PyStr) (session : Session)
    (form : LoginForm) : AuthHandler AuthReply := do
  match ← Handler.lift (loadUserFromJwt L.toLib cookie false) with
  | .error r => pure (.page r session)
  | .ok (some cu) =>
    pure (.page (.redirect [] "" "main.dashboard") (session.afterToken cookie (some cu)))
  | .ok none =>
    let session := session.afterToken cookie none
    if form.human = false then
      pure (loginPage (py "Human verification failed. Please use the web login form in a browser.")
        session)
    else
      match ← Prog.select Bind.voters fun d : AuthDb =>
          d.base.userByUsername L.toLib form.username with
      | none => pure (loginPage invalidLogin session)
      | some user =>
        let locked ← user.isAccountLocked
        if locked then
          pure (loginPage (py "Account is locked due to multiple failed login attempts. " ++
            py "Please try again later or contact support.") session)
        else if form.password.isEmpty ∨
            L.checkPasswordHash user.passwordHash form.password = false then
          failLogin session user
        else
          Prog.report (.passwordChecked user.id user.sessionVersion)
          if mfa then startMfa L session user
          else completeLogin L .voters session user.id (some user)

/-! ### `verify_mfa` -/

/-- `flash(message, 'error')` and back to the login page. -/
def toLogin (message : String) (session : Session) : AuthReply :=
  .page (.redirect (py message) "error" "auth.login") session

/-- `db.session.get(User, id)` of a request whose own row is in the identity map. -/
def getPendingUser (user : Option CurrentUser) (b : Bind) (userId : ℕ) :
    AuthHandler (Option User) :=
  match user.filter fun cu => cu.user.id = userId with
  | some cu => pure (some cu.user)
  | none => Prog.select b fun d : AuthDb => d.base.users.get? userId

/-- The part of `verify_mfa` for a submitted code. -/
def submitCode (L : AuthLib) (b : Bind) (session : Session) (userId : ℕ) (code : PyStr) :
    AuthHandler AuthReply := do
  match session.mfaChallengeId.filter fun id => !id.isEmpty with
  | none =>
    pure (toLogin "Verification code expired. Please sign in again."
      { session with mfaPendingUserId := none })
  | some challengeId =>
    match ← verifyOtpChallenge L challengeId userId loginMfa code with
    | none => pure (.page (.uncaught .valueError) session)
    | some .missing | some .expired =>
      pure (toLogin "Verification code expired. Please sign in again." session.popPending)
    | some .locked =>
      pure (toLogin "Too many attempts. Please sign in again." session.popPending)
    | some .invalid => pure (.page (.render "verify_mfa.html" (py "Invalid verification code."))
        session)
    | some .valid => completeLogin L b session.popPending userId none

/-- `verify_mfa`: a `GET` without a form, or a `POST` with the field `otp`. -/
def verifyMfa (L : AuthLib) (cookie : Option PyStr) (session : Session) (otp : Option PyStr) :
    AuthHandler AuthReply := do
  match ← Handler.lift (loadUserFromJwt L.toLib cookie false) with
  | .error r => pure (.page r session)
  | .ok user =>
    let session := session.afterToken cookie user
    let b := (user.map CurrentUser.bind).getD .voters
    match session.mfaPendingUserId.filter fun id => id ≠ 0 with
    | none => pure (toLogin "Please sign in first." session)
    | some userId =>
      match ← getPendingUser user b userId with
      | none =>
        pure (toLogin "Session expired. Please sign in again."
          { session with mfaPendingUserId := none })
      | some u =>
        match otp with
        | none => pure (.page (.render "verify_mfa.html" []) session)
        | some code => submitCode L b session u.id (strip code)

/-! ### `unlock_user` -/

/-- `unlock_user` (`routes/admin_users.py`). -/
def unlockUser (L : Lib) (cookie : Option PyStr) (userId : ℕ) : Handler Response :=
  adminOnly L cookie fun cu => do
    match ← getUser cu userId with
    | none => pure (.abort 404)
    | some user =>
      match ← save (resetFailedLogins user.id (some user)) with
      | none => pure (.uncaught .integrityError)
      | some () =>
        match ← refresh cu.bind Tables.users user.id with
        | none => pure .objectDeleted
        | some u =>
          pure (.redirect (py "Account '" ++ u.username ++ py "' has been unlocked.") "success"
            "admin_users.manage_users")

end SecureVote
