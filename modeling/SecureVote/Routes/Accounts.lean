import SecureVote.App

/-!
# Accounts (`routes/admin_users.py`, `registration.py`, `password.py`, `password_reset.py`)

The writers of a user's approval state and of the session version. An ORM update writes the
columns that differ from the row as it was loaded, with the values computed from that row.
-/

open Txn

namespace SecureVote

open Py

/-! ### Approval -/

/-- A column assignment of the ORM: the column is written when the value differs from the
loaded one. -/
def assign {α : Type} [DecidableEq α] (loaded new current : α) : α :=
  if loaded = new then current else new

/-- `db.get_or_404(User, id)` for a request of `cu`, whose own row is in the identity map. -/
def getUser (cu : CurrentUser) (userId : ℕ) : Handler (Option User) :=
  if userId = cu.user.id then pure (some cu.user)
  else Prog.select cu.bind fun d : Db => d.users.get? userId

/-- The write of `approve_user`. -/
def markApproved (user : User) (enrolment : Option ElectoralRoll) (t : Tables) : Tables :=
  { t with
    users := t.users.update user.id
      (fun u => { u with accountStatus := assign user.accountStatus .approved u.accountStatus })
      fun _ => rfl
    rolls :=
      match enrolment with
      | none => t.rolls
      | some loaded => t.rolls.update loaded.id
          (fun r => { r with
            status := assign loaded.status .active r.status
            verified := assign loaded.verified true r.verified }) fun _ => rfl }

/-- `approve_user`. -/
def approveUser (L : Lib) (cookie : Option PyStr) (userId : ℕ) : Handler Response :=
  adminOnly L cookie fun cu => do
    match ← getUser cu userId with
    | none => pure (.abort 404)
    | some user =>
      if user.emailVerified = false then
        pure (.redirect (py "User '" ++ user.username ++ py "' must verify their email before approval.")
          "error" "admin_users.manage_users")
      else
        let enrolment ← Prog.select cu.bind fun d : Db => d.enrolment user.id
        match ← save (markApproved user enrolment) with
        | none => pure (.uncaught .integrityError)
        | some () =>
          auditRow cu.bind cu.user.id "user.approve" "user" Tables.users user.id
            (.redirect (py "✅ User '" ++ user.username ++ py "' approved.") "message"
              "admin_users.manage_users")

/-- The write of `reject_user`. -/
def markRejected (user : User) (t : Tables) : Tables :=
  { t with
    users := t.users.update user.id
      (fun u => { u with
        accountStatus := assign user.accountStatus .rejected u.accountStatus
        sessionVersion := user.sessionVersion + 1 }) fun _ => rfl }

/-- `reject_user`. -/
def rejectUser (L : Lib) (cookie : Option PyStr) (userId : ℕ) : Handler Response :=
  adminOnly L cookie fun cu => do
    match ← getUser cu userId with
    | none => pure (.abort 404)
    | some user =>
      match ← save (markRejected user) with
      | none => pure (.uncaught .integrityError)
      | some () =>
        auditRow cu.bind cu.user.id "user.reject" "user" Tables.users user.id
          (.redirect (py "❌ User '" ++ user.username ++ py "' rejected.") "message"
            "admin_users.manage_users")

/-! ### Signed links -/

/-- Why a timed token is refused. -/
inductive TokenError
  | expired
  | bad
  deriving DecidableEq, Repr

/-- `URLSafeTimedSerializer.loads(token, max_age)` of a token whose signed content is `signed`. -/
def loadsTimed (signed : Option (Json × Time)) (maxAge : ℤ) (now : Time) : Except TokenError Json :=
  match signed with
  | none => .error .bad
  | some (data, ts) =>
    let age := epochSeconds now - epochSeconds ts
    if maxAge < age ∨ age < 0 then .error .expired else .ok data

/-- `User.query.filter_by(email=email).first()`, under the collation of the column. -/
def Tables.userByEmail (L : Lib) (t : Tables) (email : Json) : Option User :=
  match email with
  | .str s => t.users.rows.find? fun u => u.email.any (L.collateEq s)
  | _ => none

/-- The write of `verify_email`. -/
def markVerified (userId : ℕ) (t : Tables) : Tables :=
  { t with users := t.users.update userId (fun u => { u with emailVerified := true }) fun _ => rfl }

/-- `verify_email`. -/
def verifyEmail (L : Lib) (token : PyStr) : Handler Response := do
  let now ← utcNow
  match loadsTimed (L.verifyToken token) 86400 now with
  | .error .expired =>
    pure (.redirect (py "Verification link has expired. Please request a new link.") "error"
      "auth.login")
  | .error .bad => pure (.redirect (py "Invalid verification link.") "error" "auth.login")
  | .ok data =>
    match ← Prog.select Bind.voters (fun d : Db => d.userByEmail L data) with
    | none => pure (.redirect (py "Invalid verification link.") "error" "auth.login")
    | some user =>
      if user.emailVerified then
        pure (.redirect (py "Email already verified. Please log in.") "success" "auth.login")
      else
        match ← save (markVerified user.id) with
        | none => pure (.uncaught .integrityError)
        | some () =>
          pure (.redirect
            (py "Email verified successfully! Your account is pending admin approval.") "success"
            "auth.login")

/-! ### Passwords -/

/-- The special characters of the password rules. -/
def specialChars : PyStr := py "!@#$%^&*()_+-=[]" ++ [123, 125] ++ py "|;:,.<>?"

/-- `"; ".join(errors)`. -/
def joinErrors : List PyStr → PyStr
  | [] => []
  | [e] => e
  | e :: es => e ++ py "; " ++ joinErrors es

/-- `validate_password_strength`: the complaint about a weak password. -/
def validatePasswordStrength (password : PyStr) : Option PyStr :=
  if password.isEmpty then some (py "Password cannot be empty")
  else
    let errors :=
      (if password.length < 12 then [py "Password must be at least 12 characters long"] else []) ++
      (if password.any (fun c => 65 ≤ c && c ≤ 90) then []
        else [py "Password must contain at least 1 uppercase letter"]) ++
      (if password.any (fun c => 97 ≤ c && c ≤ 122) then []
        else [py "Password must contain at least 1 lowercase letter"]) ++
      (if password.any (specialChars.contains ·) then []
        else [py "Password must contain at least 1 special character (" ++ specialChars ++ py ")"])
    if errors.isEmpty then none else some (joinErrors errors)

/-- The columns `User.set_password` assigns, on the row as it is at the flush. -/
def applyPassword (loaded : User) (hash : PyStr) (changedAt : Time) (u : User) : User :=
  { u with
    passwordHash := hash
    passwordChangedAt := some changedAt
    sessionVersion := loaded.sessionVersion + 1
    failedLoginAttempts := assign loaded.failedLoginAttempts 0 u.failedLoginAttempts
    accountLockedUntil := assign loaded.accountLockedUntil none u.accountLockedUntil }

/-- The write of `change_password` and `reset_password`. -/
def writePassword (loaded : User) (hash : PyStr) (changedAt : Time) (t : Tables) : Tables :=
  { t with users := t.users.update loaded.id (applyPassword loaded hash changedAt) fun _ => rfl }

/-- `User.set_password` followed by the commit; the complaint about a weak password comes
first. -/
def setPassword (loaded : User) (password : PyStr) : Handler (Except PyStr (Option Unit)) := do
  match validatePasswordStrength password with
  | some complaint => pure (.error complaint)
  | none =>
    let hash ← Prog.call (Query.passwordHash password)
    let changedAt ← utcNow
    let saved ← save (writePassword loaded hash changedAt)
    pure (.ok saved)

/-- Rendering the change form again, with a complaint. -/
def changeForm (message : PyStr) : Response := .render "change_password.html" message

/-- The form of `change_password`. -/
structure PasswordForm where
  current : PyStr
  new : PyStr
  confirm : PyStr
  deriving DecidableEq, Repr

/-- The checks of `change_password` before the password is set. -/
def checkChange (L : Lib) (u : User) (form : PasswordForm) : Option PyStr :=
  if form.current.isEmpty || form.new.isEmpty || form.confirm.isEmpty then
    some (py "All fields are required")
  else if L.checkPasswordHash u.passwordHash form.current = false then
    some (py "Current password is incorrect")
  else if L.checkPasswordHash u.passwordHash form.new then
    some (py "New password must be different from current password")
  else if form.new ≠ form.confirm then some (py "New passwords do not match")
  else (validatePasswordStrength form.new).map (py "Password validation failed: " ++ ·)

/-- `change_password`, as a `POST`. -/
def changePassword (L : Lib) (cookie : Option PyStr) (form : PasswordForm) : Handler Response :=
  loginRequired L cookie true fun cu => do
    match checkChange L cu.user form with
    | some complaint => pure (changeForm complaint)
    | none =>
      match ← setPassword cu.user form.new with
      | .error complaint =>
        Prog.abort
        pure (changeForm (py "Password validation failed: " ++ complaint))
      | .ok none =>
        Prog.abort
        pure (changeForm (py "Password could not be changed. Please try again."))
      | .ok (some ()) =>
        match ← refresh cu.bind Tables.users cu.user.id with
        | none =>
          pure (.redirect (py "Password changed successfully. Please sign in again.") "success"
            "auth.login")
        | some u =>
          issueToken L u.id u.sessionVersion
          pure (.redirect (py "Password changed successfully!") "success" "main.dashboard")

/-- The user id and version of a reset token's payload, which must be integers. -/
def resetClaims (data : Json) : Option (ℤ × ℤ) :=
  match data with
  | .obj kvs =>
    match dictGet kvs (py "uid"), dictGet kvs (py "ver") with
    | some (.int uid), some (.int ver) => some (uid, ver)
    | _, _ => none
  | _ => none

/-- `flash('Invalid reset link.', 'error')`. -/
def invalidLink : Response :=
  .redirect (py "Invalid reset link.") "error" "password_reset.forgot_password"

/-- The mutation of `reset_password`: the row is locked and its version checked again. -/
def consumeReset (uid ver : ℤ) (password : PyStr) : Handler Response := do
  let user ← Prog.selectLocking .exclusive
    (fun d : Db => ((byId d.users uid).map (RowId.user ·.id)).toList)
    fun d : Db => byId d.users uid
  match user.filter fun u => u.sessionVersion = ver with
  | none =>
    Prog.abort
    pure invalidLink
  | some user =>
    match ← setPassword user password with
    | .error _ => pure (.uncaught .valueError)
    | .ok none => pure (.uncaught .integrityError)
    | .ok (some ()) =>
      pure (.redirect (py "Your password has been reset. Please log in.") "success" "auth.login")

/-- `reset_password`: a `GET` without a form, or a `POST` with the two fields of the form. -/
def resetPassword (L : Lib) (token : PyStr) (form : Option (PyStr × PyStr)) :
    Handler Response := do
  let now ← utcNow
  match loadsTimed (L.resetToken token) 1800 now with
  | .error .expired =>
    pure (.redirect (py "This reset link has expired. Please request a new one.") "error"
      "password_reset.forgot_password")
  | .error .bad => pure invalidLink
  | .ok data =>
    match resetClaims data with
    | none => pure invalidLink
    | some (uid, ver) =>
      let user ← Prog.select Bind.voters fun d : Db => byId d.users uid
      match user.filter fun u => u.sessionVersion = ver with
      | none => pure invalidLink
      | some _ =>
        match form with
        | none => pure (.render "reset_password.html" [])
        | some (new, confirm) =>
          if new.isEmpty || confirm.isEmpty then
            pure (.render "reset_password.html" (py "All fields are required."))
          else if new ≠ confirm then
            pure (.render "reset_password.html" (py "Passwords do not match."))
          else
            match validatePasswordStrength new with
            | some complaint =>
              pure (.render "reset_password.html" (py "Password too weak: " ++ complaint))
            | none => consumeReset uid ver new

end SecureVote
