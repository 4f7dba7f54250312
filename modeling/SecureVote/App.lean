import SecureVote.Handler

/-!
# Request identity (`app/__init__.py`, `security/jwt_helpers.py`, `utils/auth_decorators.py`)

Every request but the anonymous ballot runs `_load_user_from_jwt` first. It reads the user on
the voter connection, so for a voter this read fixes the snapshot that all later plain reads of
the request see; a manager or delegate goes on with the other connection.
-/

open Txn

namespace SecureVote

open Py

/-- The authenticated user of a request, as loaded, with the connection it goes on with. -/
structure CurrentUser where
  user : User
  role : Option PyStr
  bind : Bind

/-- `JWT_LIFETIME_SECONDS`. -/
def tokenLifetime : ℤ := 15 * 60

/-- `issue_token`. -/
def issueToken (L : Lib) (userId : ℕ) (sessionVersion : ℤ) : Handler Unit := do
  let now := epochSeconds (← utcNow)
  Prog.report
    (.issue (L.jwtEncode ⟨.str (natRepr 10 userId), now, now + tokenLifetime, .int sessionVersion⟩))

/-- `decode_token`: the claims of a token that is valid at `now`. -/
def decodeToken (L : Lib) (now : Time) (token : PyStr) : Option Payload :=
  (L.jwtClaims token).bind fun p =>
    if now < p.iat * 1000000 ∨ p.exp * 1000000 ≤ now then none else some p

/-- Microseconds in `days` days. -/
def daysToTime (days : ℤ) : Time := days * 86400000000

/-- `User.is_password_expired`. -/
def User.isPasswordExpired (u : User) : Handler Bool :=
  match u.passwordChangedAt with
  | none => pure true
  | some t => do
    let now ← utcNow
    pure (decide (t + daysToTime 90 < now))

/-- The version check of a session token: an `int` that equals the stored version. -/
def Payload.matches (p : Payload) (u : User) : Bool :=
  match p.ver with
  | .int v => v = u.sessionVersion
  | _ => false

/-- Sliding expiration: a new token when less than half of the lifetime remains. -/
def refreshToken (L : Lib) (p : Payload) (u : User) : Handler Unit := do
  let now := epochSeconds (← utcNow)
  if 0 < p.exp - p.iat ∧ p.exp - now < (p.exp - p.iat) / 2 then
    let expired ← u.isPasswordExpired
    if expired then pure () else issueToken L u.id u.sessionVersion
  else pure ()

/-- The part of `_load_user_from_jwt` after the token has been accepted. -/
def acceptUser (L : Lib) (token : PyStr) (p : Payload) (changingPassword : Bool) (u : User)
    (role : Option PyStr) : Handler (Except Response (Option CurrentUser)) := do
  let expired ← u.isPasswordExpired
  Prog.report (.login u.id token)
  if expired && !changingPassword then
    pure (.error (.redirect (py "Your password has expired. Please change it to continue.")
      "warning" "password.change_password"))
  else
    refreshToken L p u
    let bind := if hasRole role "manager" || hasRole role "delegate" then Bind.admin else .voters
    pure (.ok (some ⟨u, role, bind⟩))

/-- `_load_user_from_jwt`: the user of the session cookie, nobody, or an early response. -/
def loadUserFromJwt (L : Lib) (cookie : Option PyStr) (changingPassword : Bool) :
    Handler (Except Response (Option CurrentUser)) := do
  match cookie with
  | none | some [] => pure (.ok none)
  | some token =>
    let now ← utcNow
    match decodeToken L now token with
    | none => pure (.ok none)
    | some p =>
      match p.sub.toInt with
      | .error _ => pure (.ok none)
      | .ok userId =>
        match ← Prog.select .voters fun d : Db =>
            (byId d.users userId).map fun u => (u, d.roleName u) with
        | none => pure (.ok none)
        | some (u, role) =>
          if u.accountStatus = .rejected ∨ p.matches u = false then pure (.ok none)
          else acceptUser L token p changingPassword u role

/-- `login_required`, after the user has been loaded. -/
def loginRequired (L : Lib) (cookie : Option PyStr) (changingPassword : Bool)
    (k : CurrentUser → Handler Response) : Handler Response := do
  match ← loadUserFromJwt L cookie changingPassword with
  | .error r => pure r
  | .ok none => pure .unauthorized
  | .ok (some cu) => k cu

/-- `roles_required(*allowed)`. -/
def rolesRequired (L : Lib) (allowed : List String) (cookie : Option PyStr)
    (k : CurrentUser → Handler Response) : Handler Response :=
  loginRequired L cookie false fun cu =>
    if allowed.any (hasRole cu.role) then k cu else pure (.abort 403)

/-- `admin_only`. -/
def adminOnly (L : Lib) (cookie : Option PyStr) (k : CurrentUser → Handler Response) :
    Handler Response :=
  loginRequired L cookie false fun cu =>
    if hasRole cu.role "manager" then k cu
    else pure (.redirect (py "Access denied: Admin only.") "message" "main.dashboard")

/-- A page that only asks for a login. -/
def profile (L : Lib) (cookie : Option PyStr) : Handler Response :=
  loginRequired L cookie false fun _ => pure (.render "profile.html" [])

end SecureVote
