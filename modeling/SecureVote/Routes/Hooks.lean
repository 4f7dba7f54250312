import SecureVote.Routes.Auth
import SecureVote.Routes.Main

/-!
# The hooks around a view (`app/__init__.py`, `middleware.py`, `security/csrf.py`)

Before a view run, in the order of their registration: the geo filter, the CSRF check, the choice
of the database bind, and the session token. After it, `_maybe_set_refresh_cookie` turns what was
noted on `g` into cookies, behind those that the view has set.

`serve` is a request that has passed the first two, for views that differ in what they do with the
`session_token` cookie.
-/

open Txn

namespace SecureVote

open Py

/-! ### What the hooks read and leave -/

/-- What the hooks look up in the configuration. -/
structure AppConfig where
  testing : Bool
  /-- `SQLALCHEMY_BINDS` is not empty. -/
  hasBinds : Bool
  /-- `WTF_CSRF_ENABLED` is not `False`. -/
  csrfEnabled : Bool
  /-- `GEO_FILTER_ENABLED`. -/
  geoFilter : Bool
  deriving DecidableEq, Repr

/-- The cookies of a request: the session token, and what the Flask session holds. -/
structure Cookies where
  sessionToken : Option PyStr
  session : Session
  csrfToken : Option PyStr
  /-- `_flashes`, the flashed messages with their categories. -/
  flashes : List (String × PyStr)
  deriving DecidableEq, Repr

/-- `g._login_user`. -/
inductive LoginUser
  | unloaded
  | anonymous
  | loggedIn (cu : CurrentUser)

/-- `g`. -/
structure Globals where
  activeBind : Option Bind
  loginUser : LoginUser
  clearSessionToken : Bool
  clearFlaskSessionCookie : Bool
  newSessionToken : Option PyStr

/-- `g` of a new request. -/
def Globals.initial : Globals := ⟨none, .unloaded, false, false, none⟩

/-- `reject_session_token`. -/
def Globals.rejectSessionToken (g : Globals) : Globals :=
  { g with loginUser := .anonymous, clearSessionToken := true, clearFlaskSessionCookie := true }

/-- A `Set-Cookie` header of the application. -/
inductive SetCookie
  | sessionToken (token : PyStr)
  | deleteSessionToken
  | deleteFlaskSession
  deriving DecidableEq, Repr

/-- The `session_token` of the browser after a header. -/
def SetCookie.apply (jar : Option PyStr) : SetCookie → Option PyStr
  | .sessionToken token => some token
  | .deleteSessionToken => none
  | .deleteFlaskSession => jar

/-- The `session_token` of the browser after the headers of a response, in order. -/
def applyCookies (jar : Option PyStr) (headers : List SetCookie) : Option PyStr :=
  headers.foldl SetCookie.apply jar

/-! ### Before the view -/

/-- The bind of a user: managers and delegates have the other one. -/
def bindOf (role : Option PyStr) : Bind :=
  if hasRole role "manager" || hasRole role "delegate" then .admin else .voters

/-- A user with its role, by id. -/
def userById (i : ℤ) (d : Db) : Option (User × Option PyStr) :=
  (byId d.users i).map fun u => (u, d.roleName u)

/-- `load_user` of the id in the Flask session, on the connection of the request. -/
def loadSessionUser (s : Session) : Handler (Option CurrentUser) :=
  match s.userId with
  | none => pure none
  | some i => do
    match ← Prog.selectLatest fun d : Db => userById i d with
    | none => pure none
    | some (u, role) => pure (some ⟨u, role, bindOf role⟩)

/-- `_select_db_bind_for_request`. Only tests look at the identity of the Flask session here. -/
def selectDbBind (cfg : AppConfig) (c : Cookies) (g : Globals) : Handler Globals :=
  if cfg.hasBinds = false then pure { g with activeBind := none }
  else if cfg.testing = false then pure { g with activeBind := some .voters }
  else do
    match ← loadSessionUser c.session with
    | none => pure { g with activeBind := some .voters, loginUser := .anonymous }
    | some cu => pure { g with activeBind := some cu.bind, loginUser := .loggedIn cu }

/-- `issue_token`, with the token that it returns. -/
def newToken (L : Lib) (userId : ℕ) (sessionVersion : ℤ) : Handler PyStr := do
  let now := epochSeconds (← utcNow)
  let token :=
    L.jwtEncode ⟨.str (natRepr 10 userId), now, now + tokenLifetime, .int sessionVersion⟩
  Prog.report (.issue token)
  pure token

/-- Sliding expiration, with the token that is noted as `g._new_session_token`. -/
def slidingToken (L : Lib) (p : Payload) (u : User) : Handler (Option PyStr) := do
  let now := epochSeconds (← utcNow)
  if 0 < p.exp - p.iat ∧ p.exp - now < (p.exp - p.iat) / 2 then
    let expired ← u.isPasswordExpired
    if expired then pure none
    else
      let token ← newToken L u.id u.sessionVersion
      pure (some token)
  else pure none

/-- The endpoints that a user with an expired password may use. -/
def passwordExempt (endpoint : String) : Bool :=
  endpoint ∈ ["password.change_password", "auth.logout", "static"]

/-- The part of `_load_user_from_jwt` after the token has been accepted. -/
def admitUser (L : Lib) (endpoint : String) (token : PyStr) (p : Payload) (u : User)
    (role : Option PyStr) (g : Globals) : Handler (Option Response × Globals) := do
  let expired ← u.isPasswordExpired
  Prog.report (.login u.id token)
  let g := { g with loginUser := .loggedIn ⟨u, role, bindOf role⟩ }
  if expired && !passwordExempt endpoint then
    pure (some (.redirect (py "Your password has expired. Please change it to continue.")
      "warning" "password.change_password"), g)
  else
    let new ← slidingToken L p u
    pure (none, { g with activeBind := some (bindOf role), newSessionToken := new })

/-- `_load_user_from_jwt`, with what it leaves on `g`. -/
def loadRequestUser (L : Lib) (cfg : AppConfig) (endpoint : String) (c : Cookies) (g : Globals) :
    Handler (Option Response × Globals) := do
  if endpoint = "main.cast_anonymous_ballot" then
    pure (none, { g with activeBind := some .voters, loginUser := .anonymous })
  else
    match c.sessionToken with
    | none | some [] =>
      if cfg.testing = false ∧ c.session.userId.isSome then pure (none, g.rejectSessionToken)
      else pure (none, g)
    | some token =>
      let now ← utcNow
      match decodeToken L now token with
      | none => pure (none, g.rejectSessionToken)
      | some p =>
        match p.sub.toInt with
        | .error _ => pure (none, g.rejectSessionToken)
        | .ok userId =>
          match ← Prog.select Bind.voters (userById userId) with
          | none => pure (none, g.rejectSessionToken)
          | some (u, role) =>
            if u.accountStatus = .rejected ∨ p.matches u = false then
              pure (none, g.rejectSessionToken)
            else admitUser L endpoint token p u role g

/-! ### After the view -/

/-- `_maybe_set_refresh_cookie`, behind the cookies of the view. -/
def maybeSetRefreshCookie (g : Globals) (cookies : List SetCookie) : List SetCookie :=
  cookies ++ (if g.clearFlaskSessionCookie then [.deleteFlaskSession] else []) ++
    (if g.clearSessionToken then [.deleteSessionToken] else []) ++
    match g.newSessionToken with
    | none | some [] => []
    | some token => [.sessionToken token]

/-! ### Views -/

/-- `flash('Password changed successfully. Please sign in again.')` and a redirect. -/
def signInAgain : Response :=
  .redirect (py "Password changed successfully. Please sign in again.") "success" "auth.login"

/-- The replacement of the session token after a password change. The row is expired by the
commit; `renewable` says that it can be read again and a token issued. -/
def replaceToken (L : Lib) (cu : CurrentUser) (renewable : Bool) (g : Globals) :
    Handler (Response × Globals) := do
  let failed := { g with loginUser := .anonymous, clearSessionToken := true }
  if renewable = false then pure (signInAgain, failed)
  else
    match ← refresh cu.bind Tables.users cu.user.id with
    | none => pure (signInAgain, failed)
    | some u =>
      let token ← newToken L u.id u.sessionVersion
      pure (.redirect (py "Password changed successfully!") "success" "main.dashboard",
        { g with newSessionToken := some token })

/-- `change_password` for the user on `g`: a `GET` without a form, or a `POST`. -/
def changePasswordView (L : Lib) (form : Option PasswordForm) (renewable : Bool) (g : Globals) :
    Handler (Response × Globals) :=
  match g.loginUser, form with
  | .loggedIn _, none => pure (.render "change_password.html" [], g)
  | .loggedIn cu, some form =>
    match checkChange L cu.user form with
    | some complaint => pure (changeForm complaint, g)
    | none => do
      match ← setPassword cu.user form.new with
      | .error complaint =>
        Prog.abort
        pure (changeForm (py "Password validation failed: " ++ complaint), g)
      | .ok none =>
        Prog.abort
        pure (changeForm (py "Password could not be changed. Please try again."), g)
      | .ok (some ()) => replaceToken L cu renewable g
  | _, _ => pure (.unauthorized, g)

/-- The views, by what they do with `session_token`. -/
inductive SessionView
  /-- `logout`. -/
  | logout
  /-- `change_password`. -/
  | changePassword (form : Option PasswordForm) (renewable : Bool)
  /-- Any other view: it may set the cookie, as `login` and `verify_mfa` do, and does not delete
  it. -/
  | page (endpoint : String) (view : LoginUser → Handler (Response × List PyStr))

/-- `request.endpoint`. -/
def SessionView.endpoint : SessionView → String
  | .logout => "auth.logout"
  | .changePassword _ _ => "password.change_password"
  | .page endpoint _ => endpoint

/-- A view, with the cookies that it sets. -/
def SessionView.run (L : Lib) (g : Globals) :
    SessionView → Handler (Response × List SetCookie × Globals)
  | .logout =>
    -- the flashed message is lost with the rest of the session
    pure (.redirect [] "" "auth.login", [.deleteSessionToken], { g with loginUser := .anonymous })
  | .changePassword form renewable => do
    let (r, g) ← changePasswordView L form renewable g
    pure (r, [], g)
  | .page _ view => do
    let (r, tokens) ← view g.loginUser
    pure (r, tokens.map .sessionToken, g)

/-- What is sent back. -/
structure Reply where
  response : Response
  cookies : List SetCookie

/-- A request that the geo filter and the CSRF check have let through. -/
def serve (L : Lib) (cfg : AppConfig) (view : SessionView) (c : Cookies) : Handler Reply := do
  let g ← selectDbBind cfg c .initial
  match ← loadRequestUser L cfg view.endpoint c g with
  | (some r, g) => pure ⟨r, maybeSetRefreshCookie g []⟩
  | (none, g) =>
    let (r, cookies, g) ← view.run L g
    pure ⟨r, maybeSetRefreshCookie g cookies⟩

/-! ### A ballot through all hooks -/

/-- What the navigation of `base.html` shows of a user. -/
structure NavUser where
  username : PyStr
  manager : Bool
  delegate : Bool
  deriving DecidableEq, Repr

/-- The look that `base.html` gives to a flashed message. -/
inductive Alert
  | danger
  | warning
  | success
  | info
  deriving DecidableEq, Repr

/-- The look of a category. -/
def alertOf (category : String) : Alert :=
  if category = "error" then .danger
  else if category = "warning" then .warning
  else if category = "success" then .success
  else .info

/-- The body of a response to a ballot. -/
inductive Body
  /-- What the handler returns. -/
  | own (r : Response)
  | redirect (endpoint : String)
  /-- `errors/500.html`, with the user in its navigation and the flashed messages. -/
  | serverError (user : Option NavUser) (messages : List (Alert × PyStr))
  deriving DecidableEq, Repr

/-- A response as it is sent, with the bind that the request has ended with. -/
structure Page where
  status : ℕ
  body : Body
  cookies : List SetCookie
  bind : Option Bind
  deriving DecidableEq, Repr

/-- `current_user`: the user on `g`, else the one of the Flask session. -/
def currentUser (c : Cookies) (g : Globals) : Handler (Option CurrentUser) :=
  match g.loginUser with
  | .unloaded => loadSessionUser c.session
  | .anonymous => pure none
  | .loggedIn cu => pure (some cu)

/-- The user in the navigation. -/
def navUser (cu : CurrentUser) : NavUser :=
  ⟨cu.user.username, hasRole cu.role "manager", hasRole cu.role "delegate"⟩

/-- The messages of `get_flashed_messages`, as `base.html` shows them. -/
def Cookies.messages (c : Cookies) : List (Alert × PyStr) :=
  c.flashes.map fun f => (alertOf f.1, f.2)

/-- An exception that nobody handles. -/
def Response.isException : Response → Bool
  | .uncaught _ | .objectDeleted => true
  | _ => false

/-- The response to a ballot, with the error handlers: `server_error` for an exception, and
`forbidden` of the blueprint for `abort(403)`. -/
def finish (c : Cookies) (g : Globals) (r : Response) : Handler Page :=
  let cookies := maybeSetRefreshCookie g []
  if r.isException then do
    let cu ← currentUser c g
    pure ⟨500, .serverError (cu.map navUser) c.messages, cookies, g.activeBind⟩
  else
    match r with
    | .abort 403 => pure ⟨302, .redirect "main.dashboard", cookies, g.activeBind⟩
    | .abort code | .error _ code => pure ⟨code, .own r, cookies, g.activeBind⟩
    | r => pure ⟨200, .own r, cookies, g.activeBind⟩

end SecureVote
