import SecureVote.Text.Json
import SecureVote.Text.Url

/-!
# The login form (`auth.py`)

What a login does before and after it looks at credentials: the check of the nonce that the page's
script has fetched, and the target of the redirect that follows a login.
-/

namespace SecureVote

open Py Url

/-! ### Redirect targets -/

/-- `_safe_relative_next(candidate)`. -/
def safeRelativeNext (check : NetlocCheck) (candidate : Option PyStr) : Option PyStr :=
  match candidate with
  | none => none
  | some c =>
    if List.isPrefixOf [47] c = false then none
    else if List.isPrefixOf [47, 47] c ∨ 92 ∈ c then none
    else
      match urlsplit check c with
      | none => none
      | some parsed => if parsed.scheme ≠ [] ∨ parsed.netloc ≠ [] then none else some c

/-! ### Login nonces -/

/-- What `URLSafeTimedSerializer(secret, salt='login-nonce')` makes of a text: the value and the
time in seconds of a valid signature. -/
abbrev NonceSerializer := PyStr → Option (Json × ℤ)

/-- What becomes of the nonce of a login form. -/
inductive NonceOutcome
  /-- `Human verification required.` -/
  | missing
  /-- `Human verification expired.` -/
  | expired
  /-- `Human verification failed.` -/
  | failed
  | passed (value : PyStr)
  deriving DecidableEq, Repr

/-- The nonce check of `login` at second `now`, with the `_used_nonces` of the session before and
after it. -/
def checkNonce (loads : NonceSerializer) (now : ℤ) (loginNonce : Option PyStr)
    (usedNonces : List PyStr) : NonceOutcome × List PyStr :=
  match loginNonce with
  | none | some [] => (.missing, usedNonces)
  | some token =>
    match loads token with
    | none => (.failed, usedNonces)
    | some (value, signedAt) =>
      if 300 < now - signedAt ∨ now - signedAt < 0 then (.expired, usedNonces)
      else
        match value with
        | .str nonce =>
          if nonce ∈ usedNonces then (.failed, usedNonces)
          else (.passed nonce, (usedNonces ++ [nonce]).rtake 10)
        | _ => (.failed, usedNonces)

/-- A `POST` of the login form. -/
structure LoginPost where
  /-- `int(time.time())`. -/
  now : ℤ
  /-- The hooks before the view let the request through. -/
  admitted : Bool
  /-- `_load_user_from_jwt` has cleared the session. -/
  cleared : Bool
  /-- `current_user.is_authenticated`. -/
  authenticated : Bool
  /-- The honeypot field. -/
  gotcha : Option PyStr
  loginNonce : Option PyStr
  deriving DecidableEq, Repr

/-- The used nonces that the view finds in the session. -/
def LoginPost.start (p : LoginPost) (usedNonces : List PyStr) : List PyStr :=
  if p.cleared then [] else usedNonces

/-- The nonce that passes the check of one request, and the used nonces after it. -/
def LoginPost.nonce (loads : NonceSerializer) (p : LoginPost) (usedNonces : List PyStr) :
    Option PyStr × List PyStr :=
  if p.admitted = false ∨ p.authenticated ∨ strip (p.gotcha.getD []) ≠ [] then
    (none, p.start usedNonces)
  else
    match checkNonce loads p.now p.loginNonce (p.start usedNonces) with
    | (.passed nonce, used) => (some nonce, used)
    | (_, used) => (none, used)

/-- The nonces that pass in a sequence of requests of one browser session, request by request. -/
def passedNonces (loads : NonceSerializer) (usedNonces : List PyStr) :
    List LoginPost → List (Option PyStr)
  | [] => []
  | p :: ps =>
    let (nonce, used) := p.nonce loads usedNonces
    nonce :: passedNonces loads used ps

end SecureVote
