import SecureVote.Routes.Auth

/-!
# The sign-in system

Sign-in next to all other requests, as one machine over the authentication store. Of the
environment it is known that it has a clock: a reading of `now` lies between the clock before and
after it, and the clock does not go back.
-/

open Txn

namespace SecureVote

open Py

/-- A request, or a call of a service function. -/
inductive AuthRequest
  | login (cookie : Option PyStr) (session : Session) (form : LoginForm)
  | verifyMfa (cookie : Option PyStr) (session : Session) (otp : Option PyStr)
  | unlockUser (cookie : Option PyStr) (userId : ℕ)
  | issueOtp (userId : ℕ) (purpose : PyStr) (ttlSeconds : ℤ) (code : Option PyStr)
  | verifyOtp (challengeId : PyStr) (userId : ℕ) (purpose code : PyStr)
  | base (r : Request)

/-- The handler of a request. `mfa` is `ENABLE_MFA`. -/
def handleAuth (L : AuthLib) (mfa : Bool) : AuthRequest → AuthHandler AuthReply
  | .login cookie session form => SecureVote.login L mfa cookie session form
  | .verifyMfa cookie session otp => SecureVote.verifyMfa L cookie session otp
  | .unlockUser cookie userId =>
      AuthReply.base <$> Handler.lift (SecureVote.unlockUser L.toLib cookie userId)
  | .issueOtp userId purpose ttlSeconds code =>
      AuthReply.otpIssued <$> issueOtpChallenge L userId purpose ttlSeconds code
  | .verifyOtp challengeId userId purpose code =>
      AuthReply.otpVerified <$> verifyOtpChallenge L challengeId userId purpose code
  | .base r => AuthReply.base <$> Handler.lift (handle L.toLib r)

/-- The session cookie that a request carries. -/
def AuthRequest.session : AuthRequest → Session
  | .login _ session _ | .verifyMfa _ session _ => session
  | _ => .empty

/-- What stands around the store: the environment of the other handlers, the calls of sign-in, and
a clock. -/
structure AuthEnvironment where
  base : Environment
  answer : ℕ → base.World → (q : AuthQuery) → q.Answer → base.World → Prop
  clock : base.World → Time
  answer_base : ∀ {wk w q a w'}, answer wk w (.base q) a w' → base.answer wk w q a w'
  answer_cached : ∀ {wk w q a w' i e k}, answer wk w q a w' → base.cached w i e = some k →
    base.cached w' i e = some k
  answer_clock : ∀ {wk w q a w'}, answer wk w q a w' → clock w ≤ clock w'
  drift_clock : ∀ {w w'}, base.drift w w' → clock w ≤ clock w'
  now_clock : ∀ {wk w} {a : Time} {w'}, answer wk w (.base .now) a w' →
    clock w ≤ a ∧ a ≤ clock w'

/-- The outside world of a sign-in environment. -/
abbrev AuthEnvironment.World (E : AuthEnvironment) : Type := E.base.World

/-- The machine over an environment. -/
def authMachine (L : AuthLib) (E : AuthEnvironment) (mfa : Bool) :
    Machine AuthDb AuthRow AuthTable Bind AuthEvent AuthQuery AuthQuery.Answer E.World
      AuthRequest AuthReply where
  handler := handleAuth L mfa
  answer := E.answer
  drift := E.base.drift

end SecureVote
