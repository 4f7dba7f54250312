import SecureVote.Auth.Models

/-!
# One-time-password challenges (`services/otp_service.py`)
-/

open Txn

namespace SecureVote

open Py

/-! ### Text -/

/-- The code points of numeric type `Digit` that are not decimal digits, as ranges. -/
def digitRanges : List (ℕ × ℕ) :=
  [(0xB2, 0xB3), (0xB9, 0xB9), (0x1369, 0x1371), (0x19DA, 0x19DA), (0x2070, 0x2070),
    (0x2074, 0x2079), (0x2080, 0x2089), (0x2460, 0x2468), (0x2474, 0x247C), (0x2488, 0x2490),
    (0x24EA, 0x24EA), (0x24F5, 0x24FD), (0x24FF, 0x24FF), (0x2776, 0x277E), (0x2780, 0x2788),
    (0x278A, 0x2792), (0x10A40, 0x10A43), (0x10E60, 0x10E68), (0x11052, 0x1105A),
    (0x1F100, 0x1F10A)]

/-- `str.isdigit`. -/
def isDigitText (s : PyStr) : Bool :=
  !s.isEmpty && s.all fun c =>
    (decimalValue c).isSome || digitRanges.any fun r => r.1 ≤ c && c ≤ r.2

/-- `VALID_PURPOSES`. -/
def validPurposes : List PyStr := [py "generic", py "login_mfa"]

/-- The purpose of the second factor of a login. -/
def loginMfa : PyStr := py "login_mfa"

/-- The message of a code's digest: `f"{challenge_id}:{code}"`. -/
def otpMessage (challengeId code : PyStr) : PyStr := challengeId ++ 58 :: code

/-- `_otp_digest`; `none` for text that UTF-8 cannot encode. -/
def otpDigest (L : AuthLib) (challengeId code : PyStr) : Option PyStr :=
  (encodeUtf8 (otpMessage challengeId code)).map L.hmacHex

/-- `timedelta(seconds=max(60, min(ttl_seconds, 900)))`. -/
def otpLifetime (ttlSeconds : ℤ) : Time := max 60 (min ttlSeconds 900) * 1000000

/-! ### `issue_otp_challenge` -/

/-- The exceptions of `issue_otp_challenge`. -/
inductive OtpError
  | valueError (message : String)
  | rateLimited
  | integrityError
  deriving DecidableEq, Repr

/-- An existing challenge that may not be replaced at `now`: it is active or temporarily locked. -/
def OtpChallenge.active (c : OtpChallenge) (now : Time) : Bool :=
  now < c.expiresAt && (c.consumedAt.isNone || maxFailedAttempts ≤ c.failedAttempts)

/-- The write of `issue_otp_challenge`: the existing challenge goes, the new one comes. A missing
user and a second challenge of the user are refused. -/
def replaceChallenge (existing : Option OtpChallenge) (c : OtpChallenge) (d : AuthDb) :
    Option AuthDb :=
  if (d.base.users.get? c.userId).isNone then none
  else
    (OtpTable.ofRows ((d.otps.rows.filter fun r => existing.all fun e => r.id ≠ e.id) ++ [c])).map
      fun otps => { d with otps := otps }

/-- `issue_otp_challenge` for a code of six digits. -/
def createChallenge (L : AuthLib) (userId : ℕ) (purpose : PyStr) (ttlSeconds : ℤ) (code : PyStr) :
    AuthHandler (Except OtpError (PyStr × PyStr)) := do
  let now : Time ← Prog.call (AuthQuery.base .now)
  let token : HexToken ← Prog.call (AuthQuery.base .tokenHex)
  let existing ← Prog.selectLocking .exclusive
    (fun d : AuthDb => ((d.otps.ofUser userId purpose).map fun c => AuthRow.otp c.id).toList)
    fun d : AuthDb => d.otps.ofUser userId purpose
  if existing.any fun c => c.active now then pure (.error .rateLimited)
  else
    match otpDigest L token.text code with
    | none => pure (.error (.valueError "surrogates not allowed"))
    | some digest =>
      let c : OtpChallenge :=
        ⟨token.text, userId, purpose, digest, now + otpLifetime ttlSeconds, 0, none, now⟩
      match ← Prog.write fun d => (replaceChallenge existing c d).map fun d' => ((), d') with
      | none => pure (.error .integrityError)
      | some () => pure (.ok (token.text, code))

/-- `issue_otp_challenge`. -/
def issueOtpChallenge (L : AuthLib) (userId : ℕ) (purpose : PyStr) (ttlSeconds : ℤ)
    (code : Option PyStr) : AuthHandler (Except OtpError (PyStr × PyStr)) :=
  if purpose ∉ validPurposes then pure (.error (.valueError "Unsupported OTP purpose"))
  else do
    let code : PyStr ← match code with
      | some code => pure code
      | none => Prog.call AuthQuery.randomCode
    if code.length ≠ 6 ∨ isDigitText code = false then
      pure (.error (.valueError "OTP code must contain exactly six digits"))
    else createChallenge L userId purpose ttlSeconds code

/-! ### `verify_otp_challenge` -/

/-- Write a challenge back. -/
def updateChallenge (c : OtpChallenge) (d : AuthDb) : Option AuthDb :=
  (OtpTable.ofRows (d.otps.rows.map fun r => if r.id = c.id then c else r)).map
    fun otps => { d with otps := otps }

/-- Write a changed challenge and commit. -/
def saveChallenge (c : OtpChallenge) : AuthHandler (Option Unit) :=
  Prog.write fun d => (updateChallenge c d).map fun d' => ((), d')

/-- What `verify_otp_challenge` makes of a live challenge at `now`: the row it writes, and its
result. -/
def judge (L : AuthLib) (c : OtpChallenge) (now : Time) (code : PyStr) :
    Option (OtpChallenge × OtpResult) :=
  if c.expiresAt ≤ now then some ({ c with consumedAt := some now }, .expired)
  else if maxFailedAttempts ≤ c.failedAttempts then
    some ({ c with consumedAt := some now }, .locked)
  else
    (otpDigest L c.id code).map fun supplied =>
      if supplied ≠ c.codeDigest then
        if maxFailedAttempts ≤ c.failedAttempts + 1 then
          ({ c with failedAttempts := c.failedAttempts + 1, consumedAt := some now }, .locked)
        else ({ c with failedAttempts := c.failedAttempts + 1 }, .invalid)
      else ({ c with consumedAt := some now }, .valid)

/-- `verify_otp_challenge`; `none` for an exception. -/
def verifyOtpChallenge (L : AuthLib) (challengeId : PyStr) (userId : ℕ) (purpose code : PyStr) :
    AuthHandler (Option OtpResult) := do
  let result : Option OtpResult ←
    if challengeId.isEmpty ∨ purpose ∉ validPurposes then pure (some .missing)
    else do
      let challenge ← Prog.selectLocking .exclusive
        (fun d : AuthDb =>
          ((d.otps.challenge challengeId userId purpose).map fun c => AuthRow.otp c.id).toList)
        fun d : AuthDb => d.otps.challenge challengeId userId purpose
      match challenge.filter fun c => c.consumedAt.isNone with
      | none => pure (some .missing)
      | some c =>
        let now : Time ← Prog.call (AuthQuery.base .now)
        match judge L c now code with
        | none => pure none
        | some (c', result) =>
          match ← saveChallenge c' with
          | none => pure none
          | some () => pure (some result)
  match result with
  | none => pure none
  | some result =>
    Prog.report (.otpVerified challengeId userId purpose code result)
    pure (some result)

end SecureVote
