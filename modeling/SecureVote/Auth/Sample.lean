import SecureVote.Auth.Runs
import SecureVote.Sample
import SecureVote.Text.Numeral

/-!
# The sample deployment with sign-in

The sample deployment as a sign-in system: the digests of one-time passwords are HMAC-SHA256 under
the secret of the deployment, and a message that is not one of its own goes to a text of another
length, so that no two messages have one digest.
-/

open Txn

namespace SecureVote.Sample

open Py

/-- `SECRET_KEY`. -/
def secretKey : Bytes := asciiBytes (py "sample-secret")

/-- The code that is sent. -/
def otpCode : PyStr := py "123456"

/-- A code that is not sent. -/
def wrongOtp : PyStr := py "000000"

/-- The messages of the codes. -/
def otpMessages : List Bytes :=
  [asciiBytes (otpMessage hexToken.text otpCode), asciiBytes (otpMessage hexToken.text wrongOtp)]

/-- The digests of the codes. -/
def otpDigests : List PyStr := otpMessages.map fun m => bytesHex (Sha256.hmac secretKey m)

/-- `hmac.new(SECRET_KEY, message, sha256).hexdigest()` on the messages of the codes. -/
def hmacHex (message : Bytes) : PyStr :=
  match (otpMessages.zip otpDigests).find? fun x => x.1 = message with
  | some x => x.2
  | none => 120 :: bytesHex message

/-- The libraries. -/
def authLib : AuthLib := { toLib := lib, hmacHex := hmacHex }

/-- How calls are answered. -/
def authAnswer : (q : AuthQuery) → q.Answer
  | .base q => answer q
  | .randomCode => otpCode
  | .sendMail _ _ => true

/-- The environment, whose clock stands. -/
def authEnvironment : AuthEnvironment where
  base := environment
  answer _ _ q a _ := a = authAnswer q
  clock _ := answer .now
  answer_base h := h
  answer_cached _ h := h
  answer_clock _ := le_rfl
  drift_clock _ := le_rfl
  now_clock h := by
    subst h
    exact ⟨le_rfl, le_rfl⟩

/-- The answers as an oracle for schedules. -/
def authOracle (q : AuthQuery) (_ : Unit) : q.Answer × Unit := (authAnswer q, ())

theorem authOracle_sound (wk : ℕ) (w : Unit) (q : AuthQuery) :
    authEnvironment.answer wk w q (authOracle q w).1 (authOracle q w).2 := rfl

/-- The accounts, and no challenges. -/
def authDb : AuthDb := ⟨db, .empty⟩

/-- A schedule that runs the requests one after the other, from the thread `pid` on. -/
def inTurn : ℕ → List AuthRequest → List (Turn AuthRequest)
  | _, [] => []
  | pid, r :: rs => .start r 0 :: .run pid 100 :: inTurn (pid + 1) rs

end SecureVote.Sample
