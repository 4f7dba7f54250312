import SecureVote.Text.Sha256
import SecureVote.Text.Utf8

/-!
# The blind index of a licence

`_normalize_lic` and `_hash_lic` of `models.py`: a licence is indexed under an HMAC of its text
without white space and in upper case. The case mapping of `str.upper` is a parameter.
-/

namespace SecureVote

open Py

/-- What the index reads of its process: `str.upper`, `LICENSE_HASH_PEPPER`, and the test
configuration that may stand in for it. -/
structure LicenceConfig where
  upper : PyStr → PyStr
  pepper : PyStr
  testing : Bool
  secretKey : PyStr

/-- The exceptions of the index: `RuntimeError`, and `UnicodeEncodeError`. -/
inductive LicenceError
  | noPepper
  | notEncodable
  deriving DecidableEq, Repr

/-- `str.encode`, with its exception. -/
def encodeOrRaise (s : PyStr) : Except LicenceError (List UInt8) :=
  match encodeUtf8 s with
  | some bytes => .ok bytes
  | none => .error .notEncodable

namespace LicenceConfig

variable (C : LicenceConfig)

/-- `_normalize_lic` -/
def normalizeLic : Option PyStr → Option PyStr
  | none | some [] => none
  | some lic => some (C.upper (lic.filter fun c => !isSpace c))

/-- `_get_hash_pepper` -/
def getHashPepper : Except LicenceError (List UInt8) :=
  if C.pepper ≠ [] then encodeOrRaise C.pepper
  else if C.testing && C.secretKey ≠ [] then encodeOrRaise C.secretKey
  else .error .noPepper

/-- `_hash_lic` -/
def hashLic (lic : Option PyStr) : Except LicenceError (Option PyStr) :=
  match C.normalizeLic lic with
  | none | some [] => .ok none
  | some norm => do
      let key ← C.getHashPepper
      let msg ← encodeOrRaise norm
      pure (some (bytesHex (Sha256.hmacNew key msg)))

end LicenceConfig

end SecureVote
