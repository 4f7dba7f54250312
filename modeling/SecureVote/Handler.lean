import SecureVote.Models
import SecureVote.Text.Json

/-!
# What a request handler works with

The interface between the handlers and everything around them: the library functions the code
imports (`Lib`), the calls it makes to clocks, randomness, key files and signing backends
(`Query`), the events it leaves behind (`Event`), and the responses it returns. A `Handler` is
a transaction program over the database with these calls and events.
-/

open Txn

namespace SecureVote

open Py

/-- Octets. -/
abbrev Bytes := List UInt8

/-- The exceptions that modelled code raises or catches by class. -/
inductive PyError
  | valueError
  | typeError
  | attributeError
  | overflowError
  | recursionError
  | osError
  | integrityError
  | blindSigningKeyError (message : String)
  deriving DecidableEq, Repr

/-! ### Keys -/

/-- `RSAPublicNumbers`. -/
structure PublicKey where
  n : ℕ
  e : ℕ
  deriving DecidableEq, Repr

/-- `RSAPrivateKey`: the private exponent and the public numbers. -/
structure PrivateKey where
  d : ℕ
  publicKey : PublicKey
  deriving DecidableEq, Repr

/-- `key_size`, the bit length of the modulus. -/
def PublicKey.keySize (k : PublicKey) : ℕ := if k.n = 0 then 0 else Nat.log2 k.n + 1

/-- The checks of `_load_and_validate_keypair` on a loaded pair. -/
def validPair (priv : PrivateKey) (pub : PublicKey) : Bool :=
  priv.publicKey.keySize = 2048 && pub.keySize = 2048 && priv.publicKey = pub && pub.e = 65537

/-- A validated key pair. -/
structure KeyPair where
  privateKey : PrivateKey
  publicKey : PublicKey
  valid : validPair privateKey publicKey = true
  deriving DecidableEq, Repr

/-! ### Libraries -/

/-- The claims of a session token. -/
structure Payload where
  sub : Json
  iat : ℤ
  exp : ℤ
  ver : Json

/-- The library functions the handlers call. -/
structure Lib where
  /-- `hashlib.sha256(data).digest()`. -/
  sha256 : Bytes → Bytes
  sha256_length : ∀ b, (sha256 b).length = 32
  /-- `public_bytes(DER, SubjectPublicKeyInfo)`. -/
  publicDer : PublicKey → Bytes
  /-- `serialization.load_pem_public_key`; `some none` for a key that is not RSA. -/
  loadPemPublicKey : Bytes → Option (Option PublicKey)
  /-- `check_password_hash`. -/
  checkPasswordHash : PyStr → PyStr → Bool
  /-- `jwt.encode` with the session secret. -/
  jwtEncode : Payload → PyStr
  /-- The claims of a token with a valid signature and all required claims. -/
  jwtClaims : PyStr → Option Payload
  /-- The payload and timestamp of a validly signed `password-reset` token. -/
  resetToken : PyStr → Option (Json × Time)
  /-- The payload and timestamp of a validly signed `email-verify` token. -/
  verifyToken : PyStr → Option (Json × Time)
  /-- `datetime.fromisoformat`, moved to UTC when it carries an offset. -/
  parseUtcDatetime : PyStr → Option Time
  /-- The database collation of text columns, as an order and as an equality. -/
  collateLe : PyStr → PyStr → Bool
  collateEq : PyStr → PyStr → Bool
  /-- How deep `json.loads` may nest. -/
  recursionLimit : ℕ

/-- `hashlib.sha256(data).hexdigest()`. -/
def Lib.sha256Hex (L : Lib) (data : Bytes) : PyStr := bytesHex (L.sha256 data)

/-! ### Calls and events -/

/-- The character is in `"0123456789abcdef"`. -/
def isHexLower (c : ℕ) : Bool := (48 ≤ c && c ≤ 57) || (97 ≤ c && c ≤ 102)

/-- What `secrets.token_hex(32)` returns. -/
structure HexToken where
  text : PyStr
  length : text.length = 64
  hex : text.all isHexLower = true
  deriving DecidableEq, Repr

/-- `SigningResult`. -/
structure SigningResult where
  signature : PyStr
  signerBackend : PyStr
  signatureAlgorithm : PyStr
  signingKeyId : PyStr
  signingKeyVersion : Option ℤ
  publicKeyPem : Option PyStr
  deriving DecidableEq, Repr

/-- The keyword arguments of `verify_signature`, as the result routes pass them. -/
structure SignatureMetadata where
  signerBackend : PyStr
  signatureAlgorithm : PyStr
  signingKeyId : PyStr
  signingKeyVersion : Option ℤ
  publicKeyPem : Option PyStr
  deriving DecidableEq, Repr

/-- A call out of the database. -/
inductive Query
  /-- `datetime.now(timezone.utc)`. -/
  | now
  /-- `secrets.token_hex(32)`. -/
  | tokenHex
  /-- `generate_password_hash(password)`. -/
  | passwordHash (password : PyStr)
  /-- `_load_keys`, under the cache lock of the process. -/
  | loadKeys (electionId : ℕ)
  /-- `generate_blind_signing_keypair`, under the cache lock of the process. -/
  | generateKeypair (electionId : ℕ)
  /-- `signing_service.sign_data(data)`; `none` is `SigningUnavailableError`. -/
  | signData (data : Bytes)
  /-- `signing_service.verify_signature(data, signature, ...)`; `none` is `SignatureMetadataError` or
  `SigningUnavailableError`. -/
  | verifySignature (data : Bytes) (signature : PyStr) (metadata : SignatureMetadata)
  /-- Whether the tally's own connection can be opened and read. -/
  | connect
  deriving DecidableEq, Repr

/-- What a call returns. -/
def Query.Answer : Query → Type
  | .now => Time
  | .tokenHex => HexToken
  | .passwordHash _ => PyStr
  | .loadKeys _ => Except PyError KeyPair
  | .generateKeypair _ => Except PyError Unit
  | .signData _ => Option SigningResult
  | .verifySignature _ _ _ => Option Bool
  | .connect => Bool

/-- What a handler leaves outside the database. -/
inductive Event
  /-- `record_audit_event(actor_id, action, target_type, target_id)`, outcome `success`. -/
  | audit (actor : Option ℕ) (action : String) (targetType : String) (target : ℕ)
  /-- `login_user(user)` on a session token. -/
  | login (user : ℕ) (token : PyStr)
  /-- A session token set on the response. -/
  | issue (token : PyStr)
  deriving DecidableEq, Repr

/-- The exceptions of `vote_service`. -/
inductive VoteError
  | alreadyVoted (message : String)
  | invalidElection (message : String)
  | ineligibleVoter (message : String)
  deriving DecidableEq, Repr

/-- What a request or a service call ends with. -/
inductive Response
  /-- `jsonify({"error": message}), code`. -/
  | error (message : String) (code : ℕ)
  /-- `{"blind_signature": hex(sig), "election_id": id}`. -/
  | blindSignature (signature : PyStr) (electionId : ℕ)
  /-- `{"status": "ok", "message": ...}` of a recorded ballot. -/
  | ballotRecorded
  /-- `{"status": "success", "election_id": id, ...}` of a signed result. -/
  | resultSigned (electionId : ℕ)
  /-- `{"status": "Verification complete", "is_valid": valid}`. -/
  | verified (valid : Bool)
  /-- `flash(message, category)` and a redirect. -/
  | redirect (message : PyStr) (category : String) (endpoint : String)
  /-- A rendered template, with what was flashed before it. -/
  | render (template : String) (message : PyStr)
  /-- `abort(code)`. -/
  | abort (code : ℕ)
  /-- `login_required` sends an anonymous client to the login page. -/
  | unauthorized
  /-- `ObjectDeletedError`: a row that the handler reads again after its commit is gone. -/
  | objectDeleted
  /-- Another exception leaves the handler. -/
  | uncaught (e : PyError)
  /-- A service function returns normally. -/
  | done
  /-- A service function raises. -/
  | raised (e : VoteError)
  deriving DecidableEq, Repr

/-! ### Handlers -/

/-- The database connections of a request: the voter credential and the manager one. -/
inductive Bind
  | voters
  | admin
  deriving DecidableEq, Repr

/-- A program of a request handler. -/
abbrev Handler (α : Type) : Type 1 := Prog Db RowId TableName Bind Event Query Query.Answer α

/-- `datetime.now(timezone.utc)`. -/
def utcNow : Handler Time := Prog.call Query.now

/-- `int(time.time())`. -/
def epochSeconds (t : Time) : ℤ := t / 1000000

/-- Flush new table contents and commit them. -/
def save (f : Tables → Tables) : Handler (Option Unit) :=
  Prog.write fun d => (Db.commit (f d.toTables)).map fun d' => ((), d')

/-- Flush and commit an insert into one table, and return the new key. -/
def insertRow (next : Tables → ℕ) (f : Tables → Tables) : Handler (Option ℕ) :=
  Prog.write fun d => (Db.commit (f d.toTables)).map fun d' => (next d.toTables, d')

/-- Read an attribute of a row that the last commit expired: the row is read again, in a new
transaction. -/
def refresh {α : Type} [Keyed α] (b : Bind) (t : Tables → Table α) (id : ℕ) : Handler (Option α) :=
  Prog.select b fun d : Db => (t d.toTables).get? id

/-- `record_audit_event` for the acting user and a row, both expired by the commit before it;
a row that is gone raises. -/
def auditRow {α : Type} [Keyed α] (b : Bind) (actor : ℕ) (action targetType : String)
    (t : Tables → Table α) (target : ℕ) (r : Response) : Handler Response := do
  let some u ← refresh b Tables.users actor | pure .objectDeleted
  let some _ ← refresh b t target | pure .objectDeleted
  Prog.report (.audit (some u.id) action targetType target)
  pure r

/-- `Election.is_open`. The clock is read only for an election that may be open. -/
def Election.isOpen (e : Election) : Handler Bool :=
  if e.status ≠ .open ∨ e.blindKeyRecoveryRequired = true then pure false
  else do
    let now ← utcNow
    pure (decide (¬(∃ t ∈ e.openAt, now < t) ∧ ¬∃ t ∈ e.closeAt, t < now))

/-- `SELECT ... FOR SHARE` or `FOR UPDATE` of one election, by id. -/
def lockElection (m : Mode) (id : ℤ) : Handler (Option Election) :=
  Prog.selectLocking m (fun d => ((byId d.elections id).map (.election ·.id)).toList)
    fun d => byId d.elections id

end SecureVote
