import SecureVote.Machine
import SecureVote.Text.Sha256

/-!
# A sample deployment

Concrete libraries, one key pair and the accounts of a small electorate, on which the results
about runs are evaluated. SHA-256 and the encoding of public keys are the real ones; the session
tokens are JSON Web Tokens under one secret, given by a table of the tokens that are in use.
-/

open Txn

namespace SecureVote.Sample

open Py

/-- A number from its 64-bit words, most significant first. -/
def ofWords (ws : List ℕ) : ℕ := ws.foldl (fun n w => n * 2 ^ 64 + w) 0

/-! ### Keys -/

/-- The octets of a number, most significant first, in `k` octets. -/
def bigEndian : ℕ → ℕ → Bytes
  | 0, _ => []
  | k + 1, n => UInt8.ofNat (n / 256 ^ k) :: bigEndian k n

/-- A DER element whose contents take up to 65535 octets. -/
def derElement (tag : UInt8) (contents : Bytes) : Bytes :=
  let k := contents.length
  tag :: (if k < 128 then [UInt8.ofNat k] else if k < 256 then [0x81, UInt8.ofNat k]
    else [0x82, UInt8.ofNat (k / 256), UInt8.ofNat k]) ++ contents

/-- A DER integer. -/
def derInteger (n : ℕ) : Bytes := derElement 2 (bigEndian (Nat.log2 n / 8 + 1 + Nat.log2 n % 8 / 7) n)

/-- The DER encoding of an RSA `SubjectPublicKeyInfo`. -/
def publicDer (k : PublicKey) : Bytes :=
  derElement 0x30
    ([0x30, 0x0d, 0x06, 0x09, 0x2a, 0x86, 0x48, 0x86, 0xf7, 0x0d, 0x01, 0x01, 0x01, 0x05, 0x00] ++
      derElement 3 (0 :: derElement 0x30 (derInteger k.n ++ derInteger k.e)))

/-- The modulus of the sample key. -/
def modulus : ℕ :=
  ofWords
    [0xc971bbee1c41d42b, 0xbab7405d0cf9717e, 0x3a257cb78ba9a900, 0xf2507213e81af733,
      0xa9751cf948b48f13, 0x421f9d69e6f29721, 0xfd29a5293593e259, 0x29ee151d81a2a19d,
      0x0b660f13891b0efe, 0x24f9cf829f2507df, 0x3247b2f6ee7cde52, 0x2397e71e91487c6c,
      0x8587b0ee86a5a38e, 0xcde7af2eb1f32226, 0x4cbe4eecc71207cb, 0x2e8051f9f3ca1c4d,
      0x3bf4656aa0e56c1b, 0xa56ac54e3450fcc7, 0x495ad3f1ac8ca870, 0x7f1ef6aabcf379a6,
      0x80ba8d5212d97c61, 0x229458bfbedbe617, 0x4a1685f3cd088ed5, 0xdd74f3a6b8e8ee69,
      0xaf2be246eafb6462, 0x1ca7047673b7a847, 0x01e8a0f79173d06c, 0x20a8cfd259257861,
      0x56fd0ddeb7c32901, 0x860e778ba6e1366f, 0x0c01b6d09a09f750, 0x8099b90efad928b9]

/-- The private exponent of the sample key. -/
def privateExponent : ℕ :=
  ofWords
    [0x207f8c3c28413326, 0x50e0e7c325e8dccc, 0x953b34a91f20cd06, 0x92e65e83b94cc1b7,
      0xb5c2bd320c4430d6, 0xd5b2930076efde68, 0xef2b8cf273d5cff7, 0x918250296a9f5ee7,
      0x9e8dfafdac54a4b1, 0x0f2c615ea727b562, 0xe67cd706eb9cfd22, 0xe43773e3a462e776,
      0x7c7e5266d0c07528, 0x00839193fcc506d6, 0x85f2a7cf49785905, 0xdd9279bc7e28e0dd,
      0x5d96cfccca5a8611, 0xc9c794b3f4845c9f, 0x046ac7128c351193, 0x193e312b7832a341,
      0xc6ea5aa5ae624f75, 0x3b832da31931cd55, 0x78454c00a5c94b9c, 0xa27ae5a15a7f5fb0,
      0xa4afc6044a8dd825, 0x6de62454fac9d44f, 0x5568b6521c477b3a, 0xd477aac86994a9d4,
      0x6b890db3216b8b11, 0xf85223d88cf9f6c3, 0x6babd036d6e13ee4, 0x44adfa9167ada367]

/-- The sample key pair. -/
def keyPair : KeyPair :=
  ⟨⟨privateExponent, modulus, 65537⟩, ⟨modulus, 65537⟩, by decide +kernel⟩

/-! ### Session tokens -/

/-- A session token in use, with its claims. -/
structure Session where
  token : PyStr
  userId : ℕ
  iat : ℤ
  version : ℤ
  deriving DecidableEq

/-- The time at which the first tokens have been issued, in seconds. -/
def issuedAt : ℤ := 1700000000

/-- The claims of a token. -/
def Session.payload (s : Session) : Payload :=
  ⟨.str (natRepr 10 s.userId), s.iat, s.iat + tokenLifetime, .int s.version⟩

/-- The header of all tokens. -/
def tokenHeader : PyStr := py "eyJhbGciOiJIUzI1NiIs" ++ py "InR5cCI6IkpXVCJ9."

/-- The session token of the manager. -/
def managerToken : PyStr :=
  tokenHeader ++ py "eyJzdWIiOiIxIiwiaWF0Ijox" ++ py "NzAwMDAwMDAwLCJleHAiOjE3" ++
    py "MDAwMDA5MDAsInZlciI6MH0." ++ py "6bjHr86ykfJEDH4AlVaOqZUj" ++ py "wiQfWCILKNyY-CF7L7c"

/-- The session token of the voter. -/
def voterToken : PyStr :=
  tokenHeader ++ py "eyJzdWIiOiIyIiwiaWF0Ijox" ++ py "NzAwMDAwMDAwLCJleHAiOjE3" ++
    py "MDAwMDA5MDAsInZlciI6MH0." ++ py "4oJDsSYMbYBJ-Tk50-a9Klbm" ++ py "I3j63xXIX3MCuZ79xZA"

/-- The session token of the voter after one password change. -/
def renewedToken : PyStr :=
  tokenHeader ++ py "eyJzdWIiOiIyIiwiaWF0Ijox" ++ py "NzAwMDAwMDYwLCJleHAiOjE3" ++
    py "MDAwMDA5NjAsInZlciI6MX0." ++ py "KGVZZ88wE0CZJN5Ev-iMOxlP" ++ py "HlFbMEO3uH1QHFVg7JE"

/-- The session token of the voter after two password changes. -/
def lastToken : PyStr :=
  tokenHeader ++ py "eyJzdWIiOiIyIiwiaWF0Ijox" ++ py "NzAwMDAwMDYwLCJleHAiOjE3" ++
    py "MDAwMDA5NjAsInZlciI6Mn0." ++ py "17qq3_dpUXWhO-WZsLWcKtK3" ++ py "fCf7qSqNpCwlpze25oU"

/-- The tokens in use. -/
def sessions : List Session :=
  [⟨managerToken, 1, issuedAt, 0⟩, ⟨voterToken, 2, issuedAt, 0⟩,
    ⟨renewedToken, 2, issuedAt + 60, 1⟩, ⟨lastToken, 2, issuedAt + 60, 2⟩]

/-- `jwt.encode` on the claims of the tokens in use. -/
def jwtEncode (p : Payload) : PyStr :=
  match p.sub, p.ver with
  | .str sub, .int ver =>
    ((sessions.find? fun s => sub = natRepr 10 s.userId ∧ p.iat = s.iat ∧
      p.exp = s.iat + tokenLifetime ∧ ver = s.version).map Session.token).getD []
  | _, _ => []

/-- The claims of the tokens in use. -/
def jwtClaims (token : PyStr) : Option Payload :=
  (sessions.find? fun s => s.token = token).map Session.payload

/-! ### Libraries and environment -/

/-- The libraries. -/
def lib : Lib where
  sha256 := Sha256.digest
  sha256_length := Sha256.length_digest
  publicDer := publicDer
  loadPemPublicKey _ := none
  checkPasswordHash stored password := stored = bytesHex (Sha256.digest (asciiBytes password))
  jwtEncode := jwtEncode
  jwtClaims := jwtClaims
  resetToken _ := none
  verifyToken _ := none
  parseUtcDatetime _ := none
  collateLe := strLe
  collateEq s t := s = t
  recursionLimit := 1000

/-- What `secrets.token_hex(32)` returns here. -/
def hexToken : HexToken :=
  ⟨List.replicate 32 97 ++ List.replicate 32 48, by decide, by decide⟩

/-- How calls are answered, one minute after the tokens have been issued. -/
def answer : (q : Query) → q.Answer
  | .now => (issuedAt + 60) * 1000000
  | .tokenHex => hexToken
  | .passwordHash password => bytesHex (Sha256.digest (asciiBytes password))
  | .loadKeys _ => .ok keyPair
  | .generateKeypair _ => .ok ()
  | .signData _ => some ⟨py "vault:v1:c2ln", py "vault-transit", py "rsa-2048", py "results", some 1, none⟩
  | .verifySignature _ _ _ => some true
  | .connect => true

/-- The environment: every worker has the key pair in its cache. -/
def environment : Environment where
  World := Unit
  answer _ _ q a _ := a = answer q
  drift _ _ := True
  cached _ _ _ := some keyPair
  load_cached h := by cases h; rfl
  answer_cached _ h := h
  drift_cached _ h := h

/-- The answers as an oracle for schedules. -/
def oracle (q : Query) (_ : Unit) : q.Answer × Unit := (answer q, ())

theorem oracle_sound (wk : ℕ) (w : Unit) (q : Query) :
    environment.answer wk w q (oracle q w).1 (oracle q w).2 := rfl

/-! ### Accounts -/

/-- A user with the password `pw`. -/
def user (id : ℕ) (username : String) (roleId : ℕ) : User :=
  ⟨id, py username, none, bytesHex (Sha256.digest (asciiBytes (py "Password-0000"))), roleId,
    .approved, true, some (issuedAt * 1000000), 0, 0, none⟩

/-- The accounts before an election is set up: a manager, and a voter enrolled in the first of two
regions. -/
def accounts : Tables where
  roles := ⟨[⟨1, py "manager"⟩, ⟨2, py "voter"⟩], 3, by decide, by decide⟩
  regions := ⟨[⟨1, py "North"⟩, ⟨2, py "South"⟩], 3, by decide, by decide⟩
  users := ⟨[user 1 "morgan" 1, user 2 "vera" 2], 3, by decide, by decide⟩
  rolls := ⟨[⟨1, py "R-1", 1, .active, true, some 2⟩], 2, by decide, by decide⟩
  elections := .empty
  candidates := .empty
  votes := .empty
  receipts := .empty
  tokens := .empty
  nullifiers := .empty
  resultKeys := []
  results := .empty

/-- The sample database. -/
def db : Db := ⟨accounts, by decide +kernel⟩

/-- The candidates of the sample election: one, in the first region. -/
def candidates : Table Candidate := ⟨[⟨1, py "Ada", none, py "Mayor", 1, 1⟩], 2, by decide, by decide⟩

/-! ### Requests -/

/-- `create_election`, by the manager. -/
def createElection : Request := .createElection (some managerToken) ⟨some (py "Council"), none, none⟩

/-- `create_candidate` in the first region. -/
def createCandidate : Request :=
  .createCandidate (some managerToken)
    ⟨some (py "Ada"), none, some (py "Mayor"), some (py "1"), some (py "1")⟩

/-- `open_election`. -/
def openElection : Request := .openElection (some managerToken) 1

/-- `close_election`. -/
def closeElection : Request := .closeElection (some managerToken) 1

/-- `sign_election_results`. -/
def signElectionResults : Request :=
  .signElectionResults (some managerToken) (some (.obj [(py "election_id", .int 1)])) none

/-- The nonce of the ballot. -/
def nonce : PyStr :=
  py "0123456789abcdef" ++ py "0123456789abcdef" ++ py "0123456789abcdef" ++ py "0123456789abcdef"

/-- The ballot for the first candidate, as the browser serializes it. -/
def ballot : Bytes :=
  asciiBytes (py "\x7b\"candidate_id\":1," ++ py "\"nonce\":\"" ++ nonce ++ py "\",\"election_id\":1\x7d")

/-- The blinded ballot. -/
def blindedBallot : ℕ :=
  ofWords
    [0x8a306fb73c690a04, 0x79c660c1168fd477, 0x46651aba744c379e, 0xf1bc06e6b1ecbd1f,
      0x0a00e4703e6e7ac4, 0x3419f33a65224b7b, 0xaecff7d70372f55b, 0x79376104ac919188,
      0x088fecb3fb7a69f0, 0x4bc8597b505341b3, 0x41b884276ed3b4f2, 0x4337ea78eb9201f3,
      0xf8221bfa4f207b1e, 0x3f29e426ee385f09, 0x539d05874d2b1762, 0x9259a4065e110d00,
      0x786b01c4da75c4d3, 0x4b38ce585dc43366, 0xec467d9a764495a1, 0x074764b807f256f5,
      0x25e5a09cd7d39ce5, 0x9469e6a28a8771be, 0x0bcd5ba2273670a3, 0x3fc722ae9ca20253,
      0x7a6e034ce74bdc2b, 0x867cecfba9d2fc98, 0x6ab0acc79212b09d, 0x35f98b708f0d4e45,
      0x51d0a3287272353f, 0x8ea2e553d70e762a, 0x2e44a27089779a34, 0x906c7e7143655144]

/-- The unblinded signature on the ballot. -/
def signature : ℕ :=
  ofWords
    [0x5815a608d68f9b65, 0x6c729234153971fe, 0xe426191f921ad02b, 0xa18a8051a4d2efbf,
      0xfaa065a7d8066650, 0x10e80094cfb0cdab, 0x3dfed533c6dd2d30, 0x4022cc4ef71c2cc9,
      0x15d5e0a107d6c505, 0xeb752f8a3df2850c, 0x41765aad50fd38ff, 0x5fa0dd4dfbbe9fd2,
      0xa2bf6d115ef1cc38, 0xc018428f38764f03, 0xb399ba1c94a8abc8, 0x4a81f1d34c3ad164,
      0x501573c5962985c5, 0x73259de7e87e26f8, 0x78562126df6f5ada, 0x612ecd4f3c043253,
      0x7ac5787536c405a3, 0x2216d3e207f9729e, 0xe897418b75a75ad0, 0xcb35f5d5c737ea98,
      0x0d83d3103bc1856b, 0x8d6143ad69641ba7, 0xd186e02843787330, 0x2a0ad04dc98e1d35,
      0x4bd335eb25be8901, 0x46eba01ed981b6d7, 0x2a6729bd74633dc8, 0x33ba08c4a1343228]

/-- `request_blind_token`, by the voter. -/
def requestBlindToken : Request :=
  .requestBlindToken (some voterToken) (some (.obj
    [(py "blinded_ballot", .str (natRepr 16 blindedBallot)), (py "election_id", .int 1)]))

/-- `cast_anonymous_ballot` with the signed ballot. -/
def castAnonymousBallot : Request :=
  .castAnonymousBallot (some (.obj
    [(py "ballot", .str (bytesHex ballot)), (py "signature", .str (natRepr 16 signature))]))

/-- A schedule that runs the requests one after the other, from the thread `pid` on. -/
def inOrder : ℕ → List Request → List (Turn Request)
  | _, [] => []
  | pid, r :: rs => .start r 0 :: .run pid 100 :: inOrder (pid + 1) rs

/-- A schedule runs by steps that meet the condition. -/
theorem runs_reach {C : Sys (machine lib environment) → Label → Prop} [∀ s b, Decidable (C s b)]
    (hstart : ∀ s, C s .start) {ts : List (Turn Request)} :
    ReachIf C (Sys.init db ()) ((Sys.init db ()).runs C oracle ts) :=
  (Sys.runs_sound (P := fun _ => True) oracle_sound hstart (fun _ _ => trivial)
    fun _ _ => trivial).1.mono fun _ _ h => h.1

/-- The requests of one election, from its creation to the signed result. -/
def electionRequests : List Request :=
  [createElection, createCandidate, openElection, requestBlindToken, castAnonymousBallot,
    closeElection, signElectionResults]

/-- The run of one election. -/
def electionRun : Sys (machine lib environment) :=
  (Sys.init db ()).runs (fun _ _ => True) oracle (inOrder 0 electionRequests)

/-- The run of one election is a run, all of whose requests are the ones of the election. -/
theorem electionRun_sound :
    ReachIf (Asked (fun _ _ => True) (· ∈ electionRequests)) (Sys.init db ()) electionRun ∧
      ∀ t ∈ electionRun.threads, t.request ∈ electionRequests :=
  Sys.runs_sound oracle_sound (fun _ => trivial) (fun t ht => by cases ht) fun r hr => by
    simpa [inOrder, electionRequests, Turn.requests] using hr

/-- The election of the run ends with one counted ballot. -/
theorem electionRun_outcome :
    electionRun.db.elections.rows.map Election.status = [.closed] ∧
      electionRun.db.votes.rows.map Vote.electionId = [1] ∧
      electionRun.db.nullifiers.rows.map SpentBallotNullifier.electionId = [1] ∧
      electionRun.db.tokens.rows.map BlindSignatureToken.electionId = [1] ∧
      electionRun.db.results.rows.map SignedElectionResult.electionId = [1] ∧
      (electionRun.replies.any fun x => match x.2 with
        | .blindSignature _ j => j = 1
        | _ => false) = true := by
  decide +kernel

end SecureVote.Sample
