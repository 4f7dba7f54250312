import SecureVote.Security.BlindSignature
import SecureVote.VoteService

/-!
# Anonymous voting (`routes/main.py`)

The two phases of a blind-signed ballot: the authenticated request for one blind signature, and
the anonymous submission of the unblinded ballot.
-/

open Txn

namespace SecureVote

open Py

/-! ### `request_blind_token` -/

/-- A value a `set` cannot hold. -/
def Json.unhashable : Json → Bool
  | .arr _ | .obj _ => true
  | _ => false

/-- The value is this string. -/
def Json.isStr (j : Json) (s : PyStr) : Bool :=
  match j with
  | .str t => t = s
  | _ => false

/-- `{"blinded_ballot", "election_id"}.issubset(data)` for a truthy `data`: the keys of a
`dict`, the elements of a list or string; a number is not iterable. -/
def hasRequired : Json → Except PyError Bool
  | .obj kvs =>
      .ok ((dictGet kvs (py "blinded_ballot")).isSome && (dictGet kvs (py "election_id")).isSome)
  | .arr xs =>
      if xs.any Json.unhashable then .error .typeError
      else .ok (xs.any (Json.isStr · (py "blinded_ballot")) &&
        xs.any (Json.isStr · (py "election_id")))
  | .str _ => .ok false
  | _ => .error .typeError

/-- `data[key]`; a list has no string index. -/
def getItem (data : Json) (k : PyStr) : Json :=
  match data with
  | .obj kvs => (dictGet kvs k).getD .null
  | _ => .null

/-- A request body with its election id, or the response to a malformed one. -/
def parseTokenRequest (data : Option Json) : Except Response (Json × ℤ) :=
  match data with
  | none => .error (.error "Missing blinded_ballot or election_id" 400)
  | some data =>
    if data.truthy = false then .error (.error "Missing blinded_ballot or election_id" 400)
    else
      match hasRequired data with
      | .error e => .error (.uncaught e)
      | .ok false => .error (.error "Missing blinded_ballot or election_id" 400)
      | .ok true =>
        match (getItem data (py "election_id")).toInt with
        | .ok electionId => .ok (data, electionId)
        | .error .overflowError => .error (.uncaught .overflowError)
        | .error _ => .error (.error "Invalid election_id" 400)

/-- The signing step of `request_blind_token`. -/
def signBlinded (L : Lib) (blinded : ℤ) (election : Election) : Handler (Except Response ℕ) := do
  match ← ensureElectionBlindSigningKey L election.id election.blindSigningKeyId false with
  | .error e => pure (.error (keyErrorResponse e))
  | .ok _ =>
    match ← blindSign blinded election.id with
    | .error e => pure (.error (keyErrorResponse e))
    | .ok signature => pure (.ok signature)
where
  /-- The `except` clauses around the signing step. -/
  keyErrorResponse : PyError → Response
    | .valueError | .typeError => .error "Invalid blinded ballot value" 400
    | .blindSigningKeyError _ => .error "Election signing key is unavailable" 503
    | e => .uncaught e

/-- The write of `request_blind_token`. -/
def addToken (userId electionId : ℕ) (t : Tables) : Tables :=
  { t with tokens := t.tokens.insert (fun i => ⟨i, userId, electionId⟩) fun _ => rfl }

/-- `request_blind_token` for a loaded user and a parsed body. -/
def issueBlindToken (L : Lib) (cu : CurrentUser) (data : Json) (electionId : ℤ) :
    Handler Response := do
  let some election ← lockElection .share electionId
    | pure (.error "Election is not open" 409)
  if (← election.isOpen) = false then pure (.error "Election is not open" 409)
  else
    match ← lockAndValidateVoter cu.user.id with
    | .error _ =>
      Prog.abort
      pure (.error "Not eligible to vote" 403)
    | .ok (user, enrolment) =>
      -- a plain read: the roster of the snapshot that the user load fixed
      let candidates ← Prog.select cu.bind fun d : Db => d.roster election.id
      if (regionIds candidates).length ≠ 1 ∨ (positions candidates).length ≠ 1 then
        Prog.abort
        pure (.error "Election is not a single-region, single-contest ballot" 409)
      else if enrolment.regionId ∉ regionIds candidates then
        Prog.abort
        pure (.error "Election is outside your enrolled region" 403)
      else
        match (getItem data (py "blinded_ballot")).toInt16 with
        | .error _ => pure (.error "Invalid blinded_ballot format" 400)
        | .ok blinded =>
          let existingToken ← Prog.selectLocking .share
            (fun d : Db => ((d.token user.id election.id).map (RowId.token ·.id)).toList)
            fun d : Db => d.token user.id election.id
          let existingReceipt ← Prog.select cu.bind fun d : Db => d.receipt user.id election.id
          if existingToken.isSome then
            pure (.error "A ballot authorization was already issued for this election" 409)
          else if existingReceipt.isSome then
            pure (.error "Already voted in this election" 409)
          else
            match ← signBlinded L blinded election with
            | .error r =>
              Prog.abort
              pure r
            | .ok signature =>
              match ← save (addToken user.id election.id) with
              | none =>
                Prog.abort
                pure (.error "Already voted" 409)
              | some () =>
                auditRow cu.bind user.id "ballot_authorization.issue" "election"
                  Tables.elections election.id (.blindSignature (hex signature) election.id)

/-- `request_blind_token`. -/
def requestBlindToken (L : Lib) (cookie : Option PyStr) (data : Option Json) : Handler Response :=
  loginRequired L cookie false fun cu =>
    match parseTokenRequest data with
    | .error r => pure r
    | .ok (data, electionId) => issueBlindToken L cu data electionId

/-! ### `cast_anonymous_ballot` -/

/-- A submitted ballot, parsed: the exact bytes that were signed, the signature, and the fields
of the ballot. -/
structure ParsedBallot where
  bytes : Bytes
  signature : ℤ
  candidateId : ℤ
  electionId : ℤ
  nonce : PyStr
  deriving DecidableEq, Repr

/-- `int(x)` of the ballot identifiers. -/
def ballotInt (j : Json) : Except Response ℤ :=
  match j.toInt with
  | .ok n => .ok n
  | .error .overflowError => .error (.uncaught .overflowError)
  | .error _ => .error (.error "Malformed ballot" 400)

/-- The first `try` block: the octets, the decoded document and the signature. -/
def decodeBallot (L : Lib) (ballot signature : Json) : Except Response (Bytes × Json × ℤ) :=
  let invalid := Response.error "Invalid ballot or signature format" 400
  match ballot with
  | .str ballotHex =>
    match fromHex ballotHex with
    | none => .error invalid
    | some bytes =>
      match decodeUtf8 bytes with
      | none => .error invalid
      | some text =>
        match loads L.recursionLimit text with
        | .error .recursion => .error (.uncaught .recursionError)
        | .error .value => .error invalid
        | .ok doc =>
          match signature.toInt16 with
          | .error _ => .error invalid
          | .ok s => .ok (bytes, doc, s)
  | _ => .error invalid

/-- The checks on the fields of a decoded ballot. -/
def ballotFields (bytes : Bytes) (doc : Json) (signature : ℤ) : Except Response ParsedBallot :=
  match doc with
  | .obj kvs =>
    let candidateId := (dictGet kvs (py "candidate_id")).getD .null
    let electionId := (dictGet kvs (py "election_id")).getD .null
    let nonce := (dictGet kvs (py "nonce")).getD .null
    if !candidateId.truthy || !electionId.truthy || !nonce.truthy then
      .error (.error "Malformed ballot" 400)
    else
      match ballotInt candidateId with
      | .error r => .error r
      | .ok candidateId =>
        match ballotInt electionId with
        | .error r => .error r
        | .ok electionId =>
          match nonce with
          | .str s =>
            if s.length = 64 ∧ s.all isHexLower then
              .ok ⟨bytes, signature, candidateId, electionId, s⟩
            else .error (.error "Malformed ballot nullifier" 400)
          | _ => .error (.error "Malformed ballot nullifier" 400)
  | _ => .error (.error "Malformed ballot" 400)

/-- From the request body to a parsed ballot, or the response to a malformed one. -/
def parseBallot (L : Lib) (data : Option Json) : Except Response ParsedBallot :=
  match data with
  | some (.obj kvs) =>
    match dictGet kvs (py "ballot"), dictGet kvs (py "signature") with
    | some ballot, some signature =>
      match decodeBallot L ballot signature with
      | .error r => .error r
      | .ok (bytes, doc, s) => ballotFields bytes doc s
    | _, _ => .error (.error "Missing ballot or signature" 400)
  | _ => .error (.error "Missing ballot or signature" 400)

/-- The verification step of `cast_anonymous_ballot`. -/
def verifyBallot (L : Lib) (ballot : ParsedBallot) (election : Election) :
    Handler (Except PyError Bool) := do
  match ← ensureElectionBlindSigningKey L election.id election.blindSigningKeyId false with
  | .error e => pure (.error e)
  | .ok _ => verifyUnblindedSignature L ballot.bytes ballot.signature election.id

/-- The nullifier a ballot leaves. -/
def nullifierHash (L : Lib) (nonce : PyStr) : PyStr := L.sha256Hex (asciiBytes nonce)

theorem voteId (L : Lib) (token : HexToken) (ts : Time) (c : Candidate) (electionId i : ℕ) :
    (⟨i, token.text, c.id, electionId, c.position, voteHash L token electionId c.id ts,
      ts⟩ : Vote).id = i := rfl

/-- The write of `cast_anonymous_ballot`: the vote and its nullifier together. -/
def addVoteAndNullifier (L : Lib) (token : HexToken) (ts spentAt : Time) (nonce : PyStr)
    (c : Candidate) (electionId : ℕ) (t : Tables) : Tables :=
  { t with
    votes := t.votes.insert
      (fun i => ⟨i, token.text, c.id, electionId, c.position, voteHash L token electionId c.id ts,
        ts⟩) (voteId L token ts c electionId)
    nullifiers := t.nullifiers.insert
      (fun i => ⟨i, electionId, nullifierHash L nonce, spentAt⟩) fun _ => rfl }

/-- `cast_anonymous_ballot` for a parsed ballot. -/
def recordBallot (L : Lib) (ballot : ParsedBallot) : Handler Response := do
  let some election ← lockElection .share ballot.electionId
    | pure (.error "Election is not open" 409)
  if (← election.isOpen) = false then pure (.error "Election is not open" 409)
  else
    match ← verifyBallot L ballot election with
    | .error (.blindSigningKeyError _) =>
      pure (.error "Election signing key is unavailable" 503)
    | .error e => pure (.uncaught e)
    | .ok false => pure (.error "Invalid signature" 403)
    | .ok true =>
      let some candidate ← Prog.select Bind.voters fun d : Db =>
          (byId d.candidates ballot.candidateId).filter fun c => c.electionId = election.id
        | pure (.error "Candidate is not in this election" 400)
      let electionCandidates ← Prog.select Bind.voters fun d : Db => d.roster election.id
      if (regionIds electionCandidates).length ≠ 1 ∨ (positions electionCandidates).length ≠ 1 then
        Prog.abort
        pure (.error "Election is not a single-region, single-contest ballot" 409)
      else
        let spentAt ← utcNow
        let token ← Prog.call Query.tokenHex
        let ts ← utcNow
        match ← save (addVoteAndNullifier L token ts spentAt ballot.nonce candidate
            election.id) with
        | none =>
          Prog.abort
          pure (.error "Ballot was already submitted or is invalid" 409)
        | some () =>
          let some election ← refresh Bind.voters Tables.elections election.id
            | pure .objectDeleted
          Prog.report (.audit none "ballot.cast" "election" election.id)
          pure .ballotRecorded

/-- `cast_anonymous_ballot`. The request carries no identity: `_load_user_from_jwt` returns at
once for it. -/
def castAnonymousBallot (L : Lib) (data : Option Json) : Handler Response :=
  match parseBallot L data with
  | .error r => pure r
  | .ok ballot => recordBallot L ballot

end SecureVote
