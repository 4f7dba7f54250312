import SecureVote.App
import SecureVote.Text.DateTime
import SecureVote.Security.BlindSignature

/-!
# Tallies and signed results (`services/results_service.py`, `routes/results.py`)
-/

open Txn

namespace SecureVote

open Py

/-! ### Tallies -/

/-- A row of `get_vote_tallies`. -/
structure Tally where
  candidateId : ℕ
  name : PyStr
  position : PyStr
  regionId : ℕ
  region : PyStr
  votes : ℕ
  deriving DecidableEq, Repr

/-- `COUNT(v.id)` of the votes joined to a candidate. -/
def Tables.voteCount (t : Tables) (c : Candidate) : ℕ :=
  t.votes.rows.countP fun v => v.candidateId = c.id ∧ v.electionId = c.electionId

/-- `ORDER BY votes DESC, name ASC, candidate_id ASC`. -/
def tallyLe (L : Lib) (a b : Tally) : Bool :=
  if a.votes ≠ b.votes then b.votes < a.votes
  else if L.collateEq a.name b.name then a.candidateId ≤ b.candidateId
  else L.collateLe a.name b.name

/-- The row of one candidate, joined to its region. -/
def Tables.tally (t : Tables) (c : Candidate) : Option Tally :=
  (t.regions.get? c.regionId).map fun r =>
    ⟨c.id, c.name, c.position, c.regionId, r.name, t.voteCount c⟩

/-- The rows of `get_vote_tallies` in a given state. -/
def Tables.tallies (L : Lib) (t : Tables) (electionId : ℕ) : List Tally :=
  ((t.roster electionId).filterMap t.tally).mergeSort (tallyLe L)

/-- `get_vote_tallies`: read on a connection of its own; `none` is `ResultsUnavailableError`. -/
def getVoteTallies (L : Lib) (electionId : ℕ) : Handler (Option (List Tally)) := do
  let available : Bool ← Prog.call Query.connect
  if available then
    let rows ← Prog.selectLatest fun d : Db => d.tallies L electionId
    pure (some rows)
  else pure none

/-! ### `sign_election_results` -/

/-- A tally row as it stands in the payload. -/
def Tally.toJson (r : Tally) : Json :=
  .obj [(py "candidate_id", .int r.candidateId), (py "name", .str r.name),
    (py "position", .str r.position), (py "region_id", .int r.regionId),
    (py "region", .str r.region), (py "votes", .int r.votes)]

/-- `election_results`. -/
def electionResults (election : Election) (signedAt : Time) (tallies : List Tally) : Json :=
  .obj [(py "election_id", .int election.id), (py "election_name", .str election.name),
    (py "signed_at", .str (isoformat signedAt)), (py "results", .arr (tallies.map Tally.toJson)),
    (py "total_votes", .int (tallies.map Tally.votes).sum)]

/-- The election id of a signing request: from the JSON body, else from the form. -/
def signElectionId (body : Option Json) (form : Option PyStr) : Except Response ℤ :=
  let fromForm : Json := (form.map Json.str).getD .null
  let given : Except Response Json :=
    match body with
    | some (.obj kvs) =>
      let v := (dictGet kvs (py "election_id")).getD .null
      .ok (if v.truthy then v else fromForm)
    | some j => if j.truthy then .error (.uncaught .attributeError) else .ok fromForm
    | none => .ok fromForm
  match given with
  | .error r => .error r
  | .ok v =>
    match v.toInt with
    | .ok n => .ok n
    | .error .overflowError => .error (.uncaught .overflowError)
    | .error _ => .error (.error "A valid election_id is required." 400)

/-- `LOCAL_RSA_BACKEND`. -/
def localRsaBackend : PyStr := py "local-rsa"

/-- `validate_local_public_key` accepts the PEM text under this fingerprint. -/
def validLocalPublicKey (L : Lib) (pem : Option PyStr) (keyId : PyStr) : Bool :=
  match pem with
  | none => false
  | some s =>
    if s.isEmpty || s.any (0x80 ≤ ·) then false
    else
      match L.loadPemPublicKey (asciiBytes s) with
      | some (some k) => fingerprint L k = keyId
      | _ => false

/-- The provenance check of a local signature: the key to archive, if it is new. -/
def archiveKey (L : Lib) (cu : CurrentUser) (signed : SigningResult) :
    Handler (Except Response (Option ResultSigningPublicKey)) := do
  if signed.signerBackend ≠ localRsaBackend then pure (.ok none)
  else if validLocalPublicKey L signed.publicKeyPem signed.signingKeyId = false then
    Prog.abort
    pure (.error (.error "The result-signing key is invalid." 503))
  else
    let key : ResultSigningPublicKey :=
      ⟨signed.signingKeyId, signed.signatureAlgorithm, signed.publicKeyPem.getD []⟩
    let archived ← Prog.select cu.bind fun d : Db =>
      d.resultKeys.find? fun k => k.keyId = signed.signingKeyId
    match archived with
    | none => pure (.ok (some key))
    | some old =>
      if old.algorithm = key.algorithm ∧ old.publicKeyPem = key.publicKeyPem then pure (.ok none)
      else
        Prog.abort
        pure (.error (.error "The result-signing key archive is invalid." 503))

/-- The insert of a new key. It runs in a savepoint of its own: when another signer has archived
the key meanwhile, only this insert is undone. -/
def archive (key : Option ResultSigningPublicKey) (keys : List ResultSigningPublicKey) :
    List ResultSigningPublicKey :=
  match key with
  | none => keys
  | some k => if keys.any (·.keyId = k.keyId) then keys else keys ++ [k]

/-- The write of `sign_election_results`. -/
def addResult (key : Option ResultSigningPublicKey) (electionId : ℕ) (payload : PyStr)
    (signed : SigningResult) (signedAt : Time) (signedBy : ℕ) (t : Tables) : Tables :=
  { t with
    resultKeys := archive key t.resultKeys
    results := t.results.insert
      (fun i => ⟨i, electionId, payload, signed.signature, signed.signerBackend,
        signed.signatureAlgorithm, signed.signingKeyId, signed.signingKeyVersion, signedAt,
        some signedBy⟩) fun _ => rfl }

/-- `sign_election_results` on the locked election, once its status has been checked. -/
def signClosed (L : Lib) (cu : CurrentUser) (election : Election) : Handler Response := do
  let existing ← Prog.select cu.bind fun d : Db =>
    d.results.rows.find? fun r => r.electionId = election.id
  if existing.isSome then
    Prog.abort
    pure (.error "Election results have already been signed." 409)
  else
    match ← getVoteTallies L election.id with
    | none =>
      Prog.abort
      pure (.error "Authoritative election results are unavailable." 503)
    | some tallies =>
      let signedAt ← utcNow
      let payload := dumps (electionResults election signedAt tallies)
      match ← Prog.call (Query.signData (asciiBytes payload)) with
      | none =>
        Prog.abort
        pure (.error "The result-signing service is unavailable." 503)
      | some signed =>
        match ← archiveKey L cu signed with
        | .error r => pure r
        | .ok key =>
          match ← save (addResult key election.id payload signed signedAt cu.user.id) with
          | none =>
            Prog.abort
            pure (.error "Election results have already been signed." 409)
          | some () =>
            auditRow cu.bind cu.user.id "result.sign" "election_result" Tables.elections
              election.id (.resultSigned election.id)

/-- `sign_election_results`. The lock that serializes signers of one process only removes
interleavings, and is left out. -/
def signElectionResults (L : Lib) (cookie : Option PyStr) (body : Option Json)
    (form : Option PyStr) : Handler Response :=
  loginRequired L cookie false fun cu => do
    if hasRole cu.role "manager" = false then pure (.error "Forbidden" 403)
    else
      match signElectionId body form with
      | .error r => pure r
      | .ok electionId =>
        match ← lockElection .exclusive electionId with
        | none => pure (.error "Election not found." 404)
        | some election =>
          if election.status ≠ .closed then
            Prog.abort
            pure (.error "Only closed election results can be signed." 409)
          else signClosed L cu election

/-! ### `verify_election_results` -/

/-- The data and the signature of a verification request. -/
def verificationData (body : Option Json) : Except Response (List (PyStr × Json) × PyStr) :=
  let missing := Response.error "Missing 'data' or 'signature' in request." 400
  match body with
  | some (.obj kvs) =>
    match getOrNone kvs (py "data"), getOrNone kvs (py "signature") with
    | .obj data, .str signature =>
      if signature.isEmpty then .error missing else .ok (data, signature)
    | _, _ => .error missing
  | some j => if j.truthy then .error (.uncaught .attributeError) else .error missing
  | none => .error missing

/-- The election id in the data of a verification request. -/
def verificationElectionId (data : List (PyStr × Json)) : Except Response ℤ :=
  let invalid := Response.error "Signed result data has an invalid election_id." 400
  match dictGet data (py "election_id") with
  | none => .error (.error "Signed result data has no election_id." 400)
  | some (.bool _) => .error invalid
  | some v =>
    match v.toInt with
    | .ok n => .ok n
    | .error .overflowError => .error (.uncaught .overflowError)
    | .error _ => .error invalid

/-- The archived key of a stored result, which only a local signature has. -/
def archivedKey (b : Bind) (stored : SignedElectionResult) :
    Handler (Option ResultSigningPublicKey) :=
  if stored.signerBackend = localRsaBackend then
    Prog.select b fun d : Db => d.resultKeys.find? fun k => k.keyId = stored.signingKeyId
  else pure none

/-- `verify_election_results` on the connection `b`, once the body has been parsed. -/
def verifyStored (b : Bind) (payload signature : PyStr) (electionId : ℤ) : Handler Response := do
  match ← Prog.select b fun d : Db =>
      d.results.rows.find? fun r => (r.electionId : ℤ) = electionId with
  | none => pure (.error "No signed result exists for this election." 404)
  | some stored =>
    if stored.payload ≠ payload ∨ stored.signature ≠ signature then pure (.verified false)
    else
      let archived ← archivedKey b stored
      match ← Prog.call (Query.verifySignature (asciiBytes payload) signature
          ⟨stored.signerBackend, stored.signatureAlgorithm, stored.signingKeyId,
            stored.signingKeyVersion, archived.map ResultSigningPublicKey.publicKeyPem⟩) with
      | none => pure (.error "Result verification is unavailable." 503)
      | some valid => pure (.verified valid)

/-- `verify_election_results`. It is public: a session cookie only selects the connection. -/
def verifyElectionResults (L : Lib) (cookie : Option PyStr) (body : Option Json) :
    Handler Response := do
  match ← loadUserFromJwt L cookie false with
  | .error r => pure r
  | .ok cu =>
    match verificationData body with
    | .error r => pure r
    | .ok (data, signature) =>
      match verificationElectionId data with
      | .error r => pure r
      | .ok electionId =>
        verifyStored ((cu.map CurrentUser.bind).getD .voters) (dumps (.obj data)) signature electionId

/-! ### The ORM hooks of signed results -/

/-- A pending change of a row in an ORM session. -/
inductive Change (α : Type)
  | update (f : α → α)
  | delete

/-- `_prevent_signed_result_mutation`, which runs in every flush that would change or delete a
signed result. -/
def preventSignedResultMutation : Change SignedElectionResult → Except PyError Unit
  | .update _ => .error .valueError
  | .delete => .error .valueError

/-- Some code loads a signed result through the ORM, changes or deletes it, and commits. -/
def changeSignedResult (id : ℕ) (change : Change SignedElectionResult) : Handler Response := do
  match ← Prog.select Bind.admin fun d : Db => d.results.get? id with
  | none => pure .done
  | some _ =>
    match preventSignedResultMutation change with
    | .error e =>
      Prog.abort
      pure (.uncaught e)
    | .ok () =>
      let _ ← save fun t =>
        match change with
        | .update f => { t with
            results := t.results.update id (fun r => { f r with id := r.id }) fun _ => rfl }
        | .delete => { t with results := t.results.filter fun r => r.id ≠ id }
      pure .done

end SecureVote
