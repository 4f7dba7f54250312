import SecureVote.Security.SigningService

/-!
# `get_latest_results` (`routes/results.py`)

The public download of a signed result: the stored payload is parsed again, and a local result comes
with the archived key, whose provenance is checked as before signing.
-/

open Txn

namespace SecureVote

open Py

/-- The reply of `get_latest_results`. -/
structure LatestResults where
  data : Json
  signature : PyStr
  signerBackend : PyStr
  signatureAlgorithm : PyStr
  signingKeyId : PyStr
  signingKeyVersion : Option ℤ
  publicKeyPem : Option PyStr

/-- `query.filter_by(election_id=...).order_by(SignedElectionResult.signed_at.desc()).first()`;
without an id the query has no filter. Results that were signed at one time keep their order. -/
def latestResult (electionId : Option ℤ) (rows : List SignedElectionResult) :
    Option SignedElectionResult :=
  ((rows.filter fun r => electionId.all fun n => (r.electionId : ℤ) = n).mergeSort
    fun a b => b.signedAt ≤ a.signedAt).head?

/-- The election id of the query string. -/
def latestElectionId (arg : Option PyStr) : Except Response (Option ℤ) :=
  match arg with
  | none => .ok none
  | some s =>
    match int 10 s with
    | some n => .ok (some n)
    | none => .error (.error "Invalid election_id." 400)

/-- The checks of the archived key of a local result, in their order. All of them raise a
`SignatureMetadataError`. -/
def checkProvenance (L : Lib) (stored : SignedElectionResult)
    (archived : Option ResultSigningPublicKey) : Except SigningError Unit :=
  if stored.signerBackend = localRsaBackend then
    match archived with
    | none => .error (.signatureMetadata "The archived local result-signing key is missing.")
    | some key =>
      if key.algorithm ≠ stored.signatureAlgorithm then
        .error (.signatureMetadata "The archived local result-signing algorithm does not match.")
      else
        match validateLocalPublicKey L (.str key.publicKeyPem) stored.signingKeyId with
        | .error e => .error e
        | .ok _ => .ok ()
  else .ok ()

/-- `get_latest_results`. As in `verify_election_results`, a session cookie only selects the
connection. -/
def getLatestResults (L : Lib) (cookie arg : Option PyStr) :
    Handler (Except Response LatestResults) := do
  match ← loadUserFromJwt L cookie false with
  | .error r => pure (.error r)
  | .ok cu =>
    let b : Bind := (cu.map CurrentUser.bind).getD .voters
    match latestElectionId arg with
    | .error r => pure (.error r)
    | .ok electionId =>
      match ← Prog.select b fun d : Db => latestResult electionId d.results.rows with
      | none => pure (.error (.error "Results have not been signed yet." 404))
      | some stored =>
        let archived ← archivedKey b stored
        match checkProvenance L stored archived with
        | .error _ => pure (.error (.error "Result signing provenance is unavailable." 503))
        | .ok () =>
          match loads L.recursionLimit stored.payload with
          | .error .value => pure (.error (.uncaught .valueError))
          | .error .recursion => pure (.error (.uncaught .recursionError))
          | .ok data => pure (.ok
            { data := data
              signature := stored.signature
              signerBackend := stored.signerBackend
              signatureAlgorithm := stored.signatureAlgorithm
              signingKeyId := stored.signingKeyId
              signingKeyVersion := stored.signingKeyVersion
              publicKeyPem := archived.map ResultSigningPublicKey.publicKeyPem })

end SecureVote
