import SecureVote.Routes.Main

/-!
# `blind_signing_public_key` (`routes/main.py`)

The page of a ballot fetches the public key of the election before it blinds anything.
-/

open Txn

namespace SecureVote

open Py

/-- The reply of `blind_signing_public_key`. -/
structure BlindKey where
  n : PyStr
  e : PyStr
  keyId : PyStr
  electionId : ℕ

/-- The election id of the query string. -/
def blindKeyElectionId (arg : Option PyStr) : Except Response ℤ :=
  match arg.bind (int 10) with
  | none => .error (.error "A valid election_id is required" 400)
  | some n =>
    if n < 1 then .error (.error "A valid election_id is required" 400)
    else .ok n

/-- `blind_signing_public_key`. A session cookie only selects the connection. -/
def blindSigningPublicKey (L : Lib) (cookie arg : Option PyStr) :
    Handler (Except Response BlindKey) := do
  match ← loadUserFromJwt L cookie false with
  | .error r => pure (.error r)
  | .ok cu =>
    match blindKeyElectionId arg with
    | .error r => pure (.error r)
    | .ok electionId =>
      match ← Prog.select ((cu.map CurrentUser.bind).getD .voters) fun d : Db =>
          byId d.elections electionId with
      | none => pure (.error (.error "Election not found" 404))
      | some election =>
        if (← election.isOpen) = false then pure (.error (.error "Election is not open" 409))
        else
          match ← ensureElectionBlindSigningKey L election.id election.blindSigningKeyId false with
          | .error (.blindSigningKeyError _) =>
            pure (.error (.error "Election signing key is unavailable" 503))
          | .error e => pure (.error (.uncaught e))
          | .ok components =>
            pure (.ok ⟨components.n, components.e, components.keyId, election.id⟩)

end SecureVote
