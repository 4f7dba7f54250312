import SecureVote.Security.BlindSignature

/-!
# Reconciling the keys of open elections (`services/election_key_service.py`)

The command runs outside any request, on the connection of the migration credential, which the
model does not tell apart from the manager one.
-/

open Txn

namespace SecureVote

/-- The checks of one open election; the fingerprint when it is anchored now. -/
def reconcileElection (L : Lib) (election : Election) :
    Handler (Except PyError (Option PyStr)) := do
  if election.blindKeyRecoveryRequired then
    pure (.error (.blindSigningKeyError
      ("This open election has ambiguous legacy blind-authorization " ++
        "history. Manual recovery is required.")))
  else
    let authorization ← Prog.select Bind.admin fun d : Db =>
      d.tokens.rows.find? fun k => k.electionId = election.id
    if election.blindSigningKeyId.isNone && authorization.isSome then
      pure (.error (.blindSigningKeyError
        ("An open election with issued authorizations has no anchored " ++
          "blind-signing key. Manual recovery is required.")))
    else
      match ← ensureElectionBlindSigningKey L election.id election.blindSigningKeyId
          election.blindSigningKeyId.isNone with
      | .error e => pure (.error e)
      | .ok components =>
        pure (.ok (if election.blindSigningKeyId.isNone then some components.keyId else none))

/-- The loop over the open elections: the anchors assigned, in order. -/
def reconcileLoop (L : Lib) : List Election → Handler (Except PyError (List (ℕ × PyStr)))
  | [] => pure (.ok [])
  | election :: rest => do
    match ← reconcileElection L election with
    | .error e => pure (.error e)
    | .ok anchor =>
      match ← reconcileLoop L rest with
      | .error e => pure (.error e)
      | .ok anchors => pure (.ok ((anchor.map fun id => (election.id, id)).toList ++ anchors))

/-- The write of the caller's commit: the anchors assigned in memory. -/
def anchorElections (anchors : List (ℕ × PyStr)) (t : Tables) : Tables :=
  { t with
    elections := anchors.foldl
      (fun es a => es.update a.1 (fun e => { e with blindSigningKeyId := some a.2 }) fun _ => rfl)
      t.elections }

/-- `reconcile_open_election_keys`. -/
def reconcileOpenElectionKeys (L : Lib) : Handler (Except PyError (List (ℕ × PyStr))) := do
  let elections ← Prog.selectLocking .exclusive
    (fun d : Db => (d.elections.rows.filter fun e => e.status = .open).map (RowId.election ·.id))
    fun d : Db => d.elections.rows.filter fun e => e.status = .open
  reconcileLoop L elections

/-- The command around it: commit, or roll back and raise. -/
def anchorOpenElectionKeys (L : Lib) : Handler Response := do
  match ← reconcileOpenElectionKeys L with
  | .error e =>
    Prog.abort
    pure (.uncaught e)
  | .ok anchors =>
    match ← save (anchorElections anchors) with
    | none =>
      Prog.abort
      pure (.uncaught .integrityError)
    | some () => pure .done

end SecureVote
