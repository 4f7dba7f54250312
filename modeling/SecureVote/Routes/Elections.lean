import SecureVote.App
import SecureVote.Security.BlindSignature

/-!
# Election management (`routes/elections.py`)
-/

open Txn

namespace SecureVote

open Py

/-- `flash(message, 'error')` and back to the list. -/
def electionError (message : String) : Response :=
  .redirect (py message) "error" "elections.list_elections"

/-- `flash(message, 'success')` and back to the list. -/
def electionSuccess (message : PyStr) : Response :=
  .redirect message "success" "elections.list_elections"

/-- An optional form field that is absent or empty. -/
def blank (field : Option PyStr) : Bool := field.all (·.isEmpty)

/-- An optional date of a form, parsed when it is given; `none` is a `ValueError`. -/
def parseDate (L : Lib) (field : Option PyStr) : Option (Option Time) :=
  if blank field then some none else (L.parseUtcDatetime (field.getD [])).map some

/-- `close_at <= open_at` when both are set. -/
def closesTooEarly (openAt closeAt : Option Time) : Bool :=
  match openAt, closeAt with
  | some o, some c => c ≤ o
  | _, _ => false

/-- The form of `create_election`. -/
structure ElectionForm where
  name : Option PyStr
  openAt : Option PyStr
  closeAt : Option PyStr
  deriving DecidableEq, Repr

/-- The write of `create_election`. -/
def addElection (name : PyStr) (openAt closeAt : Option Time) (createdBy : ℕ) (t : Tables) :
    Tables :=
  { t with
    elections := t.elections.insert
      (fun i => ⟨i, name, .draft, openAt, closeAt, none, false, some createdBy⟩) fun _ => rfl }

/-- `create_election`. -/
def createElection (L : Lib) (cookie : Option PyStr) (form : ElectionForm) : Handler Response :=
  rolesRequired L ["manager"] cookie fun cu =>
    let name := strip (form.name.getD [])
    if name.isEmpty then pure (electionError "Election name is required.")
    else
      match parseDate L form.openAt with
      | none => pure (electionError "Open time must be a valid date and time.")
      | some openAt =>
        match parseDate L form.closeAt with
        | none => pure (electionError "Close time must be a valid date and time.")
        | some closeAt =>
          if closesTooEarly openAt closeAt then
            pure (electionError "Close time must be after open time.")
          else do
            match ← insertRow (·.elections.next) (addElection name openAt closeAt cu.user.id) with
            | none => pure (.uncaught .integrityError)
            | some id =>
              auditRow cu.bind cu.user.id "election.create" "election" Tables.elections id
                (electionSuccess (py "Election \"" ++ name ++ py "\" created."))

/-- The write of `open_election`. The three columns are assigned from the locked row, so a
column that keeps its value is written as it is. -/
def markOpen (id : ℕ) (keyId : PyStr) (openAt : Time) (t : Tables) : Tables :=
  { t with
    elections := t.elections.update id
      (fun e => { e with status := .open, blindSigningKeyId := some keyId, openAt := some openAt })
      fun _ => rfl }

/-- `election.open_at`, or now when it is not set. -/
def Election.openTime (e : Election) : Handler Time :=
  match e.openAt with
  | some t => pure t
  | none => utcNow

/-- The end of `open_election`, with the key published: assign, check the times, commit. -/
def finishOpen (cu : CurrentUser) (election : Election) (keyId : PyStr) : Handler Response := do
  let openAt ← election.openTime
  if closesTooEarly (some openAt) election.closeAt then
    pure (electionError "Close time must be after open time.")
  else
    match ← save (markOpen election.id keyId openAt) with
    | none => pure (.uncaught .integrityError)
    | some () =>
      auditRow cu.bind cu.user.id "election.open" "election" Tables.elections election.id
        (electionSuccess (py "Election \"" ++ election.name ++ py "\" is now open for voting."))

/-- `open_election`. -/
def openElection (L : Lib) (cookie : Option PyStr) (electionId : ℕ) : Handler Response :=
  rolesRequired L ["manager"] cookie fun cu => do
    let lockedElections ← Prog.selectTable TableName.elections fun d : Db => d.elections.rows
    match lockedElections.find? fun e => e.id = electionId with
    | none => pure (.abort 404)
    | some election =>
      if election.status ≠ .draft then
        pure (electionError "Only a draft election can be opened.")
      else if election.blindKeyRecoveryRequired then
        pure (electionError
          "This legacy election requires signing-authority recovery and cannot open.")
      else if lockedElections.any fun e => e.status = .open ∧ e.id ≠ election.id then
        pure (electionError "Close the current election before opening another.")
      else
        let count ← Prog.select cu.bind fun d : Db => (d.roster election.id).length
        if count = 0 then
          pure (electionError "Add at least one candidate before opening this election.")
        else
          let candidates ← Prog.select cu.bind fun d : Db => d.roster election.id
          if (regionIds candidates).length ≠ 1 ∨ (positions candidates).length ≠ 1 then
            pure (electionError
              ("This prototype supports exactly one region and one contest per election. " ++
                "Align every candidate before opening it."))
          else
            match ← ensureElectionBlindSigningKey L election.id election.blindSigningKeyId
                election.blindSigningKeyId.isNone with
            | .error (.blindSigningKeyError _) =>
              Prog.abort
              pure (electionError
                "The election signing key is unavailable. The election was not opened.")
            | .error e => pure (.uncaught e)
            | .ok components => finishOpen cu election components.keyId

/-- The write of `close_election`. -/
def markClosed (id : ℕ) (closeAt : Time) (t : Tables) : Tables :=
  { t with
    elections := t.elections.update id
      (fun e => { e with status := .closed, closeAt := some closeAt }) fun _ => rfl }

/-- `close_election`. -/
def closeElection (L : Lib) (cookie : Option PyStr) (electionId : ℕ) : Handler Response :=
  rolesRequired L ["manager"] cookie fun cu => do
    match ← lockElection .exclusive electionId with
    | none => pure (.abort 404)
    | some election =>
      if election.status ≠ .open then
        pure (electionError "Only an open election can be closed.")
      else
        let closeAt ← utcNow
        match ← save (markClosed election.id closeAt) with
        | none => pure (.uncaught .integrityError)
        | some () =>
          auditRow cu.bind cu.user.id "election.close" "election" Tables.elections election.id
            (electionSuccess (py "Election \"" ++ election.name ++ py "\" has been closed."))

end SecureVote
