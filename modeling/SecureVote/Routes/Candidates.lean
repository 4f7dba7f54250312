import SecureVote.App

/-!
# Candidate management (`routes/candidates.py`)

Three handlers change the roster of a draft election. Each one locks the election row for
update before it looks at its status; the two that act on a candidate lock the candidate first.
-/

open Txn

namespace SecureVote

open Py

/-- `flash(message)` and back to the delegate dashboard. -/
def delegateNotice (message : String) : Response :=
  .redirect (py message) "message" "main.delegate_dashboard"

/-- A delegate who is not a manager. -/
def CurrentUser.onlyDelegate (cu : CurrentUser) : Bool :=
  hasRole cu.role "delegate" && !hasRole cu.role "manager"

/-- `current_user.enrolment`. -/
def loadEnrolment (cu : CurrentUser) : Handler (Option ElectoralRoll) :=
  Prog.select cu.bind fun d : Db => d.enrolment cu.user.id

/-- `db.session.get(Region, id)`. -/
def loadRegion (cu : CurrentUser) (id : ℤ) : Handler (Option Region) :=
  Prog.select cu.bind fun d : Db => byId d.regions id

/-- A delegate may act in this region. -/
def mayActIn (cu : CurrentUser) (enrolment : Option ElectoralRoll) (regionId : ℕ) : Bool :=
  !cu.onlyDelegate || enrolment.any (·.regionId = regionId)

/-- The form of `create_candidate` and `update_candidate`. -/
structure CandidateForm where
  name : Option PyStr
  party : Option PyStr
  position : Option PyStr
  regionId : Option PyStr
  electionId : Option PyStr
  deriving DecidableEq, Repr

/-- `party or None`. -/
def orNone (s : PyStr) : Option PyStr := if s.isEmpty then none else some s

/-- The write of `create_candidate`. -/
def addCandidate (name : PyStr) (party : Option PyStr) (position : PyStr)
    (regionId electionId : ℕ) (t : Tables) : Tables :=
  { t with
    candidates := t.candidates.insert
      (fun i => ⟨i, name, party, position, regionId, electionId⟩) fun _ => rfl }

/-- `create_candidate` with its ids parsed. -/
def insertCandidate (cu : CurrentUser) (name : PyStr) (party : Option PyStr) (position : PyStr)
    (regionId electionId : ℤ) : Handler Response := do
  let election ← lockElection .exclusive electionId
  let region ← loadRegion cu regionId
  match election.filter fun e => e.status = .draft with
  | none => pure (delegateNotice "Candidates can only be added to a draft election.")
  | some election =>
    match region with
    | none => pure (delegateNotice "Invalid region.")
    | some region =>
      let enrolment ← loadEnrolment cu
      if mayActIn cu enrolment region.id = false then
        pure (delegateNotice "Delegates can only add candidates in their region.")
      else
        match ← insertRow (·.candidates.next)
            (addCandidate name party position region.id election.id) with
        | none => pure (.uncaught .integrityError)
        | some id =>
          auditRow cu.bind cu.user.id "candidate.create" "candidate" Tables.candidates id
            (delegateNotice "Candidate created.")

/-- `create_candidate`. -/
def createCandidate (L : Lib) (cookie : Option PyStr) (form : CandidateForm) : Handler Response :=
  rolesRequired L ["delegate", "manager"] cookie fun cu =>
    let name := strip (form.name.getD [])
    let party := strip (form.party.getD [])
    let position := strip (form.position.getD [])
    let regionIdRaw := form.regionId.getD []
    let electionIdRaw := form.electionId.getD []
    if name.isEmpty || position.isEmpty || regionIdRaw.isEmpty || electionIdRaw.isEmpty then
      pure (delegateNotice "Name, position, region, and draft election are required.")
    else
      match int 10 regionIdRaw, int 10 electionIdRaw with
      | some regionId, some electionId =>
        insertCandidate cu name (orNone party) position regionId electionId
      | _, _ => pure (delegateNotice "Invalid region.")

/-- The rows `update_candidate` and `delete_candidate` act on: the candidate, locked first, and
its election, which must be a draft. A delegate must be enrolled in the candidate's region. -/
def lockDraftCandidate (cu : CurrentUser) (candidateId : ℕ) (foreign : String) :
    Handler (Except Response Candidate) := do
  match ← Prog.selectLocking .exclusive (fun _ => [RowId.candidate candidateId])
      fun d : Db => d.candidates.get? candidateId with
  | none => pure (.error (.abort 404))
  | some c =>
    match (← lockElection .exclusive c.electionId).filter fun e => e.status = .draft with
    | none =>
      pure (.error (delegateNotice "An election roster cannot be changed after voting opens."))
    | some _ =>
      if cu.onlyDelegate then
        let enrolment ← loadEnrolment cu
        if mayActIn cu enrolment c.regionId then pure (.ok c)
        else pure (.error (delegateNotice foreign))
      else pure (.ok c)

/-- The text columns of a candidate after the form, or the complaint about a blank one. -/
def editText (form : CandidateForm) (c : Candidate) : Except Response Candidate :=
  if form.name.any fun s => (strip s).isEmpty then
    .error (delegateNotice "Candidate name is required.")
  else if form.position.any fun s => (strip s).isEmpty then
    .error (delegateNotice "Candidate position is required.")
  else
    .ok { c with
      name := (form.name.map strip).getD c.name
      party := (form.party.map fun s => orNone (strip s)).getD c.party
      position := (form.position.map strip).getD c.position }

/-- The region of a candidate after the form. -/
def editRegion (cu : CurrentUser) (form : CandidateForm) (c : Candidate) :
    Handler (Except Response Candidate) :=
  match form.regionId with
  | none => pure (.ok c)
  | some raw =>
    match int 10 raw with
    | none => pure (.error (delegateNotice "Invalid region."))
    | some newRegionId => do
      let enrolment ← loadEnrolment cu
      if cu.onlyDelegate && !enrolment.any fun r => (r.regionId : ℤ) = newRegionId then
        pure (.error (delegateNotice "Delegates can only move candidates within their region."))
      else
        match ← loadRegion cu newRegionId with
        | none => pure (.error (delegateNotice "Invalid region."))
        | some region => pure (.ok { c with regionId := region.id })

/-- The write of `update_candidate`. -/
def setCandidate (c : Candidate) (t : Tables) : Tables :=
  { t with
    candidates := t.candidates.update c.id
      (fun old => { old with
        name := c.name
        party := c.party
        position := c.position
        regionId := c.regionId }) fun _ => rfl }

/-- `update_candidate`. -/
def updateCandidate (L : Lib) (cookie : Option PyStr) (candidateId : ℕ) (form : CandidateForm) :
    Handler Response :=
  rolesRequired L ["delegate", "manager"] cookie fun cu => do
    match ← lockDraftCandidate cu candidateId
        "Delegates can only edit candidates in their region." with
    | .error r => pure r
    | .ok c =>
      match editText form c with
      | .error r => pure r
      | .ok edited =>
        match ← editRegion cu form edited with
        | .error r => pure r
        | .ok edited =>
          match ← save (setCandidate edited) with
          | none => pure (.uncaught .integrityError)
          | some () =>
            auditRow cu.bind cu.user.id "candidate.update" "candidate" Tables.candidates c.id
              (delegateNotice "Candidate updated.")

/-- The write of `delete_candidate`: votes for the candidate go with it (`ON DELETE CASCADE`). -/
def dropCandidate (id : ℕ) (t : Tables) : Tables :=
  { t with
    candidates := t.candidates.filter fun c => c.id ≠ id
    votes := t.votes.filter fun v => v.candidateId ≠ id }

/-- `delete_candidate`. -/
def deleteCandidate (L : Lib) (cookie : Option PyStr) (candidateId : ℕ) : Handler Response :=
  rolesRequired L ["delegate", "manager"] cookie fun cu => do
    match ← lockDraftCandidate cu candidateId
        "Delegates can only delete candidates in their region." with
    | .error r => pure r
    | .ok c =>
      match ← save (dropCandidate c.id) with
      | none => pure (.uncaught .integrityError)
      | some () =>
        let some u ← refresh cu.bind Tables.users cu.user.id
          | pure .objectDeleted
        Prog.report (.audit (some u.id) "candidate.delete" "candidate" c.id)
        pure (delegateNotice "Candidate deleted.")

end SecureVote
