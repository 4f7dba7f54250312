import SecureVote.App
import SecureVote.Text.DateTime

/-!
# The anonymous vote service (`vote_service.py`)
-/

open Txn

namespace SecureVote

open Py

/-- `lock_and_validate_voter`: both rows are read again under their locks. -/
def lockAndValidateVoter (userId : ℕ) : Handler (Except VoteError (User × ElectoralRoll)) := do
  match ← Prog.selectLocking .exclusive (fun _ => [RowId.user userId])
      fun d : Db => (d.users.get? userId).map fun u => (u, d.roleName u) with
  | none => pure (.error (.ineligibleVoter "Voter record is unavailable"))
  | some (user, role) =>
    match ← Prog.selectLocking .share
        (fun d : Db => ((d.enrolment user.id).map (RowId.roll ·.id)).toList)
        fun d : Db => d.enrolment user.id with
    | none => pure (.error (.ineligibleVoter "Voter is not currently eligible"))
    | some enrolment =>
      if user.accountStatus = .approved ∧ user.emailVerified ∧ hasRole role "voter" ∧
          enrolment.status = .active ∧ enrolment.verified then
        pure (.ok (user, enrolment))
      else pure (.error (.ineligibleVoter "Voter is not currently eligible"))

/-- The `vote_hash` of a ballot. -/
def voteHash (L : Lib) (nonce : HexToken) (electionId candidateId : ℕ) (ts : Time) : PyStr :=
  L.sha256Hex (asciiBytes (nonce.text ++ [58] ++ natRepr 10 electionId ++ [58] ++
    natRepr 10 candidateId ++ [58] ++ isoformat ts))

/-- The write of `cast_anonymous_vote`: the ballot and the receipt together. -/
def addVoteAndReceipt (L : Lib) (nonce : HexToken) (ts now : Time) (userId : ℕ) (c : Candidate)
    (electionId : ℕ) (t : Tables) : Tables :=
  { t with
    votes := t.votes.insert
      (fun i => ⟨i, nonce.text, c.id, electionId, c.position, voteHash L nonce electionId c.id ts,
        ts⟩) fun _ => rfl
    receipts := t.receipts.insert (fun i => ⟨i, userId, electionId, now⟩) fun _ => rfl }

/-- `election or candidate.election`. -/
def electionOf (candidate : Candidate) : Option Election → Handler (Option Election)
  | some e => pure (some e)
  | none => Prog.select Bind.voters fun d : Db => d.elections.get? candidate.electionId

/-- `locked_election is not None and locked_election.is_open`. The locking read does not refresh
the attributes of an object that the session has loaded: `locked_election` is `election`. -/
def lockedIsOpen (locked : Option Election) (election : Election) : Handler Bool :=
  match locked with
  | none => pure false
  | some _ => election.isOpen

/-- `cast_anonymous_vote(db, user, candidate, election)`. -/
def castAnonymousVote (L : Lib) (user : User) (candidate : Candidate)
    (election : Option Election) : Handler (Except VoteError Unit) := do
  match ← electionOf candidate election with
  | none =>
    pure (.error (.invalidElection "Candidate does not belong to this election"))
  | some election =>
    if candidate.electionId ≠ election.id then
      pure (.error (.invalidElection "Candidate does not belong to this election"))
    else
      let locked ← lockElection .share election.id
      if (← lockedIsOpen locked election) = false then pure (.error (.invalidElection "Election is not open"))
      else
        match ← lockAndValidateVoter user.id with
        | .error e => pure (.error e)
        | .ok (lockedUser, enrolment) =>
          if candidate.regionId ≠ enrolment.regionId then
            pure (.error (.ineligibleVoter "Candidate is outside the voter's enrolled region"))
          else
            let existingReceipt ← Prog.select Bind.voters fun d : Db =>
              d.receipt lockedUser.id election.id
            if existingReceipt.isSome then
              pure (.error (.alreadyVoted "User has already voted in this election"))
            else
              let existingAuthorization ← Prog.select Bind.voters fun d : Db =>
                d.token lockedUser.id election.id
              if existingAuthorization.isSome then
                pure (.error (.alreadyVoted
                  "A blind-ballot authorization was already issued for this election"))
              else
                let nonce ← Prog.call Query.tokenHex
                let ts ← utcNow
                let now ← utcNow
                match ← save (addVoteAndReceipt L nonce ts now lockedUser.id candidate
                    election.id) with
                | some () => pure (.ok ())
                | none => pure (.error (.alreadyVoted
                    "Concurrent vote detected and blocked by the election receipt constraint"))

/-- A caller of the service: it loads the three objects by primary key in one transaction, as
the tests do, and passes them on. -/
def castVote (L : Lib) (userId candidateId : ℕ) (electionId : Option ℕ) : Handler Response := do
  let user ← Prog.select Bind.voters fun d : Db => d.users.get? userId
  let candidate ← Prog.select Bind.voters fun d : Db => d.candidates.get? candidateId
  let election ← Prog.select Bind.voters fun d : Db => electionId.bind d.elections.get?
  match user, candidate with
  | some user, some candidate =>
    match ← castAnonymousVote L user candidate election with
    | .ok () => pure .done
    | .error e => pure (.raised e)
  | _, _ => pure (.uncaught .attributeError)

end SecureVote
