import SecureVote.Routes.Results
import SecureVote.Sql.Query
import Mathlib.Data.List.Lex

/-!
# The tally query (`services/results_service.py`)

The statement of `get_vote_tallies`, clause by clause.
-/

namespace SecureVote

open Sql

/-- A row of `candidate c JOIN regions r LEFT JOIN vote v`. -/
abbrev TallyJoin := (Candidate × Region) × Option Vote

/-- `v.candidate_id = c.id AND v.election_id = c.election_id`. -/
def isVoteFor (c : Candidate × Region) (v : Vote) : Bool :=
  v.candidateId = c.1.id && v.electionId = c.1.electionId

/-- `FROM candidate c JOIN regions r ON r.id = c.region_id LEFT JOIN vote v ON v.candidate_id = c.id
AND v.election_id = c.election_id WHERE c.election_id = :election_id`. -/
def tallyJoin (t : Tables) (electionId : ℤ) : List TallyJoin :=
  let placed := join (fun (c : Candidate) (r : Region) => r.id = c.regionId)
    t.candidates.rows t.regions.rows
  (leftJoin isVoteFor placed t.votes.rows).filter fun r => (r.1.1.electionId : ℤ) = electionId

/-- `c.id, c.name, c.position, c.region_id, r.name`. -/
abbrev TallyKey := ℕ × PyStr × PyStr × ℕ × PyStr

/-- The key of a joined row. -/
def tallyKey (r : TallyJoin) : TallyKey :=
  (r.1.1.id, r.1.1.name, r.1.1.position, r.1.1.regionId, r.1.2.name)

/-- The result row of a group, with `COUNT(v.id)`. -/
def tallyRow : TallyKey × List TallyJoin → Tally
  | ((id, name, position, regionId, region), rows) =>
    ⟨id, name, position, regionId, region, count (fun r => r.2.bind fun v => some v.id) rows⟩

/-- `get_vote_tallies(election_id)` in a given state. -/
def voteTallyQuery (L : Lib) (t : Tables) (electionId : ℤ) : List Tally :=
  orderBy (tallyLe L) ((groupBy tallyKey (tallyJoin t electionId)).map tallyRow)

/-- Names compared by code point. -/
def Lib.byCodePoint (L : Lib) : Lib :=
  { L with
    collateLe := fun a b => a ≤ b
    collateEq := fun a b => a = b }

end SecureVote
