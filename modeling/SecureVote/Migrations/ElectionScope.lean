import SecureVote.Handler

/-!
# The election-scope migration (`migrations/versions/20260714_election_scope.py`)

`upgrade` on the rows of a legacy database, statement by statement: new columns, the election that
receives the legacy votes, the receipts from three sources, the quarantine of open elections, and
at the end the constraints whose creation aborts the migration when they do not hold.
-/

open Txn

namespace SecureVote.Migration

open Py

/-! ### Legacy databases -/

/-- A nullable column, by the primary key of its table. -/
abbrev Column (α : Type) := ℕ → Option α

/-- A row of the legacy table `election`. -/
structure LegacyElection where
  id : ℕ
  name : PyStr
  status : PyStr
  createdAt : Option Time
  deriving DecidableEq, Repr

/-- A row of the legacy table `candidate`. -/
structure LegacyCandidate where
  id : ℕ
  name : PyStr
  position : PyStr
  deriving DecidableEq, Repr

/-- A row of the legacy table `vote`, without the columns that may be missing. -/
structure LegacyVote where
  id : ℕ
  candidateId : ℕ
  position : PyStr
  voteHash : Option PyStr
  createdAt : Option Time
  deriving DecidableEq, Repr

/-- A row of the legacy table `vote_receipt`. -/
structure LegacyReceipt where
  id : ℕ
  userId : ℕ
  votedAt : Option Time
  deriving DecidableEq, Repr

/-- A row of the legacy table `blind_signature_token`. -/
structure LegacyAuthorization where
  id : ℕ
  userId : ℕ
  ballotNonceHash : PyStr
  deriving DecidableEq, Repr

instance : Keyed LegacyElection := ⟨LegacyElection.id⟩
instance : Keyed LegacyCandidate := ⟨LegacyCandidate.id⟩
instance : Keyed LegacyVote := ⟨LegacyVote.id⟩
instance : Keyed LegacyReceipt := ⟨LegacyReceipt.id⟩
instance : Keyed LegacyAuthorization := ⟨LegacyAuthorization.id⟩

/-- A legacy database: its tables, the three columns that may be missing, and its constraints. -/
structure LegacyDb where
  users : List ℕ
  elections : Table LegacyElection
  candidates : Table LegacyCandidate
  votes : Table LegacyVote
  receipts : Table LegacyReceipt
  authorizations : Table LegacyAuthorization
  /-- `vote.user_id`. -/
  voteUserId : Option (Column ℕ)
  /-- `vote.voter_token`. -/
  voteVoterToken : Option (Column PyStr)
  /-- `user.has_voted`. -/
  userHasVoted : Option (Column Bool)
  vote_candidate : ∀ v ∈ votes.rows, ∃ c ∈ candidates.rows, c.id = v.candidateId
  vote_user_unique : ∀ column, voteUserId = some column → ∀ v ∈ votes.rows, ∀ w ∈ votes.rows,
    ∀ u, column v.id = some u → column w.id = some u → v = w
  receipt_user_unique : (receipts.rows.map LegacyReceipt.userId).Nodup
  voter_token_not_null : ∀ column, voteVoterToken = some column →
    ∀ v ∈ votes.rows, ∃ t, column v.id = some t
  voter_token_unique : ∀ column, voteVoterToken = some column → ∀ v ∈ votes.rows,
    ∀ w ∈ votes.rows, column v.id = column w.id → v = w

/-! ### Databases in migration -/

/-- A row of `election` with the new columns. -/
structure ElectionRow extends LegacyElection where
  blindSigningKeyId : Option PyStr
  blindKeyRecoveryRequired : Bool

/-- A row of `candidate` with the new column. -/
structure CandidateRow extends LegacyCandidate where
  electionId : Option ℕ

/-- A row of `vote` with the new columns. -/
structure VoteRow extends LegacyVote where
  voterToken : Option PyStr
  electionId : Option ℕ

/-- A row of `vote_receipt` with the new column. -/
structure ReceiptRow extends LegacyReceipt where
  electionId : Option ℕ

instance : Keyed ElectionRow := ⟨fun e => e.id⟩
instance : Keyed CandidateRow := ⟨fun c => c.id⟩
instance : Keyed VoteRow := ⟨fun v => v.id⟩
instance : Keyed ReceiptRow := ⟨fun r => r.id⟩

/-- The database from the first `add_column` on. -/
structure ScopedDb where
  users : List ℕ
  elections : Table ElectionRow
  candidates : Table CandidateRow
  votes : Table VoteRow
  receipts : Table ReceiptRow
  authorizations : Table LegacyAuthorization
  voteUserId : Option (Column ℕ)
  userHasVoted : Option (Column Bool)

/-- What the migration draws: a token for each vote, and the readings of the clock. -/
structure Draws where
  token : ℕ → HexToken
  createdAt : Time
  votedAt : ℕ → Time

/-! ### The statements of `upgrade` -/

/-- The column `vote.voter_token`: as it stands, or filled by the loop over the votes. -/
def voterTokens (db : LegacyDb) (draws : Draws) : Column PyStr :=
  match db.voteVoterToken with
  | some column => column
  | none => db.votes.rows.foldl
      (fun column v => Function.update column v.id (some (draws.token v.id).text)) fun _ => none

/-- The `add_column` statements. -/
def addColumns (db : LegacyDb) (draws : Draws) : ScopedDb where
  users := db.users
  elections := db.elections.map (fun e => ⟨e, none, false⟩) fun _ => rfl
  candidates := db.candidates.map (fun c => ⟨c, none⟩) fun _ => rfl
  votes := db.votes.map (fun v => ⟨v, voterTokens db draws v.id, none⟩) fun _ => rfl
  receipts := db.receipts.map (fun r => ⟨r, none⟩) fun _ => rfl
  authorizations := db.authorizations
  voteUserId := db.voteUserId
  userHasVoted := db.userHasVoted

/-- `ORDER BY created_at ASC, id ASC`, null times first. -/
def createdLe (a b : ElectionRow) : Bool :=
  match a.createdAt, b.createdAt with
  | none, none => a.id ≤ b.id
  | none, some _ => true
  | some _, none => false
  | some s, some t => if s = t then a.id ≤ b.id else s < t

/-- The election that receives the legacy votes: the oldest one, or an inserted closed one. -/
def chooseElection (s : ScopedDb) (draws : Draws) : ℕ × ScopedDb :=
  match (s.elections.rows.mergeSort createdLe).head? with
  | some e => (e.id, s)
  | none =>
    let imported (i : ℕ) : ElectionRow :=
      ⟨⟨i, py "Imported legacy election", py "closed", some draws.createdAt⟩, none, false⟩
    (s.elections.next, { s with elections := s.elections.insert imported fun _ => rfl })

/-- The three `UPDATE` statements that set `election_id`. -/
def assignElection (election : ℕ) (s : ScopedDb) : ScopedDb :=
  let candidates := s.candidates.map (fun c => { c with electionId := some election }) fun _ => rfl
  { s with
    candidates := candidates
    votes := s.votes.map
      (fun v => { v with electionId := (candidates.get? v.candidateId).bind (·.electionId) })
      fun _ => rfl
    receipts := s.receipts.map (fun r => { r with electionId := some election }) fun _ => rfl }

/-- The inserted receipt of a user. -/
def insertReceipt (election : ℕ) (receipts : Table ReceiptRow) (userId : ℕ)
    (votedAt : Option Time) : Table ReceiptRow :=
  receipts.insert (fun i => ⟨⟨i, userId, votedAt⟩, some election⟩) fun _ => rfl

/-- `EXISTS (SELECT 1 FROM vote_receipt WHERE user_id = :user_id)`. -/
def hasReceipt (receipts : Table ReceiptRow) (userId : ℕ) : Bool :=
  receipts.rows.any fun r => r.userId = userId

/-- The receipts from `vote.user_id`, in one statement: the selected rows are those without a
receipt before it. -/
def importVoteUsers (election : ℕ) (s : ScopedDb) : ScopedDb :=
  match s.voteUserId with
  | none => s
  | some column =>
    let selected := s.votes.rows.filterMap fun v =>
      ((column v.id).filter fun u => !hasReceipt s.receipts u).map fun u => (u, v.createdAt)
    { s with receipts := selected.foldl (fun t x => insertReceipt election t x.1 x.2) s.receipts }

/-- The receipts from `user.has_voted`, one statement for each user. -/
def importHasVoted (election : ℕ) (draws : Draws) (s : ScopedDb) : ScopedDb :=
  match s.userHasVoted with
  | none => s
  | some column =>
    let voted := s.users.filter fun u => column u = some true
    let add (t : Table ReceiptRow) (u : ℕ) : Table ReceiptRow :=
      if hasReceipt t u then t else insertReceipt election t u (some (draws.votedAt u))
    { s with receipts := voted.foldl add s.receipts }

/-- The quarantine of open elections, and the deletion of the legacy authorizations. -/
def deleteAuthorizations (L : Lib) (s : ScopedDb) : ScopedDb :=
  let quarantine (e : ElectionRow) : ElectionRow :=
    if L.collateEq e.status (py "open") then { e with blindKeyRecoveryRequired := true } else e
  { s with
    elections :=
      if s.authorizations.rows.isEmpty then s.elections
      else s.elections.map quarantine fun e => by
        show (quarantine e).id = e.id
        unfold quarantine
        split <;> rfl
    authorizations := .empty }

/-! ### Constraints -/

/-- `election_id` is not null and names an election. -/
def inElection (s : ScopedDb) (electionId : Option ℕ) : Bool :=
  electionId.any fun e => (s.elections.get? e).isSome

/-- The constraints that the migration creates, in order. The last tables are new or empty. -/
def constraints (L : Lib) (s : ScopedDb) : List (String × Bool) :=
  [("ck_election_status", s.elections.rows.all fun e =>
      ["draft", "open", "closed"].any fun status => L.collateEq e.status (py status)),
    ("fk_candidate_election", s.candidates.rows.all fun c => inElection s c.electionId),
    ("vote.voter_token", s.votes.rows.all fun v => v.voterToken.isSome),
    ("fk_vote_candidate_election", s.votes.rows.all fun v =>
      v.electionId.isSome && s.candidates.rows.any fun c =>
        c.id = v.candidateId ∧ c.electionId = v.electionId),
    ("fk_vote_election", s.votes.rows.all fun v => inElection s v.electionId),
    ("uq_vote_voter_token", decide (s.votes.rows.map VoteRow.voterToken).Nodup),
    ("uq_vote_receipt_user_election",
      decide (s.receipts.rows.map fun r => (r.userId, r.electionId)).Nodup),
    ("fk_vote_receipt_election", s.receipts.rows.all fun r => inElection s r.electionId)]

/-- The rows after all data statements. -/
def migrate (L : Lib) (db : LegacyDb) (draws : Draws) : ScopedDb :=
  let (election, s) := chooseElection (addColumns db draws) draws
  deleteAuthorizations L (importHasVoted election draws (importVoteUsers election
    (assignElection election s)))

/-- `upgrade`, on a database that has none of the new columns and tables: the migrated database
without the legacy columns, or the constraint that could not be created. -/
def upgrade (L : Lib) (db : LegacyDb) (draws : Draws) : Except String ScopedDb :=
  let s := migrate L db draws
  match (constraints L s).find? fun c => !c.2 with
  | some (name, _) => .error name
  | none => .ok { s with voteUserId := none, userHasVoted := none }

end SecureVote.Migration
