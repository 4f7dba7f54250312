import SecureVote.Text.PyStr
import SecureVote.Txn.System
import SecureVote.Txn.Table
import Mathlib.Data.List.Dedup

/-!
# The database (`app/models.py`)

The rows of the tables that voting, administration and result signing touch, with the declared
unique and foreign-key constraints. A `Db` is a set of tables that satisfies the constraints,
so a state the database would refuse cannot be built: `Db.commit` is the check a flush makes.

Identifiers are auto-increment keys (`Txn.Table`), datetimes are naive UTC instants in
microseconds, and text is `PyStr`. Columns that no modelled function reads or writes (licence
and address data, OTP challenges) are left out.
-/

open Txn

namespace SecureVote

/-- A naive UTC `datetime`, in microseconds since the epoch. -/
abbrev Time := ℤ

/-! ### Rows -/

/-- `Role`. -/
structure Role where
  id : ℕ
  name : PyStr
  deriving DecidableEq, Repr

/-- `Region`. -/
structure Region where
  id : ℕ
  name : PyStr
  deriving DecidableEq, Repr

/-- The values of `User.account_status`. -/
inductive AccountStatus
  | pending
  | approved
  | rejected
  deriving DecidableEq, Repr

/-- `User`. -/
structure User where
  id : ℕ
  username : PyStr
  email : Option PyStr
  passwordHash : PyStr
  roleId : ℕ
  accountStatus : AccountStatus
  emailVerified : Bool
  passwordChangedAt : Option Time
  sessionVersion : ℤ
  failedLoginAttempts : ℤ
  accountLockedUntil : Option Time
  deriving DecidableEq, Repr

/-- The values of `ElectoralRoll.status`. -/
inductive RollStatus
  | pending
  | active
  deriving DecidableEq, Repr

/-- `ElectoralRoll`. -/
structure ElectoralRoll where
  id : ℕ
  rollNumber : PyStr
  regionId : ℕ
  status : RollStatus
  verified : Bool
  userId : Option ℕ
  deriving DecidableEq, Repr

/-- The values of `Election.status` (`ck_election_status`). -/
inductive ElectionStatus
  | draft
  | open
  | closed
  deriving DecidableEq, Repr

/-- `Election`. -/
structure Election where
  id : ℕ
  name : PyStr
  status : ElectionStatus
  openAt : Option Time
  closeAt : Option Time
  blindSigningKeyId : Option PyStr
  blindKeyRecoveryRequired : Bool
  createdBy : Option ℕ
  deriving DecidableEq, Repr

/-- `Candidate`. -/
structure Candidate where
  id : ℕ
  name : PyStr
  party : Option PyStr
  position : PyStr
  regionId : ℕ
  electionId : ℕ
  deriving DecidableEq, Repr

/-- `Vote`, an anonymous ballot. -/
structure Vote where
  id : ℕ
  voterToken : PyStr
  candidateId : ℕ
  electionId : ℕ
  position : PyStr
  voteHash : PyStr
  createdAt : Time
  deriving DecidableEq, Repr

/-- `VoteReceipt`, the identity-side receipt of the direct ballot path. -/
structure VoteReceipt where
  id : ℕ
  userId : ℕ
  electionId : ℕ
  votedAt : Time
  deriving DecidableEq, Repr

/-- `BlindSignatureToken`: one blind signature was issued to this voter. -/
structure BlindSignatureToken where
  id : ℕ
  userId : ℕ
  electionId : ℕ
  deriving DecidableEq, Repr

/-- `SpentBallotNullifier`, the replay guard of anonymous ballots. -/
structure SpentBallotNullifier where
  id : ℕ
  electionId : ℕ
  nullifierHash : PyStr
  spentAt : Time
  deriving DecidableEq, Repr

/-- `ResultSigningPublicKey`, an archived result-signing key by fingerprint. -/
structure ResultSigningPublicKey where
  keyId : PyStr
  algorithm : PyStr
  publicKeyPem : PyStr
  deriving DecidableEq, Repr

/-- `SignedElectionResult`. -/
structure SignedElectionResult where
  id : ℕ
  electionId : ℕ
  payload : PyStr
  signature : PyStr
  signerBackend : PyStr
  signatureAlgorithm : PyStr
  signingKeyId : PyStr
  signingKeyVersion : Option ℤ
  signedAt : Time
  signedBy : Option ℕ
  deriving DecidableEq, Repr

instance : Keyed Role := ⟨Role.id⟩
instance : Keyed Region := ⟨Region.id⟩
instance : Keyed User := ⟨User.id⟩
instance : Keyed ElectoralRoll := ⟨ElectoralRoll.id⟩
instance : Keyed Election := ⟨Election.id⟩
instance : Keyed Candidate := ⟨Candidate.id⟩
instance : Keyed Vote := ⟨Vote.id⟩
instance : Keyed VoteReceipt := ⟨VoteReceipt.id⟩
instance : Keyed BlindSignatureToken := ⟨BlindSignatureToken.id⟩
instance : Keyed SpentBallotNullifier := ⟨SpentBallotNullifier.id⟩
instance : Keyed SignedElectionResult := ⟨SignedElectionResult.id⟩

/-! ### Tables and constraints -/

/-- The contents of the tables. -/
structure Tables where
  roles : Table Role
  regions : Table Region
  users : Table User
  rolls : Table ElectoralRoll
  elections : Table Election
  candidates : Table Candidate
  votes : Table Vote
  receipts : Table VoteReceipt
  tokens : Table BlindSignatureToken
  nullifiers : Table SpentBallotNullifier
  resultKeys : List ResultSigningPublicKey
  results : Table SignedElectionResult

/-- The declared unique constraints (`NULL`s excepted) and foreign keys. -/
structure Constraints (t : Tables) : Prop where
  users_username : (t.users.rows.map User.username).Nodup
  users_email : (t.users.rows.filterMap User.email).Nodup
  users_role : ∀ u ∈ t.users.rows, (t.roles.get? u.roleId).isSome
  rolls_user : (t.rolls.rows.filterMap ElectoralRoll.userId).Nodup
  rolls_region : ∀ r ∈ t.rolls.rows, (t.regions.get? r.regionId).isSome
  candidates_region : ∀ c ∈ t.candidates.rows, (t.regions.get? c.regionId).isSome
  candidates_election : ∀ c ∈ t.candidates.rows, (t.elections.get? c.electionId).isSome
  votes_token : (t.votes.rows.map Vote.voterToken).Nodup
  votes_candidate : ∀ v ∈ t.votes.rows,
    ∃ c ∈ t.candidates.rows, c.id = v.candidateId ∧ c.electionId = v.electionId
  receipts_user_election : (t.receipts.rows.map fun r => (r.userId, r.electionId)).Nodup
  receipts_user : ∀ r ∈ t.receipts.rows, (t.users.get? r.userId).isSome
  receipts_election : ∀ r ∈ t.receipts.rows, (t.elections.get? r.electionId).isSome
  tokens_user_election : (t.tokens.rows.map fun k => (k.userId, k.electionId)).Nodup
  tokens_user : ∀ k ∈ t.tokens.rows, (t.users.get? k.userId).isSome
  tokens_election : ∀ k ∈ t.tokens.rows, (t.elections.get? k.electionId).isSome
  nullifiers_election_hash :
    (t.nullifiers.rows.map fun n => (n.electionId, n.nullifierHash)).Nodup
  nullifiers_election : ∀ n ∈ t.nullifiers.rows, (t.elections.get? n.electionId).isSome
  resultKeys_id : (t.resultKeys.map ResultSigningPublicKey.keyId).Nodup
  results_unique : (t.results.rows.map SignedElectionResult.electionId).Nodup
  results_fk : ∀ r ∈ t.results.rows, (t.elections.get? r.electionId).isSome

instance (t : Tables) : Decidable (Constraints t) :=
  decidable_of_iff
    ((t.users.rows.map User.username).Nodup ∧ (t.users.rows.filterMap User.email).Nodup ∧
      (∀ u ∈ t.users.rows, (t.roles.get? u.roleId).isSome) ∧
      (t.rolls.rows.filterMap ElectoralRoll.userId).Nodup ∧
      (∀ r ∈ t.rolls.rows, (t.regions.get? r.regionId).isSome) ∧
      (∀ c ∈ t.candidates.rows, (t.regions.get? c.regionId).isSome) ∧
      (∀ c ∈ t.candidates.rows, (t.elections.get? c.electionId).isSome) ∧
      (t.votes.rows.map Vote.voterToken).Nodup ∧
      (∀ v ∈ t.votes.rows,
        ∃ c ∈ t.candidates.rows, c.id = v.candidateId ∧ c.electionId = v.electionId) ∧
      (t.receipts.rows.map fun r => (r.userId, r.electionId)).Nodup ∧
      (∀ r ∈ t.receipts.rows, (t.users.get? r.userId).isSome) ∧
      (∀ r ∈ t.receipts.rows, (t.elections.get? r.electionId).isSome) ∧
      (t.tokens.rows.map fun k => (k.userId, k.electionId)).Nodup ∧
      (∀ k ∈ t.tokens.rows, (t.users.get? k.userId).isSome) ∧
      (∀ k ∈ t.tokens.rows, (t.elections.get? k.electionId).isSome) ∧
      (t.nullifiers.rows.map fun n => (n.electionId, n.nullifierHash)).Nodup ∧
      (∀ n ∈ t.nullifiers.rows, (t.elections.get? n.electionId).isSome) ∧
      (t.resultKeys.map ResultSigningPublicKey.keyId).Nodup ∧
      (t.results.rows.map SignedElectionResult.electionId).Nodup ∧
      (∀ r ∈ t.results.rows, (t.elections.get? r.electionId).isSome))
    ⟨fun ⟨h₁, h₂, h₃, h₄, h₅, h₆, h₇, h₈, h₉, h₁₀, h₁₁, h₁₂, h₁₃, h₁₄, h₁₅, h₁₆, h₁₇, h₁₈, h₁₉,
        h₂₀⟩ => ⟨h₁, h₂, h₃, h₄, h₅, h₆, h₇, h₈, h₉, h₁₀, h₁₁, h₁₂, h₁₃, h₁₄, h₁₅, h₁₆, h₁₇, h₁₈,
        h₁₉, h₂₀⟩,
      fun ⟨h₁, h₂, h₃, h₄, h₅, h₆, h₇, h₈, h₉, h₁₀, h₁₁, h₁₂, h₁₃, h₁₄, h₁₅, h₁₆, h₁₇, h₁₈, h₁₉,
        h₂₀⟩ => ⟨h₁, h₂, h₃, h₄, h₅, h₆, h₇, h₈, h₉, h₁₀, h₁₁, h₁₂, h₁₃, h₁₄, h₁₅, h₁₆, h₁₇, h₁₈,
        h₁₉, h₂₀⟩⟩

/-- A database state: tables that satisfy the constraints. -/
structure Db extends Tables where
  ok : Constraints toTables

/-- Commit new table contents, unless a constraint refuses them (`IntegrityError`). -/
def Db.commit (t : Tables) : Option Db :=
  if h : Constraints t then some ⟨t, h⟩ else none

theorem Db.commit_eq_some {t : Tables} {d : Db} : Db.commit t = some d ↔ d.toTables = t := by
  unfold Db.commit
  constructor
  · intro h
    split at h
    · cases h
      rfl
    · cases h
  · rintro rfl
    rw [dif_pos d.ok]

/-- Tables that satisfy the constraints hold the rows of a table that they refer to. -/
theorem Db.exists_candidate (d : Db) {v : Vote} (hv : v ∈ d.votes.rows) :
    ∃ c, d.candidates.get? v.candidateId = some c ∧ c.electionId = v.electionId := by
  obtain ⟨c, hc, hid, he⟩ := d.ok.votes_candidate v hv
  exact ⟨c, Table.get?_eq_some.mpr ⟨hc, hid⟩, he⟩

/-! ### Lockable rows -/

/-- The tables whose rows are locked by some handler. -/
inductive TableName
  | users
  | rolls
  | elections
  | candidates
  | tokens
  deriving DecidableEq, Repr

/-- A lockable row. -/
inductive RowId
  | user (id : ℕ)
  | roll (id : ℕ)
  | election (id : ℕ)
  | candidate (id : ℕ)
  | token (id : ℕ)
  deriving DecidableEq, Repr

/-- The contents of a lockable row. -/
inductive RowVal
  | user (u : User)
  | roll (r : ElectoralRoll)
  | election (e : Election)
  | candidate (c : Candidate)
  | token (k : BlindSignatureToken)
  deriving DecidableEq, Repr

/-- The contents of a row in the tables. -/
def Db.row (d : Db) : RowId → Option RowVal
  | .user i => (d.users.get? i).map .user
  | .roll i => (d.rolls.get? i).map .roll
  | .election i => (d.elections.get? i).map .election
  | .candidate i => (d.candidates.get? i).map .candidate
  | .token i => (d.tokens.get? i).map .token

/-- The table of a row. -/
def RowId.table : RowId → TableName
  | .user _ => .users
  | .roll _ => .rolls
  | .election _ => .elections
  | .candidate _ => .candidates
  | .token _ => .tokens

/-- The rows of a table in primary-key order. -/
def Db.scan (d : Db) : TableName → List RowId
  | .users => d.users.rows.map (.user ·.id)
  | .rolls => d.rolls.rows.map (.roll ·.id)
  | .elections => d.elections.rows.map (.election ·.id)
  | .candidates => d.candidates.rows.map (.candidate ·.id)
  | .tokens => d.tokens.rows.map (.token ·.id)

instance : Store Db RowId TableName RowVal where
  val := Db.row
  table := RowId.table
  rows := Db.scan
  mem_rows := by
    intro d t r
    cases t <;> cases r <;>
      simp [Db.scan, Db.row, RowId.table, Table.get?_isSome, key]

@[simp]
theorem val_user (d : Db) (i : ℕ) :
    Store.val d (RowId.user i) = (d.users.get? i).map RowVal.user := rfl

@[simp]
theorem val_roll (d : Db) (i : ℕ) :
    Store.val d (RowId.roll i) = (d.rolls.get? i).map RowVal.roll := rfl

@[simp]
theorem val_election (d : Db) (i : ℕ) :
    Store.val d (RowId.election i) = (d.elections.get? i).map RowVal.election := rfl

@[simp]
theorem val_candidate (d : Db) (i : ℕ) :
    Store.val d (RowId.candidate i) = (d.candidates.get? i).map RowVal.candidate := rfl

@[simp]
theorem val_token (d : Db) (i : ℕ) :
    Store.val d (RowId.token i) = (d.tokens.get? i).map RowVal.token := rfl

/-! ### Queries the handlers share -/

/-- A nullable column with a unique constraint determines the row. -/
theorem inj_of_nodup_filterMap {α β : Type} {f : α → Option β} {l : List α}
    (h : (l.filterMap f).Nodup) {a a' : α} (ha : a ∈ l) (ha' : a' ∈ l) {b : β}
    (hb : f a = some b) (hb' : f a' = some b) : a = a' := by
  induction l with
  | nil => cases ha
  | cons x xs ih =>
    have hxs : (xs.filterMap f).Nodup :=
      h.sublist (List.Sublist.filterMap f (List.sublist_cons_self x xs))
    have hnot : ∀ y ∈ xs, f y = some b → f x ≠ some b := by
      intro y hy hyb hxb
      rw [List.filterMap_cons_some hxb, List.nodup_cons] at h
      exact h.1 (List.mem_filterMap.mpr ⟨y, hy, hyb⟩)
    rcases List.mem_cons.mp ha with rfl | hm <;> rcases List.mem_cons.mp ha' with rfl | hm'
    · rfl
    · exact absurd hb (hnot a' hm' hb')
    · exact absurd hb' (hnot a hm hb)
    · exact ih hxs hm hm'

/-- `Table.id == i` for a Python integer `i`. -/
def byId {α : Type} [Keyed α] (t : Table α) (i : ℤ) : Option α :=
  if 0 ≤ i then t.get? i.toNat else none

theorem byId_eq_some {α : Type} [Keyed α] {t : Table α} {i : ℤ} {a : α} (h : byId t i = some a) :
    a ∈ t.rows ∧ (key a : ℤ) = i ∧ t.get? (key a) = some a := by
  unfold byId at h
  split at h
  next hi =>
    obtain ⟨ha, hk⟩ := Table.get?_eq_some.mp h
    exact ⟨ha, by omega, Table.get?_key ha⟩
  · cases h

/-- `Candidate.query.filter_by(election_id=i).all()`. -/
def Tables.roster (t : Tables) (i : ℕ) : List Candidate :=
  t.candidates.rows.filter fun c => c.electionId = i

/-- The set of regions of a list of candidates. -/
def regionIds (cs : List Candidate) : List ℕ := (cs.map Candidate.regionId).dedup

/-- The set of positions of a list of candidates. -/
def positions (cs : List Candidate) : List PyStr := (cs.map Candidate.position).dedup

/-- The name of a user's role. -/
def Tables.roleName (t : Tables) (u : User) : Option PyStr := (t.roles.get? u.roleId).map Role.name

/-- The enrolment of a user. -/
def Tables.enrolment (t : Tables) (i : ℕ) : Option ElectoralRoll :=
  t.rolls.rows.find? fun r => r.userId = some i

/-- The blind-signature token of a user in an election. -/
def Tables.token (t : Tables) (u e : ℕ) : Option BlindSignatureToken :=
  t.tokens.rows.find? fun k => k.userId = u ∧ k.electionId = e

/-- The direct-vote receipt of a user in an election. -/
def Tables.receipt (t : Tables) (u e : ℕ) : Option VoteReceipt :=
  t.receipts.rows.find? fun r => r.userId = u ∧ r.electionId = e

theorem mem_roster {t : Tables} {i : ℕ} {c : Candidate} :
    c ∈ t.roster i ↔ c ∈ t.candidates.rows ∧ c.electionId = i := by
  simp [Tables.roster]

/-- A user has one enrolment. -/
theorem Db.enrolment_eq_some (d : Db) {r : ElectoralRoll} (hr : r ∈ d.rolls.rows) {i : ℕ}
    (hi : r.userId = some i) : d.enrolment i = some r := by
  rcases h : d.enrolment i with _ | r'
  · have := List.find?_eq_none.mp h r hr
    simp [hi] at this
  · have hmem := List.mem_of_find?_eq_some h
    have hi' : r'.userId = some i := by simpa using List.find?_some h
    rw [inj_of_nodup_filterMap d.ok.rolls_user hmem hr hi' hi]

/-- `has_role(name)` for a user whose role has this name. -/
def hasRole (role : Option PyStr) (name : String) : Bool := role = some (Py.py name)

end SecureVote
