import SecureVote.Machine
import SecureVote.Txn.Lift
import SecureVote.Txn.Transaction

/-!
# The authentication store (`OtpChallenge` in `app/models.py`)

Sign-in works on the database of the other handlers and on the table of one-time-password
challenges. The table is a list of rows with the declared constraints: distinct ids, one challenge
for each user and purpose, and at most five failed attempts. Requests that know nothing of it run
on their part of the store (`baseStore`).
-/

open Txn

namespace SecureVote

/-! ### Challenges -/

/-- `OtpChallenge`. -/
structure OtpChallenge where
  id : PyStr
  userId : ℕ
  purpose : PyStr
  codeDigest : PyStr
  expiresAt : Time
  failedAttempts : ℕ
  consumedAt : Option Time
  createdAt : Time
  deriving DecidableEq, Repr

/-- `MAX_FAILED_ATTEMPTS`. -/
def maxFailedAttempts : ℕ := 5

/-- The table `otp_challenge` with its constraints. -/
structure OtpTable where
  rows : List OtpChallenge
  primaryKey : (rows.map OtpChallenge.id).Nodup
  uq_user_purpose : (rows.map fun c => (c.userId, c.purpose)).Nodup
  ck_failed_attempts : ∀ c ∈ rows, c.failedAttempts ≤ maxFailedAttempts
  deriving DecidableEq

namespace OtpTable

/-- New contents of the table, unless a constraint refuses them. -/
def ofRows (rows : List OtpChallenge) : Option OtpTable :=
  if h : (rows.map OtpChallenge.id).Nodup ∧ (rows.map fun c => (c.userId, c.purpose)).Nodup ∧
      ∀ c ∈ rows, c.failedAttempts ≤ maxFailedAttempts then
    some ⟨rows, h.1, h.2.1, h.2.2⟩
  else none

theorem ofRows_eq_some {rows : List OtpChallenge} {t : OtpTable} (h : ofRows rows = some t) :
    t.rows = rows := by
  unfold ofRows at h
  split at h
  · cases h
    rfl
  · cases h

/-- No challenges. -/
def empty : OtpTable := ⟨[], List.nodup_nil, List.nodup_nil, by simp⟩

/-- The row with a given id. -/
def get? (t : OtpTable) (id : PyStr) : Option OtpChallenge := t.rows.find? fun c => c.id = id

/-- `filter_by(user_id=..., purpose=...).first()`. -/
def ofUser (t : OtpTable) (userId : ℕ) (purpose : PyStr) : Option OtpChallenge :=
  t.rows.find? fun c => c.userId = userId ∧ c.purpose = purpose

/-- `filter_by(id=..., user_id=..., purpose=...).first()`. -/
def challenge (t : OtpTable) (id : PyStr) (userId : ℕ) (purpose : PyStr) : Option OtpChallenge :=
  t.rows.find? fun c => c.id = id ∧ c.userId = userId ∧ c.purpose = purpose

theorem eq_of_id {t : OtpTable} {c c' : OtpChallenge} (hc : c ∈ t.rows) (hc' : c' ∈ t.rows)
    (h : c.id = c'.id) : c = c' :=
  List.inj_on_of_nodup_map t.primaryKey hc hc' h

theorem eq_of_user {t : OtpTable} {c c' : OtpChallenge} (hc : c ∈ t.rows) (hc' : c' ∈ t.rows)
    (hu : c.userId = c'.userId) (hp : c.purpose = c'.purpose) : c = c' :=
  List.inj_on_of_nodup_map t.uq_user_purpose hc hc' (by rw [hu, hp])

theorem get?_eq_some {t : OtpTable} {id : PyStr} {c : OtpChallenge} :
    t.get? id = some c ↔ c ∈ t.rows ∧ c.id = id := by
  constructor
  · intro h
    exact ⟨List.mem_of_find?_eq_some h, by simpa using List.find?_some h⟩
  · rintro ⟨hc, rfl⟩
    cases h : t.get? c.id with
    | none =>
      have hne := List.find?_eq_none.mp h c hc
      simp at hne
    | some c' =>
      have hmem : c' ∈ t.rows := List.mem_of_find?_eq_some h
      have hid : c'.id = c.id := by simpa using List.find?_some h
      rw [eq_of_id hmem hc hid]

theorem ofUser_eq_some {t : OtpTable} {userId : ℕ} {purpose : PyStr} {c : OtpChallenge}
    (h : t.ofUser userId purpose = some c) :
    c ∈ t.rows ∧ c.userId = userId ∧ c.purpose = purpose :=
  ⟨List.mem_of_find?_eq_some h, by simpa using List.find?_some h⟩

theorem ofUser_of_mem {t : OtpTable} {c : OtpChallenge} (hc : c ∈ t.rows) :
    t.ofUser c.userId c.purpose = some c := by
  cases h : t.ofUser c.userId c.purpose with
  | none =>
    have hne := List.find?_eq_none.mp h c hc
    simp at hne
  | some c' =>
    obtain ⟨hmem, hu, hp⟩ := ofUser_eq_some h
    rw [eq_of_user hmem hc hu hp]

theorem challenge_eq_some {t : OtpTable} {id purpose : PyStr} {userId : ℕ} {c : OtpChallenge}
    (h : t.challenge id userId purpose = some c) :
    c ∈ t.rows ∧ c.id = id ∧ c.userId = userId ∧ c.purpose = purpose :=
  ⟨List.mem_of_find?_eq_some h, by simpa using List.find?_some h⟩

end OtpTable

/-! ### The store -/

/-- The database of all handlers, with the challenges. -/
structure AuthDb where
  base : Db
  otps : OtpTable

/-- A lockable row. -/
inductive AuthRow
  | base (r : RowId)
  | otp (id : PyStr)
  deriving DecidableEq, Repr

/-- The contents of a lockable row. -/
inductive AuthVal
  | base (v : RowVal)
  | otp (c : OtpChallenge)
  deriving DecidableEq, Repr

/-- A table whose rows are locked. -/
inductive AuthTable
  | base (t : TableName)
  | otps
  deriving DecidableEq, Repr

/-- The contents of a row. -/
def AuthDb.row (d : AuthDb) : AuthRow → Option AuthVal
  | .base r => (Store.val d.base r).map .base
  | .otp id => (d.otps.get? id).map .otp

/-- The rows of a table. -/
def AuthDb.scan (d : AuthDb) : AuthTable → List AuthRow
  | .base t => (Store.rows d.base t).map .base
  | .otps => d.otps.rows.map fun c => .otp c.id

/-- The table of a row. -/
def AuthRow.table : AuthRow → AuthTable
  | .base r => .base (Store.table Db r)
  | .otp _ => .otps

instance : Store AuthDb AuthRow AuthTable AuthVal where
  val := AuthDb.row
  table := AuthRow.table
  rows := AuthDb.scan
  mem_rows := by
    intro d t r
    cases t with
    | base t =>
      cases r with
      | base r => simp [AuthDb.scan, AuthDb.row, AuthRow.table, Store.mem_rows]
      | otp id => simp [AuthDb.scan, AuthRow.table]
    | otps =>
      cases r with
      | base r => simp [AuthDb.scan, AuthRow.table]
      | otp id =>
        have hget : (d.otps.get? id).isSome ↔ ∃ c ∈ d.otps.rows, c.id = id := by
          rw [Option.isSome_iff_exists]
          exact exists_congr fun c => OtpTable.get?_eq_some
        simp [AuthDb.scan, AuthDb.row, AuthRow.table, hget]

@[simp]
theorem val_base (d : AuthDb) (r : RowId) :
    Store.val d (AuthRow.base r) = (Store.val d.base r).map AuthVal.base := rfl

@[simp]
theorem val_otp (d : AuthDb) (id : PyStr) :
    Store.val d (AuthRow.otp id) = (d.otps.get? id).map AuthVal.otp := rfl

/-! ### Libraries, calls and events -/

/-- The library functions of the handlers, with the digests of one-time passwords. -/
structure AuthLib extends Lib where
  /-- `hmac.new(SECRET_KEY, message, sha256).hexdigest()`. -/
  hmacHex : Bytes → PyStr

/-- A call out of the database. -/
inductive AuthQuery
  | base (q : Query)
  /-- Six times `secrets.choice(string.digits)`. -/
  | randomCode
  /-- `mail.send` of a code; `false` when it raises. -/
  | sendMail (email : Option PyStr) (code : PyStr)
  deriving DecidableEq, Repr

/-- What a call returns. -/
def AuthQuery.Answer : AuthQuery → Type
  | .base q => q.Answer
  | .randomCode => PyStr
  | .sendMail _ _ => Bool

/-- The results of `verify_otp_challenge`. -/
inductive OtpResult
  | missing
  | expired
  | locked
  | invalid
  | valid
  deriving DecidableEq, Repr

/-- What sign-in leaves outside the database. -/
inductive AuthEvent
  | base (e : Event)
  /-- `check_password` has succeeded on a row of this user with this session version. -/
  | passwordChecked (userId : ℕ) (sessionVersion : ℤ)
  /-- `verify_otp_challenge` has returned. -/
  | otpVerified (challengeId : PyStr) (userId : ℕ) (purpose code : PyStr) (result : OtpResult)
  /-- `_complete_login` has issued a session token. -/
  | loginCompleted (userId : ℕ) (sessionVersion : ℤ) (token : PyStr)
  deriving DecidableEq, Repr

/-- A program of a sign-in handler. -/
abbrev AuthHandler (α : Type) : Type 1 :=
  Prog AuthDb AuthRow AuthTable Bind AuthEvent AuthQuery AuthQuery.Answer α

/-- The part of the store that the other handlers work on. -/
def baseStore : Embedding Db RowId TableName Event Query Query.Answer
    AuthDb AuthRow AuthTable AuthEvent AuthQuery AuthQuery.Answer where
  get := AuthDb.base
  set d b := { d with base := b }
  row := .base
  row?
    | .base r => some r
    | .otp _ => none
  table := .base
  table?
    | .base t => some t
    | .otps => none
  event := .base
  query := .base
  answer _ a := a
  get_set _ _ := rfl
  row_inv r r' := by cases r' <;> simp [eq_comm]
  table_inv t t' := by cases t' <;> simp [eq_comm]

theorem baseStore_holds : baseStore.Holds where
  val d r := by simp [baseStore]
  rows _ _ := rfl

/-- A program of the other handlers, as a sign-in program. -/
def Handler.lift {α : Type} (p : Handler α) : AuthHandler α := Prog.lift baseStore p

end SecureVote
