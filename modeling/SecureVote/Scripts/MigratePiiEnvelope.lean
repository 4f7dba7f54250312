import SecureVote.Security.Encryption
import SecureVote.Security.LicenceHash
import SecureVote.Txn.Loops
import SecureVote.Txn.Table

/-!
# The envelope migration (`scripts/migrate_pii_envelope.py`)

`migrate` on the tables of a database: the preflight of key and capacities, the loops over tables,
rows and fields with their row-by-row updates, and the transaction around them. A listed column is
a `VARCHAR` or `TEXT`; every other cell is kept as the text of its value.
-/

open Txn

namespace SecureVote.PiiMigration

open Py Encryption

/-! ### Databases -/

/-- A column, as the inspector reflects it. -/
structure Column where
  name : PyStr
  isText : Bool
  length : Option ℕ
  nullable : Bool
  unique : Bool

/-- A row: its primary key, and by column NULL or the text of the value. -/
structure Row where
  id : ℕ
  cells : PyStr → Option PyStr

instance : Keyed Row := ⟨Row.id⟩

/-- A table with the columns that are reflected. -/
structure PiiTable where
  columns : List Column
  data : Table Row

/-- The tables by name. -/
abbrev Database := PyStr → Option PiiTable

/-- The reflected column of a name. -/
def PiiTable.column (t : PiiTable) (name : PyStr) : Option Column :=
  t.columns.find? fun c => c.name = name

/-- What an `UPDATE` assigns, in the order of the dictionary. -/
abbrev Assignments := List (PyStr × Option PyStr)

/-- The row after an `UPDATE`. -/
def Row.assign (r : Row) (as : Assignments) : Row :=
  { r with cells := assignAll r.cells as }

/-- The column takes the value beside the other rows: `NOT NULL` and `UNIQUE`. -/
def Column.accepts (c : Column) (others : List Row) : Option PyStr → Bool
  | none => c.nullable
  | some v => !c.unique || others.all fun r => r.cells c.name ≠ some v

/-- Every assigned column takes its new value. -/
def PiiTable.acceptsUpdate (t : PiiTable) (id : ℕ) (as : Assignments) : Bool :=
  as.all fun a => t.columns.all fun c =>
    c.name ≠ a.1 || c.accepts (t.data.rows.filter fun r => r.id ≠ id) a.2

/-- `UPDATE … SET … WHERE id = …`; `none` is `IntegrityError`. -/
def PiiTable.update (t : PiiTable) (id : ℕ) (as : Assignments) : Option PiiTable :=
  if t.acceptsUpdate id as then
    some { t with data := t.data.update id (Row.assign · as) fun _ => rfl }
  else none

/-! ### The constants of the script -/

/-- `FIELDS` -/
def FIELDS : List (PyStr × List PyStr) :=
  [(py "user", [py "driver_lic_no"]),
    (py "electoral_roll", [py "driver_license_number", py "full_name", py "address_line1",
      py "address_line2", py "suburb", py "state", py "postcode"])]

/-- `LICENCE_HASH_COLUMNS` -/
def LICENCE_HASH_COLUMNS (table field : PyStr) : Option PyStr :=
  if table = py "user" ∧ field = py "driver_lic_no" then some (py "driver_lic_hash")
  else if table = py "electoral_roll" ∧ field = py "driver_license_number" then
    some (py "driver_license_hash")
  else none

def ENCRYPTED_LICENCE_COLUMN_LENGTH : ℕ := 255

def ENCRYPTED_LONG_PII_COLUMN_LENGTH : ℕ := 1536

def ENCRYPTED_SHORT_PII_COLUMN_LENGTH : ℕ := 512

/-- `MIN_ENCRYPTED_COLUMN_LENGTHS` -/
def MIN_ENCRYPTED_COLUMN_LENGTHS : List ((PyStr × PyStr) × ℕ) :=
  [((py "user", py "driver_lic_no"), ENCRYPTED_LICENCE_COLUMN_LENGTH),
    ((py "electoral_roll", py "driver_license_number"), ENCRYPTED_LICENCE_COLUMN_LENGTH),
    ((py "electoral_roll", py "full_name"), ENCRYPTED_LONG_PII_COLUMN_LENGTH),
    ((py "electoral_roll", py "address_line1"), ENCRYPTED_LONG_PII_COLUMN_LENGTH),
    ((py "electoral_roll", py "address_line2"), ENCRYPTED_LONG_PII_COLUMN_LENGTH),
    ((py "electoral_roll", py "suburb"), ENCRYPTED_LONG_PII_COLUMN_LENGTH),
    ((py "electoral_roll", py "state"), ENCRYPTED_SHORT_PII_COLUMN_LENGTH),
    ((py "electoral_roll", py "postcode"), ENCRYPTED_SHORT_PII_COLUMN_LENGTH)]

/-- `--source` -/
inductive Source
  | legacyChacha
  | legacyFernet
  | markedPlaintext
  deriving DecidableEq, Repr

/-- What the script reads of its process. `fernet` is the constructor `Fernet` with the method
`decrypt`: the outer `none` is `ValueError`, the inner one `InvalidToken`. -/
structure Env where
  service : ChaChaEncryptionService
  licence : LicenceConfig
  oldFernetKey : Option PyStr
  fernet : List UInt8 → Option (List UInt8 → Option (List UInt8))

/-- The octets of `os.urandom`, by the cell that is converted. -/
structure Draws where
  nonce : PyStr → ℕ → PyStr → List UInt8
  length_nonce : ∀ table id field, (nonce table id field).length = nonceBytes

/-! ### Errors -/

/-- A column that cannot hold envelopes. -/
inductive CapacityFailure
  | notText (table field : PyStr)
  | tooSmall (table field : PyStr) (reflected required : ℕ)
  deriving DecidableEq, Repr

/-- Why a value was rejected. -/
inductive Cause
  | convert (e : PiiError)
  | capacity (length capacity : ℕ)
  deriving DecidableEq, Repr

/-- What `migrate` raises: the preflight, a missing or invalid key, a rejected value, an exception
while a licence is hashed, or an `UPDATE` that the database refuses. -/
inductive MigrateError
  | refused (failures : List CapacityFailure)
  | fernetKeyMissing
  | fernetKeyInvalid
  | rejected (table field : PyStr) (id : ℕ) (cause : Cause)
  | unreadable (e : PiiError)
  | hash (e : LicenceError)
  | integrity (table : PyStr) (id : ℕ)
  deriving DecidableEq, Repr

/-! ### The script -/

/-- `_legacy_fernet` -/
def legacyFernet (E : Env) (source : Source) :
    Except MigrateError (Option (List UInt8 → Option (List UInt8))) :=
  if source ≠ .legacyFernet then .ok none
  else
    match E.oldFernetKey with
    | none | some [] => .error .fernetKeyMissing
    | some key =>
        if key.all (· < 0x80) then
          match E.fernet (asciiBytes key) with
          | some decrypt => .ok (some decrypt)
          | none => .error .fernetKeyInvalid
        else .error .fernetKeyInvalid

/-- The text of a Fernet token, or `none` when `decrypt` or a codec raises. -/
def fernetText (decrypt : List UInt8 → Option (List UInt8)) (value : PyStr) : Option PyStr :=
  if value.all (· < 0x80) then (decrypt (asciiBytes value)).bind decodeUtf8 else none

/-- `_convert`, with the nonce it draws. -/
def convert (service : ChaChaEncryptionService) (nonce : List UInt8) (value : PyStr)
    (source : Source) (fernet : Option (List UInt8 → Option (List UInt8))) :
    Except PiiError (PyStr × Bool) :=
  if envelopePrefix.isPrefixOf value then
    match service.decrypt value with
    | .ok _ => .ok (value, false)
    | .error e => .error e
  else
    match source with
    | .legacyChacha => (service.migrateLegacyCiphertext nonce value).map (·, true)
    | .legacyFernet =>
        match fernet with
        | none => .error (.runtime (py "A validated Fernet key is required"))
        | some decrypt =>
            match fernetText decrypt value with
            | none => .error (.runtime (py "Legacy Fernet ciphertext failed decryption"))
            | some plaintext => (service.encrypt nonce plaintext).map (·, true)
    | .markedPlaintext => (service.migrateLegacyPlaintext nonce value).map (·, true)

/-- The failure of one column, if it has one. -/
def capacityFailure (db : Database) (m : (PyStr × PyStr) × ℕ) : Option CapacityFailure :=
  match (db m.1.1).bind (·.column m.1.2) with
  | none => none
  | some c =>
      if !c.isText then some (.notText m.1.1 m.1.2)
      else
        match c.length with
        | none => none
        | some n => if n < m.2 then some (.tooSmall m.1.1 m.1.2 n m.2) else none

/-- `_validate_encrypted_column_capacity`; what it returns is the reflected capacity of a field. -/
def validateEncryptedColumnCapacity (db : Database) :
    Except MigrateError (PyStr → PyStr → Option ℕ) :=
  match MIN_ENCRYPTED_COLUMN_LENGTHS.filterMap (capacityFailure db) with
  | [] => .ok fun table field => ((db table).bind (·.column field)).bind (·.length)
  | failures => .error (.refused failures)

/-- A value that is replaced: its field, the envelope, and the hash column with its new value. -/
structure FieldUpdate where
  field : PyStr
  migrated : PyStr
  hash : Option (PyStr × Option PyStr)

/-- The assignments of one replaced value. -/
def FieldUpdate.assignments (u : FieldUpdate) : Assignments :=
  (u.field, some u.migrated) :: u.hash.toList

/-- What stays the same while the script runs. -/
structure Run where
  env : Env
  source : Source
  apply : Bool
  fernet : Option (List UInt8 → Option (List UInt8))
  capacities : PyStr → PyStr → Option ℕ
  draws : Draws

/-- The hash assignment of a replaced licence. -/
def Run.hashUpdate (R : Run) (columns : List PyStr) (table field migrated : PyStr) :
    Except MigrateError (Option (PyStr × Option PyStr)) :=
  match LICENCE_HASH_COLUMNS table field with
  | none => .ok none
  | some column =>
      if column ∈ columns then
        match R.env.service.decrypt migrated with
        | .error e => .error (.unreadable e)
        | .ok text =>
            match R.env.licence.hashLic (some text) with
            | .error e => .error (.hash e)
            | .ok hash => .ok (some (column, hash))
      else .ok none

/-- The body of the loop over the fields of a row; `none` when the value stays. -/
def Run.convertField (R : Run) (columns : List PyStr) (table : PyStr) (row : Row) (field : PyStr) :
    Except MigrateError (Option FieldUpdate) :=
  match row.cells field with
  | none => .ok none
  | some value =>
      match convert R.env.service (R.draws.nonce table row.id field) value R.source R.fernet with
      | .error e => .error (.rejected table field row.id (.convert e))
      | .ok (migrated, changed) =>
          match (R.capacities table field).filter (· < migrated.length) with
          | some capacity =>
              .error (.rejected table field row.id (.capacity migrated.length capacity))
          | none =>
              if changed then
                (R.hashUpdate columns table field migrated).map fun hash =>
                  some ⟨field, migrated, hash⟩
              else .ok none

/-- The values of a row that are replaced, in the order of its fields. -/
def Run.convertRow (R : Run) (columns : List PyStr) (table : PyStr) (fields : List PyStr)
    (row : Row) : Except MigrateError (List FieldUpdate) :=
  (fields.mapM (R.convertField columns table row)).map List.reduceOption

/-- The `UPDATE` of one row, which the dry run leaves out. -/
def Run.execute (R : Run) (table : PyStr) (t : PiiTable) (id : ℕ) (updates : List FieldUpdate) :
    Except MigrateError PiiTable :=
  if updates ≠ [] ∧ R.apply = true then
    match t.update id (updates.flatMap FieldUpdate.assignments) with
    | some t' => .ok t'
    | none => .error (.integrity table id)
  else .ok t

/-- The body of the loop over the rows that were selected. -/
def Run.migrateRow (R : Run) (columns : List PyStr) (table : PyStr) (fields : List PyStr)
    (s : PiiTable × ℕ) (row : Row) : Except MigrateError (PiiTable × ℕ) := do
  let updates ← R.convertRow columns table fields row
  let t ← R.execute table s.1 row.id updates
  pure (t, s.2 + updates.length)

/-- The names of the columns. -/
def PiiTable.names (t : PiiTable) : List PyStr := t.columns.map Column.name

/-- The listed fields that the table has. -/
def PiiTable.fields (t : PiiTable) (expected : List PyStr) : List PyStr :=
  expected.filter (· ∈ t.names)

/-- The body of the loop over the tables. -/
def Run.migrateTable (R : Run) (s : Database × ℕ) (f : PyStr × List PyStr) :
    Except MigrateError (Database × ℕ) :=
  match s.1 f.1 with
  | none => .ok s
  | some t =>
      if t.fields f.2 = [] then .ok s
      else do
        let (t', converted) ←
          t.data.rows.foldlM (R.migrateRow t.names f.1 (t.fields f.2)) (t, s.2)
        pure (Function.update s.1 f.1 (some t'), converted)

/-- `with engine.begin()`: what the body did is committed when it returns, and rolled back when it
raises. -/
def transaction {S A : Type} (body : S → Except MigrateError (S × A)) (db : S) :
    S × Except MigrateError A :=
  match body db with
  | .ok (db', a) => (db', .ok a)
  | .error e => (db, .error e)

/-- `migrate` -/
def migrate (E : Env) (draws : Draws) (source : Source) (apply : Bool) (db : Database) :
    Database × Except MigrateError ℕ :=
  match validateEncryptedColumnCapacity db with
  | .error e => (db, .error e)
  | .ok capacities =>
      match legacyFernet E source with
      | .error e => (db, .error e)
      | .ok fernet =>
          transaction
            (fun db => FIELDS.foldlM (Run.migrateTable ⟨E, source, apply, fernet, capacities, draws⟩)
              (db, 0)) db

end SecureVote.PiiMigration
