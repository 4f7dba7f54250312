import SecureVote.Orm.Attribute
import SecureVote.Orm.UnitOfWork
import SecureVote.Scripts.MigratePiiEnvelope
import SecureVote.Security.LicenceHash
import SecureVote.Txn.Table

/-!
# Licences in a session

`User` and `ElectoralRoll` of `models.py` as far as their licence and its blind index go: the two
columns of each, the listeners `before_insert` and `before_update`, and the session that loads,
changes and flushes the objects. Of the other columns only this is kept: an object with a change in
one of them is written, and its listener is called.

One session is open at a time. It is the reader and the writer of all rows while it is open, and
`Step` has its operations in any order.
-/

open Txn

namespace SecureVote

open Py Orm Encryption
open PiiMigration (ENCRYPTED_LICENCE_COLUMN_LENGTH)

/-! ### Rows -/

/-- The classes with a licence. -/
inductive LicenceModel
  | user
  | electoralRoll
  deriving DecidableEq, Repr

/-- A row: `driver_lic_no` and `driver_lic_hash` of a user, `driver_license_number` and
`driver_license_hash` of an enrolment. -/
structure LicenceRow where
  id : ℕ
  licence : PyStr
  hash : PyStr
  deriving DecidableEq, Repr

instance : Keyed LicenceRow := ⟨LicenceRow.id⟩

/-- The two tables. The hash columns are `UNIQUE`. -/
structure LicenceDb where
  table : LicenceModel → Table LicenceRow
  unique : ∀ m, ((table m).rows.map LicenceRow.hash).Nodup

/-- No rows. -/
def LicenceDb.empty : LicenceDb := ⟨fun _ => Table.empty, fun _ => List.nodup_nil⟩

/-- New contents of a table, unless two rows have one hash (`IntegrityError`). -/
def LicenceDb.setTable (d : LicenceDb) (m : LicenceModel) (t : Table LicenceRow) :
    Option LicenceDb :=
  if h : (t.rows.map LicenceRow.hash).Nodup then
    some ⟨fun n => if n = m then t else d.table n, fun n => by
      split
      · exact h
      · exact d.unique n⟩
  else none

/-- What a session raises. -/
inductive SessionError
  | listener (e : LicenceError)
  | pii (e : PiiError)
  | integrity
  | objectDeleted
  deriving DecidableEq, Repr

/-! ### Objects -/

/-- An object: its primary key once it has a row, the two attributes, and whether it has been
modified since the last flush. -/
structure LicenceObject where
  model : LicenceModel
  key : Option ℕ
  licence : Attr PyStr
  hash : Attr PyStr
  modified : Bool
  deriving DecidableEq, Repr

/-- The nonce of an encryption. -/
abbrev Nonce := { nonce : List UInt8 // nonce.length = nonceBytes }

variable (C : LicenceConfig) (service : ChaChaEncryptionService)

namespace LicenceObject

/-- An object that the constructor has made, with or without the two attributes. -/
def make (model : LicenceModel) (licence hash : Option PyStr) : LicenceObject :=
  ⟨model, none, licence.elim .unloaded fun a => Attr.unloaded.set a,
    hash.elim .unloaded fun a => Attr.unloaded.set a, true⟩

/-- Assign the licence. -/
def setLicence (x : LicenceObject) (licence : PyStr) : LicenceObject :=
  { x with licence := x.licence.set licence, modified := true }

/-- Assign another column. -/
def setOther (x : LicenceObject) : LicenceObject := { x with modified := true }

/-- `Session.expire(x)`; without a row it raises. -/
def expire (x : LicenceObject) : LicenceObject :=
  if x.key.isSome then { x with licence := .unloaded, hash := .unloaded, modified := false } else x

/-- `Session.expire(x, [...])` for the licence, the hash, or both. -/
def expireAttributes (x : LicenceObject) (licence hash : Bool) : LicenceObject :=
  if x.key.isSome then
    { x with
      licence := if licence then .unloaded else x.licence
      hash := if hash then .unloaded else x.hash }
  else x

/-- Load the licence from a row, unless there is a value in memory. -/
def loadLicence (row : LicenceRow) : Attr PyStr → Except SessionError (Attr PyStr)
  | .unloaded =>
    match service.decrypt row.licence with
    | .error e => .error (.pii e)
    | .ok text => .ok (.loaded text)
  | x => .ok x

/-- Load what is not in memory. -/
def load (d : LicenceDb) (x : LicenceObject) : Except SessionError LicenceObject :=
  match x.key with
  | none => .ok x
  | some k =>
    match (d.table x.model).get? k with
    | none => .error .objectDeleted
    | some row =>
      match loadLicence service row x.licence with
      | .error e => .error e
      | .ok licence => .ok { x with licence := licence, hash := x.hash.load row.hash }

/-- `getattr(target, ..., None)`: the attribute `f` is loaded when it is not in memory. -/
def getAttr (f : LicenceObject → Attr PyStr) (d : LicenceDb) (x : LicenceObject) :
    Except SessionError (LicenceObject × Option PyStr) :=
  match (f x).value? with
  | some a => .ok (x, some a)
  | none =>
    match x.load service d with
    | .error e => .error e
    | .ok x' => .ok (x', (f x').value?)

/-- `_hash_lic` in a listener. -/
def hashOrRaise (lic : Option PyStr) : Except SessionError (Option PyStr) :=
  match C.hashLic lic with
  | .error e => .error (.listener e)
  | .ok h => .ok h

/-- `target.hash = computed or target.hash`. A digest is not empty, and the hash of an object
without a row stays unset when there is none. -/
def assignHash (d : LicenceDb) (x : LicenceObject) :
    Option PyStr → Except SessionError LicenceObject
  | some h => .ok { x with hash := x.hash.set h }
  | none => do
    let (x, h) ← x.getAttr service hash d
    pure (h.elim x fun h => { x with hash := x.hash.set h })

/-- `target.hash = _hash_lic(getattr(target, licence, None)) or target.hash`: the body of three of
the listeners. -/
def setLicHash (d : LicenceDb) (x : LicenceObject) : Except SessionError LicenceObject := do
  let (x, lic) ← x.getAttr service licence d
  let h ← hashOrRaise C lic
  x.assignHash service d h

/-- `_user_set_lic_hash_before_insert` -/
def userSetLicHashBeforeInsert := setLicHash C service

/-- `_roll_set_lic_hash_before_insert` -/
def rollSetLicHashBeforeInsert := setLicHash C service

/-- `_roll_set_lic_hash_before_update` -/
def rollSetLicHashBeforeUpdate := setLicHash C service

/-- `_user_set_lic_hash_before_update` -/
def userSetLicHashBeforeUpdate (d : LicenceDb) (x : LicenceObject) :
    Except SessionError LicenceObject :=
  let history := x.licence.history
  if history.hasChanges = false then .ok x
  else do
    let (x, current) ← match history.added with
      | a :: _ => .ok (x, some a)
      | [] => x.getAttr service licence d
    let previous := history.deleted.head?
    if previous.isSome ∧ C.normalizeLic previous = C.normalizeLic current then pure x
    else do
      let h ← hashOrRaise C current
      x.assignHash service d h

/-- The listener of a flush. -/
def listen (d : LicenceDb) (x : LicenceObject) : Except SessionError LicenceObject :=
  match x.model, x.key with
  | .user, none => userSetLicHashBeforeInsert C service d x
  | .user, some _ => userSetLicHashBeforeUpdate C service d x
  | .electoralRoll, none => rollSetLicHashBeforeInsert C service d x
  | .electoralRoll, some _ => rollSetLicHashBeforeUpdate C service d x

/-- An object is written when it has no row yet, or has been modified. -/
def dirty (x : LicenceObject) : Bool := x.key.isNone || x.modified

/-- The object after its statement. -/
def settle (x : LicenceObject) (key : ℕ) : LicenceObject :=
  ⟨x.model, some key, x.licence.settle, x.hash.settle, false⟩

/-- `EncryptedType.process_bind_param` of a licence column. -/
def bindLicence (nonce : Nonce) (licence : Option PyStr) : Except SessionError (Option PyStr) :=
  match service.processBindParam (some ENCRYPTED_LICENCE_COLUMN_LENGTH) nonce.1 licence with
  | .error e => .error (.pii e)
  | .ok v => .ok v

/-- The columns of an `UPDATE`: the ones that have changed. -/
def updateRow (encrypted hash : Option PyStr) (row : LicenceRow) : LicenceRow :=
  { row with licence := encrypted.getD row.licence, hash := hash.getD row.hash }

/-- The `UPDATE` of the row with key `k`. -/
def update (nonce : Nonce) (d : LicenceDb) (x : LicenceObject) (k : ℕ) :
    Except SessionError (LicenceDb × LicenceObject) :=
  if ((d.table x.model).get? k).isNone then .error .objectDeleted
  else
    match bindLicence service nonce x.licence.changed with
    | .error e => .error e
    | .ok encrypted =>
      match d.setTable x.model
          ((d.table x.model).update k (updateRow encrypted x.hash.changed) fun _ => rfl) with
      | none => .error .integrity
      | some d' => .ok (d', x.settle k)

/-- The `INSERT` of a new row. Both columns are `NOT NULL`. -/
def insert (nonce : Nonce) (d : LicenceDb) (x : LicenceObject) :
    Except SessionError (LicenceDb × LicenceObject) :=
  match bindLicence service nonce x.licence.value? with
  | .error e => .error e
  | .ok encrypted =>
    match encrypted, x.hash.value? with
    | some encrypted, some hash =>
      match d.setTable x.model
          ((d.table x.model).insert (fun i => ⟨i, encrypted, hash⟩) fun _ => rfl) with
      | none => .error .integrity
      | some d' => .ok (d', x.settle (d.table x.model).next)
    | _, _ => .error .integrity

/-- The statement of a flush. -/
def write (nonce : Nonce) (d : LicenceDb) (x : LicenceObject) :
    Except SessionError (LicenceDb × LicenceObject) :=
  match x.key with
  | some k => x.update service nonce d k
  | none => x.insert service nonce d

/-- How a session writes its objects. -/
def mapper : Mapper LicenceDb LicenceObject Nonce SessionError where
  dirty := dirty
  listen := listen C service
  write := write service

end LicenceObject

/-! ### The session -/

/-- A session: the database as its transaction sees it, as it was at the last commit, and the
objects. -/
structure LicenceSession where
  db : LicenceDb
  saved : LicenceDb
  objects : List LicenceObject

namespace LicenceSession

/-- A session that has just been opened. -/
def start (d : LicenceDb) : LicenceSession := ⟨d, d, []⟩

/-- `Session.flush` -/
def flush (draw : ℕ → Nonce) (s : LicenceSession) : Except SessionError LicenceSession := do
  let (db, objects) ← (LicenceObject.mapper C service).flush draw s.db s.objects
  pure { s with db := db, objects := objects }

/-- The end of `Session.commit`, after its flush: all objects expire. -/
def saveAndExpire (s : LicenceSession) : LicenceSession :=
  ⟨s.db, s.db, s.objects.map LicenceObject.expire⟩

/-- The object has a row in the database. -/
def HasRow (d : LicenceDb) (x : LicenceObject) : Bool :=
  x.key.any fun k => ((d.table x.model).get? k).isSome

/-- `Session.rollback`: objects whose rows are gone leave the session, the others expire. -/
def rollback (s : LicenceSession) : LicenceSession :=
  ⟨s.saved, s.saved, (s.objects.filter (HasRow s.saved)).map LicenceObject.expire⟩

end LicenceSession

/-- The licence is not blank after normalisation. -/
def LicenceConfig.NonBlank (lic : PyStr) : Prop := ∃ c cs, C.normalizeLic (some lic) = some (c :: cs)

/-- One operation on an object. A licence that is assigned is not blank, and a hash is not
assigned. -/
inductive ObjectStep (d : LicenceDb) : LicenceObject → LicenceObject → Prop
  /-- A query returns the row, or an attribute that is not in memory is read. -/
  | load {x x'} (h : x.load service d = .ok x') : ObjectStep d x x'
  | setLicence {x} (lic : PyStr) (h : C.NonBlank lic) : ObjectStep d x (x.setLicence lic)
  | setOther {x} : ObjectStep d x x.setOther
  | expire {x} : ObjectStep d x x.expire
  | expireAttributes {x} (licence hash : Bool) : ObjectStep d x (x.expireAttributes licence hash)

/-- One operation of a session. -/
inductive LicenceStep : LicenceSession → LicenceSession → Prop
  | add {s} (m : LicenceModel) (licence hash : Option PyStr)
      (h : ∀ lic ∈ licence, C.NonBlank lic) :
      LicenceStep s { s with objects := s.objects ++ [.make m licence hash] }
  /-- A query returns a row that the session has no object for. -/
  | get {s} (m : LicenceModel) (k : ℕ) {x : LicenceObject}
      (hnew : ∀ y ∈ s.objects, y.model = m → y.key ≠ some k)
      (h : LicenceObject.load service s.db ⟨m, some k, .unloaded, .unloaded, false⟩ = .ok x) :
      LicenceStep s { s with objects := s.objects ++ [x] }
  | object {s} (i : ℕ) {x x' : LicenceObject} (hx : s.objects[i]? = some x)
      (h : ObjectStep C service s.db x x') :
      LicenceStep s { s with objects := s.objects.set i x' }
  /-- An object leaves the session. -/
  | expunge {s} (i : ℕ) : LicenceStep s { s with objects := s.objects.eraseIdx i }
  /-- A flush may write its objects in any order. -/
  | reorder {s} {xs : List LicenceObject} (h : xs.Perm s.objects) :
      LicenceStep s { s with objects := xs }
  | flush {s s'} (draw : ℕ → Nonce) (h : s.flush C service draw = .ok s') : LicenceStep s s'
  | commit {s s'} (draw : ℕ → Nonce) (h : s.flush C service draw = .ok s') :
      LicenceStep s s'.saveAndExpire
  /-- An exception in a flush rolls back as well. -/
  | rollback {s} : LicenceStep s s.rollback
  /-- The session is closed and another one is opened. -/
  | close {s} : LicenceStep s (.start s.saved)

/-- A state that can be reached from a session on `d`. -/
def LicenceReach (d : LicenceDb) : LicenceSession → Prop :=
  Relation.ReflTransGen (LicenceStep C service) (.start d)

end SecureVote
