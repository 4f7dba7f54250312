import Mathlib.Data.List.DropRight
import SecureVote.Routes.Accounts
import SecureVote.Scripts.MigratePiiEnvelope

/-!
# Registration (`register` of `auth.py`)

`register` beside other registrations, which commit at any time: each statement of the request sees
a state of its own, and what the others commit between the flush and the commit comes on top of the
row that is pending. The case mappings of `str` are parameters.
-/

open Txn

namespace SecureVote.Registration

open Py Encryption
open PiiMigration (ENCRYPTED_LICENCE_COLUMN_LENGTH ENCRYPTED_LONG_PII_COLUMN_LENGTH
  ENCRYPTED_SHORT_PII_COLUMN_LENGTH)

/-! ### The database -/

/-- `User`, with the columns of the licence. -/
structure UserRow extends User where
  driverLicNo : PyStr
  driverLicHash : PyStr
  driverLicState : Option PyStr

instance : Keyed UserRow := ⟨fun u => u.id⟩

/-- `ElectoralRoll`, with the personal columns. -/
structure RollRow extends ElectoralRoll where
  driverLicenseNumber : PyStr
  driverLicenseHash : PyStr
  fullName : PyStr
  dateOfBirth : ℕ × ℕ × ℕ
  addressLine1 : PyStr
  suburb : PyStr
  state : PyStr
  postcode : PyStr

instance : Keyed RollRow := ⟨fun r => r.id⟩

/-- The tables that a registration uses. -/
structure Database where
  roles : List Role
  regions : List Region
  users : Table UserRow
  rolls : Table RollRow

/-- What registrations do to a database: rows are added. -/
structure Database.Extends (d d' : Database) : Prop where
  roles : d'.roles = d.roles
  regions : d'.regions = d.regions
  users : ∃ us, d'.users.rows = d.users.rows ++ us
  rolls : ∃ rs, d'.rolls.rows = d.rolls.rows ++ rs

/-- The queries in front of the flush. -/
inductive Lookup
  | username
  | email
  | licence
  | role
  deriving DecidableEq

/-- The states that a request meets while other registrations commit: those its queries see, the one
at its flush, and what becomes of the state with its pending row before its commit. -/
structure Interleaving where
  seen : Lookup → Database
  flush : Database
  later : Database → Database
  seen_extends (q : Lookup) : (seen q).Extends flush
  extends_later (d : Database) : d.Extends (later d)

/-! ### The process -/

/-- `str.upper` on an ASCII character. -/
def asciiUpper (c : ℕ) : ℕ := if 97 ≤ c ∧ c ≤ 122 then c - 32 else c

/-- What registration reads of its process: the PII service, the blind index, `str.lower`, the
collation of the text columns, and whether the database enforces their lengths. -/
structure Config where
  service : ChaChaEncryptionService
  licence : LicenceConfig
  lower : PyStr → PyStr
  collateEq : PyStr → PyStr → Bool
  strict : Bool
  upper_ascii : ∀ s, IsAscii s → licence.upper s = s.map asciiUpper

/-- The encrypted columns of the two rows. -/
inductive EncryptedField
  | driverLicNo
  | driverLicenseNumber
  | fullName
  | addressLine1
  | suburb
  | state
  | postcode
  deriving DecidableEq

/-- What a request draws: nonces, the salted hash of its password, and the time. -/
structure Draws where
  nonce : EncryptedField → List UInt8
  length_nonce (f : EncryptedField) : (nonce f).length = nonceBytes
  passwordHash : PyStr → PyStr
  length_passwordHash (password : PyStr) : (passwordHash password).length ≤ 255
  now : Time

/-! ### The form -/

/-- The fields of a form, absent or given. -/
structure Form where
  username : Option PyStr
  email : Option PyStr
  password : Option PyStr
  confirm : Option PyStr
  driverLicNo : Option PyStr
  driverLicState : Option PyStr

/-- A request: the form of a `POST`, and the places where a geo middleware may have left a state. -/
structure Request where
  form : Option Form
  geo : List (Option PyStr)

theorem strip_strip (s : PyStr) : strip (strip s) = strip s := by
  have hback : strip s = (s.dropWhile isSpace).rdropWhile isSpace := rfl
  have hfront : (strip s).dropWhile isSpace = strip s := by
    obtain ⟨t, ht⟩ := List.rdropWhile_prefix isSpace (s.dropWhile isSpace)
    rw [← hback] at ht
    -- the first character is the first one of `s` that is no space
    cases hs : strip s with
    | nil => rfl
    | cons c cs =>
      rw [hs, List.cons_append] at ht
      have hc : isSpace c = false := by
        have hhead := List.head?_dropWhile_not isSpace s
        rw [← ht] at hhead
        exact hhead
      rw [List.dropWhile_cons, hc]
      rfl
  have hagain : strip (strip s) = ((strip s).dropWhile isSpace).rdropWhile isSpace := rfl
  rw [hagain, hfront, hback, List.rdropWhile_idempotent]

/-- The fields after the first lines of `register`. -/
structure Fields where
  username : PyStr
  email : PyStr
  password : PyStr
  confirm : PyStr
  licNo : PyStr
  licState : PyStr
  strip_licNo : strip licNo = licNo

/-- The first lines of `register`. -/
def Form.fields (C : Config) (form : Form) : Fields where
  username := strip (form.username.getD [])
  email := C.lower (strip (form.email.getD []))
  password := form.password.getD []
  confirm := form.confirm.getD []
  licNo := strip (form.driverLicNo.getD [])
  licState := strip (form.driverLicState.getD [])
  strip_licNo := strip_strip _

/-! ### Validation -/

/-- `[A-Za-z0-9]` -/
def isAlnum (c : ℕ) : Bool := (48 ≤ c && c ≤ 57) || (65 ≤ c && c ≤ 90) || (97 ≤ c && c ≤ 122)

/-- `USERNAME_RE` -/
def matchesUsername (s : PyStr) : Bool :=
  3 ≤ s.length && s.length ≤ 32 && s.all fun c => isAlnum c || (py "_.-").contains c

/-- `EMAIL_RE`: one `@`, and behind it a dot with characters on both sides. -/
def matchesEmail (s : PyStr) : Bool :=
  match s.splitOn 64 with
  | [name, domain] => !name.isEmpty && (name ++ domain).all (!isSpace ·) &&
      (domain.drop 1).dropLast.contains 46
  | _ => false

/-- The state codes of `validate_driver_lic`. -/
def stateCodes : List PyStr :=
  [py "ACT", py "NSW", py "NT", py "QLD", py "SA", py "TAS", py "VIC", py "WA"]

/-- `validate_driver_lic` -/
def validateDriverLic (C : Config) (licNo : PyStr) (state : Option PyStr) : Bool :=
  let lic := (strip licNo).filter (· ≠ 32)
  !licNo.isEmpty && 6 ≤ lic.length && lic.length ≤ 10 && lic.all isAlnum &&
    state.all fun s => stateCodes.contains (C.licence.upper s)

/-- `fullname_map` -/
def fullnameMap : List (PyStr × PyStr) :=
  [(py "NEW SOUTH WALES", py "NSW"), (py "NSW", py "NSW"), (py "VICTORIA", py "VIC"),
    (py "VIC", py "VIC"), (py "QUEENSLAND", py "QLD"), (py "QLD", py "QLD"),
    (py "SOUTH AUSTRALIA", py "SA"), (py "SA", py "SA"), (py "WESTERN AUSTRALIA", py "WA"),
    (py "WA", py "WA"), (py "TASMANIA", py "TAS"), (py "TAS", py "TAS"),
    (py "NORTHERN TERRITORY", py "NT"), (py "NT", py "NT"),
    (py "AUSTRALIAN CAPITAL TERRITORY", py "ACT"), (py "ACT", py "ACT")]

/-- `detected_state_code`, from the first place with a state. -/
def detectedStateCode (C : Config) (geo : List (Option PyStr)) : Option PyStr :=
  match geo.findSome? fun s => s.filter (!·.isEmpty) with
  | none => none
  | some detected => dictGet fullnameMap (C.licence.upper (strip detected))

/-- The selected state does not contradict the detected one. -/
def geoMatches (C : Config) (geo : List (Option PyStr)) (licState : PyStr) : Bool :=
  licState.isEmpty || (detectedStateCode C geo).all (C.licence.upper (strip licState) = ·)

/-- A field, or `None` when it is empty. -/
def orNone (s : PyStr) : Option PyStr := if s.isEmpty then none else some s

/-- `_map_state_to_region` -/
def mapStateToRegion (C : Config) (regions : List Region) : Option PyStr → Option Region
  | none | some [] => none
  | some code =>
      let mapping := [(py "NSW", py "Sydney"), (py "VIC", py "VIC east"), (py "QLD", py "QLD"),
        (py "SA", py "SA"), (py "WA", py "WA"), (py "TAS", py "TAS"), (py "ACT", py "ACT"),
        (py "NT", py "NT")]
      (dictGet mapping (C.licence.upper code)).bind fun name =>
        regions.find? fun r => C.collateEq r.name name

/-! ### Inserts -/

/-- What an `INSERT` raises: an exception while a parameter is bound or in the listener
`before_insert`, `DataError`, or `IntegrityError`. -/
inductive InsertError
  | bind (e : PiiError)
  | listener (e : LicenceError)
  | tooLong (column : PyStr)
  | integrity
  deriving DecidableEq, Repr

/-- The listener `before_insert`: `_hash_lic(…) or` the value of the column, which is `NOT NULL`. -/
def syncHash (C : Config) (licNo : PyStr) (hash : Option PyStr) : Except InsertError PyStr :=
  match C.licence.hashLic (some licNo) with
  | .error e => .error (.listener e)
  | .ok computed =>
      match computed.or hash with
      | none => .error .integrity
      | some h => .ok h

/-- A parameter of an encrypted column. -/
def bindText (C : Config) (draws : Draws) (f : EncryptedField) (length : ℕ) (text : PyStr) :
    Except InsertError PyStr :=
  match C.service.processBindParam (some length) (draws.nonce f) (some text) with
  | .error e => .error (.bind e)
  | .ok v => .ok (v.getD [])

/-- The length of a `VARCHAR`, if the database enforces it. -/
def fitColumn (C : Config) (column : String) (length : ℕ) (text : PyStr) :
    Except InsertError Unit :=
  if C.strict && length < text.length then .error (.tooLong (py column)) else .ok ()

/-- A constraint. -/
def require (holds : Bool) : Except InsertError Unit := if holds then .ok () else .error .integrity

/-- No row has the name, the address or the index: the `UNIQUE` columns of `User`. -/
def uniqueUser (C : Config) (d : Database) (username email hash : PyStr) : Bool :=
  d.users.rows.all fun u => !C.collateEq u.username username &&
    !u.email.any (C.collateEq · email) && !C.collateEq u.driverLicHash hash

/-- The `INSERT` of the user: the row, and the database with it. -/
def insertUser (C : Config) (draws : Draws) (f : Fields) (hash : Option PyStr) (role : Role)
    (d : Database) : Except InsertError (UserRow × Database) := do
  let hash ← syncHash C f.licNo hash
  let licence ← bindText C draws .driverLicNo ENCRYPTED_LICENCE_COLUMN_LENGTH f.licNo
  fitColumn C "username" 80 f.username
  fitColumn C "email" 255 f.email
  require (uniqueUser C d f.username f.email hash)
  require (d.roles.any (·.id = role.id))
  let row (i : ℕ) : UserRow :=
    { id := i
      username := f.username
      email := some f.email
      passwordHash := draws.passwordHash f.password
      roleId := role.id
      accountStatus := .pending
      emailVerified := false
      passwordChangedAt := some draws.now
      sessionVersion := 1
      failedLoginAttempts := 0
      accountLockedUntil := none
      driverLicNo := licence
      driverLicHash := hash
      driverLicState := (orNone f.licState).map C.licence.upper }
  pure (row d.users.next, { d with users := d.users.insert row fun _ => rfl })

/-- `f"ER-{user.id:04d}"` -/
def rollNumber (userId : ℕ) : PyStr :=
  let digits := natRepr 10 userId
  py "ER-" ++ List.replicate (4 - digits.length) 48 ++ digits

/-- No row has the number, the index or the user: the `UNIQUE` columns of `ElectoralRoll`. -/
def uniqueRoll (C : Config) (d : Database) (number hash : PyStr) (userId : ℕ) : Bool :=
  d.rolls.rows.all fun r => !C.collateEq r.rollNumber number &&
    !C.collateEq r.driverLicenseHash hash && r.userId ≠ some userId

/-- The `INSERT` of the roll of a user, whose licence is still at hand. -/
def insertRoll (C : Config) (draws : Draws) (licNo : PyStr) (user : UserRow) (d : Database) :
    Except InsertError (RollRow × Database) := do
  let hash ← syncHash C licNo none
  let licence ← bindText C draws .driverLicenseNumber ENCRYPTED_LICENCE_COLUMN_LENGTH licNo
  let fullName ← bindText C draws .fullName ENCRYPTED_LONG_PII_COLUMN_LENGTH user.username
  let addressLine1 ← bindText C draws .addressLine1 ENCRYPTED_LONG_PII_COLUMN_LENGTH (py "N/A")
  let suburb ← bindText C draws .suburb ENCRYPTED_LONG_PII_COLUMN_LENGTH (py "N/A")
  let state ← bindText C draws .state ENCRYPTED_SHORT_PII_COLUMN_LENGTH
    (user.driverLicState.getD (py "N/A"))
  let postcode ← bindText C draws .postcode ENCRYPTED_SHORT_PII_COLUMN_LENGTH (py "0000")
  fitColumn C "roll_number" 50 (rollNumber user.id)
  require (uniqueRoll C d (rollNumber user.id) hash user.id)
  match mapStateToRegion C d.regions user.driverLicState with
  -- `region_id` is `NOT NULL`
  | none => .error .integrity
  | some region =>
      let row (i : ℕ) : RollRow :=
        { id := i
          rollNumber := rollNumber user.id
          regionId := region.id
          status := .pending
          verified := false
          userId := some user.id
          driverLicenseNumber := licence
          driverLicenseHash := hash
          fullName := fullName
          dateOfBirth := (1995, 1, 1)
          addressLine1 := addressLine1
          suburb := suburb
          state := state
          postcode := postcode }
      pure (row d.rolls.next, { d with rolls := d.rolls.insert row fun _ => rfl })

/-! ### The request -/

/-- An exception that leaves `register`: of the blind index, `PasswordValidationError`, or of the
flush. -/
inductive RegisterError
  | licence (e : LicenceError)
  | password (complaint : PyStr)
  | insert (e : InsertError)
  deriving DecidableEq, Repr

/-- How a request ends: `register.html` with what is flashed, a redirect to `auth.login`, or an
exception. -/
inductive Answer
  | page (flashed : Option PyStr)
  | redirect (flashed : PyStr)
  | raised (e : RegisterError)
  deriving DecidableEq, Repr

/-- The answer, and the database after the commit of the request. -/
structure Result where
  answer : Answer
  committed : Option Database

/-- A check of `register`, with what is flashed when it fails. -/
def check (ok : Bool) (message : String) : Except Answer Unit :=
  if ok then .ok () else .error (.page (some (py message)))

/-- The check of the password. -/
def checkPassword (password : PyStr) : Except Answer Unit :=
  match validatePasswordStrength password with
  | none => .ok ()
  | some complaint => .error (.page (some (py "Password too weak: " ++ complaint)))

/-- `_hash_lic` in `register`. -/
def lookupHash (C : Config) (licNo : PyStr) : Except Answer (Option PyStr) :=
  match C.licence.hashLic (some licNo) with
  | .ok hash => .ok hash
  | .error e => .error (.raised (.licence e))

/-- A user with the name, among those that the query sees. -/
def takenUsername (C : Config) (i : Interleaving) (username : PyStr) : Bool :=
  (i.seen .username).users.rows.any fun u => C.collateEq u.username username

/-- A user with the address. -/
def takenEmail (C : Config) (i : Interleaving) (email : PyStr) : Bool :=
  (i.seen .email).users.rows.any fun u => u.email.any (C.collateEq · email)

/-- A user with the index. -/
def takenLicence (C : Config) (i : Interleaving) (hash : Option PyStr) : Bool :=
  hash.any fun h => (i.seen .licence).users.rows.any fun u => C.collateEq u.driverLicHash h

/-- The checks in front of the blind index. -/
def screen (C : Config) (f : Fields) (geo : List (Option PyStr)) (i : Interleaving) :
    Except Answer Unit := do
  check (geoMatches C geo f.licState) <|
    "Selected state does not match the detected location from your IP address. If you are using " ++
      "a VPN or the detection failed, contact an administrator for support."
  check (matchesUsername f.username) "Username must be 3-32 chars (letters, digits, _.-)"
  check (!takenUsername C i f.username) "Username already taken"
  check (matchesEmail f.email) "Invalid email format"
  check (!takenEmail C i f.email) "Email already registered"
  check (f.password = f.confirm) "Passwords do not match"
  checkPassword f.password
  check (validateDriverLic C f.licNo (orNone f.licState)) "Invalid driver licence number"

/-- The checks in front of the row: the index of the licence, and the role. -/
def admitForm (C : Config) (f : Fields) (geo : List (Option PyStr)) (i : Interleaving) :
    Except Answer (Option PyStr × Role) := do
  screen C f geo i
  let hash ← lookupHash C f.licNo
  check (!takenLicence C i hash) "Driver licence already bound to another account"
  match (i.seen .role).roles.find? fun r => C.collateEq r.name (py "voter") with
  | none =>
      .error (.page (some (py "Registration is temporarily unavailable. Please contact support.")))
  | some role => pure (hash, role)

/-- `lic_hash or _hash_lic(lic_no)` -/
def eagerHash (C : Config) (licNo : PyStr) : Option PyStr → Except LicenceError (Option PyStr)
  | some hash => .ok (some hash)
  | none => C.licence.hashLic (some licNo)

/-- The transaction: the flush of the user, and the commit of the user and the roll. -/
def submit (C : Config) (draws : Draws) (f : Fields) (hash : Option PyStr) (role : Role)
    (i : Interleaving) (mailed : Bool) : Result :=
  match eagerHash C f.licNo hash with
  | .error e => ⟨.raised (.licence e), none⟩
  | .ok hash =>
    match validatePasswordStrength f.password with
    | some complaint => ⟨.raised (.password complaint), none⟩
    | none =>
      -- nothing catches what `flush` raises
      match insertUser C draws f hash role i.flush with
      | .error e => ⟨.raised (.insert e), none⟩
      | .ok (user, pending) =>
        match insertRoll C draws f.licNo user (i.later pending) with
        | .error _ =>
          ⟨.page (some (py "Registration could not be completed. Please try again.")), none⟩
        | .ok (_, db) =>
          if mailed then
            ⟨.redirect (py ("Registration submitted. Verify your email, then wait for admin " ++
              "approval.")), some db⟩
          else
            ⟨.redirect (py ("Registration submitted, but the verification email could not be " ++
              "sent. Use Resend verification after email delivery is restored.")), some db⟩

/-- `register`; `mailed` is what `send_verification_email` returns. -/
def register (C : Config) (draws : Draws) (req : Request) (i : Interleaving) (mailed : Bool) :
    Result :=
  match req.form with
  | none => ⟨.page none, none⟩
  | some form =>
    let f := form.fields C
    match admitForm C f req.geo i with
    | .error answer => ⟨answer, none⟩
    | .ok (hash, role) => submit C draws f hash role i mailed

end SecureVote.Registration
