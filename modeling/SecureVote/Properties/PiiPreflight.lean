import SecureVote.Properties.PiiMigration

/-!
# What a dry run of the envelope migration promises

The dry run is a preflight of key and capacities. Whether a value converts does not depend on the
nonce that is drawn, so an applying run on the same database can fail on the constraints of the
database only: two licences with one hash, or a licence with none.
-/

open Txn

namespace SecureVote.PiiMigration

open Py Encryption

/-! ### Conversion without the nonce -/

/-- An envelope is as long as its text makes it. -/
theorem encrypt_length {service : ChaChaEncryptionService} {nonce nonce' : List UInt8}
    {text v : PyStr} (hlen : nonce'.length = nonce.length) (h : service.encrypt nonce text = .ok v) :
    ∃ v', service.encrypt nonce' text = .ok v' ∧ v'.length = v.length := by
  obtain ⟨plaintext, hutf8, rfl⟩ := service.encrypt_ok.mp h
  refine ⟨_, service.encrypt_ok.mpr ⟨plaintext, hutf8, rfl⟩, ?_⟩
  simp only [ChaChaEncryptionService.envelope, List.length_append, length_b64encode,
    service.cipher.length_encrypt, hlen]

variable {R R' : Run} {columns : List PyStr} {table : PyStr} {fields : List PyStr}

/-- The two runs have the same process, source, key and capacities. -/
structure Run.Alike (R R' : Run) : Prop where
  env : R'.env = R.env
  source : R'.source = R.source
  fernet : R'.fernet = R.fernet
  capacities : R'.capacities = R.capacities

/-- A cell that converts in one run converts in the other. -/
theorem Run.Alike.converts (h : R.Alike R') {id : ℕ} {field : PyStr} {cell : Option PyStr}
    {o : Option FieldUpdate} (hconv : R.Converts columns table id field cell o) :
    ∃ o', R'.Converts columns table id field cell o' := by
  have hfits : ∀ k, R.Fits table field k → R'.Fits table field k := by
    intro k hk
    rw [Run.Fits, h.capacities]
    exact hk
  cases hconv with
  | null => exact ⟨none, .null⟩
  | current value text hprefix htext hlength =>
    exact ⟨none, .current value text hprefix (by rw [h.env, htext]) (hfits _ hlength)⟩
  | legacy value text migrated hash hprefix htext hencrypt hlength hhash =>
    have hnonce : (R'.draws.nonce table id field).length = (R.draws.nonce table id field).length := by
      rw [R'.draws.length_nonce, R.draws.length_nonce]
    obtain ⟨migrated', hencrypt', hlen⟩ := encrypt_length hnonce hencrypt
    have hdecrypt := decrypt_migrated hencrypt
    have hdecrypt' : R'.env.service.decrypt migrated' = .ok text := by
      rw [← h.env] at hencrypt'
      exact decrypt_migrated hencrypt'
    have hhash' : R'.hashUpdate columns table field migrated' = .ok hash := by
      rw [Run.hashUpdate_ok hdecrypt', h.env]
      exact (Run.hashUpdate_ok hdecrypt).mp hhash
    refine ⟨_, .legacy value text migrated' hash hprefix ?_ ?_ (hfits _ ?_) hhash'⟩
    · rw [h.env, h.source, h.fernet, htext]
    · rw [h.env, hencrypt']
    · rw [hlen]
      exact hlength

theorem Run.Alike.convertsTable (h : R.Alike R') {f : PyStr × List PyStr} {t : PiiTable}
    (hconv : R.ConvertsTable f t) : R'.ConvertsTable f t := by
  intro x hx
  have hcells := Run.exists_convertRow.mp (hconv x hx)
  refine Run.exists_convertRow.mpr fun g hg => ?_
  obtain ⟨o, ho⟩ := hcells g hg
  exact h.converts ho

/-! ### The preflight -/

/-- The constraints of the database accept the row updates of an applying run, made in order. -/
def UpdatesAccepted (E : Env) (draws : Draws) (source : Source) (db : Database) : Prop :=
  ∀ capacities fernet, validateEncryptedColumnCapacity db = .ok capacities →
    legacyFernet E source = .ok fernet →
    Run.Accepted ⟨E, source, true, fernet, capacities, draws⟩ FIELDS db

/-- After a dry run that returned, an applying run returns the same count if the constraints accept
its updates, and otherwise raises the error of the constraint and leaves the database alone. -/
theorem dry_run_preflight {E : Env} {draws : Draws} {source : Source} {db db' : Database} {n : ℕ}
    (h : migrate E draws source false db = (db', .ok n)) (draws' : Draws) :
    (UpdatesAccepted E draws' source db ∧
        ∃ db₁, migrate E draws' source true db = (db₁, .ok n)) ∨
      (¬UpdatesAccepted E draws' source db ∧
        ∃ table id, migrate E draws' source true db = (db, .error (.integrity table id))) := by
  obtain ⟨capacities, fernet, hcap, hfernet, hrun⟩ := migrate_ok.mp h
  have hdone := Run.migrateTables_done names_nodup hrun
  have halike : Run.Alike ⟨E, source, false, fernet, capacities, draws⟩
      ⟨E, source, true, fernet, capacities, draws'⟩ := ⟨rfl, rfl, rfl, rfl⟩
  have hconv : ∀ f ∈ FIELDS, ∀ t, db f.1 = some t →
      Run.ConvertsTable ⟨E, source, true, fernet, capacities, draws'⟩ f t :=
    fun f hf t ht => halike.convertsTable (hdone.converts f hf t ht)
  have haccepted : UpdatesAccepted E draws' source db ↔
      Run.Accepted ⟨E, source, true, fernet, capacities, draws'⟩ FIELDS db := by
    constructor
    · exact fun hall => hall capacities fernet hcap hfernet
    · intro hall capacities' fernet' hcap' hfernet'
      cases hcap.symm.trans hcap'
      cases hfernet.symm.trans hfernet'
      exact hall
  rw [haccepted]
  obtain ⟨⟨⟨db₁, m⟩, happly⟩, hok⟩ | ⟨⟨table, id, happly⟩, hnot⟩ :=
    Run.migrateTables_of_converts (n := 0) names_nodup hconv
  · have hmigrate := migrate_ok.mpr ⟨_, _, hcap, hfernet, happly⟩
    have hcount : m = n := (count_of_migrate hmigrate).trans (count_of_migrate h).symm
    exact .inl ⟨hok, db₁, hcount ▸ hmigrate⟩
  · refine .inr ⟨hnot, table, id, ?_⟩
    rw [migrate, hcap]
    dsimp only
    rw [hfernet]
    dsimp only
    rw [transaction, happly]

/-! ### A database whose licences collide -/

/-- The rows of every table satisfy `NOT NULL` and `UNIQUE`. -/
def Database.Valid (db : Database) : Prop :=
  ∀ name t, db name = some t → ∀ r ∈ t.data.rows, ∀ c ∈ t.columns,
    c.accepts (t.data.rows.filter fun r' => r'.id ≠ r.id) (r.cells c.name) = true

/-- A process with the sample key, no Fernet key, and a pepper of two characters. -/
def sampleEnv : Env where
  service := ChaChaEncryptionService.sample
  licence := ⟨fun s => s.map fun c => if 97 ≤ c ∧ c ≤ 122 then c - 32 else c, py "pp", false, []⟩
  oldFernetKey := none
  fernet := fun _ => none

/-- Nonces of zeros. -/
def sampleDraws : Draws := ⟨fun _ _ _ => List.replicate 12 0, fun _ _ _ => rfl⟩

/-- A voter with a marked licence and the hash of an earlier scheme. -/
def voterRow (id : ℕ) (licence hash : PyStr) : Row :=
  ⟨id, fun c =>
    if c = py "driver_lic_no" then some (legacyPlaintextPrefix ++ licence)
    else if c = py "driver_lic_hash" then some hash
    else none⟩

/-- Two voters with the licences given. -/
def voterTable (first second : PyStr) : PiiTable where
  columns := [⟨py "driver_lic_no", true, some 255, false, false⟩,
    ⟨py "driver_lic_hash", true, some 64, false, true⟩]
  data := ⟨[voterRow 1 first (py "stale-1"), voterRow 2 second (py "stale-2")], 3,
    by simp [key, voterRow], by simp [key, voterRow]⟩

def voterDb (first second : PyStr) : Database := fun name =>
  if name = py "user" then some (voterTable first second) else none

/-- The licences of the two voters, equal and different up to case and white space. -/
def sameLicences : Database := voterDb (py "vic 00014") (py "VIC00014")

def otherLicences : Database := voterDb (py "vic 00014") (py "VIC00015")

theorem sameLicences_valid : sameLicences.Valid := by
  intro name t ht
  rw [sameLicences, voterDb] at ht
  split at ht
  · cases ht
    decide +kernel
  · cases ht

/-- Of two equal licences the dry run takes both, and the applying run fails on the second. -/
theorem dry_run_collision : sameLicences.Valid ∧
    (migrate sampleEnv sampleDraws .markedPlaintext false sameLicences).2 = .ok 2 ∧
    (migrate sampleEnv sampleDraws .markedPlaintext true sameLicences).2 =
      .error (.integrity (py "user") 2) :=
  ⟨sameLicences_valid, by decide +kernel, by decide +kernel⟩

/-- Of two different licences both are migrated. -/
theorem dry_run_otherLicences :
    (UpdatesAccepted sampleEnv sampleDraws .markedPlaintext otherLicences ∧
        ∃ db₁, migrate sampleEnv sampleDraws .markedPlaintext true otherLicences = (db₁, .ok 2)) ∨
      (¬UpdatesAccepted sampleEnv sampleDraws .markedPlaintext otherLicences ∧
        ∃ table id, migrate sampleEnv sampleDraws .markedPlaintext true otherLicences =
          (otherLicences, .error (.integrity table id))) :=
  dry_run_preflight (Prod.ext rfl (by decide +kernel :
    (migrate sampleEnv sampleDraws .markedPlaintext false otherLicences).2 = .ok 2)) sampleDraws

end SecureVote.PiiMigration
