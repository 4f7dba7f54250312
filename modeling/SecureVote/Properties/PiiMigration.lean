import SecureVote.Verified.PiiMigration

/-!
# The envelope migration

A run of `migrate` that raises leaves the database as it was, and a run that applies leaves every
listed value readable as the text it stood for. What a dry run counts is what an applying run
converts, unless the database refuses an update.
-/

open Txn

namespace SecureVote.PiiMigration

open Py Encryption

/-! ### What an applied migration leaves -/

/-- The text a legacy value stands for, in the format and under the key of the run. -/
def Env.legacyText (E : Env) (source : Source) (value : PyStr) : Option PyStr :=
  match legacyFernet E source with
  | .ok fernet => PiiMigration.legacyText E.service source fernet value
  | .error _ => none

/-- A listed cell: what it held, and what decrypts to the same text. -/
inductive CellMigrated (E : Env) (source : Source) : Option PyStr → Option PyStr → Prop
  | null : CellMigrated E source none none
  | current (value text : PyStr) : envelopePrefix.isPrefixOf value = true →
      E.service.decrypt value = .ok text → CellMigrated E source (some value) (some value)
  | converted (value migrated text : PyStr) : envelopePrefix.isPrefixOf value = false →
      E.legacyText source value = some text → E.service.decrypt migrated = .ok text →
      CellMigrated E source (some value) (some migrated)

/-- A row: its listed cells are migrated, the hash columns of its converted licences hold the hashes
of their texts, and nothing else has changed. -/
structure RowMigrated (E : Env) (source : Source) (columns : List PyStr) (table : PyStr)
    (fields : List PyStr) (row row' : Row) : Prop where
  id : row'.id = row.id
  cells : ∀ f ∈ fields, CellMigrated E source (row.cells f) (row'.cells f)
  hashes : ∀ f ∈ fields, row.legacy f = true → ∀ column,
    LICENCE_HASH_COLUMNS table f = some column → column ∈ columns →
    ∃ value text, row.cells f = some value ∧ E.legacyText source value = some text ∧
      E.licence.hashLic (some text) = .ok (row'.cells column)
  others : ∀ column, column ∉ fields →
    (∀ f ∈ fields, row.legacy f = true → LICENCE_HASH_COLUMNS table f ≠ some column) →
    row'.cells column = row.cells column

/-- A table: the same columns, and its rows one by one. -/
structure TableMigrated (E : Env) (source : Source) (f : PyStr × List PyStr) (t t' : PiiTable) :
    Prop where
  columns : t'.columns = t.columns
  rows : List.Forall₂ (RowMigrated E source t.names f.1 (t.fields f.2)) t.data.rows t'.data.rows

/-- A database: its listed tables are migrated, and the others stay. -/
structure Migrated (E : Env) (source : Source) (db db' : Database) : Prop where
  tables : ∀ f ∈ FIELDS, ∀ t, db f.1 = some t →
    ∃ t', db' f.1 = some t' ∧ TableMigrated E source f t t'
  absent : ∀ f ∈ FIELDS, db f.1 = none → db' f.1 = none
  others : ∀ name, name ∉ FIELDS.map Prod.fst → db' name = db name

/-! ### Runs that return -/

theorem names_nodup : (FIELDS.map Prod.fst).Nodup := by decide

/-- What a run that returns has done. -/
theorem migrate_ok {E : Env} {draws : Draws} {source : Source} {apply : Bool} {db db' : Database}
    {n : ℕ} :
    migrate E draws source apply db = (db', .ok n) ↔
      ∃ capacities fernet, validateEncryptedColumnCapacity db = .ok capacities ∧
        legacyFernet E source = .ok fernet ∧
        FIELDS.foldlM (Run.migrateTable ⟨E, source, apply, fernet, capacities, draws⟩) (db, 0) =
          .ok (db', n) := by
  rw [migrate]
  cases hcap : validateEncryptedColumnCapacity db with
  | error e => simp
  | ok capacities =>
    dsimp only
    cases hfernet : legacyFernet E source with
    | error e => simp
    | ok fernet =>
      dsimp only
      rw [transaction]
      cases hrun : FIELDS.foldlM
          (Run.migrateTable ⟨E, source, apply, fernet, capacities, draws⟩) (db, 0) with
      | error e =>
        simp only [Prod.mk.injEq, reduceCtorEq, and_false, Except.ok.injEq, false_iff]
        rintro ⟨_, _, rfl, rfl, hrun'⟩
        rw [hrun] at hrun'
        cases hrun'
      | ok s =>
        obtain ⟨db₁, m⟩ := s
        simp only [Prod.mk.injEq, Except.ok.injEq]
        constructor
        · rintro ⟨rfl, rfl⟩
          exact ⟨_, _, rfl, rfl, hrun⟩
        · rintro ⟨_, _, rfl, rfl, hrun'⟩
          rw [hrun] at hrun'
          cases hrun'
          exact ⟨rfl, rfl⟩

theorem transaction_error {S A : Type} {body : S → Except MigrateError (S × A)} {db : S}
    {e : MigrateError} (h : (transaction body db).2 = .error e) : (transaction body db).1 = db := by
  rw [transaction] at h ⊢
  cases hbody : body db with
  | error e' => rfl
  | ok s =>
    rw [hbody] at h
    cases h

/-- A run that raises leaves the database as it was. -/
theorem migrate_error {E : Env} {draws : Draws} {source : Source} {apply : Bool} {db : Database}
    {e : MigrateError} (h : (migrate E draws source apply db).2 = .error e) :
    (migrate E draws source apply db).1 = db := by
  rw [migrate] at h ⊢
  split
  · rfl
  next hcap =>
    rw [hcap] at h
    split
    · rfl
    next hfernet =>
      rw [hfernet] at h
      exact transaction_error h

/-! ### Rows that are migrated -/

section Rows

variable {R : Run} {columns : List PyStr} {table : PyStr} {fields : List PyStr} {row : Row}
  {us : List FieldUpdate}

/-- The run reads the key its source needs. -/
def Run.KeyRead (R : Run) : Prop := legacyFernet R.env R.source = .ok R.fernet

theorem Run.legacyText_eq (hkey : R.KeyRead) (value : PyStr) :
    R.env.legacyText R.source value = legacyText R.env.service R.source R.fernet value := by
  rw [Env.legacyText, hkey]

/-- The envelope of a replaced value decrypts to its text. -/
theorem decrypt_migrated {id : ℕ} {field : PyStr} {text migrated : PyStr}
    (h : R.env.service.encrypt (R.draws.nonce table id field) text = .ok migrated) :
    R.env.service.decrypt migrated = .ok text :=
  R.env.service.decrypt_encrypt (R.draws.length_nonce table id field) h

/-- A row is migrated by its own assignments. -/
theorem rowMigrated_of_convertRow (hkey : R.KeyRead) (hlisted : ∀ f ∈ fields, f ∈ listed)
    (h : R.convertRow columns table fields row = .ok us) :
    RowMigrated R.env R.source columns table fields row
      (row.assign (R.assignments columns table fields row)) := by
  have hconverts := Run.exists_convertRow.mp ⟨us, h⟩
  refine ⟨rfl, fun f hf => ?_, fun f hf hlegacy column hcolumn hmem => ?_, fun column =>
    Run.cell_of_other h⟩
  · obtain ⟨o, ho⟩ := hconverts f hf
    cases o with
    | none =>
      rw [Run.cell_of_kept hlisted h hf ho]
      generalize row.cells f = cell at ho
      cases ho with
      | null => exact .null
      | current value text hmark htext => exact .current value text hmark htext
    | some u =>
      rw [Run.cell_of_replaced hlisted h hf ho]
      generalize row.cells f = cell at ho
      cases ho with
      | legacy value text migrated hash hmark htext hencrypt =>
        exact .converted value migrated text hmark (by rw [Run.legacyText_eq hkey, htext])
          (decrypt_migrated hencrypt)
  · obtain ⟨o, ho⟩ := hconverts f hf
    have hsome := ho.isSome
    rw [Row.legacy] at hlegacy
    rw [hlegacy, Option.isSome_iff_exists] at hsome
    obtain ⟨u, rfl⟩ := hsome
    have hassigned : ∀ v, u.hash = some (column, v) →
        (row.assign (R.assignments columns table fields row)).cells column = v :=
      fun v => Run.hash_of_replaced hlisted h hf ho
    generalize hcell : row.cells f = cell at ho
    cases ho with
    | legacy value text migrated hash hmark htext hencrypt hfits hhash =>
      obtain ⟨v, hv, rfl⟩ :=
        ((Run.hashUpdate_ok (decrypt_migrated hencrypt)).mp hhash).1 column hcolumn hmem
      refine ⟨value, text, rfl, by rw [Run.legacyText_eq hkey, htext], ?_⟩
      rw [hassigned v rfl, hv]

/-- After the assignments of a row there is nothing left to convert in it. -/
theorem settled_of_convertRow {R' : Run} (hservice : R'.env = R.env)
    (hcapacities : R'.capacities = R.capacities) (hlisted : ∀ f ∈ fields, f ∈ listed)
    (h : R.convertRow columns table fields row = .ok us) :
    ∀ f ∈ fields, R'.Converts columns table row.id f
      ((row.assign (R.assignments columns table fields row)).cells f) none := by
  intro f hf
  obtain ⟨o, ho⟩ := Run.exists_convertRow.mp ⟨us, h⟩ f hf
  have hfits : ∀ n, R.Fits table f n → R'.Fits table f n := by
    intro n hn
    rw [Run.Fits, hcapacities]
    exact hn
  cases o with
  | none =>
    rw [Run.cell_of_kept hlisted h hf ho]
    generalize row.cells f = cell at ho
    cases ho with
    | null => exact .null
    | current value text hmark htext hlength =>
      exact .current value text hmark (by rw [hservice, htext]) (hfits _ hlength)
  | some u =>
    rw [Run.cell_of_replaced hlisted h hf ho]
    generalize row.cells f = cell at ho
    cases ho with
    | legacy value text migrated hash hmark htext hencrypt hlength =>
      refine .current migrated text ?_ ?_ (hfits _ hlength)
      · obtain ⟨plaintext, -, rfl⟩ := R.env.service.encrypt_ok.mp hencrypt
        exact ChaChaEncryptionService.isPrefixOf_append _ _
      · rw [hservice]
        exact decrypt_migrated hencrypt

/-- A row with nothing to convert has no update. -/
theorem convertRow_of_settled
    (h : ∀ f ∈ fields, R.Converts columns table row.id f (row.cells f) none) :
    R.convertRow columns table fields row = .ok [] := by
  obtain ⟨us, hus⟩ := Run.exists_convertRow.mpr fun f hf => ⟨none, h f hf⟩
  have hnone : us = [] := by
    refine List.eq_nil_iff_forall_not_mem.mpr fun u hu => ?_
    obtain ⟨f, hf, hconv⟩ := ((Run.convertRow_ok hus).1 u).mp hu
    cases hconv.unique (h f hf)
  rw [hus, hnone]

end Rows

/-! ### Tables that are migrated -/

section Tables

variable {R R' : Run} {f : PyStr × List PyStr} {t t' : PiiTable}

theorem listed_of_fields (hf : f ∈ FIELDS) : ∀ g ∈ t.fields f.2, g ∈ listed := fun _ hg =>
  List.mem_flatMap.mpr ⟨f, hf, (List.mem_filter.mp hg).1⟩

/-- The rows after the updates are the rows before with their own assignments. -/
theorem executeTable_rows (happly : R.apply = true) (h : R.executeTable f t = .ok t') :
    t'.columns = t.columns ∧ t'.data.rows = t.data.rows.map fun r =>
      r.assign (R.assignments t.names f.1 (t.fields f.2) r) := by
  obtain ⟨hcolumns, hrows⟩ := Run.executeAll_rows happly h
  refine ⟨hcolumns, hrows.trans (List.map_congr_left fun r hr => ?_)⟩
  exact Run.rowAfter_of_mem t.data.nodup hr

theorem tableMigrated_of_executeTable (hkey : R.KeyRead) (hf : f ∈ FIELDS) (happly : R.apply = true)
    (hconv : R.ConvertsTable f t) (h : R.executeTable f t = .ok t') :
    TableMigrated R.env R.source f t t' := by
  obtain ⟨hcolumns, hrows⟩ := executeTable_rows happly h
  refine ⟨hcolumns, ?_⟩
  rw [hrows, List.forall₂_map_right_iff, List.forall₂_same]
  intro r hr
  obtain ⟨us, hus⟩ := hconv r hr
  exact rowMigrated_of_convertRow hkey (listed_of_fields hf) hus

/-- A table whose rows have nothing to convert. -/
def Run.Settled (R : Run) (f : PyStr × List PyStr) (t : PiiTable) : Prop :=
  ∀ x ∈ t.data.rows, R.convertRow t.names f.1 (t.fields f.2) x = .ok []

theorem settled_of_executeTable (hservice : R'.env = R.env)
    (hcapacities : R'.capacities = R.capacities) (hf : f ∈ FIELDS) (happly : R.apply = true)
    (hconv : R.ConvertsTable f t) (h : R.executeTable f t = .ok t') : R'.Settled f t' := by
  obtain ⟨hcolumns, hrows⟩ := executeTable_rows happly h
  have hnames : t'.names = t.names := by rw [PiiTable.names, PiiTable.names, hcolumns]
  have hfields : t'.fields f.2 = t.fields f.2 := by rw [PiiTable.fields, PiiTable.fields, hnames]
  intro x hx
  rw [hrows] at hx
  obtain ⟨r, hr, rfl⟩ := List.mem_map.mp hx
  obtain ⟨us, hus⟩ := hconv r hr
  rw [hnames, hfields]
  exact convertRow_of_settled
    (settled_of_convertRow hservice hcapacities (listed_of_fields hf) hus)

/-- Without conversions the updates of the rows do nothing, and no legacy value is left. -/
theorem Run.Settled.executeTable_eq (h : R.Settled f t) :
    R.executeTable f t = .ok t ∧ legacyCount (t.fields f.2) t.data.rows = 0 := by
  have hall : ∀ rows : List Row,
      (∀ x ∈ rows, R.convertRow t.names f.1 (t.fields f.2) x = .ok []) →
        R.executeAll t.names f.1 (t.fields f.2) t rows = .ok t ∧
          legacyCount (t.fields f.2) rows = 0 := by
    intro rows hrows
    induction rows with
    | nil => exact ⟨rfl, rfl⟩
    | cons x xs ih =>
      obtain ⟨hx, hxs⟩ := List.forall_mem_cons.mp hrows
      obtain ⟨hexec, hcount⟩ := ih hxs
      have hupdates : R.updates t.names f.1 (t.fields f.2) x = [] := by rw [Run.updates, hx]
      have hnot : ¬(R.updates t.names f.1 (t.fields f.2) x ≠ [] ∧ R.apply = true) := by
        simp [hupdates]
      constructor
      · rw [Run.executeAll, Run.execute, if_neg hnot]
        exact hexec
      · rw [legacyCount, List.map_cons, List.sum_cons, ← legacyCount, hcount,
          ← (Run.convertRow_ok hx).2]
        rfl
  exact hall t.data.rows h

end Tables

/-! ### Databases that are migrated -/

/-- The preflight reads the columns only. -/
theorem validate_congr {db db' : Database}
    (h : ∀ name, (db' name).map PiiTable.columns = (db name).map PiiTable.columns) :
    validateEncryptedColumnCapacity db' = validateEncryptedColumnCapacity db := by
  have hcolumn : ∀ table field, (db' table).bind (·.column field) =
      (db table).bind (·.column field) := by
    intro table field
    have hmap := h table
    cases ht : db table with
    | none =>
      rw [ht, Option.map_none, Option.map_eq_none_iff] at hmap
      rw [hmap]
    | some t =>
      rw [ht, Option.map_some, Option.map_eq_some_iff] at hmap
      obtain ⟨t', ht', hcolumns⟩ := hmap
      rw [ht', Option.bind_some, Option.bind_some, PiiTable.column, PiiTable.column, hcolumns]
  have hfailure : capacityFailure db' = capacityFailure db := by
    funext m
    rw [capacityFailure, capacityFailure, hcolumn]
  rw [validateEncryptedColumnCapacity, validateEncryptedColumnCapacity, hfailure]
  simp only [hcolumn]

variable {E : Env} {draws draws' : Draws} {source source' : Source} {db db' : Database} {n m : ℕ}

/-- An applied run migrates the database. -/
theorem migrated_of_apply (h : migrate E draws source true db = (db', .ok n)) :
    Migrated E source db db' := by
  obtain ⟨capacities, fernet, -, hfernet, hrun⟩ := migrate_ok.mp h
  have hdone := Run.migrateTables_done names_nodup hrun
  refine ⟨fun f hf t ht => ?_, hdone.absent, hdone.others⟩
  obtain ⟨t', hexec, ht'⟩ := hdone.tables f hf t ht
  exact ⟨t', ht', tableMigrated_of_executeTable (R := ⟨E, source, true, fernet, capacities, draws⟩)
    hfernet hf rfl (hdone.converts f hf t ht) hexec⟩

theorem Migrated.columns (h : Migrated E source db db') (name : PyStr) :
    (db' name).map PiiTable.columns = (db name).map PiiTable.columns := by
  by_cases hname : name ∈ FIELDS.map Prod.fst
  · obtain ⟨f, hf, rfl⟩ := List.mem_map.mp hname
    cases ht : db f.1 with
    | none => rw [h.absent f hf ht]
    | some t =>
      obtain ⟨t', ht', hmigrated⟩ := h.tables f hf t ht
      rw [ht', Option.map_some, Option.map_some, hmigrated.columns]
  · rw [h.others name hname]

/-- A run over settled tables changes nothing. -/
theorem migrate_of_settled {capacities : PyStr → PyStr → Option ℕ}
    {fernet : Option (List UInt8 → Option (List UInt8))} {apply : Bool}
    (hcap : validateEncryptedColumnCapacity db = .ok capacities)
    (hkey : legacyFernet E source = .ok fernet)
    (h : ∀ f ∈ FIELDS, ∀ t, db f.1 = some t →
      Run.Settled ⟨E, source, apply, fernet, capacities, draws⟩ f t) :
    migrate E draws source apply db = (db, .ok 0) := by
  have hconv : ∀ f ∈ FIELDS, ∀ t, db f.1 = some t →
      Run.ConvertsTable ⟨E, source, apply, fernet, capacities, draws⟩ f t :=
    fun f hf t ht x hx => ⟨[], h f hf t ht x hx⟩
  have haccepted : Run.Accepted ⟨E, source, apply, fernet, capacities, draws⟩ FIELDS db :=
    fun f hf t ht => ⟨t, (h f hf t ht).executeTable_eq.1⟩
  obtain ⟨⟨⟨db', n⟩, hrun⟩, -⟩ | ⟨-, hnot⟩ :=
    Run.migrateTables_of_converts (n := 0) names_nodup hconv
  · have hdone := Run.migrateTables_done names_nodup hrun
    have hdb : db' = db := by
      funext name
      by_cases hname : name ∈ FIELDS.map Prod.fst
      · obtain ⟨f, hf, rfl⟩ := List.mem_map.mp hname
        cases ht : db f.1 with
        | none => exact hdone.absent f hf ht
        | some t =>
          obtain ⟨t', hexec, ht'⟩ := hdone.tables f hf t ht
          rw [(h f hf t ht).executeTable_eq.1] at hexec
          cases hexec
          exact ht'
      · exact hdone.others name hname
    have hcount : n = 0 := by
      have hzero : ∀ f ∈ FIELDS, tableCount db f = 0 := by
        intro f hf
        rw [tableCount]
        cases ht : db f.1 with
        | none => rfl
        | some t => exact (h f hf t ht).executeTable_eq.2
      have hn : n = 0 + (FIELDS.map (tableCount db)).sum := hdone.count
      rw [hn, List.map_congr_left hzero]
      simp
    rw [hdb, hcount] at hrun
    exact migrate_ok.mpr ⟨_, _, hcap, hkey, hrun⟩
  · exact absurd haccepted hnot

/-- A second run finds nothing to convert, whatever format it is told to expect. -/
theorem migrate_again (h : migrate E draws source true db = (db', .ok n))
    (hkey : ∃ fernet, legacyFernet E source' = .ok fernet) :
    migrate E draws' source' true db' = (db', .ok 0) := by
  obtain ⟨capacities, fernet, hcap, hfernet, hrun⟩ := migrate_ok.mp h
  obtain ⟨fernet', hfernet'⟩ := hkey
  have hdone := Run.migrateTables_done names_nodup hrun
  have hcap' : validateEncryptedColumnCapacity db' = .ok capacities := by
    rw [validate_congr (migrated_of_apply h).columns, hcap]
  refine migrate_of_settled hcap' hfernet' fun f hf t' ht' => ?_
  cases ht : db f.1 with
  | none =>
    have hnone : db' f.1 = none := hdone.absent f hf ht
    rw [ht'] at hnone
    cases hnone
  | some t =>
    obtain ⟨t₁, hexec, ht₁⟩ := hdone.tables f hf t ht
    obtain rfl := Option.some.inj (ht'.symm.trans ht₁)
    exact settled_of_executeTable (R := ⟨E, source, true, fernet, capacities, draws⟩) rfl rfl hf rfl
      (hdone.converts f hf t ht) hexec

/-! ### Dry runs -/

/-- The legacy values of the database. -/
def valueCount (db : Database) : ℕ := (FIELDS.map (tableCount db)).sum

/-- A run that returns has counted the legacy values. -/
theorem count_of_migrate {apply : Bool} (h : migrate E draws source apply db = (db', .ok n)) :
    n = valueCount db := by
  obtain ⟨capacities, fernet, -, -, hrun⟩ := migrate_ok.mp h
  have hcount : n = 0 + valueCount db := (Run.migrateTables_done names_nodup hrun).count
  rw [hcount, Nat.zero_add]

/-- A dry run changes nothing. -/
theorem migrate_dry : (migrate E draws source false db).1 = db := by
  cases hresult : (migrate E draws source false db).2 with
  | error e => exact migrate_error hresult
  | ok n =>
    obtain ⟨capacities, fernet, -, -, hrun⟩ := migrate_ok.mp (Prod.ext rfl hresult)
    have hdone := Run.migrateTables_done names_nodup hrun
    funext name
    by_cases hname : name ∈ FIELDS.map Prod.fst
    · obtain ⟨f, hf, rfl⟩ := List.mem_map.mp hname
      cases ht : db f.1 with
      | none => exact hdone.absent f hf ht
      | some t =>
        obtain ⟨t', hexec, ht'⟩ := hdone.tables f hf t ht
        rw [Run.executeTable, Run.executeAll_dry rfl] at hexec
        cases hexec
        exact ht'
    · exact hdone.others name hname

/-- The migration is all or nothing, leaves the listed values readable as what they stood for, is
idempotent, and its dry run changes nothing and counts what an applied run converts. -/
theorem envelope_migration (E : Env) (source : Source) (db : Database) :
    (∀ apply draws, (∃ e, (migrate E draws source apply db).2 = .error e ∧
        (migrate E draws source apply db).1 = db) ∨
      ∃ n, (migrate E draws source apply db).2 = .ok n) ∧
    (∀ draws db' n, migrate E draws source true db = (db', .ok n) →
      Migrated E source db db' ∧ migrate E draws source true db' = (db', .ok 0) ∧
      ∀ draws' source' fernet, legacyFernet E source' = .ok fernet →
        migrate E draws' source' true db' = (db', .ok 0)) ∧
    (∀ draws, (migrate E draws source false db).1 = db ∧
      ∀ n draws' db' m, (migrate E draws source false db).2 = .ok n →
        migrate E draws' source true db = (db', .ok m) → n = m) := by
  refine ⟨fun apply draws => ?_, fun draws db' n h => ⟨migrated_of_apply h, ?_, ?_⟩,
    fun draws => ⟨migrate_dry, ?_⟩⟩
  · cases hresult : (migrate E draws source apply db).2 with
    | error e => exact .inl ⟨e, rfl, migrate_error hresult⟩
    | ok n => exact .inr ⟨n, rfl⟩
  · obtain ⟨-, fernet, -, hfernet, -⟩ := migrate_ok.mp h
    exact migrate_again h ⟨fernet, hfernet⟩
  · exact fun draws' source' fernet hfernet => migrate_again h ⟨fernet, hfernet⟩
  · intro n draws' db' m hn hm
    rw [count_of_migrate (Prod.ext rfl hn), count_of_migrate hm]

end SecureVote.PiiMigration
