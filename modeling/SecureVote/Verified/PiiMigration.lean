import SecureVote.Scripts.MigratePiiEnvelope

/-!
# What the envelope migration does to a cell, a row and a table

The conversion of a cell is settled by the cell alone, up to the nonce it draws. A row of a table is
rewritten by its own conversions, and the loops over rows and tables do no more than that.
-/

open Txn

namespace SecureVote.PiiMigration

open Py Encryption

/-! ### Cells -/

/-- The text a legacy value stands for in the format the operator selected. -/
def legacyText (service : ChaChaEncryptionService) (source : Source)
    (fernet : Option (List UInt8 → Option (List UInt8))) (value : PyStr) : Option PyStr :=
  match source with
  | .legacyChacha =>
      ((decodePayload value).bind fun combined => service.decryptCombined combined none).toOption
  | .legacyFernet => fernet.bind fun decrypt => fernetText decrypt value
  | .markedPlaintext =>
      if legacyPlaintextPrefix.isPrefixOf value then
        some (value.drop legacyPlaintextPrefix.length)
      else none

/-- The conversion of a legacy value flags it as changed. -/
theorem map_changed {x : Except PiiError PyStr} {migrated : PyStr} {changed : Bool} :
    x.map (·, true) = .ok (migrated, changed) ↔ changed = true ∧ x = .ok migrated := by
  cases x with
  | error e => simp [Except.map]
  | ok m => simp [Except.map, and_comm, eq_comm]

theorem migrateLegacyCiphertext_ok {service : ChaChaEncryptionService} {nonce : List UInt8}
    {value migrated : PyStr} (hlegacy : envelopePrefix.isPrefixOf value = false) :
    service.migrateLegacyCiphertext nonce value = .ok migrated ↔
      ∃ text, legacyText service .legacyChacha none value = some text ∧
        service.encrypt nonce text = .ok migrated := by
  rw [ChaChaEncryptionService.migrateLegacyCiphertext, if_neg (by rw [hlegacy]; decide), legacyText]
  cases (decodePayload value).bind fun combined => service.decryptCombined combined none with
  | error e => simp [Except.toOption]
  | ok text => simp [Except.toOption]

/-- A legacy value is converted to the encryption of its text. -/
theorem convert_legacy {service : ChaChaEncryptionService} {nonce : List UInt8}
    {value migrated : PyStr} {source : Source}
    {fernet : Option (List UInt8 → Option (List UInt8))} {changed : Bool}
    (hlegacy : envelopePrefix.isPrefixOf value = false) :
    convert service nonce value source fernet = .ok (migrated, changed) ↔
      changed = true ∧ ∃ text, legacyText service source fernet value = some text ∧
        service.encrypt nonce text = .ok migrated := by
  rw [convert.eq_def, if_neg (by rw [hlegacy]; decide)]
  cases source with
  | legacyChacha =>
    rw [map_changed, migrateLegacyCiphertext_ok hlegacy]
    rfl
  | legacyFernet =>
    cases fernet with
    | none => simp [legacyText]
    | some decrypt =>
      dsimp only [legacyText, Option.bind_some]
      cases fernetText decrypt value with
      | none => simp
      | some plaintext =>
        dsimp only
        rw [map_changed]
        simp
  | markedPlaintext =>
    dsimp only
    rw [map_changed, ChaChaEncryptionService.migrateLegacyPlaintext, legacyText]
    by_cases hmark : legacyPlaintextPrefix.isPrefixOf value = true
    · rw [if_pos hmark, if_pos hmark]
      simp
    · rw [if_neg hmark, if_neg hmark]
      simp

/-- A current value stays as it is when it decrypts. -/
theorem convert_current {service : ChaChaEncryptionService} {nonce : List UInt8}
    {value migrated : PyStr} {source : Source}
    {fernet : Option (List UInt8 → Option (List UInt8))} {changed : Bool}
    (hcurrent : envelopePrefix.isPrefixOf value = true) :
    convert service nonce value source fernet = .ok (migrated, changed) ↔
      changed = false ∧ migrated = value ∧ ∃ text, service.decrypt value = .ok text := by
  rw [convert.eq_def, if_pos hcurrent]
  cases service.decrypt value with
  | error e => simp
  | ok text => simp [eq_comm, and_comm]

/-! ### Fields -/

/-- The length fits the reflected capacity. -/
def Run.Fits (R : Run) (table field : PyStr) (length : ℕ) : Prop :=
  ∀ capacity, R.capacities table field = some capacity → length ≤ capacity

/-- What becomes of a listed cell: NULL and current values stay, and a legacy value is replaced by
the encryption of its text, together with the hash of that text where there is a column for it. -/
inductive Run.Converts (R : Run) (columns : List PyStr) (table : PyStr) (id : ℕ) (field : PyStr) :
    Option PyStr → Option FieldUpdate → Prop
  | null : R.Converts columns table id field none none
  | current (value text : PyStr) :
      envelopePrefix.isPrefixOf value = true → R.env.service.decrypt value = .ok text →
      R.Fits table field value.length → R.Converts columns table id field (some value) none
  | legacy (value text migrated : PyStr) (hash : Option (PyStr × Option PyStr)) :
      envelopePrefix.isPrefixOf value = false →
      legacyText R.env.service R.source R.fernet value = some text →
      R.env.service.encrypt (R.draws.nonce table id field) text = .ok migrated →
      R.Fits table field migrated.length →
      R.hashUpdate columns table field migrated = .ok hash →
      R.Converts columns table id field (some value) (some ⟨field, migrated, hash⟩)

theorem Run.fits_iff {R : Run} {table field : PyStr} {length : ℕ} :
    R.Fits table field length ↔ (R.capacities table field).filter (· < length) = none := by
  rw [Option.filter_eq_none_iff]
  simp only [Run.Fits, decide_eq_true_eq, not_lt]

/-- The body of the field loop returns what becomes of the cell. -/
theorem Run.convertField_ok {R : Run} {columns : List PyStr} {table field : PyStr} {row : Row}
    {o : Option FieldUpdate} :
    R.convertField columns table row field = .ok o ↔
      R.Converts columns table row.id field (row.cells field) o := by
  rw [Run.convertField]
  cases row.cells field with
  | none =>
    dsimp only
    constructor
    · intro h
      cases h
      exact .null
    · intro h
      cases h
      rfl
  | some value =>
    dsimp only
    constructor
    · intro h
      split at h
      · cases h
      next migrated changed hconvert =>
        split at h
        · cases h
        next hfits =>
          have hfits' := Run.fits_iff.mpr hfits
          by_cases hmark : envelopePrefix.isPrefixOf value = true
          · obtain ⟨rfl, rfl, text, htext⟩ := (convert_current hmark).mp hconvert
            cases h
            exact .current _ text hmark htext hfits'
          · rw [Bool.not_eq_true] at hmark
            obtain ⟨rfl, text, htext, hencrypt⟩ := (convert_legacy hmark).mp hconvert
            rw [if_pos rfl] at h
            cases hhash : R.hashUpdate columns table field migrated with
            | error e =>
              rw [hhash] at h
              cases h
            | ok hash =>
              rw [hhash] at h
              cases h
              exact .legacy _ text _ _ hmark htext hencrypt hfits' hhash
    · intro h
      cases h with
      | current value text hmark htext hfits =>
        have hconvert : convert R.env.service (R.draws.nonce table row.id field) value R.source
            R.fernet = .ok (value, false) := (convert_current hmark).mpr ⟨rfl, rfl, text, htext⟩
        rw [hconvert]
        dsimp only
        rw [Run.fits_iff.mp hfits]
        rfl
      | legacy value text migrated hash hmark htext hencrypt hfits hhash =>
        have hconvert : convert R.env.service (R.draws.nonce table row.id field) value R.source
            R.fernet = .ok (migrated, true) :=
          (convert_legacy hmark).mpr ⟨rfl, text, htext, hencrypt⟩
        rw [hconvert]
        dsimp only
        rw [Run.fits_iff.mp hfits, hhash]
        rfl

/-! ### Hashes -/

/-- The hash assignment of a replaced value, from the text its envelope decrypts to. -/
theorem Run.hashUpdate_ok {R : Run} {columns : List PyStr} {table field migrated text : PyStr}
    (htext : R.env.service.decrypt migrated = .ok text) {hash : Option (PyStr × Option PyStr)} :
    R.hashUpdate columns table field migrated = .ok hash ↔
      (∀ column, LICENCE_HASH_COLUMNS table field = some column → column ∈ columns →
        ∃ h, R.env.licence.hashLic (some text) = .ok h ∧ hash = some (column, h)) ∧
      ((∀ column, LICENCE_HASH_COLUMNS table field = some column → column ∉ columns) →
        hash = none) := by
  rw [Run.hashUpdate]
  cases LICENCE_HASH_COLUMNS table field with
  | none => simp [eq_comm]
  | some column =>
    dsimp only
    by_cases hmem : column ∈ columns
    · rw [if_pos hmem, htext]
      dsimp only
      cases R.env.licence.hashLic (some text) with
      | error e => simp [hmem]
      | ok h => simp [hmem, eq_comm]
    · rw [if_neg hmem]
      simp [hmem, eq_comm]

theorem column_of_hashUpdate {R : Run} {columns : List PyStr} {table field migrated column : PyStr}
    {h : Option PyStr} (hhash : R.hashUpdate columns table field migrated = .ok (some (column, h))) :
    LICENCE_HASH_COLUMNS table field = some column := by
  rw [Run.hashUpdate] at hhash
  split at hhash
  · cases hhash
  next column' hcolumn =>
    split at hhash
    · split at hhash
      · cases hhash
      · split at hhash
        · cases hhash
        · cases hhash
          exact hcolumn
    · cases hhash

/-- Two fields of a table have no hash column in common. -/
theorem hash_columns_inj {table f g column : PyStr}
    (hf : LICENCE_HASH_COLUMNS table f = some column)
    (hg : LICENCE_HASH_COLUMNS table g = some column) : f = g := by
  rw [LICENCE_HASH_COLUMNS] at hf hg
  have hne : py "user" ≠ py "electoral_roll" := by decide
  split at hf
  next h =>
    split at hg
    next h' => rw [h.2, h'.2]
    next =>
      split at hg
      next h' => exact absurd (h.1.symm.trans h'.1) hne
      next => cases hg
  next =>
    split at hf
    next h =>
      split at hg
      next h' => exact absurd (h'.1.symm.trans h.1) hne
      next =>
        split at hg
        next h' => rw [h.2, h'.2]
        next => cases hg
    next => cases hf

/-- The listed fields of all tables. -/
def listed : List PyStr := FIELDS.flatMap Prod.snd

/-- A hash column is not a listed field. -/
theorem hash_column_not_listed {table f column : PyStr}
    (h : LICENCE_HASH_COLUMNS table f = some column) : column ∉ listed := by
  rw [LICENCE_HASH_COLUMNS] at h
  split at h
  · cases h
    decide
  · split at h
    · cases h
      decide
    · cases h

/-! ### Rows -/

/-- The cell holds a value that is not an envelope of the current version. -/
def Row.legacy (row : Row) (field : PyStr) : Bool :=
  (row.cells field).any fun value => !envelopePrefix.isPrefixOf value

variable {R : Run} {columns : List PyStr} {table : PyStr} {fields : List PyStr} {row : Row}

theorem Run.Converts.unique {id : ℕ} {field : PyStr} {cell : Option PyStr}
    {o₁ o₂ : Option FieldUpdate} (h₁ : R.Converts columns table id field cell o₁)
    (h₂ : R.Converts columns table id field cell o₂) : o₁ = o₂ := by
  have hrow : ∀ o, R.Converts columns table id field cell o →
      R.convertField columns table ⟨id, fun _ => cell⟩ field = .ok o :=
    fun o ho => Run.convertField_ok.mpr ho
  exact Except.ok.inj ((hrow o₁ h₁).symm.trans (hrow o₂ h₂))

theorem Run.Converts.isSome {id : ℕ} {field : PyStr} {cell : Option PyStr} {o : Option FieldUpdate}
    (h : R.Converts columns table id field cell o) :
    o.isSome = cell.any fun value => !envelopePrefix.isPrefixOf value := by
  cases h with
  | null => rfl
  | current value text hmark => simp [hmark]
  | legacy value text migrated hash hmark => simp [hmark]

theorem Run.Converts.field_eq {id : ℕ} {field : PyStr} {cell : Option PyStr} {u : FieldUpdate}
    (h : R.Converts columns table id field cell (some u)) : u.field = field := by
  cases h
  rfl

theorem Run.Converts.hash_column {id : ℕ} {field : PyStr} {cell : Option PyStr} {u : FieldUpdate}
    (h : R.Converts columns table id field cell (some u)) {column : PyStr} {v : Option PyStr}
    (hu : u.hash = some (column, v)) : LICENCE_HASH_COLUMNS table field = some column := by
  cases h with
  | legacy value text migrated hash hmark htext hencrypt hfits hhash =>
    dsimp only at hu
    subst hu
    exact column_of_hashUpdate hhash

/-- The row loop returns just when every listed cell converts. -/
theorem Run.exists_convertRow :
    (∃ us, R.convertRow columns table fields row = .ok us) ↔
      ∀ f ∈ fields, ∃ o, R.Converts columns table row.id f (row.cells f) o := by
  rw [Run.convertRow]
  simp only [← Run.convertField_ok, ← exists_mapM_ok]
  cases fields.mapM (R.convertField columns table row) with
  | error e => simp [Except.map]
  | ok os => simp [Except.map]

/-- What the row loop collects: one update for each legacy value. -/
theorem Run.convertRow_ok {us : List FieldUpdate} (h : R.convertRow columns table fields row = .ok us) :
    (∀ u, u ∈ us ↔ ∃ f ∈ fields, R.Converts columns table row.id f (row.cells f) (some u)) ∧
      us.length = fields.countP row.legacy := by
  rw [Run.convertRow] at h
  cases hos : fields.mapM (R.convertField columns table row) with
  | error e =>
    rw [hos] at h
    cases h
  | ok os =>
    rw [hos] at h
    cases h
    constructor
    · intro u
      rw [mem_reduceOption_of_mapM hos]
      simp only [Run.convertField_ok]
    · exact length_reduceOption_of_mapM hos row.legacy fun f _ o ho =>
        (Run.convertField_ok.mp ho).isSome

/-- The values of a row that are replaced, if all its cells convert. -/
def Run.updates (R : Run) (columns : List PyStr) (table : PyStr) (fields : List PyStr)
    (row : Row) : List FieldUpdate :=
  match R.convertRow columns table fields row with
  | .ok us => us
  | .error _ => []

/-- What the `UPDATE` of the row assigns. -/
def Run.assignments (R : Run) (columns : List PyStr) (table : PyStr) (fields : List PyStr)
    (row : Row) : Assignments :=
  (R.updates columns table fields row).flatMap FieldUpdate.assignments

/-- What is assigned: the envelope of a replaced value, or the hash of a replaced licence. -/
theorem Run.mem_assignments {us : List FieldUpdate}
    (h : R.convertRow columns table fields row = .ok us) (a : PyStr × Option PyStr) :
    a ∈ R.assignments columns table fields row ↔
      ∃ f ∈ fields, ∃ u, R.Converts columns table row.id f (row.cells f) (some u) ∧
        (a = (f, some u.migrated) ∨ u.hash = some a) := by
  rw [Run.assignments, Run.updates, h]
  simp only [List.mem_flatMap, FieldUpdate.assignments, List.mem_cons, Option.mem_toList,
    (Run.convertRow_ok h).1]
  constructor
  · rintro ⟨u, ⟨f, hf, hu⟩, ha⟩
    exact ⟨f, hf, u, hu, hu.field_eq ▸ ha⟩
  · rintro ⟨f, hf, u, hu, ha⟩
    exact ⟨u, ⟨f, hf, hu⟩, hu.field_eq.symm ▸ ha⟩

section Assigned

variable (hlisted : ∀ f ∈ fields, f ∈ listed) {us : List FieldUpdate}
  (h : R.convertRow columns table fields row = .ok us)

include hlisted h

/-- A listed cell that is not replaced stays. -/
theorem Run.cell_of_kept {f : PyStr} (hf : f ∈ fields)
    (hkept : R.Converts columns table row.id f (row.cells f) none) :
    (row.assign (R.assignments columns table fields row)).cells f = row.cells f := by
  refine assignAll_of_forall_ne fun a ha hname => ?_
  obtain ⟨g, hg, u, hu, rfl | hhash⟩ := (Run.mem_assignments h a).mp ha
  · obtain rfl : g = f := hname
    cases hkept.unique hu
  · obtain ⟨column, v⟩ := a
    obtain rfl : column = f := hname
    exact hash_column_not_listed (hu.hash_column hhash) (hlisted _ hf)

/-- A replaced cell holds its envelope. -/
theorem Run.cell_of_replaced {f : PyStr} (hf : f ∈ fields) {u : FieldUpdate}
    (hreplaced : R.Converts columns table row.id f (row.cells f) (some u)) :
    (row.assign (R.assignments columns table fields row)).cells f = some u.migrated := by
  refine assignAll_of_mem ((Run.mem_assignments h _).mpr ⟨f, hf, u, hreplaced, .inl rfl⟩)
    fun a ha hname => ?_
  obtain ⟨g, hg, w, hw, rfl | hhash⟩ := (Run.mem_assignments h a).mp ha
  · obtain rfl : g = f := hname
    obtain rfl := Option.some.inj (hw.unique hreplaced)
    rfl
  · obtain ⟨column, v⟩ := a
    obtain rfl : column = f := hname
    exact absurd (hlisted _ hf) (hash_column_not_listed (hw.hash_column hhash))

/-- The hash column of a replaced licence holds its hash. -/
theorem Run.hash_of_replaced {f : PyStr} (hf : f ∈ fields) {u : FieldUpdate}
    (hreplaced : R.Converts columns table row.id f (row.cells f) (some u)) {column : PyStr}
    {v : Option PyStr} (hu : u.hash = some (column, v)) :
    (row.assign (R.assignments columns table fields row)).cells column = v := by
  have hcolumn := hreplaced.hash_column hu
  refine assignAll_of_mem ((Run.mem_assignments h _).mpr ⟨f, hf, u, hreplaced, .inr hu⟩)
    fun a ha hname => ?_
  obtain ⟨g, hg, w, hw, rfl | hhash⟩ := (Run.mem_assignments h a).mp ha
  · obtain rfl : g = column := hname
    exact absurd (hlisted _ hg) (hash_column_not_listed hcolumn)
  · obtain ⟨column', v'⟩ := a
    obtain rfl : column' = column := hname
    obtain rfl : g = f := hash_columns_inj (hw.hash_column hhash) hcolumn
    obtain rfl := Option.some.inj (hw.unique hreplaced)
    have hsame := hhash.symm.trans hu
    cases hsame
    rfl

omit hlisted in
/-- Every other column stays. -/
theorem Run.cell_of_other {column : PyStr} (hfield : column ∉ fields)
    (hhash : ∀ f ∈ fields, row.legacy f = true → LICENCE_HASH_COLUMNS table f ≠ some column) :
    (row.assign (R.assignments columns table fields row)).cells column = row.cells column := by
  refine assignAll_of_forall_ne fun a ha hname => ?_
  obtain ⟨g, hg, u, hu, rfl | hu'⟩ := (Run.mem_assignments h a).mp ha
  · exact hfield (hname ▸ hg)
  · obtain ⟨column', v⟩ := a
    obtain rfl : column' = column := hname
    exact hhash g hg hu.isSome.symm (hu.hash_column hu')

end Assigned

/-! ### Tables -/

/-- The row updates of a table, one after the other. -/
def Run.executeAll (R : Run) (columns : List PyStr) (table : PyStr) (fields : List PyStr) :
    PiiTable → List Row → Except MigrateError PiiTable
  | t, [] => .ok t
  | t, x :: xs =>
      match R.execute table t x.id (R.updates columns table fields x) with
      | .ok t' => R.executeAll columns table fields t' xs
      | .error e => .error e

/-- The legacy values of the rows. -/
def legacyCount (fields : List PyStr) (rows : List Row) : ℕ :=
  (rows.map fun row => fields.countP row.legacy).sum

theorem Run.migrateRow_of_converts {us : List FieldUpdate} {t : PiiTable} {n : ℕ}
    (h : R.convertRow columns table fields row = .ok us) :
    R.migrateRow columns table fields (t, n) row =
      (R.execute table t row.id (R.updates columns table fields row)).map
        (·, n + fields.countP row.legacy) := by
  rw [Run.migrateRow, h, Run.updates, h, ← (Run.convertRow_ok h).2]
  dsimp only [bind, Except.bind]
  cases R.execute table t row.id us with
  | error e => rfl
  | ok t' => rfl

/-- When all the rows convert, the row loop is the updates of the rows, and counts legacy values. -/
theorem Run.migrateRows_of_converts {rows : List Row} {t : PiiTable} {n : ℕ}
    (h : ∀ x ∈ rows, ∃ us, R.convertRow columns table fields x = .ok us) :
    rows.foldlM (R.migrateRow columns table fields) (t, n) =
      (R.executeAll columns table fields t rows).map (·, n + legacyCount fields rows) := by
  induction rows generalizing t n with
  | nil => rfl
  | cons x xs ih =>
    obtain ⟨⟨us, hx⟩, hxs⟩ := List.forall_mem_cons.mp h
    rw [List.foldlM_cons, Run.migrateRow_of_converts hx, Run.executeAll]
    cases R.execute table t x.id (R.updates columns table fields x) with
    | error e => rfl
    | ok t' =>
      dsimp only [Except.map, bind, Except.bind]
      rw [ih hxs, legacyCount, legacyCount, List.map_cons, List.sum_cons, Nat.add_assoc]
      rfl

/-- A row loop that returns has converted all the rows. -/
theorem Run.converts_of_migrateRows {rows : List Row} {s s' : PiiTable × ℕ}
    (h : rows.foldlM (R.migrateRow columns table fields) s = .ok s') :
    ∀ x ∈ rows, ∃ us, R.convertRow columns table fields x = .ok us := by
  induction rows generalizing s with
  | nil => exact fun _ hx => absurd hx List.not_mem_nil
  | cons x xs ih =>
    rw [List.foldlM_cons] at h
    cases hx : R.migrateRow columns table fields s x with
    | error e =>
      rw [hx] at h
      cases h
    | ok s₁ =>
      rw [hx] at h
      refine List.forall_mem_cons.mpr ⟨?_, ih h⟩
      rw [Run.migrateRow] at hx
      cases hus : R.convertRow columns table fields x with
      | error e =>
        rw [hus] at hx
        cases hx
      | ok us => exact ⟨us, rfl⟩

/-- The dry run updates nothing. -/
theorem Run.executeAll_dry {rows : List Row} {t : PiiTable} (hdry : R.apply = false) :
    R.executeAll columns table fields t rows = .ok t := by
  induction rows with
  | nil => rfl
  | cons x xs ih =>
    have hnot : ¬(R.updates columns table fields x ≠ [] ∧ R.apply = true) := by simp [hdry]
    rw [Run.executeAll, Run.execute, if_neg hnot]
    exact ih

/-- An update fails on a constraint only. -/
theorem Run.executeAll_error {rows : List Row} {t : PiiTable} {e : MigrateError}
    (h : R.executeAll columns table fields t rows = .error e) : ∃ id, e = .integrity table id := by
  induction rows generalizing t with
  | nil => cases h
  | cons x xs ih =>
    rw [Run.executeAll] at h
    split at h
    · exact ih h
    next e' he =>
      cases h
      rw [Run.execute] at he
      split at he
      · split at he
        · cases he
        · cases he
          exact ⟨x.id, rfl⟩
      · cases he

/-- One update assigns to its row and to no other. -/
theorem Run.execute_rows {t t' : PiiTable} {id : ℕ} {us : List FieldUpdate}
    (happly : R.apply = true) (h : R.execute table t id us = .ok t') :
    t'.columns = t.columns ∧ t'.data.rows = t.data.rows.map fun r =>
      if r.id = id then r.assign (us.flatMap FieldUpdate.assignments) else r := by
  rw [Run.execute] at h
  split at h
  · split at h
    next t₁ ht₁ =>
      cases h
      rw [PiiTable.update] at ht₁
      split at ht₁
      · cases ht₁
        exact ⟨rfl, rfl⟩
      · cases ht₁
    next => cases h
  next hnone =>
    cases h
    have hnil : us = [] := by simpa [happly] using hnone
    subst hnil
    refine ⟨rfl, ?_⟩
    have hsame : ∀ r ∈ t.data.rows, (if r.id = id then r.assign [] else r) = r := by
      intro r _
      split
      · rfl
      · rfl
    exact (List.map_congr_left hsame |>.trans (List.map_id' _)).symm

/-- What the updates of the rows make of one row. -/
def Run.rowAfter (R : Run) (columns : List PyStr) (table : PyStr) (fields : List PyStr)
    (rows : List Row) (r : Row) : Row :=
  rows.foldl (fun r x => if r.id = x.id then r.assign (R.assignments columns table fields x) else r) r

theorem Run.executeAll_rows {rows : List Row} {t t' : PiiTable} (happly : R.apply = true)
    (h : R.executeAll columns table fields t rows = .ok t') :
    t'.columns = t.columns ∧
      t'.data.rows = t.data.rows.map (R.rowAfter columns table fields rows) := by
  induction rows generalizing t with
  | nil =>
    cases h
    exact ⟨rfl, (List.map_id _).symm⟩
  | cons x xs ih =>
    rw [Run.executeAll] at h
    split at h
    next t₁ ht₁ =>
      obtain ⟨hcolumns, hrows⟩ := Run.execute_rows happly ht₁
      obtain ⟨hcolumns', hrows'⟩ := ih h
      rw [hcolumns', hcolumns, hrows', hrows, List.map_map]
      exact ⟨rfl, rfl⟩
    · cases h

theorem Run.rowAfter_id {rows : List Row} {r : Row} :
    (R.rowAfter columns table fields rows r).id = r.id := by
  induction rows generalizing r with
  | nil => rfl
  | cons x xs ih =>
    rw [Run.rowAfter, List.foldl_cons, ← Run.rowAfter, ih]
    split
    · rfl
    · rfl

theorem Run.rowAfter_of_not_mem {rows : List Row} {r : Row} (h : r.id ∉ rows.map Row.id) :
    R.rowAfter columns table fields rows r = r := by
  induction rows with
  | nil => rfl
  | cons x xs ih =>
    rw [List.map_cons, List.mem_cons, not_or] at h
    rw [Run.rowAfter, List.foldl_cons, if_neg h.1, ← Run.rowAfter, ih h.2]

/-- Ids being distinct, a row gets its own assignments. -/
theorem Run.rowAfter_of_mem {rows : List Row} {r : Row} (hids : (rows.map Row.id).Nodup)
    (hr : r ∈ rows) :
    R.rowAfter columns table fields rows r = r.assign (R.assignments columns table fields r) := by
  induction rows with
  | nil => cases hr
  | cons x xs ih =>
    rw [List.map_cons, List.nodup_cons] at hids
    rw [Run.rowAfter, List.foldl_cons, ← Run.rowAfter]
    obtain rfl | hr := List.mem_cons.mp hr
    · rw [if_pos rfl]
      exact Run.rowAfter_of_not_mem hids.1
    · have hne : r.id ≠ x.id := by
        intro heq
        exact hids.1 (heq ▸ List.mem_map_of_mem hr)
      rw [if_neg hne, ih hids.2 hr]


/-! ### Databases -/

/-- The rows of the table convert. -/
def Run.ConvertsTable (R : Run) (f : PyStr × List PyStr) (t : PiiTable) : Prop :=
  ∀ x ∈ t.data.rows, ∃ us, R.convertRow t.names f.1 (t.fields f.2) x = .ok us

/-- The updates of the rows of a table. -/
def Run.executeTable (R : Run) (f : PyStr × List PyStr) (t : PiiTable) : Except MigrateError PiiTable :=
  R.executeAll t.names f.1 (t.fields f.2) t t.data.rows

/-- The legacy values of a listed table. -/
def tableCount (db : Database) (f : PyStr × List PyStr) : ℕ :=
  (db f.1).elim 0 fun t => legacyCount (t.fields f.2) t.data.rows

theorem legacyCount_nil (rows : List Row) : legacyCount [] rows = 0 := by
  induction rows with
  | nil => rfl
  | cons x xs ih =>
    rw [legacyCount, List.map_cons, List.sum_cons, ← legacyCount, ih]
    rfl

theorem Run.executeAll_nil {rows : List Row} {t : PiiTable} :
    R.executeAll columns table [] t rows = .ok t := by
  induction rows with
  | nil => rfl
  | cons x xs ih =>
    have hupdates : R.updates columns table [] x = [] := rfl
    have hnot : ¬(R.updates columns table [] x ≠ [] ∧ R.apply = true) := by simp [hupdates]
    rw [Run.executeAll, Run.execute, if_neg hnot]
    exact ih

/-- A table that converts is replaced by what its updates make of it. -/
theorem Run.migrateTable_of_converts {f : PyStr × List PyStr} {db : Database} {n : ℕ}
    (h : ∀ t, db f.1 = some t → R.ConvertsTable f t) :
    R.migrateTable (db, n) f = match db f.1 with
      | none => .ok (db, n)
      | some t => (R.executeTable f t).map fun t' =>
          (Function.update db f.1 (some t'), n + tableCount db f) := by
  rw [Run.migrateTable]
  dsimp only
  cases ht : db f.1 with
  | none => rfl
  | some t =>
    have hcount : tableCount db f = legacyCount (t.fields f.2) t.data.rows := by
      rw [tableCount, ht, Option.elim_some]
    dsimp only
    rw [hcount, Run.executeTable]
    by_cases hnil : t.fields f.2 = []
    · rw [if_pos hnil, hnil, Run.executeAll_nil, legacyCount_nil]
      have hself : Function.update db f.1 (some t) = db := by rw [← ht, Function.update_eq_self]
      rw [Except.map, hself]
      rfl
    · rw [if_neg hnil, Run.migrateRows_of_converts (h t ht)]
      cases R.executeAll t.names f.1 (t.fields f.2) t t.data.rows with
      | error e => rfl
      | ok t' => rfl

/-- The table loop has converted the table when it returns. -/
theorem Run.converts_of_migrateTable {f : PyStr × List PyStr} {s s' : Database × ℕ}
    (h : R.migrateTable s f = .ok s') : ∀ t, s.1 f.1 = some t → R.ConvertsTable f t := by
  intro t ht x hx
  rw [Run.migrateTable, ht] at h
  dsimp only at h
  by_cases hnil : t.fields f.2 = []
  · rw [hnil]
    exact ⟨[], rfl⟩
  · rw [if_neg hnil] at h
    cases hrows : t.data.rows.foldlM (R.migrateRow t.names f.1 (t.fields f.2)) (t, s.2) with
    | error e =>
      rw [hrows] at h
      cases h
    | ok s₁ => exact Run.converts_of_migrateRows hrows x hx

/-- The listed tables of a run: what each becomes, what stays, and the count. -/
structure Run.Done (R : Run) (fs : List (PyStr × List PyStr)) (s s' : Database × ℕ) : Prop where
  converts : ∀ f ∈ fs, ∀ t, s.1 f.1 = some t → R.ConvertsTable f t
  tables : ∀ f ∈ fs, ∀ t, s.1 f.1 = some t →
    ∃ t', R.executeTable f t = .ok t' ∧ s'.1 f.1 = some t'
  absent : ∀ f ∈ fs, s.1 f.1 = none → s'.1 f.1 = none
  others : ∀ name, name ∉ fs.map Prod.fst → s'.1 name = s.1 name
  count : s'.2 = s.2 + (fs.map (tableCount s.1)).sum

theorem Run.migrateTable_done {f : PyStr × List PyStr} {s s' : Database × ℕ}
    (h : R.migrateTable s f = .ok s') : R.Done [f] s s' := by
  obtain ⟨db, n⟩ := s
  have hconv : ∀ t, db f.1 = some t → R.ConvertsTable f t := Run.converts_of_migrateTable h
  rw [Run.migrateTable_of_converts hconv] at h
  have hsum : ([f].map (tableCount db)).sum = tableCount db f := by simp
  cases ht : db f.1 with
  | none =>
    rw [ht] at h
    cases h
    have hzero : tableCount db f = 0 := by rw [tableCount, ht, Option.elim_none]
    refine ⟨by simpa using hconv, ?_, by simp, fun _ _ => rfl, ?_⟩
    · simp [ht]
    · rw [hsum, hzero, Nat.add_zero]
  | some t =>
    rw [ht] at h
    dsimp only at h
    cases ht' : R.executeTable f t with
    | error e =>
      rw [ht'] at h
      cases h
    | ok t' =>
      rw [ht'] at h
      cases h
      refine ⟨by simpa using hconv, ?_, by simp [ht], ?_, by rw [hsum]⟩
      · simp [ht, ht']
      · intro name hname
        rw [List.map_singleton, List.mem_singleton] at hname
        exact Function.update_of_ne hname _ _

theorem Run.Done.cons {f : PyStr × List PyStr} {fs : List (PyStr × List PyStr)}
    {s s₁ s' : Database × ℕ} (hnew : f.1 ∉ fs.map Prod.fst) (h₁ : R.Done [f] s s₁)
    (h₂ : R.Done fs s₁ s') : R.Done (f :: fs) s s' := by
  have hsame : ∀ g ∈ fs, s₁.1 g.1 = s.1 g.1 := by
    intro g hg
    refine h₁.others g.1 fun hmem => hnew ?_
    rw [List.map_singleton, List.mem_singleton] at hmem
    exact hmem ▸ List.mem_map_of_mem hg
  have hcount : ∀ g ∈ fs, tableCount s₁.1 g = tableCount s.1 g := by
    intro g hg
    rw [tableCount, tableCount, hsame g hg]
  refine ⟨?_, ?_, ?_, ?_, ?_⟩
  · refine List.forall_mem_cons.mpr ⟨h₁.converts f (List.mem_singleton_self f), fun g hg => ?_⟩
    rw [← hsame g hg]
    exact h₂.converts g hg
  · refine List.forall_mem_cons.mpr ⟨?_, fun g hg => ?_⟩
    · rw [h₂.others f.1 hnew]
      exact h₁.tables f (List.mem_singleton_self f)
    · rw [← hsame g hg]
      exact h₂.tables g hg
  · refine List.forall_mem_cons.mpr ⟨?_, fun g hg => ?_⟩
    · rw [h₂.others f.1 hnew]
      exact h₁.absent f (List.mem_singleton_self f)
    · rw [← hsame g hg]
      exact h₂.absent g hg
  · intro name hname
    rw [List.map_cons, List.mem_cons, not_or] at hname
    rw [h₂.others name hname.2, h₁.others name (by simpa using hname.1)]
  · rw [h₂.count, h₁.count, List.map_cons, List.sum_cons, List.map_congr_left hcount]
    simp [Nat.add_assoc]

/-- What the loop over the tables has done when it returns. -/
theorem Run.migrateTables_done {fs : List (PyStr × List PyStr)} {s s' : Database × ℕ}
    (hnames : (fs.map Prod.fst).Nodup) (h : fs.foldlM R.migrateTable s = .ok s') :
    R.Done fs s s' := by
  induction fs generalizing s with
  | nil =>
    cases h
    exact ⟨by simp, by simp, by simp, fun _ _ => rfl, rfl⟩
  | cons f fs ih =>
    rw [List.map_cons, List.nodup_cons] at hnames
    rw [List.foldlM_cons] at h
    cases hf : R.migrateTable s f with
    | error e =>
      rw [hf] at h
      cases h
    | ok s₁ =>
      rw [hf] at h
      exact .cons hnames.1 (Run.migrateTable_done hf) (ih hnames.2 h)

/-- The constraints of the listed tables accept the updates of their rows, made in order. -/
def Run.Accepted (R : Run) (fs : List (PyStr × List PyStr)) (db : Database) : Prop :=
  ∀ f ∈ fs, ∀ t, db f.1 = some t → ∃ t', R.executeTable f t = .ok t'

/-- When all the rows convert, the loop over the tables returns if the constraints accept the
updates, and otherwise raises what the database raised. -/
theorem Run.migrateTables_of_converts {fs : List (PyStr × List PyStr)} {db : Database} {n : ℕ}
    (hnames : (fs.map Prod.fst).Nodup)
    (h : ∀ f ∈ fs, ∀ t, db f.1 = some t → R.ConvertsTable f t) :
    ((∃ s, fs.foldlM R.migrateTable (db, n) = .ok s) ∧ R.Accepted fs db) ∨
      ((∃ name id, fs.foldlM R.migrateTable (db, n) = .error (.integrity name id)) ∧
        ¬R.Accepted fs db) := by
  induction fs generalizing db n with
  | nil => exact .inl ⟨⟨(db, n), rfl⟩, fun _ hf => absurd hf List.not_mem_nil⟩
  | cons f fs ih =>
    rw [List.map_cons, List.nodup_cons] at hnames
    obtain ⟨hf, hfs⟩ := List.forall_mem_cons.mp h
    have hrest : ∀ g ∈ fs, g.1 ≠ f.1 := fun g hg heq => hnames.1 (heq ▸ List.mem_map_of_mem hg)
    rw [List.foldlM_cons, Run.migrateTable_of_converts hf]
    cases ht : db f.1 with
    | none =>
      have haccepted : R.Accepted (f :: fs) db ↔ R.Accepted fs db := by
        rw [Run.Accepted, List.forall_mem_cons]
        simp [ht, Run.Accepted]
      rw [haccepted]
      exact ih hnames.2 hfs
    | some t =>
      dsimp only
      cases ht' : R.executeTable f t with
      | error e =>
        obtain ⟨id, rfl⟩ := Run.executeAll_error ht'
        refine .inr ⟨⟨f.1, id, rfl⟩, fun haccepted => ?_⟩
        obtain ⟨t', hok⟩ := haccepted f List.mem_cons_self t ht
        rw [ht'] at hok
        cases hok
      | ok t' =>
        have hsame : ∀ g ∈ fs, Function.update db f.1 (some t') g.1 = db g.1 :=
          fun g hg => Function.update_of_ne (hrest g hg) _ _
        have haccepted : R.Accepted (f :: fs) db ↔
            R.Accepted fs (Function.update db f.1 (some t')) := by
          rw [Run.Accepted, List.forall_mem_cons, and_iff_right fun t₁ ht₁ => ?_]
          · refine forall₂_congr fun g hg => ?_
            rw [hsame g hg]
          · obtain rfl := Option.some.inj (ht.symm.trans ht₁)
            exact ⟨t', ht'⟩
        rw [haccepted]
        refine ih hnames.2 fun g hg t₁ ht₁ => hfs g hg t₁ ?_
        rw [← hsame g hg]
        exact ht₁

end SecureVote.PiiMigration
