import SecureVote.Security.LicenceSession

/-!
# The blind index follows the licence

After every flush the hash of a row is the one of the licence that it holds, and no two rows of a
table hold licences that are equal up to white space and letter case. The listener of a user does
not compute the hash again when the history shows no change, or one that the normalisation does not
see. That is right because the history tracks the column (`AtRow`) and the hash was right before
(`IndexFollows`).
-/

open Txn

namespace SecureVote

open Py Orm Encryption

variable (C : LicenceConfig) (service : ChaChaEncryptionService)

/-- Every row has the hash of its licence. -/
def IndexFollows (d : LicenceDb) : Prop :=
  ∀ m, ∀ row ∈ (d.table m).rows, ∃ lic, service.decrypt row.licence = .ok lic ∧
    C.hashLic (some lic) = .ok (some row.hash)

/-- Two rows of a table hold licences that differ after normalisation. -/
def LicencesDiffer (d : LicenceDb) : Prop :=
  ∀ m, ∀ row ∈ (d.table m).rows, ∀ row' ∈ (d.table m).rows, ∀ lic lic',
    service.decrypt row.licence = .ok lic → service.decrypt row'.licence = .ok lic' →
    C.normalizeLic (some lic) = C.normalizeLic (some lic') → row = row'

variable {C service}

/-- The hash sees the licence through its normalisation. -/
theorem hashLic_congr {a b : Option PyStr} (h : C.normalizeLic a = C.normalizeLic b) :
    C.hashLic a = C.hashLic b := by
  rw [LicenceConfig.hashLic, LicenceConfig.hashLic, h]

/-- A licence that is not blank has a hash, unless there is no key or no UTF-8 form. -/
theorem exists_of_hashLic {lic : PyStr} {r : Option PyStr} (hlic : C.NonBlank lic)
    (h : C.hashLic (some lic) = .ok r) : ∃ hash, r = some hash := by
  obtain ⟨c, cs, hnorm⟩ := hlic
  rw [LicenceConfig.hashLic, hnorm] at h
  obtain ⟨key, -, h⟩ := Mapper.exists_of_bind_ok h
  obtain ⟨msg, -, h⟩ := Mapper.exists_of_bind_ok h
  cases h
  exact ⟨_, rfl⟩

/-- Where the index follows the licences, the unique hash keeps equal licences out. -/
theorem licencesDiffer_of_follows {d : LicenceDb} (hd : IndexFollows C service d) :
    LicencesDiffer C service d := by
  intro m row hrow row' hrow' lic lic' hlic hlic' hnorm
  obtain ⟨l, hl, hhash⟩ := hd m row hrow
  obtain ⟨l', hl', hhash'⟩ := hd m row' hrow'
  obtain rfl : l = lic := Except.ok.inj (hl.symm.trans hlic)
  obtain rfl : l' = lic' := Except.ok.inj (hl'.symm.trans hlic')
  have heq : row.hash = row'.hash := by
    rw [hashLic_congr hnorm, hhash'] at hhash
    exact (Option.some.inj (Except.ok.inj hhash)).symm
  exact List.inj_on_of_nodup_map (d.unique m) hrow hrow' heq

/-! ### An object and its row -/

variable (service) in
/-- The object has the row, which holds the licence; what was loaded is what the row holds. -/
structure AtRow (d : LicenceDb) (x : LicenceObject) (row : LicenceRow) (lic : PyStr) : Prop where
  key : x.key = some row.id
  stored : (d.table x.model).get? row.id = some row
  plain : service.decrypt row.licence = .ok lic
  licence : x.licence.Tracks lic
  hash : x.hash.Tracks row.hash

variable (C service) in
/-- What is kept of an object between two flushes. -/
structure LicenceFits (d : LicenceDb) (x : LicenceObject) : Prop where
  nonBlank : ∀ a old, x.licence = .assigned a old → C.NonBlank a
  fresh : x.key = none → ∀ a, x.licence ≠ .loaded a
  row : x.key ≠ none → ∃ row lic, AtRow service d x row lic ∧ x.hash.changed = none

variable (C service) in
/-- What is known of an object after its listener: a flush will write a licence and its hash. -/
structure LicenceReady (d : LicenceDb) (x : LicenceObject) : Prop where
  fresh : x.key = none → ∀ lic hash, x.licence.value? = some lic → x.hash.value? = some hash →
    C.hashLic (some lic) = .ok (some hash)
  row : x.key ≠ none → ∃ row lic, AtRow service d x row lic ∧
    C.hashLic (some (x.licence.written lic)) = .ok (some (x.hash.written row.hash))

/-- The objects are not written to one row. -/
def RowsApart (x y : LicenceObject) : Prop := x.model = y.model → x.key ≠ none → x.key ≠ y.key

variable {d d' : LicenceDb} {x x' y : LicenceObject} {row : LicenceRow} {lic : PyStr}

/-- Loading what is not in memory succeeds, and keeps what a flush will write. -/
structure Reread (x x' : LicenceObject) (row : LicenceRow) (lic : PyStr) : Prop where
  model : x'.model = x.model
  modified : x'.modified = x.modified
  licence : x'.licence.written lic = x.licence.written lic
  hash : x'.hash.written row.hash = x.hash.written row.hash

theorem AtRow.exists_load (h : AtRow service d x row lic) :
    ∃ x', x.load service d = .ok x' ∧ AtRow service d x' row lic ∧ Reread x x' row lic ∧
      x'.licence = x.licence.load lic ∧ x'.hash = x.hash.load row.hash := by
  have hlic : LicenceObject.loadLicence service row x.licence = .ok (x.licence.load lic) := by
    cases hx : x.licence with
    | unloaded => rw [LicenceObject.loadLicence, h.plain, Attr.load]
    | loaded a => rfl
    | assigned a old => rfl
  refine ⟨{ x with licence := x.licence.load lic, hash := x.hash.load row.hash }, ?_,
    ⟨h.key, h.stored, h.plain, h.licence.load, h.hash.load⟩, ⟨rfl, rfl, ?_, ?_⟩, rfl, rfl⟩
  · rw [LicenceObject.load, h.key]
    dsimp only
    rw [h.stored]
    dsimp only
    rw [hlic]
  · rw [Attr.written, Attr.written, Attr.changed_load]
  · rw [Attr.written, Attr.written, Attr.changed_load]

/-- The attribute that a listener reads is what a flush will write. -/
theorem AtRow.getLicence (h : AtRow service d x row lic) :
    ∃ x', x.getAttr service LicenceObject.licence d = .ok (x', some (x.licence.written lic)) ∧
      AtRow service d x' row lic ∧ Reread x x' row lic := by
  have hlic := h.licence
  rw [LicenceObject.getAttr]
  cases hx : x.licence with
  | unloaded =>
    obtain ⟨x', hload, hat, hread, hlicence, -⟩ := h.exists_load
    refine ⟨x', ?_, hat, hread⟩
    rw [Attr.value?, hload]
    dsimp only
    rw [hlicence, hx]
    rfl
  | loaded a =>
    rw [hx] at hlic
    obtain rfl : a = lic := hlic
    exact ⟨x, rfl, h, rfl, rfl, rfl, rfl⟩
  | assigned a old =>
    rw [hx] at hlic
    rw [Attr.written_of_assigned hlic]
    exact ⟨x, rfl, h, rfl, rfl, rfl, rfl⟩

theorem hashOrRaise_eq_ok {l r : Option PyStr}
    (h : LicenceObject.hashOrRaise C l = .ok r) : C.hashLic l = .ok r := by
  rw [LicenceObject.hashOrRaise] at h
  split at h
  · cases h
  next hl =>
    cases h
    exact hl

/-! ### The listeners -/

/-- A listener leaves the licence as it is, and a hash of it to be written. -/
structure Listened (C : LicenceConfig) (service : ChaChaEncryptionService) (d : LicenceDb)
    (x x' : LicenceObject) (row : LicenceRow) (lic : PyStr) : Prop where
  model : x'.model = x.model
  modified : x'.modified = x.modified
  atRow : AtRow service d x' row lic
  hash : C.hashLic (some (x'.licence.written lic)) = .ok (some (x'.hash.written row.hash))

/-- The hash of the licence that is to be written has been assigned. -/
theorem AtRow.listened (h : AtRow service d x row lic) {hash : PyStr}
    (hhash : C.hashLic (some (x.licence.written lic)) = .ok (some hash)) :
    Listened C service d x { x with hash := x.hash.set hash } row lic := by
  refine ⟨rfl, rfl, ⟨h.key, h.stored, h.plain, h.licence, h.hash.set⟩, ?_⟩
  rw [Attr.written_set h.hash]
  exact hhash

/-- The listeners that always compute the hash. -/
theorem AtRow.setLicHash (h : AtRow service d x row lic)
    (hblank : ∀ r, C.hashLic (some (x.licence.written lic)) = .ok r → ∃ hash, r = some hash)
    (hset : LicenceObject.setLicHash C service d x = .ok x') :
    Listened C service d x x' row lic := by
  rw [LicenceObject.setLicHash] at hset
  obtain ⟨⟨x₁, l⟩, hget, hset⟩ := Mapper.exists_of_bind_ok hset
  obtain ⟨x₂, hget', hat, hread⟩ := h.getLicence
  cases hget.symm.trans hget'
  obtain ⟨r, hr, hset⟩ := Mapper.exists_of_bind_ok hset
  have hr := hashOrRaise_eq_ok hr
  obtain ⟨hash, rfl⟩ := hblank r hr
  cases hset
  rw [← hread.licence] at hr
  obtain ⟨hmodel, hmodified, hat', hhash⟩ := hat.listened hr
  exact ⟨hmodel.trans hread.model, hmodified.trans hread.modified, hat', hhash⟩

/-- The listener of an updated user. When it skips, the hash of the row was right, and still is. -/
theorem AtRow.userBeforeUpdate (h : AtRow service d x row lic)
    (hrow : C.hashLic (some lic) = .ok (some row.hash)) (hclean : x.hash.changed = none)
    (hblank : ∀ r, C.hashLic (some (x.licence.written lic)) = .ok r → ∃ hash, r = some hash)
    (hset : LicenceObject.userSetLicHashBeforeUpdate C service d x = .ok x') :
    Listened C service d x x' row lic := by
  have hold : x.hash.written row.hash = row.hash := by rw [Attr.written, hclean, Option.getD_none]
  rw [LicenceObject.userSetLicHashBeforeUpdate] at hset
  dsimp only at hset
  obtain ⟨hchanges, hwritten⟩ | ⟨a, old, hx, hchanges, hadded, hdeleted, hwritten⟩ :=
    Attr.history_cases h.licence
  · rw [if_pos hchanges] at hset
    cases hset
    refine ⟨rfl, rfl, h, ?_⟩
    rw [hwritten, hold]
    exact hrow
  rw [if_neg (by rw [hchanges]; decide), hadded, hdeleted] at hset
  dsimp only at hset
  obtain ⟨⟨x₁, l⟩, hget, hset⟩ := Mapper.exists_of_bind_ok hset
  cases hget
  dsimp only at hset
  split at hset
  next hsame =>
    cases hset
    obtain ⟨hsome, hnorm⟩ := hsame
    refine ⟨rfl, rfl, h, ?_⟩
    -- the deleted value is the licence of the row
    have htracks := h.licence
    rw [hx] at htracks
    rcases old with _ | o
    · cases hsome
    obtain rfl : o = lic := htracks o rfl
    rw [hwritten, hold, ← hashLic_congr hnorm]
    exact hrow
  · obtain ⟨r, hr, hset⟩ := Mapper.exists_of_bind_ok hset
    have hr := hashOrRaise_eq_ok hr
    rw [← hwritten] at hr
    obtain ⟨hash, rfl⟩ := hblank r hr
    cases hset
    exact h.listened hr

/-- The index of the row of an object. -/
theorem AtRow.hashLic (h : AtRow service d x row lic) (hd : IndexFollows C service d) :
    C.hashLic (some lic) = .ok (some row.hash) := by
  obtain ⟨lic', hplain, hhash⟩ := hd x.model row (Table.mem_of_get? h.stored)
  obtain rfl : lic' = lic := Except.ok.inj (hplain.symm.trans h.plain)
  exact hhash

/-- A licence that is to be written has a hash. -/
theorem AtRow.exists_hash (h : AtRow service d x row lic) (hd : IndexFollows C service d)
    (hblank : ∀ a old, x.licence = .assigned a old → C.NonBlank a) {r : Option PyStr}
    (hr : C.hashLic (some (x.licence.written lic)) = .ok r) : ∃ hash, r = some hash := by
  obtain ⟨-, hwritten⟩ | ⟨a, old, hx, -, -, -, hwritten⟩ := Attr.history_cases h.licence
  · rw [hwritten, h.hashLic hd] at hr
    exact ⟨row.hash, (Except.ok.inj hr).symm⟩
  · rw [hwritten] at hr
    exact exists_of_hashLic (hblank a old hx) hr

/-- Without a row there is nothing to load. -/
theorem getAttr_of_fresh (hkey : x.key = none) (f : LicenceObject → Attr PyStr) :
    x.getAttr service f d = .ok (x, (f x).value?) := by
  rw [LicenceObject.getAttr]
  split
  next ha => rw [ha]
  next ha => rw [LicenceObject.load, hkey]

/-- The listener of an insert. -/
theorem setLicHash_of_fresh (hkey : x.key = none) (hfits : LicenceFits C service d x)
    (hset : LicenceObject.setLicHash C service d x = .ok x') :
    x'.model = x.model ∧ x'.key = none ∧ LicenceReady C service d x' := by
  rw [LicenceObject.setLicHash, getAttr_of_fresh hkey] at hset
  obtain ⟨⟨x₁, l⟩, hget, hset⟩ := Mapper.exists_of_bind_ok hset
  cases hget
  obtain ⟨r, hr, hset⟩ := Mapper.exists_of_bind_ok hset
  have hr := hashOrRaise_eq_ok hr
  cases hx : x.licence with
  | loaded a => exact absurd hx (hfits.fresh hkey a)
  | unloaded =>
    rw [hx] at hr
    cases hr
    rw [LicenceObject.assignHash, getAttr_of_fresh hkey] at hset
    -- there is no licence to be written
    have hlicence : x'.model = x.model ∧ x'.key = none ∧ x'.licence = .unloaded := by
      cases hhash : x.hash.value? with
      | none =>
        rw [hhash] at hset
        cases hset
        exact ⟨rfl, hkey, hx⟩
      | some hash =>
        rw [hhash] at hset
        cases hset
        exact ⟨rfl, hkey, hx⟩
    refine ⟨hlicence.1, hlicence.2.1, fun _ lic hash hlic => ?_, fun h => absurd hlicence.2.1 h⟩
    rw [hlicence.2.2] at hlic
    cases hlic
  | assigned a old =>
    rw [hx] at hr
    obtain ⟨hash, rfl⟩ := exists_of_hashLic (hfits.nonBlank a old hx) hr
    cases hset
    refine ⟨rfl, hkey, fun _ lic hash' hlic hhash' => ?_, fun h => absurd hkey h⟩
    have ha : a = lic := by
      rw [hx] at hlic
      exact Option.some.inj hlic
    have hhash : hash = hash' := by
      cases hold : x.hash with
      | _ =>
        rw [hold] at hhash'
        exact Option.some.inj hhash'
    rw [← ha, ← hhash]
    exact hr

/-- The listener makes an object ready. -/
theorem listen_ready (hd : IndexFollows C service d) (hfits : LicenceFits C service d x)
    (hset : x.listen C service d = .ok x') :
    x'.model = x.model ∧ x'.key = x.key ∧ (x.dirty = true → x'.dirty = true) ∧
      LicenceReady C service d x' := by
  cases hkey : x.key with
  | none =>
    have hset' : LicenceObject.setLicHash C service d x = .ok x' := by
      rw [LicenceObject.listen, hkey] at hset
      cases hmodel : x.model with
      | _ =>
        rw [hmodel] at hset
        exact hset
    obtain ⟨hmodel, hkey', hready⟩ := setLicHash_of_fresh hkey hfits hset'
    exact ⟨hmodel, hkey', fun _ => by rw [LicenceObject.dirty, hkey']; rfl, hready⟩
  | some k =>
    obtain ⟨row, lic, hat, hclean⟩ := hfits.row (by rw [hkey]; exact Option.some_ne_none k)
    have hblank := fun r => hat.exists_hash (r := r) hd hfits.nonBlank
    have hlistened : Listened C service d x x' row lic := by
      rw [LicenceObject.listen, hkey] at hset
      cases hmodel : x.model with
      | user =>
        rw [hmodel] at hset
        exact hat.userBeforeUpdate (hat.hashLic hd) hclean hblank hset
      | electoralRoll =>
        rw [hmodel] at hset
        exact hat.setLicHash hblank hset
    have hkey' : x'.key = some k := by rw [hlistened.atRow.key, ← hat.key, hkey]
    refine ⟨hlistened.model, hkey', fun hdirty => ?_, fun h => ?_, fun _ => ⟨row, lic, ?_⟩⟩
    · rw [LicenceObject.dirty, hkey', hlistened.modified]
      rwa [LicenceObject.dirty, hkey] at hdirty
    · rw [hkey'] at h
      cases h
    · exact ⟨hlistened.atRow, hlistened.hash⟩

/-! ### The statements -/

/-- Only the table that is written changes. -/
theorem setTable_eq_some {m : LicenceModel} {t : Table LicenceRow}
    (h : d.setTable m t = some d') : d'.table m = t ∧ ∀ n, n ≠ m → d'.table n = d.table n := by
  rw [LicenceDb.setTable] at h
  split at h
  · cases h
    exact ⟨if_pos rfl, fun n hn => if_neg hn⟩
  · cases h

/-- What a parameter of a licence column holds. -/
theorem bindLicence_ok {nonce : Nonce} {licence v : Option PyStr}
    (h : LicenceObject.bindLicence service nonce licence = .ok v) :
    (licence = none ∧ v = none) ∨ ∃ lic encrypted, licence = some lic ∧ v = some encrypted ∧
      service.decrypt encrypted = .ok lic := by
  rw [LicenceObject.bindLicence] at h
  split at h
  · cases h
  next v' hv =>
    cases h
    cases licence with
    | none =>
      cases hv
      exact Or.inl ⟨rfl, rfl⟩
    | some lic =>
      obtain ⟨encrypted, rfl, hplain⟩ := service.processBindParam_ok nonce.2 hv
      exact Or.inr ⟨lic, encrypted, rfl, rfl, hplain⟩

/-- A row that an object is written to: the licence and the hash are the ones of the object, and
the other rows are as they were. -/
structure Written (service : ChaChaEncryptionService) (d : LicenceDb) (x : LicenceObject)
    (d' : LicenceDb) (x' : LicenceObject) (row : LicenceRow) (lic hash : PyStr) : Prop where
  object : x' = x.settle row.id
  key : ∀ k, x.key = some k → k = row.id
  new : x.key = none → (d.table x.model).get? row.id = none
  stored : (d'.table x.model).get? row.id = some row
  plain : service.decrypt row.licence = .ok lic
  rowHash : row.hash = hash
  licenceTracks : x.licence.settle.Tracks lic
  hashTracks : x.hash.settle.Tracks hash
  others : ∀ row' ∈ (d'.table x.model).rows, row' = row ∨ row' ∈ (d.table x.model).rows
  same : ∀ i, i ≠ row.id → (d'.table x.model).get? i = (d.table x.model).get? i
  tables : ∀ m, m ≠ x.model → d'.table m = d.table m

/-- An `UPDATE` writes the values of the object. -/
theorem update_written {nonce : Nonce} (hat : AtRow service d x row lic)
    (h : x.update service nonce d row.id = .ok (d', x')) :
    ∃ row', Written service d x d' x' row' (x.licence.written lic) (x.hash.written row.hash) := by
  rw [LicenceObject.update, hat.stored, if_neg (by simp)] at h
  split at h
  · cases h
  next encrypted hbind =>
  split at h
  · cases h
  next d₁ hset =>
    cases h
    obtain ⟨htable, htables⟩ := setTable_eq_some hset
    have hplain : service.decrypt (encrypted.getD row.licence) = .ok (x.licence.written lic) := by
      obtain ⟨hnone, rfl⟩ | ⟨l, e, hsome, rfl, hplain⟩ := bindLicence_ok hbind
      · rw [Attr.written, hnone]
        exact hat.plain
      · rw [Attr.written, hsome]
        exact hplain
    refine ⟨LicenceObject.updateRow encrypted x.hash.changed row, rfl, ?_, ?_, ?_, hplain, rfl,
      hat.licence.settle, hat.hash.settle, ?_, ?_, htables⟩
    · intro k hk
      exact Option.some.inj (hk.symm.trans hat.key)
    · intro hnone
      rw [hat.key] at hnone
      cases hnone
    · rw [htable]
      exact Table.get?_update_self.trans (by rw [hat.stored]; rfl)
    · intro row' hrow'
      rw [htable] at hrow'
      obtain ⟨a, ha, rfl⟩ := Table.mem_update.mp hrow'
      by_cases hid : key a = row.id
      · obtain rfl : a = row := Table.key_inj ha (Table.mem_of_get? hat.stored) hid
        exact Or.inl (if_pos hid)
      · rw [if_neg hid]
        exact Or.inr ha
    · intro i hi
      rw [htable]
      exact Table.get?_update_of_ne hi

/-- An `INSERT` writes the values of the object. -/
theorem insert_written {nonce : Nonce} (hkey : x.key = none)
    (h : x.insert service nonce d = .ok (d', x')) :
    ∃ row lic hash, x.licence.value? = some lic ∧ x.hash.value? = some hash ∧
      Written service d x d' x' row lic hash := by
  rw [LicenceObject.insert] at h
  split at h
  · cases h
  next v hbind =>
  split at h
  next encrypted hash hhash =>
    split at h
    · cases h
    next d₁ hset =>
      cases h
      obtain ⟨htable, htables⟩ := setTable_eq_some hset
      obtain ⟨-, hnone⟩ | ⟨lic, e, hlic, hsome, hplain⟩ := bindLicence_ok hbind
      · cases hnone
      obtain rfl : encrypted = e := Option.some.inj hsome
      refine ⟨⟨(d.table x.model).next, encrypted, hash⟩, lic, hash, hlic, hhash, rfl, ?_, ?_, ?_,
        hplain, rfl, Attr.tracks_settle_of_value? hlic, Attr.tracks_settle_of_value? hhash, ?_, ?_,
        htables⟩
      · intro k hk
        rw [hkey] at hk
        cases hk
      · exact fun _ => Table.get?_next
      · rw [htable]
        exact Table.get?_insert_next
      · intro row' hrow'
        rw [htable] at hrow'
        exact (Table.mem_insert.mp hrow').symm
      · intro i hi
        rw [htable]
        exact Table.get?_insert_of_ne hi
  · cases h

/-- The statement of an object that is ready writes a licence with its hash. -/
theorem write_written {nonce : Nonce} (hready : LicenceReady C service d x)
    (h : x.write service nonce d = .ok (d', x')) :
    ∃ row lic hash, Written service d x d' x' row lic hash ∧
      C.hashLic (some lic) = .ok (some hash) := by
  rw [LicenceObject.write] at h
  cases hkey : x.key with
  | none =>
    rw [hkey] at h
    obtain ⟨row, lic, hash, hlic, hhash, hwritten⟩ := insert_written hkey h
    exact ⟨row, lic, hash, hwritten, hready.fresh hkey lic hash hlic hhash⟩
  | some k =>
    obtain ⟨row, lic, hat, hhash⟩ := hready.row (by rw [hkey]; exact Option.some_ne_none k)
    rw [hat.key] at h
    obtain ⟨row', hwritten⟩ := update_written hat h
    exact ⟨row', _, _, hwritten, hhash⟩

variable {lic' hash' : PyStr} {row' : LicenceRow}

/-- The index follows the licence that has been written. -/
theorem Written.follows (hw : Written service d x d' x' row lic hash')
    (hhash : C.hashLic (some lic) = .ok (some hash')) (hd : IndexFollows C service d) :
    IndexFollows C service d' := by
  intro m r hr
  by_cases hm : m = x.model
  · subst hm
    obtain rfl | hold := hw.others r hr
    · exact ⟨lic, hw.plain, hw.rowHash.symm ▸ hhash⟩
    · exact hd _ r hold
  · rw [hw.tables m hm] at hr
    exact hd m r hr

/-- The object fits its row. -/
theorem Written.fits (hw : Written service d x d' x' row lic hash') :
    LicenceFits C service d' x' := by
  rw [hw.object]
  refine ⟨fun a old h => absurd h Attr.settle_ne_assigned, fun h => (nomatch h), fun _ =>
    ⟨row, lic, ⟨rfl, hw.stored, hw.plain, hw.licenceTracks, ?_⟩, Attr.changed_settle⟩⟩
  rw [hw.rowHash]
  exact hw.hashTracks

/-- The row of another object is another row. -/
theorem Written.id_ne (hw : Written service d x d' x' row lic hash') (hap : RowsApart x y)
    (hmodel : x.model = y.model) (hat : AtRow service d y row' lic') : row'.id ≠ row.id := by
  intro hid
  have hstored := hat.stored
  rw [hid, ← hmodel] at hstored
  cases hkey : x.key with
  | none =>
    rw [hw.new hkey] at hstored
    cases hstored
  | some k =>
    refine hap hmodel (by rw [hkey]; exact Option.some_ne_none k) ?_
    rw [hkey, hw.key k hkey, hat.key, hid]

/-- Another object keeps its row. -/
theorem Written.atRow (hw : Written service d x d' x' row lic hash') (hap : RowsApart x y)
    (hat : AtRow service d y row' lic') : AtRow service d' y row' lic' := by
  refine ⟨hat.key, ?_, hat.plain, hat.licence, hat.hash⟩
  by_cases hmodel : x.model = y.model
  · rw [← hmodel, hw.same _ (hw.id_ne hap hmodel hat), hmodel]
    exact hat.stored
  · rw [hw.tables _ (Ne.symm hmodel)]
    exact hat.stored

/-- The object is not at the row of another one. -/
theorem Written.apart (hw : Written service d x d' x' row lic hash') (hap : RowsApart x y)
    (hy : y.key ≠ none → ∃ row' lic', AtRow service d y row' lic') : RowsApart x' y := by
  rw [hw.object]
  intro hmodel _ hkey
  obtain ⟨row', lic', hat⟩ := hy (by rw [← hkey]; exact Option.some_ne_none _)
  rw [hat.key] at hkey
  exact hw.id_ne hap hmodel hat (Option.some.inj hkey).symm

theorem RowsApart.symm (h : RowsApart x y) : RowsApart y x := by
  intro hmodel hkey heq
  by_cases hx : x.key = none
  · exact hkey (heq.trans hx)
  · exact h hmodel.symm hx heq.symm

/-- The listeners and the statements meet the laws of a unit of work. -/
theorem mapper_lawful : (LicenceObject.mapper C service).Lawful (IndexFollows C service)
    (LicenceFits C service) (LicenceReady C service) RowsApart where
  symm := RowsApart.symm
  listen hd hfits hdirty h := by
    obtain ⟨hmodel, hkey, hdirty', hready⟩ := listen_ready hd hfits h
    refine ⟨hdirty' hdirty, hready, fun y hy => ?_⟩
    rw [RowsApart, hmodel, hkey]
    exact hy
  write hd hready h := by
    obtain ⟨row, lic, hash, hw, hhash⟩ := write_written hready h
    exact ⟨hw.follows hhash hd, hw.fits⟩
  fits_frame hready h hap hfits := by
    obtain ⟨row, lic, hash, hw, -⟩ := write_written hready h
    refine ⟨⟨hfits.nonBlank, hfits.fresh, fun hy => ?_⟩, hw.apart hap fun hy => ?_⟩
    · obtain ⟨row', lic', hat, hclean⟩ := hfits.row hy
      exact ⟨row', lic', hw.atRow hap hat, hclean⟩
    · obtain ⟨row', lic', hat, -⟩ := hfits.row hy
      exact ⟨row', lic', hat⟩
  ready_frame hready h hap hready' := by
    obtain ⟨row, lic, hash, hw, -⟩ := write_written hready h
    refine ⟨⟨hready'.fresh, fun hy => ?_⟩, hw.apart hap fun hy => ?_⟩
    · obtain ⟨row', lic', hat, hhash⟩ := hready'.row hy
      exact ⟨row', lic', hw.atRow hap hat, hhash⟩
    · obtain ⟨row', lic', hat, -⟩ := hready'.row hy
      exact ⟨row', lic', hat⟩

/-! ### The session -/

variable (C service) in
/-- What every operation of a session maintains. -/
structure SessionSound (s : LicenceSession) : Prop where
  db : IndexFollows C service s.db
  saved : IndexFollows C service s.saved
  fits : ∀ x ∈ s.objects, LicenceFits C service s.db x
  apart : s.objects.Pairwise RowsApart

/-- Where an object is written. -/
def place (x : LicenceObject) : LicenceModel × Option ℕ := (x.model, x.key)

theorem rowsApart_congr {z : LicenceObject} (hx : place x' = place x) (hy : place z = place y)
    (h : RowsApart x y) : RowsApart x' z := by
  simp only [place, Prod.mk.injEq] at hx hy
  rw [RowsApart, hx.1, hx.2, hy.1, hy.2]
  exact h

/-- Objects stay apart while they stay at their places. -/
theorem pairwise_of_places {xs ys : List LicenceObject} (h : ys.map place = xs.map place)
    (hap : xs.Pairwise RowsApart) : ys.Pairwise RowsApart := by
  have hplaces : ∀ zs : List LicenceObject, zs.Pairwise RowsApart ↔ (zs.map place).Pairwise
      fun a b => a.1 = b.1 → a.2 ≠ none → a.2 ≠ b.2 := by
    intro zs
    rw [List.pairwise_map]
    rfl
  rw [hplaces, h, ← hplaces]
  exact hap

/-- An object that nothing is in memory of fits its row. -/
theorem fits_of_hasRow (hd : IndexFollows C service d) {k : ℕ} (hkey : x.key = some k)
    (hstored : ((d.table x.model).get? k).isSome) (hlicence : x.licence = .unloaded)
    (hhash : x.hash = .unloaded) :
    LicenceFits C service d x := by
  obtain ⟨row, hrow⟩ := Option.isSome_iff_exists.mp hstored
  obtain rfl : row.id = k := Table.key_of_get? hrow
  obtain ⟨lic, hplain, -⟩ := hd x.model row (Table.mem_of_get? hrow)
  have hat : AtRow service d x row lic := by
    refine ⟨hkey, hrow, hplain, ?_, ?_⟩
    · rw [hlicence]
      trivial
    · rw [hhash]
      trivial
  refine ⟨fun a old h => ?_, fun h => ?_, fun _ => ⟨row, lic, hat, ?_⟩⟩
  · rw [hlicence] at h
    cases h
  · rw [hkey] at h
    cases h
  · rw [hhash]
    rfl

theorem isSome_of_load {k : ℕ} (hkey : x.key = some k) (h : x.load service d = .ok x') :
    ((d.table x.model).get? k).isSome := by
  rw [LicenceObject.load, hkey] at h
  dsimp only at h
  split at h
  · cases h
  next hrow =>
    rw [hrow]
    rfl

theorem place_expire : place x.expire = place x := by
  rw [LicenceObject.expire]
  split
  · rfl
  · rfl

/-- Loading what is not in memory keeps an object at its row. -/
theorem load_fits (hfits : LicenceFits C service d x) (h : x.load service d = .ok x') :
    LicenceFits C service d x' ∧ place x' = place x := by
  by_cases hkey : x.key = none
  · rw [LicenceObject.load, hkey] at h
    cases h
    exact ⟨hfits, rfl⟩
  obtain ⟨row, lic, hat, hclean⟩ := hfits.row hkey
  obtain ⟨x₁, hload, hat', hread, hlicence, hhash⟩ := hat.exists_load
  obtain rfl : x₁ = x' := Except.ok.inj (hload.symm.trans h)
  refine ⟨⟨fun a old ha => ?_, fun hnone => ?_, fun _ => ⟨row, lic, hat', ?_⟩⟩, ?_⟩
  · rw [hlicence] at ha
    cases hx : x.licence with
    | unloaded =>
      rw [hx] at ha
      cases ha
    | loaded b =>
      rw [hx] at ha
      cases ha
    | assigned b old' =>
      rw [hx] at ha
      cases ha
      exact hfits.nonBlank a old hx
  · rw [hat'.key] at hnone
    cases hnone
  · rw [hhash, Attr.changed_load]
    exact hclean
  · exact Prod.ext hread.model (hat'.key.trans hat.key.symm)

/-- An operation on an object keeps it at its row. -/
theorem objectStep_fits (hd : IndexFollows C service d) (hfits : LicenceFits C service d x)
    (h : ObjectStep C service d x x') : LicenceFits C service d x' ∧ place x' = place x := by
  cases h with
  | load h => exact load_fits hfits h
  | setLicence lic hlic =>
    obtain ⟨old', hset⟩ := Attr.exists_set lic x.licence
    refine ⟨⟨fun a old ha => ?_, fun _ a ha => ?_, fun hkey => ?_⟩, rfl⟩
    · cases hset.symm.trans ha
      exact hlic
    · cases hset.symm.trans ha
    · obtain ⟨row, lic', hat, hclean⟩ := hfits.row hkey
      exact ⟨row, lic', ⟨hat.key, hat.stored, hat.plain, hat.licence.set, hat.hash⟩, hclean⟩
  | setOther =>
    refine ⟨⟨hfits.nonBlank, hfits.fresh, fun hkey => ?_⟩, rfl⟩
    obtain ⟨row, lic, hat, hclean⟩ := hfits.row hkey
    exact ⟨row, lic, ⟨hat.key, hat.stored, hat.plain, hat.licence, hat.hash⟩, hclean⟩
  | expire =>
    rw [LicenceObject.expire]
    split
    next hkey =>
      obtain ⟨row, lic, hat, -⟩ := hfits.row (Option.isSome_iff_ne_none.mp hkey)
      have hstored : ((d.table x.model).get? row.id).isSome := by
        rw [hat.stored]
        rfl
      exact ⟨fits_of_hasRow (x := ⟨x.model, x.key, .unloaded, .unloaded, false⟩) hd hat.key
        hstored rfl rfl, rfl⟩
    · exact ⟨hfits, rfl⟩
  | expireAttributes licence hash =>
    rw [LicenceObject.expireAttributes]
    split
    next hkey =>
      obtain ⟨row, lic, hat, hclean⟩ := hfits.row (Option.isSome_iff_ne_none.mp hkey)
      refine ⟨⟨fun a old ha => ?_, fun hnone => ?_, fun _ => ⟨row, lic, ?_, ?_⟩⟩, rfl⟩
      · cases licence with
        | true => cases ha
        | false => exact hfits.nonBlank a old ha
      · rw [hnone] at hkey
        cases hkey
      · refine ⟨hat.key, hat.stored, hat.plain, ?_, ?_⟩
        · cases licence with
          | true => trivial
          | false => exact hat.licence
        · cases hash with
          | true => trivial
          | false => exact hat.hash
      · cases hash with
        | true => rfl
        | false => exact hclean
    · exact ⟨hfits, rfl⟩

/-- A new object has no row. -/
theorem make_fits {m : LicenceModel} {licence hash : Option PyStr}
    (h : ∀ lic ∈ licence, C.NonBlank lic) :
    LicenceFits C service d (.make m licence hash) := by
  refine ⟨fun a old ha => ?_, fun _ a ha => ?_, fun hkey => absurd rfl hkey⟩
  · cases licence with
    | none => cases ha
    | some lic =>
      cases ha
      exact h a rfl
  · cases licence with
    | none => cases ha
    | some lic => cases ha

/-- Every operation of a session maintains it. -/
theorem sessionSound_step {s s' : LicenceSession} (hs : SessionSound C service s)
    (h : LicenceStep C service s s') : SessionSound C service s' := by
  -- a flush that ends well, and the expiry after a commit
  have hflush : ∀ {s' draw}, s.flush C service draw = .ok s' → SessionSound C service s' := by
    intro s' draw hok
    obtain ⟨⟨db, objects⟩, hmapper, hok⟩ := Mapper.exists_of_bind_ok hok
    cases hok
    obtain ⟨hdb, hfits, hap⟩ := mapper_lawful.flush hs.db hs.fits hs.apart hmapper
    exact ⟨hdb, hs.saved, hfits, hap⟩
  cases h with
  | add m licence hash hblank =>
    refine ⟨hs.db, hs.saved, ?_, ?_⟩
    · exact List.forall_mem_append.mpr
        ⟨hs.fits, List.forall_mem_singleton.mpr (make_fits hblank)⟩
    · refine List.pairwise_append.mpr ⟨hs.apart, List.pairwise_singleton _ _, fun x _ y hy => ?_⟩
      rw [List.mem_singleton.mp hy]
      exact fun _ hkey => hkey
  | @get m k x hnew hload =>
    have hrow := isSome_of_load (x := ⟨m, some k, .unloaded, .unloaded, false⟩) rfl hload
    obtain ⟨hfits, hplace⟩ := load_fits (fits_of_hasRow hs.db rfl hrow rfl rfl) hload
    refine ⟨hs.db, hs.saved, ?_, ?_⟩
    · exact List.forall_mem_append.mpr ⟨hs.fits, List.forall_mem_singleton.mpr hfits⟩
    · refine List.pairwise_append.mpr ⟨hs.apart, List.pairwise_singleton _ _, fun y hy z hz => ?_⟩
      rw [List.mem_singleton.mp hz]
      refine rowsApart_congr rfl hplace fun hmodel _ => ?_
      exact hnew y hy hmodel
  | @object i x x' hx hstep =>
    obtain ⟨hfits, hplace⟩ := objectStep_fits hs.db (hs.fits x (List.mem_of_getElem? hx)) hstep
    refine ⟨hs.db, hs.saved, fun y hy => ?_, pairwise_of_places ?_ hs.apart⟩
    · obtain hy | rfl := List.mem_or_eq_of_mem_set hy
      · exact hs.fits y hy
      · exact hfits
    · obtain ⟨hi, rfl⟩ := List.getElem?_eq_some_iff.mp hx
      show (s.objects.set i x').map place = _
      rw [List.map_set, hplace, ← List.getElem_map place (h := by simpa using hi),
        List.set_getElem_self]
  | expunge i =>
    have hsub : (s.objects.eraseIdx i).Sublist s.objects := List.eraseIdx_sublist _ _
    exact ⟨hs.db, hs.saved, fun x hx => hs.fits x (hsub.subset hx), hs.apart.sublist hsub⟩
  | reorder hperm =>
    exact ⟨hs.db, hs.saved, fun x hx => hs.fits x (hperm.mem_iff.mp hx),
      (hperm.pairwise_iff RowsApart.symm).mpr hs.apart⟩
  | flush draw hok => exact hflush hok
  | @commit s₁ draw hok =>
    have hs₁ := hflush hok
    refine ⟨hs₁.db, hs₁.db, fun y hy => ?_, pairwise_of_places ?_ hs₁.apart⟩
    · obtain ⟨x, hx, rfl⟩ := List.mem_map.mp hy
      exact (objectStep_fits hs₁.db (hs₁.fits x hx) .expire).1
    · show (s₁.objects.map LicenceObject.expire).map place = _
      rw [List.map_map]
      exact List.map_congr_left fun x _ => place_expire
  | rollback =>
    have hap := hs.apart.filter (LicenceSession.HasRow s.saved)
    refine ⟨hs.saved, hs.saved, fun y hy => ?_, pairwise_of_places ?_ hap⟩
    · obtain ⟨x, hx, rfl⟩ := List.mem_map.mp hy
      have hrow : LicenceSession.HasRow s.saved x = true := (List.mem_filter.mp hx).2
      obtain ⟨k, hkey, hstored⟩ := (Option.any_eq_true _ _).mp hrow
      rw [LicenceObject.expire, if_pos (by rw [hkey]; rfl)]
      exact fits_of_hasRow hs.saved hkey hstored rfl rfl
    · show ((s.objects.filter (LicenceSession.HasRow s.saved)).map LicenceObject.expire).map
        place = _
      rw [List.map_map]
      exact List.map_congr_left fun x _ => place_expire
  | close => exact ⟨hs.saved, hs.saved, fun x hx => (nomatch hx), .nil⟩

/-- **The blind index follows the licence**: in every state that a session can reach from a database
in which it does, every row has the hash of its licence, and no two rows of a table have licences
that are equal after normalisation. -/
theorem licence_index_follows (hd : IndexFollows C service d) {s : LicenceSession}
    (h : LicenceReach C service d s) :
    IndexFollows C service s.db ∧ LicencesDiffer C service s.db := by
  have hstart : SessionSound C service (.start d) := ⟨hd, hd, fun x hx => (nomatch hx), .nil⟩
  have hs : SessionSound C service s := by
    induction h with
    | refl => exact hstart
    | tail _ hstep ih => exact sessionSound_step ih hstep
  exact ⟨hs.db, licencesDiffer_of_follows hs.db⟩

/-! ### A sample session -/

namespace Sample

/-- The index of the sample: ASCII letters have an upper case. -/
def licenceConfig : LicenceConfig where
  upper lic := lic.map fun c => if 97 ≤ c ∧ c ≤ 122 then c - 32 else c
  pepper := py "pepper"
  testing := false
  secretKey := []

/-- The nonces of its flushes. -/
def licenceDraw (n : ℕ) : Nonce :=
  ⟨List.replicate nonceBytes (UInt8.ofNat n), List.length_replicate⟩

/-- A user and an enrolment with one licence, before they are flushed. -/
def licenceObjects : LicenceSession :=
  { LicenceSession.start .empty with
    objects := [.make .user (some (py "ab 123")) none,
      .make .electoralRoll (some (py "ab 123")) none] }

/-- Assign a licence to the first object. -/
def assignFirst (s : LicenceSession) (lic : PyStr) : LicenceSession :=
  match s.objects with
  | [] => s
  | x :: xs => { s with objects := x.setLicence lic :: xs }

/-- Both are flushed, and then the user with the licence in another spelling. -/
def licenceRun : Except SessionError LicenceSession := do
  let s ← licenceObjects.flush licenceConfig ChaChaEncryptionService.sample licenceDraw
  (assignFirst s (py "AB123")).flush licenceConfig ChaChaEncryptionService.sample licenceDraw

theorem reach_licenceRun {s : LicenceSession} (h : licenceRun = .ok s) :
    LicenceReach licenceConfig ChaChaEncryptionService.sample .empty s := by
  obtain ⟨s₁, h₁, h₂⟩ := Mapper.exists_of_bind_ok h
  have hadd : ∀ lic ∈ some (py "ab 123"), licenceConfig.NonBlank lic := by
    rintro lic ⟨⟩
    exact ⟨_, _, rfl⟩
  have hassign : Relation.ReflTransGen (LicenceStep licenceConfig ChaChaEncryptionService.sample)
      s₁ (assignFirst s₁ (py "AB123")) := by
    obtain ⟨db, saved, objects⟩ := s₁
    cases objects with
    | nil => exact .refl
    | cons x xs => exact .single (.object 0 rfl (.setLicence (py "AB123") ⟨_, _, rfl⟩))
  have hobjects : LicenceReach licenceConfig ChaChaEncryptionService.sample .empty
      licenceObjects :=
    (Relation.ReflTransGen.single (.add .user (some (py "ab 123")) none hadd)).tail
      (.add .electoralRoll (some (py "ab 123")) none hadd)
  exact ((hobjects.tail (.flush licenceDraw h₁)).trans hassign).tail (.flush licenceDraw h₂)

end Sample

/-- The user of the run has the new spelling, and the hash is still the one of the licence. -/
theorem licence_index_follows_sample :
    ∃ s, Sample.licenceRun = .ok s ∧
      (s.db.table .user).rows.map (fun row =>
        (ChaChaEncryptionService.sample.decrypt row.licence).toOption) = [some (py "AB123")] ∧
      IndexFollows Sample.licenceConfig ChaChaEncryptionService.sample s.db ∧
      LicencesDiffer Sample.licenceConfig ChaChaEncryptionService.sample s.db := by
  have hrun : Sample.licenceRun.toOption.map (fun s => (s.db.table .user).rows.map fun row =>
      (ChaChaEncryptionService.sample.decrypt row.licence).toOption) =
      some [some (py "AB123")] := by
    decide +kernel
  cases hs : Sample.licenceRun with
  | error e =>
    rw [hs] at hrun
    cases hrun
  | ok s =>
    rw [hs] at hrun
    exact ⟨s, rfl, Option.some.inj hrun, licence_index_follows
      (fun m row hrow => absurd hrow List.not_mem_nil) (Sample.reach_licenceRun hs)⟩

end SecureVote
