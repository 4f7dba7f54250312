import SecureVote.Routes.Registration

/-!
# What a registration commits

A registration that is admitted and whose row can be inserted at its flush commits one user and one
roll, or renders a page; nothing else may go wrong than that insert, which is not guarded.
-/

open Txn

namespace SecureVote.Registration

open Py Encryption
open PiiMigration (ENCRYPTED_LICENCE_COLUMN_LENGTH)

/-! ### Exceptions in sequence -/

section Except

variable {ε α β : Type} {x : Except ε α} {k : α → Except ε β}

theorem bind_eq_ok {b : β} : x >>= k = .ok b ↔ ∃ a, x = .ok a ∧ k a = .ok b := by
  cases x with
  | ok a => simp [bind, Except.bind]
  | error e => simp [bind, Except.bind]

theorem bind_eq_error {e : ε} :
    x >>= k = .error e ↔ x = .error e ∨ ∃ a, x = .ok a ∧ k a = .error e := by
  cases x with
  | ok a => simp [bind, Except.bind]
  | error e => simp [bind, Except.bind]

theorem then_eq_ok {x : Except ε Unit} {k : Unit → Except ε β} {b : β} :
    x >>= k = .ok b ↔ x = .ok () ∧ k () = .ok b := by
  rw [bind_eq_ok]
  exact ⟨fun ⟨(), h⟩ => h, fun h => ⟨(), h⟩⟩

end Except

variable {C : Config} {draws : Draws} {f : Fields} {geo : List (Option PyStr)} {i : Interleaving}

theorem check_eq_ok {ok : Bool} {message : String} : check ok message = .ok () ↔ ok = true := by
  cases ok <;> simp [check]

theorem checkPassword_eq_ok {password : PyStr} :
    checkPassword password = .ok () ↔ validatePasswordStrength password = none := by
  rw [checkPassword]
  cases validatePasswordStrength password <;> simp

/-- What fails renders the page. -/
def Renders {α : Type} (x : Except Answer α) : Prop := ∀ a, x = .error a → ∃ flashed, a = .page flashed

theorem renders_check (ok : Bool) (message : String) : Renders (check ok message) := by
  intro a h
  cases ok with
  | true => cases h
  | false =>
    cases h
    exact ⟨_, rfl⟩

theorem renders_checkPassword (password : PyStr) : Renders (checkPassword password) := by
  intro a h
  rw [checkPassword] at h
  split at h
  · cases h
  · cases h
    exact ⟨_, rfl⟩

theorem Renders.bind {α β : Type} {x : Except Answer α} {k : α → Except Answer β} (hx : Renders x)
    (hk : ∀ a, Renders (k a)) : Renders (x >>= k) := by
  intro e h
  rcases bind_eq_error.mp h with h | ⟨a, -, h⟩
  · exact hx e h
  · exact hk a e h

/-! ### The checks -/

/-- The form passes the checks, on the rows that they see. -/
structure Screened (C : Config) (f : Fields) (geo : List (Option PyStr)) (i : Interleaving) : Prop
    where
  geo : geoMatches C geo f.licState = true
  username : matchesUsername f.username = true
  freshUsername : takenUsername C i f.username = false
  email : matchesEmail f.email = true
  freshEmail : takenEmail C i f.email = false
  confirmed : f.password = f.confirm
  strong : validatePasswordStrength f.password = none
  licence : validateDriverLic C f.licNo (orNone f.licState) = true

theorem screen_eq_ok : screen C f geo i = .ok () ↔ Screened C f geo i := by
  simp only [screen, then_eq_ok, check_eq_ok, checkPassword_eq_ok, Bool.not_eq_true',
    decide_eq_true_eq]
  constructor
  · rintro ⟨h₁, h₂, h₃, h₄, h₅, h₆, h₇, h₈⟩
    exact ⟨h₁, h₂, h₃, h₄, h₅, h₆, h₇, h₈⟩
  · rintro ⟨h₁, h₂, h₃, h₄, h₅, h₆, h₇, h₈⟩
    exact ⟨h₁, h₂, h₃, h₄, h₅, h₆, h₇, h₈⟩

theorem renders_screen : Renders (screen C f geo i) :=
  (renders_check _ _).bind fun _ => (renders_check _ _).bind fun _ => (renders_check _ _).bind
    fun _ => (renders_check _ _).bind fun _ => (renders_check _ _).bind fun _ =>
      (renders_check _ _).bind fun _ => (renders_checkPassword _).bind fun _ => renders_check _ _

/-- The role that the query finds. -/
def voterRole (C : Config) (i : Interleaving) : Option Role :=
  (i.seen .role).roles.find? fun r => C.collateEq r.name (py "voter")

theorem lookupHash_eq_ok {licNo : PyStr} {hash : Option PyStr} :
    lookupHash C licNo = .ok hash ↔ C.licence.hashLic (some licNo) = .ok hash := by
  rw [lookupHash]
  cases C.licence.hashLic (some licNo) <;> simp

theorem admitForm_eq_ok {hash : Option PyStr} {role : Role} :
    admitForm C f geo i = .ok (hash, role) ↔ Screened C f geo i ∧
      C.licence.hashLic (some f.licNo) = .ok hash ∧ takenLicence C i hash = false ∧
      voterRole C i = some role := by
  rw [admitForm, then_eq_ok, screen_eq_ok, bind_eq_ok]
  refine and_congr_right fun _ => ⟨?_, ?_⟩
  · rintro ⟨h, hhash, hrest⟩
    obtain ⟨htaken, hlast⟩ := then_eq_ok.mp hrest
    split at hlast
    · cases hlast
    next role' hfound =>
      cases hlast
      exact ⟨lookupHash_eq_ok.mp hhash, by simpa using check_eq_ok.mp htaken, hfound⟩
  · rintro ⟨hhash, htaken, hfound⟩
    refine ⟨hash, lookupHash_eq_ok.mpr hhash,
      then_eq_ok.mpr ⟨check_eq_ok.mpr (by simpa using htaken), ?_⟩⟩
    split
    next hnone => cases hnone.symm.trans hfound
    next role' hrole =>
      cases hrole.symm.trans hfound
      rfl

/-- What stops a request in front of its row is a page, or the exception of the blind index. -/
theorem admitForm_eq_error {answer : Answer} (h : admitForm C f geo i = .error answer) :
    (∃ flashed, answer = .page flashed) ∨
      Screened C f geo i ∧ ∃ e, C.licence.hashLic (some f.licNo) = .error e ∧
        answer = .raised (.licence e) := by
  rw [admitForm] at h
  rcases bind_eq_error.mp h with h | ⟨⟨⟩, hscreen, h⟩
  · exact .inl (renders_screen _ h)
  rcases bind_eq_error.mp h with h | ⟨hash, -, h⟩
  · rw [lookupHash] at h
    split at h
    · cases h
    · rename_i e he
      cases h
      exact .inr ⟨screen_eq_ok.mp hscreen, e, he, rfl⟩
  rcases bind_eq_error.mp h with h | ⟨⟨⟩, -, h⟩
  · exact .inl (renders_check _ _ _ h)
  · split at h
    · cases h
      exact .inl ⟨_, rfl⟩
    · cases h

theorem admitForm_of_hash_error {e : LicenceError} (hscreen : Screened C f geo i)
    (he : C.licence.hashLic (some f.licNo) = .error e) :
    admitForm C f geo i = .error (.raised (.licence e)) := by
  have hlookup : lookupHash C f.licNo = .error (.raised (.licence e)) := by
    rw [lookupHash, he]
  rw [admitForm, screen_eq_ok.mpr hscreen]
  exact bind_eq_error.mpr (.inr ⟨(), rfl, bind_eq_error.mpr (.inl hlookup)⟩)

/-! ### The licence -/

/-- The characters of a licence that passes: letters and digits, and spaces between them. -/
theorem licNo_chars (h : validateDriverLic C f.licNo (orNone f.licState) = true) :
    ∀ c ∈ f.licNo, c = 32 ∨ isAlnum c = true := by
  intro c hc
  simp only [validateDriverLic, f.strip_licNo, Bool.and_eq_true, List.all_eq_true] at h
  by_cases hspace : c = 32
  · exact .inl hspace
  · exact .inr (h.1.2 c (List.mem_filter.mpr ⟨hc, by simpa using hspace⟩))

theorem isAlnum_lt {c : ℕ} (h : isAlnum c = true) : 48 ≤ c ∧ c < 0x80 ∧ isSpace c = false := by
  simp only [isAlnum, Bool.or_eq_true, Bool.and_eq_true, decide_eq_true_eq] at h
  have hlt : c < 0x80 := by omega
  have hle : 48 ≤ c := by omega
  refine ⟨hle, hlt, ?_⟩
  simp only [isSpace, Bool.or_eq_false_iff, Bool.and_eq_false_iff, decide_eq_false_iff_not,
    beq_eq_false_iff_ne]
  omega

theorem isAscii_licNo (h : validateDriverLic C f.licNo (orNone f.licState) = true) :
    IsAscii f.licNo := by
  intro c hc
  rcases licNo_chars h c hc with rfl | halnum
  · decide
  · exact (isAlnum_lt halnum).2.1

/-- The text that is indexed: without spaces, in upper case. -/
def indexed (licNo : PyStr) : PyStr := (licNo.filter fun c => !isSpace c).map asciiUpper

theorem isAscii_indexed {licNo : PyStr} (h : IsAscii licNo) : IsAscii (indexed licNo) := by
  intro c hc
  obtain ⟨d, hd, rfl⟩ := List.mem_map.mp hc
  have hlt : d < 0x80 := h d (List.mem_of_mem_filter hd)
  unfold asciiUpper
  split <;> omega

theorem indexed_ne_nil (h : validateDriverLic C f.licNo (orNone f.licState) = true) :
    indexed f.licNo ≠ [] := by
  have hlic := h
  simp only [validateDriverLic, f.strip_licNo, Bool.and_eq_true, decide_eq_true_eq,
    List.all_eq_true] at hlic
  -- six characters at least are no spaces
  obtain ⟨c, hc⟩ : ∃ c, c ∈ f.licNo.filter (· ≠ 32) :=
    List.exists_mem_of_length_pos (by omega)
  have hspace := (isAlnum_lt (hlic.1.2 c hc)).2.2
  have hmem : c ∈ f.licNo.filter fun c => !isSpace c :=
    List.mem_filter.mpr ⟨List.mem_of_mem_filter hc, by simp [hspace]⟩
  exact List.ne_nil_of_mem (List.mem_map_of_mem hmem)

/-- The blind index of a licence that passes: it fails only for want of a key. -/
theorem hashLic_licNo (h : validateDriverLic C f.licNo (orNone f.licState) = true) :
    C.licence.hashLic (some f.licNo) = C.licence.getHashPepper.map fun key =>
      some (bytesHex (Sha256.hmacNew key (asciiBytes (indexed f.licNo)))) := by
  have hascii := isAscii_licNo h
  have hfilter : IsAscii (f.licNo.filter fun c => !isSpace c) :=
    fun c hc => hascii c (List.mem_of_mem_filter hc)
  have hne := indexed_ne_nil h
  have hnorm : C.licence.normalizeLic (some f.licNo) = some (indexed f.licNo) := by
    cases hlic : f.licNo with
    | nil =>
      rw [hlic] at hne
      exact absurd rfl hne
    | cons c cs =>
      rw [LicenceConfig.normalizeLic, ← hlic, C.upper_ascii _ hfilter]
      · rfl
      · rintro ⟨⟩
  have hmsg : encodeOrRaise (indexed f.licNo) = .ok (asciiBytes (indexed f.licNo)) := by
    rw [encodeOrRaise, encodeUtf8_of_isAscii (isAscii_indexed hascii)]
  rw [LicenceConfig.hashLic, hnorm]
  split
  · rename_i heq
    cases heq
  · rename_i heq
    exact absurd (Option.some.inj heq) hne
  · rename_i norm _ heq
    cases heq
    cases C.licence.getHashPepper with
    | error e => rfl
    | ok key => simp only [bind, Except.bind, hmsg, Except.map, pure, Except.pure]

/-! ### Encrypted columns -/

theorem length_envelope {nonce : List UInt8} (hnonce : nonce.length = nonceBytes)
    (ciphertext : List UInt8) :
    (ChaChaEncryptionService.envelope nonce ciphertext).length =
      9 + (ciphertext.length + 14) / 3 * 4 := by
  have hmark : envelopePrefix.length = 9 := by decide
  have hbytes : nonceBytes = 12 := rfl
  have hsum : nonceBytes + ciphertext.length + 2 = ciphertext.length + 14 := by omega
  rw [ChaChaEncryptionService.envelope, List.length_append, hmark, length_b64encode,
    List.length_append, hnonce, hsum]

theorem processBindParam_succ {service : ChaChaEncryptionService} {n : ℕ} {nonce : List UInt8}
    {text encrypted : PyStr} (h : service.encrypt nonce text = .ok encrypted) :
    service.processBindParam (some (n + 1)) nonce (some text) =
      if n + 1 < encrypted.length then
        .error (.value (py "Encrypted value length (" ++ natRepr 10 encrypted.length ++
          py ") exceeds column length (" ++ natRepr 10 (n + 1) ++ py ")"))
      else .ok (some encrypted) := by
  rw [ChaChaEncryptionService.processBindParam, h]
  rfl

/-- A value that is bound fits its column and decrypts to the text. -/
theorem bindText_ok {field : EncryptedField} {length : ℕ} {text v : PyStr} (hlength : length ≠ 0)
    (h : bindText C draws field length text = .ok v) :
    v.length ≤ length ∧ C.service.decrypt v = .ok text := by
  obtain ⟨n, rfl⟩ := Nat.exists_eq_add_one_of_ne_zero hlength
  rw [bindText] at h
  cases henc : C.service.encrypt (draws.nonce field) text with
  | error e =>
    rw [ChaChaEncryptionService.processBindParam, henc] at h
    cases h
  | ok encrypted =>
    rw [processBindParam_succ henc] at h
    by_cases hfits : n + 1 < encrypted.length
    · rw [if_pos hfits] at h
      cases h
    · rw [if_neg hfits] at h
      cases h
      exact ⟨not_lt.mp hfits, C.service.decrypt_encrypt (draws.length_nonce field) henc⟩

/-- An ASCII text can be bound just when its envelope fits. -/
theorem exists_bindText {field : EncryptedField} {length : ℕ} {text : PyStr} (hlength : length ≠ 0)
    (hascii : IsAscii text) :
    (∃ v, bindText C draws field length text = .ok v) ↔
      9 + (text.length + 30) / 3 * 4 ≤ length := by
  obtain ⟨n, rfl⟩ := Nat.exists_eq_add_one_of_ne_zero hlength
  have henc : C.service.encrypt (draws.nonce field) text =
      .ok (ChaChaEncryptionService.envelope (draws.nonce field)
        (C.service.cipher.encrypt C.service.key (draws.nonce field) (some associatedData)
          (asciiBytes text))) := by
    rw [ChaChaEncryptionService.encrypt, encodeUtf8_of_isAscii hascii]
  have hlen : (ChaChaEncryptionService.envelope (draws.nonce field)
      (C.service.cipher.encrypt C.service.key (draws.nonce field) (some associatedData)
        (asciiBytes text))).length = 9 + (text.length + 30) / 3 * 4 := by
    rw [length_envelope (draws.length_nonce field), C.service.cipher.length_encrypt, asciiBytes,
      List.length_map]
  rw [bindText, processBindParam_succ henc, hlen]
  by_cases hfits : n + 1 < 9 + (text.length + 30) / 3 * 4
  · rw [if_pos hfits]
    exact iff_of_false (by simp) (by omega)
  · rw [if_neg hfits]
    exact iff_of_true ⟨_, rfl⟩ (by omega)

/-! ### The inserts -/

/-- The row of the form can be inserted: the envelope of its licence fits, its address does where
lengths are enforced, and no user has its name, its address or its index. -/
structure Insertable (C : Config) (f : Fields) (d : Database) (hash : PyStr) : Prop where
  licence : f.licNo.length ≤ 155
  email : C.strict = true → f.email.length ≤ 255
  unique : uniqueUser C d f.username f.email hash = true

theorem fitColumn_eq_ok {column : String} {length : ℕ} {text : PyStr} :
    fitColumn C column length text = .ok () ↔ (C.strict = true → text.length ≤ length) := by
  rw [fitColumn]
  cases C.strict <;> simp

theorem require_eq_ok {holds : Bool} : require holds = .ok () ↔ holds = true := by
  cases holds <;> simp [require]

theorem syncHash_eq {licNo : PyStr} {h : PyStr} {hash : Option PyStr}
    (hhash : C.licence.hashLic (some licNo) = .ok (some h)) : syncHash C licNo hash = .ok h := by
  rw [syncHash, hhash]
  rfl

variable {d : Database} {hash : PyStr} {role : Role}

/-- What the `INSERT` of the user does. -/
theorem insertUser_spec {u : UserRow} {d' : Database}
    (hhash : C.licence.hashLic (some f.licNo) = .ok (some hash))
    (h : insertUser C draws f (some hash) role d = .ok (u, d')) :
    d'.users.rows = d.users.rows ++ [u] ∧ d'.rolls = d.rolls ∧ d'.roles = d.roles ∧
      d'.regions = d.regions ∧ u.driverLicHash = hash ∧
      u.driverLicNo.length ≤ ENCRYPTED_LICENCE_COLUMN_LENGTH ∧
      C.service.decrypt u.driverLicNo = .ok f.licNo := by
  rw [insertUser] at h
  obtain ⟨hash', hsync, h⟩ := bind_eq_ok.mp h
  cases (syncHash_eq hhash).symm.trans hsync
  obtain ⟨licence, hbind, h⟩ := bind_eq_ok.mp h
  obtain ⟨-, h⟩ := then_eq_ok.mp h
  obtain ⟨-, h⟩ := then_eq_ok.mp h
  obtain ⟨-, h⟩ := then_eq_ok.mp h
  obtain ⟨-, h⟩ := then_eq_ok.mp h
  cases h
  obtain ⟨hlen, hdec⟩ := bindText_ok (by decide) hbind
  exact ⟨rfl, rfl, rfl, rfl, rfl, hlen, hdec⟩

/-- When the `INSERT` of the user succeeds. -/
theorem exists_insertUser (hscreen : Screened C f geo i)
    (hhash : C.licence.hashLic (some f.licNo) = .ok (some hash)) (hrole : role ∈ d.roles) :
    (∃ x, insertUser C draws f (some hash) role d = .ok x) ↔ Insertable C f d hash := by
  have husername : f.username.length ≤ 80 := by
    have hname := hscreen.username
    simp only [matchesUsername, Bool.and_eq_true, decide_eq_true_eq] at hname
    omega
  have hany : (d.roles.any (·.id = role.id)) = true :=
    List.any_eq_true.mpr ⟨role, hrole, by simp⟩
  have hbind : (∃ v, bindText C draws .driverLicNo ENCRYPTED_LICENCE_COLUMN_LENGTH f.licNo = .ok v) ↔
      9 + (f.licNo.length + 30) / 3 * 4 ≤ 255 :=
    exists_bindText (by decide) (isAscii_licNo hscreen.licence)
  rw [insertUser]
  constructor
  · rintro ⟨x, h⟩
    obtain ⟨hash', hsync, h⟩ := bind_eq_ok.mp h
    cases (syncHash_eq hhash).symm.trans hsync
    obtain ⟨licence, hlicence, h⟩ := bind_eq_ok.mp h
    obtain ⟨-, h⟩ := then_eq_ok.mp h
    obtain ⟨hemail, h⟩ := then_eq_ok.mp h
    obtain ⟨hunique, -⟩ := then_eq_ok.mp h
    have hfits := hbind.mp ⟨licence, hlicence⟩
    exact ⟨by omega, fitColumn_eq_ok.mp hemail, require_eq_ok.mp hunique⟩
  · rintro ⟨hlicence, hemail, hunique⟩
    obtain ⟨licence, hlicence⟩ := hbind.mpr (by omega)
    have husername' : fitColumn C "username" 80 f.username = .ok () :=
      fitColumn_eq_ok.mpr fun _ => husername
    have hemail' : fitColumn C "email" 255 f.email = .ok () := fitColumn_eq_ok.mpr hemail
    simp only [syncHash_eq hhash, hlicence, husername', hemail', require_eq_ok.mpr hunique,
      require_eq_ok.mpr hany, bind, Except.bind]
    exact ⟨_, rfl⟩

/-- What the `INSERT` of the roll does. -/
theorem insertRoll_spec {licNo : PyStr} {u : UserRow} {r : RollRow} {d' : Database}
    (hhash : C.licence.hashLic (some licNo) = .ok (some hash))
    (h : insertRoll C draws licNo u d = .ok (r, d')) :
    d'.users = d.users ∧ d'.rolls.rows = d.rolls.rows ++ [r] ∧ d'.roles = d.roles ∧
      d'.regions = d.regions ∧ r.userId = some u.id ∧ r.driverLicenseHash = hash ∧
      r.driverLicenseNumber.length ≤ ENCRYPTED_LICENCE_COLUMN_LENGTH ∧
      C.service.decrypt r.driverLicenseNumber = .ok licNo := by
  rw [insertRoll] at h
  obtain ⟨hash', hsync, h⟩ := bind_eq_ok.mp h
  cases (syncHash_eq hhash).symm.trans hsync
  obtain ⟨licence, hbind, h⟩ := bind_eq_ok.mp h
  obtain ⟨fullName, -, h⟩ := bind_eq_ok.mp h
  obtain ⟨addressLine1, -, h⟩ := bind_eq_ok.mp h
  obtain ⟨suburb, -, h⟩ := bind_eq_ok.mp h
  obtain ⟨state, -, h⟩ := bind_eq_ok.mp h
  obtain ⟨postcode, -, h⟩ := bind_eq_ok.mp h
  obtain ⟨-, h⟩ := then_eq_ok.mp h
  obtain ⟨-, h⟩ := then_eq_ok.mp h
  split at h
  · cases h
  · cases h
    obtain ⟨hlen, hdec⟩ := bindText_ok (by decide) hbind
    exact ⟨rfl, rfl, rfl, rfl, rfl, rfl, hlen, hdec⟩

/-! ### Registrations -/

/-- One user and one roll with the licence, on top of what the others commit: the licences are
encrypted within their columns, and both rows have its blind index. -/
def CommitsOne (C : Config) (licNo : PyStr) (i : Interleaving) (db : Database) : Prop :=
  ∃ pending u r, pending.users.rows = i.flush.users.rows ++ [u] ∧ pending.rolls = i.flush.rolls ∧
    db.users = (i.later pending).users ∧ db.rolls.rows = (i.later pending).rolls.rows ++ [r] ∧
    db.roles = i.flush.roles ∧ db.regions = i.flush.regions ∧ r.userId = some u.id ∧
    u.driverLicNo.length ≤ ENCRYPTED_LICENCE_COLUMN_LENGTH ∧
    r.driverLicenseNumber.length ≤ ENCRYPTED_LICENCE_COLUMN_LENGTH ∧
    C.service.decrypt u.driverLicNo = .ok licNo ∧
    C.service.decrypt r.driverLicenseNumber = .ok licNo ∧
    C.licence.hashLic (some licNo) = .ok (some u.driverLicHash) ∧
    r.driverLicenseHash = u.driverLicHash

/-- The request renders a page and commits nothing, or it commits one user and one roll. -/
def Atomic (C : Config) (req : Request) (i : Interleaving) (result : Result) : Prop :=
  (∃ flashed, result = ⟨.page flashed, none⟩) ∨
    ∃ form flashed db, req.form = some form ∧ result = ⟨.redirect flashed, some db⟩ ∧
      CommitsOne C (form.fields C).licNo i db

/-- A form that passes the checks finds a key for the index, and if its index is free and the role
exists its row can be inserted at the flush. -/
def Unobstructed (C : Config) (req : Request) (i : Interleaving) : Prop :=
  ∀ form, req.form = some form → Screened C (form.fields C) req.geo i →
    ∃ key, C.licence.getHashPepper = .ok key ∧
      let index := bytesHex
        (Sha256.hmacNew key (asciiBytes (indexed (form.fields C).licNo)))
      takenLicence C i (some index) = false → (voterRole C i).isSome →
        Insertable C (form.fields C) i.flush index

/-- When the row cannot be inserted, the exception of the flush is not caught. -/
theorem submit_raised (hscreen : Screened C f geo i)
    (hhash : C.licence.hashLic (some f.licNo) = .ok (some hash)) (hrole : role ∈ i.flush.roles)
    (hinsert : ¬Insertable C f i.flush hash) (mailed : Bool) :
    ∃ e, submit C draws f (some hash) role i mailed = ⟨.raised (.insert e), none⟩ := by
  rw [submit, eagerHash]
  dsimp only
  rw [hscreen.strong]
  dsimp only
  cases huser : insertUser C draws f (some hash) role i.flush with
  | error e => exact ⟨e, rfl⟩
  | ok x => exact absurd ((exists_insertUser hscreen hhash hrole).mp ⟨x, huser⟩) hinsert

/-- When it can, the roll is inserted and both are committed, or the transaction is rolled back. -/
theorem submit_atomic (hscreen : Screened C f geo i)
    (hhash : C.licence.hashLic (some f.licNo) = .ok (some hash)) (hrole : role ∈ i.flush.roles)
    (hinsert : Insertable C f i.flush hash) (mailed : Bool) :
    (∃ flashed, submit C draws f (some hash) role i mailed = ⟨.page flashed, none⟩) ∨
      ∃ flashed db, submit C draws f (some hash) role i mailed = ⟨.redirect flashed, some db⟩ ∧
        CommitsOne C f.licNo i db := by
  obtain ⟨⟨u, pending⟩, huser⟩ := (exists_insertUser hscreen hhash hrole).mpr hinsert
  obtain ⟨husers, hrolls, hroles, hregions, hindex, hlen, hdec⟩ := insertUser_spec hhash huser
  rw [submit, eagerHash]
  dsimp only
  rw [hscreen.strong]
  dsimp only
  rw [huser]
  dsimp only
  cases hroll : insertRoll C draws f.licNo u (i.later pending) with
  | error e => exact .inl ⟨_, rfl⟩
  | ok y =>
    obtain ⟨r, db⟩ := y
    have hlater := i.extends_later pending
    obtain ⟨husers', hrolls', hroles', hregions', huser', hindex', hlen', hdec'⟩ :=
      insertRoll_spec hhash hroll
    have hone : CommitsOne C f.licNo i db := by
      refine ⟨pending, u, r, husers, hrolls, husers', hrolls', ?_, ?_, huser', hlen, hlen', hdec,
        hdec', hindex ▸ hhash, hindex'.trans hindex.symm⟩
      · rw [hroles', hlater.roles, hroles]
      · rw [hregions', hlater.regions, hregions]
    cases mailed with
    | true => exact .inr ⟨_, db, rfl, hone⟩
    | false => exact .inr ⟨_, db, rfl, hone⟩

theorem register_of_error {draws : Draws} {req : Request} {form : Form} {answer : Answer}
    (hform : req.form = some form) (h : admitForm C (form.fields C) req.geo i = .error answer)
    (mailed : Bool) : register C draws req i mailed = ⟨answer, none⟩ := by
  rw [register, hform]
  dsimp only
  rw [h]

theorem register_of_ok {draws : Draws} {req : Request} {form : Form} {role : Role}
    {hash : Option PyStr} (hform : req.form = some form)
    (h : admitForm C (form.fields C) req.geo i = .ok (hash, role)) (mailed : Bool) :
    register C draws req i mailed = submit C draws (form.fields C) hash role i mailed := by
  rw [register, hform]
  dsimp only
  rw [h]

/-- A page is what the request ends with when it is not admitted and the index can be computed. -/
theorem atomic_of_not_admitted {draws : Draws} {req : Request} {form : Form} (mailed : Bool)
    (hform : req.form = some form)
    (hadmitted : ∀ x, admitForm C (form.fields C) req.geo i ≠ .ok x)
    (hhash : Screened C (form.fields C) req.geo i →
      ∀ e, C.licence.hashLic (some (form.fields C).licNo) ≠ .error e) :
    Atomic C req i (register C draws req i mailed) := by
  cases h : admitForm C (form.fields C) req.geo i with
  | ok x => exact absurd h (hadmitted x)
  | error answer =>
    rw [register_of_error hform h]
    rcases admitForm_eq_error h with ⟨flashed, rfl⟩ | ⟨hscreen, e, he, -⟩
    · exact .inl ⟨flashed, rfl⟩
    · exact absurd he (hhash hscreen e)

theorem not_atomic_raised {req : Request} {e : RegisterError} :
    ¬Atomic C req i ⟨.raised e, none⟩ := by
  rintro (⟨flashed, h⟩ | ⟨form, flashed, db, -, h, -⟩)
  · cases h
  · cases h

theorem mem_roles_of_voterRole (h : voterRole C i = some role) : role ∈ i.flush.roles := by
  rw [(i.seen_extends .role).roles]
  exact List.mem_of_find?_eq_some h

/-- The part of a form that passes the checks and has an index. -/
theorem screened_atomic_iff {draws : Draws} {req : Request} {form : Form} (mailed : Bool)
    (hform : req.form = some form) (hscreen : Screened C (form.fields C) req.geo i)
    (hindex : C.licence.hashLic (some (form.fields C).licNo) = .ok (some hash)) :
    Atomic C req i (register C draws req i mailed) ↔
      (takenLicence C i (some hash) = false → (voterRole C i).isSome →
        Insertable C (form.fields C) i.flush hash) := by
  have hcomputed : Screened C (form.fields C) req.geo i →
      ∀ e, C.licence.hashLic (some (form.fields C).licNo) ≠ .error e := by
    intro _ e he
    rw [hindex] at he
    cases he
  by_cases hfree : takenLicence C i (some hash) = false
  case neg =>
    refine iff_of_true (atomic_of_not_admitted mailed hform (fun x h => ?_) hcomputed)
      fun h => absurd h hfree
    obtain ⟨-, hhash, hfree', -⟩ := admitForm_eq_ok.mp h
    rw [hindex] at hhash
    rw [← Except.ok.inj hhash] at hfree'
    exact hfree hfree'
  cases hfound : voterRole C i with
  | none =>
    refine iff_of_true (atomic_of_not_admitted mailed hform (fun x h => ?_) hcomputed)
      fun _ h => absurd h Bool.false_ne_true
    obtain ⟨-, -, -, hrole⟩ := admitForm_eq_ok.mp h
    rw [hfound] at hrole
    cases hrole
  | some role =>
    have hrole := mem_roles_of_voterRole hfound
    rw [register_of_ok hform (admitForm_eq_ok.mpr ⟨hscreen, hindex, hfree, hfound⟩)]
    by_cases hinsert : Insertable C (form.fields C) i.flush hash
    · refine iff_of_true ?_ fun _ _ => hinsert
      rcases submit_atomic hscreen hindex hrole hinsert mailed with
        h | ⟨flashed, db, h, hone⟩
      · exact .inl h
      · exact .inr ⟨form, flashed, db, hform, h, hone⟩
    · refine iff_of_false ?_ fun h => hinsert (h hfree rfl)
      obtain ⟨e, he⟩ := submit_raised hscreen hindex hrole hinsert mailed
      rw [he]
      exact not_atomic_raised

/-- A registration is atomic just when nothing obstructs its insert. -/
theorem register_atomic_iff (C : Config) (draws : Draws) (req : Request) (i : Interleaving)
    (mailed : Bool) :
    Atomic C req i (register C draws req i mailed) ↔ Unobstructed C req i := by
  cases hform : req.form with
  | none =>
    refine iff_of_true (.inl ⟨none, ?_⟩) fun form h => ?_
    · rw [register, hform]
    · rw [hform] at h
      cases h
  | some form =>
    have honly : ∀ form', req.form = some form' → form' = form := by
      intro form' h
      exact Option.some.inj (h.symm.trans hform)
    by_cases hscreen : Screened C (form.fields C) req.geo i
    case neg =>
      refine iff_of_true ?_ fun form' h hs => ?_
      · refine atomic_of_not_admitted mailed hform (fun x h => ?_) fun hs => absurd hs hscreen
        exact hscreen (admitForm_eq_ok.mp h).1
      · rw [honly form' h] at hs
        exact absurd hs hscreen
    have hindex := hashLic_licNo hscreen.licence
    cases hkey : C.licence.getHashPepper with
    | error e =>
      rw [hkey] at hindex
      refine iff_of_false ?_ fun h => ?_
      · rw [register_of_error hform (admitForm_of_hash_error hscreen hindex)]
        exact not_atomic_raised
      · obtain ⟨key, hk, -⟩ := h form hform hscreen
        rw [hkey] at hk
        cases hk
    | ok key =>
      rw [hkey] at hindex
      rw [screened_atomic_iff mailed hform hscreen hindex]
      constructor
      · intro h form' hform' _
        cases honly form' hform'
        exact ⟨key, hkey, h⟩
      · intro h
        obtain ⟨key', hk, hrest⟩ := h form hform hscreen
        cases hkey.symm.trans hk
        exact hrest

/-! ### Registrations that are not atomic -/

section Sample

/-- A process of the deployment, on a database that enforces lengths. -/
def sampleConfig : Config where
  service := .sample
  licence := ⟨List.map asciiUpper, py "an-example-pepper-of-32-characters", false, []⟩
  lower := List.map fun c => if 65 ≤ c ∧ c ≤ 90 then c + 32 else c
  collateEq s t := s = t
  strict := true
  upper_ascii _ _ := rfl

/-- A form, with a licence. -/
def sampleForm (licNo : PyStr) : Form :=
  ⟨some (py "alice"), some (py "alice@example.org"), some (py "Correct-Horse1"),
    some (py "Correct-Horse1"), some licNo, some (py "NSW")⟩

/-- The request with the form, without a detected state. -/
def sampleRequest (licNo : PyStr) : Request := ⟨some (sampleForm licNo), []⟩

/-- A database with the voter role and the users given. -/
def sampleDatabase (users : Table UserRow) : Database :=
  ⟨[⟨1, py "voter"⟩], [⟨1, py "Sydney"⟩], users, .empty⟩

/-- What another registration has committed: the same name, with another address and licence. -/
def otherAlice : Table UserRow :=
  Table.empty.insert (fun n =>
    { id := n
      username := py "alice"
      email := some (py "alice@example.net")
      passwordHash := py "scrypt:32768:8:1$c2FsdA$00"
      roleId := 1
      accountStatus := .pending
      emailVerified := false
      passwordChangedAt := some 0
      sessionVersion := 1
      failedLoginAttempts := 0
      accountLockedUntil := none
      driverLicNo := ChaChaEncryptionService.envelope (List.replicate 12 1)
        (ChaChaEncryptionService.sample.cipher.encrypt ChaChaEncryptionService.sample.key
          (List.replicate 12 1) (some associatedData) (asciiBytes (py "CD67890")))
      driverLicHash := bytesHex (Sha256.hmacNew
        (asciiBytes (py "an-example-pepper-of-32-characters")) (asciiBytes (py "CD67890")))
      driverLicState := some (py "VIC") }) fun _ => rfl

/-- The queries see no users; at the flush there are those given. -/
def sampleInterleaving (users : Table UserRow) : Interleaving where
  seen _ := sampleDatabase .empty
  flush := sampleDatabase users
  later d := d
  seen_extends _ := ⟨rfl, rfl, ⟨users.rows, rfl⟩, ⟨[], rfl⟩⟩
  extends_later _ := ⟨rfl, rfl, ⟨[], (List.append_nil _).symm⟩, ⟨[], (List.append_nil _).symm⟩⟩

/-- A licence with spaces inside, and the same one without. -/
def spacedLicence : PyStr := py "AB1" ++ List.replicate 153 32 ++ py "2345"

theorem screened_sample {licNo : PyStr} (users : Table UserRow)
    (h : validateDriverLic sampleConfig ((sampleForm licNo).fields sampleConfig).licNo
      (some (py "NSW")) = true) :
    Screened sampleConfig ((sampleForm licNo).fields sampleConfig) [] (sampleInterleaving users) where
  geo := by
    have hgeo : geoMatches sampleConfig [] (strip (py "NSW")) = true := by decide
    exact hgeo
  username := by
    have hname : matchesUsername (strip (py "alice")) = true := by decide
    exact hname
  freshUsername := rfl
  email := by
    have hemail : matchesEmail (sampleConfig.lower (strip (py "alice@example.org"))) = true := by
      decide
    exact hemail
  freshEmail := rfl
  confirmed := rfl
  strong := by
    have hstrong : validatePasswordStrength (py "Correct-Horse1") = none := by decide
    exact hstrong
  licence := h

/-- What is drawn. -/
def sampleDraws : Draws where
  nonce _ := List.replicate 12 0
  length_nonce _ := rfl
  passwordHash _ := py "scrypt:32768:8:1$c2FsdA$01"
  length_passwordHash _ := by decide
  now := 0

theorem atomic_sample_iff (licNo : PyStr) (users : Table UserRow)
    (h : validateDriverLic sampleConfig ((sampleForm licNo).fields sampleConfig).licNo
      (some (py "NSW")) = true) :
    ∃ index, Atomic sampleConfig (sampleRequest licNo) (sampleInterleaving users)
        (register sampleConfig sampleDraws (sampleRequest licNo) (sampleInterleaving users) true) ↔
      Insertable sampleConfig ((sampleForm licNo).fields sampleConfig) (sampleDatabase users)
        index := by
  have hscreen := screened_sample users h
  have hkey : sampleConfig.licence.getHashPepper =
      .ok (asciiBytes (py "an-example-pepper-of-32-characters")) := by decide
  have hindex := hashLic_licNo hscreen.licence
  rw [hkey] at hindex
  refine ⟨_, (screened_atomic_iff true rfl hscreen hindex).trans ⟨fun h => h rfl rfl, fun h _ _ => h⟩⟩

/-- The name is taken between the query and the flush, or the licence is padded with spaces. -/
theorem register_not_atomic :
    ¬Atomic sampleConfig (sampleRequest (py "AB12345")) (sampleInterleaving otherAlice)
        (register sampleConfig sampleDraws (sampleRequest (py "AB12345"))
          (sampleInterleaving otherAlice) true) ∧
      ¬Atomic sampleConfig (sampleRequest spacedLicence) (sampleInterleaving .empty)
        (register sampleConfig sampleDraws (sampleRequest spacedLicence)
          (sampleInterleaving .empty) true) := by
  constructor
  · obtain ⟨index, hiff⟩ := atomic_sample_iff (py "AB12345") otherAlice (by decide)
    intro h
    have hunique := (hiff.mp h).unique
    have hname : sampleConfig.collateEq (py "alice")
        ((sampleForm (py "AB12345")).fields sampleConfig).username = true := by decide
    simp only [uniqueUser, sampleDatabase, otherAlice, Table.insert, Table.empty, List.nil_append,
      List.all_cons, hname] at hunique
    exact absurd hunique (by simp)
  · obtain ⟨index, hiff⟩ := atomic_sample_iff spacedLicence .empty (by decide +kernel)
    intro h
    have hlength := (hiff.mp h).licence
    exact absurd hlength (by decide +kernel)

end Sample

end SecureVote.Registration
