import SecureVote.Text.Aead
import SecureVote.Text.Base64
import SecureVote.Text.Numeral

/-!
# Voter PII at rest

`ChaChaEncryptionService` and `EncryptedType` of `security/encryption.py`: the versioned envelope,
its strict decoding, and the two explicit conversions of legacy values. The nonce of `os.urandom`
is an argument of what draws it.
-/

namespace SecureVote.Encryption

open Py

/-- The exceptions of the module: `PIIDecryptionError`, `LegacyPIIMigrationError`, `RuntimeError`
and `ValueError`. -/
inductive PiiError
  | decryption (message : PyStr)
  | migration (message : PyStr)
  | runtime (message : PyStr)
  | value (message : PyStr)
  deriving DecidableEq, Repr

/-- `ENVELOPE_PREFIX` -/
def envelopePrefix : PyStr := py "svpii:v1:"

/-- `LEGACY_PLAINTEXT_PREFIX` -/
def legacyPlaintextPrefix : PyStr := py "svpii:legacy-plaintext:v0:"

/-- `ASSOCIATED_DATA` -/
def associatedData : List UInt8 := asciiBytes (py "securevote:voter-pii:v1")

/-- `NONCE_BYTES` -/
def nonceBytes : ℕ := 12

/-- `TAG_BYTES` -/
def tagBytes : ℕ := 16

/-- `ChaChaEncryptionService`, with its key. -/
structure ChaChaEncryptionService where
  cipher : Aead
  key : List UInt8
  keyLength : key.length = 32

/-- `initialize`, with a key as Base64 text. -/
def initializeService (cipher : Aead) (key : PyStr) : Except PiiError ChaChaEncryptionService :=
  match b64decode key with
  | none => .error (.runtime (py "Invalid Base64 PII encryption key"))
  | some key =>
      if h : key.length = 32 then .ok ⟨cipher, key, h⟩
      else .error (.runtime (py "ChaCha20Poly1305 requires a 32-byte key"))

/-- `_decode_payload` -/
def decodePayload (payload : PyStr) : Except PiiError (List UInt8) :=
  if payload = [] then
    .error (.decryption (py "Stored PII envelope has no ciphertext payload"))
  else if payload ≠ strip payload ∨ payload.length % 4 ≠ 0 then
    .error (.decryption (py "Stored PII envelope has invalid Base64 framing"))
  else
    match b64decode payload with
    | none => .error (.decryption (py "Stored PII envelope has invalid Base64 framing"))
    | some combined =>
        if combined.length < nonceBytes + tagBytes then
          .error (.decryption (py "Stored PII envelope is truncated"))
        else .ok combined

namespace ChaChaEncryptionService

variable (service : ChaChaEncryptionService)

/-- `_decrypt_combined` -/
def decryptCombined (combined : List UInt8) (associated : Option (List UInt8)) :
    Except PiiError PyStr :=
  let nonce := combined.take nonceBytes
  let ciphertext := combined.drop nonceBytes
  match (service.cipher.decrypt service.key nonce associated ciphertext).bind decodeUtf8 with
  | some plaintext => .ok plaintext
  | none => .error (.decryption (py "Stored PII failed authenticated decryption"))

/-- The text of an envelope with the nonce and ciphertext given. -/
def envelope (nonce ciphertext : List UInt8) : PyStr :=
  envelopePrefix ++ b64encode (nonce ++ ciphertext)

/-- `encrypt`, with the nonce it draws; a lone surrogate has no UTF-8 form. -/
def encrypt (nonce : List UInt8) (data : PyStr) : Except PiiError PyStr :=
  match encodeUtf8 data with
  | none => .error (.runtime (py "Failed to encrypt PII"))
  | some plaintext =>
      .ok (envelope nonce
        (service.cipher.encrypt service.key nonce (some associatedData) plaintext))

/-- `decrypt` -/
def decrypt (encryptedData : PyStr) : Except PiiError PyStr :=
  if envelopePrefix.isPrefixOf encryptedData then
    match decodePayload (encryptedData.drop envelopePrefix.length) with
    | .error e => .error e
    | .ok combined => service.decryptCombined combined (some associatedData)
  else
    .error (.decryption
      (py "Stored PII has no supported version marker; run the explicit migration"))

/-- `migrate_legacy_plaintext` -/
def migrateLegacyPlaintext (nonce : List UInt8) (markedValue : PyStr) : Except PiiError PyStr :=
  if legacyPlaintextPrefix.isPrefixOf markedValue then
    service.encrypt nonce (markedValue.drop legacyPlaintextPrefix.length)
  else
    .error (.migration (py "Legacy plaintext must carry the explicit legacy-plaintext marker"))

/-- `migrate_legacy_ciphertext` -/
def migrateLegacyCiphertext (nonce : List UInt8) (ciphertext : PyStr) : Except PiiError PyStr :=
  if envelopePrefix.isPrefixOf ciphertext then
    .error (.migration (py "Value is already current-format PII"))
  else
    match (decodePayload ciphertext).bind fun combined => service.decryptCombined combined none with
    | .error _ => .error (.migration (py "Legacy ciphertext failed authenticated decryption"))
    | .ok plaintext => service.encrypt nonce plaintext

/-- `EncryptedType.process_bind_param`, for a column of the length given. -/
def processBindParam (length : Option ℕ) (nonce : List UInt8) :
    Option PyStr → Except PiiError (Option PyStr)
  | none => .ok none
  | some value =>
      match service.encrypt nonce value with
      | .error e => .error e
      | .ok encrypted =>
          match length with
          | none | some 0 => .ok (some encrypted)
          | some n =>
              if n < encrypted.length then
                .error (.value (py "Encrypted value length (" ++ natRepr 10 encrypted.length ++
                  py ") exceeds column length (" ++ natRepr 10 n ++ py ")"))
              else .ok (some encrypted)

/-- `EncryptedType.process_result_value` -/
def processResultValue : Option PyStr → Except PiiError (Option PyStr)
  | none => .ok none
  | some value => (service.decrypt value).map some

/-! ### What an envelope is -/

theorem isPrefixOf_append (p s : PyStr) : p.isPrefixOf (p ++ s) = true :=
  List.isPrefixOf_iff_prefix.mpr (List.prefix_append p s)

/-- The framing checks ask no more than that the payload decodes to a nonce and a tag at least. -/
theorem decodePayload_ok {payload : PyStr} {combined : List UInt8} :
    decodePayload payload = .ok combined ↔
      b64decode payload = some combined ∧ nonceBytes + tagBytes ≤ combined.length := by
  constructor
  · intro h
    rw [decodePayload] at h
    split at h
    · cases h
    split at h
    · cases h
    split at h
    · cases h
    case h_2 bytes hbytes =>
      split at h
      · cases h
      case isFalse hlong =>
        cases h
        exact ⟨hbytes, not_lt.mp hlong⟩
  · rintro ⟨hdecode, hlong⟩
    have hne : payload ≠ [] := by
      rintro rfl
      cases hdecode
      exact absurd hlong (by decide)
    have hstrip : payload = strip payload := (strip_eq_self (isSpace_of_b64decode hdecode)).symm
    have hgroups := (b64decode_shape hdecode).1
    have hframe : ¬(payload ≠ strip payload ∨ payload.length % 4 ≠ 0) := by
      rintro (h | h)
      · exact h hstrip
      · exact h hgroups
    rw [decodePayload, if_neg hne, if_neg hframe, hdecode]
    exact if_neg (not_lt.mpr hlong)

/-- The only error of the framing checks is `PIIDecryptionError`. -/
theorem decodePayload_error {payload : PyStr} {e : PiiError} (h : decodePayload payload = .error e) :
    ∃ message, e = .decryption message := by
  rw [decodePayload] at h
  split at h
  · cases h
    exact ⟨_, rfl⟩
  split at h
  · cases h
    exact ⟨_, rfl⟩
  split at h
  · cases h
    exact ⟨_, rfl⟩
  · split at h
    · cases h
      exact ⟨_, rfl⟩
    · cases h

/-- A nonce and ciphertext decrypt to a text just when they are its encryption under that nonce. -/
theorem decryptCombined_ok {combined : List UInt8} {ad : Option (List UInt8)} {text : PyStr} :
    service.decryptCombined combined ad = .ok text ↔
      ∃ plaintext, encodeUtf8 text = some plaintext ∧
        service.cipher.encrypt service.key (combined.take nonceBytes) ad plaintext =
          combined.drop nonceBytes := by
  constructor
  · intro h
    rw [decryptCombined] at h
    split at h
    case h_2 => cases h
    case h_1 text' htext =>
      cases h
      obtain ⟨plaintext, hopen, hutf8⟩ := Option.bind_eq_some_iff.mp htext
      exact ⟨plaintext, encodeUtf8_decodeUtf8 hutf8, service.cipher.encrypt_decrypt hopen⟩
  · rintro ⟨plaintext, hutf8, hseal⟩
    rw [decryptCombined, ← hseal, service.cipher.decrypt_encrypt, Option.bind_some,
      decodeUtf8_encodeUtf8 hutf8]

theorem decryptCombined_error {combined : List UInt8} {ad : Option (List UInt8)} {e : PiiError}
    (h : service.decryptCombined combined ad = .error e) : ∃ message, e = .decryption message := by
  rw [decryptCombined] at h
  split at h
  · cases h
  · cases h
    exact ⟨_, rfl⟩

/-- What `decrypt` accepts: the Base64 text, under any spelling, of a nonce and an encryption. -/
theorem decrypt_ok {v text : PyStr} :
    service.decrypt v = .ok text ↔
      ∃ payload nonce plaintext, v = envelopePrefix ++ payload ∧ nonce.length = nonceBytes ∧
        encodeUtf8 text = some plaintext ∧
        b64decode payload = some (nonce ++
          service.cipher.encrypt service.key nonce (some associatedData) plaintext) := by
  constructor
  · intro h
    rw [decrypt] at h
    split at h
    case isFalse => cases h
    case isTrue hmark =>
      obtain ⟨payload, rfl⟩ := List.isPrefixOf_iff_prefix.mp hmark
      rw [List.drop_left] at h
      split at h
      · cases h
      case h_2 combined hcombined =>
        obtain ⟨hdecode, hlong⟩ := decodePayload_ok.mp hcombined
        obtain ⟨plaintext, hutf8, hseal⟩ := service.decryptCombined_ok.mp h
        refine ⟨payload, combined.take nonceBytes, plaintext, rfl, ?_, hutf8, ?_⟩
        · rw [List.length_take]
          omega
        · rw [hseal, List.take_append_drop, hdecode]
  · rintro ⟨payload, nonce, plaintext, rfl, hnonce, hutf8, hdecode⟩
    have hlong : nonceBytes + tagBytes ≤ (nonce ++
        service.cipher.encrypt service.key nonce (some associatedData) plaintext).length := by
      have htag : tagBytes = 16 := rfl
      rw [List.length_append, service.cipher.length_encrypt]
      omega
    have htake : (nonce ++ service.cipher.encrypt service.key nonce (some associatedData)
        plaintext).take nonceBytes = nonce := List.take_left' hnonce
    have hdrop : (nonce ++ service.cipher.encrypt service.key nonce (some associatedData)
        plaintext).drop nonceBytes = service.cipher.encrypt service.key nonce
          (some associatedData) plaintext := List.drop_left' hnonce
    rw [decrypt, if_pos (isPrefixOf_append _ _), List.drop_left,
      decodePayload_ok.mpr ⟨hdecode, hlong⟩]
    refine service.decryptCombined_ok.mpr ⟨plaintext, hutf8, ?_⟩
    rw [htake, hdrop]

/-- Whatever `decrypt` does not accept raises `PIIDecryptionError`. -/
theorem decrypt_error {v : PyStr} {e : PiiError} (h : service.decrypt v = .error e) :
    ∃ message, e = .decryption message := by
  rw [decrypt] at h
  split at h
  · split at h
    case h_1 e' he =>
      cases h
      exact decodePayload_error he
    case h_2 => exact service.decryptCombined_error h
  · cases h
    exact ⟨_, rfl⟩

theorem encrypt_ok {nonce : List UInt8} {text v : PyStr} :
    service.encrypt nonce text = .ok v ↔
      ∃ plaintext, encodeUtf8 text = some plaintext ∧
        v = envelope nonce
          (service.cipher.encrypt service.key nonce (some associatedData) plaintext) := by
  rw [encrypt]
  cases encodeUtf8 text with
  | none => simp
  | some plaintext => simp [eq_comm]

/-- `decrypt` undoes `encrypt`. -/
theorem decrypt_encrypt {nonce : List UInt8} {text v : PyStr} (hnonce : nonce.length = nonceBytes)
    (h : service.encrypt nonce text = .ok v) : service.decrypt v = .ok text := by
  obtain ⟨plaintext, hutf8, rfl⟩ := service.encrypt_ok.mp h
  exact service.decrypt_ok.mpr
    ⟨_, nonce, plaintext, rfl, hnonce, hutf8, b64decode_b64encode _⟩

/-- A parameter that is bound decrypts to the text. -/
theorem processBindParam_ok {length : Option ℕ} {nonce : List UInt8} {text : PyStr}
    {v : Option PyStr} (hnonce : nonce.length = nonceBytes)
    (h : service.processBindParam length nonce (some text) = .ok v) :
    ∃ encrypted, v = some encrypted ∧ service.decrypt encrypted = .ok text := by
  rw [processBindParam] at h
  split at h
  · cases h
  next encrypted henc =>
    refine ⟨encrypted, ?_, service.decrypt_encrypt hnonce henc⟩
    split at h
    · cases h
      rfl
    · cases h
      rfl
    · split at h
      · cases h
      · cases h
        rfl

/-- The service under the key of the octets 0 to 31. -/
def sample : ChaChaEncryptionService :=
  ⟨ChaCha20Poly1305.cipher, (List.range 32).map UInt8.ofNat, rfl⟩

end ChaChaEncryptionService

end SecureVote.Encryption
