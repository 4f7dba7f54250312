import SecureVote.Security.Encryption
import Mathlib.Data.Set.Insert

/-!
# The envelopes that decrypt

`decrypt` accepts what `encrypt` makes, and whatever else spells the same octets in Base64: the
strict decoder refuses bad characters and padding, but not the bits of the last group that it
drops.
-/

namespace SecureVote.Encryption

open Py

namespace ChaChaEncryptionService

variable (service : ChaChaEncryptionService)

/-- The nonce and ciphertext an envelope carries. -/
def carried (v : PyStr) : Option (List UInt8) := b64decode (v.drop envelopePrefix.length)

/-- On the stored strings, `decrypt` accepts exactly the image of `encrypt`. -/
structure DecryptsImages (stored : Set PyStr) : Prop where
  image : ∀ v ∈ stored, ∀ text, service.decrypt v = .ok text ↔
    ∃ nonce, nonce.length = nonceBytes ∧ service.encrypt nonce text = .ok v
  other : ∀ v ∈ stored, (∀ nonce text, nonce.length = nonceBytes →
    service.encrypt nonce text ≠ .ok v) → ∃ message, service.decrypt v = .error (.decryption message)
  distinct : ∀ v ∈ stored, ∀ w ∈ stored, (∃ text, service.decrypt v = .ok text) →
    (∃ text, service.decrypt w = .ok text) → carried v = carried w → v = w

/-- If the string is an envelope whose Base64 text decodes to a nonce and an encryption under it,
the bits this text leaves unused are zero. -/
def Canonical (v : PyStr) : Prop :=
  ∀ payload nonce text plaintext, v = envelopePrefix ++ payload → nonce.length = nonceBytes →
    encodeUtf8 text = some plaintext →
    b64decode payload = some (nonce ++
      service.cipher.encrypt service.key nonce (some associatedData) plaintext) →
    b64Unused payload = 0

/-- A canonical string that decrypts is the envelope of its text. -/
theorem image_of_canonical {v text : PyStr} (hv : service.Canonical v)
    (h : service.decrypt v = .ok text) :
    ∃ nonce, nonce.length = nonceBytes ∧ service.encrypt nonce text = .ok v := by
  obtain ⟨payload, nonce, plaintext, rfl, hnonce, hutf8, hdecode⟩ := service.decrypt_ok.mp h
  have hzero := hv payload nonce text plaintext rfl hnonce hutf8 hdecode
  refine ⟨nonce, hnonce, service.encrypt_ok.mpr ⟨plaintext, hutf8, ?_⟩⟩
  rw [envelope, (b64encode_eq_iff hdecode).mpr hzero]

/-- An image that decodes to an encryption leaves no bit unused. -/
theorem canonical_of_image {v : PyStr}
    (h : ∀ text, service.decrypt v = .ok text →
      ∃ nonce, nonce.length = nonceBytes ∧ service.encrypt nonce text = .ok v) :
    service.Canonical v := by
  intro payload nonce text plaintext hv hnonce hutf8 hdecode
  have hdecrypt := service.decrypt_ok.mpr ⟨payload, nonce, plaintext, hv, hnonce, hutf8, hdecode⟩
  obtain ⟨nonce', -, hencrypt⟩ := h text hdecrypt
  obtain ⟨plaintext', -, henvelope⟩ := service.encrypt_ok.mp hencrypt
  rw [hv, envelope, List.append_cancel_left_eq] at henvelope
  subst henvelope
  rw [b64decode_b64encode] at hdecode
  exact (b64encode_eq_iff (b64decode_b64encode _)).mp rfl

/-- The two canonical spellings of the same octets are one. -/
theorem eq_of_carried {v w : PyStr} (hv : service.Canonical v) (hw : service.Canonical w)
    (hdv : ∃ text, service.decrypt v = .ok text) (hdw : ∃ text, service.decrypt w = .ok text)
    (h : carried v = carried w) : v = w := by
  have hcarried : ∀ u, service.Canonical u → (∃ text, service.decrypt u = .ok text) →
      ∃ bytes, carried u = some bytes ∧ u = envelopePrefix ++ b64encode bytes := by
    rintro u hu ⟨text, htext⟩
    obtain ⟨nonce, -, hencrypt⟩ := service.image_of_canonical hu htext
    obtain ⟨plaintext, -, rfl⟩ := service.encrypt_ok.mp hencrypt
    refine ⟨_, ?_, rfl⟩
    rw [carried, envelope, List.drop_left, b64decode_b64encode]
  obtain ⟨bytes, hbytes, hv'⟩ := hcarried v hv hdv
  obtain ⟨bytes', hbytes', hw'⟩ := hcarried w hw hdw
  have hsame : bytes = bytes' := Option.some.inj (hbytes.symm.trans (h.trans hbytes'))
  rw [hv', hw', hsame]

/-- `decrypt` accepts exactly the image of `encrypt` among the stored strings just when none of them
spells an encryption in another way than `encrypt` does. -/
theorem decrypts_images_iff (stored : Set PyStr) :
    service.DecryptsImages stored ↔ ∀ v ∈ stored, service.Canonical v := by
  constructor
  · intro h v hv
    exact service.canonical_of_image fun text => (h.image v hv text).mp
  · intro h
    refine ⟨fun v hv text => ⟨service.image_of_canonical (h v hv), ?_⟩, fun v hv hnone => ?_,
      fun v hv w hw => service.eq_of_carried (h v hv) (h w hw)⟩
    · rintro ⟨nonce, hnonce, hencrypt⟩
      exact service.decrypt_encrypt hnonce hencrypt
    · cases hdecrypt : service.decrypt v with
      | error e =>
        obtain ⟨message, rfl⟩ := service.decrypt_error hdecrypt
        exact ⟨message, rfl⟩
      | ok text =>
        obtain ⟨nonce, hnonce, hencrypt⟩ := service.image_of_canonical (h v hv) hdecrypt
        exact absurd hencrypt (hnone nonce text hnonce)

/-- The payload of the letter A under the nonce of the octets 0 to 11, and the same text with one
unused bit set. -/
def samplePayload : PyStr := py "AAECAwQFBgcICQoL" ++ py "yGrXot1a4rbzOgSo" ++ py "Mb1HKxk="

def relaxedPayload : PyStr := py "AAECAwQFBgcICQoL" ++ py "yGrXot1a4rbzOgSo" ++ py "Mb1HKxl="

/-- Both texts are accepted, and only one is an envelope that `encrypt` makes. -/
theorem relaxed_decrypts :
    sample.encrypt ((List.range 12).map UInt8.ofNat) [65] =
        .ok (envelopePrefix ++ samplePayload) ∧
      sample.decrypt (envelopePrefix ++ samplePayload) = .ok [65] ∧
      sample.decrypt (envelopePrefix ++ relaxedPayload) = .ok [65] ∧
      carried (envelopePrefix ++ samplePayload) = carried (envelopePrefix ++ relaxedPayload) ∧
      ¬sample.DecryptsImages {envelopePrefix ++ relaxedPayload} := by
  have hdecrypt : sample.decrypt (envelopePrefix ++ relaxedPayload) = .ok [65] := by decide +kernel
  refine ⟨by decide +kernel, by decide +kernel, hdecrypt, by decide +kernel, fun h => ?_⟩
  obtain ⟨nonce, -, hencrypt⟩ :=
    (h.image _ (Set.mem_singleton _) [65]).mp hdecrypt
  obtain ⟨plaintext, -, henvelope⟩ := sample.encrypt_ok.mp hencrypt
  rw [envelope, List.append_cancel_left_eq] at henvelope
  have hunused : b64Unused relaxedPayload = 0 := by
    rw [henvelope]
    exact (b64encode_eq_iff (b64decode_b64encode _)).mp rfl
  exact absurd hunused (by decide +kernel)

end ChaChaEncryptionService

end SecureVote.Encryption
