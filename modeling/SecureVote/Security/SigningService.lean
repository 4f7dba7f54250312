import SecureVote.Security.VaultClient
import SecureVote.Security.BlindSignature
import SecureVote.Routes.Results

/-!
# Result signing (`security/signing_service.py`)

`sign_data` and `verify_signature`, with the metadata that goes from one to the other. The RSA
operations of the cryptography library and the answers of Vault are parameters; everything the
process has at hand besides them is a `SigningConfig`.
-/

namespace SecureVote

open Py

/-! ### Libraries and configurations -/

/-- The RSA operations of the cryptography library that only result signing uses. -/
structure RsaLib where
  /-- `serialization.load_pem_private_key(data, password=None)`: `none` when it raises a `TypeError`
  or a `ValueError`, `some none` for a key that is not RSA. -/
  loadPemPrivateKey : Bytes → Option (Option PrivateKey)
  /-- `public_bytes(PEM, SubjectPublicKeyInfo).decode("ascii")`. -/
  publicPem : PublicKey → PyStr
  /-- `private_key.sign(data, LOCAL_RSA_PADDING, LOCAL_RSA_HASH)` for a given random salt; `none`
  is a `ValueError` (the key is too small for the padding). -/
  sign : PrivateKey → Bytes → Bytes → Option Bytes
  /-- `public_key.verify(signature, data, LOCAL_RSA_PADDING, LOCAL_RSA_HASH)` does not raise. -/
  verify : PublicKey → Bytes → Bytes → Bool

/-- The pair of globals that `load_keys` sets together. -/
structure LocalKeys (L : Lib) (R : RsaLib) where
  privateKey : PrivateKey
  publicKey : PublicKey
  loaded : ∃ pem, R.loadPemPrivateKey pem = some (some privateKey)
  same : fingerprint L privateKey.publicKey = fingerprint L publicKey

/-- What the signing service of a process works with. -/
structure SigningConfig (L : Lib) (R : RsaLib) where
  /-- The environment the process was started in. -/
  environ : VaultEnviron
  /-- The Vault server behind the client. -/
  server : TransitServer
  /-- `VAULT_TRANSIT_KEY`. -/
  keyName : PyStr
  /-- The keys that an earlier `load_keys` has left in the process. -/
  keys : Option (LocalKeys L R)
  /-- The contents of `private_key.pem` and `public_key.pem`; `none` for an `OSError`. -/
  privatePem : Option Bytes
  publicPem : Option Bytes

variable {L : Lib} {R : RsaLib}

/-- The module's `vault_client`. -/
def SigningConfig.vaultClient (C : SigningConfig L R) : VaultClient := VaultClient.init C.environ

/-- `load_keys`. -/
def SigningConfig.loadKeys (C : SigningConfig L R) : Option (LocalKeys L R) :=
  match C.privatePem, C.publicPem with
  | some privatePem, some publicPem =>
    match hprivate : R.loadPemPrivateKey privatePem, L.loadPemPublicKey publicPem with
    | some (some privateKey), some (some publicKey) =>
      if hsame : fingerprint L privateKey.publicKey = fingerprint L publicKey then
        some ⟨privateKey, publicKey, ⟨privatePem, hprivate⟩, hsame⟩
      else none
    | _, _ => none
  | _, _ => none

/-- `_local_private_key`: the keys loaded earlier, else those of the files. -/
def SigningConfig.localPrivateKey (C : SigningConfig L R) : Except SigningError PrivateKey :=
  match C.keys.or C.loadKeys with
  | some keys => .ok keys.privateKey
  | none => .error (.signingUnavailable "The local result-signing private key is unavailable.")

/-! ### `sign_data` -/

/-- An argument of a Python call, as far as the service looks into it. -/
inductive PyArg
  | none
  | bool (b : Bool)
  | int (n : ℤ)
  | str (s : PyStr)
  | bytes (b : Bytes)
  deriving DecidableEq

/-- `VAULT_TRANSIT_BACKEND`. -/
def vaultTransitBackend : PyStr := py "vault-transit"

/-- `RSA_PSS_SHA256`. -/
def rsaPssSha256 : PyStr := py "rsa-pss-sha256"

/-- The exceptions around Vault that `sign_data` and `verify_signature` translate. -/
def SigningError.translated (message : String) : SigningError → SigningError
  | .vaultOperation _ => .signingUnavailable message
  | .vaultUnavailable _ => .signingUnavailable message
  | e => e

/-- The same in `sign_data`, which also translates a malformed envelope. -/
def SigningError.unsigned : SigningError → SigningError
  | .invalidVaultSignature _ => .signingUnavailable "Vault result signing did not complete."
  | e => e.translated "Vault result signing did not complete."

/-- The `try` block of `sign_data`: envelope, version and identity. -/
def SigningConfig.vaultSign (C : SigningConfig L R) (data salt : Bytes) :
    Except SigningError (PyStr × ℤ × PyStr) := do
  let envelope ← C.vaultClient.transitSign C.server C.keyName data salt
  let keyVersion ← transitSignatureVersion envelope
  let keyIdentity ← C.vaultClient.transitKeyIdentity C.keyName
  pure (envelope, keyVersion, keyIdentity)

/-- The part of `sign_data` for a local key. -/
def localSign (L : Lib) (R : RsaLib) (key : PrivateKey) (data salt : Bytes) :
    Except SigningError SigningResult :=
  match R.sign key data salt with
  | none => .error .valueError
  | some signature => .ok
    { signature := bytesHex signature
      signerBackend := localRsaBackend
      signatureAlgorithm := rsaPssSha256
      signingKeyId := fingerprint L key.publicKey
      signingKeyVersion := none
      publicKeyPem := some (R.publicPem key.publicKey) }

/-- `sign_data`, for the randomness that signing draws. -/
def SigningConfig.signData (C : SigningConfig L R) (data : PyArg) (salt : Bytes) :
    Except SigningError SigningResult :=
  match data with
  | .bytes data =>
    if C.vaultClient.configured then
      if C.vaultClient.enabled = false then
        .error (.signingUnavailable "Vault result signing is configured but unavailable.")
      else
        match C.vaultSign data salt with
        | .error e => .error e.unsigned
        | .ok (envelope, keyVersion, keyIdentity) => .ok
          { signature := envelope
            signerBackend := vaultTransitBackend
            signatureAlgorithm := rsaPssSha256
            signingKeyId := keyIdentity
            signingKeyVersion := some keyVersion
            publicKeyPem := none }
    else
      match C.localPrivateKey with
      | .error e => .error e
      | .ok key => localSign L R key data salt
  | _ => .error (.typeError "Result-signing data must be bytes.")

/-! ### `verify_signature` -/

/-- The keyword arguments of `verify_signature`. -/
structure SignerMetadata where
  signerBackend : PyArg
  signatureAlgorithm : PyArg
  signingKeyId : PyArg
  signingKeyVersion : PyArg
  publicKeyPem : PyArg

/-- `validate_local_public_key`. -/
def validateLocalPublicKey (L : Lib) (publicKeyPem : PyArg) (signingKeyId : PyStr) :
    Except SigningError PublicKey :=
  match publicKeyPem with
  | .str pem =>
    if pem.isEmpty then
      .error (.signatureMetadata "The archived local RSA public key is missing.")
    else if pem.any (0x80 ≤ ·) then
      .error (.signatureMetadata "The archived local RSA public key is invalid.")
    else
      match L.loadPemPublicKey (asciiBytes pem) with
      | none => .error (.signatureMetadata "The archived local RSA public key is invalid.")
      | some none =>
        .error (.signatureMetadata "The archived local result-signing key is not RSA.")
      | some (some key) =>
        if fingerprint L key ≠ signingKeyId then
          .error (.signatureMetadata "The archived local key does not match its fingerprint.")
        else .ok key
  | _ => .error (.signatureMetadata "The archived local RSA public key is missing.")

/-- `verify_signature` for the recorded backend `vault-transit`. -/
def SigningConfig.verifyVault (C : SigningConfig L R) (data : Bytes) (signature : PyStr)
    (signingKeyId : PyStr) (signingKeyVersion : PyArg) : Except SigningError Bool :=
  match signingKeyVersion with
  | .int keyVersion =>
    if keyVersion < 1 then
      .error (.signatureMetadata "The Vault signing key version is invalid.")
    else
      match transitSignatureVersion signature with
      | .error (.invalidVaultSignature _) => .ok false
      | .error e => .error e
      | .ok envelopeVersion =>
        if envelopeVersion ≠ keyVersion then .ok false
        else if C.vaultClient.configured = false ∨ C.vaultClient.enabled = false then
          .error (.signingUnavailable "The recorded Vault signing backend is unavailable.")
        else
          match C.vaultClient.transitKeyIdentity C.keyName with
          | .error e =>
            .error (e.translated "The recorded Vault key identity is unavailable.")
          | .ok currentIdentity =>
            if currentIdentity ≠ signingKeyId then
              .error (.signingUnavailable
                "The recorded Vault cluster, namespace, mount, or key is unavailable.")
            else
              match C.vaultClient.transitVerify C.server C.keyName data signature with
              | .error e => .error (e.translated "Vault result verification did not complete.")
              | .ok valid => .ok valid
  | _ => .error (.signatureMetadata "The Vault signing key version is invalid.")

/-- `verify_signature` for the recorded backend `local-rsa`. -/
def verifyLocal (L : Lib) (R : RsaLib) (data : Bytes) (signature : PyStr) (signingKeyId : PyStr)
    (signingKeyVersion publicKeyPem : PyArg) : Except SigningError Bool :=
  if signingKeyVersion ≠ .none then
    .error (.signatureMetadata "Local RSA signatures must not have a key version.")
  else if isFingerprint signingKeyId = false then
    .error (.signatureMetadata "The local RSA signing key identifier is invalid.")
  else
    match fromHex signature with
    | none => .ok false
    | some signatureBytes =>
      match validateLocalPublicKey L publicKeyPem signingKeyId with
      | .error e => .error e
      | .ok publicKey => .ok (R.verify publicKey data signatureBytes)

/-- `verify_signature`. -/
def SigningConfig.verifySignature (C : SigningConfig L R) (data signature : PyArg)
    (m : SignerMetadata) : Except SigningError Bool :=
  match data, signature with
  | .bytes data, .str signature =>
    if m.signatureAlgorithm ≠ .str rsaPssSha256 then
      .error (.signatureMetadata "The signature algorithm is unsupported.")
    else
      match m.signingKeyId with
      | .str (c :: cs) =>
        if m.signerBackend = .str vaultTransitBackend then
          C.verifyVault data signature (c :: cs) m.signingKeyVersion
        else if m.signerBackend = .str localRsaBackend then
          verifyLocal L R data signature (c :: cs) m.signingKeyVersion m.publicKeyPem
        else .error (.signatureMetadata "The recorded signing backend is unsupported.")
      | _ => .error (.signatureMetadata "The signing key identifier is missing.")
  | _, _ => .error (.signatureMetadata "Signature data and encoding are invalid.")

/-! ### What the parts return -/

/-- `validate_local_public_key` returns the key of the PEM text, with the given fingerprint. -/
theorem validateLocalPublicKey_eq_ok {pem : PyArg} {keyId : PyStr} {key : PublicKey} :
    validateLocalPublicKey L pem keyId = .ok key ↔
      ∃ s, pem = .str s ∧ s.isEmpty = false ∧ s.any (0x80 ≤ ·) = false ∧
        L.loadPemPublicKey (asciiBytes s) = some (some key) ∧ fingerprint L key = keyId := by
  constructor
  · intro h
    unfold validateLocalPublicKey at h
    split at h
    next s =>
      split at h
      · cases h
      next hempty =>
        split at h
        · cases h
        next hascii =>
          split at h
          · cases h
          · cases h
          next k hload =>
            split at h
            · cases h
            next hsame =>
              cases h
              exact ⟨s, rfl, by simpa using hempty, by simpa using hascii, hload,
                not_not.mp hsame⟩
    · cases h
  · rintro ⟨s, rfl, hempty, hascii, hload, hsame⟩
    simp [validateLocalPublicKey, hempty, hascii, hload, hsame]

/-- The archive check of a new result asks what verification asks of the key later. -/
theorem validLocalPublicKey_iff {s keyId : PyStr} :
    validLocalPublicKey L (some s) keyId = true ↔
      ∃ key, validateLocalPublicKey L (.str s) keyId = .ok key := by
  have hcheck : validLocalPublicKey L (some s) keyId = true ↔
      s.isEmpty = false ∧ s.any (0x80 ≤ ·) = false ∧
        ∃ key, L.loadPemPublicKey (asciiBytes s) = some (some key) ∧
          fingerprint L key = keyId := by
    unfold validLocalPublicKey
    dsimp only
    split
    next hbad => cases hempty : s.isEmpty <;> simp_all
    next hgood =>
      rw [Bool.not_eq_true, Bool.or_eq_false_iff] at hgood
      split
      next key hload => simp [hgood, hload]
      next hload =>
        have hno : ¬ ∃ key, L.loadPemPublicKey (asciiBytes s) = some (some key) ∧
            fingerprint L key = keyId := fun ⟨key, hkey, _⟩ => hload key hkey
        simp [hno]
  rw [hcheck]
  constructor
  · rintro ⟨hempty, hascii, key, hload, hsame⟩
    exact ⟨key, validateLocalPublicKey_eq_ok.mpr ⟨s, rfl, hempty, hascii, hload, hsame⟩⟩
  · rintro ⟨key, hkey⟩
    obtain ⟨s', hs', hempty, hascii, hload, hsame⟩ := validateLocalPublicKey_eq_ok.mp hkey
    cases hs'
    exact ⟨hempty, hascii, key, hload, hsame⟩

/-- An envelope that `transit_sign` returns has a version. -/
theorem transitSign_eq_ok {v : VaultClient} {server : TransitServer} {keyName sig : PyStr}
    {data salt : Bytes} (h : v.transitSign server keyName data salt = .ok sig) :
    v.enabled = true ∧
      server.sign v.vaultNamespace v.mount keyName data salt = some (.str sig) := by
  unfold VaultClient.transitSign at h
  split at h
  · cases h
  next henabled =>
    split at h
    next answer hanswer =>
      split at h
      · cases h
        exact ⟨by simpa using henabled, hanswer⟩
      · cases h
    · cases h

/-- The three steps of `sign_data` under Vault. -/
theorem vaultSign_eq_ok {C : SigningConfig L R} {data salt : Bytes} {envelope identity : PyStr}
    {version : ℤ} (h : C.vaultSign data salt = .ok (envelope, version, identity)) :
    C.vaultClient.transitSign C.server C.keyName data salt = .ok envelope ∧
      transitSignatureVersion envelope = .ok version ∧
      C.vaultClient.transitKeyIdentity C.keyName = .ok identity := by
  unfold SigningConfig.vaultSign at h
  cases hsign : C.vaultClient.transitSign C.server C.keyName data salt with
  | error e => simp [hsign, bind, Except.bind] at h
  | ok sig =>
    cases hversion : transitSignatureVersion sig with
    | error e => simp [hsign, hversion, bind, Except.bind] at h
    | ok n =>
      cases hid : C.vaultClient.transitKeyIdentity C.keyName with
      | error e => simp [hsign, hversion, hid, bind, Except.bind] at h
      | ok i =>
        have heq : sig = envelope ∧ n = version ∧ i = identity := by
          simpa [hsign, hversion, hid, bind, Except.bind, pure, Except.pure] using h
        obtain ⟨rfl, rfl, rfl⟩ := heq
        exact ⟨rfl, hversion, rfl⟩

/-- A key in use has been loaded from PEM text. -/
theorem localPrivateKey_eq_ok {C : SigningConfig L R} {key : PrivateKey}
    (h : C.localPrivateKey = .ok key) : ∃ pem, R.loadPemPrivateKey pem = some (some key) := by
  unfold SigningConfig.localPrivateKey at h
  split at h
  next keys _ =>
    cases h
    exact keys.loaded
  · cases h

/-- How a Vault signature comes about. -/
structure VaultSigned (C : SigningConfig L R) (data salt : Bytes) (r : SigningResult) : Prop where
  configured : C.vaultClient.configured = true
  enabled : C.vaultClient.enabled = true
  backend : r.signerBackend = vaultTransitBackend
  answer : C.server.sign C.vaultClient.vaultNamespace C.vaultClient.mount C.keyName data salt =
    some (.str r.signature)
  identity : C.vaultClient.transitKeyIdentity C.keyName = .ok r.signingKeyId
  version : ∃ n, r.signingKeyVersion = some n ∧ transitSignatureVersion r.signature = .ok n

/-- How a local signature comes about. -/
structure LocallySigned (C : SigningConfig L R) (data salt : Bytes) (r : SigningResult) : Prop where
  unconfigured : C.vaultClient.configured = false
  backend : r.signerBackend = localRsaBackend
  key : ∃ key signature, C.localPrivateKey = .ok key ∧ R.sign key data salt = some signature ∧
    r.signature = bytesHex signature ∧ r.signingKeyId = fingerprint L key.publicKey ∧
    r.publicKeyPem = some (R.publicPem key.publicKey)
  version : r.signingKeyVersion = none

/-- What `sign_data` returns was made by Vault if it is configured, and by a local key if not. -/
theorem signData_eq_ok {C : SigningConfig L R} {arg : PyArg} {salt : Bytes} {r : SigningResult}
    (h : C.signData arg salt = .ok r) :
    ∃ data, arg = .bytes data ∧ r.signatureAlgorithm = rsaPssSha256 ∧
      (VaultSigned C data salt r ∨ LocallySigned C data salt r) := by
  unfold SigningConfig.signData at h
  split at h
  next data =>
    refine ⟨data, rfl, ?_⟩
    split at h
    next hconfigured =>
      split at h
      · cases h
      next henabled =>
        split at h
        · cases h
        next envelope version identity hsign =>
          cases h
          obtain ⟨hsig, hversion, hidentity⟩ := vaultSign_eq_ok hsign
          obtain ⟨-, hanswer⟩ := transitSign_eq_ok hsig
          exact ⟨rfl, .inl ⟨hconfigured, by simpa using henabled, rfl, hanswer, hidentity,
            version, rfl, hversion⟩⟩
    next hconfigured =>
      split at h
      · cases h
      next key hkey =>
        unfold localSign at h
        split at h
        · cases h
        next signature hsign =>
          cases h
          exact ⟨rfl, .inr ⟨by simpa using hconfigured, rfl,
            ⟨key, signature, hkey, hsign, rfl, rfl, rfl⟩, rfl⟩⟩
  · cases h

end SecureVote
