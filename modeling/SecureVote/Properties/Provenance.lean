import SecureVote.Security.SigningService
import SecureVote.Text.Numeral
import SecureVote.Sample

/-!
# Provenance of result signatures

`verify_signature` gets the metadata that `sign_data` recorded, with some archived PEM text, under
a configuration of its own time. It says `True` only under the backend, the key and the version
that are recorded: for Vault the identity text has to be the current one, and the text determines
the cluster, the namespace, the mount and the key; for a local key the configuration does not
matter, and the archived key must have the recorded fingerprint.
-/

namespace SecureVote

open Py

variable {L : Lib} {R : RsaLib} {C : SigningConfig L R}

/-- The metadata recorded with a signature, next to the PEM text of the archive. -/
def SigningResult.metadata (r : SigningResult) (pem : PyArg) : SignerMetadata where
  signerBackend := .str r.signerBackend
  signatureAlgorithm := .str r.signatureAlgorithm
  signingKeyId := .str r.signingKeyId
  signingKeyVersion :=
    match r.signingKeyVersion with
    | some n => .int n
    | none => .none
  publicKeyPem := pem

/-- The PEM text that `sign_data` returned, as it is archived. -/
def SigningResult.archivedPem (r : SigningResult) : PyArg :=
  match r.publicKeyPem with
  | some pem => .str pem
  | none => .none

/-- A signature is valid for the recorded Vault key: the current client signs with the tuple of
the recorded one, and the server has confirmed a signature of the recorded version. -/
structure VaultVerified (C₁ C₂ : SigningConfig L R) (r : SigningResult) (data : Bytes)
    (signature : PyStr) : Prop where
  tuple : C₂.vaultClient.keyTuple C₂.keyName = C₁.vaultClient.keyTuple C₁.keyName
  version : ∃ n, r.signingKeyVersion = some n ∧ transitSignatureVersion signature = .ok n
  confirmed : ∃ answer, C₂.server.verify C₂.vaultClient.vaultNamespace C₂.vaultClient.mount
    C₂.keyName data signature = some answer ∧ answer.truthy = true

/-- A signature is valid for the archived key, which has the recorded fingerprint. -/
structure LocallyVerified (L : Lib) (R : RsaLib) (r : SigningResult) (pem : PyArg) (data : Bytes)
    (signature : PyStr) : Prop where
  unversioned : r.signingKeyVersion = none
  key : ∃ key octets, validateLocalPublicKey L pem r.signingKeyId = .ok key ∧
    fingerprint L key = r.signingKeyId ∧ fromHex signature = some octets ∧
    R.verify key data octets = true

/-! ### What `True` means -/

/-- `verify_signature` says `True` for the recorded backend `vault-transit`. -/
theorem verifyVault_true {data : Bytes} {signature keyId : PyStr} {version : PyArg}
    (h : C.verifyVault data signature keyId version = .ok true) :
    ∃ n, version = .int n ∧ transitSignatureVersion signature = .ok n ∧
      C.vaultClient.transitKeyIdentity C.keyName = .ok keyId ∧
      ∃ answer, C.server.verify C.vaultClient.vaultNamespace C.vaultClient.mount C.keyName data
        signature = some answer ∧ answer.truthy = true := by
  unfold SigningConfig.verifyVault at h
  split at h
  next n =>
    split at h
    · cases h
    · split at h
      · cases h
      · cases h
      next envelopeVersion hversion =>
        split at h
        · cases h
        next hsame =>
          split at h
          · cases h
          · split at h
            · cases h
            next identity hidentity =>
              split at h
              · cases h
              next hcurrent =>
                split at h
                · cases h
                next valid hverify =>
                  cases h
                  rw [not_not] at hsame hcurrent
                  subst hsame hcurrent
                  unfold VaultClient.transitVerify at hverify
                  split at hverify
                  · cases hverify
                  · rw [hversion] at hverify
                    dsimp only at hverify
                    split at hverify
                    · cases hverify
                    next answer hanswer =>
                      exact ⟨_, rfl, hversion, hidentity, answer, hanswer,
                        Except.ok.inj hverify⟩
  · cases h

/-- `verify_signature` says `True` for the recorded backend `local-rsa`. -/
theorem verifyLocal_true {data : Bytes} {signature keyId : PyStr} {version pem : PyArg}
    (h : verifyLocal L R data signature keyId version pem = .ok true) :
    version = .none ∧ ∃ key octets, validateLocalPublicKey L pem keyId = .ok key ∧
      fromHex signature = some octets ∧ R.verify key data octets = true := by
  unfold verifyLocal at h
  split at h
  · cases h
  next hversion =>
    split at h
    · cases h
    · split at h
      · cases h
      next octets hoctets =>
        split at h
        · cases h
        next key hkey =>
          exact ⟨not_not.mp hversion, key, octets, hkey, hoctets, Except.ok.inj h⟩

/-- The arguments with which `verify_signature` says `True`, and which part of it says so. -/
theorem verifySignature_true {arg sig : PyArg} {m : SignerMetadata}
    (h : C.verifySignature arg sig m = .ok true) :
    ∃ data signature keyId, arg = .bytes data ∧ sig = .str signature ∧
      m.signatureAlgorithm = .str rsaPssSha256 ∧ m.signingKeyId = .str keyId ∧
      (m.signerBackend = .str vaultTransitBackend ∧
          C.verifyVault data signature keyId m.signingKeyVersion = .ok true ∨
        m.signerBackend = .str localRsaBackend ∧
          verifyLocal L R data signature keyId m.signingKeyVersion m.publicKeyPem = .ok true) := by
  unfold SigningConfig.verifySignature at h
  split at h
  next data signature =>
    split at h
    · cases h
    next halgorithm =>
      split at h
      next c cs hid =>
        refine ⟨data, signature, c :: cs, rfl, rfl, not_not.mp halgorithm, hid, ?_⟩
        split at h
        next hvault => exact .inl ⟨hvault, h⟩
        · split at h
          next hlocal => exact .inr ⟨hlocal, h⟩
          · cases h
      · cases h
  · cases h

/-- The two backends have different names. -/
theorem localRsaBackend_ne : localRsaBackend ≠ vaultTransitBackend := by decide

/-- **Soundness**: what verifies under the recorded metadata verifies under the recorded backend,
key and version. -/
theorem verified_of_signed {C₁ C₂ : SigningConfig L R} {data₁ salt : Bytes} {r : SigningResult}
    (hsigned : VaultSigned C₁ data₁ salt r ∨ LocallySigned C₁ data₁ salt r) {arg sig pem : PyArg}
    (h : C₂.verifySignature arg sig (r.metadata pem) = .ok true) :
    ∃ data signature, arg = .bytes data ∧ sig = .str signature ∧
      (r.signerBackend = vaultTransitBackend ∧ VaultVerified C₁ C₂ r data signature ∨
        r.signerBackend = localRsaBackend ∧ LocallyVerified L R r pem data signature) := by
  obtain ⟨data, signature, keyId, rfl, rfl, -, hid, hpart⟩ := verifySignature_true h
  cases hid
  refine ⟨data, signature, rfl, rfl, ?_⟩
  rcases hpart with ⟨hbackend, hvault⟩ | ⟨hbackend, hlocal⟩
  · left
    have hname : r.signerBackend = vaultTransitBackend := PyArg.str.inj hbackend
    obtain ⟨n, hrecorded, hversion, hidentity, hanswer⟩ := verifyVault_true hvault
    have hsignedVault : VaultSigned C₁ data₁ salt r := by
      rcases hsigned with hv | hl
      · exact hv
      · exact absurd (hl.backend.symm.trans hname) localRsaBackend_ne
    refine ⟨hname, transitKeyIdentity_injective hidentity hsignedVault.identity, ?_, hanswer⟩
    obtain ⟨k, hk, -⟩ := hsignedVault.version
    have hkn : k = n := by simpa [SigningResult.metadata, hk] using hrecorded
    exact ⟨n, hkn ▸ hk, hversion⟩
  · right
    have hname : r.signerBackend = localRsaBackend := PyArg.str.inj hbackend
    obtain ⟨hversion, key, octets, hkey, hoctets, hverify⟩ := verifyLocal_true hlocal
    obtain ⟨s, -, -, -, -, hfingerprint⟩ := validateLocalPublicKey_eq_ok.mp hkey
    have hnone : r.signingKeyVersion = none := by
      cases hv : r.signingKeyVersion with
      | none => rfl
      | some n => simp [SigningResult.metadata, hv] at hversion
    exact ⟨hname, hnone, key, octets, hkey, hfingerprint, hoctets, hverify⟩

/-- For a recorded local key the configuration does not matter. -/
theorem verifySignature_local {C₂ C₃ : SigningConfig L R} {r : SigningResult}
    (h : r.signerBackend = localRsaBackend) (arg sig pem : PyArg) :
    C₂.verifySignature arg sig (r.metadata pem) = C₃.verifySignature arg sig (r.metadata pem) := by
  have hne : (r.metadata pem).signerBackend ≠ .str vaultTransitBackend := by
    intro heq
    exact localRsaBackend_ne (h.symm.trans (PyArg.str.inj heq))
  unfold SigningConfig.verifySignature
  simp only [if_neg hne]

/-! ### What is signed verifies -/

/-- What signing relies on: a loaded key accepts its own signatures, and its public part is read
back from its PEM text, which is ASCII. -/
structure RsaLaws (L : Lib) (R : RsaLib) : Prop where
  verify_sign : ∀ {pem key data salt signature}, R.loadPemPrivateKey pem = some (some key) →
    R.sign key data salt = some signature → R.verify key.publicKey data signature = true
  loadPem : ∀ {pem key}, R.loadPemPrivateKey pem = some (some key) →
    L.loadPemPublicKey (asciiBytes (R.publicPem key.publicKey)) = some (some key.publicKey)
  pem_text : ∀ {pem key}, R.loadPemPrivateKey pem = some (some key) →
    (R.publicPem key.publicKey).isEmpty = false ∧
      (R.publicPem key.publicKey).any (0x80 ≤ ·) = false

/-- The server is available for verification: it confirms the signatures it makes. -/
def TransitServer.Confirms (server : TransitServer) : Prop :=
  ∀ {vaultNamespace mount keyName data salt signature},
    server.sign vaultNamespace mount keyName data salt = some (.str signature) →
      ∃ answer, server.verify vaultNamespace mount keyName data signature = some answer ∧
        answer.truthy = true

/-- The version in an envelope is positive. -/
theorem one_le_transitSignatureVersion {s : PyStr} {n : ℤ}
    (h : transitSignatureVersion s = .ok n) : 1 ≤ n := by
  unfold transitSignatureVersion at h
  split at h
  · cases h
  next version chars padding hmatch =>
    split at h
    · cases h
    · split at h
      next m hint =>
        cases h
        obtain ⟨r, -, hr⟩ := Option.bind_eq_some_iff.mp hmatch
        have hshape : version = r.takeWhile isDecimal ∧ version ≠ [] ∧
            version.head? ≠ some 48 := by
          dsimp only at hr
          split at hr
          · split at hr
            · cases hr
            next hgood =>
              split at hr
              · cases hr
                simp only [Bool.or_eq_true, decide_eq_true_eq, not_or] at hgood
                exact ⟨rfl, by simpa using hgood.1.1, hgood.1.2⟩
              · cases hr
          · cases hr
        obtain ⟨htake, hne, hhead⟩ := hshape
        have hdigits : ∀ d ∈ version, 48 ≤ d ∧ d ≤ 57 := by
          intro d hd
          have hd' : isDecimal d = true :=
            List.all_eq_true.mp List.all_takeWhile d (htake ▸ hd)
          simpa [isDecimal] using hd'
        obtain ⟨c, cs, rfl⟩ := List.exists_cons_of_ne_nil hne
        exact one_le_of_int (by simpa using hhead) hdigits hint
      · cases h

/-- A key identity is not empty. -/
theorem transitKeyIdentity_ne_nil {v : VaultClient} {keyName identity : PyStr}
    (h : v.transitKeyIdentity keyName = .ok identity) : identity ≠ [] := by
  obtain ⟨-, rfl⟩ := transitKeyIdentity_eq_ok h
  simp [VaultClient.components, joinBars]

/-- **Completeness for Vault**: under the same configuration, with the server available. -/
theorem VaultSigned.verifies {data salt : Bytes} {r : SigningResult}
    (h : VaultSigned C data salt r) (halgorithm : r.signatureAlgorithm = rsaPssSha256)
    (hserver : C.server.Confirms) (pem : PyArg) :
    C.verifySignature (.bytes data) (.str r.signature) (r.metadata pem) = .ok true := by
  obtain ⟨n, hrecorded, hversion⟩ := h.version
  have hpositive : ¬ n < 1 := not_lt.mpr (one_le_transitSignatureVersion hversion)
  obtain ⟨answer, hanswer, htrue⟩ := hserver h.answer
  obtain ⟨c, cs, hid⟩ := List.exists_cons_of_ne_nil (transitKeyIdentity_ne_nil h.identity)
  have hverify : C.vaultClient.transitVerify C.server C.keyName data r.signature = .ok true := by
    simp [VaultClient.transitVerify, h.enabled, hversion, hanswer, htrue]
  have hpart : C.verifyVault data r.signature r.signingKeyId (.int n) = .ok true := by
    simp [SigningConfig.verifyVault, hpositive, hversion, h.configured, h.enabled, h.identity,
      hverify]
  rw [hid] at hpart
  simp [SigningConfig.verifySignature, SigningResult.metadata, halgorithm, hid, h.backend,
    hrecorded, hpart]

/-- **Completeness for local keys**: under every configuration. -/
theorem LocallySigned.verifies {C₂ : SigningConfig L R} {data salt : Bytes} {r : SigningResult}
    (h : LocallySigned C data salt r) (halgorithm : r.signatureAlgorithm = rsaPssSha256)
    (hlaws : RsaLaws L R) :
    C₂.verifySignature (.bytes data) (.str r.signature) (r.metadata r.archivedPem) = .ok true := by
  obtain ⟨key, octets, hkey, hsign, hsignature, hid, hpem⟩ := h.key
  obtain ⟨pem, hloaded⟩ := localPrivateKey_eq_ok hkey
  obtain ⟨hnonempty, hascii⟩ := hlaws.pem_text hloaded
  have hvalid : validateLocalPublicKey L (.str (R.publicPem key.publicKey)) r.signingKeyId =
      .ok key.publicKey :=
    validateLocalPublicKey_eq_ok.mpr
      ⟨_, rfl, hnonempty, hascii, hlaws.loadPem hloaded, hid.symm⟩
  have hform : isFingerprint r.signingKeyId = true := hid ▸ isFingerprint_fingerprint L _
  have hpart : verifyLocal L R data r.signature r.signingKeyId .none
      (.str (R.publicPem key.publicKey)) = .ok true := by
    simp [verifyLocal, hform, hsignature, fromHex_bytesHex, hvalid, hlaws.verify_sign hloaded hsign]
  have hne : r.signingKeyId ≠ [] := by
    intro hnil
    rw [hnil] at hform
    simp [isFingerprint] at hform
  obtain ⟨c, cs, hcons⟩ := List.exists_cons_of_ne_nil hne
  rw [hcons] at hpart
  simp [SigningConfig.verifySignature, SigningResult.metadata, SigningResult.archivedPem,
    halgorithm, hcons, h.backend, h.version, hpem, localRsaBackend_ne, hpart]

/-- **Signature provenance.** Whatever `sign_data` returns under a configuration `C₁` is a Vault
signature if Vault is configured, and records the backend, the key and the version that made it.
If `verify_signature` says `True` on the recorded metadata under a configuration `C₂`, it does so
for the recorded Vault key and version, or for the archived local key with the recorded
fingerprint, where `C₂` plays no part. The signed data verifies under `C₁` itself. Identities of
Vault keys are equal only for equal components. -/
theorem signature_provenance {C₁ : SigningConfig L R} {arg : PyArg} {salt : Bytes}
    {r : SigningResult} (h : C₁.signData arg salt = .ok r) :
    (C₁.vaultClient.configured = true → r.signerBackend = vaultTransitBackend) ∧
      (∃ data, arg = .bytes data ∧ (VaultSigned C₁ data salt r ∨ LocallySigned C₁ data salt r)) ∧
      (∀ (C₂ : SigningConfig L R) (arg' sig pem : PyArg),
        C₂.verifySignature arg' sig (r.metadata pem) = .ok true →
          r.signatureAlgorithm = rsaPssSha256 ∧
          ∃ data signature, arg' = .bytes data ∧ sig = .str signature ∧
            (r.signerBackend = vaultTransitBackend ∧ VaultVerified C₁ C₂ r data signature ∨
              r.signerBackend = localRsaBackend ∧ LocallyVerified L R r pem data signature)) ∧
      (r.signerBackend = localRsaBackend → ∀ (C₂ C₃ : SigningConfig L R) (arg' sig pem : PyArg),
        C₂.verifySignature arg' sig (r.metadata pem) =
          C₃.verifySignature arg' sig (r.metadata pem)) ∧
      (RsaLaws L R → C₁.server.Confirms →
        C₁.verifySignature arg (.str r.signature) (r.metadata r.archivedPem) = .ok true) ∧
      ∀ (v v' : VaultClient) (keyName keyName' identity : PyStr),
        v.transitKeyIdentity keyName = .ok identity →
          v'.transitKeyIdentity keyName' = .ok identity →
            v.keyTuple keyName = v'.keyTuple keyName' := by
  obtain ⟨data, rfl, halgorithm, hsigned⟩ := signData_eq_ok h
  refine ⟨fun hconfigured => ?_, ⟨data, rfl, hsigned⟩, fun C₂ arg' sig pem hverify => ?_,
    fun hlocal C₂ C₃ arg' sig pem => verifySignature_local hlocal arg' sig pem,
    fun hlaws hserver => ?_, fun v v' keyName keyName' identity => transitKeyIdentity_injective⟩
  · rcases hsigned with hvault | hlocal
    · exact hvault.backend
    · simp [hlocal.unconfigured] at hconfigured
  · exact ⟨halgorithm, verified_of_signed hsigned hverify⟩
  · rcases hsigned with hvault | hlocal
    · exact hvault.verifies halgorithm hserver _
    · exact hlocal.verifies halgorithm hlaws

namespace Sample

/-! ### A local key pair -/

/-- A character of the base64 alphabet. -/
def base64Char (d : ℕ) : ℕ :=
  if d < 26 then 65 + d else if d < 52 then 71 + d else if d < 62 then d - 4
  else if d = 62 then 43 else 47

/-- `base64.b64encode`. -/
def base64 : Bytes → PyStr
  | [] => []
  | [a] => [base64Char (a.toNat / 4), base64Char (a.toNat % 4 * 16), 61, 61]
  | [a, b] => [base64Char (a.toNat / 4), base64Char (a.toNat % 4 * 16 + b.toNat / 16),
      base64Char (b.toNat % 16 * 4), 61]
  | a :: b :: c :: bs => base64Char (a.toNat / 4) ::
      base64Char (a.toNat % 4 * 16 + b.toNat / 16) ::
      base64Char (b.toNat % 16 * 4 + c.toNat / 64) :: base64Char (c.toNat % 64) :: base64 bs

/-- Text in lines of 64 characters; `k` characters still fit into the current one. -/
def wrapLines : ℕ → PyStr → PyStr
  | _, [] => [10]
  | 0, c :: cs => 10 :: c :: wrapLines 63 cs
  | k + 1, c :: cs => c :: wrapLines k cs

/-- PEM text: the base64 lines between two marks. -/
def pem (label : String) (der : Bytes) : PyStr :=
  py "-----BEGIN " ++ py label ++ py "-----\n" ++ wrapLines 64 (base64 der) ++
    py "-----END " ++ py label ++ py "-----\n"

/-- The text of `public_key.pem`. -/
def publicPem (key : PublicKey) : PyStr := pem "PUBLIC KEY" (publicDer key)

/-- The prime factors of the modulus. -/
def primes : ℕ × ℕ :=
  (ofWords
    [0xec2e9d076e027779, 0x5e1454fd8dce0e0f, 0xf18167044a4a67b0, 0xc11fe213c3677da2,
      0x5201d22112d046b7, 0x139c30a86fc2301d, 0xe76d2609bc83bd95, 0x7d860725b08acbdc,
      0x0e3a02291130b737, 0x1f06d06ea5f37a45, 0x913dab1c0dc4c8d5, 0xc9a15ba7ba3c8984,
      0xc030631a4ec88298, 0x6fc01646e920693d, 0xed7a71889eb8dbd4, 0x8008ab76010f5737],
   ofWords
    [0xda58ec7ea2eec2e4, 0x91c68eb49ccd6ca9, 0xbc0a236589c05d10, 0xeaa88775dac8171b,
      0xd494ddc02589bf87, 0x2d24134b1ff5cb50, 0xbc3c35311b4659ae, 0x699b0a0dd0ea1903,
      0x4d855d2ff1b80c39, 0xbf59260d7779cfa6, 0xd5740c3d1618f50e, 0x895d2d8905bfad20,
      0x1a29e8df86965f44, 0xb298293700282c51, 0xc8bf894dcc724bfb, 0x91115e317eda978f])

/-- The text of `private_key.pem`. -/
def privatePem : PyStr :=
  let (p, q) := primes
  let d := privateExponent
  pem "RSA PRIVATE KEY" (derElement 0x30 (derInteger 0 ++ derInteger modulus ++ derInteger 65537 ++
    derInteger d ++ derInteger p ++ derInteger q ++ derInteger (d % (p - 1)) ++
    derInteger (d % (q - 1)) ++ derInteger (powMod q (p - 2) p)))

/-- A PSS signature: a key, data, a salt, and the signature they give. -/
structure PssSignature where
  key : PrivateKey
  data : Bytes
  salt : Bytes
  signature : Bytes
  deriving DecidableEq

/-- The signature of `b"result"` under the salt of zeros. -/
def resultSignature : PssSignature where
  key := keyPair.privateKey
  data := asciiBytes (py "result")
  salt := List.replicate 222 0
  signature := bigEndian 256 (ofWords
    [0x6b61d01ae4ce6a57, 0x4dafb49dfc28402c, 0xf92fb08c6fd46d45, 0xa75b1a0f40745cc9,
      0x1d0d845848cc9c8d, 0x10ab48a655a30aaa, 0x55241790325c984d, 0x075525c32724732b,
      0x53eff509f87b464e, 0xaea9c0685b78a9bb, 0x1e9755601d0a2378, 0xf5f86490d6ee1220,
      0x56ea22d8030966dd, 0xd174a20fa48f431b, 0x74d01b10a81dbede, 0xcdb196b5d20934da,
      0x83290d52624217fa, 0x34b228ca54cbfcf5, 0x82d0446dc7705a0b, 0xe4f9f95c966b4e99,
      0x6fa98cd511c23cb5, 0xba51ef81addbf150, 0xdbb735e03d1795a2, 0xd7f53ae782c7f894,
      0x05a69d6bf6504dc7, 0x37f1e1f92757e84a, 0xfd559fd9f033edef, 0xc49c1091333788bb,
      0x41a30d955ad0b308, 0x48bcedca03090a58, 0x3a3ab7256d8b8af9, 0xd3d9bee78519f2e4])

/-- RSA with the key files of the deployment, for the signatures that are made in it. -/
def rsaLib (signatures : List PssSignature) : RsaLib where
  loadPemPrivateKey data :=
    if data = asciiBytes privatePem then some (some keyPair.privateKey) else none
  publicPem := publicPem
  sign key data salt := (signatures.find? fun s =>
    s.key = key ∧ s.data = data ∧ s.salt = salt).map PssSignature.signature
  verify key data signature := signatures.any fun s =>
    s.key.publicKey = key ∧ s.data = data ∧ s.signature = signature

/-- The libraries, with the public key file of the deployment. -/
def signingLib : Lib :=
  { lib with
    loadPemPublicKey := fun data =>
      if data = asciiBytes (publicPem keyPair.publicKey) then some (some keyPair.publicKey)
      else none }

theorem base64_isAscii (data : Bytes) : ∀ c ∈ base64 data, c < 0x80 := by
  have hchar : ∀ d, base64Char d < 0x80 := by
    intro d
    unfold base64Char
    split_ifs <;> omega
  induction data using base64.induct with
  | case1 => simp [base64]
  | case2 a => simp [base64, hchar]
  | case3 a b => simp [base64, hchar]
  | case4 a b c bs ih =>
    intro x hx
    simp only [base64, List.mem_cons] at hx
    rcases hx with rfl | rfl | rfl | rfl | hx
    · exact hchar _
    · exact hchar _
    · exact hchar _
    · exact hchar _
    · exact ih x hx

theorem wrapLines_isAscii {s : PyStr} (h : ∀ c ∈ s, c < 0x80) (k : ℕ) :
    ∀ c ∈ wrapLines k s, c < 0x80 := by
  induction s generalizing k with
  | nil => simp [wrapLines]
  | cons c cs ih =>
    have hc : c < 0x80 := h c List.mem_cons_self
    have hcs := ih fun d hd => h d (List.mem_cons_of_mem c hd)
    cases k with
    | zero => simpa [wrapLines, hc] using hcs 63
    | succ k => simpa [wrapLines, hc] using hcs k

/-- The text of a public key file is ASCII. -/
theorem publicPem_isAscii (key : PublicKey) : ∀ c ∈ publicPem key, c < 0x80 := by
  have hbegin : ∀ c ∈ py "-----BEGIN " ++ py "PUBLIC KEY" ++ py "-----\n", c < 0x80 := by decide
  have hend : ∀ c ∈ py "-----END " ++ (py "PUBLIC KEY" ++ py "-----\n"), c < 0x80 := by decide
  have hlines := wrapLines_isAscii (base64_isAscii (publicDer key)) 64
  intro c hc
  rw [publicPem, pem, List.append_assoc _ (py "PUBLIC KEY") (py "-----\n")] at hc
  rw [List.append_assoc (_ ++ wrapLines 64 _), List.mem_append, List.mem_append] at hc
  rcases hc with (hc | hc) | hc
  · exact hbegin c (by simpa using hc)
  · exact hlines c hc
  · exact hend c hc

/-- The laws of signing hold for signatures made with the key of the deployment. -/
theorem rsaLaws {signatures : List PssSignature} :
    RsaLaws signingLib (rsaLib signatures) := by
  have hloaded : ∀ {text key}, (rsaLib signatures).loadPemPrivateKey text = some (some key) →
      key = keyPair.privateKey := by
    intro text key h
    simp only [rsaLib] at h
    split at h
    · cases h
      rfl
    · cases h
  refine ⟨fun {text key data salt signature} hload hsign => ?_, fun {text key} hload => ?_,
    fun {text key} hload => ?_⟩
  · obtain ⟨s, hfind, hs⟩ := Option.map_eq_some_iff.mp hsign
    have hmatch := List.find?_some hfind
    have hmem := List.mem_of_find?_eq_some hfind
    simp only [Bool.decide_and, Bool.and_eq_true, decide_eq_true_eq] at hmatch
    refine List.any_eq_true.mpr ⟨s, hmem, ?_⟩
    simp [hmatch.1, hmatch.2.1, hs]
  · have hpublic : keyPair.privateKey.publicKey = keyPair.publicKey := rfl
    have htext : (rsaLib signatures).publicPem keyPair.publicKey =
        publicPem keyPair.publicKey := rfl
    rw [hloaded hload, hpublic, htext]
    simp [signingLib]
  · have hascii := publicPem_isAscii key.publicKey
    have htext : (rsaLib signatures).publicPem key.publicKey = publicPem key.publicKey := rfl
    rw [htext]
    refine ⟨by simp [publicPem, pem, py], ?_⟩
    rw [List.any_eq_false]
    intro c hc
    simpa using hascii c hc

/-- The private key file holds the private key. -/
theorem loadPemPrivateKey_privatePem (signatures : List PssSignature) :
    (rsaLib signatures).loadPemPrivateKey (asciiBytes privatePem) =
      some (some keyPair.privateKey) := by
  simp only [rsaLib, if_true]

/-- A process without Vault that has loaded the key pair of the deployment. -/
def localSigner : SigningConfig signingLib (rsaLib [resultSignature]) where
  environ := ⟨none, none, none, none, none, none, none, false⟩
  server := ⟨fun _ _ _ _ _ => none, fun _ _ _ _ _ => none⟩
  keyName := py "results-signing"
  keys := some ⟨keyPair.privateKey, keyPair.publicKey,
    ⟨asciiBytes privatePem, loadPemPrivateKey_privatePem _⟩, rfl⟩
  privatePem := some (asciiBytes privatePem)
  publicPem := some (asciiBytes (publicPem keyPair.publicKey))

/-- What the process returns for `b"result"`. -/
def localResult : SigningResult where
  signature := bytesHex resultSignature.signature
  signerBackend := localRsaBackend
  signatureAlgorithm := rsaPssSha256
  signingKeyId := fingerprint signingLib keyPair.publicKey
  signingKeyVersion := none
  publicKeyPem := some (publicPem keyPair.publicKey)

theorem signData_localSigner :
    localSigner.signData (.bytes resultSignature.data) resultSignature.salt = .ok localResult := by
  have hconfigured : localSigner.vaultClient.configured = false := rfl
  have hkey : localSigner.localPrivateKey = .ok keyPair.privateKey := rfl
  have hsign : (rsaLib [resultSignature]).sign keyPair.privateKey resultSignature.data
      resultSignature.salt = some resultSignature.signature := by
    have hsame : resultSignature.key = keyPair.privateKey := rfl
    simp [rsaLib, hsame]
  simp only [SigningConfig.signData, hconfigured, hkey, localSign, hsign]
  rfl

end Sample

/-- The local signer of the sample deployment: its signature verifies, and under the recorded
metadata nothing else than the archived key decides. -/
theorem signature_provenance_localSigner :
    Sample.localSigner.verifySignature (.bytes Sample.resultSignature.data)
        (.str Sample.localResult.signature)
        (Sample.localResult.metadata Sample.localResult.archivedPem) = .ok true ∧
      ∀ (C₂ : SigningConfig Sample.signingLib (Sample.rsaLib [Sample.resultSignature]))
        (data : Bytes) (signature : PyStr) (pem : PyArg),
        C₂.verifySignature (.bytes data) (.str signature) (Sample.localResult.metadata pem) =
            .ok true →
          LocallyVerified Sample.signingLib (Sample.rsaLib [Sample.resultSignature])
            Sample.localResult pem data signature := by
  have hmain := signature_provenance Sample.signData_localSigner
  refine ⟨hmain.2.2.2.2.1 Sample.rsaLaws
    (fun h => by cases h), fun C₂ data signature pem h => ?_⟩
  obtain ⟨-, data', signature', hdata, hsignature, hpart⟩ := hmain.2.2.1 C₂ _ _ pem h
  cases hdata
  cases hsignature
  rcases hpart with ⟨hvault, -⟩ | ⟨-, hlocal⟩
  · exact absurd hvault localRsaBackend_ne
  · exact hlocal

end SecureVote
