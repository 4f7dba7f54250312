import SecureVote.Handler

/-!
# The Vault client (`security/vault_client.py`)

The client reads its settings from the environment once. What the Vault servers answer is a
parameter of the operations (`TransitServer`).
-/

namespace SecureVote

open Py

/-- The environment variables `VaultClient` reads, and what it finds behind them. -/
structure VaultEnviron where
  mount : Option PyStr
  clusterId : Option PyStr
  vaultNamespace : Option PyStr
  addr : Option PyStr
  token : Option PyStr
  tokenFile : Option PyStr
  /-- The stripped contents of the token file; `none` when it cannot be read or is too large. -/
  tokenFileText : Option PyStr
  /-- `hvac` can be imported and its client is authenticated. -/
  authenticated : Bool

/-- The state of a `VaultClient`. -/
structure VaultClient where
  configured : Bool
  enabled : Bool
  clusterId : Option PyStr
  vaultNamespace : PyStr
  mount : PyStr
  deriving DecidableEq

/-- The truth value of an environment variable. -/
def given (s : Option PyStr) : Bool := s.any fun t => !t.isEmpty

/-- The token to use: the one in the environment or the one in the file, not both. -/
def VaultEnviron.usableToken (env : VaultEnviron) : Option PyStr :=
  if given env.token && given env.tokenFile then none
  else if given env.tokenFile then env.tokenFileText.filter fun t => !t.isEmpty
  else env.token.filter fun t => !t.isEmpty

/-- `VaultClient()`. -/
def VaultClient.init (env : VaultEnviron) : VaultClient where
  configured := given env.addr || given env.token || given env.tokenFile || given env.clusterId
  enabled := given env.addr && env.usableToken.isSome && given env.clusterId && env.authenticated
  clusterId := env.clusterId
  vaultNamespace := env.vaultNamespace.getD []
  mount := env.mount.getD (py "transit")

/-- A client that is enabled is configured. -/
theorem VaultClient.configured_of_enabled {env : VaultEnviron}
    (h : (VaultClient.init env).enabled = true) : (VaultClient.init env).configured = true := by
  have haddr : given env.addr = true := by
    simp only [VaultClient.init, Bool.and_eq_true] at h
    exact h.1.1.1
  simp [VaultClient.init, haddr]

/-! ### Errors -/

/-- The exceptions of the Vault client and the signing service. -/
inductive SigningError
  | typeError (message : String)
  | valueError
  | invalidVaultSignature (message : String)
  | vaultOperation (message : String)
  | vaultUnavailable (message : PyStr)
  | signingUnavailable (message : String)
  | signatureMetadata (message : String)
  deriving DecidableEq, Repr

/-! ### Signature envelopes -/

/-- An ASCII decimal digit. -/
def isDecimal (c : ℕ) : Bool := 48 ≤ c && c ≤ 57

/-- A character of the base64 alphabet. -/
def isBase64 (c : ℕ) : Bool :=
  isDecimal c || (65 ≤ c && c ≤ 90) || (97 ≤ c && c ≤ 122) || c == 43 || c == 47

/-- The two groups of `vault:v(?P<version>[1-9][0-9]*):(?P<signature>[A-Za-z0-9+/]+={0,2})`: the
version digits, and the length of the base64 text and of its padding. -/
def matchEnvelope (s : PyStr) : Option (PyStr × ℕ × ℕ) :=
  (dropLiteral (py "vault:v") s).bind fun r =>
    let version := r.takeWhile isDecimal
    match r.dropWhile isDecimal with
    | 58 :: body =>
      let data := body.takeWhile isBase64
      let padding := body.dropWhile isBase64
      if version.isEmpty || version.head? = some 48 || data.isEmpty then none
      else if padding = [] ∨ padding = [61] ∨ padding = [61, 61] then
        some (version, data.length, padding.length)
      else none
    | _ => none

/-- `base64.b64decode(text, validate=True)` accepts so many characters and `=` signs. -/
def validBase64 (chars padding : ℕ) : Bool :=
  chars % 4 = 0 || (chars % 4 = 2 && padding = 2) || (chars % 4 = 3 && padding = 1)

/-- `transit_signature_version`. -/
def transitSignatureVersion (signature : PyStr) : Except SigningError ℤ :=
  match matchEnvelope signature with
  | none => .error
      (.invalidVaultSignature "Vault signature must use the complete vault:vN:BASE64 envelope.")
  | some (version, chars, padding) =>
    if validBase64 chars padding = false then
      .error (.invalidVaultSignature "Vault signature contains invalid base64 data.")
    else
      match int 10 version with
      | some n => .ok n
      | none => .error .valueError

/-! ### Key identities -/

/-- The components of a key identity, with their labels. -/
def VaultClient.components (v : VaultClient) (keyName : PyStr) : List (String × Option PyStr) :=
  [("cluster", v.clusterId),
    ("namespace", some (if v.vaultNamespace.isEmpty then py "root" else v.vaultNamespace)),
    ("mount", some v.mount), ("key", some keyName)]

/-- A component of a key identity that is nonempty text without separators. -/
def validComponent (value : Option PyStr) : Bool :=
  value.any fun s => !s.isEmpty && !s.contains 124 && !s.contains 61

/-- `"|".join(parts)`. -/
def joinBars : List PyStr → PyStr
  | [] => []
  | [p] => p
  | p :: ps => p ++ 124 :: joinBars ps

/-- `transit_key_identity`. -/
def VaultClient.transitKeyIdentity (v : VaultClient) (keyName : PyStr) :
    Except SigningError PyStr :=
  match (v.components keyName).find? fun c => !validComponent c.2 with
  | some (label, _) => .error (.vaultUnavailable
      (py "Vault " ++ py label ++ py " is missing or contains unsupported characters."))
  | none =>
    let identity := joinBars
      ((v.components keyName).map fun c => py c.1 ++ 61 :: c.2.getD [])
    if 255 < identity.length then
      .error (.vaultUnavailable (py "Vault key identity exceeds 255 characters."))
    else .ok identity

/-! ### Signing and verifying -/

/-- What a Vault server answers to the Transit calls under a namespace, mount and key; `none` when
the call or the reading of its response raises. -/
structure TransitServer where
  /-- `resp['data']['signature']` of `sign_data`, for the randomness the server draws. -/
  sign : PyStr → PyStr → PyStr → Bytes → Bytes → Option Json
  /-- `resp['data'].get('valid')` of `verify_signed_data`. -/
  verify : PyStr → PyStr → PyStr → Bytes → PyStr → Option Json

/-- `transit_sign`: every exception in the `try` block becomes a `VaultOperationError`. -/
def VaultClient.transitSign (v : VaultClient) (server : TransitServer) (keyName : PyStr)
    (data salt : Bytes) : Except SigningError PyStr :=
  if v.enabled = false then
    .error (.vaultUnavailable (py "Vault Transit signing is configured but unavailable."))
  else
    match server.sign v.vaultNamespace v.mount keyName data salt with
    | some (.str sig) =>
      match transitSignatureVersion sig with
      | .ok _ => .ok sig
      | .error _ => .error (.vaultOperation "Vault Transit signing failed.")
    | _ => .error (.vaultOperation "Vault Transit signing failed.")

/-- `transit_verify`. -/
def VaultClient.transitVerify (v : VaultClient) (server : TransitServer) (keyName : PyStr)
    (data : Bytes) (signature : PyStr) : Except SigningError Bool :=
  if v.enabled = false then
    .error (.vaultUnavailable (py "Vault Transit verification is configured but unavailable."))
  else
    match transitSignatureVersion signature with
    | .error e => .error e
    | .ok _ =>
      match server.verify v.vaultNamespace v.mount keyName data signature with
      | none => .error (.vaultOperation "Vault Transit verification failed.")
      | some valid => .ok valid.truthy

/-! ### Identities name their components -/

theorem validComponent_eq_true {value : Option PyStr} :
    validComponent value = true ↔
      ∃ s, value = some s ∧ s ≠ [] ∧ 124 ∉ s ∧ 61 ∉ s := by
  cases value with
  | none => simp [validComponent]
  | some s => simp [validComponent, and_assoc]

/-- Text before the first separator is determined by the whole. -/
theorem append_cons_inj {a a' b b' : PyStr} {c : ℕ} (ha : c ∉ a) (ha' : c ∉ a')
    (h : a ++ c :: b = a' ++ c :: b') : a = a' ∧ b = b' := by
  have htake : ∀ x y : PyStr, c ∉ x → (x ++ c :: y).takeWhile (· ≠ c) = x := by
    intro x y hx
    have hpos : ∀ d ∈ x, decide (d ≠ c) = true := by
      intro d hd
      have hne : d ≠ c := fun hdc => hx (hdc ▸ hd)
      simpa using hne
    rw [List.takeWhile_append_of_pos hpos]
    simp
  have hfirst : a = a' := by
    rw [← htake a b ha, h, htake a' b' ha']
  subst hfirst
  simpa using h

/-- What `transit_key_identity` returns spells out valid components. -/
theorem transitKeyIdentity_eq_ok {v : VaultClient} {keyName identity : PyStr}
    (h : v.transitKeyIdentity keyName = .ok identity) :
    (∀ c ∈ v.components keyName, validComponent c.2 = true) ∧
      identity = joinBars ((v.components keyName).map fun c => py c.1 ++ 61 :: c.2.getD []) := by
  unfold VaultClient.transitKeyIdentity at h
  split at h
  · cases h
  next hfind =>
    dsimp only at h
    split at h
    · cases h
    · cases h
      exact ⟨fun c hc => by simpa using List.find?_eq_none.mp hfind c hc, rfl⟩

/-- The cluster, the namespace or `root`, the mount and the key a client signs with. -/
def VaultClient.keyTuple (v : VaultClient) (keyName : PyStr) :
    Option PyStr × PyStr × PyStr × PyStr :=
  (v.clusterId, if v.vaultNamespace.isEmpty then py "root" else v.vaultNamespace, v.mount, keyName)

/-- **A key identity determines its components.** -/
theorem transitKeyIdentity_injective {v v' : VaultClient} {keyName keyName' identity : PyStr}
    (h : v.transitKeyIdentity keyName = .ok identity)
    (h' : v'.transitKeyIdentity keyName' = .ok identity) :
    v.keyTuple keyName = v'.keyTuple keyName' := by
  obtain ⟨hvalid, hid⟩ := transitKeyIdentity_eq_ok h
  obtain ⟨hvalid', hid'⟩ := transitKeyIdentity_eq_ok h'
  have hheq := hid.symm.trans hid'
  simp only [VaultClient.components, List.forall_mem_cons, validComponent_eq_true, List.map_cons,
    List.map_nil, joinBars] at hvalid hvalid' hheq
  obtain ⟨⟨c, hc, -, hcb, -⟩, ⟨ns, hns, -, hnsb, -⟩, ⟨m, hm, -, hmb, -⟩, ⟨k, hk, -, -, -⟩, -⟩ :=
    hvalid
  obtain ⟨⟨c', hc', -, hcb', -⟩, ⟨ns', hns', -, hnsb', -⟩, ⟨m', hm', -, hmb', -⟩,
    ⟨k', hk', -, -, -⟩, -⟩ := hvalid'
  rw [hc, hns, hm, hk, hc', hns', hm', hk'] at hheq
  simp only [Option.getD_some] at hheq
  have hlabel : ∀ {label : String} {s : PyStr}, 124 ∉ py label → 124 ∉ s →
      124 ∉ py label ++ 61 :: s := by
    intro label s hl hs
    simp [hl, hs]
  obtain ⟨hcluster, hrest⟩ :=
    append_cons_inj (hlabel (by decide) hcb) (hlabel (by decide) hcb') hheq
  obtain ⟨hnamespace, hrest⟩ :=
    append_cons_inj (hlabel (by decide) hnsb) (hlabel (by decide) hnsb') hrest
  obtain ⟨hmount, hkey⟩ :=
    append_cons_inj (hlabel (by decide) hmb) (hlabel (by decide) hmb') hrest
  have hnames : (if v.vaultNamespace.isEmpty then py "root" else v.vaultNamespace) =
      if v'.vaultNamespace.isEmpty then py "root" else v'.vaultNamespace := by
    rw [Option.some.inj hns, Option.some.inj hns']
    simpa using hnamespace
  unfold VaultClient.keyTuple
  rw [hnames, hc, hc', Option.some.inj hm, Option.some.inj hm', Option.some.inj hk,
    Option.some.inj hk', List.cons_injective (List.append_cancel_left hcluster),
    List.cons_injective (List.append_cancel_left hmount),
    List.cons_injective (List.append_cancel_left hkey)]

end SecureVote
