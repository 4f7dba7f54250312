import SecureVote.Handler
import SecureVote.Arith.Residue

/-!
# Election-bound blind signatures (`security/blind_signature.py`)

The arithmetic of the scheme and its entry points for the handlers. `_load_keys` and
`generate_blind_signing_keypair` touch key files and the per-process key cache; to the handlers
they are calls (`Query.loadKeys`, `Query.generateKeypair`), whose bodies are in
`SecureVote.Security.KeyFiles`.
-/

open Txn

namespace SecureVote

open Py

/-- `_public_key_fingerprint`. -/
def fingerprint (L : Lib) (k : PublicKey) : PyStr := L.sha256Hex (L.publicDer k)

/-- What `get_public_key_components` returns. -/
structure KeyComponents where
  n : PyStr
  e : PyStr
  keyId : PyStr

/-- `_load_keys`. -/
def loadKeys (electionId : ℕ) : Handler (Except PyError KeyPair) :=
  Prog.call (Query.loadKeys electionId)

/-- `generate_blind_signing_keypair`. -/
def generateBlindSigningKeypair (electionId : ℕ) : Handler (Except PyError Unit) :=
  Prog.call (Query.generateKeypair electionId)

/-- `get_public_key_components`. -/
def getPublicKeyComponents (L : Lib) (electionId : ℕ) :
    Handler (Except PyError KeyComponents) := do
  match ← loadKeys electionId with
  | .error e => pure (.error e)
  | .ok pair =>
    pure (.ok ⟨hex pair.publicKey.n, hex pair.publicKey.e, fingerprint L pair.publicKey⟩)

/-- A stored fingerprint has the form of one. -/
def isFingerprint (s : PyStr) : Bool := s.length = 64 && s.all isHexLower

/-- A fingerprint has the form `[0-9a-f]{64}`. -/
theorem isFingerprint_fingerprint (L : Lib) (key : PublicKey) :
    isFingerprint (fingerprint L key) = true := by
  have hdigit : ∀ d < 16, isHexLower (digitChar d) = true := by decide
  have hlength : ∀ bs : Bytes, (bytesHex bs).length = 2 * bs.length := by
    intro bs
    induction bs with
    | nil => rfl
    | cons b bs ih =>
      have hcons : bytesHex (b :: bs) = hexByte b ++ bytesHex bs := rfl
      rw [hcons, List.length_append, ih, List.length_cons, hexByte]
      simp only [List.length_cons, List.length_nil]
      omega
  have hlower : (fingerprint L key).all isHexLower = true := by
    rw [fingerprint, Lib.sha256Hex, bytesHex, List.all_flatMap, List.all_eq_true]
    intro b _
    have hb : b.toNat < 256 := b.toNat_lt
    have hhigh := hdigit (b.toNat / 16) (by omega)
    have hlow := hdigit (b.toNat % 16) (by omega)
    simp [hexByte, hhigh, hlow]
  have hsize : (fingerprint L key).length = 64 := by
    rw [fingerprint, Lib.sha256Hex, hlength, L.sha256_length]
  simp [isFingerprint, hsize, hlower]

/-- The part of `ensure_election_blind_signing_key` before the key is loaded: creation, or the
form of the anchor. -/
def prepareKey (electionId : ℕ) (expected : Option PyStr) (allowCreate : Bool) :
    Handler (Except PyError Unit) :=
  match expected with
  | none =>
    if allowCreate then generateBlindSigningKeypair electionId
    else pure (.error (.blindSigningKeyError "The election has no anchored blind-signing key."))
  | some id =>
    if isFingerprint id then pure (.ok ())
    else pure (.error
      (.blindSigningKeyError "The election blind-signing key fingerprint is invalid."))

/-- `ensure_election_blind_signing_key`. -/
def ensureElectionBlindSigningKey (L : Lib) (electionId : ℕ) (expected : Option PyStr)
    (allowCreate : Bool) : Handler (Except PyError KeyComponents) := do
  match ← prepareKey electionId expected allowCreate with
  | .error e => pure (.error e)
  | .ok () =>
    match ← getPublicKeyComponents L electionId with
    | .error e => pure (.error e)
    | .ok components =>
      if expected.all (· = components.keyId) then pure (.ok components)
      else pure (.error (.blindSigningKeyError
        "The election blind-signing key does not match its durable fingerprint."))

/-! ### Hashing, signing and verifying -/

/-- `counter.to_bytes(4, "big")`. -/
def counterBytes (i : ℕ) : Bytes :=
  [UInt8.ofNat (i / 16777216), UInt8.ofNat (i / 65536), UInt8.ofNat (i / 256), UInt8.ofNat i]

/-- `int.from_bytes(data, "big")`. -/
def fromBigEndian (bs : Bytes) : ℕ := bs.foldl (fun n b => n * 256 + b.toNat) 0

/-- `hash_ballot`; a modulus below 2 is a `ValueError`. -/
def hashBallot (L : Lib) (ballot : Bytes) (n : ℕ) : Except PyError ℕ :=
  if n < 2 then .error .valueError
  else
    let seed := L.sha256 ballot
    let expanded := (List.range 8).flatMap fun i => L.sha256 (seed ++ counterBytes i)
    .ok (fromBigEndian expanded % n)

/-- One pass over the bits of the exponent, least significant first. -/
def powModLoop (m : ℕ) : ℕ → ℕ → ℕ → ℕ → ℕ
  | 0, acc, _, _ => acc
  | fuel + 1, acc, b, e =>
      if e = 0 then acc
      else powModLoop m fuel (if e % 2 = 1 then acc * b % m else acc) (b * b % m) (e / 2)

/-- `pow(base, exp, mod)` for a nonnegative exponent. -/
def powMod (b e m : ℕ) : ℕ := powModLoop m (Nat.log2 e + 1) (1 % m) (b % m) e

theorem powModLoop_eq {m fuel acc b e : ℕ} (hfuel : e < 2 ^ fuel) (hacc : acc % m = acc) :
    powModLoop m fuel acc b e = acc * b ^ e % m := by
  induction fuel generalizing acc b e with
  | zero =>
    have he : e = 0 := by omega
    rw [powModLoop, he, pow_zero, mul_one, hacc]
  | succ fuel ih =>
    rw [powModLoop]
    split_ifs with he hodd
    · rw [he, pow_zero, mul_one, hacc]
    all_goals
      have hhalf : e / 2 < 2 ^ fuel := by omega
      have hround := Residue.mul_pow_half acc b e
      have hpow : (b * b % m) ^ (e / 2) ≡ (b * b) ^ (e / 2) [MOD m] := (Nat.mod_modEq _ _).pow _
    · rw [ih hhalf (Nat.mod_mod _ _)]
      rw [if_pos hodd] at hround
      exact hround ▸ (Nat.mod_modEq _ _).mul hpow
    · rw [ih hhalf hacc]
      rw [if_neg hodd] at hround
      exact hround ▸ hpow.mul_left acc

/-- `pow(base, exp, mod)` is the least residue of the power. -/
theorem powMod_eq (b e m : ℕ) : powMod b e m = b ^ e % m := by
  rw [powMod, powModLoop_eq Nat.lt_log2_self (Nat.mod_mod 1 m)]
  exact (Nat.mod_modEq 1 m).mul ((Nat.mod_modEq b m).pow e) |>.trans (by rw [one_mul])

/-- `blind_sign` on loaded key numbers. -/
def blindSignWith (n d : ℕ) (blinded : ℤ) : Except PyError ℕ :=
  if 0 < blinded ∧ blinded < n ∧ Nat.gcd blinded.toNat n = 1 then
    .ok (powMod blinded.toNat d n)
  else .error .valueError

/-- `verify_unblinded_signature` on loaded key numbers. -/
def verifyWith (L : Lib) (k : PublicKey) (ballot : Bytes) (signature : ℤ) : Except PyError Bool :=
  if 0 < signature ∧ signature < k.n then
    match hashBallot L ballot k.n with
    | .error e => .error e
    | .ok expected => .ok (decide (powMod signature.toNat k.e k.n = expected))
  else .ok false

/-- The modulus of a validated pair is large enough for the hash: its verification does not
raise. -/
theorem KeyPair.verifyWith_ok (k : KeyPair) (L : Lib) (ballot : Bytes) (signature : ℤ) :
    ∃ v, verifyWith L k.publicKey ballot signature = .ok v := by
  have hvalid := k.valid
  have hn : ¬k.publicKey.n < 2 := by
    intro hlt
    have hsize : k.publicKey.keySize = 2048 := by
      simp only [validPair, Bool.and_eq_true, decide_eq_true_eq] at hvalid
      exact hvalid.1.1.2
    have hlog : Nat.log2 k.publicKey.n ≤ k.publicKey.n := Nat.log2_le_self _
    unfold PublicKey.keySize at hsize
    split at hsize <;> omega
  unfold verifyWith hashBallot
  rw [if_neg hn]
  split
  · exact ⟨_, rfl⟩
  · exact ⟨_, rfl⟩

/-- `blind_sign`. -/
def blindSign (blinded : ℤ) (electionId : ℕ) : Handler (Except PyError ℕ) := do
  match ← loadKeys electionId with
  | .error e => pure (.error e)
  | .ok pair => pure (blindSignWith pair.privateKey.publicKey.n pair.privateKey.d blinded)

/-- `verify_unblinded_signature`. -/
def verifyUnblindedSignature (L : Lib) (ballot : Bytes) (signature : ℤ) (electionId : ℕ) :
    Handler (Except PyError Bool) := do
  match ← loadKeys electionId with
  | .error e => pure (.error e)
  | .ok pair => pure (verifyWith L pair.publicKey ballot signature)

end SecureVote
