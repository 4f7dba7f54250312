import SecureVote.Verified.Commits
import SecureVote.Routes.LatestResults

/-!
# What is committed with a signed result

The environment answers the calls of the signing service as `signing_service.py` does, in whatever
configuration is in force at the call (`Serves`). Then every commit of `sign_election_results` stores
what the service has returned for the stored payload, and the key of a local signature is archived
with it or has been archived before (`Stores`).
-/

open Txn Txn.Rules

namespace SecureVote

open Py

variable {L : Lib} {R : RsaLib} {E : Environment} {r : Request} {wk : ℕ} {c : Conf L E}

/-! ### The signing service of the environment -/

/-- The keyword arguments of `verify_signature`, as the service looks into them. -/
def SignatureMetadata.arguments (m : SignatureMetadata) : SignerMetadata where
  signerBackend := .str m.signerBackend
  signatureAlgorithm := .str m.signatureAlgorithm
  signingKeyId := .str m.signingKeyId
  signingKeyVersion :=
    match m.signingKeyVersion with
    | some n => .int n
    | none => .none
  publicKeyPem :=
    match m.publicKeyPem with
    | some pem => .str pem
    | none => .none

/-- The calls of the signing service are answered by `sign_data` and `verify_signature`, each time
under some configuration. -/
structure Serves (L : Lib) (R : RsaLib) (E : Environment) : Prop where
  sign : ∀ {wk w data signed w'}, E.answer wk w (.signData data) (some signed) w' →
    ∃ (C : SigningConfig L R) (salt : Bytes), C.signData (.bytes data) salt = .ok signed
  verify : ∀ {wk w data signature m valid w'},
    E.answer wk w (.verifySignature data signature m) valid w' →
      ∃ C : SigningConfig L R,
        valid = (C.verifySignature (.bytes data) (.str signature) m.arguments).toOption

/-! ### Snapshots -/

/-- The snapshots of a thread have evolved into the committed state. -/
def SnapsEvolve : Condition (machine L E) :=
  fun _ l _ d => ∀ i d₀, l.snap i = some d₀ → Evolves d₀ d

theorem SnapsEvolve.view {l : Loc} {log : List (Ev Db Event Response)} {d : Db}
    (h : SnapsEvolve (L := L) (E := E) r l log d) (b : Bind) : Evolves (l.view b d) d := by
  unfold Local.view
  rcases hs : l.snap b with _ | d₀
  · exact .refl d
  · exact h b d₀ hs

/-! ### The archived key -/

/-- The key is archived for a local signature as verification needs it. -/
structure Archives (L : Lib) (signed : SigningResult) (k : ResultSigningPublicKey) : Prop where
  keyId : k.keyId = signed.signingKeyId
  algorithm : k.algorithm = signed.signatureAlgorithm
  valid : validLocalPublicKey L (some k.publicKeyPem) k.keyId = true

/-- A key that is archived with a result, or one that the archive has. -/
structure KeyFor (L : Lib) (d : Db) (signed : SigningResult) (key : Option ResultSigningPublicKey) :
    Prop where
  new : ∀ k, key = some k → Archives L signed k
  exists_key : signed.signerBackend = localRsaBackend →
    ∃ k, Archives L signed k ∧ (key = some k ∨ k ∈ d.resultKeys)

theorem KeyFor.evolve {d d' : Db} {signed : SigningResult} {key : Option ResultSigningPublicKey}
    (h : KeyFor L d signed key) (hev : Evolves d d') : KeyFor L d' signed key := by
  refine ⟨h.new, fun hlocal => ?_⟩
  obtain ⟨k, hk, hnew | hold⟩ := h.exists_key hlocal
  · exact ⟨k, hk, .inl hnew⟩
  · exact ⟨k, hk, .inr (hev.resultKeys.subset hold)⟩

/-- A valid key has a PEM text. -/
theorem exists_pem_of_valid {pem : Option PyStr} {keyId : PyStr}
    (h : validLocalPublicKey L pem keyId = true) : ∃ s, pem = some s := by
  cases pem with
  | none => cases h
  | some s => exact ⟨s, rfl⟩

variable {C : Condition (machine L E)} {K : Request → Db → Db → Prop}

/-- The provenance check ends in an error, or with a key for the signature. -/
theorem commitsWp_archiveKey {γ : Type} {cu : CurrentUser} {signed : SigningResult}
    {f : Except Response (Option ResultSigningPublicKey) → Handler γ} {P : γ → Conf L E → Prop}
    (hc : writes c.log = [])
    (herror : ∀ a c', writes c'.log = [] → commitsWp SnapsEvolve K r wk (f (.error a)) P c')
    (hok : ∀ key c', writes c'.log = [] → KeyFor L c'.db signed key →
      commitsWp SnapsEvolve K r wk (f (.ok key)) P c') :
    commitsWp SnapsEvolve K r wk (archiveKey L cu signed >>= f) P c := by
  refine lwp_bind.mpr ?_
  unfold archiveKey
  split
  next hbackend =>
    exact hok none c hc ⟨by simp, fun hlocal => absurd hlocal hbackend⟩
  split
  · refine lwp_bind.mpr fun d w _ => ?_
    exact herror _ _ hc
  next hvalid =>
  rw [Bool.not_eq_false] at hvalid
  obtain ⟨pem, hpem⟩ := exists_pem_of_valid hvalid
  have hkey : Archives L signed
      ⟨signed.signingKeyId, signed.signatureAlgorithm, signed.publicKeyPem.getD []⟩ :=
    ⟨rfl, rfl, by rw [hpem] at hvalid ⊢; exact hvalid⟩
  refine lwp_bind.mpr (lwp_select.mpr fun d w _ hsnap => ?_)
  generalize hfind : List.find? _ _ = found
  rcases found with _ | old
  · refine hok _ _ hc ⟨?_, fun _ => ⟨_, hkey, .inl rfl⟩⟩
    rintro k ⟨⟩
    exact hkey
  dsimp only
  split
  next hsame =>
    have hid : old.keyId = signed.signingKeyId := by simpa using List.find?_some hfind
    have hold : Archives L signed old :=
      ⟨hid, hsame.1, by rw [hsame.2, hid]; exact hkey.valid⟩
    have hmem : old ∈ d.resultKeys :=
      (hsnap.view cu.bind).resultKeys.subset (List.mem_of_find?_eq_some hfind)
    exact hok _ _ hc ⟨by simp, fun _ => ⟨old, hold, .inr hmem⟩⟩
  · refine lwp_bind.mpr fun d' w' _ => ?_
    exact herror _ _ hc

/-! ### The commit of a signature -/

/-- The commit stores a payload with what the service has signed of it, and its key. -/
def Stores (L : Lib) (R : RsaLib) (d d' : Db) : Prop :=
  ∃ (i : ℕ) (key : Option ResultSigningPublicKey) (payload : PyStr) (signed : SigningResult)
    (signedAt : Time) (signer : ℕ),
    d'.toTables = addResult key i payload signed signedAt signer d.toTables ∧
      (∃ (C : SigningConfig L R) (salt : Bytes),
        C.signData (.bytes (asciiBytes payload)) salt = .ok signed) ∧ KeyFor L d signed key

/-- The commits of a signing request store what has been signed. -/
def SignedBy (L : Lib) (R : RsaLib) (r : Request) (d d' : Db) : Prop :=
  (∃ cookie body form, r = .signElectionResults cookie body form) → Stores L R d d'

/-- The weakest precondition of a handler that commits what the service has signed. -/
abbrev signedWp (L : Lib) (R : RsaLib) (E : Environment) (r : Request) (wk : ℕ) {β : Type}
    (p : Handler β) (P : β → Conf L E → Prop) (c : Conf L E) : Prop :=
  commitsWp SnapsEvolve (SignedBy L R) r wk p P c

theorem signedWp_signClosed (hserves : Serves L R E) {cu : CurrentUser} {e : Election}
    (hc : writes c.log = []) :
    signedWp L R E r wk (signClosed L cu e) (fun _ _ => True) c := by
  unfold signClosed
  refine commitsWp_bind hc (fun _ => trivial) fun existing c₁ hc₁ => ?_
  dsimp only
  split
  · exact commitsWp_end (.of_nil hc₁) trivial
  refine commitsWp_bind hc₁ (silent_getVoteTallies _) ?_
  rintro (_ | tallies) c₂ hc₂
  · exact commitsWp_end (.of_nil hc₂) trivial
  refine commitsWp_bind hc₂ (fun _ => trivial) fun signedAt c₃ hc₃ => ?_
  refine lwp_bind.mpr (lwp_call.mpr fun d w _ answer w' hanswer => ?_)
  rcases (answer : Option SigningResult) with _ | signed
  · exact commitsWp_end (.of_nil hc₃) trivial
  have hsigned := hserves.sign hanswer
  refine commitsWp_archiveKey hc₃ (fun a c₄ hc₄ => ?_) fun key c₄ hc₄ hkey => ?_
  · exact commitsWp_end (.of_nil hc₄) trivial
  refine commitsWp_write (β := Unit) (m := fun _ => ()) hc₄
    (fun d d' hev hd _ => ⟨_, _, _, _, _, _, hd, hsigned, hkey.evolve hev⟩) ?_
  rintro (_ | ⟨⟩)
  · trivial
  · exact reports_auditRow _ _ _ _ _ _ _

/-- The commits of every handler store what has been signed. -/
theorem signed_handle (hserves : Serves L R E) (r : Request) (hc : writes c.log = []) :
    signedWp L R E r wk (handle L r) (fun _ _ => True) c := by
  by_cases hr : ∃ cookie body form, r = .signElectionResults cookie body form
  · obtain ⟨cookie, body, form, rfl⟩ := hr
    show signedWp L R E _ wk (signElectionResults L cookie body form) _ c
    unfold signElectionResults
    refine commitsWp_loginRequired hc fun cu c₁ hc₁ => ?_
    split
    · trivial
    split
    · trivial
    refine commitsWp_selectLocking hc₁ fun d c₂ hc₂ => ?_
    generalize byId d.elections _ = found
    rcases found with _ | e
    · exact commitsWp_end (.of_nil hc₂) trivial
    dsimp only
    split
    · exact commitsWp_end (.of_nil hc₂) trivial
    · exact signedWp_signClosed hserves hc₂
  · exact lwp_of_forall (fun _ d d' _ hsign => absurd hsign hr) fun _ _ => trivial

end SecureVote
