import SecureVote.Verified.SignedResults
import SecureVote.Verified.Results

/-!
# What a verification reply is read off

`verify_election_results` reads the stored result and the archived key on one connection, so its
reply is read off one state of the database, up to the answer of the signing service
(`StoredReply`).
-/

open Txn Txn.Rules

namespace SecureVote

open Py

variable {L : Lib} {R : RsaLib} {E : Environment} {r : Request} {wk : ℕ} {c : Conf L E}

/-- The metadata of a stored result, next to its archived key. -/
def SignedElectionResult.metadata (x : SignedElectionResult)
    (archived : Option ResultSigningPublicKey) : SignatureMetadata :=
  ⟨x.signerBackend, x.signatureAlgorithm, x.signingKeyId, x.signingKeyVersion,
    archived.map ResultSigningPublicKey.publicKeyPem⟩

/-- The archived key of a stored result in this state. -/
def Tables.archivedKey (t : Tables) (x : SignedElectionResult) : Option ResultSigningPublicKey :=
  if x.signerBackend = localRsaBackend then t.resultKeys.find? fun k => k.keyId = x.signingKeyId
  else none

/-- How the state `d` answers a payload and a signature. -/
inductive StoredReply (L : Lib) (R : RsaLib) (d : Db) (payload signature : PyStr) (electionId : ℤ) :
    Response → Prop
  | unknown {message} (h : ∀ x ∈ d.results.rows, (x.electionId : ℤ) ≠ electionId) :
      StoredReply L R d payload signature electionId (.error message 404)
  | different {x} (hx : x ∈ d.results.rows) (hid : (x.electionId : ℤ) = electionId)
      (h : x.payload ≠ payload ∨ x.signature ≠ signature) :
      StoredReply L R d payload signature electionId (.verified false)
  | unavailable {message x e} (C : SigningConfig L R) (hx : x ∈ d.results.rows)
      (hid : (x.electionId : ℤ) = electionId)
      (h : C.verifySignature (.bytes (asciiBytes payload)) (.str signature)
        (x.metadata (d.archivedKey x)).arguments = .error e) :
      StoredReply L R d payload signature electionId (.error message 503)
  | answered {x valid} (C : SigningConfig L R) (hx : x ∈ d.results.rows)
      (hid : (x.electionId : ℤ) = electionId) (hpayload : x.payload = payload)
      (hsignature : x.signature = signature)
      (h : C.verifySignature (.bytes (asciiBytes payload)) (.str signature)
        (x.metadata (d.archivedKey x)).arguments = .ok valid) :
      StoredReply L R d payload signature electionId (.verified valid)

/-- The archived key is read in the snapshot of the connection. -/
theorem spec_archivedKey {b : Bind} {d : Db} (hd : c.loc.snap b = some d)
    (x : SignedElectionResult) :
    (rules L E).wp r wk (archivedKey b x)
      (fun k c' => (rules L E).Ext c c' ∧ k = d.archivedKey x) c := by
  unfold archivedKey Tables.archivedKey
  split
  · refine wp_mono (spec_select _ _) ?_
    rintro k c' ⟨hx, d', hd', rfl, -⟩
    obtain rfl : d' = d := Option.some.inj (hd'.symm.trans (hx.snap hd))
    exact ⟨hx, rfl⟩
  · exact ⟨.refl c, rfl⟩

theorem spec_verifyStored_reply (hserves : Serves L R E) (b : Bind) (payload signature : PyStr)
    (electionId : ℤ) :
    (rules L E).wp r wk (verifyStored b payload signature electionId) (fun a c' =>
      ∃ d, c'.loc.snap b = some d ∧ StoredReply L R d payload signature electionId a) c := by
  unfold verifyStored
  refine wp_bind_of (spec_select _ _) ?_
  rintro found c₁ ⟨hx₁, d, hd, hfound, -⟩
  rcases found with _ | stored
  · refine ⟨d, hd, .unknown fun x hx => ?_⟩
    simpa using List.find?_eq_none.mp hfound.symm x hx
  have hmem : stored ∈ d.results.rows := List.mem_of_find?_eq_some hfound.symm
  have hid : (stored.electionId : ℤ) = electionId := by simpa using List.find?_some hfound.symm
  show (rules L E).wp _ wk (if _ then _ else _) _ c₁
  split
  next hdiff => exact ⟨d, hd, .different hmem hid hdiff⟩
  next hsame =>
    rw [not_or, not_not, not_not] at hsame
    refine wp_bind_of (spec_archivedKey hd stored) ?_
    rintro k c₂ ⟨hx₂, rfl⟩
    refine wp_bind_of (spec_call _) ?_
    rintro answer c₃ ⟨hx₃, -, w, hanswer, -⟩
    have hd₃ : c₃.loc.snap b = some d := hx₃.snap (hx₂.snap hd)
    obtain ⟨C, hvalid⟩ := hserves.verify hanswer
    rcases h : C.verifySignature (.bytes (asciiBytes payload)) (.str signature)
      (stored.metadata (d.archivedKey stored)).arguments with e | valid
    · obtain rfl : answer = none := hvalid.trans (congrArg Except.toOption h)
      exact ⟨d, hd₃, .unavailable C hmem hid h⟩
    · obtain rfl : answer = some valid := hvalid.trans (congrArg Except.toOption h)
      exact ⟨d, hd₃, .answered C hmem hid hsame.1 hsame.2 h⟩

/-- The reply to a verification request: from the hook, to a body that is not understood, or read
off a snapshot of its connection. -/
theorem wp_verificationReply (hserves : Serves L R E) (cookie : Option PyStr) (body : Option Json)
    (hloc : c.loc = .fresh) :
    (rules L E).wp (.verifyElectionResults cookie body) wk (verifyElectionResults L cookie body)
      (fun a c' => a = passwordExpired ∨ parseVerification body = .error a ∨
        ∃ data electionId signature b d, parseVerification body = .ok (data, electionId, signature) ∧
          c'.loc.snap b = some d ∧
          StoredReply L R d (dumps (.obj data)) signature electionId a) c := by
  rw [verifyElectionResults_eq]
  refine wp_bind_of (spec_loadUserFromJwt (r := .verifyElectionResults cookie body)
    (by rw [hloc]; rfl) false) ?_
  rintro (a | cu) c₁ ⟨-, -, -, hres⟩
  · exact .inl hres
  rcases hparse : parseVerification body with a | ⟨data, electionId, signature⟩
  · exact .inr (.inl rfl)
  · refine wp_mono (spec_verifyStored_reply hserves _ _ _ _) fun a c₂ ⟨d, hd, hreply⟩ => ?_
    exact .inr (.inr ⟨data, electionId, signature, _, d, rfl, hd, hreply⟩)

end SecureVote
