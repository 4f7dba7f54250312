import SecureVote.Txn.Replies
import SecureVote.Txn.Serve
import SecureVote.Verified.ResultReplies
import SecureVote.Properties.BallotHistory
import SecureVote.Properties.PublishedResults

/-!
# Public verification

Anyone can download a signed result and have it verified. A stored result that the local key has
signed is downloaded as it was signed and is confirmed from then on (`published_results_verify`), and
whatever is confirmed states the ballots that were cast (`verified_counts`).
-/

open Txn Txn.Rules

namespace SecureVote

open Py

variable {L : Lib} {R : RsaLib} {E : Environment} {r : Request} {d d' : Db} {w : E.World}
  {s s₀ s' : Sys (machine L E)}

/-! ### Replies of the run -/

/-- The reply `a` to a verification request is from the identity hook, or to a body that is not
understood, or read off a state with `φ` that has evolved into `d`. -/
def RepliesFrom (L : Lib) (R : RsaLib) (φ : Db → Prop) (body : Option Json) (a : Response)
    (d : Db) : Prop :=
  a = passwordExpired ∨ parseVerification body = .error a ∨
    ∃ data electionId signature d₀, parseVerification body = .ok (data, electionId, signature) ∧
      φ d₀ ∧ Evolves d₀ d ∧ StoredReply L R d₀ (dumps (.obj data)) signature electionId a

theorem RepliesFrom.evolve {φ : Db → Prop} {body : Option Json} {a : Response}
    (h : RepliesFrom L R φ body a d) (hev : Evolves d d') : RepliesFrom L R φ body a d' := by
  rcases h with h | h | ⟨data, electionId, signature, d₀, hparse, hφ, hd₀, hreply⟩
  · exact .inl h
  · exact .inr (.inl h)
  · exact .inr (.inr ⟨data, electionId, signature, d₀, hparse, hφ, hd₀.trans hev, hreply⟩)

/-- A verification that is requested when `φ` has been established, which no step undoes, is answered
from a state with `φ`. -/
theorem replies_of_reach (hserves : Serves L R E) {φ : Db → Prop}
    (hφ : ∀ d d', Evolves d d' → φ d → φ d') (h₀ : Reach (Sys.init d w) s₀) (hφ₀ : φ s₀.db)
    (h : Reach s₀ s) {i : ℕ} {t : Thread (machine L E)} {cookie : Option PyStr}
    {body : Option Json} {a : Response} (hlate : s₀.threads.length ≤ i)
    (ht : s.threads[i]? = some t) (hr : t.request = .verifyElectionResults cookie body)
    (ha : t.status = .finished a) : RepliesFrom L R φ body a s.db := by
  have hkeep : ∀ {r l d w d'}, (rules L E).Guar r l d w d' → φ d → φ d' := fun hg =>
    hφ _ _ (Act.evolves hg)
  refine reply_of_reach hkeep (P := RepliesFrom L R φ body) (verified L E) trivial h₀ hφ₀ h
    (fun hrely ha => ha.evolve (Relies.evolves hrely)) (fun wk d w hd hφd => ?_) hlate ht hr ha
  have hread : (rules L E).wp (.verifyElectionResults cookie body) wk
      (verifyElectionResults L cookie body) _ ⟨.fresh, d, w, []⟩ :=
    wp_verificationReply hserves cookie body rfl
  have hseen := wp_seen (wp_within hkeep hread) fun _ _ hsnap => by cases hsnap
  have hwp := wp_snapsTo Evolves.refl (fun _ _ _ h h' => h.trans h')
    (fun _ _ _ _ hrely => Relies.evolves hrely) hseen fun _ _ hsnap => by cases hsnap
  refine wp_mono hwp fun a c' ⟨⟨hreply, hseen⟩, hkept⟩ => ?_
  rcases hreply with hreply | hreply | ⟨data, electionId, signature, b, d₀, hparse, hsnap, hreply⟩
  · exact .inl hreply
  · exact .inr (.inl hreply)
  · obtain ⟨w₀, -, hφ₀⟩ := hseen b d₀ hsnap
    exact .inr (.inr ⟨data, electionId, signature, d₀, hparse, hφ₀, hkept b d₀ hsnap, hreply⟩)

/-! ### What a reader finds in the data -/

theorem eq_int_of_canonical {v : Json} {n : ℤ} (h : v.canonical = .int n) : v = .int n := by
  cases v with
  | int m => exact h
  | _ => cases h

theorem eq_str_of_canonical {v : Json} {t : PyStr} (h : v.canonical = .str t) : v = .str t := by
  cases v with
  | str u => exact h
  | _ => cases h

theorem exists_arr_of_canonical {v : Json} {ys : List Json} (h : v.canonical = .arr ys) :
    ∃ xs, v = .arr xs ∧ xs.map Json.canonical = ys := by
  cases v with
  | arr xs =>
    rw [Json.canonical, canonicalElements_eq] at h
    exact ⟨xs, rfl, Json.arr.inj h⟩
  | _ => cases h

theorem exists_obj_of_canonical {v : Json} {kvs : List (PyStr × Json)}
    (h : v.canonical = (Json.obj kvs).canonical) : ∃ kvs', v = .obj kvs' := by
  cases v with
  | obj kvs' => exact ⟨kvs', rfl⟩
  | _ => cases h

/-- What is read out of an object that has been read. -/
theorem readable_getOrNone {p : PyStr → Prop} {kvs : List (PyStr × Json)}
    (h : Readable p (.obj kvs)) {k : PyStr} {v : Json} (hv : getOrNone kvs k = v)
    (hne : v ≠ .null) : Readable p v := by
  cases h with
  | obj hnodup hkeys hkvs =>
    rw [getOrNone] at hv
    rcases hget : dictGet kvs k with _ | v'
    · rw [hget] at hv
      exact absurd hv.symm hne
    · rw [hget] at hv
      exact hv ▸ hkvs _ ((dictGet_eq_some hnodup).mp hget)

/-- The row states how many ballots the run has committed for the candidate. -/
def RowStates (s : Sys (machine L E)) (c : Candidate) (row : Json) : Prop :=
  ∃ kvs, row = .obj kvs ∧ getOrNone kvs (py "candidate_id") = .int c.id ∧
    getOrNone kvs (py "name") = .str c.name ∧
    getOrNone kvs (py "votes") = .int (ballotsFor s c.electionId c.id).length

/-- The data state the ballots that the run has committed for the election: for each of its
candidates, and all of them. -/
structure StatesBallots (s : Sys (machine L E)) (i : ℕ) (data : List (PyStr × Json)) : Prop where
  election : getOrNone data (py "election_id") = .int i
  total : getOrNone data (py "total_votes") = .int (ballotsOf s i).length
  results : ∃ rows, getOrNone data (py "results") = .arr rows ∧
    (∀ row ∈ rows, ∃ c ∈ s.db.roster i, RowStates s c row) ∧
    ∀ c ∈ s.db.roster i, ∃ row ∈ rows, RowStates s c row

/-- A tally row is stated by every reading of it. -/
theorem rowStates_of_canonical {row : Json} (hread : Readable Joined row) {c : Candidate}
    {tally : Tally} (hid : c.id = tally.candidateId) (hname : c.name = tally.name)
    (hvotes : tally.votes = (ballotsFor s c.electionId c.id).length)
    (h : row.canonical = tally.toJson.canonical) : RowStates s c row := by
  obtain ⟨kvs, rfl⟩ := exists_obj_of_canonical h
  cases hread with
  | obj hnodup _ _ =>
    have hget := fun k => getOrNone_canonical hnodup h k
    refine ⟨kvs, rfl, ?_, ?_, ?_⟩
    · rw [hid]
      exact eq_int_of_canonical (hget (py "candidate_id"))
    · rw [hname]
      exact eq_str_of_canonical (hget (py "name"))
    · rw [← hvotes]
      exact eq_int_of_canonical (hget (py "votes"))

/-- The results of an election are stated by every reading of them. -/
theorem statesBallots_of_canonical {data : List (PyStr × Json)}
    (hread : Readable Joined (.obj data)) {i : ℕ} {e : Election} (hid : e.id = i) {signedAt : Time}
    {rows : List Tally} (hcounts : Counts (s.db.roster i) (s.db.votesFor i) rows)
    (hballots : (∀ c, ((s.db.votesFor i).countP fun v => v.candidateId = c) =
      (ballotsFor s i c).length) ∧ (s.db.votesFor i).length = (ballotsOf s i).length)
    (h : (Json.obj data).canonical = (electionResults e signedAt rows).canonical) :
    StatesBallots s i data := by
  have hnodup : (data.map Prod.fst).Nodup := by
    cases hread with
    | obj hnodup _ _ => exact hnodup
  have hget := fun k => getOrNone_canonical hnodup h k
  refine ⟨?_, ?_, ?_⟩
  · rw [← hid]
    exact eq_int_of_canonical (hget (py "election_id"))
  · rw [← hballots.2, ← hcounts.total]
    exact eq_int_of_canonical (hget (py "total_votes"))
  -- the rows are read one by one
  have hresults : (getOrNone data (py "results")).canonical =
      .arr (canonicalElements (rows.map Tally.toJson)) := hget (py "results")
  obtain ⟨xs, hxs, hmap⟩ := exists_arr_of_canonical hresults
  rw [canonicalElements_eq, List.map_map] at hmap
  have hreadable : ∀ x ∈ xs, Readable Joined x := by
    have harr := readable_getOrNone hread hxs (by simp)
    cases harr with
    | arr hall => exact hall
  have hrow : ∀ tally ∈ rows, ∀ c ∈ s.db.roster i, c.id = tally.candidateId → c.name = tally.name →
      ∀ x ∈ xs, x.canonical = tally.toJson.canonical → RowStates s c x := by
    intro tally htally c hc hcid hcname x hx hcanonical
    refine rowStates_of_canonical (hreadable x hx) hcid hcname ?_ hcanonical
    rw [hcounts.count tally htally, ← hcid, hballots.1, (mem_roster.mp hc).2]
  refine ⟨xs, hxs, fun x hx => ?_, fun c hc => ?_⟩
  · have hmem : x.canonical ∈ rows.map (Json.canonical ∘ Tally.toJson) :=
      hmap ▸ List.mem_map_of_mem hx
    obtain ⟨tally, htally, hcanonical⟩ := List.mem_map.mp hmem
    obtain ⟨c, hc, hcid, hcname, -, -⟩ := hcounts.columns tally htally
    exact ⟨c, hc, hrow tally htally c hc hcid hcname x hx hcanonical.symm⟩
  · have hcid : c.id ∈ rows.map Tally.candidateId :=
      hcounts.candidates.mem_iff.mpr (List.mem_map_of_mem hc)
    obtain ⟨tally, htally, hcid⟩ := List.mem_map.mp hcid
    obtain ⟨c', hc', hcid', hcname, -, -⟩ := hcounts.columns tally htally
    -- candidates are determined by their ids
    obtain rfl : c' = c := List.inj_on_of_nodup_map s.db.candidates.nodup (mem_roster.mp hc').1
      (mem_roster.mp hc).1 (hcid'.trans hcid)
    have hmem : tally.toJson.canonical ∈ xs.map Json.canonical :=
      hmap ▸ List.mem_map_of_mem htally
    obtain ⟨x, hx, hcanonical⟩ := List.mem_map.mp hmem
    exact ⟨x, hx, hrow tally htally _ hc' hcid' hcname x hx hcanonical⟩

/-! ### What is confirmed -/

/-- A body that is understood has the data and the signature. -/
theorem verificationData_eq_ok {body : Option Json} {data : List (PyStr × Json)} {signature : PyStr}
    (h : verificationData body = .ok (data, signature)) : ∃ kvs, body = some (.obj kvs) ∧
      getOrNone kvs (py "data") = .obj data ∧ getOrNone kvs (py "signature") = .str signature := by
  unfold verificationData at h
  dsimp only at h
  split at h
  next kvs =>
    split at h
    next hdata hsignature =>
      split at h
      · cases h
      · cases h
        exact ⟨kvs, rfl, hdata, hsignature⟩
    · cases h
  · split at h <;> cases h
  · cases h

theorem verificationData_of_parse {body : Option Json} {data : List (PyStr × Json)}
    {electionId : ℤ} {signature : PyStr}
    (h : parseVerification body = .ok (data, electionId, signature)) :
    verificationData body = .ok (data, signature) := by
  unfold parseVerification at h
  split at h
  · cases h
  next hdata =>
    split at h
    · cases h
    · cases h
      exact hdata

theorem Tables.archivedKey_mem {t : Tables} {x : SignedElectionResult} {k : ResultSigningPublicKey}
    (h : t.archivedKey x = some k) : k ∈ t.resultKeys := by
  unfold Tables.archivedKey at h
  split at h
  · exact List.mem_of_find?_eq_some h
  · cases h

/-- The signing service has confirmed the stored signature, in some configuration and with a key of
the archive if there is one. -/
def Confirmed (L : Lib) (R : RsaLib) (d : Db) (x : SignedElectionResult) : Prop :=
  ∃ (C : SigningConfig L R) (k : Option ResultSigningPublicKey), (∀ key ∈ k, key ∈ d.resultKeys) ∧
    C.verifySignature (.bytes (asciiBytes x.payload)) (.str x.signature) (x.metadata k).arguments =
      .ok true

/-! ### The public download -/

/-- What the public downloads of a stored result. -/
def SignedElectionResult.download (x : SignedElectionResult) (data : Json)
    (archived : Option ResultSigningPublicKey) : LatestResults where
  data := data
  signature := x.signature
  signerBackend := x.signerBackend
  signatureAlgorithm := x.signatureAlgorithm
  signingKeyId := x.signingKeyId
  signingKeyVersion := x.signingKeyVersion
  publicKeyPem := archived.map ResultSigningPublicKey.publicKeyPem

/-- An election has one result, whenever it was signed. -/
theorem latestResult_eq (d : Db) {x : SignedElectionResult} (hx : x ∈ d.results.rows) :
    latestResult (some x.electionId) d.results.rows = some x := by
  rcases hl : (d.results.rows.filter fun r => (some (x.electionId : ℤ)).all fun n =>
    (r.electionId : ℤ) = n).mergeSort fun a b => b.signedAt ≤ a.signedAt with _ | ⟨y, ys⟩
  · have hmem : x ∈ ([] : List SignedElectionResult) := by
      rw [← hl, List.mem_mergeSort]
      exact List.mem_filter.mpr ⟨hx, by simp⟩
    cases hmem
  · have hmem : y ∈ y :: ys := List.mem_cons_self
    rw [← hl, List.mem_mergeSort, List.mem_filter] at hmem
    have hid : y.electionId = x.electionId := by simpa using hmem.2
    obtain rfl : y = x := List.inj_on_of_nodup_map d.ok.results_unique hmem.1 hx hid
    rw [latestResult, hl]
    rfl

/-- The provenance of a local result is checked with a sound key of its archive. -/
theorem checkProvenance_eq_ok {x : SignedElectionResult} {k : ResultSigningPublicKey}
    (halgorithm : k.algorithm = x.signatureAlgorithm)
    (hvalid : validLocalPublicKey L (some k.publicKeyPem) x.signingKeyId = true) :
    checkProvenance L x (some k) = .ok () := by
  obtain ⟨key, hkey⟩ := validLocalPublicKey_iff.mp hvalid
  unfold checkProvenance
  split
  · simp [halgorithm, hkey]
  · rfl

/-- The download of a result whose provenance is checked and whose payload is read. -/
theorem exec_getLatestResults {W : Type} {orc : (q : Query) → W → q.Answer × W} {v : W}
    {x : SignedElectionResult} (hx : x ∈ d.results.rows) {arg : PyStr}
    (harg : int 10 arg = some (x.electionId : ℤ)) {data : Json}
    (hprovenance : checkProvenance L x (d.archivedKey x) = .ok ())
    (hdata : loads L.recursionLimit x.payload = .ok data) :
    ((getLatestResults L none (some arg)).exec orc d v).reply =
      .ok (x.download data (d.archivedKey x)) := by
  have hid : latestElectionId (some arg) = .ok (some (x.electionId : ℤ)) := by
    simp only [latestElectionId, harg]
  have hkey : (archivedKey .voters x).exec orc d v = ⟨d.archivedKey x, d, v, []⟩ := by
    unfold archivedKey Tables.archivedKey
    split <;> rfl
  unfold getLatestResults loadUserFromJwt
  dsimp only
  rw [Prog.exec_pure_bind]
  dsimp only [Option.map_none, Option.getD_none]
  rw [hid]
  dsimp only
  rw [Prog.exec_select_bind, latestResult_eq d hx]
  dsimp only
  rw [Prog.exec_bind, hkey]
  dsimp only
  rw [hprovenance]
  dsimp only
  rw [hdata]
  rfl

/-! ### What is signed is confirmed -/

/-- What publishing relies on: the laws of signing, and that a signature has octets. -/
structure SignerLaws (L : Lib) (R : RsaLib) : Prop extends RsaLaws L R where
  sign_ne_nil : ∀ {key data salt signature}, R.sign key data salt = some signature → signature ≠ []

/-- Two loaded keys, one of them for signing, that differ and have one fingerprint. -/
def FingerprintCollision (L : Lib) (R : RsaLib) : Prop :=
  ∃ file key pem other, R.loadPemPrivateKey file = some (some key) ∧
    L.loadPemPublicKey pem = some (some other) ∧ other ≠ key.publicKey ∧
    fingerprint L other = fingerprint L key.publicKey

/-- A local signature is confirmed with every archived key of its fingerprint. -/
theorem LocallySigned.verifies_archived {C C' : SigningConfig L R} {data salt : Bytes}
    {signed : SigningResult} (h : LocallySigned C data salt signed)
    (halgorithm : signed.signatureAlgorithm = rsaPssSha256) (hlaws : RsaLaws L R) {pem : PyStr}
    (hvalid : validLocalPublicKey L (some pem) signed.signingKeyId = true) :
    C'.verifySignature (.bytes data) (.str signed.signature) (signed.metadata (.str pem)) =
        .ok true ∨ FingerprintCollision L R := by
  obtain ⟨key, octets, hkey, hsign, hsignature, hid, -⟩ := h.key
  obtain ⟨file, hfile⟩ := localPrivateKey_eq_ok hkey
  obtain ⟨other, hother⟩ := validLocalPublicKey_iff.mp hvalid
  obtain ⟨_, hpem, -, -, hload, hsame⟩ := validateLocalPublicKey_eq_ok.mp hother
  cases hpem
  by_cases hne : other = key.publicKey
  swap
  · exact .inr ⟨file, key, _, other, hfile, hload, hne, hsame.trans hid⟩
  left
  have hform : isFingerprint signed.signingKeyId = true := hid ▸ isFingerprint_fingerprint L _
  have hpart : verifyLocal L R data signed.signature signed.signingKeyId .none (.str pem) =
      .ok true := by
    simp [verifyLocal, hform, hsignature, fromHex_bytesHex, hother, hne,
      hlaws.verify_sign hfile hsign]
  have hnil : signed.signingKeyId ≠ [] := by
    intro hnil
    rw [hnil] at hform
    simp [isFingerprint] at hform
  obtain ⟨c, cs, hcons⟩ := List.exists_cons_of_ne_nil hnil
  rw [hcons] at hpart
  simp [SigningConfig.verifySignature, SigningResult.metadata, halgorithm, hcons, h.backend,
    h.version, localRsaBackend_ne, hpart]

/-- What is recorded of a signature goes to the signing service with the archived key. -/
theorem SignedElectionResult.Records.arguments {x : SignedElectionResult} {signed : SigningResult}
    (h : x.Records signed) (k : ResultSigningPublicKey) :
    (x.metadata (some k)).arguments = signed.metadata (.str k.publicKeyPem) := by
  simp only [SignedElectionResult.metadata, h.backend, h.algorithm, h.keyId, h.version,
    Option.map_some]
  rfl

/-- A stored local result: its key is archived, is sound and confirms it, and its signature is the
hex text of some octets. -/
theorem SignedRow.confirmed {x : SignedElectionResult} (h : SignedRow L R d x)
    (hkeys : KeysSound L d) (hlaws : SignerLaws L R) (hlocal : x.signerBackend = localRsaBackend) :
    ∃ k, d.archivedKey x = some k ∧ checkProvenance L x (some k) = .ok () ∧
      (∃ octets, octets ≠ [] ∧ x.signature = bytesHex octets) ∧
      ∀ C : SigningConfig L R, C.verifySignature (.bytes (asciiBytes x.payload)) (.str x.signature)
        (x.metadata (some k)).arguments = .ok true ∨ FingerprintCollision L R := by
  obtain ⟨C₀, salt, signed, hsign, hrecords⟩ := h.signed
  obtain ⟨k₁, hk₁, hid₁⟩ := h.archived hlocal
  obtain ⟨k, hfind⟩ := Option.isSome_iff_exists.mp
    (List.find?_isSome.mpr ⟨k₁, hk₁, by simpa using hid₁⟩ :
      (d.resultKeys.find? fun k => k.keyId = x.signingKeyId).isSome = true)
  have hid : k.keyId = x.signingKeyId := by simpa using List.find?_some hfind
  obtain ⟨halgorithm, hvalid⟩ := hkeys k (List.mem_of_find?_eq_some hfind)
  obtain ⟨_, hdata, hsigned, hhow⟩ := signData_eq_ok hsign
  cases hdata
  have hlocally : LocallySigned C₀ (asciiBytes x.payload) salt signed := by
    rcases hhow with hvault | hlocally
    · exact absurd (hlocal.symm.trans (hrecords.backend.trans hvault.backend)) localRsaBackend_ne
    · exact hlocally
  rw [hid] at hvalid
  refine ⟨k, ?_, checkProvenance_eq_ok ?_ hvalid, ?_, fun C => ?_⟩
  · rw [Tables.archivedKey, if_pos hlocal, hfind]
  · rw [halgorithm, hrecords.algorithm, hsigned]
  · obtain ⟨_, octets, -, hoctets, hsignature, -⟩ := hlocally.key
    exact ⟨octets, hlaws.sign_ne_nil hoctets, hrecords.signature.trans hsignature⟩
  · rw [hrecords.arguments, hrecords.signature]
    rw [hrecords.keyId] at hvalid
    exact hlocally.verifies_archived hsigned hlaws.toRsaLaws hvalid

/-- The archived key of a result stays. -/
theorem Evolves.archivedKey (h : Evolves d d') {x : SignedElectionResult}
    {k : ResultSigningPublicKey} (hk : d.archivedKey x = some k) : d'.archivedKey x = some k := by
  obtain ⟨ks, hks⟩ := h.resultKeys
  unfold Tables.archivedKey at hk ⊢
  split at hk
  next hlocal =>
    rw [if_pos hlocal, ← hks, List.find?_append, hk]
    rfl
  · cases hk

/-- What is published of the stored result `x` of the run: its data, which state the ballots, and its
archived key, with which it is confirmed. -/
structure Publishes (R : RsaLib) (s : Sys (machine L E)) (x : SignedElectionResult)
    (data : List (PyStr × Json)) (k : ResultSigningPublicKey) : Prop where
  states : StatesBallots s x.electionId data
  made : (Json.obj data).Made (PlainLeaf Joined) Joined
  depth : (Json.obj data).depth ≤ 3
  payload : loads L.recursionLimit x.payload = .ok (.obj data)
  text : dumps (.obj data) = x.payload
  key : s.db.archivedKey x = some k
  provenance : checkProvenance L x (some k) = .ok ()
  digits : ∃ octets, octets ≠ [] ∧ x.signature = bytesHex octets
  confirmed : ∀ C : SigningConfig L R, C.verifySignature (.bytes (asciiBytes x.payload))
    (.str x.signature) (x.metadata (some k)).arguments = .ok true ∨ FingerprintCollision L R

theorem bytesHex_ne_nil {octets : Bytes} (h : octets ≠ []) : bytesHex octets ≠ [] := by
  intro hnil
  have hread := fromHex_bytesHex octets
  rw [hnil] at hread
  exact h (Option.some.inj hread).symm

theorem Publishes.signature_ne_nil {x : SignedElectionResult} {data : List (PyStr × Json)}
    {k : ResultSigningPublicKey} (h : Publishes R s x data k) : x.signature ≠ [] := by
  obtain ⟨octets, hne, hsignature⟩ := h.digits
  exact hsignature ▸ bytesHex_ne_nil hne

/-- Every local result of a run of routed requests is published. -/
theorem publishes_of_reach (hserves : Serves L R E) (hlaws : SignerLaws L R)
    (hlimit : 3 ≤ L.recursionLimit) (hd : EmptySchema d) (h : Reach (Sys.init d w) s)
    (hroutes : Routed s) (hst : Storable s.db) {x : SignedElectionResult}
    (hx : x ∈ s.db.results.rows) (hlocal : x.signerBackend = localRsaBackend) :
    ∃ data k, Publishes R s x data k := by
  obtain ⟨e, signedAt, he, -, hpay⟩ :=
    payload_of_result hd (electionCurrent_of_routed h hroutes) x hx
  have heid : e.id = x.electionId := Table.key_of_get? he
  have hmade := hst.made_electionResults (L := L) (votes_sound hd h) (Table.mem_of_get? he) signedAt
  rw [heid] at hmade
  -- the payload is read back in canonical form
  have hloads := loads_dumps hmade ((depth_electionResults _ _ _).trans hlimit)
  rw [← hpay] at hloads
  obtain ⟨data, hdata⟩ : ∃ data, (electionResults e signedAt
      (s.db.tallies L x.electionId)).canonical = .obj data := ⟨_, rfl⟩
  rw [hdata] at hloads
  have hcanonical : (Json.obj data).canonical = (electionResults e signedAt
      (s.db.tallies L x.electionId)).canonical := by
    rw [← hdata, canonical_canonical]
  have hmade' : (Json.obj data).Made (PlainLeaf Joined) Joined := hdata ▸ hmade.canonical
  obtain ⟨hkeys, hrows⟩ := archived_of_reach hserves hd h
  obtain ⟨k, hk, hprovenance, hdigits, hconfirm⟩ := (hrows x hx).confirmed hkeys hlaws hlocal
  have hdepth : (Json.obj data).depth ≤ 3 := hdata ▸ depth_canonical (depth_electionResults _ _ _)
  refine ⟨data, k, ?_, hmade', hdepth, hloads, ?_, hk, hprovenance, hdigits, hconfirm⟩
  · exact statesBallots_of_canonical (readable_of_plain hmade') heid
      (counts_tallies s.db (votes_sound hd h) _) (ballots_counted hd h hroutes he) hcanonical
  · rw [hpay, dumps_eq, dumps_eq, hcanonical]

/-- The body sends data and a signature back, with the keys of the data in some order. -/
def SendsBack (data : List (PyStr × Json)) (signature : PyStr) (body : Option Json) : Prop :=
  ∃ kvs data', body = some (.obj kvs) ∧ getOrNone kvs (py "data") = .obj data' ∧
    (data'.map Prod.fst).Nodup ∧ (Json.obj data').canonical = (Json.obj data).canonical ∧
    getOrNone kvs (py "signature") = .str signature

/-- Data that are sent back are understood, and have the canonical text of what was downloaded. -/
theorem SendsBack.parse {data : List (PyStr × Json)} {signature : PyStr} {body : Option Json}
    (h : SendsBack data signature body) (hsignature : signature ≠ []) {i : ℕ}
    (hid : getOrNone data (py "election_id") = .int i) :
    ∃ data', parseVerification body = .ok (data', (i : ℤ), signature) ∧
      dumps (.obj data') = dumps (.obj data) := by
  obtain ⟨kvs, data', rfl, hdata, hnodup', hcanonical, hsig⟩ := h
  refine ⟨data', ?_, by rw [dumps_eq, dumps_eq, hcanonical]⟩
  have hget : dictGet data' (py "election_id") = some (.int i) := by
    have hvalue := getOrNone_canonical hnodup' hcanonical (py "election_id")
    rw [hid] at hvalue
    have hint := eq_int_of_canonical hvalue
    rw [getOrNone] at hint
    rcases hfound : dictGet data' (py "election_id") with _ | v
    · rw [hfound] at hint
      cases hint
    · rw [hfound] at hint
      exact congrArg some hint
  have hok : verificationData (some (.obj kvs)) = .ok (data', signature) := by
    unfold verificationData
    dsimp only
    rw [hdata, hsig]
    dsimp only
    rw [if_neg (by simpa using hsignature)]
  unfold parseVerification
  rw [hok]
  dsimp only
  unfold verificationElectionId
  rw [hget]
  rfl

/-- Whoever has the data and the signature can write a body that sends them back. -/
theorem Publishes.exists_body {x : SignedElectionResult} {data : List (PyStr × Json)}
    {k : ResultSigningPublicKey} (h : Publishes R s x data k) (hlimit : 4 ≤ L.recursionLimit) :
    ∃ text body, IsScalar text ∧ loads L.recursionLimit text = .ok body ∧
      SendsBack data x.signature (some body) := by
  obtain ⟨octets, -, hsignature⟩ := h.digits
  have hmade : (Json.obj [(py "data", .obj data), (py "signature", .str x.signature)]).Made
      (PlainLeaf Joined) Joined := by
    refine .obj ?_ ?_ ?_
    · simp only [List.map_cons, List.map_nil]
      decide
    · simp only [List.forall_mem_cons, List.not_mem_nil, false_imp_iff, implies_true, and_true]
      exact ⟨joined_of_ascii (by decide), joined_of_ascii (by decide)⟩
    · simp only [List.forall_mem_cons, List.not_mem_nil, false_imp_iff, implies_true, and_true]
      refine ⟨h.made, .str (joined_of_ascii fun c hc => ?_)⟩
      rw [hsignature] at hc
      exact (isPrint_of_mem_bytesHex hc).2
  have hdepth : (Json.obj [(py "data", .obj data), (py "signature", .str x.signature)]).depth ≤ 4 := by
    rw [Json.depth]
    refine Nat.succ_le_succ (depthItems_le.mpr ?_)
    simp only [List.forall_mem_cons, List.not_mem_nil, false_imp_iff, implies_true, and_true]
    exact ⟨h.depth, Nat.zero_le _⟩
  have hread := readable_of_plain hmade.canonical
  obtain ⟨kvs, hkvs⟩ : ∃ kvs, (Json.obj [(py "data", .obj data),
      (py "signature", .str x.signature)]).canonical = .obj kvs := ⟨_, rfl⟩
  have hcanonical := canonical_canonical (Json.obj [(py "data", .obj data),
    (py "signature", .str x.signature)])
  rw [hkvs] at hread
  nth_rewrite 1 [hkvs] at hcanonical
  refine ⟨_, .obj kvs, isScalar_of_isAscii fun c hc => ?_, hkvs ▸ loads_dumps hmade (hdepth.trans hlimit),
    kvs, ?_⟩
  · have hany : Readable (fun _ => True) (Json.obj [(py "data", .obj data),
        (py "signature", .str x.signature)]) :=
      (readable_of_plain hmade).mono (fun v hv => by cases v <;> trivial)
        fun _ _ => trivial
    exact (isPrint_of_mem_dumps hany c hc).2.trans (by norm_num)
  -- the body that is read has the values of the one that was written
  cases hread with
  | obj hnodup hkeys hvalues =>
    have hget := fun n => getOrNone_canonical hnodup hcanonical n
    have hdata : (getOrNone kvs (py "data")).canonical = (Json.obj data).canonical :=
      hget (py "data")
    obtain ⟨data', hdata'⟩ := exists_obj_of_canonical hdata
    rw [hdata'] at hdata
    have hread' := readable_getOrNone (.obj hnodup hkeys hvalues) hdata' (by simp)
    refine ⟨data', rfl, hdata', ?_, hdata, eq_str_of_canonical (hget (py "signature"))⟩
    cases hread' with
    | obj hnodup' _ _ => exact hnodup'

/-! ### An election with a local signer -/

instance (d : Db) : Decidable (Storable d) :=
  decidable_of_iff
    ((∀ e ∈ d.elections.rows, e.id < 2 ^ 63 ∧ IsScalar e.name) ∧
      (∀ c ∈ d.candidates.rows, c.id < 2 ^ 63 ∧ c.regionId < 2 ^ 63 ∧ IsScalar c.name ∧
        IsScalar c.position) ∧
      (∀ x ∈ d.regions.rows, IsScalar x.name) ∧ d.votes.rows.length < 2 ^ 63)
    ⟨fun ⟨h₁, h₂, h₃, h₄⟩ => ⟨h₁, h₂, h₃, h₄⟩, fun ⟨h₁, h₂, h₃, h₄⟩ => ⟨h₁, h₂, h₃, h₄⟩⟩

namespace Sample

/-- The payload of the sample election. -/
def tallyText : PyStr :=
  py "\x7b\"election_id\":1,\"election_name\":\"Council\",\"results\":[\x7b\"candidate_id\":1," ++
    py "\"name\":\"Ada\",\"position\":\"Mayor\",\"region\":\"North\",\"region_id\":1,\"votes\":1\x7d]," ++
    py "\"signed_at\":\"2023-11-14T22:14:20+00:00\",\"total_votes\":1\x7d"

/-- The signature of this payload under the salt of zeros. -/
def tallySignature : PssSignature where
  key := keyPair.privateKey
  data := asciiBytes tallyText
  salt := List.replicate 222 0
  signature := bigEndian 256 (ofWords
    [0x2978b7287f0c8d9e, 0xc2e0fdbffd5fb536, 0xd4845bc91b7ca318, 0x0f387cfcf40fd014,
      0x485c5100a9b8c4bb, 0x6f4d7382147a364a, 0x819c89fe0efa2de5, 0x09ef66c34b68f706,
      0xf77501447c6bfef5, 0xa38f28c50f80c8db, 0x274bc412fe3b57da, 0x416572ac4650de1f,
      0x92248d688fd482e8, 0x9513ab2cc1f5e13e, 0xe9dde6b80963e04c, 0x801fc01355f33985,
      0x554ffce378135810, 0x85e20ec44ecd9ea0, 0xbca43fe486b55292, 0x1ba2a1aaf1d9c59e,
      0x6e02a48446abc5f4, 0x8793900e93d9b464, 0x771173d45e34a24d, 0x054ab4e41ddfba39,
      0x402e6dc3a9865077, 0x418467c84294d9c5, 0x0c3fe63d8b355046, 0x94a00960ac609370,
      0xef92702efe2b81cf, 0x232ce8250c130142, 0x763d723c4d4bee1e, 0x6fbddafc49abb320])

/-- The signature of data: the one of the payload, and a mark before all other data. -/
def signatureOf (data : Bytes) : Bytes :=
  if data = tallySignature.data then tallySignature.signature else 0 :: data

/-- RSA with the key files of the deployment. -/
def publishingRsa : RsaLib :=
  { rsaLib [tallySignature] with
    sign := fun _ data _ => some (signatureOf data)
    verify := fun key data signature =>
      key = keyPair.publicKey ∧ signature = signatureOf data }

theorem publishingRsa_privatePem :
    publishingRsa.loadPemPrivateKey (asciiBytes privatePem) = some (some keyPair.privateKey) := by
  simp only [publishingRsa, rsaLib, if_true]

theorem loadPemPrivateKey_publishingRsa {text : Bytes} {key : PrivateKey}
    (h : publishingRsa.loadPemPrivateKey text = some (some key)) : key = keyPair.privateKey := by
  have hload : (if text = asciiBytes privatePem then some (some keyPair.privateKey) else none) =
      some (some key) := h
  split at hload
  · cases hload
    rfl
  · cases hload

theorem loadPemPublicKey_signingLib {pem : Bytes} {key : PublicKey}
    (h : signingLib.loadPemPublicKey pem = some (some key)) : key = keyPair.publicKey := by
  have hload : (if pem = asciiBytes (publicPem keyPair.publicKey) then
      some (some keyPair.publicKey) else none) = some (some key) := h
  split at hload
  · cases hload
    rfl
  · cases hload

theorem rsaLaws_tallySignature : RsaLaws signingLib (rsaLib [tallySignature]) :=
  rsaLaws

/-- The laws of publishing hold for the key of the deployment. -/
theorem signerLaws : SignerLaws signingLib publishingRsa where
  verify_sign {pem key data salt signature} hload hsign := by
    cases hsign
    rw [loadPemPrivateKey_publishingRsa hload]
    exact decide_eq_true ⟨rfl, rfl⟩
  loadPem {pem key} hload := rsaLaws_tallySignature.loadPem hload
  pem_text {pem key} hload := rsaLaws_tallySignature.pem_text hload
  sign_ne_nil {key data salt signature} hsign := by
    cases hsign
    unfold signatureOf
    split
    · exact List.cons_ne_nil _ _
    · exact List.cons_ne_nil _ _

/-- The deployment has one key. -/
theorem not_fingerprintCollision : ¬FingerprintCollision signingLib publishingRsa := by
  rintro ⟨file, key, pem, other, hfile, hpem, hne, -⟩
  refine hne ?_
  rw [loadPemPrivateKey_publishingRsa hfile, loadPemPublicKey_signingLib hpem]
  rfl

theorem fingerprint_keyPair : fingerprint signingLib keyPair.privateKey.publicKey =
    fingerprint signingLib keyPair.publicKey :=
  rfl

/-- The process that serves the election, without Vault and with the key pair of the deployment. -/
def publisher : SigningConfig signingLib publishingRsa where
  environ := ⟨none, none, none, none, none, none, none, false⟩
  server := ⟨fun _ _ _ _ _ => none, fun _ _ _ _ _ => none⟩
  keyName := py "results-signing"
  keys := some ⟨keyPair.privateKey, keyPair.publicKey,
    ⟨asciiBytes privatePem, publishingRsa_privatePem⟩, fingerprint_keyPair⟩
  privatePem := some (asciiBytes privatePem)
  publicPem := some (asciiBytes (publicPem keyPair.publicKey))

/-- How calls are answered: the ones of the signing service by this process. -/
def publishedAnswer : (q : Query) → q.Answer
  | .signData data => (publisher.signData (.bytes data) tallySignature.salt).toOption
  | .verifySignature data signature m =>
      (publisher.verifySignature (.bytes data) (.str signature) m.arguments).toOption
  | .now => answer .now
  | .tokenHex => answer .tokenHex
  | .passwordHash password => answer (.passwordHash password)
  | .loadKeys i => answer (.loadKeys i)
  | .generateKeypair i => answer (.generateKeypair i)
  | .connect => answer .connect

/-- The answers as an oracle for schedules. -/
def publishedOracle (q : Query) (_ : Unit) : q.Answer × Unit := (publishedAnswer q, ())

/-- The environment with the signing service. -/
def publishingEnvironment : Environment where
  World := Unit
  answer _ _ q a _ := a = publishedAnswer q
  drift _ _ := True
  cached _ _ _ := some keyPair
  load_cached h := by cases h; rfl
  answer_cached _ h := h
  drift_cached _ h := h

theorem publishedOracle_sound (wk : ℕ) (w : Unit) (q : Query) :
    publishingEnvironment.answer wk w q (publishedOracle q w).1 (publishedOracle q w).2 := rfl

theorem serves : Serves signingLib publishingRsa publishingEnvironment where
  sign {wk w data signed w'} h := by
    have hsign : some signed =
        (publisher.signData (.bytes data) tallySignature.salt).toOption := h
    refine ⟨publisher, tallySignature.salt, ?_⟩
    rcases hdata : publisher.signData (.bytes data) tallySignature.salt with e | signed'
    · rw [hdata] at hsign
      cases hsign
    · rw [hdata] at hsign
      cases hsign
      rfl
  verify h := ⟨publisher, h⟩

/-- The run of one election, whose result is signed by the process. -/
def publishedRun : Sys (machine signingLib publishingEnvironment) :=
  (Sys.init db ()).runs (fun _ _ => True) publishedOracle (inOrder 0 electionRequests)

theorem publishedRun_sound :
    ReachIf (Asked (fun _ _ => True) (· ∈ electionRequests)) (Sys.init db ()) publishedRun ∧
      ∀ t ∈ publishedRun.threads, t.request ∈ electionRequests :=
  Sys.runs_sound publishedOracle_sound (fun _ => trivial) (fun t ht => by cases ht) fun r hr => by
    simpa [inOrder, electionRequests, Turn.requests] using hr

theorem routed_publishedRun : Routed publishedRun := by
  intro t ht
  have hmem := publishedRun_sound.2 t ht
  simp only [electionRequests, List.mem_cons, List.not_mem_nil, or_false] at hmem
  rcases hmem with h | h | h | h | h | h | h
  all_goals rw [h]; rfl

/-- The run ends with a local result, and no request is being served. -/
theorem publishedRun_facts : Storable publishedRun.db ∧
    publishedRun.db.results.rows.map SignedElectionResult.signerBackend = [localRsaBackend] ∧
    publishedRun.db.results.rows.map SignedElectionResult.electionId = [1] ∧
    publishedRun.threads.all fun t => t.loc?.isNone := by
  decide +kernel

/-- The result of the run is published. -/
theorem exists_publishes : ∃ x data k, x ∈ publishedRun.db.results.rows ∧ x.electionId = 1 ∧
    x.signerBackend = localRsaBackend ∧ Publishes publishingRsa publishedRun x data k := by
  obtain ⟨hst, hlocal, hids, -⟩ := publishedRun_facts
  obtain ⟨x, hx, hid⟩ := List.mem_map.mp (hids ▸ List.mem_cons_self :
    1 ∈ publishedRun.db.results.rows.map SignedElectionResult.electionId)
  have hbackend : x.signerBackend = localRsaBackend := by
    have hmem := List.mem_map_of_mem (f := SignedElectionResult.signerBackend) hx
    rw [hlocal] at hmem
    exact List.mem_singleton.mp hmem
  obtain ⟨data, k, hpub⟩ := publishes_of_reach serves signerLaws (by decide) emptySchema_sample
    publishedRun_sound.1.reach routed_publishedRun hst hx hbackend
  exact ⟨x, data, k, hx, hid, hbackend, hpub⟩

end Sample

/-! ### Main results -/

/-- **What is signed is confirmed.** In every run of routed requests the result that the local key
has signed is downloaded by anyone at any later time, with data that state the ballots of the run,
and every later request that sends these data back with the signature is answered with `True`, unless
the session of the requester has expired or two loaded keys have one fingerprint. -/
theorem published_results_verify (hserves : Serves L R E) (hlaws : SignerLaws L R)
    (hlimit : 3 ≤ L.recursionLimit) (hd : EmptySchema d) (h₀ : Reach (Sys.init d w) s₀)
    (hroutes : Routed s₀) (hst : Storable s₀.db) {x : SignedElectionResult}
    (hx : x ∈ s₀.db.results.rows) (hlocal : x.signerBackend = localRsaBackend) :
    ∃ data k, StatesBallots s₀ x.electionId data ∧ ∀ s, Reach s₀ s →
      (∀ {W : Type} (orc : (q : Query) → W → q.Answer × W) v arg,
        int 10 arg = some (x.electionId : ℤ) →
          ((getLatestResults L none (some arg)).exec orc s.db v).reply =
            .ok (x.download (.obj data) (some k))) ∧
      ∀ i t cookie body a, s₀.threads.length ≤ i → s.threads[i]? = some t →
        t.request = .verifyElectionResults cookie body → SendsBack data x.signature body →
          t.status = .finished a →
            a = .verified true ∨ a = passwordExpired ∨ FingerprintCollision L R := by
  obtain ⟨data, k, hpub⟩ := publishes_of_reach hserves hlaws hlimit hd h₀ hroutes hst hx hlocal
  have hlater : ∀ d d', Evolves d d' → x ∈ d.results.rows ∧ d.archivedKey x = some k →
      x ∈ d'.results.rows ∧ d'.archivedKey x = some k := fun d d' hev h =>
    ⟨hev.results.subset h.1, hev.archivedKey h.2⟩
  refine ⟨data, k, hpub.states, fun s h => ⟨fun orc v arg harg => ?_,
    fun i t cookie body a hlate ht hr hback ha => ?_⟩⟩
  · obtain ⟨hxs, hks⟩ := hlater _ _ (evolves_of_reach h₀ h) ⟨hx, hpub.key⟩
    rw [exec_getLatestResults hxs harg (by rw [hks]; exact hpub.provenance) hpub.payload, hks]
  obtain ⟨data', hparse, hsame⟩ := hback.parse hpub.signature_ne_nil hpub.states.election
  rcases replies_of_reach hserves hlater h₀ ⟨hx, hpub.key⟩ h hlate ht hr ha with
    hexpired | herror | ⟨data₁, electionId, signature, d₀, hparse₁, ⟨hx₀, hk₀⟩, -, hreply⟩
  · exact .inr (.inl hexpired)
  · rw [hparse] at herror
    cases herror
  rw [hparse] at hparse₁
  cases hparse₁
  rw [hsame, hpub.text] at hreply
  have huniq : ∀ {y}, y ∈ d₀.results.rows → (y.electionId : ℤ) = x.electionId → y = x :=
    fun hy hid => List.inj_on_of_nodup_map d₀.ok.results_unique hy hx₀ (by exact_mod_cast hid)
  cases hreply with
  | unknown hno => exact absurd rfl (hno x hx₀)
  | different hy hid hdiff =>
    obtain rfl := huniq hy hid
    simp at hdiff
  | unavailable C hy hid herror =>
    obtain rfl := huniq hy hid
    rw [hk₀] at herror
    rcases hpub.confirmed C with htrue | hcollision
    · rw [htrue] at herror
      cases herror
    · exact .inr (.inr hcollision)
  | answered C hy hid _ _ hanswer =>
    obtain rfl := huniq hy hid
    rw [hk₀] at hanswer
    rcases hpub.confirmed C with htrue | hcollision
    · rw [htrue] at hanswer
      cases hanswer
      exact .inl rfl
    · exact .inr (.inr hcollision)

/-- The result of the sample election is downloaded with the one ballot that was cast. -/
theorem published_results_verify_publishedRun : ∃ x data k,
    x ∈ Sample.publishedRun.db.results.rows ∧ StatesBallots Sample.publishedRun 1 data ∧
    ((getLatestResults Sample.signingLib none (some (py "1"))).exec Sample.publishedOracle
      Sample.publishedRun.db ()).reply = .ok (x.download (.obj data) (some k)) := by
  obtain ⟨x, -, -, hx, hid, hlocal, -⟩ := Sample.exists_publishes
  obtain ⟨data, k, hstates, hlater⟩ := published_results_verify Sample.serves Sample.signerLaws
    (by decide) emptySchema_sample Sample.publishedRun_sound.1.reach Sample.routed_publishedRun
    Sample.publishedRun_facts.1 hx hlocal
  rw [hid] at hstates
  refine ⟨x, data, k, hx, hstates, (hlater _ .refl).1 _ () (py "1") ?_⟩
  rw [hid]
  decide

/-- **What is confirmed states the ballots that were cast.** In every run of routed requests, when a
request to verify some JSON text is answered with `True`, its signature is the one that is stored for
a closed election, the signing service has confirmed it, and the data, in whatever order their keys
come, state for each candidate of the election and in all the number of ballots that the run has
committed. -/
theorem verified_counts (hserves : Serves L R E) (hd : EmptySchema d)
    (h : Reach (Sys.init d w) s) (hroutes : Routed s) (hst : Storable s.db) {i : ℕ}
    {t : Thread (machine L E)} {cookie : Option PyStr} {text : PyStr} {body : Json}
    (ht : s.threads[i]? = some t) (htext : IsScalar text)
    (hbody : loads L.recursionLimit text = .ok body)
    (hr : t.request = .verifyElectionResults cookie (some body))
    (ha : t.status = .finished (.verified true)) :
    ∃ kvs data, body = .obj kvs ∧ getOrNone kvs (py "data") = .obj data ∧
      ∃ x ∈ s.db.results.rows, getOrNone kvs (py "signature") = .str x.signature ∧
        Confirmed L R s.db x ∧
        (∃ e, s.db.elections.get? x.electionId = some e ∧ e.status = .closed) ∧
        StatesBallots s x.electionId data := by
  have hreplies := replies_of_reach hserves (φ := fun _ => True) (fun _ _ _ _ => trivial) .refl
    trivial h (Nat.zero_le i) ht hr ha
  rcases hreplies with hexpired | herror | ⟨data, electionId, signature, d₀, hparse, -, hev, hreply⟩
  · cases hexpired
  · rcases error_of_parseVerification herror with ⟨_, h⟩ | ⟨_, h⟩ <;> cases h
  obtain ⟨kvs, hkvs, hdata, hsignature⟩ :=
    verificationData_eq_ok (verificationData_of_parse hparse)
  cases hkvs
  cases hreply with
  | @answered x _ C hx hid hpayload hsame hverify =>
  have hx' : x ∈ s.db.results.rows := hev.results.subset hx
  subst hsame
  obtain ⟨e, signedAt, he, hclosed, hpay⟩ :=
    payload_of_result hd (electionCurrent_of_routed h hroutes) x hx'
  have hvotes := votes_sound hd h
  have heid : e.id = x.electionId := Table.key_of_get? he
  -- the data have the canonical text of the tally, so they have its canonical value
  have hread : Readable Joined (.obj data) :=
    readable_getOrNone (readable_of_loads htext hbody) hdata (by simp)
  have hmade := hst.made_electionResults (L := L) hvotes (Table.mem_of_get? he) signedAt
  rw [heid] at hmade
  have hcanonical := dumps_inj hread hmade (hpayload.symm.trans hpay)
  refine ⟨kvs, data, rfl, hdata, x, hx', hsignature, ⟨C, d₀.archivedKey x, fun key hkey => ?_, ?_⟩,
    ⟨e, he, hclosed⟩, ?_⟩
  · exact hev.resultKeys.subset (Tables.archivedKey_mem hkey)
  · rw [hpayload]
    exact hverify
  · exact statesBallots_of_canonical hread heid (counts_tallies s.db hvotes _)
      (ballots_counted hd h hroutes he) hcanonical

/-- A verification that runs alone, of the data and the signature of a stored result. -/
theorem exec_verifyElectionResults {W : Type} {orc : (q : Query) → W → q.Answer × W} {v : W}
    {x : SignedElectionResult} (hx : x ∈ d.results.rows) {body : Option Json}
    {data : List (PyStr × Json)}
    (hparse : parseVerification body = .ok (data, (x.electionId : ℤ), x.signature))
    (htext : dumps (.obj data) = x.payload)
    (hanswer : ∀ v, (orc (.verifySignature (asciiBytes x.payload) x.signature
      (x.metadata (d.archivedKey x))) v).1 = some true) :
    ∃ v', (verifyElectionResults L none body).exec orc d v = ⟨.verified true, d, v', []⟩ := by
  have hfind : (d.results.rows.find? fun r => (r.electionId : ℤ) = x.electionId) = some x := by
    obtain ⟨y, hy⟩ := Option.isSome_iff_exists.mp (List.find?_isSome.mpr ⟨x, hx, by simp⟩ :
      (d.results.rows.find? fun r => (r.electionId : ℤ) = x.electionId).isSome = true)
    have hid : y.electionId = x.electionId := by simpa using List.find?_some hy
    rw [hy, List.inj_on_of_nodup_map d.ok.results_unique (List.mem_of_find?_eq_some hy) hx hid]
  have hkey : (archivedKey .voters x).exec orc d v = ⟨d.archivedKey x, d, v, []⟩ := by
    unfold archivedKey Tables.archivedKey
    split <;> rfl
  rw [verifyElectionResults_eq]
  unfold loadUserFromJwt verifyStored
  dsimp only
  rw [Prog.exec_pure_bind]
  dsimp only [Option.map_none, Option.getD_none]
  rw [hparse]
  dsimp only
  rw [Prog.exec_select_bind, hfind]
  dsimp only
  rw [if_neg (by simp [htext]), Prog.exec_bind, hkey]
  dsimp only
  rw [Prog.exec_call_bind]
  have hcall := hanswer v
  rw [← htext] at hcall
  unfold SignedElectionResult.metadata at hcall
  rw [hcall]
  exact ⟨_, rfl⟩

/-- A quiet system confirms what it has published. -/
theorem exists_reach_verified (hserves : Serves L R E) {orc : (q : Query) → E.World → q.Answer × E.World}
    (horc : ∀ wk w q, E.answer wk w q (orc q w).1 (orc q w).2)
    (hquiet : ∀ j t p l, ¬s.Runs j t p l) {x : SignedElectionResult} (hx : x ∈ s.db.results.rows)
    {data : List (PyStr × Json)} {k : ResultSigningPublicKey} (hpub : Publishes R s x data k)
    (hcollision : ¬FingerprintCollision L R) {body : Option Json}
    (hback : SendsBack data x.signature body) :
    ∃ s', Reach s s' ∧ s'.threads[s.threads.length]? =
        some ⟨.verifyElectionResults none body, 0, .finished (.verified true)⟩ ∧
      s'.db = s.db ∧ s'.threads.map Thread.request =
        s.threads.map Thread.request ++ [.verifyElectionResults none body] := by
  obtain ⟨data', hparse, hsame⟩ := hback.parse hpub.signature_ne_nil hpub.states.election
  obtain ⟨v, hexec⟩ : ∃ v, (handle L (.verifyElectionResults none body)).exec orc s.db s.world =
      ⟨.verified true, s.db, v, []⟩ := by
    refine exec_verifyElectionResults hx hparse (hsame.trans hpub.text) fun v => ?_
    obtain ⟨C, hanswer⟩ := hserves.verify (horc 0 v (.verifySignature (asciiBytes x.payload)
      x.signature (x.metadata (s.db.archivedKey x))))
    rw [hanswer, hpub.key]
    rcases hpub.confirmed C with hconfirmed | h
    · rw [hconfirmed]
      rfl
    · exact absurd h hcollision
  obtain ⟨s', hreach, ht, hdb, hrequests⟩ := exists_reach_served horc hquiet
    (.verifyElectionResults none body) 0
  refine ⟨s', hreach, ?_, ?_, hrequests⟩
  · rw [ht]
    exact congrArg (fun o => some (⟨_, 0, .finished (Outcome.reply o)⟩ : Thread _)) hexec
  · rw [hdb]
    exact congrArg Outcome.db hexec

/-- After the sample election a client sends the data and the signature back, and they are confirmed
with the one ballot that was cast. -/
theorem verified_counts_publishedRun : ∃ (s : Sys (machine Sample.signingLib
      Sample.publishingEnvironment)) (t : Thread (machine Sample.signingLib
      Sample.publishingEnvironment)) (kvs data : List (PyStr × Json)),
    t ∈ s.threads ∧ t.request = .verifyElectionResults none (some (.obj kvs)) ∧
      t.status = .finished (.verified true) ∧ getOrNone kvs (py "data") = .obj data ∧
      StatesBallots s 1 data := by
  obtain ⟨x, data, k, hx, hid, hlocal, hpub⟩ := Sample.exists_publishes
  obtain ⟨hst, -, hids, hidle⟩ := Sample.publishedRun_facts
  obtain ⟨text, body, htext, hbody, hback⟩ := hpub.exists_body (by decide)
  have hquiet : ∀ j t p l, ¬Sample.publishedRun.Runs j t p l := by
    rintro j t p l ⟨ht, hst⟩
    have hnone := List.all_eq_true.mp hidle t (List.mem_of_getElem? ht)
    rw [Thread.loc?, hst] at hnone
    cases hnone
  obtain ⟨s, hreach, ht, hdb, hrequests⟩ := exists_reach_verified Sample.serves
    Sample.publishedOracle_sound hquiet hx hpub Sample.not_fingerprintCollision hback
  have hroutes : Routed s := by
    intro t ht
    have hmem : t.request ∈ s.threads.map Thread.request := List.mem_map_of_mem ht
    rw [hrequests, List.mem_append, List.mem_singleton] at hmem
    rcases hmem with hmem | hnew
    · obtain ⟨u, hu, hreq⟩ := List.mem_map.mp hmem
      exact hreq ▸ Sample.routed_publishedRun u hu
    · rw [hnew]
      rfl
  have hst' : Storable s.db := by
    rw [hdb]
    exact hst
  obtain ⟨kvs, data₁, rfl, hdata, y, hy, -, -, -, hstates⟩ := verified_counts Sample.serves
    emptySchema_sample (Sample.publishedRun_sound.1.reach.trans hreach) hroutes hst' ht htext
    hbody rfl rfl
  have hyid : y.electionId = 1 := by
    have hmem := List.mem_map_of_mem (f := SignedElectionResult.electionId) hy
    rw [hdb, hids] at hmem
    exact List.mem_singleton.mp hmem
  exact ⟨s, _, kvs, data₁, List.mem_of_getElem? ht, rfl, rfl, hdata, hyid ▸ hstates⟩

end SecureVote
