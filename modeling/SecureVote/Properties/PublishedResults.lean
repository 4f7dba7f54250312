import SecureVote.Verified.AuditLog
import SecureVote.Verified.SignedResults
import SecureVote.Properties.SignedResults
import SecureVote.Properties.Provenance

/-!
# Stored results

What a stored result is in every state of a run: the canonical JSON text of the tally of its
election (`payload_of_result`), signed by the signing service, and for a local signature with the
key in the archive (`archived_of_reach`).
-/

open Txn Txn.Rules

namespace SecureVote

open Py

variable {L : Lib} {R : RsaLib} {E : Environment} {r : Request} {l : Loc} {d d' : Db} {w : E.World}
  {s s' : Sys (machine L E)} {b : Label}

/-! ### Names of elections -/

/-- A commit keeps the name of an election. -/
theorem Act.election_name (h : Act L r l d d') {i : ℕ} {e e' : Election}
    (he : d.elections.get? i = some e) (he' : d'.elections.get? i = some e') : e'.name = e.name := by
  have hsame : ∀ e₁, d.elections.get? i = some e₁ → e₁ = e := fun e₁ h₁ =>
    Option.some.inj (h₁.symm.trans he)
  rcases h.elections_cases with heq | h
  · rw [heq] at he'
    rw [hsame e' he']
  cases h with
  | create h =>
    obtain ⟨_, _, _, _, ha⟩ := h.after
    rw [show d'.elections = _ from (congrArg Tables.elections ha :)] at he'
    rcases Table.get?_insert_eq_some he' with he' | ⟨rfl, -⟩
    · rw [hsame e' he']
    · have hlt := d.elections.fresh e (Table.mem_of_get? he)
      rw [Table.key_of_get? he] at hlt
      exact absurd hlt (lt_irrefl _)
  | «open» h =>
    obtain ⟨_, ha⟩ := h.after
    rw [show d'.elections = _ from (congrArg Tables.elections ha :)] at he'
    simp only [markOpen] at he'
    obtain ⟨e₁, he₁, rfl⟩ := get?_update_election he'
    rw [hsame e₁ he₁]
    split <;> rfl
  | close h =>
    obtain ⟨_, ha⟩ := h.after
    rw [show d'.elections = _ from (congrArg Tables.elections ha :)] at he'
    simp only [markClosed] at he'
    obtain ⟨e₁, he₁, rfl⟩ := get?_update_election he'
    rw [hsame e₁ he₁]
    split <;> rfl
  | anchor h =>
    rw [show d'.elections = _ from (congrArg Tables.elections h.after :)] at he'
    rcases get?_anchorElections _ d.toTables i with ⟨e₁, he₁, key, hkey, -⟩ | ⟨-, hn⟩
    · rw [hkey] at he'
      cases he'
      rw [hsame e₁ he₁]
    · rw [hn] at he'
      cases he'

/-! ### The payload of a result -/

/-- The payload is the tally of the election in this state, and the election is closed. -/
def PayloadIn (L : Lib) (d : Db) (x : SignedElectionResult) : Prop :=
  ∃ e signedAt, d.elections.get? x.electionId = some e ∧ e.status = .closed ∧
    x.payload = dumps (electionResults e signedAt (d.tallies L x.electionId))

/-- Only the id and the name of an election go into its results. -/
theorem electionResults_congr {e e' : Election} (hid : e'.id = e.id) (hname : e'.name = e.name)
    (signedAt : Time) (rows : List Tally) :
    electionResults e' signedAt rows = electionResults e signedAt rows := by
  rw [electionResults, electionResults, hid, hname]

/-- A step keeps the payloads true. -/
theorem PayloadIn.step (hd : EmptySchema d) (h : Reach (Sys.init d w) s)
    (hcur : ElectionCurrent s b) (hs : Step (machine L E) b s s') {x : SignedElectionResult}
    (hx : PayloadIn L s.db x) : PayloadIn L s'.db x := by
  obtain ⟨e, signedAt, he, hclosed, hpay⟩ := hx
  obtain ⟨htallies, e', he', hclosed'⟩ :=
    tallies_of_closed hd h (.single ⟨b, hs, hcur⟩) he hclosed
  refine ⟨e', signedAt, he', hclosed', ?_⟩
  have hname : e'.name = e.name := by
    rcases act_of_step h hs with ⟨heq, -⟩ | ⟨_, _, _, _, -, -, -, hact, -⟩
    · rw [heq, he] at he'
      rw [Option.some.inj he']
    · exact hact.election_name he he'
  have hid : e'.id = e.id := (Table.key_of_get? he').trans (Table.key_of_get? he).symm
  rw [htallies, electionResults_congr hid hname]
  exact hpay

/-- A commit keeps the signed results, or appends one with the tally as its payload. -/
theorem Act.results_payload (h : Act L r l d d') :
    d'.results.rows = d.results.rows ∨
      ∃ x, d'.results.rows = d.results.rows ++ [x] ∧ PayloadIn L d' x := by
  rcases h.results_cases with heq | ⟨x, hrows, -⟩
  · exact .inl heq
  cases h with
  | @sign e h =>
    obtain ⟨key, signed, signedAt, signer, ha⟩ := h.after
    refine .inr ⟨_, (congrArg (·.results.rows) ha :), _, signedAt, ?_, h.closed, ?_⟩
    · rw [show d'.elections = d.elections from (congrArg Tables.elections ha :)]
      exact h.election.row
    · have htallies : d'.tallies L e.id = d.tallies L e.id :=
        tallies_congr (congrArg (Tables.roster · e.id) ha :) (congrArg (Tables.votesFor · e.id) ha :)
          (congrArg Tables.regions ha :)
      rw [htallies]
  | token h => exact .inl (congrArg (·.results.rows) h.after :)
  | ballot h =>
    obtain ⟨_, _, _, ha⟩ := h.after
    exact .inl (congrArg (·.results.rows) ha :)
  | vote h =>
    obtain ⟨_, _, _, ha⟩ := h.after
    exact .inl (congrArg (·.results.rows) ha :)
  | election h =>
    obtain ⟨_, ha⟩ := h.only
    exact .inl (congrArg (·.results.rows) ha :)
  | candidate h =>
    obtain ⟨-, -, ⟨_, _, ha⟩, -⟩ := h.only
    exact .inl (congrArg (·.results.rows) ha :)
  | account h =>
    obtain ⟨_, _, ha, -⟩ := h.only
    exact .inl (congrArg (·.results.rows) ha :)

/-- The payload of every stored result is the tally of its election. -/
theorem payload_of_result (hd : EmptySchema d) (h : ReachIf ElectionCurrent (Sys.init d w) s) :
    ∀ x ∈ s.db.results.rows, PayloadIn L s.db x := by
  induction h with
  | refl =>
    intro x hx
    rw [show (Sys.init d w : Sys (machine L E)).db.results.rows = [] from hd.results] at hx
    cases hx
  | tail hr hstep ih =>
    obtain ⟨b, hb, hcur⟩ := hstep
    have hreach := ReachIf.reach hr
    intro x hx
    rcases act_of_step hreach hb with ⟨heq, -⟩ | ⟨_, _, _, _, -, -, -, hact, -⟩
    · exact (ih x (heq ▸ hx)).step hd hreach hcur hb
    · rcases hact.results_payload with hrows | ⟨y, hrows, hy⟩
      · exact (ih x (hrows ▸ hx)).step hd hreach hcur hb
      · rw [hrows] at hx
        rcases List.mem_append.mp hx with hx | hx
        · exact (ih x hx).step hd hreach hcur hb
        · rw [List.mem_singleton.mp hx]
          exact hy

/-! ### The payload as JSON -/

/-- What the columns of the database hold: text of scalar values, and integers of 63 bits, also for
the number of rows. -/
structure Storable (d : Db) : Prop where
  elections : ∀ e ∈ d.elections.rows, e.id < 2 ^ 63 ∧ IsScalar e.name
  candidates : ∀ c ∈ d.candidates.rows, c.id < 2 ^ 63 ∧ c.regionId < 2 ^ 63 ∧ IsScalar c.name ∧
    IsScalar c.position
  regions : ∀ x ∈ d.regions.rows, IsScalar x.name
  votes : d.votes.rows.length < 2 ^ 63

/-- An integer of 63 bits is short enough to be read. -/
theorem length_natRepr_le {n : ℕ} (h : n < 2 ^ 63) : (natRepr 10 n).length ≤ maxStrDigits := by
  have hpow : n < 10 ^ maxStrDigits := calc
    n < 10 ^ 19 := h.trans (by norm_num)
    _ ≤ 10 ^ maxStrDigits := Nat.pow_le_pow_right (by norm_num) (by decide)
  rw [natRepr]
  split
  · decide
  · rw [List.length_map, List.length_reverse]
    exact (Nat.digits_length_le_iff (by norm_num) n).mpr hpow

theorem plainLeaf_natCast {n : ℕ} (h : n < 2 ^ 63) : PlainLeaf Joined (.int n) :=
  length_natRepr_le h

/-- A text of scalar values is a leaf that is read back. -/
theorem made_str {t : PyStr} (h : IsScalar t) : (Json.str t).Made (PlainLeaf Joined) Joined :=
  .str h.joined

theorem made_natCast {n : ℕ} (h : n < 2 ^ 63) : (Json.int n).Made (PlainLeaf Joined) Joined :=
  .int (plainLeaf_natCast h)

theorem joined_of_ascii {t : PyStr} (h : ∀ c ∈ t, c < 0x80) : Joined t :=
  (isScalar_of_isAscii h).joined

/-- A tally row of a storable state is read back. -/
theorem Storable.made_tally (h : Storable d) {i : ℕ} {row : Tally} (hrow : row ∈ d.tallies L i) :
    row.toJson.Made (PlainLeaf Joined) Joined := by
  obtain ⟨c, hc, htally⟩ := List.mem_filterMap.mp (List.mem_mergeSort.mp hrow)
  obtain ⟨region, hregion, rfl⟩ := Option.map_eq_some_iff.mp htally
  obtain ⟨hid, hregionId, hname, hposition⟩ := h.candidates c (mem_roster.mp hc).1
  have hcount : d.voteCount c < 2 ^ 63 := List.countP_le_length.trans_lt h.votes
  refine .obj ?_ ?_ ?_
  · simp only [List.map_cons, List.map_nil]
    decide
  · simp only [List.forall_mem_cons, List.not_mem_nil, false_imp_iff, implies_true, and_true]
    refine ⟨?_, ?_, ?_, ?_, ?_, ?_⟩ <;> exact joined_of_ascii (by decide)
  · simp only [List.forall_mem_cons, List.not_mem_nil, false_imp_iff, implies_true, and_true]
    exact ⟨made_natCast hid, made_str hname, made_str hposition, made_natCast hregionId,
      made_str (h.regions region (Table.mem_of_get? hregion)), made_natCast hcount⟩

/-- The results of an election of a storable state are read back. -/
theorem Storable.made_electionResults (h : Storable d) (hv : ∀ v ∈ d.votes.rows, VoteSound d v)
    {e : Election} (he : e ∈ d.elections.rows) (signedAt : Time) :
    (electionResults e signedAt (d.tallies L e.id)).Made (PlainLeaf Joined) Joined := by
  obtain ⟨hid, hname⟩ := h.elections e he
  have htotal : ((d.tallies L e.id).map Tally.votes).sum < 2 ^ 63 := by
    rw [(counts_tallies d hv e.id).total]
    exact (List.length_filter_le _ _).trans_lt h.votes
  refine .obj ?_ ?_ ?_
  · simp only [List.map_cons, List.map_nil]
    decide
  · simp only [List.forall_mem_cons, List.not_mem_nil, false_imp_iff, implies_true, and_true]
    refine ⟨?_, ?_, ?_, ?_, ?_⟩ <;> exact joined_of_ascii (by decide)
  · simp only [List.forall_mem_cons, List.not_mem_nil, false_imp_iff, implies_true, and_true]
    refine ⟨made_natCast hid, made_str hname,
      made_str (isScalar_of_isAscii fun c hc => isoformat_lt hc), .arr fun v hv => ?_,
      made_natCast htotal⟩
    obtain ⟨row, hrow, rfl⟩ := List.mem_map.mp hv
    exact h.made_tally hrow

/-- The nesting of the results of an election. -/
theorem depth_electionResults (e : Election) (signedAt : Time) (rows : List Tally) :
    (electionResults e signedAt rows).depth ≤ 3 := by
  have hrows : (Json.arr (rows.map Tally.toJson)).depth ≤ 2 := by
    rw [Json.depth]
    refine Nat.succ_le_succ (depthElements_le.mpr fun v hv => ?_)
    obtain ⟨row, -, rfl⟩ := List.mem_map.mp hv
    exact le_of_eq rfl
  rw [electionResults, Json.depth]
  refine Nat.succ_le_succ (depthItems_le.mpr ?_)
  simp only [List.forall_mem_cons, List.not_mem_nil, false_imp_iff, implies_true, and_true]
  exact ⟨Nat.zero_le _, Nat.zero_le _, Nat.zero_le _, hrows, Nat.zero_le _⟩

/-! ### Signatures and the archive of keys -/

/-- In a run the snapshots of every thread have evolved into the committed state. -/
theorem meets_snapsEvolve (h : Reach (Sys.init d w) s) : Meets SnapsEvolve s b := by
  rintro i t p l - hr j d₀ hsnap
  rcases h.snap hr hsnap with ⟨_, _, _, hinit, -⟩ | ⟨s₁, h₁, h₂, rfl⟩
  · simp [Sys.init, Sys.Runs] at hinit
  · exact evolves_of_reach h₁ h₂

theorem reachIf_snapsEvolve (h : Reach (Sys.init d w) s) :
    ReachIf (Meets SnapsEvolve) (Sys.init d w) s := by
  induction h with
  | refl => exact .refl
  | tail hr hstep ih =>
    obtain ⟨b, hb, -⟩ := hstep
    exact ReachIf.step ih hb (meets_snapsEvolve hr)

/-- A commit that is not a signature leaves the results and the archive as they are. -/
theorem Act.stored_cases (h : Act L r l d d') :
    (d'.results.rows = d.results.rows ∧ d'.resultKeys = d.resultKeys) ∨
      ∃ cookie body form, r = .signElectionResults cookie body form := by
  cases h with
  | sign h => exact .inr h.request
  | token h => exact .inl ⟨(congrArg (·.results.rows) h.after :), (congrArg (·.resultKeys) h.after :)⟩
  | ballot h =>
    obtain ⟨_, _, _, ha⟩ := h.after
    exact .inl ⟨(congrArg (·.results.rows) ha :), (congrArg (·.resultKeys) ha :)⟩
  | vote h =>
    obtain ⟨_, _, _, ha⟩ := h.after
    exact .inl ⟨(congrArg (·.results.rows) ha :), (congrArg (·.resultKeys) ha :)⟩
  | election h =>
    obtain ⟨_, ha⟩ := h.only
    exact .inl ⟨(congrArg (·.results.rows) ha :), (congrArg (·.resultKeys) ha :)⟩
  | candidate h =>
    obtain ⟨-, -, ⟨_, _, ha⟩, -⟩ := h.only
    exact .inl ⟨(congrArg (·.results.rows) ha :), (congrArg (·.resultKeys) ha :)⟩
  | account h =>
    obtain ⟨_, _, ha, -⟩ := h.only
    exact .inl ⟨(congrArg (·.results.rows) ha :), (congrArg (·.resultKeys) ha :)⟩

/-- A step leaves the results and the archive as they are, or stores what the service has signed. -/
theorem stores_of_step (hserves : Serves L R E) (h : Reach (Sys.init d w) s)
    (hs : Step (machine L E) b s s') :
    (s'.db.results.rows = s.db.results.rows ∧ s'.db.resultKeys = s.db.resultKeys) ∨
      Stores L R s.db s'.db := by
  have hlogged : (rules L E).Logged SnapsEvolve (fun r => CommitsAre (SignedBy L R r))
      (fun _ _ _ => True) s :=
    logged_of_reachIf (verified L E) (fun _ _ _ hlog => hlog.append rfl)
      (fun r _ _ _ _ => ⟨.of_nil rfl, signed_handle hserves r rfl⟩) trivial (reachIf_snapsEvolve h)
  rcases act_of_step h hs with ⟨hdb, -⟩ | ⟨pid, t, p, l, -, hr, hc, hact, -⟩
  · exact .inl ⟨by rw [hdb], by rw [hdb]⟩
  rcases hact.stored_cases with hsame | hsign
  · exact .inl hsame
  · refine .inr (hlogged.of_commit? (certified h) hr hc s.db s'.db ?_ hsign)
    rw [writes_append]
    exact List.mem_append_right _ (by simp)

/-- The row records what the service has returned, up to the PEM text. -/
structure SignedElectionResult.Records (x : SignedElectionResult) (signed : SigningResult) : Prop where
  signature : x.signature = signed.signature
  backend : x.signerBackend = signed.signerBackend
  algorithm : x.signatureAlgorithm = signed.signatureAlgorithm
  keyId : x.signingKeyId = signed.signingKeyId
  version : x.signingKeyVersion = signed.signingKeyVersion

/-- The service has signed the payload of the row, and the key of a local signature is archived. -/
structure SignedRow (L : Lib) (R : RsaLib) (d : Db) (x : SignedElectionResult) : Prop where
  signed : ∃ (C : SigningConfig L R) (salt : Bytes) (signed : SigningResult),
    C.signData (.bytes (asciiBytes x.payload)) salt = .ok signed ∧ x.Records signed
  archived : x.signerBackend = localRsaBackend → ∃ k ∈ d.resultKeys, k.keyId = x.signingKeyId

/-- Every archived key passes the checks that are made when it is used. -/
def KeysSound (L : Lib) (d : Db) : Prop :=
  ∀ k ∈ d.resultKeys, k.algorithm = rsaPssSha256 ∧
    validLocalPublicKey L (some k.publicKeyPem) k.keyId = true

/-- What the archive holds after an insert: its keys, and the new one unless there is one with the
same id. -/
theorem mem_archive {key : Option ResultSigningPublicKey} {keys : List ResultSigningPublicKey}
    {k : ResultSigningPublicKey} (h : k ∈ archive key keys) : k ∈ keys ∨ key = some k := by
  unfold archive at h
  split at h
  · exact .inl h
  · split at h
    · exact .inl h
    · rcases List.mem_append.mp h with h | h
      · exact .inl h
      · exact .inr (congrArg some (List.mem_singleton.mp h).symm)

theorem exists_archive_some (k : ResultSigningPublicKey) (keys : List ResultSigningPublicKey) :
    ∃ k' ∈ archive (some k) keys, k'.keyId = k.keyId := by
  by_cases h : keys.any (·.keyId = k.keyId) = true
  · obtain ⟨k', hmem, hid⟩ := List.any_eq_true.mp h
    refine ⟨k', ?_, of_decide_eq_true hid⟩
    simp only [archive, h, if_true]
    exact hmem
  · refine ⟨k, ?_, rfl⟩
    simp only [archive, h]
    exact List.mem_append_right _ (List.mem_singleton_self k)

/-- The commit of a signature keeps the archive sound. -/
theorem Stores.keysSound (h : Stores L R d d') (hd : KeysSound L d) : KeysSound L d' := by
  obtain ⟨i, key, payload, signed, signedAt, signer, hd', ⟨C, salt, hsign⟩, hkey⟩ := h
  intro k hk
  rw [show d'.resultKeys = archive key d.resultKeys from (congrArg (·.resultKeys) hd' :)] at hk
  rcases mem_archive hk with hk | rfl
  · exact hd k hk
  · obtain ⟨_, -, halgorithm, -⟩ := signData_eq_ok hsign
    exact ⟨(hkey.new k rfl).algorithm.trans halgorithm, (hkey.new k rfl).valid⟩

/-- The commit of a signature appends a signed row. -/
theorem Stores.signedRow (h : Stores L R d d') :
    ∃ x, d'.results.rows = d.results.rows ++ [x] ∧ SignedRow L R d' x := by
  obtain ⟨i, key, payload, signed, signedAt, signer, hd', ⟨C, salt, hsign⟩, hkey⟩ := h
  have hkeys : d'.resultKeys = archive key d.resultKeys := (congrArg (·.resultKeys) hd' :)
  refine ⟨_, (congrArg (·.results.rows) hd' :),
    ⟨C, salt, signed, hsign, ⟨rfl, rfl, rfl, rfl, rfl⟩⟩, fun hlocal => ?_⟩
  obtain ⟨k, hk, rfl | hmem⟩ := hkey.exists_key hlocal
  · obtain ⟨k', hmem, hid⟩ := exists_archive_some k d.resultKeys
    exact ⟨k', hkeys ▸ hmem, hid.trans hk.keyId⟩
  · exact ⟨k, hkeys ▸ (prefix_archive key _).subset hmem, hk.keyId⟩

/-- In every state of a run the archive is sound and all results are signed. -/
theorem archived_of_reach (hserves : Serves L R E) (hd : EmptySchema d)
    (h : Reach (Sys.init d w) s) :
    KeysSound L s.db ∧ ∀ x ∈ s.db.results.rows, SignedRow L R s.db x := by
  induction h with
  | refl =>
    refine ⟨fun k hk => ?_, fun x hx => ?_⟩
    · rw [show (Sys.init d w : Sys (machine L E)).db.resultKeys = [] from hd.resultKeys] at hk
      cases hk
    rw [show (Sys.init d w : Sys (machine L E)).db.results.rows = [] from hd.results] at hx
    cases hx
  | tail hr hstep ih =>
    obtain ⟨b, hb, -⟩ := hstep
    obtain ⟨hsound, hrows⟩ := ih
    have hev := evolves_of_step hr hb
    have hkeep : ∀ {x}, SignedRow L R _ x → SignedRow L R _ x := fun hx =>
      ⟨hx.signed, fun hlocal =>
        let ⟨k, hk, hid⟩ := hx.archived hlocal
        ⟨k, hev.resultKeys.subset hk, hid⟩⟩
    rcases stores_of_step hserves hr hb with ⟨hresults, harchive⟩ | hstores
    · refine ⟨fun k hk => hsound k (harchive ▸ hk), fun x hx => hkeep (hrows x (hresults ▸ hx))⟩
    · refine ⟨hstores.keysSound hsound, fun x hx => ?_⟩
      obtain ⟨y, hresults, hy⟩ := hstores.signedRow
      rw [hresults] at hx
      rcases List.mem_append.mp hx with hx | hx
      · exact hkeep (hrows x hx)
      · rw [List.mem_singleton.mp hx]
        exact hy

end SecureVote
