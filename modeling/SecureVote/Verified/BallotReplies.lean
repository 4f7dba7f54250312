import SecureVote.Verified.Voting
import SecureVote.Verified.AuditTrail
import SecureVote.Txn.Serve
import SecureVote.Routes.BlindKey

/-!
# What the endpoints of a ballot answer

`blind_signing_public_key` answers with the key that the election is anchored to. To a ballot that
verifies under this key `cast_anonymous_ballot` has few answers (`BallotAnswer`): a refusal names a
state of the election or of the ballot box, or a call that has failed.
-/

open Txn Txn.Rules

namespace SecureVote

open Py

variable {L : Lib} {E : Environment} {r : Request} {wk : ℕ} {c : Conf L E}

/-! ### Keys -/

/-- A worker has held the pair for the election. -/
def Environment.Holds (E : Environment) (i : ℕ) (k : KeyPair) : Prop :=
  ∃ w wk, E.cached w wk i = some k

/-- Why the key of the election `i` with this anchor is not used: its files do not load, or they hold
another key. -/
inductive KeyRefused (L : Lib) (E : Environment) (i : ℕ) (anchor : PyStr) : PyError → Prop
  | files {wk w e w'} (h : E.answer wk w (.loadKeys i) (.error e) w') : KeyRefused L E i anchor e
  | replaced {k message} (hk : E.Holds i k) (hne : fingerprint L k.publicKey ≠ anchor) :
      KeyRefused L E i anchor (.blindSigningKeyError message)

/-- A load answers with the cached pair, or fails. -/
theorem spec_loadKeys_reply (i : ℕ) (anchor : PyStr) :
    (rules L E).wp r wk (loadKeys i) (fun res c' => (rules L E).Ext c c' ∧ c'.loc = c.loc ∧
      (∀ e, res = Except.error e → KeyRefused L E i anchor e) ∧
        ∀ k, res = Except.ok k → E.cached c'.world wk i = some k) c := by
  refine wp_mono (spec_call _) ?_
  rintro res c' ⟨hx, hl, w, hanswer, -⟩
  refine ⟨hx, hl, fun e he => ?_, fun k hk => ?_⟩
  · subst he
    exact .files hanswer
  · subst hk
    exact E.load_cached hanswer

/-- With an anchor that is a fingerprint, `ensure_election_blind_signing_key` returns the components
of the cached pair, which has this fingerprint, or what is wrong with the key. -/
theorem spec_ensureKey_reply (i : ℕ) {anchor : PyStr} (hform : isFingerprint anchor = true) :
    (rules L E).wp r wk (ensureElectionBlindSigningKey L i (some anchor) false) (fun res c' =>
      (rules L E).Ext c c' ∧ c'.loc = c.loc ∧
        (∀ e, res = Except.error e → KeyRefused L E i anchor e) ∧
        ∀ x, res = Except.ok x → ∃ k : KeyPair, E.cached c'.world wk i = some k ∧
          fingerprint L k.publicKey = anchor ∧
            x = ⟨hex k.publicKey.n, hex k.publicKey.e, anchor⟩) c := by
  unfold ensureElectionBlindSigningKey
  have hprepare : prepareKey i (some anchor) false = pure (.ok ()) := by
    rw [prepareKey, if_pos hform]
  rw [hprepare]
  unfold getPublicKeyComponents
  refine wp_bind.mpr (wp_bind.mpr (wp_bind_of (spec_loadKeys_reply i anchor) ?_))
  rintro (e | k) c₁ ⟨hx, hl, herror, hok⟩
  · refine ⟨hx, hl, fun e' he' => ?_, by simp⟩
    cases he'
    exact herror e rfl
  · show (rules L E).wp r wk (if _ then _ else _) _ c₁
    split
    next hall =>
      have hanchor : anchor = fingerprint L k.publicKey := by simpa using hall
      refine ⟨hx, hl, by simp, fun x hxk => ?_⟩
      cases hxk
      exact ⟨k, hok k rfl, hanchor.symm, by rw [hanchor]⟩
    next hall =>
      refine ⟨hx, hl, fun e he => ?_, by simp⟩
      cases he
      exact .replaced ⟨_, _, hok k rfl⟩ fun heq => hall (by simp [heq])

/-- The verification step fails with the key, or answers what a held pair with the anchor's
fingerprint verifies. -/
theorem spec_verifyBallot_reply (b : ParsedBallot) {e : Election} {key : PublicKey}
    (hanchor : e.blindSigningKeyId = some (fingerprint L key)) :
    (rules L E).wp r wk (verifyBallot L b e) (fun res c' => (rules L E).Ext c c' ∧
      c'.loc = c.loc ∧
      (∀ err, res = Except.error err → KeyRefused L E e.id (fingerprint L key) err) ∧
      ∀ v, res = Except.ok v → ∃ k : KeyPair, E.Holds e.id k ∧
        fingerprint L k.publicKey = fingerprint L key ∧
        verifyWith L k.publicKey b.bytes b.signature = .ok v) c := by
  unfold verifyBallot
  rw [hanchor]
  refine wp_bind_of (spec_ensureKey_reply e.id (isFingerprint_fingerprint L key)) ?_
  rintro (err | components) c₁ ⟨hx₁, hl₁, herror, hok⟩
  · refine ⟨hx₁, hl₁, fun err' herr' => ?_, by simp⟩
    cases herr'
    exact herror err rfl
  obtain ⟨k, hk, hfp, -⟩ := hok components rfl
  unfold verifyUnblindedSignature
  refine wp_bind_of (spec_loadKeys_reply e.id (fingerprint L key)) ?_
  rintro (err | k') c₂ ⟨hx₂, hl₂, herror₂, hok₂⟩
  · refine ⟨hx₁.trans hx₂, hl₂.trans hl₁, fun err' herr' => ?_, by simp⟩
    cases herr'
    exact herror₂ err rfl
  -- both loads returned the cached pair
  obtain rfl : k' = k :=
    Option.some.inj ((hok₂ k' rfl).symm.trans (cached_of_ext hx₂ hk))
  obtain ⟨v, hv⟩ := k'.verifyWith_ok L b.bytes b.signature
  show (rules L E).wp r wk (pure (verifyWith _ _ _ _)) _ c₂
  rw [hv]
  refine ⟨hx₁.trans hx₂, hl₂.trans hl₁, by simp, fun v' hv' => ?_⟩
  cases hv'
  exact ⟨k', ⟨_, _, hok₂ k' rfl⟩, hfp, hv⟩

/-! ### The open check -/

/-- Why an election does not pass the open check. -/
inductive NotOpen (E : Environment) (e : Election) : Prop
  | status (h : e.status ≠ .open)
  | recovery (h : e.blindKeyRecoveryRequired = true)
  | early {wk w w'} {now t : Time} (hnow : E.answer wk w .now now w') (ht : e.openAt = some t)
      (h : now < t)
  | late {wk w w'} {now t : Time} (hnow : E.answer wk w .now now w') (ht : e.closeAt = some t)
      (h : t < now)

theorem spec_isOpen_reply (e : Election) :
    (rules L E).wp r wk e.isOpen (fun b _ => b = false → NotOpen E e) c := by
  unfold Election.isOpen
  split
  next h =>
    rcases h with h | h
    · exact fun _ => .status h
    · exact fun _ => .recovery h
  · refine wp_bind_of (spec_call _) ?_
    rintro now c' ⟨-, -, w, hnow, -⟩ hfalse
    have hout : ¬(¬(∃ t ∈ e.openAt, now < t) ∧ ¬∃ t ∈ e.closeAt, t < now) :=
      of_decide_eq_false hfalse
    rw [not_and_or, not_not, not_not] at hout
    rcases hout with ⟨t, ht, hlt⟩ | ⟨t, ht, hlt⟩
    · exact .early hnow ht hlt
    · exact .late hnow ht hlt

/-! ### The key of an election -/

/-- The key page of the election `e` answers with the components of the pair `k`, to which `e` is
anchored. -/
structure KeyServed (L : Lib) (E : Environment) (d : Db) (e : Election) (k : KeyPair)
    (key : BlindKey) : Prop where
  election : d.elections.get? e.id = some e
  positive : 0 < e.id
  isOpen : e.status = .open
  recovery : e.blindKeyRecoveryRequired = false
  held : E.Holds e.id k
  anchor : e.blindSigningKeyId = some (fingerprint L k.publicKey)
  components : key = ⟨hex k.publicKey.n, hex k.publicKey.e, fingerprint L k.publicKey, e.id⟩

/-- What `ensure_election_blind_signing_key` returns are the components of an anchored pair. -/
theorem spec_ensureKey_components (e : Election) :
    (rules L E).wp r wk (ensureElectionBlindSigningKey L e.id e.blindSigningKeyId false)
      (fun res c' => c'.loc = c.loc ∧ ∀ x, res = Except.ok x → ∃ k : KeyPair, E.Holds e.id k ∧
        e.blindSigningKeyId = some (fingerprint L k.publicKey) ∧
        x = ⟨hex k.publicKey.n, hex k.publicKey.e, fingerprint L k.publicKey⟩) c := by
  rcases hanchor : e.blindSigningKeyId with _ | id
  · refine wp_mono (spec_ensureKey e.id none false) ?_
    rintro res c' ⟨-, hl, hok⟩
    exact ⟨hl, fun x hx => absurd ((hok x hx).2.2 rfl) (by decide)⟩
  by_cases hform : isFingerprint id = true
  · refine wp_mono (spec_ensureKey_reply e.id hform) ?_
    rintro res c' ⟨-, hl, -, hok⟩
    refine ⟨hl, fun x hx => ?_⟩
    obtain ⟨k, hk, rfl, hcomponents⟩ := hok x hx
    exact ⟨k, ⟨_, _, hk⟩, rfl, hcomponents⟩
  · have hprepare : prepareKey e.id (some id) false = pure (.error (.blindSigningKeyError
        "The election blind-signing key fingerprint is invalid.")) := by
      rw [prepareKey, if_neg hform]
    rw [ensureElectionBlindSigningKey, hprepare]
    exact ⟨rfl, by simp⟩

theorem le_of_blindKeyElectionId {arg : Option PyStr} {i : ℤ} (h : blindKeyElectionId arg = .ok i) :
    1 ≤ i := by
  unfold blindKeyElectionId at h
  split at h
  · cases h
  · split at h
    · cases h
    next hle =>
      cases h
      omega

theorem wp_blindSigningPublicKey {cookie arg : Option PyStr} (hr : r.cookie = cookie)
    (hloc : c.loc = .fresh) :
    (rules L E).wp r wk (blindSigningPublicKey L cookie arg) (fun res c' => ∀ key, res = .ok key →
      ∃ b d e k, c'.loc.snap b = some d ∧ KeyServed L E d e k key) c := by
  subst hr
  unfold blindSigningPublicKey
  refine wp_bind_of (spec_loadUserFromJwt (by rw [hloc]; rfl) false) ?_
  rintro (a | cu) c₁ -
  · rintro _ ⟨⟩
  rcases harg : blindKeyElectionId arg with a | electionId
  · rintro _ ⟨⟩
  refine wp_bind_of (spec_select _ _) ?_
  rintro found c₂ ⟨-, d, hd, rfl, -⟩
  rcases hfound : byId d.elections electionId with _ | e
  · rintro _ ⟨⟩
  obtain ⟨-, hid, hget⟩ := byId_eq_some hfound
  have hid : (e.id : ℤ) = electionId := hid
  have hpositive : 1 ≤ electionId := le_of_blindKeyElectionId harg
  refine wp_bind_of (spec_isOpen e) ?_
  rintro (_ | _) c₃ ⟨-, hl₃, hopen⟩
  · rintro _ ⟨⟩
  obtain ⟨hopen, hrecovery⟩ := hopen rfl
  refine wp_bind_of (spec_ensureKey_components e) ?_
  rintro (err | components) c₄ ⟨hl₄, hok⟩
  · rcases err with _ | _ | _ | _ | _ | _ | _ | _ <;> rintro _ ⟨⟩
  obtain ⟨k, hk, hanchor, rfl⟩ := hok components rfl
  rintro key ⟨⟩
  exact ⟨_, d, e, k, by rw [hl₄, hl₃]; exact hd, hget, by omega, hopen, hrecovery, hk, hanchor, rfl⟩

/-- The key page commits nothing. -/
theorem reports_blindSigningPublicKey (cookie arg : Option PyStr) :
    (blindSigningPublicKey L cookie arg).Reports Event.unmarked := by
  unfold blindSigningPublicKey
  refine Prog.reports_bind (reports_loadUserFromJwt cookie false) ?_
  rintro (a | cu)
  · trivial
  rcases blindKeyElectionId arg with a | electionId
  · trivial
  refine Prog.reports_bind (fun _ => trivial) ?_
  rintro (_ | e)
  · trivial
  refine Prog.reports_bind (silent_isOpen e).reports ?_
  rintro (_ | _)
  · trivial
  refine Prog.reports_bind (silent_ensureKey _ _ _).reports ?_
  rintro (err | components)
  · rcases err with _ | _ | _ | _ | _ | _ | _ | _ <;> trivial
  · trivial

/-- A key that is served in a state is that of an election of the state. -/
theorem keyServed_of_exec {orc : (q : Query) → E.World → q.Answer × E.World}
    (horc : ∀ wk w q, E.answer wk w q (orc q w).1 (orc q w).2) {cookie arg : Option PyStr} {d : Db}
    {w : E.World} {key : BlindKey}
    (hkey : ((blindSigningPublicKey L cookie arg).exec orc d w).reply = .ok key) :
    ∃ e k, KeyServed L E d e k key := by
  have hwp : (rules L E).wp (.profile cookie) 0 (blindSigningPublicKey L cookie arg) _
      ⟨.fresh, d, w, []⟩ := wp_blindSigningPublicKey rfl rfl
  obtain ⟨c', hserved, hdb, hsnap⟩ := exec_of_wp horc trivial (fun _ _ h => by cases h) hwp
  obtain ⟨b, d', e, k, hd', hk⟩ := hserved key hkey
  obtain rfl : d' = d :=
    (hsnap b d' hd').trans (hdb.trans (reports_blindSigningPublicKey cookie arg).exec_db)
  exact ⟨e, k, hk⟩

/-! ### What stays as it was -/

/-- An election that was no draft is closed when it is not open. -/
theorem ElectionEvolves.closed_of_ne_draft {e e' : Election} (h : ElectionEvolves e e')
    (he : e.status ≠ .draft) (hne : e'.status ≠ .open) : e'.status = .closed := by
  have hdraft : e'.status ≠ .draft := h.ne_draft he
  rcases hstatus : e'.status with _ | _ | _
  · exact absurd hstatus hdraft
  · exact absurd hstatus hne
  · rfl

/-- An anchor stays. -/
theorem Evolves.anchored {d d' : Db} (h : Evolves d d') {i : ℕ} {e e' : Election} {k : PyStr}
    (he : d.elections.get? i = some e) (he' : d'.elections.get? i = some e')
    (hk : e.blindSigningKeyId = some k) : e'.blindSigningKeyId = some k := by
  obtain ⟨x, hx, hev⟩ := h.elections he
  obtain rfl : x = e' := Option.some.inj (hx.symm.trans he')
  exact hev.anchor hk

/-! ### A ballot that verifies -/

theorem byId_natCast {α : Type} [Keyed α] (t : Table α) (i : ℕ) : byId t i = t.get? i := by
  rw [byId, if_pos (Int.natCast_nonneg _), Int.toNat_natCast]

/-- A candidate of a roster is found by its id, in its election. -/
theorem filter_byId_of_mem_roster {t : Tables} {i : ℕ} {cand : Candidate} (h : cand ∈ t.roster i) :
    (byId t.candidates cand.id).filter (fun x => decide (x.electionId = i)) = some cand := by
  obtain ⟨hmem, hi⟩ := mem_roster.mp h
  rw [byId_natCast, show t.candidates.get? cand.id = some cand from Table.get?_key hmem]
  simp [hi]

/-- The check of the roster passes. -/
theorem SingleContest.not_mixed {cs : List Candidate} (h : SingleContest cs) :
    ¬((regionIds cs).length ≠ 1 ∨ (positions cs).length ≠ 1) := by
  rw [h.region, h.position]
  decide

/-- The ballot `b` names the candidate `cand` of the election `e`, which is open in the state `d`, and
verifies under the anchored key. -/
structure Castable (L : Lib) (E : Environment) (d : Db) (e : Election) (cand : Candidate)
    (key : PublicKey) (b : ParsedBallot) : Prop where
  election : d.elections.get? e.id = some e
  isOpen : e.status = .open
  recovery : e.blindKeyRecoveryRequired = false
  anchor : e.blindSigningKeyId = some (fingerprint L key)
  electionId : (e.id : ℤ) = b.electionId
  candidate : cand ∈ d.roster e.id
  candidateId : (cand.id : ℤ) = b.candidateId
  contest : SingleContest (d.roster e.id)
  verifies : ∀ k : KeyPair, E.Holds e.id k → fingerprint L k.publicKey = fingerprint L key →
    verifyWith L k.publicKey b.bytes b.signature = .ok true

/-- The nonce has been spent in the election `i`. -/
def Spent (L : Lib) (d : Db) (i : ℕ) (nonce : PyStr) : Prop :=
  ∃ x ∈ d.nullifiers.rows, x.electionId = i ∧ x.nullifierHash = nullifierHash L nonce

/-- How the state `d`, which `d₀` has evolved into, answers a ballot that was castable in `d₀`. -/
inductive BallotAnswer (L : Lib) (E : Environment) (d₀ : Db) (i : ℕ) (anchor nonce : PyStr)
    (d : Db) : Response → Prop
  | recorded (h : Spent L d i nonce) : BallotAnswer L E d₀ i anchor nonce d .ballotRecorded
  | closed {e} (he : d.elections.get? i = some e) (h : e.status = .closed) :
      BallotAnswer L E d₀ i anchor nonce d (.error "Election is not open" 409)
  | untimely {d₁ e} (h₀ : Evolves d₀ d₁) (h₁ : Evolves d₁ d) (he : d₁.elections.get? i = some e)
      (hopen : e.status = .open) (h : NotOpen E e) :
      BallotAnswer L E d₀ i anchor nonce d (.error "Election is not open" 409)
  | spent (h : Spent L d i nonce) :
      BallotAnswer L E d₀ i anchor nonce d (.error "Ballot was already submitted or is invalid" 409)
  | repeated {d₁ wk w w'} {token : HexToken} {v} (h₀ : Evolves d₀ d₁) (h₁ : Evolves d₁ d)
      (htoken : E.answer wk w .tokenHex token w') (hv : v ∈ d₁.votes.rows)
      (h : v.voterToken = token.text) :
      BallotAnswer L E d₀ i anchor nonce d (.error "Ballot was already submitted or is invalid" 409)
  | unavailable {message} (h : KeyRefused L E i anchor (.blindSigningKeyError message)) :
      BallotAnswer L E d₀ i anchor nonce d (.error "Election signing key is unavailable" 503)
  | keyError {err} (h : KeyRefused L E i anchor err) :
      BallotAnswer L E d₀ i anchor nonce d (.uncaught err)

theorem Spent.mono {d d' : Db} {i : ℕ} {nonce : PyStr} (h : Spent L d i nonce) (hd : Evolves d d') :
    Spent L d' i nonce := by
  obtain ⟨x, hx, heq⟩ := h
  exact ⟨x, hd.nullifiers.subset hx, heq⟩

/-- A closed election stays closed. -/
theorem Evolves.closed {d d' : Db} (h : Evolves d d') {i : ℕ} {e : Election}
    (he : d.elections.get? i = some e) (hclosed : e.status = .closed) :
    ∃ e', d'.elections.get? i = some e' ∧ e'.status = .closed := by
  obtain ⟨e', he', hev⟩ := h.elections he
  refine ⟨e', he', hev.closed_of_ne_draft (by rw [hclosed]; decide) fun hopen => ?_⟩
  have hrank := hev.status
  rw [hclosed, hopen] at hrank
  exact absurd hrank (by decide)

/-- Nobody undoes what an answer says. -/
theorem BallotAnswer.mono {d₀ d d' : Db} {i : ℕ} {anchor nonce : PyStr} {a : Response}
    (h : BallotAnswer L E d₀ i anchor nonce d a) (hd : Evolves d d') :
    BallotAnswer L E d₀ i anchor nonce d' a := by
  cases h with
  | recorded h => exact .recorded (h.mono hd)
  | closed he h =>
    obtain ⟨e', he', h'⟩ := hd.closed he h
    exact .closed he' h'
  | untimely h₀ h₁ he hopen h => exact .untimely h₀ (h₁.trans hd) he hopen h
  | spent h => exact .spent (h.mono hd)
  | repeated h₀ h₁ htoken hv h => exact .repeated h₀ (h₁.trans hd) htoken hv h
  | unavailable h => exact .unavailable h
  | keyError h => exact .keyError h

/-- A ballot for a candidate of the election meets the constraints, unless its nonce is spent or the
drawn token is in use. -/
theorem constraints_addVoteAndNullifier {d : Db} {token : HexToken} {ts spentAt : Time}
    {nonce : PyStr} {cand : Candidate} {i : ℕ} (hcand : cand ∈ d.roster i)
    (htoken : ∀ v ∈ d.votes.rows, v.voterToken ≠ token.text) (hspent : ¬Spent L d i nonce) :
    Constraints (addVoteAndNullifier L token ts spentAt nonce cand i d.toTables) := by
  obtain ⟨hmem, hi⟩ := mem_roster.mp hcand
  subst hi
  exact
    { d.ok with
      votes_token := by
        rw [addVoteAndNullifier, Table.rows_insert, List.map_append, List.nodup_append]
        refine ⟨d.ok.votes_token, List.nodup_singleton _, fun x hx y hy => ?_⟩
        obtain ⟨v, hv, rfl⟩ := List.mem_map.mp hx
        obtain rfl := List.mem_singleton.mp hy
        exact htoken v hv
      votes_candidate := fun v hv => by
        obtain hv | rfl := Table.mem_insert.mp hv
        · exact d.ok.votes_candidate v hv
        · exact ⟨cand, hmem, rfl, rfl⟩
      nullifiers_election_hash := by
        rw [addVoteAndNullifier, Table.rows_insert, List.map_append, List.nodup_append]
        refine ⟨d.ok.nullifiers_election_hash, List.nodup_singleton _, fun x hx y hy heq => ?_⟩
        obtain ⟨n, hn, rfl⟩ := List.mem_map.mp hx
        obtain rfl := List.mem_singleton.mp hy
        obtain ⟨hi, hhash⟩ := Prod.mk.inj heq
        exact hspent ⟨n, hn, hi, hhash⟩
      nullifiers_election := fun n hn => by
        obtain hn | rfl := Table.mem_insert.mp hn
        · exact d.ok.nullifiers_election n hn
        · exact d.ok.candidates_election cand hmem }

/-- The weakest precondition of a handler of which only the answers matter. -/
abbrev answersWp (r : Request) (wk : ℕ) {β : Type} (p : Handler β) (P : β → Conf L E → Prop)
    (c : Conf L E) : Prop :=
  (rules L E).lwp (fun _ _ _ _ => True) (fun _ _ => True) r wk p P c

theorem answersWp_recordBallot {d₀ : Db} {e : Election} {cand : Candidate} {key : PublicKey}
    {b : ParsedBallot} (hb : Castable L E d₀ e cand key b) (hev : Evolves d₀ c.db)
    (hloc : c.loc = .fresh) :
    answersWp r wk (recordBallot L b)
      (fun a c' => BallotAnswer L E d₀ e.id (fingerprint L key) b.nonce c'.db a) c := by
  unfold recordBallot
  refine lwp_bind_silent (fun _ => trivial) (fun _ => trivial)
    (spec_selectLocking _ _ _) ?_
  rintro _ c₁ ⟨hx₁, rfl, -, hsnap₁⟩
  have hev₁ : Evolves d₀ c₁.db := hev.trans (evolves_of_ext hx₁)
  obtain ⟨e₁, he₁, hevolves⟩ := hev₁.elections hb.election
  have hid : e₁.id = e.id := Table.key_of_get? he₁
  have hfound : byId c₁.db.elections b.electionId = some e₁ := by
    rw [← hb.electionId, byId_natCast, he₁]
  rw [hfound]
  refine lwp_bind_silent (silent_isOpen e₁) (fun _ => trivial)
    (wp_and (spec_isOpen e₁) (spec_isOpen_reply e₁)) ?_
  rintro (_ | _) c₂ ⟨⟨hx₂, hl₂, -⟩, hnot⟩
  · -- the election is closed by now, or the clock is outside its times
    by_cases hopen : e₁.status = .open
    · exact .untimely hev₁ (evolves_of_ext hx₂) he₁ hopen (hnot rfl)
    · have hclosed : e₁.status = .closed :=
        hevolves.closed_of_ne_draft (by rw [hb.isOpen]; decide) hopen
      obtain ⟨e', he', h'⟩ := (evolves_of_ext hx₂).closed he₁ hclosed
      exact .closed he' h'
  have hanchor : e₁.blindSigningKeyId = some (fingerprint L key) := hevolves.anchor hb.anchor
  refine lwp_bind_silent (silent_verifyBallot b e₁) (fun _ => trivial)
    (spec_verifyBallot_reply b hanchor) ?_
  rintro (err | v) c₃ ⟨hx₃, hl₃, herror, hok⟩
  · have hrefused := herror err rfl
    rw [hid] at hrefused
    rcases err with _ | _ | _ | _ | _ | _ | _ | m
    case blindSigningKeyError => exact .unavailable hrefused
    all_goals exact .keyError hrefused
  obtain ⟨k, hheld, hfp, hverify⟩ := hok v rfl
  rw [hid] at hheld
  obtain rfl : v = true := Except.ok.inj (hverify.symm.trans (hb.verifies k hheld hfp))
  refine lwp_bind_silent (fun _ => trivial) (fun _ => trivial) (spec_select Bind.voters _) ?_
  rintro _ c₄ ⟨hx₄, d, hd, rfl, hfresh, -, -⟩
  obtain rfl := hfresh (by rw [hl₃, hl₂, hsnap₁, hloc]; rfl)
  have hev₄ : Evolves d₀ c₄.db :=
    hev₁.trans (evolves_of_ext ((hx₂.trans hx₃).trans hx₄))
  have hroster : c₄.db.roster e.id = d₀.roster e.id :=
    hev₄.roster hb.election (by rw [hb.isOpen]; decide)
  have hcand : cand ∈ c₄.db.roster e.id := hroster ▸ hb.candidate
  have hbyId : (byId c₄.db.candidates b.candidateId).filter
      (fun x => decide (x.electionId = e₁.id)) = some cand := by
    rw [← hb.candidateId, hid]
    exact filter_byId_of_mem_roster hcand
  rw [hbyId]
  refine lwp_bind_silent (fun _ => trivial) (fun _ => trivial) (spec_select Bind.voters _) ?_
  rintro _ c₅ ⟨hx₅, d, hd₅, rfl, -, -, -⟩
  obtain rfl : d = c₄.db := Option.some.inj (hd₅.symm.trans (hx₅.snap hd))
  have hsingle : SingleContest (c₄.db.roster e₁.id) := by
    rw [hid, hroster]
    exact hb.contest
  rw [if_neg hsingle.not_mixed]
  refine lwp_bind_silent (fun _ => trivial) (fun _ => trivial) (spec_call Query.now) ?_
  rintro spentAt c₆ ⟨hx₆, -⟩
  refine lwp_bind_silent (fun _ => trivial) (fun _ => trivial) (spec_call Query.tokenHex) ?_
  rintro token c₇ ⟨hx₇, -, w, htoken, -⟩
  refine lwp_bind_silent (fun _ => trivial) (fun _ => trivial) (spec_call Query.now) ?_
  rintro ts c₈ ⟨hx₈, -⟩
  have hx₄₈ := ((hx₅.trans hx₆).trans hx₇).trans hx₈
  have hev₈ : Evolves d₀ c₈.db := hev₄.trans (evolves_of_ext hx₄₈)
  refine lwp_bind.mpr (lwp_write.mpr fun d w' hl =>
    ⟨fun hf => ?_, fun _ d' hf hguar => ⟨trivial, ?_⟩⟩)
  · -- refused: the nonce is spent or the drawn token is in use
    have hevd : Evolves d₀ d := hev₈.trans (Relies.evolves hl.1)
    have hconstraints : ¬Constraints
        (addVoteAndNullifier L token ts spentAt b.nonce cand e₁.id d.toTables) := fun hok => by
      rw [Option.map_eq_none_iff, Db.commit, dif_pos hok] at hf
      cases hf
    rw [hid] at hconstraints
    refine lwp_bind.mpr fun d₂ w₂ hl₂ => ?_
    have hev₂ : Evolves d d₂ := Relies.evolves hl₂.1
    by_cases hspent : Spent L d e.id b.nonce
    · exact .spent (hspent.mono hev₂)
    · have hcandd : cand ∈ d.roster e.id := by
        rw [hevd.roster hb.election (by rw [hb.isOpen]; decide)]
        exact hb.candidate
      have hused : ∃ x ∈ d.votes.rows, x.voterToken = token.text := by
        by_contra hnone
        push Not at hnone
        exact hconstraints (constraints_addVoteAndNullifier hcandd hnone hspent)
      obtain ⟨x, hx, heq⟩ := hused
      exact .repeated hevd hev₂ htoken hx heq
  · -- recorded: the election is read again, and the event reported
    obtain ⟨d₁, hd₁, heq⟩ := Option.map_eq_some_iff.mp hf
    cases heq
    have hafter := Db.commit_eq_some.mp hd₁
    have hspent : Spent L d' e.id b.nonce := by
      refine ⟨⟨d.nullifiers.next, e₁.id, nullifierHash L b.nonce, spentAt⟩, ?_, hid, rfl⟩
      rw [show d'.nullifiers = _ from (congrArg Tables.nullifiers hafter :)]
      exact Table.mem_insert.mpr (.inr rfl)
    refine lwp_bind_silent (fun _ => trivial) (fun _ => trivial) (spec_select Bind.voters _) ?_
    rintro _ c₉ ⟨hx₉, d₂, -, rfl, hlatest, -⟩
    obtain rfl := hlatest rfl
    have hev₂ : Evolves d' c₉.db := evolves_of_ext hx₉
    have hevd : Evolves d₀ c₉.db :=
      ((hev₈.trans (Relies.evolves hl.1)).trans (Act.evolves (L := L) hguar)).trans hev₂
    obtain ⟨e₂, he₂, -⟩ := hevd.elections hb.election
    rw [← hid] at he₂
    rw [he₂]
    exact ⟨trivial, .recorded (hspent.mono hev₂)⟩

/-- The answers to a ballot that was castable in `d₀`, in every state that `d₀` evolves into. -/
theorem wp_castAnonymousBallot_answer {d₀ : Db} {e : Election} {cand : Candidate} {key : PublicKey}
    {data : Option Json} {b : ParsedBallot} (hparse : parseBallot L data = .ok b)
    (hb : Castable L E d₀ e cand key b) (hev : Evolves d₀ c.db) (hloc : c.loc = .fresh)
    (hlog : c.log = []) :
    (rules L E).wp (.castAnonymousBallot data) wk (castAnonymousBallot L data)
      (fun a c' => BallotAnswer L E d₀ e.id (fingerprint L key) b.nonce c'.db a) c := by
  refine wp_mono (wp_and_of_lwp (wp_castAnonymousBallot hloc hlog) ?_) fun _ _ h => h.2
  unfold castAnonymousBallot
  rw [hparse]
  exact answersWp_recordBallot hb hev hloc

end SecureVote
