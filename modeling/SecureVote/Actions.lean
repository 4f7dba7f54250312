import SecureVote.Machine
import SecureVote.Evolution

/-!
# What a commit can do

One structure per committing handler: the row it acts on, the locks it holds, what it knows of
the latest committed state, and the tables it leaves. `Act` is their union, the inversion of
every commit of the system; `Act.evolves` and the lemmas after it say what a commit leaves
alone, which is all that other transactions rely on.
-/

open Txn

namespace SecureVote

open Py

/-- The transaction-local state of a request. -/
abbrev Loc := Local Db RowId TableName Bind

/-- The user id that the session token of a request names. -/
def Request.subject (L : Lib) (r : Request) : Option ℤ :=
  (r.cookie.bind L.jwtClaims).bind fun p => p.sub.toInt.toOption

/-- The row that `change_password` or `reject_user` computes its update from: the user of the
session as loaded by the identity hook, or the row read on the manager connection. -/
def Request.loadedUser (L : Lib) (r : Request) (l : Loc) : Option User :=
  match r with
  | .changePassword _ _ => (r.subject L).bind fun i => (l.snap .voters).bind (byId ·.users i)
  | .rejectUser _ i =>
      (l.snap (if r.subject L = some (i : ℤ) then .voters else .admin)).bind (·.users.get? i)
  | _ => none

/-- The election row `e` is current in `d` and locked. -/
structure Held (l : Loc) (m : Mode) (d : Db) (e : Election) : Prop where
  lock : (RowId.election e.id, m) ∈ l.held
  row : d.elections.get? e.id = some e

/-- The voter checks of `lock_and_validate_voter`, on the current rows. -/
structure Eligible (d : Db) (u : User) (roll : ElectoralRoll) : Prop where
  user : d.users.get? u.id = some u
  approved : u.accountStatus = .approved
  emailVerified : u.emailVerified = true
  voter : hasRole (d.roleName u) "voter" = true
  enrolment : d.enrolment u.id = some roll
  active : roll.status = .active
  verified : roll.verified = true

/-- Exactly one region and one position. -/
structure SingleContest (cs : List Candidate) : Prop where
  region : (regionIds cs).length = 1
  position : (positions cs).length = 1

/-- The commit of `request_blind_token`. The roster and the receipts are those of the snapshot. -/
structure TokenIssue (L : Lib) (r : Request) (l : Loc) (d d' : Db) (u : User) (e : Election)
    (roll : ElectoralRoll) : Prop where
  request : ∃ cookie data body, r = .requestBlindToken cookie data ∧
    parseTokenRequest data = .ok (body, (e.id : ℤ))
  subject : r.subject L = some (u.id : ℤ)
  election : Held l .share d e
  isOpen : e.status = .open
  recovery : e.blindKeyRecoveryRequired = false
  voter : Eligible d u roll
  roster : ∃ d₀, l.snap .voters = some d₀ ∧ SingleContest (d₀.roster e.id) ∧
    roll.regionId ∈ regionIds (d₀.roster e.id)
  unspent : ∃ d₀, l.snap .voters = some d₀ ∧ d₀.receipt u.id e.id = none
  after : d'.toTables = addToken u.id e.id d.toTables

/-- The commit of `cast_anonymous_ballot`. -/
structure BallotCast (L : Lib) (r : Request) (l : Loc) (d d' : Db) (b : ParsedBallot)
    (e : Election) (c : Candidate) : Prop where
  request : ∃ data, r = .castAnonymousBallot data ∧ parseBallot L data = .ok b
  election : Held l .share d e
  isOpen : e.status = .open
  recovery : e.blindKeyRecoveryRequired = false
  electionId : (e.id : ℤ) = b.electionId
  candidate : d.candidates.get? c.id = some c
  candidateId : (c.id : ℤ) = b.candidateId
  candidateElection : c.electionId = e.id
  key : ∃ k : KeyPair, e.blindSigningKeyId = some (fingerprint L k.publicKey) ∧
    verifyWith L k.publicKey b.bytes b.signature = .ok true
  after : ∃ token ts spentAt,
    d'.toTables = addVoteAndNullifier L token ts spentAt b.nonce c e.id d.toTables

/-- The commit of `cast_anonymous_vote`. The open check is on the election `e₀` as loaded, and the
tokens are those of the snapshot. -/
structure VoteCast (L : Lib) (r : Request) (l : Loc) (d d' : Db) (u : User) (e₀ : Election)
    (c : Candidate) : Prop where
  request : ∃ userId electionId, r = .castVote userId c.id electionId
  election : ∃ e, Held l .share d e ∧ e.id = e₀.id
  loaded : ∃ d₀, l.snap .voters = some d₀ ∧ d₀.elections.get? e₀.id = some e₀ ∧
    d₀.candidates.get? c.id = some c ∧ Evolves d₀ d
  isOpen : e₀.status = .open
  recovery : e₀.blindKeyRecoveryRequired = false
  candidate : d.candidates.get? c.id = some c
  candidateElection : c.electionId = e₀.id
  voter : ∃ roll, Eligible d u roll ∧ c.regionId = roll.regionId
  unspent : ∃ electionId d₀, r = .castVote u.id c.id electionId ∧ l.snap .voters = some d₀ ∧
    d₀.token u.id e₀.id = none
  after : ∃ token ts now, d'.toTables = addVoteAndReceipt L token ts now u.id c e₀.id d.toTables

/-- The commit of `create_election`. -/
structure ElectionCreated (r : Request) (d d' : Db) : Prop where
  request : ∃ cookie form, r = .createElection cookie form
  after : ∃ name openAt closeAt creator,
    d'.toTables = addElection name openAt closeAt creator d.toTables

/-- The commit of `open_election`. -/
structure ElectionOpened (L : Lib) (r : Request) (l : Loc) (d d' : Db) (e : Election)
    (keyId : PyStr) : Prop where
  request : ∃ cookie id, r = .openElection cookie id
  election : Held l .exclusive d e
  scanned : .elections ∈ l.scanned
  draft : e.status = .draft
  recovery : e.blindKeyRecoveryRequired = false
  none_open : ∀ {i e'}, d.elections.get? i = some e' → e'.status ≠ .open
  roster : SingleContest (d.roster e.id)
  anchor : ∀ {k}, e.blindSigningKeyId = some k → keyId = k
  key : ∃ k : KeyPair, keyId = fingerprint L k.publicKey
  after : ∃ openAt, d'.toTables = markOpen e.id keyId openAt d.toTables

/-- The commit of `close_election`. -/
structure ElectionClosed (r : Request) (l : Loc) (d d' : Db) (e : Election) : Prop where
  request : ∃ cookie id, r = .closeElection cookie id
  election : Held l .exclusive d e
  isOpen : e.status = .open
  after : ∃ closeAt, d'.toTables = markClosed e.id closeAt d.toTables

/-- The commit of `create_candidate`. -/
structure CandidateCreated (r : Request) (l : Loc) (d d' : Db) (e : Election) : Prop where
  request : ∃ cookie form, r = .createCandidate cookie form
  election : Held l .exclusive d e
  draft : e.status = .draft
  after : ∃ name party position regionId,
    d'.toTables = addCandidate name party position regionId e.id d.toTables

/-- The commit of `update_candidate`. -/
structure CandidateUpdated (r : Request) (l : Loc) (d d' : Db) (e : Election)
    (c : Candidate) : Prop where
  request : ∃ cookie id form, r = .updateCandidate cookie id form
  election : Held l .exclusive d e
  draft : e.status = .draft
  candidate : d.candidates.get? c.id = some c
  candidateElection : c.electionId = e.id
  after : ∃ c', c'.id = c.id ∧ d'.toTables = setCandidate c' d.toTables

/-- The commit of `delete_candidate`. -/
structure CandidateDeleted (r : Request) (l : Loc) (d d' : Db) (e : Election)
    (c : Candidate) : Prop where
  request : ∃ cookie id, r = .deleteCandidate cookie id
  election : Held l .exclusive d e
  draft : e.status = .draft
  candidate : d.candidates.get? c.id = some c
  candidateElection : c.electionId = e.id
  after : d'.toTables = dropCandidate c.id d.toTables

/-- The commit of `sign_election_results`. -/
structure ResultSigned (L : Lib) (r : Request) (l : Loc) (d d' : Db) (e : Election) : Prop where
  request : ∃ cookie body form, r = .signElectionResults cookie body form
  election : Held l .exclusive d e
  closed : e.status = .closed
  after : ∃ key signed signedAt signer, d'.toTables = addResult key e.id
    (dumps (electionResults e signedAt (d.tallies L e.id))) signed signedAt signer d.toTables

/-- The commit of `approve_user`, with the rows as loaded. -/
structure UserApproved (r : Request) (d d' : Db) (u : User) : Prop where
  request : ∃ cookie id, r = .approveUser cookie id
  after : ∃ enrolment, d'.toTables = markApproved u enrolment d.toTables

/-- The commit of `reject_user`, with the row as loaded. -/
structure UserRejected (L : Lib) (r : Request) (l : Loc) (d d' : Db) (u : User) : Prop where
  request : ∃ cookie id, r = .rejectUser cookie id
  loaded : r.loadedUser L l = some u
  present : (d.users.get? u.id).isSome
  after : d'.toTables = markRejected u d.toTables

/-- The commit of `verify_email`. -/
structure EmailVerified (r : Request) (d d' : Db) : Prop where
  request : ∃ token, r = .verifyEmail token
  after : ∃ id, d'.toTables = markVerified id d.toTables

/-- The commit of `change_password`, with the row as loaded. -/
structure PasswordChanged (L : Lib) (r : Request) (l : Loc) (d d' : Db) (u : User) : Prop where
  request : ∃ cookie form, r = .changePassword cookie form
  loaded : r.loadedUser L l = some u
  present : (d.users.get? u.id).isSome
  after : ∃ hash changedAt, d'.toTables = writePassword u hash changedAt d.toTables

/-- The commit of `reset_password`. -/
structure PasswordReset (L : Lib) (r : Request) (d d' : Db) (u : User) : Prop where
  request : ∃ token form data ts uid ver, r = .resetPassword token form ∧
    L.resetToken token = some (data, ts) ∧ resetClaims data = some (uid, ver) ∧
    (u.id : ℤ) = uid ∧ u.sessionVersion = ver
  user : d.users.get? u.id = some u
  after : ∃ hash changedAt, d'.toTables = writePassword u hash changedAt d.toTables

/-- The commit after `reconcile_open_election_keys`. -/
structure KeysAnchored (L : Lib) (r : Request) (l : Loc) (d d' : Db)
    (anchors : List (ℕ × PyStr)) : Prop where
  request : r = .anchorOpenElectionKeys
  anchored : ∀ a ∈ anchors, ∃ e, Held l .exclusive d e ∧ e.id = a.1 ∧ e.status = .open ∧
    e.blindSigningKeyId = none ∧ e.blindKeyRecoveryRequired = false ∧
    (∀ k ∈ d.tokens.rows, k.electionId ≠ e.id) ∧
    ∃ k : KeyPair, a.2 = fingerprint L k.publicKey
  complete : ∀ {i e'}, d'.elections.get? i = some e' → e'.status = .open →
    e'.blindSigningKeyId.isSome
  after : d'.toTables = anchorElections anchors d.toTables

/-- A commit that changes elections. -/
inductive ElectionAct (L : Lib) (r : Request) (l : Loc) (d d' : Db) : Prop
  | create (h : ElectionCreated r d d')
  | open {e keyId} (h : ElectionOpened L r l d d' e keyId)
  | close {e} (h : ElectionClosed r l d d' e)
  | anchor {anchors} (h : KeysAnchored L r l d d' anchors)

/-- A commit that changes a roster. -/
inductive CandidateAct (r : Request) (l : Loc) (d d' : Db) (e : Election) : Prop
  | create (h : CandidateCreated r l d d' e)
  | update {c} (h : CandidateUpdated r l d d' e c)
  | delete {c} (h : CandidateDeleted r l d d' e c)

/-- A commit that changes accounts. -/
inductive AccountAct (L : Lib) (r : Request) (l : Loc) (d d' : Db) : Prop
  | approve {u} (h : UserApproved r d d' u)
  | reject {u} (h : UserRejected L r l d d' u)
  | verifyEmail (h : EmailVerified r d d')
  | changePassword {u} (h : PasswordChanged L r l d d' u)
  | resetPassword {u} (h : PasswordReset L r d d' u)

/-- A commit of a request. -/
inductive Act (L : Lib) (r : Request) (l : Loc) (d d' : Db) : Prop
  | token {u e roll} (h : TokenIssue L r l d d' u e roll)
  | ballot {b e c} (h : BallotCast L r l d d' b e c)
  | vote {u e₀ c} (h : VoteCast L r l d d' u e₀ c)
  | election (h : ElectionAct L r l d d')
  | candidate {e} (h : CandidateAct r l d d' e)
  | sign {e} (h : ResultSigned L r l d d' e)
  | account (h : AccountAct L r l d d')

/-! ### Updates of the elections -/

/-- An update of one election row, as seen by key. -/
theorem get?_update_election {t : Table Election} {i j : ℕ} {f : Election → Election} {h}
    {e' : Election} (he : (t.update i f h).get? j = some e') :
    ∃ e, t.get? j = some e ∧ e' = if j = i then f e else e := by
  rw [Table.get?_update] at he
  split at he
  next hj =>
    obtain ⟨e, he₀, rfl⟩ := Option.map_eq_some_iff.mp he
    exact ⟨e, he₀, (if_pos hj).symm⟩
  next hj => exact ⟨e', he, (if_neg hj).symm⟩

/-- A change of one election row that is a step of its life evolves the table. -/
theorem evolves_update_election {t : Table Election} {i : ℕ} {f : Election → Election} {h}
    (hf : ∀ e, t.get? i = some e → ElectionEvolves e (f e)) {j : ℕ} {e : Election}
    (he : t.get? j = some e) :
    ∃ e', (t.update i f h).get? j = some e' ∧ ElectionEvolves e e' := by
  rw [Table.get?_update]
  split
  next hj =>
    subst hj
    exact ⟨f e, by rw [he]; rfl, hf e he⟩
  · exact ⟨e, he, .refl e⟩

theorem not_created_update_election {t : Table Election} {i : ℕ} {f : Election → Election} {h}
    {j : ℕ} {e' : Election} (hn : t.get? j = none) : (t.update i f h).get? j ≠ some e' := by
  intro he
  obtain ⟨e, he₀, -⟩ := get?_update_election he
  rw [hn] at he₀
  cases he₀

/-- The elections after a reconciliation: every anchored row gets its anchor, and nothing else
changes. -/
theorem get?_anchorElections (anchors : List (ℕ × PyStr)) (t : Tables) (i : ℕ) :
    (∃ e, t.elections.get? i = some e ∧
      ∃ key, (anchorElections anchors t).elections.get? i =
          some { e with blindSigningKeyId := key } ∧
        ((key = e.blindSigningKeyId ∧ ∀ a ∈ anchors, a.1 ≠ i) ∨
          ∃ a ∈ anchors, a.1 = i ∧ key = some a.2)) ∨
      (t.elections.get? i = none ∧ (anchorElections anchors t).elections.get? i = none) := by
  unfold anchorElections
  show (∃ e, t.elections.get? i = some e ∧ _) ∨ _
  generalize t.elections = es
  induction anchors generalizing es with
  | nil =>
    rcases hi : es.get? i with _ | e
    · exact Or.inr ⟨rfl, hi⟩
    · exact Or.inl ⟨e, rfl, e.blindSigningKeyId, hi, Or.inl ⟨rfl, by simp⟩⟩
  | cons a as ih =>
    rw [List.foldl_cons]
    set es' := es.update a.1 (fun e => { e with blindSigningKeyId := some a.2 }) fun _ => rfl
    rcases ih es' with ⟨e', he', key, hkey, hor⟩ | ⟨hn, hn'⟩
    · obtain ⟨e, he, rfl⟩ := get?_update_election he'
      refine Or.inl ⟨e, he, key, ?_, ?_⟩
      · rw [hkey]
        split <;> rfl
      · rcases hor with ⟨rfl, hne⟩ | ⟨b, hb, hi, rfl⟩
        · split
          next h => exact Or.inr ⟨a, List.mem_cons_self, h.symm, rfl⟩
          next h => exact Or.inl ⟨rfl, List.forall_mem_cons.mpr ⟨Ne.symm h, hne⟩⟩
        · exact Or.inr ⟨b, List.mem_cons_of_mem _ hb, hi, rfl⟩
    · refine Or.inr ⟨?_, hn'⟩
      rcases hi : es.get? i with _ | e
      · rfl
      · rw [show es'.get? i = _ from Table.get?_update, hi] at hn
        split at hn <;> cases hn

/-! ### What every commit leaves alone -/

section Frame

variable {L : Lib} {r : Request} {l : Loc} {d d' : Db}

/-- The votes of one election. -/
def Tables.votesFor (t : Tables) (i : ℕ) : List Vote := t.votes.rows.filter fun v => v.electionId = i

/-- The blind-signature tokens of one election. -/
def Tables.tokensFor (t : Tables) (i : ℕ) : List BlindSignatureToken :=
  t.tokens.rows.filter fun k => k.electionId = i

theorem filter_append_of_not {α : Type} {p : α → Bool} {as : List α} {a : α} (h : p a = false) :
    (as ++ [a]).filter p = as.filter p := by
  simp [h]

theorem update_user_keeps_role {t : Table User} {i : ℕ} {f : User → User} {h}
    (hf : ∀ u, (f u).roleId = u.roleId) {j : ℕ} {u : User} (hu : t.get? j = some u) :
    ∃ u', (t.update i f h).get? j = some u' ∧ u'.roleId = u.roleId := by
  rw [Table.get?_update, hu]
  split
  · exact ⟨f u, rfl, hf u⟩
  · exact ⟨u, rfl, rfl⟩

/-- Candidate rows of another election are not touched by an insert. -/
theorem roster_addCandidate {name party position regionId e i} (t : Tables) (hi : i ≠ e) :
    (addCandidate name party position regionId e t).roster i = t.roster i := by
  simp [addCandidate, Tables.roster, Ne.symm hi]

/-- Candidate rows of another election are not touched by an update. -/
theorem roster_setCandidate {c c' : Candidate} {t : Tables} {i : ℕ}
    (hc : t.candidates.get? c.id = some c) (hid : c'.id = c.id) (hi : i ≠ c.electionId) :
    (setCandidate c' t).roster i = t.roster i := by
  simp only [setCandidate, Tables.roster]
  refine Table.filter_update_of_not fun a ha => ?_
  rw [hid, hc] at ha
  cases ha
  simp [Ne.symm hi]

/-- Candidate rows of another election are not touched by a deletion. -/
theorem roster_dropCandidate {c : Candidate} {t : Tables} {i : ℕ}
    (hc : t.candidates.get? c.id = some c) (hi : i ≠ c.electionId) :
    (dropCandidate c.id t).roster i = t.roster i := by
  show (t.candidates.rows.filter _).filter _ = _
  rw [List.filter_filter]
  refine List.filter_congr fun a ha => ?_
  by_cases hid : a.id = c.id
  · have : a = c := Table.key_inj ha (Table.mem_of_get? hc) hid
    subst this
    simp [Ne.symm hi]
  · simp [hid]

theorem prefix_archive (key : Option ResultSigningPublicKey) (keys : List ResultSigningPublicKey) :
    keys <+: archive key keys := by
  unfold archive
  split
  · exact List.prefix_refl _
  · split
    · exact List.prefix_refl _
    · exact List.prefix_append _ _

/-- An election commit changes nothing but elections. -/
theorem ElectionAct.only (h : ElectionAct L r l d d') :
    ∃ es, d'.toTables = { d.toTables with elections := es } := by
  cases h with
  | create h =>
    obtain ⟨_, _, _, _, ha⟩ := h.after
    exact ⟨_, ha⟩
  | «open» h =>
    obtain ⟨_, ha⟩ := h.after
    exact ⟨_, ha⟩
  | close h =>
    obtain ⟨_, ha⟩ := h.after
    exact ⟨_, ha⟩
  | anchor h => exact ⟨_, h.after⟩

/-- A roster commit holds its draft election for update, changes nothing but the roster of that
election, and deletes votes only with their candidate. -/
theorem CandidateAct.only {e : Election} (h : CandidateAct r l d d' e) :
    Held l .exclusive d e ∧ e.status = .draft ∧
      (∃ cs vs, d'.toTables = { d.toTables with candidates := cs, votes := vs }) ∧
      (∀ i, i ≠ e.id → d'.roster i = d.roster i) ∧
      (d'.votes = d.votes ∨ ∃ c, CandidateDeleted r l d d' e c) := by
  cases h with
  | create h =>
    obtain ⟨name, party, position, regionId, ha⟩ := h.after
    exact ⟨h.election, h.draft, ⟨_, d.votes, ha⟩, fun i hi =>
      (congrArg (Tables.roster · i) ha :).trans (roster_addCandidate _ hi),
      Or.inl (congrArg Tables.votes ha :)⟩
  | update h =>
    obtain ⟨c', hid, ha⟩ := h.after
    exact ⟨h.election, h.draft, ⟨_, d.votes, ha⟩, fun i hi =>
      (congrArg (Tables.roster · i) ha :).trans
        (roster_setCandidate h.candidate hid (h.candidateElection ▸ hi)),
      Or.inl (congrArg Tables.votes ha :)⟩
  | delete h =>
    exact ⟨h.election, h.draft, ⟨_, _, h.after⟩, fun i hi =>
      (congrArg (Tables.roster · i) h.after :).trans
        (roster_dropCandidate h.candidate (h.candidateElection ▸ hi)), Or.inr ⟨_, h⟩⟩

/-- An account commit changes nothing but accounts. -/
theorem AccountAct.only (h : AccountAct L r l d d') :
    ∃ us rs, d'.toTables = { d.toTables with users := us, rolls := rs } ∧
      ∀ {i u}, d.users.get? i = some u → ∃ u', us.get? i = some u' ∧ u'.roleId = u.roleId := by
  cases h with
  | approve h =>
    obtain ⟨enrolment, ha⟩ := h.after
    exact ⟨_, _, ha, fun hu => update_user_keeps_role (by exact fun _ => rfl) hu⟩
  | reject h =>
    exact ⟨_, d.rolls, h.after, fun hu => update_user_keeps_role (by exact fun _ => rfl) hu⟩
  | verifyEmail h =>
    obtain ⟨id, ha⟩ := h.after
    exact ⟨_, d.rolls, ha, fun hu => update_user_keeps_role (by exact fun _ => rfl) hu⟩
  | changePassword h =>
    obtain ⟨hash, changedAt, ha⟩ := h.after
    exact ⟨_, d.rolls, ha, fun hu => update_user_keeps_role (by exact fun _ => rfl) hu⟩
  | resetPassword h =>
    obtain ⟨hash, changedAt, ha⟩ := h.after
    exact ⟨_, d.rolls, ha, fun hu => update_user_keeps_role (by exact fun _ => rfl) hu⟩

theorem ElectionAct.evolves (h : ElectionAct L r l d d') : Evolves d d' := by
  cases h with
  | create h =>
    obtain ⟨name, openAt, closeAt, creator, ha⟩ := h.after
    refine .of_elections ha (fun he => ⟨_, Table.get?_insert_of_isSome he, .refl _⟩)
      fun hn he' => ?_
    rcases Table.get?_insert_eq_some he' with he' | ⟨-, rfl⟩
    · rw [hn] at he'
      cases he'
    · exact ⟨rfl, fun h => absurd rfl h⟩
  | @«open» e keyId h =>
    obtain ⟨openAt, ha⟩ := h.after
    refine .of_elections ha (fun he => evolves_update_election (fun e₀ he₀ => ?_) he)
      fun hn he' => absurd he' (not_created_update_election hn)
    obtain rfl : e₀ = e := Option.some.inj (he₀.symm.trans h.election.row)
    refine ⟨by rw [h.draft]; exact Nat.zero_le _, fun hk => ?_, rfl, fun _ _ => ⟨rfl, h.recovery⟩⟩
    show some keyId = _
    rw [h.anchor hk]
  | @close e h =>
    obtain ⟨closeAt, ha⟩ := h.after
    refine .of_elections ha (fun he => evolves_update_election (fun e₀ he₀ => ?_) he)
      fun hn he' => absurd he' (not_created_update_election hn)
    obtain rfl : e₀ = e := Option.some.inj (he₀.symm.trans h.election.row)
    refine ⟨by rw [h.isOpen]; exact Nat.le_succ 1, fun hk => hk, rfl, fun hd => ?_⟩
    rw [h.isOpen] at hd
    cases hd
  | @anchor anchors h =>
    refine .of_elections h.after (fun {i e} he => ?_) fun {i e'} hn he' => ?_
    · rcases get?_anchorElections anchors d.toTables i with ⟨e₀, he₀, key, hkey, hor⟩ | ⟨hn, -⟩
      · obtain rfl : e₀ = e := Option.some.inj (he₀.symm.trans he)
        refine ⟨_, hkey, le_rfl, fun {k} hk => ?_, rfl, fun hd hne => absurd hd hne⟩
        rcases hor with ⟨rfl, -⟩ | ⟨a, ha, rfl, -⟩
        · exact hk
        · obtain ⟨e₁, held, hid, -, hnone, -⟩ := h.anchored a ha
          have hrow := held.row
          rw [hid, he] at hrow
          cases hrow
          rw [hnone] at hk
          cases hk
      · rw [hn] at he
        cases he
    · rcases get?_anchorElections anchors d.toTables i with ⟨e₀, he₀, -⟩ | ⟨-, hn'⟩
      · rw [hn] at he₀
        cases he₀
      · cases hn'.symm.trans he'

/-- **Every commit evolves the database.** -/
theorem Act.evolves (h : Act L r l d d') : Evolves d d' := by
  cases h with
  | token h =>
    have ha := h.after
    refine .of_append (congrArg Tables.roles ha :) (congrArg Tables.regions ha :)
      (congrArg Tables.users ha :) (congrArg Tables.elections ha :)
      (congrArg Tables.candidates ha :) ?_ (prefix_of_eq (congrArg (·.receipts.rows) ha :))
      (prefix_of_eq (congrArg (·.nullifiers.rows) ha :))
      (prefix_of_eq (congrArg (·.results.rows) ha :)) (prefix_of_eq (congrArg (·.resultKeys) ha :))
    rw [show d'.tokens = _ from (congrArg Tables.tokens ha :)]
    exact List.prefix_append _ _
  | ballot h =>
    obtain ⟨token, ts, spentAt, ha⟩ := h.after
    refine .of_append (congrArg Tables.roles ha :) (congrArg Tables.regions ha :)
      (congrArg Tables.users ha :) (congrArg Tables.elections ha :)
      (congrArg Tables.candidates ha :) (prefix_of_eq (congrArg (·.tokens.rows) ha :))
      (prefix_of_eq (congrArg (·.receipts.rows) ha :)) ?_
      (prefix_of_eq (congrArg (·.results.rows) ha :)) (prefix_of_eq (congrArg (·.resultKeys) ha :))
    rw [show d'.nullifiers = _ from (congrArg Tables.nullifiers ha :)]
    exact List.prefix_append _ _
  | vote h =>
    obtain ⟨token, ts, now, ha⟩ := h.after
    refine .of_append (congrArg Tables.roles ha :) (congrArg Tables.regions ha :)
      (congrArg Tables.users ha :) (congrArg Tables.elections ha :)
      (congrArg Tables.candidates ha :) (prefix_of_eq (congrArg (·.tokens.rows) ha :)) ?_
      (prefix_of_eq (congrArg (·.nullifiers.rows) ha :))
      (prefix_of_eq (congrArg (·.results.rows) ha :)) (prefix_of_eq (congrArg (·.resultKeys) ha :))
    rw [show d'.receipts = _ from (congrArg Tables.receipts ha :)]
    exact List.prefix_append _ _
  | election h => exact h.evolves
  | candidate h =>
    obtain ⟨held, hdraft, ⟨cs, vs, ha⟩, hroster, -⟩ := h.only
    exact .of_candidates ha held.row hdraft hroster
  | sign h =>
    obtain ⟨key, signed, signedAt, signer, ha⟩ := h.after
    refine .of_append (congrArg Tables.roles ha :) (congrArg Tables.regions ha :)
      (congrArg Tables.users ha :) (congrArg Tables.elections ha :)
      (congrArg Tables.candidates ha :) (prefix_of_eq (congrArg (·.tokens.rows) ha :))
      (prefix_of_eq (congrArg (·.receipts.rows) ha :))
      (prefix_of_eq (congrArg (·.nullifiers.rows) ha :)) ?_ ?_
    · rw [show d'.results = _ from (congrArg Tables.results ha :)]
      exact List.prefix_append _ _
    · rw [show d'.resultKeys = _ from (congrArg Tables.resultKeys ha :)]
      exact prefix_archive _ _
  | account h =>
    obtain ⟨us, rs, ha, hus⟩ := h.only
    exact .of_users ha hus

/-! ### What a commit leaves alone under the locks of others -/

/-- A roster changes only under an exclusive lock on its election. -/
theorem Act.roster_eq (h : Act L r l d d') {i : ℕ}
    (hi : (RowId.election i, Mode.exclusive) ∉ l.held) : d'.roster i = d.roster i := by
  cases h with
  | token h => exact (congrArg (Tables.roster · i) h.after :)
  | ballot h =>
    obtain ⟨_, _, _, ha⟩ := h.after
    exact (congrArg (Tables.roster · i) ha :)
  | vote h =>
    obtain ⟨_, _, _, ha⟩ := h.after
    exact (congrArg (Tables.roster · i) ha :)
  | election h =>
    obtain ⟨_, ha⟩ := h.only
    exact (congrArg (Tables.roster · i) ha :)
  | candidate h =>
    obtain ⟨held, -, -, hroster, -⟩ := h.only
    exact hroster i fun he => hi (he ▸ held.lock)
  | sign h =>
    obtain ⟨_, _, _, _, ha⟩ := h.after
    exact (congrArg (Tables.roster · i) ha :)
  | account h =>
    obtain ⟨_, _, ha, -⟩ := h.only
    exact (congrArg (Tables.roster · i) ha :)

/-- What a commit does to the votes: nothing, one ballot more under a lock on its election, or
the deletion of a draft candidate's votes. -/
theorem Act.votes_cases (h : Act L r l d d') :
    d'.votes = d.votes ∨
      (∃ v m, d'.votes.rows = d.votes.rows ++ [v] ∧ (RowId.election v.electionId, m) ∈ l.held) ∨
      ∃ e c, CandidateDeleted r l d d' e c := by
  cases h with
  | token h => exact Or.inl (congrArg Tables.votes h.after :)
  | ballot h =>
    obtain ⟨_, _, _, ha⟩ := h.after
    exact Or.inr (Or.inl ⟨_, _, (congrArg (·.votes.rows) ha :), h.election.lock⟩)
  | vote h =>
    obtain ⟨_, _, _, ha⟩ := h.after
    obtain ⟨e, held, hid⟩ := h.election
    exact Or.inr (Or.inl ⟨_, _, (congrArg (·.votes.rows) ha :), hid ▸ held.lock⟩)
  | election h =>
    obtain ⟨_, ha⟩ := h.only
    exact Or.inl (congrArg Tables.votes ha :)
  | candidate h =>
    obtain ⟨-, -, -, -, hv | ⟨c, hc⟩⟩ := h.only
    · exact Or.inl hv
    · exact Or.inr (Or.inr ⟨_, c, hc⟩)
  | sign h =>
    obtain ⟨_, _, _, _, ha⟩ := h.after
    exact Or.inl (congrArg Tables.votes ha :)
  | account h =>
    obtain ⟨_, _, ha, -⟩ := h.only
    exact Or.inl (congrArg Tables.votes ha :)

/-- Deleting a candidate leaves the votes of other elections alone. -/
theorem CandidateDeleted.votesFor_eq {e : Election} {c : Candidate}
    (h : CandidateDeleted r l d d' e c) {i : ℕ} (hi : i ≠ e.id) :
    d'.votesFor i = d.votesFor i := by
  rw [Tables.votesFor, show d'.votes.rows = _ from (congrArg (·.votes.rows) h.after :)]
  show (d.votes.rows.filter _).filter _ = d.votes.rows.filter _
  rw [List.filter_filter]
  refine List.filter_congr fun v hv => ?_
  by_cases hid : v.candidateId = c.id
  · obtain ⟨c', hc', he⟩ := d.exists_candidate hv
    rw [hid, h.candidate] at hc'
    cases hc'
    simp only [hid, ne_eq, not_true_eq_false, decide_false, Bool.and_false, Bool.false_eq,
      decide_eq_false_iff_not]
    exact fun hv' => hi (by rw [← hv', ← he, h.candidateElection])
  · simp [hid]

/-- The votes of an election change only under a lock on it. -/
theorem Act.votesFor_eq (h : Act L r l d d') {i : ℕ} (hi : ∀ m, (RowId.election i, m) ∉ l.held) :
    d'.votesFor i = d.votesFor i := by
  rcases h.votes_cases with hv | ⟨v, m, hv, hm⟩ | ⟨e, c, hd⟩
  · rw [Tables.votesFor, Tables.votesFor, hv]
  · rw [Tables.votesFor, Tables.votesFor, hv]
    exact filter_append_of_not (by simpa using fun he : v.electionId = i => hi m (he ▸ hm))
  · exact hd.votesFor_eq fun he => hi .exclusive (he ▸ hd.election.lock)

/-- What a commit does to the tokens: nothing, or one more. -/
theorem Act.tokens_cases (h : Act L r l d d') :
    d'.tokens = d.tokens ∨ ∃ u e roll, TokenIssue L r l d d' u e roll := by
  cases h with
  | token h => exact Or.inr ⟨_, _, _, h⟩
  | ballot h =>
    obtain ⟨_, _, _, ha⟩ := h.after
    exact Or.inl (congrArg Tables.tokens ha :)
  | vote h =>
    obtain ⟨_, _, _, ha⟩ := h.after
    exact Or.inl (congrArg Tables.tokens ha :)
  | election h =>
    obtain ⟨_, ha⟩ := h.only
    exact Or.inl (congrArg Tables.tokens ha :)
  | candidate h =>
    obtain ⟨-, -, ⟨_, _, ha⟩, -⟩ := h.only
    exact Or.inl (congrArg Tables.tokens ha :)
  | sign h =>
    obtain ⟨_, _, _, _, ha⟩ := h.after
    exact Or.inl (congrArg Tables.tokens ha :)
  | account h =>
    obtain ⟨_, _, ha, -⟩ := h.only
    exact Or.inl (congrArg Tables.tokens ha :)

/-- What a commit does to the receipts: nothing, or one more. -/
theorem Act.receipts_cases (h : Act L r l d d') :
    d'.receipts = d.receipts ∨ ∃ u e₀ c, VoteCast L r l d d' u e₀ c := by
  cases h with
  | token h => exact Or.inl (congrArg Tables.receipts h.after :)
  | ballot h =>
    obtain ⟨_, _, _, ha⟩ := h.after
    exact Or.inl (congrArg Tables.receipts ha :)
  | vote h => exact Or.inr ⟨_, _, _, h⟩
  | election h =>
    obtain ⟨_, ha⟩ := h.only
    exact Or.inl (congrArg Tables.receipts ha :)
  | candidate h =>
    obtain ⟨-, -, ⟨_, _, ha⟩, -⟩ := h.only
    exact Or.inl (congrArg Tables.receipts ha :)
  | sign h =>
    obtain ⟨_, _, _, _, ha⟩ := h.after
    exact Or.inl (congrArg Tables.receipts ha :)
  | account h =>
    obtain ⟨_, _, ha, -⟩ := h.only
    exact Or.inl (congrArg Tables.receipts ha :)

/-- The tokens of an election change only under a lock on it. -/
theorem Act.tokensFor_eq (h : Act L r l d d') {i : ℕ} (hi : ∀ m, (RowId.election i, m) ∉ l.held) :
    d'.tokensFor i = d.tokensFor i := by
  rcases h.tokens_cases with ht | ⟨u, e, roll, h⟩
  · rw [Tables.tokensFor, Tables.tokensFor, ht]
  · have hne : e.id ≠ i := fun he => hi .share (he ▸ h.election.lock)
    rw [Tables.tokensFor, Tables.tokensFor, show d'.tokens.rows = d.tokens.rows ++ [_] from
      (congrArg (·.tokens.rows) h.after :)]
    exact filter_append_of_not (by simpa using hne)

/-- What a commit does to the elections: nothing, or an election commit. -/
theorem Act.elections_cases (h : Act L r l d d') :
    d'.elections = d.elections ∨ ElectionAct L r l d d' := by
  cases h with
  | token h => exact Or.inl (congrArg Tables.elections h.after :)
  | ballot h =>
    obtain ⟨_, _, _, ha⟩ := h.after
    exact Or.inl (congrArg Tables.elections ha :)
  | vote h =>
    obtain ⟨_, _, _, ha⟩ := h.after
    exact Or.inl (congrArg Tables.elections ha :)
  | election h => exact Or.inr h
  | candidate h =>
    obtain ⟨-, -, ⟨_, _, ha⟩, -⟩ := h.only
    exact Or.inl (congrArg Tables.elections ha :)
  | sign h =>
    obtain ⟨_, _, _, _, ha⟩ := h.after
    exact Or.inl (congrArg Tables.elections ha :)
  | account h =>
    obtain ⟨_, _, ha, -⟩ := h.only
    exact Or.inl (congrArg Tables.elections ha :)

/-- An open election was open before the commit, or has been opened by it. -/
theorem Act.open_cases (h : Act L r l d d') {i : ℕ} {e' : Election}
    (he' : d'.elections.get? i = some e') (hopen : e'.status = .open) :
    (∃ e, d.elections.get? i = some e ∧ e.status = .open) ∨
      ∃ e keyId, ElectionOpened L r l d d' e keyId ∧ i = e.id := by
  rcases h.elections_cases with he | h
  · exact Or.inl ⟨e', he ▸ he', hopen⟩
  cases h with
  | create h =>
    obtain ⟨_, _, _, _, ha⟩ := h.after
    rw [show d'.elections = _ from (congrArg Tables.elections ha :)] at he'
    rcases Table.get?_insert_eq_some he' with he' | ⟨-, rfl⟩
    · exact Or.inl ⟨e', he', hopen⟩
    · cases hopen
  | @«open» e keyId h =>
    obtain ⟨_, ha⟩ := h.after
    rw [show d'.elections = _ from (congrArg Tables.elections ha :)] at he'
    simp only [markOpen] at he'
    obtain ⟨e₁, he₁, rfl⟩ := get?_update_election he'
    split at hopen
    next hi => exact Or.inr ⟨e, keyId, h, hi⟩
    · exact Or.inl ⟨e₁, he₁, hopen⟩
  | close h =>
    obtain ⟨_, ha⟩ := h.after
    rw [show d'.elections = _ from (congrArg Tables.elections ha :)] at he'
    simp only [markClosed] at he'
    obtain ⟨e, he, rfl⟩ := get?_update_election he'
    split at hopen
    · cases hopen
    · exact Or.inl ⟨e, he, hopen⟩
  | anchor h =>
    rw [show d'.elections = _ from (congrArg Tables.elections h.after :)] at he'
    rcases get?_anchorElections _ d.toTables i with ⟨e, he, key, hkey, -⟩ | ⟨-, hn⟩
    · rw [hkey] at he'
      cases he'
      exact Or.inl ⟨e, he, hopen⟩
    · rw [hn] at he'
      cases he'

/-- An election is opened only after a scan of the table under lock. -/
theorem Act.open_of_open (h : Act L r l d d') (hscan : TableName.elections ∉ l.scanned) {i : ℕ}
    {e' : Election} (he' : d'.elections.get? i = some e') (hopen : e'.status = .open) :
    ∃ e, d.elections.get? i = some e ∧ e.status = .open := by
  rcases h.open_cases he' hopen with h | ⟨e, keyId, h, -⟩
  · exact h
  · exact absurd h.scanned hscan

/-- The tally of an election is a function of its roster, its votes and the regions. -/
theorem tallies_congr {t t' : Tables} {i : ℕ} (hroster : t'.roster i = t.roster i)
    (hvotes : t'.votesFor i = t.votesFor i) (hregions : t'.regions = t.regions) :
    t'.tallies L i = t.tallies L i := by
  have hcount : ∀ t : Tables, ∀ c ∈ t.roster i, t.voteCount c =
      (t.votesFor i).countP fun v => v.candidateId = c.id := by
    intro t c hc
    rw [Tables.voteCount, Tables.votesFor, List.countP_filter, (mem_roster.mp hc).2]
    exact List.countP_congr fun v _ => by simp
  have htally : ∀ c ∈ t.roster i, t'.tally c = t.tally c := by
    intro c hc
    rw [Tables.tally, Tables.tally, hcount t c hc, hcount t' c (hroster ▸ hc), hvotes, hregions]
  rw [Tables.tallies, Tables.tallies, hroster, List.filterMap_congr htally]

end Frame

end SecureVote
