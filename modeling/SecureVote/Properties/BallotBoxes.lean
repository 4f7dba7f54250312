import SecureVote.Ballots
import SecureVote.Verified.Commits
import SecureVote.Properties.BallotStuffing
import SecureVote.Properties.SignedResults

/-!
# The elections of the database are ballot boxes

The committed state represents a board of `Ballots`, and every commit is one operation on it, on the
election that the request names (`Act.performs`).
-/

open Txn Txn.Rules Ballots

namespace SecureVote

open Py

variable {L : Lib} {E : Environment} {r : Request} {l : Loc} {d d' : Db}

/-! ### The board of a database state -/

/-- The phase of an election with this status. -/
def ElectionStatus.phase : ElectionStatus → Phase
  | .draft => .draft
  | .open => .open
  | .closed => .closed

/-- The users who pass the voter checks. -/
def Db.eligible (d : Db) : Set ℕ := {v | ∃ u roll, Eligible d u roll ∧ u.id = v}

/-- The box of the election `i` in this status, with the result that has been declared for it. -/
def Db.ballotBox (d : Db) (i : ℕ) (declared : Option (Multiset ℕ)) (status : ElectionStatus) :
    Box ℕ ℕ PyStr where
  phase := status.phase
  roster := {c | ∃ x ∈ d.roster i, x.id = c}
  authorized := {v | ∃ k ∈ d.tokensFor i, k.userId = v}
  cast := ((d.votesFor i).map Vote.candidateId : List ℕ)
  marks := {m | ∃ n ∈ d.nullifiersFor i, n.nullifierHash = m}
  voted := {v | ∃ x ∈ d.receiptsFor i, x.userId = v}
  declared := declared

/-- The box of the election `i`, if there is one. -/
def Db.boxAt (d : Db) (i : ℕ) (declared : Option (Multiset ℕ)) : Option (Box ℕ ℕ PyStr) :=
  ((d.elections.get? i).map Election.status).map (d.ballotBox i declared)

/-- The payload of the signed result is a tally of the ballots `m`. -/
def SignedElectionResult.counts (x : SignedElectionResult) (m : Multiset ℕ) : Prop :=
  ∃ e signedAt cs votes rows, x.payload = dumps (electionResults e signedAt rows) ∧
    e.id = x.electionId ∧ Counts cs votes rows ∧ m = (votes.map Vote.candidateId : List ℕ)

/-- The results stored for the election `i` are what has been declared. -/
def Published (rows : List SignedElectionResult) (i : ℕ) : Option (Multiset ℕ) → Prop
  | none => ∀ x ∈ rows, x.electionId ≠ i
  | some m => ∃ x ∈ rows, x.electionId = i ∧ x.counts m

/-- The database state represents the board. -/
structure Represents (d : Db) (b : Board ℕ ℕ ℕ PyStr) : Prop where
  eligible : b.eligible = d.eligible
  box : ∀ i, ∃ t, b.box i = d.boxAt i t ∧ Published d.results.rows i t

theorem eligible_congr (husers : d'.users = d.users) (hroles : d'.roles = d.roles)
    (hrolls : d'.rolls = d.rolls) : d'.eligible = d.eligible := by
  have hiff : ∀ u roll, Eligible d' u roll ↔ Eligible d u roll := by
    intro u roll
    have hname : d'.roleName u = d.roleName u := by rw [Tables.roleName, Tables.roleName, hroles]
    have henrol : ∀ i, d'.enrolment i = d.enrolment i := fun i => by
      rw [Tables.enrolment, Tables.enrolment, hrolls]
    constructor
    · rintro ⟨h₁, h₂, h₃, h₄, h₅, h₆, h₇⟩
      exact ⟨husers ▸ h₁, h₂, h₃, hname ▸ h₄, henrol u.id ▸ h₅, h₆, h₇⟩
    · rintro ⟨h₁, h₂, h₃, h₄, h₅, h₆, h₇⟩
      exact ⟨husers.symm ▸ h₁, h₂, h₃, hname.symm ▸ h₄, henrol u.id ▸ h₅, h₆, h₇⟩
  ext v
  exact exists_congr fun u => exists_congr fun roll => and_congr_left' (hiff u roll)

theorem boxAt_of_get? {i : ℕ} {e : Election} (he : d.elections.get? i = some e)
    (t : Option (Multiset ℕ)) : d.boxAt i t = some (d.ballotBox i t e.status) := by
  rw [Db.boxAt, he]
  rfl

/-- The rows of the election `i` outside of its own row are the same. -/
structure SameRows (i : ℕ) (d d' : Db) : Prop where
  roster : d'.roster i = d.roster i
  tokens : d'.tokensFor i = d.tokensFor i
  votes : d'.votesFor i = d.votesFor i
  nullifiers : d'.nullifiersFor i = d.nullifiersFor i
  receipts : d'.receiptsFor i = d.receiptsFor i

theorem SameRows.ballotBox_eq {i : ℕ} (h : SameRows i d d') (t : Option (Multiset ℕ))
    (status : ElectionStatus) : d'.ballotBox i t status = d.ballotBox i t status := by
  unfold Db.ballotBox
  rw [h.roster, h.tokens, h.votes, h.nullifiers, h.receipts]

theorem SameRows.boxAt_eq {i : ℕ} (h : SameRows i d d') (he : (d'.elections.get? i).map
      Election.status = (d.elections.get? i).map Election.status) (t : Option (Multiset ℕ)) :
    d'.boxAt i t = d.boxAt i t := by
  unfold Db.boxAt
  rw [he]
  exact Option.map_congr fun status _ => h.ballotBox_eq t status

/-- A commit that changes one box by an operation on it. -/
theorem Represents.move {b : Board ℕ ℕ ℕ PyStr} (h : Represents d b) {i : ℕ}
    {m : Move ℕ ℕ PyStr} (heligible : d'.eligible = d.eligible)
    (hresults : d'.results.rows = d.results.rows)
    (hother : ∀ j, j ≠ i → ∀ t, d'.boxAt j t = d.boxAt j t)
    (hi : ∀ t, d'.boxAt i t = (d.boxAt i t).map m.act) :
    Represents d' (spec.apply b (.move i m)) where
  eligible := h.eligible.trans heligible.symm
  box j := by
    obtain ⟨t, hbox, hpub⟩ := h.box j
    refine ⟨t, ?_, hresults ▸ hpub⟩
    by_cases hj : j = i
    · subst hj
      rw [hi, ← hbox]
      exact Function.update_self _ _ _
    · rw [hother j hj, ← hbox]
      exact Function.update_of_ne hj _ _

/-- A commit that changes no box. -/
theorem Represents.keep {b : Board ℕ ℕ ℕ PyStr} (h : Represents d b)
    (hresults : d'.results.rows = d.results.rows)
    (hbox : ∀ j t, d'.boxAt j t = d.boxAt j t) :
    Represents d' { b with eligible := d'.eligible } where
  eligible := rfl
  box j := by
    obtain ⟨t, hb, hpub⟩ := h.box j
    exact ⟨t, hb.trans (hbox j t).symm, hresults ▸ hpub⟩

/-- An election without a row has no other rows. -/
theorem Db.rows_of_none (d : Db) {i : ℕ} (h : d.elections.get? i = none) :
    d.roster i = [] ∧ d.tokensFor i = [] ∧ d.votesFor i = [] ∧ d.nullifiersFor i = [] ∧
      d.receiptsFor i = [] ∧ ∀ x ∈ d.results.rows, x.electionId ≠ i := by
  have hnone : ∀ {j : ℕ}, (d.elections.get? j).isSome → j ≠ i := by
    rintro j hj rfl
    rw [h] at hj
    cases hj
  refine ⟨?_, ?_, ?_, ?_, ?_, fun x hx => hnone (d.ok.results_fk x hx)⟩
  · exact List.filter_eq_nil_iff.mpr fun c hc => by
      simpa using hnone (d.ok.candidates_election c hc)
  · exact List.filter_eq_nil_iff.mpr fun k hk => by simpa using hnone (d.ok.tokens_election k hk)
  · refine List.filter_eq_nil_iff.mpr fun v hv => ?_
    obtain ⟨c, hc, -, he⟩ := d.ok.votes_candidate v hv
    simpa using he ▸ hnone (d.ok.candidates_election c hc)
  · exact List.filter_eq_nil_iff.mpr fun n hn => by
      simpa using hnone (d.ok.nullifiers_election n hn)
  · exact List.filter_eq_nil_iff.mpr fun x hx => by simpa using hnone (d.ok.receipts_election x hx)

/-! ### What a request asks for -/

/-- The request changes an account. -/
def Request.changesAccounts : Request → Bool
  | .approveUser _ _ | .rejectUser _ _ | .verifyEmail _ | .changePassword _ _
  | .resetPassword _ _ => true
  | _ => false

/-- The operation that a request asks for. -/
inductive Asks (L : Lib) : Request → Op ℕ ℕ ℕ PyStr → Prop
  | account {r vs} (h : r.changesAccounts = true) : Asks L r (.enrol vs)
  | createElection {cookie form} {i : ℕ} : Asks L (.createElection cookie form) (.create i)
  | createCandidate {cookie form} {i : ℕ} {cs} (h : int 10 (form.electionId.getD []) = some (i : ℤ)) :
      Asks L (.createCandidate cookie form) (.move i (.amend cs))
  | updateCandidate {cookie c form} {i : ℕ} {cs} :
      Asks L (.updateCandidate cookie c form) (.move i (.amend cs))
  | deleteCandidate {cookie c i cs} : Asks L (.deleteCandidate cookie c) (.move i (.amend cs))
  | openElection {cookie i} : Asks L (.openElection cookie i) (.move i .open)
  | requestBlindToken {cookie data body} {i v : ℕ} (h : parseTokenRequest data = .ok (body, (i : ℤ)))
      (hv : (Request.requestBlindToken cookie data).subject L = some (v : ℤ)) :
      Asks L (.requestBlindToken cookie data) (.move i (.authorize v))
  | castAnonymousBallot {data b} {i c : ℕ} (h : parseBallot L data = .ok b)
      (hi : (i : ℤ) = b.electionId) (hc : (c : ℤ) = b.candidateId) :
      Asks L (.castAnonymousBallot data) (.move i (.cast c (nullifierHash L b.nonce)))
  | castVote {v c e i} : Asks L (.castVote v c e) (.move i (.vote c v))
  | closeElection {cookie i} : Asks L (.closeElection cookie i) (.move i .close)
  | signElectionResults {cookie body form} {i : ℕ} (h : signElectionId body form = .ok (i : ℤ)) :
      Asks L (.signElectionResults cookie body form) (.move i .declare)
  | anchorKeys : Asks L .anchorOpenElectionKeys .keep

/-! ### Every commit is an operation -/

/-- The commit from `d` to `d'` is an operation on the board. -/
def Performs (L : Lib) (r : Request) (d' : Db) (b : Board ℕ ℕ ℕ PyStr) : Prop :=
  ∃ a, Asks L r a ∧ spec.allows b a ∧ Represents d' (spec.apply b a)

variable {b : Board ℕ ℕ ℕ PyStr}

/-- The box of an election that the state has. -/
theorem Represents.box_of_get? (h : Represents d b) {i : ℕ} {e : Election}
    (he : d.elections.get? i = some e) : ∃ t, b.box i = some (d.ballotBox i t e.status) ∧
      Published d.results.rows i t := by
  obtain ⟨t, hbox, hpub⟩ := h.box i
  exact ⟨t, hbox.trans (boxAt_of_get? he t), hpub⟩

/-- The row that a table gets anew differs from the others in every unique column. -/
theorem ne_of_nodup_append {α β : Type} {f : α → β} {as : List α} {a x : α}
    (h : ((as ++ [a]).map f).Nodup) (hx : x ∈ as) : f x ≠ f a := by
  rw [List.map_append, List.nodup_append] at h
  exact h.2.2 _ (List.mem_map_of_mem hx) _ (List.mem_singleton_self _)

theorem filter_append_of_pos {α : Type} {p : α → Bool} {as : List α} {a : α} (h : p a = true) :
    (as ++ [a]).filter p = as.filter p ++ [a] := by
  simp [h]

theorem TokenIssue.performs {u : User} {e : Election} {roll : ElectoralRoll}
    (h : TokenIssue L r l d d' u e roll) (hb : Represents d b) : Performs L r d' b := by
  obtain ⟨cookie, data, body, rfl, hbody⟩ := h.request
  have ha := h.after
  have hrows : d'.tokens.rows = d.tokens.rows ++ [⟨d.tokens.next, u.id, e.id⟩] :=
    (congrArg (·.tokens.rows) ha :)
  have helections : d'.elections = d.elections := (congrArg Tables.elections ha :)
  obtain ⟨t, hbox, -⟩ := hb.box_of_get? h.election.row
  refine ⟨.move e.id (.authorize u.id), .requestBlindToken hbody h.subject,
    ⟨_, hbox, by rw [h.isOpen]; rfl, ?_, ?_⟩, hb.move ?_ ?_ (fun j hj => ?_) fun t => ?_⟩
  · rw [hb.eligible]
    exact ⟨u, roll, h.voter, rfl⟩
  · -- the voter has no token yet: the pair of voter and election is unique
    rintro ⟨k, hk, hku⟩
    obtain ⟨hmem, hke⟩ := List.mem_filter.mp hk
    have hnodup := d'.ok.tokens_user_election
    rw [hrows] at hnodup
    exact ne_of_nodup_append hnodup hmem (by simpa [hku] using hke)
  · exact eligible_congr (congrArg Tables.users ha :) (congrArg Tables.roles ha :)
      (congrArg Tables.rolls ha :)
  · exact (congrArg (·.results.rows) ha :)
  · refine SameRows.boxAt_eq ⟨(congrArg (Tables.roster · j) ha :), ?_,
      (congrArg (Tables.votesFor · j) ha :), (congrArg (Tables.nullifiersFor · j) ha :),
      (congrArg (Tables.receiptsFor · j) ha :)⟩ (by rw [helections])
    rw [Tables.tokensFor, Tables.tokensFor, hrows]
    exact filter_append_of_not (by simpa using Ne.symm hj)
  · rw [boxAt_of_get? (helections ▸ h.election.row), boxAt_of_get? h.election.row]
    refine congrArg some (Box.ext rfl ?_ ?_ ?_ ?_ ?_ rfl)
    · exact (congrArg (fun t => {c | ∃ x ∈ Tables.roster t e.id, x.id = c}) ha :)
    · ext v
      simp [Db.ballotBox, Move.act, Tables.tokensFor, hrows, or_and_right, exists_or, or_comm,
        eq_comm]
    · exact (congrArg (fun t => (((Tables.votesFor t e.id).map Vote.candidateId : List ℕ) :
        Multiset ℕ)) ha :)
    · exact (congrArg (fun t => {m | ∃ n ∈ Tables.nullifiersFor t e.id, n.nullifierHash = m}) ha :)
    · exact (congrArg (fun t => {v | ∃ x ∈ Tables.receiptsFor t e.id, x.userId = v}) ha :)

/-- What a new vote adds to the ballots of its election. -/
theorem cast_append {v : Vote} (h : d'.votes.rows = d.votes.rows ++ [v]) (t : Option (Multiset ℕ))
    (status : ElectionStatus) : (d'.ballotBox v.electionId t status).cast =
      v.candidateId ::ₘ (d.ballotBox v.electionId t status).cast := by
  have hvotes : d'.votesFor v.electionId = d.votesFor v.electionId ++ [v] := by
    rw [Tables.votesFor, h]
    exact filter_append_of_pos (by simp)
  show (((d'.votesFor v.electionId).map Vote.candidateId : List ℕ) : Multiset ℕ) = _
  rw [hvotes, List.map_append]
  exact Multiset.coe_eq_coe.mpr (List.perm_append_singleton _ _)

theorem votesFor_append_of_ne {v : Vote} (h : d'.votes.rows = d.votes.rows ++ [v]) {j : ℕ}
    (hj : j ≠ v.electionId) : d'.votesFor j = d.votesFor j := by
  rw [Tables.votesFor, Tables.votesFor, h]
  exact filter_append_of_not (by simpa using Ne.symm hj)

/-- A candidate of the election is on its roster. -/
theorem mem_ballotBox_roster {c : Candidate} {e : Election} (hc : d.candidates.get? c.id = some c)
    (he : c.electionId = e.id) (t : Option (Multiset ℕ)) (status : ElectionStatus) :
    c.id ∈ (d.ballotBox e.id t status).roster :=
  ⟨c, mem_roster.mpr ⟨Table.mem_of_get? hc, he⟩, rfl⟩

theorem BallotCast.performs {x : ParsedBallot} {e : Election} {c : Candidate}
    (h : BallotCast L r l d d' x e c) (hb : Represents d b) : Performs L r d' b := by
  obtain ⟨data, rfl, hdata⟩ := h.request
  obtain ⟨token, ts, spentAt, ha⟩ := h.after
  have hvotes : d'.votes.rows = d.votes.rows ++ [_] := (congrArg (·.votes.rows) ha :)
  have hrows : d'.nullifiers.rows = d.nullifiers.rows ++
      [⟨d.nullifiers.next, e.id, nullifierHash L x.nonce, spentAt⟩] :=
    (congrArg (·.nullifiers.rows) ha :)
  have helections : d'.elections = d.elections := (congrArg Tables.elections ha :)
  obtain ⟨t, hbox, -⟩ := hb.box_of_get? h.election.row
  refine ⟨.move e.id (.cast c.id (nullifierHash L x.nonce)),
    .castAnonymousBallot hdata h.electionId h.candidateId,
    ⟨_, hbox, by rw [h.isOpen]; rfl, mem_ballotBox_roster h.candidate h.candidateElection _ _, ?_⟩,
    hb.move ?_ ?_ (fun j hj => ?_) fun t => ?_⟩
  · -- the nullifier is new: the pair of election and hash is unique
    rintro ⟨n, hn, hhash⟩
    obtain ⟨hmem, hne⟩ := List.mem_filter.mp hn
    have hnodup := d'.ok.nullifiers_election_hash
    rw [hrows] at hnodup
    exact ne_of_nodup_append hnodup hmem (by simpa [hhash] using hne)
  · exact eligible_congr (congrArg Tables.users ha :) (congrArg Tables.roles ha :)
      (congrArg Tables.rolls ha :)
  · exact (congrArg (·.results.rows) ha :)
  · refine SameRows.boxAt_eq ⟨(congrArg (Tables.roster · j) ha :),
      (congrArg (Tables.tokensFor · j) ha :), votesFor_append_of_ne hvotes hj, ?_,
      (congrArg (Tables.receiptsFor · j) ha :)⟩ (by rw [helections])
    rw [Tables.nullifiersFor, Tables.nullifiersFor, hrows]
    exact filter_append_of_not (by simpa using Ne.symm hj)
  · rw [boxAt_of_get? (helections ▸ h.election.row), boxAt_of_get? h.election.row]
    refine congrArg some (Box.ext rfl ?_ ?_ (cast_append hvotes _ _) ?_ ?_ rfl)
    · exact (congrArg (fun t => {c | ∃ x ∈ Tables.roster t e.id, x.id = c}) ha :)
    · exact (congrArg (fun t => {v | ∃ k ∈ Tables.tokensFor t e.id, k.userId = v}) ha :)
    · ext m
      simp [Db.ballotBox, Move.act, Tables.nullifiersFor, hrows, or_and_right, exists_or, or_comm,
        eq_comm]
    · exact (congrArg (fun t => {v | ∃ x ∈ Tables.receiptsFor t e.id, x.userId = v}) ha :)

/-- A direct vote performs its operation when its election is open in the committed state. -/
theorem VoteCast.performs {u : User} {e₀ e : Election} {c : Candidate}
    (h : VoteCast L r l d d' u e₀ c) (he : d.elections.get? e₀.id = some e)
    (hopen : e.status = .open) (hb : Represents d b) : Performs L r d' b := by
  obtain ⟨i, d₀, rfl, -⟩ := h.unspent
  obtain ⟨token, ts, now, ha⟩ := h.after
  obtain ⟨roll, helig, -⟩ := h.voter
  have hid : e.id = e₀.id := Table.key_of_get? he
  have hvotes : d'.votes.rows = d.votes.rows ++ [_] := (congrArg (·.votes.rows) ha :)
  have hrows : d'.receipts.rows = d.receipts.rows ++ [⟨d.receipts.next, u.id, e₀.id, now⟩] :=
    (congrArg (·.receipts.rows) ha :)
  have helections : d'.elections = d.elections := (congrArg Tables.elections ha :)
  obtain ⟨t, hbox, -⟩ := hb.box_of_get? he
  refine ⟨.move e₀.id (.vote c.id u.id), .castVote, ⟨_, hbox, by rw [hopen]; rfl,
    mem_ballotBox_roster h.candidate h.candidateElection _ _, ?_, ?_⟩,
    hb.move ?_ ?_ (fun j hj => ?_) fun t => ?_⟩
  · rw [hb.eligible]
    exact ⟨u, roll, helig, rfl⟩
  · -- the voter has no receipt yet: the pair of voter and election is unique
    rintro ⟨x, hx, hxu⟩
    obtain ⟨hmem, hxe⟩ := List.mem_filter.mp hx
    have hnodup := d'.ok.receipts_user_election
    rw [hrows] at hnodup
    exact ne_of_nodup_append hnodup hmem (by simpa [hxu] using hxe)
  · exact eligible_congr (congrArg Tables.users ha :) (congrArg Tables.roles ha :)
      (congrArg Tables.rolls ha :)
  · exact (congrArg (·.results.rows) ha :)
  · refine SameRows.boxAt_eq ⟨(congrArg (Tables.roster · j) ha :),
      (congrArg (Tables.tokensFor · j) ha :), votesFor_append_of_ne hvotes hj,
      (congrArg (Tables.nullifiersFor · j) ha :), ?_⟩ (by rw [helections])
    rw [Tables.receiptsFor, Tables.receiptsFor, hrows]
    exact filter_append_of_not (by simpa using Ne.symm hj)
  · rw [boxAt_of_get? (helections ▸ he), boxAt_of_get? he]
    refine congrArg some (Box.ext rfl ?_ ?_ (cast_append hvotes _ _) ?_ ?_ rfl)
    · exact (congrArg (fun t => {c | ∃ x ∈ Tables.roster t e₀.id, x.id = c}) ha :)
    · exact (congrArg (fun t => {v | ∃ k ∈ Tables.tokensFor t e₀.id, k.userId = v}) ha :)
    · exact (congrArg (fun t => {m | ∃ n ∈ Tables.nullifiersFor t e₀.id, n.nullifierHash = m}) ha :)
    · ext v
      simp [Db.ballotBox, Move.act, Tables.receiptsFor, hrows, or_and_right, exists_or, or_comm,
        eq_comm]

/-- The rows outside of the elections, when only the elections change. -/
theorem sameRows_of_elections {es : Table Election}
    (ha : d'.toTables = { d.toTables with elections := es }) (j : ℕ) : SameRows j d d' :=
  ⟨(congrArg (Tables.roster · j) ha :), (congrArg (Tables.tokensFor · j) ha :),
    (congrArg (Tables.votesFor · j) ha :), (congrArg (Tables.nullifiersFor · j) ha :),
    (congrArg (Tables.receiptsFor · j) ha :)⟩

/-- A change of the status of one election. -/
theorem Represents.setStatus (hb : Represents d b) {i : ℕ} {e : Election} {f : Election → Election}
    {hf} {m : Move ℕ ℕ PyStr} (he : d.elections.get? i = some e)
    (ha : d'.toTables = { d.toTables with elections := d.elections.update i f hf })
    (hm : ∀ x : Box ℕ ℕ PyStr, m.act x = { x with phase := (f e).status.phase }) :
    Represents d' (spec.apply b (.move i m)) := by
  have helections : d'.elections = d.elections.update i f hf := (congrArg Tables.elections ha :)
  refine hb.move ?_ (congrArg (·.results.rows) ha :) (fun j hj => ?_) fun t => ?_
  · exact eligible_congr (congrArg Tables.users ha :) (congrArg Tables.roles ha :)
      (congrArg Tables.rolls ha :)
  · refine (sameRows_of_elections ha j).boxAt_eq ?_
    rw [helections, Table.get?_update_of_ne hj]
  · have he' : d'.elections.get? i = some (f e) := by
      rw [helections, Table.get?_update_self, he]
      rfl
    rw [boxAt_of_get? he', boxAt_of_get? he, (sameRows_of_elections ha i).ballotBox_eq]
    exact congrArg some (hm (d.ballotBox i t e.status)).symm

theorem ElectionOpened.performs {e : Election} {keyId : PyStr}
    (h : ElectionOpened L r l d d' e keyId) (haddr : Addressed r d d') (hb : Represents d b) :
    Performs L r d' b := by
  obtain ⟨cookie, i, rfl⟩ := h.request
  obtain ⟨openAt, ha⟩ := h.after
  obtain ⟨keyId', openAt', ha'⟩ := haddr
  -- the election that the request names is the one that has been opened
  obtain rfl : i = e.id := by
    by_contra hne
    have heq := congrArg (fun t => (Tables.elections t).get? e.id) (ha.symm.trans ha')
    simp only [markOpen, Table.get?_update_self, Table.get?_update_of_ne (Ne.symm hne),
      h.election.row, Option.map_some] at heq
    have hstatus := congrArg Election.status (Option.some.inj heq)
    rw [h.draft] at hstatus
    cases hstatus
  obtain ⟨t, hbox, -⟩ := hb.box_of_get? h.election.row
  refine ⟨.move e.id .open, .openElection, ⟨_, hbox, by rw [h.draft]; rfl, fun j y hy => ?_⟩,
    hb.setStatus h.election.row ha fun x => rfl⟩
  obtain ⟨t', hbox', -⟩ := hb.box j
  rw [hy, Db.boxAt] at hbox'
  obtain ⟨status, hstatus, rfl⟩ := Option.map_eq_some_iff.mp hbox'.symm
  obtain ⟨e', he', rfl⟩ := Option.map_eq_some_iff.mp hstatus
  intro hopen
  refine h.none_open he' ?_
  rcases hs : e'.status with _ | _ | _
  · rw [hs] at hopen
    cases hopen
  · rfl
  · rw [hs] at hopen
    cases hopen

theorem ElectionClosed.performs {e : Election} (h : ElectionClosed r l d d' e)
    (haddr : Addressed r d d') (hb : Represents d b) : Performs L r d' b := by
  obtain ⟨cookie, i, rfl⟩ := h.request
  obtain ⟨closeAt, ha⟩ := h.after
  obtain ⟨closeAt', ha'⟩ := haddr
  obtain rfl : i = e.id := by
    by_contra hne
    have heq := congrArg (fun t => (Tables.elections t).get? e.id) (ha.symm.trans ha')
    simp only [markClosed, Table.get?_update_self, Table.get?_update_of_ne (Ne.symm hne),
      h.election.row, Option.map_some] at heq
    have hstatus := congrArg Election.status (Option.some.inj heq)
    rw [h.isOpen] at hstatus
    cases hstatus
  obtain ⟨t, hbox, -⟩ := hb.box_of_get? h.election.row
  exact ⟨.move e.id .close, .closeElection, ⟨_, hbox, by rw [h.isOpen]; rfl⟩,
    hb.setStatus h.election.row ha fun x => rfl⟩

theorem ElectionCreated.performs (h : ElectionCreated r d d') (hb : Represents d b) :
    Performs L r d' b := by
  obtain ⟨cookie, form, rfl⟩ := h.request
  obtain ⟨name, openAt, closeAt, creator, ha⟩ := h.after
  have hnone : d.elections.get? d.elections.next = none := Table.get?_next
  obtain ⟨hroster, htokens, hvotes, hnullifiers, hreceipts, hresults⟩ := d.rows_of_none hnone
  have hpub : Published d'.results.rows d.elections.next none := by
    rw [show d'.results.rows = d.results.rows from (congrArg (·.results.rows) ha :)]
    exact hresults
  obtain ⟨t, hbox, -⟩ := hb.box d.elections.next
  have hboxnone : b.box d.elections.next = none := by
    rw [hbox, Db.boxAt, hnone]
    rfl
  refine ⟨.create d.elections.next, .createElection, hboxnone, hb.eligible.trans ?_, fun j => ?_⟩
  · exact (eligible_congr (congrArg Tables.users ha :) (congrArg Tables.roles ha :)
      (congrArg Tables.rolls ha :)).symm
  by_cases hj : j = d.elections.next
  · subst hj
    refine ⟨none, ?_, hpub⟩
    have hget : d'.elections.get? d.elections.next =
        some ⟨d.elections.next, name, .draft, openAt, closeAt, none, false, some creator⟩ := by
      rw [show d'.elections = _ from (congrArg Tables.elections ha :)]
      exact Table.get?_insert_next
    rw [boxAt_of_get? hget, (sameRows_of_elections ha _).ballotBox_eq]
    refine (Function.update_self _ _ _).trans (congrArg some ?_)
    unfold Db.ballotBox
    rw [hroster, htokens, hvotes, hnullifiers, hreceipts]
    simp [Box.fresh, ElectionStatus.phase]
  · obtain ⟨t, hbox, hpub⟩ := hb.box j
    refine ⟨t, ?_, ?_⟩
    · rw [(sameRows_of_elections ha j).boxAt_eq, ← hbox]
      · exact Function.update_of_ne hj _ _
      · rw [show d'.elections = _ from (congrArg Tables.elections ha :)]
        simp only [addElection]
        rw [Table.get?_insert_of_ne hj]
    · rw [show d'.results.rows = d.results.rows from (congrArg (·.results.rows) ha :)]
      exact hpub

theorem KeysAnchored.performs {anchors : List (ℕ × PyStr)} (h : KeysAnchored L r l d d' anchors)
    (hb : Represents d b) : Performs L r d' b := by
  obtain rfl := h.request
  have ha := h.after
  have heligible : d'.eligible = d.eligible := eligible_congr (congrArg Tables.users ha :)
    (congrArg Tables.roles ha :) (congrArg Tables.rolls ha :)
  refine ⟨.keep, .anchorKeys, trivial, ?_⟩
  have hkeep : Represents d' { b with eligible := d'.eligible } := by
    refine hb.keep (congrArg (·.results.rows) ha :) fun j t => ?_
    refine (sameRows_of_elections ha j).boxAt_eq ?_ t
    rw [show d'.elections = _ from (congrArg Tables.elections ha :)]
    rcases get?_anchorElections anchors d.toTables j with ⟨e, he, key, hkey, -⟩ | ⟨hn, hn'⟩
    · rw [he, hkey]
      rfl
    · rw [hn, hn']
  rw [heligible, ← hb.eligible] at hkeep
  exact hkeep

theorem ElectionAct.performs (h : ElectionAct L r l d d') (haddr : Addressed r d d')
    (hb : Represents d b) : Performs L r d' b := by
  cases h with
  | create h => exact h.performs hb
  | «open» h => exact h.performs haddr hb
  | close h => exact h.performs haddr hb
  | anchor h => exact h.performs hb

/-- The last row of a table tells for which election it was added. -/
theorem last_eq {α β : Type} {f : α → β} {as bs : List α} {a a' : α} (h : bs = as ++ [a])
    (h' : bs = as ++ [a']) : f a = f a' := by
  obtain rfl := List.singleton_injective (List.append_cancel_left (h.symm.trans h'))
  rfl

theorem CandidateAct.asks {e : Election} (h : CandidateAct r l d d' e) (haddr : Addressed r d d')
    (cs : Set ℕ) : Asks L r (.move e.id (.amend cs)) := by
  cases h with
  | create h =>
    obtain ⟨cookie, form, rfl⟩ := h.request
    obtain ⟨_, _, _, _, ha⟩ := h.after
    obtain ⟨i, _, _, _, _, hint, ha'⟩ := haddr
    have hid : i = e.id := last_eq (f := Candidate.electionId)
      (show d'.candidates.rows = d.candidates.rows ++ [_] from (congrArg (·.candidates.rows) ha' :))
      (show d'.candidates.rows = d.candidates.rows ++ [_] from (congrArg (·.candidates.rows) ha :))
    exact .createCandidate (hid ▸ hint)
  | update h =>
    obtain ⟨cookie, c, form, rfl⟩ := h.request
    exact .updateCandidate
  | delete h =>
    obtain ⟨cookie, c, rfl⟩ := h.request
    exact .deleteCandidate

theorem CandidateAct.performs {e : Election} (h : CandidateAct r l d d' e)
    (haddr : Addressed r d d') (hv : ∀ v ∈ d.votes.rows, VoteSound d v) (hb : Represents d b) :
    Performs L r d' b := by
  obtain ⟨held, hdraft, ⟨cs, vs, ha⟩, hroster, hvotes⟩ := h.only
  have hrows : d'.votes.rows = d.votes.rows := by
    rcases hvotes with heq | ⟨c, hc⟩
    · rw [heq]
    · exact hc.votes_eq hv
  have helections : d'.elections = d.elections := (congrArg Tables.elections ha :)
  obtain ⟨t, hbox, -⟩ := hb.box_of_get? held.row
  refine ⟨.move e.id (.amend {c | ∃ x ∈ d'.roster e.id, x.id = c}), h.asks haddr _,
    ⟨_, hbox, by rw [hdraft]; rfl⟩,
    hb.move ?_ (congrArg (·.results.rows) ha :) (fun j hj => ?_) fun t => ?_⟩
  · exact eligible_congr (congrArg Tables.users ha :) (congrArg Tables.roles ha :)
      (congrArg Tables.rolls ha :)
  · exact SameRows.boxAt_eq ⟨hroster j hj, (congrArg (Tables.tokensFor · j) ha :),
      by rw [Tables.votesFor, Tables.votesFor, hrows], (congrArg (Tables.nullifiersFor · j) ha :),
      (congrArg (Tables.receiptsFor · j) ha :)⟩ (by rw [helections])
  · rw [boxAt_of_get? (helections ▸ held.row), boxAt_of_get? held.row]
    refine congrArg some (Box.ext rfl rfl ?_ ?_ ?_ ?_ rfl)
    · exact (congrArg (fun t => {v | ∃ k ∈ Tables.tokensFor t e.id, k.userId = v}) ha :)
    · show (((d'.votesFor e.id).map Vote.candidateId : List ℕ) : Multiset ℕ) = _
      rw [Tables.votesFor, hrows]
      rfl
    · exact (congrArg (fun t => {m | ∃ n ∈ Tables.nullifiersFor t e.id, n.nullifierHash = m}) ha :)
    · exact (congrArg (fun t => {v | ∃ x ∈ Tables.receiptsFor t e.id, x.userId = v}) ha :)

theorem ResultSigned.performs {e : Election} (h : ResultSigned L r l d d' e)
    (haddr : Addressed r d d') (hv : ∀ v ∈ d.votes.rows, VoteSound d v) (hb : Represents d b) :
    Performs L r d' b := by
  obtain ⟨cookie, body, form, rfl⟩ := h.request
  obtain ⟨key, signed, signedAt, signer, ha⟩ := h.after
  obtain ⟨i, key', payload', signed', signedAt', signer', hi, ha'⟩ := haddr
  have hrows : d'.results.rows = d.results.rows ++ [_] := (congrArg (·.results.rows) ha :)
  have hid : i = e.id := last_eq (f := SignedElectionResult.electionId)
    (show d'.results.rows = d.results.rows ++ [_] from (congrArg (·.results.rows) ha' :)) hrows
  have helections : d'.elections = d.elections := (congrArg Tables.elections ha :)
  have hnew : ∀ x ∈ d.results.rows, x.electionId ≠ e.id := by
    have hnodup := d'.ok.results_unique
    rw [hrows] at hnodup
    exact fun x hx => ne_of_nodup_append hnodup hx
  obtain ⟨t, hbox, hpub⟩ := hb.box_of_get? h.election.row
  -- nothing has been declared yet
  obtain rfl : t = none := by
    rcases t with _ | m
    · rfl
    · obtain ⟨x, hx, hxe, -⟩ := hpub
      exact absurd hxe (hnew x hx)
  have hsame : ∀ j, SameRows j d d' := fun j =>
    ⟨(congrArg (Tables.roster · j) ha :), (congrArg (Tables.tokensFor · j) ha :),
      (congrArg (Tables.votesFor · j) ha :), (congrArg (Tables.nullifiersFor · j) ha :),
      (congrArg (Tables.receiptsFor · j) ha :)⟩
  have hbox' : ∀ j t, d'.boxAt j t = d.boxAt j t := fun j => (hsame j).boxAt_eq (by rw [helections])
  refine ⟨.move e.id .declare, .signElectionResults (hid ▸ hi),
    ⟨_, hbox, by rw [h.closed]; rfl, rfl⟩, hb.eligible.trans ?_, fun j => ?_⟩
  · exact (eligible_congr (congrArg Tables.users ha :) (congrArg Tables.roles ha :)
      (congrArg Tables.rolls ha :)).symm
  by_cases hj : j = e.id
  · subst hj
    refine ⟨some ((d.votesFor e.id).map Vote.candidateId : List ℕ), ?_, ?_⟩
    · rw [hbox', boxAt_of_get? h.election.row]
      refine (Function.update_self _ _ _).trans ?_
      rw [hbox]
      rfl
    · refine ⟨_, by rw [hrows]; exact List.mem_append_right _ (List.mem_singleton_self _), rfl, ?_⟩
      exact ⟨e, signedAt, _, _, _, rfl, rfl, counts_tallies d hv e.id, rfl⟩
  · obtain ⟨t, hboxj, hpubj⟩ := hb.box j
    refine ⟨t, ?_, ?_⟩
    · rw [hbox', ← hboxj]
      exact Function.update_of_ne hj _ _
    · rw [hrows]
      rcases t with _ | m
      · intro x hx
        rcases List.mem_append.mp hx with hx | hx
        · exact hpubj x hx
        · obtain rfl := List.mem_singleton.mp hx
          exact Ne.symm hj
      · obtain ⟨x, hx, hxj⟩ := hpubj
        exact ⟨x, List.mem_append_left _ hx, hxj⟩

theorem AccountAct.performs (h : AccountAct L r l d d') (hb : Represents d b) :
    Performs L r d' b := by
  obtain ⟨us, rs, ha, -⟩ := h.only
  have hr : r.changesAccounts = true := by
    cases h with
    | approve h => obtain ⟨_, _, rfl⟩ := h.request; rfl
    | reject h => obtain ⟨_, _, rfl⟩ := h.request; rfl
    | verifyEmail h => obtain ⟨_, rfl⟩ := h.request; rfl
    | changePassword h => obtain ⟨_, _, rfl⟩ := h.request; rfl
    | resetPassword h => obtain ⟨_, _, _, _, _, _, rfl, -⟩ := h.request; rfl
  refine ⟨.enrol d'.eligible, .account hr, trivial,
    hb.keep (congrArg (·.results.rows) ha :) fun j t => ?_⟩
  have helections : d'.elections = d.elections := (congrArg Tables.elections ha :)
  exact SameRows.boxAt_eq ⟨(congrArg (Tables.roster · j) ha :),
    (congrArg (Tables.tokensFor · j) ha :), (congrArg (Tables.votesFor · j) ha :),
    (congrArg (Tables.nullifiersFor · j) ha :), (congrArg (Tables.receiptsFor · j) ha :)⟩
    (by rw [helections]) t

/-- **Every commit is an operation on the board**, a direct vote while its election is open. -/
theorem Act.performs (h : Act L r l d d') (haddr : Addressed r d d')
    (hv : ∀ v ∈ d.votes.rows, VoteSound d v)
    (hopen : ∀ {u e₀ c}, VoteCast L r l d d' u e₀ c →
      ∃ e, d.elections.get? e₀.id = some e ∧ e.status = .open) (hb : Represents d b) :
    Performs L r d' b := by
  cases h with
  | token h => exact h.performs hb
  | ballot h => exact h.performs hb
  | vote h =>
    obtain ⟨e, he, hstatus⟩ := hopen h
    exact h.performs he hstatus hb
  | election h => exact h.performs haddr hb
  | candidate h => exact h.performs haddr hv hb
  | sign h => exact h.performs haddr hv hb
  | account h => exact h.performs hb

end SecureVote
