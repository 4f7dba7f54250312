import SecureVote.Properties.Migration
import SecureVote.Runs

/-!
# Migrated ballots in the running application

The migration gives all legacy votes to the oldest election, whatever its status, and the
application protects rosters by status: the candidates of a draft election may be edited and
deleted, with their votes. So the migrated ballots are safe in every later run when the election
that has received them is not a draft.
-/

open Txn Txn.Rules

namespace SecureVote.Migration

open Py

variable {L : Lib} {db : LegacyDb} {draws : Draws}

/-! ### The database the application starts with -/

/-- A status text as the comparisons of the application see it: a spelling that is none of the three
texts is neither a draft nor open. -/
def readStatus (s : PyStr) : ElectionStatus :=
  if s = py "draft" then .draft else if s = py "open" then .open else .closed

/-- The application starts with the migrated rows. Users, regions and the columns that the migration
does not touch are any; the new tables are empty. -/
structure Starts (s : ScopedDb) (d : Db) : Prop where
  elections : d.elections.rows.map (fun e =>
      (e.id, e.name, e.status, e.blindSigningKeyId, e.blindKeyRecoveryRequired)) =
    s.elections.rows.map fun row =>
      (row.id, row.name, readStatus row.status, row.blindSigningKeyId, row.blindKeyRecoveryRequired)
  candidates : d.candidates.rows.map (fun c => (c.id, c.name, c.position, some c.electionId)) =
    s.candidates.rows.map fun row => (row.id, row.name, row.position, row.electionId)
  votes : d.votes.rows.map (fun v =>
      (v.id, some v.voterToken, v.candidateId, some v.electionId, v.position)) =
    s.votes.rows.map fun row =>
      (row.id, row.voterToken, row.candidateId, row.electionId, row.position)
  receipts : d.receipts.rows.map (fun r => (r.id, r.userId, some r.electionId)) =
    s.receipts.rows.map fun row => (row.id, row.userId, row.electionId)
  tokens : d.tokens.rows = []
  nullifiers : d.nullifiers.rows = []
  results : d.results.rows = []

/-! ### The election of the legacy votes -/

/-- The oldest election, which receives the legacy votes. -/
def LegacyDb.oldest (db : LegacyDb) : Option LegacyElection :=
  (db.elections.rows.mergeSort fun a b => createdLe ⟨a, none, false⟩ ⟨b, none, false⟩).head?

theorem head?_sorted (db : LegacyDb) (draws : Draws) : ((addColumns db draws).elections.rows.mergeSort createdLe).head? =
    db.oldest.map fun e => ⟨e, none, false⟩ := by
  have hsorted := List.map_mergeSort (s := createdLe) (l := db.elections.rows)
    (f := fun e => (⟨e, none, false⟩ : ElectionRow)) fun _ _ _ _ => rfl
  rw [LegacyDb.oldest, ← List.head?_map, hsorted]
  rfl

/-- The chosen election is the oldest one, or the closed import. -/
theorem status_of_chosen {row : ElectionRow}
    (hrow : row ∈ (chooseElection (addColumns db draws) draws).2.elections.rows)
    (hid : row.id = (chooseElection (addColumns db draws) draws).1) :
    db.oldest = some row.toLegacyElection ∨ row.status = py "closed" := by
  have hsorted := head?_sorted db draws
  unfold chooseElection at hrow hid
  rw [hsorted] at hrow hid
  rcases hold : db.oldest with _ | e
  · rw [hold] at hrow hid
    rcases Table.mem_insert.mp hrow with hrow | rfl
    · have hlt : row.id < (addColumns db draws).elections.next :=
        (addColumns db draws).elections.fresh row hrow
      exact absurd hid hlt.ne
    · exact Or.inr rfl
  · rw [hold] at hrow hid hsorted
    have hmem : (⟨e, none, false⟩ : ElectionRow) ∈ (addColumns db draws).elections.rows :=
      (List.mergeSort_perm _ _).mem_iff.mp (List.mem_of_head? hsorted)
    obtain rfl := Table.key_inj hrow hmem hid
    exact Or.inl rfl

/-- The migration around its choice of an election. -/
theorem migrate_eq (L : Lib) (db : LegacyDb) (draws : Draws) : migrate L db draws =
    deleteAuthorizations L (importHasVoted (chooseElection (addColumns db draws) draws).1 draws
      (importVoteUsers (chooseElection (addColumns db draws) draws).1
        (assignElection (chooseElection (addColumns db draws) draws).1
          (chooseElection (addColumns db draws) draws).2))) :=
  rfl

/-- All migrated candidates are in the chosen election. -/
theorem candidates_migrate {c : CandidateRow} (hc : c ∈ (migrate L db draws).candidates.rows) :
    c.electionId = some (chooseElection (addColumns db draws) draws).1 := by
  rw [migrate_eq, import_frame] at hc
  obtain ⟨c', -, rfl⟩ := List.mem_map.mp hc
  rfl

/-- The migrated elections keep the status of the one that has been chosen. -/
theorem status_of_migrate {row : ElectionRow} (hrow : row ∈ (migrate L db draws).elections.rows)
    (hid : row.id = (chooseElection (addColumns db draws) draws).1) :
    (∃ e, db.oldest = some e ∧ row.status = e.status) ∨ row.status = py "closed" := by
  rw [migrate_eq, import_frame] at hrow
  obtain ⟨old, hold, hsame, -⟩ := elections_deleteAuthorizations hrow
  have hstatus : row.status = old.status := congrArg LegacyElection.status hsame
  have holdid : old.id = row.id := (congrArg LegacyElection.id hsame).symm
  rw [hstatus]
  rcases status_of_chosen hold (holdid.trans hid) with h | h
  · exact Or.inl ⟨_, h, rfl⟩
  · exact Or.inr h

/-! ### Runs -/

/-- No migrated vote is lost, and its candidate is what it was. -/
def BallotsKept (d d' : Db) : Prop :=
  ∀ v ∈ d.votes.rows, v ∈ d'.votes.rows ∧ ∃ c, d.candidates.get? v.candidateId = some c ∧
    d'.candidates.get? v.candidateId = some c

/-- The election of a vote that the application starts with is not a draft, unless the oldest legacy
election is. -/
theorem ne_draft_of_starts {s : ScopedDb} {d : Db} (hup : upgrade L db draws = .ok s)
    (hold : ∀ e, db.oldest = some e → e.status ≠ py "draft") (hd : Starts s d) {v : Vote}
    (hv : v ∈ d.votes.rows) :
    ∃ e, d.elections.get? v.electionId = some e ∧ e.status ≠ .draft := by
  obtain ⟨c, hc, hce⟩ := d.exists_candidate hv
  obtain ⟨e, he⟩ := Option.isSome_iff_exists.mp
    (d.ok.candidates_election c (Table.mem_of_get? hc))
  rw [hce] at he
  refine ⟨e, he, ?_⟩
  rw [upgrade_eq_ok hup] at hd
  have hchosen : c.electionId = (chooseElection (addColumns db draws) draws).1 := by
    have hmem := hd.candidates ▸ List.mem_map_of_mem (Table.mem_of_get? hc)
    obtain ⟨row, hrow, heq⟩ := List.mem_map.mp hmem
    have hrowid := candidates_migrate (L := L) hrow
    simp only [Prod.mk.injEq] at heq
    rw [heq.2.2.2] at hrowid
    exact Option.some.inj hrowid
  have hmem := hd.elections ▸ List.mem_map_of_mem (Table.mem_of_get? he)
  obtain ⟨row, hrow, heq⟩ := List.mem_map.mp hmem
  simp only [Prod.mk.injEq] at heq
  have hid : row.id = (chooseElection (addColumns db draws) draws).1 := by
    rw [heq.1, ← hchosen, hce]
    exact Table.key_of_get? he
  rw [← heq.2.2.1]
  have hstatus : row.status ≠ py "draft" := by
    rcases status_of_migrate (L := L) hrow hid with ⟨e', he', hstatus⟩ | hstatus
    · rw [hstatus]
      exact hold e' he'
    · rw [hstatus]
      decide
  unfold readStatus
  rw [if_neg hstatus]
  split <;> decide

/-- A commit keeps the votes of an election that is not a draft. -/
theorem mem_votes_of_act {r : Request} {l : Loc} {d d' : Db} (h : Act L r l d d') {v : Vote}
    {e : Election} (hv : v ∈ d.votes.rows) (he : d.elections.get? v.electionId = some e)
    (hne : e.status ≠ .draft) : v ∈ d'.votes.rows := by
  rcases h.votes_cases with heq | ⟨w, m, hrows, -⟩ | ⟨e', c, hdel⟩
  · rw [heq]
    exact hv
  · rw [hrows]
    exact List.mem_append_left _ hv
  · rw [show d'.votes.rows = _ from (congrArg (·.votes.rows) hdel.after :)]
    refine Table.mem_filter.mpr ⟨hv, ?_⟩
    by_contra hcid
    -- the deleted candidate is in a draft election, which is the one of the vote
    obtain ⟨c', hc', hce⟩ := d.exists_candidate hv
    have hvc : v.candidateId = c.id := by simpa using hcid
    rw [hvc, hdel.candidate] at hc'
    cases hc'
    rw [← hce, hdel.candidateElection, hdel.election.row] at he
    cases he
    exact hne hdel.draft

/-- **Migrated ballots stay safe** in every run of the application on the migrated database, when
the oldest legacy election is not a draft. -/
theorem migrated_ballots_kept {s : ScopedDb} {d : Db} {E : Environment} {w : E.World}
    {sys : Sys (machine L E)} (hup : upgrade L db draws = .ok s)
    (hold : db.votes.rows = [] ∨ ∀ e, db.oldest = some e → e.status ≠ py "draft")
    (hd : Starts s d) (h : Reach (Sys.init d w) sys) : BallotsKept d sys.db := by
  intro v hv
  rcases hold with hnil | hold
  · -- without legacy votes there is no migrated one
    have hrows : s.votes.rows = [] := by
      have hsame := (migrated_migrate L db draws).votes
      rw [hnil, List.map_eq_nil_iff] at hsame
      rw [upgrade_eq_ok hup]
      exact hsame
    have hmem := hd.votes ▸ List.mem_map_of_mem hv
    rw [hrows] at hmem
    cases hmem
  obtain ⟨e, he, hne⟩ := ne_draft_of_starts hup hold hd hv
  obtain ⟨c, hc, hce⟩ := d.exists_candidate hv
  have hcid : c.id = v.candidateId := Table.key_of_get? hc
  have hinv : Evolves d sys.db ∧ v ∈ sys.db.votes.rows := by
    refine db_induction (P := fun d' => Evolves d d' ∧ v ∈ d'.votes.rows) h ⟨.refl d, hv⟩ ?_
    rintro r l d₁ d₂ ⟨hev, hv₁⟩ hact
    obtain ⟨e₁, he₁, hee₁⟩ := hev.elections he
    exact ⟨hev.trans hact.evolves, mem_votes_of_act hact hv₁ he₁ (hee₁.ne_draft hne)⟩
  refine ⟨hinv.2, c, hc, ?_⟩
  rw [← hcid] at hc ⊢
  exact hinv.1.candidate hc (hce ▸ he) hne

/-! ### Two legacy databases -/

/-- A legacy database with one candidate and one vote, in an election of this status. -/
def oneVoteDb (status : PyStr) : LegacyDb where
  users := [1, 2]
  elections := Table.empty.insert (fun i => ⟨i, py "Legacy", status, some 0⟩) fun _ => rfl
  candidates := legacyCandidates
  votes := ⟨[⟨1, 1, py "Representative", none, some 1⟩], 2, by decide, by decide⟩
  receipts := .empty
  authorizations := .empty
  voteUserId := none
  voteVoterToken := none
  userHasVoted := none
  vote_candidate := by decide
  vote_user_unique := by rintro _ ⟨⟩
  receipt_user_unique := by decide
  voter_token_not_null := by rintro _ ⟨⟩
  voter_token_unique := by rintro _ ⟨⟩

/-- The application's database after its migration: a manager, a voter and the migrated rows. -/
def oneVoteTables (status : ElectionStatus) : Tables :=
  { Sample.accounts with
    elections := Table.empty.insert
      (fun i => ⟨i, py "Legacy", status, none, none, none, false, none⟩) fun _ => rfl
    candidates := ⟨[⟨1, py "Candidate", none, py "Representative", 1, 1⟩], 2, by decide, by decide⟩
    votes := ⟨[⟨1, List.replicate 64 48, 1, 1, py "Representative", [], 1⟩], 2, by decide,
      by decide⟩ }

/-- The migration of a one-vote database completes. -/
theorem upgrade_oneVoteDb (status : PyStr)
    (h : ["draft", "open", "closed"].any (fun s => status = py s) = true) :
    upgrade Sample.lib (oneVoteDb status) sampleDraws = .ok
      { migrate Sample.lib (oneVoteDb status) sampleDraws with
        voteUserId := none, userHasVoted := none } := by
  refine upgrade_of_constraints (constraints_migrate (by decide) (fun e he => ?_)
    fun v hv w hw _ => ?_)
  · obtain rfl := List.mem_singleton.mp he
    exact h
  · rw [List.mem_singleton.mp hv, List.mem_singleton.mp hw]

theorem oldest_oneVoteDb (status : PyStr) :
    (oneVoteDb status).oldest = some ⟨1, py "Legacy", status, some 0⟩ := by
  simp [LegacyDb.oldest, oneVoteDb, Table.empty, Table.insert]

/-- The database in which the election is closed, and the one in which it is a draft. -/
def closedVoteDb : Db := ⟨oneVoteTables .closed, by decide +kernel⟩

def draftVoteDb : Db := ⟨oneVoteTables .draft, by decide +kernel⟩

/-- The manager asks to delete the candidate. -/
def deleteRun (d : Db) : Sys (machine Sample.lib Sample.environment) :=
  (Sys.init d ()).runs (fun _ _ => True) Sample.oracle
    (Sample.inOrder 0 [.deleteCandidate (some Sample.managerToken) 1])

theorem deleteRun_reach (d : Db) : Reach (Sys.init d ()) (deleteRun d) :=
  (Sys.runs_sound (P := fun _ => True) Sample.oracle_sound (fun _ => trivial)
    (fun _ _ => trivial) fun _ _ => trivial).1.reach

/-- The deletion is refused on the closed election. -/
theorem migrated_ballots_kept_closedVoteDb : BallotsKept closedVoteDb (deleteRun closedVoteDb).db :=
  migrated_ballots_kept (E := Sample.environment) (w := ())
    (upgrade_oneVoteDb (py "closed") (by decide))
    (Or.inr fun e he => by
      rw [oldest_oneVoteDb] at he
      rw [← Option.some.inj he]
      decide)
    ⟨by decide +kernel, by decide +kernel, by decide +kernel, by decide +kernel, rfl, rfl, rfl⟩
    (deleteRun_reach _)

/-- The vote of a draft election is deleted. -/
theorem migrated_ballot_deleted : ¬∀ (L : Lib) (E : Environment) (db : LegacyDb) (draws : Draws)
    (s : ScopedDb) (d : Db) (w : E.World) (sys : Sys (machine L E)), upgrade L db draws = .ok s →
    Starts s d → Reach (Sys.init d w) sys → BallotsKept d sys.db := by
  intro hkept
  have hsafe := hkept _ _ _ _ _ draftVoteDb () (deleteRun draftVoteDb)
    (upgrade_oneVoteDb (py "draft") (by decide))
    ⟨by decide +kernel, by decide +kernel, by decide +kernel, by decide +kernel, rfl, rfl,
    rfl⟩ (deleteRun_reach _)
  obtain ⟨hmem, -⟩ := hsafe _ List.mem_cons_self
  have hnil : (deleteRun draftVoteDb).db.votes.rows = [] := by decide +kernel
  rw [hnil] at hmem
  cases hmem

end SecureVote.Migration
