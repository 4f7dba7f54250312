import SecureVote.Migrations.ElectionScope
import SecureVote.Sample

/-!
# The election-scope migration keeps ballots and receipts

The receipts are built from three overlapping sources. `OneReceiptEach` says that a table holds
exactly one receipt for each user of a set, all in one election; every statement of the migration
extends the set by its source, and none repeats a user, because each asks for a receipt first.
-/

open Txn

namespace SecureVote.Migration

open Py

variable {L : Lib} {db : LegacyDb} {draws : Draws}

/-! ### One receipt for each voter -/

/-- The table holds exactly one receipt for each user of `P`, all in the election `e`. -/
structure OneReceiptEach (e : ℕ) (P : ℕ → Prop) (t : Table ReceiptRow) : Prop where
  once : (t.rows.map fun r => r.userId).Nodup
  exactly : ∀ u, (∃ r ∈ t.rows, r.userId = u) ↔ P u
  election : ∀ r ∈ t.rows, r.electionId = some e

theorem hasReceipt_eq_true {t : Table ReceiptRow} {u : ℕ} :
    hasReceipt t u = true ↔ ∃ r ∈ t.rows, r.userId = u := by
  simp [hasReceipt]

/-- The same set, described in another way. -/
theorem OneReceiptEach.congr {e : ℕ} {P Q : ℕ → Prop} {t : Table ReceiptRow}
    (h : OneReceiptEach e P t) (hPQ : ∀ u, P u ↔ Q u) : OneReceiptEach e Q t :=
  ⟨h.once, fun u => (h.exactly u).trans (hPQ u), h.election⟩

/-- A receipt for a user who has none. -/
theorem OneReceiptEach.insert {e : ℕ} {P : ℕ → Prop} {t : Table ReceiptRow}
    (h : OneReceiptEach e P t) {u : ℕ} (hu : ¬ P u) (votedAt : Option Time) :
    OneReceiptEach e (fun w => P w ∨ w = u) (insertReceipt e t u votedAt) := by
  have hrows : (insertReceipt e t u votedAt).rows =
      t.rows ++ [⟨⟨t.next, u, votedAt⟩, some e⟩] := rfl
  have hnew : u ∉ t.rows.map fun r => r.userId := by
    intro hmem
    obtain ⟨r, hr, hru⟩ := List.mem_map.mp hmem
    exact hu ((h.exactly u).mp ⟨r, hr, hru⟩)
  refine ⟨?_, fun w => ?_, fun r hr => ?_⟩
  · rw [hrows, List.map_append, List.nodup_append]
    refine ⟨h.once, List.nodup_singleton _, fun a ha b hb hab => hnew ?_⟩
    have hbu : b = u := by simpa using hb
    rwa [← hbu, ← hab]
  · rw [hrows, ← h.exactly w]
    constructor
    · rintro ⟨r, hr, rfl⟩
      rcases List.mem_append.mp hr with hr | hr
      · exact .inl ⟨r, hr, rfl⟩
      · exact .inr (by rw [List.mem_singleton.mp hr])
    · rintro (⟨r, hr, rfl⟩ | rfl)
      · exact ⟨r, List.mem_append_left _ hr, rfl⟩
      · exact ⟨_, List.mem_append_right _ List.mem_cons_self, rfl⟩
  · rcases List.mem_append.mp (hrows ▸ hr) with hr | hr
    · exact h.election r hr
    · rw [List.mem_singleton.mp hr]

/-- Receipts for distinct users who have none. -/
theorem OneReceiptEach.insertAll {e : ℕ} {P : ℕ → Prop} {t : Table ReceiptRow}
    (h : OneReceiptEach e P t) {xs : List (ℕ × Option Time)} (hxs : (xs.map Prod.fst).Nodup)
    (hnew : ∀ x ∈ xs, ¬ P x.1) :
    OneReceiptEach e (fun u => P u ∨ u ∈ xs.map Prod.fst)
      (xs.foldl (fun t x => insertReceipt e t x.1 x.2) t) := by
  induction xs generalizing P t with
  | nil => exact h.congr fun u => by simp
  | cons x xs ih =>
    obtain ⟨hx, hxs⟩ := List.nodup_cons.mp hxs
    have hstep := h.insert (hnew x List.mem_cons_self) x.2
    have hrest : ∀ y ∈ xs, ¬ (P y.1 ∨ y.1 = x.1) := by
      rintro y hy (hP | heq)
      · exact hnew y (List.mem_cons_of_mem x hy) hP
      · exact hx (heq ▸ List.mem_map_of_mem hy)
    exact (ih hstep hxs hrest).congr fun u => by simp [or_assoc]

/-- The loop over the users who have voted: each gets a receipt unless there is one. -/
theorem OneReceiptEach.insertMissing {e : ℕ} {P : ℕ → Prop} {t : Table ReceiptRow}
    (h : OneReceiptEach e P t) (us : List ℕ) (votedAt : ℕ → Option Time) :
    OneReceiptEach e (fun u => P u ∨ u ∈ us)
      (us.foldl (fun t u => if hasReceipt t u then t else insertReceipt e t u (votedAt u)) t) := by
  induction us generalizing P t with
  | nil => exact h.congr fun u => by simp
  | cons w us ih =>
    rw [List.foldl_cons]
    cases hw : hasReceipt t w with
    | true =>
      have hP : P w := (h.exactly w).mp (hasReceipt_eq_true.mp hw)
      refine (ih h).congr fun u => ?_
      simp only [List.mem_cons]
      constructor
      · rintro (hu | hu)
        · exact .inl hu
        · exact .inr (.inr hu)
      · rintro (hu | rfl | hu)
        · exact .inl hu
        · exact .inl hP
        · exact .inr hu
    | false =>
      have hP : ¬ P w := by
        intro hP
        rw [hasReceipt_eq_true.mpr ((h.exactly w).mpr hP)] at hw
        cases hw
      exact (ih (h.insert hP (votedAt w))).congr fun u => by simp [or_assoc]

/-! ### The three sources -/

/-- A user has voted, by one of the sources of the legacy database. -/
def LegacyDb.Voted (db : LegacyDb) (u : ℕ) : Prop :=
  (∃ r ∈ db.receipts.rows, r.userId = u) ∨
    (∃ column, db.voteUserId = some column ∧ ∃ v ∈ db.votes.rows, column v.id = some u) ∨
    ∃ column, db.userHasVoted = some column ∧ u ∈ db.users ∧ column u = some true

/-- The state that the receipts are imported into. -/
structure Assigned (db : LegacyDb) (e : ℕ) (s : ScopedDb) : Prop where
  users : s.users = db.users
  votes : s.votes.rows.map VoteRow.toLegacyVote = db.votes.rows
  receipts : OneReceiptEach e (fun u => ∃ r ∈ db.receipts.rows, r.userId = u) s.receipts
  voteUserId : s.voteUserId = db.voteUserId
  userHasVoted : s.userHasVoted = db.userHasVoted

/-- After the import from `vote.user_id`. -/
theorem oneReceiptEach_importVoteUsers {e : ℕ} {s : ScopedDb} (h : Assigned db e s) :
    OneReceiptEach e
      (fun u => (∃ r ∈ db.receipts.rows, r.userId = u) ∨
        ∃ column, db.voteUserId = some column ∧ ∃ v ∈ db.votes.rows, column v.id = some u)
      (importVoteUsers e s).receipts := by
  unfold importVoteUsers
  rw [h.voteUserId]
  cases hcolumn : db.voteUserId with
  | none => exact h.receipts.congr fun u => by simp
  | some column =>
    dsimp only
    -- The users that the statement selects: those of a vote, without a receipt before it.
    let pick (v : VoteRow) : Option ℕ := (column v.id).filter fun u => !hasReceipt s.receipts u
    have hpick : ∀ v u, pick v = some u ↔ column v.id = some u ∧
        ¬ ∃ r ∈ db.receipts.rows, r.userId = u := by
      intro v u
      rw [Option.filter_eq_some_iff, ← h.receipts.exactly u, ← hasReceipt_eq_true]
      simp
    have husers : (s.votes.rows.filterMap fun v => (pick v).map fun u => (u, v.createdAt)).map
        Prod.fst = s.votes.rows.filterMap pick := by
      rw [List.map_filterMap]
      congr 1
      funext v
      cases pick v <;> rfl
    have hmem : ∀ v : VoteRow, v ∈ s.votes.rows → v.toLegacyVote ∈ db.votes.rows := fun v hv =>
      h.votes ▸ List.mem_map_of_mem hv
    have hdistinct : (s.votes.rows.filterMap pick).Nodup := by
      have hkeys : (s.votes.rows.map (Keyed.key : VoteRow → ℕ)).Nodup := s.votes.nodup
      rw [List.Nodup, List.pairwise_filterMap]
      refine List.Pairwise.imp_of_mem ?_ (List.pairwise_map.mp hkeys)
      rintro v w hv hw hne u hu _ hu' rfl
      have hsame := db.vote_user_unique column hcolumn _ (hmem v hv) _ (hmem w hw) u
        ((hpick v u).mp hu).1 ((hpick w u).mp hu').1
      exact hne (congrArg LegacyVote.id hsame)
    have hnew : ∀ x ∈ s.votes.rows.filterMap fun v => (pick v).map fun u => (u, v.createdAt),
        ¬ ∃ r ∈ db.receipts.rows, r.userId = x.1 := by
      intro x hx
      have hx₁ : x.1 ∈ s.votes.rows.filterMap pick := husers ▸ List.mem_map_of_mem hx
      obtain ⟨v, -, hv⟩ := List.mem_filterMap.mp hx₁
      exact ((hpick v x.1).mp hv).2
    refine (h.receipts.insertAll (husers ▸ hdistinct) hnew).congr fun u => ?_
    rw [husers, List.mem_filterMap]
    constructor
    · rintro (hr | ⟨v, hv, hu⟩)
      · exact .inl hr
      · exact .inr ⟨column, rfl, v.toLegacyVote, hmem v hv, ((hpick v u).mp hu).1⟩
    · rintro (hr | ⟨_, hcol, v, hv, hu⟩)
      · exact .inl hr
      · cases hcol
        by_cases hr : ∃ r ∈ db.receipts.rows, r.userId = u
        · exact .inl hr
        · obtain ⟨w, hw, rfl⟩ := List.mem_map.mp (h.votes ▸ hv)
          exact .inr ⟨w, hw, (hpick w u).mpr ⟨hu, hr⟩⟩

/-- After the import from `user.has_voted`: one receipt for every user who voted. -/
theorem oneReceiptEach_importHasVoted {e : ℕ} {s : ScopedDb} (h : Assigned db e s) :
    OneReceiptEach e db.Voted (importHasVoted e draws (importVoteUsers e s)).receipts := by
  have hvotes := oneReceiptEach_importVoteUsers h
  have hkeep : (importVoteUsers e s).userHasVoted = db.userHasVoted ∧
      (importVoteUsers e s).users = db.users := by
    unfold importVoteUsers
    split <;> exact ⟨h.userHasVoted, h.users⟩
  unfold importHasVoted
  rw [hkeep.1, hkeep.2]
  cases hcolumn : db.userHasVoted with
  | none => exact hvotes.congr fun u => by simp [LegacyDb.Voted, hcolumn]
  | some column =>
    refine (hvotes.insertMissing _ fun u => some (draws.votedAt u)).congr fun u => ?_
    simp [LegacyDb.Voted, hcolumn, or_assoc]

/-! ### The rows after all statements -/

/-- The loop that draws a token for each vote. -/
theorem foldl_update_token (vs : List LegacyVote) (column : Column PyStr) (i : ℕ) :
    vs.foldl (fun (column : Column PyStr) v =>
        Function.update column v.id (some (draws.token v.id).text)) column i =
      if i ∈ vs.map LegacyVote.id then some (draws.token i).text else column i := by
  induction vs generalizing column with
  | nil => simp
  | cons v vs ih =>
    rw [List.foldl_cons, ih, List.map_cons]
    by_cases hi : i = v.id
    · subst hi
      simp
    · simp [hi]

/-- The column `vote.voter_token` is filled for every vote. -/
theorem voterTokens_isSome {v : LegacyVote} (hv : v ∈ db.votes.rows) :
    ∃ t, voterTokens db draws v.id = some t := by
  unfold voterTokens
  cases hcolumn : db.voteVoterToken with
  | some column => exact db.voter_token_not_null column hcolumn v hv
  | none =>
    have hid : v.id ∈ db.votes.rows.map LegacyVote.id := List.mem_map_of_mem hv
    exact ⟨_, (foldl_update_token db.votes.rows _ v.id).trans (if_pos hid)⟩

/-- The column `vote.voter_token` has no repetitions, if the drawn tokens are distinct. -/
theorem voterTokens_nodup
    (hdraws : ∀ v ∈ db.votes.rows, ∀ w ∈ db.votes.rows,
      draws.token v.id = draws.token w.id → v = w) :
    (db.votes.rows.map fun v => voterTokens db draws v.id).Nodup := by
  have hinj : ∀ v ∈ db.votes.rows, ∀ w ∈ db.votes.rows,
      voterTokens db draws v.id = voterTokens db draws w.id → v = w := by
    unfold voterTokens
    cases hcolumn : db.voteVoterToken with
    | some column => exact db.voter_token_unique column hcolumn
    | none =>
      intro v hv w hw heq
      have hid : ∀ x ∈ db.votes.rows, x.id ∈ db.votes.rows.map LegacyVote.id := fun x hx =>
        List.mem_map_of_mem hx
      dsimp only at heq
      rw [foldl_update_token, foldl_update_token, if_pos (hid v hv), if_pos (hid w hw)] at heq
      have htext : (draws.token v.id).text = (draws.token w.id).text := Option.some.inj heq
      refine hdraws v hv w hw ?_
      rcases hv' : draws.token v.id with ⟨a, _, _⟩
      rcases hw' : draws.token w.id with ⟨b, _, _⟩
      simp only [hv', hw'] at htext
      subst htext
      rfl
  exact List.Nodup.map_on hinj (List.Nodup.of_map _ db.votes.nodup)

/-- What the choice of the election leaves: it exists, and every election is a legacy one or the
closed import, none of them flagged. -/
structure Chosen (db : LegacyDb) (draws : Draws) (e : ℕ) (s : ScopedDb) : Prop where
  frame : s = { addColumns db draws with elections := s.elections }
  exists_election : (s.elections.get? e).isSome = true
  kept : ∀ row ∈ db.elections.rows, (⟨row, none, false⟩ : ElectionRow) ∈ s.elections.rows
  origin : ∀ row ∈ s.elections.rows, row.blindKeyRecoveryRequired = false ∧
    (row.toLegacyElection ∈ db.elections.rows ∨
      db.elections.rows = [] ∧ row.status = py "closed")

theorem chosen_chooseElection : Chosen db draws (chooseElection (addColumns db draws) draws).1
    (chooseElection (addColumns db draws) draws).2 := by
  have hrows : (addColumns db draws).elections.rows =
      db.elections.rows.map fun e => ⟨e, none, false⟩ := rfl
  unfold chooseElection
  split
  next e he =>
    have hmem : e ∈ (addColumns db draws).elections.rows :=
      (List.mergeSort_perm _ _).mem_iff.mp (List.mem_of_head? he)
    refine ⟨rfl, Table.get?_isSome.mpr ⟨e, hmem, rfl⟩, fun row hrow => ?_, fun row hrow => ?_⟩
    · exact hrows ▸ List.mem_map_of_mem hrow
    · obtain ⟨legacy, hlegacy, rfl⟩ := List.mem_map.mp (hrows ▸ hrow)
      exact ⟨rfl, .inl hlegacy⟩
  next hnone =>
    have hempty : db.elections.rows = [] := by
      rw [List.head?_eq_none_iff] at hnone
      have hlength := (List.mergeSort_perm (addColumns db draws).elections.rows createdLe).length_eq
      rw [hnone, hrows, List.length_map] at hlength
      exact List.length_eq_zero_iff.mp hlength.symm
    refine ⟨rfl, ?_, fun row hrow => ?_, fun row hrow => ?_⟩
    · dsimp only
      rw [Table.get?_insert_next]
      rfl
    · rw [hempty] at hrow
      cases hrow
    · rcases Table.mem_insert.mp hrow with hrow | rfl
      · rw [hrows, hempty] at hrow
        cases hrow
      · exact ⟨rfl, .inr ⟨hempty, rfl⟩⟩

/-- The imports change only the receipts. -/
theorem import_frame (e : ℕ) (s : ScopedDb) :
    importHasVoted e draws (importVoteUsers e s) =
      { s with receipts := (importHasVoted e draws (importVoteUsers e s)).receipts } := by
  rcases s with ⟨_, _, _, _, _, _, _ | column, _ | column'⟩ <;> rfl

/-- The receipts before the imports. -/
theorem assigned_assignElection {e : ℕ} {s : ScopedDb} (h : Chosen db draws e s) :
    Assigned db e (assignElection e s) := by
  rw [h.frame]
  refine ⟨rfl, ?_, ⟨?_, fun u => ?_, fun r hr => ?_⟩, rfl, rfl⟩
  · simp [assignElection, addColumns, Function.comp_def]
  · simpa [assignElection, addColumns, Function.comp_def] using db.receipt_user_unique
  · simp [assignElection, addColumns]
  · simp only [assignElection, addColumns, Table.rows_map, List.map_map, List.mem_map] at hr
    obtain ⟨r, -, rfl⟩ := hr
    rfl

/-- The migrated rows: the same votes, scoped to the election of their candidates; one receipt for
each user who voted, in the election that received the votes; no authorizations; and the elections,
of which just the open ones are flagged if there was an authorization. -/
structure Migrated (L : Lib) (db : LegacyDb) (draws : Draws) (s : ScopedDb) : Prop where
  votes : s.votes.rows.map VoteRow.toLegacyVote = db.votes.rows
  voter_token : ∀ v ∈ s.votes.rows, v.voterToken = voterTokens db draws v.id
  vote_election : ∀ v ∈ s.votes.rows, v.electionId ≠ none ∧
    ∃ c ∈ s.candidates.rows, c.id = v.candidateId ∧ c.electionId = v.electionId
  one_election : ∃ e, (s.elections.get? e).isSome = true ∧
    (∀ v ∈ s.votes.rows, v.electionId = some e) ∧
    (∀ c ∈ s.candidates.rows, c.electionId = some e) ∧
    OneReceiptEach e db.Voted s.receipts
  authorizations : s.authorizations.rows = []
  elections_kept : ∀ row ∈ db.elections.rows, ∃ row' ∈ s.elections.rows,
    row'.toLegacyElection = row
  elections_origin : ∀ row ∈ s.elections.rows, row.toLegacyElection ∈ db.elections.rows ∨
    db.elections.rows = [] ∧ row.status = py "closed"
  flagged : ∀ row ∈ s.elections.rows, row.blindKeyRecoveryRequired = true ↔
    db.authorizations.rows ≠ [] ∧ L.collateEq row.status (py "open") = true

/-- The elections after the quarantine: the same rows, the open ones flagged if there was an
authorization. -/
theorem elections_deleteAuthorizations {s : ScopedDb} {row : ElectionRow}
    (h : row ∈ (deleteAuthorizations L s).elections.rows) :
    ∃ old ∈ s.elections.rows, row.toLegacyElection = old.toLegacyElection ∧
      (row.blindKeyRecoveryRequired = true ↔ old.blindKeyRecoveryRequired = true ∨
        s.authorizations.rows ≠ [] ∧ L.collateEq old.status (py "open") = true) := by
  simp only [deleteAuthorizations] at h
  split at h
  next hempty =>
    have hnil : s.authorizations.rows = [] := List.isEmpty_iff.mp hempty
    exact ⟨row, h, rfl, by simp [hnil]⟩
  next hsome =>
    have hne : s.authorizations.rows ≠ [] := fun hnil => hsome (List.isEmpty_iff.mpr hnil)
    obtain ⟨old, hold, rfl⟩ := List.mem_map.mp h
    refine ⟨old, hold, ?_, ?_⟩
    · split <;> rfl
    · split
      next hopen => simp [hne, hopen]
      next hopen => simp [hopen]

/-- Elections are not lost in the quarantine. -/
theorem mem_elections_deleteAuthorizations {s : ScopedDb} {old : ElectionRow}
    (h : old ∈ s.elections.rows) : ∃ row ∈ (deleteAuthorizations L s).elections.rows,
      row.toLegacyElection = old.toLegacyElection := by
  simp only [deleteAuthorizations]
  split
  · exact ⟨old, h, rfl⟩
  · refine ⟨_, List.mem_map_of_mem h, ?_⟩
    split <;> rfl

/-- **The data statements** migrate every legacy database. -/
theorem migrated_migrate (L : Lib) (db : LegacyDb) (draws : Draws) :
    Migrated L db draws (migrate L db draws) := by
  have hchosen : Chosen db draws (chooseElection (addColumns db draws) draws).1
      (chooseElection (addColumns db draws) draws).2 := chosen_chooseElection
  have hmigrate : migrate L db draws = deleteAuthorizations L (importHasVoted
      (chooseElection (addColumns db draws) draws).1 draws (importVoteUsers
        (chooseElection (addColumns db draws) draws).1 (assignElection
          (chooseElection (addColumns db draws) draws).1
          (chooseElection (addColumns db draws) draws).2))) := rfl
  generalize (chooseElection (addColumns db draws) draws).1 = e at hchosen hmigrate
  generalize (chooseElection (addColumns db draws) draws).2 = s at hchosen hmigrate
  have hreceipts : OneReceiptEach e db.Voted (importHasVoted e draws
      (importVoteUsers e (assignElection e s))).receipts :=
    oneReceiptEach_importHasVoted (assigned_assignElection hchosen)
  rw [import_frame] at hmigrate
  generalize (importHasVoted e draws (importVoteUsers e (assignElection e s))).receipts = receipts
    at hreceipts hmigrate
  rw [hmigrate]
  have hcandidates : ∀ c ∈ (assignElection e s).candidates.rows, c.electionId = some e := by
    intro c hc
    obtain ⟨c', -, rfl⟩ := List.mem_map.mp hc
    rfl
  have hvotes : ∀ v ∈ (assignElection e s).votes.rows, v.toLegacyVote ∈ db.votes.rows ∧
      v.voterToken = voterTokens db draws v.id ∧ v.electionId = some e ∧
      ∃ c ∈ (assignElection e s).candidates.rows, c.id = v.candidateId := by
    intro v hv
    obtain ⟨w, hw, rfl⟩ := List.mem_map.mp hv
    have hadded : w ∈ (addColumns db draws).votes.rows := by
      rw [hchosen.frame] at hw
      exact hw
    obtain ⟨legacy, hlegacy, rfl⟩ := List.mem_map.mp hadded
    obtain ⟨c, hc, hid⟩ := db.vote_candidate legacy hlegacy
    have hc' : (⟨c, some e⟩ : CandidateRow) ∈ (assignElection e s).candidates.rows := by
      rw [hchosen.frame]
      exact List.mem_map.mpr ⟨⟨c, none⟩, List.mem_map_of_mem hc, rfl⟩
    have hget : (assignElection e s).candidates.get? legacy.candidateId = some ⟨c, some e⟩ :=
      Table.get?_eq_some.mpr ⟨hc', hid⟩
    refine ⟨hlegacy, rfl, ?_, _, hc', hid⟩
    show ((assignElection e s).candidates.get? legacy.candidateId).bind (·.electionId) = some e
    rw [hget]
    rfl
  refine ⟨(assigned_assignElection hchosen).votes, fun v hv => ?_, fun v hv => ?_,
    ⟨e, ?_, fun v hv => (hvotes v hv).2.2.1, hcandidates, hreceipts⟩, rfl, fun row hrow => ?_,
    fun row hrow => ?_, fun row hrow => ?_⟩
  · exact (hvotes v hv).2.1
  · obtain ⟨-, -, helection, c, hc, hid⟩ := hvotes v hv
    refine ⟨by simp [helection], c, hc, hid, ?_⟩
    rw [hcandidates c hc, helection]
  · obtain ⟨row, hrow, hid⟩ := Table.get?_isSome.mp hchosen.exists_election
    obtain ⟨row', hrow', hsame⟩ := mem_elections_deleteAuthorizations (L := L)
      (s := { assignElection e s with receipts := receipts }) hrow
    refine Table.get?_isSome.mpr ⟨row', hrow', ?_⟩
    exact (congrArg LegacyElection.id hsame).trans hid
  · obtain ⟨row', hrow', hsame⟩ := mem_elections_deleteAuthorizations (L := L)
      (s := { assignElection e s with receipts := receipts }) (hchosen.kept row hrow)
    exact ⟨row', hrow', hsame⟩
  · obtain ⟨old, hold, hsame, -⟩ := elections_deleteAuthorizations hrow
    rw [hsame]
    exact (hchosen.origin old hold).2
  · obtain ⟨old, hold, hsame, hflag⟩ := elections_deleteAuthorizations hrow
    have hstatus : row.status = old.status := congrArg LegacyElection.status hsame
    have hauth : (assignElection e s).authorizations = db.authorizations := by
      rw [hchosen.frame]
      rfl
    rw [hflag, hstatus]
    show _ ∨ (assignElection e s).authorizations.rows ≠ [] ∧ _ ↔ _
    rw [hauth]
    simp [(hchosen.origin old hold).1]

/-! ### The constraints -/

/-- **The constraints** can be created if all statuses are known and the drawn tokens distinct. -/
theorem constraints_migrate (hclosed : L.collateEq (py "closed") (py "closed") = true)
    (hstatus : ∀ e ∈ db.elections.rows,
      ["draft", "open", "closed"].any (fun status => L.collateEq e.status (py status)) = true)
    (hdraws : ∀ v ∈ db.votes.rows, ∀ w ∈ db.votes.rows,
      draws.token v.id = draws.token w.id → v = w) :
    ∀ c ∈ constraints L (migrate L db draws), c.2 = true := by
  have h := migrated_migrate L db draws
  obtain ⟨e, hexists, hvotes, hcandidates, hreceipts⟩ := h.one_election
  have hin : ∀ {electionId}, electionId = some e →
      inElection (migrate L db draws) electionId = true := by
    rintro _ rfl
    exact hexists
  have htokens : ((migrate L db draws).votes.rows.map VoteRow.voterToken).Nodup := by
    have hcolumn : (migrate L db draws).votes.rows.map VoteRow.voterToken =
        db.votes.rows.map fun v => voterTokens db draws v.id := by
      rw [← h.votes, List.map_map]
      refine List.map_congr_left fun v hv => ?_
      exact h.voter_token v hv
    rw [hcolumn]
    exact voterTokens_nodup hdraws
  have hpairs : ((migrate L db draws).receipts.rows.map fun r => (r.userId, r.electionId)).Nodup :=
    List.Nodup.of_map Prod.fst (by simpa [Function.comp_def] using hreceipts.once)
  simp only [constraints, List.forall_mem_cons, List.all_eq_true, decide_eq_true_eq]
  refine ⟨fun row hrow => ?_, fun c hc => hin (hcandidates c hc), fun v hv => ?_, fun v hv => ?_,
    fun v hv => hin (hvotes v hv), htokens, hpairs, fun r hr => hin (hreceipts.election r hr),
    by simp⟩
  · rcases h.elections_origin row hrow with hlegacy | ⟨-, hstatus'⟩
    · exact hstatus _ hlegacy
    · simp [hstatus', hclosed]
  · have hlegacy : v.toLegacyVote ∈ db.votes.rows := h.votes ▸ List.mem_map_of_mem hv
    obtain ⟨t, ht⟩ : ∃ t, voterTokens db draws v.id = some t := voterTokens_isSome hlegacy
    simp [h.voter_token v hv, ht]
  · obtain ⟨hne, c, hc, hid, hsame⟩ := h.vote_election v hv
    rw [Bool.and_eq_true, List.any_eq_true]
    exact ⟨Option.isSome_iff_ne_none.mpr hne, c, hc, by simp [hid, hsame]⟩

/-- What a completed migration leaves: the migrated rows, and no column that links a vote to a
user. -/
structure Completed (L : Lib) (db : LegacyDb) (draws : Draws) (s : ScopedDb) : Prop extends
    Migrated L db draws s where
  not_null : ∀ v ∈ s.votes.rows, ∃ t, v.voterToken = some t
  unlinked : s.voteUserId = none
  no_has_voted : s.userHasVoted = none

/-- A completed migration returns the migrated rows without the two legacy columns. -/
theorem upgrade_eq_ok {s : ScopedDb} (h : upgrade L db draws = .ok s) :
    s = { migrate L db draws with voteUserId := none, userHasVoted := none } := by
  unfold upgrade at h
  dsimp only at h
  split at h
  · cases h
  · cases h
    rfl

/-- The migration completes when all constraints can be created. -/
theorem upgrade_of_constraints (h : ∀ c ∈ constraints L (migrate L db draws), c.2 = true) :
    upgrade L db draws =
      .ok { migrate L db draws with voteUserId := none, userHasVoted := none } := by
  have hnone : (constraints L (migrate L db draws)).find? (fun c => !c.2) = none := by
    rw [List.find?_eq_none]
    intro c hc
    simp [h c hc]
  unfold upgrade
  dsimp only
  rw [hnone]

/-- **The migration preserves ballots and the record of who voted.** A completed `upgrade` keeps
the votes and leaves one receipt for each user who voted, without a link between the two; and it
completes on every legacy database with known statuses, if the drawn tokens are distinct. -/
theorem upgrade_preserves_ballots (L : Lib) (db : LegacyDb) (draws : Draws) :
    (∀ s, upgrade L db draws = .ok s → Completed L db draws s) ∧
      (L.collateEq (py "closed") (py "closed") = true →
        (∀ e ∈ db.elections.rows, ["draft", "open", "closed"].any
          (fun status => L.collateEq e.status (py status)) = true) →
        (∀ v ∈ db.votes.rows, ∀ w ∈ db.votes.rows,
          draws.token v.id = draws.token w.id → v = w) →
        ∃ s, upgrade L db draws = .ok s) := by
  have h := migrated_migrate L db draws
  constructor
  · intro s hs
    rw [upgrade_eq_ok hs]
    refine { h with not_null := fun v hv => ?_, unlinked := rfl, no_has_voted := rfl }
    have hlegacy : v.toLegacyVote ∈ db.votes.rows := h.votes ▸ List.mem_map_of_mem hv
    rw [h.voter_token v hv]
    exact voterTokens_isSome hlegacy
  · intro hclosed hstatus hdraws
    exact ⟨_, upgrade_of_constraints (constraints_migrate hclosed hstatus hdraws)⟩

/-! ### A legacy database -/

/-- The candidate of the regression test. -/
def legacyCandidates : Table LegacyCandidate :=
  ⟨[⟨1, py "Candidate", py "Representative"⟩], 2, by decide, by decide⟩

/-- The legacy database of the regression test, with a second vote and a user who is only marked as
having voted; the election is open. -/
def legacyDb : LegacyDb where
  users := [1, 2, 3, 4]
  elections := ⟨[⟨1, py "Legacy", py "open", some 0⟩], 2, by decide, by decide⟩
  candidates := legacyCandidates
  votes := ⟨[⟨1, 1, py "Representative", some (py "hash"), some 1⟩,
    ⟨2, 1, py "Representative", none, some 2⟩], 3, by decide, by decide⟩
  receipts := ⟨[⟨1, 1, some 1⟩], 2, by decide, by decide⟩
  authorizations := ⟨[⟨1, 1, py "bbbb"⟩], 2, by decide, by decide⟩
  voteUserId := some fun i => some i
  voteVoterToken := none
  userHasVoted := some fun u => some (u == 1 || u == 3)
  vote_candidate := by decide
  vote_user_unique := by
    rintro _ ⟨⟩ v hv w hw u hvu hwu
    have hid : v.id = w.id := Option.some.inj (hvu.trans hwu.symm)
    exact Table.key_inj (t := ⟨_, 3, by decide, by decide⟩) hv hw hid
  receipt_user_unique := by decide
  voter_token_not_null := by rintro _ ⟨⟩
  voter_token_unique := by rintro _ ⟨⟩

/-- Draws of a token for each vote. -/
def sampleDraws : Draws where
  token i := if i = 1 then ⟨List.replicate 64 48, by decide, by decide⟩
    else ⟨List.replicate 64 97, by decide, by decide⟩
  createdAt := 0
  votedAt _ := 0

/-- The migration completes on the sample database, and leaves receipts of the three voters. -/
theorem upgrade_preserves_ballots_legacyDb :
    ∃ s, upgrade Sample.lib legacyDb sampleDraws = .ok s ∧
      Completed Sample.lib legacyDb sampleDraws s ∧
      s.receipts.rows.map (fun r => (r.userId, r.electionId)) =
        [(1, some 1), (2, some 1), (3, some 1)] ∧
      s.elections.rows.map ElectionRow.blindKeyRecoveryRequired = [true] := by
  obtain ⟨hkept, hcompletes⟩ := upgrade_preserves_ballots Sample.lib legacyDb sampleDraws
  obtain ⟨s, hs⟩ := hcompletes (by decide) (by decide) (by decide)
  refine ⟨s, hs, hkept s hs, ?_⟩
  rw [upgrade_eq_ok hs]
  decide +kernel

end SecureVote.Migration
