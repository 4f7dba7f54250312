import SecureVote.Services.ResultsService
import SecureVote.Properties.SignedResults
import SecureVote.Sample

/-!
# Tallies

The query of `get_vote_tallies` gives each candidate of the election one row with the number of its
votes, in order, and counts every vote of the election once, on all tables that keep the foreign
keys of candidates and votes (`voteTallyQuery_correct`). It is the tally that the rest of the
development works with (`voteTallyQuery_eq_tallies`).
-/

namespace SecureVote

open Sql Txn

variable {L : Lib} {t : Tables} {E : ℤ}

/-- The foreign keys of candidates and votes. -/
structure TallyKeys (t : Tables) : Prop where
  candidate_region : ∀ c ∈ t.candidates.rows, ∃ r ∈ t.regions.rows, r.id = c.regionId
  vote_candidate : ∀ v ∈ t.votes.rows,
    ∃ c ∈ t.candidates.rows, c.id = v.candidateId ∧ c.electionId = v.electionId

theorem Db.tallyKeys (d : Db) : TallyKeys d.toTables where
  candidate_region c hc := by
    obtain ⟨r, hr⟩ := Option.isSome_iff_exists.mp (d.ok.candidates_region c hc)
    exact ⟨r, Table.mem_of_get? hr, Table.key_of_get? hr⟩
  vote_candidate := d.ok.votes_candidate

/-- The candidates of an election. -/
def Tables.candidatesOf (t : Tables) (E : ℤ) : List Candidate :=
  t.candidates.rows.filter fun c => (c.electionId : ℤ) = E

/-- The number of votes for a candidate in an election. -/
def Tables.votesIn (t : Tables) (E : ℤ) (c : Candidate) : ℕ :=
  t.votes.rows.countP fun v => v.candidateId = c.id ∧ (v.electionId : ℤ) = E

/-- More votes come first, then the smaller name, then the smaller id. -/
def TallyBefore (a b : Tally) : Prop :=
  b.votes < a.votes ∨ a.votes = b.votes ∧ (a.name < b.name ∨ a.name = b.name ∧
    a.candidateId < b.candidateId)

/-- The region of a candidate, of no name when the table has none. -/
def Tables.regionOf (t : Tables) (c : Candidate) : Region :=
  (t.regions.get? c.regionId).getD ⟨c.regionId, []⟩

theorem TallyKeys.get?_region (hk : TallyKeys t) {c : Candidate} (hc : c ∈ t.candidates.rows) :
    t.regions.get? c.regionId = some (t.regionOf c) ∧ t.regionOf c ∈ t.regions.rows ∧
      (t.regionOf c).id = c.regionId := by
  obtain ⟨r, hr, hid⟩ := hk.candidate_region c hc
  have hget : t.regions.get? c.regionId = some r := by
    rw [← hid]
    exact Table.get?_key hr
  rw [Tables.regionOf, hget]
  exact ⟨rfl, hr, hid⟩

/-- A primary key finds one row. -/
theorem filter_key_eq {α : Type} [Keyed α] (t : Table α) {a : α} (ha : a ∈ t.rows) :
    t.rows.filter (fun b => key b = key a) = [a] := by
  have hnodup := t.nodup
  generalize t.rows = rows at ha hnodup
  induction rows with
  | nil => cases ha
  | cons b rows ih =>
    rw [List.map_cons, List.nodup_cons] at hnodup
    rcases List.mem_cons.mp ha with rfl | hmem
    · have hrest : rows.filter (fun b => key b = key a) = [] := by
        refine List.filter_eq_nil_iff.mpr fun c hc => ?_
        rw [decide_eq_true_eq]
        exact fun heq => hnodup.1 (heq ▸ List.mem_map_of_mem hc)
      rw [List.filter_cons_of_pos (by simp), hrest]
    · have hne : key b ≠ key a := fun heq => hnodup.1 (heq ▸ List.mem_map_of_mem hmem)
      rw [List.filter_cons_of_neg (by simp [hne]), ih hmem hnodup.2]

/-- The inner join puts every candidate beside its region. -/
theorem TallyKeys.join_regions (hk : TallyKeys t) :
    join (fun (c : Candidate) (r : Region) => r.id = c.regionId) t.candidates.rows t.regions.rows =
      t.candidates.rows.map fun c => (c, t.regionOf c) := by
  refine join_eq_map fun c hc => ?_
  obtain ⟨-, hmem, hid⟩ := hk.get?_region hc
  rw [← filter_key_eq t.regions hmem]
  exact List.filter_congr fun r _ => by rw [← hid]; rfl

/-- The row of a candidate. -/
def Tables.tallyOf (t : Tables) (E : ℤ) (c : Candidate) : Tally :=
  ⟨c.id, c.name, c.position, c.regionId, (t.regionOf c).name, t.votesIn E c⟩

/-- **The groups are the candidates.** Before they are ordered there is one row for each candidate
of the election. -/
theorem TallyKeys.groups (hk : TallyKeys t) (E : ℤ) :
    (groupBy tallyKey (tallyJoin t E)).map tallyRow = (t.candidatesOf E).map (t.tallyOf E) := by
  have hfilter := filter_leftJoin isVoteFor (t.candidates.rows.map fun c => (c, t.regionOf c))
    t.votes.rows fun c => decide ((c.1.electionId : ℤ) = E)
  have hjoin : tallyJoin t E = ((t.candidatesOf E).map fun c => (c, t.regionOf c)).flatMap
      (matched isVoteFor t.votes.rows) := by
    rw [tallyJoin, hk.join_regions]
    refine hfilter.trans ?_
    rw [List.filter_map]
    rfl
  have hnodup : (((t.candidatesOf E).map fun c => (c, t.regionOf c)).map
      fun c => tallyKey (c, none)).Nodup := by
    rw [List.map_map]
    refine List.Nodup.of_map (fun k : TallyKey => k.1) ?_
    rw [List.map_map]
    exact t.candidates.nodup.sublist (List.filter_sublist.map _)
  rw [hjoin, groupBy_flatMap (k := fun c => tallyKey (c, none))
    (fun c _ r hr => by rw [tallyKey, fst_of_mem_matched hr]; rfl)
    (fun c _ => matched_ne_nil _ _ c) hnodup, List.map_map, List.map_map]
  refine List.map_congr_left fun c hc => ?_
  have hE : (c.electionId : ℤ) = E := by simpa using (List.mem_filter.mp hc).2
  have hcount : count (fun r => r.2.bind fun v => some v.id)
      (matched isVoteFor t.votes.rows (c, t.regionOf c)) = t.votesIn E c := by
    rw [count_matched _ _ _ _ fun _ => rfl, Tables.votesIn, ← hE]
    exact List.countP_congr fun v _ => by simp [isVoteFor]
  exact congrArg (Tally.mk c.id c.name c.position c.regionId (t.regionOf c).name) hcount

/-- The query computes the tally that the signed results carry. -/
theorem voteTallyQuery_eq_tallies (hk : TallyKeys t) (i : ℕ) :
    voteTallyQuery L t i = t.tallies L i := by
  have hroster : t.candidatesOf i = t.roster i := List.filter_congr fun c _ => by simp
  rw [voteTallyQuery, hk.groups, orderBy, Tables.tallies, hroster, ← List.filterMap_eq_map]
  congr 1
  refine List.filterMap_congr fun c hc => ?_
  obtain ⟨hmem, he⟩ := mem_roster.mp hc
  rw [Tables.tally, (hk.get?_region hmem).1]
  simp [Tables.tallyOf, Tables.votesIn, Tables.voteCount, he]

/-! ### Order and total -/

/-- The order of the rows: `TallyBefore`, or one row twice. -/
theorem tallyLe_byCodePoint (a b : Tally) : tallyLe L.byCodePoint a b = true ↔
    b.votes < a.votes ∨ a.votes = b.votes ∧ (a.name < b.name ∨ a.name = b.name ∧
      a.candidateId ≤ b.candidateId) := by
  unfold tallyLe Lib.byCodePoint
  by_cases hv : a.votes = b.votes
  · by_cases hn : a.name = b.name
    · simp [hv, hn]
    · simp [hv, hn, lt_iff_le_and_ne]
  · simp [hv]

theorem tallyLe_trans (a b c : Tally) (hab : tallyLe L.byCodePoint a b = true)
    (hbc : tallyLe L.byCodePoint b c = true) : tallyLe L.byCodePoint a c = true := by
  rw [tallyLe_byCodePoint] at *
  rcases hab with hab | ⟨hv, hab⟩
  · rcases hbc with hbc | ⟨hv', -⟩
    · exact Or.inl (hbc.trans hab)
    · exact Or.inl (hv' ▸ hab)
  rcases hbc with hbc | ⟨hv', hbc⟩
  · exact Or.inl (hv ▸ hbc)
  refine Or.inr ⟨hv.trans hv', ?_⟩
  rcases hab with hab | ⟨hn, hab⟩
  · rcases hbc with hbc | ⟨hn', -⟩
    · exact Or.inl (hab.trans hbc)
    · exact Or.inl (hn' ▸ hab)
  · rcases hbc with hbc | ⟨hn', hbc⟩
    · exact Or.inl (hn ▸ hbc)
    · exact Or.inr ⟨hn.trans hn', hab.trans hbc⟩

theorem tallyLe_total (a b : Tally) :
    (tallyLe L.byCodePoint a b || tallyLe L.byCodePoint b a) = true := by
  rw [Bool.or_eq_true, tallyLe_byCodePoint, tallyLe_byCodePoint]
  rcases lt_trichotomy a.votes b.votes with hv | hv | hv
  · exact Or.inr (Or.inl hv)
  · rcases lt_trichotomy a.name b.name with hn | hn | hn
    · exact Or.inl (Or.inr ⟨hv, Or.inl hn⟩)
    · rcases le_total a.candidateId b.candidateId with hid | hid
      · exact Or.inl (Or.inr ⟨hv, Or.inr ⟨hn, hid⟩⟩)
      · exact Or.inr (Or.inr ⟨hv.symm, Or.inr ⟨hn.symm, hid⟩⟩)
    · exact Or.inr (Or.inr ⟨hv.symm, Or.inl hn⟩)
  · exact Or.inl (Or.inl hv)

/-- **The tally query is right.** On tables that keep the foreign keys of candidates and votes, the
rows of an election are those of its candidates, each once, with the number of its votes; they are
in order, and their counts add up to the votes of the election. -/
theorem voteTallyQuery_correct (L : Lib) (t : Tables) (hk : TallyKeys t) (E : ℤ) :
    let rows := voteTallyQuery L.byCodePoint t E
    (rows.map Tally.candidateId).Nodup ∧
    (∀ row, row ∈ rows ↔ ∃ c ∈ t.candidates.rows, (c.electionId : ℤ) = E ∧
      ∃ r ∈ t.regions.rows, r.id = c.regionId ∧
        row = ⟨c.id, c.name, c.position, c.regionId, r.name, t.votes.rows.countP fun v =>
          v.candidateId = c.id ∧ (v.electionId : ℤ) = E⟩) ∧
    rows.Pairwise TallyBefore ∧
    (rows.map Tally.votes).sum = t.votes.rows.countP fun v => (v.electionId : ℤ) = E := by
  intro rows
  have hperm : rows.Perm ((t.candidatesOf E).map (t.tallyOf E)) := by
    show (orderBy _ _).Perm _
    rw [hk.groups]
    exact List.mergeSort_perm _ _
  have hids : ((t.candidatesOf E).map Candidate.id).Nodup :=
    t.candidates.nodup.sublist (List.filter_sublist.map _)
  have hnodup : (rows.map Tally.candidateId).Nodup := by
    refine (hperm.map _).nodup_iff.mpr ?_
    rw [List.map_map]
    exact hids
  refine ⟨hnodup, fun row => ?_, ?_, ?_⟩
  · rw [hperm.mem_iff, List.mem_map]
    constructor
    · rintro ⟨c, hc, rfl⟩
      obtain ⟨hmem, hE⟩ := List.mem_filter.mp hc
      obtain ⟨-, hr, hid⟩ := hk.get?_region hmem
      exact ⟨c, hmem, by simpa using hE, t.regionOf c, hr, hid, rfl⟩
    · rintro ⟨c, hmem, hE, r, hr, hid, rfl⟩
      refine ⟨c, List.mem_filter.mpr ⟨hmem, by simpa using hE⟩, ?_⟩
      have hregion : t.regionOf c = r := by
        rw [Tables.regionOf, ← hid, show t.regions.get? r.id = some r from Table.get?_key hr]
        rfl
      rw [Tables.tallyOf, hregion]
      rfl
  · -- the order is strict, since no two rows have one candidate
    have hsorted : rows.Pairwise fun a b => tallyLe L.byCodePoint a b = true :=
      List.pairwise_mergeSort tallyLe_trans tallyLe_total _
    refine (hsorted.and (List.pairwise_map.mp hnodup)).imp fun {a b} ⟨hle, hne⟩ => ?_
    rcases (tallyLe_byCodePoint a b).mp hle with h | ⟨hv, h | ⟨hn, h⟩⟩
    · exact Or.inl h
    · exact Or.inr ⟨hv, Or.inl h⟩
    · exact Or.inr ⟨hv, Or.inr ⟨hn, lt_of_le_of_ne h hne⟩⟩
  · have hcount : ∀ c, t.votesIn E c =
        (t.votes.rows.filter fun v => (v.electionId : ℤ) = E).countP fun v =>
          v.candidateId = c.id := by
      intro c
      rw [List.countP_filter, Tables.votesIn]
      exact List.countP_congr fun v _ => by simp
    have hsum := @sum_map_countP _ hids (t.votes.rows.filter fun v => (v.electionId : ℤ) = E)
      fun v hv => by
        obtain ⟨hmem, hE⟩ := List.mem_filter.mp hv
        obtain ⟨c, hc, hid, he⟩ := hk.vote_candidate v hmem
        exact List.mem_map.mpr ⟨c, List.mem_filter.mpr ⟨hc, by rw [he]; exact hE⟩, hid⟩
    rw [(hperm.map _).sum_eq, List.map_map, List.countP_eq_length_filter, ← hsum, List.map_map]
    exact congrArg List.sum (List.map_congr_left fun c _ => hcount c)

/-- One election with two candidates of one name, position and region, and three votes. -/
def sampleTables : Tables :=
  { Sample.accounts with
    elections := ⟨[⟨1, Py.py "Council", .closed, some 0, some 100, none, false, none⟩], 2,
      by decide, by decide⟩
    candidates := ⟨[⟨1, Py.py "Smith", none, Py.py "Mayor", 1, 1⟩,
      ⟨2, Py.py "Smith", none, Py.py "Mayor", 1, 1⟩], 3, by decide, by decide⟩
    votes := ⟨[⟨1, [1], 2, 1, Py.py "Mayor", [], 10⟩, ⟨2, [2], 2, 1, Py.py "Mayor", [], 20⟩,
      ⟨3, [3], 1, 1, Py.py "Mayor", [], 30⟩], 4, by decide, by decide⟩ }

theorem voteTallyQuery_correct_sample :
    let rows := voteTallyQuery Sample.lib.byCodePoint sampleTables 1
    (rows.map Tally.candidateId).Nodup ∧
    (∀ row, row ∈ rows ↔ ∃ c ∈ sampleTables.candidates.rows, (c.electionId : ℤ) = 1 ∧
      ∃ r ∈ sampleTables.regions.rows, r.id = c.regionId ∧
        row = ⟨c.id, c.name, c.position, c.regionId, r.name, sampleTables.votes.rows.countP fun v =>
          v.candidateId = c.id ∧ (v.electionId : ℤ) = 1⟩) ∧
    rows.Pairwise TallyBefore ∧
    (rows.map Tally.votes).sum = sampleTables.votes.rows.countP fun v => (v.electionId : ℤ) = 1 :=
  voteTallyQuery_correct Sample.lib sampleTables ⟨by decide, by decide⟩ 1

end SecureVote
