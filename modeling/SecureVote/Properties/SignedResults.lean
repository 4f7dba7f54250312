import SecureVote.Properties.Roster
import Mathlib.Algebra.BigOperators.Group.List.Basic

/-!
# Signed results count every recorded ballot

A signed result stays as it was committed, and its payload is the tally of the ballots ever
committed for its election. The one gap is the vote service, which checks that the election is
open on the row as it was loaded before the lock: a vote is committed in an open election exactly
when that row still has the committed status.
-/

open Txn Txn.Rules

namespace SecureVote

open Py

variable {L : Lib} {E : Environment} {r : Request} {l : Loc} {d d' : Db}

/-! ### Tallies -/

/-- The rows list the candidates `cs`, each with its number of `votes`. -/
structure Counts (cs : List Candidate) (votes : List Vote) (rows : List Tally) : Prop where
  candidates : (rows.map Tally.candidateId).Perm (cs.map Candidate.id)
  columns : ∀ row ∈ rows, ∃ c ∈ cs, c.id = row.candidateId ∧ c.name = row.name ∧
    c.position = row.position ∧ c.regionId = row.regionId
  count : ∀ row ∈ rows, row.votes = votes.countP fun v => v.candidateId = row.candidateId
  total : (rows.map Tally.votes).sum = votes.length

theorem sum_map_ite_eq {ids : List ℕ} {x : ℕ} (hn : ids.Nodup) (hx : x ∈ ids) :
    (ids.map fun i => if x = i then 1 else 0).sum = 1 := by
  induction ids with
  | nil => cases hx
  | cons i is ih =>
    rw [List.nodup_cons] at hn
    rw [List.map_cons, List.sum_cons]
    rcases List.mem_cons.mp hx with rfl | hx
    · have hzero : (is.map fun j => if x = j then 1 else 0).sum = 0 := by
        refine List.sum_eq_zero fun y hy => ?_
        obtain ⟨j, hj, rfl⟩ := List.mem_map.mp hy
        exact if_neg (by rintro rfl; exact hn.1 hj)
      rw [hzero, if_pos rfl]
    · rw [ih hn.2 hx, if_neg fun h : x = i => hn.1 (h ▸ hx)]

/-- Votes whose candidates are among `ids` are counted once each. -/
theorem sum_map_countP {ids : List ℕ} (hn : ids.Nodup) {votes : List Vote}
    (hv : ∀ v ∈ votes, v.candidateId ∈ ids) :
    (ids.map fun i => votes.countP fun v => v.candidateId = i).sum = votes.length := by
  induction votes with
  | nil => simp
  | cons v vs ih =>
    have hsplit : (ids.map fun i => (v :: vs).countP fun v => v.candidateId = i) =
        ids.map fun i => (vs.countP fun v => v.candidateId = i) +
          if v.candidateId = i then 1 else 0 := by
      refine List.map_congr_left fun i _ => ?_
      rw [List.countP_cons]
      simp
    rw [hsplit, List.sum_map_add, ih fun u hu => hv u (List.mem_cons_of_mem _ hu),
      sum_map_ite_eq hn (hv v List.mem_cons_self), List.length_cons]

/-- The tally of an election counts its votes, when they agree with their candidates. -/
theorem counts_tallies (d : Db) (hv : ∀ v ∈ d.votes.rows, VoteSound d v) (i : ℕ) :
    Counts (d.roster i) (d.votesFor i) (d.tallies L i) := by
  have hperm : (d.tallies L i).Perm ((d.roster i).filterMap d.tally) :=
    List.mergeSort_perm _ _
  have hcount : ∀ c ∈ d.roster i,
      d.voteCount c = (d.votesFor i).countP fun v => v.candidateId = c.id := by
    intro c hc
    rw [Tables.voteCount, Tables.votesFor, List.countP_filter, (mem_roster.mp hc).2]
    exact List.countP_congr fun v _ => by simp
  have hmap : ∀ {α : Type} (f : Tally → α) (g : Candidate → α),
      (∀ c ∈ d.roster i, ∀ row, d.tally c = some row → f row = g c) →
      ((d.roster i).filterMap d.tally).map f = (d.roster i).map g := by
    intro α f g hfg
    rw [List.map_filterMap, ← List.filterMap_eq_map]
    refine List.filterMap_congr fun c hc => ?_
    obtain ⟨region, hregion⟩ := Option.isSome_iff_exists.mp
      (d.ok.candidates_region c (mem_roster.mp hc).1)
    have hrow : d.tally c =
        some ⟨c.id, c.name, c.position, c.regionId, region.name, d.voteCount c⟩ := by
      rw [Tables.tally, hregion]
      rfl
    rw [hrow]
    exact congrArg some (hfg c hc _ hrow)
  have hmem : ∀ row ∈ d.tallies L i, ∃ c ∈ d.roster i, ∃ name,
      row = ⟨c.id, c.name, c.position, c.regionId, name, d.voteCount c⟩ := by
    intro row hrow
    obtain ⟨c, hc, htally⟩ := List.mem_filterMap.mp (hperm.mem_iff.mp hrow)
    obtain ⟨region, -, rfl⟩ := Option.map_eq_some_iff.mp htally
    exact ⟨c, hc, region.name, rfl⟩
  have hrow : ∀ c ∈ d.roster i, ∀ row, d.tally c = some row →
      row.candidateId = c.id ∧ row.votes = d.voteCount c := by
    intro c _ row htally
    obtain ⟨region, -, rfl⟩ := Option.map_eq_some_iff.mp htally
    exact ⟨rfl, rfl⟩
  refine ⟨?_, fun row hr => ?_, fun row hr => ?_, ?_⟩
  · refine (hperm.map _).trans (List.Perm.of_eq ?_)
    exact hmap _ _ fun c hc row h => (hrow c hc row h).1
  · obtain ⟨c, hc, name, rfl⟩ := hmem row hr
    exact ⟨c, hc, rfl, rfl, rfl, rfl⟩
  · obtain ⟨c, hc, name, rfl⟩ := hmem row hr
    exact hcount c hc
  · rw [(hperm.map _).sum_eq, hmap _ d.voteCount fun c hc row h => (hrow c hc row h).2,
      List.map_congr_left hcount]
    have hids : ((d.roster i).map Candidate.id).Nodup :=
      d.candidates.nodup.sublist (List.filter_sublist.map _)
    have := @sum_map_countP _ hids (d.votesFor i) fun v hmem => by
      obtain ⟨hmem, hvi⟩ := List.mem_filter.mp hmem
      obtain ⟨c, hc, hce, -⟩ := (hv v hmem).candidate
      refine List.mem_map.mpr ⟨c, mem_roster.mpr ⟨Table.mem_of_get? hc, ?_⟩, Table.key_of_get? hc⟩
      rw [hce]
      simpa using hvi
    rwa [List.map_map] at this

/-! ### The votes a run has committed -/

section Runs

variable {w : E.World} {s s' : Sys (machine L E)} {b : Label}

/-- The votes ever committed, in order. -/
def committedVotes (s : Sys (machine L E)) : List Vote :=
  s.commits.flatMap fun x => added Tables.votes x.2.1 x.2.2

/-- The commits that recorded a ballot for an election. -/
def casts (s : Sys (machine L E)) (i : ℕ) : List (ℕ × Db × Db) :=
  s.commits.filter fun x => (added Tables.votes x.2.1 x.2.2).any fun v => v.electionId = i

/-- No ballot is lost: the committed votes are the votes of the reached state. -/
theorem committedVotes_eq (hd : EmptySchema d) (h : Reach (Sys.init d w) s) :
    committedVotes s = s.db.votes.rows ∧
      ∀ i, (casts s i).length = (s.db.votesFor i).length := by
  obtain ⟨hrows, hlength⟩ := rows_eq_added (t := Tables.votes) h hd.votes
    fun h₁ hs => votes_append_of_step hd h₁ hs
  exact ⟨hrows, fun i => hlength _⟩

/-! ### Votes of closed elections -/

/-- When the step commits for the vote service, the election row that it has loaded still has the
committed status. -/
def ElectionCurrent (s : Sys (machine L E)) (b : Label) : Prop :=
  ∀ pid t p l d' userId candidateId electionId d₀ c e₀ e, b = .run pid → s.Runs pid t p l →
    p.commit? s.db = some d' → t.request = .castVote userId candidateId electionId →
    l.snap .voters = some d₀ → d₀.candidates.get? candidateId = some c →
    d₀.elections.get? c.electionId = some e₀ → s.db.elections.get? c.electionId = some e →
    e.status = e₀.status

/-- A vote is committed in an open election exactly when the row the service has loaded is
current. -/
theorem open_iff_electionCurrent (hd : EmptySchema d) (h : Reach (Sys.init d w) s)
    (hs : Step (machine L E) b s s') {v : Vote} (hv : v ∈ s'.db.votes.rows)
    (hn : v ∉ s.db.votes.rows) :
    (∃ e, s.db.elections.get? v.electionId = some e ∧ e.status = .open) ↔
      ElectionCurrent s b := by
  rcases act_of_step h hs with ⟨heq, -⟩ | ⟨pid, t, p, l, rfl, hr, hc, hact, -⟩
  · rw [heq] at hv
    exact absurd hv hn
  cases hact with
  | @ballot b e c hb =>
    obtain ⟨_, _, _, ha⟩ := hb.after
    rw [show s'.db.votes.rows = s.db.votes.rows ++ [_] from (congrArg (·.votes.rows) ha :)] at hv
    obtain rfl := List.mem_singleton.mp ((List.mem_append.mp hv).resolve_left hn)
    refine iff_of_true ⟨e, hb.election.row, hb.isOpen⟩ ?_
    rintro pid' t' p' l' d'' u i j d₀ c₀ e₀ e' hpid hr' - hreq
    cases hpid
    obtain ⟨data, hdata, -⟩ := hb.request
    rw [(hr.unique hr').1, hdata] at hreq
    cases hreq
  | @vote u e₀ c hb =>
    obtain ⟨_, _, _, ha⟩ := hb.after
    rw [show s'.db.votes.rows = s.db.votes.rows ++ [_] from (congrArg (·.votes.rows) ha :)] at hv
    obtain rfl := List.mem_singleton.mp ((List.mem_append.mp hv).resolve_left hn)
    obtain ⟨userId, electionId, hreq⟩ := hb.request
    obtain ⟨d₀, hd₀, he₀, hc₀, -⟩ := hb.loaded
    obtain ⟨e, held, hid⟩ := hb.election
    have he : s.db.elections.get? e₀.id = some e := hid ▸ held.row
    constructor
    · rintro ⟨e', he', hopen⟩ pid' t' p' l' d'' u' i j d₁ c₁ e₁ e₂ hpid hr' - hreq' hd₁ hc₁ he₁ he₂
      cases hpid
      obtain ⟨rfl, -, rfl⟩ := hr.unique hr'
      rw [hreq] at hreq'
      cases hreq'
      obtain rfl : d₀ = d₁ := Option.some.inj (hd₀.symm.trans hd₁)
      obtain rfl : c = c₁ := Option.some.inj (hc₀.symm.trans hc₁)
      rw [hb.candidateElection] at he₁ he₂
      obtain rfl : e₀ = e₁ := Option.some.inj (he₀.symm.trans he₁)
      obtain rfl : e' = e₂ := Option.some.inj (he'.symm.trans he₂)
      rw [hopen, hb.isOpen]
    · intro hcur
      refine ⟨e, he, ?_⟩
      rw [hcur pid t p l _ userId c.id electionId d₀ c e₀ e rfl hr hc hreq hd₀ hc₀
        (hb.candidateElection ▸ he₀) (hb.candidateElection ▸ he)]
      exact hb.isOpen
  | token hb => exact absurd ((congrArg (·.votes.rows) hb.after :) ▸ hv) hn
  | election hb =>
    obtain ⟨_, ha⟩ := hb.only
    exact absurd ((congrArg (·.votes.rows) ha :) ▸ hv) hn
  | candidate hb =>
    have hact := Act.candidate (L := L) hb
    obtain ⟨-, -, -, -, hvotes | ⟨c, hdel⟩⟩ := hb.only
    · exact absurd (hvotes ▸ hv) hn
    · exact absurd (hdel.votes_eq (votes_sound hd h) ▸ hv) hn
  | sign hb =>
    obtain ⟨_, _, _, _, ha⟩ := hb.after
    exact absurd ((congrArg (·.votes.rows) ha :) ▸ hv) hn
  | account hb =>
    obtain ⟨_, _, ha, -⟩ := hb.only
    exact absurd ((congrArg (·.votes.rows) ha :) ▸ hv) hn

/-- A closed election gets no vote any more, when the service reads current rows. -/
theorem votesFor_of_closed (hd : EmptySchema d) (h : Reach (Sys.init d w) s)
    (hs : Step (machine L E) b s s') (hcur : ElectionCurrent s b) {i : ℕ} {e : Election}
    (he : s.db.elections.get? i = some e) (hclosed : e.status = .closed) :
    s'.db.votesFor i = s.db.votesFor i := by
  rcases votes_append_of_step hd h hs with hv | ⟨v, hv⟩
  · rw [Tables.votesFor, Tables.votesFor, hv]
  · have hnew : v ∈ added Tables.votes s.db s'.db := by
      rw [added_of_append hv]
      exact List.mem_singleton_self v
    obtain ⟨hmem, hn⟩ := List.mem_filter.mp hnew
    obtain ⟨e', he', hopen⟩ := (open_iff_electionCurrent hd h hs hmem (by simpa using hn)).mpr hcur
    have hne : v.electionId ≠ i := by
      rintro rfl
      rw [he] at he'
      cases he'
      rw [hclosed] at hopen
      cases hopen
    rw [Tables.votesFor, Tables.votesFor, hv]
    exact filter_append_of_not (by simpa using hne)

/-- The tally of a closed election never changes, when the service reads current rows. -/
theorem tallies_of_closed (hd : EmptySchema d) (h : Reach (Sys.init d w) s)
    (hs : ReachIf ElectionCurrent s s') {i : ℕ} {e : Election}
    (he : s.db.elections.get? i = some e) (hclosed : e.status = .closed) :
    s'.db.tallies L i = s.db.tallies L i ∧
      ∃ e', s'.db.elections.get? i = some e' ∧ e'.status = .closed := by
  induction hs with
  | refl => exact ⟨rfl, e, he, hclosed⟩
  | tail hr hstep ih =>
    obtain ⟨b, hb, hcur⟩ := hstep
    obtain ⟨ih, e₁, he₁, hclosed₁⟩ := ih
    have h₁ := h.trans (ReachIf.reach hr)
    have hev := evolves_of_step h₁ hb
    obtain ⟨e₂, he₂, hev₂⟩ := hev.elections he₁
    refine ⟨(tallies_congr ?_ (votesFor_of_closed hd h₁ hb hcur he₁ hclosed₁) hev.regions).trans ih,
      e₂, he₂, ?_⟩
    · exact hev.roster he₁ (by rw [hclosed₁]; decide)
    · have hrank := hev₂.status
      rw [hclosed₁] at hrank
      rcases hs : e₂.status with _ | _ | _ <;> rw [hs] at hrank <;>
        first | rfl | exact absurd hrank (by decide)

/-- The payload of a signed result is the tally of its election, which is closed. -/
structure SignedSound (L : Lib) (d : Db) (x : SignedElectionResult) : Prop where
  payload : ∃ e signedAt, e.id = x.electionId ∧
    x.payload = dumps (electionResults e signedAt (d.tallies L x.electionId))
  closed : ∃ e, d.elections.get? x.electionId = some e ∧ e.status = .closed

/-- A commit keeps the signed results, or appends a sound one. -/
theorem Act.results_cases (h : Act L r l d d') :
    d'.results.rows = d.results.rows ∨
      ∃ x, d'.results.rows = d.results.rows ++ [x] ∧ SignedSound L d' x := by
  cases h with
  | sign h =>
    obtain ⟨_, _, signedAt, _, ha⟩ := h.after
    have htallies : ∀ i, d'.tallies L i = d.tallies L i := fun i =>
      tallies_congr (congrArg (Tables.roster · i) ha :) (congrArg (Tables.votesFor · i) ha :)
        (congrArg Tables.regions ha :)
    refine Or.inr ⟨_, (congrArg (·.results.rows) ha :), ⟨_, signedAt, rfl, ?_⟩, ?_⟩
    · rw [htallies]
    · rw [show d'.elections = d.elections from (congrArg Tables.elections ha :)]
      exact ⟨_, h.election.row, h.closed⟩
  | token h => exact Or.inl (congrArg (·.results.rows) h.after :)
  | ballot h =>
    obtain ⟨_, _, _, ha⟩ := h.after
    exact Or.inl (congrArg (·.results.rows) ha :)
  | vote h =>
    obtain ⟨_, _, _, ha⟩ := h.after
    exact Or.inl (congrArg (·.results.rows) ha :)
  | election h =>
    obtain ⟨_, ha⟩ := h.only
    exact Or.inl (congrArg (·.results.rows) ha :)
  | candidate h =>
    obtain ⟨-, -, ⟨_, _, ha⟩, -⟩ := h.only
    exact Or.inl (congrArg (·.results.rows) ha :)
  | account h =>
    obtain ⟨_, _, ha, -⟩ := h.only
    exact Or.inl (congrArg (·.results.rows) ha :)

/-- Signed results stay sound, when the service reads current rows. -/
theorem signed_sound (hd : EmptySchema d) (h : ReachIf ElectionCurrent (Sys.init d w) s) :
    ∀ x ∈ s.db.results.rows, SignedSound L s.db x := by
  induction h with
  | refl =>
    intro x hx
    rw [show (Sys.init d w : Sys (machine L E)).db.results.rows = [] from hd.results] at hx
    cases hx
  | @tail s₁ s₂ hr hstep ih =>
    obtain ⟨b, hb, hcur⟩ := hstep
    have hold : ∀ x ∈ s₁.db.results.rows, SignedSound L s₂.db x := by
      intro x hx
      obtain ⟨⟨e, signedAt, hid, hpay⟩, e', he', hclosed⟩ := ih x hx
      obtain ⟨htallies, hclosed'⟩ :=
        tallies_of_closed hd (ReachIf.reach hr) (.single ⟨b, hb, hcur⟩) he' hclosed
      exact ⟨⟨e, signedAt, hid, by rw [htallies]; exact hpay⟩, hclosed'⟩
    intro x hx
    rcases act_of_step (ReachIf.reach hr) hb with ⟨heq, -⟩ | ⟨_, _, _, _, -, -, -, hact, -⟩
    · exact hold x (heq ▸ hx)
    · rcases hact.results_cases with hres | ⟨y, hres, hy⟩
      · exact hold x (hres ▸ hx)
      · rw [hres] at hx
        rcases List.mem_append.mp hx with hx | hx
        · exact hold x hx
        · rw [List.mem_singleton.mp hx]
          exact hy

/-- **A signed result counts every recorded ballot and nothing else.** In a run from an empty
schema in which the vote service commits with a current election row: every ballot is committed
while its election is open; an election has one signed result, which no later step changes; its
payload lists exactly the candidates with the ballots ever committed for them, and the tally is
the same at any later time. A step commits a ballot in an open election only with a current row. -/
theorem signed_result_counts (hd : EmptySchema d) :
    (∀ s : Sys (machine L E), ReachIf ElectionCurrent (Sys.init d w) s →
      (∀ i d₁ d₂, (i, d₁, d₂) ∈ s.commits → ∀ v ∈ added Tables.votes d₁ d₂,
        ∃ e, d₁.elections.get? v.electionId = some e ∧ e.status = .open) ∧
      ∀ x ∈ s.db.results.rows,
        (∀ y ∈ s.db.results.rows, y.electionId = x.electionId → y = x) ∧
        (∀ s', Reach s s' → x ∈ s'.db.results.rows) ∧
        ∃ e signedAt rows, e.id = x.electionId ∧
          x.payload = dumps (electionResults e signedAt rows) ∧
          Counts (s.db.roster x.electionId)
            ((committedVotes s).filter fun v => v.electionId = x.electionId) rows ∧
          (rows.map Tally.votes).sum = (casts s x.electionId).length ∧
          ∀ s', ReachIf ElectionCurrent s s' → s'.db.tallies L x.electionId = rows) ∧
    ∀ (s s' : Sys (machine L E)) (b : Label), Reach (Sys.init d w) s →
      Step (machine L E) b s s' → ∀ v ∈ added Tables.votes s.db s'.db,
      ((∃ e, s.db.elections.get? v.electionId = some e ∧ e.status = .open) ↔
        ElectionCurrent s b) := by
  refine ⟨fun s h => ⟨?_, fun x hx => ⟨?_, ?_, ?_⟩⟩, fun s s' b h hs v hv => ?_⟩
  · induction h with
    | refl => exact fun i d₁ d₂ hmem => absurd hmem (by simp [Sys.init, Sys.commits])
    | tail hr hstep ih =>
      obtain ⟨b, hb, hcur⟩ := hstep
      intro i d₁ d₂ hmem v hv
      have hr := ReachIf.reach hr
      rcases act_of_step hr hb with ⟨-, heq⟩ | ⟨_, _, _, _, -, -, -, -, heq⟩
      · exact ih i d₁ d₂ (heq ▸ hmem) v hv
      · rw [heq] at hmem
        rcases List.mem_append.mp hmem with hmem | hmem
        · exact ih i d₁ d₂ hmem v hv
        · cases List.mem_singleton.mp hmem
          obtain ⟨hv, hn⟩ := List.mem_filter.mp hv
          exact (open_iff_electionCurrent hd hr hb hv (by simpa using hn)).mpr hcur
  · exact fun y hy hyx => List.inj_on_of_nodup_map s.db.ok.results_unique hy hx hyx
  · exact fun s' hs => (evolves_of_reach (ReachIf.reach h) hs).results.subset hx
  · obtain ⟨⟨e, signedAt, hid, hpay⟩, e', he', hclosed⟩ := signed_sound hd h x hx
    have hr := ReachIf.reach h
    obtain ⟨hvotes, hcasts⟩ := committedVotes_eq hd hr
    have hcounts := counts_tallies (L := L) s.db (votes_sound hd hr) x.electionId
    refine ⟨e, signedAt, _, hid, hpay, ?_, ?_,
      fun s' hs => (tallies_of_closed hd hr hs he' hclosed).1⟩
    · rw [hvotes]
      exact hcounts
    · rw [hcasts]
      exact hcounts.total
  · obtain ⟨hv, hn⟩ := List.mem_filter.mp hv
    exact open_iff_electionCurrent hd h hs hv (by simpa using hn)

/-- The run of one election, whose signed result counts its one ballot. -/
theorem signed_result_counts_electionRun :
    Sample.electionRun.db.results.rows.map SignedElectionResult.electionId = [1] ∧
      ∀ x ∈ Sample.electionRun.db.results.rows, ∃ e signedAt rows,
        x.payload = dumps (electionResults e signedAt rows) ∧
        Counts (Sample.electionRun.db.roster x.electionId)
          ((committedVotes Sample.electionRun).filter fun v => v.electionId = x.electionId) rows := by
  have hcurrent : ReachIf ElectionCurrent (Sys.init Sample.db ()) Sample.electionRun := by
    refine Sample.electionRun_sound.1.mono fun s b h => ?_
    rintro pid t p l d' u i j d₀ c e₀ e - hr - hreq
    have hmem := h.2 t (List.mem_of_getElem? hr.1)
    rw [hreq] at hmem
    simp only [Sample.electionRequests, List.mem_cons, List.not_mem_nil, or_false] at hmem
    rcases hmem with h | h | h | h | h | h | h <;> cases h
  obtain ⟨-, -, -, -, hresults, -⟩ := Sample.electionRun_outcome
  refine ⟨hresults, fun x hx => ?_⟩
  obtain ⟨-, -, e, signedAt, rows, -, hpayload, hcounts, -⟩ :=
    ((signed_result_counts emptySchema_sample).1 _ hcurrent).2 x hx
  exact ⟨e, signedAt, rows, hpayload, hcounts⟩

/-- A run in which the service loads an open election, and its caller is slow: the election is
closed and its result is signed before the vote is committed. -/
def staleElectionRun : Sys (machine Sample.lib Sample.environment) :=
  (Sys.init Sample.db ()).runs (fun _ _ => True) Sample.oracle
    (Sample.inOrder 0 [Sample.createElection, Sample.createCandidate, Sample.openElection] ++
      .start (.castVote 2 1 (some 1)) 0 :: .run 3 3 ::
      Sample.inOrder 4 [Sample.closeElection, Sample.signElectionResults] ++ [.run 3 100])

/-- A vote is committed for a closed election, whose result has been signed before. -/
theorem vote_after_signed_result :
    ∃ s : Sys (machine Sample.lib Sample.environment), Reach (Sys.init Sample.db ()) s ∧
      ∃ i d₁ d₂, (i, d₁, d₂) ∈ s.commits ∧ ∃ v ∈ added Tables.votes d₁ d₂,
        (∃ e, d₁.elections.get? v.electionId = some e ∧ e.status = .closed) ∧
        ∃ x ∈ d₁.results.rows, x.electionId = v.electionId := by
  have hrun : ∃ x ∈ staleElectionRun.commits, ∃ v ∈ added Tables.votes x.2.1 x.2.2,
      (x.2.1.elections.get? v.electionId).any (·.status = .closed) = true ∧
        ∃ r ∈ x.2.1.results.rows, r.electionId = v.electionId := by
    decide +kernel
  obtain ⟨⟨i, d₁, d₂⟩, hmem, v, hv, hclosed, hsigned⟩ := hrun
  obtain ⟨e, he, hstatus⟩ := (Option.any_eq_true _ _).mp hclosed
  exact ⟨staleElectionRun, Sample.runs_reach fun _ => trivial, i, d₁, d₂, hmem, v, hv,
    ⟨e, he, of_decide_eq_true hstatus⟩, hsigned⟩

end Runs

end SecureVote
