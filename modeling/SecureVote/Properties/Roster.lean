import SecureVote.Properties.Lifecycle

/-!
# Frozen rosters and sound votes

From the commit that opens an election its roster is a single contest that never changes, no vote
is ever altered or deleted, and every vote agrees with its candidate. A run starts from an empty
schema: the tables that the modelled handlers fill are empty, and accounts and regions are
arbitrary.
-/

open Txn Txn.Rules

namespace SecureVote

variable {L : Lib} {E : Environment} {r : Request} {l : Loc} {d d' : Db}

/-- A schema in which no election has been set up. -/
structure EmptySchema (d : Db) : Prop where
  elections : d.elections.rows = []
  candidates : d.candidates.rows = []
  votes : d.votes.rows = []
  receipts : d.receipts.rows = []
  tokens : d.tokens.rows = []
  nullifiers : d.nullifiers.rows = []
  results : d.results.rows = []
  resultKeys : d.resultKeys = []

theorem EmptySchema.get?_election (h : EmptySchema d) (i : ℕ) : d.elections.get? i = none :=
  Table.get?_eq_none.mpr fun a ha => by rw [h.elections] at ha; cases ha

theorem EmptySchema.oneOpen (h : EmptySchema d) : OneOpen d := by
  intro i j e e' he
  rw [h.get?_election] at he
  cases he

theorem EmptySchema.allAnchored (h : EmptySchema d) : AllAnchored d := by
  intro i e he
  rw [h.get?_election] at he
  cases he

/-- A vote agrees with its candidate, in an election that has left the draft stage. -/
structure VoteSound (d : Db) (v : Vote) : Prop where
  candidate : ∃ c, d.candidates.get? v.candidateId = some c ∧ c.electionId = v.electionId ∧
    c.position = v.position
  opened : ∃ e, d.elections.get? v.electionId = some e ∧ e.status ≠ .draft

/-- A sound vote stays sound: its candidate is frozen. -/
theorem VoteSound.carry {v : Vote} (h : VoteSound d v) (hev : Evolves d d') : VoteSound d' v := by
  obtain ⟨c, hc, hce, hpos⟩ := h.candidate
  obtain ⟨e, he, hne⟩ := h.opened
  obtain ⟨e', he', hev'⟩ := hev.elections he
  have hid : c.id = v.candidateId := Table.key_of_get? hc
  rw [← hid] at hc
  exact ⟨⟨c, hid ▸ hev.candidate hc (by rw [hce]; exact he) hne, hce, hpos⟩, e', he',
    hev'.ne_draft hne⟩

/-- A new vote is sound, in the state that its commit leaves. -/
theorem Act.sound_of_new (h : Act L r l d d') {v : Vote} (hv : d'.votes.rows = d.votes.rows ++ [v]) :
    VoteSound d' v := by
  have hne : d'.votes.rows ≠ d.votes.rows := by
    rw [hv]
    simp
  suffices hd : VoteSound d v from hd.carry h.evolves
  cases h with
  | @ballot b e c h =>
    obtain ⟨_, _, _, ha⟩ := h.after
    rw [show d'.votes.rows = _ from (congrArg (·.votes.rows) ha :)] at hv
    obtain rfl := List.singleton_injective (List.append_cancel_left hv)
    exact ⟨⟨c, h.candidate, h.candidateElection, rfl⟩, e, h.election.row, by rw [h.isOpen]; decide⟩
  | @vote u e₀ c h =>
    obtain ⟨_, _, _, ha⟩ := h.after
    rw [show d'.votes.rows = _ from (congrArg (·.votes.rows) ha :)] at hv
    obtain rfl := List.singleton_injective (List.append_cancel_left hv)
    obtain ⟨d₀, -, he₀, -, hev⟩ := h.loaded
    obtain ⟨e, he, hev'⟩ := hev.elections he₀
    exact ⟨⟨c, h.candidate, h.candidateElection, rfl⟩, e, he,
      hev'.ne_draft (by rw [h.isOpen]; decide)⟩
  | token h => exact absurd (congrArg (·.votes.rows) h.after :) hne
  | election h =>
    obtain ⟨_, ha⟩ := h.only
    exact absurd (congrArg (·.votes.rows) ha :) hne
  | candidate h =>
    -- an edit keeps the votes, and a deletion only removes some
    obtain ⟨-, -, -, -, hvotes | ⟨c, hc⟩⟩ := h.only
    · exact absurd (congrArg Table.rows hvotes) hne
    · have hlen := congrArg List.length hv
      rw [show d'.votes.rows = _ from (congrArg (·.votes.rows) hc.after :)] at hlen
      have hle : ((dropCandidate c.id d.toTables).votes.rows).length ≤ d.votes.rows.length :=
        List.length_filter_le _ _
      rw [hlen, List.length_append] at hle
      simp at hle
  | sign h =>
    obtain ⟨_, _, _, _, ha⟩ := h.after
    exact absurd (congrArg (·.votes.rows) ha :) hne
  | account h =>
    obtain ⟨_, _, ha, -⟩ := h.only
    exact absurd (congrArg (·.votes.rows) ha :) hne

/-- Deleting a candidate of a draft election deletes no sound vote. -/
theorem CandidateDeleted.votes_eq {e : Election} {c : Candidate}
    (h : CandidateDeleted r l d d' e c) (hv : ∀ v ∈ d.votes.rows, VoteSound d v) :
    d'.votes.rows = d.votes.rows := by
  rw [show d'.votes.rows = _ from (congrArg (·.votes.rows) h.after :)]
  refine List.filter_eq_self.mpr fun v hmem => decide_eq_true fun hid => ?_
  obtain ⟨⟨c', hc', hce, -⟩, e', he', hne⟩ := hv v hmem
  rw [hid, h.candidate] at hc'
  cases hc'
  rw [← hce, h.candidateElection, h.election.row] at he'
  cases he'
  exact hne h.draft

/-- While all votes are sound, a commit keeps the votes or appends one. -/
theorem Act.votes_append (h : Act L r l d d') (hv : ∀ v ∈ d.votes.rows, VoteSound d v) :
    d'.votes.rows = d.votes.rows ∨ ∃ v, d'.votes.rows = d.votes.rows ++ [v] := by
  rcases h.votes_cases with hvotes | ⟨v, -, hvotes, -⟩ | ⟨e, c, hc⟩
  · exact Or.inl (congrArg Table.rows hvotes)
  · exact Or.inr ⟨v, hvotes⟩
  · exact Or.inl (hc.votes_eq hv)

/-- A commit keeps all votes sound. -/
theorem Act.sound (h : Act L r l d d') (hv : ∀ v ∈ d.votes.rows, VoteSound d v) :
    ∀ v ∈ d'.votes.rows, VoteSound d' v := by
  intro v hmem
  rcases h.votes_append hv with hvotes | ⟨v', hvotes⟩
  · rw [hvotes] at hmem
    exact (hv v hmem).carry h.evolves
  · rw [hvotes] at hmem
    rcases List.mem_append.mp hmem with hmem | hmem
    · exact (hv v hmem).carry h.evolves
    · obtain rfl := List.mem_singleton.mp hmem
      exact h.sound_of_new hvotes

section Runs

variable {w : E.World} {s s' : Sys (machine L E)}

/-- All votes are sound in every reachable state. -/
theorem votes_sound (hd : EmptySchema d) (h : Reach (Sys.init d w) s) :
    ∀ v ∈ s.db.votes.rows, VoteSound s.db v :=
  db_induction h (P := fun d => ∀ v ∈ d.votes.rows, VoteSound d v)
    (fun v hv => by rw [hd.votes] at hv; cases hv) fun hv hact => hact.sound hv

/-- A step keeps the votes or appends one. -/
theorem votes_append_of_step (hd : EmptySchema d) (h : Reach (Sys.init d w) s) {b : Label}
    (hs : Step (machine L E) b s s') :
    s'.db.votes.rows = s.db.votes.rows ∨ ∃ v, s'.db.votes.rows = s.db.votes.rows ++ [v] := by
  rcases act_of_step h hs with ⟨heq, -⟩ | ⟨_, _, _, _, -, -, -, hact, -⟩
  · exact Or.inl (congrArg (·.votes.rows) heq)
  · exact hact.votes_append (votes_sound hd h)

/-- The votes only grow. -/
theorem votes_prefix (hd : EmptySchema d) (h : Reach (Sys.init d w) s) (hs : Reach s s') :
    s.db.votes.rows <+: s'.db.votes.rows := by
  induction hs with
  | refl => exact List.prefix_refl _
  | tail hr hstep ih =>
    obtain ⟨b, hb, -⟩ := hstep
    refine ih.trans ?_
    rcases votes_append_of_step hd (h.trans hr) hb with hv | ⟨v, hv⟩
    · exact prefix_of_eq hv
    · rw [hv]
      exact List.prefix_append _ _

/-- **The roster freeze.** In every run from an empty schema: the commit that opens an election
leaves it a nonempty roster with one region and one position; from then on the roster never
changes; committed votes stay as they are; and every vote names a candidate of its election with
the candidate's position. -/
theorem roster_freeze (hd : EmptySchema d) (h : Reach (Sys.init d w) s) :
    (∀ b s', Step (machine L E) b s s' → ∀ i e', s'.db.elections.get? i = some e' →
      e'.status = .open → (∀ e, s.db.elections.get? i = some e → e.status ≠ .open) →
      s'.db.roster i ≠ [] ∧ SingleContest (s'.db.roster i)) ∧
    (∀ s', Reach s s' → ∀ i e, s.db.elections.get? i = some e → e.status ≠ .draft →
      s'.db.roster i = s.db.roster i) ∧
    (∀ s', Reach s s' → s.db.votes.rows <+: s'.db.votes.rows) ∧
    ∀ v ∈ s.db.votes.rows, ∃ c, s.db.candidates.get? v.candidateId = some c ∧
      c.electionId = v.electionId ∧ c.position = v.position := by
  refine ⟨fun b s' hs i e' he' hopen hnot => ?_,
    fun s' hs i e he hne => (evolves_of_reach h hs).roster he hne,
    fun s' hs => votes_prefix hd h hs, fun v hv => (votes_sound hd h v hv).candidate⟩
  rcases act_of_step h hs with ⟨heq, -⟩ | ⟨_, _, _, l, -, -, -, hact, -⟩
  · rw [heq] at he'
    exact absurd hopen (hnot e' he')
  · rcases hact.open_cases he' hopen with ⟨e, he, hopen'⟩ | ⟨e, k, h, rfl⟩
    · exact absurd hopen' (hnot e he)
    · have hroster : s'.db.roster e.id = s.db.roster e.id := by
        obtain ⟨_, ha⟩ := h.after
        exact (congrArg (Tables.roster · e.id) ha :)
      rw [hroster]
      refine ⟨fun hnil => ?_, h.roster⟩
      have := h.roster.region
      rw [hnil] at this
      cases this

/-- The sample database has the empty schema. -/
theorem emptySchema_sample : EmptySchema Sample.db := ⟨rfl, rfl, rfl, rfl, rfl, rfl, rfl, rfl⟩

/-- The run of one election, in which one vote has been cast. -/
theorem roster_freeze_electionRun :
    Sample.electionRun.db.votes.rows.length = 1 ∧
      ∀ v ∈ Sample.electionRun.db.votes.rows,
        ∃ c, Sample.electionRun.db.candidates.get? v.candidateId = some c ∧
          c.electionId = v.electionId ∧ c.position = v.position := by
  obtain ⟨-, hvotes, -⟩ := Sample.electionRun_outcome
  exact ⟨by simpa using congrArg List.length hvotes,
    (roster_freeze emptySchema_sample Sample.electionRun_sound.1.reach).2.2.2⟩

end Runs

end SecureVote
