import SecureVote.Properties.Schedule
import SecureVote.Properties.DisplayedEligibility

/-!
# The voting window

A vote lies in the window of its election: not before the opening time, and not after the closing
time. `is_open` compares the window with one reading of the clock, and the vote carries a later
one, so a vote that is stamped after a scheduled closing time is recorded all the same. Opening and
closing rewrite the window, but only while there are no votes, and to a time that no vote is after.
So the votes stay in their windows as long as every cast stamps its vote before the closing time
(`StampsInWindow`), and a run in which the clock passes that time in between leaves a late vote.
-/

open Txn Txn.Rules

namespace SecureVote

open Py

/-- The time lies between the opening time, which is set, and the closing time if it is set. -/
structure Election.InWindow (e : Election) (t : Time) : Prop where
  opened : ∃ o ∈ e.openAt, o ≤ t
  closes : ∀ c ∈ e.closeAt, t ≤ c

/-- Every vote lies in the window of its election. -/
def VotesInWindow (d : Db) : Prop :=
  ∀ v ∈ d.votes.rows, ∀ e ∈ d.elections.rows, e.id = v.electionId → e.InWindow v.createdAt

/-- The requests that move an election along and the one that casts a ballot. -/
def Request.movesOrCasts : Request → Bool
  | .castAnonymousBallot _ => true
  | r => r.managesElections

variable {L : Lib} {E : Environment} {K : Clock E}

/-- When a cast takes the time of its vote, the closing time of the election that it has locked
has not passed. -/
def StampsInWindow (K : Clock E) : Promise (machine L E) :=
  fun r p l d w => (∃ data, r = .castAnonymousBallot data) → Stamping p →
    ∀ e, Held l .share d e → ∀ c ∈ e.closeAt, K.time w ≤ c

/-- What the commits maintain. A draft has no votes, and all other elections have opened; every
vote is in its window and in the past. -/
structure Windowed (K : Clock E) (d : Db) (w : E.World) : Prop where
  opened : ∀ e ∈ d.elections.rows, e.status ≠ .draft → e.openAt.isSome
  voted : ∀ v ∈ d.votes.rows, ∀ e ∈ d.elections.rows, e.id = v.electionId → e.status ≠ .draft
  window : VotesInWindow d
  past : ∀ v ∈ d.votes.rows, v.createdAt ≤ K.time w

/-- Time goes on. -/
theorem Windowed.later {d : Db} {w w' : E.World} (h : Windowed K d w)
    (hle : K.time w ≤ K.time w') : Windowed K d w' :=
  { h with past := fun v hv => (h.past v hv).trans hle }

/-- The votes of an election. -/
def Db.ballots (d : Db) (i : ℕ) : List Vote := d.votes.rows.filter fun v => v.electionId = i

theorem Db.mem_ballots {d : Db} {i : ℕ} {v : Vote} :
    v ∈ d.ballots i ↔ v ∈ d.votes.rows ∧ v.electionId = i := by
  simp [Db.ballots]

variable (L K) in
/-- The rules: locked rows stay, an election that is locked exclusively gets no votes, and the
clock goes on. -/
def windowRules : Rules (machine L E) where
  Inv := Windowed K
  Rely l d w d' w' := (∀ h ∈ l.held, Store.val d' h.1 = Store.val d h.1) ∧ K.time w ≤ K.time w' ∧
    ∀ i, (RowId.election i, Mode.exclusive) ∈ l.held → d'.ballots i = d.ballots i
  Guar _ l d w d' := Windowed K d' w ∧
    ∀ i, (∀ m, (RowId.election i, m) ∉ l.held) → d'.ballots i = d.ballots i
  Emit _ _ _ _ := True
  rely_refl _ _ _ := ⟨fun _ _ => rfl, le_refl _, fun _ _ => rfl⟩
  rely_trans _ _ _ _ _ _ _ h h' :=
    ⟨fun x hx => (h'.1 x hx).trans (h.1 x hx), h.2.1.trans h'.2.1,
      fun i hi => (h'.2.2 i hi).trans (h.2.2 i hi)⟩
  rely_mono hh _ h := ⟨fun x hx => h.1 x (hh hx), h.2.1, fun i hi => h.2.2 i (hh hi)⟩
  guar_inv _ hg := hg.1
  guar_rely hcompat _ hg hval :=
    ⟨hval, le_refl _, fun i hi => hg.2 i fun _ => hcompat.symm.not_mem hi⟩
  answer_inv h ha := h.later (K.answer_le ha)
  answer_rely _ _ ha := ⟨fun _ _ => rfl, K.answer_le ha, fun _ _ => rfl⟩
  drift_inv h hd := h.later (K.drift_le hd)
  drift_rely _ _ hd := ⟨fun _ _ => rfl, K.drift_le hd, fun _ _ => rfl⟩

variable {r : Request} {wk : ℕ} {l : Loc} {d d' : Db} {w : E.World}

/-- A commit that rewrites one election, and no vote, keeps what is maintained when the new row
has opened and its window still holds the votes. -/
theorem windowed_update {e : Election} {f : Election → Election} (hd : Windowed K d w)
    (he : d.elections.get? e.id = some e) (hid : ∀ e₀ : Election, (f e₀).id = e₀.id)
    (hopen : (f e).status ≠ .draft ∧ (f e).openAt.isSome)
    (hwindow : ∀ v ∈ d.ballots e.id, (f e).InWindow v.createdAt)
    (hrows : d'.elections.rows = d.elections.rows.map fun e₀ =>
      if key e₀ = e.id then f e₀ else e₀) (hvotes : d'.votes = d.votes) :
    Windowed K d' w := by
  have hcases : ∀ e' ∈ d'.elections.rows, e' = f e ∨ e' ∈ d.elections.rows := fun _ =>
    mem_of_updated he hrows
  constructor
  · intro e' he' hdraft
    obtain rfl | hmem := hcases e' he'
    · exact hopen.2
    · exact hd.opened e' hmem hdraft
  · intro v hv e' he' hve
    rw [hvotes] at hv
    obtain rfl | hmem := hcases e' he'
    · exact hopen.1
    · exact hd.voted v hv e' hmem hve
  · intro v hv e' he' hve
    rw [hvotes] at hv
    obtain rfl | hmem := hcases e' he'
    · exact hwindow v (Db.mem_ballots.mpr ⟨hv, hve.symm.trans (hid e)⟩)
    · exact hd.window v hv e' hmem hve
  · rw [hvotes]
    exact hd.past

/-- A new election is a draft without votes. -/
theorem windowed_addElection {name : PyStr} {openAt closeAt : Option Time} {creator : ℕ}
    (hd : Windowed K d w) (hd' : d'.toTables = addElection name openAt closeAt creator d.toTables) :
    Windowed K d' w := by
  have hvotes : d'.votes = d.votes := (congrArg Tables.votes hd' :)
  have hmem : ∀ e ∈ d'.elections.rows, e ∈ d.elections.rows ∨
      e = ⟨d.elections.next, name, .draft, openAt, closeAt, none, false, some creator⟩ := by
    intro e he
    rw [hd'] at he
    exact Table.mem_insert.mp he
  -- the votes belong to elections that exist already
  have hold : ∀ v ∈ d.votes.rows, ∀ e ∈ d'.elections.rows, e.id = v.electionId →
      e ∈ d.elections.rows := by
    intro v hv e he hve
    obtain hmem | rfl := hmem e he
    · exact hmem
    · obtain ⟨c, hc, hce⟩ := d.exists_candidate hv
      have hsome := d.ok.candidates_election c (Table.mem_of_get? hc)
      have hnext : c.electionId = d.elections.next := hce.trans hve.symm
      rw [hnext, Table.get?_next] at hsome
      cases hsome
  constructor
  · intro e he hdraft
    obtain hmem | rfl := hmem e he
    · exact hd.opened e hmem hdraft
    · exact absurd rfl hdraft
  · rw [hvotes]
    exact fun v hv e he hve => hd.voted v hv e (hold v hv e he hve) hve
  · intro v hv e he hve
    rw [hvotes] at hv
    exact hd.window v hv e (hold v hv e he hve) hve
  · rw [hvotes]
    exact hd.past

/-- A vote that is stamped in the window of its election keeps what is maintained. -/
theorem windowed_addVote {e : Election} {token : HexToken} {ts spentAt : Time} {nonce : PyStr}
    {c : Candidate} (hd : Windowed K d w) (he : d.elections.get? e.id = some e)
    (hopen : e.status = .open) (hts : e.InWindow ts) (hpast : ts ≤ K.time w)
    (hd' : d'.toTables = addVoteAndNullifier L token ts spentAt nonce c e.id d.toTables) :
    Windowed K d' w := by
  have helections : d'.elections = d.elections := (congrArg Tables.elections hd' :)
  have hmem : ∀ v ∈ d'.votes.rows, v ∈ d.votes.rows ∨ v.electionId = e.id ∧ v.createdAt = ts := by
    intro v hv
    rw [hd'] at hv
    obtain hv | rfl := Table.mem_insert.mp hv
    · exact Or.inl hv
    · exact Or.inr ⟨rfl, rfl⟩
  have hrow : ∀ e' ∈ d.elections.rows, e'.id = e.id → e' = e := fun e' he' hid =>
    Table.key_inj he' (Table.mem_of_get? he) hid
  constructor
  · rw [helections]
    exact hd.opened
  · intro v hv e' he' hve
    rw [helections] at he'
    obtain hv | ⟨hid, -⟩ := hmem v hv
    · exact hd.voted v hv e' he' hve
    · rw [hrow e' he' (hve.trans hid), hopen]
      decide
  · intro v hv e' he' hve
    rw [helections] at he'
    obtain hv | ⟨hid, htime⟩ := hmem v hv
    · exact hd.window v hv e' he' hve
    · rw [hrow e' he' (hve.trans hid), htime]
      exact hts
  · intro v hv
    obtain hv | ⟨-, htime⟩ := hmem v hv
    · exact hd.past v hv
    · exact htime.le.trans hpast

/-- **Votes lie in their windows when they are stamped in time**: in a run of creations, openings,
closings and anonymous casts under a clock that does not go back, in which every cast stamps its
vote before the closing time of the election, every vote of every state reached lies in the window
of its election. -/
theorem votes_in_window {w : E.World} (hd : Windowed K d w) {s : Sys (machine L E)}
    (h : ReachIf (Keeps (StampsInWindow K)) (Sys.init d w) s)
    (hreq : ∀ t ∈ s.threads, t.request.movesOrCasts = true) : VotesInWindow s.db := by
  refine Windowed.window (inv_of_reachIf (L := windowRules L K)
    (S := fun r => r.movesOrCasts = true) ?_ hd h hreq)
  have hkeep : KeepsLocked (windowRules L K) := fun h => h.1
  have htime : KeepsTime K (windowRules L K) := fun h => h.2.1
  intro r hr wk d w _
  cases r with
  | createElection cookie form =>
    refine gwp_createElection cookie form fun {_ _ _ _ _ _ _ _} hd _ hd' => ⟨?_, fun i _ => ?_⟩
    · exact windowed_addElection hd hd'
    · exact congrArg (fun t : Tables => t.votes.rows.filter fun v => v.electionId = i) hd'
  | openElection cookie i =>
    refine gwp_openElection hkeep (fun {e keyId openAt _ d _ d'} hd he hdraft _ hd' =>
      ⟨?_, fun i _ => ?_⟩) cookie i
    · refine windowed_update (f := fun e => { e with
        status := .open, blindSigningKeyId := some keyId, openAt := some openAt }) hd he.row
        (fun _ => rfl) ⟨by simp, rfl⟩ (fun v hv => ?_) (congrArg (·.elections.rows) hd' :)
        (congrArg Tables.votes hd' :)
      -- a draft has no votes
      obtain ⟨hv, hid⟩ := Db.mem_ballots.mp hv
      exact absurd hdraft (hd.voted v hv e (Table.mem_of_get? he.row) hid.symm)
    · exact congrArg (fun t : Tables => t.votes.rows.filter fun v => v.electionId = i) hd'
  | closeElection cookie i =>
    refine gwp_closeElection hkeep (fun {e _ _ _ d₁ w₁ t w₁' d _ d'} he hopen hd₁ _ _ ht hr hd he'
      hd' => ⟨?_, fun i _ => ?_⟩) cookie i
    · have hopened : e.openAt.isSome :=
        hd.opened e (Table.mem_of_get? he'.row) (by simp [hopen])
      refine windowed_update (f := fun e => { e with status := .closed, closeAt := some t }) hd
        he'.row (fun _ => rfl) ⟨by simp, hopened⟩ (fun v hv => ?_)
        (congrArg (·.elections.rows) hd' :) (congrArg Tables.votes hd' :)
      -- the election has been locked since the time was taken, so its votes are from before
      have hv₁ : v ∈ d₁.ballots e.id := (hr.2.2 e.id he'.lock) ▸ hv
      have hpast : v.createdAt ≤ t :=
        (hd₁.past v (Db.mem_ballots.mp hv₁).1).trans (K.now_eq ht).ge
      obtain ⟨hv, hid⟩ := Db.mem_ballots.mp hv
      have hwindow := hd.window v hv e (Table.mem_of_get? he'.row) hid.symm
      exact ⟨hwindow.opened, fun c hc => Option.some.inj hc ▸ hpast⟩
    · exact congrArg (fun t : Tables => t.votes.rows.filter fun v => v.electionId = i) hd'
  | castAnonymousBallot data =>
    refine gwp_castAnonymousBallot hkeep htime (fun {e _ _ _ d₁ w₁ ts w₁' d w _ _ _ _ d'} hv hd₁
      hC hstamp hts hr hd hv' hd' => ⟨?_, fun i hi => ?_⟩) data
    · have hnow := K.now_eq hts
      obtain ⟨o, ho⟩ := Option.isSome_iff_exists.mp
        (hd.opened e (Table.mem_of_get? hv'.held.row) (by simp [hv.status]))
      refine windowed_addVote hd hv'.held.row hv.status ⟨⟨o, ho, ?_⟩, fun c hc => ?_⟩ ?_ hd'
      · exact (hv.opened o ho).trans hnow.ge
      · exact hnow.le.trans (hC ⟨data, rfl⟩ hstamp e hv.held c hc)
      · exact hnow.le.trans ((K.answer_le hts).trans hr.2.1)
    · have hne : ¬e.id = i := fun hid => hi .share (hid ▸ hv'.held.lock)
      have hrows : d'.votes.rows = _ := congrArg (fun t : Tables => t.votes.rows) hd'
      rw [Db.ballots, hrows]
      show (d.votes.rows ++ [_]).filter _ = _
      rw [List.filter_append, List.filter_cons_of_neg (by simpa using hne), List.filter_nil,
        List.append_nil, Db.ballots]
  | _ => cases hr

/-! ### A vote in time, and a late one -/

/-- The sample election with a closing time. -/
def closingElection (closeAt : Time) : Election := { sampleElection with closeAt := some closeAt }

/-- The database of the sample election with a closing time. -/
def closingTables (closeAt : Time) : Tables :=
  { votingDb.toTables with
    elections := ⟨[closingElection closeAt], 2, List.nodup_singleton _, fun e he => by
      rw [List.mem_singleton.mp he]
      exact Nat.one_lt_two⟩ }

/-- The election closes in an hour. -/
def hourDb : Db := ⟨closingTables (Sample.start + 3600000000), by decide +kernel⟩

/-- The election closes in two seconds. -/
def secondsDb : Db := ⟨closingTables (Sample.start + 2000000), by decide +kernel⟩

/-- The window is maintained of an open election without votes. -/
theorem windowed_closing {closeAt : Time} (hd : d.toTables = closingTables closeAt) :
    Windowed Sample.clock d Sample.start := by
  have hvotes : d.votes.rows = [] := congrArg (fun t : Tables => t.votes.rows) hd
  have helections : d.elections.rows = [closingElection closeAt] :=
    congrArg (fun t : Tables => t.elections.rows) hd
  refine ⟨fun e he _ => ?_, ?_, ?_, ?_⟩
  · rw [helections] at he
    rw [List.mem_singleton.mp he]
    rfl
  · rw [hvotes]
    exact fun v hv => nomatch hv
  · intro v hv
    rw [hvotes] at hv
    cases hv
  · rw [hvotes]
    exact fun v hv => nomatch hv

/-- A call is answered before the closing times of all elections that the caller has locked. -/
def closesLaterTest (s : Sys (machine Sample.lib Sample.clocked)) (b : Label) : Bool :=
  match b with
  | .ask i => (s.threads[i]?.bind Thread.loc?).all fun l => l.held.all fun
    | (.election j, _) => ((s.db.elections.get? j).bind Election.closeAt).all fun c =>
        Sample.clock.time s.world ≤ c
    | _ => true
  | _ => true

theorem keeps_of_closesLaterTest {s : Sys (machine Sample.lib Sample.clocked)} {b : Label}
    (h : closesLaterTest s b = true) : Keeps (StampsInWindow Sample.clock) s b := by
  rintro i t p l rfl ⟨hget, hst⟩ - - e he c hc
  have hloc : t.loc? = some l := by rw [Thread.loc?, hst]
  simp only [closesLaterTest, hget, Option.bind_some, hloc, Option.all_some,
    List.all_eq_true] at h
  have := h _ he.lock
  simpa [he.row, Option.mem_def.mp hc] using this

/-- The ballot and the closing of the election. -/
def castingAndClosing : List (Turn Request) :=
  Sample.inOrder 0 [Sample.castAnonymousBallot, Sample.closeElection]

/-- The run of both before the closing time, as long as the test succeeds. -/
def timelyRun : Sys (machine Sample.lib Sample.clocked) :=
  (Sys.init hourDb Sample.start).runs (fun s b => closesLaterTest s b = true)
    Sample.clockedOracle castingAndClosing

/-- The ballot of the run has been recorded, and the election has been closed after it. -/
theorem votes_in_window_sample :
    timelyRun.db.elections.rows.map Election.status = [.closed] ∧
      timelyRun.db.votes.rows.map Vote.electionId = [1] ∧ VotesInWindow timelyRun.db := by
  have hrun : ReachIf (Asked (fun s b => closesLaterTest s b = true)
      fun r => r.movesOrCasts = true) (Sys.init hourDb Sample.start) timelyRun ∧
      ∀ t ∈ timelyRun.threads, t.request.movesOrCasts = true :=
    Sys.runs_sound (C := fun s b => closesLaterTest s b = true)
      (P := fun r => r.movesOrCasts = true) (s := Sys.init hourDb Sample.start)
      Sample.clockedOracle_sound (fun _ => rfl) (fun t ht => by cases ht)
      (by decide)
  have hkeeps : ReachIf (Keeps (StampsInWindow Sample.clock)) (Sys.init hourDb Sample.start)
      timelyRun :=
    hrun.1.mono fun s b h => keeps_of_closesLaterTest h.1
  exact ⟨by decide +kernel, by decide +kernel,
    votes_in_window (windowed_closing rfl) hkeeps hrun.2⟩

/-- The run of the ballot alone while the clock passes the closing time. -/
def lateRun : Sys (machine Sample.lib Sample.clocked) :=
  (Sys.init secondsDb Sample.start).runs (fun _ _ => True) Sample.clockedOracle
    (Sample.inOrder 0 [Sample.castAnonymousBallot])

/-- A ballot that is found in time can be stamped after the closing time, and is recorded. -/
theorem vote_after_window :
    Windowed Sample.clock secondsDb Sample.start ∧
      Reach (Sys.init secondsDb Sample.start) lateRun ∧
      (∀ t ∈ lateRun.threads, t.request.movesOrCasts = true) ∧ ¬VotesInWindow lateRun.db := by
  have hrun : ReachIf (Asked (fun _ _ => True) fun r => r.movesOrCasts = true)
      (Sys.init secondsDb Sample.start) lateRun ∧
      ∀ t ∈ lateRun.threads, t.request.movesOrCasts = true :=
    Sys.runs_sound (s := Sys.init secondsDb Sample.start) Sample.clockedOracle_sound
      (fun _ => trivial) (fun t ht => by cases ht) (by decide)
  have hvotes : lateRun.db.votes.rows.map (fun v => (v.electionId, v.createdAt)) =
      [(1, Sample.start + 5000000)] := by
    decide +kernel
  have helections : lateRun.db.elections.rows = secondsDb.elections.rows := by
    decide +kernel
  refine ⟨windowed_closing rfl, ReachIf.reach hrun.1, hrun.2, fun h => ?_⟩
  obtain ⟨v, hv, heq⟩ := List.mem_map.mp (hvotes ▸ List.mem_singleton_self _)
  simp only [Prod.mk.injEq] at heq
  have he : closingElection (Sample.start + 2000000) ∈ lateRun.db.elections.rows := by
    rw [helections]
    exact List.mem_singleton_self _
  have hlate : v.createdAt ≤ Sample.start + 2000000 := (h v hv _ he heq.1.symm).closes _ rfl
  rw [heq.2] at hlate
  exact absurd hlate (by decide)

end SecureVote
