import SecureVote.Properties.BallotBoxes

/-!
# Every run has a history

Whatever its interleaving, a run is explained by a history of operations on ballot boxes, one after
the other (`refines_ballot_boxes`), and what holds of histories holds of runs: an acknowledged ballot
is counted once, and a signed result counts exactly the ballots that were cast.
-/

open Txn Txn.Rules Ballots

namespace SecureVote

open Py

variable {L : Lib} {E : Environment} {d d' : Db} {w : E.World} {s s' : Sys (machine L E)}
  {lab : Label}

/-! ### Ballots of a run -/

/-- The election and the candidate that a submitted ballot names. -/
def Request.ballot (L : Lib) : Request → Option (ℤ × ℤ)
  | .castAnonymousBallot data =>
      (parseBallot L data).toOption.map fun b => (b.electionId, b.candidateId)
  | _ => none

/-- The commits of the run that were asked for by a ballot for the candidate `c` of the election
`i`. -/
def ballotsFor (s : Sys (machine L E)) (i c : ℕ) : List (ℕ × Db × Db) :=
  s.commits.filter fun x => (s.threads[x.1]?).any fun t => t.request.ballot L = some ((i : ℤ), (c : ℤ))

/-- The commits of the run that were asked for by a ballot for the election `i`. -/
def ballotsOf (s : Sys (machine L E)) (i : ℕ) : List (ℕ × Db × Db) :=
  s.commits.filter fun x => (s.threads[x.1]?).any fun t =>
    (t.request.ballot L).map Prod.fst = some (i : ℤ)

/-- The body of a submission that has been answered with success. -/
def acknowledged (s : Sys (machine L E)) (i : ℕ) : Option (Option Json) :=
  match s.threads[i]? with
  | some ⟨.castAnonymousBallot data, _, .finished .ballotRecorded⟩ => some data
  | _ => none

/-- A step commits nothing, or is the commit of one request, on the row that it names. -/
theorem addressed_of_step (h : Reach (Sys.init d w) s) (hs : Step (machine L E) lab s s') :
    (s'.db = s.db ∧ s'.commits = s.commits) ∨
      ∃ pid t p l, lab = .run pid ∧ s.Runs pid t p l ∧ p.commit? s.db = some s'.db ∧
        Act L t.request l s.db s'.db ∧ Addressed t.request s.db s'.db ∧
        s'.commits = s.commits ++ [(pid, s.db, s'.db)] := by
  have hlogged : (rules L E).Logged (fun _ _ _ _ => True) (fun r => CommitsAre (Addressed r))
      (fun _ _ _ => True) s :=
    logged_of_reachIf (verified L E) (fun _ _ _ hlog => hlog.append rfl)
      (fun r _ _ _ _ => ⟨.of_nil rfl, addressed_handle r rfl⟩) trivial
      (h.mono fun _ _ _ _ _ _ _ _ _ => trivial)
  rcases act_of_step h hs with h' | ⟨pid, t, p, l, hlab, hr, hc, hact, hcommits⟩
  · exact Or.inl h'
  · refine Or.inr ⟨pid, t, p, l, hlab, hr, hc, hact, ?_, hcommits⟩
    refine hlogged.of_commit? (certified h) hr hc s.db s'.db ?_
    rw [writes_append]
    exact List.mem_append_right _ (by simp)

/-- The commits, the results and the acknowledged ballot of the sample election. -/
theorem electionRun_facts : Sample.electionRun.commits.map Prod.fst = [0, 1, 2, 3, 4, 5, 6] ∧
    Sample.electionRun.db.results.rows.map SignedElectionResult.electionId = [1] ∧
    (ballotsFor Sample.electionRun 1 1).length = 1 ∧
    (acknowledged Sample.electionRun 4).isSome := by
  decide +kernel

/-- The history `as` explains the run to `s`. -/
abbrev History (L : Lib) (E : Environment) (vs : Set ℕ) (s : Sys (machine L E))
    (as : List (Op ℕ ℕ ℕ PyStr)) : Prop :=
  Explains spec Represents (Asks L) (.empty vs) s as

/-- A database without elections represents an empty board. -/
theorem EmptySchema.represents (hd : EmptySchema d) : Represents d (.empty d.eligible) where
  eligible := rfl
  box i := by
    refine ⟨none, ?_, ?_⟩
    · rw [Db.boxAt, hd.get?_election]
      rfl
    · exact (d.rows_of_none (hd.get?_election i)).2.2.2.2.2

/-- A commit of a run is an operation that its request asks for. -/
theorem performs_of_step (hd : EmptySchema d) (h : ReachIf ElectionCurrent (Sys.init d w) s)
    (hcur : ElectionCurrent s lab) (hs : Step (machine L E) lab s s') {b : Board ℕ ℕ ℕ PyStr}
    (hb : Represents s.db b) :
    (s'.db = s.db ∧ s'.commits = s.commits) ∨ ∃ pid t a, s.threads[pid]? = some t ∧
      s'.commits = s.commits ++ [(pid, s.db, s'.db)] ∧ Asks L t.request a ∧ spec.allows b a ∧
      Represents s'.db (spec.apply b a) := by
  have hreach : Reach (Sys.init d w) s := ReachIf.reach h
  rcases addressed_of_step hreach hs with h' | ⟨pid, t, p, l, rfl, hr, hc, hact, haddr, hcommits⟩
  · exact Or.inl h'
  have hsound := votes_sound hd hreach
  have hopen : ∀ {u e₀ c}, VoteCast L t.request l s.db s'.db u e₀ c →
      ∃ e, s.db.elections.get? e₀.id = some e ∧ e.status = .open := by
    intro u e₀ c hvote
    obtain ⟨_, _, _, ha⟩ := hvote.after
    have hrows : s'.db.votes.rows = s.db.votes.rows ++ [_] := (congrArg (·.votes.rows) ha :)
    refine (open_iff_electionCurrent hd hreach hs (by
      rw [hrows]
      exact List.mem_append_right _ (List.mem_singleton_self _)) fun hmem => ?_).mpr hcur
    -- the new vote has a new primary key
    have hn := s'.db.votes.nodup
    rw [hrows] at hn
    exact ne_of_nodup_append hn hmem rfl
  obtain ⟨a, hask, hallow, hrep⟩ := hact.performs haddr hsound hopen hb
  exact Or.inr ⟨pid, t, a, hr.1, hcommits, hask, hallow, hrep⟩

/-- A run has a history, and when it goes on its history is extended. -/
theorem exists_history (hd : EmptySchema d) (h : ReachIf ElectionCurrent (Sys.init d w) s)
    (hs : ReachIf ElectionCurrent s s') :
    ∃ as bs, History L E d.eligible s as ∧ History L E d.eligible s' (as ++ bs) := by
  have hcommit := fun {s₁ s₂ : Sys (machine L E)} {lab : Label} {x : Board ℕ ℕ ℕ PyStr}
    (h₁ : ReachIf ElectionCurrent (Sys.init d w) s₁) (hcur : ElectionCurrent s₁ lab)
    (hb : Step (machine L E) lab s₁ s₂) (hx : Represents s₁.db x) =>
      performs_of_step hd h₁ hcur hb hx
  have hinit : History L E d.eligible (Sys.init d w) [] := explains_init hd.represents
  obtain ⟨as, has⟩ := hinit.extend .refl h hcommit
  obtain ⟨bs, hbs⟩ := has.extend h hs hcommit
  exact ⟨as, bs, has, hbs⟩

/-- **Every run has a history.** Whatever the interleaving, the commits of a run, in their order, are
operations on ballot boxes, each asked for by the request that committed, and the state reached
represents the board they lead to. A run that goes on extends the history, so what has been committed
keeps its place. On the board at most one election is open, and every box is sound and holds what the
history says. -/
theorem refines_ballot_boxes (hd : EmptySchema d) (h : ReachIf ElectionCurrent (Sys.init d w) s)
    (hs : ReachIf ElectionCurrent s s') :
    ∃ as bs, History L E d.eligible s as ∧ History L E d.eligible s' (as ++ bs) ∧
      (spec.run (.empty d.eligible) (as ++ bs)).OneOpen ∧
      ∀ i x, (spec.run (.empty d.eligible) (as ++ bs)).box i = some x →
        x.Sound ∧ x.Replays i (as ++ bs) := by
  obtain ⟨as, bs, has, hbs⟩ := exists_history hd h hs
  exact ⟨as, bs, has, hbs, oneOpen_of_allowed hbs.allowed,
    fun i x hx => ⟨sound_of_allowed hbs.allowed hx, replays_of_allowed hbs.allowed hx⟩⟩

/-! ### Tallied as cast -/

/-- The request comes by a route: no route calls `cast_anonymous_vote`. -/
def Request.routed : Request → Bool
  | .castVote _ _ _ => false
  | _ => true

/-- All requests of the run come by routes. -/
def Routed (s : Sys (machine L E)) : Prop := ∀ t ∈ s.threads, t.request.routed = true

/-- In a run of routed requests the vote service commits nothing. -/
theorem electionCurrent_of_routed (h : Reach s s') (hroutes : Routed s') :
    ReachIf ElectionCurrent s s' := by
  induction h with
  | refl => exact .refl
  | @tail s₁ s₂ hr hstep ih =>
    obtain ⟨lab, hb, -⟩ := hstep
    have hone : Reach s₁ s₂ := Relation.ReflTransGen.single ⟨lab, hb, trivial⟩
    have hroutes₁ : Routed s₁ := by
      intro t ht
      obtain ⟨i, hi⟩ := List.mem_iff_getElem?.mp ht
      obtain ⟨t', ht', hreq, -⟩ := hone.threads hi
      exact hreq ▸ hroutes t' (List.mem_of_getElem? ht')
    refine ReachIf.step (ih hroutes₁) hb ?_
    rintro pid t p l d' u c i d₀ c' e₀ e rfl hruns - hreq
    have := hroutes₁ t (List.mem_of_getElem? hruns.1)
    rw [hreq] at this
    cases this

/-- A routed request asks for a ballot exactly when it submits one. -/
theorem Asks.ballot_iff {r : Request} {a : Op ℕ ℕ ℕ PyStr} (h : Asks L r a)
    (hr : r.routed = true) (i : ℕ) :
    (∀ c : ℕ, a.at Move.choice i = some c ↔ r.ballot L = some ((i : ℤ), (c : ℤ))) ∧
      ((a.at Move.choice i).isSome ↔ (r.ballot L).map Prod.fst = some (i : ℤ)) := by
  cases h with
  | @castAnonymousBallot data b j c hb hj hc =>
    simp only [Request.ballot, hb, Except.toOption, Option.map_some, ← hj, ← hc, Op.at]
    by_cases h : j = i <;> simp [h, Move.choice]
  | castVote => cases hr
  | @account r vs hr =>
    have hnone : r.ballot L = none := by cases r <;> first | rfl | cases hr
    simp [Op.at, hnone]
  | _ => simp [Op.at, Move.choice, Request.ballot]

/-- The choices in the history are the ballots of the commits. -/
theorem count_choices (hroutes : Routed s) {vs : Set ℕ} {as : List (Op ℕ ℕ ℕ PyStr)}
    (h : History L E vs s as) (i : ℕ) :
    (∀ c, (as.filterMap (Op.at Move.choice i)).count c = (ballotsFor s i c).length) ∧
      (as.filterMap (Op.at Move.choice i)).length = (ballotsOf s i).length := by
  refine ⟨fun c => ?_, ?_⟩
  · refine (length_filter_eq_countP (q := (· == c)) ?_ h.commits).symm
    rintro x a ⟨t, ht, hask⟩
    have hiff := (hask.ballot_iff (hroutes t (List.mem_of_getElem? ht)) i).1 c
    rw [ht, Option.any_some, Bool.eq_iff_iff, decide_eq_true_eq, ← hiff, Option.any_eq_true]
    simp
  · rw [← List.countP_true]
    refine (length_filter_eq_countP (q := fun _ => true) ?_ h.commits).symm
    rintro x a ⟨t, ht, hask⟩
    have hiff := (hask.ballot_iff (hroutes t (List.mem_of_getElem? ht)) i).2
    rw [ht, Option.any_some, Bool.eq_iff_iff, decide_eq_true_eq, ← hiff, Option.any_eq_true,
      Option.isSome_iff_exists]
    simp

/-- The votes of an election are the ballots that the run has committed for it. -/
theorem ballots_counted (hd : EmptySchema d) (h : Reach (Sys.init d w) s) (hroutes : Routed s)
    {i : ℕ} {e : Election} (he : s.db.elections.get? i = some e) :
    (∀ c, ((s.db.votesFor i).countP fun v => v.candidateId = c) = (ballotsFor s i c).length) ∧
      (s.db.votesFor i).length = (ballotsOf s i).length := by
  obtain ⟨as, bs, -, has⟩ := exists_history hd (electionCurrent_of_routed h hroutes) .refl
  obtain ⟨t, hbox, -⟩ := has.represents.box i
  rw [boxAt_of_get? he] at hbox
  -- the votes are the choices in the history
  have hperm : ((s.db.votesFor i).map Vote.candidateId).Perm
      ((as ++ bs).filterMap (Op.at Move.choice i)) :=
    Multiset.coe_eq_coe.mp (replays_of_allowed has.allowed hbox).cast
  obtain ⟨hcount, hlength⟩ := count_choices hroutes has i
  refine ⟨fun c => ?_, ?_⟩
  · rw [← hcount, ← hperm.count_eq, List.count, List.countP_map]
    exact List.countP_congr fun v _ => by simp
  · rw [← hlength, ← hperm.length_eq, List.length_map]

theorem routed_electionRun : Routed Sample.electionRun := by
  intro t ht
  have hmem := Sample.electionRun_sound.2 t ht
  simp only [Sample.electionRequests, List.mem_cons, List.not_mem_nil, or_false] at hmem
  rcases hmem with h | h | h | h | h | h | h
  all_goals rw [h]; rfl

/-- The election of the sample run is explained by seven operations. -/
theorem refines_ballot_boxes_electionRun : ∃ as,
    History Sample.lib Sample.environment Sample.db.eligible Sample.electionRun as ∧
      as.length = 7 := by
  obtain ⟨as, bs, h, h', -⟩ := refines_ballot_boxes emptySchema_sample .refl
    (electionCurrent_of_routed Sample.electionRun_sound.1.reach routed_electionRun)
  refine ⟨as ++ bs, h', ?_⟩
  rw [← h'.commits.length_eq, ← List.length_map (f := Prod.fst), electionRun_facts.1]
  rfl

end SecureVote
