import SecureVote.Verified.AuditTrail
import SecureVote.Sample

/-!
# Audit events and committed mutations

Each audited operation commits one mutation and then records one event, or does neither. The event
is built from rows that are read again after the commit. Users and elections are never deleted, so
they are still there; a candidate can be deleted between the commit that created or edited it and
the event, and the request then ends in `ObjectDeletedError` without an event. `delete_candidate`
keeps the id from before its commit and is safe.
-/

open Txn Txn.Rules

namespace SecureVote

open Py

variable {L : Lib} {E : Environment} {K : Prop}

section Runs

variable {d : Db} {w : E.World} {s : Sys (machine L E)}

/-- Soundness for the logs of all requests. -/
theorem logged_of_candidateStaysIf (h : ReachIf (Meets (CandidateStaysIf K L E)) (Sys.init d w) s) :
    (rules L E).Logged (CandidateStaysIf K L E) Trailed (Told K) s :=
  logged_of_reachIf (verified L E) (fun _ _ a hlog => hlog.reply a)
    (fun r _ _ _ _ => ⟨trailed_nil, auditWp_handle r rfl rfl⟩) trivial h

theorem audited_reply {r : Request} {log : List (Ev Db Event Response)} {a : Response} :
    Audited r (log ++ [.reply a]) ↔ Audited r log := by
  simp [Audited]

/-- **Audit events match committed mutations**, as long as no candidate is deleted between the
commit of a request that created or edited it and the event of this request: an answered request
has committed one mutation and then recorded its event, or neither. In every run a request records
at most one event, after its one commit, and one that has committed without recording is a creation
or an edit of a candidate that ended in `ObjectDeletedError`. -/
theorem audited_of_candidateStays :
    (∀ s : Sys (machine L E), ReachIf (Meets (CandidateStays L E)) (Sys.init d w) s →
      ∀ i t a, s.threads[i]? = some t → t.status = .finished a → Audited t.request (s.log i)) ∧
    ∀ s : Sys (machine L E), Reach (Sys.init d w) s → ∀ i t, s.threads[i]? = some t →
      Trailed t.request (s.log i) ∧ ∀ a, t.status = .finished a →
        Audited t.request (s.log i) ∨ (a = .objectDeleted ∧ t.request.editsCandidate = true) := by
  constructor
  · intro s h i t a ht ha
    have hlogged := logged_of_candidateStaysIf (K := True)
      (h.mono fun s b hC i t p l hb hr _ => hC i t p l hb hr)
    obtain ⟨log, hlog, htold⟩ := hlogged.finished ht ha
    rw [hlog, audited_reply]
    rcases htold with htold | ⟨hK, -⟩
    · exact htold
    · exact absurd trivial hK
  · intro s h i t ht
    have hlogged := logged_of_candidateStaysIf (K := False)
      (h.mono fun s b _ i t p l _ _ hK => hK.elim)
    refine ⟨hlogged.logs ht, fun a ha => ?_⟩
    obtain ⟨log, hlog, htold⟩ := hlogged.finished ht ha
    rw [hlog, audited_reply]
    exact htold.imp_right And.right

/-! ### A candidate that stays and one that does not -/

/-- `CandidateStays` as a test on the state. -/
def candidateTest (s : Sys (machine L E)) : Label → Bool
  | .run i =>
    match s.threads[i]? with
    | some ⟨r, _, .running _ l⟩ =>
      !r.editsCandidate || (l.snap .voters).isSome || (l.snap .admin).isSome ||
        (writes (s.log i)).all fun x => (r.targets x.1 x.2).all fun id =>
          (s.db.candidates.get? id).isSome
    | _ => true
  | _ => true

theorem meets_of_candidateTest {b : Label} (h : candidateTest s b = true) :
    Meets (CandidateStays L E) s b := by
  rintro i ⟨r, wk, st⟩ p l rfl ⟨ht, hst⟩ he hsnap d₁ d₂ hmem id hid
  obtain rfl : st = .running p l := hst
  simp only [candidateTest, ht, he, hsnap, Bool.not_true, Option.isSome_none, Bool.false_or,
    List.all_eq_true, Prod.forall] at h
  exact h d₁ d₂ hmem id hid

/-- The request of an answered thread, with its answer. -/
def answered (s : Sys (machine L E)) (i : ℕ) : Option (Request × Response) :=
  match s.threads[i]? with
  | some ⟨r, _, .finished a⟩ => some (r, a)
  | _ => none

theorem of_answered {i : ℕ} {a : Response}
    (h : (answered s i).map (fun x => (x.1.editsCandidate, x.2)) = some (true, a)) :
    ∃ t, s.threads[i]? = some t ∧ t.request.editsCandidate = true ∧ t.status = .finished a := by
  obtain ⟨⟨r, a'⟩, hx, heq⟩ := Option.map_eq_some_iff.mp h
  obtain ⟨hr, rfl⟩ := Prod.mk.inj heq
  unfold answered at hx
  split at hx
  next ht =>
    cases hx
    exact ⟨_, ht, hr, rfl⟩
  · cases hx

/-- A run in which an election is created, and then a candidate. -/
def candidateRun : Sys (machine Sample.lib Sample.environment) :=
  (Sys.init Sample.db ()).runs (fun s b => candidateTest s b = true) Sample.oracle
    (Sample.inOrder 0 [Sample.createElection, Sample.createCandidate])

/-- The creation of the candidate is committed and recorded. -/
theorem audited_candidateRun : candidateRun.commits.map Prod.fst = [0, 1] ∧
    ∃ t a, candidateRun.threads[1]? = some t ∧ t.request.editsCandidate = true ∧
      t.status = .finished a ∧ Audited t.request (candidateRun.log 1) := by
  have hrun : ReachIf (fun s b => candidateTest s b = true) (Sys.init Sample.db ())
      candidateRun := by
    unfold candidateRun
    refine Sample.runs_reach ?_
    exact fun _ => rfl
  have hanswer : (answered candidateRun 1).map (fun x => (x.1.editsCandidate, x.2)) =
      some (true, delegateNotice "Candidate created.") := by
    decide +kernel
  obtain ⟨t, ht, hreq, ha⟩ := of_answered hanswer
  refine ⟨by decide +kernel, t, _, ht, hreq, ha, ?_⟩
  exact audited_of_candidateStays.1 _ (hrun.mono fun _ _ => meets_of_candidateTest) 1 t _ ht ha

theorem audited_of_editsCandidate {r : Request} (h : r.editsCandidate = true) :
    ∃ action, r.audited = some (action, "candidate") := by
  cases r with
  | createCandidate cookie form => exact ⟨_, rfl⟩
  | updateCandidate cookie candidateId form => exact ⟨_, rfl⟩
  | _ => cases h

/-- A run in which a candidate is deleted right after the commit of its creation. -/
def deletedCandidateRun : Sys (machine Sample.lib Sample.environment) :=
  (Sys.init Sample.db ()).runs (fun _ _ => True) Sample.oracle
    (Sample.inOrder 0 [Sample.createElection] ++ .start Sample.createCandidate 0 :: .run 1 9 ::
      Sample.inOrder 2 [.deleteCandidate (some Sample.managerToken) 1] ++ [.run 1 100])

/-- The creation is committed, and the request ends without its event. -/
theorem creation_without_event :
    Reach (Sys.init Sample.db ()) deletedCandidateRun ∧
      deletedCandidateRun.commits.map Prod.fst = [0, 1, 2] ∧
      ∃ t, deletedCandidateRun.threads[1]? = some t ∧ t.request.editsCandidate = true ∧
        t.status = .finished .objectDeleted ∧ ¬Audited t.request (deletedCandidateRun.log 1) := by
  have hanswer : (answered deletedCandidateRun 1).map (fun x => (x.1.editsCandidate, x.2)) =
      some (true, .objectDeleted) := by
    decide +kernel
  have hmarks : (marks (deletedCandidateRun.log 1)).length = 1 := by decide +kernel
  obtain ⟨t, ht, hreq, ha⟩ := of_answered hanswer
  refine ⟨Sample.runs_reach fun _ => trivial, by decide +kernel, t, ht, hreq, ha, fun haudited => ?_⟩
  obtain ⟨action, haction⟩ := audited_of_editsCandidate hreq
  rcases haudited action _ haction with hnil | ⟨_, _, _, _, htwo, -⟩
  · rw [hnil] at hmarks
    cases hmarks
  · rw [htwo] at hmarks
    cases hmarks

end Runs

end SecureVote
