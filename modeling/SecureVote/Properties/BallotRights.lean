import SecureVote.Runs
import SecureVote.Sample

/-!
# One ballot right per voter and election

An authorization for a blind-signed ballot and a receipt of a direct vote exclude each other, for
one voter and one election. No constraint spans the two tables: each path looks into the table of
the other one with a plain read, after it has locked the voter. The read is of the snapshot that
the transaction has fixed before the lock, so the two paths exclude each other exactly as long as
this snapshot is current in that table.
-/

open Txn Txn.Rules

namespace SecureVote

open Py

variable {L : Lib} {E : Environment} {r : Request} {l : Loc} {d d' : Db} {u i : ℕ}

/-! ### Rights -/

/-- The authorizations of a voter in an election. -/
def Tables.tokenCount (t : Tables) (u i : ℕ) : ℕ :=
  (t.tokens.rows.map fun k => (k.userId, k.electionId)).count (u, i)

/-- The receipts of a voter in an election. -/
def Tables.receiptCount (t : Tables) (u i : ℕ) : ℕ :=
  (t.receipts.rows.map fun x => (x.userId, x.electionId)).count (u, i)

/-- The ballot rights that a voter has used in an election, on both paths. -/
def Tables.ballotRights (t : Tables) (u i : ℕ) : ℕ := t.tokenCount u i + t.receiptCount u i

theorem Db.tokenCount_le_one (d : Db) (u i : ℕ) : d.tokenCount u i ≤ 1 :=
  List.nodup_iff_count_le_one.mp d.ok.tokens_user_election (u, i)

theorem Db.receiptCount_le_one (d : Db) (u i : ℕ) : d.receiptCount u i ≤ 1 :=
  List.nodup_iff_count_le_one.mp d.ok.receipts_user_election (u, i)

theorem tokenCount_eq_zero {t : Tables} : t.tokenCount u i = 0 ↔ t.token u i = none := by
  simp [Tables.tokenCount, Tables.token, List.count_eq_zero]

theorem receiptCount_eq_zero {t : Tables} : t.receiptCount u i = 0 ↔ t.receipt u i = none := by
  simp [Tables.receiptCount, Tables.receipt, List.count_eq_zero]

/-- A token commit adds one authorization. -/
theorem TokenIssue.counts {u₀ : User} {e : Election} {roll : ElectoralRoll}
    (h : TokenIssue L r l d d' u₀ e roll) (u i : ℕ) :
    d'.tokenCount u i = d.tokenCount u i + (if (u₀.id, e.id) = (u, i) then 1 else 0) ∧
      d'.receiptCount u i = d.receiptCount u i := by
  constructor
  · rw [Tables.tokenCount, show d'.tokens.rows = d.tokens.rows ++ [_] from
      (congrArg (·.tokens.rows) h.after :), List.map_append, List.count_append]
    simp [Tables.tokenCount, List.count_singleton]
  · rw [Tables.receiptCount, show d'.receipts = d.receipts from
      (congrArg Tables.receipts h.after :), Tables.receiptCount]

/-- A direct vote adds one receipt. -/
theorem VoteCast.counts {u₀ : User} {e₀ : Election} {c : Candidate}
    (h : VoteCast L r l d d' u₀ e₀ c) (u i : ℕ) :
    d'.tokenCount u i = d.tokenCount u i ∧
      d'.receiptCount u i = d.receiptCount u i + if (u₀.id, e₀.id) = (u, i) then 1 else 0 := by
  obtain ⟨_, _, _, ha⟩ := h.after
  constructor
  · rw [Tables.tokenCount, show d'.tokens = d.tokens from (congrArg Tables.tokens ha :),
      Tables.tokenCount]
  · rw [Tables.receiptCount, show d'.receipts.rows = d.receipts.rows ++ [_] from
      (congrArg (·.receipts.rows) ha :), List.map_append, List.count_append]
    simp [Tables.receiptCount, List.count_singleton]

/-- A commit that adds a right is a token commit or a direct vote, and the table of its own path
had no row of the voter. -/
theorem Act.rights_cases (h : Act L r l d d') (hlt : d.ballotRights u i < d'.ballotRights u i) :
    (∃ u₀ e roll, TokenIssue L r l d d' u₀ e roll ∧ u₀.id = u ∧ e.id = i ∧
        d'.ballotRights u i = 1 + d.receiptCount u i) ∨
      ∃ u₀ e₀ c, VoteCast L r l d d' u₀ e₀ c ∧ u₀.id = u ∧ e₀.id = i ∧
        d'.ballotRights u i = d.tokenCount u i + 1 := by
  have htokens := d'.tokenCount_le_one u i
  have hreceipts := d'.receiptCount_le_one u i
  unfold Tables.ballotRights at hlt ⊢
  rcases h.tokens_cases with ht | ⟨u₀, e, roll, hissue⟩
  · have hcount : d'.tokenCount u i = d.tokenCount u i := by
      rw [Tables.tokenCount, ht, Tables.tokenCount]
    rcases h.receipts_cases with hr | ⟨u₀, e₀, c, hvote⟩
    · have hsame : d'.receiptCount u i = d.receiptCount u i := by
        rw [Tables.receiptCount, hr, Tables.receiptCount]
      omega
    · obtain ⟨-, hadd⟩ := hvote.counts u i
      split at hadd
      next heq =>
        cases heq
        exact Or.inr ⟨u₀, e₀, c, hvote, rfl, rfl, by omega⟩
      · omega
  · obtain ⟨hadd, hsame⟩ := hissue.counts u i
    split at hadd
    next heq =>
      cases heq
      exact Or.inl ⟨u₀, e, roll, hissue, rfl, rfl, by omega⟩
    · omega

/-! ### Runs -/

/-- When the step commits on one of the paths, the other path has committed nothing for the same
voter and election since the snapshot of the transaction. -/
def OtherPathCurrent (s : Sys (machine L E)) (b : Label) : Prop :=
  ∀ pid t p l d' d₀, b = .run pid → s.Runs pid t p l → p.commit? s.db = some d' →
    l.snap .voters = some d₀ →
    (∀ cookie data body u i, t.request = .requestBlindToken cookie data →
      parseTokenRequest data = .ok (body, ((i : ℕ) : ℤ)) →
      t.request.subject L = some ((u : ℕ) : ℤ) →
      d₀.receipt u i = none → s.db.receipt u i = none) ∧
    ∀ u candidateId electionId c, t.request = .castVote u candidateId electionId →
      d₀.candidates.get? candidateId = some c →
      d₀.token u c.electionId = none → s.db.token u c.electionId = none

section Runs

variable {w : E.World} {s s' : Sys (machine L E)} {b : Label}

/-- Every voter has at most one ballot right in each election. -/
def OneRight (d : Db) : Prop := ∀ u i, d.ballotRights u i ≤ 1

/-- A token commit leaves one right exactly when its snapshot is current in the receipts. -/
theorem TokenIssue.le_one_iff {pid : ℕ} {t : Thread (machine L E)}
    {p : Prog Db RowId TableName Bind Event Query Query.Answer Response} {u₀ : User} {e : Election}
    {roll : ElectoralRoll} (hr : s.Runs pid t p l) (hc : p.commit? s.db = some d')
    (h : TokenIssue L t.request l s.db d' u₀ e roll)
    (hcount : d'.ballotRights u₀.id e.id = 1 + s.db.receiptCount u₀.id e.id) :
    d'.ballotRights u₀.id e.id ≤ 1 ↔ OtherPathCurrent s (.run pid) := by
  obtain ⟨cookie, data, body, hreq, hparse⟩ := h.request
  obtain ⟨d₀, hd₀, hunspent⟩ := h.unspent
  have hiff : d'.ballotRights u₀.id e.id ≤ 1 ↔ s.db.receipt u₀.id e.id = none := by
    rw [← receiptCount_eq_zero]
    omega
  rw [hiff]
  constructor
  · rintro hnone pid' t' p' l' d'' d₁ hpid hr' - hd₁
    cases hpid
    obtain ⟨rfl, -, rfl⟩ := hr.unique hr'
    constructor
    · intro cookie' data' body' u' i' hreq' hparse' hsubject _
      rw [hreq] at hreq'
      cases hreq'
      rw [hparse] at hparse'
      cases hparse'
      rw [h.subject] at hsubject
      cases hsubject
      exact hnone
    · intro u' candidateId electionId c hreq'
      rw [hreq] at hreq'
      cases hreq'
  · intro hcur
    obtain ⟨hreceipt, -⟩ := hcur pid t p l _ d₀ rfl hr hc hd₀
    exact hreceipt cookie data body u₀.id e.id hreq hparse h.subject hunspent

/-- A direct vote leaves one right exactly when its snapshot is current in the tokens. -/
theorem VoteCast.le_one_iff {pid : ℕ} {t : Thread (machine L E)}
    {p : Prog Db RowId TableName Bind Event Query Query.Answer Response} {u₀ : User} {e₀ : Election}
    {c : Candidate} (hr : s.Runs pid t p l) (hc : p.commit? s.db = some d')
    (h : VoteCast L t.request l s.db d' u₀ e₀ c)
    (hcount : d'.ballotRights u₀.id e₀.id = s.db.tokenCount u₀.id e₀.id + 1) :
    d'.ballotRights u₀.id e₀.id ≤ 1 ↔ OtherPathCurrent s (.run pid) := by
  obtain ⟨electionId, d₀, hreq, hd₀, hunspent⟩ := h.unspent
  obtain ⟨d₁, hd₁, -, hcand, -⟩ := h.loaded
  obtain rfl : d₀ = d₁ := Option.some.inj (hd₀.symm.trans hd₁)
  have hiff : d'.ballotRights u₀.id e₀.id ≤ 1 ↔ s.db.token u₀.id e₀.id = none := by
    rw [← tokenCount_eq_zero]
    omega
  rw [hiff]
  constructor
  · rintro hnone pid' t' p' l' d'' d₂ hpid hr' - hd₂
    cases hpid
    obtain ⟨rfl, -, rfl⟩ := hr.unique hr'
    obtain rfl : d₀ = d₂ := Option.some.inj (hd₀.symm.trans hd₂)
    constructor
    · intro cookie data body u' i' hreq'
      rw [hreq] at hreq'
      cases hreq'
    · intro u' candidateId electionId' c' hreq' hcand' _
      rw [hreq] at hreq'
      cases hreq'
      rw [hcand] at hcand'
      cases hcand'
      rw [h.candidateElection]
      exact hnone
  · intro hcur
    obtain ⟨-, htoken⟩ := hcur pid t p l _ d₀ rfl hr hc hd₀
    have hnone := htoken u₀.id c.id electionId c hreq hcand
    rw [h.candidateElection] at hnone
    exact hnone hunspent

/-- A step that adds a right leaves one right exactly when its snapshot is current in the table of
the other path. -/
theorem rights_le_one_iff (h : Reach (Sys.init d w) s) (hs : Step (machine L E) b s s')
    (hlt : s.db.ballotRights u i < s'.db.ballotRights u i) :
    s'.db.ballotRights u i ≤ 1 ↔ OtherPathCurrent s b := by
  rcases act_of_step h hs with ⟨heq, -⟩ | ⟨pid, t, p, l, rfl, hr, hc, hact, -⟩
  · rw [heq] at hlt
    exact absurd hlt (lt_irrefl _)
  rcases hact.rights_cases hlt with ⟨u₀, e, roll, hissue, rfl, rfl, hcount⟩ |
    ⟨u₀, e₀, c, hvote, rfl, rfl, hcount⟩
  · exact hissue.le_one_iff hr hc hcount
  · exact hvote.le_one_iff hr hc hcount

/-- **One ballot right per voter and election.** In a run in which every commit of either path has
a snapshot that is current in the table of the other path, a voter has at most one authorization or
receipt in an election; and a step that adds one leaves at most one only then. -/
theorem one_ballot_right (hd : OneRight d) :
    (∀ s : Sys (machine L E), ReachIf OtherPathCurrent (Sys.init d w) s → OneRight s.db) ∧
    ∀ (s s' : Sys (machine L E)) (b : Label), Reach (Sys.init d w) s → Step (machine L E) b s s' →
      ∀ u i, s.db.ballotRights u i < s'.db.ballotRights u i →
        (s'.db.ballotRights u i ≤ 1 ↔ OtherPathCurrent s b) := by
  refine ⟨fun s h => ?_, fun s s' b h hs u i hlt => rights_le_one_iff h hs hlt⟩
  induction h with
  | refl => exact hd
  | @tail s₁ s₂ hr hstep ih =>
    obtain ⟨b, hb, hcur⟩ := hstep
    intro u i
    by_cases hlt : s₁.db.ballotRights u i < s₂.db.ballotRights u i
    · exact (rights_le_one_iff (ReachIf.reach hr) hb hlt).mpr hcur
    · exact (not_lt.mp hlt).trans (ih u i)

/-! ### A current and a stale snapshot -/

/-- `OtherPathCurrent` as a test on the state. -/
def otherPathTest (s : Sys (machine L E)) : Label → Bool
  | .run pid =>
    match s.threads[pid]? with
    | some ⟨.requestBlindToken cookie data, _, .running p l⟩ =>
      match p.commit? s.db, parseTokenRequest data, l.snap .voters,
        (Request.requestBlindToken cookie data).subject L with
      | some _, .ok (_, i), some d₀, some u =>
        (d₀.receipt u.toNat i.toNat).isSome || (s.db.receipt u.toNat i.toNat).isNone
      | _, _, _, _ => true
    | some ⟨.castVote u candidateId _, _, .running p l⟩ =>
      match p.commit? s.db, l.snap .voters with
      | some _, some d₀ => (d₀.candidates.get? candidateId).all fun c =>
          (d₀.token u c.electionId).isSome || (s.db.token u c.electionId).isNone
      | _, _ => true
    | _ => true
  | _ => true

theorem otherPathCurrent_of_test (h : otherPathTest s b = true) : OtherPathCurrent s b := by
  rintro pid ⟨r, wk, st⟩ p l d' d₀ rfl ⟨ht, hst⟩ hc hd₀
  obtain rfl : st = .running p l := hst
  constructor
  · rintro cookie data body u i hreq hparse hsubject hunspent
    obtain rfl : r = .requestBlindToken cookie data := hreq
    simp only [otherPathTest, ht, hc, hparse, hd₀, hsubject, Int.toNat_natCast, hunspent] at h
    simpa using h
  · rintro u candidateId electionId c hreq hcand hunspent
    obtain rfl : r = .castVote u candidateId electionId := hreq
    simp only [otherPathTest, ht, hc, hd₀, hcand, Option.all_some, hunspent] at h
    simpa using h

theorem oneRight_sample : OneRight Sample.db := fun _ _ => Nat.zero_le 1

/-- A run in which the voter asks for a token and then votes directly, one after the other. -/
def currentPathsRun : Sys (machine Sample.lib Sample.environment) :=
  (Sys.init Sample.db ()).runs (fun s b => otherPathTest s b = true) Sample.oracle
    (Sample.inOrder 0 [Sample.createElection, Sample.createCandidate, Sample.openElection,
      Sample.requestBlindToken, .castVote 2 1 (some 1)])

/-- The voter who has asked for a token cannot vote directly. -/
theorem one_ballot_right_currentPathsRun :
    currentPathsRun.db.tokenCount 2 1 = 1 ∧ OneRight currentPathsRun.db := by
  have htests : ReachIf (fun s b => otherPathTest s b = true) (Sys.init Sample.db ())
      currentPathsRun := by
    unfold currentPathsRun
    refine Sample.runs_reach ?_
    exact fun _ => rfl
  have hcurrent := htests.mono fun _ _ => otherPathCurrent_of_test
  exact ⟨by decide +kernel, (one_ballot_right oneRight_sample).1 _ hcurrent⟩

/-- A run in which the caller of the vote service loads its objects, and the voter asks for a token
before the service takes its locks. -/
def stalePathsRun : Sys (machine Sample.lib Sample.environment) :=
  (Sys.init Sample.db ()).runs (fun _ _ => True) Sample.oracle
    (Sample.inOrder 0 [Sample.createElection, Sample.createCandidate, Sample.openElection] ++
      .start (.castVote 2 1 (some 1)) 0 :: .run 3 3 ::
      Sample.inOrder 4 [Sample.requestBlindToken] ++ [.run 3 100])

/-- A voter gets an authorization and a receipt in one election. -/
theorem two_ballot_rights :
    ∃ s : Sys (machine Sample.lib Sample.environment), Reach (Sys.init Sample.db ()) s ∧
      s.db.tokenCount 2 1 = 1 ∧ s.db.receiptCount 2 1 = 1 ∧ ¬OneRight s.db := by
  have hrun : stalePathsRun.db.tokenCount 2 1 = 1 ∧ stalePathsRun.db.receiptCount 2 1 = 1 := by
    decide +kernel
  refine ⟨stalePathsRun, Sample.runs_reach fun _ => trivial, hrun.1, hrun.2, fun hone => ?_⟩
  have hle := hone 2 1
  rw [Tables.ballotRights, hrun.1, hrun.2] at hle
  exact absurd hle (by decide)

end Runs

end SecureVote
