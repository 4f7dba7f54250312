import SecureVote.Runs
import SecureVote.Sample

/-!
# Eligibility at the moment of authorization

What holds of the voter and the election in the state that commits a blind-signature token.
Everything but the roster is read again under locks; the roster is a plain read of the snapshot
that the identity hook fixed before the locks, so the roster part holds exactly when that snapshot
still agrees with the committed roster.
-/

open Txn Txn.Rules

namespace SecureVote

open Py

variable {L : Lib} {E : Environment} {r : Request} {l : Loc} {d d' : Db}

/-- The voter of the token is eligible for its election in the state `d`. -/
structure Authorized (d : Db) (k : BlindSignatureToken) : Prop where
  user : ∃ u, d.users.get? k.userId = some u ∧ u.accountStatus = .approved ∧
    u.emailVerified = true ∧ hasRole (d.roleName u) "voter" = true
  election : ∃ e, d.elections.get? k.electionId = some e ∧ e.status = .open ∧
    e.blindKeyRecoveryRequired = false
  contest : ∃ roll, d.enrolment k.userId = some roll ∧ roll.status = .active ∧
    roll.verified = true ∧ regionIds (d.roster k.electionId) = [roll.regionId] ∧
    (positions (d.roster k.electionId)).length = 1

/-- Two rosters with the same regions and as many positions. -/
structure SameContest (cs cs' : List Candidate) : Prop where
  regions : ∀ i, i ∈ regionIds cs ↔ i ∈ regionIds cs'
  positions : (SecureVote.positions cs).length = (SecureVote.positions cs').length

/-- When the step commits for a token request, the roster of the request's election in the
snapshot of its transaction is as good as the committed one. -/
def RosterCurrent (s : Sys (machine L E)) (b : Label) : Prop :=
  ∀ pid t p l d' cookie data body i d₀, b = .run pid → s.Runs pid t p l →
    p.commit? s.db = some d' → t.request = .requestBlindToken cookie data →
    parseTokenRequest data = .ok (body, ((i : ℕ) : ℤ)) → l.snap .voters = some d₀ →
    SameContest (d₀.roster i) (s.db.roster i)

theorem eq_singleton_of_mem_iff {l l' : List ℕ} {x : ℕ} (hl : l.length = 1) (hx : x ∈ l)
    (hn : l'.Nodup) (h : ∀ y, y ∈ l ↔ y ∈ l') : l' = [x] := by
  obtain ⟨y, rfl⟩ := List.length_eq_one_iff.mp hl
  obtain rfl := List.mem_singleton.mp hx
  refine List.perm_singleton.mp ((List.perm_ext_iff_of_nodup hn (List.nodup_singleton x)).mpr ?_)
  exact fun y => (h y).symm

/-- A new token is the one that its commit issues. -/
theorem Act.token_of_new (h : Act L r l d d') {k : BlindSignatureToken} (hk : k ∈ d'.tokens.rows)
    (hn : k ∉ d.tokens.rows) :
    ∃ u e roll, TokenIssue L r l d d' u e roll ∧ k.userId = u.id ∧ k.electionId = e.id := by
  rcases h.tokens_cases with heq | ⟨u, e, roll, h⟩
  · rw [heq] at hk
    exact absurd hk hn
  · rw [show d'.tokens.rows = d.tokens.rows ++ [_] from (congrArg (·.tokens.rows) h.after :)] at hk
    rcases List.mem_append.mp hk with hk | hk
    · exact absurd hk hn
    · obtain rfl := List.mem_singleton.mp hk
      exact ⟨u, e, roll, h, rfl, rfl⟩

/-- A token commit leaves everything but the tokens. -/
theorem TokenIssue.frame {u : User} {e : Election} {roll : ElectoralRoll}
    (h : TokenIssue L r l d d' u e roll) : d'.users = d.users ∧ d'.roles = d.roles ∧
      d'.rolls = d.rolls ∧ d'.elections = d.elections ∧ d'.candidates = d.candidates :=
  ⟨(congrArg Tables.users h.after :), (congrArg Tables.roles h.after :),
    (congrArg Tables.rolls h.after :), (congrArg Tables.elections h.after :),
    (congrArg Tables.candidates h.after :)⟩

/-- The token of a commit is authorized exactly when the snapshot's roster is current. -/
theorem TokenIssue.authorized_iff {u : User} {e : Election} {roll : ElectoralRoll}
    (h : TokenIssue L r l d d' u e roll) {k : BlindSignatureToken} (hu : k.userId = u.id)
    (he : k.electionId = e.id) {d₀ : Db} (hd₀ : l.snap .voters = some d₀) :
    Authorized d' k ↔ SameContest (d₀.roster e.id) (d.roster e.id) := by
  obtain ⟨husers, hroles, hrolls, helections, hcandidates⟩ := h.frame
  have hroster : d'.roster e.id = d.roster e.id := by
    rw [Tables.roster, Tables.roster, hcandidates]
  have henrol : d'.enrolment u.id = some roll := by
    rw [Tables.enrolment, hrolls]
    exact h.voter.enrolment
  obtain ⟨d₁, hd₁, hsingle, hregion⟩ := h.roster
  obtain rfl : d₁ = d₀ := Option.some.inj (hd₁.symm.trans hd₀)
  constructor
  · rintro ⟨-, -, roll', hroll', -, -, hregions, hpositions⟩
    rw [hu, henrol] at hroll'
    cases hroll'
    rw [he, hroster] at hregions hpositions
    refine ⟨fun i => ?_, by rw [hpositions]; exact hsingle.position⟩
    obtain ⟨x, hx⟩ := List.length_eq_one_iff.mp hsingle.region
    rw [hx] at hregion
    rw [hregions, hx, List.mem_singleton.mp hregion]
  · intro hsame
    refine ⟨⟨u, ?_, h.voter.approved, h.voter.emailVerified, ?_⟩, ⟨e, ?_, h.isOpen, h.recovery⟩,
      roll, hu ▸ henrol, h.voter.active, h.voter.verified, ?_, ?_⟩
    · rw [hu, husers]
      exact h.voter.user
    · rw [Tables.roleName, hroles]
      exact h.voter.voter
    · rw [he, helections]
      exact h.election.row
    · rw [he, hroster]
      exact eq_singleton_of_mem_iff hsingle.region hregion (List.nodup_dedup _) hsame.regions
    · rw [he, hroster, ← hsame.positions]
      exact hsingle.position

section Runs

variable {w : E.World} {s s' : Sys (machine L E)} {b : Label}

/-- A step that commits a token commits an authorized one exactly when the roster read is
current. -/
theorem authorized_iff_rosterCurrent (h : Reach (Sys.init d w) s)
    (hs : Step (machine L E) b s s') {k : BlindSignatureToken} (hk : k ∈ s'.db.tokens.rows)
    (hn : k ∉ s.db.tokens.rows) : Authorized s'.db k ↔ RosterCurrent s b := by
  rcases act_of_step h hs with ⟨heq, -⟩ | ⟨pid, t, p, l, rfl, hr, hc, hact, -⟩
  · rw [heq] at hk
    exact absurd hk hn
  obtain ⟨u, e, roll, htoken, hu, he⟩ := hact.token_of_new hk hn
  obtain ⟨cookie, data, body, hreq, hparse⟩ := htoken.request
  obtain ⟨d₀, hd₀, -⟩ := htoken.roster
  rw [htoken.authorized_iff hu he hd₀]
  constructor
  · rintro hsame pid' t' p' l' d' cookie' data' body' i d₁ hb hr' - hreq' hparse' hd₁
    cases hb
    obtain ⟨rfl, -, rfl⟩ := hr.unique hr'
    rw [hreq] at hreq'
    cases hreq'
    rw [hparse] at hparse'
    cases hparse'
    obtain rfl : d₀ = d₁ := Option.some.inj (hd₀.symm.trans hd₁)
    exact hsame
  · exact fun hcur => hcur pid t p l _ cookie data body e.id d₀ rfl hr hc hreq hparse hd₀

/-- **Eligibility when an authorization becomes durable.** In a run in which every token request
commits with a current roster, every token is authorized in the state that commits it; and a step
that commits a token commits an authorized one only then. -/
theorem authorized_of_rosterCurrent :
    (∀ s : Sys (machine L E), ReachIf RosterCurrent (Sys.init d w) s →
      ∀ i d₁ d₂, (i, d₁, d₂) ∈ s.commits →
      ∀ k ∈ d₂.tokens.rows, k ∉ d₁.tokens.rows → Authorized d₂ k) ∧
    ∀ (s s' : Sys (machine L E)) (b : Label), Reach (Sys.init d w) s →
      Step (machine L E) b s s' →
      ∀ k ∈ s'.db.tokens.rows, k ∉ s.db.tokens.rows → (Authorized s'.db k ↔ RosterCurrent s b) := by
  refine ⟨fun s h => ?_, fun s s' b h hs k hk hn => authorized_iff_rosterCurrent h hs hk hn⟩
  induction h with
  | refl => exact fun i d₁ d₂ hmem => absurd hmem (by simp [Sys.init, Sys.commits])
  | tail hr hstep ih =>
    obtain ⟨b, hb, hcur⟩ := hstep
    intro i d₁ d₂ hmem k hk hn
    rcases act_of_step (ReachIf.reach hr) hb with ⟨-, heq⟩ | ⟨_, _, _, _, -, -, -, -, heq⟩
    · exact ih i d₁ d₂ (heq ▸ hmem) k hk hn
    · rw [heq] at hmem
      rcases List.mem_append.mp hmem with hmem | hmem
      · exact ih i d₁ d₂ hmem k hk hn
      · cases List.mem_singleton.mp hmem
        exact (authorized_iff_rosterCurrent (ReachIf.reach hr) hb hk hn).mpr hcur

/-! ### A current and a stale roster -/

/-- `RosterCurrent` as a test on the state. -/
def rosterTest (s : Sys (machine L E)) : Label → Bool
  | .run pid =>
    match s.threads[pid]? with
    | some ⟨.requestBlindToken _ data, _, .running p l⟩ =>
      match p.commit? s.db, parseTokenRequest data, l.snap .voters with
      | some _, .ok (_, i), some d₀ =>
        let cs := d₀.roster i.toNat
        let cs' := s.db.roster i.toNat
        (regionIds cs).all (regionIds cs').contains && (regionIds cs').all (regionIds cs).contains &&
          (positions cs).length = (positions cs').length
      | _, _, _ => true
    | _ => true
  | _ => true

theorem rosterCurrent_of_test (h : rosterTest s b = true) : RosterCurrent s b := by
  rintro pid ⟨r, wk, st⟩ p l d' cookie data body i d₀ rfl ⟨ht, hst⟩ hc hreq hparse hd₀
  obtain rfl : st = .running p l := hst
  obtain rfl : r = .requestBlindToken cookie data := hreq
  simp only [rosterTest, ht, hc, hparse, hd₀, Int.toNat_natCast, Bool.and_eq_true, List.all_eq_true,
    List.contains_iff_mem, decide_eq_true_eq] at h
  exact ⟨fun x => ⟨h.1.1 x, h.1.2 x⟩, h.2⟩

/-- A run in which the voter asks for a token after the election has been opened. -/
def currentRosterRun : Sys (machine Sample.lib Sample.environment) :=
  (Sys.init Sample.db ()).runs (fun s b => rosterTest s b = true) Sample.oracle
    (Sample.inOrder 0 [Sample.createElection, Sample.createCandidate, Sample.openElection,
      Sample.requestBlindToken])

/-- The token of a request that reads a current roster is authorized when it is committed. -/
theorem authorized_currentRosterRun : ∃ i d₁ d₂, (i, d₁, d₂) ∈ currentRosterRun.commits ∧
    ∃ k ∈ d₂.tokens.rows, k ∉ d₁.tokens.rows ∧ Authorized d₂ k := by
  have hrun : ∃ x ∈ currentRosterRun.commits, ∃ k ∈ x.2.2.tokens.rows,
      k ∉ x.2.1.tokens.rows := by
    decide +kernel
  obtain ⟨⟨i, d₁, d₂⟩, hmem, k, hk, hn⟩ := hrun
  have htests : ReachIf (fun s b => rosterTest s b = true) (Sys.init Sample.db ())
      currentRosterRun := by
    unfold currentRosterRun
    refine Sample.runs_reach ?_
    exact fun _ => rfl
  have hcurrent := htests.mono fun _ _ => rosterCurrent_of_test
  exact ⟨i, d₁, d₂, hmem, k, hk, hn, authorized_of_rosterCurrent.1 _ hcurrent i d₁ d₂ hmem k hk hn⟩

/-- A run in which the identity hook reads the voter while the election is a draft, and the
candidate is moved to another region before the election is opened. -/
def staleRosterRun : Sys (machine Sample.lib Sample.environment) :=
  (Sys.init Sample.db ()).runs (fun _ _ => True) Sample.oracle
    (Sample.inOrder 0 [Sample.createElection, Sample.createCandidate] ++
      .start Sample.requestBlindToken 0 :: .run 2 2 ::
      Sample.inOrder 3 [.updateCandidate (some Sample.managerToken) 1
        ⟨none, none, none, some (py "2"), none⟩, Sample.openElection] ++ [.run 2 100])

/-- A token is committed for a voter outside the region of the election. -/
theorem token_of_stale_roster :
    ∃ s : Sys (machine Sample.lib Sample.environment), Reach (Sys.init Sample.db ()) s ∧
      ∃ i d₁ d₂, (i, d₁, d₂) ∈ s.commits ∧
        ∃ k ∈ d₂.tokens.rows, k ∉ d₁.tokens.rows ∧ ¬Authorized d₂ k := by
  have hrun : ∃ x ∈ staleRosterRun.commits, ∃ k ∈ x.2.2.tokens.rows, k ∉ x.2.1.tokens.rows ∧
      regionIds (x.2.2.roster k.electionId) = [2] ∧
      (x.2.2.enrolment k.userId).all (·.regionId = 1) = true := by
    decide +kernel
  obtain ⟨⟨i, d₁, d₂⟩, hmem, k, hk, hn, hregions, henrol⟩ := hrun
  refine ⟨staleRosterRun, Sample.runs_reach fun _ => trivial, i, d₁, d₂, hmem, k, hk, hn, ?_⟩
  rintro ⟨-, -, roll, hroll, -, -, hregions', -⟩
  rw [hroll] at henrol
  rw [hregions] at hregions'
  have : roll.regionId = 1 := by simpa using henrol
  rw [this] at hregions'
  cases hregions'

end Runs

end SecureVote
