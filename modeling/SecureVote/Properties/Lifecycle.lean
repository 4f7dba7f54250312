import SecureVote.Runs
import SecureVote.Sample

/-!
# The life cycle of elections

At most one election is open, an election moves from draft to open to closed one step at a time,
its key anchor is never taken back, and a management request that does not report success has
committed nothing.
-/

open Txn Txn.Rules

namespace SecureVote

variable {L : Lib} {E : Environment} {r : Request} {l : Loc} {d d' : Db}

/-- At most one election is open. -/
def OneOpen (d : Db) : Prop :=
  ∀ {i j e e'}, d.elections.get? i = some e → d.elections.get? j = some e' →
    e.status = .open → e'.status = .open → i = j

/-- Every open or closed election has a key. -/
def AllAnchored (d : Db) : Prop :=
  ∀ {i e}, d.elections.get? i = some e → e.status ≠ .draft → e.blindSigningKeyId.isSome

/-- What one step does to the status of an election: nothing, or the next stage. -/
inductive ElectionStatus.Moves : ElectionStatus → ElectionStatus → Prop
  | stay (x) : Moves x x
  | «open» : Moves .draft .open
  | close : Moves .open .closed

/-- What one step does to an election. -/
structure ElectionMoves (e e' : Election) : Prop where
  status : e.status.Moves e'.status
  key : ∀ {k}, e.blindSigningKeyId = some k → e'.blindSigningKeyId = some k
  recovery : e.status = .draft → e'.status = .open → e.blindKeyRecoveryRequired = false

theorem ElectionMoves.refl (e : Election) : ElectionMoves e e :=
  ⟨.stay _, fun h => h, fun h h' => by rw [h] at h'; cases h'⟩

/-- A commit moves every election along its life cycle, and creates drafts. -/
theorem Act.moves (h : Act L r l d d') :
    (∀ {i e}, d.elections.get? i = some e →
      ∃ e', d'.elections.get? i = some e' ∧ ElectionMoves e e') ∧
    ∀ {i e'}, d.elections.get? i = none → d'.elections.get? i = some e' → e'.status = .draft := by
  have hupdate : ∀ {j : ℕ} {f : Election → Election} (h : ∀ e, key (f e) = key e),
      d'.elections = d.elections.update j f h →
      (∀ e, d.elections.get? j = some e → ElectionMoves e (f e)) →
      (∀ {i e}, d.elections.get? i = some e →
        ∃ e', d'.elections.get? i = some e' ∧ ElectionMoves e e') ∧
      ∀ {i e'}, d.elections.get? i = none → d'.elections.get? i = some e' →
        e'.status = .draft := by
    intro j f hk heq hf
    rw [heq]
    refine ⟨fun {i e} he => ?_, fun hn he' => absurd he' (not_created_update_election hn)⟩
    rw [Table.get?_update]
    split
    next hij =>
      subst hij
      exact ⟨f e, by rw [he]; rfl, hf e he⟩
    · exact ⟨e, he, .refl e⟩
  rcases h.elections_cases with heq | h
  · rw [heq]
    exact ⟨fun {i e} he => ⟨e, he, .refl e⟩, fun hn he' => by rw [hn] at he'; cases he'⟩
  cases h with
  | create h =>
    obtain ⟨_, _, _, _, ha⟩ := h.after
    rw [show d'.elections = _ from (congrArg Tables.elections ha :)]
    refine ⟨fun {i e} he => ⟨e, Table.get?_insert_of_isSome he, .refl e⟩, fun hn he' => ?_⟩
    rcases Table.get?_insert_eq_some he' with he' | ⟨-, rfl⟩
    · rw [hn] at he'
      cases he'
    · rfl
  | @«open» e keyId h =>
    obtain ⟨_, ha⟩ := h.after
    refine hupdate (by exact fun _ => rfl) (congrArg Tables.elections ha :) fun e₁ he₁ => ?_
    obtain rfl : e₁ = e := Option.some.inj (he₁.symm.trans h.election.row)
    exact ⟨h.draft ▸ .open, fun hk => congrArg some (h.anchor hk), fun _ _ => h.recovery⟩
  | @close e h =>
    obtain ⟨_, ha⟩ := h.after
    refine hupdate (by exact fun _ => rfl) (congrArg Tables.elections ha :) fun e₁ he₁ => ?_
    obtain rfl : e₁ = e := Option.some.inj (he₁.symm.trans h.election.row)
    exact ⟨h.isOpen ▸ .close, fun hk => hk, fun _ h' => by cases h'⟩
  | @anchor anchors h =>
    rw [show d'.elections = _ from (congrArg Tables.elections h.after :)]
    refine ⟨fun {i e} he => ?_, fun {i e'} hn he' => ?_⟩
    · rcases get?_anchorElections anchors d.toTables i with ⟨e₁, he₁, key, hkey, hor⟩ | ⟨hn, -⟩
      · obtain rfl : e₁ = e := Option.some.inj (he₁.symm.trans he)
        refine ⟨_, hkey, .stay _, fun {k} hk => ?_, fun hs hs' => by rw [hs] at hs'; cases hs'⟩
        rcases hor with ⟨rfl, -⟩ | ⟨a, ha, rfl, -⟩
        · exact hk
        · -- only an election without a key is anchored
          obtain ⟨e₂, held, hid, -, hnone, -⟩ := h.anchored a ha
          have hrow := held.row
          rw [hid, he] at hrow
          cases hrow
          rw [hnone] at hk
          cases hk
      · rw [hn] at he
        cases he
    · rcases get?_anchorElections anchors d.toTables i with ⟨e₁, he₁, -⟩ | ⟨-, hn'⟩
      · rw [hn] at he₁
        cases he₁
      · cases hn'.symm.trans he'

/-- A commit keeps at most one election open. -/
theorem Act.oneOpen (h : Act L r l d d') (hone : OneOpen d) : OneOpen d' := by
  intro i j e e' he he' hopen hopen'
  rcases h.open_cases he hopen with ⟨e₁, he₁, hs₁⟩ | ⟨x, k, hx, rfl⟩ <;>
    rcases h.open_cases he' hopen' with ⟨e₂, he₂, hs₂⟩ | ⟨y, k', hy, rfl⟩
  · exact hone he₁ he₂ hs₁ hs₂
  · exact absurd hs₁ (hy.none_open he₁)
  · exact absurd hs₂ (hx.none_open he₂)
  · -- one commit opens one election: it updates one row
    by_contra hne
    obtain ⟨_, ha⟩ := hy.after
    rw [show d'.elections = _ from (congrArg Tables.elections ha :)] at he
    simp only [markOpen] at he
    obtain ⟨e₁, he₁, rfl⟩ := get?_update_election he
    rw [if_neg hne] at hopen
    exact hx.none_open he₁ hopen

/-- A commit keeps every election that has left the draft stage anchored. -/
theorem Act.allAnchored (h : Act L r l d d') (hkeys : AllAnchored d) : AllAnchored d' := by
  intro i e' he' hne
  rcases hi : d.elections.get? i with _ | e
  · exact (h.evolves.created hi he').2 hne
  · obtain ⟨e₁, he₁, hev⟩ := h.evolves.elections hi
    obtain rfl : e₁ = e' := Option.some.inj (he₁.symm.trans he')
    by_cases hd : e.status = .draft
    · exact (hev.opened hd hne).1
    · obtain ⟨k, hk⟩ := Option.isSome_iff_exists.mp (hkeys hi hd)
      rw [hev.anchor hk]
      rfl

/-- **The life cycle of elections.** From any database with at most one open election and keys
for all elections that have left the draft stage, these two invariants hold in every reachable
state, every step moves elections along the life cycle, and a management request that does not
report success has committed nothing. -/
theorem election_lifecycle {w : E.World} {s : Sys (machine L E)} (hone : OneOpen d)
    (hkeys : AllAnchored d) (h : Reach (Sys.init d w) s) :
    OneOpen s.db ∧ AllAnchored s.db ∧
      (∀ b s', Step (machine L E) b s s' →
        (∀ i e, s.db.elections.get? i = some e →
          ∃ e', s'.db.elections.get? i = some e' ∧ ElectionMoves e e') ∧
        ∀ i e', s.db.elections.get? i = none → s'.db.elections.get? i = some e' →
          e'.status = .draft) ∧
      ∀ i t a, s.threads[i]? = some t → t.status = .finished a →
        t.request.managesElections = true → a.reportsSuccess = false →
        ∀ d₁ d₂, (i, d₁, d₂) ∉ s.commits := by
  refine ⟨db_induction h (P := OneOpen) hone fun h hact => hact.oneOpen h,
    db_induction h (P := AllAnchored) hkeys fun h hact => hact.allAnchored h,
    fun b s' hs => ?_, fun i t a ht ha hm hn d₁ d₂ => ?_⟩
  · rcases act_of_step h hs with ⟨heq, -⟩ | ⟨_, _, _, _, -, -, -, hact, -⟩
    · rw [heq]
      exact ⟨fun i e he => ⟨e, he, .refl e⟩, fun i e' hn he' => by rw [hn] at he'; cases he'⟩
    · exact ⟨fun i e he => hact.moves.1 he, fun i e' hn he' => hact.moves.2 hn he'⟩
  · obtain ⟨log, hlog, hpost⟩ := post_of_finished h ht ha
    exact not_mem_commits hlog (hpost.quiet hm hn)

/-- The run of one election, from its creation until it is closed. -/
theorem election_lifecycle_electionRun :
    Sample.electionRun.db.elections.rows.map Election.status = [.closed] ∧
      OneOpen Sample.electionRun.db ∧ AllAnchored Sample.electionRun.db := by
  obtain ⟨hone, hkeys, -⟩ := election_lifecycle (d := Sample.db) (s := Sample.electionRun)
    (fun {i j e e'} he => by cases he) (fun {i e} he => by cases he)
    Sample.electionRun_sound.1.reach
  exact ⟨Sample.electionRun_outcome.1, hone, hkeys⟩

end SecureVote
