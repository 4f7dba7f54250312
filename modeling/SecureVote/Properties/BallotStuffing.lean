import SecureVote.Properties.Roster
import Mathlib.Data.List.Perm.Subperm

/-!
# No ballot stuffing

Every vote of an election is paid for: by a spent nullifier or a receipt, every nullifier by a
ballot that verifies under the key of the election, and every disclosed signature by a committed
token. With the one-more unforgeability of blind signatures the three tables and the disclosed
signatures are in order, in every interleaving.
-/

open Txn Txn.Rules

namespace SecureVote

open Py

variable {L : Lib} {E : Environment} {r : Request} {l : Loc} {d d' : Db}

/-- The spent nullifiers of one election. -/
def Tables.nullifiersFor (t : Tables) (i : ℕ) : List SpentBallotNullifier :=
  t.nullifiers.rows.filter fun n => n.electionId = i

/-- The receipts of one election. -/
def Tables.receiptsFor (t : Tables) (i : ℕ) : List VoteReceipt :=
  t.receipts.rows.filter fun x => x.electionId = i

/-! ### Votes, nullifiers and receipts -/

/-- Every vote of an election came with a nullifier or a receipt. -/
def Balanced (d : Db) : Prop :=
  ∀ i, (d.votesFor i).length = (d.nullifiersFor i).length + (d.receiptsFor i).length

theorem Balanced.of_eq (h : Balanced d) (hv : d'.votes.rows = d.votes.rows)
    (hn : d'.nullifiers = d.nullifiers) (hr : d'.receipts = d.receipts) : Balanced d' := by
  intro i
  have := h i
  simp only [Tables.votesFor, Tables.nullifiersFor, Tables.receiptsFor, hv, hn, hr] at this ⊢
  exact this

theorem length_filter_append {α : Type} (p : α → Bool) (as : List α) (a : α) :
    ((as ++ [a]).filter p).length = (as.filter p).length + if p a then 1 else 0 := by
  rw [List.filter_append, List.length_append]
  cases h : p a <;> simp [h]

/-- A commit keeps the balance, while all votes are sound. -/
theorem Act.balanced (h : Act L r l d d') (hv : ∀ v ∈ d.votes.rows, VoteSound d v)
    (hb : Balanced d) : Balanced d' := by
  cases h with
  | token h =>
    exact hb.of_eq (congrArg (·.votes.rows) h.after :) (congrArg Tables.nullifiers h.after :)
      (congrArg Tables.receipts h.after :)
  | ballot h =>
    obtain ⟨_, _, _, ha⟩ := h.after
    intro i
    have := hb i
    simp only [Tables.votesFor, Tables.nullifiersFor, Tables.receiptsFor] at this ⊢
    rw [show d'.votes.rows = _ ++ [_] from (congrArg (·.votes.rows) ha :),
      show d'.nullifiers.rows = _ ++ [_] from (congrArg (·.nullifiers.rows) ha :),
      show d'.receipts = _ from (congrArg Tables.receipts ha :), length_filter_append,
      length_filter_append, this]
    dsimp only [addVoteAndNullifier]
    omega
  | vote h =>
    obtain ⟨_, _, _, ha⟩ := h.after
    intro i
    have := hb i
    simp only [Tables.votesFor, Tables.nullifiersFor, Tables.receiptsFor] at this ⊢
    rw [show d'.votes.rows = _ ++ [_] from (congrArg (·.votes.rows) ha :),
      show d'.receipts.rows = _ ++ [_] from (congrArg (·.receipts.rows) ha :),
      show d'.nullifiers = _ from (congrArg Tables.nullifiers ha :), length_filter_append,
      length_filter_append, this]
    dsimp only [addVoteAndReceipt]
    omega
  | election h =>
    obtain ⟨_, ha⟩ := h.only
    exact hb.of_eq (congrArg (·.votes.rows) ha :) (congrArg Tables.nullifiers ha :)
      (congrArg Tables.receipts ha :)
  | candidate h =>
    obtain ⟨-, -, ⟨_, _, ha⟩, -, hvotes | ⟨c, hc⟩⟩ := h.only
    · exact hb.of_eq (congrArg Table.rows hvotes) (congrArg Tables.nullifiers ha :)
        (congrArg Tables.receipts ha :)
    · exact hb.of_eq (hc.votes_eq hv) (congrArg Tables.nullifiers ha :)
        (congrArg Tables.receipts ha :)
  | sign h =>
    obtain ⟨_, _, _, _, ha⟩ := h.after
    exact hb.of_eq (congrArg (·.votes.rows) ha :) (congrArg Tables.nullifiers ha :)
      (congrArg Tables.receipts ha :)
  | account h =>
    obtain ⟨_, _, ha, -⟩ := h.only
    exact hb.of_eq (congrArg (·.votes.rows) ha :) (congrArg Tables.nullifiers ha :)
      (congrArg Tables.receipts ha :)

/-! ### Ballots -/

/-- The document in the octets of a ballot. -/
def ballotDocument (L : Lib) (bytes : Bytes) : Option Json :=
  (decodeUtf8 bytes).bind fun text => (loads L.recursionLimit text).toOption

theorem decodeBallot_eq_ok {ballot signature : Json} {bytes : Bytes} {doc : Json} {s : ℤ}
    (h : decodeBallot L ballot signature = .ok (bytes, doc, s)) :
    ballotDocument L bytes = some doc := by
  unfold decodeBallot at h
  dsimp only at h
  repeat' split at h
  all_goals cases h
  next htext hdoc _ => simp [ballotDocument, htext, hdoc, Except.toOption]

/-- The fields of a parsed ballot depend on its document alone. -/
theorem ballotFields_eq_ok {bytes : Bytes} {doc : Json} {s : ℤ} {b : ParsedBallot}
    (h : ballotFields bytes doc s = .ok b) :
    b.bytes = bytes ∧ ∀ bytes' s', ballotFields bytes' doc s' =
      .ok ⟨bytes', s', b.candidateId, b.electionId, b.nonce⟩ := by
  unfold ballotFields at h ⊢
  cases doc with
  | obj kvs =>
    dsimp only at h ⊢
    repeat' split at h
    all_goals cases h
    simp_all
  | _ => cases h

/-- A parsed ballot: its octets are its document, and the fields are read from that. -/
theorem parseBallot_eq_ok {data : Option Json} {b : ParsedBallot}
    (h : parseBallot L data = .ok b) : ∃ doc, ballotDocument L b.bytes = some doc ∧
      ∀ bytes s, ballotFields bytes doc s =
        .ok ⟨bytes, s, b.candidateId, b.electionId, b.nonce⟩ := by
  unfold parseBallot at h
  split at h
  · split at h
    · split at h
      · cases h
      next bytes doc s hdecode =>
        obtain ⟨hbytes, hfields⟩ := ballotFields_eq_ok h
        exact ⟨doc, hbytes ▸ decodeBallot_eq_ok hdecode, hfields⟩
    · cases h
  · cases h

/-- Equal ballot octets give the same candidate, election and nonce. -/
theorem ballot_eq_of_bytes_eq {data data' : Option Json} {b b' : ParsedBallot}
    (h : parseBallot L data = .ok b) (h' : parseBallot L data' = .ok b')
    (hbytes : b.bytes = b'.bytes) :
    b.candidateId = b'.candidateId ∧ b.electionId = b'.electionId ∧ b.nonce = b'.nonce := by
  obtain ⟨doc, hdoc, hfields⟩ := parseBallot_eq_ok h
  obtain ⟨doc', hdoc', hfields'⟩ := parseBallot_eq_ok h'
  rw [hbytes, hdoc'] at hdoc
  cases hdoc
  have := (hfields b.bytes b.signature).symm.trans (hfields' b.bytes b.signature)
  simpa using this

/-- The ballot verifies under the anchored key of the election. -/
def Verifies (L : Lib) (d : Db) (i : ℕ) (b : ParsedBallot) : Prop :=
  ∃ e k, d.elections.get? i = some e ∧ e.blindSigningKeyId = some (fingerprint L k) ∧
    verifyWith L k b.bytes b.signature = .ok true

theorem Verifies.carry {i : ℕ} {b : ParsedBallot} (h : Verifies L d i b) (hev : Evolves d d') :
    Verifies L d' i b := by
  obtain ⟨e, k, he, hk, hv⟩ := h
  obtain ⟨e', he', hev'⟩ := hev.elections he
  exact ⟨e', k, he', hev'.anchor hk, hv⟩

section Runs

variable {w : E.World} {s s' : Sys (machine L E)}

/-- The octets of a ballot for the election that has been submitted and verifies. -/
def Redeemable (s : Sys (machine L E)) (i : ℕ) (bytes : Bytes) : Prop :=
  ∃ (j : ℕ) (t : Thread (machine L E)) (data : Option Json) (b : ParsedBallot),
    s.threads[j]? = some t ∧ t.request = .castAnonymousBallot data ∧
    parseBallot L data = .ok b ∧ b.bytes = bytes ∧ b.electionId = i ∧ Verifies L s.db i b

/-- The blind signatures disclosed to clients under the key of an election. -/
def disclosed (s : Sys (machine L E)) (i : ℕ) : List (ℕ × Response) :=
  s.replies.filter fun x => match x.2 with
    | .blindSignature _ j => j = i
    | _ => false

/-- One-more unforgeability: no more distinct ballots verify under the key of the election than
blind signatures have been disclosed under it. -/
def Unforgeable (s : Sys (machine L E)) (i : ℕ) : Prop :=
  ∀ ballots : List Bytes, ballots.Nodup → (∀ x ∈ ballots, Redeemable s i x) →
    ballots.length ≤ (disclosed s i).length

/-- A submitted ballot that leaves this nullifier and verifies under the key of its election. -/
structure Leaves (s : Sys (machine L E)) (n : SpentBallotNullifier) (b : ParsedBallot) :
    Prop where
  submitted : ∃ (j : ℕ) (t : Thread (machine L E)) (data : Option Json),
    s.threads[j]? = some t ∧ t.request = .castAnonymousBallot data ∧ parseBallot L data = .ok b
  election : b.electionId = n.electionId
  hash : n.nullifierHash = nullifierHash L b.nonce
  verifies : Verifies L s.db n.electionId b

theorem Leaves.carry {n : SpentBallotNullifier} {x : ParsedBallot} {b : Label}
    (h : Leaves s n x) (hr : Reach (Sys.init d w) s) (hs : Step (machine L E) b s s') :
    Leaves s' n x := by
  obtain ⟨j, t, data, ht, hreq, hparse⟩ := h.submitted
  obtain ⟨t', ht', hreq', -⟩ := hs.threads ht
  exact ⟨⟨j, t', data, ht', hreq'.trans hreq, hparse⟩, h.election, h.hash,
    h.verifies.carry (evolves_of_step hr hs)⟩

/-- Every nullifier was left by a ballot. -/
theorem exists_leaves (hd : EmptySchema d) (h : Reach (Sys.init d w) s) :
    ∀ n ∈ s.db.nullifiers.rows, ∃ b, Leaves s n b := by
  induction h with
  | refl =>
    intro n hn
    rw [show (Sys.init d w : Sys (machine L E)).db.nullifiers.rows = [] from hd.nullifiers] at hn
    cases hn
  | @tail s₁ s₂ hr hstep ih =>
    obtain ⟨b, hb, -⟩ := hstep
    have hold : ∀ n ∈ s₁.db.nullifiers.rows, ∃ b, Leaves s₂ n b := fun n hn =>
      (ih n hn).imp fun x hx => hx.carry hr hb
    intro n hn
    rcases act_of_step hr hb with ⟨heq, -⟩ | ⟨pid, t, p, l, -, hrun, -, hact, -⟩
    · exact hold n (heq ▸ hn)
    cases hact with
    | @ballot x e c h =>
      obtain ⟨_, _, _, ha⟩ := h.after
      rw [show s₂.db.nullifiers.rows = s₁.db.nullifiers.rows ++ [_] from
        (congrArg (·.nullifiers.rows) ha :)] at hn
      rcases List.mem_append.mp hn with hn | hn
      · exact hold n hn
      · obtain rfl := List.mem_singleton.mp hn
        obtain ⟨data, hreq, hparse⟩ := h.request
        obtain ⟨t', ht', hreq', -⟩ := hb.threads hrun.1
        obtain ⟨k, hk, hv⟩ := h.key
        exact ⟨x, ⟨pid, t', data, ht', hreq'.trans hreq, hparse⟩, h.electionId.symm, rfl,
          Verifies.carry ⟨e, k.publicKey, h.election.row, hk, hv⟩ (evolves_of_step hr hb)⟩
    | token h => exact hold n ((congrArg (·.nullifiers.rows) h.after :) ▸ hn)
    | vote h =>
      obtain ⟨_, _, _, ha⟩ := h.after
      exact hold n ((congrArg (·.nullifiers.rows) ha :) ▸ hn)
    | election h =>
      obtain ⟨_, ha⟩ := h.only
      exact hold n ((congrArg (·.nullifiers.rows) ha :) ▸ hn)
    | candidate h =>
      obtain ⟨-, -, ⟨_, _, ha⟩, -⟩ := h.only
      exact hold n ((congrArg (·.nullifiers.rows) ha :) ▸ hn)
    | sign h =>
      obtain ⟨_, _, _, _, ha⟩ := h.after
      exact hold n ((congrArg (·.nullifiers.rows) ha :) ▸ hn)
    | account h =>
      obtain ⟨_, _, ha, -⟩ := h.only
      exact hold n ((congrArg (·.nullifiers.rows) ha :) ▸ hn)

/-- No more nullifiers are spent than signatures are disclosed. -/
theorem nullifiers_le_disclosed (hd : EmptySchema d) (h : Reach (Sys.init d w) s) {i : ℕ}
    (hforge : Unforgeable s i) :
    (s.db.nullifiersFor i).length ≤ (disclosed s i).length := by
  have : Nonempty ParsedBallot := ⟨⟨[], 0, 0, 0, []⟩⟩
  choose! b hb using exists_leaves hd h
  have hmem : ∀ n ∈ s.db.nullifiersFor i, n ∈ s.db.nullifiers.rows ∧ n.electionId = i := by
    intro n hn
    simpa [Tables.nullifiersFor] using hn
  have hlen := hforge ((s.db.nullifiersFor i).map fun n => (b n).bytes) ?_ ?_
  · simpa using hlen
  · -- equal octets leave equal nullifiers, which are unique in an election
    have hnodup : (s.db.nullifiersFor i).Nodup :=
      (List.Nodup.of_map _ s.db.nullifiers.nodup).filter _
    refine hnodup.map_on fun n hn m hm hbytes => ?_
    obtain ⟨hn, hni⟩ := hmem n hn
    obtain ⟨hm, hmi⟩ := hmem m hm
    obtain ⟨_, _, _, -, -, hparse⟩ := (hb n hn).submitted
    obtain ⟨_, _, _, -, -, hparse'⟩ := (hb m hm).submitted
    obtain ⟨-, -, hnonce⟩ := ballot_eq_of_bytes_eq hparse hparse' hbytes
    refine List.inj_on_of_nodup_map s.db.ok.nullifiers_election_hash hn hm ?_
    rw [hni, hmi, (hb n hn).hash, (hb m hm).hash, hnonce]
  · intro x hx
    obtain ⟨n, hn, rfl⟩ := List.mem_map.mp hx
    obtain ⟨hn, hni⟩ := hmem n hn
    obtain ⟨j, t, data, ht, hreq, hparse⟩ := (hb n hn).submitted
    exact ⟨j, t, data, b n, ht, hreq, hparse, rfl, (hb n hn).election.trans (by rw [hni]),
      hni ▸ (hb n hn).verifies⟩

/-! ### Disclosed signatures -/

/-- A disclosed signature has been paid for by a token of its request. -/
theorem disclosed_of_reply (h : Reach (Sys.init d w) s) {j : ℕ} {sig : PyStr} {i : ℕ}
    (hj : (j, .blindSignature sig i) ∈ s.replies) :
    ∃ t ws, s.threads[j]? = some t ∧ Disclosed L t.request ws sig i ∧
      ∀ d₁ d₂, (d₁, d₂) ∈ ws → (j, d₁, d₂) ∈ s.commits := by
  obtain ⟨t, ht, hf⟩ := Reach.finished_of_reply h hj
  obtain ⟨log, hlog, hpost⟩ := post_of_finished h ht hf
  refine ⟨t, writes log, ht, hpost.disclosed rfl, fun d₁ d₂ hmem => ?_⟩
  rw [← Sys.mem_writes_log, hlog]
  exact List.mem_append_left _ (mem_writes.mp hmem)

/-- The commits that issued a token for an election. -/
def issues (s : Sys (machine L E)) (i : ℕ) : List (ℕ × Db × Db) :=
  s.commits.filter fun x => (added Tables.tokens x.2.1 x.2.2).any fun k => k.electionId = i

/-- No token is lost. -/
theorem length_issues (hd : EmptySchema d) (h : Reach (Sys.init d w) s) (i : ℕ) :
    (issues s i).length = (s.db.tokensFor i).length := by
  refine (rows_eq_added (t := Tables.tokens) h hd.tokens fun h₁ hs => ?_).2 _
  rcases act_of_step h₁ hs with ⟨heq, -⟩ | ⟨_, _, _, _, -, -, -, hact, -⟩
  · exact Or.inl (congrArg (·.tokens.rows) heq)
  · rcases hact.tokens_cases with heq | ⟨u, e, roll, h⟩
    · exact Or.inl (congrArg Table.rows heq)
    · exact Or.inr ⟨_, (congrArg (·.tokens.rows) h.after :)⟩

/-- No more signatures are disclosed than tokens are committed. -/
theorem disclosed_le_tokens (hd : EmptySchema d) (h : Reach (Sys.init d w) s) (i : ℕ) :
    (disclosed s i).length ≤ (s.db.tokensFor i).length := by
  have hnodup : ((disclosed s i).map Prod.fst).Nodup :=
    h.nodup_replies.sublist (List.filter_sublist.map _)
  have hsub : (disclosed s i).map Prod.fst ⊆ (issues s i).map Prod.fst := by
    intro j hj
    obtain ⟨⟨j, a⟩, hmem, rfl⟩ := List.mem_map.mp hj
    obtain ⟨hreply, ha⟩ := List.mem_filter.mp hmem
    cases a with
    | blindSignature sig i' =>
      obtain rfl : i' = i := by simpa using ha
      obtain ⟨t, ws, -, ⟨_, _, _, _, _, _, d₁, d₂, u, _, -, -, -, -, -, rfl, -, -, hafter⟩, hws⟩ :=
        disclosed_of_reply h hreply
      refine List.mem_map.mpr ⟨(j, d₁, d₂), List.mem_filter.mpr
        ⟨hws d₁ d₂ (List.mem_singleton_self _), ?_⟩, rfl⟩
      rw [added_of_append (t := Tables.tokens) (congrArg (·.tokens.rows) hafter :)]
      simp
    | _ => cases ha
  calc (disclosed s i).length = ((disclosed s i).map Prod.fst).length := (List.length_map _).symm
    _ ≤ ((issues s i).map Prod.fst).length := (List.subperm_of_subset hnodup hsub).length_le
    _ = (s.db.tokensFor i).length := by rw [List.length_map, length_issues hd h]

/-- **No ballot stuffing.** In every state reached from an empty schema, for every election: the
votes are as many as the spent nullifiers and the receipts; there are no more nullifiers than
committed tokens; and no more blind signatures are disclosed than tokens committed, each one
computed with a key pair that carries the anchor of the election. -/
theorem no_ballot_stuffing (hd : EmptySchema d) (h : Reach (Sys.init d w) s) (i : ℕ) :
    (s.db.votesFor i).length = (s.db.nullifiersFor i).length + (s.db.receiptsFor i).length ∧
      (Unforgeable s i → (s.db.nullifiersFor i).length ≤ (s.db.tokensFor i).length) ∧
      (disclosed s i).length ≤ (s.db.tokensFor i).length ∧
      ∀ j sig, (j, .blindSignature sig i) ∈ s.replies →
        ∃ e k b y, s.db.elections.get? i = some e ∧
          e.blindSigningKeyId = some (fingerprint L (KeyPair.publicKey k)) ∧
          blindSignWith k.privateKey.publicKey.n k.privateKey.d b = .ok y ∧ sig = hex y := by
  have hle := disclosed_le_tokens hd h i
  refine ⟨?_, fun hforge => (nullifiers_le_disclosed hd h hforge).trans hle, hle, fun j sig hj => ?_⟩
  · have hbalanced : Balanced s.db ∧ ∀ v ∈ s.db.votes.rows, VoteSound s.db v :=
      db_induction h (P := fun d => Balanced d ∧ ∀ v ∈ d.votes.rows, VoteSound d v)
        ⟨fun i => by simp [Tables.votesFor, Tables.nullifiersFor, Tables.receiptsFor, hd.votes,
          hd.nullifiers, hd.receipts], fun v hv => by rw [hd.votes] at hv; cases hv⟩
        fun hb hact => ⟨hact.balanced hb.2 hb.1, hact.sound hb.2⟩
    exact hbalanced.1 i
  · obtain ⟨t, ws, -, ⟨_, _, _, b, k, y, d₁, d₂, u, e, -, -, -, hsign, hsig, rfl, he, hk, -⟩, hws⟩ :=
      disclosed_of_reply h hj
    obtain ⟨e', he', hev⟩ :=
      (evolves_of_commit h (hws d₁ d₂ (List.mem_singleton_self _))).elections he
    exact ⟨e', k, b, y, he', hev.anchor hk, hsign, hsig⟩

/-- In the run of one election a single ballot is submitted, on one disclosed signature. -/
theorem unforgeable_electionRun : Unforgeable Sample.electionRun 1 := by
  intro ballots hnodup hballots
  obtain ⟨-, -, -, -, -, hdisclosed⟩ := Sample.electionRun_outcome
  have hpos : 1 ≤ (disclosed Sample.electionRun 1).length := by
    obtain ⟨x, hx, hj⟩ := List.any_eq_true.mp hdisclosed
    exact List.length_pos_of_mem (List.mem_filter.mpr ⟨hx, hj⟩)
  have hone : ∀ x, Redeemable Sample.electionRun 1 x →
      ∃ data b, Sample.castAnonymousBallot = .castAnonymousBallot data ∧
        parseBallot Sample.lib data = .ok b ∧ b.bytes = x := by
    rintro x ⟨j, t, data, b, ht, hreq, hparse, hb, -⟩
    have hmem := Sample.electionRun_sound.2 t (List.mem_of_getElem? ht)
    rw [hreq] at hmem
    simp only [Sample.electionRequests, List.mem_cons, List.not_mem_nil, or_false] at hmem
    rcases hmem with h | h | h | h | h | h | h
    case inr.inr.inr.inr.inl => exact ⟨data, b, h.symm, hparse, hb⟩
    all_goals cases h
  have heq : ∀ x ∈ ballots, ∀ y ∈ ballots, x = y := by
    intro x hx y hy
    obtain ⟨data, b, hreq, hparse, rfl⟩ := hone x (hballots x hx)
    obtain ⟨data', b', hreq', hparse', rfl⟩ := hone y (hballots y hy)
    cases hreq.symm.trans hreq'
    cases hparse.symm.trans hparse'
    rfl
  refine le_trans ?_ hpos
  rcases ballots with _ | ⟨x, _ | ⟨y, rest⟩⟩
  · exact Nat.zero_le 1
  · exact le_rfl
  · obtain rfl := heq x (by simp) y (by simp)
    simp at hnodup

/-- The run of one election has one vote, one nullifier and one token. -/
theorem no_ballot_stuffing_electionRun :
    (Sample.electionRun.db.votesFor 1).length =
        (Sample.electionRun.db.nullifiersFor 1).length +
          (Sample.electionRun.db.receiptsFor 1).length ∧
      (Sample.electionRun.db.nullifiersFor 1).length ≤
        (Sample.electionRun.db.tokensFor 1).length ∧
      (disclosed Sample.electionRun 1).length ≤ (Sample.electionRun.db.tokensFor 1).length := by
  obtain ⟨hvotes, hspent, hdisclosed, -⟩ :=
    no_ballot_stuffing emptySchema_sample Sample.electionRun_sound.1.reach 1
  exact ⟨hvotes, hspent unforgeable_electionRun, hdisclosed⟩

end Runs

end SecureVote
