import SecureVote.Runs
import SecureVote.Sample

/-!
# The anonymous ballot endpoint

`cast_anonymous_ballot` replies with one of its own responses and records a ballot completely or
not at all, as long as no conversion of the submitted values raises an exception that the handler
does not list. Two do: `json.loads` on a document that nests too deeply, and `int` on an infinite
number.
-/

open Txn Txn.Rules

namespace SecureVote

open Py

variable {L : Lib}

/-! ### The submitted ballot -/

/-- The text that a body submits as its ballot. -/
def ballotText (data : Option Json) : Option PyStr :=
  match data with
  | some (.obj kvs) =>
    match dictGet kvs (py "ballot"), dictGet kvs (py "signature") with
    | some (.str ballotHex), some _ => (fromHex ballotHex).bind decodeUtf8
    | _, _ => none
  | _ => none

/-- The candidate and the election that are named inside the submitted ballot. -/
def Names (L : Lib) (data : Option Json) (candidate election : ℕ) : Prop :=
  ∃ text doc, ballotText data = some text ∧ loads L.recursionLimit text = .ok (.obj doc) ∧
    (getOrNone doc (py "candidate_id")).toInt = .ok (candidate : ℤ) ∧
    (getOrNone doc (py "election_id")).toInt = .ok (election : ℤ)

/-! ### Parsing -/

/-- What a submission may end with: a refusal that leaves nothing, or a recorded ballot, with one
vote, one nullifier and one audit event for the candidate and the election that it names. -/
inductive BallotReply (L : Lib) (data : Option Json) :
    Response → List (Ev Db Event Response) → Prop
  | refused {message code} (h : code ∈ [400, 403, 409, 503]) :
      BallotReply L data (.error message code) []
  | recorded {d d' : Db} {vote : Vote} {nullifier : SpentBallotNullifier} {election : ℕ}
      (names : Names L data vote.candidateId election)
      (votes : d'.votes.rows = d.votes.rows ++ [vote])
      (nullifiers : d'.nullifiers.rows = d.nullifiers.rows ++ [nullifier])
      (rest : { d'.toTables with votes := d.votes, nullifiers := d.nullifiers } = d.toTables)
      (voteElection : vote.electionId = election)
      (nullifierElection : nullifier.electionId = election) :
      BallotReply L data .ballotRecorded
        [.write d d', .emit (.audit none "ballot.cast" "election" election)]

/-- Key loading fails only with the exception that the handler catches. -/
def KeysFailCleanly (E : Environment) : Prop :=
  ∀ wk w i e w', E.answer wk w (.loadKeys i) (.error e) w' →
    ∃ message, e = .blindSigningKeyError message

theorem BallotOutcome.reply {E : Environment} {data : Option Json} {b : ParsedBallot}
    {a : Response} {log : List (Ev Db Event Response)} (hkeys : KeysFailCleanly E)
    (hnames : ∀ candidate election : ℕ, (candidate : ℤ) = b.candidateId →
      (election : ℤ) = b.electionId → Names L data candidate election)
    (h : BallotOutcome L E b a log) : BallotReply L data a log := by
  cases h with
  | rejected hcode => exact .refused hcode
  | keyError herr hne =>
    cases herr with
    | anchor message => exact absurd rfl (hne message)
    | files hans =>
      obtain ⟨message, rfl⟩ := hkeys _ _ _ _ _ hans
      exact absurd rfl (hne message)
  | recorded helection hcandidate hafter =>
    exact .recorded (hnames _ _ hcandidate helection) (congrArg (·.votes.rows) hafter :)
      (congrArg (·.nullifiers.rows) hafter :) (by rw [hafter]; rfl) rfl rfl

end SecureVote
