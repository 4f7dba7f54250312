import SecureVote.Routes.Main
import SecureVote.Routes.Elections
import SecureVote.Routes.Candidates
import SecureVote.Routes.Results
import SecureVote.Routes.Accounts
import SecureVote.Services.ElectionKeyService

/-!
# The system

All requests and service calls as one machine (`Txn.Machine`), over any environment that
answers calls to clocks, randomness, key files and signing backends. What is known of every
environment is the key cache of `blind_signature.py`: a worker process that has loaded a pair
for an election keeps using that pair.
-/

open Txn

namespace SecureVote

/-- A request, or a call of a service function. -/
inductive Request
  | profile (cookie : Option PyStr)
  | requestBlindToken (cookie : Option PyStr) (data : Option Py.Json)
  | castAnonymousBallot (data : Option Py.Json)
  | castVote (userId candidateId : ℕ) (electionId : Option ℕ)
  | createElection (cookie : Option PyStr) (form : ElectionForm)
  | openElection (cookie : Option PyStr) (electionId : ℕ)
  | closeElection (cookie : Option PyStr) (electionId : ℕ)
  | createCandidate (cookie : Option PyStr) (form : CandidateForm)
  | updateCandidate (cookie : Option PyStr) (candidateId : ℕ) (form : CandidateForm)
  | deleteCandidate (cookie : Option PyStr) (candidateId : ℕ)
  | signElectionResults (cookie : Option PyStr) (body : Option Py.Json) (form : Option PyStr)
  | verifyElectionResults (cookie : Option PyStr) (body : Option Py.Json)
  | changeSignedResult (id : ℕ) (change : Change SignedElectionResult)
  | approveUser (cookie : Option PyStr) (userId : ℕ)
  | rejectUser (cookie : Option PyStr) (userId : ℕ)
  | verifyEmail (token : PyStr)
  | changePassword (cookie : Option PyStr) (form : PasswordForm)
  | resetPassword (token : PyStr) (form : Option (PyStr × PyStr))
  | anchorOpenElectionKeys

/-- The handler of a request. -/
def handle (L : Lib) : Request → Handler Response
  | .profile cookie => SecureVote.profile L cookie
  | .requestBlindToken cookie data => SecureVote.requestBlindToken L cookie data
  | .castAnonymousBallot data => SecureVote.castAnonymousBallot L data
  | .castVote userId candidateId electionId => SecureVote.castVote L userId candidateId electionId
  | .createElection cookie form => SecureVote.createElection L cookie form
  | .openElection cookie electionId => SecureVote.openElection L cookie electionId
  | .closeElection cookie electionId => SecureVote.closeElection L cookie electionId
  | .createCandidate cookie form => SecureVote.createCandidate L cookie form
  | .updateCandidate cookie candidateId form => SecureVote.updateCandidate L cookie candidateId form
  | .deleteCandidate cookie candidateId => SecureVote.deleteCandidate L cookie candidateId
  | .signElectionResults cookie body form => SecureVote.signElectionResults L cookie body form
  | .verifyElectionResults cookie body => SecureVote.verifyElectionResults L cookie body
  | .changeSignedResult id change => SecureVote.changeSignedResult id change
  | .approveUser cookie userId => SecureVote.approveUser L cookie userId
  | .rejectUser cookie userId => SecureVote.rejectUser L cookie userId
  | .verifyEmail token => SecureVote.verifyEmail L token
  | .changePassword cookie form => SecureVote.changePassword L cookie form
  | .resetPassword token form => SecureVote.resetPassword L token form
  | .anchorOpenElectionKeys => SecureVote.anchorOpenElectionKeys L

/-- The session cookie of a request that `_load_user_from_jwt` reads. -/
def Request.cookie : Request → Option PyStr
  | .profile cookie | .requestBlindToken cookie _ | .createElection cookie _
  | .openElection cookie _ | .closeElection cookie _ | .createCandidate cookie _
  | .updateCandidate cookie _ _ | .deleteCandidate cookie _ | .signElectionResults cookie _ _
  | .verifyElectionResults cookie _
  | .approveUser cookie _ | .rejectUser cookie _ | .changePassword cookie _ => cookie
  | _ => none

/-- What stands around the database: how calls are answered, how the world drifts on its own,
and the key caches of the worker processes. -/
structure Environment where
  World : Type
  answer : ℕ → World → (q : Query) → q.Answer → World → Prop
  drift : World → World → Prop
  /-- The pair a worker has cached for an election. -/
  cached : World → ℕ → ℕ → Option KeyPair
  load_cached : ∀ {wk w e k w'}, answer wk w (.loadKeys e) (.ok k) w' → cached w' wk e = some k
  answer_cached : ∀ {wk w q a w' i e k}, answer wk w q a w' → cached w i e = some k →
    cached w' i e = some k
  drift_cached : ∀ {w w' i e k}, drift w w' → cached w i e = some k → cached w' i e = some k

/-- The machine over an environment. -/
def machine (L : Lib) (E : Environment) :
    Machine Db RowId TableName Bind Event Query Query.Answer E.World Request Response where
  handler := handle L
  answer := E.answer
  drift := E.drift

end SecureVote
