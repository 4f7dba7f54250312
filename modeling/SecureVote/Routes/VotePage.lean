import SecureVote.Routes.Candidates

/-!
# What the vote page shows (`routes/main.py`)

`user_is_eligible_to_vote` decides whether a page offers the vote button. It reads the enrolment,
the roster and the two tables of earlier participation with plain reads.
-/

open Txn

namespace SecureVote

/-- The conditions on the account and its enrolment, as the page checks them. -/
def CurrentUser.baseEligible (cu : CurrentUser) (enrol : ElectoralRoll) : Bool :=
  cu.user.accountStatus = .approved && cu.user.emailVerified && hasRole cu.role "voter" &&
    enrol.status = .active && enrol.verified

/-- `user_is_eligible_to_vote`. -/
def userIsEligibleToVote (cu : CurrentUser) (election : Option Election) : Handler Bool := do
  let enrol ← loadEnrolment cu
  match enrol.filter cu.baseEligible with
  | none => pure false
  | some enrol =>
    match election with
    | none => pure true
    | some election =>
      let electionCandidates ← Prog.select cu.bind fun d : Db => d.roster election.id
      if (regionIds electionCandidates).length ≠ 1 ∨ (positions electionCandidates).length ≠ 1 ∨
          enrol.regionId ∉ regionIds electionCandidates then
        pure false
      else
        let hasDirectReceipt ← Prog.select cu.bind fun d : Db => d.receipt cu.user.id election.id
        let hasBlindAuthorization ← Prog.select cu.bind fun d : Db =>
          d.token cu.user.id election.id
        pure !(hasDirectReceipt.isSome || hasBlindAuthorization.isSome)

end SecureVote
