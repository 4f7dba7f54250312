import SecureVote.Properties.BallotStuffing
import SecureVote.Properties.BallotRights
import SecureVote.Properties.BallotEndpoint
import SecureVote.Properties.ResultEndpoints
import SecureVote.Properties.SignedResults
import SecureVote.Properties.Eligibility
import SecureVote.Properties.SessionEpoch
import SecureVote.Properties.Provenance
import SecureVote.Properties.Migration
import SecureVote.Properties.MigratedBallots
import SecureVote.Properties.OtpLifecycle
import SecureVote.Properties.Lockout
import SecureVote.Properties.AuditTamper
import SecureVote.Properties.PiiEnvelope
import SecureVote.Properties.PiiPreflight
import SecureVote.Properties.AuditFaults
import SecureVote.Properties.KeyPublication
import SecureVote.Properties.Registration
import SecureVote.Text.Url
import SecureVote.Routes.Login
import SecureVote.Properties.Login
import SecureVote.Sql.Query
import SecureVote.Services.ResultsService
import SecureVote.Properties.Tallies
import SecureVote.Txn.Solo
import SecureVote.Solo
import SecureVote.Properties.CandidateEdits
import SecureVote.Routes.VotePage
import SecureVote.Properties.DisplayedEligibility
import SecureVote.Txn.Guarded
import SecureVote.Clock
import SecureVote.Verified.Timed
import SecureVote.Properties.Schedule
import SecureVote.Routes.Hooks
import SecureVote.Properties.Logout
import SecureVote.Properties.CastIdentity
import SecureVote.Properties.VotingWindow
import SecureVote.Orm.Attribute
import SecureVote.Orm.UnitOfWork
import SecureVote.Security.LicenceSession
import SecureVote.Properties.LicenceIndex
import SecureVote.Arith.Residue
import SecureVote.Client.BigInt
import SecureVote.Client.BlindVote
import SecureVote.Properties.ClientArithmetic
import SecureVote.Properties.Unlinkability
import SecureVote.Txn.Logged
import SecureVote.Verified.AuditTrail
import SecureVote.Properties.AuditTrail
import SecureVote.Properties.SecondFactor
import SecureVote.Verified.Commits
import SecureVote.Verified.Credentials
import SecureVote.Properties.Credentials
import SecureVote.Txn.History
import SecureVote.Ballots
import SecureVote.Properties.BallotBoxes
import SecureVote.Properties.BallotHistory
import SecureVote.Txn.Replies
import SecureVote.Txn.Serve
import SecureVote.Routes.LatestResults
import SecureVote.Routes.BlindKey
import SecureVote.Verified.SignedResults
import SecureVote.Verified.ResultReplies
import SecureVote.Properties.PublishedResults
import SecureVote.Properties.PublicVerification
import SecureVote.Verified.BallotReplies
import SecureVote.Properties.BallotAcceptance
