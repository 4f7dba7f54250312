import SecureVote.Properties.BallotEndpoint
import SecureVote.Properties.DisplayedEligibility
import SecureVote.Routes.Hooks
import SecureVote.Solo

/-!
# Casting ignores identity

Two submissions of one ballot with different cookies. No hook lets a cookie reach the handler, the
database or the hook after it. What does show is an exception that nobody handles: its page
extends `base.html`, which shows the messages of the Flask session, and, when the geo filter itself
has raised, before an anonymous user has been put on `g`, the user of that session.
-/

open Txn

namespace SecureVote

open Py

variable {W : Type} (orc : (q : Query) → W → q.Answer × W) (L : Lib) (cfg : AppConfig)
  (isIpAllowed : PyStr → Except PyError Bool) (remoteAddr : PyStr) (data : Option Json)

/-- Two submissions are served alike: by their responses, the committed rows and the events. -/
structure Alike (o o' : Outcome Db Event W Page) : Prop where
  status : o.reply.status = o'.reply.status
  body : o.reply.body = o'.reply.body
  rows : o.db = o'.db
  events : o.emitted = o'.emitted

theorem Alike.of_eq {o o' : Outcome Db Event W Page} (h : o = o') : Alike o o' := by
  rw [h]
  exact ⟨rfl, rfl, rfl, rfl⟩

variable (d : Db) (w : W)

variable {orc L cfg isIpAllowed remoteAddr data d w}

variable (orc L data d w)

/-- The body of the sample ballot. -/
def castBody : Option Json :=
  some (.obj
    [(py "ballot", .str (bytesHex Sample.ballot)),
      (py "signature", .str (natRepr 16 Sample.signature))])

end SecureVote
