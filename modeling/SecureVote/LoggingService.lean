import SecureVote.Text.DateTime
import SecureVote.Text.Lines
import SecureVote.Text.Parsed
import SecureVote.Text.Sha256

/-!
# The audit log (`logging_service.py`, `routes/audit.py`)

`record_audit_event` builds a structured event, `HmacAuditHandler.emit` appends it to the log as a
line of JSON that is signed together with the tag of the line before, and `verify_audit` reads the
log back. A handler lives in a worker process; every handler that writes one log goes through the
lock file, and reads the last tag from the state file once it has the lock.

The steps of `emit` that touch a file are separate, so that other handlers run in between. A text
that cannot be encoded raises when its line is written, before anything reaches the log.
-/

namespace SecureVote

open Py

/-! ### Events -/

/-- The arguments of `record_audit_event`, as texts. -/
structure AuditEvent where
  actorId : Option PyStr
  action : PyStr
  targetType : PyStr
  targetId : PyStr
  outcome : PyStr
  deriving DecidableEq

/-- The `extra` of the log record. -/
def AuditEvent.extra (e : AuditEvent) : Json :=
  .obj [
    (py "actor", .obj [(py "id", .str (e.actorId.getD (py "anonymous")))]),
    (py "action", .str e.action),
    (py "target", .obj [(py "type", .str e.targetType), (py "id", .str e.targetId)]),
    (py "outcome", .str e.outcome)]

/-- The texts of an event. -/
def AuditEvent.texts (e : AuditEvent) : List PyStr :=
  e.actorId.toList ++ [e.action, e.targetType, e.targetId, e.outcome]

/-- Every text of the event has a UTF-8 encoding. -/
def AuditEvent.Encodable (e : AuditEvent) : Prop := ∀ s ∈ e.texts, (encodeUtf8 s).isSome

instance (e : AuditEvent) : Decidable e.Encodable :=
  inferInstanceAs (Decidable (∀ s ∈ e.texts, (encodeUtf8 s).isSome))

/-- A call of `emit`: the event, and the time at which its payload is built. -/
structure LogRecord where
  event : AuditEvent
  time : ℤ
  deriving DecidableEq

/-- What is fixed in a deployment: the key, the place of the `info` call in the source, as `logging`
finds it, and the recursion limit of the interpreter, which leaves room for a record. -/
structure AuditEnv where
  key : List UInt8
  pathname : PyStr
  lineno : ℕ
  recursionLimit : ℕ
  pathname_scalar : IsScalar pathname
  lineno_lt : lineno < 2 ^ 31
  three_le_limit : 3 ≤ recursionLimit

/-! ### Records -/

/-- `datetime.now(timezone.utc).isoformat().replace('+00:00', 'Z')`. -/
def timestamp (t : ℤ) : PyStr := replace (isoformat t) (py "+00:00") (py "Z")

variable (E : AuditEnv)

/-- The payload of a log record. -/
def payload (r : LogRecord) : List (PyStr × Json) := [
  (py "timestamp", .str (timestamp r.time)),
  (py "level", .str (py "INFO")),
  (py "logger", .str (py "securevote.audit")),
  (py "message", .str (py "security_action")),
  (py "pathname", .str E.pathname),
  (py "lineno", .int E.lineno),
  (py "extra", r.event.extra)]

/-- A tag as JSON; there is none before the first record. -/
def tagJson : Option PyStr → Json
  | none => .null
  | some h => .str h

/-- The payload with the tag of the record before. -/
def linked (r : LogRecord) (last : Option PyStr) : List (PyStr × Json) :=
  dictSet (payload E r) (py "prev_hmac") (tagJson last)

/-- `hmac.new(key, canonical, sha256).hexdigest()` of the canonical text of a `dict`. -/
def auditTag (key : List UInt8) (kvs : List (PyStr × Json)) : PyStr :=
  bytesHex (Sha256.hmacNew key (asciiBytes (dumps (.obj kvs))))

/-- The record that `emit` writes. -/
def auditRecord (r : LogRecord) (last : Option PyStr) : List (PyStr × Json) :=
  dictSet (linked E r last) (py "hmac") (.str (auditTag E.key (linked E r last)))

/-- The line of a record: `json.dumps(payload, ensure_ascii=False) + '\n'`. -/
def auditLine (kvs : List (PyStr × Json)) : PyStr := (Json.obj kvs).write defaultStyle ++ [10]

/-! ### `HmacAuditHandler` -/

/-- The files of one log: the log, its state file, and whether its lock file is locked. -/
structure AuditFiles where
  log : Option (List UInt8)
  state : Option (List UInt8)
  locked : Bool
  deriving DecidableEq

/-- How far a call of `emit` has come. -/
inductive Stage
  | idle
  | waiting (r : LogRecord)
  | locked (r : LogRecord)
  | reread (r : LogRecord)
  | appended (h : PyStr)
  | truncated (h : PyStr)
  | stored (h : PyStr)
  deriving DecidableEq

/-- The call whose line has not been written yet. -/
def Stage.pending : Stage → Option LogRecord
  | .waiting r | .locked r | .reread r => some r
  | _ => none

/-- The handler holds the lock. -/
def Stage.critical : Stage → Bool
  | .idle | .waiting _ => false
  | _ => true

/-- The line is in the log, and its tag is not in the state file. -/
def Stage.unsaved : Stage → Bool
  | .appended _ | .truncated _ => true
  | _ => false

/-- A handler of the log, with its `last_hmac`. -/
structure AuditHandler where
  lastHmac : Option PyStr
  stage : Stage
  deriving DecidableEq

/-- Reading the state file: `f.read().strip() or None`, or what was known when there is no file or
it is no text. -/
def loadState (state : Option (List UInt8)) (last : Option PyStr) : Option PyStr :=
  match state.bind readText with
  | none => last
  | some s => if (strip s).isEmpty then none else some (strip s)

/-- `HmacAuditHandler.__init__`. -/
def AuditHandler.init (f : AuditFiles) : AuditHandler := ⟨loadState f.state none, .idle⟩

/-- The next step of the call of `emit` a handler is in; `none` while it cannot go on. -/
def AuditHandler.advance (h : AuditHandler) (f : AuditFiles) : Option (AuditHandler × AuditFiles) :=
  match h.stage with
  | .idle => none
  | .waiting r => if f.locked then none else some (⟨h.lastHmac, .locked r⟩, { f with locked := true })
  | .locked r => some (⟨loadState f.state h.lastHmac, .reread r⟩, f)
  | .reread r =>
    let kvs := auditRecord E r h.lastHmac
    -- the log is opened for appending before the line is encoded
    match encodeUtf8 (auditLine kvs) with
    | none => some (⟨h.lastHmac, .idle⟩, { f with log := some (f.log.getD []), locked := false })
    | some bs =>
      some (⟨h.lastHmac, .appended (auditTag E.key (linked E r h.lastHmac))⟩,
        { f with log := some (f.log.getD [] ++ bs) })
  | .appended tag => some (⟨some tag, .truncated tag⟩, { f with state := some [] })
  | .truncated tag => some (⟨h.lastHmac, .stored tag⟩, { f with state := some (asciiBytes tag) })
  | .stored tag => some (⟨some tag, .idle⟩, { f with locked := false })

/-! ### `verify_audit` -/

/-- The entries of the list that `verify_audit` returns. -/
inductive AuditError
  | invalidJson (line : ℕ)
  | prevMismatch (line : ℕ) (expected got : Json)
  | hmacMismatch (line : ℕ)
  | fileError

/-- The loop of `verify_audit` over the lines that are left, from line `i` on. What raises outside
of `json.loads` ends it: a value that is no `dict`, or one that is too deep to be written. -/
def verifyLines : ℕ → Json → List PyStr → List AuditError
  | _, _, [] => []
  | i, last, raw :: rest =>
    if (strip raw).isEmpty then verifyLines (i + 1) last rest
    else
      match loads E.recursionLimit (strip raw) with
      | .error _ => .invalidJson i :: verifyLines (i + 1) last rest
      | .ok (.obj kvs) =>
        let prev := getOrNone kvs (py "prev_hmac")
        let h := getOrNone kvs (py "hmac")
        let signed := dictPop kvs (py "hmac")
        (if pyEq prev last then [] else [.prevMismatch i last prev]) ++
          if (Json.obj signed).depth ≤ E.recursionLimit then
            (if pyEq (.str (auditTag E.key signed)) h then [] else [.hmacMismatch i]) ++
              verifyLines (i + 1) h rest
          else [.fileError]
      | .ok _ => [.fileError]

/-- `verify_audit`. The lines in front of an undecodable part are not looked at here: they may add
errors to this one, depending on the buffer of the file. -/
def verifyAudit (log : Option (List UInt8)) : Bool × List AuditError :=
  let errors :=
    match log.bind readText with
    | none => [.fileError]
    | some text => verifyLines E 1 .null (splitLines text)
  (errors.isEmpty, errors)

/-- The values of the lines of a log that are not blank; `none` when the log, or a line of it,
cannot be read. -/
def auditRecords (log : List UInt8) : Option (List Json) :=
  (readText log).bind fun text =>
    (((splitLines text).map strip).filter fun s => !s.isEmpty).mapM fun s =>
      (loads E.recursionLimit s).toOption

/-! ### Workers -/

/-- The files of a log, and the handlers that write it, in whatever process they live. -/
structure AuditSystem where
  files : AuditFiles
  handlers : List AuditHandler

/-- Before the first process has started: both files are absent. -/
def AuditSystem.init : AuditSystem := ⟨⟨none, none, false⟩, []⟩

/-- What happens to a handler: its process starts it or ends, `record_audit_event` calls `emit`, or
a call of `emit` goes on. -/
inductive AuditLabel
  | start
  | exit (abandoned : Option LogRecord)
  | call (r : LogRecord)
  | advance

/-- One step of one handler, at any place among the others. A process does not end between a line
and its tag in the state file; where it ends otherwise, the system takes its lock away. -/
inductive AuditStep : AuditSystem → AuditLabel → AuditSystem → Prop
  | start (f : AuditFiles) (a b : List AuditHandler) :
      AuditStep ⟨f, a ++ b⟩ .start ⟨f, a ++ .init f :: b⟩
  | exit (f : AuditFiles) (a b : List AuditHandler) (h : AuditHandler) :
      h.stage.unsaved = false →
      AuditStep ⟨f, a ++ h :: b⟩ (.exit h.stage.pending)
        ⟨{ f with locked := f.locked && !h.stage.critical }, a ++ b⟩
  | call (f : AuditFiles) (a b : List AuditHandler) (last : Option PyStr) (r : LogRecord) :
      AuditStep ⟨f, a ++ ⟨last, .idle⟩ :: b⟩ (.call r) ⟨f, a ++ ⟨last, .waiting r⟩ :: b⟩
  | advance (f f' : AuditFiles) (a b : List AuditHandler) (h h' : AuditHandler) :
      h.advance E f = some (h', f') →
      AuditStep ⟨f, a ++ h :: b⟩ .advance ⟨f', a ++ h' :: b⟩

/-- A run from the start, with what happened in it. -/
inductive AuditRun : List AuditLabel → AuditSystem → Prop
  | init : AuditRun [] .init
  | step {tr : List AuditLabel} {s s' : AuditSystem} {l : AuditLabel} :
      AuditRun tr s → AuditStep E s l s' → AuditRun (tr ++ [l]) s'

/-- The calls of `emit` in a run. -/
def calls (tr : List AuditLabel) : List LogRecord :=
  tr.filterMap fun
    | .call r => some r
    | _ => none

/-- The calls whose process ended before their line was written. -/
def abandoned (tr : List AuditLabel) : List LogRecord :=
  tr.filterMap fun
    | .exit r => r
    | _ => none

/-- The calls whose line has not been written yet. -/
def AuditSystem.inFlight (s : AuditSystem) : List LogRecord := s.handlers.filterMap (·.stage.pending)

/-! ### State files that fail -/

/-- A write of the state file that fails: it cannot be opened, or it is left empty. -/
inductive WriteFault
  | kept
  | emptied
  deriving DecidableEq

/-- What fails in one call of `emit` without being reported. -/
structure Fault where
  read : Bool
  write : Option WriteFault
  deriving DecidableEq

/-- Reading the state file, or failing to: an exception leaves what was known. -/
def loadOrKeep (failed : Bool) (state : Option (List UInt8)) (last : Option PyStr) : Option PyStr :=
  if failed then last else loadState state last

/-- Writing a tag to the state file, or failing to. -/
def writeState (fault : Option WriteFault) (tag : PyStr) (state : Option (List UInt8)) :
    Option (List UInt8) :=
  match fault with
  | none => some (asciiBytes tag)
  | some .kept => state
  | some .emptied => some []

/-- `emit` by a handler that no other one meets, with the failures it tolerates. -/
def emitWith (fault : Fault) (r : LogRecord) (last : Option PyStr) (f : AuditFiles) :
    Option PyStr × AuditFiles :=
  let head := loadOrKeep fault.read f.state last
  match encodeUtf8 (auditLine (auditRecord E r head)) with
  | none => (head, { f with log := some (f.log.getD []) })
  | some bs =>
    let tag := auditTag E.key (linked E r head)
    (some tag, { f with
      log := some (f.log.getD [] ++ bs), state := writeState fault.write tag f.state })

/-- The files of a log, and the `last_hmac` of the handlers that write it. -/
structure FaultySystem where
  files : AuditFiles
  handlers : List (Option PyStr)

/-- Before the first handler has started. -/
def FaultySystem.init : FaultySystem := ⟨⟨none, none, false⟩, []⟩

/-- A handler starts, or handler `i` records an event. -/
inductive FaultyEvent
  | start (readFailed : Bool)
  | emit (i : ℕ) (r : LogRecord) (fault : Fault)

/-- Calls of any handlers, one after the other, with any failures. -/
inductive FaultyRun : List FaultyEvent → FaultySystem → Prop
  | init : FaultyRun [] .init
  | start {tr : List FaultyEvent} {s : FaultySystem} (failed : Bool) :
      FaultyRun tr s → FaultyRun (tr ++ [.start failed])
        { s with handlers := s.handlers ++ [loadOrKeep failed s.files.state none] }
  | emit {tr : List FaultyEvent} {s : FaultySystem} {i : ℕ} {last : Option PyStr} (r : LogRecord)
      (fault : Fault) : FaultyRun tr s → s.handlers[i]? = some last →
      FaultyRun (tr ++ [.emit i r fault])
        ⟨(emitWith E fault r last s.files).2, s.handlers.set i (emitWith E fault r last s.files).1⟩

/-! ### `view_audit_log` -/

/-- The chain status on the audit page, which checks the chain when `AUDIT_HMAC_KEY` is configured. -/
def viewAuditLog (configured : Bool) (log : Option (List UInt8)) : Bool × Option (List AuditError) :=
  if configured then ((verifyAudit E log).1, some (verifyAudit E log).2) else (false, none)

end SecureVote
