import SecureVote.Actions
import SecureVote.Txn.Transaction

/-!
# The rely–guarantee rules of the system

What a transaction may rely on while it holds its locks (`Relies`), what its commits guarantee
(`Act`), which events it may leave (`Emits`), and what its reply says about its writes (`Post`).
`rules` puts them together; every handler is verified against them once, and the claims about
runs are read off the certified commits.
-/

open Txn

namespace SecureVote

open Py

variable {L : Lib} {E : Environment}

/-- How others may move the committed state past the locks in `l`. -/
structure Relies (E : Environment) (l : Loc) (d : Db) (w : E.World) (d' : Db) (w' : E.World) :
    Prop where
  evolves : Evolves d d'
  held : ∀ h ∈ l.held, Store.val d' h.1 = Store.val d h.1
  roster : ∀ {i m}, (RowId.election i, m) ∈ l.held → d'.roster i = d.roster i
  votes : ∀ {i}, (RowId.election i, Mode.exclusive) ∈ l.held → d'.votesFor i = d.votesFor i
  tokens : ∀ {i}, (RowId.election i, Mode.exclusive) ∈ l.held → d'.tokensFor i = d.tokensFor i
  opened : TableName.elections ∈ l.scanned → ∀ {i e'}, d'.elections.get? i = some e' →
    e'.status = .open → ∃ e, d.elections.get? i = some e ∧ e.status = .open
  cached : ∀ {wk i k}, E.cached w wk i = some k → E.cached w' wk i = some k

theorem Relies.refl (l : Loc) (d : Db) (w : E.World) : Relies E l d w d w :=
  ⟨.refl d, fun _ _ => rfl, fun _ => rfl, fun _ => rfl, fun _ => rfl,
    fun _ {_ _} h h' => ⟨_, h, h'⟩, fun h => h⟩

theorem Relies.trans {l : Loc} {d d' d'' : Db} {w w' w'' : E.World} (h : Relies E l d w d' w')
    (h' : Relies E l d' w' d'' w'') : Relies E l d w d'' w'' where
  evolves := h.evolves.trans h'.evolves
  held x hx := (h'.held x hx).trans (h.held x hx)
  roster hi := (h'.roster hi).trans (h.roster hi)
  votes hi := (h'.votes hi).trans (h.votes hi)
  tokens hi := (h'.tokens hi).trans (h.tokens hi)
  opened hs {_ _} he hopen := by
    obtain ⟨e₁, he₁, hopen₁⟩ := h'.opened hs he hopen
    exact h.opened hs he₁ hopen₁
  cached hk := h'.cached (h.cached hk)

/-- The outside world may move as it likes, up to what it has cached. -/
theorem Relies.of_world {l : Loc} {d : Db} {w w' : E.World}
    (h : ∀ {wk i k}, E.cached w wk i = some k → E.cached w' wk i = some k) :
    Relies E l d w d w' :=
  ⟨.refl d, fun _ _ => rfl, fun _ => rfl, fun _ => rfl, fun _ => rfl,
    fun _ {_ _} h h' => ⟨_, h, h'⟩, h⟩

/-- A held election row is what it was. -/
theorem Relies.election {l : Loc} {d d' : Db} {w w' : E.World} (h : Relies E l d w d' w') {m : Mode}
    {e : Election} (he : Held l m d e) : Held l m d' e := by
  refine ⟨he.lock, ?_⟩
  have := h.held _ he.lock
  rw [val_election, val_election, he.row] at this
  simpa using this

/-- The events a request may leave: an audit event follows a committed write, a login event a
matching session token, and an issued token carries the version of a user row that was read. -/
def Emits (L : Lib) (r : Request) (l : Loc) (log : List (Ev Db Event Response)) : Event → Prop
  | .audit _ _ _ _ => writes log ≠ []
  | .login u token => r.cookie = some token ∧ ∃ p d₀ user, L.jwtClaims token = some p ∧
      p.sub.toInt = .ok (u : ℤ) ∧ l.snap .voters = some d₀ ∧ d₀.users.get? u = some user ∧
      p.matches user = true
  | .issue token => ∃ p b d₀ user, token = L.jwtEncode p ∧ l.snap b = some d₀ ∧
      d₀.users.get? user.id = some user ∧ p.sub = .str (natRepr 10 user.id) ∧
      p.ver = .int user.sessionVersion

/-- The response reports a failure. -/
def Response.failed : Response → Bool
  | .error _ _ | .abort _ | .unauthorized | .raised _ | .render _ _ | .uncaught _ => true
  | .redirect _ category _ => category ≠ "success" && category ≠ "message"
  | _ => false

/-- The response reports success. -/
def Response.reportsSuccess : Response → Bool
  | .redirect _ category _ => category = "success"
  | .blindSignature _ _ | .ballotRecorded | .resultSigned _ | .done => true
  | _ => false

/-- The management of the election life cycle. -/
def Request.managesElections : Request → Bool
  | .createElection _ _ | .openElection _ _ | .closeElection _ _ => true
  | _ => false

/-- A disclosed blind signature: the request has committed a token for the election, and the
signature was computed with a key pair that carries the anchor of the election. -/
def Disclosed (L : Lib) (r : Request) (ws : List (Db × Db)) (s : PyStr) (i : ℕ) : Prop :=
  ∃ cookie data body b k sig d d' u e, r = .requestBlindToken cookie data ∧
    parseTokenRequest data = .ok (body, (i : ℤ)) ∧
    (getItem body (py "blinded_ballot")).toInt16 = .ok b ∧
    blindSignWith k.privateKey.publicKey.n k.privateKey.d b = .ok sig ∧ s = hex sig ∧
    ws = [(d, d')] ∧ d.elections.get? i = some e ∧
    e.blindSigningKeyId = some (fingerprint L (KeyPair.publicKey k)) ∧
    d'.toTables = addToken (User.id u) i d.toTables

/-- What a reply says about the writes of its request. -/
structure Post (L : Lib) (r : Request) (a : Response) (ws : List (Db × Db)) : Prop where
  failed : a.failed = true → ws = []
  quiet : r.managesElections = true → a.reportsSuccess = false → ws = []
  disclosed : ∀ {s i}, a = .blindSignature s i → Disclosed L r ws s i

/-- The rules. -/
def rules (L : Lib) (E : Environment) : Rules (machine L E) where
  Inv _ _ := True
  Rely := Relies E
  Guar r l d _ d' := Act L r l d d'
  Emit := Emits L
  rely_refl := Relies.refl
  rely_trans _ := Relies.trans
  rely_mono hh hs h :=
    ⟨h.evolves, fun x hx => h.held x (hh hx), fun hi => h.roster (hh hi), fun hi => h.votes (hh hi),
      fun hi => h.tokens (hh hi), fun ht => h.opened (hs ht), h.cached⟩
  guar_inv _ _ := trivial
  guar_rely hc _ hact hval :=
    { evolves := hact.evolves
      held := hval
      roster := fun hi => hact.roster_eq fun hl => hc.not_mem hl hi
      votes := fun hi => hact.votesFor_eq fun _ hl => hc.symm.not_mem hi hl
      tokens := fun hi => hact.tokensFor_eq fun _ hl => hc.symm.not_mem hi hl
      opened := fun hs {_ _} he hopen => hact.open_of_open (fun hl => hc.2 _ hl hs) he hopen
      cached := fun h => h }
  answer_inv _ _ := trivial
  answer_rely _ _ h := Relies.of_world (E.answer_cached h)
  drift_inv _ _ := trivial
  drift_rely _ _ h := Relies.of_world (E.drift_cached h)

/-- The configurations of a request's thread. -/
abbrev Conf (L : Lib) (E : Environment) := Cfg (machine L E)

section Carry

variable {c c' : Conf L E}

/-- The database evolves along a transaction. -/
theorem evolves_of_ext (hx : (rules L E).Ext c c') : Evolves c.db c'.db :=
  Relies.evolves hx.rely

/-- A held election row is carried along a transaction. -/
theorem Held.carry {m : Mode} {e : Election} (h : Held c.loc m c.db e)
    (hx : (rules L E).Ext c c') : Held c'.loc m c'.db e :=
  let h' := Relies.election hx.rely h
  ⟨hx.held h'.lock, h'.row⟩

/-- What was read under a lock is carried along a transaction. -/
theorem Eligible.carry {u : User} {roll : ElectoralRoll} (h : Eligible c.db u roll)
    (hu : (RowId.user u.id, Mode.exclusive) ∈ c.loc.held)
    (hr : (RowId.roll roll.id, Mode.share) ∈ c.loc.held) (hx : (rules L E).Ext c c') :
    Eligible c'.db u roll := by
  have hrely : Relies E c.loc c.db c.world c'.db c'.world := hx.rely
  have hu' := hrely.held _ hu
  have hr' := hrely.held _ hr
  rw [val_user, val_user, h.user] at hu'
  have hroll : c.db.rolls.get? roll.id = some roll :=
    Table.get?_key (List.mem_of_find?_eq_some h.enrolment)
  rw [val_roll, val_roll, hroll] at hr'
  have hu'' : c'.db.users.get? u.id = some u := by simpa using hu'
  have hr'' : c'.db.rolls.get? roll.id = some roll := by simpa using hr'
  have huser : roll.userId = some u.id := by
    simpa using List.find?_some h.enrolment
  refine ⟨hu'', h.approved, h.emailVerified, ?_, ?_, h.active, h.verified⟩
  · rw [hrely.evolves.roleName h.user hu'']
    exact h.voter
  · exact c'.db.enrolment_eq_some (Table.mem_of_get? hr'') huser

end Carry

end SecureVote
