import SecureVote.Runs
import SecureVote.Txn.Logged

/-!
# The audit events of the handlers

What the audited operations leave in their logs: the committed writes and the audit events, in
order. `auditWp` is the weakest precondition of a handler with a trail as its log, and a condition
on the row that the handler reads again after its commit, which is asked for when `K` holds. Each
audited handler is verified against it.
-/

open Txn Txn.Rules

namespace SecureVote

open Py

variable {L : Lib} {E : Environment} {r : Request} {wk : ℕ}

/-! ### What an audited operation must leave -/

/-- The event is a committed write or an audit event. -/
def isMark : Ev Db Event Response → Bool
  | .write _ _ | .emit (.audit _ _ _ _) => true
  | _ => false

/-- The committed writes and the audit events of a log, in order. -/
def marks (log : List (Ev Db Event Response)) : List (Ev Db Event Response) := log.filter isMark

/-- The action and the kind of target that an audited operation records. -/
def Request.audited : Request → Option (String × String)
  | .approveUser _ _ => some ("user.approve", "user")
  | .rejectUser _ _ => some ("user.reject", "user")
  | .createElection _ _ => some ("election.create", "election")
  | .openElection _ _ => some ("election.open", "election")
  | .closeElection _ _ => some ("election.close", "election")
  | .createCandidate _ _ => some ("candidate.create", "candidate")
  | .updateCandidate _ _ _ => some ("candidate.update", "candidate")
  | .deleteCandidate _ _ => some ("candidate.delete", "candidate")
  | .requestBlindToken _ _ => some ("ballot_authorization.issue", "election")
  | .castAnonymousBallot _ => some ("ballot.cast", "election")
  | .signElectionResults _ _ _ => some ("result.sign", "election_result")
  | _ => none

/-- What a commit of the request is about: the row it adds, the election of the ballot right,
ballot or result it adds, or the row the request names. -/
def Request.targets (r : Request) (d d' : Db) : List ℕ :=
  match r with
  | .createElection _ _ => (added Tables.elections d d').map Election.id
  | .createCandidate _ _ => (added Tables.candidates d d').map Candidate.id
  | .requestBlindToken _ _ => (added Tables.tokens d d').map BlindSignatureToken.electionId
  | .castAnonymousBallot _ => (added Tables.votes d d').map Vote.electionId
  | .signElectionResults _ _ _ => (added Tables.results d d').map SignedElectionResult.electionId
  | .openElection _ i | .closeElection _ i | .updateCandidate _ i _ | .deleteCandidate _ i
  | .approveUser _ i | .rejectUser _ i => [i]
  | _ => []

/-- The request creates or edits a candidate. -/
def Request.editsCandidate : Request → Bool
  | .createCandidate _ _ | .updateCandidate _ _ _ => true
  | _ => false

/-- The marks of an audited operation at any time: nothing, one mutation, or one mutation and then
one event with the action and the target of the operation. -/
inductive Trail (r : Request) (action targetType : String) : List (Ev Db Event Response) → Prop
  | nothing : Trail r action targetType []
  | committed {d d' : Db} : Trail r action targetType [.write d d']
  | recorded {d d' : Db} {actor : Option ℕ} {target : ℕ} (h : r.targets d d' = [target]) :
      Trail r action targetType [.write d d', .emit (.audit actor action targetType target)]

/-- The log of an audited operation is a trail. -/
def Trailed (r : Request) (log : List (Ev Db Event Response)) : Prop :=
  ∀ action targetType, r.audited = some (action, targetType) → Trail r action targetType (marks log)

/-- The log of an audited operation tells what it has committed: it has neither a mutation nor an
event, or one mutation and then one event with the action and the target of the operation. -/
def Audited (r : Request) (log : List (Ev Db Event Response)) : Prop :=
  ∀ action targetType, r.audited = some (action, targetType) → marks log = [] ∨
    ∃ d d' actor target, marks log = [.write d d', .emit (.audit actor action targetType target)] ∧
      r.targets d d' = [target]

/-- When a request that has created or edited a candidate reads again after its commit, for its
event, the candidate is still there. -/
def CandidateStays (L : Lib) (E : Environment) : Condition (machine L E) := fun r l log d =>
  r.editsCandidate = true → (∀ b, l.snap b = none) → ∀ d₁ d₂, (d₁, d₂) ∈ writes log →
    ∀ id ∈ r.targets d₁ d₂, (d.candidates.get? id).isSome

/-! ### Marks -/

@[simp]
theorem marks_append (log log' : List (Ev Db Event Response)) :
    marks (log ++ log') = marks log ++ marks log' :=
  List.filter_append _ _

@[simp]
theorem marks_write (d d' : Db) : marks [.write d d'] = [.write d d'] := rfl

@[simp]
theorem marks_audit (actor : Option ℕ) (action targetType : String) (target : ℕ) :
    marks [.emit (.audit actor action targetType target)] =
      [.emit (.audit actor action targetType target)] := rfl

@[simp]
theorem marks_reply (a : Response) : marks [.reply a] = [] := rfl

/-- The event is no audit event. -/
def Event.unmarked : Event → Prop
  | .audit _ _ _ _ => False
  | _ => True

theorem marks_emit {o : Event} (h : o.unmarked) : marks [.emit o] = [] := by
  cases o with
  | audit actor action targetType target => exact h.elim
  | login u token => rfl
  | issue token => rfl

theorem marks_emits {os : List Event} (h : ∀ o ∈ os, o.unmarked) :
    marks (os.map Ev.emit) = [] := by
  rw [marks, List.filter_eq_nil_iff]
  intro e he
  obtain ⟨o, ho, rfl⟩ := List.mem_map.mp he
  cases o with
  | audit actor action targetType target => exact (h _ ho).elim
  | login u token => simp [isMark]
  | issue token => simp [isMark]

theorem trailed_nil : Trailed r [] := fun _ _ _ => .nothing

theorem Trailed.reply {log : List (Ev Db Event Response)} (h : Trailed r log) (a : Response) :
    Trailed r (log ++ [.reply a]) := fun action targetType hr => by
  simpa using h action targetType hr

theorem Trailed.emit {log : List (Ev Db Event Response)} {o : Event} (h : Trailed r log)
    (ho : o.unmarked) : Trailed r (log ++ [.emit o]) := fun action targetType hr => by
  rw [marks_append, marks_emit ho, List.append_nil]
  exact h action targetType hr

/-! ### Before and after the commit -/

variable {K : Prop} {c : Conf L E}

/-- The condition on the steps, when `K` asks for it. -/
def CandidateStaysIf (K : Prop) (L : Lib) (E : Environment) : Condition (machine L E) :=
  fun r l log d => K → CandidateStays L E r l log d

/-- The weakest precondition of a handler under the condition, with a trail as its log. -/
abbrev auditWp (K : Prop) (L : Lib) (E : Environment) (r : Request) (wk : ℕ) {β : Type}
    (p : Handler β) (P : β → Conf L E → Prop) (c : Conf L E) : Prop :=
  (rules L E).lwp (CandidateStaysIf K L E) Trailed r wk p P c

/-- What an answered request leaves: a log that tells what it has committed, unless the candidate
it has created or edited is gone when it reads it again. -/
def Told (K : Prop) (r : Request) (a : Response) (log : List (Ev Db Event Response)) : Prop :=
  Audited r log ∨ (¬K ∧ a = .objectDeleted ∧ r.editsCandidate = true)

/-- The rows of these users and elections, which are never deleted. -/
structure Present (users elections : List ℕ) (d : Db) : Prop where
  users : ∀ i ∈ users, (d.users.get? i).isSome
  elections : ∀ i ∈ elections, (d.elections.get? i).isSome

theorem user_isSome_of_evolves {d d' : Db} (h : Evolves d d') {i : ℕ}
    (hu : (d.users.get? i).isSome) : (d'.users.get? i).isSome := by
  obtain ⟨u, hu⟩ := Option.isSome_iff_exists.mp hu
  obtain ⟨u', hu', -⟩ := h.users hu
  rw [hu']
  rfl

theorem Present.evolves {us es : List ℕ} {d d' : Db} (h : Present us es d) (hev : Evolves d d') :
    Present us es d' := by
  refine ⟨fun i hi => user_isSome_of_evolves hev (h.users i hi), fun i hi => ?_⟩
  obtain ⟨e, he⟩ := Option.isSome_iff_exists.mp (h.elections i hi)
  exact election_isSome_of_evolves hev he

/-- The request has neither committed nor recorded anything, and the rows it has come across are
there. -/
structure Before (us es : List ℕ) (c : Conf L E) : Prop where
  marks : marks c.log = []
  present : Present us es c.db

/-- The request has just committed. -/
structure Wrote (us es : List ℕ) (d d' : Db) (c : Conf L E) : Prop where
  loc : c.loc = .fresh
  db : c.db = d'
  marks : marks c.log = [.write d d']
  present : Present us es d'

variable {us es : List ℕ}

theorem Before.trailed (h : Before us es c) : Trailed r c.log := by
  intro action targetType _
  rw [h.marks]
  exact .nothing

/-- An answer without a commit. -/
theorem Before.told (h : Before us es c) (a : Response) : Told K r a c.log :=
  Or.inl fun _ _ _ => Or.inl h.marks

theorem Before.rollback (h : Before us es c) (a : Response) :
    auditWp K L E r wk (do Prog.abort; pure a : Handler Response)
      (fun a c' => Told K r a c'.log) c :=
  fun _ _ _ => Or.inl fun _ _ _ => Or.inl h.marks

theorem Before.after {c' : Conf L E} (h : Before us es c)
    (ha : (rules L E).After Event.unmarked c c') : Before us es c' := by
  obtain ⟨os, hlog, hos⟩ := ha.log
  refine ⟨by rw [hlog, marks_append, h.marks, marks_emits hos]; rfl, ?_⟩
  exact h.present.evolves (Relies.evolves ha.rely)

theorem Before.user (h : Before us es c) {i : ℕ} (hi : (c.db.users.get? i).isSome) :
    Before (i :: us) es c := by
  refine ⟨h.marks, fun j hj => ?_, h.present.elections⟩
  rcases List.mem_cons.mp hj with rfl | hj
  · exact hi
  · exact h.present.users j hj

theorem Before.election (h : Before us es c) {i : ℕ} (hi : (c.db.elections.get? i).isSome) :
    Before us (i :: es) c := by
  refine ⟨h.marks, h.present.users, fun j hj => ?_⟩
  rcases List.mem_cons.mp hj with rfl | hj
  · exact hi
  · exact h.present.elections j hj

/-- A step before the commit, through its specification. -/
theorem auditWp_bind {β γ : Type} {p : Handler β} {f : β → Handler γ}
    {S : β → Conf L E → Prop} {P : γ → Conf L E → Prop} (hb : Before us es c)
    (hp : p.Reports Event.unmarked) (hs : (rules L E).wp r wk p S c)
    (hf : ∀ b c', S b c' → Before us es c' → auditWp K L E r wk (f b) P c') :
    auditWp K L E r wk (p >>= f) P c := by
  refine lwp_bind.mpr (lwp_mono (lwp_of_wp hp (fun _ _ => Trailed.emit) hb.trailed hs) ?_)
  rintro b c' ⟨hS, hafter, -⟩
  exact hf b c' hS (hb.after hafter)

/-- A silent step before the commit. -/
theorem auditWp_silent {β γ : Type} {p : Handler β} {f : β → Handler γ}
    {P : γ → Conf L E → Prop} (hb : Before us es c) (hp : p.Silent)
    (hf : ∀ b c', Before us es c' → auditWp K L E r wk (f b) P c') :
    auditWp K L E r wk (p >>= f) P c :=
  auditWp_bind hb hp.reports (wp_of_silent hp) fun b c' _ => hf b c'

/-- A commit: refused, or written. -/
theorem auditWp_write {β γ : Type} {g : Db → Option (β × Db)}
    {f : Option β → Handler γ} {P : γ → Conf L E → Prop} (hb : Before us es c)
    (hnone : ∀ c', Before us es c' → auditWp K L E r wk (f none) P c')
    (hsome : ∀ c' b d d', g d = some (b, d') → Wrote us es d d' c' →
      auditWp K L E r wk (f (some b)) P c') :
    auditWp K L E r wk (Prog.write g >>= f) P c := by
  refine lwp_bind.mpr (lwp_write.mpr fun d w hl => ?_)
  have hd : Before us es (⟨c.loc, d, w, c.log⟩ : Conf L E) := hb.after (After.of_later hl)
  refine ⟨fun _ => hnone _ hd, fun b d' hg hact => ?_⟩
  have hmarks : marks (c.log ++ [.write d d']) = [.write d d'] := by
    rw [marks_append, hb.marks]
    rfl
  refine ⟨fun action targetType _ => ?_, hsome _ b d d' hg ⟨rfl, rfl, hmarks, ?_⟩⟩
  · rw [hmarks]
    exact .committed
  · exact hd.present.evolves (Act.evolves hact)

theorem auditWp_save {γ : Type} {g : Tables → Tables}
    {f : Option Unit → Handler γ} {P : γ → Conf L E → Prop} (hb : Before us es c)
    (hnone : ∀ c', Before us es c' → auditWp K L E r wk (f none) P c')
    (hsome : ∀ c' d d', d'.toTables = g d.toTables → Wrote us es d d' c' →
      auditWp K L E r wk (f (some ())) P c') :
    auditWp K L E r wk (save g >>= f) P c := by
  refine auditWp_write hb hnone fun c' _ d d' hg hw => ?_
  obtain ⟨d₁, hd₁, heq⟩ := Option.map_eq_some_iff.mp hg
  cases heq
  exact hsome c' d d' (Db.commit_eq_some.mp hd₁) hw

theorem auditWp_insertRow {γ : Type} {next : Tables → ℕ} {g : Tables → Tables}
    {f : Option ℕ → Handler γ} {P : γ → Conf L E → Prop} (hb : Before us es c)
    (hnone : ∀ c', Before us es c' → auditWp K L E r wk (f none) P c')
    (hsome : ∀ c' d d', d'.toTables = g d.toTables → Wrote us es d d' c' →
      auditWp K L E r wk (f (some (next d.toTables))) P c') :
    auditWp K L E r wk (insertRow next g >>= f) P c := by
  refine auditWp_write hb hnone fun c' _ d d' hg hw => ?_
  obtain ⟨d₁, hd₁, heq⟩ := Option.map_eq_some_iff.mp hg
  cases heq
  exact hsome c' d d' (Db.commit_eq_some.mp hd₁) hw

/-- The target row is there when the request reads it again. -/
def Found (K : Prop) {α : Type} [Keyed α] (r : Request) (t : Tables → Table α) (target : ℕ)
    (d d' : Db) : Prop :=
  ∀ d₁, Evolves d' d₁ → (K → r.editsCandidate = true → ∀ id ∈ r.targets d d',
      (d₁.candidates.get? id).isSome) →
    ((t d₁.toTables).get? target).isSome ∨ (¬K ∧ r.editsCandidate = true)

/-- The event that a request records after its commit. -/
theorem auditWp_record {actor : Option ℕ} {action targetType : String} {target : ℕ} {a : Response}
    {d d' : Db} (hr : r.audited = some (action, targetType)) (hm : marks c.log = [.write d d'])
    (ht : r.targets d d' = [target]) :
    auditWp K L E r wk (do Prog.report (.audit actor action targetType target); pure a)
      (fun a c' => Told K r a c'.log) c := by
  have hmarks : marks (c.log ++ [.emit (.audit actor action targetType target)]) =
      [.write d d', .emit (.audit actor action targetType target)] := by
    rw [marks_append, hm]
    rfl
  refine ⟨fun action' targetType' hr' => ?_, Or.inl fun action' targetType' hr' => ?_⟩
  · cases hr.symm.trans hr'
    rw [hmarks]
    exact .recorded ht
  · cases hr.symm.trans hr'
    exact Or.inr ⟨d, d', actor, target, hmarks, ht⟩

/-- The first read after the commit opens a transaction, on the committed state. -/
theorem auditWp_reread {β γ : Type} {b : Bind} {q : Db → β} {f : β → Handler γ}
    {P : γ → Conf L E → Prop} {d d' : Db} (hw : Wrote us es d d' c)
    (hf : ∀ c₁, Evolves d' c₁.db → marks c₁.log = [.write d d'] →
      (K → r.editsCandidate = true → ∀ id ∈ r.targets d d', (c₁.db.candidates.get? id).isSome) →
      c₁.loc.snap b = some c₁.db → auditWp K L E r wk (f (q c₁.db)) P c₁) :
    auditWp K L E r wk (Prog.select b q >>= f) P c := by
  refine lwp_bind.mpr (lwp_select.mpr fun d₁ w₁ hl₁ hC => ?_)
  have hview : c.loc.view b d₁ = d₁ := by rw [hw.loc]; rfl
  have hsnap : ∀ b, c.loc.snap b = none := fun b => by rw [hw.loc]; rfl
  have hwritten : (d, d') ∈ writes c.log := by
    have hmem : Ev.write d d' ∈ marks c.log := by rw [hw.marks]; exact List.mem_singleton_self _
    exact mem_writes.mpr (List.mem_of_mem_filter hmem)
  rw [hview]
  refine hf ⟨c.loc.look b d₁, d₁, w₁, c.log⟩ (hw.db ▸ Relies.evolves hl₁.1) hw.marks
    (fun hK he id hid => hC hK he hsnap d d' hwritten id hid) ?_
  rw [Local.snap_look_self, hview]

/-- The acting user is still there after the commit. -/
theorem auditWp_readActor {γ : Type} {b : Bind} {actor : ℕ} {f : Option User → Handler γ}
    {P : γ → Conf L E → Prop} {d d' : Db} (hw : Wrote us es d d' c) (hactor : actor ∈ us)
    (hf : ∀ u c₁, Evolves d' c₁.db → marks c₁.log = [.write d d'] →
      (K → r.editsCandidate = true → ∀ id ∈ r.targets d d', (c₁.db.candidates.get? id).isSome) →
      c₁.loc.snap b = some c₁.db → auditWp K L E r wk (f (some u)) P c₁) :
    auditWp K L E r wk (refresh b Tables.users actor >>= f) P c := by
  refine auditWp_reread hw fun c₁ hev hmarks hstays hsnap => ?_
  obtain ⟨u, hu⟩ := Option.isSome_iff_exists.mp
    (user_isSome_of_evolves hev (hw.present.users actor hactor))
  rw [hu]
  exact hf u c₁ hev hmarks hstays hsnap

/-- The audit step after a commit. -/
theorem auditWp_auditRow {α : Type} [Keyed α] {b : Bind} {actor : ℕ} {action targetType : String}
    {t : Tables → Table α} {target : ℕ} {a : Response} {d d' : Db}
    (hr : r.audited = some (action, targetType)) (hw : Wrote us es d d' c)
    (hactor : actor ∈ us) (ht : r.targets d d' = [target]) (hfound : Found K r t target d d') :
    auditWp K L E r wk (auditRow b actor action targetType t target a)
      (fun a c' => Told K r a c'.log) c := by
  unfold auditRow
  refine auditWp_readActor hw hactor fun u c₁ hev hmarks hstays hsnap => ?_
  refine lwp_bind.mpr (lwp_select.mpr fun d₂ w₂ hl₂ _ => ?_)
  -- the second read sees the snapshot of the first
  have hview : c₁.loc.view b d₂ = c₁.db := by rw [Local.view, hsnap]; rfl
  rw [hview]
  have hcase := hfound c₁.db hev hstays
  rcases hrow : (t c₁.db.toTables).get? target with _ | x
  · rw [hrow] at hcase
    rcases hcase with h | ⟨hK, he⟩
    · cases h
    · exact Or.inr ⟨hK, rfl, he⟩
  · exact auditWp_record (c := ⟨c₁.loc.look b d₂, d₂, w₂, c₁.log⟩) hr hmarks ht

/-! ### The identity hook -/

theorem reports_acceptUser (token : PyStr) (p : Payload) (changing : Bool) (u : User)
    (role : Option PyStr) : (acceptUser L token p changing u role).Reports Event.unmarked := by
  have hrefresh : (refreshToken L p u).Reports Event.unmarked := by
    unfold refreshToken
    refine Prog.reports_bind (fun _ => trivial) fun now => ?_
    dsimp only
    split
    · refine Prog.reports_bind (silent_isPasswordExpired u).reports fun expired => ?_
      split
      · trivial
      · exact Prog.reports_bind (fun _ => trivial) fun now => ⟨trivial, trivial⟩
    · trivial
  unfold acceptUser
  refine Prog.reports_bind (silent_isPasswordExpired u).reports fun expired => ?_
  refine Prog.reports_bind ⟨trivial, trivial⟩ fun _ => ?_
  split
  · trivial
  · exact Prog.reports_bind hrefresh fun _ => trivial

/-- The identity hook leaves no audit event. -/
theorem reports_loadUserFromJwt (cookie : Option PyStr) (changing : Bool) :
    (loadUserFromJwt L cookie changing).Reports Event.unmarked := by
  unfold loadUserFromJwt
  split
  · trivial
  · trivial
  refine Prog.reports_bind (fun _ => trivial) fun now => ?_
  split
  · trivial
  split
  · trivial
  refine Prog.reports_bind (fun _ => trivial) ?_
  rintro (_ | ⟨u, role⟩)
  · trivial
  · show (if _ then _ else _ : Handler _).Reports _
    split
    · trivial
    · exact reports_acceptUser _ _ _ _ _

theorem before_fresh (hlog : c.log = []) : Before [] [] c :=
  ⟨by rw [hlog]; rfl, by simp, by simp⟩

theorem auditWp_loginRequired {changing : Bool} {k : CurrentUser → Handler Response}
    (hloc : c.loc = .fresh) (hlog : c.log = [])
    (hk : ∀ cu c', Loaded r c' cu → c'.loc.snap .admin = none → Before [cu.user.id] [] c' →
      auditWp K L E r wk (k cu) (fun a c'' => Told K r a c''.log) c') :
    auditWp K L E r wk (loginRequired L r.cookie changing k)
      (fun a c' => Told K r a c'.log) c := by
  unfold loginRequired
  refine auditWp_bind (before_fresh hlog) (reports_loadUserFromJwt _ _)
    (spec_loadUserFromJwt (by rw [hloc]; rfl) changing) ?_
  rintro (a | _ | cu) c₁ ⟨-, hadmin, -, hres⟩ hb
  · exact hb.told a
  · exact hb.told _
  · exact hk cu c₁ hres (by rw [hadmin, hloc]; rfl) (hb.user (Loaded.exists_user hres (.refl _)))

theorem auditWp_rolesRequired {allowed : List String} {k : CurrentUser → Handler Response}
    (hloc : c.loc = .fresh) (hlog : c.log = [])
    (hk : ∀ cu c', Before [cu.user.id] [] c' →
      auditWp K L E r wk (k cu) (fun a c'' => Told K r a c''.log) c') :
    auditWp K L E r wk (rolesRequired L allowed r.cookie k)
      (fun a c' => Told K r a c'.log) c := by
  refine auditWp_loginRequired hloc hlog fun cu c' _ _ hb => ?_
  split
  · exact hk cu c' hb
  · exact hb.told _

theorem auditWp_adminOnly {k : CurrentUser → Handler Response}
    (hloc : c.loc = .fresh) (hlog : c.log = [])
    (hk : ∀ cu c', Loaded r c' cu → c'.loc.snap .admin = none →
      hasRole cu.role "manager" = true → Before [cu.user.id] [] c' →
      auditWp K L E r wk (k cu) (fun a c'' => Told K r a c''.log) c') :
    auditWp K L E r wk (adminOnly L r.cookie k)
      (fun a c' => Told K r a c'.log) c := by
  refine auditWp_loginRequired hloc hlog fun cu c' hcu hadmin hb => ?_
  split
  next hrole => exact hk cu c' hcu hadmin hrole hb
  · exact hb.told _

/-! ### The rows that stay -/

theorem found_user {d d' : Db} {i : ℕ} (h : (d'.users.get? i).isSome) :
    Found K r Tables.users i d d' :=
  fun _ hev _ => Or.inl (user_isSome_of_evolves hev h)

theorem found_election {d d' : Db} {i : ℕ} (h : (d'.elections.get? i).isSome) :
    Found K r Tables.elections i d d' := by
  intro d₁ hev _
  obtain ⟨e, he⟩ := Option.isSome_iff_exists.mp h
  exact Or.inl (election_isSome_of_evolves hev he)

/-- A candidate may have been deleted, unless the condition is asked for. -/
theorem found_candidate {d d' : Db} {i : ℕ} (hr : r.editsCandidate = true)
    (ht : r.targets d d' = [i]) : Found K r Tables.candidates i d d' := by
  intro d₁ _ hstays
  by_cases hK : K
  · exact Or.inl (hstays hK hr i (by rw [ht]; exact List.mem_singleton_self _))
  · exact Or.inr ⟨hK, hr⟩

/-! ### Accounts -/

theorem silent_getUser (cu : CurrentUser) (userId : ℕ) : (getUser cu userId).Silent := by
  unfold getUser
  split
  · trivial
  · exact fun _ => trivial

/-- The user that a manager acts on exists. -/
theorem auditWp_getUser {γ : Type} {cu : CurrentUser} {userId : ℕ}
    {f : Option User → Handler γ} {P : γ → Conf L E → Prop} (hb : Before us es c)
    (hcu : Loaded r c cu) (hadmin : c.loc.snap .admin = none)
    (hrole : hasRole cu.role "manager" = true)
    (hnone : ∀ c', Before us es c' → auditWp K L E r wk (f none) P c')
    (hsome : ∀ u c', u.id = userId → Before (userId :: us) es c' →
      auditWp K L E r wk (f (some u)) P c') :
    auditWp K L E r wk (getUser cu userId >>= f) P c := by
  refine auditWp_bind hb (silent_getUser cu userId).reports (spec_getUser hcu hadmin hrole userId) ?_
  rintro (_ | u) c' ⟨-, hloaded⟩ hb'
  · exact hnone c' hb'
  · obtain ⟨d₀, -, hu, hev⟩ := hloaded u rfl
    exact hsome u c' (Table.key_of_get? hu) (hb'.user (user_isSome_of_evolves hev (by rw [hu]; rfl)))

theorem auditWp_approveUser {cookie : Option PyStr} {userId : ℕ} (hloc : c.loc = .fresh)
    (hlog : c.log = []) :
    auditWp K L E (.approveUser cookie userId) wk (approveUser L cookie userId)
      (fun a c' => Told K (.approveUser cookie userId) a c'.log) c := by
  unfold approveUser
  refine auditWp_adminOnly (r := .approveUser cookie userId) hloc hlog
    fun cu c₁ hcu hadmin hrole hb₁ => ?_
  refine auditWp_getUser hb₁ hcu hadmin hrole (fun c₂ hb₂ => hb₂.told _) fun u c₂ hid hb₂ => ?_
  dsimp only
  split
  · exact hb₂.told _
  refine auditWp_silent hb₂ (fun _ => trivial) fun enrolment c₃ hb₃ => ?_
  refine auditWp_save hb₃ (fun c₄ hb₄ => hb₄.told _) fun c₄ d d' _ hw => ?_
  rw [hid]
  exact auditWp_auditRow rfl hw (by simp) rfl (found_user (hw.present.users _ (by simp)))

theorem auditWp_rejectUser {cookie : Option PyStr} {userId : ℕ} (hloc : c.loc = .fresh)
    (hlog : c.log = []) :
    auditWp K L E (.rejectUser cookie userId) wk (rejectUser L cookie userId)
      (fun a c' => Told K (.rejectUser cookie userId) a c'.log) c := by
  unfold rejectUser
  refine auditWp_adminOnly (r := .rejectUser cookie userId) hloc hlog
    fun cu c₁ hcu hadmin hrole hb₁ => ?_
  refine auditWp_getUser hb₁ hcu hadmin hrole (fun c₂ hb₂ => hb₂.told _) fun u c₂ hid hb₂ => ?_
  refine auditWp_save hb₂ (fun c₃ hb₃ => hb₃.told _) fun c₃ d d' _ hw => ?_
  rw [hid]
  exact auditWp_auditRow rfl hw (by simp) rfl (found_user (hw.present.users _ (by simp)))

/-! ### Elections -/

/-- A locked election has the id that was asked for. -/
theorem auditWp_lockElection {γ : Type} {m : Mode} {id : ℤ} {f : Option Election → Handler γ}
    {P : γ → Conf L E → Prop} (hb : Before us es c)
    (hnone : ∀ c', Before us es c' → auditWp K L E r wk (f none) P c')
    (hsome : ∀ e c', (e.id : ℤ) = id → Before us (e.id :: es) c' →
      auditWp K L E r wk (f (some e)) P c') :
    auditWp K L E r wk (lockElection m id >>= f) P c := by
  refine auditWp_bind hb (Prog.Silent.reports fun _ => trivial) (spec_lockElection m id) ?_
  rintro (_ | e) c' ⟨-, -, helection⟩ hb'
  · exact hnone c' hb'
  · obtain ⟨hheld, hid⟩ := helection e rfl
    exact hsome e c' hid (hb'.election (by rw [hheld.row]; rfl))

theorem auditWp_createElection {cookie : Option PyStr} {form : ElectionForm}
    (hloc : c.loc = .fresh) (hlog : c.log = []) :
    auditWp K L E (.createElection cookie form) wk (createElection L cookie form)
      (fun a c' => Told K (.createElection cookie form) a c'.log) c := by
  unfold createElection
  refine auditWp_rolesRequired (r := .createElection cookie form) hloc hlog fun cu c₁ hb₁ => ?_
  dsimp only
  split
  · exact hb₁.told _
  rcases parseDate L form.openAt with _ | openAt
  · exact hb₁.told _
  rcases parseDate L form.closeAt with _ | closeAt
  · exact hb₁.told _
  dsimp only
  split
  · exact hb₁.told _
  refine auditWp_insertRow hb₁ (fun c₂ hb₂ => hb₂.told _) fun c₂ d d' hd hw => ?_
  have hrows : d'.elections = _ := (congrArg Tables.elections hd :)
  refine auditWp_auditRow rfl hw (by simp) ?_ (found_election ?_)
  · rw [Request.targets, added_of_append (t := Tables.elections)
      (a := ⟨d.elections.next, _, .draft, openAt, closeAt, none, false, some cu.user.id⟩)]
    · rfl
    · exact (congrArg Table.rows hrows :)
  · rw [hrows]
    exact Option.isSome_iff_exists.mpr ⟨_, Table.get?_insert_next⟩

theorem silent_openTime (e : Election) : e.openTime.Silent := by
  unfold Election.openTime
  split
  · trivial
  · exact fun _ => trivial

theorem auditWp_openElection {cookie : Option PyStr} {electionId : ℕ} (hloc : c.loc = .fresh)
    (hlog : c.log = []) :
    auditWp K L E (.openElection cookie electionId) wk (openElection L cookie electionId)
      (fun a c' => Told K (.openElection cookie electionId) a c'.log) c := by
  unfold openElection
  refine auditWp_rolesRequired (r := .openElection cookie electionId) hloc hlog fun cu c₁ hb₁ => ?_
  refine auditWp_bind hb₁ (Prog.Silent.reports fun _ => trivial) (spec_selectTable _ _) ?_
  rintro _ c₂ ⟨-, rfl, -, -⟩ hb₂
  generalize hfind : c₂.db.elections.rows.find? (fun e => decide (e.id = electionId)) = found
  rcases found with _ | e
  · exact hb₂.told _
  have hid : e.id = electionId := by simpa using List.find?_some hfind
  have hget : c₂.db.elections.get? e.id = some e := Table.get?_key (List.mem_of_find?_eq_some hfind)
  have hb₂ := hb₂.election (i := e.id) (by rw [hget]; rfl)
  show auditWp K L E _ wk (if _ then _ else _) _ c₂
  split
  · exact hb₂.told _
  split
  · exact hb₂.told _
  split
  · exact hb₂.told _
  refine auditWp_silent hb₂ (fun _ => trivial) fun count c₃ hb₃ => ?_
  split
  · exact hb₃.told _
  refine auditWp_silent hb₃ (fun _ => trivial) fun candidates c₄ hb₄ => ?_
  split
  · exact hb₄.told _
  refine auditWp_silent hb₄ (silent_ensureKey _ _ _) ?_
  rintro (err | components) c₅ hb₅
  · cases err with
    | blindSigningKeyError m => exact hb₅.rollback _
    | _ => exact hb₅.told _
  show auditWp K L E _ wk (finishOpen cu e components.keyId) _ c₅
  unfold finishOpen
  refine auditWp_silent hb₅ (silent_openTime e) fun openAt c₆ hb₆ => ?_
  split
  · exact hb₆.told _
  refine auditWp_save hb₆ (fun c₇ hb₇ => hb₇.told _) fun c₇ d d' _ hw => ?_
  refine auditWp_auditRow rfl hw (by simp) ?_ (found_election (hw.present.elections _ (by simp)))
  rw [hid]
  rfl

theorem auditWp_closeElection {cookie : Option PyStr} {electionId : ℕ} (hloc : c.loc = .fresh)
    (hlog : c.log = []) :
    auditWp K L E (.closeElection cookie electionId) wk (closeElection L cookie electionId)
      (fun a c' => Told K (.closeElection cookie electionId) a c'.log) c := by
  unfold closeElection
  refine auditWp_rolesRequired (r := .closeElection cookie electionId) hloc hlog fun cu c₁ hb₁ => ?_
  refine auditWp_lockElection hb₁ (fun c₂ hb₂ => hb₂.told _) fun e c₂ hid hb₂ => ?_
  dsimp only
  split
  · exact hb₂.told _
  refine auditWp_silent hb₂ (fun _ => trivial) fun closeAt c₃ hb₃ => ?_
  refine auditWp_save hb₃ (fun c₄ hb₄ => hb₄.told _) fun c₄ d d' _ hw => ?_
  refine auditWp_auditRow rfl hw (by simp) ?_ (found_election (hw.present.elections _ (by simp)))
  rw [Int.natCast_inj.mp hid]
  rfl

/-! ### Candidates -/

theorem silent_loadEnrolment (cu : CurrentUser) : (loadEnrolment cu).Silent := fun _ => trivial

theorem silent_loadRegion (cu : CurrentUser) (id : ℤ) : (loadRegion cu id).Silent :=
  fun _ => trivial

theorem auditWp_insertCandidate {cookie : Option PyStr} {form : CandidateForm} {cu : CurrentUser}
    {name position : PyStr} {party : Option PyStr} {regionId electionId : ℤ}
    (hr : r = .createCandidate cookie form) (hb : Before [cu.user.id] es c) :
    auditWp K L E r wk (insertCandidate cu name party position regionId electionId)
      (fun a c' => Told K r a c'.log) c := by
  subst hr
  unfold insertCandidate
  refine auditWp_silent hb (fun _ => trivial) fun locked c₁ hb₁ => ?_
  refine auditWp_silent hb₁ (silent_loadRegion cu regionId) fun region c₂ hb₂ => ?_
  generalize locked.filter (fun e => decide (e.status = .draft)) = draft
  rcases draft with _ | e
  · exact hb₂.told _
  rcases region with _ | region
  · exact hb₂.told _
  refine auditWp_silent hb₂ (silent_loadEnrolment cu) fun enrolment c₃ hb₃ => ?_
  split
  · exact hb₃.told _
  refine auditWp_insertRow hb₃ (fun c₄ hb₄ => hb₄.told _) fun c₄ d d' hd hw => ?_
  have htargets : (Request.createCandidate cookie form).targets d d' = [d.candidates.next] := by
    rw [Request.targets, added_of_append (t := Tables.candidates)
      (a := ⟨d.candidates.next, name, party, position, region.id, e.id⟩)]
    · rfl
    · exact (congrArg (·.candidates.rows) hd :)
  exact auditWp_auditRow rfl hw (by simp) htargets (found_candidate rfl htargets)

theorem auditWp_createCandidate {cookie : Option PyStr} {form : CandidateForm}
    (hloc : c.loc = .fresh) (hlog : c.log = []) :
    auditWp K L E (.createCandidate cookie form) wk (createCandidate L cookie form)
      (fun a c' => Told K (.createCandidate cookie form) a c'.log) c := by
  unfold createCandidate
  refine auditWp_rolesRequired (r := .createCandidate cookie form) hloc hlog fun cu c₁ hb₁ => ?_
  dsimp only
  split
  · exact hb₁.told _
  split
  · exact auditWp_insertCandidate rfl hb₁
  · exact hb₁.told _

/-- The candidate that is locked is the one that was asked for. -/
theorem auditWp_lockDraftCandidate {γ : Type} {cu : CurrentUser} {candidateId : ℕ}
    {foreign : String} {f : Except Response Candidate → Handler γ} {P : γ → Conf L E → Prop}
    (hb : Before us es c)
    (herror : ∀ a c', Before us es c' → auditWp K L E r wk (f (.error a)) P c')
    (hok : ∀ cand c', cand.id = candidateId → Before us es c' →
      auditWp K L E r wk (f (.ok cand)) P c') :
    auditWp K L E r wk (lockDraftCandidate cu candidateId foreign >>= f) P c := by
  unfold lockDraftCandidate
  refine lwp_bind.mpr (auditWp_bind hb (Prog.Silent.reports fun _ => trivial)
    (spec_selectLocking _ _ _) ?_)
  rintro _ c₁ ⟨-, rfl, -, -⟩ hb₁
  rcases hcand : c₁.db.candidates.get? candidateId with _ | cand
  · exact herror _ c₁ hb₁
  have hid : cand.id = candidateId := Table.key_of_get? hcand
  refine auditWp_silent hb₁ (fun _ => trivial) fun locked c₂ hb₂ => ?_
  generalize locked.filter (fun e => decide (e.status = .draft)) = draft
  rcases draft with _ | e
  · exact herror _ c₂ hb₂
  show auditWp K L E r wk (if _ then _ else _) _ c₂
  split
  · refine auditWp_silent hb₂ (silent_loadEnrolment cu) fun enrolment c₃ hb₃ => ?_
    split
    · exact hok cand c₃ hid hb₃
    · exact herror _ c₃ hb₃
  · exact hok cand c₂ hid hb₂

theorem silent_editRegion (cu : CurrentUser) (form : CandidateForm) (cand : Candidate) :
    (editRegion cu form cand).Silent := by
  unfold editRegion
  split
  · trivial
  split
  · trivial
  refine Prog.silent_bind (silent_loadEnrolment cu) fun enrolment => ?_
  split
  · trivial
  refine Prog.silent_bind (silent_loadRegion cu _) ?_
  rintro (_ | region) <;> trivial

theorem auditWp_updateCandidate {cookie : Option PyStr} {candidateId : ℕ} {form : CandidateForm}
    (hloc : c.loc = .fresh) (hlog : c.log = []) :
    auditWp K L E (.updateCandidate cookie candidateId form) wk
      (updateCandidate L cookie candidateId form)
      (fun a c' => Told K (.updateCandidate cookie candidateId form) a c'.log) c := by
  unfold updateCandidate
  refine auditWp_rolesRequired (r := .updateCandidate cookie candidateId form) hloc hlog
    fun cu c₁ hb₁ => ?_
  refine auditWp_lockDraftCandidate hb₁ (fun a c₂ hb₂ => hb₂.told a) fun cand c₂ hid hb₂ => ?_
  dsimp only
  rcases editText form cand with a | edited
  · exact hb₂.told a
  refine auditWp_silent hb₂ (silent_editRegion cu form edited) ?_
  rintro (a | edited') c₃ hb₃
  · exact hb₃.told a
  refine auditWp_save hb₃ (fun c₄ hb₄ => hb₄.told _) fun c₄ d d' _ hw => ?_
  rw [hid]
  exact auditWp_auditRow rfl hw (by simp) rfl (found_candidate rfl rfl)

theorem auditWp_deleteCandidate {cookie : Option PyStr} {candidateId : ℕ} (hloc : c.loc = .fresh)
    (hlog : c.log = []) :
    auditWp K L E (.deleteCandidate cookie candidateId) wk (deleteCandidate L cookie candidateId)
      (fun a c' => Told K (.deleteCandidate cookie candidateId) a c'.log) c := by
  unfold deleteCandidate
  refine auditWp_rolesRequired (r := .deleteCandidate cookie candidateId) hloc hlog
    fun cu c₁ hb₁ => ?_
  refine auditWp_lockDraftCandidate hb₁ (fun a c₂ hb₂ => hb₂.told a) fun cand c₂ hid hb₂ => ?_
  refine auditWp_save hb₂ (fun c₃ hb₃ => hb₃.told _) fun c₃ d d' _ hw => ?_
  refine auditWp_readActor hw (by simp) fun u c₄ _ hmarks _ _ => ?_
  rw [hid]
  exact auditWp_record rfl hmarks rfl

/-! ### Ballots -/

theorem silent_lockAndValidateVoter (userId : ℕ) : (lockAndValidateVoter userId).Silent := by
  unfold lockAndValidateVoter
  refine Prog.silent_bind (fun _ => trivial) ?_
  rintro (_ | u)
  · trivial
  refine Prog.silent_bind (fun _ => trivial) ?_
  rintro (_ | roll)
  · trivial
  · show (if _ then _ else _ : Handler _).Silent
    split <;> trivial

theorem silent_signBlinded (blinded : ℤ) (e : Election) : (signBlinded L blinded e).Silent := by
  unfold signBlinded
  refine Prog.silent_bind (silent_ensureKey _ _ _) ?_
  rintro (err | components)
  · trivial
  refine Prog.silent_bind (Prog.silent_bind (fun _ => trivial) ?_) ?_
  · rintro (err | k) <;> trivial
  · rintro (err | sig) <;> trivial

theorem auditWp_requestBlindToken {cookie : Option PyStr} {data : Option Json}
    (hloc : c.loc = .fresh) (hlog : c.log = []) :
    auditWp K L E (.requestBlindToken cookie data) wk (requestBlindToken L cookie data)
      (fun a c' => Told K (.requestBlindToken cookie data) a c'.log) c := by
  unfold requestBlindToken
  refine auditWp_loginRequired (r := .requestBlindToken cookie data) hloc hlog
    fun cu c₁ _ _ hb₁ => ?_
  rcases parseTokenRequest data with a | ⟨body, electionId⟩
  · exact hb₁.told a
  dsimp only
  unfold issueBlindToken
  refine auditWp_lockElection hb₁ (fun c₂ hb₂ => hb₂.told _) fun e c₂ _ hb₂ => ?_
  refine auditWp_silent hb₂ (silent_isOpen e) ?_
  rintro (_ | _) c₃ hb₃
  · exact hb₃.told _
  refine auditWp_bind hb₃ (silent_lockAndValidateVoter cu.user.id).reports
    (spec_lockAndValidateVoter cu.user.id) ?_
  rintro (err | ⟨u, roll⟩) c₄ ⟨-, -, hvoter⟩ hb₄
  · exact hb₄.rollback _
  obtain ⟨hid, -⟩ := hvoter u roll rfl
  refine auditWp_silent hb₄ (fun _ => trivial) fun candidates c₅ hb₅ => ?_
  split
  · exact hb₅.rollback _
  split
  · exact hb₅.rollback _
  rcases (getItem body (py "blinded_ballot")).toInt16 with err | blinded
  · exact hb₅.told _
  refine auditWp_silent hb₅ (fun _ => trivial) fun existingToken c₆ hb₆ => ?_
  refine auditWp_silent hb₆ (fun _ => trivial) fun existingReceipt c₇ hb₇ => ?_
  split
  · exact hb₇.told _
  split
  · exact hb₇.told _
  refine auditWp_silent hb₇ (silent_signBlinded blinded e) ?_
  rintro (a | sig) c₈ hb₈
  · exact hb₈.rollback _
  refine auditWp_save hb₈ (fun c₉ hb₉ => hb₉.rollback _) fun c₉ d d' hd hw => ?_
  refine auditWp_auditRow rfl hw (by simp [hid]) ?_
    (found_election (hw.present.elections _ (by simp)))
  rw [Request.targets, added_of_append (t := Tables.tokens)
    (a := ⟨d.tokens.next, u.id, e.id⟩)]
  · rfl
  · exact (congrArg (·.tokens.rows) hd :)

theorem auditWp_castAnonymousBallot {data : Option Json} (hlog : c.log = []) :
    auditWp K L E (.castAnonymousBallot data) wk (castAnonymousBallot L data)
      (fun a c' => Told K (.castAnonymousBallot data) a c'.log) c := by
  have hb := before_fresh hlog
  unfold castAnonymousBallot
  rcases parseBallot L data with a | ballot
  · exact hb.told a
  dsimp only
  unfold recordBallot
  refine auditWp_lockElection hb (fun c₂ hb₂ => hb₂.told _) fun e c₂ _ hb₂ => ?_
  refine auditWp_silent hb₂ (silent_isOpen e) ?_
  rintro (_ | _) c₃ hb₃
  · exact hb₃.told _
  refine auditWp_silent hb₃ (silent_verifyBallot ballot e) ?_
  rintro (err | _ | _) c₄ hb₄
  · cases err <;> exact hb₄.told _
  · exact hb₄.told _
  refine auditWp_silent hb₄ (fun _ => trivial) ?_
  rintro (_ | cand) c₅ hb₅
  · exact hb₅.told _
  refine auditWp_silent hb₅ (fun _ => trivial) fun electionCandidates c₆ hb₆ => ?_
  split
  · exact hb₆.rollback _
  refine auditWp_silent hb₆ (fun _ => trivial) fun spentAt c₇ hb₇ => ?_
  refine auditWp_silent hb₇ (fun _ => trivial) fun token c₈ hb₈ => ?_
  refine auditWp_silent hb₈ (fun _ => trivial) fun ts c₉ hb₉ => ?_
  refine auditWp_save hb₉ (fun c₁₀ hb₁₀ => hb₁₀.rollback _) fun c₁₀ d d' hd hw => ?_
  refine auditWp_reread hw fun c₁₁ hev hmarks _ _ => ?_
  obtain ⟨e₀, he₀⟩ := Option.isSome_iff_exists.mp (hw.present.elections e.id (by simp))
  obtain ⟨e', he'⟩ := Option.isSome_iff_exists.mp (election_isSome_of_evolves hev he₀)
  have hid : e'.id = e.id := Table.key_of_get? he'
  rw [he']
  refine auditWp_record rfl hmarks ?_
  rw [Request.targets, added_of_append (t := Tables.votes)
    (a := ⟨d.votes.next, token.text, cand.id, e.id, cand.position,
      voteHash L token e.id cand.id ts, ts⟩)]
  · rw [hid]
    rfl
  · exact (congrArg (·.votes.rows) hd :)

/-! ### Results -/

theorem silent_getVoteTallies (i : ℕ) : (getVoteTallies L i).Silent := by
  unfold getVoteTallies
  refine Prog.silent_bind (fun _ => trivial) fun (available : Bool) => ?_
  show (if _ then _ else _ : Handler _).Silent
  split
  · exact fun _ => trivial
  · trivial

theorem silent_archiveKey (cu : CurrentUser) (signed : SigningResult) :
    (archiveKey L cu signed).Silent := by
  unfold archiveKey
  split
  · trivial
  split
  · trivial
  refine Prog.silent_bind (fun _ => trivial) ?_
  rintro (_ | old)
  · trivial
  · show (if _ then _ else _ : Handler _).Silent
    split <;> trivial

theorem auditWp_signElectionResults {cookie : Option PyStr} {body : Option Json}
    {form : Option PyStr} (hloc : c.loc = .fresh) (hlog : c.log = []) :
    auditWp K L E (.signElectionResults cookie body form) wk
      (signElectionResults L cookie body form)
      (fun a c' => Told K (.signElectionResults cookie body form) a c'.log) c := by
  unfold signElectionResults
  refine auditWp_loginRequired (r := .signElectionResults cookie body form) hloc hlog
    fun cu c₁ _ _ hb₁ => ?_
  split
  · exact hb₁.told _
  rcases signElectionId body form with a | electionId
  · exact hb₁.told a
  refine auditWp_lockElection hb₁ (fun c₂ hb₂ => hb₂.told _) fun e c₂ _ hb₂ => ?_
  dsimp only
  split
  · exact hb₂.rollback _
  unfold signClosed
  refine auditWp_silent hb₂ (fun _ => trivial) fun existing c₃ hb₃ => ?_
  split
  · exact hb₃.rollback _
  refine auditWp_silent hb₃ (silent_getVoteTallies e.id) ?_
  rintro (_ | tallies) c₄ hb₄
  · exact hb₄.rollback _
  refine auditWp_silent hb₄ (fun _ => trivial) fun (signedAt : Time) c₅ hb₅ => ?_
  refine auditWp_silent hb₅ (fun _ => trivial) fun res c₆ hb₆ => ?_
  rcases (res : Option SigningResult) with _ | signed
  · exact hb₆.rollback _
  refine auditWp_silent hb₆ (silent_archiveKey cu signed) ?_
  rintro (a | key) c₇ hb₇
  · exact hb₇.told a
  refine auditWp_save hb₇ (fun c₈ hb₈ => hb₈.rollback _) fun c₈ d d' hd hw => ?_
  refine auditWp_auditRow rfl hw (by simp) ?_ (found_election (hw.present.elections _ (by simp)))
  rw [Request.targets, added_of_append (t := Tables.results)
    (a := ⟨d.results.next, e.id, _, signed.signature, signed.signerBackend,
      signed.signatureAlgorithm, signed.signingKeyId, signed.signingKeyVersion, signedAt,
      some cu.user.id⟩)]
  · rfl
  · exact (congrArg (·.results.rows) hd :)

/-! ### All requests -/

/-- Every handler leaves a trail, and answers with a log that tells what it has committed. -/
theorem auditWp_handle (r : Request) (hloc : c.loc = .fresh) (hlog : c.log = []) :
    auditWp K L E r wk (handle L r) (fun a c' => Told K r a c'.log) c := by
  have hother : r.audited = none →
      auditWp K L E r wk (handle L r) (fun a c' => Told K r a c'.log) c := fun hr =>
    lwp_of_forall (fun _ action targetType h => by rw [hr] at h; cases h)
      fun _ _ => Or.inl fun action targetType h => by rw [hr] at h; cases h
  cases r with
  | approveUser cookie userId => exact auditWp_approveUser hloc hlog
  | rejectUser cookie userId => exact auditWp_rejectUser hloc hlog
  | createElection cookie form => exact auditWp_createElection hloc hlog
  | openElection cookie electionId => exact auditWp_openElection hloc hlog
  | closeElection cookie electionId => exact auditWp_closeElection hloc hlog
  | createCandidate cookie form => exact auditWp_createCandidate hloc hlog
  | updateCandidate cookie candidateId form => exact auditWp_updateCandidate hloc hlog
  | deleteCandidate cookie candidateId => exact auditWp_deleteCandidate hloc hlog
  | requestBlindToken cookie data => exact auditWp_requestBlindToken hloc hlog
  | castAnonymousBallot data => exact auditWp_castAnonymousBallot hlog
  | signElectionResults cookie body form => exact auditWp_signElectionResults hloc hlog
  | _ => exact hother rfl

end SecureVote
