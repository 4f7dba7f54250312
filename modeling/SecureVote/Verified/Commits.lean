import SecureVote.Verified.AuditTrail
import SecureVote.Verified.Management

/-!
# What the commits of a request have in common

Rules for statements on every commit of a handler: steps that commit nothing are passed over, the
rest of a guard runs for some user, and a write is where the statement has to be shown. With them
`Addressed` is verified: a commit acts on the row that its request names.
-/

open Txn Txn.Rules

namespace SecureVote

open Py

variable {L : Lib} {E : Environment} {r : Request} {wk : ℕ} {c : Conf L E}

/-! ### Rules -/

/-- Every commit of the log is related by `K`. -/
def CommitsAre (K : Db → Db → Prop) (log : List (Ev Db Event Response)) : Prop :=
  ∀ d d', (d, d') ∈ writes log → K d d'

/-- The weakest precondition of a handler whose reads meet `C` and whose commits are related by
`K`. -/
abbrev commitsWp (C : Condition (machine L E)) (K : Request → Db → Db → Prop) (r : Request)
    (wk : ℕ) {β : Type} (p : Handler β) (P : β → Conf L E → Prop) (c : Conf L E) : Prop :=
  (rules L E).lwp C (fun r => CommitsAre (K r)) r wk p P c

variable {C : Condition (machine L E)} {K : Request → Db → Db → Prop}

theorem writes_emits (os : List Event) :
    writes (os.map Ev.emit : List (Ev Db Event Response)) = [] :=
  List.filterMap_eq_nil_iff.mpr fun e he => by
    obtain ⟨o, -, rfl⟩ := List.mem_map.mp he
    rfl

theorem CommitsAre.of_nil {K : Db → Db → Prop} {log : List (Ev Db Event Response)}
    (h : writes log = []) : CommitsAre K log := by
  intro d d' hmem
  rw [h] at hmem
  cases hmem

theorem CommitsAre.append {K : Db → Db → Prop} {log log' : List (Ev Db Event Response)}
    (h : CommitsAre K log) (h' : writes log' = []) : CommitsAre K (log ++ log') := by
  intro d d' hmem
  rw [writes_append, h', List.append_nil] at hmem
  exact h d d' hmem

/-- A program that commits nothing leaves the log without a commit. -/
theorem commitsWp_reports {β : Type} {p : Handler β} {φ : Event → Prop} (hc : writes c.log = [])
    (hp : p.Reports φ) :
    commitsWp C K r wk p (fun _ c' => writes c'.log = []) c := by
  refine lwp_mono (lwp_of_reports (J := fun r => CommitsAre (K r)) hp
    (fun _ _ h _ => h.append rfl) (.of_nil hc)) ?_
  rintro b c' ⟨hafter, -⟩
  obtain ⟨os, hlog, -⟩ := hafter.log
  rw [hlog, writes_append, hc, writes_emits]
  rfl

/-- A step that neither commits nor reports. -/
theorem commitsWp_bind {β γ : Type} {p : Handler β} {f : β → Handler γ} {P : γ → Conf L E → Prop}
    (hc : writes c.log = []) (hp : p.Silent)
    (hf : ∀ b c', writes c'.log = [] → commitsWp C K r wk (f b) P c') :
    commitsWp C K r wk (p >>= f) P c :=
  lwp_bind.mpr (lwp_mono (commitsWp_reports (φ := fun _ => False) hc hp.reports) hf)

/-- A plain read. -/
theorem commitsWp_select {β γ : Type} {b : Bind} {q : Db → β} {f : β → Handler γ}
    {P : γ → Conf L E → Prop} (hc : writes c.log = [])
    (hf : ∀ d c', C r c.loc c.log d → writes c'.log = [] →
      commitsWp C K r wk (f (q (c.loc.view b d))) P c') :
    commitsWp C K r wk (Prog.select b q >>= f) P c :=
  lwp_bind.mpr (lwp_select.mpr fun d _ _ hC => hf d _ hC hc)

/-- A locking read. -/
theorem commitsWp_selectLocking {β γ : Type} {m : Mode} {rows : Db → List RowId} {q : Db → β}
    {f : β → Handler γ} {P : γ → Conf L E → Prop} (hc : writes c.log = [])
    (hf : ∀ d c', writes c'.log = [] → commitsWp C K r wk (f (q d)) P c') :
    commitsWp C K r wk (Prog.selectLocking m rows q >>= f) P c :=
  lwp_bind.mpr fun d _ _ => hf d _ hc

/-- A scan of a table under lock. -/
theorem commitsWp_selectTable {β γ : Type} {t : TableName} {q : Db → β} {f : β → Handler γ}
    {P : γ → Conf L E → Prop} (hc : writes c.log = [])
    (hf : ∀ d c', writes c'.log = [] → commitsWp C K r wk (f (q d)) P c') :
    commitsWp C K r wk (Prog.selectTable t q >>= f) P c :=
  lwp_bind.mpr fun d _ _ => hf d _ hc

/-- The end of a handler that commits nothing more. -/
theorem commitsWp_end {β : Type} {p : Handler β} (hc : CommitsAre (K r) c.log)
    (hp : p.Reports fun _ => True) :
    commitsWp C K r wk p (fun _ _ => True) c :=
  lwp_mono (lwp_of_reports hp (fun _ _ h _ => h.append rfl) hc) fun _ _ _ => trivial

/-- The one commit of a handler: new contents of the tables, and what it returns of them. The
committed state has evolved from the one that the handler has seen last. -/
theorem commitsWp_write {β γ : Type} {g : Tables → Tables} {m : Tables → β}
    {f : Option β → Handler γ} (hc : writes c.log = [])
    (hK : ∀ d d', Evolves c.db d → d'.toTables = g d.toTables → K r d d')
    (hf : ∀ x, (f x).Reports fun _ => True) :
    commitsWp C K r wk
      ((Prog.write fun d => (Db.commit (g d.toTables)).map fun d' => (m d.toTables, d')) >>= f)
      (fun _ _ => True) c := by
  refine lwp_bind.mpr (lwp_write.mpr fun d w hl =>
    ⟨fun _ => commitsWp_end (.of_nil hc) (hf _), ?_⟩)
  intro b d' hg _
  obtain ⟨d₁, hd₁, heq⟩ := Option.map_eq_some_iff.mp hg
  cases heq
  have hs : CommitsAre (K r) (c.log ++ [.write d d']) := by
    intro a a' hmem
    rw [writes_append, hc, writes_write, List.nil_append, List.mem_singleton] at hmem
    cases hmem
    exact hK d d' (Relies.evolves hl.1) (Db.commit_eq_some.mp hd₁)
  exact ⟨hs, commitsWp_end hs (hf _)⟩

theorem commitsWp_save {γ : Type} {g : Tables → Tables} {f : Option Unit → Handler γ}
    (hc : writes c.log = []) (hK : ∀ d d', d'.toTables = g d.toTables → K r d d')
    (hf : ∀ x, (f x).Reports fun _ => True) :
    commitsWp C K r wk (save g >>= f) (fun _ _ => True) c :=
  commitsWp_write (β := Unit) (m := fun _ => ()) hc (fun d d' _ => hK d d') hf

theorem commitsWp_insertRow {γ : Type} {next : Tables → ℕ} {g : Tables → Tables}
    {f : Option ℕ → Handler γ} (hc : writes c.log = [])
    (hK : ∀ d d', d'.toTables = g d.toTables → K r d d')
    (hf : ∀ x, (f x).Reports fun _ => True) :
    commitsWp C K r wk (insertRow next g >>= f) (fun _ _ => True) c :=
  commitsWp_write hc (fun d d' _ => hK d d') hf

theorem reports_auditRow {α : Type} [Keyed α] (b : Bind) (actor : ℕ) (action targetType : String)
    (t : Tables → Table α) (target : ℕ) (a : Response) :
    (auditRow b actor action targetType t target a).Reports fun _ => True := by
  unfold auditRow
  refine Prog.reports_bind (fun _ => trivial) ?_
  rintro (_ | u)
  · trivial
  refine Prog.reports_bind (fun _ => trivial) ?_
  rintro (_ | x)
  · trivial
  · exact ⟨trivial, trivial⟩

/-! ### Guards -/

theorem commitsWp_loginRequired {cookie : Option PyStr} {changing : Bool}
    {k : CurrentUser → Handler Response} (hc : writes c.log = [])
    (hk : ∀ cu c', writes c'.log = [] → commitsWp C K r wk (k cu) (fun _ _ => True) c') :
    commitsWp C K r wk (loginRequired L cookie changing k) (fun _ _ => True) c := by
  unfold loginRequired
  refine lwp_bind.mpr (lwp_mono (commitsWp_reports hc (reports_loadUserFromJwt cookie changing)) ?_)
  rintro (a | _ | cu) c' hc'
  · trivial
  · trivial
  · exact hk cu c' hc'

theorem commitsWp_rolesRequired {allowed : List String} {cookie : Option PyStr}
    {k : CurrentUser → Handler Response} (hc : writes c.log = [])
    (hk : ∀ cu c', writes c'.log = [] → commitsWp C K r wk (k cu) (fun _ _ => True) c') :
    commitsWp C K r wk (rolesRequired L allowed cookie k) (fun _ _ => True) c :=
  commitsWp_loginRequired hc fun cu c' hc' => by
    split
    · exact hk cu c' hc'
    · trivial

theorem commitsWp_adminOnly {cookie : Option PyStr} {k : CurrentUser → Handler Response}
    (hc : writes c.log = [])
    (hk : ∀ cu c', writes c'.log = [] → commitsWp C K r wk (k cu) (fun _ _ => True) c') :
    commitsWp C K r wk (adminOnly L cookie k) (fun _ _ => True) c :=
  commitsWp_loginRequired hc fun cu c' hc' => by
    split
    · exact hk cu c' hc'
    · trivial

/-! ### The row that a request names -/

/-- The commit of the request acts on the row that the request names. -/
def Addressed (r : Request) (d d' : Db) : Prop :=
  match r with
  | .openElection _ i => ∃ keyId openAt, d'.toTables = markOpen i keyId openAt d.toTables
  | .closeElection _ i => ∃ closeAt, d'.toTables = markClosed i closeAt d.toTables
  | .createCandidate _ form => ∃ (i : ℕ) (name : PyStr) (party : Option PyStr) (position : PyStr)
      (regionId : ℕ), int 10 (form.electionId.getD []) = some (i : ℤ) ∧
        d'.toTables = addCandidate name party position regionId i d.toTables
  | .updateCandidate _ i _ => ∃ c, c.id = i ∧ d'.toTables = setCandidate c d.toTables
  | .deleteCandidate _ i => d'.toTables = dropCandidate i d.toTables
  | .signElectionResults _ body form => ∃ (i : ℕ) (key : Option ResultSigningPublicKey)
      (payload : PyStr) (signed : SigningResult) (signedAt : Time) (signer : ℕ),
        signElectionId body form = .ok (i : ℤ) ∧
          d'.toTables = addResult key i payload signed signedAt signer d.toTables
  | .approveUser _ i => ∃ u enrolment, u.id = i ∧ d'.toTables = markApproved u enrolment d.toTables
  | .rejectUser _ i => ∃ u, u.id = i ∧ d'.toTables = markRejected u d.toTables
  | _ => True

/-- The weakest precondition of a handler whose commits act on the row that the request names. -/
abbrev addressedWp (r : Request) (wk : ℕ) {β : Type} (p : Handler β) (P : β → Conf L E → Prop)
    (c : Conf L E) : Prop :=
  commitsWp (fun _ _ _ _ => True) Addressed r wk p P c

/-- `lock_election` returns the election of that id. -/
theorem addressedWp_lockElection {γ : Type} {m : Mode} {i : ℤ} {f : Option Election → Handler γ}
    {P : γ → Conf L E → Prop} (hc : writes c.log = [])
    (hf : ∀ e c', (∀ x, e = some x → (x.id : ℤ) = i) → writes c'.log = [] →
      addressedWp r wk (f e) P c') :
    addressedWp r wk (lockElection m i >>= f) P c :=
  commitsWp_selectLocking hc fun _ c' hc' => hf _ c' (fun _ hx => (byId_eq_some hx).2.1) hc'

theorem addressedWp_openElection {cookie : Option PyStr} {i : ℕ} (hc : writes c.log = []) :
    addressedWp (.openElection cookie i) wk (openElection L cookie i) (fun _ _ => True) c := by
  unfold openElection
  refine commitsWp_rolesRequired hc fun cu c₁ hc₁ => ?_
  refine commitsWp_selectTable hc₁ fun d c₂ hc₂ => ?_
  generalize hfind : List.find? _ d.elections.rows = found
  rcases found with _ | e
  · trivial
  have hid : e.id = i := by simpa using List.find?_some hfind
  dsimp only
  split
  · trivial
  split
  · trivial
  split
  · trivial
  refine commitsWp_bind hc₂ (fun _ => trivial) fun count c₃ hc₃ => ?_
  split
  · trivial
  refine commitsWp_bind hc₃ (fun _ => trivial) fun candidates c₄ hc₄ => ?_
  split
  · trivial
  refine commitsWp_bind hc₄ (silent_ensureKey _ _ _) ?_
  rintro (err | components) c₅ hc₅
  · cases err
    all_goals exact commitsWp_end (.of_nil hc₅) trivial
  · unfold finishOpen
    refine commitsWp_bind hc₅ ?_ fun openAt c₆ hc₆ => ?_
    · unfold Election.openTime
      split
      · trivial
      · exact fun _ => trivial
    split
    · trivial
    refine commitsWp_save hc₆ (fun d d' hd => ⟨_, _, hid ▸ hd⟩) ?_
    rintro (_ | ⟨⟩)
    · trivial
    · exact reports_auditRow _ _ _ _ _ _ _

theorem addressedWp_closeElection {cookie : Option PyStr} {i : ℕ} (hc : writes c.log = []) :
    addressedWp (.closeElection cookie i) wk (closeElection L cookie i) (fun _ _ => True) c := by
  unfold closeElection
  refine commitsWp_rolesRequired hc fun cu c₁ hc₁ => ?_
  refine addressedWp_lockElection hc₁ fun res c₂ hid hc₂ => ?_
  rcases res with _ | e
  · trivial
  have hid : e.id = i := by exact_mod_cast hid e rfl
  dsimp only
  split
  · trivial
  refine commitsWp_bind hc₂ (fun _ => trivial) fun closeAt c₃ hc₃ => ?_
  refine commitsWp_save hc₃ (fun d d' hd => ⟨_, hid ▸ hd⟩) ?_
  rintro (_ | ⟨⟩)
  · trivial
  · exact reports_auditRow _ _ _ _ _ _ _

theorem addressedWp_createCandidate {cookie : Option PyStr} {form : CandidateForm}
    (hc : writes c.log = []) :
    addressedWp (.createCandidate cookie form) wk (createCandidate L cookie form)
      (fun _ _ => True) c := by
  unfold createCandidate
  refine commitsWp_rolesRequired hc fun cu c₁ hc₁ => ?_
  dsimp only
  split
  · trivial
  split
  next regionId electionId hregion helection =>
    unfold insertCandidate
    refine addressedWp_lockElection hc₁ fun res c₂ hid hc₂ => ?_
    refine commitsWp_bind hc₂ (fun _ => trivial) fun region c₃ hc₃ => ?_
    generalize hres : Option.filter _ res = found
    rcases found with _ | e
    · trivial
    obtain ⟨rfl, -⟩ := Option.filter_eq_some_iff.mp hres
    rcases region with _ | region
    · trivial
    refine commitsWp_bind hc₃ (fun _ => trivial) fun enrolment c₄ hc₄ => ?_
    split
    · trivial
    refine commitsWp_insertRow hc₄
      (fun d d' hd => ⟨e.id, _, _, _, _, ?_, hd⟩) ?_
    · rw [helection, hid e rfl]
    rintro (_ | id)
    · trivial
    · exact reports_auditRow _ _ _ _ _ _ _
  · trivial

/-- `lock_draft_candidate` returns the candidate of that id. -/
theorem addressedWp_lockDraftCandidate {γ : Type} {cu : CurrentUser} {i : ℕ} {foreign : String}
    {f : Except Response Candidate → Handler γ} {P : γ → Conf L E → Prop} (hc : writes c.log = [])
    (hf : ∀ res c', (∀ x, res = .ok x → x.id = i) → writes c'.log = [] →
      addressedWp r wk (f res) P c') :
    addressedWp r wk (lockDraftCandidate cu i foreign >>= f) P c := by
  refine lwp_bind.mpr ?_
  unfold lockDraftCandidate
  refine commitsWp_selectLocking hc fun d c₁ hc₁ => ?_
  rcases hcand : d.candidates.get? i with _ | x
  · exact hf _ _ (by simp) hc₁
  have hid : x.id = i := Table.key_of_get? hcand
  refine addressedWp_lockElection hc₁ fun res c₂ _ hc₂ => ?_
  split
  · exact hf _ _ (by simp) hc₂
  split
  · refine commitsWp_bind hc₂ (fun _ => trivial) fun enrolment c₃ hc₃ => ?_
    split
    · exact hf _ _ (by simp [hid]) hc₃
    · exact hf _ _ (by simp) hc₃
  · exact hf _ _ (by simp [hid]) hc₂

/-- The edited region leaves the id of the candidate. -/
theorem addressedWp_editRegion {γ : Type} {cu : CurrentUser} {form : CandidateForm} {x : Candidate}
    {f : Except Response Candidate → Handler γ} {P : γ → Conf L E → Prop} (hc : writes c.log = [])
    (hf : ∀ res c', (∀ y, res = .ok y → y.id = x.id) → writes c'.log = [] →
      addressedWp r wk (f res) P c') :
    addressedWp r wk (editRegion cu form x >>= f) P c := by
  refine lwp_bind.mpr ?_
  unfold editRegion
  split
  · exact hf _ _ (by simp) hc
  split
  · exact hf _ _ (by simp) hc
  refine commitsWp_bind hc (fun _ => trivial) fun enrolment c₁ hc₁ => ?_
  split
  · exact hf _ _ (by simp) hc₁
  refine commitsWp_bind hc₁ (fun _ => trivial) ?_
  rintro (_ | region) c₂ hc₂
  · exact hf _ _ (by simp) hc₂
  · exact hf _ _ (by rintro y ⟨⟩; rfl) hc₂

theorem addressedWp_updateCandidate {cookie : Option PyStr} {i : ℕ} {form : CandidateForm}
    (hc : writes c.log = []) :
    addressedWp (.updateCandidate cookie i form) wk (updateCandidate L cookie i form)
      (fun _ _ => True) c := by
  unfold updateCandidate
  refine commitsWp_rolesRequired hc fun cu c₁ hc₁ => ?_
  refine addressedWp_lockDraftCandidate hc₁ fun res c₂ hid hc₂ => ?_
  rcases res with a | x
  · trivial
  dsimp only
  split
  · trivial
  next y hy =>
  refine addressedWp_editRegion hc₂ fun res c₃ hid' hc₃ => ?_
  rcases res with a | z
  · trivial
  have hz : z.id = i := (hid' z rfl).trans ((id_of_editText hy).trans (hid x rfl))
  refine commitsWp_save hc₃ (fun d d' hd => ⟨z, hz, hd⟩) ?_
  rintro (_ | ⟨⟩)
  · trivial
  · exact reports_auditRow _ _ _ _ _ _ _

theorem addressedWp_deleteCandidate {cookie : Option PyStr} {i : ℕ} (hc : writes c.log = []) :
    addressedWp (.deleteCandidate cookie i) wk (deleteCandidate L cookie i) (fun _ _ => True) c := by
  unfold deleteCandidate
  refine commitsWp_rolesRequired hc fun cu c₁ hc₁ => ?_
  refine addressedWp_lockDraftCandidate hc₁ fun res c₂ hid hc₂ => ?_
  rcases res with a | x
  · trivial
  refine commitsWp_save hc₂ (fun d d' hd => hid x rfl ▸ hd) ?_
  rintro (_ | ⟨⟩)
  · trivial
  refine Prog.reports_bind (fun _ => trivial) ?_
  rintro (_ | u)
  · trivial
  · exact ⟨trivial, trivial⟩

theorem addressedWp_signElectionResults {cookie : Option PyStr} {body : Option Json}
    {form : Option PyStr} (hc : writes c.log = []) :
    addressedWp (.signElectionResults cookie body form) wk (signElectionResults L cookie body form)
      (fun _ _ => True) c := by
  unfold signElectionResults
  refine commitsWp_loginRequired hc fun cu c₁ hc₁ => ?_
  split
  · trivial
  split
  · trivial
  next i hi =>
  refine addressedWp_lockElection hc₁ fun res c₂ hid hc₂ => ?_
  rcases res with _ | e
  · exact commitsWp_end (.of_nil hc₂) trivial
  dsimp only
  split
  · exact commitsWp_end (.of_nil hc₂) trivial
  unfold signClosed
  refine commitsWp_bind hc₂ (fun _ => trivial) fun existing c₃ hc₃ => ?_
  dsimp only
  split
  · exact commitsWp_end (.of_nil hc₃) trivial
  refine commitsWp_bind hc₃ ?_ ?_
  · unfold getVoteTallies
    intro available
    cases available
    · trivial
    · exact fun _ => trivial
  rintro (_ | tallies) c₄ hc₄
  · exact commitsWp_end (.of_nil hc₄) trivial
  refine commitsWp_bind hc₄ (fun _ => trivial) fun signedAt c₅ hc₅ => ?_
  refine commitsWp_bind hc₅ (fun _ => trivial) ?_
  rintro (_ | signed) c₆ hc₆
  · exact commitsWp_end (.of_nil hc₆) trivial
  refine commitsWp_bind hc₆ (silent_archiveKey _ _) ?_
  rintro (a | key) c₇ hc₇
  · trivial
  refine commitsWp_save hc₇
    (fun d d' hd => ⟨e.id, _, _, _, _, _, by rw [hi, hid e rfl], hd⟩) ?_
  rintro (_ | ⟨⟩)
  · trivial
  · exact reports_auditRow _ _ _ _ _ _ _

/-- `get_or_404` returns the user of that id. -/
theorem addressedWp_getUser {γ : Type} {cu : CurrentUser} {i : ℕ} {f : Option User → Handler γ}
    {P : γ → Conf L E → Prop} (hc : writes c.log = [])
    (hf : ∀ res c', (∀ u, res = some u → u.id = i) → writes c'.log = [] →
      addressedWp r wk (f res) P c') :
    addressedWp r wk (getUser cu i >>= f) P c := by
  unfold getUser
  split
  next h => exact hf _ c (by rintro u ⟨⟩; exact h.symm) hc
  · exact commitsWp_select hc fun d c' _ hc' => hf _ c' (fun u hu => Table.key_of_get? hu) hc'

theorem addressedWp_approveUser {cookie : Option PyStr} {i : ℕ} (hc : writes c.log = []) :
    addressedWp (.approveUser cookie i) wk (approveUser L cookie i) (fun _ _ => True) c := by
  unfold approveUser
  refine commitsWp_adminOnly hc fun cu c₁ hc₁ => ?_
  refine addressedWp_getUser hc₁ fun res c₂ hid hc₂ => ?_
  rcases res with _ | u
  · trivial
  dsimp only
  split
  · trivial
  refine commitsWp_bind hc₂ (fun _ => trivial) fun enrolment c₃ hc₃ => ?_
  refine commitsWp_save hc₃ (fun d d' hd => ⟨u, enrolment, hid u rfl, hd⟩) ?_
  rintro (_ | ⟨⟩)
  · trivial
  · exact reports_auditRow _ _ _ _ _ _ _

theorem addressedWp_rejectUser {cookie : Option PyStr} {i : ℕ} (hc : writes c.log = []) :
    addressedWp (.rejectUser cookie i) wk (rejectUser L cookie i) (fun _ _ => True) c := by
  unfold rejectUser
  refine commitsWp_adminOnly hc fun cu c₁ hc₁ => ?_
  refine addressedWp_getUser hc₁ fun res c₂ hid hc₂ => ?_
  rcases res with _ | u
  · trivial
  refine commitsWp_save hc₂ (fun d d' hd => ⟨u, hid u rfl, hd⟩) ?_
  rintro (_ | ⟨⟩)
  · trivial
  · exact reports_auditRow _ _ _ _ _ _ _

/-- The commits of every handler act on the row that the request names. -/
theorem addressed_handle (r : Request) (hc : writes c.log = []) :
    addressedWp r wk (handle L r) (fun _ _ => True) c := by
  have hother : ∀ {p : Handler Response}, (∀ d d', Addressed r d d') →
      addressedWp r wk p (fun _ _ => True) c :=
    fun h => lwp_of_forall (fun _ d d' _ => h d d') fun _ _ => trivial
  cases r with
  | openElection cookie i => exact addressedWp_openElection hc
  | closeElection cookie i => exact addressedWp_closeElection hc
  | createCandidate cookie form => exact addressedWp_createCandidate hc
  | updateCandidate cookie i form => exact addressedWp_updateCandidate hc
  | deleteCandidate cookie i => exact addressedWp_deleteCandidate hc
  | signElectionResults cookie body form => exact addressedWp_signElectionResults hc
  | approveUser cookie i => exact addressedWp_approveUser hc
  | rejectUser cookie i => exact addressedWp_rejectUser hc
  | _ => exact hother fun _ _ => trivial

end SecureVote
