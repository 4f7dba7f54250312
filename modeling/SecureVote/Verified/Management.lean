import SecureVote.Verified.Session

/-!
# The management handlers meet the rules

Elections, rosters and the reconciliation of keys.
-/

open Txn Txn.Rules

namespace SecureVote

open Py

variable {L : Lib} {E : Environment} {r : Request} {wk : ℕ} {c : Conf L E}

/-- `c` is the end of the transaction of `c₀`, which has committed `d`. -/
structure Committed (c₀ c : Conf L E) (d : Db) : Prop where
  loc : c.loc = .fresh
  db : c.db = d
  wrote : writes c.log ≠ []
  evolves : Evolves c₀.db d

/-- A commit that is an action of the system: when it is refused, nothing has been written. -/
theorem spec_commit {f : Tables → Tables} (hw : writes c.log = [])
    (hact : ∀ c' d, (rules L E).Ext c c' → d.toTables = f c'.db.toTables →
      Act L r c.loc c'.db d) :
    (rules L E).wp r wk (save f) (fun res c' => (res = none → writes c'.log = []) ∧
      (res = some () → ∃ c₁ d, (rules L E).Ext c c₁ ∧ d.toTables = f c₁.db.toTables ∧
        Committed c c' d)) c := by
  refine spec_save (fun c' hx _ => ⟨fun _ => hx.writes_eq.trans hw, by simp⟩)
    fun c' d hx _ hd => ?_
  have h := hact c' d hx hd
  exact ⟨h, by simp, fun _ => ⟨c', d, hx, hd, rfl, rfl, by simp,
    (evolves_of_ext hx).trans h.evolves⟩⟩

/-- The same for an insert, which returns the new key. -/
theorem spec_commitRow {next : Tables → ℕ} {f : Tables → Tables} (hw : writes c.log = [])
    (hact : ∀ c' d, (rules L E).Ext c c' → d.toTables = f c'.db.toTables →
      Act L r c.loc c'.db d) :
    (rules L E).wp r wk (insertRow next f) (fun res c' => (res = none → writes c'.log = []) ∧
      ∀ i, res = some i → ∃ c₁ d, (rules L E).Ext c c₁ ∧ d.toTables = f c₁.db.toTables ∧
        i = next c₁.db.toTables ∧ Committed c c' d) c := by
  refine spec_insertRow (fun c' hx _ => ⟨fun _ => hx.writes_eq.trans hw, by simp⟩)
    fun c' d hx _ hd => ?_
  have h := hact c' d hx hd
  refine ⟨h, by simp, fun i hi => ?_⟩
  cases hi
  exact ⟨c', d, hx, hd, rfl, rfl, rfl, by simp, (evolves_of_ext hx).trans h.evolves⟩

/-- The audit step that ends a handler of the management pages. -/
theorem wp_auditRow {α : Type} [Keyed α] {b : Bind} {cu : CurrentUser}
    {action targetType : String} {t : Tables → Table α} {target : ℕ} {a : Response}
    {c₀ : Conf L E} {d : Db} (hc : Committed c₀ c d) (hcu : Loaded r c₀ cu)
    (ha : a.failed = false) (hs : ∀ s i, a ≠ .blindSignature s i)
    (hfound : r.managesElections = true → a.reportsSuccess = true ∧
      ∀ d', Evolves d d' → ((t d'.toTables).get? target).isSome) :
    (rules L E).wp r wk (auditRow b cu.user.id action targetType t target a)
      (fun a c' => Post L r a (writes c'.log)) c := by
  refine wp_mono (spec_auditRow hc.loc hc.wrote (by rw [hc.db]; exact hcu.exists_user hc.evolves))
    ?_
  rintro res c' ⟨-, hres, hgone⟩
  refine ⟨fun hf => ?_, fun hm hn => ?_, fun {s i} hres' => ?_⟩
  · rcases hres with rfl | rfl
    · rw [ha] at hf
      cases hf
    · cases hf
  · rw [hgone fun d' h => (hfound hm).2 d' (hc.db ▸ h), (hfound hm).1] at hn
    cases hn
  · rcases hres with rfl | rfl
    · exact absurd hres' (hs s i)
    · cases hres'

/-! ### Elections -/

theorem election_isSome_of_evolves {d d' : Db} (h : Evolves d d') {i : ℕ} {e : Election}
    (he : d.elections.get? i = some e) : (d'.elections.get? i).isSome := by
  obtain ⟨e', he', -⟩ := h.elections he
  rw [he']
  rfl

theorem wp_createElection {cookie : Option PyStr} {form : ElectionForm} (hloc : c.loc = .fresh)
    (hw : writes c.log = []) :
    (rules L E).wp (.createElection cookie form) wk (createElection L cookie form)
      (fun a c' => Post L (.createElection cookie form) a (writes c'.log)) c := by
  unfold createElection
  refine wp_rolesRequired (r := .createElection cookie form) hloc hw fun cu c₁ hcu _ _ hw₁ _ => ?_
  dsimp only
  split
  · exact post_of_failed rfl hw₁
  rcases parseDate L form.openAt with _ | openAt
  · exact post_of_failed rfl hw₁
  rcases parseDate L form.closeAt with _ | closeAt
  · exact post_of_failed rfl hw₁
  dsimp only
  split
  · exact post_of_failed rfl hw₁
  refine wp_bind_of (spec_commitRow hw₁ fun c' d' hx hd' =>
    .election (.create ⟨⟨_, _, rfl⟩, _, _, _, _, hd'⟩)) ?_
  rintro (_ | id) c₂ ⟨hnone, hsome⟩
  · exact post_of_failed rfl (hnone rfl)
  · obtain ⟨c', d, -, hd, rfl, hc⟩ := hsome id rfl
    obtain ⟨e, hget⟩ : ∃ e, d.elections.get? c'.db.elections.next = some e := by
      rw [show d.elections = _ from (congrArg Tables.elections hd :)]
      exact ⟨_, Table.get?_insert_next⟩
    exact wp_auditRow hc hcu rfl (by simp [electionSuccess])
      fun _ => ⟨by simp [electionSuccess, Response.reportsSuccess], fun d' h =>
        election_isSome_of_evolves h hget⟩

theorem spec_openTime (e : Election) :
    (rules L E).wp r wk e.openTime
      (fun _ c' => (rules L E).Ext c c' ∧ c'.loc = c.loc) c := by
  unfold Election.openTime
  split
  · exact ⟨.refl c, rfl⟩
  · refine wp_mono (spec_call _) ?_
    rintro _ c' ⟨hx, hl, -⟩
    exact ⟨hx, hl⟩

theorem wp_openElection {cookie : Option PyStr} {electionId : ℕ} (hloc : c.loc = .fresh)
    (hw : writes c.log = []) :
    (rules L E).wp (.openElection cookie electionId) wk (openElection L cookie electionId)
      (fun a c' => Post L (.openElection cookie electionId) a (writes c'.log)) c := by
  unfold openElection
  refine wp_rolesRequired (r := .openElection cookie electionId) hloc hw
    fun cu c₁ hcu hadmin _ hw₁ hrole => ?_
  have hbind : cu.bind = .admin := by
    have hrole : hasRole cu.role "manager" = true := by simpa using hrole
    rw [hcu.bind, hrole]
    rfl
  rw [hbind]
  refine wp_bind_of (spec_selectTable _ _) ?_
  rintro _ c₂ ⟨hx₂, rfl, hheld₂, hsnap₂⟩
  have hw₂ := hx₂.writes_eq.trans hw₁
  generalize hfind : c₂.db.elections.rows.find? (fun e => decide (e.id = electionId)) = found
  rcases found with _ | e
  · exact post_of_failed rfl hw₂
  have hmem : e ∈ c₂.db.elections.rows := List.mem_of_find?_eq_some hfind
  have hget : c₂.db.elections.get? e.id = some e := Table.get?_key hmem
  obtain ⟨hlock, hscan⟩ := hheld₂ (.election e.id) rfl (by rw [val_election, hget]; rfl)
  have hheld : Held c₂.loc .exclusive c₂.db e := ⟨hlock, hget⟩
  show (rules L E).wp _ wk (if _ then _ else _) _ c₂
  split
  · exact post_of_failed rfl hw₂
  next hdraft =>
  split
  · exact post_of_failed rfl hw₂
  next hrec =>
  split
  · exact post_of_failed rfl hw₂
  next hany =>
  rw [not_not] at hdraft
  have hnone : ∀ {i e'}, c₂.db.elections.get? i = some e' → e'.status ≠ .open := by
    intro i e' he' hopen
    refine hany (List.any_eq_true.mpr ⟨e', Table.mem_of_get? he', ?_⟩)
    refine decide_eq_true ⟨hopen, fun hid => ?_⟩
    have : e' = e := Table.key_inj (Table.mem_of_get? he') hmem hid
    rw [this, hdraft] at hopen
    cases hopen
  refine wp_bind_of (spec_select Bind.admin _) ?_
  rintro _ c₃ ⟨hx₃, d, hd, rfl, hfresh, -, -⟩
  -- a manager's plain reads go to the other connection, whose snapshot is taken under the scan
  obtain rfl := hfresh (by rw [hsnap₂]; exact hadmin)
  have hw₃ := hx₃.writes_eq.trans hw₂
  split
  · exact post_of_failed rfl hw₃
  refine wp_bind_of (spec_select Bind.admin _) ?_
  rintro _ c₄ ⟨hx₄, d, hd₄, rfl, -, -, -⟩
  obtain rfl : d = c₃.db := Option.some.inj (hd₄.symm.trans (hx₄.snap hd))
  have hw₄ := hx₄.writes_eq.trans hw₃
  split
  · exact post_of_failed rfl hw₄
  next hsingle =>
  rw [not_or, not_not, not_not] at hsingle
  refine wp_bind_of (spec_ensureKey e.id e.blindSigningKeyId e.blindSigningKeyId.isNone) ?_
  rintro (err | components) c₅ ⟨hx₅, hl₅, hok⟩
  · have hw₅ := hx₅.writes_eq.trans hw₄
    cases err with
    | blindSigningKeyError m =>
      exact wp_bind_of spec_abort fun _ c' habort => post_of_failed rfl (habort.2.trans hw₅)
    | _ => exact post_of_failed rfl hw₅
  obtain ⟨⟨k, -, hfp⟩, hanchor, -⟩ := hok components rfl
  have hw₅ := hx₅.writes_eq.trans hw₄
  show (rules L E).wp _ wk (finishOpen cu e components.keyId) _ c₅
  unfold finishOpen
  refine wp_bind_of (spec_openTime e) ?_
  rintro openAt c₆ ⟨hx₆, hl₆⟩
  have hw₆ := hx₆.writes_eq.trans hw₅
  split
  · exact post_of_failed rfl hw₆
  have hx₂₆ := ((hx₃.trans hx₄).trans hx₅).trans hx₆
  have hheld₆ := hheld.carry hx₂₆
  refine wp_bind_of (spec_commit hw₆ fun c' d' hx hd' => .election (.open
    { request := ⟨_, _, rfl⟩
      election := Relies.election hx.rely hheld₆
      scanned := hx₂₆.scanned hscan
      draft := hdraft
      recovery := by simpa using hrec
      none_open := fun {i e'} he' hopen => by
        obtain ⟨e₁, he₁, hopen₁⟩ := Relies.opened (hx₂₆.trans hx).rely hscan he' hopen
        exact hnone he₁ hopen₁
      roster := by
        have hroster : c'.db.roster e.id = c₃.db.roster e.id :=
          Relies.roster ((((hx₄.trans hx₅).trans hx₆)).trans hx).rely (hx₃.held hlock)
        rw [hroster]
        exact ⟨hsingle.1, hsingle.2⟩
      anchor := fun {id} hid => hanchor id hid
      key := ⟨k, hfp⟩
      after := ⟨openAt, hd'⟩ })) ?_
  rintro (_ | ⟨⟩) c₇ ⟨hrefused, hdone⟩
  · exact post_of_failed rfl (hrefused rfl)
  · obtain ⟨c', d, hx, hd, hc⟩ := hdone rfl
    obtain ⟨e', he', -⟩ := hc.evolves.elections hheld₆.row
    exact hbind ▸ wp_auditRow hc (hcu.carry (hx₂.trans hx₂₆)) rfl (by simp [electionSuccess])
      fun _ => ⟨by simp [electionSuccess, Response.reportsSuccess], fun d' h =>
        election_isSome_of_evolves h he'⟩

theorem wp_closeElection {cookie : Option PyStr} {electionId : ℕ} (hloc : c.loc = .fresh)
    (hw : writes c.log = []) :
    (rules L E).wp (.closeElection cookie electionId) wk (closeElection L cookie electionId)
      (fun a c' => Post L (.closeElection cookie electionId) a (writes c'.log)) c := by
  unfold closeElection
  refine wp_rolesRequired (r := .closeElection cookie electionId) hloc hw
    fun cu c₁ hcu _ _ hw₁ _ => ?_
  refine wp_bind_of (spec_lockElection .exclusive electionId) ?_
  rintro (_ | e) c₂ ⟨hx₂, -, helection⟩
  · exact post_of_failed rfl (hx₂.writes_eq.trans hw₁)
  obtain ⟨hheld, -⟩ := helection e rfl
  show (rules L E).wp _ wk (if _ then _ else _) _ c₂
  split
  · exact post_of_failed rfl (hx₂.writes_eq.trans hw₁)
  next hopen =>
  rw [not_not] at hopen
  refine wp_bind_of (spec_call _) ?_
  rintro closeAt c₃ ⟨hx₃, hl₃, -⟩
  have hheld₃ := hheld.carry hx₃
  refine wp_bind_of (spec_commit ((hx₂.trans hx₃).writes_eq.trans hw₁) fun c' d' hx hd' =>
    .election (.close ⟨⟨_, _, rfl⟩, Relies.election hx.rely hheld₃, hopen, closeAt, hd'⟩)) ?_
  rintro (_ | ⟨⟩) c₄ ⟨hrefused, hdone⟩
  · exact post_of_failed rfl (hrefused rfl)
  · obtain ⟨c', d, hx, hd, hc⟩ := hdone rfl
    obtain ⟨e', he', -⟩ := hc.evolves.elections hheld₃.row
    exact wp_auditRow hc (hcu.carry (hx₂.trans hx₃)) rfl (by simp [electionSuccess])
      fun _ => ⟨by simp [electionSuccess, Response.reportsSuccess], fun d' h =>
        election_isSome_of_evolves h he'⟩

/-! ### Rosters -/

/-- A notice on the delegate dashboard, without any write. -/
theorem post_of_notice {message : String} {ws : List (Db × Db)} (hw : ws = []) :
    Post L r (delegateNotice message) ws :=
  post_of_nil (by simp [delegateNotice]) hw

theorem spec_loadEnrolment (cu : CurrentUser) :
    (rules L E).wp r wk (loadEnrolment cu) (fun _ c' => (rules L E).Ext c c') c :=
  wp_mono (spec_select _ _) fun _ _ ⟨hx, _⟩ => hx

theorem spec_loadRegion (cu : CurrentUser) (id : ℤ) :
    (rules L E).wp r wk (loadRegion cu id) (fun _ c' => (rules L E).Ext c c') c :=
  wp_mono (spec_select _ _) fun _ _ ⟨hx, _⟩ => hx

theorem wp_insertCandidate {cookie : Option PyStr} {form : CandidateForm} {cu : CurrentUser}
    {name position : PyStr} {party : Option PyStr} {regionId electionId : ℤ}
    (hr : r = .createCandidate cookie form) (hcu : Loaded r c cu) (hw : writes c.log = []) :
    (rules L E).wp r wk (insertCandidate cu name party position regionId electionId)
      (fun a c' => Post L r a (writes c'.log)) c := by
  unfold insertCandidate
  refine wp_bind_of (spec_lockElection .exclusive electionId) ?_
  rintro locked c₁ ⟨hx₁, -, helection⟩
  refine wp_bind_of (spec_loadRegion cu regionId) fun region c₂ hx₂ => ?_
  have hw₂ := (hx₁.trans hx₂).writes_eq.trans hw
  generalize hdraft : locked.filter (fun e => decide (e.status = .draft)) = draft
  rcases draft with _ | e
  · exact post_of_notice hw₂
  obtain ⟨rfl, hstatus⟩ := Option.filter_eq_some_iff.mp hdraft
  have hheld := (helection e rfl).1.carry hx₂
  rcases region with _ | region
  · exact post_of_notice hw₂
  refine wp_bind_of (spec_loadEnrolment cu) fun enrolment c₃ hx₃ => ?_
  have hw₃ := hx₃.writes_eq.trans hw₂
  split
  · exact post_of_notice hw₃
  refine wp_bind_of (spec_commitRow hw₃ fun c' d hx hd => .candidate (.create
    ⟨⟨_, _, hr⟩, Relies.election hx.rely (hheld.carry hx₃), by simpa using hstatus,
      _, _, _, _, hd⟩)) ?_
  rintro (_ | id) c₄ ⟨hrefused, hdone⟩
  · exact post_of_failed rfl (hrefused rfl)
  · obtain ⟨c', d, hx, hd, -, hc⟩ := hdone id rfl
    exact wp_auditRow hc (hcu.carry ((hx₁.trans hx₂).trans hx₃)) rfl (by simp [delegateNotice])
      (by simp [hr, Request.managesElections])

theorem wp_createCandidate {cookie : Option PyStr} {form : CandidateForm} (hloc : c.loc = .fresh)
    (hw : writes c.log = []) :
    (rules L E).wp (.createCandidate cookie form) wk (createCandidate L cookie form)
      (fun a c' => Post L (.createCandidate cookie form) a (writes c'.log)) c := by
  unfold createCandidate
  refine wp_rolesRequired (r := .createCandidate cookie form) hloc hw
    fun cu c₁ hcu _ _ hw₁ _ => ?_
  dsimp only
  split
  · exact post_of_notice hw₁
  split
  · exact wp_insertCandidate rfl hcu hw₁
  · exact post_of_notice hw₁

/-- A candidate of a draft election, both rows held. -/
structure DraftCandidate (c : Conf L E) (e : Election) (cand : Candidate) : Prop where
  election : Held c.loc .exclusive c.db e
  draft : e.status = .draft
  candidateElection : cand.electionId = e.id
  lock : (RowId.candidate cand.id, Mode.exclusive) ∈ c.loc.held
  row : c.db.candidates.get? cand.id = some cand

/-- A held candidate row is what it was. -/
theorem DraftCandidate.stay {c' : Conf L E} {e : Election} {cand : Candidate}
    (h : DraftCandidate c e cand) (hx : (rules L E).Ext c c') :
    c'.db.candidates.get? cand.id = some cand := by
  have := Relies.held hx.rely _ h.lock
  rw [val_candidate, val_candidate, h.row] at this
  simpa using this

theorem DraftCandidate.carry {c' : Conf L E} {e : Election} {cand : Candidate}
    (h : DraftCandidate c e cand) (hx : (rules L E).Ext c c') : DraftCandidate c' e cand :=
  ⟨h.election.carry hx, h.draft, h.candidateElection, hx.held h.lock, h.stay hx⟩

/-- The two locks of an edit or a deletion: a candidate of a draft election, both rows held. -/
theorem spec_lockDraftCandidate (cu : CurrentUser) (candidateId : ℕ) (foreign : String) :
    (rules L E).wp r wk (lockDraftCandidate cu candidateId foreign) (fun res c' =>
      (rules L E).Ext c c' ∧
      (∀ a, res = Except.error a → ∀ s i, a ≠ .blindSignature s i) ∧
      ∀ cand, res = Except.ok cand → ∃ e, DraftCandidate c' e cand) c := by
  unfold lockDraftCandidate
  refine wp_bind_of (spec_selectLocking _ _ _) ?_
  rintro _ c₁ ⟨hx₁, rfl, hheld₁, -⟩
  rcases hcand : c₁.db.candidates.get? candidateId with _ | cand
  · exact ⟨hx₁, by rintro a ⟨⟩; simp, by simp⟩
  obtain rfl : cand.id = candidateId := Table.key_of_get? hcand
  have hlock := hheld₁ _ (List.mem_singleton_self _) (by simp [hcand])
  refine wp_bind_of (spec_lockElection .exclusive cand.electionId) ?_
  rintro locked c₂ ⟨hx₂, -, helection⟩
  have hx := hx₁.trans hx₂
  generalize hdraft : locked.filter (fun e => decide (e.status = .draft)) = draft
  rcases draft with _ | e
  · exact ⟨hx, by rintro a ⟨⟩; simp [delegateNotice], by simp⟩
  obtain ⟨rfl, hstatus⟩ := Option.filter_eq_some_iff.mp hdraft
  obtain ⟨hheld, hid⟩ := helection e rfl
  have hboth : DraftCandidate c₂ e cand := by
    refine ⟨hheld, by simpa using hstatus, by exact_mod_cast hid.symm, hx₂.held hlock, ?_⟩
    have := Relies.held hx₂.rely _ hlock
    rw [val_candidate, val_candidate, hcand] at this
    simpa using this
  show (rules L E).wp _ wk (if _ then _ else _) _ c₂
  split
  · refine wp_bind_of (spec_loadEnrolment cu) fun enrolment c₃ hx₃ => ?_
    split
    · exact ⟨hx.trans hx₃, by simp, by rintro _ ⟨⟩; exact ⟨e, hboth.carry hx₃⟩⟩
    · exact ⟨hx.trans hx₃, by rintro a ⟨⟩; simp [delegateNotice], by simp⟩
  · exact ⟨hx, by simp, by rintro _ ⟨⟩; exact ⟨e, hboth⟩⟩

theorem id_of_editText {form : CandidateForm} {cand cand' : Candidate}
    (h : editText form cand = .ok cand') : cand'.id = cand.id := by
  unfold editText at h
  repeat' split at h
  all_goals cases h <;> rfl

/-- The region step keeps the candidate's key. -/
theorem spec_editRegion (cu : CurrentUser) (form : CandidateForm) (cand : Candidate) :
    (rules L E).wp r wk (editRegion cu form cand) (fun res c' => (rules L E).Ext c c' ∧
      (∀ a, res = Except.error a → ∃ message, a = delegateNotice message) ∧
      ∀ cand', res = Except.ok cand' → cand'.id = cand.id) c := by
  unfold editRegion
  split
  · exact ⟨.refl c, by simp, by rintro _ ⟨⟩; rfl⟩
  split
  · exact ⟨.refl c, by rintro a ⟨⟩; exact ⟨_, rfl⟩, by simp⟩
  refine wp_bind_of (spec_loadEnrolment cu) fun enrolment c₁ hx₁ => ?_
  split
  · exact ⟨hx₁, by rintro a ⟨⟩; exact ⟨_, rfl⟩, by simp⟩
  refine wp_bind_of (spec_loadRegion cu _) ?_
  rintro (_ | region) c₂ hx₂
  · exact ⟨hx₁.trans hx₂, by rintro a ⟨⟩; exact ⟨_, rfl⟩, by simp⟩
  · exact ⟨hx₁.trans hx₂, by simp, by rintro _ ⟨⟩; rfl⟩

theorem error_of_editText {form : CandidateForm} {cand : Candidate} {a : Response}
    (h : editText form cand = .error a) : ∃ message, a = delegateNotice message := by
  unfold editText at h
  repeat' split at h
  all_goals cases h <;> exact ⟨_, rfl⟩

theorem wp_updateCandidate {cookie : Option PyStr} {candidateId : ℕ} {form : CandidateForm}
    (hloc : c.loc = .fresh) (hw : writes c.log = []) :
    (rules L E).wp (.updateCandidate cookie candidateId form) wk
      (updateCandidate L cookie candidateId form)
      (fun a c' => Post L (.updateCandidate cookie candidateId form) a (writes c'.log)) c := by
  unfold updateCandidate
  refine wp_rolesRequired (r := .updateCandidate cookie candidateId form) hloc hw
    fun cu c₁ hcu _ _ hw₁ _ => ?_
  refine wp_bind_of (spec_lockDraftCandidate cu candidateId _) ?_
  rintro (a | cand) c₂ ⟨hx₂, herror, hlocked⟩
  · exact post_of_nil (herror a rfl) (hx₂.writes_eq.trans hw₁)
  obtain ⟨e, hcand⟩ := hlocked cand rfl
  have hw₂ := hx₂.writes_eq.trans hw₁
  dsimp only
  rcases htext : editText form cand with a | edited
  · obtain ⟨message, rfl⟩ := error_of_editText htext
    exact post_of_notice hw₂
  refine wp_bind_of (spec_editRegion cu form edited) ?_
  rintro (a | edited') c₃ ⟨hx₃, herror, hid⟩
  · obtain ⟨message, rfl⟩ := herror a rfl
    exact post_of_notice (hx₃.writes_eq.trans hw₂)
  have hcand₃ := hcand.carry hx₃
  refine wp_bind_of (spec_commit (hx₃.writes_eq.trans hw₂) fun c' d hx hd => .candidate (.update
    { request := ⟨_, _, _, rfl⟩
      election := Relies.election hx.rely hcand₃.election
      draft := hcand.draft
      candidate := hcand₃.stay hx
      candidateElection := hcand.candidateElection
      after := ⟨edited', (hid _ rfl).trans (id_of_editText htext), hd⟩ })) ?_
  rintro (_ | ⟨⟩) c₄ ⟨hrefused, hdone⟩
  · exact post_of_failed rfl (hrefused rfl)
  · obtain ⟨c', d, hx, hd, hc⟩ := hdone rfl
    exact wp_auditRow hc (hcu.carry (hx₂.trans hx₃)) rfl (by simp [delegateNotice])
      (by simp [Request.managesElections])

theorem wp_deleteCandidate {cookie : Option PyStr} {candidateId : ℕ} (hloc : c.loc = .fresh)
    (hw : writes c.log = []) :
    (rules L E).wp (.deleteCandidate cookie candidateId) wk (deleteCandidate L cookie candidateId)
      (fun a c' => Post L (.deleteCandidate cookie candidateId) a (writes c'.log)) c := by
  unfold deleteCandidate
  refine wp_rolesRequired (r := .deleteCandidate cookie candidateId) hloc hw
    fun cu c₁ hcu _ _ hw₁ _ => ?_
  refine wp_bind_of (spec_lockDraftCandidate cu candidateId _) ?_
  rintro (a | cand) c₂ ⟨hx₂, herror, hlocked⟩
  · exact post_of_nil (herror a rfl) (hx₂.writes_eq.trans hw₁)
  obtain ⟨e, hcand⟩ := hlocked cand rfl
  refine wp_bind_of (spec_commit (hx₂.writes_eq.trans hw₁) fun c' d hx hd => .candidate (.delete
    { request := ⟨_, _, rfl⟩
      election := Relies.election hx.rely hcand.election
      draft := hcand.draft
      candidate := hcand.stay hx
      candidateElection := hcand.candidateElection
      after := hd })) ?_
  rintro (_ | ⟨⟩) c₃ ⟨hrefused, hdone⟩
  · exact post_of_failed rfl (hrefused rfl)
  · obtain ⟨c', d, hx, hd, hc⟩ := hdone rfl
    refine wp_bind_of (spec_select _ _) ?_
    rintro _ c₄ ⟨hx₄, d', -, rfl, -⟩
    rcases d'.users.get? cu.user.id with _ | u
    · exact ⟨by simp [Response.failed], by simp [Request.managesElections], by simp⟩
    · refine wp_bind_of (spec_report ?_) fun _ c₅ _ =>
        ⟨by simp [Response.failed, delegateNotice], by simp [Request.managesElections],
          by simp [delegateNotice]⟩
      show writes c₄.log ≠ []
      rw [hx₄.writes_eq]
      exact hc.wrote

/-! ### Reconciliation of keys -/

/-- Within the reconciliation of `es`: their rows are held, and the tokens of the snapshot are the
current ones of these elections. -/
structure Reconciling (c : Conf L E) (es : List Election) : Prop where
  held : ∀ e ∈ es, Held c.loc .exclusive c.db e
  snap : ∀ d₀, c.loc.snap .admin = some d₀ →
    ∀ e ∈ es, c.db.tokensFor e.id = d₀.tokensFor e.id

theorem Reconciling.carry {c' : Conf L E} {es : List Election} (h : Reconciling c es)
    (hx : (rules L E).Ext c c')
    (hsnap : ∀ d₀, c'.loc.snap .admin = some d₀ → c.loc.snap .admin = some d₀ ∨ d₀ = c'.db) :
    Reconciling c' es := by
  refine ⟨fun e he => (h.held e he).carry hx, fun d₀ hd₀ e he => ?_⟩
  rcases hsnap d₀ hd₀ with hd | rfl
  · exact (Relies.tokens hx.rely (h.held e he).lock).trans (h.snap d₀ hd e he)
  · rfl

/-- What the checks of one open election establish: a new anchor only for an election without
one, and without issued authorizations. -/
structure Reconciled (L : Lib) (c : Conf L E) (e : Election) (anchor : Option PyStr) : Prop where
  recovery : e.blindKeyRecoveryRequired = false
  anchored : e.blindSigningKeyId.isSome → anchor = none
  anchors : e.blindSigningKeyId = none →
    (∃ k : KeyPair, anchor = some (fingerprint L k.publicKey)) ∧
      ∀ k ∈ c.db.tokens.rows, k.electionId ≠ e.id

theorem spec_reconcileElection {es : List Election} {e : Election} (he : e ∈ es)
    (hes : Reconciling c es) :
    (rules L E).wp r wk (reconcileElection L e) (fun res c' => (rules L E).Ext c c' ∧
      Reconciling c' es ∧ ∀ anchor, res = Except.ok anchor → Reconciled L c' e anchor) c := by
  unfold reconcileElection
  split
  · exact ⟨.refl c, hes, by simp⟩
  next hrec =>
  refine wp_bind_of (spec_select _ _) ?_
  rintro _ c₁ ⟨hx₁, d₀, hd₀, rfl, hfresh, -, -⟩
  have hes₁ : Reconciling c₁ es := hes.carry hx₁ fun d₁ hd₁ => by
    obtain rfl : d₁ = d₀ := Option.some.inj (hd₁.symm.trans hd₀)
    rcases hs : c.loc.snap .admin with _ | d
    · exact Or.inr (hfresh hs)
    · rw [hx₁.snap hs] at hd₀
      exact Or.inl hd₀
  split
  · exact ⟨hx₁, hes₁, by simp⟩
  next hissued =>
  refine wp_bind_of (spec_ensureKey e.id e.blindSigningKeyId e.blindSigningKeyId.isNone) ?_
  rintro (err | components) c₂ ⟨hx₂, hl₂, hok⟩
  · exact ⟨hx₁.trans hx₂, hes₁.carry hx₂ fun d hd => Or.inl (hl₂ ▸ hd), by simp⟩
  have hes₂ : Reconciling c₂ es := hes₁.carry hx₂ fun d hd => Or.inl (hl₂ ▸ hd)
  refine ⟨hx₁.trans hx₂, hes₂, ?_⟩
  rintro _ ⟨⟩
  obtain ⟨⟨k, -, hfp⟩, -, -⟩ := hok components rfl
  refine ⟨by simpa using hrec, fun h => if_neg ?_, fun hnone => ?_⟩
  · rw [Option.isNone_iff_eq_none]
    exact Option.isSome_iff_ne_none.mp h
  refine ⟨⟨k, by simp [hnone, hfp]⟩, ?_⟩
  -- no token in the snapshot, and the snapshot's tokens of this election are current
  have hnil : d₀.tokensFor e.id = [] := by
    rw [Tables.tokensFor, List.filter_eq_nil_iff]
    simpa [hnone] using hissued
  rw [← hes₂.snap d₀ (hx₂.snap hd₀) e he, Tables.tokensFor, List.filter_eq_nil_iff] at hnil
  simpa using hnil

/-- What the loop has assigned after the elections `done`. -/
structure Anchors (L : Lib) (c : Conf L E) (done : List Election) (anchors : List (ℕ × PyStr)) :
    Prop where
  sound : ∀ a ∈ anchors, ∃ e ∈ done, e.id = a.1 ∧ e.blindSigningKeyId = none ∧
    e.blindKeyRecoveryRequired = false ∧ (∀ k ∈ c.db.tokens.rows, k.electionId ≠ e.id) ∧
    ∃ k : KeyPair, a.2 = fingerprint L k.publicKey
  complete : ∀ e ∈ done, e.blindSigningKeyId = none → ∃ a ∈ anchors, a.1 = e.id

/-- An election held for update gets no token. -/
theorem Reconciling.no_token {c' : Conf L E} {es : List Election} (h : Reconciling c es)
    (hx : (rules L E).Ext c c') {e : Election} (he : e ∈ es)
    (hk : ∀ k ∈ c.db.tokens.rows, k.electionId ≠ e.id) :
    ∀ k ∈ c'.db.tokens.rows, k.electionId ≠ e.id := by
  have heq : c'.db.tokensFor e.id = c.db.tokensFor e.id :=
    Relies.tokens hx.rely (h.held e he).lock
  have hnil : c.db.tokensFor e.id = [] := by
    rw [Tables.tokensFor, List.filter_eq_nil_iff]
    simpa using hk
  rw [hnil, Tables.tokensFor, List.filter_eq_nil_iff] at heq
  simpa using heq

theorem spec_reconcileLoop {all : List Election} (es : List Election) (hsub : es ⊆ all)
    (hall : Reconciling c all) :
    (rules L E).wp r wk (reconcileLoop L es) (fun res c' => (rules L E).Ext c c' ∧
      Reconciling c' all ∧ ∀ anchors, res = Except.ok anchors → Anchors L c' es anchors) c := by
  induction es generalizing c with
  | nil => exact ⟨.refl c, hall, by rintro _ ⟨⟩; exact ⟨by simp, by simp⟩⟩
  | cons e rest ih =>
    have he : e ∈ all := hsub List.mem_cons_self
    unfold reconcileLoop
    refine wp_bind_of (spec_reconcileElection he hall) ?_
    rintro (err | anchor) c₁ ⟨hx₁, hall₁, hrec⟩
    · exact ⟨hx₁, hall₁, by simp⟩
    have hrec := hrec anchor rfl
    refine wp_bind_of (ih (fun x hx => hsub (List.mem_cons_of_mem _ hx)) hall₁) ?_
    rintro (err | anchors) c₂ ⟨hx₂, hall₂, hanchors⟩
    · exact ⟨hx₁.trans hx₂, hall₂, by simp⟩
    have hanchors := hanchors anchors rfl
    refine ⟨hx₁.trans hx₂, hall₂, ?_⟩
    rintro _ ⟨⟩
    constructor
    · intro a ha
      rcases List.mem_append.mp ha with ha | ha
      · rcases anchor with _ | id
        · cases ha
        · obtain rfl := List.mem_singleton.mp ha
          have hnone : e.blindSigningKeyId = none := by
            rcases h : e.blindSigningKeyId with _ | k
            · rfl
            · exact absurd (hrec.anchored (by rw [h]; rfl)) (by simp)
          obtain ⟨⟨k, hk⟩, htokens⟩ := hrec.anchors hnone
          cases hk
          exact ⟨e, List.mem_cons_self, rfl, hnone, hrec.recovery,
            hall₁.no_token hx₂ he htokens, k, rfl⟩
      · obtain ⟨e', he', h⟩ := hanchors.sound a ha
        exact ⟨e', List.mem_cons_of_mem _ he', h⟩
    · intro e' he' hnone
      rcases List.mem_cons.mp he' with rfl | he'
      · obtain ⟨⟨k, rfl⟩, -⟩ := hrec.anchors hnone
        exact ⟨_, List.mem_append_left _ (List.mem_singleton_self _), rfl⟩
      · obtain ⟨a, ha, hid⟩ := hanchors.complete e' he' hnone
        exact ⟨a, List.mem_append_right _ ha, hid⟩

theorem wp_anchorOpenElectionKeys (hr : r = .anchorOpenElectionKeys) (hloc : c.loc = .fresh)
    (hw : writes c.log = []) :
    (rules L E).wp r wk (anchorOpenElectionKeys L)
      (fun a c' => Post L r a (writes c'.log)) c := by
  unfold anchorOpenElectionKeys reconcileOpenElectionKeys
  refine wp_bind.mpr (wp_bind_of (spec_selectLocking _ _ _) ?_)
  rintro _ c₁ ⟨hx₁, rfl, hheld, hsnap⟩
  generalize hes : c₁.db.elections.rows.filter (fun e => decide (e.status = .open)) = es
  have hmem : ∀ {e}, e ∈ es ↔ e ∈ c₁.db.elections.rows ∧ e.status = .open := by
    intro e
    rw [← hes, List.mem_filter, decide_eq_true_eq]
  have hall : Reconciling c₁ es := by
    refine ⟨fun e he => ?_, fun d₀ hd₀ => ?_⟩
    · have hget : c₁.db.elections.get? e.id = some e := Table.get?_key (hmem.mp he).1
      refine ⟨hheld _ ?_ (by rw [val_election, hget]; rfl), hget⟩
      rw [hes]
      exact List.mem_map_of_mem he
    · rw [hsnap, hloc] at hd₀
      cases hd₀
  refine wp_mono (spec_reconcileLoop es (fun _ h => h) hall) ?_
  rintro (err | anchors) c₂ ⟨hx₂, hall₂, hanchors⟩
  · exact wp_bind_of spec_abort fun _ c' ⟨_, hw'⟩ =>
      post_of_failed rfl (hw'.trans ((hx₁.trans hx₂).writes_eq.trans hw))
  have hanchors := hanchors anchors rfl
  refine wp_bind_of (spec_commit ((hx₁.trans hx₂).writes_eq.trans hw) fun c' d hx hd =>
    .election (.anchor ⟨hr, fun a ha => ?_, fun {i e'} he' hopen => ?_, hd⟩)) ?_
  · obtain ⟨e, he, hid, hnone, hrec, htokens, hk⟩ := hanchors.sound a ha
    exact ⟨e, Relies.election hx.rely (hall₂.held e he), hid, (hmem.mp he).2, hnone, hrec,
      hall₂.no_token hx he htokens, hk⟩
  · rw [show d.elections = _ from (congrArg Tables.elections hd :)] at he'
    rcases get?_anchorElections anchors c'.db.toTables i with ⟨e, he, key, hkey, hor⟩ | ⟨-, hn⟩
    · obtain rfl := Option.some.inj (hkey.symm.trans he')
      rcases hor with ⟨rfl, hne⟩ | ⟨a, -, -, rfl⟩
      · -- not anchored by this commit: open since before the lock, or opened with an anchor
        by_cases h : ∃ e₁, c₁.db.elections.get? i = some e₁ ∧ e₁.status = .open
        · obtain ⟨e₁, he₁, hopen₁⟩ := h
          have hin : e₁ ∈ es := hmem.mpr ⟨Table.mem_of_get? he₁, hopen₁⟩
          obtain rfl : e₁.id = i := Table.key_of_get? he₁
          obtain rfl : e = e₁ := Option.some.inj
            (he.symm.trans (Relies.election hx.rely (hall₂.held e₁ hin)).row)
          rcases hk : e.blindSigningKeyId with _ | k
          · obtain ⟨a, ha, hid⟩ := hanchors.complete e hin hk
            exact absurd hid (hne a ha)
          · rfl
        · exact (evolves_of_ext (hx₂.trans hx)).anchored_of_opened he hopen
            fun e₁ he₁ hopen₁ => h ⟨e₁, he₁, hopen₁⟩
      · rfl
    · cases hn.symm.trans he'
  · rintro (_ | ⟨⟩) c₃ ⟨hrefused, hdone⟩
    · exact wp_bind_of spec_abort fun _ c' ⟨_, hw'⟩ =>
        post_of_failed rfl (hw'.trans (hrefused rfl))
    · exact ⟨by simp [Response.failed], by simp [Response.reportsSuccess], by simp⟩

end SecureVote
