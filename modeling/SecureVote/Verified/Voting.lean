import SecureVote.Verified.Session

/-!
# The voting handlers meet the rules

`request_blind_token`, `cast_anonymous_ballot` and `cast_anonymous_vote`. Each proof follows the
handler: what a lock has established is carried to the commit, where it becomes the action.
-/

open Txn Txn.Rules

namespace SecureVote

open Py

variable {L : Lib} {E : Environment} {r : Request} {wk : ℕ} {c : Conf L E}

/-- `lock_and_validate_voter` returns an eligible voter whose rows it holds. -/
theorem spec_lockAndValidateVoter (userId : ℕ) :
    (rules L E).wp r wk (lockAndValidateVoter userId) (fun res c' => (rules L E).Ext c c' ∧
      c'.loc.snap = c.loc.snap ∧ ∀ u roll, res = Except.ok (u, roll) → u.id = userId ∧
        Eligible c'.db u roll ∧ (RowId.user u.id, Mode.exclusive) ∈ c'.loc.held ∧
        (RowId.roll roll.id, Mode.share) ∈ c'.loc.held) c := by
  unfold lockAndValidateVoter
  refine wp_bind_of (spec_selectLocking _ _ _) ?_
  rintro res c₁ ⟨hx₁, rfl, hheld₁, hsnap₁⟩
  rcases hu : c₁.db.users.get? userId with _ | u
  · exact ⟨hx₁, hsnap₁, by simp⟩
  have hid : u.id = userId := Table.key_of_get? hu
  subst hid
  have hlock : (RowId.user u.id, Mode.exclusive) ∈ c₁.loc.held :=
    hheld₁ _ (List.mem_singleton_self _) (by simp [hu])
  refine wp_bind_of (spec_selectLocking _ _ _) ?_
  rintro res c₂ ⟨hx₂, rfl, hheld₂, hsnap₂⟩
  have hx := hx₁.trans hx₂
  have hsnap := hsnap₂.trans hsnap₁
  rcases hroll : c₂.db.enrolment u.id with _ | roll
  · exact ⟨hx, hsnap, by simp⟩
  · show (rules L E).wp r wk (if _ then _ else _) _ c₂
    have hrow := Relies.held hx₂.rely _ hlock
    rw [val_user, val_user, hu] at hrow
    have hu₂ : c₂.db.users.get? u.id = some u := by simpa using hrow
    have hmem : roll ∈ c₂.db.rolls.rows := List.mem_of_find?_eq_some hroll
    split
    next hok =>
      refine ⟨hx, hsnap, fun u' roll' hres => ?_⟩
      cases hres
      refine ⟨rfl, ⟨hu₂, hok.1, hok.2.1, ?_, hroll, hok.2.2.2.1, hok.2.2.2.2⟩, hx₂.held hlock,
        hheld₂ _ (by rw [hroll]; simp) ?_⟩
      · rw [(evolves_of_ext hx₂).roleName hu hu₂]
        exact hok.2.2.1
      · rw [val_roll, show c₂.db.rolls.get? roll.id = some roll from Table.get?_key hmem]
        rfl
    · exact ⟨hx, hsnap, by simp⟩

/-! ### `request_blind_token` -/

/-- The signing step signs with a key pair that carries the election's anchor. -/
theorem spec_signBlinded (blinded : ℤ) (e : Election) :
    (rules L E).wp r wk (signBlinded L blinded e) (fun res c' => (rules L E).Ext c c' ∧
      c'.loc = c.loc ∧ (∀ a, res = Except.error a → a.failed = true) ∧
      ∀ sig, res = Except.ok sig → ∃ k : KeyPair, E.cached c'.world wk e.id = some k ∧
        e.blindSigningKeyId = some (fingerprint L k.publicKey) ∧
        blindSignWith k.privateKey.publicKey.n k.privateKey.d blinded = .ok sig) c := by
  have hfail : ∀ err, (signBlinded.keyErrorResponse err).failed = true := by
    intro err
    cases err <;> rfl
  unfold signBlinded
  refine wp_bind_of (spec_ensureKey e.id e.blindSigningKeyId false) ?_
  rintro (err | components) c₁ ⟨hx₁, hl₁, hok⟩
  · exact ⟨hx₁, hl₁, by rintro a ⟨⟩; exact hfail err, by simp⟩
  obtain ⟨⟨k, hk, hfp⟩, hanchor, hallow⟩ := hok components rfl
  unfold blindSign
  refine wp_bind.mpr (wp_bind_of (spec_loadKeys e.id) ?_)
  rintro (err | k') c₂ ⟨hx₂, hl₂, hk'⟩
  · exact ⟨hx₁.trans hx₂, hl₂.trans hl₁, by rintro a ⟨⟩; exact hfail err, by simp⟩
  -- both loads returned the cached pair
  obtain rfl : k' = k := Option.some.inj ((hk' k' rfl).symm.trans (cached_of_ext hx₂ hk))
  show (rules L E).wp r wk (match blindSignWith _ _ _ with | _ => _) _ c₂
  rcases hs : blindSignWith k'.privateKey.publicKey.n k'.privateKey.d blinded with err | sig
  · exact ⟨hx₁.trans hx₂, hl₂.trans hl₁, by rintro a ⟨⟩; exact hfail err, by simp⟩
  · refine ⟨hx₁.trans hx₂, hl₂.trans hl₁, by simp, fun sig' hsig => ?_⟩
    cases hsig
    refine ⟨k', hk' k' rfl, ?_, hs⟩
    rcases ha : e.blindSigningKeyId with _ | id
    · exact absurd (hallow ha) (by simp)
    · rw [← hfp, hanchor id ha]

/-- What `request_blind_token` leaves, with its reply: a failure and nothing, or one token and a
signature with a pair that the worker holds. -/
inductive TokenOutcome (L : Lib) (E : Environment) (r : Request) : Response → List (Db × Db) → Prop
  | refused {a} (h : a.failed = true) : TokenOutcome L E r a []
  | issued {cookie data body blinded w wk k sig} {d d' : Db} {u : User} {e : Election}
      (request : r = .requestBlindToken cookie data)
      (parsed : parseTokenRequest data = .ok (body, (e.id : ℤ)))
      (blind : (getItem body (py "blinded_ballot")).toInt16 = .ok blinded)
      (cached : E.cached w wk e.id = some k)
      (signed : blindSignWith k.privateKey.publicKey.n k.privateKey.d blinded = .ok sig)
      (election : d.elections.get? e.id = some e)
      (anchor : e.blindSigningKeyId = some (fingerprint L k.publicKey))
      (after : d'.toTables = addToken u.id e.id d.toTables) :
      TokenOutcome L E r (.blindSignature (hex sig) e.id) [(d, d')]

theorem TokenOutcome.post {a : Response} {ws : List (Db × Db)} (h : TokenOutcome L E r a ws) :
    Post L r a ws := by
  cases h with
  | refused h => exact post_of_failed h rfl
  | issued request parsed blind _ signed election anchor after =>
    refine ⟨by simp [Response.failed], by simp [Response.reportsSuccess], fun {s i} ha => ?_⟩
    cases ha
    exact ⟨_, _, _, _, _, _, _, _, _, _, request, parsed, blind, signed, rfl, rfl, election, anchor,
      after⟩

/-- A loaded user whose current role is `voter` goes on with the voter connection. -/
theorem Loaded.bind_voters {cu : CurrentUser} (h : Loaded r c cu) {u : User} {d : Db}
    (hev : Evolves c.db d) (hid : u.id = cu.user.id) (hu : d.users.get? u.id = some u)
    (hrole : hasRole (d.roleName u) "voter" = true) : cu.bind = .voters := by
  obtain ⟨d₀, -, hu₀, hr₀, hev₀⟩ := h.user
  rw [hid] at hu
  have hname : d.roleName u = cu.role := by rw [hr₀, (hev₀.trans hev).roleName hu₀ hu]
  rw [hname] at hrole
  have hvoter : cu.role = some (py "voter") := by simpa [hasRole] using hrole
  rw [h.bind, hvoter]
  decide

theorem wp_issueBlindToken {cookie : Option PyStr} {data : Option Json} {cu : CurrentUser}
    {body : Json} {electionId : ℤ} (hr : r = .requestBlindToken cookie data)
    (hbody : parseTokenRequest data = .ok (body, electionId)) (hcu : Loaded r c cu)
    (hw : writes c.log = []) :
    (rules L E).wp r wk (issueBlindToken L cu body electionId)
      (fun a c' => TokenOutcome L E r a (writes c'.log)) c := by
  have hrefuse : ∀ {a} {c' : Conf L E}, a.failed = true → writes c'.log = [] →
      TokenOutcome L E r a (writes c'.log) := fun ha hw => hw ▸ .refused ha
  unfold issueBlindToken
  refine wp_bind_of (spec_lockElection .share electionId) ?_
  rintro res c₁ ⟨hx₁, hsnap₁, helection⟩
  rcases res with _ | e
  · exact hrefuse rfl (hx₁.writes_eq.trans hw)
  obtain ⟨hheld₁, hid⟩ := helection e rfl
  refine wp_bind_of (spec_isOpen e) ?_
  rintro b c₂ ⟨hx₂, hl₂, hopen⟩
  have hw₂ : writes c₂.log = [] := (hx₁.trans hx₂).writes_eq.trans hw
  rcases b with _ | _
  · exact hrefuse rfl hw₂
  obtain ⟨hopen, hrec⟩ := hopen rfl
  refine wp_bind_of (spec_lockAndValidateVoter cu.user.id) ?_
  rintro res c₃ ⟨hx₃, hsnap₃, hvoter⟩
  have hw₃ : writes c₃.log = [] := hx₃.writes_eq.trans hw₂
  rcases res with err | ⟨u, roll⟩
  · exact wp_bind_of spec_abort fun _ c' habort => hrefuse rfl (habort.2.trans hw₃)
  obtain ⟨huid, helig, hulock, hrlock⟩ := hvoter u roll rfl
  have hx₁₃ := (hx₁.trans hx₂).trans hx₃
  have hcu₃ := hcu.carry hx₁₃
  obtain ⟨d₀, hd₀, hu₀, hrole₀, hev₀⟩ := hcu₃.user
  have hbind : cu.bind = .voters :=
    hcu₃.bind_voters (.refl _) huid helig.user helig.voter
  rw [hbind]
  refine wp_bind_of (spec_select Bind.voters _) ?_
  rintro _ c₄ ⟨hx₄, d, hd, rfl, -, -, hheld₄⟩
  -- the roster comes from the snapshot of the user load
  obtain rfl : d = d₀ := Option.some.inj (hd.symm.trans (hx₄.snap hd₀))
  have hw₄ : writes c₄.log = [] := hx₄.writes_eq.trans hw₃
  split
  · exact wp_bind_of spec_abort fun _ c' habort => hrefuse rfl (habort.2.trans hw₄)
  next hsingle =>
  rw [not_or, not_not, not_not] at hsingle
  split
  · exact wp_bind_of spec_abort fun _ c' habort => hrefuse rfl (habort.2.trans hw₄)
  next hregion =>
  rw [not_not] at hregion
  rcases hblind : (getItem body (py "blinded_ballot")).toInt16 with err | blinded
  · exact hrefuse rfl hw₄
  refine wp_bind_of (spec_selectLocking _ _ _) ?_
  rintro existingToken c₅ ⟨hx₅, -, -, hsnap₅⟩
  refine wp_bind_of (spec_select Bind.voters _) ?_
  rintro existingReceipt c₆ ⟨hx₆, d₁, hd₁, rfl, -⟩
  obtain rfl : d = d₁ :=
    Option.some.inj ((((hx₄.trans hx₅).trans hx₆).snap hd₀).symm.trans hd₁)
  have hw₆ : writes c₆.log = [] := (hx₅.trans hx₆).writes_eq.trans hw₄
  split
  · exact hrefuse rfl hw₆
  split
  · exact hrefuse rfl hw₆
  next hreceipt =>
  refine wp_bind_of (spec_signBlinded blinded e) ?_
  rintro res c₇ ⟨hx₇, hl₇, hfailed, hsigned⟩
  have hw₇ : writes c₇.log = [] := hx₇.writes_eq.trans hw₆
  rcases res with a | sig
  · exact wp_bind_of spec_abort fun _ c' habort =>
      hrefuse (hfailed a rfl) (habort.2.trans hw₇)
  obtain ⟨k, hcached, hkey, hsig⟩ := hsigned sig rfl
  have hx₃₇ := ((hx₄.trans hx₅).trans hx₆).trans hx₇
  refine wp_bind_of (spec_save (P := fun res c' => res.elim (writes c'.log = []) fun _ =>
      ∃ d d', c'.loc = .fresh ∧ writes c'.log = [(d, d')] ∧ c'.db = d' ∧
        d.elections.get? e.id = some e ∧ (d'.users.get? u.id).isSome ∧
        (d'.elections.get? e.id).isSome ∧ d'.toTables = addToken u.id e.id d.toTables)
    (fun c' hx _ => hx.writes_eq.trans hw₇) fun c' d' hx hl hd' => ?_) ?_
  · have hx₃' := hx₃₇.trans hx
    have hheld := (hheld₁.carry hx₂).carry (hx₃.trans hx₃')
    have helig' := helig.carry hulock hrlock hx₃'
    have hact : TokenIssue L r c₇.loc c'.db d' u e roll :=
      { request := ⟨_, _, _, hr, by rw [hbody, hid]⟩
        subject := huid ▸ hcu.subject
        election := hl ▸ hheld
        isOpen := hopen
        recovery := hrec
        voter := helig'
        roster := ⟨d, (hx₃₇.snap hd₀), ⟨hsingle.1, hsingle.2⟩, hregion⟩
        unspent := ⟨d, hx₃₇.snap hd₀, by simpa using hreceipt⟩
        after := hd' }
    have hev := (Act.token (L := L) hact).evolves
    obtain ⟨u', hu', -⟩ := hev.users helig'.user
    obtain ⟨e', he', -⟩ := hev.elections hheld.row
    exact ⟨.token hact, c'.db, d', rfl, by rw [writes_append, hw₇]; rfl, rfl, hheld.row,
      by rw [hu']; rfl, by rw [he']; rfl, hd'⟩
  · rintro (_ | ⟨⟩) c₈ h₈
    · exact wp_bind_of spec_abort fun _ c' habort => hrefuse rfl (habort.2.trans h₈)
    · obtain ⟨d₁, d₂, hfresh, hw₈, hdb, he, hu, he', hafter⟩ := h₈
      refine wp_mono (spec_auditRow hfresh (by rw [hw₈]; simp) (by rw [hdb]; exact hu)) ?_
      rintro a c₉ ⟨hw₉, -, hres⟩
      obtain rfl := hres fun d hev => by
        obtain ⟨e₂, he₂⟩ := Option.isSome_iff_exists.mp he'
        obtain ⟨e₃, he₃, -⟩ := hev.elections (by rw [hdb]; exact he₂)
        rw [he₃]
        rfl
      rw [hw₉, hw₈]
      exact .issued hr (by rw [hbody, hid]) hblind hcached hsig he hkey hafter

theorem failed_of_parseTokenRequest {data : Option Json} {a : Response}
    (h : parseTokenRequest data = .error a) : a.failed = true := by
  unfold parseTokenRequest at h
  repeat' split at h
  all_goals cases h <;> rfl

theorem wp_requestBlindToken_outcome {cookie : Option PyStr} {data : Option Json}
    (hloc : c.loc = .fresh) (hw : writes c.log = []) :
    (rules L E).wp (.requestBlindToken cookie data) wk (requestBlindToken L cookie data)
      (fun a c' => TokenOutcome L E (.requestBlindToken cookie data) a (writes c'.log)) c := by
  have hrefuse : ∀ {a} {c' : Conf L E}, a.failed = true → writes c'.log = [] →
      TokenOutcome L E (.requestBlindToken cookie data) a (writes c'.log) :=
    fun ha hw => hw ▸ .refused ha
  unfold requestBlindToken
  refine wp_loginRequired_of (r := .requestBlindToken cookie data) hloc hw ?_
    fun cu c' hcu _ _ hw' => ?_
  · rintro _ c' (rfl | rfl) hw'
    · exact hrefuse rfl hw'
    · exact hrefuse (by decide) hw'
  rcases hbody : parseTokenRequest data with a | ⟨body, electionId⟩
  · exact hrefuse (failed_of_parseTokenRequest hbody) hw'
  · exact wp_issueBlindToken rfl hbody hcu hw'

theorem wp_requestBlindToken {cookie : Option PyStr} {data : Option Json} (hloc : c.loc = .fresh)
    (hw : writes c.log = []) :
    (rules L E).wp (.requestBlindToken cookie data) wk (requestBlindToken L cookie data)
      (fun a c' => Post L (.requestBlindToken cookie data) a (writes c'.log)) c :=
  wp_mono (wp_requestBlindToken_outcome hloc hw) fun _ _ h => h.post

/-! ### `cast_anonymous_ballot` -/

/-- How the key of an election can fail: by the checks on its anchor, or as the key files do. -/
inductive KeyFailure (E : Environment) : PyError → Prop
  | anchor (message : String) : KeyFailure E (.blindSigningKeyError message)
  | files {wk w i e w'} (h : E.answer wk w (.loadKeys i) (.error e) w') : KeyFailure E e

/-- What `cast_anonymous_ballot` leaves for a parsed ballot, with its reply. -/
inductive BallotOutcome (L : Lib) (E : Environment) (b : ParsedBallot) :
    Response → List (Ev Db Event Response) → Prop
  | rejected {message code} (h : code ∈ [400, 403, 409, 503]) :
      BallotOutcome L E b (.error message code) []
  | keyError {e} (h : KeyFailure E e) (hne : ∀ message, e ≠ .blindSigningKeyError message) :
      BallotOutcome L E b (.uncaught e) []
  | recorded {d d' : Db} {e : Election} {c : Candidate} {token ts spentAt}
      (election : (e.id : ℤ) = b.electionId) (candidate : (c.id : ℤ) = b.candidateId)
      (after : d'.toTables = addVoteAndNullifier L token ts spentAt b.nonce c e.id d.toTables) :
      BallotOutcome L E b .ballotRecorded
        [.write d d', .emit (.audit none "ballot.cast" "election" e.id)]

theorem BallotOutcome.post {b : ParsedBallot} {a : Response} {log : List (Ev Db Event Response)}
    (h : BallotOutcome L E b a log) {data : Option Json} :
    Post L (.castAnonymousBallot data) a (writes log) := by
  cases h with
  | rejected _ => exact post_of_failed rfl rfl
  | keyError _ _ => exact post_of_failed rfl rfl
  | recorded _ _ _ => exact ⟨by simp [Response.failed], by simp [Response.reportsSuccess], by simp⟩

/-- The verification step accepts only with a key pair that carries the election's anchor. -/
theorem spec_verifyBallot (b : ParsedBallot) (e : Election) :
    (rules L E).wp r wk (verifyBallot L b e) (fun res c' => (rules L E).Ext c c' ∧
      c'.loc = c.loc ∧ (res = Except.ok true → ∃ k : KeyPair,
        e.blindSigningKeyId = some (fingerprint L k.publicKey) ∧
        verifyWith L k.publicKey b.bytes b.signature = .ok true)) c := by
  unfold verifyBallot
  refine wp_bind_of (spec_ensureKey e.id e.blindSigningKeyId false) ?_
  rintro (err | components) c₁ ⟨hx₁, hl₁, hok⟩
  · exact ⟨hx₁, hl₁, by simp⟩
  obtain ⟨⟨k, hk, hfp⟩, hanchor, hallow⟩ := hok components rfl
  unfold verifyUnblindedSignature
  refine wp_bind_of (spec_loadKeys e.id) ?_
  rintro (err | k') c₂ ⟨hx₂, hl₂, hk'⟩
  · exact ⟨hx₁.trans hx₂, hl₂.trans hl₁, by simp⟩
  -- both loads returned the cached pair
  obtain rfl : k' = k := Option.some.inj ((hk' k' rfl).symm.trans (cached_of_ext hx₂ hk))
  refine ⟨hx₁.trans hx₂, hl₂.trans hl₁, fun hv => ⟨k', ?_, hv⟩⟩
  rcases ha : e.blindSigningKeyId with _ | id
  · exact absurd (hallow ha) (by simp)
  · rw [← hfp, hanchor id ha]

/-- The verification step raises `BlindSigningKeyError`, or what the key files raise. -/
theorem spec_verifyBallot_error (b : ParsedBallot) (e : Election) :
    (rules L E).wp r wk (verifyBallot L b e) (fun res _ => ∀ err, res = Except.error err →
      KeyFailure E err) c := by
  have hload : ∀ {c₁ : Conf L E}, (rules L E).wp r wk (loadKeys e.id)
      (fun res _ => ∀ err, res = Except.error err → KeyFailure E err) c₁ := fun {c₁} =>
    wp_mono (spec_call _) fun res c' ⟨_, _, w, hans, _⟩ err herr => .files (herr ▸ hans)
  have hanchor : (rules L E).wp r wk (prepareKey e.id e.blindSigningKeyId false)
      (fun res _ => ∀ err, res = Except.error err → KeyFailure E err) c := by
    unfold prepareKey
    split
    · rintro _ ⟨⟩
      exact .anchor _
    · split
      · rintro _ ⟨⟩
      · rintro _ ⟨⟩
        exact .anchor _
  unfold verifyBallot ensureElectionBlindSigningKey
  refine wp_bind.mpr (wp_bind_of hanchor ?_)
  rintro (err | ⟨⟩) c₁ herr
  · exact fun _ h => by cases h; exact herr err rfl
  unfold getPublicKeyComponents
  refine wp_bind.mpr (wp_bind.mpr (wp_bind_of hload ?_))
  rintro (err | k) c₂ herr
  · exact fun _ h => by cases h; exact herr err rfl
  show (rules L E).wp r wk (if _ then _ else _) _ c₂
  split
  · refine wp_bind_of hload ?_
    rintro (err | k') c₃ herr
    · exact fun _ h => by cases h; exact herr err rfl
    · -- the modulus of a loaded pair is large enough for the hash
      obtain ⟨v, hv⟩ := k'.verifyWith_ok L b.bytes b.signature
      intro err h
      rw [hv] at h
      cases h
  · rintro _ ⟨⟩
    exact .anchor _

theorem silent_verifyBallot (b : ParsedBallot) (e : Election) : (verifyBallot L b e).Silent := by
  unfold verifyBallot verifyUnblindedSignature
  refine Prog.silent_bind (silent_ensureKey _ _ _) ?_
  rintro (err | components)
  · trivial
  refine Prog.silent_bind (fun _ => trivial) ?_
  rintro (err | k) <;> trivial

theorem wp_recordBallot {data : Option Json} {b : ParsedBallot} (hr : r = .castAnonymousBallot data)
    (hb : parseBallot L data = .ok b) (hloc : c.loc = .fresh) (hlog : c.log = []) :
    (rules L E).wp r wk (recordBallot L b) (fun a c' => BallotOutcome L E b a c'.log) c := by
  have hreject : ∀ {m code} {c' : Conf L E}, code ∈ [400, 403, 409, 503] → c'.log = [] →
      BallotOutcome L E b (.error m code) c'.log := fun hcode hlog => hlog ▸ .rejected hcode
  have hraise : ∀ {err} {c' : Conf L E}, KeyFailure E err →
      (∀ message, err ≠ .blindSigningKeyError message) → c'.log = [] →
      BallotOutcome L E b (.uncaught err) c'.log := fun herr hne hlog => hlog ▸ .keyError herr hne
  unfold recordBallot
  refine wp_bind_silent (fun _ => trivial) (spec_lockElection .share b.electionId) ?_
  rintro res c₁ ⟨hx₁, hsnap₁, helection⟩ hlog₁
  rcases res with _ | e
  · exact hreject (by simp) (hlog₁.trans hlog)
  obtain ⟨hheld₁, hid⟩ := helection e rfl
  refine wp_bind_silent (silent_isOpen e) (spec_isOpen e) ?_
  rintro o c₂ ⟨hx₂, hl₂, hopen⟩ hlog₂
  have hlog₂ := hlog₂.trans (hlog₁.trans hlog)
  rcases o with _ | _
  · exact hreject (by simp) hlog₂
  obtain ⟨hopen, hrec⟩ := hopen rfl
  refine wp_bind_silent (silent_verifyBallot b e)
    (wp_and (spec_verifyBallot b e) (spec_verifyBallot_error b e)) ?_
  rintro res c₃ ⟨⟨hx₃, hl₃, hkey⟩, herror⟩ hlog₃
  have hlog₃ := hlog₃.trans hlog₂
  have hheld₃ : Held c₃.loc .share c₃.db e := hheld₁.carry (hx₂.trans hx₃)
  rcases res with err | ok
  · rcases err with _ | _ | _ | _ | _ | _ | _ | m
    case blindSigningKeyError => exact hreject (by simp) hlog₃
    all_goals exact hraise (herror _ rfl) (by simp) hlog₃
  rcases ok with _ | _
  · exact hreject (by simp) hlog₃
  obtain ⟨k, hanchor, hverify⟩ := hkey rfl
  refine wp_bind_silent (fun _ => trivial) (spec_select Bind.voters _) ?_
  rintro _ c₄ ⟨hx₄, d, hd, rfl, hfresh, -, -⟩ hlog₄
  have hlog₄ := hlog₄.trans hlog₃
  -- the first plain read of the request: its snapshot is taken under the election lock
  obtain rfl := hfresh (by rw [hl₃, hl₂, hsnap₁, hloc]; rfl)
  have hheld₄ : Held c₄.loc .share c₄.db e := hheld₃.carry hx₄
  generalize hcand : (byId c₄.db.candidates b.candidateId).filter
    (fun c => decide (c.electionId = e.id)) = found
  rcases found with _ | cand
  · exact hreject (by simp) hlog₄
  obtain ⟨hbyId, hcel⟩ := Option.filter_eq_some_iff.mp hcand
  have hcel : cand.electionId = e.id := by simpa using hcel
  obtain ⟨-, hcid, hget⟩ := byId_eq_some hbyId
  refine wp_bind_silent (fun _ => trivial) (spec_select Bind.voters _) ?_
  rintro _ c₅ ⟨hx₅, d, hd₅, rfl, -, -, -⟩ hlog₅
  have hlog₅ := hlog₅.trans hlog₄
  split
  · exact wp_bind_silent trivial spec_abort fun _ _ _ hlog' =>
      hreject (by simp) (hlog'.trans hlog₅)
  refine wp_bind_silent (fun _ => trivial) (spec_call _) ?_
  rintro spentAt c₆ ⟨hx₆, hl₆, -⟩ hlog₆
  refine wp_bind_silent (fun _ => trivial) (spec_call _) ?_
  rintro token c₇ ⟨hx₇, hl₇, -⟩ hlog₇
  refine wp_bind_silent (fun _ => trivial) (spec_call _) ?_
  rintro ts c₈ ⟨hx₈, hl₈, -⟩ hlog₈
  have hx₄₈ := ((hx₅.trans hx₆).trans hx₇).trans hx₈
  have hlog₈ : c₈.log = [] := hlog₈.trans (hlog₇.trans (hlog₆.trans hlog₅))
  refine wp_bind_of (spec_save (P := fun res c' => res.elim (c'.log = []) fun _ =>
      ∃ d d', c'.log = [.write d d'] ∧ c'.loc = .fresh ∧ c'.db = d' ∧
        (d'.elections.get? e.id).isSome ∧ d'.toTables =
          addVoteAndNullifier L token ts spentAt b.nonce cand e.id d.toTables)
    (fun _ _ hlog' => hlog'.trans hlog₈) fun c' d' hx hl hd' => ?_) ?_
  · have hx' := hx₄₈.trans hx
    have hheld : Held c'.loc .share c'.db e := hheld₄.carry hx'
    have hcand' : c'.db.candidates.get? cand.id = some cand :=
      (evolves_of_ext hx').candidate hget (by rw [hcel]; exact hheld₄.row) (by rw [hopen]; decide)
    have hact : BallotCast L r c₈.loc c'.db d' b e cand :=
      { request := ⟨data, hr, hb⟩
        election := hl ▸ hheld
        isOpen := hopen
        recovery := hrec
        electionId := hid
        candidate := hcand'
        candidateId := hcid
        candidateElection := hcel
        key := ⟨k, hanchor, hverify⟩
        after := ⟨token, ts, spentAt, hd'⟩ }
    obtain ⟨e', he', -⟩ := (Act.ballot (L := L) hact).evolves.elections hheld.row
    exact ⟨.ballot hact, c'.db, d', by rw [hlog₈]; rfl, rfl, rfl, by rw [he']; rfl, hd'⟩
  · rintro (_ | ⟨⟩) c₉ h₉
    · exact wp_bind_silent trivial spec_abort fun _ _ _ hlog' =>
        hreject (by simp) (hlog'.trans h₉)
    · obtain ⟨d, d', hlog₉, hfresh, hdb, hsome, hafter⟩ := h₉
      refine wp_bind_silent (fun _ => trivial) (spec_select Bind.voters _) ?_
      rintro _ c₁₀ ⟨hx₁₀, d₁, hd₁, rfl, hlatest, -⟩ hlog₁₀
      obtain rfl := hlatest (by rw [hfresh]; rfl)
      -- the election is still there: no commit deletes one
      obtain ⟨e₁, he₁⟩ := Option.isSome_iff_exists.mp hsome
      obtain ⟨e', he', -⟩ := (evolves_of_ext hx₁₀).elections (by rw [hdb]; exact he₁)
      rw [he']
      have hid' : e'.id = e.id := Table.key_of_get? he'
      have hlog' : c₁₀.log = [.write d d'] := hlog₁₀.trans hlog₉
      refine wp_bind.mpr (wp_report.mpr ⟨?_, ?_⟩)
      · show writes c₁₀.log ≠ []
        rw [hlog']
        simp
      · show BallotOutcome L E b .ballotRecorded (c₁₀.log ++ _)
        rw [hlog', hid']
        exact .recorded hid hcid hafter

theorem failed_of_ballotInt {j : Json} {a : Response} (h : ballotInt j = .error a) :
    a.failed = true := by
  unfold ballotInt at h
  split at h <;> cases h <;> rfl

theorem failed_of_parseBallot {data : Option Json} {a : Response}
    (h : parseBallot L data = .error a) : a.failed = true := by
  have hdecode : ∀ {x y a}, decodeBallot L x y = .error a → a.failed = true := by
    intro x y a h
    unfold decodeBallot at h
    dsimp only at h
    repeat' split at h
    all_goals cases h <;> rfl
  have hfields : ∀ {bytes doc s a}, ballotFields bytes doc s = .error a → a.failed = true := by
    intro bytes doc s a h
    unfold ballotFields at h
    dsimp only at h
    repeat' split at h
    all_goals cases h <;> first | rfl | exact failed_of_ballotInt (by assumption)
  unfold parseBallot at h
  repeat' split at h
  · next hd =>
    cases h
    exact hdecode hd
  · exact hfields h
  all_goals (cases h; rfl)

theorem wp_castAnonymousBallot {data : Option Json} (hloc : c.loc = .fresh) (hlog : c.log = []) :
    (rules L E).wp (.castAnonymousBallot data) wk (castAnonymousBallot L data)
      (fun a c' => Post L (.castAnonymousBallot data) a (writes c'.log)) c := by
  unfold castAnonymousBallot
  rcases hb : parseBallot L data with a | b
  · exact post_of_failed (failed_of_parseBallot hb) (by rw [hlog]; rfl)
  · exact wp_mono (wp_recordBallot rfl hb hloc hlog) fun _ _ h => h.post

/-! ### `cast_anonymous_vote` -/

/-- The service, for a candidate and an election of the snapshot `d₀`: a raised exception leaves
no write. -/
theorem spec_castAnonymousVote {d₀ : Db} {user : User} {candidate : Candidate}
    {election : Option Election} (hr : ∃ j, r = .castVote user.id candidate.id j)
    (hd₀ : c.loc.snap .voters = some d₀) (hev : Evolves d₀ c.db)
    (hcand : d₀.candidates.get? candidate.id = some candidate)
    (helection : ∀ e, election = some e → d₀.elections.get? e.id = some e)
    (hw : writes c.log = []) :
    (rules L E).wp r wk (castAnonymousVote L user candidate election)
      (fun res c' => ∀ err, res = Except.error err → writes c'.log = []) c := by
  obtain ⟨j, hj⟩ := hr
  unfold castAnonymousVote
  have hloaded : (rules L E).wp r wk (electionOf candidate election)
      (fun res c' => (rules L E).Ext c c' ∧
        ∀ e, res = some e → d₀.elections.get? e.id = some e) c := by
    rcases election with _ | e
    · refine wp_mono (spec_select Bind.voters _) ?_
      rintro _ c' ⟨hx, d, hd, rfl, -⟩
      obtain rfl : d = d₀ := Option.some.inj (hd.symm.trans (hx.snap hd₀))
      exact ⟨hx, fun e he => by rw [show e.id = _ from Table.key_of_get? he]; exact he⟩
    · exact ⟨.refl c, fun e' he' => by cases he'; exact helection e rfl⟩
  refine wp_bind_of hloaded ?_
  rintro (_ | e₀) c₁ ⟨hx₁, he₀⟩
  · exact fun _ _ => hx₁.writes_eq.trans hw
  have he₀ := he₀ e₀ rfl
  have hw₁ := hx₁.writes_eq.trans hw
  dsimp only
  split
  · exact fun _ _ => hw₁
  next hceq =>
  rw [not_not] at hceq
  refine wp_bind_of (spec_lockElection .share e₀.id) ?_
  rintro locked c₂ ⟨hx₂, -, hlocked⟩
  have hw₂ := hx₂.writes_eq.trans hw₁
  have hopen : (rules L E).wp r wk (lockedIsOpen locked e₀)
      (fun b c' => (rules L E).Ext c₂ c' ∧ (b = true → (∃ e, locked = some e) ∧
        e₀.status = .open ∧ e₀.blindKeyRecoveryRequired = false)) c₂ := by
    rcases locked with _ | e
    · exact ⟨.refl c₂, by simp⟩
    · refine wp_mono (spec_isOpen e₀) ?_
      rintro b c' ⟨hx, -, hb⟩
      exact ⟨hx, fun h => ⟨⟨e, rfl⟩, hb h⟩⟩
  refine wp_bind_of hopen ?_
  rintro b c₃ ⟨hx₃, hb⟩
  have hw₃ := hx₃.writes_eq.trans hw₂
  rcases b with _ | _
  · exact fun _ _ => hw₃
  obtain ⟨⟨e, rfl⟩, hstatus, hrec⟩ := hb rfl
  obtain ⟨hheld₂, hid⟩ := hlocked e rfl
  have hid : e.id = e₀.id := by exact_mod_cast hid
  refine wp_bind_of (spec_lockAndValidateVoter user.id) ?_
  rintro (err | ⟨u, roll⟩) c₄ ⟨hx₄, -, hvoter⟩
  · exact fun _ _ => hx₄.writes_eq.trans hw₃
  obtain ⟨huid, helig, hulock, hrlock⟩ := hvoter u roll rfl
  have hw₄ := hx₄.writes_eq.trans hw₃
  show (rules L E).wp r wk (if _ then _ else _) _ c₄
  split
  · exact fun _ _ => hw₄
  next hregion =>
  rw [not_not] at hregion
  refine wp_bind_of (spec_select Bind.voters _) ?_
  rintro existingReceipt c₅ ⟨hx₅, -⟩
  have hw₅ := hx₅.writes_eq.trans hw₄
  split
  · exact fun _ _ => hw₅
  refine wp_bind_of (spec_select Bind.voters _) ?_
  rintro existingAuthorization c₆ ⟨hx₆, d, hd, rfl, -⟩
  have hw₆ := hx₆.writes_eq.trans hw₅
  split
  · exact fun _ _ => hw₆
  next htoken =>
  refine wp_bind_of (spec_call _) ?_
  rintro nonce c₇ ⟨hx₇, hl₇, -⟩
  refine wp_bind_of (spec_call _) ?_
  rintro ts c₈ ⟨hx₈, hl₈, -⟩
  refine wp_bind_of (spec_call _) ?_
  rintro now c₉ ⟨hx₉, hl₉, -⟩
  have hx₄₉ := (((hx₅.trans hx₆).trans hx₇).trans hx₈).trans hx₉
  have hw₉ := ((hx₇.trans hx₈).trans hx₉).writes_eq.trans hw₆
  have hx₁₉ := ((hx₂.trans hx₃).trans hx₄).trans hx₄₉
  refine wp_bind_of (spec_save (P := fun res c' => res = none → writes c'.log = [])
    (fun c' hx _ _ => hx.writes_eq.trans hw₉) fun c' d' hx hl hd' => ?_) ?_
  · have hsnap : c₉.loc.snap .voters = some d₀ := (hx₁.trans hx₁₉).snap hd₀
    have hev' : Evolves d₀ c'.db := hev.trans (evolves_of_ext ((hx₁.trans hx₁₉).trans hx))
    have hact : VoteCast L r c₉.loc c'.db d' u e₀ candidate :=
      { request := ⟨_, _, hj⟩
        election := ⟨e, hl ▸ hheld₂.carry (((hx₃.trans hx₄).trans hx₄₉).trans hx), hid⟩
        loaded := ⟨d₀, hsnap, he₀, hcand, hev'⟩
        isOpen := hstatus
        recovery := hrec
        candidate := hev'.candidate hcand (hceq ▸ he₀) (by rw [hstatus]; decide)
        candidateElection := hceq
        voter := ⟨roll, helig.carry hulock hrlock (hx₄₉.trans hx), hregion⟩
        unspent := ⟨j, d, huid ▸ hj, ((hx₇.trans hx₈).trans hx₉).snap hd,
          by simpa using htoken⟩
        after := ⟨nonce, ts, now, hd'⟩ }
    exact ⟨.vote hact, by simp⟩
  · rintro (_ | ⟨⟩) c₁₀ h₁₀
    · exact fun _ _ => h₁₀ rfl
    · exact fun err h => by cases h

theorem wp_castVote {userId candidateId : ℕ} {electionId : Option ℕ} (hloc : c.loc = .fresh)
    (hw : writes c.log = []) :
    (rules L E).wp (.castVote userId candidateId electionId) wk
      (castVote L userId candidateId electionId)
      (fun a c' => Post L (.castVote userId candidateId electionId) a (writes c'.log)) c := by
  unfold castVote
  refine wp_bind_of (spec_select Bind.voters _) ?_
  rintro _ c₁ ⟨hx₁, d₀, hd₀, rfl, hfresh, -⟩
  obtain rfl := hfresh (by rw [hloc]; rfl)
  refine wp_bind_of (spec_select Bind.voters _) ?_
  rintro _ c₂ ⟨hx₂, d, hd, rfl, -⟩
  obtain rfl : d = c₁.db := Option.some.inj (hd.symm.trans (hx₂.snap hd₀))
  refine wp_bind_of (spec_select Bind.voters _) ?_
  rintro _ c₃ ⟨hx₃, d, hd₃, rfl, -⟩
  obtain rfl : d = c₁.db := Option.some.inj (hd₃.symm.trans (hx₃.snap hd))
  have hw₃ : writes c₃.log = [] := ((hx₁.trans hx₂).trans hx₃).writes_eq.trans hw
  rcases huser : c₁.db.users.get? userId with _ | user
  · exact post_of_failed rfl hw₃
  obtain rfl : user.id = userId := Table.key_of_get? huser
  rcases hcand : c₁.db.candidates.get? candidateId with _ | candidate
  · exact post_of_failed rfl hw₃
  obtain rfl : candidate.id = candidateId := Table.key_of_get? hcand
  refine wp_bind_of (spec_castAnonymousVote ⟨_, rfl⟩ hd₃ (evolves_of_ext (hx₂.trans hx₃))
    hcand ?_ hw₃) ?_
  · intro e he
    obtain ⟨i, -, hi⟩ := Option.bind_eq_some_iff.mp he
    rw [show e.id = _ from Table.key_of_get? hi]
    exact hi
  · rintro (err | ⟨⟩) c₄ h₄
    · exact post_of_failed rfl (h₄ err rfl)
    · exact ⟨by simp [Response.failed], by simp [Response.reportsSuccess], by simp⟩

end SecureVote
