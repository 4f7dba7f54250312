import SecureVote.Rules

/-!
# Specifications of the shared steps

What the clock check of an election, the audit step after a commit, the identity hook and the
key functions establish. Each one says which configuration it ends in, as a later point of the
same transaction, and what its result means there.
-/

open Txn Txn.Rules

namespace SecureVote

open Py

variable {L : Lib} {E : Environment} {r : Request} {wk : ℕ} {c : Conf L E}

/-! ### Elections and audit events -/

/-- An election that passes the open check has the status `open` and no recovery flag. -/
theorem spec_isOpen (e : Election) :
    (rules L E).wp r wk e.isOpen (fun b c' => (rules L E).Ext c c' ∧ c'.loc = c.loc ∧
      (b = true → e.status = .open ∧ e.blindKeyRecoveryRequired = false)) c := by
  unfold Election.isOpen
  split
  · exact ⟨.refl c, rfl, by simp⟩
  next h =>
    refine wp_bind_of (spec_call _) ?_
    rintro now c' ⟨hx, hl, -⟩
    refine ⟨hx, hl, fun _ => ?_⟩
    rw [not_or, not_not] at h
    exact ⟨h.1, by simpa using h.2⟩

theorem silent_isOpen (e : Election) : e.isOpen.Silent := by
  unfold Election.isOpen
  split
  · trivial
  · exact fun _ => trivial

/-- A locking read of one election by id: the current row, held. -/
theorem spec_lockElection (m : Mode) (id : ℤ) :
    (rules L E).wp r wk (lockElection m id) (fun res c' => (rules L E).Ext c c' ∧
      c'.loc.snap = c.loc.snap ∧
      ∀ e, res = some e → Held c'.loc m c'.db e ∧ (e.id : ℤ) = id) c := by
  refine wp_mono (spec_selectLocking m _ _) fun res c' ⟨hx, hres, hheld, hsnap⟩ =>
    ⟨hx, hsnap, fun e he => ?_⟩
  subst hres
  obtain ⟨-, hid, hget⟩ := byId_eq_some he
  refine ⟨⟨hheld (.election e.id) (by rw [he]; simp) ?_, hget⟩, hid⟩
  rw [val_election, show c'.db.elections.get? e.id = some e from hget]
  rfl

/-- The audit step after a commit: it leaves one event, and fails only when the row it names is
gone. -/
theorem spec_auditRow {α : Type} [Keyed α] {b : Bind} {actor : ℕ} {action targetType : String}
    {t : Tables → Table α} {target : ℕ} {a : Response} (hloc : c.loc = .fresh)
    (hw : writes c.log ≠ []) (hu : (c.db.users.get? actor).isSome) :
    (rules L E).wp r wk (auditRow b actor action targetType t target a) (fun res c' =>
      writes c'.log = writes c.log ∧ (res = a ∨ res = .objectDeleted) ∧
      ((∀ d, Evolves c.db d → ((t d.toTables).get? target).isSome) → res = a)) c := by
  unfold auditRow refresh
  refine wp_bind_of (spec_select b _) ?_
  rintro res c₁ ⟨hx₁, d, hd, rfl, hfresh, -, -⟩
  obtain rfl := hfresh (by rw [hloc]; rfl)
  have hev := evolves_of_ext hx₁
  obtain ⟨u, hu⟩ := Option.isSome_iff_exists.mp hu
  obtain ⟨u', hu', -⟩ := hev.users hu
  rw [hu']
  refine wp_bind_of (spec_select b _) ?_
  rintro res c₂ ⟨hx₂, d, hd₂, rfl, -, -, -⟩
  obtain rfl : d = c₁.db := Option.some.inj (hd₂.symm.trans (hx₂.snap hd))
  have hw₂ : writes c₂.log = writes c.log := hx₂.writes_eq.trans hx₁.writes_eq
  rcases ht : (t c₁.db.toTables).get? target with _ | x
  · refine ⟨hw₂, Or.inr rfl, fun h => ?_⟩
    have := h _ hev
    rw [ht] at this
    cases this
  · refine wp_bind_of (spec_report (by rw [← hw₂] at hw; exact hw)) fun _ c₃ ⟨hx₃, _⟩ =>
      ⟨hx₃.writes_eq.trans hw₂, Or.inl rfl, fun _ => rfl⟩

/-! ### Commits -/

/-- A commit that is not refused is an action of the system. -/
theorem spec_save {f : Tables → Tables} {P : Option Unit → Conf L E → Prop}
    (hnone : ∀ c', (rules L E).Ext c c' → c'.log = c.log → P none c')
    (hsome : ∀ c' d', (rules L E).Ext c c' → c'.loc = c.loc → d'.toTables = f c'.db.toTables →
      Act L r c.loc c'.db d' ∧ P (some ()) ⟨.fresh, d', c'.world, c.log ++ [.write c'.db d']⟩) :
    (rules L E).wp r wk (save f) P c := by
  refine spec_write (fun c' hx hlog _ => hnone c' hx hlog) fun c' hx hl _ b d' hf => ?_
  obtain ⟨d₁, hd₁, heq⟩ := Option.map_eq_some_iff.mp hf
  cases heq
  exact hsome c' _ hx hl (Db.commit_eq_some.mp hd₁)

theorem spec_insertRow {next : Tables → ℕ} {f : Tables → Tables}
    {P : Option ℕ → Conf L E → Prop} (hnone : ∀ c', (rules L E).Ext c c' → c'.log = c.log → P none c')
    (hsome : ∀ c' d', (rules L E).Ext c c' → c'.loc = c.loc → d'.toTables = f c'.db.toTables →
      Act L r c.loc c'.db d' ∧
        P (some (next c'.db.toTables)) ⟨.fresh, d', c'.world, c.log ++ [.write c'.db d']⟩) :
    (rules L E).wp r wk (insertRow next f) P c := by
  refine spec_write (fun c' hx hlog _ => hnone c' hx hlog) fun c' hx hl _ b d' hf => ?_
  obtain ⟨d₁, hd₁, heq⟩ := Option.map_eq_some_iff.mp hf
  cases heq
  exact hsome c' _ hx hl (Db.commit_eq_some.mp hd₁)

/-! ### Identity -/

/-- What is known of the user of an authenticated request: the row of the voter snapshot. -/
structure Loaded (r : Request) (c : Conf L E) (cu : CurrentUser) : Prop where
  subject : r.subject L = some (cu.user.id : ℤ)
  user : ∃ d₀, c.loc.snap .voters = some d₀ ∧ d₀.users.get? cu.user.id = some cu.user ∧
    cu.role = d₀.roleName cu.user ∧ Evolves d₀ c.db
  bind : cu.bind = if hasRole cu.role "manager" || hasRole cu.role "delegate" then Bind.admin
    else .voters

theorem Loaded.carry {c' : Conf L E} {cu : CurrentUser} (h : Loaded r c cu)
    (hx : (rules L E).Ext c c') : Loaded r c' cu := by
  obtain ⟨d₀, hs, hu, hr, hev⟩ := h.user
  exact ⟨h.subject, ⟨d₀, hx.snap hs, hu, hr, hev.trans (evolves_of_ext hx)⟩, h.bind⟩

/-- A loaded user still exists. -/
theorem Loaded.exists_user {cu : CurrentUser} (h : Loaded r c cu) {d : Db} (hd : Evolves c.db d) :
    (d.users.get? cu.user.id).isSome := by
  obtain ⟨d₀, -, hu, -, hev⟩ := h.user
  obtain ⟨u, hu', -⟩ := (hev.trans hd).users hu
  rw [hu']
  rfl

theorem spec_isPasswordExpired (u : User) :
    (rules L E).wp r wk u.isPasswordExpired
      (fun _ c' => (rules L E).Ext c c' ∧ c'.loc = c.loc) c := by
  unfold User.isPasswordExpired
  split
  · exact ⟨.refl c, rfl⟩
  · refine wp_bind_of (spec_call _) ?_
    rintro now c' ⟨hx, hl, -⟩
    exact ⟨hx, hl⟩

theorem silent_isPasswordExpired (u : User) : u.isPasswordExpired.Silent := by
  unfold User.isPasswordExpired
  split
  · trivial
  · exact fun _ => trivial

/-- A token is issued for a row that was read. -/
theorem spec_issueToken {u : User} {b : Bind} {d₀ : Db} (hs : c.loc.snap b = some d₀)
    (hu : d₀.users.get? u.id = some u) :
    (rules L E).wp r wk (issueToken L u.id u.sessionVersion)
      (fun _ c' => (rules L E).Ext c c' ∧ c'.loc = c.loc) c := by
  unfold issueToken
  refine wp_bind_of (spec_call _) fun now c₁ ⟨hx₁, hl₁, _⟩ => ?_
  refine wp_mono (spec_report ⟨_, b, d₀, u, rfl, by rw [hl₁]; exact hs, hu, rfl, rfl⟩)
    fun _ c₂ ⟨hx₂, hl₂⟩ => ⟨hx₁.trans hx₂, hl₂.trans hl₁⟩

theorem spec_refreshToken {p : Payload} {u : User} {b : Bind} {d₀ : Db}
    (hs : c.loc.snap b = some d₀) (hu : d₀.users.get? u.id = some u) :
    (rules L E).wp r wk (refreshToken L p u)
      (fun _ c' => (rules L E).Ext c c' ∧ c'.loc = c.loc) c := by
  unfold refreshToken
  refine wp_bind_of (spec_call _) ?_
  rintro now c₁ ⟨hx₁, hl₁, -⟩
  dsimp only
  split
  · refine wp_bind_of (spec_isPasswordExpired u) ?_
    rintro expired c₂ ⟨hx₂, hl₂⟩
    split
    · exact ⟨hx₁.trans hx₂, hl₂.trans hl₁⟩
    · refine wp_mono (spec_issueToken (by rw [hl₂, hl₁]; exact hs) hu) ?_
      rintro _ c₃ ⟨hx₃, hl₃⟩
      exact ⟨(hx₁.trans hx₂).trans hx₃, hl₃.trans (hl₂.trans hl₁)⟩
  · exact ⟨hx₁, hl₁⟩

/-- The reply of the identity hook to a user whose password has expired. -/
def passwordExpired : Response :=
  .redirect (py "Your password has expired. Please change it to continue.") "warning"
    "password.change_password"

/-- What the identity hook establishes. -/
def Identified (r : Request) (c c' : Conf L E) (res : Except Response (Option CurrentUser)) : Prop :=
  (rules L E).Ext c c' ∧ c'.loc.snap .admin = c.loc.snap .admin ∧ c'.loc.held = c.loc.held ∧
    match res with
    | .error a => a = passwordExpired
    | .ok none => True
    | .ok (some cu) => Loaded r c' cu

theorem spec_acceptUser {token : PyStr} {p : Payload} {changing : Bool} {u : User}
    {role : Option PyStr} {d₀ : Db} (hcookie : r.cookie = some token)
    (hp : L.jwtClaims token = some p) (hsub : p.sub.toInt = .ok (u.id : ℤ))
    (hm : p.matches u = true)
    (hs : c.loc.snap .voters = some d₀) (hu : d₀.users.get? u.id = some u)
    (hrole : role = d₀.roleName u) (hev : Evolves d₀ c.db) :
    (rules L E).wp r wk (acceptUser L token p changing u role)
      (fun res c' => Identified r c c' res) c := by
  unfold acceptUser
  refine wp_bind_of (spec_isPasswordExpired u) fun expired c₁ ⟨hx₁, hl₁⟩ => ?_
  have hs₁ : c₁.loc.snap .voters = some d₀ := by rw [hl₁]; exact hs
  refine wp_bind_of (spec_report ⟨hcookie, p, d₀, u, hp, hsub, hs₁, hu, hm⟩) fun _ c₂ ⟨hx₂, hl₂⟩ => ?_
  split
  · exact ⟨hx₁.trans hx₂, by rw [hl₂, hl₁], by rw [hl₂, hl₁], rfl⟩
  · refine wp_bind_of (spec_refreshToken (by rw [hl₂]; exact hs₁) hu) fun _ c₃ ⟨hx₃, hl₃⟩ => ?_
    have hx := (hx₁.trans hx₂).trans hx₃
    refine ⟨hx, by rw [hl₃, hl₂, hl₁], by rw [hl₃, hl₂, hl₁],
      by simp [Request.subject, hcookie, hp, hsub, Except.toOption],
      ⟨d₀, hx.snap hs, hu, hrole, hev.trans (evolves_of_ext hx)⟩, rfl⟩

theorem spec_loadUserFromJwt (hsnap : c.loc.snap .voters = none) (changing : Bool) :
    (rules L E).wp r wk (loadUserFromJwt L r.cookie changing)
      (fun res c' => Identified r c c' res) c := by
  unfold loadUserFromJwt
  have hnone : Identified r c c (.ok none) := ⟨.refl c, rfl, rfl, trivial⟩
  split
  · exact hnone
  · exact hnone
  next token hne hcookie =>
    refine wp_bind_of (spec_call _) ?_
    rintro now c₁ ⟨hx₁, hl₁, -⟩
    have hnone₁ : Identified r c c₁ (.ok none) := ⟨hx₁, by rw [hl₁], by rw [hl₁], trivial⟩
    split
    · exact hnone₁
    next p hp =>
      have hclaims : L.jwtClaims token = some p := by
        obtain ⟨q, hq, hqp⟩ := Option.bind_eq_some_iff.mp hp
        split at hqp
        · cases hqp
        · cases hqp
          exact hq
      split
      · exact hnone₁
      next userId hsub =>
        refine wp_bind_of (spec_select Bind.voters _) ?_
        rintro res c₂ ⟨hx₂, d₀, hd₀, rfl, hfresh, hother, hheld⟩
        obtain rfl := hfresh (by rw [hl₁]; exact hsnap)
        have hx := hx₁.trans hx₂
        have hadmin : c₂.loc.snap .admin = c.loc.snap .admin := by
          rw [hother .admin (by decide), hl₁]
        have hheld' : c₂.loc.held = c.loc.held := by rw [hheld, hl₁]
        rcases hu : byId c₂.db.users userId with _ | u
        · exact ⟨hx, hadmin, hheld', trivial⟩
        · show (rules L E).wp r wk (if _ then _ else _) _ c₂
          split
          · exact ⟨hx, hadmin, hheld', trivial⟩
          next hok =>
            rw [not_or] at hok
            refine wp_mono (spec_acceptUser hcookie hclaims
              (by rw [hsub, ← (byId_eq_some hu).2.1]; rfl) (by simpa using hok.2) hd₀
              (byId_eq_some hu).2.2 rfl (.refl _)) ?_
            rintro res c₃ ⟨hx₃, ha₃, hh₃, hres⟩
            exact ⟨hx.trans hx₃, ha₃.trans hadmin, hh₃.trans hheld', hres⟩

/-- A reply without any write. -/
theorem post_of_nil {a : Response} (hs : ∀ s i, a ≠ .blindSignature s i)
    {ws : List (Db × Db)} (hw : ws = []) : Post L r a ws :=
  ⟨fun _ => hw, fun _ _ => hw, fun {s i} h => absurd h (hs s i)⟩

theorem post_of_failed {a : Response} (hf : a.failed = true) {ws : List (Db × Db)} (hw : ws = []) :
    Post L r a ws :=
  post_of_nil (fun s i h => by rw [h] at hf; cases hf) hw

/-- `login_required`: an anonymous or refused request ends without a write, and the rest runs
for the user of the voter snapshot. -/
theorem wp_loginRequired_of {changing : Bool} {k : CurrentUser → Handler Response}
    {P : Response → Conf L E → Prop} (hloc : c.loc = .fresh) (hlog : writes c.log = [])
    (hstop : ∀ a c', a = .unauthorized ∨ a = passwordExpired → writes c'.log = [] → P a c')
    (hk : ∀ cu c', Loaded r c' cu → c'.loc.snap .admin = none → c'.loc.held = [] →
      writes c'.log = [] → (rules L E).wp r wk (k cu) P c') :
    (rules L E).wp r wk (loginRequired L r.cookie changing k) P c := by
  unfold loginRequired
  refine wp_bind_of (spec_loadUserFromJwt (by rw [hloc]; rfl) changing) ?_
  rintro res c₁ ⟨hx, hadmin, hheld, hres⟩
  have hw : writes c₁.log = [] := hx.writes_eq.trans hlog
  rcases res with a | _ | cu
  · exact hstop a c₁ (Or.inr hres) hw
  · exact hstop _ c₁ (Or.inl rfl) hw
  · exact hk cu c₁ hres (by rw [hadmin, hloc]; rfl) (by rw [hheld, hloc]; rfl) hw

theorem wp_loginRequired {changing : Bool} {k : CurrentUser → Handler Response}
    (hloc : c.loc = .fresh) (hlog : writes c.log = [])
    (hk : ∀ cu c', Loaded r c' cu → c'.loc.snap .admin = none → c'.loc.held = [] →
      writes c'.log = [] →
      (rules L E).wp r wk (k cu) (fun a c'' => Post L r a (writes c''.log)) c') :
    (rules L E).wp r wk (loginRequired L r.cookie changing k)
      (fun a c' => Post L r a (writes c'.log)) c := by
  refine wp_loginRequired_of hloc hlog (fun a c' ha hw => post_of_failed ?_ hw) hk
  rcases ha with rfl | rfl
  · rfl
  · decide

theorem wp_rolesRequired {allowed : List String} {k : CurrentUser → Handler Response}
    (hloc : c.loc = .fresh) (hlog : writes c.log = [])
    (hk : ∀ cu c', Loaded r c' cu → c'.loc.snap .admin = none → c'.loc.held = [] →
      writes c'.log = [] → allowed.any (hasRole cu.role) = true →
      (rules L E).wp r wk (k cu) (fun a c'' => Post L r a (writes c''.log)) c') :
    (rules L E).wp r wk (rolesRequired L allowed r.cookie k)
      (fun a c' => Post L r a (writes c'.log)) c := by
  refine wp_loginRequired hloc hlog fun cu c' hcu ha hh hw => ?_
  split
  next hrole => exact hk cu c' hcu ha hh hw hrole
  · exact post_of_failed rfl hw

theorem wp_adminOnly {k : CurrentUser → Handler Response}
    (hloc : c.loc = .fresh) (hlog : writes c.log = [])
    (hk : ∀ cu c', Loaded r c' cu → c'.loc.snap .admin = none → c'.loc.held = [] →
      writes c'.log = [] → hasRole cu.role "manager" = true →
      (rules L E).wp r wk (k cu) (fun a c'' => Post L r a (writes c''.log)) c') :
    (rules L E).wp r wk (adminOnly L r.cookie k)
      (fun a c' => Post L r a (writes c'.log)) c := by
  refine wp_loginRequired hloc hlog fun cu c' hcu ha hh hw => ?_
  split
  next hrole => exact hk cu c' hcu ha hh hw hrole
  · exact post_of_nil (by simp) hw

/-! ### Keys -/

/-- A loaded pair is the cached one, from then on. -/
theorem spec_loadKeys (i : ℕ) :
    (rules L E).wp r wk (loadKeys i) (fun res c' => (rules L E).Ext c c' ∧
      c'.loc = c.loc ∧ ∀ k, res = Except.ok k → E.cached c'.world wk i = some k) c :=
  wp_mono (spec_call _) fun res c' ⟨hx, hl, w, hans, _⟩ =>
    ⟨hx, hl, fun k hk => by subst hk; exact E.load_cached hans⟩

/-- A cached pair stays cached along a transaction. -/
theorem cached_of_ext {c' : Conf L E} (hx : (rules L E).Ext c c') {i : ℕ} {k : KeyPair}
    (hk : E.cached c.world wk i = some k) : E.cached c'.world wk i = some k :=
  Relies.cached hx.rely hk

/-- `ensure_election_blind_signing_key` succeeds only with a cached pair whose fingerprint it
returns, and which is the anchor when there is one. -/
theorem spec_ensureKey (i : ℕ) (expected : Option PyStr) (allowCreate : Bool) :
    (rules L E).wp r wk (ensureElectionBlindSigningKey L i expected allowCreate) (fun res c' =>
      (rules L E).Ext c c' ∧ c'.loc = c.loc ∧ ∀ components, res = Except.ok components →
        (∃ k : KeyPair, E.cached c'.world wk i = some k ∧
          components.keyId = fingerprint L k.publicKey) ∧
        (∀ id, expected = some id → components.keyId = id) ∧
        (expected = none → allowCreate = true)) c := by
  unfold ensureElectionBlindSigningKey
  have hprep : (rules L E).wp r wk (prepareKey i expected allowCreate) (fun res c' =>
      (rules L E).Ext c c' ∧ c'.loc = c.loc ∧
        (res = Except.ok () → expected = none → allowCreate = true)) c := by
    unfold prepareKey
    split
    · split
      next h =>
        refine wp_mono (spec_call _) ?_
        rintro res c' ⟨hx, hl, -⟩
        exact ⟨hx, hl, fun _ _ => h⟩
      · exact ⟨.refl c, rfl, by simp⟩
    · split
      · exact ⟨.refl c, rfl, by simp⟩
      · exact ⟨.refl c, rfl, by simp⟩
  refine wp_bind_of hprep ?_
  rintro (e | ⟨⟩) c₁ ⟨hx₁, hl₁, hallow⟩
  · exact ⟨hx₁, hl₁, by simp⟩
  unfold getPublicKeyComponents
  refine wp_bind.mpr (wp_bind_of (spec_loadKeys i) ?_)
  rintro (e | k) c₂ ⟨hx₂, hl₂, hk⟩
  · exact ⟨hx₁.trans hx₂, hl₂.trans hl₁, by simp⟩
  · show (rules L E).wp r wk (if _ then _ else _) _ c₂
    split
    next hall =>
      refine ⟨hx₁.trans hx₂, hl₂.trans hl₁, fun components hc => ?_⟩
      cases hc
      refine ⟨⟨k, hk k rfl, rfl⟩, fun id hid => ?_, hallow rfl⟩
      subst hid
      exact (by simpa using hall : id = _).symm
    · exact ⟨hx₁.trans hx₂, hl₂.trans hl₁, by simp⟩

theorem silent_prepareKey (i : ℕ) (expected : Option PyStr) (allowCreate : Bool) :
    (prepareKey i expected allowCreate).Silent := by
  unfold prepareKey
  split
  · split
    · exact fun _ => trivial
    · trivial
  · split <;> trivial

theorem silent_ensureKey (i : ℕ) (expected : Option PyStr) (allowCreate : Bool) :
    (ensureElectionBlindSigningKey L i expected allowCreate).Silent := by
  unfold ensureElectionBlindSigningKey
  refine Prog.silent_bind (silent_prepareKey i expected allowCreate) ?_
  rintro (err | ⟨⟩)
  · trivial
  refine Prog.silent_bind (Prog.silent_bind (fun _ => trivial) ?_) ?_
  · rintro (err | k) <;> trivial
  · rintro (err | components)
    · trivial
    · show (if _ then _ else _ : Handler _).Silent
      split <;> trivial

end SecureVote
