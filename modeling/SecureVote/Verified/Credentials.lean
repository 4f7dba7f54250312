import SecureVote.Verified.Commits
import SecureVote.Txn.Solo

/-!
# What stands behind a commit

A request that commits has shown something before: a session token of a user who may do this, a
signed link, or a new password that the rules accept. `Backed` says which, in terms of states that
the run has been in, and `sourced_handle` verifies it of the logs of all handlers.
-/

open Txn Txn.Rules

namespace SecureVote

open Py

variable {L : Lib} {E : Environment} {r : Request} {wk : ℕ}

/-! ### Credentials -/

/-- The view is behind `login_required`. -/
def Request.bySession : Request → Bool
  | .castAnonymousBallot _ | .castVote _ _ _ | .verifyEmail _ | .resetPassword _ _
  | .verifyElectionResults _ _ | .changeSignedResult _ _ | .anchorOpenElectionKeys => false
  | _ => true

/-- The role checks of a view: `admin_only`, `roles_required` and the test of
`sign_election_results`. -/
def Request.allows (r : Request) (role : Option PyStr) : Bool :=
  match r with
  | .createElection _ _ | .openElection _ _ | .closeElection _ _ | .signElectionResults _ _ _
  | .approveUser _ _ | .rejectUser _ _ => hasRole role "manager"
  | .createCandidate _ _ | .updateCandidate _ _ _ | .deleteCandidate _ _ =>
      ["delegate", "manager"].any (hasRole role)
  | _ => true

/-- In the state `d` the session cookie of the request is a token of the user `u`, in force, and the
user is not rejected. -/
structure SignedIn (L : Lib) (r : Request) (d : Db) (u : User) : Prop where
  token : ∃ token p, r.cookie = some token ∧ L.jwtClaims token = some p ∧
    p.sub.toInt = .ok (u.id : ℤ) ∧ p.matches u = true
  user : d.users.get? u.id = some u
  accepted : u.accountStatus ≠ .rejected

/-- The user of the session may send the request. -/
structure Permitted (L : Lib) (r : Request) (d : Db) (u : User) : Prop extends
    SignedIn L r d u where
  role : r.allows (d.roleName u) = true

/-- The hash was computed from a password that `validate_password_strength` accepts. -/
def StrongHash (E : Environment) (hash : PyStr) : Prop :=
  ∃ wk w w' password, validatePasswordStrength password = none ∧
    E.answer wk w (.passwordHash password) hash w'

/-- What stands behind the commit from `d` to `d'`, with `past` the states it looks back to. -/
structure Backed (L : Lib) (E : Environment) (past : Db → Prop) (r : Request) (d d' : Db) :
    Prop where
  session : r.bySession = true → ∃ d₀ u, past d₀ ∧ Permitted L r d₀ u
  approval : ∀ {cookie id}, r = .approveUser cookie id → ∃ d₀ u enrolment, past d₀ ∧
    d₀.users.get? id = some u ∧ u.emailVerified = true ∧
    d'.toTables = markApproved u enrolment d.toTables
  link : ∀ {token}, r = .verifyEmail token → ∃ d₀ u email ts, past d₀ ∧
    L.verifyToken token = some (email, ts) ∧ d₀.userByEmail L email = some u ∧
    d'.toTables = markVerified u.id d.toTables
  password : (∃ cookie form, r = .changePassword cookie form) ∨
    (∃ token form, r = .resetPassword token form) → ∃ u hash changedAt, StrongHash E hash ∧
      d'.toTables = writePassword u hash changedAt d.toTables

/-- A plain read sees a state of `past`. -/
def ReadsPast (L : Lib) (E : Environment) (past : Db → Prop) : Condition (machine L E) :=
  fun _ _ _ d => past d

/-- The weakest precondition of a handler whose reads see states of `past` and whose commits are
backed. -/
abbrev sourcedWp (L : Lib) (E : Environment) (past : Db → Prop) (r : Request) (wk : ℕ) {β : Type}
    (p : Handler β) (P : β → Conf L E → Prop) (c : Conf L E) : Prop :=
  commitsWp (ReadsPast L E past) (Backed L E past) r wk p P c

variable {past : Db → Prop} {c : Conf L E}

/-- A plain read of a state of `past`, when the connection has no snapshot. -/
theorem sourcedWp_select {β γ : Type} {b : Bind} {q : Db → β} {f : β → Handler γ}
    {P : γ → Conf L E → Prop} (hc : writes c.log = []) (hsnap : c.loc.snap b = none)
    (hf : ∀ d c', past d → writes c'.log = [] → sourcedWp L E past r wk (f (q d)) P c') :
    sourcedWp L E past r wk (Prog.select b q >>= f) P c := by
  refine commitsWp_select hc fun d c' hpast hc' => ?_
  rw [Local.view, hsnap]
  exact hf d c' hpast hc'

/-! ### The identity hook -/

/-- What is known of the user of a session: a row of `past`, the role it had there, and the
connection the request goes on with. -/
structure InSession (L : Lib) (past : Db → Prop) (r : Request) (cu : CurrentUser) : Prop where
  user : ∃ d₀, past d₀ ∧ SignedIn L r d₀ cu.user ∧ cu.role = d₀.roleName cu.user
  bind : cu.bind = if hasRole cu.role "manager" || hasRole cu.role "delegate" then Bind.admin
    else .voters

theorem InSession.permitted {cu : CurrentUser} (h : InSession L past r cu)
    (hr : r.allows cu.role = true) : ∃ d₀ u, past d₀ ∧ Permitted L r d₀ u := by
  obtain ⟨d₀, hpast, hs, hrole⟩ := h.user
  exact ⟨d₀, cu.user, hpast, hs, hrole ▸ hr⟩

theorem sourcedWp_loadUserFromJwt (hc : writes c.log = []) (hsnap : c.loc.snap .voters = none)
    (changing : Bool) :
    sourcedWp L E past r wk (loadUserFromJwt L r.cookie changing) (fun res c' =>
      writes c'.log = [] ∧ c'.loc.snap .admin = c.loc.snap .admin ∧
        ∀ cu, res = .ok (some cu) → InSession L past r cu) c := by
  have hnone : ∀ c' : Conf L E, c'.log = c.log → c'.loc.snap .admin = c.loc.snap .admin →
      writes c'.log = [] ∧ c'.loc.snap .admin = c.loc.snap .admin ∧
        ∀ cu, (.ok none : Except Response (Option CurrentUser)) = .ok (some cu) →
          InSession L past r cu :=
    fun c' hlog hadmin => ⟨by rw [hlog, hc], hadmin, by simp⟩
  unfold loadUserFromJwt
  split
  · exact hnone c rfl rfl
  · exact hnone c rfl rfl
  next token hne hcookie =>
    refine lwp_bind.mpr (lwp_call.mpr fun d w hl (now : Time) w' ha => ?_)
    split
    · exact hnone _ rfl rfl
    next p hp =>
      have hclaims : L.jwtClaims token = some p := by
        obtain ⟨q, hq, hqp⟩ := Option.bind_eq_some_iff.mp hp
        split at hqp
        · cases hqp
        · cases hqp
          exact hq
      split
      · exact hnone _ rfl rfl
      next userId hsub =>
        refine lwp_bind.mpr (lwp_select.mpr fun d₀ w₀ hl₀ (hpast : past d₀) => ?_)
        have hview : c.loc.view .voters d₀ = d₀ := by rw [Local.view, hsnap]; rfl
        rw [hview]
        have hadmin : (c.loc.look .voters d₀).snap .admin = c.loc.snap .admin := by
          simp [Local.look]
        have hvoters : (c.loc.look .voters d₀).snap .voters = some d₀ := by
          rw [Local.snap_look_self, hview]
        rcases hu : byId d₀.users userId with _ | u
        · exact hnone _ rfl hadmin
        show sourcedWp L E past r wk (if _ then _ else _) _ _
        split
        · exact hnone _ rfl hadmin
        next hok =>
          rw [not_or] at hok
          have hid : p.sub.toInt = .ok (u.id : ℤ) := by
            rw [hsub, ← (byId_eq_some hu).2.1]
            rfl
          have hm : p.matches u = true := by simpa using hok.2
          have hget : d₀.users.get? u.id = some u := (byId_eq_some hu).2.2
          have hspec : (rules L E).wp r wk (acceptUser L token p changing u (d₀.roleName u))
              (fun res c' => Identified r ⟨c.loc.look .voters d₀, d₀, w₀, c.log⟩ c' res)
              ⟨c.loc.look .voters d₀, d₀, w₀, c.log⟩ :=
            spec_acceptUser hcookie hclaims hid hm hvoters hget rfl (.refl _)
          refine lwp_mono (lwp_of_wp (reports_acceptUser token p changing u _)
            (fun _ o h _ => h.append rfl) (.of_nil hc) hspec) ?_
          rintro res c' ⟨⟨hx, hadmin', -, hres⟩, hafter, -⟩
          obtain ⟨os, hlog, -⟩ := hafter.log
          refine ⟨by rw [hlog, writes_append, hc, writes_emits]; rfl, hadmin'.trans hadmin, ?_⟩
          rintro cu rfl
          obtain ⟨hsubject, ⟨d₁, hd₁, hu₁, hrole, -⟩, hbind⟩ := hres
          -- the row of the session is the one that was read
          obtain rfl : d₁ = d₀ := Option.some.inj (hd₁.symm.trans (hx.snap hvoters))
          have huid : cu.user.id = u.id := by
            simpa [Request.subject, hcookie, hclaims, hid, Except.toOption, eq_comm] using hsubject
          have huser : cu.user = u := by
            rw [huid, hget] at hu₁
            exact (Option.some.inj hu₁).symm
          refine ⟨⟨d₁, hpast, ⟨⟨token, p, hcookie, hclaims, ?_, ?_⟩, hu₁, ?_⟩, hrole⟩, hbind⟩
          · rw [huid, hid]
          · rw [huser, hm]
          · rw [huser]
            exact hok.1

/-- `login_required`: the rest runs for the user of the session. -/
theorem sourcedWp_loginRequired {changing : Bool} {k : CurrentUser → Handler Response}
    (hloc : c.loc = .fresh) (hc : writes c.log = [])
    (hk : ∀ cu c', InSession L past r cu → c'.loc.snap .admin = none → writes c'.log = [] →
      sourcedWp L E past r wk (k cu) (fun _ _ => True) c') :
    sourcedWp L E past r wk (loginRequired L r.cookie changing k) (fun _ _ => True) c := by
  unfold loginRequired
  refine lwp_bind.mpr (lwp_mono
    (sourcedWp_loadUserFromJwt hc (by rw [hloc]; rfl) changing) ?_)
  rintro (a | _ | cu) c' ⟨hc', hadmin, hsession⟩
  · trivial
  · trivial
  · exact hk cu c' (hsession cu rfl) (by rw [hadmin, hloc]; rfl) hc'

theorem sourcedWp_rolesRequired {allowed : List String} {k : CurrentUser → Handler Response}
    (hloc : c.loc = .fresh) (hc : writes c.log = [])
    (hk : ∀ cu c', InSession L past r cu → c'.loc.snap .admin = none → writes c'.log = [] →
      allowed.any (hasRole cu.role) = true →
      sourcedWp L E past r wk (k cu) (fun _ _ => True) c') :
    sourcedWp L E past r wk (rolesRequired L allowed r.cookie k) (fun _ _ => True) c := by
  refine sourcedWp_loginRequired hloc hc fun cu c' hcu ha hw => ?_
  split
  next hrole => exact hk cu c' hcu ha hw hrole
  · trivial

theorem sourcedWp_adminOnly {k : CurrentUser → Handler Response}
    (hloc : c.loc = .fresh) (hc : writes c.log = [])
    (hk : ∀ cu c', InSession L past r cu → c'.loc.snap .admin = none → writes c'.log = [] →
      hasRole cu.role "manager" = true → sourcedWp L E past r wk (k cu) (fun _ _ => True) c') :
    sourcedWp L E past r wk (adminOnly L r.cookie k) (fun _ _ => True) c := by
  refine sourcedWp_loginRequired hloc hc fun cu c' hcu ha hw => ?_
  split
  next hrole => exact hk cu c' hcu ha hw hrole
  · trivial

/-! ### Commits -/

/-- The commit of the request is tied to what it has read or computed before. -/
def Request.looksBack : Request → Bool
  | .approveUser _ _ | .verifyEmail _ | .changePassword _ _ | .resetPassword _ _ => true
  | _ => false

/-- A handler past its session check, whose commit is not tied to anything else. -/
theorem sourcedWp_of_session {β : Type} {p : Handler β} (hr : r.looksBack = false)
    (hs : r.bySession = true → ∃ d₀ u, past d₀ ∧ Permitted L r d₀ u) :
    sourcedWp L E past r wk p (fun _ _ => True) c := by
  refine lwp_of_forall (fun log d d' _ => ⟨hs, ?_, ?_, ?_⟩) fun _ _ => trivial
  · rintro cookie id rfl
    cases hr
  · rintro token rfl
    cases hr
  · rintro (⟨cookie, form, rfl⟩ | ⟨token, form, rfl⟩) <;> cases hr

theorem sourcedWp_ofManager {allowed : List String} {k : CurrentUser → Handler Response}
    (hloc : c.loc = .fresh) (hc : writes c.log = []) (hr : r.looksBack = false)
    (hall : ∀ role, allowed.any (hasRole role) = true → r.allows role = true) :
    sourcedWp L E past r wk (rolesRequired L allowed r.cookie k) (fun _ _ => True) c :=
  sourcedWp_rolesRequired hloc hc fun _ _ hcu _ _ hrole =>
    sourcedWp_of_session hr fun _ => hcu.permitted (hall _ hrole)

/-! ### The handlers -/

theorem sourcedWp_getUser {β : Type} {cu : CurrentUser} {userId : ℕ}
    {f : Option User → Handler β} {P : β → Conf L E → Prop} (hcu : InSession L past r cu)
    (hrole : hasRole cu.role "manager" = true) (hadmin : c.loc.snap .admin = none)
    (hc : writes c.log = [])
    (hf : ∀ res c', writes c'.log = [] →
      (∀ u, res = some u → ∃ d₀, past d₀ ∧ d₀.users.get? userId = some u) →
      sourcedWp L E past r wk (f res) P c') :
    sourcedWp L E past r wk (getUser cu userId >>= f) P c := by
  have hbind : cu.bind = .admin := by
    rw [hcu.bind, hrole]
    rfl
  unfold getUser
  split
  next h =>
    obtain ⟨d₀, hpast, hs, -⟩ := hcu.user
    refine hf (some cu.user) c hc fun u hu => ?_
    cases hu
    exact ⟨d₀, hpast, by rw [h]; exact hs.user⟩
  next h =>
    rw [hbind]
    exact sourcedWp_select hc hadmin fun d c' hpast hc' => hf _ c' hc' fun u hu => ⟨d, hpast, hu⟩

theorem sourcedWp_approveUser {cookie : Option PyStr} {userId : ℕ} (hloc : c.loc = .fresh)
    (hc : writes c.log = []) :
    sourcedWp L E past (.approveUser cookie userId) wk (approveUser L cookie userId)
      (fun _ _ => True) c := by
  unfold approveUser
  refine sourcedWp_adminOnly (r := .approveUser cookie userId) hloc hc
    fun cu c₁ hcu hadmin hc₁ hrole => ?_
  refine sourcedWp_getUser hcu hrole hadmin hc₁ fun res c₂ hc₂ hread => ?_
  rcases res with _ | u
  · trivial
  show sourcedWp L E past _ wk (if _ then _ else _) _ c₂
  split
  · trivial
  next hverified =>
    obtain ⟨d₀, hpast, hu⟩ := hread u rfl
    refine commitsWp_bind hc₂ (fun _ => trivial) fun enrolment c₃ hc₃ => ?_
    refine commitsWp_save hc₃ (fun d d' hd => ⟨fun _ => hcu.permitted hrole, ?_, ?_, ?_⟩) ?_
    · rintro _ _ ⟨⟩
      exact ⟨d₀, u, enrolment, hpast, hu, by simpa using hverified, hd⟩
    · rintro _ ⟨⟩
    · rintro (⟨_, _, ⟨⟩⟩ | ⟨_, _, ⟨⟩⟩)
    · rintro (_ | ⟨⟩)
      · trivial
      · exact reports_auditRow _ _ _ _ _ _ _

theorem sourcedWp_verifyEmail {token : PyStr} (hloc : c.loc = .fresh) (hc : writes c.log = []) :
    sourcedWp L E past (.verifyEmail token) wk (verifyEmail L token) (fun _ _ => True) c := by
  unfold verifyEmail
  refine lwp_bind.mpr (lwp_call.mpr fun d w _ (now : Time) w' _ => ?_)
  split
  · trivial
  · trivial
  next data hdata =>
    refine sourcedWp_select hc (by rw [hloc]; rfl) fun d₀ c₁ hpast hc₁ => ?_
    rcases hu : d₀.userByEmail L data with _ | u
    · trivial
    show sourcedWp L E past _ wk (if _ then _ else _) _ c₁
    split
    · trivial
    refine commitsWp_save hc₁ (fun d d' hd => ⟨by simp [Request.bySession], ?_, ?_, ?_⟩) ?_
    · rintro _ _ ⟨⟩
    · rintro _ ⟨⟩
      obtain ⟨ts, hts⟩ := loadsTimed_eq_ok hdata
      exact ⟨d₀, u, data, ts, hpast, hts, hu, hd⟩
    · rintro (⟨_, _, ⟨⟩⟩ | ⟨_, _, ⟨⟩⟩)
    · rintro (_ | ⟨⟩) <;> trivial

/-- `set_password` and its commit: the hash is that of a password that passed the check. -/
theorem sourcedWp_setPassword {γ : Type} {u : User} {password : PyStr}
    {f : Except PyStr (Option Unit) → Handler γ} (hc : writes c.log = [])
    (hb : ∀ d d' hash changedAt, StrongHash E hash →
      d'.toTables = writePassword u hash changedAt d.toTables → Backed L E past r d d')
    (hf : ∀ x, (f x).Reports fun _ => True) :
    sourcedWp L E past r wk (setPassword u password >>= f) (fun _ _ => True) c := by
  unfold setPassword
  rcases hweak : validatePasswordStrength password with _ | complaint
  swap
  · exact commitsWp_end (.of_nil hc) (hf (.error complaint))
  rw [Prog.bind_assoc]
  refine lwp_bind.mpr (lwp_call.mpr fun d w _ (hash : PyStr) w' ha => ?_)
  have hstrong : StrongHash E hash := ⟨wk, w, w', password, hweak, ha⟩
  rw [Prog.bind_assoc]
  refine commitsWp_bind hc (fun _ => trivial) fun (changedAt : Time) c₁ hc₁ => ?_
  rw [Prog.bind_assoc]
  exact commitsWp_save hc₁ (fun d d' hd => hb d d' hash changedAt hstrong hd) fun x => hf (.ok x)

theorem reports_issueToken (userId : ℕ) (version : ℤ) :
    (issueToken L userId version).Reports fun _ => True :=
  Prog.reports_bind (fun _ => trivial) fun _ => ⟨trivial, trivial⟩

theorem sourcedWp_changePassword {cookie : Option PyStr} {form : PasswordForm}
    (hloc : c.loc = .fresh) (hc : writes c.log = []) :
    sourcedWp L E past (.changePassword cookie form) wk (changePassword L cookie form)
      (fun _ _ => True) c := by
  unfold changePassword
  refine sourcedWp_loginRequired (r := .changePassword cookie form) hloc hc
    fun cu c₁ hcu _ hc₁ => ?_
  rcases checkChange L cu.user form with _ | complaint
  swap
  · trivial
  refine sourcedWp_setPassword hc₁ (fun d d' hash changedAt hstrong hd => ⟨?_, ?_, ?_, ?_⟩) ?_
  · exact fun _ => hcu.permitted rfl
  · rintro _ _ ⟨⟩
  · rintro _ ⟨⟩
  · exact fun _ => ⟨cu.user, hash, changedAt, hstrong, hd⟩
  · rintro (complaint | _ | ⟨⟩)
    · trivial
    · trivial
    · refine Prog.reports_bind (fun _ => trivial) ?_
      rintro (_ | u)
      · trivial
      · exact Prog.reports_bind (reports_issueToken _ _) fun _ => trivial

theorem sourcedWp_resetPassword {token : PyStr} {form : Option (PyStr × PyStr)}
    (hc : writes c.log = []) :
    sourcedWp L E past (.resetPassword token form) wk (resetPassword L token form)
      (fun _ _ => True) c := by
  unfold resetPassword
  refine commitsWp_bind hc (fun _ => trivial) fun (now : Time) c₁ hc₁ => ?_
  rcases loadsTimed (L.resetToken token) 1800 now with (_ | _) | data
  · trivial
  · trivial
  dsimp only
  rcases resetClaims data with _ | ⟨uid, ver⟩
  · trivial
  refine commitsWp_bind hc₁ (fun _ => trivial) fun user c₂ hc₂ => ?_
  generalize Option.filter _ user = found
  rcases found with _ | u
  · trivial
  rcases form with _ | ⟨new, confirm⟩
  · trivial
  dsimp only
  split
  · trivial
  split
  · trivial
  rcases validatePasswordStrength new with _ | complaint
  swap
  · trivial
  unfold consumeReset
  refine commitsWp_bind hc₂ (fun _ => trivial) fun locked c₃ hc₃ => ?_
  generalize Option.filter _ locked = found
  rcases found with _ | u'
  · exact fun _ _ _ => trivial
  refine sourcedWp_setPassword hc₃ (fun d d' hash changedAt hstrong hd => ⟨?_, ?_, ?_, ?_⟩) ?_
  · simp [Request.bySession]
  · rintro _ _ ⟨⟩
  · rintro _ ⟨⟩
  · exact fun _ => ⟨u', hash, changedAt, hstrong, hd⟩
  · rintro (complaint | _ | ⟨⟩) <;> trivial

/-- The commits of every handler are backed. -/
theorem sourced_handle (r : Request) (hloc : c.loc = .fresh) (hc : writes c.log = []) :
    sourcedWp L E past r wk (handle L r) (fun _ _ => True) c := by
  have hmanager : ∀ {role}, ["manager"].any (hasRole role) = true → hasRole role "manager" = true :=
    fun h => by simpa using h
  cases r with
  | profile cookie =>
    exact sourcedWp_loginRequired (r := .profile cookie) hloc hc fun _ _ _ _ _ => trivial
  | requestBlindToken cookie data =>
    exact sourcedWp_loginRequired (r := .requestBlindToken cookie data) hloc hc
      fun cu _ hcu _ _ => sourcedWp_of_session rfl fun _ => hcu.permitted rfl
  | createElection cookie form =>
    exact sourcedWp_ofManager (r := .createElection cookie form) hloc hc rfl fun _ => hmanager
  | openElection cookie electionId =>
    exact sourcedWp_ofManager (r := .openElection cookie electionId) hloc hc rfl fun _ => hmanager
  | closeElection cookie electionId =>
    exact sourcedWp_ofManager (r := .closeElection cookie electionId) hloc hc rfl fun _ => hmanager
  | createCandidate cookie form =>
    exact sourcedWp_ofManager (r := .createCandidate cookie form) hloc hc rfl fun _ h => h
  | updateCandidate cookie candidateId form =>
    exact sourcedWp_ofManager (r := .updateCandidate cookie candidateId form) hloc hc rfl fun _ h => h
  | deleteCandidate cookie candidateId =>
    exact sourcedWp_ofManager (r := .deleteCandidate cookie candidateId) hloc hc rfl fun _ h => h
  | signElectionResults cookie body form =>
    refine sourcedWp_loginRequired (r := .signElectionResults cookie body form) hloc hc
      fun cu c' hcu _ _ => ?_
    show sourcedWp L E past _ wk (if _ then _ else _) _ c'
    split
    · trivial
    next hrole =>
      exact sourcedWp_of_session rfl fun _ => hcu.permitted (Bool.not_eq_false _ ▸ hrole)
  | approveUser cookie userId => exact sourcedWp_approveUser hloc hc
  | rejectUser cookie userId =>
    exact sourcedWp_adminOnly (r := .rejectUser cookie userId) hloc hc
      fun cu _ hcu _ _ hrole => sourcedWp_of_session rfl fun _ => hcu.permitted hrole
  | verifyEmail token => exact sourcedWp_verifyEmail hloc hc
  | changePassword cookie form => exact sourcedWp_changePassword hloc hc
  | resetPassword token form => exact sourcedWp_resetPassword hc
  | _ => exact sourcedWp_of_session rfl (by simp [Request.bySession])

end SecureVote
