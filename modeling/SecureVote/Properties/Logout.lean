import SecureVote.Properties.SessionEpoch
import SecureVote.Routes.Hooks
import SecureVote.Clock
import SecureVote.Solo

/-!
# Deleted session tokens

Three places decide what a response does to the `session_token` of the browser: the hook before
the view, which may note a fresh token or a deletion on `g`, the view, and the hook after it. A
deletion that was noted on `g` comes with no fresh token, except after a password change, whose
new session version makes the fresh token useless. The deletion of `logout` comes before the
token of the sliding refresh, which undoes it.
-/

open Txn

namespace SecureVote

open Py

variable {W : Type} (orc : (q : Query) → W → q.Answer × W) (L : Lib) (d : Db)

/-! ### Accepted tokens -/

/-- The claims and the user of a token that `_load_user_from_jwt` accepts at time `t`. -/
structure TokenUser (t : Time) (token : PyStr) (p : Payload) (u : User) : Prop where
  present : token ≠ []
  claims : decodeToken L t token = some p
  row : ∃ i, p.sub.toInt = .ok i ∧ byId d.users i = some u
  admitted : u.accountStatus ≠ .rejected
  current : p.matches u = true

/-- `_load_user_from_jwt` accepts the token at time `t`. -/
def TokenAccepted (t : Time) (token : PyStr) : Prop := ∃ p u, TokenUser L d t token p u

variable {L d} in
theorem TokenUser.unique {t : Time} {token : PyStr} {p p' : Payload} {u u' : User}
    (h : TokenUser L d t token p u) (h' : TokenUser L d t token p' u') : p = p' ∧ u = u' := by
  obtain rfl : p = p' := Option.some.inj (h.claims.symm.trans h'.claims)
  obtain ⟨i, hi, hu⟩ := h.row
  obtain ⟨i', hi', hu'⟩ := h'.row
  obtain rfl : i = i' := Except.ok.inj (hi.symm.trans hi')
  exact ⟨rfl, Option.some.inj (hu.symm.trans hu')⟩

/-- No request from time `t` on accepts the token of the jar, whatever becomes of the accounts:
session versions do not go back. -/
def NoneAccepted (t : Time) (jar : Option PyStr) : Prop :=
  ∀ d' t', VersionsLe d d' → t ≤ t' → ∀ token ∈ jar, ¬TokenAccepted L d' t' token

/-- The claims of the token that a sliding refresh at `w` issues for a user. -/
def renewedClaims (w : W) (u : User) : Payload :=
  let now := epochSeconds (clock orc ((tick orc)^[4] w))
  ⟨.str (natRepr 10 u.id), now, now + tokenLifetime, .int u.sessionVersion⟩

/-- At `w`, the token of a user is in the second half of its life, and the password is not
expired. The looks at the clock are those of the hook, in order. -/
structure Renewal (w : W) (p : Payload) (u : User) : Prop where
  late : 0 < p.exp - p.iat ∧
    p.exp - epochSeconds (clock orc ((tick orc)^[2] w)) < (p.exp - p.iat) / 2
  valid : ∃ t, u.passwordChangedAt = some t ∧
    ¬t + daysToTime 90 < clock orc ((tick orc)^[3] w)

/-- The token is accepted and due for a refresh, and `int` can read the id of its user. -/
def RefreshDue (w : W) (token : PyStr) : Prop :=
  ∃ p u, TokenUser L d (clock orc w) token p u ∧ Renewal orc w p u ∧
    (Json.str (natRepr 10 u.id)).toInt = .ok (u.id : ℤ)

/-! ### The hook before the view -/

variable (w : W)

theorem exec_isPasswordExpired_of_some {u : User} {t : Time} (h : u.passwordChangedAt = some t) :
    u.isPasswordExpired.exec orc d w =
      ⟨decide (t + daysToTime 90 < clock orc w), d, tick orc w, []⟩ := by
  rw [User.isPasswordExpired, h]
  rfl

theorem exec_isPasswordExpired_of_none {u : User} (h : u.passwordChangedAt = none) :
    u.isPasswordExpired.exec orc d w = ⟨true, d, w, []⟩ := by
  rw [User.isPasswordExpired, h]
  rfl

/-- A sliding refresh issues a token for a user whose token is late and whose password is valid,
and for nobody else. -/
theorem exec_slidingToken (p : Payload) (u : User) :
    let o := (slidingToken L p u).exec orc d w
    o.db = d ∧
      ((o.reply = none ∧ ¬((0 < p.exp - p.iat ∧
          p.exp - epochSeconds (clock orc w) < (p.exp - p.iat) / 2) ∧
          ∃ t, u.passwordChangedAt = some t ∧ ¬t + daysToTime 90 < clock orc (tick orc w))) ∨
        ((0 < p.exp - p.iat ∧ p.exp - epochSeconds (clock orc w) < (p.exp - p.iat) / 2) ∧
          (∃ t, u.passwordChangedAt = some t ∧ ¬t + daysToTime 90 < clock orc (tick orc w)) ∧
          o.world = (tick orc)^[3] w ∧
          o.reply = some (L.jwtEncode ⟨.str (natRepr 10 u.id),
            epochSeconds (clock orc ((tick orc)^[2] w)),
            epochSeconds (clock orc ((tick orc)^[2] w)) + tokenLifetime,
            .int u.sessionVersion⟩))) := by
  intro o
  have ho : o = (slidingToken L p u).exec orc d w := rfl
  rw [slidingToken, exec_utcNow_bind] at ho
  by_cases hlate : 0 < p.exp - p.iat ∧
      p.exp - epochSeconds (clock orc w) < (p.exp - p.iat) / 2
  · rw [if_pos hlate, Prog.exec_bind] at ho
    rcases hpw : u.passwordChangedAt with _ | t
    · rw [exec_isPasswordExpired_of_none orc d _ hpw] at ho
      rw [ho]
      exact ⟨rfl, Or.inl ⟨rfl, fun ⟨_, t, h, _⟩ => by cases h⟩⟩
    · rw [exec_isPasswordExpired_of_some orc d _ hpw] at ho
      by_cases hold : t + daysToTime 90 < clock orc (tick orc w)
      · rw [decide_eq_true hold] at ho
        rw [ho]
        refine ⟨rfl, Or.inl ⟨rfl, ?_⟩⟩
        rintro ⟨-, t', ht', hvalid⟩
        cases ht'
        exact hvalid hold
      · rw [decide_eq_false hold] at ho
        rw [ho]
        exact ⟨rfl, Or.inr ⟨hlate, ⟨t, rfl, hold⟩, rfl, rfl⟩⟩
  · rw [if_neg hlate] at ho
    rw [ho]
    exact ⟨rfl, Or.inl ⟨rfl, fun h => hlate h.1⟩⟩

/-- What the hook leaves on `g` for a view: no note at all, a deletion without a fresh token, or
the token of a sliding refresh without a deletion. -/
inductive HookNotes (endpoint : String) (c : Cookies) (g : Globals)
    (o : Outcome Db Event W (Option Response × Globals)) : Prop
  | quiet (hclear : o.reply.2.clearSessionToken = false)
      (hnew : o.reply.2.newSessionToken = none)
      (hstop : passwordExempt endpoint = true → o.reply.1 = none)
      (haccepted : endpoint ≠ "main.cast_anonymous_ballot" → ∀ token ∈ c.sessionToken,
        token ≠ [] → TokenAccepted L d (clock orc w) token)
      (hdue : passwordExempt endpoint = true →
        ∀ token ∈ c.sessionToken, ¬RefreshDue orc L d w token)
  | rejected (h : o.reply = (none, g.rejectSessionToken))
      (hrejected : ∀ token ∈ c.sessionToken, ¬TokenAccepted L d (clock orc w) token)
  | renewed {token p u} (htoken : token ∈ c.sessionToken)
      (huser : TokenUser L d (clock orc w) token p u) (hrenew : Renewal orc w p u)
      (hclear : o.reply.2.clearSessionToken = false)
      (hnew : o.reply.2.newSessionToken = some (L.jwtEncode (renewedClaims orc w u)))
      (hstop : o.reply.1 = none) (huser' : ∃ cu, o.reply.2.loginUser = .loggedIn cu ∧ cu.user = u)
      (hworld : o.world = (tick orc)^[5] w)

variable {orc L d w} in
theorem RefreshDue.tokenAccepted {token : PyStr} (h : RefreshDue orc L d w token) :
    TokenAccepted L d (clock orc w) token := by
  obtain ⟨p, u, huser, -⟩ := h
  exact ⟨p, u, huser⟩

/-- `g` before the hook: nothing is noted, and a user that a test has logged in is current. -/
structure Globals.Unmarked (g : Globals) : Prop where
  clear : g.clearSessionToken = false
  new : g.newSessionToken = none
  user : ∀ cu, g.loginUser = .loggedIn cu → d.users.get? cu.user.id = some cu.user

/-- A user that the hook leaves on `g` is current. -/
def UserCurrent (o : Outcome Db Event W (Option Response × Globals)) : Prop :=
  o.db = d ∧ ∀ cu, o.reply.2.loginUser = .loggedIn cu → d.users.get? cu.user.id = some cu.user

theorem exec_admitUser {endpoint : String} {c : Cookies} {g : Globals} {token : PyStr}
    {p : Payload} {u : User} (hg : g.Unmarked d) (htoken : token ∈ c.sessionToken)
    (huser : TokenUser L d (clock orc w) token p u) (role : Option PyStr)
    (hrow : d.users.get? u.id = some u) :
    let o := (admitUser L endpoint token p u role g).exec orc d (tick orc w)
    UserCurrent d o ∧ HookNotes orc L d w endpoint c g o := by
  intro o
  have ho : o = (admitUser L endpoint token p u role g).exec orc d (tick orc w) := rfl
  have haccepted : ∀ token' ∈ c.sessionToken, token' ≠ [] →
      TokenAccepted L d (clock orc w) token' := by
    intro token' htoken' _
    obtain rfl : token' = token := Option.some.inj (htoken'.symm.trans htoken)
    exact ⟨p, u, huser⟩
  have hdue_iff : ∀ token' ∈ c.sessionToken, RefreshDue orc L d w token' → Renewal orc w p u := by
    rintro token' htoken' ⟨p', u', huser', hrenew, -⟩
    obtain rfl : token' = token := Option.some.inj (htoken'.symm.trans htoken)
    obtain ⟨rfl, rfl⟩ := huser'.unique huser
    exact hrenew
  have hcurrent : ∀ cu : CurrentUser, LoginUser.loggedIn ⟨u, role, bindOf role⟩ = .loggedIn cu →
      d.users.get? cu.user.id = some cu.user := by
    intro cu h
    cases h
    exact hrow
  rw [admitUser, Prog.exec_bind] at ho
  rcases hpw : u.passwordChangedAt with _ | t
  · rw [exec_isPasswordExpired_of_none orc d _ hpw] at ho
    have hnot : ¬Renewal orc w p u := fun h => by
      obtain ⟨t, ht, -⟩ := h.valid
      rw [hpw] at ht
      cases ht
    dsimp only at ho
    rw [Outcome.after_nil, Prog.exec_report_bind] at ho
    split at ho
    next hstop =>
      have hexempt : passwordExempt endpoint ≠ true := fun h => by simp [h] at hstop
      rw [ho]
      exact ⟨⟨rfl, hcurrent⟩, .quiet hg.clear hg.new (fun h => absurd h hexempt)
        (fun _ => haccepted) fun h => absurd h hexempt⟩
    · rw [Prog.exec_bind] at ho
      obtain ⟨hdb, ⟨hnone, -⟩ | ⟨-, ⟨t, ht, -⟩, -⟩⟩ := exec_slidingToken orc L d (tick orc w) p u
      · rw [hdb, hnone] at ho
        rw [ho]
        exact ⟨⟨rfl, hcurrent⟩, .quiet hg.clear rfl (fun _ => rfl) (fun _ => haccepted)
          fun _ t ht h => hnot (hdue_iff t ht h)⟩
      · rw [hpw] at ht
        cases ht
  · rw [exec_isPasswordExpired_of_some orc d _ hpw] at ho
    dsimp only at ho
    rw [Outcome.after_nil, Prog.exec_report_bind] at ho
    split at ho
    next hstop =>
      have hexempt : passwordExempt endpoint ≠ true := fun h => by simp [h] at hstop
      rw [ho]
      exact ⟨⟨rfl, hcurrent⟩, .quiet hg.clear hg.new (fun h => absurd h hexempt)
        (fun _ => haccepted) fun h => absurd h hexempt⟩
    · rw [Prog.exec_bind] at ho
      obtain ⟨hdb, ⟨hnone, hnot⟩ | ⟨hlate, hvalid, hworld, hnew⟩⟩ :=
        exec_slidingToken orc L d (tick orc (tick orc w)) p u
      · rw [hdb, hnone] at ho
        rw [ho]
        refine ⟨⟨rfl, hcurrent⟩, .quiet hg.clear rfl (fun _ => rfl) (fun _ => haccepted)
          fun _ t ht h => ?_⟩
        have hrenew := hdue_iff t ht h
        exact hnot ⟨hrenew.late, hrenew.valid⟩
      · rw [hdb, hnew, hworld] at ho
        rw [ho]
        exact ⟨⟨rfl, hcurrent⟩, .renewed htoken huser ⟨hlate, hvalid⟩ hg.clear rfl rfl ⟨_, rfl, rfl⟩
          rfl⟩

theorem exec_loadRequestUser (cfg : AppConfig) (endpoint : String) (c : Cookies) {g : Globals}
    (hg : g.Unmarked d) :
    let o := (loadRequestUser L cfg endpoint c g).exec orc d w
    UserCurrent d o ∧ HookNotes orc L d w endpoint c g o := by
  intro o
  have ho : o = (loadRequestUser L cfg endpoint c g).exec orc d w := rfl
  -- a rejected token: nobody is logged in, and no fresh token is noted
  have hreject : ∀ w', o = ⟨(none, g.rejectSessionToken), d, w', []⟩ →
      (∀ token ∈ c.sessionToken, ¬TokenAccepted L d (clock orc w) token) →
      UserCurrent d o ∧ HookNotes orc L d w endpoint c g o := by
    intro w' h hnot
    rw [h]
    exact ⟨⟨rfl, fun cu hcu => by cases hcu⟩, .rejected rfl hnot⟩
  -- without a token, an identity in the Flask session is rejected, except in tests
  have hcookieless : (∀ token ∈ c.sessionToken, token = []) →
      o = (if cfg.testing = false ∧ c.session.userId.isSome = true then
          pure (none, g.rejectSessionToken) else pure (none, g) :
          Handler (Option Response × Globals)).exec orc d w →
      UserCurrent d o ∧ HookNotes orc L d w endpoint c g o := by
    intro hnil h
    have hnot : ∀ token ∈ c.sessionToken, ¬TokenAccepted L d (clock orc w) token :=
      fun t ht ⟨p, u, huser⟩ => huser.present (hnil t ht)
    split at h
    · exact hreject _ h hnot
    · rw [h]
      exact ⟨⟨rfl, hg.user⟩, .quiet hg.clear hg.new (fun _ => rfl)
        (fun _ t ht hne => absurd (hnil t ht) hne) fun _ t ht hdue => hnot t ht hdue.tokenAccepted⟩
  rw [loadRequestUser] at ho
  split at ho
  next hcast =>
    rw [ho]
    refine ⟨⟨rfl, fun cu hcu => by cases hcu⟩, .quiet hg.clear hg.new (fun _ => rfl)
      (fun h => absurd hcast h) fun hexempt => ?_⟩
    rw [hcast] at hexempt
    exact absurd hexempt (by decide)
  split at ho
  · exact hcookieless (fun t ht => by
      rename_i hcookie
      rw [hcookie] at ht
      cases ht) ho
  · exact hcookieless (fun t ht => by
      rename_i hcookie
      rw [hcookie] at ht
      cases ht
      rfl) ho
  next token hne hcookie =>
    have htoken : token ∈ c.sessionToken := hcookie
    have hwhy : ∀ p, decodeToken L (clock orc w) token = some p →
        (∀ u, (∃ i, p.sub.toInt = .ok i ∧ byId d.users i = some u) →
          u.accountStatus = .rejected ∨ p.matches u = false) →
        ∀ token' ∈ c.sessionToken, ¬TokenAccepted L d (clock orc w) token' := by
      rintro p hp hno token' htoken' ⟨p', u, huser⟩
      obtain rfl : token' = token := Option.some.inj (htoken'.symm.trans htoken)
      obtain rfl : p = p' := Option.some.inj (hp.symm.trans huser.claims)
      obtain hstatus | hver := hno u huser.row
      · exact huser.admitted hstatus
      · rw [huser.current] at hver
        cases hver
    rw [exec_utcNow_bind] at ho
    split at ho
    next hp =>
      refine hreject _ ho ?_
      rintro token' htoken' ⟨p', u, huser⟩
      obtain rfl : token' = token := Option.some.inj (htoken'.symm.trans htoken)
      rw [huser.claims] at hp
      cases hp
    next p hp =>
      split at ho
      next hsub =>
        refine hreject _ ho (hwhy p hp ?_)
        rintro u ⟨i, hi, -⟩
        rw [hi] at hsub
        cases hsub
      next i hi =>
        rw [Prog.exec_select_bind] at ho
        split at ho
        next hrow =>
          refine hreject _ ho (hwhy p hp ?_)
          rintro u ⟨i', hi', hu⟩
          obtain rfl : i = i' := Except.ok.inj (hi.symm.trans hi')
          rw [userById, hu] at hrow
          cases hrow
        next u role hrow =>
          obtain ⟨u', hu', heq⟩ := Option.map_eq_some_iff.mp hrow
          cases heq
          split at ho
          next hbad =>
            refine hreject _ ho (hwhy p hp ?_)
            rintro u'' ⟨i', hi', hu''⟩
            obtain rfl : i = i' := Except.ok.inj (hi.symm.trans hi')
            obtain rfl : u = u'' := Option.some.inj (hu'.symm.trans hu'')
            exact hbad
          next hgood =>
            rw [not_or] at hgood
            have huser : TokenUser L d (clock orc w) token p u :=
              ⟨hne, hp, ⟨i, hi, hu'⟩, hgood.1, Bool.eq_true_of_not_eq_false hgood.2⟩
            rw [ho]
            exact exec_admitUser orc L d w hg htoken huser _ (byId_eq_some hu').2.2

/-- What `login_required` sees of the hook: its response, or the user on `g`. -/
def hookResult : Option Response × Globals → Except Response (Option CurrentUser)
  | (some r, _) => .error r
  | (none, g) => .ok (match g.loginUser with
      | .loggedIn cu => some cu
      | _ => none)

theorem refreshToken_eq (p : Payload) (u : User) :
    refreshToken L p u = (slidingToken L p u >>= fun _ => pure ()) := by
  rw [refreshToken, slidingToken, Prog.bind_assoc]
  refine congrArg (utcNow >>= ·) (funext fun now => ?_)
  dsimp only
  split
  · rw [Prog.bind_assoc]
    refine congrArg (u.isPasswordExpired >>= ·) (funext fun expired => ?_)
    split
    · rfl
    · rfl
  · rfl

theorem acceptUser_eq (endpoint : String) (token : PyStr) (p : Payload) (u : User)
    (role : Option PyStr) (g : Globals) :
    acceptUser L token p (passwordExempt endpoint) u role =
      (admitUser L endpoint token p u role g >>= fun x => pure (hookResult x)) := by
  rw [acceptUser, admitUser, Prog.bind_assoc]
  refine congrArg (u.isPasswordExpired >>= ·) (funext fun expired => ?_)
  rw [Prog.bind_assoc]
  refine congrArg (Prog.report _ >>= ·) (funext fun _ => ?_)
  split
  · rfl
  · rw [refreshToken_eq, Prog.bind_assoc, Prog.bind_assoc]
    rfl

/-- Apart from the notes on `g`, the hook is `loadUserFromJwt`, which the guarded handlers
start with. -/
theorem loadUserFromJwt_eq (cfg : AppConfig) {endpoint : String}
    (hend : endpoint ≠ "main.cast_anonymous_ballot") (c : Cookies) {g : Globals}
    (hg : g.loginUser = .unloaded) :
    loadUserFromJwt L c.sessionToken (passwordExempt endpoint) =
      (loadRequestUser L cfg endpoint c g >>= fun x => pure (hookResult x)) := by
  rw [loadRequestUser, if_neg hend]
  have hcookieless : (pure (.ok none) : Handler (Except Response (Option CurrentUser))) =
      ((if cfg.testing = false ∧ c.session.userId.isSome = true then
          pure (none, g.rejectSessionToken) else pure (none, g)) >>=
        fun x => pure (hookResult x)) := by
    split
    · rfl
    · show _ = pure (hookResult (none, g))
      rw [hookResult, hg]
  rcases c.sessionToken with _ | _ | ⟨x, xs⟩
  · exact hcookieless
  · exact hcookieless
  unfold loadUserFromJwt
  dsimp only
  rw [Prog.bind_assoc]
  refine congrArg (utcNow >>= ·) (funext fun now => ?_)
  rcases decodeToken L now (x :: xs) with _ | p
  · rfl
  dsimp only
  rcases p.sub.toInt with _ | userId
  · rfl
  dsimp only
  rw [Prog.bind_assoc]
  refine congrArg (Prog.select Bind.voters _ >>= ·) (funext fun row => ?_)
  rcases row with _ | ⟨u, role⟩
  · rfl
  dsimp only
  split
  · rfl
  · exact acceptUser_eq L endpoint _ _ u role g

/-- The hook notes a deletion exactly for the tokens that are not accepted. -/
theorem tokenAccepted_iff (cfg : AppConfig) {endpoint : String}
    (hend : endpoint ≠ "main.cast_anonymous_ballot") {c : Cookies} {g : Globals}
    (hg : g.Unmarked d) {token : PyStr} (htoken : token ∈ c.sessionToken) (hne : token ≠ []) :
    TokenAccepted L d (clock orc w) token ↔
      ((loadRequestUser L cfg endpoint c g).exec orc d w).reply.2.clearSessionToken = false := by
  cases (exec_loadRequestUser orc L d w cfg endpoint c hg).2 with
  | quiet hclear _ _ haccepted _ => exact iff_of_true (haccepted hend token htoken hne) hclear
  | rejected h hrejected =>
    refine iff_of_false (hrejected token htoken) fun hclear => ?_
    rw [h] at hclear
    cases hclear
  | @renewed token' p u htoken' huser _ hclear _ _ _ _ =>
    obtain rfl : token = token' := Option.some.inj (htoken.symm.trans htoken')
    exact iff_of_true ⟨p, u, huser⟩ hclear

/-! ### The view and the hook after it -/

theorem exec_loadSessionUser (s : Session) :
    let o := (loadSessionUser s).exec orc d w
    o.db = d ∧ o.world = w ∧ ∀ cu, o.reply = some cu → d.users.get? cu.user.id = some cu.user := by
  intro o
  have ho : o = (loadSessionUser s).exec orc d w := rfl
  unfold loadSessionUser at ho
  split at ho
  · rw [ho]
    exact ⟨rfl, rfl, fun cu h => by cases h⟩
  next i _ =>
    rw [Prog.exec_selectLatest_bind] at ho
    split at ho
    · rw [ho]
      exact ⟨rfl, rfl, fun cu h => by cases h⟩
    next u role hrow =>
      obtain ⟨u', hu', heq⟩ := Option.map_eq_some_iff.mp hrow
      cases heq
      rw [ho]
      refine ⟨rfl, rfl, fun cu h => ?_⟩
      cases h
      exact (byId_eq_some hu').2.2

/-- The bind is chosen without a note on `g`. -/
theorem exec_selectDbBind (cfg : AppConfig) (c : Cookies) :
    let o := (selectDbBind cfg c .initial).exec orc d w
    o.db = d ∧ o.world = w ∧ o.reply.Unmarked d := by
  intro o
  have ho : o = (selectDbBind cfg c .initial).exec orc d w := rfl
  have hplain : ∀ b, ({ Globals.initial with activeBind := b }).Unmarked d := fun b =>
    ⟨rfl, rfl, fun cu h => by cases h⟩
  unfold selectDbBind at ho
  split at ho
  · rw [ho]
    exact ⟨rfl, rfl, hplain none⟩
  split at ho
  · rw [ho]
    exact ⟨rfl, rfl, hplain (some .voters)⟩
  obtain ⟨hdb, hworld, huser⟩ := exec_loadSessionUser orc d w c.session
  rw [Prog.exec_bind, hdb, hworld] at ho
  split at ho
  · rw [ho]
    exact ⟨rfl, rfl, rfl, rfl, fun cu h => by cases h⟩
  next cu hcu =>
    rw [ho]
    refine ⟨rfl, rfl, rfl, rfl, fun cu' h => ?_⟩
    cases h
    exact huser cu hcu

/-- The password is set in a new commit, or not at all. -/
theorem exec_setPassword (u : User) (password : PyStr) :
    let o := (setPassword u password).exec orc d w
    o.reply = .ok (some ()) →
      ∃ hash changedAt, o.db.toTables = writePassword u hash changedAt d.toTables := by
  intro o
  have ho : o = (setPassword u password).exec orc d w := rfl
  unfold setPassword at ho
  split at ho
  · rw [ho]
    exact fun h => by cases h
  rw [Prog.exec_call_bind, exec_utcNow_bind, exec_save_bind] at ho
  split at ho
  · rw [ho]
    exact fun h => by cases h
  next d' hd' =>
    rw [ho]
    exact fun _ => ⟨_, _, Db.commit_eq_some.mp hd'⟩

/-- `change_password` notes a deletion only after it has raised the session version. -/
theorem exec_changePasswordView {form : Option PasswordForm} {renewable : Bool} {g : Globals}
    (hg : g.clearSessionToken = false)
    (huser : ∀ cu, g.loginUser = .loggedIn cu → d.users.get? cu.user.id = some cu.user) :
    let o := (changePasswordView L form renewable g).exec orc d w
    o.reply.2.clearSessionToken = true → o.reply.2.newSessionToken = g.newSessionToken ∧
      ∃ cu u, g.loginUser = .loggedIn cu ∧ o.db.users.get? cu.user.id = some u ∧
        u.sessionVersion = cu.user.sessionVersion + 1 := by
  intro o
  have ho : o = (changePasswordView L form renewable g).exec orc d w := rfl
  have hkeep : ∀ {r w' d' os}, o = ⟨(r, g), d', w', os⟩ → o.reply.2.clearSessionToken = true →
      o.reply.2.newSessionToken = g.newSessionToken ∧
      ∃ cu u, g.loginUser = .loggedIn cu ∧ o.db.users.get? cu.user.id = some u ∧
        u.sessionVersion = cu.user.sessionVersion + 1 := by
    intro r w' d' os h hclear
    rw [h, hg] at hclear
    cases hclear
  unfold changePasswordView at ho
  split at ho
  · exact hkeep ho
  next cu form hcu =>
    split at ho
    · exact hkeep ho
    rw [Prog.exec_bind] at ho
    split at ho
    · exact hkeep ho
    · exact hkeep ho
    next hset =>
      obtain ⟨hash, changedAt, htables⟩ := exec_setPassword orc d w cu.user form.new hset
      generalize (setPassword cu.user form.new).exec orc d w = o₁ at ho htables
      have hraised : ∃ u, o₁.db.users.get? cu.user.id = some u ∧
          u.sessionVersion = cu.user.sessionVersion + 1 := by
        refine ⟨applyPassword cu.user hash changedAt cu.user, ?_, rfl⟩
        have hrow := Table.get?_update_self (t := d.users) (i := cu.user.id)
          (f := applyPassword cu.user hash changedAt) (h := fun _ => rfl)
        rw [huser cu hcu] at hrow
        rw [htables]
        exact hrow
      have hfailed : ∀ {r : Response} {w' os}, o = ⟨(r, { g with
            loginUser := .anonymous, clearSessionToken := true }), o₁.db, w', os⟩ →
          o.reply.2.clearSessionToken = true → o.reply.2.newSessionToken = g.newSessionToken ∧
          ∃ cu u, g.loginUser = .loggedIn cu ∧ o.db.users.get? cu.user.id = some u ∧
            u.sessionVersion = cu.user.sessionVersion + 1 := by
        intro r w' os h _
        rw [h]
        obtain ⟨u, hu, hver⟩ := hraised
        exact ⟨rfl, cu, u, hcu, hu, hver⟩
      unfold replaceToken at ho
      split at ho
      · exact hfailed ho
      rw [exec_refresh_bind] at ho
      split at ho
      · exact hfailed ho
      · rw [ho]
        intro hclear
        rw [show _ = g.clearSessionToken from rfl, hg] at hclear
        cases hclear
  · exact hkeep ho

/-! ### The jar -/

/-- The jar after the headers of a response: the token that was noted on `g`, else nothing when a
deletion was noted, else what the view has left. -/
theorem applyCookies_maybeSetRefreshCookie (jar : Option PyStr) (g : Globals)
    (cookies : List SetCookie) :
    applyCookies jar (maybeSetRefreshCookie g cookies) =
      match g.newSessionToken with
      | none | some [] => if g.clearSessionToken then none else applyCookies jar cookies
      | some token => some token := by
  have hflask : ∀ (b : Bool) (jar : Option PyStr),
      applyCookies jar (if b then [SetCookie.deleteFlaskSession] else []) = jar := by
    intro b jar
    rcases b with _ | _
    · rfl
    · rfl
  have hdelete : ∀ (b : Bool) (jar : Option PyStr),
      applyCookies jar (if b then [SetCookie.deleteSessionToken] else []) =
        if b then none else jar := by
    intro b jar
    rcases b with _ | _
    · rfl
    · rfl
  have happend : ∀ (jar : Option PyStr) (xs ys : List SetCookie),
      applyCookies jar (xs ++ ys) = applyCookies (applyCookies jar xs) ys :=
    fun jar xs ys => List.foldl_append
  rw [maybeSetRefreshCookie, happend, happend, happend, hflask, hdelete]
  rcases g.newSessionToken with _ | _ | ⟨_, _⟩
  · rfl
  · rfl
  · rfl

/-- A deletion of the token is a header of the view or was noted on `g`. -/
theorem deleteSessionToken_mem {g : Globals} {cookies : List SetCookie} :
    .deleteSessionToken ∈ maybeSetRefreshCookie g cookies ↔
      .deleteSessionToken ∈ cookies ∨ g.clearSessionToken = true := by
  rw [maybeSetRefreshCookie]
  rcases g.newSessionToken with _ | _ | ⟨_, _⟩
  · simp
  · simp
  · simp

theorem noneAccepted_none (t : Time) : NoneAccepted L d t none := fun _ _ _ _ _ h => by cases h

variable {L d}

/-- What is known of a token that the application has issued, when it is accepted. -/
theorem TokenUser.of_issued (hjwt : L.DecodesIssued) {i : ℕ} {iat exp v : ℤ} {t : Time}
    {p : Payload} {u : User}
    (h : TokenUser L d t (L.jwtEncode ⟨.str (natRepr 10 i), iat, exp, .int v⟩) p u) :
    (Json.str (natRepr 10 i)).toInt = .ok (i : ℤ) ∧ d.users.get? i = some u ∧
      v = u.sessionVersion := by
  have hclaims : L.jwtClaims (L.jwtEncode ⟨.str (natRepr 10 i), iat, exp, .int v⟩) = some p := by
    obtain ⟨q, hq, hp⟩ := Option.bind_eq_some_iff.mp h.claims
    split at hp
    · cases hp
    · rw [hq, Option.some.inj hp]
  obtain rfl := hjwt i iat exp v p hclaims
  obtain ⟨j, hj, hrow⟩ := h.row
  obtain rfl : j = (i : ℤ) := by
    rw [Json.toInt] at hj
    split at hj
    next n hn =>
      cases hj
      exact eq_of_int_natRepr hn
    · cases hj
  rw [byId, if_pos (Int.natCast_nonneg _), Int.toNat_natCast] at hrow
  exact ⟨hj, hrow, of_decide_eq_true h.current⟩

/-- A token whose version is below that of its account is not accepted any more. -/
theorem noneAccepted_of_version (hjwt : L.DecodesIssued) {i : ℕ} {iat exp v : ℤ} {u : User}
    (hu : d.users.get? i = some u) (hv : v < u.sessionVersion) (t : Time) :
    NoneAccepted L d t (some (L.jwtEncode ⟨.str (natRepr 10 i), iat, exp, .int v⟩)) := by
  rintro d' t' hle - token htoken ⟨p, u', huser⟩
  obtain rfl := Option.some.inj htoken
  obtain ⟨-, hget, hcur⟩ := huser.of_issued hjwt
  obtain ⟨u'', hu'', hver⟩ := hle i u hu
  obtain rfl : u'' = u' := Option.some.inj (hu''.symm.trans hget)
  omega

/-- A token that has just been issued for a user whose status is not rejected is accepted, when
`int` can read the id. -/
theorem tokenAccepted_of_issued (hjwt : L.DecodesIssued) {u : User} {t : Time}
    (hu : d.users.get? u.id = some u) (hstatus : u.accountStatus ≠ .rejected)
    (hsubject : (Json.str (natRepr 10 u.id)).toInt = .ok (u.id : ℤ)) {token : PyStr}
    (htoken : token = L.jwtEncode ⟨.str (natRepr 10 u.id), epochSeconds t,
      epochSeconds t + tokenLifetime, .int u.sessionVersion⟩)
    (hne : token ≠ []) (hread : (L.jwtClaims token).isSome) : TokenAccepted L d t token := by
  obtain ⟨p, hp⟩ := Option.isSome_iff_exists.mp hread
  have hpayload := hjwt u.id (epochSeconds t) (epochSeconds t + tokenLifetime) u.sessionVersion p
    (htoken ▸ hp)
  have hfrom : epochSeconds t * 1000000 ≤ t := Int.ediv_mul_le t (by decide)
  have hto : t < (epochSeconds t + tokenLifetime) * 1000000 :=
    (Int.lt_ediv_add_one_mul_self t (by decide)).trans_le
      (Int.mul_le_mul_of_nonneg_right (Int.add_le_add_left (by decide) _) (by decide))
  have hin : ¬(t < epochSeconds t * 1000000 ∨
      (epochSeconds t + tokenLifetime) * 1000000 ≤ t) :=
    not_or.mpr ⟨not_lt.mpr hfrom, not_le.mpr hto⟩
  have hdecode : decodeToken L t token = some p := by
    rw [decodeToken, hp, Option.bind_some, hpayload, if_neg hin]
  refine ⟨p, u, hne, hdecode, ⟨u.id, ?_, ?_⟩, hstatus, ?_⟩
  · rw [hpayload]
    exact hsubject
  · rw [byId, if_pos (Int.natCast_nonneg _), Int.toNat_natCast, hu]
  · rw [hpayload]
    exact decide_eq_true rfl

/-! ### Responses -/

variable (L d)

/-- A request from the hook before the view on: the response of the hook, or that of the view. -/
theorem exec_serve (cfg : AppConfig) (view : SessionView) (c : Cookies) :
    ∃ g : Globals, g.Unmarked d ∧
      let o₁ := (loadRequestUser L cfg view.endpoint c g).exec orc d w
      let o := (serve L cfg view c).exec orc d w
      (∀ r, o₁.reply.1 = some r → o.reply = ⟨r, maybeSetRefreshCookie o₁.reply.2 []⟩) ∧
      (o₁.reply.1 = none →
        let o₂ := (view.run L o₁.reply.2).exec orc d o₁.world
        o.db = o₂.db ∧ o.world = o₂.world ∧
          o.reply.cookies = maybeSetRefreshCookie o₂.reply.2.2 o₂.reply.2.1) := by
  obtain ⟨hdb, hworld, hun⟩ := exec_selectDbBind orc d w cfg c
  refine ⟨_, hun, ?_⟩
  intro o₁ o
  have hdb₁ : o₁.db = d := (exec_loadRequestUser orc L d w cfg view.endpoint c hun).1.1
  have ho : o = (serve L cfg view c).exec orc d w := rfl
  rw [serve, Prog.exec_bind, hdb, hworld, Prog.exec_bind] at ho
  rw [show ((loadRequestUser L cfg view.endpoint c _).exec orc d w).db = d from hdb₁] at ho
  split at ho
  next r g hreply =>
    have hreply₁ : o₁.reply = (some r, g) := hreply
    rw [ho, hreply₁]
    refine ⟨fun r' hr' => ?_, fun hnone => by cases hnone⟩
    cases hr'
    rfl
  next g hreply =>
    have hreply₁ : o₁.reply = (none, g) := hreply
    rw [ho, hreply₁]
    refine ⟨fun r' hr' => (by cases hr'), fun _ => ?_⟩
    rw [Prog.exec_bind]
    exact ⟨rfl, rfl, rfl⟩

/-- The jar after a response that deletes the token without a fresh one is empty. -/
theorem applyCookies_eq_none {g : Globals} {cookies : List SetCookie} (jar : Option PyStr)
    (hnew : g.newSessionToken = none) (hview : cookies = [.deleteSessionToken] ∨
      g.clearSessionToken = true) : applyCookies jar (maybeSetRefreshCookie g cookies) = none := by
  rw [applyCookies_maybeSetRefreshCookie, hnew]
  obtain rfl | hclear := hview
  · exact ite_self none
  · exact if_pos hclear

/-- The responses to `logout` delete the token. They leave it deleted, unless the hook before the
view has issued a fresh one. -/
theorem logout_jar {time : W → Time} (hnow : ∀ w, clock orc w = time (tick orc w))
    (hjwt : L.DecodesIssued) (hread : ∀ u ∈ d.users.rows,
      L.jwtEncode (renewedClaims orc w u) ≠ [] ∧
        (L.jwtClaims (L.jwtEncode (renewedClaims orc w u))).isSome)
    (cfg : AppConfig) (c : Cookies) :
    let o := (serve L cfg .logout c).exec orc d w
    .deleteSessionToken ∈ o.reply.cookies ∧
      (NoneAccepted L o.db (time o.world) (applyCookies c.sessionToken o.reply.cookies) ↔
        ¬∃ token ∈ c.sessionToken, RefreshDue orc L d w token) := by
  intro o
  obtain ⟨g, hg, -, hviewed⟩ := exec_serve orc L d w cfg .logout c
  obtain ⟨-, hnotes⟩ := exec_loadRequestUser orc L d w cfg SessionView.logout.endpoint c hg
  generalize (loadRequestUser L cfg SessionView.logout.endpoint c g).exec orc d w = o₁ at *
  have hexempt : passwordExempt SessionView.logout.endpoint = true := by decide
  have hnone : o₁.reply.1 = none := by
    cases hnotes with
    | quiet _ _ hstop _ _ => exact hstop hexempt
    | rejected h _ => rw [h]
    | renewed _ _ _ _ _ hstop _ _ => exact hstop
  obtain ⟨hdb, hworld, hcookies⟩ := hviewed hnone
  have hdb : o.db = d := hdb
  have hworld : o.world = o₁.world := hworld
  obtain ⟨g₂, hcookies, hsame⟩ : ∃ g₂, o.reply.cookies =
      maybeSetRefreshCookie g₂ [.deleteSessionToken] ∧
      g₂.newSessionToken = o₁.reply.2.newSessionToken := ⟨_, hcookies, rfl⟩
  refine ⟨?_, ?_⟩
  · rw [hcookies, deleteSessionToken_mem]
    exact Or.inl List.mem_cons_self
  have hempty : o₁.reply.2.newSessionToken = none →
      NoneAccepted L o.db (time o.world) (applyCookies c.sessionToken o.reply.cookies) := by
    intro hnew
    rw [hcookies, applyCookies_eq_none _ (hsame.trans hnew) (Or.inl rfl)]
    exact noneAccepted_none L _ _
  cases hnotes with
  | quiet _ hnew _ _ hdue => exact iff_of_true (hempty hnew) fun ⟨t, ht, h⟩ => hdue hexempt t ht h
  | rejected h hnot =>
    exact iff_of_true (hempty (by rw [h]; exact hg.new)) fun ⟨t, ht, h⟩ =>
      hnot t ht h.tokenAccepted
  | @renewed token p u htoken huser hrenew _ hnew _ _ hw₁ =>
    -- the fresh token is in the jar
    obtain ⟨i, -, hrow⟩ := huser.row
    have hu : d.users.get? u.id = some u := (byId_eq_some hrow).2.2
    obtain ⟨hne, hsome⟩ := hread u (Table.mem_of_get? hu)
    have hjar : applyCookies c.sessionToken o.reply.cookies =
        some (L.jwtEncode (renewedClaims orc w u)) := by
      rw [hcookies, applyCookies_maybeSetRefreshCookie, hsame, hnew]
      generalize L.jwtEncode (renewedClaims orc w u) = fresh at hne
      rcases fresh with _ | ⟨x, xs⟩
      · exact absurd rfl hne
      · rfl
    have htime : time o.world = clock orc ((tick orc)^[4] w) := by
      rw [hworld, hw₁, hnow]
      rfl
    rw [hjar, hdb]
    by_cases hsubject : (Json.str (natRepr 10 u.id)).toInt = .ok (u.id : ℤ)
    · have haccepted : TokenAccepted L d (time o.world) (L.jwtEncode (renewedClaims orc w u)) := by
        rw [htime]
        exact tokenAccepted_of_issued hjwt hu huser.admitted hsubject rfl hne hsome
      refine iff_of_false (fun h => ?_) fun h => h ⟨token, htoken, p, u, huser, hrenew, hsubject⟩
      exact h d _ (VersionsLe.refl d) le_rfl _ rfl haccepted
    · refine iff_of_true ?_ ?_
      · rintro d' t' - - token' htoken' ⟨p', u', huser'⟩
        obtain rfl := Option.some.inj htoken'
        exact hsubject (TokenUser.of_issued hjwt huser').1
      · rintro ⟨token', htoken', p', u', huser', -, hsubject'⟩
        obtain rfl : token' = token := Option.some.inj (htoken'.symm.trans htoken)
        obtain ⟨-, rfl⟩ := huser'.unique huser
        exact hsubject hsubject'

/-- A page leaves `g` as it is, and deletes no cookie. -/
theorem exec_run_page (endpoint : String) (view : LoginUser → Handler (Response × List PyStr))
    (g : Globals) :
    (((SessionView.page endpoint view).run L g).exec orc d w).reply.2 =
      (((view g.loginUser).exec orc d w).reply.2.map .sessionToken, g) := by
  rw [SessionView.run, Prog.exec_bind]
  rfl

theorem exec_run_changePassword (form : Option PasswordForm) (renewable : Bool) (g : Globals) :
    let o := ((SessionView.changePassword form renewable).run L g).exec orc d w
    let o' := (changePasswordView L form renewable g).exec orc d w
    o.db = o'.db ∧ o.reply.2 = ([], o'.reply.2) := by
  intro o o'
  have ho : o = ((SessionView.changePassword form renewable).run L g).exec orc d w := rfl
  rw [SessionView.run, Prog.exec_bind] at ho
  rw [ho]
  exact ⟨rfl, rfl⟩

/-- The responses of every other view leave no accepted token when they delete one. -/
theorem view_jar {time : W → Time} (hjwt : L.DecodesIssued) (cfg : AppConfig) {view : SessionView}
    (hview : view ≠ .logout) (c : Cookies) :
    let o := (serve L cfg view c).exec orc d w
    .deleteSessionToken ∈ o.reply.cookies →
      NoneAccepted L o.db (time o.world) (applyCookies c.sessionToken o.reply.cookies) := by
  intro o
  obtain ⟨g, hg, hstopped, hviewed⟩ := exec_serve orc L d w cfg view c
  obtain ⟨⟨hdb₁, hcurrent⟩, hnotes⟩ := exec_loadRequestUser orc L d w cfg view.endpoint c hg
  generalize (loadRequestUser L cfg view.endpoint c g).exec orc d w = o₁ at *
  -- the token of the jar when the deletion was noted on `g`
  have hempty : ∀ {g' : Globals} {cookies}, o.reply.cookies = maybeSetRefreshCookie g' cookies →
      g'.newSessionToken = none → g'.clearSessionToken = true →
      NoneAccepted L o.db (time o.world) (applyCookies c.sessionToken o.reply.cookies) := by
    intro g' cookies h hnew hclear
    rw [h, applyCookies_eq_none _ hnew (Or.inr hclear)]
    exact noneAccepted_none L _ _
  have hnoted : o₁.reply.2.clearSessionToken = true → o₁.reply.2.newSessionToken = none := by
    intro hclear
    cases hnotes with
    | quiet h _ _ _ _ =>
      rw [h] at hclear
      cases hclear
    | rejected h _ =>
      rw [h]
      exact hg.new
    | renewed _ _ _ h _ _ _ _ =>
      rw [h] at hclear
      cases hclear
  intro hdeleted
  rcases hstop : o₁.reply.1 with _ | r
  · obtain ⟨hdb, hworld, hcookies⟩ := hviewed hstop
    have hcookies : o.reply.cookies = _ := hcookies
    rw [hcookies, deleteSessionToken_mem] at hdeleted
    cases view with
    | logout => exact absurd rfl hview
    | page endpoint view =>
      rw [exec_run_page] at hdeleted hcookies
      obtain h | hclear := hdeleted
      · simp at h
      · exact hempty hcookies (hnoted hclear) hclear
    | changePassword form renewable =>
      obtain ⟨hdb₂, hreply⟩ := exec_run_changePassword orc L d o₁.world form renewable o₁.reply.2
      have hdb : o.db = _ := hdb.trans hdb₂
      rw [hreply] at hdeleted hcookies
      obtain h | hclear := hdeleted
      · cases h
      have hraised : o₁.reply.2.clearSessionToken = false → _ := fun h =>
        exec_changePasswordView orc L d o₁.world h hcurrent hclear
      cases hnotes with
      | rejected h _ =>
        -- nobody is logged in, so the view leaves the notes of the hook
        rw [h] at hcookies
        exact hempty hcookies hg.new rfl
      | quiet hclear₁ hnew _ _ _ =>
        exact hempty hcookies ((hraised hclear₁).1.trans hnew) hclear
      | @renewed token p u _ _ _ hclear₁ hnew _ hlogin _ =>
        -- the fresh token has the version from before the change
        obtain ⟨hkept, cu, u', hcu, hu', hver⟩ := hraised hclear₁
        obtain ⟨cu', hcu', rfl⟩ := hlogin
        obtain rfl : cu' = cu := LoginUser.loggedIn.inj (hcu'.symm.trans hcu)
        have hrow : o.db.users.get? cu'.user.id = some u' := by
          rw [hdb]
          exact hu'
        have hlow : cu'.user.sessionVersion < u'.sessionVersion := by omega
        have hold : NoneAccepted L o.db (time o.world)
            (some (L.jwtEncode (renewedClaims orc w cu'.user))) :=
          noneAccepted_of_version hjwt hrow hlow _
        rw [hcookies, applyCookies_maybeSetRefreshCookie, hkept, hnew, if_pos hclear]
        generalize L.jwtEncode (renewedClaims orc w cu'.user) = fresh at hold
        rcases fresh with _ | ⟨x, xs⟩
        · exact noneAccepted_none L _ _
        · exact hold
  · have hcookies : o.reply.cookies = maybeSetRefreshCookie o₁.reply.2 [] := by
      rw [show o.reply = _ from hstopped r hstop]
    rw [hcookies, deleteSessionToken_mem] at hdeleted
    obtain h | hclear := hdeleted
    · cases h
    · exact hempty hcookies (hnoted hclear) hclear

/-- **What a deleted token leaves in the jar**: a response to a request of any endpoint that
deletes the session token leaves none that a later request accepts, unless it answers a `logout`
with a token that was due for a refresh; then the fresh token is in the jar, and accepted. -/
theorem logout_leaves_no_token {time : W → Time} (hnow : ∀ w, clock orc w = time (tick orc w))
    (hjwt : L.DecodesIssued) (hread : ∀ u ∈ d.users.rows,
      L.jwtEncode (renewedClaims orc w u) ≠ [] ∧
        (L.jwtClaims (L.jwtEncode (renewedClaims orc w u))).isSome)
    (cfg : AppConfig) (view : SessionView) (c : Cookies) :
    let o := (serve L cfg view c).exec orc d w
    (view = .logout → .deleteSessionToken ∈ o.reply.cookies) ∧
      ((.deleteSessionToken ∈ o.reply.cookies →
          NoneAccepted L o.db (time o.world) (applyCookies c.sessionToken o.reply.cookies)) ↔
        ¬(view = .logout ∧ ∃ token ∈ c.sessionToken, RefreshDue orc L d w token)) := by
  intro o
  cases view with
  | logout =>
    obtain ⟨hdeleted, hjar⟩ := logout_jar orc L d w hnow hjwt hread cfg c
    refine ⟨fun _ => hdeleted, (forall_prop_of_true hdeleted).trans (hjar.trans ?_)⟩
    exact not_congr (and_iff_right rfl).symm
  | changePassword form renewable =>
    refine ⟨fun h => (by cases h), iff_of_true ?_ fun h => by cases h.1⟩
    exact view_jar orc L d w hjwt cfg (fun h => by cases h) c
  | page endpoint view =>
    refine ⟨fun h => (by cases h), iff_of_true ?_ fun h => by cases h.1⟩
    exact view_jar orc L d w hjwt cfg (fun h => by cases h) c

/-! ### A logout that works, and one that does not -/

/-- Ten minutes after the first token was issued. -/
def logoutTime : Time := (Sample.issuedAt + 600) * 1000000

/-- The answers at that time. -/
def logoutOracle (q : Query) (_ : Unit) : q.Answer × Unit := (Sample.answerAt logoutTime q, ())

/-- The first session token of the voter. -/
def firstToken : PyStr :=
  Sample.tokenHeader ++ py "eyJzdWIiOiIyIiwiaWF0IjoxNzAwMDAwMDAwLCJleHAiOj" ++
    py "E3MDAwMDA5MDAsInZlciI6MH0.1SyW5ZaJKFPLi7g80FWrjYcE09RIlv_l7aBd3T7bafY"

/-- A session token that is issued to the voter at that time. -/
def freshToken : PyStr :=
  Sample.tokenHeader ++ py "eyJzdWIiOiIyIiwiaWF0IjoxNzAwMDAwNjAwLCJleHAiOj" ++
    py "E3MDAwMDE1MDAsInZlciI6MH0.Nqw50FRW1hPWzB2z-kSYKhw2TeO4d9cYQRogJ_MBrpw"

/-- A session token that is issued to the manager at that time. -/
def freshManagerToken : PyStr :=
  Sample.tokenHeader ++ py "eyJzdWIiOiIxIiwiaWF0IjoxNzAwMDAwNjAwLCJleHAiOj" ++
    py "E3MDAwMDE1MDAsInZlciI6MH0.PHw1BMqL8oB6bGprqpPjUjnS-ua6bWQz86q_QAcb124"

/-- The libraries with these tokens. -/
def logoutLib : Lib :=
  Sample.libWith [⟨firstToken, 2, Sample.issuedAt, 0⟩, ⟨freshToken, 2, Sample.issuedAt + 600, 0⟩,
    ⟨freshManagerToken, 1, Sample.issuedAt + 600, 0⟩]

/-- The configuration of a deployment. -/
def deployed : AppConfig := ⟨false, true, true, false⟩

/-- The cookies of a browser with a session token. -/
def withToken (token : PyStr) : Cookies := ⟨some token, .empty, none, []⟩

/-- The response to `logout`. -/
def logoutResponse (token : PyStr) : Outcome Db Event Unit Reply :=
  (serve logoutLib deployed .logout (withToken token)).exec logoutOracle Sample.db ()

theorem decodesIssued_logoutLib : logoutLib.DecodesIssued :=
  decodesIssued_libWith (by decide +kernel)

theorem readable_logoutLib : ∀ u ∈ Sample.db.users.rows,
    logoutLib.jwtEncode (renewedClaims logoutOracle () u) ≠ [] ∧
      (logoutLib.jwtClaims (logoutLib.jwtEncode (renewedClaims logoutOracle () u))).isSome := by
  decide +kernel

/-- A logout with a token that has just been issued leaves none in the jar. -/
theorem logout_leaves_no_token_sample :
    .deleteSessionToken ∈ (logoutResponse freshToken).reply.cookies ∧
      NoneAccepted logoutLib (logoutResponse freshToken).db logoutTime
        (applyCookies (some freshToken) (logoutResponse freshToken).reply.cookies) := by
  have hage : (decodeToken logoutLib logoutTime freshToken).map (fun p => (p.iat, p.exp)) =
      some (Sample.issuedAt + 600, Sample.issuedAt + 1500) := by
    decide +kernel
  have hnot : ¬(SessionView.logout = .logout ∧ ∃ token ∈ (withToken freshToken).sessionToken,
      RefreshDue logoutOracle logoutLib Sample.db () token) := by
    rintro ⟨-, token, htoken, p, u, huser, hrenew, -⟩
    obtain rfl : freshToken = token := Option.some.inj htoken
    have hclaims : decodeToken logoutLib logoutTime freshToken = some p := huser.claims
    rw [hclaims, Option.map_some] at hage
    obtain ⟨hiat, hexp⟩ := Prod.mk.inj (Option.some.inj hage)
    have hlate := hrenew.late.2
    rw [hiat, hexp] at hlate
    exact absurd hlate (by decide)
  have hnow : ∀ w, clock logoutOracle w = Function.const Unit logoutTime (tick logoutOracle w) :=
    fun _ => rfl
  obtain ⟨hview, hjar⟩ := logout_leaves_no_token logoutOracle logoutLib Sample.db () hnow
    decodesIssued_logoutLib readable_logoutLib deployed .logout (withToken freshToken)
  rw [logoutResponse]
  exact ⟨hview rfl, hjar.mpr hnot (hview rfl)⟩

/-- A logout with a token of ten minutes leaves a fresh one in the jar, and it is accepted. -/
theorem logout_leaves_token :
    applyCookies (some firstToken) (logoutResponse firstToken).reply.cookies = some freshToken ∧
      ¬NoneAccepted logoutLib (logoutResponse firstToken).db logoutTime
        (applyCookies (some firstToken) (logoutResponse firstToken).reply.cookies) := by
  have hjar : applyCookies (some firstToken) (logoutResponse firstToken).reply.cookies =
      some freshToken := by
    decide +kernel
  have hrow : (logoutResponse firstToken).db.users.get? (Sample.user 2 "vera" 2).id =
      some (Sample.user 2 "vera" 2) := by
    decide +kernel
  have hstatus : (Sample.user 2 "vera" 2).accountStatus ≠ .rejected := by decide +kernel
  refine ⟨hjar, fun h => ?_⟩
  rw [hjar] at h
  refine h _ _ (VersionsLe.refl _) le_rfl freshToken rfl ?_
  exact tokenAccepted_of_issued decodesIssued_logoutLib hrow hstatus (by decide +kernel)
    (by decide +kernel) (by decide +kernel) (by decide +kernel)

end SecureVote
