import SecureVote.Verified.SignIn
import SecureVote.Auth.Sample

/-!
# Account lockout

A wrong password is counted by a read-modify-write without a lock: `record_failed_login` writes one
more than what the request has read, so of several requests that have read the same count all but
one are lost. In the runs in which every commit has read the committed count, the counter counts the
commits, and the account is locked from the fifth on.
-/

open Txn Txn.Rules

namespace SecureVote

open Py

variable {L : AuthLib} {E : AuthEnvironment} {mfa : Bool} {d₀ d d' : AuthDb} {w : E.World}
  {i : ℕ}

/-! ### Wrong logins -/

/-- What the password step of a login reads of the accounts to find one. -/
def credentials (d : AuthDb) : List (ℕ × PyStr × PyStr) :=
  d.base.users.rows.map fun u => (u.id, u.username, u.passwordHash)

/-- A login `POST` with a wrong password for the account `i`, among the accounts of `d`. -/
def AuthRequest.WrongLogin (L : AuthLib) (d : AuthDb) (i : ℕ) : AuthRequest → Prop
  | .login _ _ form => ∃ u, d.base.userByUsername L.toLib form.username = some u ∧ u.id = i ∧
      (form.password = [] ∨ L.checkPasswordHash u.passwordHash form.password = false)
  | _ => False

/-- The same credentials give the same account to a name. -/
theorem userByUsername_of_credentials {L : Lib} (h : credentials d' = credentials d)
    {username : PyStr} {u' : User} (hu' : d'.base.userByUsername L username = some u') :
    ∃ u, d.base.userByUsername L username = some u ∧ u.id = u'.id ∧
      u.passwordHash = u'.passwordHash := by
  have hfind : ∀ t : Tables, (t.userByUsername L username).map (fun u =>
      (u.id, u.username, u.passwordHash)) =
      (t.users.rows.map fun u => (u.id, u.username, u.passwordHash)).find? fun x =>
        L.collateEq username x.2.1 := by
    intro t
    rw [List.find?_map]
    rfl
  have hsame : (d.base.userByUsername L username).map (fun u =>
      (u.id, u.username, u.passwordHash)) = some (u'.id, u'.username, u'.passwordHash) := by
    rw [hfind, show d.base.users.rows.map (fun u => (u.id, u.username, u.passwordHash)) =
      credentials d' from h.symm, credentials, ← hfind, hu']
    rfl
  obtain ⟨u, hu, heq⟩ := Option.map_eq_some_iff.mp hsame
  simp only [Prod.mk.injEq] at heq
  exact ⟨u, hu, heq.1, heq.2.2⟩

/-- A failed login leaves the credentials. -/
theorem credentials_recordFailedLogin {u : User} {lock : Option Time}
    (h : d'.base.toTables = recordFailedLogin u lock d.base.toTables) :
    credentials d' = credentials d := by
  have hrows : d'.base.users.rows = d.base.users.rows.map _ := congrArg (·.users.rows) h
  rw [credentials, credentials, hrows, List.map_map]
  refine List.map_congr_left fun x _ => ?_
  dsimp only [Function.comp]
  split <;> rfl

/-! ### Runs of wrong logins -/

/-- The commit records a failed login of `u`, the account `i` as the request has read it. -/
structure FailedLogin (i : ℕ) (l : AuthLoc) (d d' : AuthDb) (u : User) (lock : Option Time) :
    Prop where
  loaded : ∃ d₁, l.snap .voters = some d₁ ∧ d₁.base.users.get? i = some u
  locks : maxLoginAttempts ≤ u.failedLoginAttempts + 1 → ∃ now, lock = some (now + lockoutTime)
  after : d'.base.toTables = recordFailedLogin u lock d.base.toTables

/-- The rules of runs of wrong logins for the account `i` over the accounts of `d₀`. -/
def lockRules (L : AuthLib) (E : AuthEnvironment) (mfa : Bool) (d₀ : AuthDb) (i : ℕ) :
    Rules (authMachine L E mfa) where
  Inv d _ := credentials d = credentials d₀
  Rely _ _ _ _ _ := True
  Guar _ l d _ d' := ∃ u lock, FailedLogin i l d d' u lock
  Emit _ _ _ _ := True
  rely_refl _ _ _ := trivial
  rely_trans _ _ _ _ _ _ _ _ _ := trivial
  rely_mono _ _ _ := trivial
  guar_inv := fun h ⟨_, _, hfail⟩ => (credentials_recordFailedLogin hfail.after).trans h
  guar_rely _ _ _ _ := trivial
  answer_inv h _ := h
  answer_rely _ _ _ := trivial
  drift_inv h _ := h
  drift_rely _ _ _ := trivial

theorem lock_isAccountLocked {r : AuthRequest} {wk : ℕ} {c : AuthConf L E mfa} (u : User) :
    (lockRules L E mfa d₀ i).wp r wk u.isAccountLocked (fun _ c' => c'.loc = c.loc) c := by
  unfold User.isAccountLocked
  split
  · exact rfl
  · exact wp_bind.mpr (wp_call.mpr fun _ _ _ _ _ _ => rfl)

/-- What follows a wrong password commits at most the failed login. -/
theorem lock_failLogin {r : AuthRequest} {wk : ℕ} {c : AuthConf L E mfa} {session : Session}
    {u : User} (hu : ∃ d₁, c.loc.snap .voters = some d₁ ∧ d₁.base.users.get? i = some u) :
    (lockRules L E mfa d₀ i).wp r wk (failLogin session u) (fun _ _ => True) c := by
  have hsave : ∀ lock (k : Option Unit → AuthHandler AuthReply) (c' : AuthConf L E mfa),
      c'.loc = c.loc → (maxLoginAttempts ≤ u.failedLoginAttempts + 1 →
        ∃ now, lock = some (now + lockoutTime)) →
      (∀ saved c'', (lockRules L E mfa d₀ i).wp r wk (k saved) (fun _ _ => True) c'') →
      (lockRules L E mfa d₀ i).wp r wk
        (Handler.lift (save (recordFailedLogin u lock)) >>= k) (fun _ _ => True) c' := by
    intro lock k c' hloc hlocks hk
    refine wp_bind.mpr fun d w _ => ⟨fun _ => hk _ _, fun b d' hw => ?_⟩
    obtain ⟨⟨⟨⟩, d₁⟩, hd₁, heq⟩ := Option.map_eq_some_iff.mp hw
    obtain ⟨d₂, hd₂, heq₂⟩ := Option.map_eq_some_iff.mp hd₁
    cases heq₂
    cases heq
    exact ⟨⟨u, lock, hloc ▸ hu, hlocks, Db.commit_eq_some.mp hd₂⟩, hk _ _⟩
  unfold failLogin
  split
  on_goal 1 => refine wp_bind.mpr (wp_bind.mpr (wp_call.mpr fun d w _ (now : Time) w' _ =>
    hsave _ _ _ rfl (fun _ => ⟨now, rfl⟩) ?_))
  on_goal 2 =>
    rename_i hfew
    refine wp_bind.mpr (hsave _ _ _ rfl (fun hle => absurd hle hfew) ?_)
  -- the page after the commit, which both branches render
  all_goals
    rintro (_ | ⟨⟩) c''
    · exact trivial
    · refine wp_bind.mpr (wp_select.mpr fun d₁ w₁ _ => ?_)
      cases (c''.loc.view Bind.voters d₁).base.users.get? u.id with
      | none => exact trivial
      | some u' => exact wp_bind_of (lock_isAccountLocked u') fun _ _ _ => trivial

/-- A wrong login meets the rules: all that it commits is the failed login. -/
theorem lockVerified :
    (lockRules L E mfa d₀ i).VerifiedOn (AuthRequest.WrongLogin L d₀ i) fun _ _ _ => True := by
  intro r hr wk d w hinv
  cases r with
  | login cookie session form =>
    obtain ⟨u₀, hu₀, rfl, hwrong⟩ := hr
    have hhook : (lockRules L E mfa d₀ u₀.id).wp (.login cookie session form) wk
        (Handler.lift (loadUserFromJwt L.toLib cookie false)) (fun _ _ => True)
        ⟨.fresh, d, w, []⟩ :=
      wp_mono (wp_lift_readOnly (readOnly_loadUserFromJwt cookie false) fun _ _ _ => trivial)
        fun _ _ _ => trivial
    have hfresh : (lockRules L E mfa d₀ u₀.id).Seen
        (⟨.fresh, d, w, []⟩ : AuthConf L E mfa) := fun _ _ h => by cases h
    show (lockRules L E mfa d₀ u₀.id).wp _ _ (login L mfa cookie session form) _ _
    unfold login
    refine wp_bind_of (wp_seen hhook hfresh) ?_
    rintro res c₁ ⟨-, hseen⟩
    match res with
    | .error p => exact trivial
    | .ok (some cu) => exact trivial
    | .ok none =>
      dsimp only
      split
      · exact trivial
      · refine wp_bind.mpr (wp_select.mpr fun d₁ w₁ hlater => ?_)
        obtain ⟨w₂, hview⟩ := hseen.view hlater.2 Bind.voters
        cases hu : (c₁.loc.view Bind.voters d₁).base.userByUsername L.toLib form.username with
        | none => exact trivial
        | some u =>
          -- the account that is read is the one of the request, so the password is wrong
          obtain ⟨u₁, hu₁, hid, hhash⟩ := userByUsername_of_credentials hview hu
          obtain rfl : u₀ = u₁ := Option.some.inj (hu₀.symm.trans hu₁)
          refine wp_bind_of (lock_isAccountLocked u) ?_
          rintro locked c₂ hloc₂
          split
          · exact trivial
          · rw [if_pos (by simpa [hhash] using hwrong)]
            refine lock_failLogin ⟨c₁.loc.view Bind.voters d₁, ?_, ?_⟩
            · rw [hloc₂]
              exact Local.snap_look_self _ _ _
            · rw [hid]
              exact Table.get?_key (List.mem_of_find?_eq_some hu)
  | _ => exact hr.elim

section Runs

variable {s s' : Sys (authMachine L E mfa)} {b : Label}

/-- If the step commits a failed login, the request has read the committed count of failures, and
it has read the clock less than thirty minutes ago. -/
structure Counted (i : ℕ) (s : Sys (authMachine L E mfa)) (b : Label) : Prop where
  current : ∀ pid t p l d' d₁ u cur, b = .run pid → s.Runs pid t p l → p.commit? s.db = some d' →
    l.snap .voters = some d₁ → d₁.base.users.get? i = some u →
      s.db.base.users.get? i = some cur → u.failedLoginAttempts = cur.failedLoginAttempts
  prompt : ∀ pid t p l d' u cur now, b = .run pid → s.Runs pid t p l → p.commit? s.db = some d' →
    u.id = i → s.db.base.users.get? i = some cur →
      d'.base.toTables = recordFailedLogin u (some (now + lockoutTime)) s.db.base.toTables →
        E.clock s.world < now + lockoutTime

/-- The account is locked until after this reading of the clock. -/
def User.LockedAfter (u : User) (clock : Time) : Prop :=
  ∃ t, u.accountLockedUntil = some t ∧ clock < t

/-- A run of wrong logins is certified. -/
theorem lockCertified (h : Reach (Sys.init d w) s)
    (hreq : ∀ t ∈ s.threads, t.request.WrongLogin L d i) :
    (lockRules L E mfa d i).Certified (fun _ _ _ => True) s :=
  certified_of_requests lockVerified rfl h hreq

/-- A step commits nothing, or counts one failure and locks the account from the fifth on. -/
theorem failure_of_step (h : (lockRules L E mfa d i).Certified (fun _ _ _ => True) s)
    (hs : Step (authMachine L E mfa) b s s') (hC : Counted i s b) {cur : User}
    (hcur : s.db.base.users.get? i = some cur) :
    (s'.db = s.db ∧ s'.commits = s.commits) ∨
      ∃ pid u, s'.commits = s.commits ++ [(pid, s.db, s'.db)] ∧
        s'.db.base.users.get? i = some u ∧
        u.failedLoginAttempts = cur.failedLoginAttempts + 1 ∧
        (maxLoginAttempts ≤ u.failedLoginAttempts → u.LockedAfter (E.clock s.world)) := by
  rcases h.write_of_step hs with hsame | ⟨pid, t, p, l, hb, hr, hc, hguar, -, hcommits⟩
  · exact .inl hsame
  obtain ⟨u, lock, ⟨d₁, hsnap, hu⟩, hlocks, hafter⟩ := hguar
  have hid : u.id = i := Table.key_of_get? hu
  have hcount : u.failedLoginAttempts = cur.failedLoginAttempts :=
    hC.current pid t p l _ d₁ u cur hb hr hc hsnap hu hcur
  have hrow : s'.db.base.users.get? i = some { cur with
      failedLoginAttempts := u.failedLoginAttempts + 1
      accountLockedUntil := lock.or cur.accountLockedUntil } := by
    have husers := congrArg (fun t : Tables => t.users.get? i) hafter
    dsimp only [recordFailedLogin] at husers
    rw [husers, hid, Table.get?_update_self, hcur]
    rfl
  refine .inr ⟨pid, _, hcommits, hrow, by rw [hcount], fun hmax => ?_⟩
  obtain ⟨now, rfl⟩ := hlocks hmax
  exact ⟨now + lockoutTime, rfl, hC.prompt pid t p l _ u cur now hb hr hc hid hcur hafter⟩

/-- **Lockout, as long as no failure is lost.** In every run of wrong logins for one account whose
commits are all counted, the counter has grown by the number of commits, and the last commit has
locked the account if it was the fifth failure or a later one. -/
theorem lockout_of_counted {u₀ : User} (hu₀ : d.base.users.get? i = some u₀)
    (hpos : 0 ≤ u₀.failedLoginAttempts) (h : ReachIf (Counted i) (Sys.init d w) s)
    (hreq : ∀ t ∈ s.threads, t.request.WrongLogin L d i) :
    ∃ u, s.db.base.users.get? i = some u ∧
      u.failedLoginAttempts = u₀.failedLoginAttempts + s.commits.length ∧
      (5 ≤ s.commits.length → ∃ s₁ s₂ b, ReachIf (Counted i) (Sys.init d w) s₁ ∧
        Step (authMachine L E mfa) b s₁ s₂ ∧ ReachIf (Counted i) s₂ s ∧
        s₂.commits.length = s₁.commits.length + 1 ∧ s.commits = s₂.commits ∧
        u.LockedAfter (E.clock s₁.world)) := by
  induction h with
  | refl => exact ⟨u₀, hu₀, by simp [Sys.init, Sys.commits], by simp [Sys.init, Sys.commits]⟩
  | @tail s₁ s₂ hr hstep ih =>
    obtain ⟨b, hb, hC⟩ := hstep
    have hreq₁ : ∀ t ∈ s₁.threads, t.request.WrongLogin L d i := by
      intro t ht
      obtain ⟨j, hget⟩ := List.mem_iff_getElem?.mp ht
      obtain ⟨t', ht', heq, -⟩ := hb.threads hget
      exact heq ▸ hreq t' (List.mem_of_getElem? ht')
    obtain ⟨cur, hcur, hcount, hlocked⟩ := ih hreq₁
    have hone : ReachIf (Counted i) s₁ s₂ := Relation.ReflTransGen.single ⟨b, hb, hC⟩
    rcases failure_of_step (lockCertified (ReachIf.reach hr) hreq₁) hb hC hcur with
      ⟨hdb, hcommits⟩ | ⟨pid, u, hcommits, hu, hsucc, hlock⟩
    · rw [hdb, hcommits]
      refine ⟨cur, hcur, hcount, fun hfive => ?_⟩
      obtain ⟨s₃, s₄, b', h₃, h₄, h₅, h₆, h₇, h₈⟩ := hlocked hfive
      exact ⟨s₃, s₄, b', h₃, h₄, h₅.trans hone, h₆, h₇, h₈⟩
    · have hlen : s₂.commits.length = s₁.commits.length + 1 := by simp [hcommits]
      refine ⟨u, hu, by omega, fun hfive => ⟨s₁, s₂, b, hr, hb, .refl, hlen, rfl, hlock ?_⟩⟩
      unfold maxLoginAttempts
      omega

/-! ### Runs of the sample deployment -/

/-- A test for `Counted`. -/
def countedTest (i : ℕ) (s : Sys (authMachine L E mfa)) (b : Label) : Bool :=
  match b with
  | .run pid =>
    match s.threads[pid]? with
    | none => true
    | some t =>
      match t.status with
      | .running p l =>
        match p.commit? s.db with
        | none => true
        | some d' =>
          ((s.db.base.users.get? i).all fun cur => (l.snap .voters).all fun d₁ =>
              (d₁.base.users.get? i).all fun u =>
                decide (u.failedLoginAttempts = cur.failedLoginAttempts)) &&
            (d'.base.users.get? i).all fun u => u.accountLockedUntil.all fun t =>
              decide (E.clock s.world < t)
      | _ => true
  | _ => true

theorem counted_of_test (h : countedTest i s b = true) : Counted i s b := by
  have htest : ∀ pid t p l d', b = .run pid → s.Runs pid t p l → p.commit? s.db = some d' →
      (∀ cur, s.db.base.users.get? i = some cur → ∀ d₁, l.snap .voters = some d₁ →
        ∀ u, d₁.base.users.get? i = some u → u.failedLoginAttempts = cur.failedLoginAttempts) ∧
      ∀ u, d'.base.users.get? i = some u → ∀ t, u.accountLockedUntil = some t →
        E.clock s.world < t := by
    rintro pid t p l d' rfl hruns hcommit
    unfold countedTest at h
    dsimp only at h
    rw [hruns.1] at h
    dsimp only at h
    rw [hruns.2] at h
    dsimp only at h
    rw [hcommit] at h
    simpa [Option.all_eq_true] using h
  constructor
  · intro pid t p l d' d₁ u cur hb hruns hcommit hsnap hu hcur
    exact (htest pid t p l d' hb hruns hcommit).1 cur hcur d₁ hsnap u hu
  · intro pid t p l d' u cur now hb hruns hcommit hid hcur hafter
    have hrow : d'.base.users.get? i = some { cur with
        failedLoginAttempts := u.failedLoginAttempts + 1
        accountLockedUntil := some (now + lockoutTime) } := by
      have husers := congrArg (fun t : Tables => t.users.get? i) hafter
      dsimp only [recordFailedLogin] at husers
      rw [husers, hid, Table.get?_update_self, hcur]
      rfl
    exact (htest pid t p l d' hb hruns hcommit).2 _ hrow _ rfl

end Runs

/-- A login of the voter with a wrong password. -/
def wrongLogin : AuthRequest := .login none .empty ⟨true, py "vera", py "guess"⟩

theorem wrongLogin_sample : wrongLogin.WrongLogin Sample.authLib Sample.authDb 2 :=
  ⟨Sample.user 2 "vera" 2, by decide +kernel⟩

/-- Five of them, one after the other. -/
def slowGuesses : Sys (authMachine Sample.authLib Sample.authEnvironment false) :=
  (Sys.init Sample.authDb ()).runs (fun s b => countedTest 2 s b = true) Sample.authOracle
    (Sample.inTurn 0 (List.replicate 5 wrongLogin))

theorem slowGuesses_sound : ReachIf (Counted 2) (Sys.init Sample.authDb ()) slowGuesses ∧
    ∀ t ∈ slowGuesses.threads, t.request.WrongLogin Sample.authLib Sample.authDb 2 := by
  have hreq : ∀ r ∈ Turn.requests (Sample.inTurn 0 (List.replicate 5 wrongLogin)),
      r.WrongLogin Sample.authLib Sample.authDb 2 := by
    intro r hr
    obtain rfl : r = wrongLogin := by
      simpa [Sample.inTurn, Turn.requests, List.replicate] using hr
    exact wrongLogin_sample
  unfold slowGuesses
  refine And.imp_left (ReachIf.mono fun _ _ hC => counted_of_test hC.1)
    (Sys.runs_sound Sample.authOracle_sound ?_ ?_ hreq)
  · exact fun _ => rfl
  · exact List.forall_mem_nil _

/-- One after the other, five wrong passwords lock the account. -/
theorem lockout_of_counted_slowGuesses : ∃ u, slowGuesses.db.base.users.get? 2 = some u ∧
    u.failedLoginAttempts = 5 ∧ u.LockedAfter (Sample.authEnvironment.clock ()) := by
  have hfive : slowGuesses.commits.length = 5 := by decide +kernel
  have hvera : Sample.authDb.base.users.get? 2 = some (Sample.user 2 "vera" 2) := by decide +kernel
  obtain ⟨u, hu, hcount, hlocked⟩ :=
    lockout_of_counted hvera (by decide) slowGuesses_sound.1 slowGuesses_sound.2
  obtain ⟨_, _, _, -, -, -, -, -, hlock⟩ := hlocked hfive.ge
  rw [hfive] at hcount
  exact ⟨u, hu, hcount, hlock⟩

/-- Five of them that all read the account before the first one commits. -/
def parallelGuesses : Sys (authMachine Sample.authLib Sample.authEnvironment false) :=
  (Sys.init Sample.authDb ()).runs (fun _ _ => True) Sample.authOracle
    ((List.replicate 5 (.start wrongLogin 0)) ++ (List.range 5).map (fun i => .run i 1) ++
      (List.range 5).map fun i => .run i 100)

/-- In parallel, five wrong passwords count as one, and the account is not locked. -/
theorem lockout_outrun : ∃ s : Sys (authMachine Sample.authLib Sample.authEnvironment false),
    Reach (Sys.init Sample.authDb ()) s ∧
      (∀ t ∈ s.threads, t.request.WrongLogin Sample.authLib Sample.authDb 2) ∧
      s.commits.length = 5 ∧ ∃ u, s.db.base.users.get? 2 = some u ∧ u.failedLoginAttempts = 1 ∧
        u.accountLockedUntil = none := by
  have hreq : ∀ r ∈ Turn.requests ((List.replicate 5 (Turn.start wrongLogin 0)) ++
      (List.range 5).map (fun i => Turn.run i 1) ++ (List.range 5).map fun i => Turn.run i 100),
      r.WrongLogin Sample.authLib Sample.authDb 2 := by
    intro r hr
    obtain rfl : r = wrongLogin := by
      simpa [Turn.requests, List.replicate, List.range, List.range.loop] using hr
    exact wrongLogin_sample
  have hrun : parallelGuesses.commits.length = 5 ∧
      (parallelGuesses.db.base.users.get? 2).map (fun u => (u.failedLoginAttempts,
        u.accountLockedUntil)) = some (1, none) := by
    decide +kernel
  obtain ⟨u, hu, heq⟩ := Option.map_eq_some_iff.mp hrun.2
  obtain ⟨hcount, hlock⟩ := Prod.mk.inj heq
  have hsound : Reach (Sys.init Sample.authDb ()) parallelGuesses ∧
      ∀ t ∈ parallelGuesses.threads, t.request.WrongLogin Sample.authLib Sample.authDb 2 := by
    unfold parallelGuesses
    refine And.imp_left (ReachIf.mono fun _ _ _ => trivial)
      (Sys.runs_sound Sample.authOracle_sound ?_ ?_ hreq)
    · exact fun _ => trivial
    · exact List.forall_mem_nil _
  exact ⟨parallelGuesses, hsound.1, hsound.2, hrun.1, u, hu, hcount, hlock⟩

end SecureVote
