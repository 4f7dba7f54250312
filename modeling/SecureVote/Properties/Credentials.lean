import SecureVote.Verified.Credentials
import SecureVote.Properties.Roster
import SecureVote.Properties.SessionEpoch

/-!
# No commit without a credential

Along every run each commit is backed by what its request has shown: a session token in force of a
user with the role that the view asks for, a signed link, or the current signature of an eligible
voter's ballot. From this follows where an account got its rights from: a voter who holds an
authorization was approved by a manager and has followed a signed link, unless the account came
into the run that way, and a stored password hash is that of a strong password.
-/

open Txn Txn.Rules

namespace SecureVote

open Py

variable {L : Lib} {E : Environment} {d d' : Db} {w : E.World} {s s' : Sys (machine L E)} {b : Label}

/-! ### Backed commits of a run -/

/-- The run to `s` has been in this committed state. -/
def Visited (d : Db) (w : E.World) (s : Sys (machine L E)) (d₀ : Db) : Prop :=
  ∃ s₀ : Sys (machine L E), Reach (Sys.init d w) s₀ ∧ Reach s₀ s ∧ s₀.db = d₀

theorem Visited.mono {d₀ : Db} (h : Visited d w s d₀) (hs : Reach s s') : Visited d w s' d₀ := by
  obtain ⟨s₀, h₀, h₁, hd⟩ := h
  exact ⟨s₀, h₀, h₁.trans hs, hd⟩

/-- Every read of a run sees a state that the run has been in. -/
theorem logged_of_visited (h : Reach (Sys.init d w) s) :
    (rules L E).Logged (ReadsPast L E (Visited d w s))
      (fun r => CommitsAre (Backed L E (Visited d w s) r)) (fun _ _ _ => True) s := by
  have hreach : ∀ s₁, Reach (Sys.init d w) s₁ → Reach s₁ s →
      ReachIf (Meets (ReadsPast L E (Visited d w s))) (Sys.init d w) s₁ := by
    intro s₁ h₁
    induction h₁ with
    | refl => exact fun _ => .refl
    | @tail s₁ s₂ hr hstep ih =>
      intro h₂
      obtain ⟨b, hb, -⟩ := hstep
      have h₁ : Reach s₁ s := Relation.ReflTransGen.head ⟨b, hb, trivial⟩ h₂
      exact ReachIf.step (ih h₁) hb fun _ _ _ _ _ _ => ⟨s₁, hr, h₁, rfl⟩
  exact logged_of_reachIf (verified L E) (fun _ _ a hlog => hlog.append rfl)
    (fun r _ _ _ _ => ⟨.of_nil rfl, sourced_handle r rfl rfl⟩) trivial (hreach s h .refl)

/-- A step commits nothing, or is the commit of one request, which is an action and backed by states
that the run has been in. -/
theorem backed_of_step (h : Reach (Sys.init d w) s) (hs : Step (machine L E) b s s') :
    (s'.db = s.db ∧ s'.commits = s.commits) ∨
      ∃ pid t l, s.threads[pid]? = some t ∧ Act L t.request l s.db s'.db ∧
        Backed L E (Visited d w s) t.request s.db s'.db ∧
        s'.commits = s.commits ++ [(pid, s.db, s'.db)] := by
  rcases act_of_step h hs with h' | ⟨pid, t, p, l, -, hr, hc, hact, hcommits⟩
  · exact Or.inl h'
  · refine Or.inr ⟨pid, t, l, hr.1, hact, ?_, hcommits⟩
    have hsourced := (logged_of_visited h).of_commit? (certified h) hr hc
    exact hsourced s.db s'.db (by rw [writes_append]; exact List.mem_append_right _ (by simp))

/-- The request `r` of the thread `i` has committed in the run to `s`. -/
def CommittedBy (s : Sys (machine L E)) (i : ℕ) (r : Request) (d₁ d₂ : Db) : Prop :=
  (i, d₁, d₂) ∈ s.commits ∧ ∃ t, s.threads[i]? = some t ∧ t.request = r

theorem CommittedBy.mono {i : ℕ} {r : Request} {d₁ d₂ : Db} (h : CommittedBy s i r d₁ d₂)
    (hs : Reach s s') : CommittedBy s' i r d₁ d₂ := by
  obtain ⟨hmem, t, ht, rfl⟩ := h
  obtain ⟨t', ht', hreq, -⟩ := hs.threads ht
  exact ⟨hs.commits_prefix.subset hmem, t', ht', hreq⟩

/-- In the run to `s` a manager's request has approved the user `v`, whose email address was
verified when the request read the row. -/
def ApprovedIn (d : Db) (w : E.World) (s : Sys (machine L E)) (v : ℕ) : Prop :=
  ∃ i cookie d₁ d₂, CommittedBy s i (.approveUser cookie v) d₁ d₂ ∧
    (∃ d₀ m, Visited d w s d₀ ∧ Permitted L (.approveUser cookie v) d₀ m) ∧
    ∃ d₀ u, Visited d w s d₀ ∧ d₀.users.get? v = some u ∧ u.emailVerified = true

/-- In the run to `s` the user `v` has followed a signed link for the email address of the row. -/
def LinkFollowed (d : Db) (w : E.World) (s : Sys (machine L E)) (v : ℕ) : Prop :=
  ∃ i token d₁ d₂, CommittedBy s i (.verifyEmail token) d₁ d₂ ∧
    ∃ d₀ u email ts, Visited d w s d₀ ∧ L.verifyToken token = some (email, ts) ∧
      d₀.userByEmail L email = some u ∧ u.id = v

theorem ApprovedIn.mono {v : ℕ} (h : ApprovedIn d w s v) (hs : Reach s s') :
    ApprovedIn d w s' v := by
  obtain ⟨i, cookie, d₁, d₂, hmade, ⟨d₀, m, hpast, hm⟩, d₀', u, hpast', hu⟩ := h
  exact ⟨i, cookie, d₁, d₂, hmade.mono hs, ⟨d₀, m, hpast.mono hs, hm⟩, d₀', u, hpast'.mono hs, hu⟩

theorem LinkFollowed.mono {v : ℕ} (h : LinkFollowed d w s v) (hs : Reach s s') :
    LinkFollowed d w s' v := by
  obtain ⟨i, token, d₁, d₂, hmade, d₀, u, email, ts, hpast, hu⟩ := h
  exact ⟨i, token, d₁, d₂, hmade.mono hs, d₀, u, email, ts, hpast.mono hs, hu⟩

/-- The row `u` of the user `v` after a run, against the row `u₀` that the run started with. -/
structure Accounted (d : Db) (w : E.World) (s : Sys (machine L E)) (v : ℕ) (u₀ u : User) :
    Prop where
  approved : u.accountStatus = .approved → u₀.accountStatus = .approved ∨ ApprovedIn d w s v
  verified : u.emailVerified = true → u₀.emailVerified = true ∨ LinkFollowed d w s v
  password : u.passwordHash = u₀.passwordHash ∨ StrongHash E u.passwordHash

/-- A row that has changed in no column that counts. -/
theorem Accounted.of_eq {v : ℕ} {u₀ u u' : User} (h : Accounted d w s v u₀ u) (hs : Reach s s')
    (ha : u'.accountStatus = .approved → u.accountStatus = .approved)
    (he : u'.emailVerified = u.emailVerified) (hp : u'.passwordHash = u.passwordHash) :
    Accounted d w s' v u₀ u' where
  approved hu := (h.approved (ha hu)).imp_right fun h => h.mono hs
  verified hu := (h.verified (he ▸ hu)).imp_right fun h => h.mono hs
  password := hp ▸ h.password

/-- What a commit does to the users: nothing, or an account commit. -/
theorem Act.users_cases {r : Request} {l : Loc} (h : Act L r l d d') :
    d'.users = d.users ∨ AccountAct L r l d d' := by
  cases h with
  | token h => exact Or.inl (congrArg Tables.users h.after :)
  | ballot h =>
    obtain ⟨_, _, _, ha⟩ := h.after
    exact Or.inl (congrArg Tables.users ha :)
  | vote h =>
    obtain ⟨_, _, _, ha⟩ := h.after
    exact Or.inl (congrArg Tables.users ha :)
  | election h =>
    obtain ⟨_, ha⟩ := h.only
    exact Or.inl (congrArg Tables.users ha :)
  | candidate h =>
    obtain ⟨-, -, ⟨_, _, ha⟩, -⟩ := h.only
    exact Or.inl (congrArg Tables.users ha :)
  | sign h =>
    obtain ⟨_, _, _, _, ha⟩ := h.after
    exact Or.inl (congrArg Tables.users ha :)
  | account h => exact Or.inr h

/-- The row of a user after an update of one row. -/
theorem get?_update_user {t : Table User} {i v : ℕ} {f : User → User} {h} {u' : User}
    (hu : (t.update i f h).get? v = some u') :
    ∃ u, t.get? v = some u ∧ (u' = u ∨ (v = i ∧ u' = f u)) := by
  rw [Table.get?_update] at hu
  split at hu
  next hv =>
    obtain ⟨u, hu₀, rfl⟩ := Option.map_eq_some_iff.mp hu
    exact ⟨u, hu₀, Or.inr ⟨hv, rfl⟩⟩
  · exact ⟨u', hu, Or.inl rfl⟩

/-- A column assignment towards another value than the loaded one does not bring in a third. -/
theorem assign_eq {α : Type} [DecidableEq α] {loaded new current x : α}
    (h : assign loaded new current = x) : current = x ∨ new = x := by
  unfold assign at h
  split at h
  · exact Or.inl h
  · exact Or.inr h

/-- One step keeps the account of every user. -/
theorem accounted_of_step (h : Reach (Sys.init d w) s) (hs : Step (machine L E) b s s') {v : ℕ}
    {u' : User} (hu : s'.db.users.get? v = some u')
    (ih : ∀ u, s.db.users.get? v = some u →
      ∃ u₀, d.users.get? v = some u₀ ∧ Accounted d w s v u₀ u) :
    ∃ u₀, d.users.get? v = some u₀ ∧ Accounted d w s' v u₀ u' := by
  have hone : Reach s s' := Relation.ReflTransGen.single ⟨b, hs, trivial⟩
  have hquiet : s'.db.users = s.db.users → ∃ u₀, d.users.get? v = some u₀ ∧
      Accounted d w s' v u₀ u' := by
    intro heq
    obtain ⟨u₀, hu₀, hacc⟩ := ih u' (heq ▸ hu)
    exact ⟨u₀, hu₀, hacc.of_eq hone (fun h => h) rfl rfl⟩
  rcases backed_of_step h hs with ⟨heq, -⟩ | ⟨pid, t, l, ht, hact, hbacked, hcommits⟩
  · exact hquiet (by rw [heq])
  rcases hact.users_cases with heq | hact
  · exact hquiet heq
  -- the commit of this step, among those of the run
  have hmade : CommittedBy s' pid t.request s.db s'.db := by
    obtain ⟨t', ht', hreq, -⟩ := hone.threads ht
    exact ⟨by rw [hcommits]; exact List.mem_append_right _ (List.mem_singleton_self _), t', ht', hreq⟩
  have hpassword : ∀ {x hash changedAt}, StrongHash E hash →
      s'.db.toTables = writePassword x hash changedAt s.db.toTables →
      ∃ u₀, d.users.get? v = some u₀ ∧ Accounted d w s' v u₀ u' := by
    intro x hash changedAt hstrong hd
    rw [show s'.db.users = _ from (congrArg Tables.users hd :)] at hu
    simp only [writePassword] at hu
    obtain ⟨u, hu, hcase⟩ := get?_update_user hu
    obtain ⟨u₀, hu₀, hacc⟩ := ih u hu
    rcases hcase with rfl | ⟨-, rfl⟩
    · exact ⟨u₀, hu₀, hacc.of_eq hone (fun h => h) rfl rfl⟩
    · exact ⟨u₀, hu₀, fun ha => (hacc.approved ha).imp_right fun h => h.mono hone,
        fun he => (hacc.verified he).imp_right fun h => h.mono hone, Or.inr hstrong⟩
  cases hact with
  | approve happrove =>
    obtain ⟨cookie, id, hr⟩ := happrove.request
    obtain ⟨d₀, x, enrolment, hpast, hx, hverified, hd⟩ := hbacked.approval hr
    rw [show s'.db.users = _ from (congrArg Tables.users hd :)] at hu
    simp only [markApproved] at hu
    obtain ⟨u, hu, hcase⟩ := get?_update_user hu
    obtain ⟨u₀, hu₀, hacc⟩ := ih u hu
    rcases hcase with rfl | ⟨rfl, rfl⟩
    · exact ⟨u₀, hu₀, hacc.of_eq hone (fun h => h) rfl rfl⟩
    · refine ⟨u₀, hu₀, fun _ => Or.inr ?_,
        fun he => (hacc.verified he).imp_right fun h => h.mono hone, hacc.password⟩
      obtain rfl : x.id = id := Table.key_of_get? hx
      obtain ⟨d₁, m, hpast₁, hm⟩ := hbacked.session (by rw [hr]; rfl)
      exact ⟨pid, cookie, _, _, hr ▸ hmade, ⟨d₁, m, hpast₁.mono hone, hr ▸ hm⟩, d₀, x,
        hpast.mono hone, hx, hverified⟩
  | reject hreject =>
    rw [show s'.db.users = _ from (congrArg Tables.users hreject.after :)] at hu
    simp only [markRejected] at hu
    obtain ⟨u, hu, hcase⟩ := get?_update_user hu
    obtain ⟨u₀, hu₀, hacc⟩ := ih u hu
    rcases hcase with rfl | ⟨-, rfl⟩
    · exact ⟨u₀, hu₀, hacc.of_eq hone (fun h => h) rfl rfl⟩
    · refine ⟨u₀, hu₀, hacc.of_eq hone (fun ha => ?_) rfl rfl⟩
      exact (assign_eq ha).resolve_right (by decide)
  | verifyEmail hverify =>
    obtain ⟨token, hr⟩ := hverify.request
    obtain ⟨d₀, x, email, ts, hpast, htoken, hx, hd⟩ := hbacked.link hr
    rw [show s'.db.users = _ from (congrArg Tables.users hd :)] at hu
    simp only [markVerified] at hu
    obtain ⟨u, hu, hcase⟩ := get?_update_user hu
    obtain ⟨u₀, hu₀, hacc⟩ := ih u hu
    rcases hcase with rfl | ⟨rfl, rfl⟩
    · exact ⟨u₀, hu₀, hacc.of_eq hone (fun h => h) rfl rfl⟩
    · refine ⟨u₀, hu₀, fun ha => (hacc.approved ha).imp_right fun h => h.mono hone,
        fun _ => Or.inr ?_, hacc.password⟩
      exact ⟨pid, token, _, _, hr ▸ hmade, d₀, x, email, ts, hpast.mono hone, htoken, hx, rfl⟩
  | changePassword hchange =>
    obtain ⟨cookie, form, hr⟩ := hchange.request
    obtain ⟨x, hash, changedAt, hstrong, hd⟩ := hbacked.password (Or.inl ⟨cookie, form, hr⟩)
    exact hpassword hstrong hd
  | resetPassword hreset =>
    obtain ⟨token, form, _, _, _, _, hr, -⟩ := hreset.request
    obtain ⟨x, hash, changedAt, hstrong, hd⟩ := hbacked.password (Or.inr ⟨token, form, hr⟩)
    exact hpassword hstrong hd

/-- Every run keeps the account of every user. -/
theorem accounted_of_reach (h : Reach (Sys.init d w) s) {v : ℕ} {u : User}
    (hu : s.db.users.get? v = some u) :
    ∃ u₀, d.users.get? v = some u₀ ∧ Accounted d w s v u₀ u := by
  induction h generalizing u with
  | refl => exact ⟨u, hu, fun h => Or.inl h, fun h => Or.inl h, Or.inl rfl⟩
  | tail hr hstep ih =>
    obtain ⟨b, hb, -⟩ := hstep
    exact accounted_of_step hr hb hu fun _ => ih

/-- **Stored passwords are strong.** After any run a stored hash is the one that the account came
into the run with, or was computed from a password that passed `validate_password_strength`. -/
theorem stored_passwords_strong (h : Reach (Sys.init d w) s) {v : ℕ} {u : User}
    (hu : s.db.users.get? v = some u) :
    (∃ u₀, d.users.get? v = some u₀ ∧ u.passwordHash = u₀.passwordHash) ∨
      StrongHash E u.passwordHash := by
  obtain ⟨u₀, hu₀, hacc⟩ := accounted_of_reach h hu
  exact hacc.password.imp_left fun heq => ⟨u₀, hu₀, heq⟩

/-- A run in which the voter changes the password. -/
def renewedRun : Sys (machine Sample.lib Sample.environment) :=
  (Sys.init Sample.db ()).runs (fun _ _ => True) Sample.oracle
    (Sample.inOrder 0 [changeTo Sample.voterToken "Password-0000" "Password-0001"])

/-- The new hash is that of a strong password. -/
theorem stored_passwords_strong_renewedRun : ∃ u, renewedRun.db.users.get? 2 = some u ∧
    StrongHash Sample.environment u.passwordHash := by
  have hnew : ∀ u₀, Sample.db.users.get? 2 = some u₀ →
      (renewedRun.db.users.get? 2).map User.passwordHash ≠ some u₀.passwordHash := by
    have hne : (renewedRun.db.users.get? 2).map User.passwordHash ≠
        (Sample.db.users.get? 2).map User.passwordHash := by decide +kernel
    intro u₀ hu₀
    rwa [hu₀] at hne
  have hrun : Reach (Sys.init Sample.db ()) renewedRun := Sample.runs_reach fun _ => trivial
  obtain ⟨u, hu⟩ := Option.isSome_iff_exists.mp
    (by decide +kernel : (renewedRun.db.users.get? 2).isSome)
  refine ⟨u, hu, (stored_passwords_strong hrun hu).resolve_left ?_⟩
  rintro ⟨u₀, hu₀, heq⟩
  exact hnew u₀ hu₀ (by rw [hu, Option.map_some, heq])

end SecureVote
