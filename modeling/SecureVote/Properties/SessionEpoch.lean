import SecureVote.Runs
import SecureVote.Sample
import SecureVote.Text.Numeral

/-!
# The session epoch

`change_password`, `reset_password` and `reject_user` write the session version they computed
from the row as loaded. `reset_password` has locked that row; the other two have not, so their
commit raises the version exactly when the loaded version is still the committed one. While it
is, versions never go back: a session token issued before a raise is dead after it, and a reset
token is spent by its one use.
-/

open Txn Txn.Rules

namespace SecureVote

open Py

variable {L : Lib} {E : Environment} {r : Request} {l : Loc} {d d' : Db}

/-- The requests whose commit starts a new session epoch. -/
def Request.changesEpoch : Request → Bool
  | .changePassword _ _ | .resetPassword _ _ | .rejectUser _ _ => true
  | _ => false

/-- A session token that decodes has the claims it was issued with. -/
def Lib.DecodesIssued (L : Lib) : Prop :=
  ∀ (i : ℕ) (iat exp v : ℤ) (q : Payload),
    L.jwtClaims (L.jwtEncode ⟨.str (natRepr 10 i), iat, exp, .int v⟩) = some q →
      q = ⟨.str (natRepr 10 i), iat, exp, .int v⟩

/-- The commit raises the session version of one account and leaves the other accounts. -/
def Raises (d d' : Db) : Prop :=
  ∃ i u u', d.users.get? i = some u ∧ d'.users.get? i = some u' ∧
    u.sessionVersion < u'.sessionVersion ∧ ∀ j ≠ i, d'.users.get? j = d.users.get? j

/-- No session version is lower in `d'`. -/
def VersionsLe (d d' : Db) : Prop :=
  ∀ i u, d.users.get? i = some u →
    ∃ u', d'.users.get? i = some u' ∧ u.sessionVersion ≤ u'.sessionVersion

theorem VersionsLe.refl (d : Db) : VersionsLe d d := fun _ _ h => ⟨_, h, le_rfl⟩

theorem VersionsLe.trans {d'' : Db} (h : VersionsLe d d') (h' : VersionsLe d' d'') :
    VersionsLe d d'' := fun i _ hu => by
  obtain ⟨u', hu', hle⟩ := h i _ hu
  obtain ⟨u'', hu'', hle'⟩ := h' i _ hu'
  exact ⟨u'', hu'', hle.trans hle'⟩

theorem versionsLe_of_users_eq (h : d'.users = d.users) : VersionsLe d d' := fun _ _ hu =>
  ⟨_, by rw [h]; exact hu, le_rfl⟩

/-- The commit writes a version computed from the row `x`. -/
structure EpochWrite (d d' : Db) (x : User) : Prop where
  present : (d.users.get? x.id).isSome
  users : ∃ f h, d'.users = d.users.update x.id f h ∧
    ∀ u, (f u).sessionVersion = x.sessionVersion + 1

/-- What a commit does to the session versions: nothing, or a write computed from the row that
its request has loaded, or has locked for a reset. -/
theorem Act.epoch_cases (h : Act L r l d d') :
    r.changesEpoch = false ∧ VersionsLe d d' ∨
      ∃ x, r.changesEpoch = true ∧ EpochWrite d d' x ∧
        (r.loadedUser L l = some x ∨ PasswordReset L r d d' x ∧ r.loadedUser L l = none) := by
  have hkeep : ∀ {id f} (h : ∀ u : User, key (f u) = key u), d'.users = d.users.update id f h →
      (∀ u : User, (f u).sessionVersion = u.sessionVersion) → VersionsLe d d' := by
    intro id f hk heq hf i u hu
    rw [heq, Table.get?_update, hu]
    split
    · exact ⟨f u, rfl, (hf u).ge⟩
    · exact ⟨u, rfl, le_rfl⟩
  cases h with
  | token h =>
    obtain ⟨_, _, _, rfl, -⟩ := h.request
    exact Or.inl ⟨rfl, versionsLe_of_users_eq (congrArg Tables.users h.after :)⟩
  | ballot h =>
    obtain ⟨_, rfl, -⟩ := h.request
    obtain ⟨_, _, _, ha⟩ := h.after
    exact Or.inl ⟨rfl, versionsLe_of_users_eq (congrArg Tables.users ha :)⟩
  | vote h =>
    obtain ⟨_, _, rfl⟩ := h.request
    obtain ⟨_, _, _, ha⟩ := h.after
    exact Or.inl ⟨rfl, versionsLe_of_users_eq (congrArg Tables.users ha :)⟩
  | election h =>
    obtain ⟨_, ha⟩ := h.only
    refine Or.inl ⟨?_, versionsLe_of_users_eq (congrArg Tables.users ha :)⟩
    cases h with
    | create h => obtain ⟨_, _, rfl⟩ := h.request; rfl
    | «open» h => obtain ⟨_, _, rfl⟩ := h.request; rfl
    | close h => obtain ⟨_, _, rfl⟩ := h.request; rfl
    | anchor h => rw [h.request]; rfl
  | candidate h =>
    obtain ⟨-, -, ⟨_, _, ha⟩, -⟩ := h.only
    refine Or.inl ⟨?_, versionsLe_of_users_eq (congrArg Tables.users ha :)⟩
    cases h with
    | create h => obtain ⟨_, _, rfl⟩ := h.request; rfl
    | update h => obtain ⟨_, _, _, rfl⟩ := h.request; rfl
    | delete h => obtain ⟨_, _, rfl⟩ := h.request; rfl
  | sign h =>
    obtain ⟨_, _, _, rfl⟩ := h.request
    obtain ⟨_, _, _, _, ha⟩ := h.after
    exact Or.inl ⟨rfl, versionsLe_of_users_eq (congrArg Tables.users ha :)⟩
  | account h =>
    cases h with
    | approve h =>
      obtain ⟨_, _, rfl⟩ := h.request
      obtain ⟨_, ha⟩ := h.after
      exact Or.inl ⟨rfl, hkeep (by exact fun _ => rfl) (congrArg Tables.users ha :) fun _ => rfl⟩
    | verifyEmail h =>
      obtain ⟨_, rfl⟩ := h.request
      obtain ⟨_, ha⟩ := h.after
      exact Or.inl ⟨rfl, hkeep (by exact fun _ => rfl) (congrArg Tables.users ha :) fun _ => rfl⟩
    | @reject u h =>
      obtain ⟨_, _, rfl⟩ := id h.request
      exact Or.inr ⟨u, rfl, ⟨h.present, _, by exact fun _ => rfl, (congrArg Tables.users h.after :), fun _ => rfl⟩,
        Or.inl h.loaded⟩
    | @changePassword u h =>
      obtain ⟨_, _, rfl⟩ := id h.request
      obtain ⟨_, _, ha⟩ := h.after
      exact Or.inr ⟨u, rfl, ⟨h.present, _, by exact fun _ => rfl, (congrArg Tables.users ha :), fun _ => rfl⟩,
        Or.inl h.loaded⟩
    | @resetPassword u h =>
      obtain ⟨_, _, _, _, _, _, rfl, -⟩ := id h.request
      obtain ⟨_, _, ha⟩ := h.after
      exact Or.inr ⟨u, rfl, ⟨by rw [h.user]; rfl, _, by exact fun _ => rfl, (congrArg Tables.users ha :),
        fun _ => rfl⟩, Or.inr ⟨h, rfl⟩⟩

/-- A write of the session version raises it exactly when the row it was computed from is not
behind the committed one. -/
theorem EpochWrite.raises_iff {x cur : User} (h : EpochWrite d d' x)
    (hcur : d.users.get? x.id = some cur) :
    Raises d d' ↔ cur.sessionVersion ≤ x.sessionVersion := by
  obtain ⟨f, hf, husers, hver⟩ := h.users
  have hself : d'.users.get? x.id = some (f cur) := by
    rw [husers, Table.get?_update_self, hcur]
    rfl
  constructor
  · rintro ⟨i, u, u', hu, hu', hlt, -⟩
    have hi : i = x.id := by
      by_contra hne
      rw [husers, Table.get?_update_of_ne hne, hu] at hu'
      cases hu'
      exact lt_irrefl _ hlt
    subst hi
    rw [hcur] at hu
    rw [hself] at hu'
    cases hu
    cases hu'
    rw [hver] at hlt
    omega
  · intro hle
    refine ⟨x.id, cur, f cur, hcur, hself, by rw [hver]; omega, fun j hj => ?_⟩
    rw [husers, Table.get?_update_of_ne hj]

/-- A write that is not computed from an old version keeps versions from going back. -/
theorem EpochWrite.versionsLe {x cur : User} (h : EpochWrite d d' x)
    (hcur : d.users.get? x.id = some cur) (hle : cur.sessionVersion ≤ x.sessionVersion) :
    VersionsLe d d' := by
  obtain ⟨f, hf, husers, hver⟩ := h.users
  intro i u hu
  rw [husers, Table.get?_update, hu]
  split
  next hi =>
    subst hi
    rw [hcur] at hu
    cases hu
    exact ⟨f cur, rfl, by rw [hver]; omega⟩
  · exact ⟨u, rfl, le_rfl⟩

section Runs

variable {w : E.World} {s s' : Sys (machine L E)} {b : Label}

/-- When the step commits a password change or a rejection, the version of the row as loaded is
the committed one. -/
def LoadedCurrent (s : Sys (machine L E)) (b : Label) : Prop :=
  ∀ pid t p l d' u u', b = .run pid → s.Runs pid t p l → p.commit? s.db = some d' →
    t.request.loadedUser L l = some u → s.db.users.get? u.id = some u' →
    u'.sessionVersion = u.sessionVersion

/-- The row an epoch write is computed from has the committed version, when it is current. -/
theorem version_eq_of_loadedCurrent (hcur : LoadedCurrent s b) {pid : ℕ}
    {t : Thread (machine L E)} {p l} (hb : b = .run pid) (hr : s.Runs pid t p l)
    (hc : p.commit? s.db = some s'.db) {x cur : User}
    (hx : t.request.loadedUser L l = some x ∨
      PasswordReset L t.request s.db s'.db x ∧ t.request.loadedUser L l = none)
    (hrow : s.db.users.get? x.id = some cur) : cur.sessionVersion = x.sessionVersion := by
  rcases hx with hx | ⟨hx, -⟩
  · exact hcur pid t p l _ x cur hb hr hc hx hrow
  · obtain rfl : x = cur := Option.some.inj (hx.user.symm.trans hrow)
    rfl

/-- Versions never go back in a step that writes from a current row. -/
theorem versionsLe_of_step (h : Reach (Sys.init d w) s) (hs : Step (machine L E) b s s')
    (hcur : LoadedCurrent s b) : VersionsLe s.db s'.db := by
  rcases act_of_step h hs with ⟨heq, -⟩ | ⟨pid, t, p, l, hb, hr, hc, hact, -⟩
  · rw [heq]
    exact .refl _
  rcases hact.epoch_cases with ⟨-, hle⟩ | ⟨x, -, hwrite, hx⟩
  · exact hle
  · obtain ⟨cur, hrow⟩ := Option.isSome_iff_exists.mp hwrite.present
    exact hwrite.versionsLe hrow (version_eq_of_loadedCurrent hcur hb hr hc hx hrow).le

theorem versionsLe_of_reach (h : Reach (Sys.init d w) s) (hs : ReachIf LoadedCurrent s s') :
    VersionsLe s.db s'.db := by
  induction hs with
  | refl => exact .refl _
  | tail hr hstep ih =>
    obtain ⟨b, hb, hcur⟩ := hstep
    exact ih.trans (versionsLe_of_step (h.trans (ReachIf.reach hr)) hb hcur)

/-- The snapshots of a run are not ahead of the committed versions. -/
theorem versionsLe_of_snap (h : ReachIf LoadedCurrent (Sys.init d w) s) {pid : ℕ}
    {t : Thread (machine L E)} {p l} (hr : s.Runs pid t p l) {c : Bind} {d₀ : Db}
    (hc : l.snap c = some d₀) : VersionsLe d₀ s.db := by
  rcases h.snap hr hc with ⟨_, _, _, ⟨ht, -⟩, -⟩ | ⟨s₁, h₁, h₂, rfl⟩
  · simp [Sys.init] at ht
  · exact versionsLe_of_reach (ReachIf.reach h₁) h₂

/-- The row a request has loaded is a row of one of its snapshots. -/
theorem snap_of_loadedUser {x : User} (h : r.loadedUser L l = some x) :
    ∃ c d₀, l.snap c = some d₀ ∧ d₀.users.get? x.id = some x := by
  cases r with
  | changePassword cookie form =>
    obtain ⟨i, -, h⟩ := Option.bind_eq_some_iff.mp h
    obtain ⟨d₀, hs, hx⟩ := Option.bind_eq_some_iff.mp h
    exact ⟨.voters, d₀, hs, (byId_eq_some hx).2.2⟩
  | rejectUser cookie i =>
    obtain ⟨d₀, hs, hx⟩ := Option.bind_eq_some_iff.mp h
    exact ⟨_, d₀, hs, by rw [show x.id = i from Table.key_of_get? hx]; exact hx⟩
  | _ => cases h

/-- A commit of a password change or a rejection raises the version exactly when it writes from a
current row. -/
theorem raises_iff_loadedCurrent (h : ReachIf LoadedCurrent (Sys.init d w) s)
    (hs : Step (machine L E) b s s') {pid : ℕ} {t : Thread (machine L E)}
    (hcommit : s'.commits = s.commits ++ [(pid, s.db, s'.db)]) (ht : s.threads[pid]? = some t)
    (hreq : t.request.changesEpoch = true) : Raises s.db s'.db ↔ LoadedCurrent s b := by
  rcases act_of_step (ReachIf.reach h) hs with ⟨-, heq⟩ | ⟨pid', t', p, l, rfl, hr, hc, hact, heq⟩
  · rw [heq] at hcommit
    simp at hcommit
  obtain rfl : pid' = pid := by
    have := List.append_cancel_left (heq.symm.trans hcommit)
    simpa using this
  obtain rfl : t' = t := Option.some.inj (hr.1.symm.trans ht)
  rcases hact.epoch_cases with ⟨hno, -⟩ | ⟨x, -, hwrite, hx⟩
  · rw [hno] at hreq
    cases hreq
  obtain ⟨cur, hrow⟩ := Option.isSome_iff_exists.mp hwrite.present
  rw [hwrite.raises_iff hrow]
  constructor
  · rintro hle pid t p' l' d'' u u' hb hr' - hu hu'
    cases hb
    obtain ⟨rfl, rfl, rfl⟩ := hr.unique hr'
    rcases hx with hx | ⟨-, hx⟩
    · obtain rfl : x = u := Option.some.inj (hx.symm.trans hu)
      obtain rfl : cur = u' := Option.some.inj (hrow.symm.trans hu')
      obtain ⟨c, d₀, hs₀, hx₀⟩ := snap_of_loadedUser hx
      obtain ⟨u', hu', hge⟩ := versionsLe_of_snap h hr hs₀ _ _ hx₀
      obtain rfl : cur = u' := Option.some.inj (hrow.symm.trans hu')
      exact le_antisymm hle hge
    · rw [hx] at hu
      cases hu
  · exact fun hcur => (version_eq_of_loadedCurrent hcur rfl hr hc hx hrow).le

/-! ### Session tokens -/

/-- A token issued in the run carries a version that has been committed. -/
theorem issued_version (h : ReachIf LoadedCurrent (Sys.init d w) s) {j : ℕ} {token : PyStr}
    (hj : (j, .issue token) ∈ s.emitted) :
    ∃ i iat exp v u, token = L.jwtEncode ⟨.str (natRepr 10 i), iat, exp, .int v⟩ ∧
      s.db.users.get? i = some u ∧ v ≤ u.sessionVersion := by
  induction h with
  | refl => exact absurd hj (by simp [Sys.init, Sys.emitted])
  | @tail s₁ s₂ hr hstep ih =>
    obtain ⟨b, hb, hcur⟩ := hstep
    have hmono := versionsLe_of_step (ReachIf.reach hr) hb hcur
    have hold : (j, .issue token) ∈ s₁.emitted → ∃ i iat exp v u,
        token = L.jwtEncode ⟨.str (natRepr 10 i), iat, exp, .int v⟩ ∧
        s₂.db.users.get? i = some u ∧ v ≤ u.sessionVersion := by
      intro hj
      obtain ⟨i, iat, exp, v, u, hp, hu, hle⟩ := ih hj
      obtain ⟨u', hu', hle'⟩ := hmono i u hu
      exact ⟨i, iat, exp, v, u', hp, hu', hle.trans hle'⟩
    rcases (certified (ReachIf.reach hr)).emit_of_step hb with
      heq | ⟨pid, t, q, l, o, -, hrun, hemit, hdb, heq⟩
    · exact hold (heq ▸ hj)
    · rw [heq] at hj
      rcases List.mem_append.mp hj with hj | hj
      · exact hold hj
      · cases List.mem_singleton.mp hj
        obtain ⟨⟨_, iat, exp, _⟩, c, d₀, u, hp, hs, hu, rfl, rfl⟩ := hemit
        obtain ⟨u', hu', hle⟩ := versionsLe_of_snap hr hrun hs _ _ hu
        exact ⟨u.id, iat, exp, _, u', hp, by rw [hdb]; exact hu', hle⟩

/-- The token was issued by the time of `s`: in the run, or before it with a version of the
initial state. -/
def IssuedBefore (d : Db) (s : Sys (machine L E)) (i : ℕ) (token : PyStr) : Prop :=
  (∃ j, (j, .issue token) ∈ s.emitted) ∨
    ∃ q v u, L.jwtClaims token = some q ∧ q.ver = .int v ∧ d.users.get? i = some u ∧
      v ≤ u.sessionVersion

/-- The version in a token that was issued by the time of `s` and names account `i`. -/
theorem version_of_issuedBefore (hjwt : L.DecodesIssued)
    (h : ReachIf LoadedCurrent (Sys.init d w) s) {i : ℕ} {token : PyStr} {q : Payload}
    (hi : IssuedBefore d s i token) (hq : L.jwtClaims token = some q)
    (hsub : q.sub.toInt = .ok (i : ℤ)) :
    ∃ v u, q.ver = .int v ∧ s.db.users.get? i = some u ∧ v ≤ u.sessionVersion := by
  rcases hi with ⟨j, hj⟩ | ⟨q', v, u, hq', hver, hu, hle⟩
  · obtain ⟨i', iat, exp, v, u, rfl, hu, hle⟩ := issued_version h hj
    obtain rfl := hjwt i' iat exp v q hq
    rw [Json.toInt] at hsub
    obtain rfl : i = i' := by
      split at hsub
      next n hn =>
        cases hsub
        exact_mod_cast eq_of_int_natRepr hn
      · cases hsub
    exact ⟨v, u, rfl, hu, hle⟩
  · obtain rfl := Option.some.inj (hq.symm.trans hq')
    obtain ⟨u', hu', hle'⟩ := versionsLe_of_reach .refl h i u hu
    exact ⟨v, u', hver, hu', hle.trans hle'⟩

/-- A token issued before a raise of its account's version logs in after it only in a request
that had loaded the user before the raise. -/
theorem loaded_of_login (hjwt : L.DecodesIssued)
    (h : ReachIf LoadedCurrent (Sys.init d w) s) (hs : Step (machine L E) b s s')
    (hcur : LoadedCurrent s b) {i : ℕ} {u u' : User} (hu : s.db.users.get? i = some u)
    (hu' : s'.db.users.get? i = some u') (hlt : u.sessionVersion < u'.sessionVersion)
    {token : PyStr} (hi : IssuedBefore d s i token) {s₃ s₄ : Sys (machine L E)} {b' : Label}
    (h₃ : ReachIf LoadedCurrent s' s₃) (h₄ : Step (machine L E) b' s₃ s₄) {k : ℕ}
    (hk : s₄.emitted = s₃.emitted ++ [(k, .login i token)]) :
    ∃ t p l d₀, s'.Runs k t p l ∧ l.snap .voters = some d₀ := by
  have h' : ReachIf LoadedCurrent (Sys.init d w) s' := h.step hs hcur
  rcases (certified (ReachIf.reach (h'.trans h₃))).emit_of_step h₄ with
    heq | ⟨pid, t, p, l, o, -, hrun, hemit, -, heq⟩
  · rw [heq] at hk
    simp at hk
  have hlast := List.append_cancel_left (heq.symm.trans hk)
  obtain ⟨rfl, rfl⟩ : pid = k ∧ o = .login i token := by simpa using hlast
  obtain ⟨-, q, d₀, x, hq, hsub, hsnap, hx, hm⟩ := hemit
  rcases h₃.snap hrun hsnap with ⟨t₀, p₀, l₀, hr₀, hs₀⟩ | ⟨s₁, h₁, -, rfl⟩
  · exact ⟨t₀, p₀, l₀, d₀, hr₀, hs₀⟩
  · -- the user was loaded after the raise, so the token's version is too old
    exfalso
    obtain ⟨v, y, hver, hy, hle⟩ := version_of_issuedBefore hjwt h hi hq hsub
    obtain rfl : u = y := Option.some.inj (hu.symm.trans hy)
    obtain ⟨x', hx', hge⟩ := versionsLe_of_reach (ReachIf.reach h') h₁ i u' hu'
    obtain rfl : x = x' := Option.some.inj (hx.symm.trans hx')
    rw [Payload.matches, hver] at hm
    have : v = x.sessionVersion := by simpa using hm
    omega

/-! ### Reset tokens -/

/-- The user id and version in the reset token of a request. -/
def Request.resetClaims (L : Lib) : Request → Option (ℤ × ℤ)
  | .resetPassword token _ => (L.resetToken token).bind fun x => SecureVote.resetClaims x.1
  | _ => none

/-- The commits of requests with a reset token for this user and version. -/
def passwordResets (s : Sys (machine L E)) (uid ver : ℤ) : List (ℕ × Db × Db) :=
  s.commits.filter fun x =>
    (s.threads[x.1]?).any fun t => t.request.resetClaims L = some (uid, ver)

/-- The reset commits of a run only change by the next commit. -/
theorem passwordResets_of_step (h : Reach (Sys.init d w) s) (hs : Step (machine L E) b s s')
    (uid ver : ℤ) : (s.commits.filter fun x =>
      (s'.threads[x.1]?).any fun t => t.request.resetClaims L = some (uid, ver)) =
        passwordResets s uid ver := by
  refine List.filter_congr fun x hx => ?_
  obtain ⟨i, d₁, d₂⟩ := x
  obtain ⟨t, -, -, ht, -⟩ := (certified h).written (Sys.mem_commits.mp hx)
  obtain ⟨t', ht', hreq, -⟩ := hs.threads ht
  simp [ht, ht', hreq]

/-- After a reset the account is past the version of its token. -/
theorem passwordResets_le_one (h : ReachIf LoadedCurrent (Sys.init d w) s) (uid ver : ℤ) :
    (passwordResets s uid ver).length ≤ 1 ∧ (passwordResets s uid ver ≠ [] →
      ∃ u, byId s.db.users uid = some u ∧ ver < u.sessionVersion) := by
  induction h with
  | refl => simp [passwordResets, Sys.init, Sys.commits]
  | @tail s₁ s₂ hr hstep ih =>
    obtain ⟨b, hb, hcur⟩ := hstep
    obtain ⟨ih₁, ih₂⟩ := ih
    have hreach := ReachIf.reach hr
    have hmono := versionsLe_of_step hreach hb hcur
    have hold : passwordResets s₁ uid ver ≠ [] →
        ∃ u, byId s₂.db.users uid = some u ∧ ver < u.sessionVersion := by
      intro hne
      obtain ⟨u, hu, hlt⟩ := ih₂ hne
      unfold byId at hu ⊢
      split at hu
      next huid =>
        obtain ⟨u', hu', hle⟩ := hmono _ u hu
        exact ⟨u', by rw [if_pos huid, hu'], hlt.trans_le hle⟩
      next => cases hu
    rcases act_of_step hreach hb with ⟨-, heq⟩ | ⟨pid, t, p, l, rfl, hrun, hc, hact, heq⟩
    · rw [passwordResets, heq, passwordResets_of_step hreach hb]
      exact ⟨ih₁, hold⟩
    obtain ⟨t', ht', hreq, -⟩ := hb.threads hrun.1
    by_cases hclaims : t.request.resetClaims L = some (uid, ver)
    swap
    · have hsame : passwordResets s₂ uid ver = passwordResets s₁ uid ver := by
        rw [passwordResets, heq, List.filter_append, passwordResets_of_step hreach hb]
        simp [ht', hreq, hclaims]
      rw [hsame]
      exact ⟨ih₁, hold⟩
    · -- a reset: its token has the committed version, so it is the first with these claims
      have hsnoc : passwordResets s₂ uid ver =
          passwordResets s₁ uid ver ++ [(pid, s₁.db, s₂.db)] := by
        rw [passwordResets, heq, List.filter_append, passwordResets_of_step hreach hb]
        simp [ht', hreq, hclaims]
      rcases hact.epoch_cases with ⟨hno, -⟩ | ⟨x, -, hwrite, hx⟩
      · cases hr' : t.request <;> rw [hr'] at hno hclaims <;> first | cases hclaims | cases hno
      have hreset : PasswordReset L t.request s₁.db s₂.db x := by
        rcases hx with hx | ⟨hx, -⟩
        · cases hr' : t.request <;> rw [hr'] at hx hclaims <;> first | cases hclaims | cases hx
        · exact hx
      obtain ⟨token, form, data, ts, uid', ver', hr', htoken, hdata, hid, hver⟩ := hreset.request
      rw [hr', Request.resetClaims, htoken] at hclaims
      cases hdata.symm.trans hclaims
      have hrow : byId s₁.db.users uid = some x := by
        rw [← hid, byId, if_pos (Int.natCast_nonneg _), Int.toNat_natCast]
        exact hreset.user
      have hfirst : passwordResets s₁ uid ver = [] := by
        by_contra hne
        obtain ⟨u, hu, hlt⟩ := ih₂ hne
        obtain rfl : x = u := Option.some.inj (hrow.symm.trans hu)
        omega
      rw [hsnoc, hfirst]
      refine ⟨le_rfl, fun _ => ?_⟩
      obtain ⟨f, hf, husers, hver'⟩ := hwrite.users
      refine ⟨f x, ?_, by rw [hver', hver]; omega⟩
      rw [← hid, byId, if_pos (Int.natCast_nonneg _), Int.toNat_natCast, husers,
        Table.get?_update_self, hreset.user]
      rfl

/-- **The session epoch.** In a run in which password changes and rejections commit from a
current row: the next commit of a password change, reset or rejection raises the version exactly
when it writes from a current row too; after a raise no request that loads the user then accepts
a session token issued before it; and a reset token changes the password at most once. -/
theorem session_epoch (hjwt : L.DecodesIssued)
    (h : ReachIf LoadedCurrent (Sys.init d w) s) :
    (∀ s' b pid t, Step (machine L E) b s s' →
      s'.commits = s.commits ++ [(pid, s.db, s'.db)] → s.threads[pid]? = some t →
      t.request.changesEpoch = true → (Raises s.db s'.db ↔ LoadedCurrent s b)) ∧
    (∀ s' b i u u' token, Step (machine L E) b s s' → LoadedCurrent s b →
      s.db.users.get? i = some u → s'.db.users.get? i = some u' →
      u.sessionVersion < u'.sessionVersion → IssuedBefore d s i token →
      ∀ s₃ s₄ b' k, ReachIf LoadedCurrent s' s₃ → Step (machine L E) b' s₃ s₄ →
        s₄.emitted = s₃.emitted ++ [(k, .login i token)] →
        ∃ t p l d₀, s'.Runs k t p l ∧ l.snap .voters = some d₀) ∧
    ∀ uid ver, (passwordResets s uid ver).length ≤ 1 :=
  ⟨fun _ _ _ _ hs hcommit ht hreq => raises_iff_loadedCurrent h hs hcommit ht hreq,
    fun _ _ _ _ _ _ hs hcur hu hu' hlt hi _ _ _ _ h₃ h₄ hk =>
      loaded_of_login hjwt h hs hcur hu hu' hlt hi h₃ h₄ hk,
    fun uid ver => (passwordResets_le_one h uid ver).1⟩

/-! ### A current and a stale version -/

/-- `LoadedCurrent` as a test on the state. -/
def versionTest (s : Sys (machine L E)) : Label → Bool
  | .run pid =>
    match s.threads[pid]? with
    | some ⟨r, _, .running p l⟩ =>
      match p.commit? s.db, r.loadedUser L l with
      | some _, some u => (s.db.users.get? u.id).all (·.sessionVersion = u.sessionVersion)
      | _, _ => true
    | _ => true
  | _ => true

theorem loadedCurrent_of_test (h : versionTest s b = true) : LoadedCurrent s b := by
  rintro pid ⟨r, wk, st⟩ p l d' u u' rfl ⟨ht, hst⟩ hc hu hu'
  obtain rfl : st = .running p l := hst
  simpa [versionTest, ht, hc, hu, hu'] using h

/-- The sample libraries, with a table of the session tokens that are in use. -/
def Sample.libWith (sessions : List Sample.Session) : Lib :=
  { Sample.lib with
    jwtEncode := fun p =>
      match p.sub, p.ver with
      | .str sub, .int ver =>
        ((sessions.find? fun s => sub = natRepr 10 s.userId ∧ p.iat = s.iat ∧
          p.exp = s.iat + tokenLifetime ∧ ver = s.version).map Sample.Session.token).getD []
      | _, _ => []
    jwtClaims := fun token => (sessions.find? fun s => s.token = token).map Sample.Session.payload }

/-- The claims of a token in use are found again, when no two sessions have one token. -/
theorem decodesIssued_libWith {sessions : List Sample.Session} (hinj : ∀ x ∈ sessions,
    x.token ≠ [] ∧ ∀ y ∈ sessions, y.token = x.token → y = x) :
    (Sample.libWith sessions).DecodesIssued := by
  intro i iat exp v q hq
  obtain ⟨y, hy, rfl⟩ := Option.map_eq_some_iff.mp hq
  have hmem := List.mem_of_find?_eq_some hy
  have htoken : y.token =
      (Sample.libWith sessions).jwtEncode ⟨.str (natRepr 10 i), iat, exp, .int v⟩ := by
    simpa using List.find?_some hy
  unfold Sample.libWith at htoken
  dsimp only at htoken
  rcases hx : sessions.find? fun s => natRepr 10 i = natRepr 10 s.userId ∧ iat = s.iat ∧
      exp = s.iat + tokenLifetime ∧ v = s.version with _ | x
  · rw [hx] at htoken
    exact absurd htoken (hinj y hmem).1
  · rw [hx] at htoken
    obtain rfl := (hinj x (List.mem_of_find?_eq_some hx)).2 y hmem htoken
    have hclaims := List.find?_some hx
    obtain ⟨hsub, rfl, rfl, rfl⟩ := of_decide_eq_true hclaims
    rw [Sample.Session.payload, hsub]

theorem decodesIssued_sample : Sample.lib.DecodesIssued :=
  @decodesIssued_libWith Sample.sessions (by decide +kernel)

/-- A password change of the voter. -/
def changeTo (token : PyStr) (current new : String) : Request :=
  .changePassword (some token) ⟨py current, py new, py new⟩

/-- A run in which the voter changes the password and goes on with the new token. -/
def currentVersionRun : Sys (machine Sample.lib Sample.environment) :=
  (Sys.init Sample.db ()).runs (fun s b => versionTest s b = true) Sample.oracle
    (Sample.inOrder 0 [changeTo Sample.voterToken "Password-0000" "Password-0001",
      .profile (some Sample.renewedToken)])

/-- The version is raised in the run, and no reset is used twice. -/
theorem session_epoch_currentVersionRun :
    (currentVersionRun.db.users.get? 2).map User.sessionVersion = some 1 ∧
      ∀ uid ver, (passwordResets currentVersionRun uid ver).length ≤ 1 := by
  have htests : ReachIf (fun s b => versionTest s b = true) (Sys.init Sample.db ())
      currentVersionRun := by
    unfold currentVersionRun
    refine Sample.runs_reach ?_
    exact fun _ => rfl
  have hcurrent := htests.mono fun _ _ => loadedCurrent_of_test
  exact ⟨by decide +kernel, (session_epoch decodesIssued_sample hcurrent).2.2⟩

/-- A run in which the voter's first password change is slow: two more changes commit before it,
and it writes the version that it computed from the row as it was before them. -/
def staleVersionRun : Sys (machine Sample.lib Sample.environment) :=
  (Sys.init Sample.db ()).runs (fun _ _ => True) Sample.oracle
    (.start (changeTo Sample.voterToken "Password-0000" "Password-0003") 0 :: .run 0 7 ::
      Sample.inOrder 1 [changeTo Sample.voterToken "Password-0000" "Password-0001",
        changeTo Sample.renewedToken "Password-0001" "Password-0002"] ++
      .run 0 100 :: Sample.inOrder 3 [.profile (some Sample.renewedToken)])

/-- A password change lowers the version of its account, and the session token that the voter got
for the version before the last one logs in again. -/
theorem session_epoch_goes_back :
    ∃ s : Sys (machine Sample.lib Sample.environment), Reach (Sys.init Sample.db ()) s ∧
      (∃ i d₁ d₂ t, (i, d₁, d₂) ∈ s.commits ∧ s.threads[i]? = some t ∧
        t.request.changesEpoch = true ∧ ¬Raises d₁ d₂ ∧ ¬VersionsLe d₁ d₂) ∧
      (1, .issue Sample.renewedToken) ∈ s.emitted ∧
      s.emitted.getLast? = some (3, .login 2 Sample.renewedToken) := by
  have hrun : (∃ x ∈ staleVersionRun.commits,
      (staleVersionRun.threads[x.1]?).any (·.request.changesEpoch) = true ∧
      (∀ u ∈ x.2.1.users.rows, ∀ u' ∈ x.2.2.users.rows, u.id = u'.id →
        u'.sessionVersion ≤ u.sessionVersion) ∧
      (x.2.1.users.get? 2).map User.sessionVersion = some 2 ∧
      (x.2.2.users.get? 2).map User.sessionVersion = some 1) ∧
      (1, .issue Sample.renewedToken) ∈ staleVersionRun.emitted ∧
      staleVersionRun.emitted.getLast? = some (3, .login 2 Sample.renewedToken) := by
    decide +kernel
  obtain ⟨⟨⟨i, d₁, d₂⟩, hmem, hthread, hle, hbefore, hafter⟩, hevents⟩ := hrun
  obtain ⟨t, ht, hreq⟩ := (Option.any_eq_true _ _).mp hthread
  refine ⟨staleVersionRun, Sample.runs_reach fun _ => trivial, ⟨i, d₁, d₂, t, hmem, ht, hreq, ?_, ?_⟩,
    hevents⟩
  · rintro ⟨j, u, u', hu, hu', hlt, -⟩
    have hid : u.id = u'.id := (Table.key_of_get? hu).trans (Table.key_of_get? hu').symm
    exact absurd (hle u (Table.mem_of_get? hu) u' (Table.mem_of_get? hu') hid) (by omega)
  · intro hversions
    obtain ⟨u, hu, hu2⟩ := Option.map_eq_some_iff.mp hbefore
    obtain ⟨u', hu', hge⟩ := hversions 2 u hu
    rw [hu'] at hafter
    have : u'.sessionVersion = 1 := by simpa using hafter
    omega

end Runs

end SecureVote
