import SecureVote.Verified.Results
import SecureVote.Verified.Voting

/-!
# The account handlers meet the rules

Approval, verification and passwords, and the theorem that every handler of the system is
verified.
-/

open Txn Txn.Rules

namespace SecureVote

open Py

variable {L : Lib} {E : Environment} {r : Request} {wk : ℕ} {c : Conf L E}

/-! ### Approval -/

/-- The user a manager acts on is the row of the session or one read on the manager
connection. -/
theorem spec_getUser {cu : CurrentUser} (hcu : Loaded r c cu)
    (hadmin : c.loc.snap .admin = none) (hrole : hasRole cu.role "manager" = true) (userId : ℕ) :
    (rules L E).wp r wk (getUser cu userId) (fun res c' => (rules L E).Ext c c' ∧
      ∀ u, res = some u → ∃ d₀, c'.loc.snap
        (if r.subject L = some (userId : ℤ) then .voters else .admin) = some d₀ ∧
        d₀.users.get? userId = some u ∧ Evolves d₀ c'.db) c := by
  have hbind : cu.bind = .admin := by
    rw [hcu.bind, hrole]
    rfl
  have hsubject : r.subject L = some (userId : ℤ) ↔ userId = cu.user.id := by
    rw [hcu.subject, Option.some.injEq, Nat.cast_inj, eq_comm]
  unfold getUser
  split
  next h =>
    refine ⟨.refl c, ?_⟩
    rintro _ ⟨⟩
    obtain ⟨d₀, hs, hu, -, hev⟩ := hcu.user
    exact ⟨d₀, by rw [if_pos (hsubject.mpr h)]; exact hs, by rw [h]; exact hu, hev⟩
  next h =>
    rw [hbind]
    refine wp_mono (spec_select _ _) ?_
    rintro _ c' ⟨hx, d₀, hd₀, rfl, hfresh, -⟩
    obtain rfl := hfresh hadmin
    exact ⟨hx, fun u hu => ⟨_, by rw [if_neg (mt hsubject.mp h)]; exact hd₀, hu, .refl _⟩⟩

theorem wp_approveUser {cookie : Option PyStr} {userId : ℕ} (hloc : c.loc = .fresh)
    (hw : writes c.log = []) :
    (rules L E).wp (.approveUser cookie userId) wk (approveUser L cookie userId)
      (fun a c' => Post L (.approveUser cookie userId) a (writes c'.log)) c := by
  unfold approveUser
  refine wp_adminOnly (r := .approveUser cookie userId) hloc hw
    fun cu c₁ hcu hadmin _ hw₁ hrole => ?_
  refine wp_bind_of (spec_getUser hcu hadmin hrole userId) ?_
  rintro (_ | u) c₂ ⟨hx₂, -⟩
  · exact post_of_failed rfl (hx₂.writes_eq.trans hw₁)
  show (rules L E).wp _ wk (if _ then _ else _) _ c₂
  split
  · exact post_of_failed rfl (hx₂.writes_eq.trans hw₁)
  refine wp_bind_of (spec_select _ _) ?_
  rintro enrolment c₃ ⟨hx₃, -⟩
  refine wp_bind_of (spec_commit ((hx₂.trans hx₃).writes_eq.trans hw₁) fun c' d hx hd =>
    .account (.approve ⟨⟨_, _, rfl⟩, enrolment, hd⟩)) ?_
  rintro (_ | ⟨⟩) c₄ ⟨hrefused, hdone⟩
  · exact post_of_failed rfl (hrefused rfl)
  · obtain ⟨c', d, hx, hd, hc⟩ := hdone rfl
    exact wp_auditRow hc (hcu.carry (hx₂.trans hx₃)) rfl (by simp)
      (by simp [Request.managesElections])

theorem wp_rejectUser {cookie : Option PyStr} {userId : ℕ} (hloc : c.loc = .fresh)
    (hw : writes c.log = []) :
    (rules L E).wp (.rejectUser cookie userId) wk (rejectUser L cookie userId)
      (fun a c' => Post L (.rejectUser cookie userId) a (writes c'.log)) c := by
  unfold rejectUser
  refine wp_adminOnly (r := .rejectUser cookie userId) hloc hw
    fun cu c₁ hcu hadmin _ hw₁ hrole => ?_
  refine wp_bind_of (spec_getUser hcu hadmin hrole userId) ?_
  rintro (_ | u) c₂ ⟨hx₂, hloaded⟩
  · exact post_of_failed rfl (hx₂.writes_eq.trans hw₁)
  obtain ⟨d₀, hs, hu, hev⟩ := hloaded u rfl
  refine wp_bind_of (spec_commit (hx₂.writes_eq.trans hw₁) fun c' d hx hd =>
    .account (.reject ⟨⟨_, _, rfl⟩, by simp [Request.loadedUser, hs, hu], ?_, hd⟩)) ?_
  · obtain ⟨u', hu', -⟩ := (hev.trans (evolves_of_ext hx)).users hu
    rw [show u.id = userId from Table.key_of_get? hu, hu']
    rfl
  rintro (_ | ⟨⟩) c₃ ⟨hrefused, hdone⟩
  · exact post_of_failed rfl (hrefused rfl)
  · obtain ⟨c', d, hx, hd, hc⟩ := hdone rfl
    exact wp_auditRow hc (hcu.carry hx₂) rfl (by simp)
      (by simp [Request.managesElections])

theorem wp_verifyEmail {token : PyStr} (hw : writes c.log = []) :
    (rules L E).wp (.verifyEmail token) wk (verifyEmail L token)
      (fun a c' => Post L (.verifyEmail token) a (writes c'.log)) c := by
  unfold verifyEmail
  refine wp_bind_of (spec_call _) fun now c₁ ⟨hx₁, _⟩ => ?_
  have hw₁ := hx₁.writes_eq.trans hw
  split
  · exact post_of_failed rfl hw₁
  · exact post_of_failed rfl hw₁
  refine wp_bind_of (spec_select _ _) ?_
  rintro (_ | u) c₂ ⟨hx₂, -⟩
  · exact post_of_failed rfl (hx₂.writes_eq.trans hw₁)
  have hw₂ := hx₂.writes_eq.trans hw₁
  show (rules L E).wp _ wk (if _ then _ else _) _ c₂
  split
  · exact post_of_nil (by simp) hw₂
  refine wp_bind_of (spec_commit hw₂ fun c' d hx hd =>
    .account (.verifyEmail ⟨⟨_, rfl⟩, _, hd⟩)) ?_
  rintro (_ | ⟨⟩) c₃ ⟨hrefused, -⟩
  · exact post_of_failed rfl (hrefused rfl)
  · exact ⟨by simp [Response.failed], by simp [Response.reportsSuccess], by simp⟩

/-! ### Passwords -/

/-- `set_password` and its commit, given the action the write is. -/
theorem spec_setPassword {u : User} {password : PyStr} (hw : writes c.log = [])
    (hact : ∀ c' d hash changedAt, (rules L E).Ext c c' →
      d.toTables = writePassword u hash changedAt c'.db.toTables → Act L r c.loc c'.db d) :
    (rules L E).wp r wk (setPassword u password) (fun res c' =>
      (res ≠ Except.ok (some ()) → writes c'.log = []) ∧
      (res = Except.ok (some ()) → ∃ d, Committed c c' d)) c := by
  unfold setPassword
  split
  · exact ⟨fun _ => hw, by simp⟩
  refine wp_bind_of (spec_call _) ?_
  rintro (hash : PyStr) c₁ ⟨hx₁, hl₁, -⟩
  refine wp_bind_of (spec_call _) ?_
  rintro (changedAt : Time) c₂ ⟨hx₂, hl₂, -⟩
  have hx := hx₁.trans hx₂
  refine wp_bind_of (spec_commit (hx.writes_eq.trans hw) fun c' d hx' hd => ?_) ?_
  · rw [hl₂, hl₁]
    exact hact c' d hash changedAt (hx.trans hx') hd
  · rintro (_ | ⟨⟩) c₃ ⟨hrefused, hdone⟩
    · exact ⟨fun _ => hrefused rfl, by simp⟩
    · refine ⟨fun h => absurd rfl h, fun _ => ?_⟩
      obtain ⟨c', d, -, -, hc⟩ := hdone rfl
      exact ⟨d, hc.loc, hc.db, hc.wrote, (evolves_of_ext hx).trans hc.evolves⟩

theorem wp_changePassword {cookie : Option PyStr} {form : PasswordForm} (hloc : c.loc = .fresh)
    (hw : writes c.log = []) :
    (rules L E).wp (.changePassword cookie form) wk (changePassword L cookie form)
      (fun a c' => Post L (.changePassword cookie form) a (writes c'.log)) c := by
  unfold changePassword
  refine wp_loginRequired (r := .changePassword cookie form) hloc hw fun cu c₁ hcu _ _ hw₁ => ?_
  rcases checkChange L cu.user form with _ | complaint
  swap
  · exact post_of_failed rfl hw₁
  obtain ⟨d₀, hs, hu, -, -⟩ := hcu.user
  refine wp_bind_of (spec_setPassword hw₁ fun c' d hash changedAt hx hd => .account
    (.changePassword ⟨⟨_, _, rfl⟩, by simp [Request.loadedUser, hcu.subject, hs, byId, hu],
      hcu.exists_user (evolves_of_ext hx), hash, changedAt, hd⟩)) ?_
  rintro (complaint | _ | ⟨⟩) c₂ ⟨hrefused, hdone⟩
  · exact wp_bind_of spec_abort fun _ c' ⟨_, hw'⟩ =>
      post_of_failed rfl (hw'.trans (hrefused (by simp)))
  · exact wp_bind_of spec_abort fun _ c' ⟨_, hw'⟩ =>
      post_of_failed rfl (hw'.trans (hrefused (by simp)))
  obtain ⟨d, hc⟩ := hdone rfl
  have hpost : ∀ {message endpoint} {ws : List (Db × Db)}, Post L (.changePassword cookie form)
      (.redirect message "success" endpoint) ws :=
    ⟨by simp [Response.failed], by simp [Response.reportsSuccess], by simp⟩
  refine wp_bind_of (spec_select _ _) ?_
  rintro _ c₃ ⟨hx₃, d₁, hd₁, rfl, -⟩
  rcases hu₁ : d₁.users.get? cu.user.id with _ | u
  · exact hpost
  · have hu₁ : d₁.users.get? u.id = some u := by
      rw [show u.id = _ from Table.key_of_get? hu₁]
      exact hu₁
    exact wp_bind_of (spec_issueToken hd₁ hu₁) fun _ c₄ _ => hpost

theorem wp_consumeReset {token new confirm : PyStr} {data : Json} {ts : Time} {uid ver : ℤ}
    (hr : r = .resetPassword token (some (new, confirm))) (htoken : L.resetToken token = some (data, ts))
    (hclaims : resetClaims data = some (uid, ver)) (hw : writes c.log = []) :
    (rules L E).wp r wk (consumeReset uid ver new)
      (fun a c' => Post L r a (writes c'.log)) c := by
  unfold consumeReset
  refine wp_bind_of (spec_selectLocking _ _ _) ?_
  rintro _ c₁ ⟨hx₁, rfl, hheld, -⟩
  have hw₁ := hx₁.writes_eq.trans hw
  generalize hfilter : (byId c₁.db.users uid).filter
    (fun u => decide (u.sessionVersion = ver)) = found
  rcases found with _ | u
  · exact wp_bind_of spec_abort fun _ c' ⟨_, hw'⟩ => post_of_failed rfl (hw'.trans hw₁)
  obtain ⟨hbyId, hver⟩ := Option.filter_eq_some_iff.mp hfilter
  obtain ⟨-, hid, hget⟩ := byId_eq_some hbyId
  have hget : c₁.db.users.get? u.id = some u := hget
  have hlock : (RowId.user u.id, Mode.exclusive) ∈ c₁.loc.held :=
    hheld _ (by rw [hbyId]; simp) (by rw [val_user, hget]; rfl)
  refine wp_bind_of (spec_setPassword hw₁ fun c' d hash changedAt hx hd => .account (.resetPassword
    (u := u) ⟨⟨token, _, data, ts, uid, ver, hr, htoken, hclaims, hid, by simpa using hver⟩, ?_,
      hash, changedAt, hd⟩)) ?_
  · have := Relies.held hx.rely _ hlock
    rw [val_user, val_user, hget] at this
    simpa using this
  · rintro (complaint | _ | ⟨⟩) c₂ ⟨hrefused, -⟩
    · exact post_of_failed rfl (hrefused (by simp))
    · exact post_of_failed rfl (hrefused (by simp))
    · exact ⟨by simp [Response.failed], by simp [Response.reportsSuccess], by simp⟩

/-- A signed link is accepted only with its signed content. -/
theorem loadsTimed_eq_ok {signed : Option (Json × Time)} {maxAge : ℤ} {now : Time} {data : Json}
    (h : loadsTimed signed maxAge now = .ok data) : ∃ ts, signed = some (data, ts) := by
  unfold loadsTimed at h
  split at h
  · cases h
  next ts =>
    dsimp only at h
    split at h
    · cases h
    · cases h
      exact ⟨ts, rfl⟩

theorem wp_resetPassword {token : PyStr} {form : Option (PyStr × PyStr)}
    (hw : writes c.log = []) :
    (rules L E).wp (.resetPassword token form) wk (resetPassword L token form)
      (fun a c' => Post L (.resetPassword token form) a (writes c'.log)) c := by
  unfold resetPassword
  refine wp_bind_of (spec_call _) fun (now : Time) c₁ ⟨hx₁, _⟩ => ?_
  have hw₁ := hx₁.writes_eq.trans hw
  rcases hdata : loadsTimed (L.resetToken token) 1800 now with (_ | _) | data
  · exact post_of_failed rfl hw₁
  · exact post_of_failed rfl hw₁
  obtain ⟨ts, htoken⟩ := loadsTimed_eq_ok hdata
  dsimp only
  rcases hclaims : resetClaims data with _ | ⟨uid, ver⟩
  · exact post_of_failed rfl hw₁
  refine wp_bind_of (spec_select _ _) fun user c₂ ⟨hx₂, _⟩ => ?_
  have hw₂ := hx₂.writes_eq.trans hw₁
  generalize Option.filter _ user = found
  rcases found with _ | u
  · exact post_of_failed rfl hw₂
  rcases form with _ | ⟨new, confirm⟩
  · exact post_of_failed rfl hw₂
  dsimp only
  split
  · exact post_of_failed rfl hw₂
  split
  · exact post_of_failed rfl hw₂
  rcases validatePasswordStrength new with _ | complaint
  · exact wp_consumeReset rfl htoken hclaims hw₂
  · exact post_of_failed rfl hw₂

/-! ### The system -/

/-- **Every handler is verified**: its commits are actions, and its reply agrees with them. -/
theorem verified (L : Lib) (E : Environment) :
    (rules L E).Verified fun r a log => Post L r a (writes log) := by
  intro r wk d w _
  cases r with
  | profile cookie =>
    refine wp_loginRequired (r := .profile cookie) rfl rfl fun cu c _ _ _ hw => ?_
    exact post_of_failed rfl hw
  | requestBlindToken cookie data => exact wp_requestBlindToken rfl rfl
  | castAnonymousBallot data => exact wp_castAnonymousBallot rfl rfl
  | castVote userId candidateId electionId => exact wp_castVote rfl rfl
  | createElection cookie form => exact wp_createElection rfl rfl
  | openElection cookie electionId => exact wp_openElection rfl rfl
  | closeElection cookie electionId => exact wp_closeElection rfl rfl
  | createCandidate cookie form => exact wp_createCandidate rfl rfl
  | updateCandidate cookie candidateId form => exact wp_updateCandidate rfl rfl
  | deleteCandidate cookie candidateId => exact wp_deleteCandidate rfl rfl
  | signElectionResults cookie body form => exact wp_mono (wp_signElectionResults rfl rfl) fun _ _ h => h.post
  | verifyElectionResults cookie body =>
    refine wp_mono (wp_verifyElectionResults rfl rfl) fun a c ⟨h, hw⟩ => ?_
    show Post L _ a (writes c.log)
    rw [hw]
    exact h.post
  | changeSignedResult id change => exact wp_changeSignedResult rfl
  | approveUser cookie userId => exact wp_approveUser rfl rfl
  | rejectUser cookie userId => exact wp_rejectUser rfl rfl
  | verifyEmail token => exact wp_verifyEmail rfl
  | changePassword cookie form => exact wp_changePassword rfl rfl
  | resetPassword token form => exact wp_resetPassword rfl
  | anchorOpenElectionKeys => exact wp_anchorOpenElectionKeys rfl rfl rfl

end SecureVote
