import SecureVote.App
import SecureVote.Security.BlindSignature
import SecureVote.Txn.Solo

/-!
# Requests that are served alone

What the parts that the handlers share do when no other request runs: the user of the session
cookie is loaded without a change of the database, and the request is logged in as nobody else.
-/

open Txn

namespace SecureVote

variable {W : Type} {orc : (q : Query) → W → q.Answer × W} {L : Lib} {d : Db} {w : W}

/-- The events log in nobody but user `i`. -/
def OnlyLogin (i : ℕ) (os : List Event) : Prop := ∀ j token, .login j token ∈ os → j = i

/-- What the clock shows. -/
def clock (orc : (q : Query) → W → q.Answer × W) (w : W) : Time := (orc .now w).1

/-- The world after a look at the clock. -/
def tick (orc : (q : Query) → W → q.Answer × W) (w : W) : W := (orc .now w).2

section Statements

variable {α β : Type} (f : β → Handler α)

theorem exec_utcNow_bind (f : Time → Handler α) :
    (utcNow >>= f).exec orc d w = (f (clock orc w)).exec orc d (tick orc w) := rfl

theorem exec_lockElection_bind (m : Mode) (i : ℤ) (f : Option Election → Handler α) :
    (lockElection m i >>= f).exec orc d w = (f (byId d.elections i)).exec orc d w := rfl

theorem exec_refresh_bind [Keyed β] (b : Bind) (t : Tables → Table β) (i : ℕ)
    (f : Option β → Handler α) :
    (refresh b t i >>= f).exec orc d w = (f ((t d.toTables).get? i)).exec orc d w := rfl

/-- `save` leaves the new contents, or nothing when a constraint refuses them. -/
theorem exec_save_bind (g : Tables → Tables) (f : Option Unit → Handler α) :
    (save g >>= f).exec orc d w =
      match Db.commit (g d.toTables) with
      | none => (f none).exec orc d w
      | some d' => (f (some ())).exec orc d' w := by
  rw [save, Prog.exec_write_bind]
  rcases Db.commit (g d.toTables) with _ | d'
  · rfl
  · rfl

theorem exec_insertRow_bind (next : Tables → ℕ) (g : Tables → Tables)
    (f : Option ℕ → Handler α) :
    (insertRow next g >>= f).exec orc d w =
      match Db.commit (g d.toTables) with
      | none => (f none).exec orc d w
      | some d' => (f (some (next d.toTables))).exec orc d' w := by
  rw [insertRow, Prog.exec_write_bind]
  rcases Db.commit (g d.toTables) with _ | d'
  · rfl
  · rfl

end Statements

/-- An audit record of rows that exist reports the event and answers with `r`. -/
theorem exec_auditRow {α : Type} [Keyed α] (b : Bind) {i : ℕ} {u : User} (action targetType : String)
    {t : Tables → Table α} {target : ℕ} (r : Response) (hu : d.users.get? i = some u)
    (ht : ((t d.toTables).get? target).isSome) :
    (auditRow b i action targetType t target r).exec orc d w =
      ⟨r, d, w, [.audit (some u.id) action targetType target]⟩ := by
  obtain ⟨x, hx⟩ := Option.isSome_iff_exists.mp ht
  unfold auditRow
  rw [exec_refresh_bind, hu]
  show Prog.exec orc (refresh b t target >>= _) d w = _
  rw [exec_refresh_bind, hx]
  rfl

variable (orc L d w)

theorem exec_isPasswordExpired (u : User) :
    (u.isPasswordExpired.exec orc d w).db = d ∧ (u.isPasswordExpired.exec orc d w).emitted = [] := by
  unfold User.isPasswordExpired
  split
  · exact ⟨rfl, rfl⟩
  · exact ⟨rfl, rfl⟩

/-- Sliding expiration leaves the database as it is and logs in nobody. -/
theorem exec_refreshToken (p : Payload) (u : User) :
    ((refreshToken L p u).exec orc d w).db = d ∧
      ∀ i token, .login i token ∉ ((refreshToken L p u).exec orc d w).emitted := by
  unfold refreshToken
  rw [exec_utcNow_bind]
  by_cases hhalf : 0 < p.exp - p.iat ∧ p.exp - epochSeconds (clock orc w) < (p.exp - p.iat) / 2
  · obtain ⟨hdb, hem⟩ := exec_isPasswordExpired orc d (tick orc w) u
    rw [if_pos hhalf, Prog.exec_bind, hdb, hem, Outcome.after_nil]
    rcases (u.isPasswordExpired.exec orc d (tick orc w)).reply with _ | _
    · rw [if_neg (by decide), issueToken, exec_utcNow_bind]
      exact ⟨rfl, fun i token h => nomatch List.mem_singleton.mp h⟩
    · exact ⟨rfl, fun i token h => by simp at h⟩
  · rw [if_neg hhalf]
    exact ⟨rfl, fun i token h => by simp at h⟩

/-- A loaded user is the row of the database, with the name of its role, and has been logged in. -/
def LoadedUser (cu : CurrentUser) (os : List Event) : Prop :=
  d.users.get? cu.user.id = some cu.user ∧ cu.role = d.roleName cu.user ∧
    ∃ token, .login cu.user.id token ∈ os

theorem exec_acceptUser (token : PyStr) (p : Payload) (b : Bool) (u : User) (role : Option PyStr) :
    let o := (acceptUser L token p b u role).exec orc d w
    o.db = d ∧ ∀ cu, o.reply = .ok (some cu) →
      cu.user = u ∧ cu.role = role ∧ .login u.id token ∈ o.emitted := by
  intro o
  obtain ⟨hdb, hem⟩ := exec_isPasswordExpired orc d w u
  have ho : o = (acceptUser L token p b u role).exec orc d w := rfl
  rw [acceptUser, Prog.exec_bind, hdb, hem, Outcome.after_nil, Prog.exec_report_bind] at ho
  split at ho
  · rw [ho]
    exact ⟨rfl, fun cu h => by cases h⟩
  · rw [Prog.exec_bind, (exec_refreshToken orc L d _ p u).1] at ho
    rw [ho]
    refine ⟨rfl, fun cu h => ?_⟩
    cases h
    exact ⟨rfl, rfl, List.mem_cons_self⟩

/-- The session cookie is read without a change of the database, and a user it yields is loaded. -/
theorem exec_loadUserFromJwt (cookie : Option PyStr) (b : Bool) :
    let o := (loadUserFromJwt L cookie b).exec orc d w
    o.db = d ∧ ∀ cu, o.reply = .ok (some cu) → LoadedUser d cu o.emitted := by
  intro o
  have ho : o = (loadUserFromJwt L cookie b).exec orc d w := rfl
  have hnone : ∀ w', o = ⟨.ok none, d, w', []⟩ →
      o.db = d ∧ ∀ cu, o.reply = .ok (some cu) → LoadedUser d cu o.emitted := by
    intro w' h
    rw [h]
    exact ⟨rfl, fun cu h => by cases h⟩
  unfold loadUserFromJwt at ho
  split at ho
  · exact hnone w ho
  · exact hnone w ho
  next token _ =>
    rw [exec_utcNow_bind] at ho
    split at ho
    · exact hnone _ ho
    next p _ =>
      split at ho
      · exact hnone _ ho
      next i _ =>
        rw [Prog.exec_select_bind] at ho
        split at ho
        · exact hnone _ ho
        next u role hu =>
          obtain ⟨u', hu', heq⟩ := Option.map_eq_some_iff.mp hu
          cases heq
          split at ho
          · exact hnone _ ho
          · obtain ⟨hdb, hcu⟩ := exec_acceptUser orc L d (tick orc w) token p b u (d.roleName u)
            rw [ho]
            refine ⟨hdb, fun cu h => ?_⟩
            obtain ⟨rfl, hrole, hlogin⟩ := hcu cu h
            exact ⟨(byId_eq_some hu').2.2, hrole, token, hlogin⟩

/-- A guarded handler leaves the database as it is, or goes on for a loaded user whose role is
allowed. -/
theorem exec_rolesRequired (allowed : List String) (cookie : Option PyStr)
    (k : CurrentUser → Handler Response) :
    let o := (rolesRequired L allowed cookie k).exec orc d w
    o.db = d ∨ ∃ cu w', LoadedUser d cu o.emitted ∧ allowed.any (hasRole cu.role) = true ∧
      o.db = ((k cu).exec orc d w').db ∧ o.reply = ((k cu).exec orc d w').reply := by
  intro o
  obtain ⟨hdb, hcu⟩ := exec_loadUserFromJwt orc L d w cookie false
  have ho : o = (rolesRequired L allowed cookie k).exec orc d w := rfl
  rw [rolesRequired, loginRequired, Prog.exec_bind, hdb] at ho
  split at ho
  · exact Or.inl (by rw [ho]; rfl)
  · exact Or.inl (by rw [ho]; rfl)
  next cu hreply =>
    split at ho
    next hrole =>
      refine Or.inr ⟨cu, _, ?_, hrole, by rw [ho]; rfl, by rw [ho]; rfl⟩
      obtain ⟨hu, hr, token, hlogin⟩ := hcu cu hreply
      exact ⟨hu, hr, token, by rw [ho]; exact List.mem_append_left _ hlogin⟩
    · exact Or.inl (by rw [ho]; rfl)

end SecureVote
