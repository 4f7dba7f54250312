import SecureVote.Verified.Management

/-!
# The result handlers meet the rules

`sign_election_results`, `verify_election_results` and the hook on signed results. For the two
endpoints the proofs say which replies there are: `SignOutcome` and `VerificationOutcome`.
-/

open Txn Txn.Rules

namespace SecureVote

open Py

variable {L : Lib} {E : Environment} {r : Request} {wk : ℕ} {c : Conf L E}

/-! ### Signing -/

/-- The tally read on a connection of its own, under the exclusive lock of the signer, is the
tally of every later point of the transaction. -/
theorem spec_getVoteTallies (i : ℕ) (hlock : (RowId.election i, Mode.exclusive) ∈ c.loc.held) :
    (rules L E).wp r wk (getVoteTallies L i) (fun res c' => (rules L E).Ext c c' ∧
      ∀ rows, res = some rows → ∀ c'', (rules L E).Ext c' c'' → c''.db.tallies L i = rows) c := by
  unfold getVoteTallies
  refine wp_bind_of (spec_call _) fun (available : Bool) c₁ ⟨hx₁, _⟩ => ?_
  split
  · refine wp_bind_of (spec_selectLatest _) ?_
    rintro _ c₂ ⟨hx₂, rfl, hl₂⟩
    refine ⟨hx₁.trans hx₂, ?_⟩
    rintro _ ⟨⟩ c'' hx
    have hlock₂ := hx₂.held (hx₁.held hlock)
    exact tallies_congr (Relies.roster hx.rely hlock₂) (Relies.votes hx.rely hlock₂)
      (evolves_of_ext hx).regions
  · exact ⟨hx₁, by simp⟩

/-- The provenance check either lets the transaction go on or rolls it back with an error. -/
theorem spec_archiveKey (cu : CurrentUser) (signed : SigningResult) :
    (rules L E).wp r wk (archiveKey L cu signed) (fun res c' => writes c'.log = writes c.log ∧
      (∀ a, res = Except.error a → ∃ m, a = .error m 503) ∧
      ∀ key, res = Except.ok key → (rules L E).Ext c c') c := by
  unfold archiveKey
  split
  · exact ⟨rfl, by simp, by rintro _ ⟨⟩; exact .refl c⟩
  split
  · exact wp_bind_of spec_abort fun _ c' habort =>
      ⟨habort.2, by rintro a ⟨⟩; exact ⟨_, rfl⟩, by simp⟩
  refine wp_bind_of (spec_select _ _) ?_
  rintro (_ | old) c₁ ⟨hx₁, -⟩
  · exact ⟨hx₁.writes_eq, by simp, by rintro _ ⟨⟩; exact hx₁⟩
  · show (rules L E).wp _ wk (if _ then _ else _) _ c₁
    split
    · exact ⟨hx₁.writes_eq, by simp, by rintro _ ⟨⟩; exact hx₁⟩
    · exact wp_bind_of spec_abort fun _ c' habort =>
        ⟨habort.2.trans hx₁.writes_eq, by rintro a ⟨⟩; exact ⟨_, rfl⟩, by simp⟩

/-- How a signing request ends: stopped before the view function, refused by it, raised by a
conversion, or signed. -/
inductive SignOutcome (body : Option Json) (form : Option PyStr) :
    Response → List (Db × Db) → Prop
  | stopped {a} (h : a = .unauthorized ∨ a = passwordExpired) : SignOutcome body form a []
  | rejected {message code} (h : code ∈ [400, 403, 404, 409, 503]) :
      SignOutcome body form (.error message code) []
  | raised {e} (h : signElectionId body form = .error (.uncaught e)) :
      SignOutcome body form (.uncaught e) []
  | signed {i ws} : SignOutcome body form (.resultSigned i) ws

theorem SignOutcome.post {cookie : Option PyStr} {body : Option Json} {form : Option PyStr}
    {a : Response} {ws : List (Db × Db)} (h : SignOutcome body form a ws) :
    Post L (.signElectionResults cookie body form) a ws := by
  cases h with
  | stopped h =>
    rcases h with rfl | rfl
    · exact post_of_failed rfl rfl
    · exact post_of_failed (by decide) rfl
  | rejected _ => exact post_of_failed rfl rfl
  | raised _ => exact post_of_failed rfl rfl
  | signed => exact ⟨by simp [Response.failed], by simp [Request.managesElections], by simp⟩

/-- A refusal of the election id is a reply of the endpoint, or an exception. -/
theorem error_of_signElectionId {body : Option Json} {form : Option PyStr} {a : Response}
    (h : signElectionId body form = .error a) :
    a = .error "A valid election_id is required." 400 ∨ ∃ e, a = .uncaught e := by
  unfold signElectionId at h
  dsimp only at h
  split at h
  next hgiven =>
    cases h
    repeat' split at hgiven
    all_goals cases hgiven
    exact Or.inr ⟨_, rfl⟩
  · split at h
    all_goals cases h
    · exact Or.inr ⟨_, rfl⟩
    · exact Or.inl rfl

theorem wp_signClosed {cookie : Option PyStr} {body : Option Json} {form : Option PyStr}
    {cu : CurrentUser} {e : Election} (hr : r = .signElectionResults cookie body form)
    (hcu : Loaded r c cu) (hheld : Held c.loc .exclusive c.db e) (hclosed : e.status = .closed)
    (hw : writes c.log = []) :
    (rules L E).wp r wk (signClosed L cu e)
      (fun a c' => SignOutcome body form a (writes c'.log)) c := by
  have hreject : ∀ {m code} {c₁ : Conf L E}, code ∈ [400, 403, 404, 409, 503] →
      writes c₁.log = [] → SignOutcome body form (.error m code) (writes c₁.log) :=
    fun hcode hw' => hw' ▸ .rejected hcode
  have habort : ∀ {m code} {c₁ : Conf L E}, code ∈ [400, 403, 404, 409, 503] →
      writes c₁.log = [] → (rules L E).wp r wk
      (do Prog.abort; pure (Response.error m code) : Handler Response)
      (fun a c' => SignOutcome body form a (writes c'.log)) c₁ := fun hcode hw' =>
    wp_bind_of spec_abort fun _ c' hdone => hreject hcode (hdone.2.trans hw')
  unfold signClosed
  refine wp_bind_of (spec_select _ _) ?_
  rintro existing c₁ ⟨hx₁, -⟩
  have hw₁ := hx₁.writes_eq.trans hw
  split
  · exact habort (by simp) hw₁
  refine wp_bind_of (spec_getVoteTallies e.id (hx₁.held hheld.lock)) ?_
  rintro (_ | tallies) c₂ ⟨hx₂, htallies⟩
  · exact habort (by simp) (hx₂.writes_eq.trans hw₁)
  refine wp_bind_of (spec_call _) ?_
  rintro (signedAt : Time) c₃ ⟨hx₃, -⟩
  refine wp_bind_of (spec_call _) ?_
  rintro res c₄ ⟨hx₄, -⟩
  have hw₄ := ((hx₂.trans hx₃).trans hx₄).writes_eq.trans hw₁
  rcases (res : Option SigningResult) with _ | signed
  · exact habort (by simp) hw₄
  refine wp_bind_of (spec_archiveKey cu signed) ?_
  rintro (a | key) c₅ ⟨hw₅, herror, hok⟩
  · obtain ⟨m, rfl⟩ := herror a rfl
    exact hreject (by simp) (hw₅.trans hw₄)
  have hx₅ := hok key rfl
  have hx₁₅ := (((hx₁.trans hx₂).trans hx₃).trans hx₄).trans hx₅
  refine wp_bind_of (spec_commit (hw₅.trans hw₄) fun c' d hx hd => .sign
    { request := ⟨_, _, _, hr⟩
      election := Relies.election hx.rely (hheld.carry hx₁₅)
      closed := hclosed
      after := ⟨key, signed, signedAt, cu.user.id, by
        rw [htallies tallies rfl c' (((hx₃.trans hx₄).trans hx₅).trans hx)]
        exact hd⟩ }) ?_
  rintro (_ | ⟨⟩) c₆ ⟨hrefused, hdone⟩
  · exact habort (by simp) (hrefused rfl)
  · obtain ⟨c', d, hx, hd, hc⟩ := hdone rfl
    refine wp_mono (spec_auditRow hc.loc hc.wrote
      (by rw [hc.db]; exact (hcu.carry hx₁₅).exists_user hc.evolves)) ?_
    rintro a c₇ ⟨-, -, hres⟩
    -- neither the manager nor the election can be gone after the commit
    obtain ⟨e', he', -⟩ := hc.evolves.elections (hheld.carry hx₁₅).row
    obtain rfl := hres fun d' h => election_isSome_of_evolves (hc.db ▸ h) he'
    exact .signed

theorem wp_signElectionResults {cookie : Option PyStr} {body : Option Json} {form : Option PyStr}
    (hloc : c.loc = .fresh) (hw : writes c.log = []) :
    (rules L E).wp (.signElectionResults cookie body form) wk
      (signElectionResults L cookie body form)
      (fun a c' => SignOutcome body form a (writes c'.log)) c := by
  unfold signElectionResults
  refine wp_loginRequired_of (r := .signElectionResults cookie body form) hloc hw
    (fun a c' ha hw' => hw' ▸ .stopped ha) fun cu c₁ hcu _ _ hw₁ => ?_
  have hreject : ∀ {m code} {c₁ : Conf L E}, code ∈ [400, 403, 404, 409, 503] →
      writes c₁.log = [] → SignOutcome body form (.error m code) (writes c₁.log) :=
    fun hcode hw' => hw' ▸ .rejected hcode
  have hraise : ∀ {e} {c₁ : Conf L E}, signElectionId body form = .error (.uncaught e) →
      writes c₁.log = [] → SignOutcome body form (.uncaught e) (writes c₁.log) :=
    fun hid hw' => hw' ▸ .raised hid
  split
  · exact hreject (by simp) hw₁
  rcases hid : signElectionId body form with a | electionId
  · rcases error_of_signElectionId hid with rfl | ⟨e, rfl⟩
    · exact hreject (by simp) hw₁
    · exact hraise hid hw₁
  refine wp_bind_of (spec_lockElection .exclusive electionId) ?_
  rintro (_ | e) c₂ ⟨hx₂, -, helection⟩
  · exact hreject (by simp) (hx₂.writes_eq.trans hw₁)
  have hw₂ := hx₂.writes_eq.trans hw₁
  show (rules L E).wp _ wk (if _ then _ else _) _ c₂
  split
  · exact wp_bind_of spec_abort fun _ c' habort => hreject (by simp) (habort.2.trans hw₂)
  next hclosed =>
    rw [not_not] at hclosed
    exact wp_signClosed rfl (hcu.carry hx₂) (helection e rfl).1 hclosed hw₂

/-! ### Verification -/

/-- What a verification request is parsed to: the data, its election id and the signature. -/
def parseVerification (body : Option Json) :
    Except Response (List (PyStr × Json) × ℤ × PyStr) :=
  match verificationData body with
  | .error a => .error a
  | .ok (data, signature) =>
    match verificationElectionId data with
    | .error a => .error a
    | .ok electionId => .ok (data, electionId, signature)

theorem error_of_parseVerification {body : Option Json} {a : Response}
    (h : parseVerification body = .error a) : (∃ m, a = .error m 400) ∨ ∃ e, a = .uncaught e := by
  unfold parseVerification at h
  split at h
  next hdata =>
    cases h
    unfold verificationData at hdata
    dsimp only at hdata
    repeat' split at hdata
    all_goals cases hdata
    all_goals first | exact Or.inl ⟨_, rfl⟩ | exact Or.inr ⟨_, rfl⟩
  · split at h
    next hid =>
      cases h
      unfold verificationElectionId at hid
      dsimp only at hid
      repeat' split at hid
      all_goals cases hid
      all_goals first | exact Or.inl ⟨_, rfl⟩ | exact Or.inr ⟨_, rfl⟩
    · cases h

/-- How a verification request ends. -/
inductive VerificationOutcome (body : Option Json) : Response → Prop
  | stopped : VerificationOutcome body passwordExpired
  | rejected {message code} (h : code ∈ [400, 404, 503]) :
      VerificationOutcome body (.error message code)
  | raised {e} (h : parseVerification body = .error (.uncaught e)) :
      VerificationOutcome body (.uncaught e)
  | verified (valid : Bool) : VerificationOutcome body (.verified valid)

theorem VerificationOutcome.post {cookie : Option PyStr} {body : Option Json} {a : Response}
    (h : VerificationOutcome body a) : Post L (.verifyElectionResults cookie body) a [] := by
  cases h with
  | stopped => exact post_of_failed (by decide) rfl
  | rejected _ => exact post_of_failed rfl rfl
  | raised _ => exact post_of_failed rfl rfl
  | verified _ => exact post_of_nil (by simp) rfl

/-- Verification reads and asks, and nothing else. -/
theorem spec_verifyStored {body : Option Json} (b : Bind) (payload signature : PyStr)
    (electionId : ℤ) :
    (rules L E).wp r wk (verifyStored b payload signature electionId)
      (fun a c' => (rules L E).Ext c c' ∧ VerificationOutcome body a) c := by
  unfold verifyStored
  refine wp_bind_of (spec_select _ _) ?_
  rintro (_ | stored) c₁ ⟨hx₁, -⟩
  · exact ⟨hx₁, .rejected (by simp)⟩
  show (rules L E).wp _ wk (if _ then _ else _) _ c₁
  split
  · exact ⟨hx₁, .verified false⟩
  have harchived : (rules L E).wp r wk (archivedKey b stored)
      (fun _ c' => (rules L E).Ext c₁ c') c₁ := by
    unfold archivedKey
    split
    · exact wp_mono (spec_select _ _) fun _ _ h => h.1
    · exact .refl c₁
  refine wp_bind_of harchived fun archived c₂ hx₂ => ?_
  refine wp_bind_of (spec_call _) ?_
  rintro (_ | valid) c₃ ⟨hx₃, -⟩
  · exact ⟨(hx₁.trans hx₂).trans hx₃, .rejected (by simp)⟩
  · exact ⟨(hx₁.trans hx₂).trans hx₃, .verified valid⟩

theorem verifyElectionResults_eq (L : Lib) (cookie : Option PyStr) (body : Option Json) :
    verifyElectionResults L cookie body = (do
      match ← loadUserFromJwt L cookie false with
      | .error a => pure a
      | .ok cu =>
        match parseVerification body with
        | .error a => pure a
        | .ok (data, electionId, signature) =>
          verifyStored ((cu.map CurrentUser.bind).getD .voters) (dumps (.obj data)) signature
            electionId) := by
  unfold verifyElectionResults parseVerification
  refine congrArg (loadUserFromJwt L cookie false >>= ·) (funext fun res => ?_)
  rcases res with a | cu
  · rfl
  · rcases verificationData body with a | ⟨data, signature⟩
    · rfl
    · dsimp only
      rcases verificationElectionId data with a | electionId <;> rfl

theorem wp_verifyElectionResults {cookie : Option PyStr} {body : Option Json}
    (hloc : c.loc = .fresh) (hw : writes c.log = []) :
    (rules L E).wp (.verifyElectionResults cookie body) wk (verifyElectionResults L cookie body)
      (fun a c' => VerificationOutcome body a ∧ writes c'.log = []) c := by
  rw [verifyElectionResults_eq]
  refine wp_bind_of (spec_loadUserFromJwt (r := .verifyElectionResults cookie body)
    (by rw [hloc]; rfl) false) ?_
  rintro (a | cu) c₁ ⟨hx₁, -, -, hres⟩
  · obtain rfl : a = passwordExpired := hres
    exact ⟨.stopped, hx₁.writes_eq.trans hw⟩
  have hw₁ := hx₁.writes_eq.trans hw
  rcases hparse : parseVerification body with a | ⟨data, electionId, signature⟩
  · rcases error_of_parseVerification hparse with ⟨m, rfl⟩ | ⟨e, rfl⟩
    · exact ⟨.rejected (by simp), hw₁⟩
    · exact ⟨.raised hparse, hw₁⟩
  · exact wp_mono (spec_verifyStored _ _ _ _) fun a c₂ ⟨hx₂, ha⟩ =>
      ⟨ha, hx₂.writes_eq.trans hw₁⟩

/-! ### The hook on signed results -/

/-- The hook refuses every change of a signed result. -/
theorem wp_changeSignedResult {id : ℕ} {change : Change SignedElectionResult}
    (hw : writes c.log = []) :
    (rules L E).wp (.changeSignedResult id change) wk (changeSignedResult id change)
      (fun a c' => Post L (.changeSignedResult id change) a (writes c'.log)) c := by
  unfold changeSignedResult
  refine wp_bind_of (spec_select _ _) ?_
  rintro (_ | result) c₁ ⟨hx₁, -⟩
  · exact post_of_nil (by simp) (hx₁.writes_eq.trans hw)
  · cases change <;> exact wp_bind_of spec_abort fun _ c' ⟨_, hw'⟩ =>
      post_of_failed rfl (hw'.trans (hx₁.writes_eq.trans hw))

end SecureVote
