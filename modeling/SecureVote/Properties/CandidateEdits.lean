import SecureVote.Machine
import SecureVote.Sample
import SecureVote.Solo

/-!
# Candidates of a delegate's region

What the three candidate handlers do to the committed database when they are served alone. They
share one shape: an edit that is not made leaves the database as it is, and one that is made
changes one candidate, of a draft election, in a region where the user may act.
-/

open Txn

namespace SecureVote

open Py

variable {W : Type} (orc : (q : Query) → W → q.Answer × W) (L : Lib) (d : Db) (w : W)

/-- A request to one of the candidate handlers. -/
inductive CandidateEdit
  | create (form : CandidateForm)
  | update (candidateId : ℕ) (form : CandidateForm)
  | delete (candidateId : ℕ)

/-- The request, under a session cookie. -/
def CandidateEdit.request (cookie : Option PyStr) : CandidateEdit → Request
  | .create form => .createCandidate cookie form
  | .update i form => .updateCandidate cookie i form
  | .delete i => .deleteCandidate cookie i

/-- The answer to an edit that has been made. -/
def CandidateEdit.success : CandidateEdit → Response
  | .create _ => delegateNotice "Candidate created."
  | .update _ _ => delegateNotice "Candidate updated."
  | .delete _ => delegateNotice "Candidate deleted."

/-- The election exists and is a draft. -/
def Draft (i : ℕ) : Prop := ∃ e, d.elections.get? i = some e ∧ e.status = .draft

variable {d} in
theorem draft_of_byId {i : ℤ} {e : Election} (he : byId d.elections i = some e)
    (hs : e.status = .draft) : Draft d e.id :=
  ⟨e, (byId_eq_some he).2.2, hs⟩

/-- The text names a region in which `ok` allows to act. -/
def NamesRegion (ok : ℕ → Prop) (raw : PyStr) : Prop :=
  ∃ n region, int 10 raw = some n ∧ byId d.regions n = some region ∧ ok region.id

/-- The text names a draft election. -/
def NamesDraft (raw : PyStr) : Prop :=
  ∃ n e, int 10 raw = some n ∧ byId d.elections n = some e ∧ e.status = .draft

/-- The supplied fields pass their checks, for a user who may act in the regions of `ok`. -/
def CandidateEdit.Valid (ok : ℕ → Prop) : CandidateEdit → Prop
  | .create form =>
      strip (form.name.getD []) ≠ [] ∧ strip (form.position.getD []) ≠ [] ∧
        NamesRegion d ok (form.regionId.getD []) ∧ NamesDraft d (form.electionId.getD [])
  | .update _ form =>
      (∀ s ∈ form.name, strip s ≠ []) ∧ (∀ s ∈ form.position, strip s ≠ []) ∧
        ∀ s ∈ form.regionId, NamesRegion d ok s
  | .delete _ => True

/-- From `d` to `d'` only candidate `i` changes. Where it exists it is of a draft election and of
a region that meets `ok`. -/
structure EditedOne (ok : ℕ → Prop) (i : ℕ) (d d' : Db) : Prop where
  other : ∀ j ≠ i, d'.candidates.get? j = d.candidates.get? j
  before : ∀ c, d.candidates.get? i = some c → ok c.regionId ∧ Draft d c.electionId
  after : ∀ c, d'.candidates.get? i = some c → ok c.regionId ∧ Draft d' c.electionId

/-- The regions in which the user may act, at the database `d`. -/
def MayAct (cu : CurrentUser) (i : ℕ) : Prop := mayActIn cu (d.enrolment cu.user.id) i = true

/-- What a handler leaves of an edit by a loaded user: the database as it was, or the edit. -/
structure Made (cu : CurrentUser) (r : CandidateEdit) (o : Outcome Db Event W Response) : Prop where
  reply : o.reply = r.success
  valid : r.Valid d (MayAct d cu)
  region : ∃ i, MayAct d cu i
  one : ∃ i, EditedOne (MayAct d cu) i d o.db

/-- Events reported before make no difference. -/
theorem unchanged_or_made_after {cu : CurrentUser} {r : CandidateEdit}
    {o : Outcome Db Event W Response} (os : List Event) (h : o.db = d ∨ Made d cu r o) :
    (o.after os).db = d ∨ Made d cu r (o.after os) := by
  obtain h | ⟨hreply, hvalid, hregion, hone⟩ := h
  · exact Or.inl h
  · exact Or.inr ⟨hreply, hvalid, hregion, hone⟩

/-! ### The three handlers -/

/-- `insertCandidate` makes a candidate of a draft election in a region of the user, or nothing. -/
theorem exec_insertCandidate (cu : CurrentUser) (hcu : d.users.get? cu.user.id = some cu.user)
    (name : PyStr) (party : Option PyStr) (position : PyStr) (regionId electionId : ℤ) :
    let o := (insertCandidate cu name party position regionId electionId).exec orc d w
    o.db = d ∨ o.reply = delegateNotice "Candidate created." ∧
      (∃ region, byId d.regions regionId = some region ∧ MayAct d cu region.id) ∧
      (∃ e, byId d.elections electionId = some e ∧ e.status = .draft) ∧
      ∃ i, EditedOne (MayAct d cu) i d o.db := by
  intro o
  have ho : o = (insertCandidate cu name party position regionId electionId).exec orc d w := rfl
  rw [insertCandidate, exec_lockElection_bind, loadRegion, Prog.exec_select_bind] at ho
  split at ho
  · exact Or.inl (by rw [ho]; rfl)
  next e he =>
    obtain ⟨he, hdraft⟩ := Option.filter_eq_some_iff.mp he
    have hdraft : e.status = .draft := by simpa using hdraft
    split at ho
    · exact Or.inl (by rw [ho]; rfl)
    next region hregion =>
      rw [loadEnrolment, Prog.exec_select_bind] at ho
      by_cases hmay : mayActIn cu (d.enrolment cu.user.id) region.id = false
      · rw [if_pos hmay] at ho
        exact Or.inl (by rw [ho]; rfl)
      rw [if_neg hmay, exec_insertRow_bind] at ho
      have hmay : MayAct d cu region.id := by simpa [MayAct] using hmay
      split at ho
      · exact Or.inl (by rw [ho]; rfl)
      next d' hd' =>
        have hd' := Db.commit_eq_some.mp hd'
        have hcand : d'.candidates = d.candidates.insert
            (fun i => ⟨i, name, party, position, region.id, e.id⟩) fun _ => rfl := by
          rw [hd']
          rfl
        have hdraft' : Draft d' e.id := by
          have := draft_of_byId he hdraft
          rwa [Draft, hd']
        have hu : d'.users.get? cu.user.id = some cu.user := by
          rw [hd']
          exact hcu
        have hnew : (d'.candidates.get? d.candidates.next).isSome := by
          rw [hcand, Table.get?_insert_next]
          rfl
        rw [exec_auditRow _ _ _ _ hu hnew] at ho
        rw [ho]
        refine Or.inr ⟨rfl, ⟨region, hregion, hmay⟩, ⟨e, he, hdraft⟩, d.candidates.next, ?_⟩
        constructor
        · intro j hj
          rw [hcand, Table.get?_insert_of_ne hj]
        · intro c hc
          rw [Table.get?_next] at hc
          cases hc
        · intro c hc
          rw [hcand, Table.get?_insert_next] at hc
          cases hc
          exact ⟨hmay, hdraft'⟩

/-- `lockDraftCandidate` yields a candidate of a draft election in a region of the user. -/
theorem exec_lockDraftCandidate (cu : CurrentUser) (i : ℕ) (foreign : String) :
    let o := (lockDraftCandidate cu i foreign).exec orc d w
    o.db = d ∧ ∀ c, o.reply = .ok c →
      d.candidates.get? i = some c ∧ Draft d c.electionId ∧ MayAct d cu c.regionId := by
  intro o
  have ho : o = (lockDraftCandidate cu i foreign).exec orc d w := rfl
  have herr : ∀ r w', o = ⟨.error r, d, w', []⟩ → o.db = d ∧ ∀ c, o.reply = .ok c →
      d.candidates.get? i = some c ∧ Draft d c.electionId ∧ MayAct d cu c.regionId := by
    intro r w' h
    rw [h]
    exact ⟨rfl, fun c hc => by cases hc⟩
  rw [lockDraftCandidate, Prog.exec_selectLocking_bind] at ho
  split at ho
  · exact herr _ w ho
  next c hc =>
    rw [exec_lockElection_bind] at ho
    split at ho
    · exact herr _ w ho
    next e he =>
      obtain ⟨he, hdraft⟩ := Option.filter_eq_some_iff.mp he
      have hid : e.id = c.electionId := by
        have := (byId_eq_some he).2.1
        exact_mod_cast this
      have hdraft : Draft d c.electionId := hid ▸ draft_of_byId he (by simpa using hdraft)
      have hok : o = ⟨.ok c, d, w, []⟩ → MayAct d cu c.regionId → o.db = d ∧ ∀ c, o.reply = .ok c →
          d.candidates.get? i = some c ∧ Draft d c.electionId ∧ MayAct d cu c.regionId := by
        intro h hmay
        rw [h]
        refine ⟨rfl, fun c' hc' => ?_⟩
        cases hc'
        exact ⟨hc, hdraft, hmay⟩
      by_cases honly : cu.onlyDelegate = true
      · rw [if_pos honly, loadEnrolment, Prog.exec_select_bind] at ho
        by_cases hmay : mayActIn cu (d.enrolment cu.user.id) c.regionId = true
        · rw [if_pos hmay] at ho
          exact hok ho hmay
        · rw [if_neg hmay] at ho
          exact herr _ w ho
      · rw [if_neg honly] at ho
        exact hok ho (by simp [MayAct, mayActIn, honly])

/-- The text columns change only, and none of them to a blank. -/
theorem editText_eq_ok {form : CandidateForm} {c c' : Candidate} (h : editText form c = .ok c') :
    (∀ s ∈ form.name, strip s ≠ []) ∧ (∀ s ∈ form.position, strip s ≠ []) ∧
      c'.id = c.id ∧ c'.regionId = c.regionId ∧ c'.electionId = c.electionId := by
  unfold editText at h
  split at h
  · cases h
  next hname =>
    split at h
    · cases h
    next hposition =>
      cases h
      refine ⟨fun s hs he => hname ?_, fun s hs he => hposition ?_, rfl, rfl, rfl⟩
      · rw [Option.mem_def.mp hs]
        simp [he]
      · rw [Option.mem_def.mp hs]
        simp [he]

/-- A region that is supplied is one of the user. -/
theorem exec_editRegion (cu : CurrentUser) (form : CandidateForm) (c : Candidate) :
    let o := (editRegion cu form c).exec orc d w
    o.db = d ∧ ∀ c', o.reply = .ok c' →
      (∀ s ∈ form.regionId, NamesRegion d (MayAct d cu) s) ∧ c'.id = c.id ∧
        c'.electionId = c.electionId ∧
        (c'.regionId = c.regionId ∨ MayAct d cu c'.regionId) := by
  intro o
  have ho : o = (editRegion cu form c).exec orc d w := rfl
  unfold editRegion at ho
  split at ho
  next hnone =>
    rw [ho]
    refine ⟨rfl, fun c' hc' => ?_⟩
    cases hc'
    exact ⟨by simp [hnone], rfl, rfl, Or.inl rfl⟩
  next raw hraw =>
    split at ho
    · rw [ho]
      exact ⟨rfl, fun c' hc' => by cases hc'⟩
    next n hn =>
      rw [loadEnrolment, Prog.exec_select_bind] at ho
      by_cases hforeign : (cu.onlyDelegate &&
          !(d.enrolment cu.user.id).any fun r => (r.regionId : ℤ) = n) = true
      · rw [if_pos hforeign] at ho
        rw [ho]
        exact ⟨rfl, fun c' hc' => by cases hc'⟩
      rw [if_neg hforeign, loadRegion, Prog.exec_select_bind] at ho
      split at ho
      · rw [ho]
        exact ⟨rfl, fun c' hc' => by cases hc'⟩
      next region hregion =>
        have hid : (region.id : ℤ) = n := (byId_eq_some hregion).2.1
        have hmay : MayAct d cu region.id := by
          rw [← hid] at hforeign
          by_cases honly : cu.onlyDelegate = true
          · simpa [MayAct, mayActIn, honly] using hforeign
          · simp [MayAct, mayActIn, honly]
        rw [ho]
        refine ⟨rfl, fun c' hc' => ?_⟩
        cases hc'
        refine ⟨fun s hs => ?_, rfl, rfl, Or.inr hmay⟩
        obtain rfl : s = raw := Option.some.inj (hs.symm.trans hraw)
        exact ⟨n, region, hn, hregion, hmay⟩

/-- The write of an update changes the candidate it is for. -/
theorem editedOne_update {ok : ℕ → Prop} {c c' : Candidate} {d' : Db}
    (hc : d.candidates.get? c.id = some c) (hdraft : Draft d c.electionId) (hbefore : ok c.regionId)
    (hid : c'.id = c.id) (hafter : ok c'.regionId) (hd' : d'.toTables = setCandidate c' d.toTables) :
    EditedOne ok c.id d d' := by
  have hcand : d'.candidates = (setCandidate c' d.toTables).candidates := by rw [hd']
  have helections : d'.elections = d.elections := by
    rw [hd']
    rfl
  constructor
  · intro j hj
    rw [hcand, setCandidate, hid, Table.get?_update_of_ne hj]
  · intro c₀ h₀
    cases hc.symm.trans h₀
    exact ⟨hbefore, hdraft⟩
  · intro c₀ h₀
    rw [hcand, setCandidate, hid, Table.get?_update_self, hc] at h₀
    cases h₀
    refine ⟨hafter, ?_⟩
    rwa [Draft, helections]

/-- The write of a deletion removes the candidate it is for. -/
theorem editedOne_delete {ok : ℕ → Prop} {c : Candidate} {d' : Db}
    (hc : d.candidates.get? c.id = some c) (hdraft : Draft d c.electionId) (hbefore : ok c.regionId)
    (hd' : d'.toTables = dropCandidate c.id d.toTables) : EditedOne ok c.id d d' := by
  have hget : ∀ j, d'.candidates.get? j = (d.candidates.get? j).filter fun c₀ => c₀.id ≠ c.id := by
    intro j
    rw [hd']
    exact Table.get?_filter
  constructor
  · intro j hj
    rw [hget]
    rcases h : d.candidates.get? j with _ | c₀
    · rfl
    · have : c₀.id = j := Table.key_of_get? h
      simp [this, hj]
  · intro c₀ h₀
    cases hc.symm.trans h₀
    exact ⟨hbefore, hdraft⟩
  · intro c₀ h₀
    rw [hget, hc, Option.filter_eq_some_iff] at h₀
    obtain ⟨heq, hne⟩ := h₀
    cases heq
    simp at hne

/-- What the three handlers do for a loaded user. -/
theorem exists_serve (r : CandidateEdit) (cookie : Option PyStr) :
    ∃ k, handle L (r.request cookie) = rolesRequired L ["delegate", "manager"] cookie k ∧
      ∀ cu, d.users.get? cu.user.id = some cu.user → ∀ w : W,
        ((k cu).exec orc d w).db = d ∨ Made d cu r ((k cu).exec orc d w) := by
  cases r with
  | create form =>
    refine ⟨_, rfl, fun cu hcu w => ?_⟩
    dsimp only
    split
    · exact Or.inl rfl
    next hblank =>
      split
      next regionId electionId hregion helection =>
        obtain h | ⟨hreply, ⟨region, hr, hmay⟩, ⟨e, he, hdraft⟩, hone⟩ :=
          exec_insertCandidate orc d w cu hcu (strip (form.name.getD []))
            (orNone (strip (form.party.getD []))) (strip (form.position.getD [])) regionId electionId
        · exact Or.inl h
        · refine Or.inr ⟨hreply, ⟨fun h => hblank ?_, fun h => hblank ?_,
            ⟨regionId, region, hregion, hr, hmay⟩, ⟨electionId, e, helection, he, hdraft⟩⟩, ⟨region.id, hmay⟩, hone⟩
          · simp [h]
          · simp [h]
      · exact Or.inl rfl
  | update i form =>
    refine ⟨_, rfl, fun cu hcu w => ?_⟩
    obtain ⟨hdb, hok⟩ := exec_lockDraftCandidate orc d w cu i
      "Delegates can only edit candidates in their region."
    rw [Prog.exec_bind, hdb]
    refine unchanged_or_made_after d _ ?_
    split
    · exact Or.inl rfl
    next c hreply =>
      obtain ⟨hc, hdraft, hmay⟩ := hok c hreply
      obtain rfl : c.id = i := Table.key_of_get? hc
      split
      · exact Or.inl rfl
      next edited hedited =>
        obtain ⟨hname, hposition, hid, hreg, hel⟩ := editText_eq_ok hedited
        obtain ⟨hdb', hok'⟩ := exec_editRegion orc d _ cu form edited
        rw [Prog.exec_bind, hdb']
        refine unchanged_or_made_after d _ ?_
        split
        · exact Or.inl rfl
        next c' hreply' =>
          obtain ⟨hregion, hid', hel', hmove⟩ := hok' c' hreply'
          have hmay' : MayAct d cu c'.regionId := by
            obtain h | h := hmove
            · rwa [h, hreg]
            · exact h
          rw [exec_save_bind]
          split
          · exact Or.inl rfl
          next d' hd' =>
            have hd' := Db.commit_eq_some.mp hd'
            have hone := editedOne_update d hc hdraft hmay (hid'.trans hid) hmay' hd'
            have hu : d'.users.get? cu.user.id = some cu.user := by
              rw [hd']
              exact hcu
            have hleft : (d'.candidates.get? c.id).isSome := by
              rw [hd', setCandidate, hid', hid, Table.get?_update_self, hc]
              rfl
            rw [exec_auditRow _ _ _ _ hu hleft]
            exact Or.inr ⟨rfl, ⟨hname, hposition, hregion⟩, ⟨c.regionId, hmay⟩, c.id, hone⟩
  | delete i =>
    refine ⟨_, rfl, fun cu hcu w => ?_⟩
    obtain ⟨hdb, hok⟩ := exec_lockDraftCandidate orc d w cu i
      "Delegates can only delete candidates in their region."
    rw [Prog.exec_bind, hdb]
    refine unchanged_or_made_after d _ ?_
    split
    · exact Or.inl rfl
    next c hreply =>
      obtain ⟨hc, hdraft, hmay⟩ := hok c hreply
      obtain rfl : c.id = i := Table.key_of_get? hc
      rw [exec_save_bind]
      split
      · exact Or.inl rfl
      next d' hd' =>
        have hd' := Db.commit_eq_some.mp hd'
        have hone := editedOne_delete d hc hdraft hmay hd'
        have hu : d'.users.get? cu.user.id = some cu.user := by
          rw [hd']
          exact hcu
        rw [exec_refresh_bind, hu]
        exact Or.inr ⟨rfl, trivial, ⟨c.regionId, hmay⟩, c.id, hone⟩

/-! ### Delegates -/

/-- A delegate may act in the region of the enrolment. -/
theorem mayAct_delegate {cu : CurrentUser} (hrole : cu.role = some (py "delegate")) (i : ℕ) :
    MayAct d cu i ↔ ∃ roll, d.enrolment cu.user.id = some roll ∧ roll.regionId = i := by
  have honly : cu.onlyDelegate = true := by
    rw [CurrentUser.onlyDelegate, hrole]
    decide
  simp [MayAct, mayActIn, honly, Option.any_eq_true]

/-- **A delegate edits candidates of one region, and a rejected edit changes nothing**: however a
request to a candidate handler is served on behalf of a delegate, the committed roster changes at
most in one candidate, of a draft election, whose region is before and after the one in which the
delegate is enrolled; without an enrolment nothing changes; and the whole database is as before
whenever a supplied field does not pass its check or the answer is not that of an edit made. -/
theorem delegate_edits_one_of_region (cookie : Option PyStr) (r : CandidateEdit) {u : User}
    (hrow : u ∈ d.users.rows) (hrole : d.roleName u = some (py "delegate"))
    (hlogin : OnlyLogin u.id ((handle L (r.request cookie)).exec orc d w).emitted) :
    let d' := ((handle L (r.request cookie)).exec orc d w).db
    (∀ roll, d.enrolment u.id = some roll →
      (d'.candidates = d.candidates ∨ ∃ i, EditedOne (· = roll.regionId) i d d') ∧
        (¬r.Valid d (· = roll.regionId) → d' = d)) ∧
      (d.enrolment u.id = none → d' = d) ∧
      (((handle L (r.request cookie)).exec orc d w).reply ≠ r.success → d' = d) := by
  intro d'
  obtain ⟨k, hk, hserve⟩ := exists_serve orc L d r cookie
  have hd' : d' = ((handle L (r.request cookie)).exec orc d w).db := rfl
  rw [hk] at hlogin hd' ⊢
  obtain h | ⟨cu, w', ⟨hu, hcurole, token, hin⟩, -, hdb, hreply⟩ :=
    exec_rolesRequired orc L d w ["delegate", "manager"] cookie k
  · rw [← hd'] at h
    exact ⟨fun _ _ => ⟨Or.inl (by rw [h]), fun _ => h⟩, fun _ => h, fun _ => h⟩
  have hid : cu.user.id = u.id := hlogin _ token hin
  have hcu : cu.user = u := by
    have := Table.get?_key hrow
    rw [show key u = u.id from rfl, ← hid, hu] at this
    exact Option.some.inj this
  rw [hcu, hrole] at hcurole
  have hact : ∀ i, MayAct d cu i ↔ ∃ roll, d.enrolment u.id = some roll ∧ roll.regionId = i :=
    fun i => hid ▸ mayAct_delegate d hcurole i
  rw [hreply]
  rw [hdb] at hd'
  obtain h | ⟨hsuccess, hvalid, ⟨j, hj⟩, i, hone⟩ := hserve cu hu w'
  · rw [← hd'] at h
    exact ⟨fun _ _ => ⟨Or.inl (by rw [h]), fun _ => h⟩, fun _ => h, fun _ => h⟩
  rw [← hd'] at hone
  refine ⟨fun roll hroll => ?_, fun hnone => ?_, fun h => absurd hsuccess h⟩
  · have hregion : MayAct d cu = (· = roll.regionId) := by
      funext i
      rw [hact, hroll]
      simp [eq_comm]
    rw [hregion] at hvalid hone
    exact ⟨Or.inr ⟨i, hone⟩, fun h => absurd hvalid h⟩
  · -- an edit that is made is of a candidate in a region where the user may act
    obtain ⟨roll, hroll, -⟩ := (hact j).mp hj
    cases hnone.symm.trans hroll

/-- The sample accounts with a delegate in place of the voter, and a draft election. -/
def delegateDb : Db :=
  ⟨{ Sample.accounts with
      roles := ⟨[⟨1, py "manager"⟩, ⟨2, py "delegate"⟩], 3, by decide, by decide⟩
      elections := ⟨[⟨1, py "Council", .draft, none, none, none, false, some 1⟩], 2, by decide,
        by decide⟩ },
    by decide +kernel⟩

/-- A candidate for the delegate's region. -/
def sampleEdit : CandidateEdit :=
  .create ⟨some (py "Ada"), none, some (py "Mayor"), some (py "1"), some (py "1")⟩

/-- What is left of the request that makes the candidate. -/
def sampleEdited : Outcome Db Event Unit Response :=
  (handle Sample.lib (sampleEdit.request (some Sample.voterToken))).exec Sample.oracle delegateDb ()

/-- The delegate of the sample makes a candidate, and changes nothing else. -/
theorem delegate_edits_one_of_region_sample :
    sampleEdited.db.candidates.rows.map Candidate.regionId = [1] ∧
      ∃ i, EditedOne (· = 1) i delegateDb sampleEdited.db := by
  have hrows : sampleEdited.db.candidates.rows.map Candidate.regionId = [1] := by decide +kernel
  have hemitted : sampleEdited.emitted =
      [.login 2 Sample.voterToken, .audit (some 2) "candidate.create" "candidate" 1] := by
    decide +kernel
  have hlogin : OnlyLogin (Sample.user 2 "vera" 2).id sampleEdited.emitted := by
    rw [hemitted]
    intro j token h
    simp at h
    exact h.1
  obtain ⟨h, -⟩ := (delegate_edits_one_of_region Sample.oracle Sample.lib delegateDb ()
    (some Sample.voterToken) sampleEdit (by decide +kernel) (by decide +kernel) hlogin).1
      ⟨1, py "R-1", 1, .active, true, some 2⟩ (by decide +kernel)
  obtain h | h := h
  · have hnone : sampleEdited.db.candidates.rows.map Candidate.regionId = [] := by
      rw [sampleEdited, h]
      rfl
    rw [hrows] at hnone
    cases hnone
  · exact ⟨hrows, h⟩

end SecureVote
