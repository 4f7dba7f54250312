import SecureVote.Runs
import SecureVote.Sample

/-!
# The result endpoints

`verify_election_results` and `sign_election_results` reply with their own responses to every
body, except that both call dictionary methods on a body that may be any JSON value, and `int` on
a number that may be infinite.
-/

open Txn Txn.Rules

namespace SecureVote

open Py

/-! ### The bodies that convert -/

/-- The body is an object, or replaced by the empty one. -/
def IsObject (body : Option Json) : Prop :=
  ∀ j, body = some j → j.truthy = true → ∃ kvs, j = .obj kvs

/-- The conversions of a verification request raise nothing that the handler does not catch. -/
structure VerifyConvertible (body : Option Json) : Prop where
  object : IsObject body
  finite : ∀ kvs data signature id, body = some (.obj kvs) → getOrNone kvs (py "data") = .obj data →
    getOrNone kvs (py "signature") = .str signature → signature ≠ [] →
    dictGet data (py "election_id") = some id → id.isInfinite = false

/-- The conversions of a signing request raise nothing that the handler does not catch. -/
structure SignConvertible (body : Option Json) : Prop where
  object : IsObject body
  finite : ∀ kvs, body = some (.obj kvs) → (getOrNone kvs (py "election_id")).isInfinite = false

/-- A list of characters is not empty when Python finds it truthy. -/
theorem isEmpty_eq_false {s : PyStr} : s.isEmpty = false ↔ s ≠ [] := by
  rw [← Bool.not_eq_true, List.isEmpty_iff]

theorem verificationData_of_isObject {body : Option Json} (h : IsObject body) :
    (∃ m, verificationData body = .error (.error m 400)) ∨
      ∃ kvs data signature, body = some (.obj kvs) ∧ getOrNone kvs (py "data") = .obj data ∧
        getOrNone kvs (py "signature") = .str signature ∧ signature ≠ [] ∧
        verificationData body = .ok (data, signature) := by
  unfold verificationData
  dsimp only
  split
  next kvs =>
    split
    next data signature hdata hsignature =>
      split
      · exact Or.inl ⟨_, rfl⟩
      next hne =>
        exact Or.inr ⟨kvs, data, signature, rfl, hdata, hsignature,
          isEmpty_eq_false.mp (by simpa using hne), rfl⟩
    · exact Or.inl ⟨_, rfl⟩
  next j hj =>
    split
    next htruthy =>
      obtain ⟨kvs, rfl⟩ := h j rfl htruthy
      exact absurd rfl (hj kvs)
    · exact Or.inl ⟨_, rfl⟩
  · exact Or.inl ⟨_, rfl⟩

/-- The election id of the data does not raise unless it is infinite. -/
theorem verificationElectionId_of_finite {data : List (PyStr × Json)}
    (h : ∀ id, dictGet data (py "election_id") = some id → id.isInfinite = false) {e : PyError} :
    verificationElectionId data ≠ .error (.uncaught e) := by
  unfold verificationElectionId
  dsimp only
  split
  · rintro ⟨⟩
  · rintro ⟨⟩
  next id _ hid =>
    have hne : id.toInt ≠ .error .overflowError := by
      rw [Ne, toInt_eq_overflow, h id hid]
      exact Bool.false_ne_true
    split
    · rintro ⟨⟩
    next hover => exact absurd hover hne
    · rintro ⟨⟩

theorem parseVerification_of_convertible {body : Option Json} (h : VerifyConvertible body)
    {e : PyError} : parseVerification body ≠ .error (.uncaught e) := by
  unfold parseVerification
  rcases verificationData_of_isObject h.object with ⟨m, herr⟩ |
    ⟨kvs, data, signature, hbody, hdata, hsignature, hne, hok⟩
  · rw [herr]
    rintro ⟨⟩
  · rw [hok]
    dsimp only
    rcases hid : verificationElectionId data with a | electionId
    · rintro ⟨⟩
      exact verificationElectionId_of_finite
        (h.finite kvs data signature · hbody hdata hsignature hne ·) hid
    · rintro ⟨⟩

theorem verificationElectionId_of_infinite {data : List (PyStr × Json)} {id : Json}
    (hid : dictGet data (py "election_id") = some id) (h : id.isInfinite = true) :
    verificationElectionId data = .error (.uncaught .overflowError) := by
  have hover : id.toInt = .error .overflowError := toInt_eq_overflow.mpr h
  unfold verificationElectionId
  rw [hid]
  rcases id with _ | b | n | f | t | xs | kvs
  case bool => cases h
  all_goals
    dsimp only
    rw [hover]

theorem parseVerification_of_not_convertible {body : Option Json} (h : ¬VerifyConvertible body) :
    ∃ e, parseVerification body = .error (.uncaught e) := by
  by_contra hno
  push Not at hno
  refine h ⟨fun j hbody htruthy => ?_, fun kvs data signature id hbody hdata hsignature hne hid => ?_⟩
  · by_contra hobj
    refine hno .attributeError ?_
    have hdata : verificationData body = .error (.uncaught .attributeError) := by
      rw [hbody]
      unfold verificationData
      rcases j with _ | b | n | f | t | xs | kvs
      case obj => exact absurd ⟨kvs, rfl⟩ hobj
      all_goals
        dsimp only
        rw [if_pos htruthy]
    unfold parseVerification
    rw [hdata]
  · by_contra hinf
    refine hno .overflowError ?_
    have hok : verificationData body = .ok (data, signature) := by
      rw [hbody]
      unfold verificationData
      dsimp only
      rw [hdata, hsignature]
      dsimp only
      rw [isEmpty_eq_false.mpr hne]
      rfl
    unfold parseVerification
    rw [hok]
    dsimp only
    rw [verificationElectionId_of_infinite hid (by simpa using hinf)]

/-- What `body.get("election_id") or request.form.get("election_id")` is, for an object. -/
def givenElectionId (kvs : List (PyStr × Json)) (form : Option PyStr) : Json :=
  if (getOrNone kvs (py "election_id")).truthy then getOrNone kvs (py "election_id")
  else (form.map Json.str).getD .null

theorem isInfinite_form (form : Option PyStr) :
    ((form.map Json.str).getD .null).isInfinite = false := by
  cases form <;> rfl

theorem truthy_of_isInfinite {j : Json} (h : j.isInfinite = true) : j.truthy = true := by
  unfold Json.isInfinite at h
  split at h
  · rfl
  · cases h

theorem isInfinite_givenElectionId (kvs : List (PyStr × Json)) (form : Option PyStr) :
    (givenElectionId kvs form).isInfinite = (getOrNone kvs (py "election_id")).isInfinite := by
  unfold givenElectionId
  split
  · rfl
  next hfalsy =>
    rw [isInfinite_form]
    by_contra hinf
    exact hfalsy (truthy_of_isInfinite (by simpa using hinf))

/-- The conversion of the id that has been given. -/
def convertElectionId (v : Json) : Except Response ℤ :=
  match v.toInt with
  | .ok n => .ok n
  | .error .overflowError => .error (.uncaught .overflowError)
  | .error _ => .error (.error "A valid election_id is required." 400)

theorem convertElectionId_of_finite {v : Json} (h : v.isInfinite = false) {e : PyError} :
    convertElectionId v ≠ .error (.uncaught e) := by
  have hne : v.toInt ≠ .error .overflowError := by
    rw [Ne, toInt_eq_overflow, h]
    exact Bool.false_ne_true
  unfold convertElectionId
  split
  · rintro ⟨⟩
  next hover => exact absurd hover hne
  · rintro ⟨⟩

theorem convertElectionId_of_infinite {v : Json} (h : v.isInfinite = true) :
    convertElectionId v = .error (.uncaught .overflowError) := by
  unfold convertElectionId
  rw [toInt_eq_overflow.mpr h]

theorem signElectionId_of_obj (kvs : List (PyStr × Json)) (form : Option PyStr) :
    signElectionId (some (.obj kvs)) form = convertElectionId (givenElectionId kvs form) := rfl

theorem signElectionId_of_falsy {body : Option Json} (hobj : ∀ kvs, body ≠ some (.obj kvs))
    (h : ∀ j, body = some j → j.truthy = false) (form : Option PyStr) :
    signElectionId body form = convertElectionId ((form.map Json.str).getD .null) := by
  rcases body with _ | j
  · rfl
  · have hj := h j rfl
    unfold signElectionId
    rcases j with _ | b | n | f | t | xs | kvs
    case obj => exact absurd rfl (hobj kvs)
    all_goals
      dsimp only
      rw [if_neg (by rw [hj]; exact Bool.false_ne_true)]
      rfl

theorem signElectionId_of_convertible {body : Option Json} {form : Option PyStr}
    (h : SignConvertible body) {e : PyError} :
    signElectionId body form ≠ .error (.uncaught e) := by
  by_cases hobj : ∃ kvs, body = some (.obj kvs)
  · obtain ⟨kvs, rfl⟩ := hobj
    rw [signElectionId_of_obj]
    exact convertElectionId_of_finite
      ((isInfinite_givenElectionId kvs form).trans (h.finite kvs rfl))
  · push Not at hobj
    rw [signElectionId_of_falsy hobj]
    · exact convertElectionId_of_finite (isInfinite_form form)
    · intro j hj
      by_contra htruthy
      obtain ⟨kvs, rfl⟩ := h.object j hj (by simpa using htruthy)
      exact hobj kvs hj

theorem signElectionId_of_not_convertible {body : Option Json} (form : Option PyStr)
    (h : ¬SignConvertible body) :
    signElectionId body form = .error (.uncaught .attributeError) ∨
      signElectionId body form = .error (.uncaught .overflowError) := by
  by_contra hno
  push Not at hno
  refine h ⟨fun j hbody htruthy => ?_, fun kvs hbody => ?_⟩
  · by_contra hobj
    refine hno.1 ?_
    rw [hbody]
    unfold signElectionId
    rcases j with _ | b | n | f | t | xs | kvs
    case obj => exact absurd ⟨kvs, rfl⟩ hobj
    all_goals
      dsimp only
      rw [if_pos htruthy]
  · by_contra hinf
    refine hno.2 ?_
    rw [hbody, signElectionId_of_obj]
    exact convertElectionId_of_infinite
      ((isInfinite_givenElectionId kvs form).trans (by simpa using hinf))

/-! ### Replies -/

/-- A reply of `verify_election_results`, or of the identity hook before it. -/
inductive VerifyReply : Response → Prop
  | stopped : VerifyReply passwordExpired
  | refused {message code} (h : code ∈ [400, 404, 503]) : VerifyReply (.error message code)
  | verified (valid : Bool) : VerifyReply (.verified valid)

/-- A reply of `sign_election_results`, or of the login check before it. -/
inductive SignReply : Response → Prop
  | stopped {a} (h : a = .unauthorized ∨ a = passwordExpired) : SignReply a
  | refused {message code} (h : code ∈ [400, 403, 404, 409, 503]) : SignReply (.error message code)
  | signed (electionId : ℕ) : SignReply (.resultSigned electionId)

/-- In every run, every answered request to verify this body has ended with a reply of the endpoint
and has written nothing. -/
def VerifyTotal (body : Option Json) : Prop :=
  ∀ (L : Lib) (E : Environment) (d : Db) (w : E.World) (s : Sys (machine L E)),
    Reach (Sys.init d w) s → ∀ (i : ℕ) (t : Thread (machine L E)) a cookie, s.threads[i]? = some t →
      t.request = .verifyElectionResults cookie body → t.status = .finished a →
      VerifyReply a ∧ ∀ d₁ d₂, (i, d₁, d₂) ∉ s.commits

/-- In every run, every answered request to sign with this body and form has ended with a reply of
the endpoint. -/
def SignTotal (body : Option Json) (form : Option PyStr) : Prop :=
  ∀ (L : Lib) (E : Environment) (d : Db) (w : E.World) (s : Sys (machine L E)),
    Reach (Sys.init d w) s → ∀ (i : ℕ) (t : Thread (machine L E)) a cookie, s.threads[i]? = some t →
      t.request = .signElectionResults cookie body form → t.status = .finished a → SignReply a

theorem not_verifyTotal_of_uncaught {body : Option Json} {e : PyError}
    (h : parseVerification body = .error (.uncaught e)) : ¬VerifyTotal body := by
  intro htotal
  have hret : (machine Sample.lib Sample.environment).handler (.verifyElectionResults none body) =
      .ret (.uncaught e) := by
    show verifyElectionResults Sample.lib none body = _
    rw [verifyElectionResults_eq]
    show (match parseVerification body with | _ => _ : Handler Response) = _
    rw [h]
    rfl
  obtain ⟨s, t, hs, ht, hreq, ha⟩ := exists_finished_of_ret (d := Sample.db) (w := ()) hret
  obtain ⟨hreply, -⟩ := htotal _ _ _ _ s hs 0 t _ none ht hreq ha
  cases hreply

/-- The manager asks to sign with this body, alone. -/
def signRun (body : Option Json) : Sys (machine Sample.lib Sample.environment) :=
  (Sys.init Sample.db ()).runs (fun _ _ => True) Sample.oracle
    [.start (.signElectionResults (some Sample.managerToken) body none) 0, .run 0 100]

/-- A body that is no object. -/
def listBody : Option Json := some (.arr [.int 1])

/-- A body with an infinite election id. -/
def infiniteBody : Option Json := some (.obj [(py "election_id", .float (.inf false))])

theorem signRun_sound (body : Option Json) :
    ReachIf (Asked (fun _ _ => True)
        (· = .signElectionResults (some Sample.managerToken) body none))
      (Sys.init Sample.db ()) (signRun body) ∧
      ∀ t ∈ (signRun body).threads,
        t.request = .signElectionResults (some Sample.managerToken) body none :=
  Sys.runs_sound Sample.oracle_sound (fun _ => trivial) (fun t ht => by cases ht) fun r hr => by
    simpa [Turn.requests] using hr

/-- The reply of the thread, when it has finished. -/
def replyOf {L : Lib} {E : Environment} (t : Thread (machine L E)) : Option Response :=
  match t.status with
  | .finished a => some a
  | _ => none

theorem signRun_listBody :
    ((signRun listBody).threads.map replyOf) = [some (.uncaught .attributeError)] := by
  decide +kernel

theorem signRun_infiniteBody :
    ((signRun infiniteBody).threads.map replyOf) = [some (.uncaught .overflowError)] := by
  decide +kernel

/-- When the conversions fail as those of another body, whose run ends with the exception, the
exception leaves the endpoint. -/
theorem not_signTotal_of_uncaught {body body' : Option Json} {form : Option PyStr} {e : PyError}
    (hbody : signElectionId body form = .error (.uncaught e))
    (hbody' : signElectionId body' none = .error (.uncaught e))
    (hrun : (signRun body').threads.map replyOf = [some (.uncaught e)]) :
    ¬SignTotal body form := by
  intro htotal
  have hhandler : (machine Sample.lib Sample.environment).handler
        (.signElectionResults (some Sample.managerToken) body form) =
      (machine Sample.lib Sample.environment).handler
        (.signElectionResults (some Sample.managerToken) body' none) := by
    show signElectionResults _ _ _ _ = signElectionResults _ _ _ _
    unfold signElectionResults
    rw [hbody, hbody']
  obtain ⟨hreach, hrequests⟩ := signRun_sound body'
  obtain ⟨t, ht, hreply⟩ : ∃ t, (signRun body').threads[0]? = some t ∧
      replyOf t = some (.uncaught e) := by
    have hzero := congrArg (·[0]?) hrun
    simpa [List.getElem?_map] using hzero
  have hfinished : t.status = .finished (.uncaught e) := by
    unfold replyOf at hreply
    split at hreply
    next a ha =>
      cases hreply
      exact ha
    · cases hreply
  obtain ⟨s, t', hs, ht', hreq, ha⟩ := exists_finished_of_handler_eq hhandler hreach.reach ht
    (hrequests t (List.mem_of_getElem? ht)) hfinished
  have hbad := htotal _ _ _ _ s hs 0 t' _ _ ht' hreq ha
  rcases hbad with ⟨h⟩ | _ | _
  rcases h with h | h <;> cases h

theorem verifyTotal_of_convertible {body : Option Json} (h : VerifyConvertible body) :
    VerifyTotal body := by
  intro L E d w s hs i t a cookie ht hreq ha
  obtain ⟨log, hlog, hout, hw⟩ := finished_of_request
    (P := fun a log => VerificationOutcome body a ∧ writes log = [])
    (fun wk d w => wp_verifyElectionResults rfl rfl) hs ht hreq ha
  refine ⟨?_, fun d₁ d₂ => not_mem_commits hlog hw⟩
  cases hout with
  | stopped => exact .stopped
  | rejected hcode => exact .refused hcode
  | raised hraised => exact absurd hraised (parseVerification_of_convertible h)
  | verified valid => exact .verified valid

theorem signTotal_of_convertible {body : Option Json} {form : Option PyStr}
    (h : SignConvertible body) : SignTotal body form := by
  intro L E d w s hs i t a cookie ht hreq ha
  obtain ⟨log, -, hout⟩ := finished_of_request
    (P := fun a log => SignOutcome body form a (writes log))
    (fun wk d w => wp_signElectionResults rfl rfl) hs ht hreq ha
  generalize writes log = ws at hout
  cases hout with
  | stopped hstop => exact .stopped hstop
  | rejected hcode => exact .refused hcode
  | raised hraised => exact absurd hraised (signElectionId_of_convertible h)
  | signed => exact .signed _

/-- **The result endpoints reply with their own responses exactly on the bodies that convert**:
verification on the ones without an infinite election id in the data, signing on the ones without
an infinite election id, both only on objects. Verification writes nothing. -/
theorem result_endpoints_total (body : Option Json) (form : Option PyStr) :
    (VerifyTotal body ↔ VerifyConvertible body) ∧ (SignTotal body form ↔ SignConvertible body) := by
  refine ⟨⟨fun htotal => ?_, verifyTotal_of_convertible⟩, fun htotal => ?_,
    signTotal_of_convertible⟩
  · by_contra hno
    obtain ⟨e, he⟩ := parseVerification_of_not_convertible hno
    exact not_verifyTotal_of_uncaught he htotal
  · by_contra hno
    rcases signElectionId_of_not_convertible form hno with hattr | hover
    · exact not_signTotal_of_uncaught hattr rfl signRun_listBody htotal
    · exact not_signTotal_of_uncaught hover rfl signRun_infiniteBody htotal

/-- A list as the body makes both endpoints raise. -/
theorem result_endpoints_raise : ¬VerifyTotal listBody ∧ ¬SignTotal listBody none :=
  ⟨not_verifyTotal_of_uncaught (e := .attributeError) rfl,
    not_signTotal_of_uncaught rfl rfl signRun_listBody⟩

end SecureVote
