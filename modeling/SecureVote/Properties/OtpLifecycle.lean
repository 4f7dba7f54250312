import SecureVote.Auth.Runs
import SecureVote.Auth.Sample
import SecureVote.Text.Utf8

/-!
# The life of a one-time-password challenge

A challenge is judged under a row lock that is held to the commit, so its failed attempts count the
wrong codes exactly, and it is accepted at most once. It can be replaced only when it has expired,
or was consumed without having reached the limit of failed attempts, which before its expiry means
that it has been accepted. All this rests on fresh challenge ids, a condition on the steps of a run.
-/

open Txn Txn.Rules

namespace SecureVote

open Py

variable {L : AuthLib} {E : AuthEnvironment} {mfa : Bool} {d d' : AuthDb} {w : E.World}
  {s s' : Sys (authMachine L E mfa)} {b : Label} {r : AuthRequest} {l : AuthLoc} {clock : Time}
  {cid : PyStr}

/-! ### What commits do to one challenge -/

/-- The commit creates the challenge. -/
structure Created (d d' : AuthDb) (c : OtpChallenge) : Prop where
  new : c ∉ d.otps.rows
  row : c ∈ d'.otps.rows
  failed : c.failedAttempts = 0
  consumed : c.consumedAt = none

theorem OtpIssued.creates {c : OtpChallenge} (h : OtpIssued L r d clock d' c) : Created d d' c :=
  ⟨h.not_mem, h.mem, h.failed, h.consumed⟩

/-- An id that the step gives to a new challenge has not been the id of a challenge before. -/
def FreshIds (s : Sys (authMachine L E mfa)) (b : Label) : Prop :=
  ∀ pid t p l d' c, b = .run pid → s.Runs pid t p l → p.commit? s.db = some d' →
    Created s.db d' c →
      s.db.otps.get? c.id = none ∧ ∀ x ∈ s.commits, x.2.1.otps.get? c.id = none

theorem OtpTable.get?_eq_none {t : OtpTable} : t.get? cid = none ↔ ∀ c ∈ t.rows, c.id ≠ cid := by
  simp [OtpTable.get?]

/-- What a commit does to one challenge, when new ids are new. -/
inductive RowStep (L : AuthLib) (r : AuthRequest) (d : AuthDb) (clock : Time) (d' : AuthDb)
    (cid : PyStr) : Prop
  | same (h : d'.otps.get? cid = d.otps.get? cid)
  | removed (h : d'.otps.get? cid = none)
      (why : (∃ c x, OtpIssued L r d clock d' c ∧ d.otps.get? cid = some x ∧
        x.userId = c.userId ∧ x.purpose = c.purpose) ∨
        ∃ cookie session form, r = .login cookie session form)
  | created {c} (hid : c.id = cid) (before : d.otps.get? cid = none)
      (after : d'.otps.get? cid = some c) (h : OtpIssued L r d clock d' c)
  | judged {c c' code now result} (hid : c.id = cid) (before : d.otps.get? cid = some c)
      (after : d'.otps.get? cid = some c') (h : OtpJudged L r d clock d' c c' code now result)

theorem AuthAct.rowStep (h : AuthAct L r l d clock d')
    (hfresh : ∀ c, Created d d' c → d.otps.get? c.id = none) (cid : PyStr) :
    RowStep L r d clock d' cid := by
  rcases h.otp_cases with heq | ⟨c, hc⟩ | ⟨c, c', code, now, result, hc⟩ | ⟨id, _, _, _, hreq, hrows⟩
  · exact .same (by rw [heq])
  · have hnew := hfresh c hc.creates
    by_cases hid : c.id = cid
    · exact .created hid (hid ▸ hnew) (OtpTable.get?_eq_some.mpr ⟨hc.mem, hid⟩) hc
    · cases hx : d'.otps.get? cid with
      | none =>
        cases hy : d.otps.get? cid with
        | none => exact .same (by rw [hx, hy])
        | some y =>
          obtain ⟨hmem, hyid⟩ := OtpTable.get?_eq_some.mp hy
          have hgone : y ∉ d'.otps.rows := fun hmem' =>
            OtpTable.get?_eq_none.mp hx y hmem' hyid
          have hpair : y.userId = c.userId ∧ y.purpose = c.purpose := by
            by_contra hne
            exact hgone (hc.mem_iff.mpr (.inl ⟨hmem, hne⟩))
          exact .removed hx (.inl ⟨c, y, hc, hy, hpair⟩)
      | some x =>
        obtain ⟨hmem, hxid⟩ := OtpTable.get?_eq_some.mp hx
        rcases hc.mem_iff.mp hmem with ⟨hold, -⟩ | rfl
        · refine .same ?_
          rw [hx, OtpTable.get?_eq_some.mpr ⟨hold, hxid⟩]
        · exact absurd hxid hid
  · by_cases hid : c.id = cid
    · have hid' : c'.id = cid := (judge_keeps hc.judged).1.trans hid
      exact .judged hid (OtpTable.get?_eq_some.mpr ⟨hc.row, hid⟩)
        (OtpTable.get?_eq_some.mpr ⟨hc.mem_iff.mpr (.inr rfl), hid'⟩) hc
    · refine .same (Option.ext fun x => ?_)
      rw [OtpTable.get?_eq_some, OtpTable.get?_eq_some, hc.mem_iff]
      constructor
      · rintro ⟨⟨hx, -⟩ | rfl, hxid⟩
        · exact ⟨hx, hxid⟩
        · exact absurd ((judge_keeps hc.judged).1.symm.trans hxid) hid
      · rintro ⟨hx, hxid⟩
        exact ⟨.inl ⟨hx, fun h => hid (h.symm.trans hxid)⟩, hxid⟩
  · cases hx : d'.otps.get? cid with
    | none => exact .removed hx (.inr ⟨_, _, _, hreq⟩)
    | some x =>
      obtain ⟨hmem, hxid⟩ := OtpTable.get?_eq_some.mp hx
      rw [hrows] at hmem
      refine .same ?_
      rw [hx, OtpTable.get?_eq_some.mpr ⟨(List.mem_filter.mp hmem).1, hxid⟩]

/-- A code has been accepted for the challenge. -/
def OtpChallenge.accepted (c : OtpChallenge) : Bool :=
  c.failedAttempts < maxFailedAttempts && c.consumedAt.any fun t => t < c.expiresAt

/-- The commit accepts a code for the challenge. -/
def acceptance (cid : PyStr) (d d' : AuthDb) : Bool :=
  (d.otps.get? cid).any (·.consumedAt.isNone) && (d'.otps.get? cid).any (·.accepted)

/-- The commit counts a wrong code for the challenge. -/
def wrongCode (cid : PyStr) (d d' : AuthDb) : Bool :=
  match d.otps.get? cid, d'.otps.get? cid with
  | some c, some c' => c.failedAttempts < c'.failedAttempts
  | _, _ => false

theorem acceptance_of_eq (h : d'.otps.get? cid = d.otps.get? cid) : acceptance cid d d' = false := by
  unfold acceptance
  rw [h]
  cases d.otps.get? cid with
  | none => rfl
  | some c => cases hc : c.consumedAt <;> simp [OtpChallenge.accepted, hc]

theorem acceptance_of_none (h : d.otps.get? cid = none) : acceptance cid d d' = false := by
  simp [acceptance, h]

theorem wrongCode_of_eq (h : d'.otps.get? cid = d.otps.get? cid) : wrongCode cid d d' = false := by
  unfold wrongCode
  rw [h]
  cases d.otps.get? cid <;> simp

theorem wrongCode_of_none (h : d.otps.get? cid = none) : wrongCode cid d d' = false := by
  simp [wrongCode, h]

/-- A verdict counts a wrong code and leaves the challenge to be used or locked, or it consumes the
challenge; it accepts a code only before the expiry. -/
theorem OtpJudged.effect {c c' : OtpChallenge} {code : PyStr} {now : Time} {result : OtpResult}
    (h : OtpJudged L r d clock d' c c' code now result) :
    (c'.failedAttempts = c.failedAttempts + 1 ∧ c'.accepted = false ∧
        (c'.consumedAt = none ∨ maxFailedAttempts ≤ c'.failedAttempts)) ∨
      (c'.failedAttempts = c.failedAttempts ∧ c'.consumedAt = some now ∧
        (c.expiresAt ≤ now ∨ maxFailedAttempts ≤ c.failedAttempts ∨ c'.accepted = true)) := by
  rcases judge_eq_some h.judged with ⟨-, hexp, rfl⟩ | ⟨-, hlt, hfull, rfl⟩ | ⟨hlt, hfew, _, -, hc⟩
  · exact .inr ⟨rfl, rfl, .inl hexp⟩
  · exact .inr ⟨rfl, rfl, .inr (.inl hfull)⟩
  · rcases hc with ⟨-, hlast, -, rfl⟩ | ⟨-, hmore, -, rfl⟩ | ⟨-, -, rfl⟩
    · exact .inl ⟨rfl, by simp [OtpChallenge.accepted, hlast], .inr hlast.ge⟩
    · exact .inl ⟨rfl, by simp [OtpChallenge.accepted, h.live], .inl h.live⟩
    · exact .inr ⟨rfl, rfl, .inr (.inr (by simp [OtpChallenge.accepted, hlt, hfew]))⟩

/-! ### Counting along a run -/

/-- The commits that accept a code for the challenge. -/
def acceptances (s : Sys (authMachine L E mfa)) (cid : PyStr) : List (ℕ × AuthDb × AuthDb) :=
  s.commits.filter fun x => acceptance cid x.2.1 x.2.2

/-- The number of wrong codes that have been counted for the challenge. -/
def wrongCodes (s : Sys (authMachine L E mfa)) (cid : PyStr) : ℕ :=
  (s.commits.filter fun x => wrongCode cid x.2.1 x.2.2).length

theorem filter_snoc {α : Type} {p : α → Bool} (xs : List α) (x : α) :
    (xs ++ [x]).filter p = xs.filter p ++ if p x then [x] else [] := by
  rw [List.filter_append]
  cases hx : p x <;> simp [hx]

/-- A step of a run with fresh ids, as seen from one challenge. -/
theorem rowStep_of_step (h : ReachIf FreshIds (Sys.init d w) s)
    (hs : Step (authMachine L E mfa) b s s') (hfresh : FreshIds s b) (cid : PyStr) :
    (s'.db = s.db ∧ s'.commits = s.commits) ∨
      ∃ pid t, s.threads[pid]? = some t ∧ s'.commits = s.commits ++ [(pid, s.db, s'.db)] ∧
        RowStep L t.request s.db (E.clock s.world) s'.db cid ∧
        ∀ c, Created s.db s'.db c →
          s.db.otps.get? c.id = none ∧ ∀ x ∈ s.commits, x.2.1.otps.get? c.id = none := by
  rcases authAct_of_step h.reach hs with hsame | ⟨pid, t, p, l, rfl, hr, hc, hact, hcommits⟩
  · exact .inl hsame
  · have hnew : ∀ c, Created s.db s'.db c → _ := fun c hcr => hfresh pid t p l _ c rfl hr hc hcr
    exact .inr ⟨pid, t, hr.1, hcommits, hact.rowStep (fun c hcr => (hnew c hcr).1) cid, hnew⟩

/-- Before an id is fresh, no commit has counted or accepted anything for it. -/
theorem nothing_counted (hfresh : ∀ x ∈ s.commits, x.2.1.otps.get? cid = none) :
    acceptances s cid = [] ∧ wrongCodes s cid = 0 := by
  constructor
  · refine List.filter_eq_nil_iff.mpr fun x hx => ?_
    rw [acceptance_of_none (hfresh x hx)]
    exact Bool.false_ne_true
  · have hnil : (s.commits.filter fun x => wrongCode cid x.2.1 x.2.2) = [] := by
      refine List.filter_eq_nil_iff.mpr fun x hx => ?_
      rw [wrongCode_of_none (hfresh x hx)]
      exact Bool.false_ne_true
    rw [wrongCodes, hnil]
    rfl

/-- **A challenge is accepted at most once**, and is consumed from then on. -/
theorem acceptances_le_one (h : ReachIf FreshIds (Sys.init d w) s) (cid : PyStr) :
    (acceptances s cid).length ≤ 1 ∧
      (acceptances s cid ≠ [] → ∀ c, s.db.otps.get? cid = some c → c.consumedAt ≠ none) := by
  induction h with
  | refl => exact ⟨Nat.zero_le _, fun hne => absurd rfl hne⟩
  | @tail s₁ s₂ hr hstep ih =>
    obtain ⟨b, hb, hfresh⟩ := hstep
    obtain ⟨ih₁, ih₂⟩ := ih
    rcases rowStep_of_step hr hb hfresh cid with ⟨hdb, hcommits⟩ | ⟨pid, t, -, hcommits, hrow, hnew⟩
    · rw [acceptances, hcommits, hdb]
      exact ⟨ih₁, ih₂⟩
    have hsnoc : acceptances s₂ cid = acceptances s₁ cid ++
        if acceptance cid s₁.db s₂.db then [(pid, s₁.db, s₂.db)] else [] := by
      rw [acceptances, hcommits, filter_snoc]
      rfl
    cases hrow with
    | same heq =>
      rw [hsnoc, acceptance_of_eq heq, heq]
      simpa using ⟨ih₁, ih₂⟩
    | removed hnone why =>
      have hno : acceptance cid s₁.db s₂.db = false := by simp [acceptance, hnone]
      rw [hsnoc, hno, hnone]
      exact ⟨by simpa using ih₁, fun _ c hc => by cases hc⟩
    | @created c hid before after hissued =>
      have hnil := (nothing_counted (hid ▸ (hnew c hissued.creates).2)).1
      rw [hsnoc, acceptance_of_none before, hnil]
      simp
    | @judged c c' code now result hid before after hjudged =>
      -- the judged row is live, so nothing has been accepted before
      have hnil : acceptances s₁ cid = [] := by
        by_contra hne
        exact ih₂ hne c before hjudged.live
      rw [hsnoc, hnil]
      constructor
      · split <;> simp
      · intro hne x hx
        obtain rfl : c' = x := Option.some.inj (after.symm.trans hx)
        have hacc : acceptance cid s₁.db s₂.db = true := by
          by_contra hno
          simp [hno] at hne
        have haccepted : c'.accepted = true := by
          rw [acceptance, after] at hacc
          exact (Bool.and_eq_true_iff.mp hacc).2
        intro hnone
        simp [OtpChallenge.accepted, hnone] at haccepted

/-- An id under which a challenge has been created is not fresh any more. -/
theorem known_id (h : ReachIf FreshIds (Sys.init d w) s) {x : ℕ × AuthDb × AuthDb}
    (hx : x ∈ s.commits) (hid : (x.2.2.otps.get? cid).isSome) :
    (s.db.otps.get? cid).isSome ∨ ∃ y ∈ s.commits, (y.2.1.otps.get? cid).isSome := by
  induction h with
  | refl => simp [Sys.init, Sys.commits] at hx
  | @tail s₁ s₂ hr hstep ih =>
    obtain ⟨b, hb, -⟩ := hstep
    rcases hb.commits with ⟨hdb, hcommits⟩ | ⟨pid, hcommits⟩
    · rw [hdb, hcommits]
      exact ih (hcommits ▸ hx)
    · rw [hcommits] at hx ⊢
      rcases List.mem_append.mp hx with hx | hx
      · rcases ih hx with hsome | ⟨y, hy, hsome⟩
        · exact .inr ⟨_, List.mem_append_right _ (List.mem_singleton_self _), hsome⟩
        · exact .inr ⟨y, List.mem_append_left _ hy, hsome⟩
      · cases List.mem_singleton.mp hx
        exact .inl hid

/-- The challenge was created in the run: its identity is the one of an issued challenge. -/
def Origin (s : Sys (authMachine L E mfa)) (c : OtpChallenge) : Prop :=
  ∃ j t d₁ d₂ clock c₀, (j, d₁, d₂) ∈ s.commits ∧ s.threads[j]? = some t ∧
    d₁.otps.get? c.id = none ∧ OtpIssued L t.request d₁ clock d₂ c₀ ∧ c₀.id = c.id ∧
    c₀.userId = c.userId ∧ c₀.purpose = c.purpose ∧ c₀.codeDigest = c.codeDigest ∧
    c₀.expiresAt = c.expiresAt

theorem Origin.step {c c' : OtpChallenge} (h : Origin s c)
    (hs : Step (authMachine L E mfa) b s s') (hid : c'.id = c.id) (hu : c'.userId = c.userId)
    (hp : c'.purpose = c.purpose) (hd : c'.codeDigest = c.codeDigest)
    (he : c'.expiresAt = c.expiresAt) : Origin s' c' := by
  obtain ⟨j, t, d₁, d₂, clock, c₀, hmem, ht, hnone, hissued, h₁, h₂, h₃, h₄, h₅⟩ := h
  obtain ⟨t', ht', hreq, -⟩ := hs.threads ht
  have hmem' : (j, d₁, d₂) ∈ s'.commits := (hs.trace_prefix.filterMap _).subset hmem
  exact ⟨j, t', d₁, d₂, clock, c₀, hmem', ht', by rw [hid]; exact hnone, by rw [hreq]; exact hissued,
    h₁.trans hid.symm, h₂.trans hu.symm, h₃.trans hp.symm, h₄.trans hd.symm, h₅.trans he.symm⟩

/-- A call of the two service functions. -/
def AuthRequest.CallsOtp : AuthRequest → Prop
  | .issueOtp _ _ _ _ | .verifyOtp _ _ _ _ => True
  | _ => False

/-- The steps of runs of the two service functions. -/
abbrev OtpStep : Sys (authMachine L E mfa) → Label → Prop :=
  Asked FreshIds AuthRequest.CallsOtp

/-- The challenge `c`, created before, in a state before it is accepted and before it expires; `xs`
are the commits since its creation. -/
structure Outstanding (c : OtpChallenge) (s : Sys (authMachine L E mfa))
    (xs : List (ℕ × AuthDb × AuthDb)) (c' : OtpChallenge) : Prop where
  row : s.db.otps.get? c.id = some c'
  userId : c'.userId = c.userId
  purpose : c'.purpose = c.purpose
  expiresAt : c'.expiresAt = c.expiresAt
  active : c'.consumedAt = none ∨ maxFailedAttempts ≤ c'.failedAttempts
  counted : wrongCodes s c.id = c'.failedAttempts
  only : ∀ x ∈ xs, (∃ y, x.2.1.otps.ofUser c.userId c.purpose = some y ∧ y.id = c.id) ∧
    ∀ y, Created x.2.1 x.2.2 y → ¬(y.userId = c.userId ∧ y.purpose = c.purpose)

/-- One step keeps a challenge outstanding, unless it is accepted. -/
theorem Outstanding.step {c c' : OtpChallenge} {xs : List (ℕ × AuthDb × AuthDb)}
    (ho : Outstanding c s xs c') (h : ReachIf FreshIds (Sys.init d w) s)
    (hs : Step (authMachine L E mfa) b s s') (hC : OtpStep s b)
    (hclock : E.clock s.world < c.expiresAt) (hacc : acceptances s' c.id = []) :
    (s'.commits = s.commits ∧ Outstanding c s' xs c') ∨
      ∃ x c'', s'.commits = s.commits ++ [x] ∧ Outstanding c s' (xs ++ [x]) c'' := by
  obtain ⟨hfresh, hasked⟩ := hC
  rcases rowStep_of_step h hs hfresh c.id with ⟨hdb, hcommits⟩ | ⟨pid, t, ht, hcommits, hrow, hnew⟩
  · refine .inl ⟨hcommits, ?_⟩
    refine ⟨hdb ▸ ho.row, ho.userId, ho.purpose, ho.expiresAt, ho.active, ?_, ho.only⟩
    rw [wrongCodes, hcommits]
    exact ho.counted
  have hcount : wrongCodes s' c.id = c'.failedAttempts +
      if wrongCode c.id s.db s'.db then 1 else 0 := by
    rw [wrongCodes, hcommits, filter_snoc, List.length_append, ← wrongCodes, ho.counted]
    split <;> rfl
  have hacc' : acceptance c.id s.db s'.db = false := by
    rw [acceptances, hcommits, filter_snoc, List.append_eq_nil_iff] at hacc
    by_contra hne
    simp [hne] at hacc
  obtain ⟨hmem, hcid⟩ := OtpTable.get?_eq_some.mp ho.row
  have hofUser : s.db.otps.ofUser c.userId c.purpose = some c' := by
    rw [← ho.userId, ← ho.purpose]
    exact OtpTable.ofUser_of_mem hmem
  -- the challenge of the pair is still there, so the commit creates no other one
  have honly : ∀ c'' ∈ s'.db.otps.rows, c''.userId = c.userId → c''.purpose = c.purpose →
      (c'' = c' ∨ c''.failedAttempts ≠ 0 ∨ c''.consumedAt ≠ none) →
      ∀ x ∈ xs ++ [(pid, s.db, s'.db)],
        (∃ y, x.2.1.otps.ofUser c.userId c.purpose = some y ∧ y.id = c.id) ∧
          ∀ y, Created x.2.1 x.2.2 y → ¬(y.userId = c.userId ∧ y.purpose = c.purpose) := by
    intro c'' hmem'' hu hp hold x hx
    rcases List.mem_append.mp hx with hx | hx
    · exact ho.only x hx
    · cases List.mem_singleton.mp hx
      refine ⟨⟨c', hofUser, hcid⟩, fun y hy ⟨hyu, hyp⟩ => ?_⟩
      obtain rfl : y = c'' := OtpTable.eq_of_user hy.row hmem'' (hyu.trans hu.symm)
        (hyp.trans hp.symm)
      rcases hold with rfl | hne | hne
      · exact hy.new hmem
      · exact hne hy.failed
      · exact hne hy.consumed
  refine .inr ⟨(pid, s.db, s'.db), ?_⟩
  cases hrow with
  | same heq =>
    have hrow' : s'.db.otps.get? c.id = some c' := heq.trans ho.row
    refine ⟨c', hcommits, hrow', ho.userId, ho.purpose, ho.expiresAt, ho.active, ?_, ?_⟩
    · rw [hcount, wrongCode_of_eq heq]
      rfl
    · exact honly c' (OtpTable.get?_eq_some.mp hrow').1 ho.userId ho.purpose (.inl rfl)
  | removed hnone why =>
    rcases why with ⟨c₀, x, hissued, hx, hu, hp⟩ | ⟨_, _, _, hlogin⟩
    · -- the challenge was active, so `issue_otp_challenge` has not replaced it
      exfalso
      obtain rfl : c' = x := Option.some.inj (ho.row.symm.trans hx)
      have hinactive := hissued.replaceable c' (by
        rw [← hu, ← hp]
        exact OtpTable.ofUser_of_mem hmem)
      have hlt : c₀.createdAt < c'.expiresAt := by
        rw [ho.expiresAt]
        exact lt_of_le_of_lt hissued.created hclock
      rcases ho.active with hlive | hfull
      · simp [OtpChallenge.active, hlt, hlive] at hinactive
      · simp only [OtpChallenge.active, hlt, decide_true, Bool.true_and, Bool.or_eq_false_iff,
          decide_eq_false_iff_not] at hinactive
        exact hinactive.2 hfull
    · exfalso
      have hcalls := hasked t (List.mem_of_getElem? ht)
      rw [hlogin] at hcalls
      exact hcalls
  | created hid before after hissued =>
    rw [ho.row] at before
    cases before
  | @judged c₁ c'' code now result hid before after hjudged =>
    obtain rfl : c' = c₁ := Option.some.inj (ho.row.symm.trans before)
    obtain ⟨k₁, k₂, k₃, -, k₅⟩ := judge_keeps hjudged.judged
    obtain ⟨hmem'', -⟩ := OtpTable.get?_eq_some.mp after
    have hu : c''.userId = c.userId := k₂.trans ho.userId
    have hp : c''.purpose = c.purpose := k₃.trans ho.purpose
    have hcode : wrongCode c.id s.db s'.db =
        decide (c'.failedAttempts < c''.failedAttempts) := by
      rw [wrongCode, before, after]
    refine ⟨c'', hcommits, after, hu, hp, k₅.trans ho.expiresAt, ?_, ?_, ?_⟩
    · rcases hjudged.effect with ⟨-, -, hactive⟩ | ⟨hsame, -, hexp | hfull | haccepted⟩
      · exact hactive
      · rw [ho.expiresAt] at hexp
        exact absurd (hexp.trans hjudged.read) (not_le.mpr hclock)
      · exact .inr (hsame ▸ hfull)
      · simp [acceptance, before, after, hjudged.live, haccepted] at hacc'
    · rw [hcount, hcode]
      rcases hjudged.effect with ⟨hsucc, -⟩ | ⟨hsame, -⟩
      · simp [hsucc]
      · simp [hsame]
    · refine honly c'' hmem'' hu hp (.inr ?_)
      rcases hjudged.effect with ⟨hsucc, -⟩ | ⟨-, hconsumed, -⟩
      · exact .inl (by omega)
      · exact .inr (by rw [hconsumed]; exact Option.some_ne_none _)

/-- The return of `valid` for a challenge. -/
def AuthEvent.isValid (cid : PyStr) : AuthEvent → Bool
  | .otpVerified id _ _ _ .valid => id = cid
  | _ => false

theorem AuthEvent.isValid_iff {o : AuthEvent} :
    o.isValid cid = true ↔ ∃ u p code, o = .otpVerified cid u p code .valid := by
  constructor
  · intro h
    unfold AuthEvent.isValid at h
    split at h
    next id u p code =>
      obtain rfl : id = cid := of_decide_eq_true h
      exact ⟨u, p, code, rfl⟩
    · cases h
  · rintro ⟨u, p, code, rfl⟩
    exact decide_eq_true rfl

/-- The returns of `valid` for a challenge. -/
def validReturns (s : Sys (authMachine L E mfa)) (cid : PyStr) : List (ℕ × AuthEvent) :=
  s.emitted.filter fun e => e.2.isValid cid

/-- A commit that accepts a code for the challenge. -/
theorem Accepts.acceptance {u : ℕ} {p code : PyStr} (h : Accepts L cid u p code d d') :
    acceptance cid d d' = true := by
  obtain ⟨c, now, hmem, rfl, -, -, hlive, hlt, hfew, -, hafter⟩ := h
  have hrows := (base_of_updateChallenge hafter).2
  have hmem' : ({ c with consumedAt := some now } : OtpChallenge) ∈ d'.otps.rows := by
    rw [hrows]
    exact List.mem_map.mpr ⟨c, hmem, if_pos rfl⟩
  rw [acceptance, OtpTable.get?_eq_some.mpr ⟨hmem, rfl⟩, OtpTable.get?_eq_some.mpr ⟨hmem', rfl⟩]
  simp [OtpChallenge.accepted, hlive, hlt, hfew]

/-- A verification that has returned `valid` has committed an acceptance. -/
theorem accepts_of_emitted (h : Reach (Sys.init d w) s) {i : ℕ} {u : ℕ} {p code : PyStr}
    (hi : (i, .otpVerified cid u p code .valid) ∈ s.emitted) :
    ∃ t d₁ d₂, s.threads[i]? = some t ∧ t.request.Verifies cid u p code ∧
      (i, d₁, d₂) ∈ s.commits ∧ Accepts L cid u p code d₁ d₂ := by
  obtain ⟨t, l, log, ht, hpre, -, hreq, hvalid⟩ := (authCertified h).emitted (Sys.mem_emitted.mp hi)
  obtain ⟨d₁, d₂, hw, hacc⟩ := hvalid rfl
  exact ⟨t, d₁, d₂, ht, hreq, Sys.mem_writes_log.mp (hpre.subset (List.mem_append_left _ hw)), hacc⟩

/-- **A challenge returns `valid` at most once.** -/
theorem validReturns_le_one (h : ReachIf FreshIds (Sys.init d w) s) (cid : PyStr) :
    (validReturns s cid).length ≤ 1 := by
  induction h with
  | refl => exact Nat.zero_le _
  | @tail s₁ s₂ hr hstep ih =>
    obtain ⟨b, hb, hfresh⟩ := hstep
    have hr₂ : ReachIf FreshIds (Sys.init d w) s₂ := ReachIf.step hr hb hfresh
    rcases authEmit_of_step (ReachIf.reach hr) hb with heq | ⟨pid, t, q, l, o, -, hrun, hemit, -, heq⟩
    · rw [validReturns, heq]
      exact ih
    rw [validReturns, heq, filter_snoc, ← validReturns]
    split
    swap
    · simpa using ih
    next hvalid =>
      obtain ⟨u₂, p₂, code₂, rfl⟩ := AuthEvent.isValid_iff.mp hvalid
      -- an earlier return for the challenge would be of the same request, which returns once
      have hnil : validReturns s₁ cid = [] := by
        refine List.eq_nil_iff_forall_not_mem.mpr fun ⟨j, e⟩ hj => ?_
        obtain ⟨hmem, hj⟩ := List.mem_filter.mp hj
        obtain ⟨u₁, p₁, code₁, rfl⟩ := AuthEvent.isValid_iff.mp hj
        have hlast : (pid, AuthEvent.otpVerified cid u₂ p₂ code₂ .valid) ∈ s₂.emitted := by
          rw [heq]
          exact List.mem_append_right _ (List.mem_singleton_self _)
        have hfirst : (j, AuthEvent.otpVerified cid u₁ p₁ code₁ .valid) ∈ s₂.emitted := by
          rw [heq]
          exact List.mem_append_left _ hmem
        obtain ⟨-, d₁, d₂, -, -, hc₁, ha₁⟩ := accepts_of_emitted (ReachIf.reach hr₂) hfirst
        obtain ⟨-, d₃, d₄, -, -, hc₂, ha₂⟩ := accepts_of_emitted (ReachIf.reach hr₂) hlast
        have hm₁ : (j, d₁, d₂) ∈ acceptances s₂ cid := List.mem_filter.mpr ⟨hc₁, ha₁.acceptance⟩
        have hm₂ : (pid, d₃, d₄) ∈ acceptances s₂ cid := List.mem_filter.mpr ⟨hc₂, ha₂.acceptance⟩
        obtain ⟨x, hx⟩ := List.length_eq_one_iff.mp
          (le_antisymm (acceptances_le_one hr₂ cid).1 (List.length_pos_of_mem hm₁))
        rw [hx] at hm₁ hm₂
        have hsame := (List.mem_singleton.mp hm₁).trans (List.mem_singleton.mp hm₂).symm
        obtain rfl : j = pid := congrArg Prod.fst hsame
        exact hemit.1 ⟨_, Sys.mem_emit_log.mpr hmem, trivial⟩
      rw [hnil]
      exact le_rfl

/-! ### What a challenge that returns `valid` was issued for -/

/-- A test for fresh ids. -/
def freshIdsTest (s : Sys (authMachine L E mfa)) (b : Label) : Bool :=
  match b with
  | .run pid =>
    match s.threads[pid]? with
    | none => true
    | some t =>
      match t.status with
      | .running p _ =>
        match p.commit? s.db with
        | none => true
        | some d' => d'.otps.rows.all fun c =>
            decide (c ∈ s.db.otps.rows) || decide (c.failedAttempts ≠ 0) || c.consumedAt.isSome ||
              ((s.db.otps.get? c.id).isNone &&
                s.commits.all fun x => (x.2.1.otps.get? c.id).isNone)
      | _ => true
  | _ => true

theorem freshIds_of_test (h : freshIdsTest s b = true) : FreshIds s b := by
  intro pid t p l d' c hb hruns hcommit hcr
  subst hb
  have hrows := h
  unfold freshIdsTest at hrows
  dsimp only at hrows
  rw [hruns.1] at hrows
  dsimp only at hrows
  rw [hruns.2] at hrows
  dsimp only at hrows
  rw [hcommit] at hrows
  have hc := List.all_eq_true.mp hrows c hcr.row
  simp only [hcr.new, hcr.failed, hcr.consumed, decide_false, ne_eq, not_true_eq_false,
    Option.isSome_none, Bool.false_or, Bool.and_eq_true, List.all_eq_true,
    Option.isNone_iff_eq_none] at hc
  exact hc

end SecureVote
