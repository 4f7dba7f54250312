import SecureVote.Verified.SignIn

/-!
# Runs of the sign-in system

The certificate of every reachable state, read as an inversion of single steps, and what a commit
does to the row of one challenge.
-/

open Txn Txn.Rules

namespace SecureVote

variable {L : AuthLib} {E : AuthEnvironment} {mfa : Bool} {d : AuthDb} {w : E.World}
  {s s' : Sys (authMachine L E mfa)} {b : Label}

/-- Every reachable state is certified. -/
theorem authCertified (h : Reach (Sys.init d w) s) :
    (authRules L E mfa).Certified (AuthPost L) s :=
  certified_of_reach (authVerified L E mfa) trivial h

/-- A step commits nothing, or is the commit of one request, which is an action. -/
theorem authAct_of_step (h : Reach (Sys.init d w) s) (hs : Step (authMachine L E mfa) b s s') :
    (s'.db = s.db ∧ s'.commits = s.commits) ∨
      ∃ pid t p l, b = .run pid ∧ s.Runs pid t p l ∧ p.commit? s.db = some s'.db ∧
        AuthAct L t.request l s.db (E.clock s.world) s'.db ∧
        s'.commits = s.commits ++ [(pid, s.db, s'.db)] := by
  rcases (authCertified h).write_of_step hs with h | ⟨pid, t, p, l, hb, hr, hc, hact, -, hcommits⟩
  · exact .inl h
  · exact .inr ⟨pid, t, p, l, hb, hr, hc, hact, hcommits⟩

/-- A step emits nothing, or emits one event that its request may leave. -/
theorem authEmit_of_step (h : Reach (Sys.init d w) s) (hs : Step (authMachine L E mfa) b s s') :
    s'.emitted = s.emitted ∨
      ∃ pid t p l o, b = .run pid ∧ s.Runs pid t p l ∧
        AuthEmits L mfa t.request l (s.log pid) o ∧ s'.db = s.db ∧
        s'.emitted = s.emitted ++ [(pid, o)] :=
  (authCertified h).emit_of_step hs

/-- The clock does not go back. -/
theorem clock_of_step (hs : Step (authMachine L E mfa) b s s') :
    E.clock s.world ≤ E.clock s'.world := by
  cases hs with
  | start r wk => exact le_rfl
  | run hr ha => exact le_rfl
  | ask hr ha => exact E.answer_clock ha
  | finish hr => exact le_rfl
  | crash hr => exact le_rfl
  | drift h => exact E.drift_clock h

theorem clock_of_reach {C : Sys (authMachine L E mfa) → Label → Prop} (hs : ReachIf C s s') :
    E.clock s.world ≤ E.clock s'.world := by
  induction hs with
  | refl => exact le_rfl
  | tail _ hstep ih =>
    obtain ⟨b, hb, -⟩ := hstep
    exact ih.trans (clock_of_step hb)

/-! ### One challenge -/

section Row

variable {r : AuthRequest} {l : AuthLoc} {d' : AuthDb} {clock : Time}

/-- A challenge that is issued is new: an equal one would not have been replaced. -/
theorem OtpIssued.not_mem {c : OtpChallenge} (h : OtpIssued L r d clock d' c) :
    c ∉ d.otps.rows := by
  intro hmem
  have hinactive := h.replaceable c (OtpTable.ofUser_of_mem hmem)
  have hexpires := h.expires
  simp [OtpChallenge.active, h.consumed, hexpires] at hinactive

theorem OtpIssued.mem {c : OtpChallenge} (h : OtpIssued L r d clock d' c) : c ∈ d'.otps.rows := by
  rw [(base_of_replaceChallenge h.after).2]
  exact List.mem_append_right _ (List.mem_singleton_self _)

/-- The rows after an issue: the others than the replaced one, and the new one. -/
theorem OtpIssued.mem_iff {c x : OtpChallenge} (h : OtpIssued L r d clock d' c) :
    x ∈ d'.otps.rows ↔
      (x ∈ d.otps.rows ∧ ¬(x.userId = c.userId ∧ x.purpose = c.purpose)) ∨ x = c := by
  rw [(base_of_replaceChallenge h.after).2, List.mem_append, List.mem_singleton, List.mem_filter]
  refine or_congr_left (and_congr_right fun hx => ?_)
  cases hof : d.otps.ofUser c.userId c.purpose with
  | none =>
    have hno := List.find?_eq_none.mp hof x hx
    simpa using hno
  | some e =>
    obtain ⟨hmem, hu, hp⟩ := OtpTable.ofUser_eq_some hof
    simp only [Option.all_some, decide_eq_true_eq, ← hu, ← hp]
    refine not_congr ⟨fun hid => ?_, fun ⟨hu', hp'⟩ => ?_⟩
    · rw [OtpTable.eq_of_id hx hmem hid]
      exact ⟨rfl, rfl⟩
    · rw [OtpTable.eq_of_user hx hmem hu' hp']

/-- The rows after a verdict: the judged row is replaced. -/
theorem OtpJudged.mem_iff {c c' x : OtpChallenge} {code : PyStr} {now : Time} {result : OtpResult}
    (h : OtpJudged L r d clock d' c c' code now result) :
    x ∈ d'.otps.rows ↔ (x ∈ d.otps.rows ∧ x.id ≠ c.id) ∨ x = c' := by
  have hid : c'.id = c.id := (judge_keeps h.judged).1
  rw [(base_of_updateChallenge h.after).2, List.mem_map]
  constructor
  · rintro ⟨y, hy, rfl⟩
    by_cases hyid : y.id = c'.id
    · rw [if_pos hyid]
      exact .inr rfl
    · rw [if_neg hyid]
      exact .inl ⟨hy, hid ▸ hyid⟩
  · rintro (⟨hx, hne⟩ | rfl)
    · exact ⟨x, hx, if_neg (hid ▸ hne)⟩
    · exact ⟨c, h.row, if_pos hid.symm⟩

/-- What a commit does to the challenges: nothing, an issue, a verdict, or a withdrawal. -/
theorem AuthAct.otp_cases (h : AuthAct L r l d clock d') :
    d'.otps = d.otps ∨ (∃ c, OtpIssued L r d clock d' c) ∨
      (∃ c c' code now result, OtpJudged L r d clock d' c c' code now result) ∨
      ∃ id cookie session form, r = .login cookie session form ∧
        d'.otps.rows = d.otps.rows.filter fun c => c.id ≠ id := by
  cases h with
  | base request act otps => exact .inl otps
  | account after otps => exact .inl otps
  | issued h => exact .inr (.inl ⟨_, h⟩)
  | judged h => exact .inr (.inr (.inl ⟨_, _, _, _, _, h⟩))
  | withdrawn request after =>
    exact .inr (.inr (.inr ⟨_, _, _, _, request, (base_of_deleteChallenge after).2⟩))

end Row

end SecureVote
