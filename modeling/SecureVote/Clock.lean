import SecureVote.Sample
import SecureVote.Txn.Guarded
import SecureVote.Verified.SignIn

/-!
# A clock that never goes back

`Clock` is what the handlers rely on when they compare and store times: the clock of the
environment answers with the time of the world, and no step turns it back; between any two
statements it may go on. `Stamping` is the moment at which a handler takes the time that it is
going to write.
-/

open Txn Txn.Rules

namespace SecureVote

/-- The clock of an environment. -/
structure Clock (E : Environment) where
  time : E.World → Time
  now : ∀ {wk w t w'}, E.answer wk w .now t w' → t = time w
  answer_le : ∀ {wk w q a w'}, E.answer wk w q a w' → time w ≤ time w'
  drift_le : ∀ {w w'}, E.drift w w' → time w ≤ time w'

/-- The answer is the time when it is given. -/
theorem Clock.now_eq {E : Environment} (K : Clock E) {wk : ℕ} {w w' : E.World} {t : Time}
    (h : E.answer wk w .now t w') : t = K.time w := K.now h

/-- The program is about to read the clock for the commit that follows. -/
def Stamping (p : Handler Response) : Prop :=
  ∃ k : Time → Handler Response, p = .ask .now k ∧
    ∀ t, ∃ (β : Type) (f : Db → Option (β × Db)) (k' : Option β → Handler Response),
      k t = .commit f k'

variable {L : Lib} {E : Environment} {R : Rules (machine L E)} {C : Promise (machine L E)}
  {r : Request} {wk : ℕ} {l : Loc} {d : Db} {w : E.World}

theorem readOnly_auditRow {α : Type} [Keyed α] (b : Bind) (actor : ℕ) (action targetType : String)
    (t : Tables → Table α) (target : ℕ) (a : Response) :
    (auditRow b actor action targetType t target a).ReadOnly := by
  unfold auditRow
  refine Prog.Writes.bind (fun _ => trivial) fun u => ?_
  rcases u with _ | u
  · exact trivial
  refine Prog.Writes.bind (fun _ => trivial) fun x => ?_
  rcases x with _ | x
  · exact trivial
  · exact trivial

theorem gwp_utcNow {K : Handler Time → Handler Response} {P : Time → Loc → Db → E.World → Prop} :
    R.gwp C r wk K utcNow P l d w ↔ ∀ d' w', R.Rely l d w d' w' → R.Inv d' w' →
      C r (K utcNow) l d' w' → ∀ (t : Time) w'', E.answer wk w' .now t w'' → P t l d' w'' :=
  Iff.rfl

/-- What a flush and commit has to meet: the guarantee, and what follows when it is refused and
when it is done. -/
theorem gwp_save {f : Tables → Tables} {K : Handler (Option Unit) → Handler Response}
    {P : Option Unit → Loc → Db → E.World → Prop}
    (h : ∀ d' w', R.Rely l d w d' w' → R.Inv d' w' → P none l d' w' ∧
      ∀ d'' : Db, d''.toTables = f d'.toTables →
        R.Guar r l d' w' d'' ∧ P (some ()) .fresh d'' w') :
    R.gwp C r wk K (save f) P l d w := by
  refine gwp_write.mpr fun d' w' hr hinv => ⟨fun _ => (h d' w' hr hinv).1, fun b d'' hb => ?_⟩
  obtain ⟨d₁, hd₁, heq⟩ := Option.map_eq_some_iff.mp hb
  cases heq
  exact (h d' w' hr hinv).2 _ (Db.commit_eq_some.mp hd₁)

/-- The same for an insert, which returns the new key. -/
theorem gwp_insertRow {next : Tables → ℕ} {f : Tables → Tables}
    {K : Handler (Option ℕ) → Handler Response} {P : Option ℕ → Loc → Db → E.World → Prop}
    (h : ∀ d' w', R.Rely l d w d' w' → R.Inv d' w' → P none l d' w' ∧
      ∀ d'' : Db, d''.toTables = f d'.toTables →
        R.Guar r l d' w' d'' ∧ P (some (next d'.toTables)) .fresh d'' w') :
    R.gwp C r wk K (insertRow next f) P l d w := by
  refine gwp_write.mpr fun d' w' hr hinv => ⟨fun _ => (h d' w' hr hinv).1, fun b d'' hb => ?_⟩
  obtain ⟨d₁, hd₁, heq⟩ := Option.map_eq_some_iff.mp hb
  cases heq
  exact (h d' w' hr hinv).2 _ (Db.commit_eq_some.mp hd₁)

/-- An election that is found is locked. -/
theorem gwp_lockElection {m : Mode} {i : ℤ} {K : Handler (Option Election) → Handler Response}
    {P : Option Election → Loc → Db → E.World → Prop} (hnone : ∀ l d w, P none l d w)
    (hsome : ∀ e l' d' w', R.Rely l d w d' w' → R.Inv d' w' → Held l' m d' e →
      P (some e) l' d' w') :
    R.gwp C r wk K (lockElection m i) P l d w := by
  refine gwp_selectLocking.mpr fun d' w' hr hinv => ?_
  rcases he : byId d'.elections i with _ | e
  · exact hnone _ _ _
  · refine hsome e _ d' w' hr hinv ⟨?_, (byId_eq_some he).2.2⟩
    have hfound : RowId.election e.id ∈
        found d' ((byId d'.elections i).map (RowId.election ·.id)).toList := by
      refine mem_found.mpr ⟨by simp [he], ?_⟩
      have hrow : d'.elections.get? e.id = some e := (byId_eq_some he).2.2
      rw [val_election, hrow]
      rfl
    rw [← he]
    exact List.mem_append_left _ (List.mem_map_of_mem hfound)

/-- A guarded handler meets its precondition when what it does for a loaded user does. -/
theorem gwp_rolesRequired {allowed : List String} {cookie : Option PyStr}
    {k : CurrentUser → Handler Response}
    (hk : ∀ cu l d w, R.gwp C r wk id (k cu) (fun _ _ _ _ => True) l d w) :
    R.gwp C r wk id (rolesRequired L allowed cookie k) (fun _ _ _ _ => True) l d w := by
  unfold rolesRequired loginRequired
  refine gwp_bind.mpr (gwp_of_readOnly (readOnly_loadUserFromJwt cookie false) fun res l d w => ?_)
  split
  · trivial
  · trivial
  · dsimp only
    split
    · exact hk _ l d w
    · trivial

theorem tame_ensureKey (electionId : ℕ) (expected : Option PyStr) (allowCreate : Bool) :
    (ensureElectionBlindSigningKey L electionId expected allowCreate).Tame := by
  have hprepare : (prepareKey electionId expected allowCreate).Tame := by
    unfold prepareKey
    split
    · split
      · exact fun _ => trivial
      · trivial
    · split
      · trivial
      · trivial
  have hload : (getPublicKeyComponents L electionId).Tame := by
    refine Prog.tame_bind (fun _ => trivial) fun pair => ?_
    rcases pair with _ | pair
    · trivial
    · trivial
  unfold ensureElectionBlindSigningKey
  refine Prog.tame_bind hprepare fun prepared => ?_
  rcases prepared with _ | _
  · trivial
  refine Prog.tame_bind hload fun components => ?_
  rcases components with _ | components
  · trivial
  · dsimp only
    split
    · trivial
    · trivial

namespace Sample

/-! ### A sample clock -/

/-- How calls are answered at a time. -/
def answerAt (t : Time) : (q : Query) → q.Answer
  | .now => t
  | q => answer q

/-- The environment whose world is the time; it goes on as it likes. -/
def clocked : Environment where
  World := Time
  answer _ w q a w' := a = answerAt w q ∧ w ≤ w'
  drift w w' := w ≤ w'
  cached _ _ _ := some keyPair
  load_cached h := by
    cases h.1
    rfl
  answer_cached _ h := h
  drift_cached _ h := h

/-- Its clock. -/
def clock : Clock clocked where
  time w := w
  now h := h.1
  answer_le h := h.2
  drift_le h := h

/-- The answers as an oracle for schedules: every call takes one second. -/
def clockedOracle (q : Query) (w : Time) : q.Answer × Time := (answerAt w q, w + 1000000)

theorem clockedOracle_sound (wk : ℕ) (w : Time) (q : Query) :
    clocked.answer wk w q (clockedOracle q w).1 (clockedOracle q w).2 :=
  ⟨rfl, Int.le_add_of_nonneg_right (by decide)⟩

/-- One minute after the tokens have been issued. -/
def start : Time := (issuedAt + 60) * 1000000

end Sample

end SecureVote
