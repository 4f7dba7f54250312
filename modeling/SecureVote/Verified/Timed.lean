import SecureVote.Clock

/-!
# The election handlers under a promise

What the commits of creation, opening, closing and casting have to meet under rules in which locked rows
stay as they are. For each handler the row that it writes, the locks it holds and the checks that
it has made are handed over, so that the rules only have to say what follows from them.
-/

open Txn Txn.Rules

namespace SecureVote

open Py

variable {L : Lib} {E : Environment} {R : Rules (machine L E)} {C : Promise (machine L E)}
  {r : Request} {wk : ℕ} {l : Loc} {d : Db} {w : E.World}

/-- Locked rows stay as they are. -/
def KeepsLocked (R : Rules (machine L E)) : Prop :=
  ∀ {l d w d' w'}, R.Rely l d w d' w' → ∀ h ∈ l.held, Store.val d' h.1 = Store.val d h.1

/-- A locked election row is what it was. -/
theorem KeepsLocked.held (hkeep : KeepsLocked R) {d' : Db} {w' : E.World} {m : Mode} {e : Election}
    (hr : R.Rely l d w d' w') (he : Held l m d e) : Held l m d' e := by
  refine ⟨he.lock, ?_⟩
  have h := hkeep hr _ he.lock
  rw [val_election, val_election, he.row] at h
  simpa using h

/-- The same after a program that keeps its locks. -/
theorem KeepsLocked.held_of_subset (hkeep : KeepsLocked R) {l' : Loc} {d' : Db} {w' : E.World}
    {m : Mode} {e : Election} (hsub : l.held ⊆ l'.held) (hr : R.Rely l d w d' w')
    (he : Held l m d e) : Held l' m d' e :=
  ⟨hsub he.lock, (hkeep.held hr he).row⟩

theorem gwp_createElection (cookie : Option PyStr) (form : ElectionForm)
    (hcommit : ∀ {name openAt closeAt creator l d w} {d' : Db}, R.Inv d w →
      closesTooEarly openAt closeAt = false →
      d'.toTables = addElection name openAt closeAt creator d.toTables → R.Guar r l d w d') :
    R.gwp C r wk id (createElection L cookie form) (fun _ _ _ _ => True) l d w := by
  refine gwp_rolesRequired fun cu l d w => ?_
  dsimp only
  split
  · trivial
  split
  · trivial
  next openAt hopen =>
    split
    · trivial
    next closeAt hclose =>
      by_cases hearly : closesTooEarly openAt closeAt = true
      · rw [if_pos hearly]
        trivial
      rw [if_neg hearly]
      refine gwp_bind.mpr (gwp_insertRow fun d₁ w₁ _ hd₁ => ⟨trivial, fun d₂ hd₂ => ⟨?_, ?_⟩⟩)
      · exact hcommit hd₁ (Bool.not_eq_true _ ▸ hearly) hd₂
      · exact gwp_of_readOnly (readOnly_auditRow _ _ _ _ _ _ _) fun _ _ _ _ => trivial

/-- The commit of `open_election`: the draft is locked and the times have been checked. -/
def OpenCommits (R : Rules (machine L E)) (r : Request) : Prop :=
  ∀ {e keyId openAt l d w} {d' : Db}, R.Inv d w → Held l .exclusive d e → e.status = .draft →
    closesTooEarly (some openAt) e.closeAt = false →
    d'.toTables = markOpen e.id keyId openAt d.toTables → R.Guar r l d w d'

theorem gwp_finishOpen (hkeep : KeepsLocked R) (hcommit : OpenCommits R r) (cu : CurrentUser)
    {e : Election} (keyId : PyStr) (he : Held l .exclusive d e) (hdraft : e.status = .draft) :
    R.gwp C r wk id (finishOpen cu e keyId) (fun _ _ _ _ => True) l d w := by
  have htame : e.openTime.Tame := by
    unfold Election.openTime
    split
    · trivial
    · exact fun _ => trivial
  refine gwp_bind.mpr (gwp_of_tame htame fun openAt l₁ d₁ w₁ hheld _ hr => ?_)
  by_cases hearly : closesTooEarly (some openAt) e.closeAt = true
  · rw [if_pos hearly]
    trivial
  rw [if_neg hearly]
  have he₁ := hkeep.held_of_subset hheld hr he
  refine gwp_bind.mpr (gwp_save fun d₂ w₂ hr₂ hd₂ => ⟨trivial, fun d₃ hd₃ => ⟨?_, ?_⟩⟩)
  · exact hcommit hd₂ (hkeep.held hr₂ he₁) hdraft (Bool.not_eq_true _ ▸ hearly) hd₃
  · exact gwp_of_readOnly (readOnly_auditRow _ _ _ _ _ _ _) fun _ _ _ _ => trivial

theorem gwp_openElection (hkeep : KeepsLocked R) (hcommit : OpenCommits R r)
    (cookie : Option PyStr) (electionId : ℕ) :
    R.gwp C r wk id (openElection L cookie electionId) (fun _ _ _ _ => True) l d w := by
  refine gwp_rolesRequired fun cu l d w => ?_
  refine gwp_bind.mpr (gwp_selectTable.mpr fun d₁ w₁ _ hd₁ => ?_)
  split
  · trivial
  next e hfind =>
    have hmem : e ∈ d₁.elections.rows := List.mem_of_find?_eq_some hfind
    have hscan : RowId.election e.id ∈ Store.rows d₁ TableName.elections :=
      List.mem_map_of_mem hmem
    have he : Held (l.takeTable .elections (Store.rows d₁ TableName.elections)) .exclusive d₁ e :=
      ⟨List.mem_append_left _ (List.mem_map_of_mem hscan), Table.get?_key hmem⟩
    generalize l.takeTable .elections (Store.rows d₁ TableName.elections) = l₁ at he
    split
    · trivial
    next hdraft =>
    rw [not_not] at hdraft
    split
    · trivial
    split
    · trivial
    -- two plain reads and the key: the row of the election stays locked
    refine gwp_bind.mpr (gwp_select.mpr fun d₂ w₂ hr₂ _ => ?_)
    split
    · trivial
    have he₂ : Held (l₁.look cu.bind d₂) .exclusive d₂ e :=
      ⟨he.lock, (hkeep.held hr₂ he).row⟩
    refine gwp_bind.mpr (gwp_select.mpr fun d₃ w₃ hr₃ _ => ?_)
    split
    · trivial
    have he₃ : Held ((l₁.look cu.bind d₂).look cu.bind d₃) .exclusive d₃ e :=
      ⟨he.lock, (hkeep.held hr₃ he₂).row⟩
    refine gwp_bind.mpr (gwp_of_tame (tame_ensureKey _ _ _) fun res l₄ d₄ w₄ hheld _ hr₄ => ?_)
    have he₄ := hkeep.held_of_subset hheld hr₄ he₃
    rcases res with err | components
    · cases err with
      | blindSigningKeyError m => exact fun _ _ _ _ => trivial
      | _ => trivial
    · exact gwp_finishOpen hkeep hcommit cu components.keyId he₄ hdraft

/-- The commit of `close_election`: the open election has been locked since before the time was
taken, and the promise was kept when it was. -/
def CloseCommits (R : Rules (machine L E)) (C : Promise (machine L E)) (r : Request) : Prop :=
  ∀ {e l p wk d₁ w₁ t w₁' d w} {d' : Db}, Held l .exclusive d₁ e → e.status = .open →
    R.Inv d₁ w₁ → C r p l d₁ w₁ → Stamping p → E.answer wk w₁ .now t w₁' →
    R.Rely l d₁ w₁' d w → R.Inv d w → Held l .exclusive d e →
    d'.toTables = markClosed e.id t d.toTables → R.Guar r l d w d'

theorem gwp_closeElection (hkeep : KeepsLocked R) (hcommit : CloseCommits R C r)
    (cookie : Option PyStr) (electionId : ℕ) :
    R.gwp C r wk id (closeElection L cookie electionId) (fun _ _ _ _ => True) l d w := by
  refine gwp_rolesRequired fun cu l d w => ?_
  refine gwp_bind.mpr (gwp_lockElection (fun _ _ _ => trivial) fun e l₁ d₁ w₁ _ _ he => ?_)
  dsimp only
  split
  · trivial
  next hstatus =>
    rw [not_not] at hstatus
    refine gwp_bind.mpr (gwp_utcNow.mpr fun d₂ w₂ hr₂ hd₂ hC t w₃ ht => ?_)
    have he₂ := hkeep.held hr₂ he
    refine gwp_bind.mpr (gwp_save fun d₄ w₄ hr₄ hd₄ => ⟨trivial, fun d₅ hd₅ => ⟨?_, ?_⟩⟩)
    · exact hcommit he₂ hstatus hd₂ hC ⟨_, rfl, fun t => ⟨_, _, _, rfl⟩⟩ ht hr₄ hd₄
        (hkeep.held hr₄ he₂) hd₅
    · exact gwp_of_readOnly (readOnly_auditRow _ _ _ _ _ _ _) fun _ _ _ _ => trivial

/-! ### `cast_anonymous_ballot` -/

/-- The clock goes on between any two statements. -/
def KeepsTime (K : Clock E) (R : Rules (machine L E)) : Prop :=
  ∀ {l d w d' w'}, R.Rely l d w d' w' → K.time w ≤ K.time w'

/-- The election of a ballot is locked, and it has opened. -/
structure Voting (K : Clock E) (e : Election) (l : Loc) (d : Db) (w : E.World) : Prop where
  held : Held l .share d e
  status : e.status = .open
  opened : ∀ o ∈ e.openAt, o ≤ K.time w

/-- It stays locked and open while the locks are kept. -/
theorem Voting.next {K : Clock E} (hkeep : KeepsLocked R) (htime : KeepsTime K R) {e : Election}
    {l' : Loc} {d' : Db} {w' : E.World} (hv : Voting K e l d w) (hsub : l.held ⊆ l'.held)
    (hr : R.Rely l d w d' w') : Voting K e l' d' w' :=
  ⟨hkeep.held_of_subset hsub hr hv.held, hv.status, fun o ho => (hv.opened o ho).trans (htime hr)⟩

/-- An election that is found open has opened. -/
theorem gwp_isOpen (K : Clock E) {e : Election} {k : Handler Bool → Handler Response}
    {P : Bool → Loc → Db → E.World → Prop} (hfalse : ∀ l d w, P false l d w)
    (htrue : ∀ d' w', R.Rely l d w d' w' → e.status = .open → (∀ o ∈ e.openAt, o ≤ K.time w') →
      P true l d' w') :
    R.gwp C r wk k e.isOpen P l d w := by
  unfold Election.isOpen
  split
  · exact hfalse l d w
  next hopen =>
  rw [not_or, not_not] at hopen
  refine gwp_bind.mpr (gwp_utcNow.mpr fun d₁ w₁ hr hd _ (t : Time) w₂ ht => ?_)
  show P (decide (¬(∃ o ∈ e.openAt, t < o) ∧ ¬∃ c ∈ e.closeAt, c < t)) l d₁ w₂
  by_cases hnow : ¬(∃ o ∈ e.openAt, t < o) ∧ ¬∃ c ∈ e.closeAt, c < t
  · rw [decide_eq_true hnow]
    refine htrue d₁ w₂ (R.rely_trans l hr (R.answer_rely l hd ht)) hopen.1 fun o ho => ?_
    have ho' : o ≤ t := not_lt.mp fun h => hnow.1 ⟨o, ho, h⟩
    exact ho'.trans ((K.now_eq ht).le.trans (K.answer_le ht))
  · rw [decide_eq_false hnow]
    exact hfalse l d₁ w₂

theorem tame_verifyBallot (ballot : ParsedBallot) (e : Election) :
    (verifyBallot L ballot e).Tame := by
  unfold verifyBallot
  refine Prog.tame_bind (tame_ensureKey _ _ _) fun components => ?_
  rcases components with _ | _
  · trivial
  refine Prog.tame_bind (fun _ => trivial) fun pair => ?_
  rcases pair with _ | _
  · trivial
  · trivial

/-- The commit of `cast_anonymous_ballot`: the open election has been locked since before the vote
was stamped, and the promise was kept when it was. -/
def CastCommits (K : Clock E) (R : Rules (machine L E)) (C : Promise (machine L E)) (r : Request) :
    Prop :=
  ∀ {e l p wk d₁ w₁ ts w₁' d w token spentAt nonce c} {d' : Db}, Voting K e l d₁ w₁ →
    R.Inv d₁ w₁ → C r p l d₁ w₁ → Stamping p → E.answer wk w₁ .now ts w₁' →
    R.Rely l d₁ w₁' d w → R.Inv d w → Voting K e l d w →
    d'.toTables = addVoteAndNullifier L token ts spentAt nonce c e.id d.toTables →
    R.Guar r l d w d'

theorem gwp_recordBallot {K : Clock E} (hkeep : KeepsLocked R) (htime : KeepsTime K R)
    (hcommit : CastCommits K R C r) (ballot : ParsedBallot) :
    R.gwp C r wk id (recordBallot L ballot) (fun _ _ _ _ => True) l d w := by
  unfold recordBallot
  refine gwp_bind.mpr (gwp_lockElection (fun _ _ _ => trivial) fun e l₁ d₁ w₁ _ _ he => ?_)
  refine gwp_bind.mpr (gwp_isOpen K (fun _ _ _ => trivial) fun d₂ w₂ hr₂ hopen ho => ?_)
  have hv₂ : Voting K e l₁ d₂ w₂ := ⟨hkeep.held hr₂ he, hopen, ho⟩
  rw [if_neg (by decide)]
  refine gwp_bind.mpr (gwp_of_tame (tame_verifyBallot ballot e) fun res l₃ d₃ w₃ hheld _ hr₃ => ?_)
  have hv₃ := hv₂.next hkeep htime hheld hr₃
  rcases res with err | valid
  · cases err with
    | _ => trivial
  rcases valid with _ | _
  · trivial
  -- the candidate and the roster are plain reads
  refine gwp_bind.mpr (gwp_select.mpr fun d₄ w₄ hr₄ _ => ?_)
  have hv₄ : Voting K e (l₃.look .voters d₄) d₄ w₄ :=
    hv₃.next hkeep htime (List.Subset.refl _) hr₄
  split
  next candidate _ =>
    refine gwp_bind.mpr (gwp_select.mpr fun d₅ w₅ hr₅ _ => ?_)
    have hv₅ : Voting K e ((l₃.look .voters d₄).look .voters d₅) d₅ w₅ :=
      hv₄.next hkeep htime (List.Subset.refl _) hr₅
    split
    · exact fun _ _ _ _ => trivial
    refine gwp_bind.mpr (gwp_of_tame (fun _ => trivial) fun spentAt l₆ d₆ w₆ hheld₆ _ hr₆ => ?_)
    have hv₆ := hv₅.next hkeep htime hheld₆ hr₆
    refine gwp_bind.mpr (gwp_of_tame (fun _ => trivial) fun token l₇ d₇ w₇ hheld₇ _ hr₇ => ?_)
    have hv₇ := hv₆.next hkeep htime hheld₇ hr₇
    -- the vote is stamped by the call before the commit
    refine gwp_bind.mpr (gwp_utcNow.mpr fun d₈ w₈ hr₈ hd₈ hC ts w₉ hts => ?_)
    have hv₈ := hv₇.next hkeep htime (List.Subset.refl _) hr₈
    have hv₉ := hv₈.next hkeep htime (List.Subset.refl _) (R.answer_rely l₇ hd₈ hts)
    refine gwp_bind.mpr (gwp_save fun d₁₀ w₁₀ hr₁₀ hd₁₀ => ⟨?_, fun d₁₁ hd₁₁ => ⟨?_, ?_⟩⟩)
    · exact fun _ _ _ _ => trivial
    · exact hcommit hv₈ hd₈ hC ⟨_, rfl, fun t => ⟨_, _, _, rfl⟩⟩ hts hr₁₀ hd₁₀
        (hv₉.next hkeep htime (List.Subset.refl _) hr₁₀) hd₁₁
    · refine gwp_bind.mpr (gwp_select.mpr fun d₁₂ w₁₂ _ _ => ?_)
      split
      · trivial
      · trivial
  · trivial

theorem gwp_castAnonymousBallot {K : Clock E} (hkeep : KeepsLocked R) (htime : KeepsTime K R)
    (hcommit : CastCommits K R C r) (data : Option Json) :
    R.gwp C r wk id (castAnonymousBallot L data) (fun _ _ _ _ => True) l d w := by
  unfold castAnonymousBallot
  split
  · trivial
  · exact gwp_recordBallot hkeep htime hcommit _

end SecureVote
