import SecureVote.Txn.System

/-!
# Programs that run alone

What a program does when no other thread runs beside it. `Prog.exec` is a function: the calls
are answered by an oracle over the outside world, every read sees the latest committed state,
and no lock is ever waited for. `exists_reach_exec` connects it to the interleaved system: every
such run is one of the machine, when the oracle answers as the environment may.

The oracle and the world are arbitrary, so a statement about all of them is one about every
sequence of answers.
-/

namespace Txn

variable {σ ρ τ κ ω : Type} {Q : Type} {A : Q → Type} {W R α β γ δ : Type}

/-- What a finished program leaves: its reply, the committed state, the world and the events it
reported, in order. -/
structure Outcome (σ ω W α : Type) where
  reply : α
  db : σ
  world : W
  emitted : List ω

/-- The outcome of a program that reported some events first. -/
def Outcome.after (o : Outcome σ ω W α) (os : List ω) : Outcome σ ω W α :=
  { o with emitted := os ++ o.emitted }

@[simp]
theorem Outcome.reply_after (o : Outcome σ ω W α) (os : List ω) : (o.after os).reply = o.reply :=
  rfl

@[simp]
theorem Outcome.db_after (o : Outcome σ ω W α) (os : List ω) : (o.after os).db = o.db := rfl

@[simp]
theorem Outcome.world_after (o : Outcome σ ω W α) (os : List ω) : (o.after os).world = o.world :=
  rfl

@[simp]
theorem Outcome.emitted_after (o : Outcome σ ω W α) (os : List ω) :
    (o.after os).emitted = os ++ o.emitted := rfl

theorem Outcome.after_nil (o : Outcome σ ω W α) : o.after [] = o := rfl

theorem Outcome.after_after (o : Outcome σ ω W α) (os os' : List ω) :
    (o.after os).after os' = o.after (os' ++ os) := by
  simp [after]

namespace Prog

/-- Run a program alone, with `orc` answering its calls. -/
def exec (orc : (q : Q) → W → A q × W) :
    Prog σ ρ τ κ ω Q A α → σ → W → Outcome σ ω W α
  | .ret a, d, w => ⟨a, d, w, []⟩
  | .read _ q k, d, w => (k (q d)).exec orc d w
  | .peek q k, d, w => (k (q d)).exec orc d w
  | .lock _ _ q k, d, w => (k (q d)).exec orc d w
  | .lockTable _ q k, d, w => (k (q d)).exec orc d w
  | .commit f k, d, w =>
    match f d with
    | none => (k none).exec orc d w
    | some (b, d') => (k (some b)).exec orc d' w
  | .rollback k, d, w => k.exec orc d w
  | .ask q k, d, w => (k (orc q w).1).exec orc d (orc q w).2
  | .emit o k, d, w => (k.exec orc d w).after [o]

variable {orc : (q : Q) → W → A q × W} {d : σ} {w : W}

@[simp]
theorem exec_pure (a : α) : (pure a : Prog σ ρ τ κ ω Q A α).exec orc d w = ⟨a, d, w, []⟩ := rfl

/-! A statement that goes on with `f` hands over what it read. -/

section Statements

variable (f : β → Prog σ ρ τ κ ω Q A α)

theorem exec_pure_bind (b : β) : (pure b >>= f).exec orc d w = (f b).exec orc d w := rfl

theorem exec_select_bind (c : κ) (q : σ → β) :
    (select c q >>= f).exec orc d w = (f (q d)).exec orc d w := rfl

theorem exec_selectLatest_bind (q : σ → β) :
    (selectLatest q >>= f).exec orc d w = (f (q d)).exec orc d w := rfl

theorem exec_selectLocking_bind (m : Mode) (rows : σ → List ρ) (q : σ → β) :
    (selectLocking m rows q >>= f).exec orc d w = (f (q d)).exec orc d w := rfl

theorem exec_abort_bind (f : Unit → Prog σ ρ τ κ ω Q A α) :
    (abort >>= f).exec orc d w = (f ()).exec orc d w := rfl

theorem exec_call_bind (q : Q) (f : A q → Prog σ ρ τ κ ω Q A α) :
    (call q >>= f).exec orc d w = (f (orc q w).1).exec orc d (orc q w).2 := rfl

theorem exec_report_bind (o : ω) (f : Unit → Prog σ ρ τ κ ω Q A α) :
    (report o >>= f).exec orc d w = ((f ()).exec orc d w).after [o] := rfl

theorem exec_write_bind (g : σ → Option (γ × σ)) (f : Option γ → Prog σ ρ τ κ ω Q A α) :
    (write g >>= f).exec orc d w =
      match g d with
      | none => (f none).exec orc d w
      | some (b, d') => (f (some b)).exec orc d' w := by
  simp only [write, bind_def, Prog.bind, exec]

end Statements

theorem bind_assoc (p : Prog σ ρ τ κ ω Q A α) (f : α → Prog σ ρ τ κ ω Q A β)
    (g : β → Prog σ ρ τ κ ω Q A γ) : (p >>= f) >>= g = p >>= fun a => f a >>= g := by
  simp only [bind_def]
  induction p with
  | ret a => rfl
  | read c q k ih => exact congrArg (read c q) (funext ih)
  | peek q k ih => exact congrArg (peek q) (funext ih)
  | lock m rows q k ih => exact congrArg (lock m rows q) (funext ih)
  | lockTable t q k ih => exact congrArg (lockTable t q) (funext ih)
  | commit w k ih => exact congrArg (commit w) (funext ih)
  | rollback k ih => exact congrArg rollback ih
  | ask q k ih => exact congrArg (ask q) (funext ih)
  | emit o k ih => exact congrArg (emit o) ih

/-- A sequence runs its second part from where the first one ended. -/
theorem exec_bind (p : Prog σ ρ τ κ ω Q A α) (f : α → Prog σ ρ τ κ ω Q A β) :
    (p >>= f).exec orc d w =
      ((f (p.exec orc d w).reply).exec orc (p.exec orc d w).db (p.exec orc d w).world).after
        (p.exec orc d w).emitted := by
  rw [bind_def]
  induction p generalizing d w with
  | ret a => rfl
  | read c q k ih => exact ih _
  | peek q k ih => exact ih _
  | lock m rows q k ih => exact ih _
  | lockTable t q k ih => exact ih _
  | commit g k ih =>
    simp only [Prog.bind, exec]
    split
    · exact ih _
    · exact ih _
  | rollback k ih => exact ih
  | ask q k ih => exact ih _
  | emit o k ih =>
    simp only [Prog.bind, exec, ih, Outcome.after_after]
    rfl

/-- A program that neither commits nor reports leaves the committed state as it is. -/
theorem exec_of_silent {p : Prog σ ρ τ κ ω Q A α} (h : p.Silent) :
    (p.exec orc d w).db = d ∧ (p.exec orc d w).emitted = [] := by
  induction p generalizing w with
  | ret a => exact ⟨rfl, rfl⟩
  | read c q k ih => exact ih _ (h _)
  | peek q k ih => exact ih _ (h _)
  | lock m rows q k ih => exact ih _ (h _)
  | lockTable t q k ih => exact ih _ (h _)
  | rollback k ih => exact ih h
  | ask q k ih => exact ih _ (h _)
  | commit f k => exact h.elim
  | emit o k => exact h.elim

/-! ### Connections -/

end Prog

section Reach

variable {V : Type} [DecidableEq ρ] [DecidableEq V] [DecidableEq κ] [Store σ ρ τ V]
variable {M : Machine σ ρ τ κ ω Q A W R α} {orc : (q : Q) → W → A q × W} {r : R} {wk : ℕ}

/-- The thread of `s` is the only one, and its snapshots are all of the committed state. -/
structure Alone (r : R) (wk : ℕ) (p : Prog σ ρ τ κ ω Q A α) (l : Local σ ρ τ κ) (s : Sys M) :
    Prop where
  threads : s.threads = [⟨r, wk, .running p l⟩]
  snap : ∀ c d, l.snap c = some d → d = s.db

omit [DecidableEq ρ] [DecidableEq V] [DecidableEq κ] [Store σ ρ τ V] in
theorem Alone.runs {p : Prog σ ρ τ κ ω Q A α} {l : Local σ ρ τ κ} {s : Sys M}
    (h : Alone r wk p l s) : s.Runs 0 ⟨r, wk, .running p l⟩ p l := by
  constructor
  · rw [h.threads, List.getElem?_cons_zero]
  · rfl

omit [DecidableEq ρ] [DecidableEq V] [DecidableEq κ] [Store σ ρ τ V] in
theorem Alone.others {p : Prog σ ρ τ κ ω Q A α} {l : Local σ ρ τ κ} {s : Sys M}
    (h : Alone r wk p l s) : s.others 0 = [] := by
  simp [Sys.others, h.threads]

omit [DecidableEq ρ] [DecidableEq V] [DecidableEq κ] [Store σ ρ τ V] in
theorem Alone.view {p : Prog σ ρ τ κ ω Q A α} {l : Local σ ρ τ κ} {s : Sys M}
    (h : Alone r wk p l s) (c : κ) : l.view c s.db = s.db := by
  rcases hc : l.snap c with _ | d
  · simp [Local.view, hc]
  · simp [Local.view, hc, h.snap c d hc]

/-- A statement of a thread that is alone, on the way from the program `p` to `p'`. -/
theorem Alone.step {p p' : Prog σ ρ τ κ ω Q A α} {l l' : Local σ ρ τ κ} {s : Sys M}
    {e : Effect σ ω} (h : Alone r wk p l s) (ha : advance [] s.db p l = some (p', l', e))
    (hsnap : ∀ c d, l'.snap c = some d → d = e.db s.db) :
    ∃ s', Reach s s' ∧ Alone r wk p' l' s' ∧ s'.db = e.db s.db ∧ s'.world = s.world ∧
      s'.trace = s.trace ++ (e.events s.db).map (Prod.mk 0) := by
  rw [← h.others] at ha
  refine ⟨_, Reach.step .refl (.run h.runs ha), ⟨?_, hsnap⟩, rfl, rfl, rfl⟩
  simp [Sys.setStatus, h.threads]

omit [DecidableEq ρ] [DecidableEq V] [DecidableEq κ] [Store σ ρ τ V] in
theorem Sys.emitted_append {s s' : Sys M} {es : List (ℕ × Ev σ ω α)}
    (h : s'.trace = s.trace ++ es) :
    s'.emitted = s.emitted ++ es.filterMap fun e => match e with
      | (i, .emit o) => some (i, o)
      | _ => none := by
  rw [Sys.emitted, h, List.filterMap_append]
  rfl

/-- From `s`, whose only thread serves `r`, the thread gets to what `p.exec` says. -/
def Finishes (orc : (q : Q) → W → A q × W) (r : R) (wk : ℕ) (p : Prog σ ρ τ κ ω Q A α)
    (s : Sys M) : Prop :=
  ∃ s', Reach s s' ∧ s'.threads = [⟨r, wk, .finished (p.exec orc s.db s.world).reply⟩] ∧
    s'.db = (p.exec orc s.db s.world).db ∧ s'.world = (p.exec orc s.db s.world).world ∧
    s'.emitted = s.emitted ++ (p.exec orc s.db s.world).emitted.map (Prod.mk 0)

/-- A statement that leaves no event changes nothing of what the thread gets to. -/
theorem Alone.finishes {p p' : Prog σ ρ τ κ ω Q A α} {l l' : Local σ ρ τ κ} {s : Sys M}
    (h : Alone r wk p l s) (ha : advance [] s.db p l = some (p', l', .silent))
    (hexec : p.exec orc s.db s.world = p'.exec orc s.db s.world)
    (hsnap : ∀ c d, l'.snap c = some d → d = s.db)
    (ih : ∀ s₁ : Sys M, Alone r wk p' l' s₁ → Finishes orc r wk p' s₁) :
    Finishes orc r wk p s := by
  obtain ⟨s₁, hr, halone, hdb, hw, htr⟩ := h.step ha hsnap
  obtain ⟨s', hr', hs'⟩ := ih s₁ halone
  rw [hdb, hw, Sys.emitted_append htr] at hs'
  refine ⟨s', hr.trans hr', ?_⟩
  rw [hexec]
  simpa [Effect.db, Effect.events] using hs'

/-- **Running alone is a run of the machine**: from a state whose only thread is about to execute
`p`, the thread gets to the reply, state, world and events of `p.exec`. -/
theorem finishes_of_alone (horc : ∀ wk w q, M.answer wk w q (orc q w).1 (orc q w).2)
    {p : Prog σ ρ τ κ ω Q A α} {l : Local σ ρ τ κ} {s : Sys M} (h : Alone r wk p l s) :
    Finishes orc r wk p s := by
  induction p generalizing l s with
  | ret a =>
    refine ⟨_, Reach.step .refl (.finish h.runs), ?_, rfl, rfl, ?_⟩
    · simp [Sys.setStatus, h.threads, Prog.exec]
    · simp [Sys.emitted, Prog.exec]
  | read c q k ih =>
    have ha : advance [] s.db (.read c q k) l = some (k (q s.db), l.look c s.db, .silent) := by
      rw [advance, h.view]
    refine h.finishes ha rfl (fun c' d hc => ?_) fun s₁ hs₁ => ih _ hs₁
    by_cases he : c' = c
    · rw [he, Local.snap_look_self, h.view] at hc
      exact (Option.some.inj hc).symm
    · exact h.snap c' d ((Function.update_of_ne he _ _).symm.trans hc)
  | peek q k ih =>
    have ha : advance [] s.db (.peek q k) l = some (k (q s.db), l, .silent) := rfl
    exact h.finishes ha rfl h.snap fun s₁ hs₁ => ih _ hs₁
  | lock m rows q k ih =>
    have ha : advance [] s.db (.lock m rows q k) l =
        some (k (q s.db), l.take (found s.db (rows s.db)) m, .silent) := by
      simp [advance, free]
    exact h.finishes ha rfl h.snap fun s₁ hs₁ => ih _ hs₁
  | lockTable t q k ih =>
    have ha : advance [] s.db (.lockTable t q k) l =
        some (k (q s.db), l.takeTable t (Store.rows s.db t), .silent) := by
      simp [advance, free]
    exact h.finishes ha rfl h.snap fun s₁ hs₁ => ih _ hs₁
  | rollback k ih =>
    have ha : advance [] s.db (.rollback k) l = some (k, .fresh, .silent) := rfl
    exact h.finishes ha rfl (fun _ _ hc => by cases hc) fun s₁ hs₁ => ih hs₁
  | commit f k ih =>
    rcases hf : f s.db with _ | ⟨b, d'⟩
    · have ha : advance [] s.db (.commit f k) l = some (k none, l, .silent) := by
        simp [advance, hf]
      exact h.finishes ha (by simp [Prog.exec, hf]) h.snap fun s₁ hs₁ => ih _ hs₁
    · have ha : advance [] s.db (.commit f k) l = some (k (some b), .fresh, .write d') := by
        simp [advance, hf, quiet]
      obtain ⟨s₁, hr, halone, hdb, hw, htr⟩ := h.step ha fun _ _ hc => by cases hc
      obtain ⟨s', hr', hs'⟩ := ih _ halone
      rw [hdb, hw, Sys.emitted_append htr] at hs'
      refine ⟨s', hr.trans hr', ?_⟩
      simpa [Prog.exec, hf, Effect.db, Effect.events] using hs'
  | ask q k ih =>
    have halone : Alone r wk (k (orc q s.world).1) l
        { s with
          world := (orc q s.world).2
          threads := s.setStatus 0 ⟨r, wk, .running (.ask q k) l⟩
            (.running (k (orc q s.world).1) l) } :=
      ⟨by simp [Sys.setStatus, h.threads], h.snap⟩
    obtain ⟨s', hr', hs'⟩ := ih _ halone
    exact ⟨s', (Reach.step .refl (.ask h.runs (horc wk s.world q))).trans hr', hs'⟩
  | emit o k ih =>
    have ha : advance [] s.db (.emit o k) l = some (k, l, .emit o) := rfl
    obtain ⟨s₁, hr, halone, hdb, hw, htr⟩ := h.step ha h.snap
    obtain ⟨s', hr', hs'⟩ := ih halone
    rw [hdb, hw, Sys.emitted_append htr] at hs'
    refine ⟨s', hr.trans hr', ?_⟩
    simpa [Prog.exec, Effect.db, Effect.events] using hs'

/-- A request that is served alone, from its arrival to its reply. -/
theorem exists_reach_exec (horc : ∀ wk w q, M.answer wk w q (orc q w).1 (orc q w).2) (r : R)
    (wk : ℕ) (d : σ) (w : W) :
    ∃ s : Sys M, Reach (Sys.init d w) s ∧
      s.threads = [⟨r, wk, .finished ((M.handler r).exec orc d w).reply⟩] ∧
      s.db = ((M.handler r).exec orc d w).db ∧
      s.emitted = ((M.handler r).exec orc d w).emitted.map (Prod.mk 0) := by
  have halone : Alone r wk (M.handler r) .fresh
      (⟨d, w, [], [⟨r, wk, .running (M.handler r) .fresh⟩]⟩ : Sys M) :=
    ⟨rfl, fun _ _ hc => by cases hc⟩
  obtain ⟨s, hr, hth, hdb, -, hem⟩ := finishes_of_alone horc halone
  exact ⟨s, .trans (Reach.step .refl (.start r wk)) hr, hth, hdb, by simpa [Sys.emitted] using hem⟩

end Reach

end Txn
