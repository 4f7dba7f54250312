import SecureVote.Verified.Accounts

/-!
# Runs of the system

`verified` and soundness give a certificate for every reachable state. Here it is read as an
inversion of single steps and an induction over runs, which every result about runs uses.
-/

open Txn Txn.Rules

namespace SecureVote

variable {L : Lib} {E : Environment} {d : Db} {w : E.World} {s s' : Sys (machine L E)} {b : Label}

/-- Every reachable state is certified. -/
theorem certified (h : Reach (Sys.init d w) s) :
    (rules L E).Certified (fun r a log => Post L r a (writes log)) s :=
  certified_of_reach (verified L E) trivial h

/-- A step commits nothing, or is the commit of one request, which is an action. -/
theorem act_of_step (h : Reach (Sys.init d w) s) (hs : Step (machine L E) b s s') :
    (s'.db = s.db ∧ s'.commits = s.commits) ∨
      ∃ pid t p l, b = .run pid ∧ s.Runs pid t p l ∧ p.commit? s.db = some s'.db ∧
        Act L t.request l s.db s'.db ∧ s'.commits = s.commits ++ [(pid, s.db, s'.db)] := by
  rcases (certified h).write_of_step hs with h | ⟨pid, t, p, l, hb, hr, hc, hact, -, hcommits⟩
  · exact Or.inl h
  · exact Or.inr ⟨pid, t, p, l, hb, hr, hc, hact, hcommits⟩

/-- **Induction over the commits of a run.** -/
theorem db_induction {P : Db → Prop} (h : Reach (Sys.init d w) s) (hinit : P d)
    (hact : ∀ {r l d d'}, P d → Act L r l d d' → P d') : P s.db := by
  induction h with
  | refl => exact hinit
  | tail hr hstep ih =>
    obtain ⟨b, hb, -⟩ := hstep
    rcases act_of_step hr hb with ⟨heq, -⟩ | ⟨_, _, _, _, -, -, -, hact', -⟩
    · rw [heq]
      exact ih
    · exact hact ih hact'

/-- The database evolves in every step. -/
theorem evolves_of_step (h : Reach (Sys.init d w) s) (hs : Step (machine L E) b s s') :
    Evolves s.db s'.db := by
  rcases act_of_step h hs with ⟨heq, -⟩ | ⟨_, _, _, _, -, -, -, hact, -⟩
  · rw [heq]
    exact .refl _
  · exact hact.evolves

/-- The database evolves along a run. -/
theorem evolves_of_reach (h : Reach (Sys.init d w) s) (hs : Reach s s') :
    Evolves s.db s'.db := by
  induction hs with
  | refl => exact .refl _
  | tail hr hstep ih =>
    obtain ⟨b, hb, -⟩ := hstep
    exact ih.trans (evolves_of_step (h.trans hr) hb)

/-- The database has evolved since every commit of the run. -/
theorem evolves_of_commit (h : Reach (Sys.init d w) s) {i : ℕ} {d₁ d₂ : Db}
    (hmem : (i, d₁, d₂) ∈ s.commits) : Evolves d₁ s.db := by
  induction h with
  | refl => exact absurd hmem (by simp [Sys.init, Sys.commits])
  | tail hr hstep ih =>
    obtain ⟨b, hb, -⟩ := hstep
    have hev := evolves_of_step hr hb
    rcases act_of_step hr hb with ⟨-, heq⟩ | ⟨_, _, _, _, -, -, -, -, heq⟩
    · exact (ih (heq ▸ hmem)).trans hev
    · rw [heq] at hmem
      rcases List.mem_append.mp hmem with hmem | hmem
      · exact (ih hmem).trans hev
      · cases List.mem_singleton.mp hmem
        exact hev

/-- The reply of a finished request agrees with its commits. -/
theorem post_of_finished (h : Reach (Sys.init d w) s) {i : ℕ} {t : Thread (machine L E)}
    {a : Response} (ht : s.threads[i]? = some t) (ha : t.status = .finished a) :
    ∃ log, s.log i = log ++ [.reply a] ∧ Post L t.request a (writes log) :=
  (certified h).finished ht ha

/-- What is verified of one request holds whenever it has been answered. -/
theorem finished_of_request {r : Request} {P : Response → List (Ev Db Event Response) → Prop}
    (hP : ∀ wk d w, (rules L E).wp r wk (handle L r) (fun a c => P a c.log) ⟨.fresh, d, w, []⟩)
    (h : Reach (Sys.init d w) s) {i : ℕ} {t : Thread (machine L E)} {a : Response}
    (ht : s.threads[i]? = some t) (hr : t.request = r) (ha : t.status = .finished a) :
    ∃ log, s.log i = log ++ [.reply a] ∧ P a log := by
  have hverified : (rules L E).Verified fun r' a log => r' = r → P a log := by
    intro r' wk d w hi
    by_cases hr' : r' = r
    · subst hr'
      exact wp_mono (hP wk d w) fun _ _ hp _ => hp
    · exact wp_mono (verified L E r' wk d w hi) fun _ _ _ heq => absurd heq hr'
  obtain ⟨log, hlog, hp⟩ := (certified_of_reach hverified trivial h).finished ht ha
  exact ⟨log, hlog, hp hr⟩

/-- A finished request whose log has no write has committed nothing. -/
theorem not_mem_commits {i : ℕ} {log : List (Ev Db Event Response)} {a : Response}
    (hlog : s.log i = log ++ [.reply a]) (hw : writes log = []) {d₁ d₂ : Db} :
    (i, d₁, d₂) ∉ s.commits := by
  intro hmem
  have := Sys.mem_writes_log.mpr hmem
  rw [← mem_writes, hlog, writes_append, hw] at this
  simp at this

/-! ### Rows that a run has added -/

section Added

variable {α : Type} [Keyed α] [DecidableEq α] {t : Tables → Table α}

/-- The rows of a table that a commit adds. -/
def added (t : Tables → Table α) (d d' : Db) : List α :=
  (t d'.toTables).rows.filter fun a => a ∉ (t d.toTables).rows

theorem added_of_eq {d d' : Db} (h : (t d'.toTables).rows = (t d.toTables).rows) :
    added t d d' = [] := by
  rw [added, h, List.filter_eq_nil_iff]
  simp

theorem added_of_append {d d' : Db} {a : α}
    (h : (t d'.toTables).rows = (t d.toTables).rows ++ [a]) : added t d d' = [a] := by
  have ha : a ∉ (t d.toTables).rows := by
    intro hmem
    have hn := (t d'.toTables).nodup
    rw [h, List.map_append, List.nodup_append] at hn
    exact hn.2.2 _ (List.mem_map_of_mem hmem) _ (List.mem_singleton_self _) rfl
  rw [added, h, List.filter_append, List.filter_eq_nil_iff.mpr (by simp)]
  simp [ha]

/-- Of a table that starts empty and to which a commit at most appends a row, the run has lost
nothing: its rows are the ones ever added, and as many commits have added a row with a property
as there are rows with it. -/
theorem rows_eq_added (h : Reach (Sys.init d w) s) (hnil : (t d.toTables).rows = [])
    (happend : ∀ {s₁ s₂ : Sys (machine L E)} {b}, Reach (Sys.init d w) s₁ →
      Step (machine L E) b s₁ s₂ → (t s₂.db.toTables).rows = (t s₁.db.toTables).rows ∨
        ∃ a, (t s₂.db.toTables).rows = (t s₁.db.toTables).rows ++ [a]) :
    (s.commits.flatMap fun x => added t x.2.1 x.2.2) = (t s.db.toTables).rows ∧
      ∀ p : α → Bool, (s.commits.filter fun x => (added t x.2.1 x.2.2).any p).length =
        ((t s.db.toTables).rows.filter p).length := by
  induction h with
  | refl => exact ⟨hnil.symm, fun p => by simp [Sys.init, Sys.commits, hnil]⟩
  | @tail s₁ s₂ hr hstep ih =>
    obtain ⟨b, hb, -⟩ := hstep
    obtain ⟨ih₁, ih₂⟩ := ih
    rcases act_of_step hr hb with ⟨heq, hcommits⟩ | ⟨pid, _, _, _, -, -, -, -, hcommits⟩
    · rw [hcommits, heq]
      exact ⟨ih₁, ih₂⟩
    · rw [hcommits, List.flatMap_append, ih₁]
      rcases happend hr hb with hrows | ⟨a, hrows⟩
      · refine ⟨by simp [added_of_eq hrows, hrows], fun p => ?_⟩
        rw [List.filter_append, List.length_append, ih₂, hrows]
        simp [added_of_eq hrows]
      · refine ⟨by simp [added_of_append hrows, hrows], fun p => ?_⟩
        rw [List.filter_append, List.length_append, ih₂, hrows, List.filter_append,
          List.length_append]
        cases hp : p a <;> simp [added_of_append hrows, hp]

end Added

end SecureVote
