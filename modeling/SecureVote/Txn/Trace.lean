import SecureVote.Txn.RelyGuarantee
import Mathlib.Data.List.Nodup

/-!
# Traces of a run

What the trace of a run says about its threads: requests stay with their threads, a thread
replies at most once, and the trace only grows.
-/

namespace Txn

variable {σ ρ τ V κ ω : Type} {Q : Type} {A : Q → Type} {W R α : Type}
  [DecidableEq ρ] [DecidableEq V] [DecidableEq κ] [Store σ ρ τ V]
  {M : Machine σ ρ τ κ ω Q A W R α} {s s' : Sys M} {b : Label}

omit [DecidableEq ρ] [DecidableEq V] [DecidableEq κ] [Store σ ρ τ V] in
theorem Sys.mem_commits {i : ℕ} {d d' : σ} :
    (i, d, d') ∈ s.commits ↔ (i, .write d d') ∈ s.trace := by
  simp only [commits, List.mem_filterMap]
  constructor
  · rintro ⟨⟨j, e⟩, he, h⟩
    cases e <;> cases h
    exact he
  · exact fun h => ⟨_, h, rfl⟩

omit [DecidableEq ρ] [DecidableEq V] [DecidableEq κ] [Store σ ρ τ V] in
theorem Sys.mem_replies {i : ℕ} {a : α} : (i, a) ∈ s.replies ↔ (i, .reply a) ∈ s.trace := by
  simp only [replies, List.mem_filterMap]
  constructor
  · rintro ⟨⟨j, e⟩, he, h⟩
    cases e <;> cases h
    exact he
  · exact fun h => ⟨_, h, rfl⟩

omit [DecidableEq ρ] [DecidableEq V] [DecidableEq κ] [Store σ ρ τ V] in
theorem Sys.mem_emitted {i : ℕ} {o : ω} : (i, o) ∈ s.emitted ↔ (i, .emit o) ∈ s.trace := by
  simp only [emitted, List.mem_filterMap]
  constructor
  · rintro ⟨⟨j, e⟩, he, h⟩
    cases e <;> cases h
    exact he
  · exact fun h => ⟨_, h, rfl⟩

omit [DecidableEq ρ] [DecidableEq V] [DecidableEq κ] [Store σ ρ τ V] in
/-- The writes in the log of a thread are its commits. -/
theorem Sys.mem_writes_log {i : ℕ} {d d' : σ} :
    Ev.write d d' ∈ s.log i ↔ (i, d, d') ∈ s.commits := by
  rw [Sys.mem_commits]
  simp only [log, List.mem_filterMap]
  constructor
  · rintro ⟨⟨j, e⟩, he, h⟩
    dsimp only at h
    split at h
    next hj =>
      cases h
      exact hj ▸ he
    · cases h
  · exact fun h => ⟨_, h, if_pos rfl⟩

omit [DecidableEq ρ] [DecidableEq V] [DecidableEq κ] [Store σ ρ τ V] in
/-- The events in the log of a thread are the ones it has emitted. -/
theorem Sys.mem_emit_log {i : ℕ} {o : ω} : Ev.emit o ∈ s.log i ↔ (i, o) ∈ s.emitted := by
  rw [Sys.mem_emitted]
  simp only [log, List.mem_filterMap]
  constructor
  · rintro ⟨⟨j, e⟩, he, h⟩
    dsimp only at h
    split at h
    next hj =>
      cases h
      exact hj ▸ he
    · cases h
  · exact fun h => ⟨_, h, if_pos rfl⟩

/-- The trace grows by the events of one thread, and a thread keeps its request. -/
theorem Step.threads (h : Step M b s s') {i : ℕ} {t : Thread M} (ht : s.threads[i]? = some t) :
    ∃ t', s'.threads[i]? = some t' ∧ t'.request = t.request ∧
      ∀ a, t.status = .finished a → t'.status = .finished a := by
  have hset : ∀ {pid : ℕ} {u : Thread M} {p l x}, s.Runs pid u p l →
      ∃ t', (s.setStatus pid u x)[i]? = some t' ∧ t'.request = t.request ∧
        ∀ a, t.status = .finished a → t'.status = .finished a := by
    intro pid u p l x hr
    rw [Sys.setStatus]
    rcases eq_or_ne pid i with rfl | hne
    · obtain rfl : u = t := Option.some.inj (hr.1.symm.trans ht)
      rw [List.getElem?_set_self (List.getElem?_eq_some_iff.mp ht).1]
      exact ⟨_, rfl, rfl, fun a ha => by rw [hr.2] at ha; cases ha⟩
    · rw [List.getElem?_set_ne hne]
      exact ⟨t, ht, rfl, fun a ha => ha⟩
  cases h with
  | start r wk =>
    refine ⟨t, ?_, rfl, fun a ha => ha⟩
    rw [List.getElem?_append_left (List.getElem?_eq_some_iff.mp ht).1]
    exact ht
  | run hr ha => exact hset hr
  | ask hr ha => exact hset hr
  | finish hr => exact hset hr
  | crash hr => exact hset hr
  | drift h => exact ⟨t, ht, rfl, fun a ha => ha⟩

theorem Step.trace_prefix (h : Step M b s s') : s.trace <+: s'.trace := by
  cases h with
  | run hr ha => exact List.prefix_append _ _
  | finish hr => exact List.prefix_append _ _
  | _ => exact List.prefix_refl _

/-- A thread that runs after a step was running before it, or has just arrived. -/
theorem Step.runs (h : Step M b s s') {i : ℕ} {t : Thread M} {p : Prog σ ρ τ κ ω Q A α}
    {l : Local σ ρ τ κ} (hr : s'.Runs i t p l) :
    (∃ t₀ p₀ l₀, s.Runs i t₀ p₀ l₀ ∧ t₀.request = t.request) ∨ s.threads.length ≤ i := by
  have hset : ∀ {pid : ℕ} {u : Thread M} {q m x}, s.Runs pid u q m →
      s'.threads = s.setStatus pid u x →
      ∃ t₀ p₀ l₀, s.Runs i t₀ p₀ l₀ ∧ t₀.request = t.request := by
    intro pid u q m x hrun hth
    rcases Rules.runs_of_setStatus hth hr with ⟨rfl, rfl, -⟩ | ⟨-, hr⟩
    · exact ⟨u, q, m, hrun, rfl⟩
    · exact ⟨t, p, l, hr, rfl⟩
  cases h with
  | start r wk =>
    rcases Nat.lt_or_ge i s.threads.length with hlt | hge
    · have ht := hr.1
      rw [List.getElem?_append_left hlt] at ht
      exact Or.inl ⟨t, p, l, ⟨ht, hr.2⟩, rfl⟩
    · exact Or.inr hge
  | run hrun ha => exact Or.inl (hset hrun rfl)
  | ask hrun ha => exact Or.inl (hset hrun rfl)
  | finish hrun => exact Or.inl (hset hrun rfl)
  | crash hrun => exact Or.inl (hset hrun rfl)
  | drift h => exact Or.inl ⟨t, p, l, hr, rfl⟩

/-- Along a run threads keep their requests. -/
theorem Reach.threads (h : Reach s s') {i : ℕ} {t : Thread M} (ht : s.threads[i]? = some t) :
    ∃ t', s'.threads[i]? = some t' ∧ t'.request = t.request ∧
      ∀ a, t.status = .finished a → t'.status = .finished a := by
  induction h with
  | refl => exact ⟨t, ht, rfl, fun a ha => ha⟩
  | tail _ hstep ih =>
    obtain ⟨b, hb, -⟩ := hstep
    obtain ⟨t', ht', hr', hf'⟩ := ih
    obtain ⟨t'', ht'', hr'', hf''⟩ := hb.threads ht'
    exact ⟨t'', ht'', hr''.trans hr', fun a ha => hf'' a (hf' a ha)⟩

theorem Reach.trace_prefix (h : Reach s s') : s.trace <+: s'.trace := by
  induction h with
  | refl => exact List.prefix_refl _
  | tail _ hstep ih =>
    obtain ⟨b, hb, -⟩ := hstep
    exact ih.trans hb.trace_prefix

theorem Reach.commits_prefix (h : Reach s s') : s.commits <+: s'.commits :=
  h.trace_prefix.filterMap _

theorem Reach.replies_prefix (h : Reach s s') : s.replies <+: s'.replies :=
  h.trace_prefix.filterMap _

theorem Reach.emitted_prefix (h : Reach s s') : s.emitted <+: s'.emitted :=
  h.trace_prefix.filterMap _

/-- A step commits nothing, or is one commit from the committed state to the next. -/
theorem Step.commits (h : Step M b s s') : (s'.db = s.db ∧ s'.commits = s.commits) ∨
    ∃ pid, s'.commits = s.commits ++ [(pid, s.db, s'.db)] := by
  cases h with
  | start r wk => exact Or.inl ⟨rfl, rfl⟩
  | ask hr ha => exact Or.inl ⟨rfl, rfl⟩
  | finish hr => exact Or.inl ⟨rfl, by simp [Sys.commits]⟩
  | crash hr => exact Or.inl ⟨rfl, rfl⟩
  | drift h => exact Or.inl ⟨rfl, rfl⟩
  | @run _ pid t p p' l l' e hr ha =>
    cases e with
    | silent => exact Or.inl ⟨rfl, by simp [Sys.commits, Effect.events]⟩
    | emit o => exact Or.inl ⟨rfl, by simp [Sys.commits, Effect.events]⟩
    | write d' => exact Or.inr ⟨pid, by simp [Sys.commits, Effect.events, Effect.db]⟩

/-- A step replies nothing, or is the reply of one thread, which is then finished. -/
theorem Step.replies (h : Step M b s s') : s'.replies = s.replies ∨
    ∃ pid t a l, s.Runs pid t (.ret a) l ∧ s'.replies = s.replies ++ [(pid, a)] ∧
      ∃ t', s'.threads[pid]? = some t' ∧ t'.request = t.request ∧ t'.status = .finished a := by
  cases h with
  | start r wk => exact Or.inl rfl
  | ask hr ha => exact Or.inl rfl
  | crash hr => exact Or.inl rfl
  | drift h => exact Or.inl rfl
  | @run _ pid t p p' l l' e hr ha =>
    refine Or.inl ?_
    cases e <;> simp [Sys.replies, Effect.events]
  | @finish _ pid t a l hr =>
    refine Or.inr ⟨pid, t, a, l, hr, by simp [Sys.replies],
      { t with status := .finished a }, ?_, rfl, rfl⟩
    rw [Sys.setStatus, List.getElem?_set_self (List.getElem?_eq_some_iff.mp hr.1).1]

/-- A step that replies does nothing else. -/
theorem Step.of_reply (h : Step M b s s') {x : ℕ × α} (hx : s'.replies = s.replies ++ [x]) :
    s'.db = s.db ∧ s'.emitted = s.emitted ∧ s'.commits = s.commits := by
  have hno : s'.replies ≠ s.replies := by simp [hx]
  cases h with
  | start r wk => exact absurd rfl hno
  | ask hr ha => exact absurd rfl hno
  | crash hr => exact absurd rfl hno
  | drift h => exact absurd rfl hno
  | finish hr => exact ⟨rfl, by simp [Sys.emitted], by simp [Sys.commits]⟩
  | @run _ pid t p p' l l' e hr ha =>
    exact absurd (by cases e <;> simp [Sys.replies, Effect.events]) hno

theorem Step.ne_start_of_reply (h : Step M b s s') {x : ℕ × α}
    (hx : s'.replies = s.replies ++ [x]) : b ≠ .start := by
  rintro rfl
  cases h
  simp [Sys.replies] at hx

theorem Step.ne_start_of_commit (h : Step M b s s') {x : ℕ × σ × σ}
    (hx : s'.commits = s.commits ++ [x]) : b ≠ .start := by
  rintro rfl
  cases h
  simp [Sys.commits] at hx

/-- The threads that have replied are finished with their reply. -/
theorem Reach.finished_of_reply {d : σ} {w : W} (h : Reach (Sys.init d w) s) {i : ℕ} {a : α}
    (hi : (i, a) ∈ s.replies) :
    ∃ t, s.threads[i]? = some t ∧ t.status = .finished a := by
  induction h with
  | refl => cases hi
  | tail _ hstep ih =>
    obtain ⟨b, hb, -⟩ := hstep
    have hold : ∀ {s' : Sys M} {t : Thread M}, t.status = .finished a →
        (∃ t', s'.threads[i]? = some t' ∧ t'.request = t.request ∧
          ∀ a, t.status = .finished a → t'.status = .finished a) →
        ∃ t, s'.threads[i]? = some t ∧ t.status = .finished a := by
      rintro s' t ht ⟨t', ht', -, hf⟩
      exact ⟨t', ht', hf a ht⟩
    rcases hb.replies with heq | ⟨pid, t, a', l, hr, heq, t', ht', -, hf'⟩
    · rw [heq] at hi
      obtain ⟨t, ht, hf⟩ := ih hi
      exact hold hf (hb.threads ht)
    · rw [heq] at hi
      rcases List.mem_append.mp hi with hi | hi
      · obtain ⟨t, ht, hf⟩ := ih hi
        exact hold hf (hb.threads ht)
      · cases List.mem_singleton.mp hi
        exact ⟨t', ht', hf'⟩

/-- A thread replies at most once. -/
theorem Reach.nodup_replies {d : σ} {w : W} (h : Reach (Sys.init d w) s) :
    (s.replies.map Prod.fst).Nodup := by
  induction h with
  | refl => exact List.nodup_nil
  | @tail s₁ s₂ hr hstep ih =>
    obtain ⟨b, hb, -⟩ := hstep
    rcases hb.replies with heq | ⟨pid, t, a, l, hrun, heq, -⟩
    · rw [heq]
      exact ih
    · rw [heq, List.map_append, List.map_singleton, List.nodup_append]
      refine ⟨ih, List.nodup_singleton _, fun i hi j hj => ?_⟩
      obtain ⟨x, hx, rfl⟩ := List.mem_map.mp hi
      rw [List.mem_singleton.mp hj]
      intro hpid
      obtain ⟨t', ht', hf⟩ := Reach.finished_of_reply hr hx
      rw [hpid] at ht'
      obtain rfl : t = t' := Option.some.inj (hrun.1.symm.trans ht')
      rw [hrun.2] at hf
      cases hf

/-- Soundness for a run of verified requests. -/
theorem Rules.certified_of_requests {L : Rules M} {P : R → α → List (Ev σ ω α) → Prop}
    {S : R → Prop} (hv : L.VerifiedOn S P) {d : σ} {w : W} (hi : L.Inv d w)
    (h : Reach (Sys.init d w) s) (hS : ∀ t ∈ s.threads, S t.request) : L.Certified P s := by
  induction h with
  | refl => exact Rules.certified_init hi
  | tail _ hstep ih =>
    obtain ⟨b, hb, -⟩ := hstep
    refine (ih fun t ht => ?_).step_on hv hb hS
    obtain ⟨i, hget⟩ := List.mem_iff_getElem?.mp ht
    obtain ⟨t', ht', hreq, -⟩ := hb.threads hget
    exact hreq ▸ hS t' (List.mem_of_getElem? ht')

/-! ### Snapshots -/

/-- A commit ends its transaction. -/
theorem fresh_of_write {others : List (Local σ ρ τ κ)} {d d' : σ} {p p' : Prog σ ρ τ κ ω Q A α}
    {l l' : Local σ ρ τ κ} (h : advance others d p l = some (p', l', .write d')) : l' = .fresh := by
  cases p with
  | commit w k =>
    simp only [advance] at h
    split at h
    · cases h
    · split at h
      · cases h
        rfl
      · cases h
  | lock m rows q k =>
    simp only [advance] at h
    split at h <;> cases h
  | lockTable t q k =>
    simp only [advance] at h
    split at h <;> cases h
  | _ => simp [advance] at h

/-- One statement keeps a fixed snapshot, fixes it to the committed state, or drops it. -/
theorem snap_of_advance {others : List (Local σ ρ τ κ)} {d : σ} {p p' : Prog σ ρ τ κ ω Q A α}
    {l l' : Local σ ρ τ κ} {e : Effect σ ω} (h : advance others d p l = some (p', l', e)) {c : κ}
    {d₀ : σ} (hc : l'.snap c = some d₀) :
    l.snap c = some d₀ ∨ l.snap c = none ∧ d₀ = d ∧ e.db d = d := by
  cases p with
  | read i q k =>
    simp only [advance, Option.some.injEq, Prod.mk.injEq] at h
    obtain ⟨-, rfl, rfl⟩ := h
    rcases eq_or_ne c i with rfl | hne
    · rw [Local.snap_look_self, Local.view] at hc
      rcases hs : l.snap c with _ | d₁
      · rw [hs] at hc
        cases hc
        exact Or.inr ⟨rfl, rfl, rfl⟩
      · rw [hs] at hc
        exact Or.inl hc
    · exact Or.inl ((Function.update_of_ne hne _ _).symm.trans hc)
  | ret a => simp [advance] at h
  | ask q k => simp [advance] at h
  | peek q k =>
    simp only [advance, Option.some.injEq, Prod.mk.injEq] at h
    obtain ⟨-, rfl, -⟩ := h
    exact Or.inl hc
  | lock m rows q k =>
    simp only [advance] at h
    split at h
    · cases h
      exact Or.inl hc
    · cases h
  | lockTable t q k =>
    simp only [advance] at h
    split at h
    · cases h
      exact Or.inl hc
    · cases h
  | commit w k =>
    simp only [advance] at h
    split at h
    · cases h
      exact Or.inl hc
    · split at h
      · cases h
        cases hc
      · cases h
  | rollback k =>
    simp only [advance, Option.some.injEq, Prod.mk.injEq] at h
    obtain ⟨-, rfl, -⟩ := h
    cases hc
  | emit o k =>
    simp only [advance, Option.some.injEq, Prod.mk.injEq] at h
    obtain ⟨-, rfl, -⟩ := h
    exact Or.inl hc

/-- A thread that has just committed has no transaction open. -/
theorem Step.fresh_of_commit (h : Step M b s s') {i : ℕ} {x : σ × σ}
    (hcommits : s'.commits = s.commits ++ [(i, x)]) {t : Thread M} {p : Prog σ ρ τ κ ω Q A α}
    {l : Local σ ρ τ κ} (hr : s'.Runs i t p l) : l = .fresh := by
  have hno : s'.commits ≠ s.commits := by simp [hcommits]
  cases h with
  | start r wk => exact absurd rfl hno
  | ask hrun ha => exact absurd rfl hno
  | crash hrun => exact absurd rfl hno
  | drift h => exact absurd rfl hno
  | finish hrun => exact absurd (by simp [Sys.commits]) hno
  | @run _ pid u q q' m m' e hrun ha =>
    cases e with
    | silent => exact absurd (by simp [Sys.commits, Effect.events]) hno
    | emit o => exact absurd (by simp [Sys.commits, Effect.events]) hno
    | write d' =>
      obtain rfl : pid = i := by
        have hlast : [(pid, s.db, d')] = [(i, x)] := List.append_cancel_left
          ((show s.commits ++ [(pid, s.db, d')] = _ by
            simp [Sys.commits, Effect.events]).trans hcommits)
        exact congrArg Prod.fst (List.head_eq_of_cons_eq hlast)
      rcases Rules.runs_of_setStatus rfl hr with ⟨-, -, hx⟩ | ⟨hne, -⟩
      · cases hx
        exact fresh_of_write ha
      · exact absurd rfl hne

/-- A step keeps a snapshot of a thread, or fixes a missing one to the committed state. -/
theorem Step.snap (h : Step M b s s') {i : ℕ} {t : Thread M} {p : Prog σ ρ τ κ ω Q A α}
    {l : Local σ ρ τ κ} (hr : s'.Runs i t p l) {c : κ} {d : σ} (hc : l.snap c = some d) :
    (∃ t₀ p₀ l₀, s.Runs i t₀ p₀ l₀ ∧ l₀.snap c = some d) ∨
      d = s'.db ∧ ∀ t₀ p₀ l₀, s.Runs i t₀ p₀ l₀ → l₀.snap c = none := by
  cases h with
  | start r wk =>
    obtain ⟨ht, hst⟩ := hr
    rcases Nat.lt_or_ge i s.threads.length with hlt | hge
    · rw [List.getElem?_append_left hlt] at ht
      exact Or.inl ⟨t, p, l, ⟨ht, hst⟩, hc⟩
    · rw [List.getElem?_append_right hge, List.getElem?_singleton] at ht
      split at ht
      · cases ht
        cases hst
        cases hc
      · cases ht
  | run hrun ha =>
    rcases Rules.runs_of_setStatus rfl hr with ⟨rfl, rfl, hx⟩ | ⟨-, hr⟩
    · cases hx
      rcases snap_of_advance ha hc with hl | ⟨hl, rfl, hdb⟩
      · exact Or.inl ⟨_, _, _, hrun, hl⟩
      · refine Or.inr ⟨hdb.symm, fun t₀ p₀ l₀ hr₀ => ?_⟩
        obtain rfl := Option.some.inj (hrun.1.symm.trans hr₀.1)
        cases hrun.2.symm.trans hr₀.2
        exact hl
    · exact Or.inl ⟨t, p, l, hr, hc⟩
  | ask hrun ha =>
    rcases Rules.runs_of_setStatus rfl hr with ⟨rfl, rfl, hx⟩ | ⟨-, hr⟩
    · cases hx
      exact Or.inl ⟨_, _, _, hrun, hc⟩
    · exact Or.inl ⟨t, p, l, hr, hc⟩
  | finish hrun =>
    rcases Rules.runs_of_setStatus rfl hr with ⟨rfl, rfl, hx⟩ | ⟨-, hr⟩
    · cases hx
    · exact Or.inl ⟨t, p, l, hr, hc⟩
  | crash hrun =>
    rcases Rules.runs_of_setStatus rfl hr with ⟨rfl, rfl, hx⟩ | ⟨-, hr⟩
    · cases hx
    · exact Or.inl ⟨t, p, l, hr, hc⟩
  | drift h => exact Or.inl ⟨t, p, l, hr, hc⟩

/-- **Snapshots are states the run has visited**: a snapshot of a running thread was fixed before
the run began, or is the committed state at some later point. -/
theorem ReachIf.snap {C : Sys M → Label → Prop} {s₀ : Sys M} (h : ReachIf C s₀ s) {i : ℕ}
    {t : Thread M} {p : Prog σ ρ τ κ ω Q A α} {l : Local σ ρ τ κ} (hr : s.Runs i t p l) {c : κ}
    {d : σ} (hc : l.snap c = some d) :
    (∃ t₀ p₀ l₀, s₀.Runs i t₀ p₀ l₀ ∧ l₀.snap c = some d) ∨
      ∃ s₁, ReachIf C s₀ s₁ ∧ ReachIf C s₁ s ∧ s₁.db = d := by
  induction h generalizing t p l with
  | refl => exact Or.inl ⟨t, p, l, hr, hc⟩
  | tail hreach hstep ih =>
    have hone : ReachIf C _ _ := Relation.ReflTransGen.single hstep
    obtain ⟨b, hb, -⟩ := id hstep
    rcases hb.snap hr hc with ⟨t₁, p₁, l₁, hr₁, hc₁⟩ | ⟨rfl, -⟩
    · rcases ih hr₁ hc₁ with h | ⟨s₁, h₁, h₂, h₃⟩
      · exact Or.inl h
      · exact Or.inr ⟨s₁, h₁, h₂.trans hone, h₃⟩
    · exact Or.inr ⟨_, hreach.trans hone, .refl, rfl⟩

/-! ### Programs that are handled alike

A thread acts by the program of its request, so that requests with one program can stand for each
other in a run. -/

/-- A request whose program has already ended is answered in its first step. -/
theorem exists_finished_of_ret {d : σ} {w : W} {r : R} {a : α} (h : M.handler r = .ret a) :
    ∃ (s : Sys M) (t : Thread M), Reach (Sys.init d w) s ∧ s.threads[0]? = some t ∧ t.request = r ∧
      t.status = .finished a := by
  let t : Thread M := ⟨r, 0, .running (M.handler r) .fresh⟩
  let s : Sys M := ⟨d, w, [], [t]⟩
  have hstart : Reach (Sys.init d w) s := Reach.step .refl (.start r 0)
  have hruns : s.Runs 0 t (.ret a) .fresh := ⟨rfl, by rw [← h]⟩
  exact ⟨_, _, hstart.step (.finish hruns), rfl, rfl, rfl⟩

/-- The thread serves the request `f` of its own. -/
def Thread.rename (f : R → R) (t : Thread M) : Thread M := { t with request := f t.request }

/-- All requests are replaced by `f`. -/
def Sys.rename (f : R → R) (s : Sys M) : Sys M := { s with threads := s.threads.map (.rename f) }

omit [DecidableEq ρ] [DecidableEq V] [DecidableEq κ] [Store σ ρ τ V] in
theorem Sys.others_rename (f : R → R) (s : Sys M) (pid : ℕ) :
    (s.rename f).others pid = s.others pid := by
  simp only [Sys.others, Sys.rename, List.zipIdx_map, List.filter_map, List.filterMap_map]
  rfl

omit [DecidableEq ρ] [DecidableEq V] [DecidableEq κ] [Store σ ρ τ V] in
theorem Sys.Runs.rename {f : R → R} {i : ℕ} {t : Thread M} {p : Prog σ ρ τ κ ω Q A α}
    {l : Local σ ρ τ κ} (h : s.Runs i t p l) : (s.rename f).Runs i (t.rename f) p l :=
  ⟨by simp [Sys.rename, h.1], h.2⟩

omit [DecidableEq ρ] [DecidableEq V] [DecidableEq κ] [Store σ ρ τ V] in
theorem Sys.setStatus_rename (f : R → R) (s : Sys M) (pid : ℕ) (t : Thread M)
    (x : Status σ ρ τ κ ω Q A α) :
    (s.setStatus pid t x).map (.rename f) = (s.rename f).setStatus pid (t.rename f) x := by
  simp only [Sys.setStatus, Sys.rename, List.map_set]
  rfl

/-- A step is a step of the renamed system, when `f` keeps the programs. -/
theorem Step.rename {f : R → R} (hf : ∀ r, M.handler (f r) = M.handler r) (h : Step M b s s') :
    Step M b (s.rename f) (s'.rename f) := by
  cases h with
  | start r wk =>
    have hstart : Step M .start (s.rename f) _ := .start (f r) wk
    rw [hf] at hstart
    simpa [Sys.rename, Thread.rename] using hstart
  | run hr ha =>
    have hrun := Step.run (hr.rename (f := f)) ((Sys.others_rename f s _).symm ▸ ha)
    rw [← Sys.setStatus_rename] at hrun
    exact hrun
  | ask hr ha =>
    have hask := Step.ask (hr.rename (f := f)) ha
    rw [← Sys.setStatus_rename] at hask
    exact hask
  | finish hr =>
    have hfinish := Step.finish (hr.rename (f := f))
    rw [← Sys.setStatus_rename] at hfinish
    exact hfinish
  | crash hr =>
    have hcrash := Step.crash (hr.rename (f := f))
    rw [← Sys.setStatus_rename] at hcrash
    exact hcrash
  | drift h => exact .drift h

theorem Reach.rename {f : R → R} (hf : ∀ r, M.handler (f r) = M.handler r) (h : Reach s s') :
    Reach (s.rename f) (s'.rename f) := by
  induction h with
  | refl => exact .refl
  | tail _ hstep ih =>
    obtain ⟨b, hb, -⟩ := hstep
    exact ih.step (hb.rename hf)

/-- A reply that one request can get is one that every request with the same program can get. -/
theorem exists_finished_of_handler_eq {d : σ} {w : W} {r r' : R} {a : α} {i : ℕ} {t : Thread M}
    (hr : M.handler r' = M.handler r) (h : Reach (Sys.init d w) s) (ht : s.threads[i]? = some t)
    (hreq : t.request = r) (ha : t.status = .finished a) :
    ∃ (s : Sys M) (t : Thread M), Reach (Sys.init d w) s ∧ s.threads[i]? = some t ∧
      t.request = r' ∧ t.status = .finished a := by
  classical
  let f : R → R := fun r₀ => if r₀ = r then r' else r₀
  have hf : ∀ r₀, M.handler (f r₀) = M.handler r₀ := by
    intro r₀
    by_cases h₀ : r₀ = r
    · simp [f, h₀, hr]
    · simp [f, h₀]
  exact ⟨s.rename f, t.rename f, h.rename hf, by simp [Sys.rename, ht],
    by simp [Thread.rename, f, hreq], ha⟩

end Txn
