import SecureVote.Txn.Solo
import SecureVote.Txn.Logged

/-!
# A quiet system serves a request

When no other thread is running, a thread gets to what its program does alone, whatever has happened
before: `exists_reach_served` takes a request from its arrival to its reply. What the rules say of a
program holds of it alone too (`Rules.exec_of_wp`).
-/

namespace Txn

variable {σ ρ τ V κ ω : Type} {Q : Type} {A : Q → Type} {W R α : Type}
  [DecidableEq ρ] [DecidableEq V] [DecidableEq κ] [Store σ ρ τ V]
  {M : Machine σ ρ τ κ ω Q A W R α} {orc : (q : Q) → W → A q × W} {r : R} {wk i : ℕ}
  {p p' : Prog σ ρ τ κ ω Q A α} {l l' : Local σ ρ τ κ} {s : Sys M}

/-- The thread `i` is the only one that runs, and its snapshots are all of the committed state. -/
structure Serving (i : ℕ) (r : R) (wk : ℕ) (p : Prog σ ρ τ κ ω Q A α) (l : Local σ ρ τ κ)
    (s : Sys M) : Prop where
  thread : s.threads[i]? = some ⟨r, wk, .running p l⟩
  quiet : s.others i = []
  snap : ∀ c d, l.snap c = some d → d = s.db

omit [DecidableEq ρ] [DecidableEq V] [DecidableEq κ] [Store σ ρ τ V] in
theorem Serving.runs (h : Serving i r wk p l s) : s.Runs i ⟨r, wk, .running p l⟩ p l :=
  ⟨h.thread, rfl⟩

omit [DecidableEq ρ] [DecidableEq V] [DecidableEq κ] [Store σ ρ τ V] in
theorem Serving.view (h : Serving i r wk p l s) (c : κ) : l.view c s.db = s.db := by
  rcases hc : l.snap c with _ | d
  · simp [Local.view, hc]
  · simp [Local.view, hc, h.snap c d hc]

omit [DecidableEq ρ] [DecidableEq V] [DecidableEq κ] [Store σ ρ τ V] in
/-- The others are what they were when the thread changes its status. -/
theorem others_eq_nil {s' : Sys M} {t : Thread M} {x : Status σ ρ τ κ ω Q A α}
    (h : s.others i = []) (hs : s'.threads = s.setStatus i t x) : s'.others i = [] := by
  refine List.eq_nil_iff_forall_not_mem.mpr fun m hm => ?_
  obtain ⟨j, u, q, hne, hj, hst⟩ := Sys.mem_others.mp hm
  rw [hs, Sys.setStatus, List.getElem?_set_ne hne.symm] at hj
  have hmem : m ∈ s.others i := Sys.mem_others.mpr ⟨j, u, q, hne, hj, hst⟩
  rw [h] at hmem
  cases hmem

omit [DecidableEq ρ] [DecidableEq κ] in
/-- The thread goes on with the program `p'`. -/
theorem Serving.next (h : Serving i r wk p l s) {s' : Sys M}
    (hs : s'.threads = s.setStatus i ⟨r, wk, .running p l⟩ (.running p' l'))
    (hsnap : ∀ c d, l'.snap c = some d → d = s'.db) : Serving i r wk p' l' s' := by
  have hlt : i < s.threads.length := (List.getElem?_eq_some_iff.mp h.thread).1
  refine ⟨?_, others_eq_nil h.quiet hs, hsnap⟩
  rw [hs, Sys.setStatus, List.getElem?_set_self hlt]

omit [DecidableEq ρ] [DecidableEq V] [DecidableEq κ] [Store σ ρ τ V] in
/-- A thread keeps its request. -/
theorem map_request_setStatus {t : Thread M} {x : Status σ ρ τ κ ω Q A α}
    (ht : s.threads[i]? = some t) :
    (s.setStatus i t x).map Thread.request = s.threads.map Thread.request := by
  obtain ⟨hlt, rfl⟩ := List.getElem?_eq_some_iff.mp ht
  rw [Sys.setStatus, List.map_set]
  refine (congrArg ((s.threads.map Thread.request).set i) ?_).trans (List.set_getElem_self ?_)
  · exact (List.getElem_map Thread.request).symm
  · rwa [List.length_map]

/-- From `s` the thread `i` gets to what `p.exec` says. -/
def Served (orc : (q : Q) → W → A q × W) (i : ℕ) (r : R) (wk : ℕ) (p : Prog σ ρ τ κ ω Q A α)
    (s : Sys M) : Prop :=
  ∃ s', Reach s s' ∧ s'.threads[i]? = some ⟨r, wk, .finished (p.exec orc s.db s.world).reply⟩ ∧
    s'.db = (p.exec orc s.db s.world).db ∧
    s'.threads.map Thread.request = s.threads.map Thread.request

/-- A statement of the thread, on the way from the program `p` to `p'`. -/
theorem Serving.served {e : Effect σ ω} (h : Serving i r wk p l s)
    (ha : advance [] s.db p l = some (p', l', e))
    (hreply : (p.exec orc s.db s.world).reply = (p'.exec orc (e.db s.db) s.world).reply)
    (hdb : (p.exec orc s.db s.world).db = (p'.exec orc (e.db s.db) s.world).db)
    (hsnap : ∀ c d, l'.snap c = some d → d = e.db s.db)
    (ih : ∀ {s₁ : Sys M}, Serving i r wk p' l' s₁ → Served orc i r wk p' s₁) :
    Served orc i r wk p s := by
  rw [← h.quiet] at ha
  obtain ⟨s₁, hstep, hserving, hd₁, hw₁, hreq₁⟩ : ∃ s₁, Step M (.run i) s s₁ ∧
      Serving i r wk p' l' s₁ ∧ s₁.db = e.db s.db ∧ s₁.world = s.world ∧
      s₁.threads.map Thread.request = s.threads.map Thread.request :=
    ⟨_, .run h.runs ha, h.next rfl hsnap, rfl, rfl, map_request_setStatus h.thread⟩
  obtain ⟨s', hr, hth, hd, hreq⟩ := ih hserving
  rw [hd₁, hw₁] at hth hd
  exact ⟨s', .trans (Reach.step .refl hstep) hr, by rw [hreply, hth], hd.trans hdb.symm,
    hreq.trans hreq₁⟩

/-- A thread that runs with nobody beside it finishes. -/
theorem served_of_serving (horc : ∀ wk w q, M.answer wk w q (orc q w).1 (orc q w).2)
    (h : Serving i r wk p l s) : Served orc i r wk p s := by
  induction p generalizing l s with
  | ret a =>
    have hlt : i < s.threads.length := (List.getElem?_eq_some_iff.mp h.thread).1
    refine ⟨_, Reach.step .refl (.finish h.runs), ?_, rfl, map_request_setStatus h.thread⟩
    simp [Sys.setStatus, List.getElem?_set_self hlt, Prog.exec]
  | read c q k ih =>
    have ha : advance [] s.db (.read c q k) l = some (k (q s.db), l.look c s.db, .silent) := by
      rw [advance, h.view]
    refine h.served ha rfl rfl (fun c' d hc => ?_) (ih _)
    by_cases he : c' = c
    · rw [he, Local.snap_look_self, h.view] at hc
      exact (Option.some.inj hc).symm
    · exact h.snap c' d ((Function.update_of_ne he _ _).symm.trans hc)
  | peek q k ih => exact h.served rfl rfl rfl h.snap (ih _)
  | lock m rows q k ih =>
    have ha : advance [] s.db (.lock m rows q k) l =
        some (k (q s.db), l.take (found s.db (rows s.db)) m, .silent) := by
      simp [advance, free]
    exact h.served ha rfl rfl h.snap (ih _)
  | lockTable t q k ih =>
    have ha : advance [] s.db (.lockTable t q k) l =
        some (k (q s.db), l.takeTable t (Store.rows s.db t), .silent) := by
      simp [advance, free]
    exact h.served ha rfl rfl h.snap (ih _)
  | rollback k ih => exact h.served rfl rfl rfl (fun _ _ hc => by cases hc) ih
  | commit f k ih =>
    rcases hf : f s.db with _ | ⟨b, d'⟩
    · have ha : advance [] s.db (.commit f k) l = some (k none, l, .silent) := by
        simp [advance, hf]
      exact h.served ha (by simp [Prog.exec, hf, Effect.db]) (by simp [Prog.exec, hf, Effect.db])
        h.snap (ih _)
    · have ha : advance [] s.db (.commit f k) l = some (k (some b), .fresh, .write d') := by
        simp [advance, hf, quiet]
      exact h.served ha (by simp [Prog.exec, hf, Effect.db]) (by simp [Prog.exec, hf, Effect.db])
        (fun _ _ hc => by cases hc) (ih _)
  | ask q k ih =>
    obtain ⟨s₁, hstep, hserving, hd₁, hw₁, hreq₁⟩ : ∃ s₁, Step M (.ask i) s s₁ ∧
        Serving i r wk (k (orc q s.world).1) l s₁ ∧ s₁.db = s.db ∧ s₁.world = (orc q s.world).2 ∧
        s₁.threads.map Thread.request = s.threads.map Thread.request :=
      ⟨_, .ask h.runs (horc wk s.world q), h.next rfl h.snap, rfl, rfl,
        map_request_setStatus h.thread⟩
    obtain ⟨s', hr, hth, hd, hreq⟩ := ih _ hserving
    rw [hd₁, hw₁] at hth hd
    exact ⟨s', .trans (Reach.step .refl hstep) hr, hth, hd, hreq.trans hreq₁⟩
  | emit o k ih => exact h.served rfl rfl rfl h.snap ih

/-- **A quiet system serves a request**, from its arrival to its reply. -/
theorem exists_reach_served (horc : ∀ wk w q, M.answer wk w q (orc q w).1 (orc q w).2)
    (hquiet : ∀ j t p l, ¬s.Runs j t p l) (r : R) (wk : ℕ) :
    ∃ s', Reach s s' ∧ s'.threads[s.threads.length]? =
        some ⟨r, wk, .finished ((M.handler r).exec orc s.db s.world).reply⟩ ∧
      s'.db = ((M.handler r).exec orc s.db s.world).db ∧
      s'.threads.map Thread.request = s.threads.map Thread.request ++ [r] := by
  have hserving : Serving s.threads.length r wk (M.handler r) .fresh
      ({ s with threads := s.threads ++ [⟨r, wk, .running (M.handler r) .fresh⟩] } : Sys M) := by
    refine ⟨by simp, List.eq_nil_iff_forall_not_mem.mpr fun m hm => ?_, fun _ _ hc => by cases hc⟩
    obtain ⟨j, t, p, hne, ht, hst⟩ := Sys.mem_others.mp hm
    rcases Nat.lt_or_ge j s.threads.length with hlt | hge
    · exact hquiet j t p m ⟨(List.getElem?_append_left hlt).symm.trans ht, hst⟩
    · have hlt := (List.getElem?_eq_some_iff.mp ht).1
      simp only [List.length_append, List.length_singleton] at hlt
      omega
  obtain ⟨s', hr, hth, hd, hreq⟩ := served_of_serving horc hserving
  exact ⟨s', .trans (Reach.step .refl (.start r wk)) hr, hth, hd, by simpa using hreq⟩

omit [DecidableEq ρ] [DecidableEq V] [DecidableEq κ] in
/-- A program that commits nothing leaves the committed state as it is. -/
theorem Prog.Reports.exec_db {β : Type} {q : Prog σ ρ τ κ ω Q A β} {φ : ω → Prop}
    (hq : q.Reports φ) {d : σ} {w : W} : (q.exec orc d w).db = d := by
  induction q generalizing w with
  | ret b => rfl
  | read i f k ih => exact ih _ (hq _)
  | peek f k ih => exact ih _ (hq _)
  | lock m rows f k ih => exact ih _ (hq _)
  | lockTable t f k ih => exact ih _ (hq _)
  | rollback k ih => exact ih hq
  | ask f k ih => exact ih _ (hq _)
  | emit o k ih => exact ih hq.2
  | commit f k => exact hq.elim

omit [DecidableEq ρ] [DecidableEq V] in
/-- What is verified of a program holds of it when it runs alone: its snapshots are the committed
state. -/
theorem Rules.exec_of_wp {β : Type} {q : Prog σ ρ τ κ ω Q A β} {L : Rules M} {c : Cfg M}
    {P : β → Cfg M → Prop} (horc : ∀ wk w q, M.answer wk w q (orc q w).1 (orc q w).2)
    (hinv : L.Inv c.db c.world) (hsnap : ∀ i d, c.loc.snap i = some d → d = c.db)
    (h : L.wp r wk q P c) :
    ∃ c', P (q.exec orc c.db c.world).reply c' ∧ c'.db = (q.exec orc c.db c.world).db ∧
      ∀ i d, c'.loc.snap i = some d → d = c'.db := by
  have hlater : ∀ {c : Cfg M}, L.Inv c.db c.world → L.Later c c.db c.world :=
    fun hinv => ⟨L.rely_refl _ _ _, hinv⟩
  induction q generalizing c with
  | ret b => exact ⟨c, h, rfl, hsnap⟩
  | read i f k ih =>
    have hview : c.loc.view i c.db = c.db := by
      rcases hi : c.loc.snap i with _ | d
      · simp [Local.view, hi]
      · simp [Local.view, hi, hsnap i d hi]
    have hk := h _ _ (hlater hinv)
    rw [hview] at hk
    refine ih _ (c := ⟨c.loc.look i c.db, c.db, c.world, c.log⟩) hinv (fun j d hj => ?_) hk
    rcases eq_or_ne j i with rfl | hne
    · rw [Local.snap_look_self, hview] at hj
      exact (Option.some.inj hj).symm
    · exact hsnap j d ((Function.update_of_ne hne _ _).symm.trans hj)
  | peek f k ih => exact ih _ hinv hsnap (h _ _ (hlater hinv))
  | lock m rows f k ih =>
    exact ih _ (c := ⟨c.loc.take _ m, c.db, c.world, c.log⟩) hinv hsnap (h _ _ (hlater hinv))
  | lockTable t f k ih =>
    exact ih _ (c := ⟨c.loc.takeTable t _, c.db, c.world, c.log⟩) hinv hsnap (h _ _ (hlater hinv))
  | commit f k ih =>
    obtain ⟨hnone, hsome⟩ := h _ _ (hlater hinv)
    rw [Prog.exec]
    rcases hf : f c.db with _ | ⟨b, d'⟩
    · exact ih _ hinv hsnap (hnone hf)
    · obtain ⟨hguar, hk⟩ := hsome b d' hf
      exact ih _ (c := ⟨.fresh, d', c.world, _⟩) (L.guar_inv hinv hguar) (fun _ _ hi => by cases hi) hk
  | rollback k ih =>
    exact ih (c := ⟨.fresh, c.db, c.world, c.log⟩) hinv (fun _ _ hi => by cases hi)
      (h _ _ (hlater hinv))
  | ask q k ih =>
    have hanswer := horc wk c.world q
    exact ih _ (c := ⟨c.loc, c.db, (orc q c.world).2, c.log⟩) (L.answer_inv hinv hanswer) hsnap
      (h _ _ (hlater hinv) _ _ hanswer)
  | emit o k ih =>
    exact ih (c := ⟨c.loc, c.db, c.world, c.log ++ [.emit o]⟩) hinv hsnap h.2

end Txn
