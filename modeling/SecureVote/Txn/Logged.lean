import SecureVote.Txn.Transaction
import SecureVote.Txn.Guarded

/-!
# Logs of a run that meets a condition

What the threads of a certified system leave in their logs. `Rules.lwp` is the weakest precondition
of a program in runs whose steps meet a condition `C`: at each plain read the condition is known of
the committed state, and every event the program adds to its log keeps `J`. The guarantee of a
commit need not be shown again: it comes from the certificate of the system.

`Rules.logged_of_reachIf` is the soundness theorem: in a run whose steps meet `C`, the log of every
thread meets `J` at all times, and the log of a finished one meets the postcondition.
-/

namespace Txn

variable {σ ρ τ V κ ω : Type} {Q : Type} {A : Q → Type} {W R α β γ : Type}

/-- A program that commits nothing and reports only events with `φ`. -/
def Prog.Reports (φ : ω → Prop) : Prog σ ρ τ κ ω Q A α → Prop
  | .ret _ => True
  | .read _ _ k | .peek _ k | .lock _ _ _ k | .lockTable _ _ k => ∀ b, (k b).Reports φ
  | .ask _ k => ∀ a, (k a).Reports φ
  | .rollback k => k.Reports φ
  | .emit o k => φ o ∧ k.Reports φ
  | .commit _ _ => False

theorem Prog.reports_bind {φ : ω → Prop} {p : Prog σ ρ τ κ ω Q A α}
    {f : α → Prog σ ρ τ κ ω Q A β} (hp : p.Reports φ) (hf : ∀ a, (f a).Reports φ) :
    (p >>= f).Reports φ := by
  rw [Prog.bind_def]
  induction p with
  | ret a => exact hf a
  | read c q k ih => exact fun b => ih b (hp b)
  | peek q k ih => exact fun b => ih b (hp b)
  | lock m rows q k ih => exact fun b => ih b (hp b)
  | lockTable t q k ih => exact fun b => ih b (hp b)
  | rollback k ih => exact ih hp
  | ask q k ih => exact fun a => ih a (hp a)
  | emit o k ih => exact ⟨hp.1, ih hp.2⟩
  | commit w k => exact hp.elim

/-- A silent program reports nothing. -/
theorem Prog.Silent.reports {φ : ω → Prop} {p : Prog σ ρ τ κ ω Q A α} (hp : p.Silent) :
    p.Reports φ := by
  induction p with
  | ret a => trivial
  | read c q k ih => exact fun b => ih b (hp b)
  | peek q k ih => exact fun b => ih b (hp b)
  | lock m rows q k ih => exact fun b => ih b (hp b)
  | lockTable t q k ih => exact fun b => ih b (hp b)
  | rollback k ih => exact ih hp
  | ask q k ih => exact fun a => ih a (hp a)
  | emit o k => exact hp.elim
  | commit w k => exact hp.elim

variable [DecidableEq κ] [Store σ ρ τ V]
variable {M : Machine σ ρ τ κ ω Q A W R α}

/-- A condition on the steps of a thread: its request, its transaction-local state, its log and the
committed state. -/
abbrev Condition (_ : Machine σ ρ τ κ ω Q A W R α) : Type :=
  R → Local σ ρ τ κ → List (Ev σ ω α) → σ → Prop

/-- The step meets the condition. -/
def Meets (C : Condition M) (s : Sys M) (b : Label) : Prop :=
  ∀ i t p l, b = .run i → s.Runs i t p l → C t.request l (s.log i) s.db

namespace Rules

variable (L : Rules M) (C : Condition M) (J : R → List (Ev σ ω α) → Prop)

/-- The weakest precondition of a program of request `r`, under the condition `C` and with a log
that meets `J`. -/
def lwp (r : R) (wk : ℕ) : Prog σ ρ τ κ ω Q A β → (β → Cfg M → Prop) → Cfg M → Prop
  | .ret b, P, c => P b c
  | .read i q k, P, c => ∀ d w, L.Later c d w → C r c.loc c.log d →
      lwp r wk (k (q (c.loc.view i d))) P ⟨c.loc.look i d, d, w, c.log⟩
  | .peek q k, P, c => ∀ d w, L.Later c d w → lwp r wk (k (q d)) P ⟨c.loc, d, w, c.log⟩
  | .lock m rows q k, P, c => ∀ d w, L.Later c d w →
      lwp r wk (k (q d)) P ⟨c.loc.take (found d (rows d)) m, d, w, c.log⟩
  | .lockTable t q k, P, c => ∀ d w, L.Later c d w →
      lwp r wk (k (q d)) P ⟨c.loc.takeTable t (Store.rows d t), d, w, c.log⟩
  | .commit f k, P, c => ∀ d w, L.Later c d w →
      (f d = none → lwp r wk (k none) P ⟨c.loc, d, w, c.log⟩) ∧
      ∀ b d', f d = some (b, d') → L.Guar r c.loc d w d' →
        J r (c.log ++ [.write d d']) ∧
          lwp r wk (k (some b)) P ⟨.fresh, d', w, c.log ++ [.write d d']⟩
  | .rollback k, P, c => ∀ d w, L.Later c d w → lwp r wk k P ⟨.fresh, d, w, c.log⟩
  | .ask q k, P, c => ∀ d w, L.Later c d w → ∀ a w', M.answer wk w q a w' →
      lwp r wk (k a) P ⟨c.loc, d, w', c.log⟩
  | .emit o k, P, c =>
      J r (c.log ++ [.emit o]) ∧ lwp r wk k P ⟨c.loc, c.db, c.world, c.log ++ [.emit o]⟩

variable {L C J} {r : R} {wk : ℕ} {c : Cfg M}

theorem lwp_mono {p : Prog σ ρ τ κ ω Q A β} {P P' : β → Cfg M → Prop} (h : L.lwp C J r wk p P c)
    (hP : ∀ b c, P b c → P' b c) : L.lwp C J r wk p P' c := by
  induction p generalizing c with
  | ret b => exact hP _ _ h
  | read i q k ih => exact fun d w hl hC => ih _ (h d w hl hC)
  | peek q k ih => exact fun d w hl => ih _ (h d w hl)
  | lock m rows q k ih => exact fun d w hl => ih _ (h d w hl)
  | lockTable t q k ih => exact fun d w hl => ih _ (h d w hl)
  | commit f k ih =>
    refine fun d w hl => ⟨fun hf => ih _ ((h d w hl).1 hf), fun b d' hf hg => ?_⟩
    obtain ⟨hj, hk⟩ := (h d w hl).2 b d' hf hg
    exact ⟨hj, ih _ hk⟩
  | rollback k ih => exact fun d w hl => ih (h d w hl)
  | ask q k ih => exact fun d w hl a w' ha => ih _ (h d w hl a w' ha)
  | emit o k ih => exact ⟨h.1, ih h.2⟩

/-- Weakest preconditions compose along sequencing. -/
theorem lwp_bind {p : Prog σ ρ τ κ ω Q A β} {f : β → Prog σ ρ τ κ ω Q A γ}
    {P : γ → Cfg M → Prop} :
    L.lwp C J r wk (p >>= f) P c ↔
      L.lwp C J r wk p (fun b c => L.lwp C J r wk (f b) P c) c := by
  rw [Prog.bind_def]
  induction p generalizing c with
  | ret b => rfl
  | read i q k ih => exact forall₃_congr fun d w _ => forall_congr' fun _ => ih _
  | peek q k ih => exact forall₃_congr fun d w _ => ih _
  | lock m rows q k ih => exact forall₃_congr fun d w _ => ih _
  | lockTable t q k ih => exact forall₃_congr fun d w _ => ih _
  | commit g k ih =>
    refine forall₃_congr fun d w _ => and_congr (imp_congr_right fun _ => ih _) ?_
    exact forall₃_congr fun b d' _ => forall_congr' fun _ => and_congr_right fun _ => ih _
  | rollback k ih => exact forall₃_congr fun d w _ => ih
  | ask q k ih =>
    exact forall₃_congr fun d w _ => forall₃_congr fun a w' _ => ih _
  | emit o k ih => exact and_congr_right fun _ => ih

theorem lwp_select {i : κ} {q : σ → β} {P : β → Cfg M → Prop} :
    L.lwp C J r wk (Prog.select i q) P c ↔ ∀ d w, L.Later c d w → C r c.loc c.log d →
      P (q (c.loc.view i d)) ⟨c.loc.look i d, d, w, c.log⟩ :=
  Iff.rfl

theorem lwp_write {f : σ → Option (β × σ)} {P : Option β → Cfg M → Prop} :
    L.lwp C J r wk (Prog.write f) P c ↔ ∀ d w, L.Later c d w →
      (f d = none → P none ⟨c.loc, d, w, c.log⟩) ∧
      ∀ b d', f d = some (b, d') → L.Guar r c.loc d w d' →
        J r (c.log ++ [.write d d']) ∧ P (some b) ⟨.fresh, d', w, c.log ++ [.write d d']⟩ :=
  Iff.rfl

theorem lwp_call {q : Q} {P : A q → Cfg M → Prop} :
    L.lwp C J r wk (Prog.call q) P c ↔ ∀ d w, L.Later c d w → ∀ a w', M.answer wk w q a w' →
      P a ⟨c.loc, d, w', c.log⟩ :=
  Iff.rfl

/-- A program whose logs need nothing. -/
theorem lwp_of_forall {p : Prog σ ρ τ κ ω Q A β} {P : β → Cfg M → Prop} (hJ : ∀ log, J r log)
    (hP : ∀ b c, P b c) : L.lwp C J r wk p P c := by
  induction p generalizing c with
  | ret b => exact hP b c
  | read i q k ih => exact fun d w _ _ => ih _
  | peek q k ih => exact fun d w _ => ih _
  | lock m rows q k ih => exact fun d w _ => ih _
  | lockTable t q k ih => exact fun d w _ => ih _
  | commit f k ih => exact fun d w _ => ⟨fun _ => ih _, fun b d' _ _ => ⟨hJ _, ih _⟩⟩
  | rollback k ih => exact fun d w _ => ih
  | ask q k ih => exact fun d w _ a w' _ => ih _
  | emit o k ih => exact ⟨hJ _, ih⟩

/-! ### Programs without commits -/

/-- `c'` comes after `c` without a commit of the thread, and its log has grown by events with
`φ`. -/
structure After (L : Rules M) (φ : ω → Prop) (c c' : Cfg M) : Prop where
  rely : L.Rely .fresh c.db c.world c'.db c'.world
  log : ∃ os : List ω, c'.log = c.log ++ os.map Ev.emit ∧ ∀ o ∈ os, φ o

variable {φ : ω → Prop}

omit [DecidableEq κ] in
theorem After.refl (c : Cfg M) : L.After φ c c :=
  ⟨L.rely_refl _ _ _, [], by simp, by simp⟩

omit [DecidableEq κ] in
theorem After.trans {c₁ c₂ : Cfg M} (h : L.After φ c c₁) (h' : L.After φ c₁ c₂) :
    L.After φ c c₂ := by
  obtain ⟨os, hlog, hos⟩ := h.log
  obtain ⟨os', hlog', hos'⟩ := h'.log
  refine ⟨L.rely_trans _ h.rely h'.rely, os ++ os', by simp [hlog', hlog], fun o ho => ?_⟩
  rcases List.mem_append.mp ho with ho | ho
  · exact hos o ho
  · exact hos' o ho

omit [DecidableEq κ] in
/-- A statement that leaves the log alone. -/
theorem After.of_later {d : σ} {w : W} {l : Local σ ρ τ κ} (h : L.Later c d w) :
    L.After φ c ⟨l, d, w, c.log⟩ :=
  ⟨L.rely_mono (by simp) (by simp) h.1, [], by simp, by simp⟩

/-- What is verified of a program that commits nothing holds of its logs too, and its log grows by
events with `φ` only. -/
theorem lwp_of_wp {p : Prog σ ρ τ κ ω Q A β} {P : β → Cfg M → Prop} (hp : p.Reports φ)
    (hJ : ∀ log o, J r log → φ o → J r (log ++ [.emit o])) (hc : J r c.log)
    (h : L.wp r wk p P c) :
    L.lwp C J r wk p (fun b c' => P b c' ∧ L.After φ c c' ∧ J r c'.log) c := by
  suffices ∀ c₀ : Cfg M, L.After φ c₀ c →
      L.lwp C J r wk p (fun b c' => P b c' ∧ L.After φ c₀ c' ∧ J r c'.log) c from
    this c (.refl c)
  intro c₀ hafter
  induction p generalizing c with
  | ret b => exact ⟨h, hafter, hc⟩
  | read i q k ih =>
    exact fun d w hl _ => ih _ (hp _) hc (h d w hl) (hafter.trans (.of_later hl))
  | peek q k ih => exact fun d w hl => ih _ (hp _) hc (h d w hl) (hafter.trans (.of_later hl))
  | lock m rows q k ih =>
    exact fun d w hl => ih _ (hp _) hc (h d w hl) (hafter.trans (.of_later hl))
  | lockTable t q k ih =>
    exact fun d w hl => ih _ (hp _) hc (h d w hl) (hafter.trans (.of_later hl))
  | commit f k => exact hp.elim
  | rollback k ih => exact fun d w hl => ih hp hc (h d w hl) (hafter.trans (.of_later hl))
  | ask q k ih =>
    intro d w hl a w' ha
    have hrely : L.Rely .fresh d w d w' := L.answer_rely _ hl.2 ha
    exact ih _ (hp _) hc (h d w hl a w' ha)
      ((hafter.trans (.of_later (l := c.loc) hl)).trans ⟨hrely, [], by simp, by simp⟩)
  | emit o k ih =>
    refine ⟨hJ _ _ hc hp.1, ih hp.2 (hJ _ _ hc hp.1) h.2 (hafter.trans ?_)⟩
    exact ⟨L.rely_refl _ _ _, [o], by simp, by simpa using hp.1⟩

/-- What is verified of the answers needs no guarantee: that of the commits is verified already. -/
theorem wp_and_of_lwp {p : Prog σ ρ τ κ ω Q A β} {P P' : β → Cfg M → Prop}
    (h : L.wp r wk p P c) (h' : L.lwp (fun _ _ _ _ => True) (fun _ _ => True) r wk p P' c) :
    L.wp r wk p (fun b c' => P b c' ∧ P' b c') c := by
  induction p generalizing c with
  | ret b => exact ⟨h, h'⟩
  | read i q k ih => exact fun d w hl => ih _ (h d w hl) (h' d w hl trivial)
  | peek q k ih => exact fun d w hl => ih _ (h d w hl) (h' d w hl)
  | lock m rows q k ih => exact fun d w hl => ih _ (h d w hl) (h' d w hl)
  | lockTable t q k ih => exact fun d w hl => ih _ (h d w hl) (h' d w hl)
  | commit f k ih =>
    refine fun d w hl => ⟨fun hf => ih _ ((h d w hl).1 hf) ((h' d w hl).1 hf), fun b d' hf => ?_⟩
    obtain ⟨hguar, hk⟩ := (h d w hl).2 b d' hf
    exact ⟨hguar, ih _ hk ((h' d w hl).2 b d' hf hguar).2⟩
  | rollback k ih => exact fun d w hl => ih (h d w hl) (h' d w hl)
  | ask q k ih => exact fun d w hl a w' ha => ih _ (h d w hl a w' ha) (h' d w hl a w' ha)
  | emit o k ih => exact ⟨h.1, ih h.2 h'.2⟩

/-- Sequencing after a silent program, when the logs need nothing. -/
theorem lwp_bind_silent {p : Prog σ ρ τ κ ω Q A β} {f : β → Prog σ ρ τ κ ω Q A γ}
    {S : β → Cfg M → Prop} {P : γ → Cfg M → Prop} (hs : p.Silent) (hJ : ∀ log, J r log)
    (hp : L.wp r wk p S c) (hf : ∀ b c', S b c' → L.lwp C J r wk (f b) P c') :
    L.lwp C J r wk (p >>= f) P c :=
  lwp_bind.mpr (lwp_mono (lwp_of_wp (φ := fun _ => False) hs.reports (fun _ _ _ _ => hJ _) (hJ _) hp)
    fun b c' h => hf b c' h.1)

/-- The logs of a program that commits nothing need only be kept by its events. -/
theorem lwp_of_reports {p : Prog σ ρ τ κ ω Q A β} (hp : p.Reports φ)
    (hJ : ∀ log o, J r log → φ o → J r (log ++ [.emit o])) (hc : J r c.log) :
    L.lwp C J r wk p (fun _ c' => L.After φ c c' ∧ J r c'.log) c := by
  suffices ∀ c₀ : Cfg M, L.After φ c₀ c →
      L.lwp C J r wk p (fun _ c' => L.After φ c₀ c' ∧ J r c'.log) c from this c (.refl c)
  intro c₀ hafter
  induction p generalizing c with
  | ret b => exact ⟨hafter, hc⟩
  | read i q k ih => exact fun d w hl _ => ih _ (hp _) hc (hafter.trans (.of_later hl))
  | peek q k ih => exact fun d w hl => ih _ (hp _) hc (hafter.trans (.of_later hl))
  | lock m rows q k ih => exact fun d w hl => ih _ (hp _) hc (hafter.trans (.of_later hl))
  | lockTable t q k ih => exact fun d w hl => ih _ (hp _) hc (hafter.trans (.of_later hl))
  | commit f k => exact hp.elim
  | rollback k ih => exact fun d w hl => ih hp hc (hafter.trans (.of_later hl))
  | ask q k ih =>
    intro d w hl a w' ha
    have hrely : L.Rely .fresh d w d w' := L.answer_rely _ hl.2 ha
    exact ih _ (hp _) hc
      ((hafter.trans (.of_later (l := c.loc) hl)).trans ⟨hrely, [], by simp, by simp⟩)
  | emit o k ih =>
    refine ⟨hJ _ _ hc hp.1, ih hp.2 (hJ _ _ hc hp.1) (hafter.trans ?_)⟩
    exact ⟨L.rely_refl _ _ _, [o], by simp, by simpa using hp.1⟩

theorem wp_of_silent {p : Prog σ ρ τ κ ω Q A β} (hp : p.Silent) :
    L.wp r wk p (fun _ _ => True) c := by
  induction p generalizing c with
  | ret b => trivial
  | read i q k ih => exact fun d w _ => ih _ (hp _)
  | peek q k ih => exact fun d w _ => ih _ (hp _)
  | lock m rows q k ih => exact fun d w _ => ih _ (hp _)
  | lockTable t q k ih => exact fun d w _ => ih _ (hp _)
  | rollback k ih => exact fun d w _ => ih hp
  | ask q k ih => exact fun d w _ a w' _ => ih _ (hp _)
  | commit f k => exact hp.elim
  | emit o k => exact hp.elim

/-! ### Soundness -/

variable {s s' : Sys M}

variable (L C J) in
/-- What soundness maintains of a reachable state. -/
structure Logged (P : R → α → List (Ev σ ω α) → Prop) (s : Sys M) : Prop where
  running : ∀ {i t p l}, s.Runs i t p l → ∃ d w, L.Rely l d w s.db s.world ∧
    L.lwp C J t.request t.worker p (fun a c => P t.request a c.log) ⟨l, d, w, s.log i⟩
  finished : ∀ {i} {t : Thread M} {a}, s.threads[i]? = some t → t.status = .finished a →
    ∃ log, s.log i = log ++ [.reply a] ∧ P t.request a log
  logs : ∀ {i} {t : Thread M}, s.threads[i]? = some t → J t.request (s.log i)

variable {P P₀ : R → α → List (Ev σ ω α) → Prop} {pid : ℕ} {t : Thread M}
  {p : Prog σ ρ τ κ ω Q A α} {l : Local σ ρ τ κ}

/-- One thread changes its status and extends its log; the others keep what they rely on. -/
theorem Logged.update (hs : L.Logged C J P s) (hr : s.Runs pid t p l)
    {x : Status σ ρ τ κ ω Q A α} (evs : List (Ev σ ω α))
    (hth : s'.threads = s.setStatus pid t x)
    (htr : s'.trace = s.trace ++ evs.map (Prod.mk pid))
    (hrely : ∀ m ∈ s.others pid, L.Rely m s.db s.world s'.db s'.world)
    (hrun : ∀ q m, x = .running q m → ∃ d w, L.Rely m d w s'.db s'.world ∧
      L.lwp C J t.request t.worker q (fun a c => P t.request a c.log) ⟨m, d, w, s.log pid ++ evs⟩)
    (hfin : ∀ a, x = .finished a →
      ∃ log, s.log pid ++ evs = log ++ [.reply a] ∧ P t.request a log)
    (hlog : J t.request (s.log pid ++ evs)) : L.Logged C J P s' := by
  have hlt : pid < s.threads.length := (List.getElem?_eq_some_iff.mp hr.1).1
  -- a thread of the new state is the one that moved, or as it was
  have hcases : ∀ {i : ℕ} {u : Thread M}, s'.threads[i]? = some u →
      (i = pid ∧ u = { t with status := x }) ∨ (i ≠ pid ∧ s.threads[i]? = some u) := by
    intro i u hu
    rw [hth, Sys.setStatus] at hu
    rcases eq_or_ne pid i with rfl | hne
    · rw [List.getElem?_set_self hlt] at hu
      exact Or.inl ⟨rfl, (Option.some.inj hu).symm⟩
    · rw [List.getElem?_set_ne hne] at hu
      exact Or.inr ⟨hne.symm, hu⟩
  refine ⟨?_, ?_, ?_⟩
  · rintro i u q m ⟨hi, hst⟩
    rw [log_append htr]
    rcases hcases hi with ⟨rfl, rfl⟩ | ⟨hne, hi⟩
    · rw [if_pos rfl]
      exact hrun q m hst
    · rw [if_neg hne]
      obtain ⟨d, w, hl, hwp⟩ := hs.running ⟨hi, hst⟩
      have hmem : m ∈ s.others pid := Sys.mem_others.mpr ⟨i, u, q, hne, hi, hst⟩
      exact ⟨d, w, L.rely_trans _ hl (hrely m hmem), hwp⟩
  · intro i u a hi hst
    rw [log_append htr]
    rcases hcases hi with ⟨rfl, rfl⟩ | ⟨hne, hi⟩
    · rw [if_pos rfl]
      exact hfin a hst
    · rw [if_neg hne]
      exact hs.finished hi hst
  · intro i u hi
    rw [log_append htr]
    rcases hcases hi with ⟨rfl, rfl⟩ | ⟨hne, hi⟩
    · rw [if_pos rfl]
      exact hlog
    · rw [if_neg hne]
      exact hs.logs hi

variable [DecidableEq ρ] [DecidableEq V]

/-- A statement of one thread, of a certified system, preserves what soundness maintains. -/
theorem Logged.advance (hcert : L.Certified P₀ s) (hs : L.Logged C J P s) (hr : s.Runs pid t p l)
    (hC : C t.request l (s.log pid) s.db) {q : Prog σ ρ τ κ ω Q A α} {m : Local σ ρ τ κ}
    {e : Effect σ ω} (ha : Txn.advance (s.others pid) s.db p l = some (q, m, e)) :
    L.Logged C J P
      { db := e.db s.db
        world := s.world
        trace := s.trace ++ (e.events s.db).map (Prod.mk pid)
        threads := s.setStatus pid t (.running q m) } := by
  obtain ⟨d, w, hl, hwp⟩ := hs.running hr
  have hnow : L.Later (M := M) ⟨l, d, w, s.log pid⟩ s.db s.world := ⟨hl, hcert.inv⟩
  have hsame : ∀ n ∈ s.others pid, L.Rely n s.db s.world s.db s.world :=
    fun n _ => L.rely_refl _ _ _
  -- a statement that leaves the trace alone goes on from the present state
  have hsilent : ∀ (q' : Prog σ ρ τ κ ω Q A α) (m' : Local σ ρ τ κ),
      L.lwp C J t.request t.worker q' (fun a c => P t.request a c.log)
        ⟨m', s.db, s.world, s.log pid⟩ →
      L.Logged C J P { s with threads := s.setStatus pid t (.running q' m') } := by
    intro q' m' hk
    refine hs.update hr [] rfl (by simp) hsame ?_ (by simp) (by simpa using hs.logs hr.1)
    rintro q'' m'' hx
    cases hx
    exact ⟨s.db, s.world, L.rely_refl _ _ _, by simpa using hk⟩
  cases p with
  | ret a => simp [Txn.advance] at ha
  | ask q k => simp [Txn.advance] at ha
  | read i f k =>
    simp only [Txn.advance, Option.some.injEq, Prod.mk.injEq] at ha
    obtain ⟨rfl, rfl, rfl⟩ := ha
    simpa [Effect.db, Effect.events] using hsilent _ _ (hwp _ _ hnow hC)
  | peek f k =>
    simp only [Txn.advance, Option.some.injEq, Prod.mk.injEq] at ha
    obtain ⟨rfl, rfl, rfl⟩ := ha
    simpa [Effect.db, Effect.events] using hsilent _ _ (hwp _ _ hnow)
  | lock b rows f k =>
    simp only [Txn.advance] at ha
    split at ha
    · simp only [Option.some.injEq, Prod.mk.injEq] at ha
      obtain ⟨rfl, rfl, rfl⟩ := ha
      simpa [Effect.db, Effect.events] using hsilent _ _ (hwp _ _ hnow)
    · cases ha
  | lockTable u f k =>
    simp only [Txn.advance] at ha
    split at ha
    · simp only [Option.some.injEq, Prod.mk.injEq] at ha
      obtain ⟨rfl, rfl, rfl⟩ := ha
      simpa [Effect.db, Effect.events] using hsilent _ _ (hwp _ _ hnow)
    · cases ha
  | rollback k =>
    simp only [Txn.advance, Option.some.injEq, Prod.mk.injEq] at ha
    obtain ⟨rfl, rfl, rfl⟩ := ha
    simpa [Effect.db, Effect.events] using hsilent _ _ (hwp _ _ hnow)
  | emit o k =>
    simp only [Txn.advance, Option.some.injEq, Prod.mk.injEq] at ha
    obtain ⟨rfl, rfl, rfl⟩ := ha
    obtain ⟨hj, hk⟩ := hwp
    refine hs.update hr [.emit o] rfl (by simp [Effect.events]) hsame ?_ (by simp) hj
    rintro q' m' hx
    cases hx
    exact ⟨d, w, hl, hk⟩
  | commit f k =>
    simp only [Txn.advance] at ha
    split at ha
    next hf =>
      simp only [Option.some.injEq, Prod.mk.injEq] at ha
      obtain ⟨rfl, rfl, rfl⟩ := ha
      simpa [Effect.db, Effect.events] using hsilent _ _ ((hwp _ _ hnow).1 hf)
    next b d' hf =>
      split at ha
      next hquiet =>
        simp only [Option.some.injEq, Prod.mk.injEq] at ha
        obtain ⟨rfl, rfl, rfl⟩ := ha
        -- the guarantee of the commit is in the certificate
        obtain ⟨d₀, w₀, hl₀, hwp₀⟩ := hcert.running hr
        have hguar := ((hwp₀ _ _ ⟨hl₀, hcert.inv⟩).2 b d' hf).1
        obtain ⟨hj, hk⟩ := (hwp _ _ hnow).2 b d' hf hguar
        refine hs.update hr [.write s.db d'] rfl (by simp [Effect.events]) (fun n hn => ?_) ?_
          (by simp) hj
        · exact L.guar_rely (hcert.compat_others hr n hn) hcert.inv hguar
            (quiet_eq_true.mp hquiet n hn)
        · rintro q' m' hx
          cases hx
          exact ⟨d', s.world, L.rely_refl _ _ _, hk⟩
      · cases ha

omit [DecidableEq ρ] [DecidableEq V] in
/-- The log of a thread after the commit that it is about to make. -/
theorem Logged.of_commit? (hcert : L.Certified P₀ s) (hs : L.Logged C J P s)
    (hr : s.Runs pid t p l) {d' : σ} (hd : p.commit? s.db = some d') :
    J t.request (s.log pid ++ [.write s.db d']) := by
  cases p with
  | commit f k =>
    obtain ⟨⟨b, d''⟩, hf, rfl⟩ := Option.map_eq_some_iff.mp hd
    obtain ⟨d, w, hl, hwp⟩ := hs.running hr
    obtain ⟨d₀, w₀, hl₀, hwp₀⟩ := hcert.running hr
    have hguar := ((hwp₀ _ _ ⟨hl₀, hcert.inv⟩).2 b d'' hf).1
    exact ((hwp s.db s.world ⟨hl, hcert.inv⟩).2 b d'' hf hguar).1
  | _ => cases hd

/-- A step of a certified system that meets the condition preserves what soundness maintains. -/
theorem Logged.step (hcert : L.Certified P₀ s) (hs : L.Logged C J P s) {b : Label}
    (h : Step M b s s') (hC : Meets C s b) (hreply : ∀ r log a, J r log → J r (log ++ [.reply a]))
    (hv : ∀ r wk d w, L.Inv d w → J r [] ∧
      L.lwp C J r wk (M.handler r) (fun a c => P r a c.log) ⟨.fresh, d, w, []⟩) :
    L.Logged C J P s' := by
  cases h with
  | start r wk =>
    have hlog : s.log s.threads.length = [] := by
      refine List.filterMap_eq_nil_iff.mpr fun e he => if_neg fun heq => ?_
      exact absurd (hcert.bound e he) (by omega)
    have hnew : ∀ {i} {u : Thread M},
        (s.threads ++ [(⟨r, wk, .running (M.handler r) .fresh⟩ : Thread M)])[i]? = some u →
        s.threads[i]? = some u ∨
          (i = s.threads.length ∧ u = ⟨r, wk, .running (M.handler r) .fresh⟩) := by
      intro i u hu
      rcases Nat.lt_or_ge i s.threads.length with hlt | hge
      · rw [List.getElem?_append_left hlt] at hu
        exact Or.inl hu
      · rw [List.getElem?_append_right hge, List.getElem?_singleton] at hu
        split at hu
        · cases hu
          exact Or.inr ⟨by omega, rfl⟩
        · cases hu
    obtain ⟨hnil, hwp⟩ := hv r wk s.db s.world hcert.inv
    refine ⟨?_, ?_, ?_⟩
    · rintro i u q m ⟨hi, hst⟩
      rcases hnew hi with hi | ⟨rfl, rfl⟩
      · exact hs.running ⟨hi, hst⟩
      · cases hst
        rw [← hlog] at hwp
        exact ⟨s.db, s.world, L.rely_refl _ _ _, hwp⟩
    · intro i u a hi hst
      rcases hnew hi with hi | ⟨rfl, rfl⟩
      · exact hs.finished hi hst
      · cases hst
    · intro i u hi
      rcases hnew hi with hi | ⟨rfl, rfl⟩
      · exact hs.logs hi
      · show J r (s.log s.threads.length)
        rw [hlog]
        exact hnil
  | run hr ha => exact Logged.advance hcert hs hr (hC _ _ _ _ rfl hr) ha
  | ask hr ha =>
    obtain ⟨d, w, hl, hwp⟩ := hs.running hr
    refine hs.update hr [] rfl (by simp) (fun n _ => L.answer_rely n hcert.inv ha) ?_ (by simp)
      (by simpa using hs.logs hr.1)
    rintro q' m' hx
    cases hx
    exact ⟨s.db, _, L.rely_refl _ _ _, by simpa using hwp _ _ ⟨hl, hcert.inv⟩ _ _ ha⟩
  | @finish _ pid _ a _ hr =>
    obtain ⟨d, w, -, hwp⟩ := hs.running hr
    exact hs.update hr [.reply a] rfl (by simp) (fun _ _ => L.rely_refl _ _ _) (by simp)
      (fun b hb => by cases hb; exact ⟨_, rfl, hwp⟩) (hreply _ _ _ (hs.logs hr.1))
  | crash hr =>
    exact hs.update hr [] rfl (by simp) (fun _ _ => L.rely_refl _ _ _) (by simp) (by simp)
      (by simpa using hs.logs hr.1)
  | drift h =>
    refine ⟨fun hr => ?_, hs.finished, hs.logs⟩
    obtain ⟨d, w, hl, hwp⟩ := hs.running hr
    exact ⟨d, w, L.rely_trans _ hl (L.drift_rely _ hcert.inv h), hwp⟩

/-- **Soundness**: in a run of verified handlers whose steps meet the condition, the logs meet `J`
and those of finished threads the postcondition. -/
theorem logged_of_reachIf (hverified : L.Verified P₀)
    (hreply : ∀ r log a, J r log → J r (log ++ [.reply a]))
    (hv : ∀ r wk d w, L.Inv d w → J r [] ∧
      L.lwp C J r wk (M.handler r) (fun a c => P r a c.log) ⟨.fresh, d, w, []⟩)
    {d : σ} {w : W} (hi : L.Inv d w) (h : ReachIf (Meets C) (Sys.init d w) s) :
    L.Logged C J P s := by
  induction h with
  | refl => refine ⟨?_, ?_, ?_⟩ <;> simp [Sys.init, Sys.Runs]
  | tail hreach hstep ih =>
    obtain ⟨b, hb, hC⟩ := hstep
    exact ih.step (certified_of_reach hverified hi (ReachIf.reach hreach)) hb hC hreply hv

end Rules

end Txn
