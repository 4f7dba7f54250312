import SecureVote.Txn.System

/-!
# Rely–guarantee reasoning for transaction programs

A `Rules` says what a thread may rely on while it holds certain locks, and what each commit
guarantees in return. `wp` is the weakest precondition of a program under these rules: before
every statement the committed state may have moved along the rely relation, and every commit
must satisfy the guarantee.

`Rules.certified_of_reach` is the soundness theorem: if every handler satisfies its weakest
precondition, then in every reachable state of the interleaved system the invariant holds,
the locks of distinct threads are compatible, no two threads have both scanned a nonempty
table under lock, and every committed write satisfies the guarantee.
-/

namespace Txn

variable {σ ρ τ V κ ω : Type} {Q : Type} {A : Q → Type} {W R α β γ : Type}

/-- The locks of two threads exclude each other nowhere, and they have not both scanned one
table. -/
def Local.Compat (l m : Local σ ρ τ κ) : Prop :=
  (∀ r a b, (r, a) ∈ l.held → (r, b) ∈ m.held → a.conflicts b = false) ∧
    ∀ t ∈ l.scanned, t ∉ m.scanned

theorem Local.Compat.symm {l m : Local σ ρ τ κ} (h : l.Compat m) : m.Compat l :=
  ⟨fun r a b ha hb => by rw [Mode.conflicts_comm]; exact h.1 r b a hb ha,
    fun t ht ht' => h.2 t ht' ht⟩

theorem Local.compat_fresh (m : Local σ ρ τ κ) : (Local.fresh : Local σ ρ τ κ).Compat m :=
  ⟨fun _ _ _ h => absurd h (by simp), fun _ h => absurd h (by simp)⟩

/-- An exclusive lock of one thread and a lock of another on the same row are impossible. -/
theorem Local.Compat.not_mem {l m : Local σ ρ τ κ} (h : l.Compat m) {r : ρ} {b : Mode}
    (hl : (r, .exclusive) ∈ l.held) : (r, b) ∉ m.held := fun hm => by
  simpa using h.1 r _ _ hl hm

variable [DecidableEq κ] [Store σ ρ τ V]

/-- Rely–guarantee rules for a machine. -/
structure Rules (M : Machine σ ρ τ κ ω Q A W R α) where
  /-- Holds of the committed state and the world at all times. -/
  Inv : σ → W → Prop
  /-- How others may move the committed state and the world past a thread's locks. -/
  Rely : Local σ ρ τ κ → σ → W → σ → W → Prop
  /-- What a commit of a request guarantees. -/
  Guar : R → Local σ ρ τ κ → σ → W → σ → Prop
  /-- The events a request may emit, given its transaction-local state and its log. -/
  Emit : R → Local σ ρ τ κ → List (Ev σ ω α) → ω → Prop
  rely_refl : ∀ l d w, Rely l d w d w
  rely_trans : ∀ l {d w d' w' d'' w''}, Rely l d w d' w' → Rely l d' w' d'' w'' →
    Rely l d w d'' w''
  rely_mono : ∀ {l m d w d' w'}, l.held ⊆ m.held → l.scanned ⊆ m.scanned →
    Rely m d w d' w' → Rely l d w d' w'
  guar_inv : ∀ {r l d w d'}, Inv d w → Guar r l d w d' → Inv d' w
  guar_rely : ∀ {r l m d w d'}, l.Compat m → Inv d w → Guar r l d w d' →
    (∀ h ∈ m.held, Store.val d' h.1 = Store.val d h.1) → Rely m d w d' w
  answer_inv : ∀ {wk d w q a w'}, Inv d w → M.answer wk w q a w' → Inv d w'
  answer_rely : ∀ {wk d w q a w'} m, Inv d w → M.answer wk w q a w' → Rely m d w d w'
  drift_inv : ∀ {d w w'}, Inv d w → M.drift w w' → Inv d w'
  drift_rely : ∀ {d w w'} m, Inv d w → M.drift w w' → Rely m d w d w'

/-- What a thread knows between two statements: its transaction-local state, a committed state
and world from which the present ones were reached under its rely relation, and its log. -/
structure Cfg (M : Machine σ ρ τ κ ω Q A W R α) where
  loc : Local σ ρ τ κ
  db : σ
  world : W
  log : List (Ev σ ω α)

namespace Rules

variable {M : Machine σ ρ τ κ ω Q A W R α} (L : Rules M)

/-- A committed state and world that the others may have reached since `c`. -/
def Later (c : Cfg M) (d : σ) (w : W) : Prop :=
  L.Rely c.loc c.db c.world d w ∧ L.Inv d w

/-- The weakest precondition of a program run for request `r` in worker `wk`. -/
def wp (r : R) (wk : ℕ) : Prog σ ρ τ κ ω Q A β → (β → Cfg M → Prop) → Cfg M → Prop
  | .ret b, P, c => P b c
  | .read i q k, P, c => ∀ d w, L.Later c d w →
      wp r wk (k (q (c.loc.view i d))) P ⟨c.loc.look i d, d, w, c.log⟩
  | .peek q k, P, c => ∀ d w, L.Later c d w → wp r wk (k (q d)) P ⟨c.loc, d, w, c.log⟩
  | .lock m rows q k, P, c => ∀ d w, L.Later c d w →
      wp r wk (k (q d)) P ⟨c.loc.take (found d (rows d)) m, d, w, c.log⟩
  | .lockTable t q k, P, c => ∀ d w, L.Later c d w →
      wp r wk (k (q d)) P ⟨c.loc.takeTable t (Store.rows d t), d, w, c.log⟩
  | .commit f k, P, c => ∀ d w, L.Later c d w →
      (f d = none → wp r wk (k none) P ⟨c.loc, d, w, c.log⟩) ∧
      ∀ b d', f d = some (b, d') →
        L.Guar r c.loc d w d' ∧
          wp r wk (k (some b)) P ⟨.fresh, d', w, c.log ++ [.write d d']⟩
  | .rollback k, P, c => ∀ d w, L.Later c d w → wp r wk k P ⟨.fresh, d, w, c.log⟩
  | .ask q k, P, c => ∀ d w, L.Later c d w → ∀ a w', M.answer wk w q a w' →
      wp r wk (k a) P ⟨c.loc, d, w', c.log⟩
  | .emit o k, P, c =>
      L.Emit r c.loc c.log o ∧ wp r wk k P ⟨c.loc, c.db, c.world, c.log ++ [.emit o]⟩

variable {L} {r : R} {wk : ℕ} {c : Cfg M}

theorem wp_mono {p : Prog σ ρ τ κ ω Q A β} {P P' : β → Cfg M → Prop}
    (h : L.wp r wk p P c) (hP : ∀ b c, P b c → P' b c) : L.wp r wk p P' c := by
  induction p generalizing c with
  | ret b => exact hP _ _ h
  | read i q k ih => exact fun d w hl => ih _ (h d w hl)
  | peek q k ih => exact fun d w hl => ih _ (h d w hl)
  | lock m rows q k ih => exact fun d w hl => ih _ (h d w hl)
  | lockTable t q k ih => exact fun d w hl => ih _ (h d w hl)
  | commit f k ih =>
    refine fun d w hl => ⟨fun hf => ih _ ((h d w hl).1 hf), fun b d' hf => ?_⟩
    obtain ⟨hg, hk⟩ := (h d w hl).2 b d' hf
    exact ⟨hg, ih _ hk⟩
  | rollback k ih => exact fun d w hl => ih (h d w hl)
  | ask q k ih => exact fun d w hl a w' ha => ih _ (h d w hl a w' ha)
  | emit o k ih => exact ⟨h.1, ih h.2⟩

/-- Two specifications of one program hold together. -/
theorem wp_and {p : Prog σ ρ τ κ ω Q A β} {P P' : β → Cfg M → Prop} (h : L.wp r wk p P c)
    (h' : L.wp r wk p P' c) : L.wp r wk p (fun b c => P b c ∧ P' b c) c := by
  induction p generalizing c with
  | ret b => exact ⟨h, h'⟩
  | read i q k ih => exact fun d w hl => ih _ (h d w hl) (h' d w hl)
  | peek q k ih => exact fun d w hl => ih _ (h d w hl) (h' d w hl)
  | lock m rows q k ih => exact fun d w hl => ih _ (h d w hl) (h' d w hl)
  | lockTable t q k ih => exact fun d w hl => ih _ (h d w hl) (h' d w hl)
  | commit f k ih =>
    refine fun d w hl => ⟨fun hf => ih _ ((h d w hl).1 hf) ((h' d w hl).1 hf), fun b d' hf => ?_⟩
    obtain ⟨hg, hk⟩ := (h d w hl).2 b d' hf
    exact ⟨hg, ih _ hk ((h' d w hl).2 b d' hf).2⟩
  | rollback k ih => exact fun d w hl => ih (h d w hl) (h' d w hl)
  | ask q k ih => exact fun d w hl a w' ha => ih _ (h d w hl a w' ha) (h' d w hl a w' ha)
  | emit o k ih => exact ⟨h.1, ih h.2 h'.2⟩

/-- Weakest preconditions compose along sequencing. -/
theorem wp_bind {p : Prog σ ρ τ κ ω Q A β} {f : β → Prog σ ρ τ κ ω Q A γ}
    {P : γ → Cfg M → Prop} :
    L.wp r wk (p >>= f) P c ↔ L.wp r wk p (fun b c => L.wp r wk (f b) P c) c := by
  rw [Prog.bind_def]
  induction p generalizing c with
  | ret b => rfl
  | read i q k ih => exact forall₃_congr fun d w _ => ih _
  | peek q k ih => exact forall₃_congr fun d w _ => ih _
  | lock m rows q k ih => exact forall₃_congr fun d w _ => ih _
  | lockTable t q k ih => exact forall₃_congr fun d w _ => ih _
  | commit g k ih =>
    refine forall₃_congr fun d w _ => and_congr (imp_congr_right fun _ => ih _) ?_
    exact forall₃_congr fun b d' _ => and_congr_right fun _ => ih _
  | rollback k ih => exact forall₃_congr fun d w _ => ih
  | ask q k ih =>
    exact forall₃_congr fun d w _ => forall₃_congr fun a w' _ => ih _
  | emit o k ih => exact and_congr_right fun _ => ih

@[simp]
theorem wp_pure {b : β} {P : β → Cfg M → Prop} :
    L.wp r wk (pure b : Prog σ ρ τ κ ω Q A β) P c ↔ P b c :=
  Iff.rfl

theorem wp_select {i : κ} {q : σ → β} {P : β → Cfg M → Prop} :
    L.wp r wk (Prog.select i q) P c ↔ ∀ d w, L.Later c d w →
      P (q (c.loc.view i d)) ⟨c.loc.look i d, d, w, c.log⟩ :=
  Iff.rfl

theorem wp_selectLatest {q : σ → β} {P : β → Cfg M → Prop} :
    L.wp r wk (Prog.selectLatest q) P c ↔
      ∀ d w, L.Later c d w → P (q d) ⟨c.loc, d, w, c.log⟩ :=
  Iff.rfl

theorem wp_selectLocking {m : Mode} {rows : σ → List ρ} {q : σ → β} {P : β → Cfg M → Prop} :
    L.wp r wk (Prog.selectLocking m rows q) P c ↔ ∀ d w, L.Later c d w →
      P (q d) ⟨c.loc.take (found d (rows d)) m, d, w, c.log⟩ :=
  Iff.rfl

theorem wp_selectTable {t : τ} {q : σ → β} {P : β → Cfg M → Prop} :
    L.wp r wk (Prog.selectTable t q) P c ↔ ∀ d w, L.Later c d w →
      P (q d) ⟨c.loc.takeTable t (Store.rows d t), d, w, c.log⟩ :=
  Iff.rfl

theorem wp_write {f : σ → Option (β × σ)} {P : Option β → Cfg M → Prop} :
    L.wp r wk (Prog.write f) P c ↔ ∀ d w, L.Later c d w →
      (f d = none → P none ⟨c.loc, d, w, c.log⟩) ∧
      ∀ b d', f d = some (b, d') →
        L.Guar r c.loc d w d' ∧ P (some b) ⟨.fresh, d', w, c.log ++ [.write d d']⟩ :=
  Iff.rfl

theorem wp_abort {P : Unit → Cfg M → Prop} :
    L.wp r wk (Prog.abort : Prog σ ρ τ κ ω Q A Unit) P c ↔
      ∀ d w, L.Later c d w → P () ⟨.fresh, d, w, c.log⟩ :=
  Iff.rfl

theorem wp_call {q : Q} {P : A q → Cfg M → Prop} :
    L.wp r wk (Prog.call q) P c ↔ ∀ d w, L.Later c d w → ∀ a w', M.answer wk w q a w' →
      P a ⟨c.loc, d, w', c.log⟩ :=
  Iff.rfl

theorem wp_report {o : ω} {P : Unit → Cfg M → Prop} :
    L.wp r wk (Prog.report o : Prog σ ρ τ κ ω Q A Unit) P c ↔
      L.Emit r c.loc c.log o ∧ P () ⟨c.loc, c.db, c.world, c.log ++ [.emit o]⟩ :=
  Iff.rfl

/-- All snapshots of the thread are states that meet the invariant in some world. -/
def Seen (L : Rules M) (c : Cfg M) : Prop :=
  ∀ i d, c.loc.snap i = some d → ∃ w, L.Inv d w

omit [DecidableEq κ] in
theorem Seen.view {d : σ} {w : W} (h : L.Seen c) (hd : L.Inv d w) (i : κ) :
    ∃ w, L.Inv (c.loc.view i d) w := by
  unfold Local.view
  cases hi : c.loc.snap i with
  | none => exact ⟨w, hd⟩
  | some d₀ => exact h i d₀ hi

theorem Seen.look {i : κ} {d : σ} {w : W} {log : List (Ev σ ω α)} (h : L.Seen c) (hd : L.Inv d w) :
    L.Seen ⟨c.loc.look i d, d, w, log⟩ := by
  intro j d₁ hj
  rcases eq_or_ne j i with rfl | hne
  · rw [Local.snap_look_self] at hj
    cases hj
    exact h.view hd j
  · exact h j d₁ ((Function.update_of_ne hne _ _).symm.trans hj)

/-- A thread sees only states that meet the invariant. -/
theorem wp_seen {p : Prog σ ρ τ κ ω Q A β} {P : β → Cfg M → Prop} (h : L.wp r wk p P c)
    (hc : L.Seen c) : L.wp r wk p (fun b c => P b c ∧ L.Seen c) c := by
  have hfresh : ∀ {d w log}, L.Seen (⟨.fresh, d, w, log⟩ : Cfg M) := fun _ _ hi => by cases hi
  induction p generalizing c with
  | ret b => exact ⟨h, hc⟩
  | read i q k ih => exact fun d w hl => ih _ (h d w hl) (hc.look hl.2)
  | peek q k ih => exact fun d w hl => ih _ (h d w hl) hc
  | lock m rows q k ih => exact fun d w hl => ih _ (h d w hl) hc
  | lockTable t q k ih => exact fun d w hl => ih _ (h d w hl) hc
  | commit f k ih =>
    refine fun d w hl => ⟨fun hf => ih _ ((h d w hl).1 hf) hc, fun b d' hf => ?_⟩
    obtain ⟨hg, hk⟩ := (h d w hl).2 b d' hf
    exact ⟨hg, ih _ hk hfresh⟩
  | rollback k ih => exact fun d w hl => ih (h d w hl) hfresh
  | ask q k ih => exact fun d w hl a w' ha => ih _ (h d w hl a w' ha) hc
  | emit o k ih => exact ⟨h.1, ih h.2 hc⟩

/-! ### Soundness -/

variable (L)

/-- The handlers meet their weakest preconditions, with `P` relating a request to its reply
and to the log of its events. -/
def Verified (P : R → α → List (Ev σ ω α) → Prop) : Prop :=
  ∀ r wk d w, L.Inv d w →
    L.wp r wk (M.handler r) (fun a c => P r a c.log) ⟨.fresh, d, w, []⟩

/-- The handlers of the requests in `S` meet their weakest preconditions. -/
def VerifiedOn (S : R → Prop) (P : R → α → List (Ev σ ω α) → Prop) : Prop :=
  ∀ r, S r → ∀ wk d w, L.Inv d w →
    L.wp r wk (M.handler r) (fun a c => P r a c.log) ⟨.fresh, d, w, []⟩

/-- What soundness maintains of a reachable state. -/
structure Certified (P : R → α → List (Ev σ ω α) → Prop) (s : Sys M) : Prop where
  inv : L.Inv s.db s.world
  compat : ∀ {i j t u p q l m}, i ≠ j → s.Runs i t p l → s.Runs j u q m → l.Compat m
  held : ∀ {i t p l}, s.Runs i t p l → ∀ h ∈ l.held, (Store.val s.db h.1).isSome
  scanned : ∀ {i t p l}, s.Runs i t p l →
    ∀ u ∈ l.scanned, ∃ r, (r, Mode.exclusive) ∈ l.held ∧ Store.table σ r = u
  bound : ∀ e ∈ s.trace, e.1 < s.threads.length
  running : ∀ {i t p l}, s.Runs i t p l → ∃ d w, L.Rely l d w s.db s.world ∧
    L.wp t.request t.worker p (fun a c => P t.request a c.log) ⟨l, d, w, s.log i⟩
  finished : ∀ {i} {t : Thread M} {a}, s.threads[i]? = some t → t.status = .finished a →
    ∃ log, s.log i = log ++ [.reply a] ∧ P t.request a log
  written : ∀ {i d d'}, (i, .write d d') ∈ s.trace →
    ∃ t l w, s.threads[i]? = some t ∧ L.Inv d w ∧ L.Guar t.request l d w d'
  emitted : ∀ {i o}, (i, .emit o) ∈ s.trace →
    ∃ t l log, s.threads[i]? = some t ∧ log ++ [.emit o] <+: s.log i ∧ L.Emit t.request l log o

variable {L} {P : R → α → List (Ev σ ω α) → Prop} {s s' : Sys M} {pid : ℕ} {t : Thread M}
  {p : Prog σ ρ τ κ ω Q A α} {l : Local σ ρ τ κ}

omit [DecidableEq κ] [Store σ ρ τ V] in
/-- The running threads after one thread changed its status. -/
theorem runs_of_setStatus {x : Status σ ρ τ κ ω Q A α}
    (hth : s'.threads = s.setStatus pid t x) {i : ℕ} {u : Thread M} {q m}
    (h : s'.Runs i u q m) :
    (i = pid ∧ u = { t with status := x } ∧ x = .running q m) ∨ (i ≠ pid ∧ s.Runs i u q m) := by
  obtain ⟨hi, hu⟩ := h
  rw [hth, Sys.setStatus, List.getElem?_set] at hi
  split at hi
  next he =>
    split at hi
    · cases hi
      exact Or.inl ⟨he.symm, rfl, hu⟩
    · cases hi
  next hne => exact Or.inr ⟨fun he => hne he.symm, hi, hu⟩

omit [DecidableEq κ] [Store σ ρ τ V] in
theorem log_append {evs : List (Ev σ ω α)} (htr : s'.trace = s.trace ++ evs.map (Prod.mk pid))
    (i : ℕ) : s'.log i = if i = pid then s.log i ++ evs else s.log i := by
  unfold Sys.log
  rw [htr, List.filterMap_append, List.filterMap_map]
  split
  next h =>
    subst h
    simp
  next h =>
    have : ((fun e : ℕ × Ev σ ω α => if e.1 = i then some e.2 else none) ∘ Prod.mk pid) =
        fun _ => none := funext fun e => if_neg fun he => h he.symm
    rw [this]
    simp

/-- One thread changes its status and extends the trace by its own events; the others keep
what they rely on. -/
theorem Certified.update (hs : L.Certified P s) (hr : s.Runs pid t p l)
    {x : Status σ ρ τ κ ω Q A α} (evs : List (Ev σ ω α))
    (hth : s'.threads = s.setStatus pid t x)
    (htr : s'.trace = s.trace ++ evs.map (Prod.mk pid))
    (hinv : L.Inv s'.db s'.world)
    (hrely : ∀ m ∈ s.others pid, L.Rely m s.db s.world s'.db s'.world)
    (hval : ∀ m ∈ s.others pid, ∀ h ∈ m.held, Store.val s'.db h.1 = Store.val s.db h.1)
    (hrun : ∀ q m, x = .running q m →
      (∀ n ∈ s.others pid, m.Compat n) ∧ (∀ h ∈ m.held, (Store.val s'.db h.1).isSome) ∧
      (∀ u ∈ m.scanned, ∃ r, (r, Mode.exclusive) ∈ m.held ∧ Store.table σ r = u) ∧
      ∃ d w, L.Rely m d w s'.db s'.world ∧
        L.wp t.request t.worker q (fun a c => P t.request a c.log) ⟨m, d, w, s.log pid ++ evs⟩)
    (hfin : ∀ a, x = .finished a →
      ∃ log, s.log pid ++ evs = log ++ [.reply a] ∧ P t.request a log)
    (hwr : ∀ d d', .write d d' ∈ evs → ∃ l w, L.Inv d w ∧ L.Guar t.request l d w d')
    (hem : ∀ o, .emit o ∈ evs →
      ∃ l log, log ++ [.emit o] <+: s.log pid ++ evs ∧ L.Emit t.request l log o) :
    L.Certified P s' := by
  have hlt : pid < s.threads.length := (List.getElem?_eq_some_iff.mp hr.1).1
  have hlen : s'.threads.length = s.threads.length := by rw [hth, Sys.setStatus, List.length_set]
  have hget : ∀ {i : ℕ} {u : Thread M}, s.threads[i]? = some u →
      ∃ u' : Thread M, s'.threads[i]? = some u' ∧ u'.request = u.request := by
    intro i u hu
    rw [hth, Sys.setStatus]
    rcases eq_or_ne pid i with rfl | hne
    · rw [List.getElem?_set_self hlt]
      obtain rfl : t = u := Option.some.inj (hr.1.symm.trans hu)
      exact ⟨_, rfl, rfl⟩
    · rw [List.getElem?_set_ne hne]
      exact ⟨u, hu, rfl⟩
  have hself : ∃ u' : Thread M, s'.threads[pid]? = some u' ∧ u'.request = t.request := hget hr.1
  have hother : ∀ {i u q m}, i ≠ pid → s.Runs i u q m → m ∈ s.others pid :=
    fun hne h => Sys.mem_others.mpr ⟨_, _, _, hne, h⟩
  refine ⟨hinv, ?_, ?_, ?_, ?_, ?_, ?_, ?_, ?_⟩
  · -- locks: only the locks of `pid` are new
    intro i j u v q q' m m' hij hi hj
    rcases runs_of_setStatus hth hi with ⟨rfl, rfl, hx⟩ | ⟨hi', hi⟩ <;>
      rcases runs_of_setStatus hth hj with ⟨rfl, rfl, hx'⟩ | ⟨hj', hj⟩
    · exact absurd rfl hij
    · exact (hrun _ _ hx).1 _ (hother hj' hj)
    · exact ((hrun _ _ hx').1 _ (hother hi' hi)).symm
    · exact hs.compat hij hi hj
  · intro i u q m hi h hh
    rcases runs_of_setStatus hth hi with ⟨rfl, rfl, hx⟩ | ⟨hi', hi⟩
    · exact (hrun _ _ hx).2.1 h hh
    · rw [hval _ (hother hi' hi) h hh]
      exact hs.held hi h hh
  · intro i u q m hi v hv
    rcases runs_of_setStatus hth hi with ⟨rfl, rfl, hx⟩ | ⟨_, hi⟩
    · exact (hrun _ _ hx).2.2.1 v hv
    · exact hs.scanned hi v hv
  · intro e he
    rw [hlen]
    rw [htr, List.mem_append, List.mem_map] at he
    rcases he with he | ⟨_, _, rfl⟩
    · exact hs.bound e he
    · exact hlt
  · intro i u q m hi
    rw [log_append htr]
    rcases runs_of_setStatus hth hi with ⟨rfl, rfl, hx⟩ | ⟨hi', hi⟩
    · rw [if_pos rfl]
      exact (hrun _ _ hx).2.2.2
    · rw [if_neg hi']
      obtain ⟨d, w, hl, hwp⟩ := hs.running hi
      exact ⟨d, w, L.rely_trans _ hl (hrely _ (hother hi' hi)), hwp⟩
  · intro i u a hi hu
    rw [log_append htr]
    rw [hth, Sys.setStatus] at hi
    rcases eq_or_ne pid i with rfl | hne
    · rw [List.getElem?_set_self hlt] at hi
      cases hi
      rw [if_pos rfl]
      exact hfin a hu
    · rw [List.getElem?_set_ne hne] at hi
      rw [if_neg (Ne.symm hne)]
      exact hs.finished hi hu
  · intro i d d' hi
    rw [htr, List.mem_append, List.mem_map] at hi
    rcases hi with hi | ⟨_, he, heq⟩
    · obtain ⟨u, l', w, hu, hg⟩ := hs.written hi
      obtain ⟨u', hu', hreq⟩ := hget hu
      exact ⟨u', l', w, hu', by rw [hreq]; exact hg⟩
    · cases heq
      obtain ⟨l', w, hg⟩ := hwr _ _ he
      obtain ⟨u', hu', hreq⟩ := hself
      exact ⟨u', l', w, hu', by rw [hreq]; exact hg⟩
  · intro i o hi
    rw [htr, List.mem_append, List.mem_map] at hi
    rw [log_append htr]
    rcases hi with hi | ⟨_, he, heq⟩
    · obtain ⟨u, l', log, hu, hpre, hg⟩ := hs.emitted hi
      obtain ⟨u', hu', hreq⟩ := hget hu
      refine ⟨u', l', log, hu', ?_, by rw [hreq]; exact hg⟩
      split
      · exact hpre.trans (List.prefix_append _ _)
      · exact hpre
    · cases heq
      obtain ⟨l', log, hpre, hg⟩ := hem _ he
      obtain ⟨u', hu', hreq⟩ := hself
      exact ⟨u', l', log, hu', by rw [if_pos rfl]; exact hpre, by rw [hreq]; exact hg⟩

theorem Certified.compat_others (hs : L.Certified P s) (hr : s.Runs pid t p l) :
    ∀ n ∈ s.others pid, l.Compat n := by
  intro n hn
  obtain ⟨j, u, q, hj, hu⟩ := Sys.mem_others.mp hn
  exact hs.compat (Ne.symm hj) hr hu

/-- A statement that changes neither the committed state nor the trace. -/
theorem Certified.silent (hs : L.Certified P s) (hr : s.Runs pid t p l)
    {q : Prog σ ρ τ κ ω Q A α} {m : Local σ ρ τ κ} {w' : W} (hinv : L.Inv s.db w')
    (hrely : ∀ n ∈ s.others pid, L.Rely n s.db s.world s.db w')
    (hcompat : ∀ n ∈ s.others pid, m.Compat n)
    (hheld : ∀ h ∈ m.held, (Store.val s.db h.1).isSome)
    (hscan : ∀ u ∈ m.scanned, ∃ r, (r, Mode.exclusive) ∈ m.held ∧ Store.table σ r = u)
    (hwp : L.wp t.request t.worker q (fun a c => P t.request a c.log) ⟨m, s.db, w', s.log pid⟩) :
    L.Certified P
      { s with world := w', threads := s.setStatus pid t (.running q m) } := by
  refine hs.update hr [] rfl (by simp) hinv hrely (fun _ _ _ _ => rfl) ?_ ?_ ?_ ?_
  · intro q' m' hx
    cases hx
    exact ⟨hcompat, hheld, hscan, _, _, L.rely_refl _ _ _, by simpa using hwp⟩
  all_goals simp

section Step

variable [DecidableEq ρ] [DecidableEq V]

/-- A statement of one thread preserves what soundness maintains. -/
theorem Certified.advance (hs : L.Certified P s) (hr : s.Runs pid t p l)
    {q : Prog σ ρ τ κ ω Q A α} {m : Local σ ρ τ κ} {e : Effect σ ω}
    (ha : Txn.advance (s.others pid) s.db p l = some (q, m, e)) :
    L.Certified P
      { db := e.db s.db
        world := s.world
        trace := s.trace ++ (e.events s.db).map (Prod.mk pid)
        threads := s.setStatus pid t (.running q m) } := by
  obtain ⟨d, w, hl, hwp⟩ := hs.running hr
  have hnow : L.Later (M := M) ⟨l, d, w, s.log pid⟩ s.db s.world := ⟨hl, hs.inv⟩
  have hcompat := hs.compat_others hr
  have hheld := hs.held hr
  have hscan := hs.scanned hr
  have hsame : ∀ n ∈ s.others pid, L.Rely n s.db s.world s.db s.world :=
    fun n _ => L.rely_refl _ _ _
  -- granting `rows` to a thread keeps its locks compatible with the others
  have hgrant : ∀ (rows : List ρ) (b : Mode), free (s.others pid) rows b = true →
      ∀ n ∈ s.others pid, ∀ r a c, (r, a) ∈ rows.map (·, b) ++ l.held → (r, c) ∈ n.held →
        a.conflicts c = false := by
    intro rows b hfree n hn r a c hra hrc
    rcases List.mem_append.mp hra with hra | hra
    · obtain ⟨r', hmem, heq⟩ := List.mem_map.mp hra
      cases heq
      exact free_eq_true.mp hfree r hmem n hn c hrc
    · exact (hcompat n hn).1 r a c hra hrc
  have hexist : ∀ (rows : List ρ) (b : Mode), (∀ r ∈ rows, (Store.val s.db r).isSome) →
      ∀ h ∈ rows.map (·, b) ++ l.held, (Store.val s.db h.1).isSome := by
    intro rows b hrows h hh
    rcases List.mem_append.mp hh with hh | hh
    · obtain ⟨r, hr, rfl⟩ := List.mem_map.mp hh
      exact hrows r hr
    · exact hheld h hh
  cases p with
  | ret a => simp [Txn.advance] at ha
  | ask q k => simp [Txn.advance] at ha
  | read i f k =>
    simp only [Txn.advance, Option.some.injEq, Prod.mk.injEq] at ha
    obtain ⟨rfl, rfl, rfl⟩ := ha
    simpa [Effect.db, Effect.events] using
      hs.silent hr (m := l.look i s.db) hs.inv hsame hcompat hheld hscan (hwp _ _ hnow)
  | peek f k =>
    simp only [Txn.advance, Option.some.injEq, Prod.mk.injEq] at ha
    obtain ⟨rfl, rfl, rfl⟩ := ha
    simpa [Effect.db, Effect.events] using
      hs.silent hr hs.inv hsame hcompat hheld hscan (hwp _ _ hnow)
  | lock b rows f k =>
    simp only [Txn.advance] at ha
    split at ha
    next hfree =>
      simp only [Option.some.injEq, Prod.mk.injEq] at ha
      obtain ⟨rfl, rfl, rfl⟩ := ha
      simpa [Effect.db, Effect.events] using
        hs.silent hr (m := l.take (found s.db (rows s.db)) b) hs.inv hsame
          (fun n hn => ⟨hgrant _ _ hfree n hn, (hcompat n hn).2⟩)
          (hexist _ _ fun r hr => (mem_found.mp hr).2)
          (fun u hu => (hscan u hu).imp fun r hr => ⟨List.mem_append_right _ hr.1, hr.2⟩)
          (hwp _ _ hnow)
    · cases ha
  | lockTable u f k =>
    simp only [Txn.advance] at ha
    split at ha
    next hfree =>
      simp only [Option.some.injEq, Prod.mk.injEq] at ha
      obtain ⟨rfl, rfl, rfl⟩ := ha
      have hrows : ∀ r ∈ Store.rows s.db u, (Store.val s.db r).isSome := fun r hr =>
        (Store.mem_rows.mp hr).2
      -- another thread that has scanned `u` holds one of its rows, so the scan would wait
      have hfresh : ∀ n ∈ s.others pid, u ∉ n.scanned := by
        intro n hn hu
        obtain ⟨j, v, q', hj, hv⟩ := Sys.mem_others.mp hn
        obtain ⟨r, hr, htab⟩ := hs.scanned hv u hu
        have hmem : r ∈ Store.rows s.db u := Store.mem_rows.mpr ⟨htab, hs.held hv _ hr⟩
        simpa using free_eq_true.mp hfree r hmem n hn _ hr
      simpa [Effect.db, Effect.events] using
        hs.silent hr (m := l.takeTable u (Store.rows s.db u)) hs.inv hsame
          (fun n hn => ⟨hgrant _ _ hfree n hn, fun v hv hvn => by
            rcases Local.mem_scanned_takeTable.mp hv with hv | ⟨rfl, -⟩
            · exact (hcompat n hn).2 v hv hvn
            · exact hfresh n hn hvn⟩)
          (hexist _ _ hrows)
          (fun v hv => by
            rcases Local.mem_scanned_takeTable.mp hv with hv | ⟨rfl, hne⟩
            · exact (hscan v hv).imp fun r hr => ⟨List.mem_append_right _ hr.1, hr.2⟩
            · obtain ⟨r, hr⟩ := List.exists_mem_of_ne_nil _ hne
              exact ⟨r, List.mem_append_left _ (List.mem_map_of_mem hr),
                (Store.mem_rows.mp hr).1⟩)
          (hwp _ _ hnow)
    · cases ha
  | commit f k =>
    simp only [Txn.advance] at ha
    split at ha
    next hf =>
      simp only [Option.some.injEq, Prod.mk.injEq] at ha
      obtain ⟨rfl, rfl, rfl⟩ := ha
      simpa [Effect.db, Effect.events] using
        hs.silent hr hs.inv hsame hcompat hheld hscan ((hwp _ _ hnow).1 hf)
    next b d' hf =>
      split at ha
      next hquiet =>
        simp only [Option.some.injEq, Prod.mk.injEq] at ha
        obtain ⟨rfl, rfl, rfl⟩ := ha
        have hval := quiet_eq_true.mp hquiet
        obtain ⟨hg, hk⟩ := (hwp _ _ hnow).2 _ _ hf
        refine hs.update hr [.write s.db d'] rfl (by simp [Effect.events])
          (L.guar_inv hs.inv hg)
          (fun n hn => L.guar_rely (hcompat n hn) hs.inv hg (hval n hn))
          hval ?_ (by simp) ?_ (by simp)
        · intro q' m' hx
          cases hx
          exact ⟨fun n _ => Local.compat_fresh n, by simp, by simp, _, _,
            L.rely_refl _ _ _, hk⟩
        · intro d₁ d₂ hmem
          cases List.mem_singleton.mp hmem
          exact ⟨l, s.world, hs.inv, hg⟩
      · cases ha
  | rollback k =>
    simp only [Txn.advance, Option.some.injEq, Prod.mk.injEq] at ha
    obtain ⟨rfl, rfl, rfl⟩ := ha
    simpa [Effect.db, Effect.events] using
      hs.silent hr hs.inv hsame (fun n _ => Local.compat_fresh n) (by simp) (by simp)
        (hwp _ _ hnow)
  | emit o k =>
    simp only [Txn.advance, Option.some.injEq, Prod.mk.injEq] at ha
    obtain ⟨rfl, rfl, rfl⟩ := ha
    obtain ⟨hemit, hk⟩ := hwp
    refine hs.update hr [.emit o] rfl (by simp [Effect.events]) hs.inv hsame
      (fun _ _ _ _ => rfl) ?_ (by simp) (by simp) ?_
    · intro q' m' hx
      cases hx
      exact ⟨hcompat, hheld, hscan, d, w, hl, hk⟩
    · intro o' ho
      cases List.mem_singleton.mp ho
      exact ⟨l, _, List.prefix_refl _, hemit⟩

/-- A step of the system preserves what soundness maintains, as long as all requests are among the
verified ones. -/
theorem Certified.step_on {S : R → Prop} (hv : L.VerifiedOn S P) (hs : L.Certified P s) {b : Label}
    (h : Step M b s s') (hS : ∀ t ∈ s'.threads, S t.request) : L.Certified P s' := by
  cases h with
  | start r wk =>
    have hlog : s.log s.threads.length = [] := by
      refine List.filterMap_eq_nil_iff.mpr fun e he => if_neg fun heq => ?_
      exact absurd (hs.bound e he) (by omega)
    have hold : ∀ {i u}, s.threads[i]? = some u →
        (s.threads ++ [(⟨r, wk, .running (M.handler r) .fresh⟩ : Thread M)])[i]? = some u :=
      fun {i u} hu => by
        rw [List.getElem?_append_left (List.getElem?_eq_some_iff.mp hu).1]
        exact hu
    have hnew : ∀ {i} {u : Thread M},
        (s.threads ++ [(⟨r, wk, .running (M.handler r) .fresh⟩ : Thread M)])[i]? = some u →
        s.threads[i]? = some u ∨
          (i = s.threads.length ∧ u = ⟨r, wk, .running (M.handler r) .fresh⟩) := by
      intro i u hu
      rcases Nat.lt_or_ge i s.threads.length with hlt | hge
      · rw [List.getElem?_append_left hlt] at hu
        exact Or.inl hu
      · rw [List.getElem?_append_right hge, List.getElem?_singleton] at hu
        split at hu
        · cases hu
          exact Or.inr ⟨by omega, rfl⟩
        · cases hu
    refine ⟨hs.inv, ?_, ?_, ?_, ?_, ?_, ?_, ?_, ?_⟩
    · rintro i j u v q q' m m' hij ⟨hi, hiu⟩ ⟨hj, hjv⟩
      rcases hnew hi with hi | ⟨rfl, rfl⟩
      · rcases hnew hj with hj | ⟨rfl, rfl⟩
        · exact hs.compat hij ⟨hi, hiu⟩ ⟨hj, hjv⟩
        · cases hjv
          exact (Local.compat_fresh _).symm
      · cases hiu
        exact Local.compat_fresh _
    · rintro i u q m ⟨hi, hiu⟩
      rcases hnew hi with hi | ⟨rfl, rfl⟩
      · exact hs.held ⟨hi, hiu⟩
      · cases hiu
        simp
    · rintro i u q m ⟨hi, hiu⟩
      rcases hnew hi with hi | ⟨rfl, rfl⟩
      · exact hs.scanned ⟨hi, hiu⟩
      · cases hiu
        simp
    · intro e he
      rw [List.length_append]
      exact Nat.lt_add_right _ (hs.bound e he)
    · rintro i u q m ⟨hi, hiu⟩
      rcases hnew hi with hi | ⟨rfl, rfl⟩
      · exact hs.running ⟨hi, hiu⟩
      · cases hiu
        refine ⟨s.db, s.world, L.rely_refl _ _ _, ?_⟩
        have hr : S r := hS ⟨r, wk, .running (M.handler r) .fresh⟩
          (List.mem_append_right _ (List.mem_singleton_self _))
        have := hv r hr wk s.db s.world hs.inv
        rwa [← hlog] at this
    · intro i u a hi hiu
      rcases hnew hi with hi | ⟨rfl, rfl⟩
      · exact hs.finished hi hiu
      · cases hiu
    · intro i d d' hi
      obtain ⟨u, l, w, hu, hg⟩ := hs.written hi
      exact ⟨u, l, w, hold hu, hg⟩
    · intro i o hi
      obtain ⟨u, l, log, hu, hg⟩ := hs.emitted hi
      exact ⟨u, l, log, hold hu, hg⟩
  | run hr ha => exact hs.advance hr ha
  | ask hr ha =>
    obtain ⟨d, w, hl, hwp⟩ := hs.running hr
    exact hs.silent hr (L.answer_inv hs.inv ha) (fun n _ => L.answer_rely n hs.inv ha)
      (hs.compat_others hr) (hs.held hr) (hs.scanned hr) (hwp _ _ ⟨hl, hs.inv⟩ _ _ ha)
  | @finish _ pid _ a _ hr =>
    obtain ⟨d, w, -, hwp⟩ := hs.running hr
    exact hs.update hr [.reply a] rfl (by simp) hs.inv
      (fun _ _ => L.rely_refl _ _ _) (fun _ _ _ _ => rfl) (by simp)
      (fun b hb => by cases hb; exact ⟨_, rfl, hwp⟩) (by simp) (by simp)
  | crash hr =>
    exact hs.update hr [] rfl (by simp) hs.inv
      (fun _ _ => L.rely_refl _ _ _) (fun _ _ _ _ => rfl) (by simp) (by simp) (by simp) (by simp)
  | drift h =>
    exact ⟨L.drift_inv hs.inv h, hs.compat, hs.held, hs.scanned, hs.bound,
      fun hr => by
        obtain ⟨d, w, hl, hwp⟩ := hs.running hr
        exact ⟨d, w, L.rely_trans _ hl (L.drift_rely _ hs.inv h), hwp⟩,
      hs.finished, hs.written, hs.emitted⟩

/-- A step of the system preserves what soundness maintains. -/
theorem Certified.step (hv : L.Verified P) (hs : L.Certified P s) {b : Label}
    (h : Step M b s s') : L.Certified P s' :=
  hs.step_on (S := fun _ => True) (fun r _ => hv r) h fun _ _ => trivial

omit [DecidableEq ρ] [DecidableEq V] in
theorem certified_init {d : σ} {w : W} (h : L.Inv d w) :
    L.Certified P (Sys.init d w : Sys M) := by
  refine ⟨h, ?_, ?_, ?_, ?_, ?_, ?_, ?_, ?_⟩ <;> simp [Sys.init, Sys.Runs]

/-- **Soundness**: if every handler meets its weakest precondition, every reachable state of
the interleaved system is certified. -/
theorem certified_of_reach (hv : L.Verified P) {d : σ} {w : W} (hi : L.Inv d w)
    (h : Reach (Sys.init d w) s) : L.Certified P s := by
  induction h with
  | refl => exact certified_init hi
  | tail _ hstep ih =>
    obtain ⟨b, hb, -⟩ := hstep
    exact ih.step hv hb

/-- A step writes nothing, or is the commit of one thread under the guarantee. -/
theorem Certified.write_of_step (hs : L.Certified P s) {b : Label} (h : Step M b s s') :
    (s'.db = s.db ∧ s'.commits = s.commits) ∨
      ∃ pid t p l, b = .run pid ∧ s.Runs pid t p l ∧ p.commit? s.db = some s'.db ∧
        L.Guar t.request l s.db s.world s'.db ∧ s'.emitted = s.emitted ∧
        s'.commits = s.commits ++ [(pid, s.db, s'.db)] := by
  cases h with
  | start r wk => exact Or.inl ⟨rfl, rfl⟩
  | ask hr ha => exact Or.inl ⟨rfl, rfl⟩
  | finish hr => exact Or.inl ⟨rfl, by simp [Sys.commits]⟩
  | crash hr => exact Or.inl ⟨rfl, rfl⟩
  | drift h => exact Or.inl ⟨rfl, rfl⟩
  | @run _ pid t p p' l l' e hr ha =>
    cases e with
    | silent => exact Or.inl ⟨rfl, by simp [Sys.commits, Effect.events]⟩
    | emit o => exact Or.inl ⟨rfl, by simp [Sys.commits, Effect.events]⟩
    | write d' =>
      obtain ⟨d, w, hl, hwp⟩ := hs.running hr
      cases p with
      | commit f k =>
        simp only [Txn.advance] at ha
        split at ha
        · cases ha
        next b d₁ hf =>
          split at ha
          · cases ha
            refine Or.inr ⟨pid, t, _, l, rfl, hr, ?_, ((hwp _ _ ⟨hl, hs.inv⟩).2 _ _ hf).1,
              by simp [Sys.emitted, Effect.events],
              by simp [Sys.commits, Effect.events, Effect.db]⟩
            show (f s.db).map Prod.snd = _
            rw [hf]
            rfl
          · cases ha
      | lock m rows q k => simp only [Txn.advance] at ha; split at ha <;> cases ha
      | lockTable u q k => simp only [Txn.advance] at ha; split at ha <;> cases ha
      | _ => simp [Txn.advance] at ha

/-- A step emits nothing, or is the emission of one thread that the rules allow. -/
theorem Certified.emit_of_step (hs : L.Certified P s) {b : Label} (h : Step M b s s') :
    s'.emitted = s.emitted ∨
      ∃ pid t p l o, b = .run pid ∧ s.Runs pid t p l ∧ L.Emit t.request l (s.log pid) o ∧
        s'.db = s.db ∧ s'.emitted = s.emitted ++ [(pid, o)] := by
  cases h with
  | start r wk => exact Or.inl rfl
  | ask hr ha => exact Or.inl rfl
  | finish hr => exact Or.inl (by simp [Sys.emitted])
  | crash hr => exact Or.inl rfl
  | drift h => exact Or.inl rfl
  | @run _ pid t p p' l l' e hr ha =>
    cases e with
    | silent => exact Or.inl (by simp [Sys.emitted, Effect.events])
    | write d' => exact Or.inl (by simp [Sys.emitted, Effect.events])
    | emit o =>
      refine Or.inr ⟨pid, t, p, l, o, rfl, hr, ?_, rfl, by simp [Sys.emitted, Effect.events]⟩
      obtain ⟨d, w, hl, hwp⟩ := hs.running hr
      cases p with
      | emit o' k =>
        simp only [Txn.advance, Option.some.injEq, Prod.mk.injEq, Effect.emit.injEq] at ha
        obtain ⟨-, -, rfl⟩ := ha
        exact hwp.1
      | commit f k =>
        simp only [Txn.advance] at ha
        split at ha
        · cases ha
        · split at ha <;> cases ha
      | lock m rows q k => simp only [Txn.advance] at ha; split at ha <;> cases ha
      | lockTable u q k => simp only [Txn.advance] at ha; split at ha <;> cases ha
      | _ => simp [Txn.advance] at ha

end Step

end Rules

end Txn
