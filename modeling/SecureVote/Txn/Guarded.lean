import SecureVote.Txn.Trace
import SecureVote.Txn.Lift

/-!
# Invariants under a promise of the environment

Some handlers keep an invariant only when their calls are answered at the right moment. A
`Promise` is a condition on the state in which a call is answered, and `Keeps` says that a step
meets it. `Rules.gwp` is the weakest precondition of a program under the rules of rely–guarantee
reasoning and a promise; it does not look at events.

`Rules.inv_of_reachIf` is the soundness theorem: in a run whose steps keep the promise, the
invariant holds in every state reached.
-/

namespace Txn

variable {σ ρ τ V κ ω : Type} {Q : Type} {A : Q → Type} {W R α β γ : Type}

/-- A program that neither commits nor gives up its transaction. -/
def Prog.Tame : Prog σ ρ τ κ ω Q A α → Prop
  | .ret _ => True
  | .read _ _ k | .peek _ k | .lock _ _ _ k | .lockTable _ _ k => ∀ b, (k b).Tame
  | .ask _ k => ∀ a, (k a).Tame
  | .emit _ k => k.Tame
  | .commit _ _ | .rollback _ => False

theorem Prog.tame_bind {p : Prog σ ρ τ κ ω Q A α} {f : α → Prog σ ρ τ κ ω Q A β} (hp : p.Tame)
    (hf : ∀ a, (f a).Tame) : (p >>= f).Tame := by
  rw [Prog.bind_def]
  induction p with
  | ret a => exact hf a
  | read c q k ih => exact fun b => ih b (hp b)
  | peek q k ih => exact fun b => ih b (hp b)
  | lock m rows q k ih => exact fun b => ih b (hp b)
  | lockTable t q k ih => exact fun b => ih b (hp b)
  | ask q k ih => exact fun a => ih a (hp a)
  | emit o k ih => exact ih hp
  | commit w k => exact hp.elim
  | rollback k => exact hp.elim

variable [DecidableEq ρ] [DecidableEq V] [DecidableEq κ] [Store σ ρ τ V]
variable {M : Machine σ ρ τ κ ω Q A W R α} {s s' : Sys M}

/-- A condition on the answering of a call: the request, the program that is about to make the
call, its transaction-local state, the committed state and the world. -/
abbrev Promise (_ : Machine σ ρ τ κ ω Q A W R α) : Type 1 :=
  R → Prog σ ρ τ κ ω Q A α → Local σ ρ τ κ → σ → W → Prop

/-- The step keeps the promise. -/
def Keeps (C : Promise M) (s : Sys M) (b : Label) : Prop :=
  ∀ i t p l, b = .ask i → s.Runs i t p l → C t.request p l s.db s.world

namespace Rules

variable (L : Rules M) (C : Promise M)

/-- The weakest precondition of a part of the program of request `r` in worker `wk`: `K` is how
the whole program goes on from the part. -/
def gwp (r : R) (wk : ℕ) (K : Prog σ ρ τ κ ω Q A β → Prog σ ρ τ κ ω Q A α) :
    Prog σ ρ τ κ ω Q A β → (β → Local σ ρ τ κ → σ → W → Prop) → Local σ ρ τ κ → σ → W → Prop
  | .ret b, P, l, d, w => P b l d w
  | .read i q k, P, l, d, w => ∀ d' w', L.Rely l d w d' w' → L.Inv d' w' →
      gwp r wk K (k (q (l.view i d'))) P (l.look i d') d' w'
  | .peek q k, P, l, d, w => ∀ d' w', L.Rely l d w d' w' → L.Inv d' w' →
      gwp r wk K (k (q d')) P l d' w'
  | .lock m rows q k, P, l, d, w => ∀ d' w', L.Rely l d w d' w' → L.Inv d' w' →
      gwp r wk K (k (q d')) P (l.take (found d' (rows d')) m) d' w'
  | .lockTable t q k, P, l, d, w => ∀ d' w', L.Rely l d w d' w' → L.Inv d' w' →
      gwp r wk K (k (q d')) P (l.takeTable t (Store.rows d' t)) d' w'
  | .commit f k, P, l, d, w => ∀ d' w', L.Rely l d w d' w' → L.Inv d' w' →
      (f d' = none → gwp r wk K (k none) P l d' w') ∧
      ∀ b d'', f d' = some (b, d'') →
        L.Guar r l d' w' d'' ∧ gwp r wk K (k (some b)) P .fresh d'' w'
  | .rollback k, P, l, d, w => ∀ d' w', L.Rely l d w d' w' → L.Inv d' w' →
      gwp r wk K k P .fresh d' w'
  | .ask q k, P, l, d, w => ∀ d' w', L.Rely l d w d' w' → L.Inv d' w' →
      C r (K (.ask q k)) l d' w' → ∀ a w'', M.answer wk w' q a w'' →
        gwp r wk K (k a) P l d' w''
  | .emit _ k, P, l, d, w => gwp r wk K k P l d w

variable {L C} {r : R} {wk : ℕ} {K : Prog σ ρ τ κ ω Q A β → Prog σ ρ τ κ ω Q A α}
  {l : Local σ ρ τ κ} {d : σ} {w : W}

omit [DecidableEq ρ] [DecidableEq V] in
/-- The preconditions of the parts make that of the sequence. -/
theorem gwp_bind {K : Prog σ ρ τ κ ω Q A γ → Prog σ ρ τ κ ω Q A α} {p : Prog σ ρ τ κ ω Q A β}
    {f : β → Prog σ ρ τ κ ω Q A γ} {P : γ → Local σ ρ τ κ → σ → W → Prop} :
    L.gwp C r wk K (p >>= f) P l d w ↔
      L.gwp C r wk (fun p' => K (p' >>= f)) p (fun b => L.gwp C r wk K (f b) P) l d w := by
  rw [Prog.bind_def]
  induction p generalizing l d w with
  | ret b => rfl
  | read i q k ih => exact forall₂_congr fun d' w' => forall₂_congr fun _ _ => ih _
  | peek q k ih => exact forall₂_congr fun d' w' => forall₂_congr fun _ _ => ih _
  | lock m rows q k ih => exact forall₂_congr fun d' w' => forall₂_congr fun _ _ => ih _
  | lockTable t q k ih => exact forall₂_congr fun d' w' => forall₂_congr fun _ _ => ih _
  | commit g k ih =>
    refine forall₂_congr fun d' w' => forall₂_congr fun _ _ =>
      and_congr (imp_congr_right fun _ => ih _) ?_
    exact forall₃_congr fun b d'' _ => and_congr_right fun _ => ih _
  | rollback k ih => exact forall₂_congr fun d' w' => forall₂_congr fun _ _ => ih
  | ask q k ih =>
    exact forall₂_congr fun d' w' => forall₃_congr fun _ _ _ => forall₃_congr fun a w'' _ => ih _
  | emit o k ih => exact ih

omit [DecidableEq ρ] [DecidableEq V] in
theorem gwp_select {i : κ} {q : σ → β} {P : β → Local σ ρ τ κ → σ → W → Prop} :
    L.gwp C r wk K (Prog.select i q) P l d w ↔ ∀ d' w', L.Rely l d w d' w' → L.Inv d' w' →
      P (q (l.view i d')) (l.look i d') d' w' :=
  Iff.rfl

omit [DecidableEq ρ] [DecidableEq V] in
theorem gwp_selectLocking {m : Mode} {rows : σ → List ρ} {q : σ → β}
    {P : β → Local σ ρ τ κ → σ → W → Prop} :
    L.gwp C r wk K (Prog.selectLocking m rows q) P l d w ↔ ∀ d' w', L.Rely l d w d' w' →
      L.Inv d' w' → P (q d') (l.take (found d' (rows d')) m) d' w' :=
  Iff.rfl

omit [DecidableEq ρ] [DecidableEq V] in
theorem gwp_selectTable {t : τ} {q : σ → β} {P : β → Local σ ρ τ κ → σ → W → Prop} :
    L.gwp C r wk K (Prog.selectTable t q) P l d w ↔ ∀ d' w', L.Rely l d w d' w' →
      L.Inv d' w' → P (q d') (l.takeTable t (Store.rows d' t)) d' w' :=
  Iff.rfl

omit [DecidableEq ρ] [DecidableEq V] in
theorem gwp_write {f : σ → Option (β × σ)} {K : Prog σ ρ τ κ ω Q A (Option β) →
      Prog σ ρ τ κ ω Q A α} {P : Option β → Local σ ρ τ κ → σ → W → Prop} :
    L.gwp C r wk K (Prog.write f) P l d w ↔ ∀ d' w', L.Rely l d w d' w' → L.Inv d' w' →
      (f d' = none → P none l d' w') ∧
      ∀ b d'', f d' = some (b, d'') → L.Guar r l d' w' d'' ∧ P (some b) .fresh d'' w' :=
  Iff.rfl

omit [DecidableEq ρ] [DecidableEq V] in
theorem gwp_call {q : Q} {K : Prog σ ρ τ κ ω Q A (A q) → Prog σ ρ τ κ ω Q A α}
    {P : A q → Local σ ρ τ κ → σ → W → Prop} :
    L.gwp C r wk K (Prog.call q) P l d w ↔ ∀ d' w', L.Rely l d w d' w' → L.Inv d' w' →
      C r (K (Prog.call q)) l d' w' → ∀ a w'', M.answer wk w' q a w'' → P a l d' w'' :=
  Iff.rfl

/-- What holds once a program has kept the locks of `l`, and the others have moved the committed
state from `d` as the rules allow. -/
def Kept (L : Rules M) (P : β → Local σ ρ τ κ → σ → W → Prop) (l : Local σ ρ τ κ) (d : σ) (w : W) :
    Prop :=
  ∀ b l' d' w', l.held ⊆ l'.held → l.scanned ⊆ l'.scanned → L.Rely l d w d' w' → P b l' d' w'

omit [DecidableEq ρ] [DecidableEq V] [DecidableEq κ] in
theorem Kept.next {P : β → Local σ ρ τ κ → σ → W → Prop} (h : L.Kept P l d w)
    {m : Local σ ρ τ κ} {d₁ : σ} {w₁ : W} (hheld : l.held ⊆ m.held)
    (hscanned : l.scanned ⊆ m.scanned) (hrely : L.Rely l d w d₁ w₁) : L.Kept P m d₁ w₁ := by
  intro b l' d' w' hh hs hr
  have hheld' : l.held ⊆ l'.held := List.Subset.trans hheld hh
  have hscanned' : l.scanned ⊆ l'.scanned := List.Subset.trans hscanned hs
  exact h b l' d' w' hheld' hscanned' (L.rely_trans l hrely (L.rely_mono hheld hscanned hr))

omit [DecidableEq ρ] [DecidableEq V] in
/-- A tame program keeps its locks, and the committed state moves only as the rules allow. -/
theorem gwp_of_tame {p : Prog σ ρ τ κ ω Q A β} {P : β → Local σ ρ τ κ → σ → W → Prop}
    (hp : p.Tame) (hP : L.Kept P l d w) : L.gwp C r wk K p P l d w := by
  induction p generalizing l d w with
  | ret b => exact hP b l d w (List.Subset.refl _) (List.Subset.refl _) (L.rely_refl l d w)
  | read i q k ih =>
    exact fun d' w' hr _ => ih _ (hp _) (hP.next (List.Subset.refl _) (List.Subset.refl _) hr)
  | peek q k ih =>
    exact fun d' w' hr _ => ih _ (hp _) (hP.next (List.Subset.refl _) (List.Subset.refl _) hr)
  | lock m rows q k ih =>
    exact fun d' w' hr _ => ih _ (hp _)
      (hP.next (List.subset_append_right _ _) (List.Subset.refl _) hr)
  | lockTable t q k ih =>
    exact fun d' w' hr _ => ih _ (hp _) (hP.next (List.subset_append_right _ _)
      (fun u hu => Local.mem_scanned_takeTable.mpr (Or.inl hu)) hr)
  | ask q k ih =>
    exact fun d' w' hr hinv _ a w'' ha => ih _ (hp _) (hP.next (List.Subset.refl _)
      (List.Subset.refl _) (L.rely_trans l hr (L.answer_rely l hinv ha)))
  | emit o k ih => exact ih hp hP
  | commit w k => exact hp.elim
  | rollback k => exact hp.elim

omit [DecidableEq ρ] [DecidableEq V] in
/-- A program that commits nothing meets every precondition that needs nothing. -/
theorem gwp_of_readOnly {p : Prog σ ρ τ κ ω Q A β} {P : β → Local σ ρ τ κ → σ → W → Prop}
    (hp : p.ReadOnly) (hP : ∀ b l d w, P b l d w) : L.gwp C r wk K p P l d w := by
  induction p generalizing l d w with
  | ret b => exact hP b l d w
  | read i q k ih => exact fun d' w' _ _ => ih _ (hp _)
  | peek q k ih => exact fun d' w' _ _ => ih _ (hp _)
  | lock m rows q k ih => exact fun d' w' _ _ => ih _ (hp _)
  | lockTable t q k ih => exact fun d' w' _ _ => ih _ (hp _)
  | commit f k ih =>
    exact fun d' w' _ _ => ⟨fun _ => ih _ (hp.2 _), fun b d'' hf => (hp.1 d' b d'' hf).elim⟩
  | rollback k ih => exact fun d' w' _ _ => ih hp
  | ask q k ih => exact fun d' w' _ _ _ a w'' _ => ih _ (hp _)
  | emit o k ih => exact ih hp

/-! ### Soundness -/

variable (L C) in
/-- What soundness maintains of a reachable state. -/
structure Guarded (s : Sys M) : Prop where
  inv : L.Inv s.db s.world
  running : ∀ {i t p l}, s.Runs i t p l → ∃ d w, L.Rely l d w s.db s.world ∧
    L.gwp C t.request t.worker id p (fun _ _ _ _ => True) l d w

variable {t : Thread M} {p : Prog σ ρ τ κ ω Q A α}

omit [DecidableEq ρ] [DecidableEq V] in
/-- One thread changes its status; the others keep what they rely on. -/
theorem Guarded.update (hs : L.Guarded C s) {pid : ℕ} {x : Status σ ρ τ κ ω Q A α}
    (hth : s'.threads = s.setStatus pid t x) (hinv : L.Inv s'.db s'.world)
    (hrely : ∀ m ∈ s.others pid, L.Rely m s.db s.world s'.db s'.world)
    (hrun : ∀ q m, x = .running q m → ∃ d w, L.Rely m d w s'.db s'.world ∧
      L.gwp C t.request t.worker id q (fun _ _ _ _ => True) m d w) : L.Guarded C s' := by
  refine ⟨hinv, fun {i u q m} hi => ?_⟩
  obtain ⟨rfl, rfl, hx⟩ | ⟨hne, hi⟩ := runs_of_setStatus hth hi
  · exact hrun q m hx
  · obtain ⟨d, w, hr, hwp⟩ := hs.running hi
    have hm : m ∈ s.others pid := Sys.mem_others.mpr ⟨i, u, q, hne, hi⟩
    exact ⟨d, w, L.rely_trans m hr (hrely m hm), hwp⟩

/-- A statement of one thread preserves what soundness maintains. -/
theorem Guarded.advance (hs : L.Guarded C s) {pid : ℕ} (hr : s.Runs pid t p l)
    (hcompat : ∀ n ∈ s.others pid, l.Compat n) {q : Prog σ ρ τ κ ω Q A α} {m : Local σ ρ τ κ}
    {e : Effect σ ω} (ha : Txn.advance (s.others pid) s.db p l = some (q, m, e)) :
    L.Guarded C
      { db := e.db s.db
        world := s.world
        trace := s.trace ++ (e.events s.db).map (Prod.mk pid)
        threads := s.setStatus pid t (.running q m) } := by
  obtain ⟨d, w, hl, hwp⟩ := hs.running hr
  have hsame : ∀ n ∈ s.others pid, L.Rely n s.db s.world s.db s.world :=
    fun n _ => L.rely_refl n _ _
  -- a statement that writes nothing goes on from the present state
  have hquiet : e.db s.db = s.db →
      L.gwp C t.request t.worker id q (fun _ _ _ _ => True) m s.db s.world → L.Guarded C
      { db := e.db s.db
        world := s.world
        trace := s.trace ++ (e.events s.db).map (Prod.mk pid)
        threads := s.setStatus pid t (.running q m) } := by
    intro hdb hq
    refine hs.update rfl (by rw [hdb]; exact hs.inv) (by rw [hdb]; exact hsame) ?_
    rintro q' m' hx
    cases hx
    exact ⟨s.db, s.world, by rw [hdb]; exact L.rely_refl m _ _, hq⟩
  cases p with
  | ret a => simp [Txn.advance] at ha
  | ask q k => simp [Txn.advance] at ha
  | read i f k =>
    simp only [Txn.advance, Option.some.injEq, Prod.mk.injEq] at ha
    obtain ⟨rfl, rfl, rfl⟩ := ha
    exact hquiet rfl (hwp _ _ hl hs.inv)
  | peek f k =>
    simp only [Txn.advance, Option.some.injEq, Prod.mk.injEq] at ha
    obtain ⟨rfl, rfl, rfl⟩ := ha
    exact hquiet rfl (hwp _ _ hl hs.inv)
  | lock b rows f k =>
    simp only [Txn.advance] at ha
    split at ha
    · simp only [Option.some.injEq, Prod.mk.injEq] at ha
      obtain ⟨rfl, rfl, rfl⟩ := ha
      exact hquiet rfl (hwp _ _ hl hs.inv)
    · cases ha
  | lockTable u f k =>
    simp only [Txn.advance] at ha
    split at ha
    · simp only [Option.some.injEq, Prod.mk.injEq] at ha
      obtain ⟨rfl, rfl, rfl⟩ := ha
      exact hquiet rfl (hwp _ _ hl hs.inv)
    · cases ha
  | rollback k =>
    simp only [Txn.advance, Option.some.injEq, Prod.mk.injEq] at ha
    obtain ⟨rfl, rfl, rfl⟩ := ha
    exact hquiet rfl (hwp _ _ hl hs.inv)
  | emit o k =>
    simp only [Txn.advance, Option.some.injEq, Prod.mk.injEq] at ha
    obtain ⟨rfl, rfl, rfl⟩ := ha
    refine hs.update rfl hs.inv hsame fun q' m' hx => ?_
    cases hx
    exact ⟨d, w, hl, hwp⟩
  | commit f k =>
    simp only [Txn.advance] at ha
    split at ha
    next hf =>
      simp only [Option.some.injEq, Prod.mk.injEq] at ha
      obtain ⟨rfl, rfl, rfl⟩ := ha
      exact hquiet rfl ((hwp _ _ hl hs.inv).1 hf)
    next b d' hf =>
      split at ha
      next hgrant =>
        simp only [Option.some.injEq, Prod.mk.injEq] at ha
        obtain ⟨rfl, rfl, rfl⟩ := ha
        obtain ⟨hg, hk⟩ := (hwp _ _ hl hs.inv).2 b d' hf
        refine hs.update rfl (L.guar_inv hs.inv hg) (fun n hn => ?_) fun q' m' hx => ?_
        · exact L.guar_rely (hcompat n hn) hs.inv hg (quiet_eq_true.mp hgrant n hn)
        · cases hx
          exact ⟨d', s.world, L.rely_refl _ _ _, hk⟩
      · cases ha

/-- A step that keeps the promise preserves what soundness maintains, as long as the handler of a
new request meets its precondition. -/
theorem Guarded.step (hs : L.Guarded C s) {b : Label} (h : Step M b s s') (hC : Keeps C s b)
    (hcompat : ∀ {i t p l}, s.Runs i t p l → ∀ n ∈ s.others i, l.Compat n)
    (hv : ∀ t ∈ s'.threads, ∀ wk d w, L.Inv d w →
      L.gwp C t.request wk id (M.handler t.request) (fun _ _ _ _ => True) .fresh d w) :
    L.Guarded C s' := by
  cases h with
  | start r wk =>
    refine ⟨hs.inv, fun {i u q m} hi => ?_⟩
    obtain ⟨hget, hst⟩ := hi
    by_cases hlt : i < s.threads.length
    · rw [List.getElem?_append_left hlt] at hget
      exact hs.running ⟨hget, hst⟩
    · rw [List.getElem?_append_right (by omega), List.getElem?_singleton] at hget
      split at hget
      · cases hget
        cases hst
        have hmem : (⟨r, wk, .running (M.handler r) .fresh⟩ : Thread M) ∈
            s.threads ++ [⟨r, wk, .running (M.handler r) .fresh⟩] := by simp
        exact ⟨s.db, s.world, L.rely_refl _ _ _, hv _ hmem wk _ _ hs.inv⟩
      · cases hget
  | run hr ha => exact hs.advance hr (hcompat hr) ha
  | @ask _ pid t q k l a w' hr ha =>
    obtain ⟨d, w, hl, hwp⟩ := hs.running hr
    refine hs.update rfl (L.answer_inv hs.inv ha) (fun n _ => L.answer_rely n hs.inv ha) ?_
    rintro q' m' hx
    cases hx
    exact ⟨s.db, w', L.rely_refl _ _ _, hwp _ _ hl hs.inv (hC _ t _ l rfl hr) a w' ha⟩
  | finish hr =>
    exact hs.update rfl hs.inv (fun n _ => L.rely_refl n _ _) fun _ _ hx => by cases hx
  | crash hr =>
    exact hs.update rfl hs.inv (fun n _ => L.rely_refl n _ _) fun _ _ hx => by cases hx
  | drift h =>
    refine ⟨L.drift_inv hs.inv h, fun {i u q m} hi => ?_⟩
    obtain ⟨d, w, hl, hwp⟩ := hs.running hi
    exact ⟨d, w, L.rely_trans _ hl (L.drift_rely _ hs.inv h), hwp⟩

variable (M) in
/-- The rules that demand nothing. -/
def anything : Rules M where
  Inv _ _ := True
  Rely _ _ _ _ _ := True
  Guar _ _ _ _ _ := True
  Emit _ _ _ _ := True
  rely_refl _ _ _ := trivial
  rely_trans _ _ _ _ _ _ _ _ _ := trivial
  rely_mono _ _ _ := trivial
  guar_inv _ _ := trivial
  guar_rely _ _ _ _ := trivial
  answer_inv _ _ := trivial
  answer_rely _ _ _ := trivial
  drift_inv _ _ := trivial
  drift_rely _ _ _ := trivial

omit [DecidableEq ρ] [DecidableEq V] in
theorem wp_anything {p : Prog σ ρ τ κ ω Q A β} {c : Cfg M} :
    (anything M).wp r wk p (fun _ _ => True) c := by
  induction p generalizing c with
  | ret b => trivial
  | read i q k ih => exact fun _ _ _ => ih _
  | peek q k ih => exact fun _ _ _ => ih _
  | lock m rows q k ih => exact fun _ _ _ => ih _
  | lockTable t q k ih => exact fun _ _ _ => ih _
  | commit f k ih => exact fun _ _ _ => ⟨fun _ => ih _, fun _ _ _ => ⟨trivial, ih _⟩⟩
  | rollback k ih => exact fun _ _ _ => ih
  | ask q k ih => exact fun _ _ _ _ _ _ => ih _
  | emit o k ih => exact ⟨trivial, ih⟩

/-- The locks of distinct threads are compatible in every reachable state. -/
theorem compat_of_reach {d : σ} {w : W} (h : Reach (Sys.init d w) s) {i : ℕ}
    (hr : s.Runs i t p l) : ∀ n ∈ s.others i, l.Compat n := by
  have hcert : (anything M).Certified (fun _ _ _ => True) s :=
    certified_of_reach (fun _ _ _ _ _ => wp_anything) trivial h
  exact hcert.compat_others hr

/-- **Soundness**: in a run whose steps keep the promise, the invariant holds in every state
reached, when the handlers of all its requests meet their preconditions. -/
theorem inv_of_reachIf {S : R → Prop} (hv : ∀ r, S r → ∀ wk d w, L.Inv d w →
      L.gwp C r wk id (M.handler r) (fun _ _ _ _ => True) .fresh d w)
    {d : σ} {w : W} (hinit : L.Inv d w) (h : ReachIf (Keeps C) (Sys.init d w) s)
    (hS : ∀ t ∈ s.threads, S t.request) : L.Inv s.db s.world := by
  suffices hs : L.Guarded C s from hs.inv
  induction h with
  | refl => exact ⟨hinit, fun hi => by simp [Sys.init, Sys.Runs] at hi⟩
  | @tail s₁ s₂ hreach hstep ih =>
    obtain ⟨b, hb, hC⟩ := hstep
    have hold : ∀ t ∈ s₁.threads, S t.request := fun t ht => by
      obtain ⟨i, hget⟩ := List.mem_iff_getElem?.mp ht
      obtain ⟨t', ht', hreq, -⟩ := hb.threads hget
      exact hreq ▸ hS t' (List.mem_of_getElem? ht')
    exact (ih hold).step hb hC (fun hr => compat_of_reach (ReachIf.reach hreach) hr)
      fun t ht => hv t.request (hS t ht)

end Rules

end Txn
