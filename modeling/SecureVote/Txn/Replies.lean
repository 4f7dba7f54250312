import SecureVote.Txn.Transaction

/-!
# What a reply says about the state

A certificate relates a reply to the log of its thread. `Rules.reply_of_reach` relates it to the
committed state: when the handler of a request is verified to end in a state with `P`, and nobody
undoes `P`, then `P` holds from the reply on. The request may come late in a run: then its handler
starts in a state with everything that the run has established and keeps (`Rules.within`).
-/

namespace Txn

variable {σ ρ τ V κ ω : Type} {Q : Type} {A : Q → Type} {W R α β : Type}
  [DecidableEq κ] [Store σ ρ τ V] {M : Machine σ ρ τ κ ω Q A W R α}

namespace Rules

variable {L : Rules M} {r : R} {wk : ℕ} {c : Cfg M}

/-! ### Established facts -/

/-- The rules with one more invariant, which no commit undoes. -/
def within (L : Rules M) (φ : σ → Prop)
    (hφ : ∀ {r l d w d'}, L.Guar r l d w d' → φ d → φ d') : Rules M where
  Inv d w := L.Inv d w ∧ φ d
  Rely := L.Rely
  Guar := L.Guar
  Emit := L.Emit
  rely_refl := L.rely_refl
  rely_trans := L.rely_trans
  rely_mono := L.rely_mono
  guar_inv h hg := ⟨L.guar_inv h.1 hg, hφ hg h.2⟩
  guar_rely hc h := L.guar_rely hc h.1
  answer_inv h ha := ⟨L.answer_inv h.1 ha, h.2⟩
  answer_rely m h := L.answer_rely m h.1
  drift_inv h hd := ⟨L.drift_inv h.1 hd, h.2⟩
  drift_rely m h := L.drift_rely m h.1

/-- What is verified under the rules is verified with more invariants. -/
theorem wp_within {φ : σ → Prop} (hφ : ∀ {r l d w d'}, L.Guar r l d w d' → φ d → φ d')
    {p : Prog σ ρ τ κ ω Q A β} {P : β → Cfg M → Prop} (h : L.wp r wk p P c) :
    (L.within φ hφ).wp r wk p P c := by
  induction p generalizing c with
  | ret b => exact h
  | read i q k ih => exact fun d w hl => ih _ (h d w ⟨hl.1, hl.2.1⟩)
  | peek q k ih => exact fun d w hl => ih _ (h d w ⟨hl.1, hl.2.1⟩)
  | lock m rows q k ih => exact fun d w hl => ih _ (h d w ⟨hl.1, hl.2.1⟩)
  | lockTable t q k ih => exact fun d w hl => ih _ (h d w ⟨hl.1, hl.2.1⟩)
  | commit f k ih =>
    refine fun d w hl => ⟨fun hf => ih _ ((h d w ⟨hl.1, hl.2.1⟩).1 hf), fun b d' hf => ?_⟩
    obtain ⟨hg, hk⟩ := (h d w ⟨hl.1, hl.2.1⟩).2 b d' hf
    exact ⟨hg, ih _ hk⟩
  | rollback k ih => exact fun d w hl => ih (h d w ⟨hl.1, hl.2.1⟩)
  | ask q k ih => exact fun d w hl a w' ha => ih _ (h d w ⟨hl.1, hl.2.1⟩ a w' ha)
  | emit o k ih => exact ⟨h.1, ih h.2⟩

/-! ### Snapshots -/

/-- Every snapshot of the thread is related to the committed state. -/
def SnapsTo (T : σ → σ → Prop) (c : Cfg M) : Prop := ∀ i d, c.loc.snap i = some d → T d c.db

omit [DecidableEq κ] in
theorem SnapsTo.later {T : σ → σ → Prop} (htrans : ∀ d d' d'', T d d' → T d' d'' → T d d'')
    (hrely : ∀ d w d' w', L.Rely .fresh d w d' w' → T d d') (hc : SnapsTo T c) {d : σ} {w : W}
    (hl : L.Later c d w) : ∀ i d₀, c.loc.snap i = some d₀ → T d₀ d :=
  fun i d₀ hi => htrans _ _ _ (hc i d₀ hi) (hrely _ _ _ _ (L.rely_mono (by simp) (by simp) hl.1))

/-- What the others may do to the committed state relates the snapshots of a thread to it. -/
theorem wp_snapsTo {T : σ → σ → Prop} (hrefl : ∀ d, T d d)
    (htrans : ∀ d d' d'', T d d' → T d' d'' → T d d'')
    (hrely : ∀ d w d' w', L.Rely .fresh d w d' w' → T d d') {p : Prog σ ρ τ κ ω Q A β}
    {P : β → Cfg M → Prop} (h : L.wp r wk p P c) (hc : SnapsTo T c) :
    L.wp r wk p (fun b c' => P b c' ∧ SnapsTo T c') c := by
  have hfresh : ∀ {d w log}, SnapsTo T (⟨.fresh, d, w, log⟩ : Cfg M) := fun _ _ hi => by cases hi
  induction p generalizing c with
  | ret b => exact ⟨h, hc⟩
  | read i q k ih =>
    refine fun d w hl => ih _ (h d w hl) fun j d₁ hj => ?_
    have hlater := hc.later htrans hrely hl
    rcases eq_or_ne j i with rfl | hne
    · rw [Local.snap_look_self] at hj
      cases hj
      -- the snapshot of the connection is taken now, or there already
      unfold Local.view
      rcases hs : c.loc.snap j with _ | d₀
      · exact hrefl d
      · exact hlater j d₀ hs
    · exact hlater j d₁ ((Function.update_of_ne hne _ _).symm.trans hj)
  | peek q k ih => exact fun d w hl => ih _ (h d w hl) (hc.later htrans hrely hl)
  | lock m rows q k ih => exact fun d w hl => ih _ (h d w hl) (hc.later htrans hrely hl)
  | lockTable t q k ih => exact fun d w hl => ih _ (h d w hl) (hc.later htrans hrely hl)
  | commit f k ih =>
    refine fun d w hl => ⟨fun hf => ih _ ((h d w hl).1 hf) (hc.later htrans hrely hl),
      fun b d' hf => ?_⟩
    obtain ⟨hg, hk⟩ := (h d w hl).2 b d' hf
    exact ⟨hg, ih _ hk hfresh⟩
  | rollback k ih => exact fun d w hl => ih (h d w hl) hfresh
  | ask q k ih =>
    exact fun d w hl a w' ha => ih _ (h d w hl a w' ha) (hc.later htrans hrely hl)
  | emit o k ih => exact ⟨h.1, ih h.2 hc⟩

/-! ### Steps -/

variable [DecidableEq ρ] [DecidableEq V] {P₀ : R → α → List (Ev σ ω α) → Prop} {s s' s₀ : Sys M}

/-- A statement of a thread leads to a point of which its precondition holds. -/
theorem wp_advance {P : β → Cfg M → Prop} {p p' : Prog σ ρ τ κ ω Q A β}
    {others : List (Local σ ρ τ κ)} {m : Local σ ρ τ κ} {d : σ} {w : W} {e : Effect σ ω}
    (h : L.wp r wk p P c) (hl : L.Later c d w)
    (ha : Txn.advance others d p c.loc = some (p', m, e)) :
    ∃ c' : Cfg M, c'.loc = m ∧ L.Rely m c'.db c'.world (e.db d) w ∧ L.wp r wk p' P c' := by
  cases p with
  | ret a => simp [Txn.advance] at ha
  | ask q k => simp [Txn.advance] at ha
  | read i f k =>
    simp only [Txn.advance, Option.some.injEq, Prod.mk.injEq] at ha
    obtain ⟨rfl, rfl, rfl⟩ := ha
    exact ⟨⟨_, d, w, c.log⟩, rfl, L.rely_refl _ _ _, h d w hl⟩
  | peek f k =>
    simp only [Txn.advance, Option.some.injEq, Prod.mk.injEq] at ha
    obtain ⟨rfl, rfl, rfl⟩ := ha
    exact ⟨⟨_, d, w, c.log⟩, rfl, L.rely_refl _ _ _, h d w hl⟩
  | lock b rows f k =>
    simp only [Txn.advance] at ha
    split at ha
    · simp only [Option.some.injEq, Prod.mk.injEq] at ha
      obtain ⟨rfl, rfl, rfl⟩ := ha
      exact ⟨⟨_, d, w, c.log⟩, rfl, L.rely_refl _ _ _, h d w hl⟩
    · cases ha
  | lockTable u f k =>
    simp only [Txn.advance] at ha
    split at ha
    · simp only [Option.some.injEq, Prod.mk.injEq] at ha
      obtain ⟨rfl, rfl, rfl⟩ := ha
      exact ⟨⟨_, d, w, c.log⟩, rfl, L.rely_refl _ _ _, h d w hl⟩
    · cases ha
  | commit f k =>
    simp only [Txn.advance] at ha
    split at ha
    next hf =>
      simp only [Option.some.injEq, Prod.mk.injEq] at ha
      obtain ⟨rfl, rfl, rfl⟩ := ha
      exact ⟨⟨_, d, w, c.log⟩, rfl, L.rely_refl _ _ _, (h d w hl).1 hf⟩
    next b d' hf =>
      split at ha
      · simp only [Option.some.injEq, Prod.mk.injEq] at ha
        obtain ⟨rfl, rfl, rfl⟩ := ha
        exact ⟨⟨_, d', w, _⟩, rfl, L.rely_refl _ _ _, ((h d w hl).2 b d' hf).2⟩
      · cases ha
  | rollback k =>
    simp only [Txn.advance, Option.some.injEq, Prod.mk.injEq] at ha
    obtain ⟨rfl, rfl, rfl⟩ := ha
    exact ⟨⟨_, d, w, c.log⟩, rfl, L.rely_refl _ _ _, h d w hl⟩
  | emit o k =>
    simp only [Txn.advance, Option.some.injEq, Prod.mk.injEq] at ha
    obtain ⟨rfl, rfl, rfl⟩ := ha
    exact ⟨⟨_, c.db, c.world, c.log ++ [.emit o]⟩, rfl, hl.1, h.2⟩

/-- A step is one that a thread relies on, unless it is a step of that thread itself. -/
theorem Certified.rely_of_step (hs : L.Certified P₀ s) {b : Label} (h : Step M b s s')
    {m : Local σ ρ τ κ} (hm : m = .fresh ∨ ∃ i t p, s.Runs i t p m ∧ b ≠ .run i) :
    L.Rely m s.db s.world s'.db s'.world := by
  cases h with
  | start r wk => exact L.rely_refl _ _ _
  | finish hr => exact L.rely_refl _ _ _
  | crash hr => exact L.rely_refl _ _ _
  | ask hr ha => exact L.answer_rely m hs.inv ha
  | drift h => exact L.drift_rely m hs.inv h
  | @run _ pid t p p' l l' e hr ha =>
    cases e with
    | silent => exact L.rely_refl _ _ _
    | emit o => exact L.rely_refl _ _ _
    | write d' =>
      obtain ⟨d, w, hl, hwp⟩ := hs.running hr
      cases p with
      | commit f k =>
        simp only [Txn.advance] at ha
        split at ha
        · cases ha
        next b d₁ hf =>
          split at ha
          next hquiet =>
            cases ha
            have hguar := ((hwp _ _ ⟨hl, hs.inv⟩).2 _ _ hf).1
            rcases hm with rfl | ⟨i, u, q, hi, hne⟩
            · exact L.guar_rely (Local.compat_fresh l).symm hs.inv hguar (by simp)
            · have hother : m ∈ s.others pid :=
                Sys.mem_others.mpr ⟨i, u, q, fun heq => hne (heq ▸ rfl), hi⟩
              exact L.guar_rely (hs.compat_others hr m hother) hs.inv hguar
                (quiet_eq_true.mp hquiet m hother)
          · cases ha
      | lock m rows q k => simp only [Txn.advance] at ha; split at ha <;> cases ha
      | lockTable u q k => simp only [Txn.advance] at ha; split at ha <;> cases ha
      | _ => simp [Txn.advance] at ha

/-! ### Replies -/

/-- What is kept of the threads of the request `r` from the `n`-th thread on, whose handler ends in
states with `P`. -/
structure Replies (L : Rules M) (n : ℕ) (r : R) (P : α → σ → Prop) (s : Sys M) : Prop where
  inv : L.Inv s.db s.world
  running : ∀ {i t p l}, n ≤ i → s.Runs i t p l → t.request = r →
    ∃ c : Cfg M, c.loc = l ∧ L.Rely l c.db c.world s.db s.world ∧
      L.wp r t.worker p (fun a c => P a c.db) c
  finished : ∀ {i} {t : Thread M} {a}, n ≤ i → s.threads[i]? = some t → t.request = r →
    t.status = .finished a → P a s.db

variable {n : ℕ} {P : α → σ → Prop}

omit [DecidableEq κ] [Store σ ρ τ V] [DecidableEq ρ] [DecidableEq V] in
/-- The threads after one of them changed its status. -/
theorem getElem?_setStatus {i pid : ℕ} {t u : Thread M} {x : Status σ ρ τ κ ω Q A α}
    (h : (s.setStatus pid t x)[i]? = some u) :
    i = pid ∧ u = { t with status := x } ∨ s.threads[i]? = some u := by
  rw [Sys.setStatus, List.getElem?_set] at h
  split at h
  next heq =>
    split at h
    · cases h
      exact .inl ⟨heq.symm, rfl⟩
    · cases h
  · exact .inr h

omit [DecidableEq ρ] [DecidableEq V] in
/-- A step that changes the status of one thread at most. -/
theorem Replies.update (hs : L.Replies n r P s) (hinv : L.Inv s'.db s'.world)
    (hkeep : ∀ {a}, P a s.db → P a s'.db)
    (hrun : ∀ {i t p l}, n ≤ i → s'.Runs i t p l → t.request = r →
      (s.Runs i t p l ∧ L.Rely l s.db s.world s'.db s'.world) ∨
        ∃ c : Cfg M, c.loc = l ∧ L.Rely l c.db c.world s'.db s'.world ∧
          L.wp r t.worker p (fun a c => P a c.db) c)
    (hfin : ∀ {i} {t : Thread M} {a}, n ≤ i → s'.threads[i]? = some t → t.request = r →
      t.status = .finished a → s.threads[i]? = some t ∨ P a s'.db) : L.Replies n r P s' := by
  refine ⟨hinv, fun hi hr hreq => ?_, fun hi ht hreq ha => ?_⟩
  · rcases hrun hi hr hreq with ⟨hr, hrely⟩ | h
    · obtain ⟨c, hc, hl, hwp⟩ := hs.running hi hr hreq
      exact ⟨c, hc, L.rely_trans _ hl hrely, hwp⟩
    · exact h
  · rcases hfin hi ht hreq ha with ht | h
    · exact hkeep (hs.finished hi ht hreq ha)
    · exact h

/-- A step keeps what is known of the replies. -/
theorem Replies.step {L₀ : Rules M} (hcert : L₀.Certified P₀ s) (hrely : L₀.Rely = L.Rely)
    (hs : L.Replies n r P s) {b : Label} (h : Step M b s s') (hinv : L.Inv s'.db s'.world)
    (hP : ∀ {a d w d' w'}, L.Rely .fresh d w d' w' → P a d → P a d')
    (hv : ∀ wk d w, L.Inv d w →
      L.wp r wk (M.handler r) (fun a c => P a c.db) ⟨.fresh, d, w, []⟩) : L.Replies n r P s' := by
  have hother : ∀ {m}, (m = .fresh ∨ ∃ i t p, s.Runs i t p m ∧ b ≠ .run i) →
      L.Rely m s.db s.world s'.db s'.world := fun hm => hrely ▸ hcert.rely_of_step h hm
  have hkeep : ∀ {a}, P a s.db → P a s'.db := hP (hother (.inl rfl))
  cases h with
  | start r' wk =>
    have hnew : ∀ {i : ℕ} {u : Thread M},
        (s.threads ++ [(⟨r', wk, .running (M.handler r') .fresh⟩ : Thread M)])[i]? = some u →
        s.threads[i]? = some u ∨ u = ⟨r', wk, .running (M.handler r') .fresh⟩ := by
      intro i u hu
      rcases Nat.lt_or_ge i s.threads.length with hlt | hge
      · rw [List.getElem?_append_left hlt] at hu
        exact .inl hu
      · rw [List.getElem?_append_right hge, List.getElem?_singleton] at hu
        split at hu
        · cases hu
          exact .inr rfl
        · cases hu
    refine hs.update hinv hkeep (fun {i t p l} hi hr hreq => ?_) fun {i t a} hi ht hreq ha => ?_
    · rcases hnew hr.1 with ht | rfl
      · exact .inl ⟨⟨ht, hr.2⟩, L.rely_refl _ _ _⟩
      · obtain rfl : r' = r := hreq
        cases hr.2
        exact .inr ⟨_, rfl, L.rely_refl _ _ _, hv wk _ _ hs.inv⟩
    · rcases hnew ht with ht | rfl
      · exact .inl ht
      · cases ha
  | drift hd =>
    exact hs.update hinv hkeep (fun {i t p l} hi hr hreq => .inl ⟨hr, hother (.inr ⟨i, t, p, hr, by
      simp⟩)⟩) fun hi ht hreq ha => .inl ht
  | @run _ pid t p q l m e hr ha =>
    refine hs.update hinv hkeep (fun {i u q' m'} hi hr' hreq => ?_)
      fun {i u a} hi hu hreq hst => ?_
    · rcases runs_of_setStatus rfl hr' with ⟨rfl, rfl, hx⟩ | ⟨hne, hr'⟩
      · cases hx
        obtain ⟨c, rfl, hl, hwp⟩ := hs.running hi hr hreq
        exact .inr (wp_advance hwp ⟨hl, hs.inv⟩ ha)
      · exact .inl ⟨hr', hother (.inr ⟨i, u, q', hr', by
          rintro ⟨⟩
          exact hne rfl⟩)⟩
    · rcases getElem?_setStatus hu with ⟨-, rfl⟩ | hu
      · cases hst
      · exact .inl hu
  | @ask _ pid t q k l a w' hr ha =>
    refine hs.update hinv hkeep (fun {i u q' m'} hi hr' hreq => ?_)
      fun {i u a'} hi hu hreq hst => ?_
    · rcases runs_of_setStatus rfl hr' with ⟨rfl, rfl, hx⟩ | ⟨hne, hr'⟩
      · cases hx
        obtain ⟨c, rfl, hl, hwp⟩ := hs.running hi hr hreq
        exact .inr ⟨⟨_, s.db, w', c.log⟩, rfl, L.rely_refl _ _ _, hwp _ _ ⟨hl, hs.inv⟩ _ _ ha⟩
      · exact .inl ⟨hr', hother (.inr ⟨i, u, q', hr', by simp⟩)⟩
    · rcases getElem?_setStatus hu with ⟨-, rfl⟩ | hu
      · cases hst
      · exact .inl hu
  | @finish _ pid t a l hr =>
    refine hs.update hinv hkeep (fun {i u q' m'} hi hr' hreq => ?_)
      fun {i u a'} hi hu hreq hst => ?_
    · rcases runs_of_setStatus rfl hr' with ⟨rfl, rfl, hx⟩ | ⟨hne, hr'⟩
      · cases hx
      · exact .inl ⟨hr', L.rely_refl _ _ _⟩
    · rcases getElem?_setStatus hu with ⟨rfl, rfl⟩ | hu
      · cases hst
        obtain ⟨c, rfl, hl, hwp⟩ := hs.running hi hr hreq
        exact .inr (hP (L.rely_mono (by simp) (by simp) hl) hwp)
      · exact .inl hu
  | @crash _ pid t p l hr =>
    refine hs.update hinv hkeep (fun {i u q' m'} hi hr' hreq => ?_)
      fun {i u a'} hi hu hreq hst => ?_
    · rcases runs_of_setStatus rfl hr' with ⟨rfl, rfl, hx⟩ | ⟨hne, hr'⟩
      · cases hx
      · exact .inl ⟨hr', L.rely_refl _ _ _⟩
    · rcases getElem?_setStatus hu with ⟨-, rfl⟩ | hu
      · cases hst
      · exact .inl hu

/-- **A reply says what holds from then on.** A run has reached `s₀`, where `φ` holds, which no
commit undoes. A request that comes later ends in states with `P` when its handler starts in one
with `φ`, and nobody undoes `P`. Then `P` holds in every state after its reply. -/
theorem reply_of_reach {φ : σ → Prop} (hφ : ∀ {r l d w d'}, L.Guar r l d w d' → φ d → φ d')
    (hverified : L.Verified P₀) {d : σ} {w : W} (hi : L.Inv d w) (h₀ : Reach (Sys.init d w) s₀)
    (hφ₀ : φ s₀.db) (h : Reach s₀ s)
    (hP : ∀ {a d w d' w'}, L.Rely .fresh d w d' w' → P a d → P a d')
    (hv : ∀ wk d w, L.Inv d w → φ d →
      (L.within φ hφ).wp r wk (M.handler r) (fun a c => P a c.db) ⟨.fresh, d, w, []⟩)
    {i : ℕ} {t : Thread M} {a : α} (hlate : s₀.threads.length ≤ i) (ht : s.threads[i]? = some t)
    (hr : t.request = r) (ha : t.status = .finished a) : P a s.db := by
  suffices hs : (L.within φ hφ).Replies s₀.threads.length r P s from hs.finished hlate ht hr ha
  clear ht ha hr
  induction h with
  | refl =>
    have hno : ∀ {i : ℕ} {u : Thread M}, s₀.threads.length ≤ i → s₀.threads[i]? ≠ some u :=
      fun hi hu => absurd (List.getElem?_eq_some_iff.mp hu).1 (by omega)
    exact ⟨⟨(certified_of_reach hverified hi h₀).inv, hφ₀⟩, fun hi hr => absurd hr.1 (hno hi),
      fun hi ht => absurd ht (hno hi)⟩
  | @tail s₁ s₂ hreach hstep ih =>
    obtain ⟨b, hb, -⟩ := hstep
    have hcert := certified_of_reach hverified hi (h₀.trans hreach)
    refine ih.step hcert rfl hb ⟨(hcert.step hverified hb).inv, ?_⟩ hP
      fun wk d w hd => hv wk d w hd.1 hd.2
    rcases hcert.write_of_step hb with ⟨hdb, -⟩ | ⟨pid, t, p, l, -, -, -, hguar, -, -⟩
    · rw [hdb]
      exact ih.inv.2
    · exact hφ hguar ih.inv.2

end Rules

end Txn
