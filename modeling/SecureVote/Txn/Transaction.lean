import SecureVote.Txn.Trace

/-!
# Inside a transaction

Between two commits a thread only gains: it keeps its locks and snapshots, and the committed
state moves along the rely relation of what it holds. `Rules.Ext c c'` says that `c'` is such a
later point of the same transaction, and each statement has a specification in these terms, so
that facts established under a lock are carried to the commit by transitivity.
-/

namespace Txn

variable {σ ρ τ V κ ω : Type} {Q : Type} {A : Q → Type} {W R α β γ : Type}

/-- The committed writes of a log, in order. -/
def writes (log : List (Ev σ ω α)) : List (σ × σ) :=
  log.filterMap fun e => match e with
    | .write d d' => some (d, d')
    | _ => none

@[simp]
theorem writes_nil : writes ([] : List (Ev σ ω α)) = [] := rfl

@[simp]
theorem writes_append (log log' : List (Ev σ ω α)) :
    writes (log ++ log') = writes log ++ writes log' :=
  List.filterMap_append

@[simp]
theorem writes_write (d d' : σ) : writes ([.write d d'] : List (Ev σ ω α)) = [(d, d')] := rfl

@[simp]
theorem writes_emit (o : ω) : writes ([.emit o] : List (Ev σ ω α)) = [] := rfl

@[simp]
theorem writes_reply (a : α) : writes ([.reply a] : List (Ev σ ω α)) = [] := rfl

theorem mem_writes {log : List (Ev σ ω α)} {d d' : σ} :
    (d, d') ∈ writes log ↔ Ev.write d d' ∈ log := by
  simp only [writes, List.mem_filterMap]
  constructor
  · rintro ⟨e, he, h⟩
    cases e with
    | write a b =>
      cases h
      exact he
    | emit o => cases h
    | reply a => cases h
  · exact fun h => ⟨_, h, rfl⟩

variable [DecidableEq κ] [Store σ ρ τ V]

namespace Rules

variable {M : Machine σ ρ τ κ ω Q A W R α} (L : Rules M)

/-- `c'` is a later point of the transaction that `c` is in. -/
structure Ext (c c' : Cfg M) : Prop where
  held : c.loc.held ⊆ c'.loc.held
  scanned : c.loc.scanned ⊆ c'.loc.scanned
  snap : ∀ {i d}, c.loc.snap i = some d → c'.loc.snap i = some d
  rely : L.Rely c.loc c.db c.world c'.db c'.world
  inv : L.Inv c.db c.world → L.Inv c'.db c'.world
  writes_eq : writes c'.log = writes c.log

variable {L} {r : R} {wk : ℕ} {c c₁ c₂ : Cfg M}

omit [DecidableEq κ] in
theorem Ext.refl (c : Cfg M) : L.Ext c c :=
  ⟨fun _ h => h, fun _ h => h, fun h => h, L.rely_refl _ _ _, fun h => h, rfl⟩

omit [DecidableEq κ] in
theorem Ext.trans (h₁ : L.Ext c c₁) (h₂ : L.Ext c₁ c₂) : L.Ext c c₂ :=
  ⟨fun _ h => h₂.held (h₁.held h), fun _ h => h₂.scanned (h₁.scanned h),
    fun h => h₂.snap (h₁.snap h),
    L.rely_trans _ h₁.rely (L.rely_mono h₁.held h₁.scanned h₂.rely),
    fun h => h₂.inv (h₁.inv h), h₂.writes_eq.trans h₁.writes_eq⟩

omit [DecidableEq κ] in
/-- What a transaction goes through when nothing else happens to it. -/
theorem Ext.of_later {d : σ} {w : W} (h : L.Later c d w) : L.Ext c ⟨c.loc, d, w, c.log⟩ :=
  ⟨fun _ h => h, fun _ h => h, fun h => h, h.1, fun _ => h.2, rfl⟩

/-! ### Specifications of the statements -/

/-- A plain `SELECT` reads the snapshot of its connection, which it fixes to the latest
committed state when there is none. -/
theorem spec_select (i : κ) (q : σ → β) :
    L.wp r wk (Prog.select i q) (fun b c' => L.Ext c c' ∧ ∃ d, c'.loc.snap i = some d ∧ b = q d ∧
      (c.loc.snap i = none → d = c'.db) ∧ (∀ j ≠ i, c'.loc.snap j = c.loc.snap j) ∧
      c'.loc.held = c.loc.held) c := by
  refine wp_select.mpr fun d w hl => ⟨⟨fun _ h => h, fun _ h => h, fun {j e} h => ?_, hl.1,
    fun _ => hl.2, rfl⟩, c.loc.view i d, Local.snap_look_self _ _ _, rfl, fun h => ?_,
    fun j hj => Function.update_of_ne hj _ _, rfl⟩
  · rcases eq_or_ne j i with rfl | hne
    · rw [Local.snap_look_self, Local.view, h]
      rfl
    · exact (Function.update_of_ne hne _ _).trans h
  · rw [Local.view, h]
    rfl

/-- A read on a separate connection sees the latest committed state. -/
theorem spec_selectLatest (q : σ → β) :
    L.wp r wk (Prog.selectLatest q)
      (fun b c' => L.Ext c c' ∧ b = q c'.db ∧ c'.loc = c.loc) c :=
  wp_selectLatest.mpr fun _ _ hl => ⟨Ext.of_later hl, rfl, rfl⟩

/-- A locking `SELECT` reads the latest committed state and holds the rows it found. -/
theorem spec_selectLocking (m : Mode) (rows : σ → List ρ) (q : σ → β) :
    L.wp r wk (Prog.selectLocking m rows q) (fun b c' => L.Ext c c' ∧ b = q c'.db ∧
      (∀ x ∈ rows c'.db, (Store.val c'.db x).isSome → (x, m) ∈ c'.loc.held) ∧
      c'.loc.snap = c.loc.snap) c := by
  refine wp_selectLocking.mpr fun d w hl => ⟨⟨fun _ h => List.mem_append_right _ h, fun _ h => h,
    fun h => h, hl.1, fun _ => hl.2, rfl⟩, rfl, fun x hx hs => ?_, rfl⟩
  exact List.mem_append_left _ (List.mem_map_of_mem (mem_found.mpr ⟨hx, hs⟩))

/-- A locking scan holds every row of the table, and counts as a scan when there is one. -/
theorem spec_selectTable (t : τ) (q : σ → β) :
    L.wp r wk (Prog.selectTable t q) (fun b c' => L.Ext c c' ∧ b = q c'.db ∧
      (∀ x, Store.table σ x = t → (Store.val c'.db x).isSome →
        (x, Mode.exclusive) ∈ c'.loc.held ∧ t ∈ c'.loc.scanned) ∧
      c'.loc.snap = c.loc.snap) c := by
  refine wp_selectTable.mpr fun d w hl => ⟨⟨fun _ h => List.mem_append_right _ h,
    fun _ h => Local.mem_scanned_takeTable.mpr (Or.inl h), fun h => h, hl.1, fun _ => hl.2, rfl⟩,
    rfl, fun x hx hs => ?_, rfl⟩
  have hmem : x ∈ Store.rows d t := Store.mem_rows.mpr ⟨hx, hs⟩
  exact ⟨List.mem_append_left _ (List.mem_map_of_mem hmem),
    Local.mem_scanned_takeTable.mpr (Or.inr ⟨rfl, List.ne_nil_of_mem hmem⟩)⟩

/-- A call changes nothing of the transaction. -/
theorem spec_call (q : Q) :
    L.wp r wk (Prog.call q) (fun a c' => L.Ext c c' ∧ c'.loc = c.loc ∧
      ∃ w, M.answer wk w q a c'.world ∧ L.Ext c ⟨c.loc, c'.db, w, c.log⟩) c := by
  refine wp_call.mpr fun d w hl a w' ha => ⟨(Ext.of_later hl).trans ⟨fun _ h => h, fun _ h => h,
    fun h => h, L.answer_rely _ hl.2 ha, fun h => L.answer_inv h ha, rfl⟩, rfl, w, ha,
    Ext.of_later hl⟩

/-- An allowed event changes nothing of the transaction. -/
theorem spec_report {o : ω} (h : L.Emit r c.loc c.log o) :
    L.wp r wk (Prog.report o : Prog σ ρ τ κ ω Q A Unit)
      (fun _ c' => L.Ext c c' ∧ c'.loc = c.loc) c :=
  wp_report.mpr ⟨h, ⟨fun _ h => h, fun _ h => h, fun h => h, L.rely_refl _ _ _, fun h => h,
    by simp⟩, rfl⟩

/-- A rollback gives up the locks and the snapshots. -/
theorem spec_abort :
    L.wp r wk (Prog.abort : Prog σ ρ τ κ ω Q A Unit)
      (fun _ c' => c'.loc = .fresh ∧ writes c'.log = writes c.log) c :=
  wp_abort.mpr fun _ _ _ => ⟨rfl, rfl⟩

/-- A commit: a refused write leaves the transaction open, an accepted one must satisfy the
guarantee and ends it. -/
theorem spec_write {f : σ → Option (β × σ)} {P : Option β → Cfg M → Prop}
    (hnone : ∀ c', L.Ext c c' → c'.log = c.log → f c'.db = none → P none c')
    (hsome : ∀ c', L.Ext c c' → c'.loc = c.loc → L.Inv c'.db c'.world →
      ∀ b d', f c'.db = some (b, d') →
      L.Guar r c.loc c'.db c'.world d' ∧
        P (some b) ⟨.fresh, d', c'.world, c.log ++ [.write c'.db d']⟩) :
    L.wp r wk (Prog.write f) P c :=
  wp_write.mpr fun _ _ hl => ⟨fun hf => hnone _ (Ext.of_later hl) rfl hf,
    fun _ _ hf => hsome _ (Ext.of_later hl) rfl hl.2 _ _ hf⟩

/-- A silent program leaves the log as it is. -/
theorem wp_silent {p : Prog σ ρ τ κ ω Q A β} {P : β → Cfg M → Prop} (hp : p.Silent)
    (h : L.wp r wk p P c) : L.wp r wk p (fun b c' => P b c' ∧ c'.log = c.log) c := by
  induction p generalizing c with
  | ret b => exact ⟨h, rfl⟩
  | read i q k ih => exact fun d w hl => ih _ (hp _) (h d w hl)
  | peek q k ih => exact fun d w hl => ih _ (hp _) (h d w hl)
  | lock m rows q k ih => exact fun d w hl => ih _ (hp _) (h d w hl)
  | lockTable t q k ih => exact fun d w hl => ih _ (hp _) (h d w hl)
  | rollback k ih => exact fun d w hl => ih hp (h d w hl)
  | ask q k ih => exact fun d w hl a w' ha => ih a (hp a) (h d w hl a w' ha)
  | commit f k => exact hp.elim
  | emit o k => exact hp.elim

/-- Sequencing through a specification. -/
theorem wp_bind_of {p : Prog σ ρ τ κ ω Q A β} {f : β → Prog σ ρ τ κ ω Q A γ}
    {S : β → Cfg M → Prop} {P : γ → Cfg M → Prop} (hp : L.wp r wk p S c)
    (hf : ∀ b c', S b c' → L.wp r wk (f b) P c') : L.wp r wk (p >>= f) P c :=
  wp_bind.mpr (wp_mono hp hf)

/-- Sequencing after a silent program. -/
theorem wp_bind_silent {p : Prog σ ρ τ κ ω Q A β} {f : β → Prog σ ρ τ κ ω Q A γ}
    {S : β → Cfg M → Prop} {P : γ → Cfg M → Prop} (hs : p.Silent) (hp : L.wp r wk p S c)
    (hf : ∀ b c', S b c' → c'.log = c.log → L.wp r wk (f b) P c') : L.wp r wk (p >>= f) P c :=
  wp_bind_of (wp_silent hs hp) fun b c' h => hf b c' h.1 h.2

end Rules

end Txn
