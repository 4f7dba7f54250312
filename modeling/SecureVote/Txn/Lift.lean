import SecureVote.Txn.Transaction

/-!
# Programs over a part of the state

A store may be a part of a larger one: its rows, events and calls are some of the larger store's.
`Embedding` says how, and `Prog.lift` runs a program of the part in the whole. What has been
verified of the program under the rules of the part carries over to the rules of the whole
(`Lifts.wp`). Of a program that is not verified on its own, `Prog.Writes` bounds the commits.
-/

namespace Txn

variable {σ ρ τ V κ ω : Type} {Q : Type} {A : Q → Type} {W R α β γ : Type}
  {σ' ρ' τ' V' ω' : Type} {Q' : Type} {A' : Q' → Type} {W' R' α' : Type}

/-- How a store is a part of another: the larger states hold a state of it, and its rows and
tables are some of theirs. -/
structure Embedding (σ ρ τ ω : Type) (Q : Type) (A : Q → Type) (σ' ρ' τ' ω' : Type) (Q' : Type)
    (A' : Q' → Type) where
  get : σ' → σ
  set : σ' → σ → σ'
  row : ρ → ρ'
  row? : ρ' → Option ρ
  table : τ → τ'
  table? : τ' → Option τ
  event : ω → ω'
  query : Q → Q'
  answer : ∀ q, A' (query q) → A q
  get_set : ∀ d b, get (set d b) = b
  row_inv : Function.IsPartialInv row row?
  table_inv : Function.IsPartialInv table table?

/-- A program of the part, run in the whole. -/
def Prog.lift (X : Embedding σ ρ τ ω Q A σ' ρ' τ' ω' Q' A') :
    Prog σ ρ τ κ ω Q A α → Prog σ' ρ' τ' κ ω' Q' A' α
  | .ret a => .ret a
  | .read c q k => .read c (fun d => q (X.get d)) fun b => (k b).lift X
  | .peek q k => .peek (fun d => q (X.get d)) fun b => (k b).lift X
  | .lock m rows q k =>
      .lock m (fun d => (rows (X.get d)).map X.row) (fun d => q (X.get d)) fun b => (k b).lift X
  | .lockTable t q k => .lockTable (X.table t) (fun d => q (X.get d)) fun b => (k b).lift X
  | .commit w k =>
      .commit (fun d => (w (X.get d)).map fun x => (x.1, X.set d x.2)) fun b => (k b).lift X
  | .rollback k => .rollback (k.lift X)
  | .ask q k => .ask (X.query q) fun a => (k (X.answer q a)).lift X
  | .emit o k => .emit (X.event o) (k.lift X)

/-! ### The commits of a program -/

/-- Every commit of the program relates the states before and after it by `Φ`. -/
def Prog.Writes (Φ : σ → σ → Prop) : Prog σ ρ τ κ ω Q A α → Prop
  | .ret _ => True
  | .read _ _ k => ∀ b, (k b).Writes Φ
  | .peek _ k => ∀ b, (k b).Writes Φ
  | .lock _ _ _ k => ∀ b, (k b).Writes Φ
  | .lockTable _ _ k => ∀ b, (k b).Writes Φ
  | .commit w k => (∀ d b d', w d = some (b, d') → Φ d d') ∧ ∀ b, (k b).Writes Φ
  | .rollback k => k.Writes Φ
  | .ask _ k => ∀ a, (k a).Writes Φ
  | .emit _ k => k.Writes Φ

/-- The program has no commits. -/
abbrev Prog.ReadOnly (p : Prog σ ρ τ κ ω Q A α) : Prop := p.Writes fun _ _ => False

theorem Prog.Writes.mono {Φ Ψ : σ → σ → Prop} (h : ∀ d d', Φ d d' → Ψ d d')
    {p : Prog σ ρ τ κ ω Q A α} (hp : p.Writes Φ) : p.Writes Ψ := by
  induction p with
  | ret a => exact trivial
  | read c q k ih => exact fun b => ih b (hp b)
  | peek q k ih => exact fun b => ih b (hp b)
  | lock m rows q k ih => exact fun b => ih b (hp b)
  | lockTable t q k ih => exact fun b => ih b (hp b)
  | commit w k ih => exact ⟨fun d b d' hw => h _ _ (hp.1 d b d' hw), fun b => ih b (hp.2 b)⟩
  | rollback k ih => exact ih hp
  | ask q k ih => exact fun a => ih a (hp a)
  | emit o k ih => exact ih hp

theorem Prog.Writes.bind {Φ : σ → σ → Prop} {p : Prog σ ρ τ κ ω Q A α}
    {f : α → Prog σ ρ τ κ ω Q A β} (hp : p.Writes Φ) (hf : ∀ a, (f a).Writes Φ) :
    (p >>= f).Writes Φ := by
  rw [Prog.bind_def]
  induction p with
  | ret a => exact hf a
  | read c q k ih => exact fun b => ih b (hp b)
  | peek q k ih => exact fun b => ih b (hp b)
  | lock m rows q k ih => exact fun b => ih b (hp b)
  | lockTable t q k ih => exact fun b => ih b (hp b)
  | commit w k ih => exact ⟨hp.1, fun b => ih b (hp.2 b)⟩
  | rollback k ih => exact ih hp
  | ask q k ih => exact fun a => ih a (hp a)
  | emit o k ih => exact ih hp

/-! ### Rules of the part and of the whole -/

section Loc

variable {X : Embedding σ ρ τ ω Q A σ' ρ' τ' ω' Q' A'}

/-- The transaction-local state, as the part sees it. -/
def Embedding.loc (X : Embedding σ ρ τ ω Q A σ' ρ' τ' ω' Q' A') (l : Local σ' ρ' τ' κ) :
    Local σ ρ τ κ where
  held := l.held.filterMap fun h => (X.row? h.1).map fun r => (r, h.2)
  scanned := l.scanned.filterMap X.table?
  snap c := (l.snap c).map X.get

theorem Embedding.mem_held {l : Local σ' ρ' τ' κ} {r : ρ} {m : Mode} :
    (r, m) ∈ (X.loc l).held ↔ (X.row r, m) ∈ l.held := by
  simp only [Embedding.loc, List.mem_filterMap, Option.map_eq_some_iff, Prod.exists, Prod.mk.injEq]
  constructor
  · rintro ⟨r', m', hmem, r₁, hr₁, rfl, rfl⟩
    rw [(X.row_inv _ _).mp hr₁]
    exact hmem
  · exact fun h => ⟨_, _, h, r, X.row_inv.eq r, rfl, rfl⟩

theorem Embedding.mem_scanned {l : Local σ' ρ' τ' κ} {t : τ} :
    t ∈ (X.loc l).scanned ↔ X.table t ∈ l.scanned := by
  simp only [Embedding.loc, List.mem_filterMap]
  constructor
  · rintro ⟨t', hmem, ht⟩
    rw [(X.table_inv _ _).mp ht]
    exact hmem
  · exact fun h => ⟨_, h, X.table_inv.eq t⟩

theorem Embedding.compat {l m : Local σ' ρ' τ' κ} (h : l.Compat m) :
    (X.loc l).Compat (X.loc m) :=
  ⟨fun r a b ha hb => h.1 (X.row r) a b (X.mem_held.mp ha) (X.mem_held.mp hb),
    fun t ht ht' => h.2 (X.table t) (X.mem_scanned.mp ht) (X.mem_scanned.mp ht')⟩

theorem Embedding.loc_fresh : X.loc (.fresh : Local σ' ρ' τ' κ) = .fresh := rfl

theorem Embedding.view_loc (l : Local σ' ρ' τ' κ) (c : κ) (d : σ') :
    (X.loc l).view c (X.get d) = X.get (l.view c d) := by
  show ((l.snap c).map X.get).getD (X.get d) = X.get ((l.snap c).getD d)
  cases l.snap c <;> rfl

theorem Embedding.loc_look [DecidableEq κ] (l : Local σ' ρ' τ' κ) (c : κ) (d : σ') :
    X.loc (l.look c d) = (X.loc l).look c (X.get d) := by
  have hsnap : (fun i => (Function.update l.snap c (some (l.view c d)) i).map X.get) =
      Function.update (fun i => (l.snap i).map X.get) c
        (some ((X.loc l).view c (X.get d))) := by
    funext i
    rcases eq_or_ne i c with rfl | hne
    · simp [Embedding.view_loc]
    · simp [Function.update_of_ne hne]
  exact congrArg (Local.mk (X.loc l).held (X.loc l).scanned) hsnap

theorem Embedding.held_row (rows : List ρ) (m : Mode) (held : List (ρ' × Mode)) :
    ((rows.map X.row).map (·, m) ++ held).filterMap
        (fun h => (X.row? h.1).map fun r => (r, h.2)) =
      rows.map (·, m) ++ held.filterMap fun h => (X.row? h.1).map fun r => (r, h.2) := by
  rw [List.filterMap_append, List.map_map, List.filterMap_map]
  congr 1
  have hsome : ((fun h : ρ' × Mode => (X.row? h.1).map fun r => (r, h.2)) ∘
      (fun r => (r, m)) ∘ X.row) = some ∘ fun r => (r, m) := by
    funext r
    simp [X.row_inv.eq]
  rw [hsome, List.filterMap_eq_map]

theorem Embedding.loc_take (l : Local σ' ρ' τ' κ) (rows : List ρ) (m : Mode) :
    X.loc (l.take (rows.map X.row) m) = (X.loc l).take rows m := by
  have hheld := X.held_row rows m l.held
  exact congrArg (fun held => Local.mk held (X.loc l).scanned (X.loc l).snap) hheld

theorem Embedding.loc_takeTable (l : Local σ' ρ' τ' κ) (t : τ) (rows : List ρ) :
    X.loc (l.takeTable (X.table t) (rows.map X.row)) = (X.loc l).takeTable t rows := by
  have hheld := X.held_row rows .exclusive l.held
  have hscanned : (if (rows.map X.row).isEmpty then l.scanned else X.table t :: l.scanned).filterMap
      X.table? = if rows.isEmpty then (X.loc l).scanned else t :: (X.loc l).scanned := by
    cases rows with
    | nil => rfl
    | cons r rows => simp [X.table_inv.eq, Embedding.loc]
  exact congrArg₂ (fun held scanned => Local.mk held scanned (X.loc l).snap) hheld hscanned

end Loc

section Wp

variable [DecidableEq κ] [Store σ ρ τ V] [Store σ' ρ' τ' V']
  {M : Machine σ ρ τ κ ω Q A W R α} {M' : Machine σ' ρ' τ' κ ω' Q' A' W' R' α'}
  {L : Rules M} {L' : Rules M'} {X : Embedding σ ρ τ ω Q A σ' ρ' τ' ω' Q' A'}

open Rules

/-- The part holds the rows of its tables, and the same of them exist in the whole. -/
structure Embedding.Holds (X : Embedding σ ρ τ ω Q A σ' ρ' τ' ω' Q' A') : Prop where
  val : ∀ d r, (Store.val d (X.row r)).isSome = (Store.val (X.get d) r).isSome
  rows : ∀ d t, Store.rows d (X.table t) = (Store.rows (X.get d) t).map X.row

omit [DecidableEq κ] in
theorem Embedding.Holds.found (hX : X.Holds) (d : σ') (rows : List ρ) :
    found d (rows.map X.row) = (Txn.found (X.get d) rows).map X.row := by
  rw [Txn.found, Txn.found, List.filter_map]
  refine congrArg _ (List.filter_congr fun r _ => ?_)
  exact hX.val d r

/-- How the rules of a part, for a request `r` of it, are met in the whole by the request `r'`. -/
structure Lifts (X : Embedding σ ρ τ ω Q A σ' ρ' τ' ω' Q' A') (L : Rules M) (L' : Rules M')
    (π : W' → W) (r : R) (r' : R') : Prop where
  holds : X.Holds
  rely : ∀ {l d w d₁ w₁}, L'.Rely l d w d₁ w₁ →
    L.Rely (X.loc l) (X.get d) (π w) (X.get d₁) (π w₁)
  inv : ∀ {d w}, L'.Inv d w → L.Inv (X.get d) (π w)
  answer : ∀ {wk w q a w₁}, M'.answer wk w (X.query q) a w₁ →
    M.answer wk (π w) q (X.answer q a) (π w₁)
  guar : ∀ {l d w b}, L.Guar r (X.loc l) (X.get d) (π w) b → L'.Guar r' l d w (X.set d b)
  emit : ∀ {l log o}, L'.Emit r' l log (X.event o)

/-- **A verified program of the part is verified in the whole.** -/
theorem Lifts.wp {π : W' → W} {r : R} {r' : R'} (h : Lifts X L L' π r r') {wk : ℕ}
    {p : Prog σ ρ τ κ ω Q A β} {P : β → Cfg M → Prop} {c : Cfg M'} {g : List (Ev σ ω α)}
    (hp : L.wp r wk p P ⟨X.loc c.loc, X.get c.db, π c.world, g⟩) :
    L'.wp r' wk (p.lift X)
      (fun b c' => ∃ log, P b ⟨X.loc c'.loc, X.get c'.db, π c'.world, log⟩) c := by
  induction p generalizing c g with
  | ret b => exact ⟨g, hp⟩
  | read i q k ih =>
    refine fun d w hl => ih _ (g := g) ?_
    have hk := hp (X.get d) (π w) ⟨h.rely hl.1, h.inv hl.2⟩
    dsimp only at hk
    rw [Embedding.view_loc, ← Embedding.loc_look] at hk
    exact hk
  | peek q k ih =>
    exact fun d w hl => ih _ (g := g) (hp (X.get d) (π w) ⟨h.rely hl.1, h.inv hl.2⟩)
  | lock m rows q k ih =>
    refine fun d w hl => ih _ (g := g) ?_
    have hk := hp (X.get d) (π w) ⟨h.rely hl.1, h.inv hl.2⟩
    rw [h.holds.found, Embedding.loc_take]
    exact hk
  | lockTable t q k ih =>
    refine fun d w hl => ih _ (g := g) ?_
    have hk := hp (X.get d) (π w) ⟨h.rely hl.1, h.inv hl.2⟩
    rw [h.holds.rows, Embedding.loc_takeTable]
    exact hk
  | commit f k ih =>
    refine fun d w hl => ?_
    obtain ⟨hnone, hsome⟩ := hp (X.get d) (π w) ⟨h.rely hl.1, h.inv hl.2⟩
    constructor
    · intro hf
      exact ih _ (g := g) (hnone (Option.map_eq_none_iff.mp hf))
    · intro b d' hf
      obtain ⟨x, hx, heq⟩ := Option.map_eq_some_iff.mp hf
      cases heq
      obtain ⟨hguar, hk⟩ := hsome x.1 x.2 hx
      refine ⟨h.guar hguar, ih _ (g := g ++ [.write (X.get d) x.2]) ?_⟩
      dsimp only
      rw [Embedding.loc_fresh, X.get_set]
      exact hk
  | rollback k ih =>
    exact fun d w hl => ih (g := g) (hp (X.get d) (π w) ⟨h.rely hl.1, h.inv hl.2⟩)
  | ask q k ih =>
    refine fun d w hl a w' ha => ih _ (g := g) ?_
    exact hp (X.get d) (π w) ⟨h.rely hl.1, h.inv hl.2⟩ _ _ (h.answer ha)
  | emit o k ih => exact ⟨h.emit, ih (g := g ++ [.emit o]) hp.2⟩

/-- A lifted program whose commits are bounded: its events are events of the part. -/
theorem wp_lift {Φ : σ → σ → Prop} {p : Prog σ ρ τ κ ω Q A β} (hp : p.Writes Φ) {r : R'} {wk : ℕ}
    {c : Cfg M'} (hguar : ∀ l d w b, Φ (X.get d) b → L'.Guar r l d w (X.set d b))
    (hemit : ∀ l log o, L'.Emit r l log (X.event o)) :
    L'.wp r wk (p.lift X) (fun _ c' => ∀ e ∈ c'.log, e ∈ c.log ∨ (∃ d d', e = .write d d') ∨
      ∃ o, e = .emit (X.event o)) c := by
  suffices h : ∀ c₁ : Cfg M', (∀ e ∈ c₁.log, e ∈ c.log ∨ (∃ d d', e = .write d d') ∨
      ∃ o, e = .emit (X.event o)) →
      L'.wp r wk (p.lift X) (fun _ c' => ∀ e ∈ c'.log, e ∈ c.log ∨ (∃ d d', e = .write d d') ∨
        ∃ o, e = .emit (X.event o)) c₁ from h c fun e he => .inl he
  have hsnoc : ∀ {log : List (Ev σ' ω' α')} {x},
      (∀ e ∈ log, e ∈ c.log ∨ (∃ d d', e = .write d d') ∨ ∃ o, e = .emit (X.event o)) →
      ((∃ d d', x = .write d d') ∨ ∃ o, x = .emit (X.event o)) → ∀ e ∈ log ++ [x],
        e ∈ c.log ∨ (∃ d d', e = .write d d') ∨ ∃ o, e = .emit (X.event o) := by
    intro log x hlog hx e he
    rcases List.mem_append.mp he with he | he
    · exact hlog e he
    · rw [List.mem_singleton.mp he]
      exact .inr hx
  induction p with
  | ret a => exact fun c₁ hev => hev
  | read i q k ih => exact fun c₁ hev d w _ => ih _ (hp _) _ hev
  | peek q k ih => exact fun c₁ hev d w _ => ih _ (hp _) _ hev
  | lock m rows q k ih => exact fun c₁ hev d w _ => ih _ (hp _) _ hev
  | lockTable t q k ih => exact fun c₁ hev d w _ => ih _ (hp _) _ hev
  | commit f k ih =>
    refine fun c₁ hev d w _ => ⟨fun _ => ih _ (hp.2 _) _ hev, fun b d' hf => ?_⟩
    obtain ⟨x, hx, heq⟩ := Option.map_eq_some_iff.mp hf
    cases heq
    exact ⟨hguar _ _ _ _ (hp.1 _ _ _ hx), ih _ (hp.2 _) _ (hsnoc hev (.inl ⟨_, _, rfl⟩))⟩
  | rollback k ih => exact fun c₁ hev d w _ => ih hp _ hev
  | ask q k ih => exact fun c₁ hev d w _ a w' _ => ih _ (hp _) _ hev
  | emit o k ih =>
    exact fun c₁ hev => ⟨hemit _ _ _, ih hp _ (hsnoc hev (.inr ⟨_, rfl⟩))⟩

/-- A lifted program without commits: it only adds its events to the log. -/
theorem wp_lift_readOnly {p : Prog σ ρ τ κ ω Q A β} (hp : p.ReadOnly) {r : R'} {wk : ℕ}
    {c : Cfg M'} (hemit : ∀ l log o, L'.Emit r l log (X.event o)) :
    L'.wp r wk (p.lift X) (fun _ c' => ∃ os : List ω, c'.log = c.log ++ os.map fun o => .emit (X.event o))
      c := by
  suffices h : ∀ c₁ : Cfg M', (∃ os : List ω, c₁.log = c.log ++ os.map fun o => .emit (X.event o)) →
      L'.wp r wk (p.lift X)
        (fun _ c' => ∃ os : List ω, c'.log = c.log ++ os.map fun o => .emit (X.event o)) c₁ from
    h c ⟨[], by simp⟩
  induction p with
  | ret a => exact fun c₁ hev => hev
  | read i q k ih => exact fun c₁ hev d w _ => ih _ (hp _) _ hev
  | peek q k ih => exact fun c₁ hev d w _ => ih _ (hp _) _ hev
  | lock m rows q k ih => exact fun c₁ hev d w _ => ih _ (hp _) _ hev
  | lockTable t q k ih => exact fun c₁ hev d w _ => ih _ (hp _) _ hev
  | commit f k ih =>
    refine fun c₁ hev d w _ => ⟨fun _ => ih _ (hp.2 _) _ hev, fun b d' hf => ?_⟩
    obtain ⟨x, hx, -⟩ := Option.map_eq_some_iff.mp hf
    exact (hp.1 _ _ _ hx).elim
  | rollback k ih => exact fun c₁ hev d w _ => ih hp _ hev
  | ask q k ih => exact fun c₁ hev d w _ a w' _ => ih _ (hp _) _ hev
  | emit o k ih =>
    rintro c₁ ⟨os, hos⟩
    exact ⟨hemit _ _ _, ih hp _ ⟨os ++ [o], by simp [hos]⟩⟩

end Wp

end Txn
