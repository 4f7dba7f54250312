import SecureVote.Txn.Program
import Mathlib.Logic.Relation

/-!
# Interleaved transactions over a lockable store

The operational semantics of many request threads over one store. `advance` executes one
statement of one thread against the latest committed state and the locks of the others;
`Step` interleaves the threads with the arrival of new requests, the answers of the
environment, the loss of a thread at any point, and the drift of the outside world.

The store semantics is that of a database at REPEATABLE READ:

* a plain `SELECT` reads the snapshot its transaction fixed at its first plain `SELECT`;
* a locking `SELECT` is granted only while no other thread holds a conflicting lock on one
  of its rows, reads the latest committed state, and keeps its locks to the end of the
  transaction;
* a commit that would change a row is granted only while no other thread holds a lock on
  that row.

`Sys.step₁` is the executable form, used to run concrete schedules.
-/

namespace Txn

/-- What the semantics needs to know about a state: the contents of each lockable row, and
the rows of each table. -/
class Store (σ : Type) (ρ τ V : outParam Type) where
  /-- The contents of a row, `none` when it does not exist. -/
  val : σ → ρ → Option V
  /-- The table a row belongs to. -/
  table : ρ → τ
  /-- The rows of a table, in scan order. -/
  rows : σ → τ → List ρ
  /-- A scan finds exactly the rows that exist. -/
  mem_rows : ∀ {d : σ} {t : τ} {r : ρ}, r ∈ rows d t ↔ table r = t ∧ (val d r).isSome

section Semantics

variable {σ ρ τ V κ ω : Type} {Q : Type} {A : Q → Type} {W R α β : Type}

/-- The transaction-local state of a thread: the row locks it holds, the tables it has
scanned under lock, and the snapshot of each connection. -/
structure Local (σ ρ τ κ : Type) where
  held : List (ρ × Mode)
  scanned : List τ
  snap : κ → Option σ

namespace Local

/-- No transaction open. -/
def fresh : Local σ ρ τ κ := ⟨[], [], fun _ => none⟩

/-- The state a plain `SELECT` on `c` reads when `d` is the latest committed one. -/
def view (l : Local σ ρ τ κ) (c : κ) (d : σ) : σ := (l.snap c).getD d

/-- Fix the snapshot of `c`, unless it is fixed already. -/
def look [DecidableEq κ] (l : Local σ ρ τ κ) (c : κ) (d : σ) : Local σ ρ τ κ :=
  { l with snap := Function.update l.snap c (some (l.view c d)) }

/-- Acquire locks on `rows`. -/
def take (l : Local σ ρ τ κ) (rows : List ρ) (m : Mode) : Local σ ρ τ κ :=
  { l with held := rows.map (·, m) ++ l.held }

/-- Acquire exclusive locks on all `rows` of the table `t`. -/
def takeTable (l : Local σ ρ τ κ) (t : τ) (rows : List ρ) : Local σ ρ τ κ :=
  { l.take rows .exclusive with scanned := if rows.isEmpty then l.scanned else t :: l.scanned }

@[simp]
theorem held_fresh : (fresh : Local σ ρ τ κ).held = [] := rfl

@[simp]
theorem scanned_fresh : (fresh : Local σ ρ τ κ).scanned = [] := rfl

@[simp]
theorem snap_fresh (c : κ) : (fresh : Local σ ρ τ κ).snap c = none := rfl

@[simp]
theorem held_look [DecidableEq κ] (l : Local σ ρ τ κ) (c : κ) (d : σ) :
    (l.look c d).held = l.held := rfl

@[simp]
theorem scanned_look [DecidableEq κ] (l : Local σ ρ τ κ) (c : κ) (d : σ) :
    (l.look c d).scanned = l.scanned := rfl

@[simp]
theorem snap_look_self [DecidableEq κ] (l : Local σ ρ τ κ) (c : κ) (d : σ) :
    (l.look c d).snap c = some (l.view c d) := by
  simp [look]

@[simp]
theorem held_take (l : Local σ ρ τ κ) (rows : List ρ) (m : Mode) :
    (l.take rows m).held = rows.map (·, m) ++ l.held := rfl

@[simp]
theorem scanned_take (l : Local σ ρ τ κ) (rows : List ρ) (m : Mode) :
    (l.take rows m).scanned = l.scanned := rfl

@[simp]
theorem snap_take (l : Local σ ρ τ κ) (rows : List ρ) (m : Mode) :
    (l.take rows m).snap = l.snap := rfl

@[simp]
theorem held_takeTable (l : Local σ ρ τ κ) (t : τ) (rows : List ρ) :
    (l.takeTable t rows).held = rows.map (·, .exclusive) ++ l.held := rfl

@[simp]
theorem snap_takeTable (l : Local σ ρ τ κ) (t : τ) (rows : List ρ) :
    (l.takeTable t rows).snap = l.snap := rfl

theorem mem_scanned_takeTable {l : Local σ ρ τ κ} {t u : τ} {rows : List ρ} :
    u ∈ (l.takeTable t rows).scanned ↔ u ∈ l.scanned ∨ (u = t ∧ rows ≠ []) := by
  cases rows <;> simp [takeTable, or_comm]

end Local

variable [DecidableEq ρ] [DecidableEq V] [DecidableEq κ] [Store σ ρ τ V]

/-- No other thread holds a lock on one of `rows` that conflicts with mode `m`. -/
def free (others : List (Local σ ρ τ κ)) (rows : List ρ) (m : Mode) : Bool :=
  rows.all fun r => others.all fun l => l.held.all fun h => h.1 ≠ r || !m.conflicts h.2

/-- Going from `d` to `d'` leaves every row locked by another thread as it is. -/
def quiet (others : List (Local σ ρ τ κ)) (d d' : σ) : Bool :=
  others.all fun l => l.held.all fun h => Store.val d' h.1 = Store.val d h.1

/-- The rows among `rows` that exist. -/
def found (d : σ) (rows : List ρ) : List ρ := rows.filter fun r => (Store.val d r).isSome

omit [DecidableEq ρ] [DecidableEq V] [DecidableEq κ] in
theorem mem_found {d : σ} {rows : List ρ} {r : ρ} :
    r ∈ found d rows ↔ r ∈ rows ∧ (Store.val d r).isSome := by
  simp [found]

omit [DecidableEq V] [DecidableEq κ] [Store σ ρ τ V] in
theorem free_eq_true {others : List (Local σ ρ τ κ)} {rows : List ρ} {m : Mode} :
    free others rows m = true ↔
      ∀ r ∈ rows, ∀ l ∈ others, ∀ b, (r, b) ∈ l.held → m.conflicts b = false := by
  simp only [free, List.all_eq_true, Bool.or_eq_true, decide_eq_true_eq, Bool.not_eq_eq_eq_not,
    Bool.not_true, Prod.forall]
  constructor
  · intro h r hr l hl b hb
    exact (h r hr l hl r b hb).resolve_left fun hne => hne rfl
  · intro h r hr l hl r' b hb
    rcases eq_or_ne r' r with rfl | hne
    · exact Or.inr (h r' hr l hl b hb)
    · exact Or.inl hne

omit [DecidableEq ρ] [DecidableEq κ] in
theorem quiet_eq_true {others : List (Local σ ρ τ κ)} {d d' : σ} :
    quiet others d d' = true ↔
      ∀ l ∈ others, ∀ h ∈ l.held, Store.val d' h.1 = Store.val d h.1 := by
  simp only [quiet, List.all_eq_true, decide_eq_true_eq]

/-- What a statement does to the outside: nothing, a committed write, or an event. -/
inductive Effect (σ ω : Type)
  | silent
  | write (d : σ)
  | emit (o : ω)

/-- One statement of a thread, at the committed state `d` and with the other threads' locks.
`none` while the statement waits, and on `ret` and `ask`, which the system handles. -/
def advance (others : List (Local σ ρ τ κ)) (d : σ) :
    Prog σ ρ τ κ ω Q A α → Local σ ρ τ κ →
      Option (Prog σ ρ τ κ ω Q A α × Local σ ρ τ κ × Effect σ ω)
  | .ret _, _ => none
  | .read c q k, l => some (k (q (l.view c d)), l.look c d, .silent)
  | .peek q k, l => some (k (q d), l, .silent)
  | .lock m rows q k, l =>
      if free others (found d (rows d)) m then
        some (k (q d), l.take (found d (rows d)) m, .silent)
      else none
  | .lockTable t q k, l =>
      if free others (Store.rows d t) .exclusive then
        some (k (q d), l.takeTable t (Store.rows d t), .silent)
      else none
  | .commit w k, l =>
      match w d with
      | none => some (k none, l, .silent)
      | some (b, d') => if quiet others d d' then some (k (some b), .fresh, .write d') else none
  | .rollback k, _ => some (k, .fresh, .silent)
  | .ask _ _, _ => none
  | .emit o k, l => some (k, l, .emit o)

/-- An event of a thread: a committed write, with the state before and after it, an emitted
event, or the final reply. -/
inductive Ev (σ ω α : Type)
  | write (before after : σ)
  | emit (o : ω)
  | reply (a : α)

/-- The committed state after an effect. -/
def Effect.db (d : σ) : Effect σ ω → σ
  | .write d' => d'
  | _ => d

/-- The event an effect leaves in the trace. -/
def Effect.events (d : σ) : Effect σ ω → List (Ev σ ω α)
  | .silent => []
  | .write d' => [.write d d']
  | .emit o => [.emit o]

/-- Where a thread stands. -/
inductive Status (σ ρ τ κ ω : Type) (Q : Type) (A : Q → Type) (α : Type) : Type 1
  | running (p : Prog σ ρ τ κ ω Q A α) (l : Local σ ρ τ κ)
  | finished (a : α)
  | crashed

/-- A machine: the handler of each request, how the environment answers a worker's call in a
world, and how the world may drift on its own. -/
structure Machine (σ ρ τ κ ω : Type) (Q : Type) (A : Q → Type) (W R α : Type) : Type 1 where
  handler : R → Prog σ ρ τ κ ω Q A α
  answer : ℕ → W → (q : Q) → A q → W → Prop
  drift : W → W → Prop

/-- A request thread, in a worker process. -/
structure Thread (M : Machine σ ρ τ κ ω Q A W R α) : Type 1 where
  request : R
  worker : ℕ
  status : Status σ ρ τ κ ω Q A α

/-- The system: the committed state, the outside world, the trace of all events in order, and
the threads, indexed by their position. -/
structure Sys (M : Machine σ ρ τ κ ω Q A W R α) : Type 1 where
  db : σ
  world : W
  trace : List (ℕ × Ev σ ω α)
  threads : List (Thread M)

variable {M : Machine σ ρ τ κ ω Q A W R α}

/-- The transaction-local state of a running thread. -/
def Thread.loc? (t : Thread M) : Option (Local σ ρ τ κ) :=
  match t.status with
  | .running _ l => some l
  | _ => none

/-- The start of a run: no request has arrived. -/
def Sys.init (d : σ) (w : W) : Sys M := ⟨d, w, [], []⟩

/-- The transaction-local states of the running threads other than `pid`. -/
def Sys.others (s : Sys M) (pid : ℕ) : List (Local σ ρ τ κ) :=
  (s.threads.zipIdx.filter (·.2 ≠ pid)).filterMap (·.1.loc?)

/-- The events of thread `pid`. -/
def Sys.log (s : Sys M) (pid : ℕ) : List (Ev σ ω α) :=
  s.trace.filterMap fun e => if e.1 = pid then some e.2 else none

/-- The committed writes in order: the thread, the state before and the state after. -/
def Sys.commits (s : Sys M) : List (ℕ × σ × σ) :=
  s.trace.filterMap fun e => match e with
    | (i, .write d d') => some (i, d, d')
    | _ => none

/-- The emitted events in order, with their threads. -/
def Sys.emitted (s : Sys M) : List (ℕ × ω) :=
  s.trace.filterMap fun e => match e with
    | (i, .emit o) => some (i, o)
    | _ => none

/-- The replies in order, with their threads. -/
def Sys.replies (s : Sys M) : List (ℕ × α) :=
  s.trace.filterMap fun e => match e with
    | (i, .reply a) => some (i, a)
    | _ => none

/-- Thread `i` is `t`, which is about to execute `p` in the transaction-local state `l`. -/
def Sys.Runs (s : Sys M) (i : ℕ) (t : Thread M) (p : Prog σ ρ τ κ ω Q A α)
    (l : Local σ ρ τ κ) : Prop :=
  s.threads[i]? = some t ∧ t.status = .running p l

omit [DecidableEq ρ] [DecidableEq V] [DecidableEq κ] [Store σ ρ τ V] in
/-- A thread is in one place. -/
theorem Sys.Runs.unique {s : Sys M} {i : ℕ} {t t' : Thread M} {p p' : Prog σ ρ τ κ ω Q A α}
    {l l' : Local σ ρ τ κ} (h : s.Runs i t p l) (h' : s.Runs i t' p' l') :
    t' = t ∧ p' = p ∧ l' = l := by
  obtain rfl : t' = t := Option.some.inj (h'.1.symm.trans h.1)
  have hst := h'.2.symm.trans h.2
  cases hst
  exact ⟨rfl, rfl, rfl⟩

omit [DecidableEq ρ] [DecidableEq V] [DecidableEq κ] [Store σ ρ τ V] in
theorem Sys.mem_others {s : Sys M} {pid : ℕ} {l : Local σ ρ τ κ} :
    l ∈ s.others pid ↔
      ∃ j t p, j ≠ pid ∧ s.Runs j t p l := by
  simp only [others, Runs, List.mem_filterMap, List.mem_filter, List.mem_zipIdx_iff_getElem?,
    decide_eq_true_eq, Prod.exists]
  constructor
  · rintro ⟨t, j, ⟨ht, hj⟩, hl⟩
    rcases hs : t.status with ⟨p, l'⟩ | a | -
    · simp only [Thread.loc?, hs, Option.some.injEq] at hl
      exact ⟨j, t, p, hj, ht, by rw [hs, hl]⟩
    · simp [Thread.loc?, hs] at hl
    · simp [Thread.loc?, hs] at hl
  · rintro ⟨j, t, p, hj, ht, hs⟩
    exact ⟨t, j, ⟨ht, hj⟩, by simp [Thread.loc?, hs]⟩

/-- Replace the status of a thread. -/
def Sys.setStatus (s : Sys M) (pid : ℕ) (t : Thread M) (x : Status σ ρ τ κ ω Q A α) :
    List (Thread M) :=
  s.threads.set pid { t with status := x }

/-- Who moves in a step. -/
inductive Label
  | start
  | run (pid : ℕ)
  | ask (pid : ℕ)
  | finish (pid : ℕ)
  | crash (pid : ℕ)
  | drift
  deriving DecidableEq, Repr

/-- The interleaved system: a request arrives in some worker, a thread executes a statement,
receives an answer, replies or is lost, or the outside world drifts. A thread that replies or
is lost gives up its transaction. -/
inductive Step (M : Machine σ ρ τ κ ω Q A W R α) : Label → Sys M → Sys M → Prop
  | start {s : Sys M} (r : R) (wk : ℕ) :
      Step M .start s
        { s with threads := s.threads ++ [⟨r, wk, .running (M.handler r) .fresh⟩] }
  | run {s : Sys M} {pid : ℕ} {t : Thread M} {p p' l l' e} :
      s.Runs pid t p l →
      advance (s.others pid) s.db p l = some (p', l', e) →
      Step M (.run pid) s
        { db := e.db s.db
          world := s.world
          trace := s.trace ++ (e.events s.db).map (Prod.mk pid)
          threads := s.setStatus pid t (.running p' l') }
  | ask {s : Sys M} {pid : ℕ} {t : Thread M} {q k l a w'} :
      s.Runs pid t (.ask q k) l →
      M.answer t.worker s.world q a w' →
      Step M (.ask pid) s
        { s with world := w', threads := s.setStatus pid t (.running (k a) l) }
  | finish {s : Sys M} {pid : ℕ} {t : Thread M} {a l} :
      s.Runs pid t (.ret a) l →
      Step M (.finish pid) s
        { s with
          trace := s.trace ++ [(pid, .reply a)]
          threads := s.setStatus pid t (.finished a) }
  | crash {s : Sys M} {pid : ℕ} {t : Thread M} {p l} :
      s.Runs pid t p l →
      Step M (.crash pid) s { s with threads := s.setStatus pid t .crashed }
  | drift {s : Sys M} {w' : W} : M.drift s.world w' → Step M .drift s { s with world := w' }

/-- A step of the system that meets the condition `C` on the state before it and the label. -/
def StepIf (C : Sys M → Label → Prop) (s s' : Sys M) : Prop :=
  ∃ b, Step M b s s' ∧ C s b

/-- `s'` is reachable from `s` by steps that all meet the condition `C`. -/
def ReachIf (C : Sys M → Label → Prop) : Sys M → Sys M → Prop :=
  Relation.ReflTransGen (StepIf C)

/-- `s'` is reachable from `s`. -/
def Reach : Sys M → Sys M → Prop :=
  ReachIf fun _ _ => True

theorem ReachIf.mono {C C' : Sys M → Label → Prop} (hC : ∀ s b, C s b → C' s b) {s s' : Sys M}
    (h : ReachIf C s s') : ReachIf C' s s' :=
  Relation.ReflTransGen.mono (fun _ _ ⟨b, hb, hc⟩ => ⟨b, hb, hC _ _ hc⟩) _ _ h

theorem ReachIf.reach {C : Sys M → Label → Prop} {s s' : Sys M} (h : ReachIf C s s') :
    Reach s s' :=
  h.mono fun _ _ _ => trivial

theorem ReachIf.step {C : Sys M → Label → Prop} {s s' s'' : Sys M} {b : Label}
    (h : ReachIf C s s') (hb : Step M b s' s'') (hC : C s' b) : ReachIf C s s'' :=
  Relation.ReflTransGen.tail h ⟨b, hb, hC⟩

theorem Reach.step {s s' s'' : Sys M} {b : Label} (h : Reach s s') (hb : Step M b s' s'') :
    Reach s s'' :=
  ReachIf.step h hb trivial

/-! ### Running a schedule -/

/-- The next step of thread `pid` and its label, with `orc` answering its calls. -/
def Sys.step₁ (orc : (q : Q) → W → A q × W) (pid : ℕ) (s : Sys M) : Option (Label × Sys M) :=
  match s.threads[pid]? with
  | none => none
  | some t =>
    match t.status with
    | .finished _ => none
    | .crashed => none
    | .running (.ret a) _ =>
        some (.finish pid,
          { s with
            trace := s.trace ++ [(pid, .reply a)]
            threads := s.setStatus pid t (.finished a) })
    | .running (.ask q k) l =>
        some (.ask pid,
          { s with
            world := (orc q s.world).2
            threads := s.setStatus pid t (.running (k (orc q s.world).1) l) })
    | .running p l =>
      match advance (s.others pid) s.db p l with
      | none => none
      | some (p', l', e) =>
          some (.run pid,
            { db := e.db s.db
              world := s.world
              trace := s.trace ++ (e.events s.db).map (Prod.mk pid)
              threads := s.setStatus pid t (.running p' l') })

/-- A request of a schedule, or at most so many steps of one thread. -/
inductive Turn (R : Type)
  | start (r : R) (wk : ℕ)
  | run (pid n : ℕ)

section Runs

variable (C : Sys M → Label → Prop) [∀ s b, Decidable (C s b)] (orc : (q : Q) → W → A q × W)

/-- At most `n` steps of thread `pid`, as long as it can move and the steps meet `C`. -/
def Sys.steps (pid : ℕ) : ℕ → Sys M → Sys M
  | 0, s => s
  | n + 1, s =>
    match s.step₁ orc pid with
    | none => s
    | some (b, s') => if C s b then s'.steps pid n else s

/-- Run a schedule. -/
def Sys.runs : List (Turn R) → Sys M → Sys M
  | [], s => s
  | .start r wk :: ts, s =>
      Sys.runs ts { s with threads := s.threads ++ [⟨r, wk, .running (M.handler r) .fresh⟩] }
  | .run pid n :: ts, s => Sys.runs ts (s.steps C orc pid n)

/-- The requests of a schedule in order. -/
def Turn.requests : List (Turn R) → List R
  | [] => []
  | .start r _ :: ts => r :: requests ts
  | .run _ _ :: ts => requests ts

/-- The step meets `C` and all requests of the state meet `P`. -/
def Asked (P : R → Prop) (s : Sys M) (b : Label) : Prop :=
  C s b ∧ ∀ t ∈ s.threads, P t.request

variable {C orc} {P : R → Prop} (horc : ∀ wk w q, M.answer wk w q (orc q w).1 (orc q w).2)

omit [DecidableEq ρ] [DecidableEq V] [DecidableEq κ] [Store σ ρ τ V]
  [∀ s b, Decidable (C s b)] in
theorem Sys.mem_setStatus {s : Sys M} {pid : ℕ} {t : Thread M} {x : Status σ ρ τ κ ω Q A α}
    (ht : s.threads[pid]? = some t) {t' : Thread M} (h : t' ∈ s.setStatus pid t x) :
    ∃ t ∈ s.threads, t.request = t'.request := by
  rcases List.mem_or_eq_of_mem_set h with h | rfl
  · exact ⟨t', h, rfl⟩
  · exact ⟨t, List.mem_of_getElem? ht, rfl⟩

omit [∀ s b, Decidable (C s b)] in
include horc in
/-- The next step is a step of the system, which starts no request. -/
theorem Sys.step₁_sound {pid : ℕ} {s s' : Sys M} {b : Label}
    (h : s.step₁ orc pid = some (b, s')) :
    Step M b s s' ∧ ∀ t' ∈ s'.threads, ∃ t ∈ s.threads, t.request = t'.request := by
  unfold Sys.step₁ at h
  split at h
  · cases h
  next t ht =>
    split at h
    · cases h
    · cases h
    next a l hs =>
      cases h
      exact ⟨.finish ⟨ht, hs⟩, fun t' => Sys.mem_setStatus ht⟩
    next q k l hs =>
      cases h
      exact ⟨.ask ⟨ht, hs⟩ (horc _ _ _), fun t' => Sys.mem_setStatus ht⟩
    next p l _ _ hs =>
      split at h
      · cases h
      next p' l' e ha =>
        cases h
        exact ⟨.run ⟨ht, hs⟩ ha, fun t' => Sys.mem_setStatus ht⟩

include horc in
theorem Sys.steps_sound {pid n : ℕ} {s : Sys M} (hs : ∀ t ∈ s.threads, P t.request) :
    ReachIf (Asked C P) s (s.steps C orc pid n) ∧
      ∀ t ∈ (s.steps C orc pid n).threads, P t.request := by
  induction n generalizing s with
  | zero => exact ⟨.refl, hs⟩
  | succ n ih =>
    unfold Sys.steps
    split
    · exact ⟨.refl, hs⟩
    next b s' h =>
      obtain ⟨hstep, hthreads⟩ := Sys.step₁_sound horc h
      split
      next hC =>
        obtain ⟨hr, hP⟩ := ih fun t' ht' => by
          obtain ⟨t, ht, hreq⟩ := hthreads t' ht'
          exact hreq ▸ hs t ht
        exact ⟨.head ⟨b, hstep, hC, hs⟩ hr, hP⟩
      · exact ⟨.refl, hs⟩

include horc in
/-- A schedule runs by steps that meet the condition, when the arrival of requests does, and all
requests come from the schedule. -/
theorem Sys.runs_sound (hstart : ∀ s, C s .start) {ts : List (Turn R)} {s : Sys M}
    (hs : ∀ t ∈ s.threads, P t.request) (hts : ∀ r ∈ Turn.requests ts, P r) :
    ReachIf (Asked C P) s (s.runs C orc ts) ∧ ∀ t ∈ (s.runs C orc ts).threads, P t.request := by
  induction ts generalizing s with
  | nil => exact ⟨.refl, hs⟩
  | cons t ts ih =>
    cases t with
    | start r wk =>
      obtain ⟨hr, hP⟩ := ih (s := { s with
        threads := s.threads ++ [⟨r, wk, .running (M.handler r) .fresh⟩] })
        (fun t ht => by
          rcases List.mem_append.mp ht with ht | ht
          · exact hs t ht
          · obtain rfl := List.mem_singleton.mp ht
            exact hts r List.mem_cons_self)
        fun r' hr' => hts r' (List.mem_cons_of_mem _ hr')
      exact ⟨.head ⟨_, .start r wk, hstart s, hs⟩ hr, hP⟩
    | run pid n =>
      have hsteps : ReachIf (Asked C P) s (s.steps C orc pid n) ∧ _ := Sys.steps_sound horc hs
      obtain ⟨hr, hP⟩ := hsteps
      obtain ⟨hr', hP'⟩ := ih hP hts
      exact ⟨hr.trans hr', hP'⟩

end Runs

end Semantics

end Txn
