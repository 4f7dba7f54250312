import Mathlib.Data.List.Basic
import Mathlib.Logic.Function.Basic

/-!
# Transaction programs

A request handler that talks to a transactional store is a tree of statements. `Prog` is
that tree, a free monad over the statements an ORM session issues:

* `read` is a plain `SELECT` on one of the session's connections: it reads the snapshot of
  that connection's transaction, which the first plain `SELECT` fixes;
* `peek` is a read on a connection of its own, which sees the latest committed state;
* `lock` and `lockTable` are locking `SELECT`s: they wait for the row locks, hold them until
  the transaction ends, and read the latest committed rows. `lockTable` is the scan without a
  `WHERE` clause;
* `commit` flushes the pending writes and commits them in one step: the write is computed
  on the latest committed state, or refused by a declared constraint (`none`);
* `rollback` ends the transaction and releases its locks;
* `ask` is a call out of the store (a clock, randomness, files), answered by the environment;
* `emit` appends an observable event.

A program is finite in depth and branches over every answer, so what it may do can be
defined by recursion on it.
-/

namespace Txn

/-- The mode of a row lock: `FOR SHARE` or `FOR UPDATE`. -/
inductive Mode
  | share
  | exclusive
  deriving DecidableEq, Repr

/-- Two locks on one row exclude each other unless both are shared. -/
def Mode.conflicts : Mode → Mode → Bool
  | .share, .share => false
  | _, _ => true

theorem Mode.conflicts_comm (a b : Mode) : a.conflicts b = b.conflicts a := by
  cases a <;> cases b <;> rfl

@[simp]
theorem Mode.conflicts_exclusive_left (b : Mode) : Mode.exclusive.conflicts b = true := by
  cases b <;> rfl

@[simp]
theorem Mode.conflicts_exclusive_right (a : Mode) : a.conflicts .exclusive = true := by
  cases a <;> rfl

/-- A transaction program over states `σ` with lockable rows `ρ` in tables `τ`, connections
`κ`, events `ω` and outside calls `Q` answered in `A`. -/
inductive Prog (σ ρ τ κ ω : Type) (Q : Type) (A : Q → Type) (α : Type) : Type 1
  /-- The program is done. -/
  | ret (a : α)
  /-- A plain `SELECT` on connection `c`. -/
  | read {β : Type} (c : κ) (q : σ → β) (k : β → Prog σ ρ τ κ ω Q A α)
  /-- A read of the latest committed state on a separate connection. -/
  | peek {β : Type} (q : σ → β) (k : β → Prog σ ρ τ κ ω Q A α)
  /-- A locking `SELECT` of the rows that `rows` finds. -/
  | lock {β : Type} (m : Mode) (rows : σ → List ρ) (q : σ → β) (k : β → Prog σ ρ τ κ ω Q A α)
  /-- A locking scan of a whole table, `FOR UPDATE`. -/
  | lockTable {β : Type} (t : τ) (q : σ → β) (k : β → Prog σ ρ τ κ ω Q A α)
  /-- Flush and commit; `none` when a constraint refuses the write. -/
  | commit {β : Type} (w : σ → Option (β × σ)) (k : Option β → Prog σ ρ τ κ ω Q A α)
  /-- End the transaction without writing. -/
  | rollback (k : Prog σ ρ τ κ ω Q A α)
  /-- Ask the environment. -/
  | ask (q : Q) (k : A q → Prog σ ρ τ κ ω Q A α)
  /-- Report an event. -/
  | emit (o : ω) (k : Prog σ ρ τ κ ω Q A α)

namespace Prog

variable {σ ρ τ κ ω : Type} {Q : Type} {A : Q → Type} {α β γ : Type}

/-- Sequencing grafts the continuation onto every leaf. -/
protected def bind :
    Prog σ ρ τ κ ω Q A α → (α → Prog σ ρ τ κ ω Q A β) → Prog σ ρ τ κ ω Q A β
  | .ret a, f => f a
  | .read c q k, f => .read c q fun b => (k b).bind f
  | .peek q k, f => .peek q fun b => (k b).bind f
  | .lock m rows q k, f => .lock m rows q fun b => (k b).bind f
  | .lockTable t q k, f => .lockTable t q fun b => (k b).bind f
  | .commit w k, f => .commit w fun b => (k b).bind f
  | .rollback k, f => .rollback (k.bind f)
  | .ask q k, f => .ask q fun b => (k b).bind f
  | .emit o k, f => .emit o (k.bind f)

instance : Monad (Prog σ ρ τ κ ω Q A) where
  pure := .ret
  bind := Prog.bind

theorem bind_def (p : Prog σ ρ τ κ ω Q A α) (f : α → Prog σ ρ τ κ ω Q A β) :
    p >>= f = p.bind f :=
  rfl

theorem pure_def (a : α) : (pure a : Prog σ ρ τ κ ω Q A α) = .ret a :=
  rfl

/-- What the next statement would commit at the committed state `d`: `none` when it is no commit
or a constraint refuses the write. -/
def commit? : Prog σ ρ τ κ ω Q A α → σ → Option σ
  | .commit w _, d => (w d).map Prod.snd
  | _, _ => none

/-- The program leaves nothing in the trace: it neither commits nor reports. -/
def Silent : Prog σ ρ τ κ ω Q A α → Prop
  | .ret _ => True
  | .read _ _ k | .peek _ k | .lock _ _ _ k | .lockTable _ _ k => ∀ b, (k b).Silent
  | .ask _ k => ∀ a, (k a).Silent
  | .rollback k => k.Silent
  | .commit _ _ | .emit _ _ => False

theorem silent_bind {p : Prog σ ρ τ κ ω Q A α} {f : α → Prog σ ρ τ κ ω Q A β} (hp : p.Silent)
    (hf : ∀ a, (f a).Silent) : (p >>= f).Silent := by
  rw [bind_def]
  induction p with
  | ret a => exact hf a
  | read c q k ih => exact fun b => ih b (hp b)
  | peek q k ih => exact fun b => ih b (hp b)
  | lock m rows q k ih => exact fun b => ih b (hp b)
  | lockTable t q k ih => exact fun b => ih b (hp b)
  | rollback k ih => exact ih hp
  | ask q k ih => exact fun a => ih a (hp a)
  | commit w k => exact hp.elim
  | emit o k => exact hp.elim

/-! ### The statements as programs -/

/-- `read` that returns what it read. -/
def select (c : κ) (q : σ → β) : Prog σ ρ τ κ ω Q A β := .read c q .ret

/-- `peek` that returns what it read. -/
def selectLatest (q : σ → β) : Prog σ ρ τ κ ω Q A β := .peek q .ret

/-- `lock` that returns what it read. -/
def selectLocking (m : Mode) (rows : σ → List ρ) (q : σ → β) : Prog σ ρ τ κ ω Q A β :=
  .lock m rows q .ret

/-- `lockTable` that returns what it read. -/
def selectTable (t : τ) (q : σ → β) : Prog σ ρ τ κ ω Q A β := .lockTable t q .ret

/-- `commit` that returns whether the write was accepted. -/
def write (w : σ → Option (β × σ)) : Prog σ ρ τ κ ω Q A (Option β) := .commit w .ret

/-- `rollback` as a statement. -/
def abort : Prog σ ρ τ κ ω Q A Unit := .rollback (.ret ())

/-- `ask` that returns the answer. -/
def call (q : Q) : Prog σ ρ τ κ ω Q A (A q) := .ask q .ret

/-- `emit` as a statement. -/
def report (o : ω) : Prog σ ρ τ κ ω Q A Unit := .emit o (.ret ())

end Prog

end Txn
