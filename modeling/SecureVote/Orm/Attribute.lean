import Mathlib.Data.Option.Basic

/-!
# Attributes of mapped objects

What an object–relational mapper keeps of one column of one object: the value in memory, and the
value that was loaded before the first assignment since the last flush. `Attr.history` is the
history that listeners read, and `Attr.changed` is what an `UPDATE` writes.

An attribute `Tracks` the value of its column when what was loaded is that value. Then the history
tells the truth about the column, and the value `written` by a flush is the one in memory.
-/

namespace Orm

variable {α : Type}

/-- The state of an attribute. An assigned attribute remembers the value that the assignment has
replaced, if one was loaded. -/
inductive Attr (α : Type)
  | unloaded
  | loaded (a : α)
  | assigned (a : α) (old : Option α)
  deriving DecidableEq, Repr

/-- The history of a scalar attribute; each list has one value at most. -/
structure History (α : Type) where
  added : List α
  unchanged : List α
  deleted : List α

/-- `History.has_changes` -/
def History.hasChanges (h : History α) : Bool := !h.added.isEmpty || !h.deleted.isEmpty

namespace Attr

/-- The value in memory. -/
def value? : Attr α → Option α
  | .unloaded => none
  | .loaded a | .assigned a _ => some a

/-- Assign a value. A second assignment keeps what the first one has replaced. -/
def set (a : α) : Attr α → Attr α
  | .unloaded => .assigned a none
  | .loaded old => .assigned a (some old)
  | .assigned _ old => .assigned a old

/-- Load the column, unless there is a value in memory. -/
def load (v : α) : Attr α → Attr α
  | .unloaded => .loaded v
  | x => x

/-- The attribute after a flush. -/
def settle : Attr α → Attr α
  | .assigned a _ => .loaded a
  | x => x

variable [DecidableEq α]

/-- The history since the last flush. An assignment of the value that was loaded is no change. -/
def history : Attr α → History α
  | .unloaded => ⟨[], [], []⟩
  | .loaded a => ⟨[], [a], []⟩
  | .assigned a none => ⟨[a], [], []⟩
  | .assigned a (some old) => if a = old then ⟨[], [a], []⟩ else ⟨[a], [], [old]⟩

/-- The parameter of the column in an `UPDATE`. -/
def changed : Attr α → Option α
  | .assigned a old => if some a = old then none else some a
  | _ => none

/-- The value of a column after the flush, when it held `v` before. -/
def written (v : α) (x : Attr α) : α := x.changed.getD v

omit [DecidableEq α] in
/-- What was loaded of the column is `v`. -/
def Tracks (v : α) : Attr α → Prop
  | .unloaded => True
  | .loaded a => a = v
  | .assigned _ old => ∀ o ∈ old, o = v

variable {v a : α} {x : Attr α}

omit [DecidableEq α] in
theorem Tracks.set (h : x.Tracks v) : (x.set a).Tracks v := by
  cases x with
  | unloaded => exact fun o ho => nomatch ho
  | loaded b => exact fun o ho => (Option.mem_some_iff.mp ho).symm.trans h
  | assigned b old => exact h

omit [DecidableEq α] in
/-- An assigned attribute remembers what was loaded. -/
theorem exists_set (a : α) (x : Attr α) : ∃ old, x.set a = .assigned a old := by
  cases x with
  | unloaded => exact ⟨none, rfl⟩
  | loaded b => exact ⟨some b, rfl⟩
  | assigned b old => exact ⟨old, rfl⟩

omit [DecidableEq α] in
theorem Tracks.load (h : x.Tracks v) : (x.load v).Tracks v := by
  cases x with
  | unloaded => rfl
  | loaded b => exact h
  | assigned b old => exact h

/-- A flush writes the value in memory. -/
theorem written_of_assigned {old : Option α} (h : (Attr.assigned a old).Tracks v) :
    (Attr.assigned a old).written v = a := by
  rw [written, changed]
  split
  next heq => exact (h a heq.symm).symm
  · rfl

theorem written_set (h : x.Tracks v) : (x.set a).written v = a := by
  have hset : (x.set a).Tracks v := h.set
  cases x with
  | unloaded => exact written_of_assigned hset
  | loaded b => exact written_of_assigned hset
  | assigned b old => exact written_of_assigned hset

@[simp]
theorem changed_load : (x.load v).changed = x.changed := by
  cases x with
  | _ => rfl

@[simp]
theorem changed_settle : x.settle.changed = none := by
  cases x with
  | _ => rfl

theorem Tracks.settle (h : x.Tracks v) : x.settle.Tracks (x.written v) := by
  cases x with
  | unloaded => trivial
  | loaded b => exact h
  | assigned b old => exact (written_of_assigned h).symm

omit [DecidableEq α] in
/-- A value in memory is what the column holds after it has been written. -/
theorem tracks_settle_of_value? (h : x.value? = some a) : x.settle.Tracks a := by
  cases x with
  | unloaded => cases h
  | loaded b => exact Option.some.inj h
  | assigned b old => exact Option.some.inj h

omit [DecidableEq α] in
theorem settle_ne_assigned {old : Option α} : x.settle ≠ .assigned a old := by
  cases x with
  | _ => exact fun h => nomatch h

/-- What the history says of the column: without changes the flush leaves it as it is; otherwise
the added value is the one that is written, and a deleted one is the one that was loaded. -/
theorem history_cases (h : x.Tracks v) :
    x.history.hasChanges = false ∧ x.written v = v ∨
      ∃ a old, x = .assigned a old ∧ x.history.hasChanges = true ∧ x.history.added = [a] ∧
        x.history.deleted = old.toList ∧ x.written v = a := by
  cases x with
  | unloaded => exact Or.inl ⟨rfl, rfl⟩
  | loaded b => exact Or.inl ⟨rfl, rfl⟩
  | assigned a old =>
    rcases old with _ | old
    · exact Or.inr ⟨a, none, rfl, rfl, rfl, rfl, rfl⟩
    by_cases heq : a = old
    · subst heq
      refine Or.inl ⟨?_, ?_⟩
      · simp [history, History.hasChanges]
      · exact (written_of_assigned h).trans (h a rfl)
    · refine Or.inr ⟨a, some old, rfl, ?_, ?_, ?_, written_of_assigned h⟩
      · simp [history, History.hasChanges, heq]
      · simp [history, heq]
      · simp [history, heq]

end Attr

end Orm
