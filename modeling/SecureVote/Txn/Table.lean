import Mathlib.Data.List.Basic
import Mathlib.Data.List.Nodup
import Mathlib.Data.List.Pairwise

/-!
# Tables with a primary key

A `Table` is a list of rows with distinct numeric keys and an auto-increment counter above all
of them, so that the rules of a primary key hold of every value of the type: a lookup finds at
most one row, and an insert always gets a fresh key.
-/

namespace Txn

/-- A row type with a numeric primary key. -/
class Keyed (α : Type) where
  key : α → ℕ

export Keyed (key)

/-- Rows with distinct keys, all below the auto-increment counter. -/
structure Table (α : Type) [Keyed α] where
  rows : List α
  next : ℕ
  nodup : (rows.map key).Nodup
  fresh : ∀ a ∈ rows, key a < next

namespace Table

variable {α : Type} [Keyed α]

/-- No rows; keys start at 1. -/
def empty : Table α := ⟨[], 1, List.nodup_nil, by simp⟩

/-- The row with key `i`. -/
def get? (t : Table α) (i : ℕ) : Option α := t.rows.find? fun a => key a = i

/-- Insert the row `mk n` under the next key `n`. -/
def insert (t : Table α) (mk : ℕ → α) (h : ∀ n, key (mk n) = n) : Table α where
  rows := t.rows ++ [mk t.next]
  next := t.next + 1
  nodup := by
    rw [List.map_append, List.map_singleton, List.nodup_append]
    refine ⟨t.nodup, List.nodup_singleton _, fun i hi j hj => ?_⟩
    obtain ⟨a, ha, rfl⟩ := List.mem_map.mp hi
    rw [List.mem_singleton.mp hj, h]
    exact Nat.ne_of_lt (t.fresh a ha)
  fresh := fun a ha => by
    rcases List.mem_append.mp ha with ha | ha
    · exact Nat.lt_succ_of_lt (t.fresh a ha)
    · rw [List.mem_singleton.mp ha, h]
      exact Nat.lt_succ_self _

/-- Apply `f` to the row with key `i`, if there is one. -/
def update (t : Table α) (i : ℕ) (f : α → α) (h : ∀ a, key (f a) = key a) : Table α where
  rows := t.rows.map fun a => if key a = i then f a else a
  next := t.next
  nodup := by
    have : (key ∘ fun a => if key a = i then f a else a) = (key : α → ℕ) :=
      funext fun a => by simp only [Function.comp]; split <;> simp [h]
    rw [List.map_map, this]
    exact t.nodup
  fresh := fun b hb => by
    obtain ⟨a, ha, rfl⟩ := List.mem_map.mp hb
    have := t.fresh a ha
    split
    · rwa [h]
    · exact this

/-- The same keys with other contents. -/
def map {β : Type} [Keyed β] (t : Table α) (f : α → β) (h : ∀ a, key (f a) = key a) : Table β where
  rows := t.rows.map f
  next := t.next
  nodup := by
    have : (key ∘ f) = (key : α → ℕ) := funext h
    rw [List.map_map, this]
    exact t.nodup
  fresh := fun b hb => by
    obtain ⟨a, ha, rfl⟩ := List.mem_map.mp hb
    rw [h]
    exact t.fresh a ha

/-- Keep the rows that satisfy `p`. -/
def filter (t : Table α) (p : α → Bool) : Table α where
  rows := t.rows.filter p
  next := t.next
  nodup := t.nodup.sublist (List.filter_sublist.map _)
  fresh := fun a ha => t.fresh a (List.mem_filter.mp ha).1

theorem key_inj {t : Table α} {a b : α} (ha : a ∈ t.rows) (hb : b ∈ t.rows)
    (h : key a = key b) : a = b :=
  List.inj_on_of_nodup_map t.nodup ha hb h

theorem get?_eq_some {t : Table α} {i : ℕ} {a : α} :
    t.get? i = some a ↔ a ∈ t.rows ∧ key a = i := by
  constructor
  · intro h
    exact ⟨List.mem_of_find?_eq_some h, by simpa using List.find?_some h⟩
  · rintro ⟨ha, rfl⟩
    rcases h : t.get? (key a) with _ | b
    · have hne : ¬key a = key a := by simpa using List.find?_eq_none.mp h a ha
      exact absurd rfl hne
    · have hb : b ∈ t.rows := List.mem_of_find?_eq_some h
      have hk : key b = key a := by simpa using List.find?_some h
      rw [key_inj hb ha hk]

theorem get?_eq_none {t : Table α} {i : ℕ} : t.get? i = none ↔ ∀ a ∈ t.rows, key a ≠ i := by
  simp [get?]

theorem get?_isSome {t : Table α} {i : ℕ} : (t.get? i).isSome ↔ ∃ a ∈ t.rows, key a = i := by
  simp [get?]

theorem mem_of_get? {t : Table α} {i : ℕ} {a : α} (h : t.get? i = some a) : a ∈ t.rows :=
  (get?_eq_some.mp h).1

theorem key_of_get? {t : Table α} {i : ℕ} {a : α} (h : t.get? i = some a) : key a = i :=
  (get?_eq_some.mp h).2

theorem get?_key {t : Table α} {a : α} (h : a ∈ t.rows) : t.get? (key a) = some a :=
  get?_eq_some.mpr ⟨h, rfl⟩

@[simp]
theorem rows_empty : (empty : Table α).rows = [] := rfl

@[simp]
theorem rows_insert (t : Table α) (mk : ℕ → α) (h) :
    (t.insert mk h).rows = t.rows ++ [mk t.next] := rfl

@[simp]
theorem rows_map {β : Type} [Keyed β] (t : Table α) (f : α → β) (h) :
    (t.map f h).rows = t.rows.map f := rfl

@[simp]
theorem rows_filter (t : Table α) (p : α → Bool) : (t.filter p).rows = t.rows.filter p := rfl

theorem mem_insert {t : Table α} {mk : ℕ → α} {h} {a : α} :
    a ∈ (t.insert mk h).rows ↔ a ∈ t.rows ∨ a = mk t.next := by
  simp

theorem mem_update {t : Table α} {i : ℕ} {f : α → α} {h} {b : α} :
    b ∈ (t.update i f h).rows ↔ ∃ a ∈ t.rows, (if key a = i then f a else a) = b := by
  simp [update]

theorem mem_filter {t : Table α} {p : α → Bool} {a : α} :
    a ∈ (t.filter p).rows ↔ a ∈ t.rows ∧ p a := by
  simp

theorem get?_insert_of_isSome {t : Table α} {mk : ℕ → α} {h} {i : ℕ} {a : α}
    (ha : t.get? i = some a) : (t.insert mk h).get? i = some a :=
  get?_eq_some.mpr ⟨mem_insert.mpr (Or.inl (mem_of_get? ha)), key_of_get? ha⟩

theorem get?_insert_next {t : Table α} {mk : ℕ → α} {h : ∀ n, key (mk n) = n} :
    (t.insert mk h).get? t.next = some (mk t.next) :=
  get?_eq_some.mpr ⟨mem_insert.mpr (Or.inr rfl), h _⟩

/-- A row of the table after an insert is an old row or the new one. -/
theorem get?_insert_eq_some {t : Table α} {mk : ℕ → α} {h : ∀ n, key (mk n) = n} {i : ℕ}
    {a : α} (ha : (t.insert mk h).get? i = some a) :
    t.get? i = some a ∨ (i = t.next ∧ a = mk t.next) := by
  obtain ⟨hmem, rfl⟩ := get?_eq_some.mp ha
  rcases mem_insert.mp hmem with hmem | rfl
  · exact Or.inl (get?_key hmem)
  · exact Or.inr ⟨h _, rfl⟩

theorem get?_next {t : Table α} : t.get? t.next = none :=
  get?_eq_none.mpr fun a ha => Nat.ne_of_lt (t.fresh a ha)

theorem get?_insert_of_ne {t : Table α} {mk : ℕ → α} {h : ∀ n, key (mk n) = n} {i : ℕ}
    (hi : i ≠ t.next) : (t.insert mk h).get? i = t.get? i := by
  rcases hg : (t.insert mk h).get? i with _ | a
  · rw [get?_eq_none] at hg
    exact (get?_eq_none.mpr fun a ha => hg a (mem_insert.mpr (Or.inl ha))).symm
  · obtain hold | ⟨hnew, -⟩ := get?_insert_eq_some hg
    · exact hold.symm
    · exact absurd hnew hi

theorem get?_update {t : Table α} {i j : ℕ} {f : α → α} {h : ∀ a, key (f a) = key a} :
    (t.update i f h).get? j = if j = i then (t.get? j).map f else t.get? j := by
  have key_ite : ∀ a : α, key (if key a = i then f a else a) = key a := fun a => by
    split <;> simp [h]
  rcases hj : t.get? j with _ | a
  · have hnone : (t.update i f h).get? j = none := by
      rw [get?_eq_none] at hj ⊢
      intro b hb
      obtain ⟨a, ha, rfl⟩ := mem_update.mp hb
      rw [key_ite]
      exact hj a ha
    simp [hnone]
  · obtain ⟨ha, rfl⟩ := get?_eq_some.mp hj
    have hmem : (if key a = i then f a else a) ∈ (t.update i f h).rows :=
      mem_update.mpr ⟨a, ha, rfl⟩
    have := get?_key hmem
    rw [key_ite] at this
    rw [this]
    split <;> rfl

theorem get?_update_self {t : Table α} {i : ℕ} {f : α → α} {h} :
    (t.update i f h).get? i = (t.get? i).map f := by
  rw [get?_update, if_pos rfl]

theorem get?_update_of_ne {t : Table α} {i j : ℕ} {f : α → α} {h} (hj : j ≠ i) :
    (t.update i f h).get? j = t.get? j := by
  rw [get?_update, if_neg hj]

theorem update_id {t : Table α} {i : ℕ} : t.update i id (fun _ => rfl) = t := by
  have hrows : (t.rows.map fun a => if key a = i then id a else a) = t.rows := by
    simp
  cases t
  simp_all [update]

theorem get?_filter {t : Table α} {p : α → Bool} {i : ℕ} :
    (t.filter p).get? i = (t.get? i).filter p := by
  rcases hi : t.get? i with _ | a
  · rw [get?_eq_none] at hi
    rw [Option.filter_none, get?_eq_none]
    exact fun a ha => hi a (mem_filter.mp ha).1
  · obtain ⟨ha, rfl⟩ := get?_eq_some.mp hi
    rcases hp : p a with _ | _
    · rw [Option.filter_some_neg (by simp [hp]), get?_eq_none]
      intro b hb hk
      obtain ⟨hb, hpb⟩ := mem_filter.mp hb
      rw [key_inj hb ha hk, hp] at hpb
      cases hpb
    · rw [Option.filter_some_pos hp]
      exact get?_key (mem_filter.mpr ⟨ha, hp⟩)

theorem get?_map {β : Type} [Keyed β] {t : Table α} {f : α → β} {h : ∀ a, key (f a) = key a}
    {i : ℕ} : (t.map f h).get? i = (t.get? i).map f := by
  have hsame : ((fun b : β => decide (key b = i)) ∘ f) = fun a => decide (key a = i) := by
    funext a
    simp [h]
  rw [get?, rows_map, List.find?_map, hsame]
  rfl

/-- A selection that holds neither of the updated row nor of its update is unchanged. -/
theorem filter_update_of_not {t : Table α} {i : ℕ} {f : α → α} {h} {p : α → Bool}
    (hp : ∀ a, t.get? i = some a → p a = false ∧ p (f a) = false) :
    (t.update i f h).rows.filter p = t.rows.filter p := by
  have hcongr : t.rows.filter (p ∘ fun a => if key a = i then f a else a) = t.rows.filter p := by
    refine List.filter_congr fun a ha => ?_
    show p (if key a = i then f a else a) = p a
    split
    next hk =>
      obtain ⟨h₁, h₂⟩ := hp a (get?_eq_some.mpr ⟨ha, hk⟩)
      rw [h₁, h₂]
    · rfl
  show (t.rows.map _).filter p = _
  rw [List.filter_map, hcongr]
  refine (List.map_congr_left fun a ha => ?_).trans (List.map_id _)
  obtain ⟨ha, hpa⟩ := List.mem_filter.mp ha
  refine if_neg fun hk => ?_
  rw [(hp a (get?_eq_some.mpr ⟨ha, hk⟩)).1] at hpa
  cases hpa

end Table

end Txn
