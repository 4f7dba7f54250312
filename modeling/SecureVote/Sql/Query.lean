import Mathlib.Data.List.Dedup
import Mathlib.Data.List.Sort

/-!
# Queries over bags of rows

The parts of a `SELECT` statement as functions on lists: inner and outer joins as nested loops,
`GROUP BY` with `COUNT` of a nullable column, and `ORDER BY`. The laws below are what a query needs
that joins each row of one table to exactly one row of a second and to any number of a third, and
then groups by columns that determine the row of the first.
-/

namespace Sql

variable {α β γ κ : Type}

/-- `a JOIN b ON on`. -/
def join (on : α → β → Bool) (as : List α) (bs : List β) : List (α × β) :=
  as.flatMap fun a => (bs.filter (on a)).map (Prod.mk a)

/-- The rows that one row of the left table contributes to a left join: its matches, or itself with
`NULL`s. -/
def matched (on : α → β → Bool) (bs : List β) (a : α) : List (α × Option β) :=
  if bs.filter (on a) = [] then [(a, none)] else (bs.filter (on a)).map fun b => (a, some b)

/-- `a LEFT JOIN b ON on`. -/
def leftJoin (on : α → β → Bool) (as : List α) (bs : List β) : List (α × Option β) :=
  as.flatMap (matched on bs)

/-- `GROUP BY key`: one group for each value of the key, with its rows. -/
def groupBy [DecidableEq κ] (key : α → κ) (rows : List α) : List (κ × List α) :=
  (rows.map key).dedup.map fun k => (k, rows.filter fun r => key r = k)

/-- `COUNT(column)`: the rows in which the column is not `NULL`. -/
def count (column : α → Option β) (rows : List α) : ℕ := rows.countP fun r => (column r).isSome

/-- `ORDER BY`. -/
def orderBy (le : α → α → Bool) (rows : List α) : List α := rows.mergeSort le

/-! ### Joins -/

/-- An inner join in which every row has exactly one match keeps the rows. -/
theorem join_eq_map {on : α → β → Bool} {as : List α} {bs : List β} {f : α → β}
    (h : ∀ a ∈ as, bs.filter (on a) = [f a]) : join on as bs = as.map fun a => (a, f a) := by
  induction as with
  | nil => rfl
  | cons a as ih =>
    rw [join, List.flatMap_cons, h a List.mem_cons_self]
    exact congrArg _ (ih fun a' ha' => h a' (List.mem_cons_of_mem _ ha'))

theorem matched_ne_nil (on : α → β → Bool) (bs : List β) (a : α) : matched on bs a ≠ [] := by
  unfold matched
  split
  · exact List.cons_ne_nil _ _
  next h => simpa using h

theorem fst_of_mem_matched {on : α → β → Bool} {bs : List β} {a : α} {r : α × Option β}
    (h : r ∈ matched on bs a) : r.1 = a := by
  unfold matched at h
  split at h
  · rw [List.mem_singleton.mp h]
  · obtain ⟨b, -, rfl⟩ := List.mem_map.mp h
    rfl

/-- The rows of a left join in which the right side is not `NULL` are the matches. -/
theorem count_matched (on : α → β → Bool) (bs : List β) (a : α) (column : β → Option γ)
    (hc : ∀ b, (column b).isSome) :
    count (fun r => r.2.bind column) (matched on bs a) = bs.countP (on a) := by
  unfold matched count
  split
  next h =>
    have : bs.countP (on a) = 0 := by rw [List.countP_eq_length_filter, h, List.length_nil]
    rw [this]
    rfl
  · rw [List.countP_map, List.countP_eq_length_filter (l := bs), List.countP_eq_length]
    intro b _
    exact hc b

/-- A condition on the left row alone may be applied before a left join. -/
theorem filter_leftJoin (on : α → β → Bool) (as : List α) (bs : List β) (p : α → Bool) :
    (leftJoin on as bs).filter (fun r => p r.1) = leftJoin on (as.filter p) bs := by
  induction as with
  | nil => rfl
  | cons a as ih =>
    have hblock : (matched on bs a).filter (fun r => p r.1) = if p a then matched on bs a else [] := by
      split
      next ha => exact List.filter_eq_self.mpr fun r hr => by rw [fst_of_mem_matched hr, ha]
      next ha => exact List.filter_eq_nil_iff.mpr fun r hr => by rw [fst_of_mem_matched hr]; exact ha
    rw [leftJoin, List.flatMap_cons, List.filter_append, hblock, List.filter_cons,
      show (as.flatMap (matched on bs)).filter (fun r => p r.1) = _ from ih]
    split <;> rfl

/-! ### Groups -/

section Groups

variable [DecidableEq κ] {key : γ → κ} {k : α → κ} {block : α → List γ}

theorem dedup_append_of_const {x : κ} {xs ys : List κ} (hne : xs ≠ []) (hxs : ∀ y ∈ xs, y = x)
    (hx : x ∉ ys) : (xs ++ ys).dedup = x :: ys.dedup := by
  induction xs with
  | nil => exact absurd rfl hne
  | cons z zs ih =>
    obtain rfl : z = x := hxs z List.mem_cons_self
    rw [List.cons_append]
    by_cases hzs : zs = []
    · rw [hzs, List.nil_append, List.dedup_cons_of_notMem hx]
    · have hmem : z ∈ zs ++ ys := by
        obtain ⟨y, hy⟩ := List.exists_mem_of_ne_nil zs hzs
        exact List.mem_append_left _ (hxs y (List.mem_cons_of_mem _ hy) ▸ hy)
      rw [List.dedup_cons_of_mem hmem, ih hzs fun y hy => hxs y (List.mem_cons_of_mem _ hy)]

/-- Rows that come in nonempty blocks, one for each of `as`, are grouped into these blocks by a key
that tells them apart. -/
theorem groupBy_flatMap {as : List α} (hkey : ∀ a ∈ as, ∀ r ∈ block a, key r = k a)
    (hne : ∀ a ∈ as, block a ≠ []) (hnodup : (as.map k).Nodup) :
    groupBy key (as.flatMap block) = as.map fun a => (k a, block a) := by
  have hkeys : ((as.flatMap block).map key).dedup = as.map k := by
    induction as with
    | nil => rfl
    | cons a as ih =>
      rw [List.map_cons, List.nodup_cons] at hnodup
      rw [List.flatMap_cons, List.map_append, dedup_append_of_const (x := k a),
        ih (fun b hb => hkey b (List.mem_cons_of_mem _ hb))
          (fun b hb => hne b (List.mem_cons_of_mem _ hb)) hnodup.2]
      · rfl
      · simpa using hne a List.mem_cons_self
      · intro y hy
        obtain ⟨r, hr, rfl⟩ := List.mem_map.mp hy
        exact hkey a List.mem_cons_self r hr
      · intro hmem
        obtain ⟨r, hr, heq⟩ := List.mem_map.mp hmem
        obtain ⟨b, hb, hr⟩ := List.mem_flatMap.mp hr
        rw [hkey b (List.mem_cons_of_mem _ hb) r hr] at heq
        exact hnodup.1 (heq ▸ List.mem_map_of_mem hb)
  rw [groupBy, hkeys, List.map_map]
  refine List.map_congr_left fun a ha => ?_
  refine Prod.ext rfl ?_
  show (as.flatMap block).filter _ = block a
  clear hkeys
  induction as with
  | nil => cases ha
  | cons b as ih =>
    rw [List.map_cons, List.nodup_cons] at hnodup
    have hkey' := fun c hc => hkey c (List.mem_cons_of_mem b hc)
    rw [List.flatMap_cons, List.filter_append]
    rcases List.mem_cons.mp ha with rfl | hmem
    · have hrest : (as.flatMap block).filter (fun r => key r = k a) = [] := by
        refine List.filter_eq_nil_iff.mpr fun r hr => ?_
        obtain ⟨c, hc, hr⟩ := List.mem_flatMap.mp hr
        rw [hkey' c hc r hr, decide_eq_true_eq]
        exact fun heq => hnodup.1 (heq ▸ List.mem_map_of_mem hc)
      have hself : (block a).filter (fun r => key r = k a) = block a :=
        List.filter_eq_self.mpr fun r hr => decide_eq_true (hkey a List.mem_cons_self r hr)
      rw [hrest, hself, List.append_nil]
    · have hother : (block b).filter (fun r => key r = k a) = [] := by
        refine List.filter_eq_nil_iff.mpr fun r hr => ?_
        rw [hkey b List.mem_cons_self r hr, decide_eq_true_eq]
        exact fun heq => hnodup.1 (heq ▸ List.mem_map_of_mem hmem)
      rw [hother, List.nil_append]
      exact ih hkey' (fun c hc => hne c (List.mem_cons_of_mem _ hc)) hnodup.2 hmem

end Groups

end Sql
