import Mathlib.Data.List.Forall2
import Mathlib.Data.List.ReduceOption
import Mathlib.Logic.Function.Basic

/-!
# Loops over lists

General facts about a loop that may raise: `List.mapM` in `Except`, what it collects when some
rounds yield nothing, and a run of `Function.update` over a list of assignments.
-/

namespace Txn

variable {ε α β κ γ : Type}

/-! ### Loops that collect -/

theorem mapM_ok {f : α → Except ε β} {xs : List α} {ys : List β} :
    xs.mapM f = .ok ys ↔ List.Forall₂ (fun x y => f x = .ok y) xs ys := by
  induction xs generalizing ys with
  | nil =>
    rw [List.mapM_nil, List.forall₂_nil_left_iff]
    exact ⟨fun h => (Except.ok.inj h).symm, fun h => congrArg Except.ok h.symm⟩
  | cons x xs ih =>
    rw [List.mapM_cons, List.forall₂_cons_left_iff]
    constructor
    · intro h
      cases hx : f x with
      | error e =>
        rw [hx] at h
        cases h
      | ok y =>
        cases hxs : xs.mapM f with
        | error e =>
          rw [hx, hxs] at h
          cases h
        | ok zs =>
          rw [hx, hxs] at h
          exact ⟨y, zs, rfl, ih.mp hxs, (Except.ok.inj h).symm⟩
    · rintro ⟨y, zs, hx, hzs, rfl⟩
      rw [hx, ih.mpr hzs]
      rfl

/-- A loop returns just when every round does. -/
theorem exists_mapM_ok {f : α → Except ε β} {xs : List α} :
    (∃ ys, xs.mapM f = .ok ys) ↔ ∀ x ∈ xs, ∃ y, f x = .ok y := by
  simp only [mapM_ok]
  induction xs with
  | nil => exact iff_of_true ⟨[], .nil⟩ fun _ h => absurd h List.not_mem_nil
  | cons x xs ih =>
    rw [List.forall_mem_cons, ← ih]
    constructor
    · rintro ⟨ys, hys⟩
      obtain ⟨y, zs, hy, hzs, rfl⟩ := List.forall₂_cons_left_iff.mp hys
      exact ⟨⟨y, hy⟩, zs, hzs⟩
    · rintro ⟨⟨y, hy⟩, zs, hzs⟩
      exact ⟨y :: zs, .cons hy hzs⟩

/-- What a loop collects when a round may yield nothing. -/
theorem mem_reduceOption_of_mapM {f : α → Except ε (Option β)} {xs : List α} {ys : List (Option β)}
    (h : xs.mapM f = .ok ys) (b : β) : b ∈ ys.reduceOption ↔ ∃ x ∈ xs, f x = .ok (some b) := by
  rw [mapM_ok] at h
  rw [List.reduceOption_mem_iff]
  induction h with
  | nil => simp
  | cons hxy _ ih =>
    rw [List.mem_cons, List.exists_mem_cons_iff, ih, hxy]
    refine or_congr_left ?_
    rw [Except.ok.injEq, eq_comm]

theorem length_reduceOption_of_mapM {f : α → Except ε (Option β)} {xs : List α}
    {ys : List (Option β)} (h : xs.mapM f = .ok ys) (p : α → Bool)
    (hp : ∀ x ∈ xs, ∀ y, f x = .ok y → y.isSome = p x) : ys.reduceOption.length = xs.countP p := by
  rw [mapM_ok] at h
  induction h with
  | nil => rfl
  | @cons x y xs ys hxy _ ih =>
    have hrest := ih fun x' hx' => hp x' (List.mem_cons_of_mem _ hx')
    have hfirst := hp x List.mem_cons_self y hxy
    cases y with
    | none =>
      rw [List.reduceOption_cons_of_none, hrest, List.countP_cons_of_neg (by simp [← hfirst])]
    | some b =>
      rw [List.reduceOption_cons_of_some, List.length_cons, hrest,
        List.countP_cons_of_pos (by simp [← hfirst])]

/-! ### Assignments -/

variable [DecidableEq κ]

/-- Make the assignments one after the other. -/
def assignAll (g : κ → γ) (as : List (κ × γ)) : κ → γ :=
  as.foldl (fun g a => Function.update g a.1 a.2) g

theorem assignAll_of_forall_ne {g : κ → γ} {as : List (κ × γ)} {k : κ}
    (h : ∀ a ∈ as, a.1 ≠ k) : assignAll g as k = g k := by
  induction as generalizing g with
  | nil => rfl
  | cons a as ih =>
    obtain ⟨ha, has⟩ := List.forall_mem_cons.mp h
    rw [assignAll, List.foldl_cons, ← assignAll, ih has, Function.update_of_ne ha.symm]

/-- A name that is assigned one value only holds it afterwards. -/
theorem assignAll_of_mem {g : κ → γ} {as : List (κ × γ)} {k : κ} {v : γ} (hmem : (k, v) ∈ as)
    (h : ∀ a ∈ as, a.1 = k → a.2 = v) : assignAll g as k = v := by
  induction as generalizing g with
  | nil => cases hmem
  | cons a as ih =>
    obtain ⟨ha, has⟩ := List.forall_mem_cons.mp h
    rw [assignAll, List.foldl_cons, ← assignAll]
    by_cases hrest : (k, v) ∈ as
    · exact ih hrest has
    · have hne : ∀ b ∈ as, b.1 ≠ k := by
        intro b hb hk
        have hv := has b hb hk
        exact hrest (by rw [← hk, ← hv]; exact hb)
      obtain rfl : a = (k, v) := (List.mem_cons.mp hmem).resolve_right hrest |>.symm
      rw [assignAll_of_forall_ne hne, Function.update_self]

end Txn
