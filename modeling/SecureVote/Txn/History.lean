import SecureVote.Txn.Transaction
import Mathlib.Data.List.Forall2
import Mathlib.Data.List.Induction

/-!
# Histories

A specification gives for every operation when it is allowed and what it does. A history is a list
of operations that are allowed one after the other; what each operation keeps holds of every
history (`Allowed.induction`).

`Explains` says that a history explains a run of the transaction machine: the operations are those
of the commits, in their order, each one asked for by the request that committed, and the committed
state represents the state that the history leads to. `exists_explains` builds the history along a
run from what is known of single commits, and extends the one of a run that goes on, so that what
has been answered keeps its place in it.
-/

namespace Txn

/-- Operations on a state: when they are allowed, and what they do. -/
structure Spec (S A : Type*) where
  allows : S → A → Prop
  apply : S → A → S

namespace Spec

variable {S A : Type*} {O : Spec S A} {x : S} {as bs : List A}

/-- The state after a list of operations. -/
def run (O : Spec S A) (x : S) (as : List A) : S := as.foldl O.apply x

/-- Every operation of the list is allowed when its turn comes. -/
def Allowed (O : Spec S A) : S → List A → Prop
  | _, [] => True
  | x, a :: as => O.allows x a ∧ O.Allowed (O.apply x a) as

@[simp]
theorem run_nil : O.run x [] = x := rfl

@[simp]
theorem run_append : O.run x (as ++ bs) = O.run (O.run x as) bs := List.foldl_append

@[simp]
theorem run_singleton {a : A} : O.run x [a] = O.apply x a := rfl

theorem allowed_append : O.Allowed x (as ++ bs) ↔ O.Allowed x as ∧ O.Allowed (O.run x as) bs := by
  induction as generalizing x with
  | nil => simp [Allowed]
  | cons a as ih => simp [Allowed, ih, run, and_assoc]

theorem Allowed.snoc {a : A} (h : O.Allowed x as) (ha : O.allows (O.run x as) a) :
    O.Allowed x (as ++ [a]) :=
  allowed_append.mpr ⟨h, ha, trivial⟩

/-- **Induction over a history.** -/
theorem Allowed.induction {P : List A → S → Prop} (h : O.Allowed x as) (hnil : P [] x)
    (hsnoc : ∀ as a, O.Allowed x as → P as (O.run x as) → O.allows (O.run x as) a →
      P (as ++ [a]) (O.apply (O.run x as) a)) : P as (O.run x as) := by
  induction as using List.reverseRecOn with
  | nil => exact hnil
  | append_singleton as a ih =>
    obtain ⟨has, ha, -⟩ := allowed_append.mp h
    rw [run_append]
    exact hsnoc as a has (ih has) ha

/-- What every allowed operation relates, a history relates. -/
theorem Allowed.rel {R : S → S → Prop} {I : S → Prop} (h : O.Allowed x as) (hx : I x)
    (hrefl : ∀ x, R x x) (htrans : ∀ {x y z}, R x y → R y z → R x z)
    (hstep : ∀ x a, I x → O.allows x a → I (O.apply x a) ∧ R x (O.apply x a)) :
    I (O.run x as) ∧ R x (O.run x as) := by
  refine h.induction (P := fun _ y => I y ∧ R x y) ⟨hx, hrefl x⟩ ?_
  rintro as a - ⟨hI, hR⟩ ha
  obtain ⟨hI', hR'⟩ := hstep _ a hI ha
  exact ⟨hI', htrans hR hR'⟩

end Spec

/-! ### The history of a run -/

variable {σ ρ τ V κ ω : Type} {Q : Type} {A : Q → Type} {W R α : Type}
  [DecidableEq ρ] [DecidableEq V] [DecidableEq κ] [Store σ ρ τ V]
  {M : Machine σ ρ τ κ ω Q A W R α} {s s' : Sys M}

/-- The history `as` from `x₀` explains the run to `s`: `rep` relates the committed state to the one
of the history, and `asks` the request of each commit to its operation. -/
structure Explains {S B : Type*} (O : Spec S B) (rep : σ → S → Prop) (asks : R → B → Prop) (x₀ : S)
    (s : Sys M) (as : List B) : Prop where
  allowed : O.Allowed x₀ as
  represents : rep s.db (O.run x₀ as)
  commits : List.Forall₂ (fun (x : ℕ × σ × σ) a =>
    ∃ t, s.threads[x.1]? = some t ∧ asks t.request a) s.commits as

variable {S B : Type*} {O : Spec S B} {rep : σ → S → Prop} {asks : R → B → Prop} {x₀ : S}
  {C : Sys M → Label → Prop}

/-- An explained run goes on: a step either commits nothing, or its commit is an operation. -/
theorem Explains.step {as : List B} {b : Label} (h : Explains O rep asks x₀ s as)
    (hs : Step M b s s')
    (hcommit : (s'.db = s.db ∧ s'.commits = s.commits) ∨ ∃ pid t a, s.threads[pid]? = some t ∧
      s'.commits = s.commits ++ [(pid, s.db, s'.db)] ∧ asks t.request a ∧
      O.allows (O.run x₀ as) a ∧ rep s'.db (O.apply (O.run x₀ as) a)) :
    ∃ bs, Explains O rep asks x₀ s' (as ++ bs) := by
  have hkeep : List.Forall₂ (fun (x : ℕ × σ × σ) a =>
      ∃ t, s'.threads[x.1]? = some t ∧ asks t.request a) s.commits as := by
    refine h.commits.imp fun x a ⟨t, ht, ha⟩ => ?_
    obtain ⟨t', ht', hreq, -⟩ := hs.threads ht
    exact ⟨t', ht', hreq ▸ ha⟩
  rcases hcommit with ⟨hdb, hcommits⟩ | ⟨pid, t, a, ht, hcommits, hask, hallow, hrep⟩
  · exact ⟨[], by simpa using h.allowed, by simpa [hdb] using h.represents,
      by simpa [hcommits] using hkeep⟩
  · obtain ⟨t', ht', hreq, -⟩ := hs.threads ht
    refine ⟨[a], h.allowed.snoc hallow, by simpa using hrep, ?_⟩
    rw [hcommits]
    exact List.rel_append hkeep (.cons ⟨t', ht', hreq ▸ hask⟩ .nil)

/-- **The history of a run.** Along a run whose commits are operations, the history of an earlier
state is extended. -/
theorem Explains.extend {d : σ} {w : W} {as : List B} (h₀ : ReachIf C (Sys.init d w) s)
    (h : Explains O rep asks x₀ s as) (hs : ReachIf C s s')
    (hcommit : ∀ {s₁ s₂ : Sys M} {b : Label} {x : S}, ReachIf C (Sys.init d w) s₁ → C s₁ b →
      Step M b s₁ s₂ → rep s₁.db x →
      (s₂.db = s₁.db ∧ s₂.commits = s₁.commits) ∨ ∃ pid t a, s₁.threads[pid]? = some t ∧
        s₂.commits = s₁.commits ++ [(pid, s₁.db, s₂.db)] ∧ asks t.request a ∧
        O.allows x a ∧ rep s₂.db (O.apply x a)) :
    ∃ bs, Explains O rep asks x₀ s' (as ++ bs) := by
  induction hs with
  | refl => exact ⟨[], by simpa using h⟩
  | @tail s₁ s₂ hr hstep ih =>
    obtain ⟨bs, hbs⟩ := ih
    obtain ⟨b, hb, hC⟩ := hstep
    obtain ⟨cs, hcs⟩ := hbs.step hb (hcommit (h₀.trans hr) hC hb hbs.represents)
    exact ⟨bs ++ cs, by simpa using hcs⟩

omit [DecidableEq ρ] [DecidableEq κ] in
theorem explains_init {d : σ} {w : W} (h : rep d x₀) :
    Explains O rep asks x₀ (Sys.init d w : Sys M) [] :=
  ⟨trivial, h, .nil⟩

/-- Lists that correspond have as many elements with related properties. -/
theorem length_filter_eq_countP {X Y Z : Type*} {rel : X → Y → Prop} {p : X → Bool}
    {f : Y → Option Z} {q : Z → Bool} (h : ∀ x y, rel x y → p x = (f y).any q) {xs : List X}
    {ys : List Y} (hxs : List.Forall₂ rel xs ys) :
    (xs.filter p).length = (ys.filterMap f).countP q := by
  induction hxs with
  | nil => rfl
  | @cons x y xs ys hxy _ ih =>
    have hp := h x y hxy
    rcases hf : f y with _ | z
    · rw [hf] at hp
      rw [List.filter_cons_of_neg (by simp [hp]), List.filterMap_cons_none hf, ih]
    · rw [hf, Option.any_some] at hp
      rw [List.filterMap_cons_some hf, List.countP_cons, List.filter_cons, hp, ← ih]
      cases q z <;> simp

end Txn
