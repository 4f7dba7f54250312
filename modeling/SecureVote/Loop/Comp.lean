import Mathlib.Data.Nat.Init
import Mathlib.Order.Basic

/-!
# Computations with loops

A computation may return, raise, or run for ever. `Comp` keeps its outcome within a number of
rounds, and an outcome that is there within some rounds stays with more of them, so that
`Comp.Returns` does not mention rounds. `returns_whileDo` is total correctness of a `while` loop:
an invariant and a variant that every round keeps and decreases. `returns_forRange` is the rule of a
counted loop.
-/

namespace Loop

/-- A computation of an `α` that may raise an `ε` and may run for ever: its outcome within a number
of rounds, or `none` when it is still running then. -/
structure Comp (ε α : Type) where
  run : ℕ → Option (Except ε α)
  run_succ {n : ℕ} {r : Except ε α} : run n = some r → run (n + 1) = some r

namespace Comp

variable {ε α β σ : Type} {c : Comp ε α} {f : α → Comp ε β}

/-- More rounds do not change an outcome. -/
theorem run_of_le {m n : ℕ} {r : Except ε α} (h : c.run m = some r) (hmn : m ≤ n) :
    c.run n = some r := by
  induction hmn with
  | refl => exact h
  | step _ ih => exact c.run_succ ih

/-- The computation ends and returns the value. -/
def Returns (c : Comp ε α) (a : α) : Prop := ∃ n, c.run n = some (.ok a)

theorem Returns.unique {a b : α} (ha : c.Returns a) (hb : c.Returns b) : a = b := by
  obtain ⟨m, hm⟩ := ha
  obtain ⟨n, hn⟩ := hb
  have hmax : some (Except.ok a : Except ε α) = some (.ok b) :=
    (run_of_le hm (Nat.le_max_left m n)).symm.trans (run_of_le hn (Nat.le_max_right m n))
  exact Except.ok.inj (Option.some.inj hmax)

/-! ### Sequences -/

/-- Go on with the outcome of what ran first. -/
def andThen (x : Option (Except ε α)) (k : α → Option (Except ε β)) : Option (Except ε β) :=
  match x with
  | none => none
  | some (.error e) => some (.error e)
  | some (.ok a) => k a

theorem andThen_eq_some {x : Option (Except ε α)} {k : α → Option (Except ε β)} {r : Except ε β} :
    andThen x k = some r ↔
      (∃ e, x = some (.error e) ∧ r = .error e) ∨ ∃ a, x = some (.ok a) ∧ k a = some r := by
  rcases x with _ | e | a <;> simp [andThen, eq_comm]

/-- Raise an exception. -/
def raise (e : ε) : Comp ε α := ⟨fun _ => some (.error e), id⟩

instance : Monad (Comp ε) where
  pure a := ⟨fun _ => some (.ok a), id⟩
  bind c f :=
    { run := fun n => andThen (c.run n) fun a => (f a).run n
      run_succ := by
        intro n r h
        rw [andThen_eq_some] at h ⊢
        rcases h with ⟨e, he, hr⟩ | ⟨a, ha, hr⟩
        · exact .inl ⟨e, c.run_succ he, hr⟩
        · exact .inr ⟨a, c.run_succ ha, (f a).run_succ hr⟩ }

theorem run_bind (n : ℕ) : (c >>= f).run n = andThen (c.run n) fun a => (f a).run n := rfl

theorem returns_pure (a : α) : (pure a : Comp ε α).Returns a := ⟨0, rfl⟩

theorem Returns.bind {a : α} {b : β} (ha : c.Returns a) (hb : (f a).Returns b) :
    (c >>= f).Returns b := by
  obtain ⟨m, hm⟩ := ha
  obtain ⟨n, hn⟩ := hb
  refine ⟨max m n, ?_⟩
  rw [run_bind, andThen_eq_some]
  exact .inr ⟨a, run_of_le hm (Nat.le_max_left m n), run_of_le hn (Nat.le_max_right m n)⟩

/-! ### Loops -/

variable (guard : σ → Bool) (body : σ → Comp ε σ)

/-- The outcome of `while (guard) body` within a number of rounds. -/
def runWhile : ℕ → σ → Option (Except ε σ)
  | 0, _ => none
  | n + 1, s => if guard s then andThen ((body s).run n) (runWhile n) else some (.ok s)

theorem runWhile_succ {n : ℕ} {s : σ} {r : Except ε σ} (h : runWhile guard body n s = some r) :
    runWhile guard body (n + 1) s = some r := by
  induction n generalizing s r with
  | zero => cases h
  | succ n ih =>
    rw [runWhile] at h ⊢
    split_ifs at h ⊢ with hguard
    · rw [andThen_eq_some] at h ⊢
      rcases h with ⟨e, he, hr⟩ | ⟨t, ht, hr⟩
      · exact .inl ⟨e, (body s).run_succ he, hr⟩
      · exact .inr ⟨t, (body s).run_succ ht, ih hr⟩
    · exact h

/-- `while (guard) body`, from a state of the variables. -/
def whileDo (s : σ) : Comp ε σ := ⟨fun n => runWhile guard body n s, runWhile_succ guard body⟩

variable {guard body}

theorem returns_whileDo_of_not {s : σ} (h : guard s = false) : (whileDo guard body s).Returns s :=
  ⟨1, if_neg (by rw [h]; decide)⟩

theorem Returns.whileDo {s t u : σ} (hguard : guard s = true) (hbody : (body s).Returns t)
    (hrest : (whileDo guard body t).Returns u) : (whileDo guard body s).Returns u := by
  obtain ⟨m, hm⟩ := hbody
  obtain ⟨n, hn⟩ := hrest
  refine ⟨max m n + 1, (if_pos hguard).trans (andThen_eq_some.mpr (.inr ⟨t, ?_, ?_⟩))⟩
  · exact run_of_le hm (Nat.le_max_left m n)
  · exact run_of_le hn (Nat.le_max_right m n)

/-- **Total correctness of a loop.** When every round returns, keeps the invariant and decreases the
variant, the loop ends, in a state with the invariant that fails the test. -/
theorem returns_whileDo {Inv : σ → Prop} (variant : σ → ℕ)
    (hround : ∀ s, Inv s → guard s = true →
      ∃ t, (body s).Returns t ∧ Inv t ∧ variant t < variant s) {s : σ} (hs : Inv s) :
    ∃ t, (whileDo guard body s).Returns t ∧ Inv t ∧ guard t = false := by
  induction hv : variant s using Nat.strong_induction_on generalizing s with
  | _ v ih =>
    cases hguard : guard s with
    | false => exact ⟨s, returns_whileDo_of_not hguard, hs, hguard⟩
    | true =>
      obtain ⟨t, hbody, ht, hlt⟩ := hround s hs hguard
      obtain ⟨u, hrest, hu⟩ := ih (variant t) (hv ▸ hlt) ht rfl
      exact ⟨u, hbody.whileDo hguard hrest, hu⟩

/-! ### Counted loops -/

/-- `for (i = first; i < first + count; i++) body`, over the variables that it assigns. -/
def forFrom (body : ℕ → σ → Comp ε σ) : ℕ → ℕ → σ → Comp ε σ
  | _, 0, s => pure s
  | first, count + 1, s => body first s >>= forFrom body (first + 1) count

/-- `for (i = 0; i < count; i++) body`. -/
def forRange (count : ℕ) (body : ℕ → σ → Comp ε σ) (s : σ) : Comp ε σ := forFrom body 0 count s

theorem returns_forFrom {Inv : ℕ → σ → Prop} {body : ℕ → σ → Comp ε σ} {first count : ℕ}
    (hround : ∀ i s, i < first + count → Inv i s → ∃ t, (body i s).Returns t ∧ Inv (i + 1) t)
    {s : σ} (hs : Inv first s) :
    ∃ t, (forFrom body first count s).Returns t ∧ Inv (first + count) t := by
  induction count generalizing first s with
  | zero => exact ⟨s, returns_pure s, hs⟩
  | succ count ih =>
    obtain ⟨t, ht, hinv⟩ := hround first s (by omega) hs
    obtain ⟨u, hu, hinv'⟩ := ih (fun i s hi => hround i s (by omega)) hinv
    have hend : first + 1 + count = first + (count + 1) := by omega
    exact ⟨u, ht.bind hu, hend ▸ hinv'⟩

/-- The rule of a counted loop: every round takes the invariant at its number to the next one. -/
theorem returns_forRange {Inv : ℕ → σ → Prop} {body : ℕ → σ → Comp ε σ} {count : ℕ}
    (hround : ∀ i s, i < count → Inv i s → ∃ t, (body i s).Returns t ∧ Inv (i + 1) t) {s : σ}
    (hs : Inv 0 s) : ∃ t, (forRange count body s).Returns t ∧ Inv count t := by
  have h : ∃ t, (forFrom body 0 count s).Returns t ∧ Inv (0 + count) t :=
    returns_forFrom (fun i s hi => hround i s (Nat.zero_add count ▸ hi)) hs
  rwa [Nat.zero_add] at h

end Comp

end Loop
