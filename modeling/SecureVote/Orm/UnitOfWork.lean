import Mathlib.Data.List.Basic
import Mathlib.Data.List.Pairwise

/-!
# The unit of work

A flush calls a listener on every object that is to be written, and then writes them one after the
other, drawing what a statement needs (a nonce) from a supply. `Mapper.Lawful` says what has to be
known of one object: that the listener makes it ready, that writing a ready object keeps the
invariant of the store, and that neither touches what is kept of the other objects. `Lawful.flush`
is what follows for a flush.
-/

namespace Orm

variable {σ ι δ ε : Type}

/-- How the objects `ι` of a session are written to a store `σ`, with draws `δ`. -/
structure Mapper (σ ι δ ε : Type) where
  dirty : ι → Bool
  listen : σ → ι → Except ε ι
  write : δ → σ → ι → Except ε (σ × ι)

namespace Mapper

variable (M : Mapper σ ι δ ε)

/-- The listener is called on an object that is to be written. -/
def heed (d : σ) (x : ι) : Except ε ι := if M.dirty x then M.listen d x else .ok x

/-- Such an object is written. -/
def save (a : δ) (d : σ) (x : ι) : Except ε (σ × ι) :=
  if M.dirty x then M.write a d x else .ok (d, x)

/-- Call the listener on all objects. -/
def notify (d : σ) : List ι → Except ε (List ι)
  | [] => .ok []
  | x :: xs => do
    let x' ← M.heed d x
    let xs' ← notify d xs
    pure (x' :: xs')

/-- Write them in turn. -/
def emit : (ℕ → δ) → σ → List ι → Except ε (σ × List ι)
  | _, d, [] => .ok (d, [])
  | draw, d, x :: xs => do
    let (d₁, x') ← M.save (draw 0) d x
    let (d₂, xs') ← emit (fun n => draw (n + 1)) d₁ xs
    pure (d₂, x' :: xs')

/-- A flush. -/
def flush (draw : ℕ → δ) (d : σ) (xs : List ι) : Except ε (σ × List ι) := do
  let xs' ← M.notify d xs
  M.emit draw d xs'

/-- What has to be known of one object: `Inv` is kept of the store, `Fits` of an object between two
flushes, and `Ready` of an object that the listener has seen. `Apart` holds of two objects that are
not written to the same place. -/
structure Lawful (Inv : σ → Prop) (Fits Ready : σ → ι → Prop) (Apart : ι → ι → Prop) : Prop where
  symm : ∀ {x y}, Apart x y → Apart y x
  listen : ∀ {d x x'}, Inv d → Fits d x → M.dirty x = true → M.listen d x = .ok x' →
    M.dirty x' = true ∧ Ready d x' ∧ ∀ y, Apart x y → Apart x' y
  write : ∀ {a d x d' x'}, Inv d → Ready d x → M.write a d x = .ok (d', x') → Inv d' ∧ Fits d' x'
  fits_frame : ∀ {a d x d' x' y}, Ready d x → M.write a d x = .ok (d', x') → Apart x y →
    Fits d y → Fits d' y ∧ Apart x' y
  ready_frame : ∀ {a d x d' x' y}, Ready d x → M.write a d x = .ok (d', x') → Apart x y →
    Ready d y → Ready d' y ∧ Apart x' y

theorem exists_of_bind_ok {α β : Type} {x : Except ε α} {k : α → Except ε β} {b : β}
    (h : x >>= k = .ok b) : ∃ a, x = .ok a ∧ k a = .ok b := by
  cases x with
  | error e => cases h
  | ok a => exact ⟨a, rfl, h⟩

/-- What is known of an object in the middle of a flush. -/
def Noted (Fits Ready : σ → ι → Prop) (d : σ) (x : ι) : Prop :=
  if M.dirty x then Ready d x else Fits d x

variable {M} {Inv : σ → Prop} {Fits Ready : σ → ι → Prop} {Apart : ι → ι → Prop}

/-- The listeners note every object, and do not move any of them to the place of another. -/
theorem Lawful.notify (h : M.Lawful Inv Fits Ready Apart) {d : σ} (hd : Inv d) {xs xs' : List ι}
    (hxs : ∀ x ∈ xs, Fits d x) (hap : xs.Pairwise Apart) (hnotify : M.notify d xs = .ok xs') :
    (∀ x' ∈ xs', M.Noted Fits Ready d x') ∧ xs'.Pairwise Apart ∧
      ∀ z, (∀ x ∈ xs, Apart x z) → ∀ x' ∈ xs', Apart x' z := by
  induction xs generalizing xs' with
  | nil =>
    cases hnotify
    exact ⟨fun x hx => (nomatch hx), .nil, fun z _ x hx => (nomatch hx)⟩
  | cons x xs ih =>
    rw [Mapper.notify] at hnotify
    obtain ⟨x', hx', hrest⟩ := exists_of_bind_ok hnotify
    obtain ⟨ys, hys, heq⟩ := exists_of_bind_ok hrest
    cases heq
    obtain ⟨hfar, hap⟩ := List.pairwise_cons.mp hap
    obtain ⟨hnoted, hap', hframe⟩ := ih (fun y hy => hxs y (List.mem_cons_of_mem x hy)) hap hys
    have hhead : M.Noted Fits Ready d x' ∧ ∀ z, Apart x z → Apart x' z := by
      have hfit : Fits d x := hxs x List.mem_cons_self
      by_cases hdirty : M.dirty x = true
      · rw [Mapper.heed, if_pos hdirty] at hx'
        obtain ⟨hdirty', hready, hmove⟩ := h.listen hd hfit hdirty hx'
        exact ⟨(if_pos hdirty').mpr hready, hmove⟩
      · rw [Mapper.heed, if_neg hdirty] at hx'
        cases hx'
        exact ⟨(if_neg hdirty).mpr hfit, fun z hz => hz⟩
    refine ⟨List.forall_mem_cons.mpr ⟨hhead.1, hnoted⟩, List.pairwise_cons.mpr ⟨?_, hap'⟩, ?_⟩
    · exact fun y' hy' => h.symm (hframe x' (fun y hy => h.symm (hhead.2 y (hfar y hy))) y' hy')
    · intro z hz
      obtain ⟨hxz, hz⟩ := List.forall_mem_cons.mp hz
      exact List.forall_mem_cons.mpr ⟨hhead.2 z hxz, hframe z hz⟩

/-- Writing noted objects in turn keeps the invariant, and what fits elsewhere. -/
theorem Lawful.emit (h : M.Lawful Inv Fits Ready Apart) {draw : ℕ → δ} {d d' : σ}
    {xs xs' : List ι} (hd : Inv d) (hxs : ∀ x ∈ xs, M.Noted Fits Ready d x)
    (hap : xs.Pairwise Apart) (hemit : M.emit draw d xs = .ok (d', xs')) :
    Inv d' ∧ (∀ x' ∈ xs', Fits d' x') ∧ xs'.Pairwise Apart ∧
      ∀ z, (∀ x ∈ xs, Apart x z) → Fits d z → Fits d' z ∧ ∀ x' ∈ xs', Apart x' z := by
  induction xs generalizing draw d xs' with
  | nil =>
    cases hemit
    exact ⟨hd, fun x hx => (nomatch hx), .nil, fun z _ hz => ⟨hz, fun x hx => (nomatch hx)⟩⟩
  | cons x xs ih =>
    rw [Mapper.emit] at hemit
    obtain ⟨⟨d₁, x'⟩, hx', hrest⟩ := exists_of_bind_ok hemit
    obtain ⟨⟨d₂, ys⟩, hys, heq⟩ := exists_of_bind_ok hrest
    cases heq
    obtain ⟨hfar, hap⟩ := List.pairwise_cons.mp hap
    obtain ⟨hnoted, hnoteds⟩ := List.forall_mem_cons.mp hxs
    -- the head is written, and the others are as they were
    have hhead : Inv d₁ ∧ Fits d₁ x' ∧
        (∀ z, Apart x z → Fits d z → Fits d₁ z ∧ Apart x' z) ∧
        ∀ z, Apart x z → Ready d z → Ready d₁ z ∧ Apart x' z := by
      by_cases hdirty : M.dirty x = true
      · rw [Mapper.save, if_pos hdirty] at hx'
        have hready : Ready d x := (if_pos hdirty).mp hnoted
        obtain ⟨hd₁, hfit⟩ := h.write hd hready hx'
        exact ⟨hd₁, hfit, fun z hz => h.fits_frame hready hx' hz,
          fun z hz => h.ready_frame hready hx' hz⟩
      · rw [Mapper.save, if_neg hdirty] at hx'
        cases hx'
        exact ⟨hd, (if_neg hdirty).mp hnoted, fun z hz hfit => ⟨hfit, hz⟩,
          fun z hz hready => ⟨hready, hz⟩⟩
    obtain ⟨hd₁, hfit, hfits, hreadys⟩ := hhead
    have htail : ∀ y ∈ xs, M.Noted Fits Ready d₁ y ∧ Apart x' y := by
      intro y hy
      have hny := hnoteds y hy
      by_cases hdirty : M.dirty y = true
      · obtain ⟨hready, hxy⟩ := hreadys y (hfar y hy) ((if_pos hdirty).mp hny)
        exact ⟨(if_pos hdirty).mpr hready, hxy⟩
      · obtain ⟨hfity, hxy⟩ := hfits y (hfar y hy) ((if_neg hdirty).mp hny)
        exact ⟨(if_neg hdirty).mpr hfity, hxy⟩
    obtain ⟨hd₂, hfits₂, hap₂, hframe⟩ := ih hd₁ (fun y hy => (htail y hy).1) hap hys
    obtain ⟨hfit', hfar'⟩ := hframe x' (fun y hy => h.symm (htail y hy).2) hfit
    refine ⟨hd₂, List.forall_mem_cons.mpr ⟨hfit', hfits₂⟩,
      List.pairwise_cons.mpr ⟨fun y hy => h.symm (hfar' y hy), hap₂⟩, fun z hz hfitz => ?_⟩
    obtain ⟨hxz, hz⟩ := List.forall_mem_cons.mp hz
    obtain ⟨hfitz₁, hxz'⟩ := hfits z hxz hfitz
    obtain ⟨hfitz₂, hz'⟩ := hframe z hz hfitz₁
    exact ⟨hfitz₂, List.forall_mem_cons.mpr ⟨hxz', hz'⟩⟩

/-- **A flush is sound**: it keeps the invariant of the store, and all objects fit afterwards. -/
theorem Lawful.flush (h : M.Lawful Inv Fits Ready Apart) {draw : ℕ → δ} {d d' : σ}
    {xs xs' : List ι} (hd : Inv d) (hxs : ∀ x ∈ xs, Fits d x) (hap : xs.Pairwise Apart)
    (hflush : M.flush draw d xs = .ok (d', xs')) :
    Inv d' ∧ (∀ x' ∈ xs', Fits d' x') ∧ xs'.Pairwise Apart := by
  obtain ⟨ys, hnotify, hemit⟩ := exists_of_bind_ok hflush
  obtain ⟨hnoted, hap', -⟩ := h.notify hd hxs hap hnotify
  obtain ⟨hd', hfits, hap'', -⟩ := h.emit hd hnoted hap' hemit
  exact ⟨hd', hfits, hap''⟩

end Mapper

end Orm
