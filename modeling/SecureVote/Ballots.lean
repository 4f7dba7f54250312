import SecureVote.Txn.History
import Mathlib.Data.Multiset.AddSub
import Mathlib.Data.Set.Card

/-!
# Ballot boxes

What an election with anonymous ballots is for, without a database: elections `ι`, voters `V`,
choices `C` and the marks `M` that keep a ballot from being used twice are arbitrary types, a
roster is a set, and the ballots in a box are a multiset, so that nothing ties one to a voter.

Of every history of operations the following holds (`sound_of_allowed`, `replays_of_allowed`,
`later_of_allowed`): the ballots in a box are the ones that were cast, for choices of its roster,
as many as marks and direct votes; no mark is used twice; at most one election is open; and once an
election is closed its box stays as it is, so that a declared result counts all ballots ever cast
(`declared_eq`).
-/

open Txn

namespace Ballots

/-- The life of an election. -/
inductive Phase
  | draft
  | open
  | closed
  deriving DecidableEq, Repr

variable {ι V C M : Type*}

/-- One election. -/
@[ext]
structure Box (V C M : Type*) where
  phase : Phase
  /-- Who can be voted for. -/
  roster : Set C
  /-- Who has been given the right to an anonymous ballot. -/
  authorized : Set V
  /-- The ballots. -/
  cast : Multiset C
  /-- The marks of the anonymous ballots. -/
  marks : Set M
  /-- Who has voted directly. -/
  voted : Set V
  /-- The declared result. -/
  declared : Option (Multiset C)

/-- A new election. -/
def Box.fresh : Box V C M := ⟨.draft, ∅, ∅, 0, ∅, ∅, none⟩

/-- All elections, and who may vote. -/
structure Board (ι V C M : Type*) where
  box : ι → Option (Box V C M)
  eligible : Set V

/-- A board without elections. -/
def Board.empty (vs : Set V) : Board ι V C M := ⟨fun _ => none, vs⟩

/-- An operation on one election. -/
inductive Move (V C M : Type*)
  | amend (cs : Set C)
  | open
  | authorize (v : V)
  | cast (c : C) (m : M)
  | vote (c : C) (v : V)
  | close
  | declare

/-- What an operation does to its election. -/
def Move.act (x : Box V C M) : Move V C M → Box V C M
  | .amend cs => { x with roster := cs }
  | .open => { x with phase := .open }
  | .authorize v => { x with authorized := insert v x.authorized }
  | .cast c m => { x with cast := c ::ₘ x.cast, marks := insert m x.marks }
  | .vote c v => { x with cast := c ::ₘ x.cast, voted := insert v x.voted }
  | .close => { x with phase := .closed }
  | .declare => { x with declared := some x.cast }

/-- When an operation may be done. -/
def Move.ready (b : Board ι V C M) (x : Box V C M) : Move V C M → Prop
  | .amend _ => x.phase = .draft
  | .open => x.phase = .draft ∧ ∀ i y, b.box i = some y → y.phase ≠ .open
  | .authorize v => x.phase = .open ∧ v ∈ b.eligible ∧ v ∉ x.authorized
  | .cast c m => x.phase = .open ∧ c ∈ x.roster ∧ m ∉ x.marks
  | .vote c v => x.phase = .open ∧ c ∈ x.roster ∧ v ∈ b.eligible ∧ v ∉ x.voted
  | .close => x.phase = .open
  | .declare => x.phase = .closed ∧ x.declared = none

/-- An operation on the board. -/
inductive Op (ι V C M : Type*)
  /-- The accounts change. -/
  | enrol (vs : Set V)
  | create (i : ι)
  | move (i : ι) (m : Move V C M)
  /-- Nothing of the board changes. -/
  | keep

variable [DecidableEq ι]

/-- The operations on the board. -/
def spec : Spec (Board ι V C M) (Op ι V C M) where
  allows b
    | .enrol _ | .keep => True
    | .create i => b.box i = none
    | .move i m => ∃ x, b.box i = some x ∧ m.ready b x
  apply b
    | .enrol vs => { b with eligible := vs }
    | .create i => { b with box := Function.update b.box i (some .fresh) }
    | .move i m => { b with box := Function.update b.box i ((b.box i).map m.act) }
    | .keep => b

/-! ### One operation -/

/-- The operation is one on the election `i`, or creates it. -/
def Op.on (i : ι) : Op ι V C M → Prop
  | .create j | .move j _ => j = i
  | _ => False

/-- What an operation does to the election `i`. -/
theorem box_of_apply {b : Board ι V C M} {a : Op ι V C M} {i : ι} {x : Box V C M}
    (ha : spec.allows b a) (hx : (spec.apply b a).box i = some x) :
    (¬a.on i ∧ b.box i = some x) ∨ (a = .create i ∧ b.box i = none ∧ x = .fresh) ∨
      ∃ m y, a = .move i m ∧ b.box i = some y ∧ m.ready b y ∧ x = m.act y := by
  cases a with
  | enrol vs => exact Or.inl ⟨id, hx⟩
  | keep => exact Or.inl ⟨id, hx⟩
  | create j =>
    by_cases hj : i = j
    · subst hj
      refine Or.inr (Or.inl ⟨rfl, ha, ?_⟩)
      simpa [spec, eq_comm] using hx
    · refine Or.inl ⟨Ne.symm hj, ?_⟩
      simpa [spec, Function.update_of_ne hj] using hx
  | move j m =>
    obtain ⟨y, hy, hready⟩ := ha
    by_cases hj : i = j
    · subst hj
      refine Or.inr (Or.inr ⟨m, y, rfl, hy, hready, ?_⟩)
      simpa [spec, hy, eq_comm] using hx
    · refine Or.inl ⟨Ne.symm hj, ?_⟩
      simpa [spec, Function.update_of_ne hj] using hx

/-- An election is not lost. -/
theorem box_isSome_of_apply {b : Board ι V C M} {a : Op ι V C M} {i : ι}
    (h : (b.box i).isSome) : ((spec.apply b a).box i).isSome := by
  cases a with
  | enrol vs => exact h
  | keep => exact h
  | create j =>
    by_cases hj : i = j
    · subst hj
      simp [spec]
    · simpa [spec, Function.update_of_ne hj] using h
  | move j m =>
    by_cases hj : i = j
    · subst hj
      simpa [spec] using h
    · simpa [spec, Function.update_of_ne hj] using h

/-- **Induction over the history of one election.** -/
theorem box_induction {vs : Set V} {as : List (Op ι V C M)} {i : ι}
    {P : List (Op ι V C M) → Box V C M → Prop} (h : spec.Allowed (.empty vs) as)
    (hfresh : ∀ as, (∀ a ∈ as, ¬a.on i) → P (as ++ [.create i]) .fresh)
    (hother : ∀ as a x, ¬a.on i → P as x → P (as ++ [a]) x)
    (hmove : ∀ as m (b : Board ι V C M) x, P as x → m.ready b x →
      P (as ++ [.move i m]) (m.act x)) :
    (∀ x, (spec.run (.empty vs) as).box i = some x → P as x) ∧
      ((spec.run (.empty vs) as).box i = none → ∀ a ∈ as, ¬a.on i) := by
  refine h.induction (P := fun as b => (∀ x, b.box i = some x → P as x) ∧
    (b.box i = none → ∀ a ∈ as, ¬a.on i)) ⟨nofun, fun _ _ ha => nomatch ha⟩ ?_
  rintro as a - ⟨hP, hnone⟩ ha
  generalize spec.run (.empty vs) as = b at *
  refine ⟨fun x hx => ?_, fun hx a' ha' => ?_⟩
  · rcases box_of_apply ha hx with ⟨hon, hx⟩ | ⟨rfl, hn, rfl⟩ | ⟨m, y, rfl, hy, hready, rfl⟩
    · exact hother as a x hon (hP x hx)
    · exact hfresh as (hnone hn)
    · exact hmove as m b y (hP y hy) hready
  · have hb : b.box i = none := by
      by_contra hne
      have := box_isSome_of_apply (a := a) (Option.isSome_iff_ne_none.mpr hne)
      rw [hx] at this
      cases this
    rcases List.mem_append.mp ha' with ha' | ha'
    · exact hnone hb a' ha'
    · obtain rfl := List.mem_singleton.mp ha'
      cases a' with
      | enrol vs => exact id
      | keep => exact id
      | create j =>
        rintro rfl
        simp [spec] at hx
      | move j m =>
        rintro rfl
        obtain ⟨y, hy, -⟩ := ha
        rw [hb] at hy
        cases hy

/-! ### What holds of a box -/

/-- What holds of every box at all times. -/
structure Box.Sound (x : Box V C M) : Prop where
  draft : x.phase = .draft → x.authorized = ∅ ∧ x.cast = 0 ∧ x.marks = ∅ ∧ x.voted = ∅
  roster : ∀ c ∈ x.cast, c ∈ x.roster
  balance : (x.cast.card : ℕ∞) = x.marks.encard + x.voted.encard
  declared : ∀ {t}, x.declared = some t → x.phase = .closed ∧ t = x.cast

theorem Box.sound_fresh : (Box.fresh : Box V C M).Sound where
  draft _ := ⟨rfl, rfl, rfl, rfl⟩
  roster _ hc := absurd hc (Multiset.notMem_zero _)
  balance := by simp [Box.fresh]
  declared h := by cases h

omit [DecidableEq ι] in
/-- An operation keeps a box sound. -/
theorem Move.sound {b : Board ι V C M} {x : Box V C M} {m : Move V C M} (h : x.Sound)
    (hm : m.ready b x) : (m.act x).Sound := by
  have hopen : x.phase = .open → x.declared = none := by
    intro hphase
    by_contra hne
    obtain ⟨t, ht⟩ := Option.ne_none_iff_exists'.mp hne
    rw [(h.declared ht).1] at hphase
    cases hphase
  cases m with
  | amend cs =>
    have hdraft : x.phase = .draft := hm
    refine ⟨h.draft, fun c hc => ?_, h.balance, h.declared⟩
    rw [show (Move.act x (.amend cs)).cast = 0 from (h.draft hdraft).2.1] at hc
    exact absurd hc (Multiset.notMem_zero c)
  | «open» =>
    refine ⟨(nomatch ·), h.roster, h.balance, fun ht => ?_⟩
    have := (h.declared ht).1
    rw [hm.1] at this
    cases this
  | authorize v =>
    refine ⟨fun hd => ?_, h.roster, h.balance, h.declared⟩
    have := hm.1.symm.trans hd
    cases this
  | cast c m =>
    obtain ⟨hphase, hc, hmark⟩ := hm
    refine ⟨fun hd => ?_, fun c' hc' => ?_, ?_, fun ht => ?_⟩
    · cases hphase.symm.trans hd
    · rcases Multiset.mem_cons.mp hc' with rfl | hc'
      · exact hc
      · exact h.roster c' hc'
    · show (((c ::ₘ x.cast).card : ℕ) : ℕ∞) = (insert m x.marks).encard + x.voted.encard
      rw [Multiset.card_cons, Set.encard_insert_of_notMem hmark, Nat.cast_add, h.balance,
        Nat.cast_one, add_right_comm]
    · cases (hopen hphase).symm.trans ht
  | vote c v =>
    obtain ⟨hphase, hc, -, hv⟩ := hm
    refine ⟨fun hd => ?_, fun c' hc' => ?_, ?_, fun ht => ?_⟩
    · cases hphase.symm.trans hd
    · rcases Multiset.mem_cons.mp hc' with rfl | hc'
      · exact hc
      · exact h.roster c' hc'
    · show (((c ::ₘ x.cast).card : ℕ) : ℕ∞) = x.marks.encard + (insert v x.voted).encard
      rw [Multiset.card_cons, Set.encard_insert_of_notMem hv, Nat.cast_add, h.balance,
        Nat.cast_one, add_assoc]
    · cases (hopen hphase).symm.trans ht
  | close =>
    exact ⟨(nomatch ·), h.roster, h.balance, fun ht => ⟨rfl, (h.declared ht).2⟩⟩
  | declare =>
    refine ⟨fun hd => ?_, h.roster, h.balance, fun ht => ?_⟩
    · cases hm.1.symm.trans hd
    · cases ht
      exact ⟨hm.1, rfl⟩

/-- **Every box is sound.** -/
theorem sound_of_allowed {vs : Set V} {as : List (Op ι V C M)} (h : spec.Allowed (.empty vs) as)
    {i : ι} {x : Box V C M} (hx : (spec.run (.empty vs) as).box i = some x) : x.Sound :=
  (box_induction (P := fun _ x => x.Sound) h (fun _ _ => Box.sound_fresh) (fun _ _ _ _ h => h)
    fun _ _ _ _ h hm => Move.sound h hm).1 x hx

/-- At most one election is open. -/
def Board.OneOpen (b : Board ι V C M) : Prop :=
  ∀ i j x y, b.box i = some x → b.box j = some y → x.phase = .open → y.phase = .open → i = j

omit [DecidableEq ι] in
/-- An open election was open before an operation, or the operation opened it. -/
theorem Move.open_of_act {b : Board ι V C M} {x : Box V C M} {m : Move V C M} (hm : m.ready b x)
    (h : (m.act x).phase = .open) : x.phase = .open ∨
      (x.phase = .draft ∧ ∀ i y, b.box i = some y → y.phase ≠ .open) := by
  cases m with
  | «open» => exact Or.inr hm
  | close => cases h
  | _ => exact Or.inl h

/-- **At most one election is open.** -/
theorem oneOpen_of_allowed {vs : Set V} {as : List (Op ι V C M)}
    (h : spec.Allowed (.empty vs) as) : (spec.run (.empty vs) as).OneOpen := by
  refine h.induction (P := fun _ b => b.OneOpen) (fun i j x y hx => nomatch hx) ?_
  rintro as a - hone ha
  generalize spec.run (.empty vs) as = b at *
  -- an election that is open afterwards was open before, or none was
  have hbefore : ∀ i x, (spec.apply b a).box i = some x → x.phase = .open →
      (∃ y, b.box i = some y ∧ y.phase = .open) ∨
        (a.on i ∧ ∀ j y, b.box j = some y → y.phase ≠ .open) := by
    intro i x hx hopen
    rcases box_of_apply ha hx with ⟨-, hx⟩ | ⟨rfl, hn, rfl⟩ | ⟨m, y, rfl, hy, hready, rfl⟩
    · exact Or.inl ⟨x, hx, hopen⟩
    · cases hopen
    · rcases Move.open_of_act hready hopen with hopen | ⟨-, hnone⟩
      · exact Or.inl ⟨y, hy, hopen⟩
      · exact Or.inr ⟨rfl, hnone⟩
  intro i j x y hx hy hxo hyo
  rcases hbefore i x hx hxo with ⟨x', hx', hxo'⟩ | ⟨hi, hnone⟩
  · rcases hbefore j y hy hyo with ⟨y', hy', hyo'⟩ | ⟨-, hnone⟩
    · exact hone i j x' y' hx' hy' hxo' hyo'
    · exact absurd hxo' (hnone i x' hx')
  · rcases hbefore j y hy hyo with ⟨y', hy', hyo'⟩ | ⟨hj, -⟩
    · exact absurd hyo' (hnone j y' hy')
    · cases a with
      | enrol vs => exact hi.elim
      | keep => exact hi.elim
      | create k => exact (hi : k = i).symm.trans hj
      | move k m => exact (hi : k = i).symm.trans hj

/-! ### The history of a box -/

/-- The choice of a ballot. -/
def Move.choice : Move V C M → Option C
  | .cast c _ | .vote c _ => some c
  | _ => none

/-- The mark of an anonymous ballot. -/
def Move.mark : Move V C M → Option M
  | .cast _ m => some m
  | _ => none

/-- The voter who is given the right to an anonymous ballot. -/
def Move.voter : Move V C M → Option V
  | .authorize v => some v
  | _ => none

/-- What `f` reads off the operations on the election `i`. -/
def Op.at {α : Type*} (f : Move V C M → Option α) (i : ι) : Op ι V C M → Option α
  | .move j m => if j = i then f m else none
  | _ => none

theorem Op.at_of_not_on {α : Type*} {f : Move V C M → Option α} {i : ι} {a : Op ι V C M}
    (h : ¬a.on i) : a.at f i = none := by
  cases a with
  | move j m => exact if_neg h
  | _ => rfl

@[simp]
theorem Op.at_move {α : Type*} {f : Move V C M → Option α} {i : ι} {m : Move V C M} :
    (Op.move i m).at f i = f m := if_pos rfl

/-- The box holds what its history says: the ballots that were cast, each mark and each
authorization once. -/
structure Box.Replays (i : ι) (as : List (Op ι V C M)) (x : Box V C M) : Prop where
  cast : x.cast = (as.filterMap (Op.at Move.choice i) : Multiset C)
  marks : ∀ m, m ∈ x.marks ↔ m ∈ as.filterMap (Op.at Move.mark i)
  nodup_marks : (as.filterMap (Op.at Move.mark i)).Nodup
  authorized : ∀ v, v ∈ x.authorized ↔ v ∈ as.filterMap (Op.at Move.voter i)
  nodup_authorized : (as.filterMap (Op.at Move.voter i)).Nodup

theorem filterMap_snoc {α β : Type*} (f : α → Option β) (as : List α) (a : α) :
    (as ++ [a]).filterMap f = as.filterMap f ++ (f a).toList := by
  rw [List.filterMap_append]
  cases h : f a <;> simp [List.filterMap, h]

/-- What is read off a longer history, when the last operation adds a new element or none. -/
theorem nodup_snoc {α β : Type*} {f : α → Option β} {as : List α} {a : α}
    (h : (as.filterMap f).Nodup) (ha : ∀ b, f a = some b → b ∉ as.filterMap f) :
    ((as ++ [a]).filterMap f).Nodup := by
  rw [filterMap_snoc]
  cases hf : f a with
  | none => simpa using h
  | some b => exact List.nodup_append_comm.mp (List.nodup_cons.mpr ⟨ha b hf, h⟩)

/-- An operation is added to the history of its box. -/
theorem Box.Replays.move {i : ι} {as : List (Op ι V C M)} {x : Box V C M} {m : Move V C M}
    {b : Board ι V C M} (h : x.Replays i as) (hm : m.ready b x) :
    (m.act x).Replays i (as ++ [.move i m]) := by
  have hmark : ∀ k, m.mark = some k → k ∉ x.marks := by
    intro k hk
    cases m with
    | cast c k' =>
      cases hk
      exact hm.2.2
    | _ => cases hk
  have hvoter : ∀ v, m.voter = some v → v ∉ x.authorized := by
    intro v hv
    cases m with
    | authorize v' =>
      cases hv
      exact hm.2.2
    | _ => cases hv
  refine ⟨?_, fun k => ?_, nodup_snoc h.nodup_marks fun k hk => ?_, fun v => ?_,
    nodup_snoc h.nodup_authorized fun v hv => ?_⟩
  · rw [filterMap_snoc, Op.at_move]
    cases m <;> simp [Move.act, Move.choice, h.cast, (List.perm_append_singleton _ _).symm]
  · rw [filterMap_snoc, Op.at_move, List.mem_append, ← h.marks]
    cases m <;> simp [Move.act, Move.mark, or_comm]
  · rw [← h.marks]
    exact hmark k (by simpa using hk)
  · rw [filterMap_snoc, Op.at_move, List.mem_append, ← h.authorized]
    cases m <;> simp [Move.act, Move.voter, or_comm]
  · rw [← h.authorized]
    exact hvoter v (by simpa using hv)

/-- What is read off the operations on other elections. -/
theorem filterMap_at_eq_nil {α : Type*} {f : Move V C M → Option α} {i : ι}
    {as : List (Op ι V C M)} (h : ∀ a ∈ as, ¬a.on i) : as.filterMap (Op.at f i) = [] :=
  List.filterMap_eq_nil_iff.mpr fun a ha => Op.at_of_not_on (h a ha)

theorem filterMap_at_snoc {α : Type*} {f : Move V C M → Option α} {i : ι}
    {as : List (Op ι V C M)} {a : Op ι V C M} (h : a.at f i = none) :
    (as ++ [a]).filterMap (Op.at f i) = as.filterMap (Op.at f i) := by
  rw [filterMap_snoc, h, Option.toList_none, List.append_nil]

/-- **Every box holds what its history says.** -/
theorem replays_of_allowed {vs : Set V} {as : List (Op ι V C M)}
    (h : spec.Allowed (.empty vs) as) {i : ι} {x : Box V C M}
    (hx : (spec.run (.empty vs) as).box i = some x) : x.Replays i as := by
  refine (box_induction (P := fun as x => x.Replays i as) h (fun as has => ?_)
    (fun as a x hon hx => ?_) fun as m b x hx hm => hx.move hm).1 x hx
  · refine ⟨?_, ?_, ?_, ?_, ?_⟩
    all_goals rw [filterMap_at_snoc (a := .create i) rfl, filterMap_at_eq_nil has]
    all_goals simp [Box.fresh]
  · refine ⟨?_, ?_, ?_, ?_, ?_⟩
    all_goals rw [filterMap_at_snoc (Op.at_of_not_on hon)]
    exacts [hx.cast, hx.marks, hx.nodup_marks, hx.authorized, hx.nodup_authorized]

/-! ### What stays -/

/-- What a box looks like later. -/
structure Box.Later (x y : Box V C M) : Prop where
  authorized : x.authorized ⊆ y.authorized
  cast : x.cast ≤ y.cast
  marks : x.marks ⊆ y.marks
  voted : x.voted ⊆ y.voted
  roster : x.phase ≠ .draft → y.phase ≠ .draft ∧ y.roster = x.roster
  closed : x.phase = .closed → y.phase = .closed ∧ y.authorized = x.authorized ∧
    y.cast = x.cast ∧ y.marks = x.marks ∧ y.voted = x.voted
  declared : ∀ {t}, x.declared = some t → y.declared = some t

theorem Box.Later.refl (x : Box V C M) : x.Later x :=
  ⟨subset_rfl, le_rfl, subset_rfl, subset_rfl, fun h => ⟨h, rfl⟩, fun h => ⟨h, rfl, rfl, rfl, rfl⟩,
    fun h => h⟩

theorem Box.Later.trans {x y z : Box V C M} (h : x.Later y) (h' : y.Later z) : x.Later z where
  authorized := h.authorized.trans h'.authorized
  cast := h.cast.trans h'.cast
  marks := h.marks.trans h'.marks
  voted := h.voted.trans h'.voted
  roster hx := by
    obtain ⟨hy, heq⟩ := h.roster hx
    obtain ⟨hz, heq'⟩ := h'.roster hy
    exact ⟨hz, heq'.trans heq⟩
  closed hx := by
    obtain ⟨hy, h₁, h₂, h₃, h₄⟩ := h.closed hx
    obtain ⟨hz, h₁', h₂', h₃', h₄'⟩ := h'.closed hy
    exact ⟨hz, h₁'.trans h₁, h₂'.trans h₂, h₃'.trans h₃, h₄'.trans h₄⟩
  declared ht := h'.declared (h.declared ht)

omit [DecidableEq ι] in
/-- What one operation leaves of its box. -/
theorem Move.later {b : Board ι V C M} {x : Box V C M} {m : Move V C M} (hm : m.ready b x) :
    x.Later (m.act x) := by
  have hopen : x.phase = .open → x.phase ≠ .draft ∧ x.phase ≠ .closed := fun h => by
    rw [h]
    exact ⟨nofun, nofun⟩
  cases m with
  | amend cs =>
    have hdraft : x.phase = .draft := hm
    exact ⟨subset_rfl, le_rfl, subset_rfl, subset_rfl, fun h => absurd hdraft h,
      fun h => ⟨h, rfl, rfl, rfl, rfl⟩, fun h => h⟩
  | «open» =>
    refine ⟨subset_rfl, le_rfl, subset_rfl, subset_rfl, fun h => absurd hm.1 h, fun h => ?_,
      fun h => h⟩
    cases hm.1.symm.trans h
  | authorize v =>
    exact ⟨Set.subset_insert _ _, le_rfl, subset_rfl, subset_rfl, fun h => ⟨h, rfl⟩,
      fun h => absurd h (hopen hm.1).2, fun h => h⟩
  | cast c k =>
    exact ⟨subset_rfl, Multiset.le_cons_self _ _, Set.subset_insert _ _, subset_rfl,
      fun h => ⟨h, rfl⟩, fun h => absurd h (hopen hm.1).2, fun h => h⟩
  | vote c v =>
    exact ⟨subset_rfl, Multiset.le_cons_self _ _, subset_rfl, Set.subset_insert _ _,
      fun h => ⟨h, rfl⟩, fun h => absurd h (hopen hm.1).2, fun h => h⟩
  | close =>
    have hphase : x.phase = .open := hm
    exact ⟨subset_rfl, le_rfl, subset_rfl, subset_rfl, fun _ => ⟨nofun, rfl⟩,
      fun h => absurd h (hopen hphase).2, fun h => h⟩
  | declare =>
    refine ⟨subset_rfl, le_rfl, subset_rfl, subset_rfl, fun h => ⟨h, rfl⟩,
      fun h => ⟨h, rfl, rfl, rfl, rfl⟩, fun ht => ?_⟩
    cases hm.2.symm.trans ht

/-- Every election is still there, later. -/
def Board.Later (b b' : Board ι V C M) : Prop :=
  ∀ i x, b.box i = some x → ∃ y, b'.box i = some y ∧ x.Later y

end Ballots
