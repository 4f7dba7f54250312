import SecureVote.Text.JsonText

/-!
# The compact form of a value

`json.dumps` with sorted keys writes the canonical value, the one with the keys of its objects in
order. It is read back, and it determines the canonical value, whoever wrote the text.
-/

namespace Py

/-! ### The order of keys -/


theorem strLe_trans {a b c : PyStr} (h₁ : strLe a b = true) (h₂ : strLe b c = true) :
    strLe a c = true := by
  induction a generalizing b c with
  | nil => exact strLe.eq_1 c
  | cons x a ih =>
    cases b with
    | nil => cases h₁
    | cons y b =>
      cases c with
      | nil => cases h₂
      | cons z c =>
        simp only [strLe, Bool.or_eq_true, Bool.and_eq_true, decide_eq_true_eq, beq_iff_eq] at h₁ h₂ ⊢
        rcases h₁ with h₁ | ⟨rfl, h₁⟩
        · rcases h₂ with h₂ | ⟨rfl, -⟩
          · exact .inl (h₁.trans h₂)
          · exact .inl h₁
        · rcases h₂ with h₂ | ⟨rfl, h₂⟩
          · exact .inl h₂
          · exact .inr ⟨rfl, ih h₁ h₂⟩

theorem strLe_total (a b : PyStr) : (strLe a b || strLe b a) = true := by
  induction a generalizing b with
  | nil => rw [strLe.eq_1, Bool.true_or]
  | cons x a ih =>
    cases b with
    | nil => rw [strLe.eq_1, Bool.or_true]
    | cons y b =>
      have htail := ih b
      simp only [strLe, Bool.or_eq_true, Bool.and_eq_true, decide_eq_true_eq, beq_iff_eq] at htail ⊢
      rcases lt_trichotomy x y with h | rfl | h
      · exact .inl (.inl h)
      · exact htail.imp (fun h => .inr ⟨rfl, h⟩) fun h => .inr ⟨rfl, h⟩
      · exact .inr (.inl h)

theorem strLe_antisymm {a b : PyStr} (h₁ : strLe a b = true) (h₂ : strLe b a = true) : a = b := by
  induction a generalizing b with
  | nil =>
    cases b with
    | nil => rfl
    | cons y b => cases h₂
  | cons x a ih =>
    cases b with
    | nil => cases h₁
    | cons y b =>
      simp only [strLe, Bool.or_eq_true, Bool.and_eq_true, decide_eq_true_eq, beq_iff_eq] at h₁ h₂
      rcases h₁ with h₁ | ⟨rfl, h₁⟩
      · rcases h₂ with h₂ | ⟨heq, -⟩ <;> omega
      · rcases h₂ with h₂ | ⟨-, h₂⟩
        · omega
        · rw [ih h₁ h₂]

/-- The order of items by their keys. -/
abbrev keyLe {β : Type} (a b : PyStr × β) : Bool := strLe a.1 b.1

mutual

/-- The value with the keys of its objects sorted. -/
def Json.canonical : Json → Json
  | .arr xs => .arr (canonicalElements xs)
  | .obj kvs => .obj ((canonicalItems kvs).mergeSort keyLe)
  | v => v

/-- The elements of an array. -/
def canonicalElements : List Json → List Json
  | [] => []
  | x :: xs => x.canonical :: canonicalElements xs

/-- The items of an object. -/
def canonicalItems : List (PyStr × Json) → List (PyStr × Json)
  | [] => []
  | (k, v) :: kvs => (k, v.canonical) :: canonicalItems kvs

end

theorem canonicalElements_eq (xs : List Json) : canonicalElements xs = xs.map Json.canonical := by
  induction xs with
  | nil => rfl
  | cons x xs ih => rw [canonicalElements, ih, List.map_cons]

theorem canonicalItems_eq (kvs : List (PyStr × Json)) :
    canonicalItems kvs = kvs.map fun e => (e.1, e.2.canonical) := by
  induction kvs with
  | nil => rfl
  | cons e kvs ih => rw [canonicalItems, ih, List.map_cons]

theorem dumpItems_eq (kvs : List (PyStr × Json)) :
    dumpItems kvs = kvs.map fun e => (e.1, dumps e.2) := by
  induction kvs with
  | nil => rfl
  | cons e kvs ih => rw [dumpItems, ih, List.map_cons]

theorem dumpElements_eq {xs : List Json} (h : ∀ x ∈ xs, dumps x = x.canonical.write compactStyle) :
    dumpElements xs = writeElements compactStyle (xs.map Json.canonical) := by
  induction xs with
  | nil => rfl
  | cons x xs ih =>
    have hx := h x List.mem_cons_self
    have htail := ih fun y hy => h y (List.mem_cons_of_mem _ hy)
    cases xs with
    | nil => exact hx
    | cons y xs =>
      have hwrite : writeElements compactStyle ((x :: y :: xs).map Json.canonical) =
          x.canonical.write compactStyle ++ py "," ++
            writeElements compactStyle ((y :: xs).map Json.canonical) := rfl
      rw [dumpElements, htail, hx, hwrite, List.append_assoc]
      · rfl
      · exact List.cons_ne_nil _ _

theorem dumpMembers_map (kvs : List (PyStr × Json)) :
    dumpMembers (kvs.map fun e => (e.1, e.2.write compactStyle)) = writeMembers compactStyle kvs := by
  induction kvs with
  | nil => rfl
  | cons e kvs ih =>
    obtain ⟨k, v⟩ := e
    cases kvs with
    | nil =>
      have hend : dumpStr k ++ 58 :: v.write compactStyle =
          34 :: k.flatMap escapeChar ++ 34 :: py ":" ++ v.write compactStyle := by
        rw [dumpStr]
        simp [py]
      exact hend
    | cons e' kvs =>
      rw [List.map_cons, dumpMembers, ih, writeMembers]
      · rw [dumpStr]
        simp [compactStyle, py]
      · simp

/-- `json.dumps` writes the canonical value. -/
theorem dumps_eq (v : Json) : dumps v = v.canonical.write compactStyle := by
  induction v using Json.ind with
  | null => rfl
  | bool b => cases b <;> rfl
  | int n => rfl
  | float f => rfl
  | str s => rfl
  | arr xs ih =>
    rw [dumps, Json.canonical, Json.write, dumpElements_eq ih, canonicalElements_eq]
  | obj kvs ih =>
    have hitems : dumpItems kvs =
        (canonicalItems kvs).map fun e => (e.1, e.2.write compactStyle) := by
      rw [dumpItems_eq, canonicalItems_eq, List.map_map]
      exact List.map_congr_left fun e he => congrArg (Prod.mk e.1) (ih e he)
    have hsorted : (dumpItems kvs).mergeSort keyLe =
        ((canonicalItems kvs).mergeSort keyLe).map fun e => (e.1, e.2.write compactStyle) := by
      rw [hitems, List.map_mergeSort]
      exact fun _ _ _ _ => rfl
    rw [dumps, Json.canonical, Json.write, ← dumpMembers_map, ← hsorted]

theorem perm_mergeSort {β : Type} (kvs : List (PyStr × β)) : (kvs.mergeSort keyLe).Perm kvs :=
  List.mergeSort_perm kvs keyLe

/-- Sorting the keys keeps what a value is made of. -/
theorem Json.Made.canonical {leaf : Json → Prop} {key : PyStr → Prop} {v : Json}
    (h : v.Made leaf key) : v.canonical.Made leaf key := by
  induction v using Json.ind with
  | arr xs ih =>
    cases h with
    | arr hxs =>
      rw [Json.canonical, canonicalElements_eq]
      refine .arr fun y hy => ?_
      obtain ⟨x, hx, rfl⟩ := List.mem_map.mp hy
      exact ih x hx (hxs x hx)
  | obj kvs ih =>
    cases h with
    | obj hnodup hkeys hkvs =>
      have hmem : ∀ e ∈ (canonicalItems kvs).mergeSort keyLe, ∃ e' ∈ kvs,
          e = (e'.1, e'.2.canonical) := by
        intro e he
        rw [(perm_mergeSort _).mem_iff, canonicalItems_eq] at he
        obtain ⟨e', he', rfl⟩ := List.mem_map.mp he
        exact ⟨e', he', rfl⟩
      have hfst : (canonicalItems kvs).map Prod.fst = kvs.map Prod.fst := by
        rw [canonicalItems_eq, List.map_map]
        rfl
      rw [Json.canonical]
      refine .obj ?_ (fun e he => ?_) fun e he => ?_
      · rw [((perm_mergeSort _).map Prod.fst).nodup_iff, hfst]
        exact hnodup
      · obtain ⟨e', he', rfl⟩ := hmem e he
        exact hkeys e' he'
      · obtain ⟨e', he', rfl⟩ := hmem e he
        exact ih e' he' (hkvs e' he')
  | _ => exact h

theorem depthElements_le {xs : List Json} {n : ℕ} :
    depthElements xs ≤ n ↔ ∀ x ∈ xs, x.depth ≤ n := by
  induction xs with
  | nil => simp [depthElements]
  | cons x xs ih => rw [depthElements, max_le_iff, ih, List.forall_mem_cons]

theorem depthItems_le {kvs : List (PyStr × Json)} {n : ℕ} :
    depthItems kvs ≤ n ↔ ∀ e ∈ kvs, e.2.depth ≤ n := by
  induction kvs with
  | nil => simp [depthItems]
  | cons e kvs ih => rw [depthItems, max_le_iff, ih, List.forall_mem_cons]

theorem depth_canonical {v : Json} {n : ℕ} (h : v.depth ≤ n) : v.canonical.depth ≤ n := by
  induction v using Json.ind generalizing n with
  | arr xs ih =>
    rw [Json.depth] at h
    obtain ⟨n, rfl⟩ : ∃ k, n = k + 1 := ⟨n - 1, by omega⟩
    have hxs := depthElements_le.mp (Nat.le_of_succ_le_succ h)
    rw [Json.canonical, Json.depth, canonicalElements_eq]
    refine Nat.succ_le_succ (depthElements_le.mpr fun y hy => ?_)
    obtain ⟨x, hx, rfl⟩ := List.mem_map.mp hy
    exact ih x hx (hxs x hx)
  | obj kvs ih =>
    rw [Json.depth] at h
    obtain ⟨n, rfl⟩ : ∃ k, n = k + 1 := ⟨n - 1, by omega⟩
    have hkvs := depthItems_le.mp (Nat.le_of_succ_le_succ h)
    rw [Json.canonical, Json.depth]
    refine Nat.succ_le_succ (depthItems_le.mpr fun e he => ?_)
    rw [(perm_mergeSort _).mem_iff, canonicalItems_eq] at he
    obtain ⟨e', he', rfl⟩ := List.mem_map.mp he
    exact ih e' he' (hkvs e' he')
  | _ => exact h

/-- `json.loads` of the compact form is the canonical value. -/
theorem loads_dumps {v : Json} (hv : v.Made (PlainLeaf Joined) Joined) {limit : ℕ}
    (hlimit : v.depth ≤ limit) : loads limit (dumps v) = .ok v.canonical := by
  rw [dumps_eq]
  exact loads_write compactStyle_reads hv.canonical (depth_canonical hlimit)

/-! ### The compact form determines the value -/

/-- A character of an integer. -/
def isNumeric (c : ℕ) : Bool := isDigit c || c == 45

theorem isNumeric_of_mem_natRepr {n c : ℕ} (h : c ∈ natRepr 10 n) : isNumeric c = true := by
  rw [isNumeric, isDigit_of_mem_natRepr h, Bool.true_or]

theorem isNumeric_of_mem_intRepr {n : ℤ} {c : ℕ} (h : c ∈ intRepr n) : isNumeric c = true := by
  cases n with
  | ofNat n => exact isNumeric_of_mem_natRepr h
  | negSucc n =>
    rcases List.mem_cons.mp h with rfl | h
    · rfl
    · exact isNumeric_of_mem_natRepr h

/-- A printed float goes on after its first digits: it has a point, an exponent or a name. -/
def Fractional (s : PyStr) : Prop :=
  ∃ u c t, s = u ++ c :: t ∧ (∀ d ∈ u, isNumeric d = true) ∧ (c = 46 ∨ c = 101 ∨ c = 78 ∨ c = 73)

theorem Fractional.cons {s : PyStr} (h : Fractional s) : Fractional (45 :: s) := by
  obtain ⟨u, c, t, rfl, hu, hc⟩ := h
  exact ⟨45 :: u, c, t, rfl, List.forall_mem_cons.mpr ⟨rfl, hu⟩, hc⟩

theorem fractional_reprDecimal (digits : ℕ) (exp : ℤ) : Fractional (reprDecimal digits exp) := by
  have hds : ∀ d ∈ natRepr 10 digits, isNumeric d = true := fun d hd => isNumeric_of_mem_natRepr hd
  have htake : ∀ k, ∀ d ∈ (natRepr 10 digits).take k, isNumeric d = true := fun k d hd =>
    hds d (List.mem_of_mem_take hd)
  unfold reprDecimal
  dsimp only
  split
  · split
    · exact ⟨[48], 46, _, by rw [List.append_assoc]; rfl, by decide, .inl rfl⟩
    · split
      · refine ⟨_, 46, [48], rfl, fun d hd => ?_, .inl rfl⟩
        rcases List.mem_append.mp hd with hd | hd
        · exact hds d hd
        · rw [List.eq_of_mem_replicate hd]
          rfl
      · exact ⟨_, 46, _, by rw [List.append_assoc]; rfl, htake _, .inl rfl⟩
  · split
    · exact ⟨natRepr 10 digits, 101, _, by simp only [List.append_assoc]; rfl, hds,
        .inr (.inl rfl)⟩
    · exact ⟨(natRepr 10 digits).take 1, 46, _, by simp only [List.append_assoc]; rfl, htake 1,
        .inl rfl⟩

theorem fractional_floatRepr (f : PyFloat) : Fractional (floatRepr f) := by
  cases f with
  | nan => exact ⟨[], 78, py "aN", rfl, by decide, by decide⟩
  | inf neg =>
    cases neg with
    | true => exact ⟨[45], 73, py "nfinity", rfl, by decide, by decide⟩
    | false => exact ⟨[], 73, py "nfinity", rfl, by decide, by decide⟩
  | finite neg m e =>
    have hbody : Fractional (if m = 0 then py "0.0" else
        let f := magnitude m e
        let c := shortest m e f.1 f.2 (leadingExponent f.1 f.2) 16
        reprDecimal c.1 c.2) := by
      split
      · exact ⟨[48], 46, [48], rfl, by decide, by decide⟩
      · exact fractional_reprDecimal _ _
    cases neg with
    | true => exact hbody.cons
    | false => exact hbody

theorem intRepr_inj {m n : ℤ} (h : intRepr m = intRepr n) : m = n := by
  have hnat : ∀ {a b : ℕ}, natRepr 10 a = natRepr 10 b → a = b := fun {a b} h => by
    rw [← digitsValue_natRepr a, h, digitsValue_natRepr]
  have hsign : ∀ a b : ℕ, natRepr 10 a ≠ 45 :: natRepr 10 b := by
    intro a b h
    have hdigit : isDigit 45 = true := isDigit_of_mem_natRepr (h ▸ List.mem_cons_self)
    cases hdigit
  cases m with
  | ofNat m =>
    cases n with
    | ofNat n => exact congrArg Int.ofNat (hnat h)
    | negSucc n => exact absurd h (hsign m (n + 1))
  | negSucc m =>
    cases n with
    | ofNat n => exact absurd h.symm (hsign n (m + 1))
    | negSucc n =>
      have := hnat (List.cons.inj h).2
      rw [Nat.succ.inj this]

/-- The kinds of values, as their first characters tell them. -/
inductive Kind
  | null
  | bool
  | number
  | str
  | arr
  | obj
  deriving DecidableEq

def Json.kind : Json → Kind
  | .null => .null
  | .bool _ => .bool
  | .int _ | .float _ => .number
  | .str _ => .str
  | .arr _ => .arr
  | .obj _ => .obj

/-- The kind of the values that start with a character. -/
def kindOf (c : ℕ) : Option Kind :=
  if c = 110 then some .null
  else if c = 116 then some .bool
  else if c = 102 then some .bool
  else if c = 34 then some .str
  else if c = 91 then some .arr
  else if c = 123 then some .obj
  else if isNumeric c || c = 46 || c = 101 || c = 78 || c = 73 then some .number
  else none

theorem kindOf_number {c : ℕ} (h : isNumeric c = true ∨ c = 46 ∨ c = 101 ∨ c = 78 ∨ c = 73) :
    kindOf c = some .number := by
  have hnumeric : isNumeric c = true → c = 45 ∨ (48 ≤ c ∧ c ≤ 57) := by
    intro hc
    simp only [isNumeric, isDigit, Bool.or_eq_true, Bool.and_eq_true, decide_eq_true_eq,
      beq_iff_eq] at hc
    omega
  have hne : c ≠ 110 ∧ c ≠ 116 ∧ c ≠ 102 ∧ c ≠ 34 ∧ c ≠ 91 ∧ c ≠ 123 := by
    rcases h with h | h
    · have := hnumeric h
      omega
    · omega
  obtain ⟨h₁, h₂, h₃, h₄, h₅, h₆⟩ := hne
  rw [kindOf, if_neg h₁, if_neg h₂, if_neg h₃, if_neg h₄, if_neg h₅, if_neg h₆, if_pos]
  simpa [or_assoc] using h

/-- A value starts with a character of its kind. -/
theorem kindOf_write (st : JsonStyle) (v : Json) :
    ∃ c t, v.write st = c :: t ∧ kindOf c = some v.kind := by
  cases v with
  | null => exact ⟨110, py "ull", rfl, by decide⟩
  | bool b =>
    cases b with
    | true => exact ⟨116, py "rue", rfl, by decide⟩
    | false => exact ⟨102, py "alse", rfl, by decide⟩
  | int n =>
    have hne : intRepr n ≠ [] := by
      cases n with
      | ofNat n =>
        obtain ⟨c, cs, heq, -⟩ := natRepr_eq_cons n
        exact fun h => List.cons_ne_nil c cs (heq.symm.trans h)
      | negSucc n => exact List.cons_ne_nil _ _
    obtain ⟨c, t, heq⟩ := List.exists_cons_of_ne_nil hne
    have hc : isNumeric c = true := isNumeric_of_mem_intRepr (heq ▸ List.mem_cons_self)
    exact ⟨c, t, heq, kindOf_number (.inl hc)⟩
  | float f =>
    obtain ⟨u, c, t, heq, hu, hc⟩ := fractional_floatRepr f
    cases u with
    | nil => exact ⟨c, t, heq, kindOf_number (.inr hc)⟩
    | cons d u => exact ⟨d, u ++ c :: t, heq, kindOf_number (.inl (hu d List.mem_cons_self))⟩
  | str s => exact ⟨34, s.flatMap st.escape ++ [34], rfl, (by decide : kindOf 34 = some .str)⟩
  | arr xs => exact ⟨91, writeElements st xs ++ [93], rfl, (by decide : kindOf 91 = some .arr)⟩
  | obj kvs => exact ⟨123, writeMembers st kvs ++ [125], rfl, (by decide : kindOf 123 = some .obj)⟩

/-- Values with the same text in front are of one kind. -/
theorem kind_eq_of_write {st : JsonStyle} {x y : Json} {s t : PyStr}
    (h : x.write st ++ s = y.write st ++ t) : x.kind = y.kind := by
  obtain ⟨c, u, hx, hc⟩ := kindOf_write st x
  obtain ⟨d, v, hy, hd⟩ := kindOf_write st y
  rw [hx, hy] at h
  rw [(List.cons.inj h).1, hd] at hc
  exact (Option.some.inj hc).symm

theorem write_append_ne {st : JsonStyle} (x : Json) (s t : PyStr) : x.write st ++ s ≠ 93 :: t := by
  obtain ⟨c, u, hx, hc⟩ := kindOf_write st x
  intro h
  rw [hx] at h
  rw [(List.cons.inj h).1] at hc
  have hnone : kindOf 93 = none := by decide
  rw [hnone] at hc
  cases hc

/-- What `p` holds of is a front part that ends where `p` does. -/
theorem append_inj_of_all {p : ℕ → Bool} {a b s t : PyStr} (ha : ∀ c ∈ a, p c = true)
    (hb : ∀ c ∈ b, p c = true) (hs : ∀ c r, s = c :: r → p c = false)
    (ht : ∀ c r, t = c :: r → p c = false) (h : a ++ s = b ++ t) : a = b ∧ s = t := by
  obtain ⟨h₁, h₂⟩ := takeWhile_append_of_all ha hs
  obtain ⟨h₃, h₄⟩ := takeWhile_append_of_all hb ht
  constructor
  · rw [← h₁, h, h₃]
  · rw [← h₂, h, h₄]

theorem isNumeric_of_ends {s : PyStr} (hs : Ends s) : ∀ c r, s = c :: r → isNumeric c = false := by
  intro c r h
  rcases hs c r h with rfl | rfl | rfl <;> rfl

/-! ### Sequences -/

section Sequence

variable {α : Type} {f : α → PyStr} {P : α → Prop} {w : PyStr} {stop : ℕ}

/-- Texts with a comma between them. -/
def commaSep (comma : PyStr) : List PyStr → PyStr
  | [] => []
  | s :: ss => s ++ ss.flatMap (comma ++ ·)

/-- The text of `y` determines it among the items with the property, whatever ends it. -/
def Determined (f : α → PyStr) (P : α → Prop) (y : α) : Prop :=
  ∀ x s t, P x → Ends s → Ends t → f x ++ s = f y ++ t → x = y ∧ s = t

theorem ends_flatMap (hstop : stop = 93 ∨ stop = 125) (xs : List α) (s : PyStr) :
    Ends ((xs.map f).flatMap (44 :: w ++ ·) ++ stop :: s) := by
  cases xs with
  | nil => exact ends_cons (.inr hstop)
  | cons x xs => exact ends_cons (.inl rfl)

theorem flatMap_inj (hstop : stop = 93 ∨ stop = 125) {ys : List α}
    (hys : ∀ y ∈ ys, Determined f P y) {xs : List α} (hxs : ∀ x ∈ xs, P x) {s t : PyStr}
    (h : (xs.map f).flatMap (44 :: w ++ ·) ++ stop :: s =
      (ys.map f).flatMap (44 :: w ++ ·) ++ stop :: t) : xs = ys ∧ s = t := by
  induction ys generalizing xs with
  | nil =>
    cases xs with
    | nil => exact ⟨rfl, (List.cons.inj h).2⟩
    | cons x xs =>
      have hhead : 44 = stop := (List.cons.inj h).1
      omega
  | cons y ys ih =>
    cases xs with
    | nil =>
      have hhead : stop = 44 := (List.cons.inj h).1
      omega
    | cons x xs =>
      rw [List.map_cons, List.map_cons, List.flatMap_cons, List.flatMap_cons, List.append_assoc,
        List.append_assoc, List.append_assoc, List.append_assoc] at h
      -- both start with a comma, then with a first item
      obtain ⟨rfl, htail⟩ := hys y List.mem_cons_self x _ _ (hxs x List.mem_cons_self)
        (ends_flatMap hstop xs s) (ends_flatMap hstop ys t) (List.append_cancel_left h)
      obtain ⟨rfl, rfl⟩ := ih (fun z hz => hys z (List.mem_cons_of_mem _ hz))
        (fun z hz => hxs z (List.mem_cons_of_mem _ hz)) htail
      exact ⟨rfl, rfl⟩

/-- A sequence is determined by its text when each of its items is. -/
theorem commaSep_inj (hstop : stop = 93 ∨ stop = 125) (hne : ∀ x s t, f x ++ s ≠ stop :: t)
    {ys : List α} (hys : ∀ y ∈ ys, Determined f P y) {xs : List α} (hxs : ∀ x ∈ xs, P x)
    {s t : PyStr} (h : commaSep (44 :: w) (xs.map f) ++ stop :: s =
      commaSep (44 :: w) (ys.map f) ++ stop :: t) : xs = ys ∧ s = t := by
  cases xs with
  | nil =>
    cases ys with
    | nil => exact ⟨rfl, (List.cons.inj h).2⟩
    | cons y ys =>
      rw [List.map_cons, commaSep, List.append_assoc] at h
      exact absurd h.symm (hne y _ s)
  | cons x xs =>
    cases ys with
    | nil =>
      rw [List.map_cons, commaSep, List.append_assoc] at h
      exact absurd h (hne x _ t)
    | cons y ys =>
      rw [List.map_cons, List.map_cons, commaSep, commaSep, List.append_assoc,
        List.append_assoc] at h
      obtain ⟨rfl, htail⟩ := hys y List.mem_cons_self x _ _ (hxs x List.mem_cons_self)
        (ends_flatMap hstop xs s) (ends_flatMap hstop ys t) h
      obtain ⟨rfl, rfl⟩ := flatMap_inj hstop (fun z hz => hys z (List.mem_cons_of_mem _ hz))
        (fun z hz => hxs z (List.mem_cons_of_mem _ hz)) htail
      exact ⟨rfl, rfl⟩

end Sequence

section Injective

variable {st : JsonStyle} {p : PyStr → Prop}

theorem writeElements_eq (st : JsonStyle) (xs : List Json) :
    writeElements st xs = commaSep st.comma (xs.map (Json.write st)) := by
  induction xs with
  | nil => rfl
  | cons x xs ih =>
    cases xs with
    | nil => exact (List.append_nil _).symm
    | cons y xs =>
      rw [writeElements, ih, List.append_assoc]
      simp [commaSep]

/-- One member of an object. -/
def writeMember (st : JsonStyle) (e : PyStr × Json) : PyStr :=
  34 :: e.1.flatMap st.escape ++ 34 :: st.colon ++ e.2.write st

theorem writeMembers_eq (st : JsonStyle) (kvs : List (PyStr × Json)) :
    writeMembers st kvs = commaSep st.comma (kvs.map (writeMember st)) := by
  induction kvs with
  | nil => rfl
  | cons e kvs ih =>
    obtain ⟨k, v⟩ := e
    cases kvs with
    | nil => exact (List.append_nil _).symm
    | cons e' kvs =>
      rw [writeMembers, ih]
      simp [commaSep, writeMember]

/-- A value whose strings and keys have the property. -/
abbrev Readable (p : PyStr → Prop) : Json → Prop := Json.Made (AnyLeaf p) p

/-- The text of a member determines it when the text of its value does. -/
theorem determined_member (hst : st.Reads p) {e : PyStr × Json} (hkey : p e.1)
    (he : Determined (Json.write st) (Readable p) e.2) :
    Determined (writeMember st) (fun e => p e.1 ∧ Readable p e.2) e := by
  obtain ⟨k, v⟩ := e
  rintro ⟨k', v'⟩ s t ⟨hk', hv'⟩ hs ht h
  have hopen : k'.flatMap st.escape ++ 34 :: (st.colon ++ (v'.write st ++ s)) =
      k.flatMap st.escape ++ 34 :: (st.colon ++ (v.write st ++ t)) := by
    simpa [writeMember] using h
  -- the scanner reads the two keys off the one text
  have hread : (Except.ok (k', st.colon ++ (v'.write st ++ s)) : Except LoadsError _) =
      .ok (k, st.colon ++ (v.write st ++ t)) := by
    rw [← hst.string k' hk', ← hst.string k hkey, hopen]
  obtain ⟨rfl, hrest⟩ := Prod.mk.inj (Except.ok.inj hread)
  obtain ⟨rfl, rfl⟩ := he v' s t hv' hs ht (List.append_cancel_left hrest)
  exact ⟨rfl, rfl⟩

/-- Numbers: an integer is no float, which has a point, an exponent or a name. -/
theorem determined_int (n : ℤ) : Determined (Json.write st) (Readable p) (.int n) := by
  intro x s t hx hs ht h
  have hkind := kind_eq_of_write h
  have hn : ∀ c ∈ intRepr n, isNumeric c = true := fun c hc => isNumeric_of_mem_intRepr hc
  cases x with
  | int m =>
    obtain ⟨hrepr, rfl⟩ := append_inj_of_all (fun c hc => isNumeric_of_mem_intRepr hc) hn
      (isNumeric_of_ends hs) (isNumeric_of_ends ht) h
    exact ⟨congrArg Json.int (intRepr_inj hrepr), rfl⟩
  | float g =>
    obtain ⟨u, c, v, heq, hu, hc⟩ := fractional_floatRepr g
    have hstop : ∀ d r, c :: v ++ s = d :: r → isNumeric d = false := by
      intro d r hd
      obtain ⟨rfl, -⟩ := List.cons.inj hd
      rcases hc with rfl | rfl | rfl | rfl <;> rfl
    have hsplit : u ++ (c :: v ++ s) = intRepr n ++ t := by
      rw [← List.append_assoc, ← heq]
      exact h
    -- what follows the digits ends the value on one side only
    obtain ⟨-, htail⟩ := append_inj_of_all hu hn hstop (isNumeric_of_ends ht) hsplit
    have hend := ht c _ htail.symm
    omega
  | _ => cases hkind

/-- The text of a value that a program writes determines it among all values read. -/
theorem determined_of_made (hst : st.Reads p) {y : Json} (hy : y.Made (PlainLeaf p) p) :
    Determined (Json.write st) (Readable p) y := by
  obtain ⟨w, hcomma, -⟩ := hst.comma
  induction y using Json.ind with
  | null =>
    intro x s t hx hs ht h
    have hkind := kind_eq_of_write h
    cases x with
    | null => exact ⟨rfl, List.append_cancel_left h⟩
    | _ => cases hkind
  | bool b =>
    intro x s t hx hs ht h
    have hkind := kind_eq_of_write h
    cases x with
    | bool b' =>
      cases b <;> cases b'
      · exact ⟨rfl, List.append_cancel_left h⟩
      · exact absurd (List.cons.inj h).1 (by decide)
      · exact absurd (List.cons.inj h).1 (by decide)
      · exact ⟨rfl, List.append_cancel_left h⟩
    | _ => cases hkind
  | int n => exact determined_int n
  | float f => exact absurd rfl (hy.not_float f)
  | str u =>
    intro x s t hx hs ht h
    have hkind := kind_eq_of_write h
    cases hy with
    | str hu =>
      cases x with
      | str v =>
        have hv : p v := by
          cases hx with
          | str hleaf => exact hleaf
        have hopen : v.flatMap st.escape ++ 34 :: s = u.flatMap st.escape ++ 34 :: t := by
          simpa [Json.write] using h
        have hread : (Except.ok (v, s) : Except LoadsError _) = .ok (u, t) := by
          rw [← hst.string v hv, ← hst.string u hu, hopen]
        obtain ⟨rfl, rfl⟩ := Prod.mk.inj (Except.ok.inj hread)
        exact ⟨rfl, rfl⟩
      | _ => cases hkind
  | arr ys ih =>
    intro x s t hx hs ht h
    have hkind := kind_eq_of_write h
    cases hy with
    | arr hys =>
      cases x with
      | arr xs =>
        cases hx with
        | arr hxs =>
          have hopen : commaSep (44 :: w) (xs.map (Json.write st)) ++ 93 :: s =
              commaSep (44 :: w) (ys.map (Json.write st)) ++ 93 :: t := by
            rw [← hcomma, ← writeElements_eq, ← writeElements_eq]
            simpa [Json.write] using h
          obtain ⟨rfl, rfl⟩ := commaSep_inj (.inl rfl) write_append_ne
            (fun y hy => ih y hy (hys y hy)) hxs hopen
          exact ⟨rfl, rfl⟩
      | _ => cases hkind
  | obj lys ih =>
    intro x s t hx hs ht h
    have hkind := kind_eq_of_write h
    cases hy with
    | obj hnodup hkeys hys =>
      cases x with
      | obj lxs =>
        cases hx with
        | obj hnodup' hkeys' hxs =>
          have hopen : commaSep (44 :: w) (lxs.map (writeMember st)) ++ 125 :: s =
              commaSep (44 :: w) (lys.map (writeMember st)) ++ 125 :: t := by
            rw [← hcomma, ← writeMembers_eq, ← writeMembers_eq]
            simpa [Json.write] using h
          have hquote : ∀ (e : PyStr × Json) (a b : PyStr), writeMember st e ++ a ≠ 125 :: b :=
            fun e a b h => absurd (List.cons.inj h).1 (by decide)
          obtain ⟨rfl, rfl⟩ := commaSep_inj (.inr rfl) hquote
            (fun e he => determined_member hst (hkeys e he) (ih e he (hys e he)))
            (fun e he => ⟨hkeys' e he, hxs e he⟩) hopen
          exact ⟨rfl, rfl⟩
      | _ => cases hkind

/-- **Canonical text is injective**: what has been read and is written as a plain value is that
value, up to the order of keys. -/
theorem dumps_inj {x y : Json} (hx : Readable Joined x) (hy : y.Made (PlainLeaf Joined) Joined)
    (h : dumps x = dumps y) : x.canonical = y.canonical := by
  have hwrite : x.canonical.write compactStyle ++ [] = y.canonical.write compactStyle ++ [] := by
    rw [← dumps_eq, ← dumps_eq, h]
  exact (determined_of_made compactStyle_reads hy.canonical x.canonical [] [] hx.canonical ends_nil
    ends_nil hwrite).1

end Injective

/-! ### Objects as sets of items -/

theorem sorted_mergeSort {β : Type} (kvs : List (PyStr × β)) :
    (kvs.mergeSort keyLe).Pairwise fun a b => keyLe a b = true :=
  List.pairwise_mergeSort (fun (a b c : PyStr × β) => strLe_trans (a := a.1) (b := b.1) (c := c.1))
    (fun a b => strLe_total a.1 b.1) kvs

/-- Items with different keys are sorted in one way only. -/
theorem mergeSort_eq_of_perm {β : Type} {l l' : List (PyStr × β)} (hperm : l.Perm l')
    (hnodup : (l.map Prod.fst).Nodup) : l.mergeSort keyLe = l'.mergeSort keyLe := by
  have hperm' : (l.mergeSort keyLe).Perm (l'.mergeSort keyLe) :=
    (perm_mergeSort l).trans (hperm.trans (perm_mergeSort l').symm)
  refine hperm'.eq_of_pairwise ?_ (sorted_mergeSort l) (sorted_mergeSort l')
  intro a b ha hb hab hba
  have hkey : a.1 = b.1 := strLe_antisymm hab hba
  have hal : a ∈ l := (perm_mergeSort l).mem_iff.mp ha
  have hbl : b ∈ l := hperm.mem_iff.mpr ((perm_mergeSort l').mem_iff.mp hb)
  exact List.inj_on_of_nodup_map hnodup hal hbl hkey

/-- The canonical value does not depend on the order of the items. -/
theorem canonical_obj_perm {kvs kvs' : List (PyStr × Json)} (hperm : kvs.Perm kvs')
    (hnodup : (kvs.map Prod.fst).Nodup) :
    (Json.obj kvs).canonical = (Json.obj kvs').canonical := by
  have hkeys : ((canonicalItems kvs).map Prod.fst).Nodup := by
    rw [canonicalItems_eq, List.map_map]
    exact hnodup
  rw [Json.canonical, Json.canonical]
  refine congrArg Json.obj (mergeSort_eq_of_perm ?_ hkeys)
  rw [canonicalItems_eq, canonicalItems_eq]
  exact hperm.map _

/-- Objects with one canonical value have the same items, up to their order. -/
theorem perm_of_canonical_eq {kvs kvs' : List (PyStr × Json)}
    (h : (Json.obj kvs).canonical = (Json.obj kvs').canonical) :
    (canonicalItems kvs).Perm (canonicalItems kvs') := by
  rw [Json.canonical, Json.canonical] at h
  have hsort := Json.obj.inj h
  exact (perm_mergeSort _).symm.trans (hsort ▸ perm_mergeSort _)

/-- A value with sorted keys is its own canonical value. -/
theorem canonical_canonical (v : Json) : v.canonical.canonical = v.canonical := by
  induction v using Json.ind with
  | arr xs ih =>
    rw [Json.canonical, Json.canonical, canonicalElements_eq, canonicalElements_eq, List.map_map]
    exact congrArg Json.arr (List.map_congr_left fun x hx => ih x hx)
  | obj kvs ih =>
    rw [Json.canonical, Json.canonical, canonicalItems_eq, canonicalItems_eq]
    have hsame : ((kvs.map fun e => (e.1, e.2.canonical)).mergeSort keyLe).map
        (fun e => (e.1, e.2.canonical)) = (kvs.map fun e => (e.1, e.2.canonical)).mergeSort keyLe := by
      refine (List.map_congr_left fun e he => ?_).trans (List.map_id _)
      rw [(perm_mergeSort _).mem_iff] at he
      obtain ⟨e', he', rfl⟩ := List.mem_map.mp he
      exact congrArg (Prod.mk e'.1) (ih e' he')
    rw [hsame, List.mergeSort_of_pairwise (sorted_mergeSort _)]
  | _ => rfl

/-- Another item keeps the canonical values equal. -/
theorem canonical_obj_cons {kvs kvs' : List (PyStr × Json)} {k : PyStr} {v : Json}
    (h : (Json.obj kvs).canonical = (Json.obj kvs').canonical)
    (hnodup : (((k, v) :: kvs).map Prod.fst).Nodup) :
    (Json.obj ((k, v) :: kvs)).canonical = (Json.obj ((k, v) :: kvs')).canonical := by
  have hkeys : ((canonicalItems ((k, v) :: kvs)).map Prod.fst).Nodup := by
    rw [canonicalItems_eq, List.map_map]
    exact hnodup
  rw [Json.canonical, Json.canonical]
  refine congrArg Json.obj (mergeSort_eq_of_perm ?_ hkeys)
  rw [canonicalItems, canonicalItems]
  exact (perm_of_canonical_eq h).cons _

/-! ### Lookups in objects -/

theorem dictGet_eq_some {β : Type} {kvs : List (PyStr × β)} (hnodup : (kvs.map Prod.fst).Nodup)
    {k : PyStr} {v : β} : dictGet kvs k = some v ↔ (k, v) ∈ kvs := by
  induction kvs with
  | nil => simp [dictGet]
  | cons e kvs ih =>
    rw [List.map_cons, List.nodup_cons] at hnodup
    have htail := ih hnodup.2
    by_cases hk : e.1 = k
    · have hget : dictGet (e :: kvs) k = some e.2 := by simp [dictGet, hk]
      rw [hget]
      constructor
      · intro h
        rw [← hk, ← Option.some.inj h]
        exact List.mem_cons_self
      · intro h
        rcases List.mem_cons.mp h with h | h
        · rw [← h]
        · exact absurd (List.mem_map.mpr ⟨(k, v), h, hk.symm⟩) hnodup.1
    · have hget : dictGet (e :: kvs) k = dictGet kvs k := by simp [dictGet, hk]
      rw [hget, htail]
      constructor
      · exact List.mem_cons_of_mem _
      · intro h
        rcases List.mem_cons.mp h with h | h
        · rw [← h] at hk
          exact absurd rfl hk
        · exact h

theorem dictGet_canonicalItems (kvs : List (PyStr × Json)) (k : PyStr) :
    dictGet (canonicalItems kvs) k = (dictGet kvs k).map Json.canonical := by
  induction kvs with
  | nil => rfl
  | cons e kvs ih =>
    rw [canonicalItems]
    by_cases hk : e.1 = k
    · simp [dictGet, hk]
    · have hget : ∀ (v : Json) (l : List (PyStr × Json)), dictGet ((e.1, v) :: l) k = dictGet l k := by
        intro v l
        simp [dictGet, hk]
      exact (hget _ _).trans (ih.trans (congrArg _ (hget e.2 kvs).symm))

/-- Objects with one canonical value have the same values, up to the order of keys. -/
theorem getOrNone_canonical {a b : List (PyStr × Json)} (ha : (a.map Prod.fst).Nodup)
    (h : (Json.obj a).canonical = (Json.obj b).canonical) (k : PyStr) :
    (getOrNone a k).canonical = (getOrNone b k).canonical := by
  have hperm := perm_of_canonical_eq h
  have hkeys : ((canonicalItems a).map Prod.fst).Nodup := by
    rw [canonicalItems_eq, List.map_map]
    exact ha
  have hkeys' : ((canonicalItems b).map Prod.fst).Nodup := (hperm.map Prod.fst).nodup_iff.mp hkeys
  have hget : dictGet (canonicalItems a) k = dictGet (canonicalItems b) k := by
    refine Option.ext fun v => ?_
    rw [dictGet_eq_some hkeys, dictGet_eq_some hkeys', hperm.mem_iff]
  have hnone : ∀ o : Option Json, (o.getD .null).canonical = (o.map Json.canonical).getD .null := by
    intro o
    cases o <;> rfl
  rw [getOrNone, getOrNone, hnone, hnone, ← dictGet_canonicalItems, ← dictGet_canonicalItems, hget]

theorem map_fst_dictPop_nodup {kvs : List (PyStr × Json)} (h : (kvs.map Prod.fst).Nodup) (k : PyStr) :
    ((dictPop kvs k).map Prod.fst).Nodup := h.sublist (List.filter_sublist.map _)

/-- A `dict` is what is left without a key, and the key. -/
theorem perm_dictPop {kvs : List (PyStr × Json)} (hnodup : (kvs.map Prod.fst).Nodup) {k : PyStr}
    {v : Json} (h : dictGet kvs k = some v) : kvs.Perm ((k, v) :: dictPop kvs k) := by
  have hmem := (dictGet_eq_some hnodup).mp h
  induction kvs with
  | nil => cases hmem
  | cons e kvs ih =>
    rw [List.map_cons, List.nodup_cons] at hnodup
    by_cases hk : e.1 = k
    · have hget : dictGet (e :: kvs) k = some e.2 := by simp [dictGet, hk]
      have hv : e.2 = v := Option.some.inj (hget.symm.trans h)
      have hpop : dictPop (e :: kvs) k = kvs := by
        rw [dictPop, List.filter_cons, if_neg (by simp [hk]), List.filter_eq_self]
        intro e' he'
        have hne : e'.1 ≠ k := fun heq =>
          hnodup.1 (List.mem_map.mpr ⟨e', he', heq.trans hk.symm⟩)
        simp [hne]
      rw [hpop, ← hk, ← hv]
    · have hget : dictGet (e :: kvs) k = dictGet kvs k := by simp [dictGet, hk]
      have htail := ih hnodup.2 (hget.symm.trans h) ((dictGet_eq_some hnodup.2).mp (hget.symm.trans h))
      have hpop : dictPop (e :: kvs) k = e :: dictPop kvs k := by
        rw [dictPop, List.filter_cons, if_pos (by simp [hk])]
        rfl
      rw [hpop]
      exact (htail.cons e).trans (List.Perm.swap ..)

/-- A `dict` without a key, and the key, determine its canonical value. -/
theorem canonical_eq_of_dictPop {a b : List (PyStr × Json)} (ha : (a.map Prod.fst).Nodup)
    (hb : (b.map Prod.fst).Nodup) {k : PyStr} {v : Json} (hva : dictGet a k = some v)
    (hvb : dictGet b k = some v)
    (h : (Json.obj (dictPop a k)).canonical = (Json.obj (dictPop b k)).canonical) :
    (Json.obj a).canonical = (Json.obj b).canonical := by
  have hpa := perm_dictPop ha hva
  have hpb := perm_dictPop hb hvb
  have hcons := canonical_obj_cons h ((hpa.map Prod.fst).nodup_iff.mp ha)
  exact (canonical_obj_perm hpa ha).trans (hcons.trans (canonical_obj_perm hpb hb).symm)

end Py
