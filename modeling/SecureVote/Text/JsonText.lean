import SecureVote.Text.Json
import SecureVote.Text.Numeral

/-!
# Reading what `json.dumps` writes

`json.loads` reads back what `json.dumps` has written, in the two styles of this development: with
the default separators and the characters as they are, and compact with ASCII escapes.
-/

namespace Py

/-! ### Strings -/

/-- The high half of a surrogate pair. -/
def IsHigh (c : ℕ) : Prop := 0xD800 ≤ c ∧ c ≤ 0xDBFF

/-- The low half of a surrogate pair. -/
def IsLow (c : ℕ) : Prop := 0xDC00 ≤ c ∧ c ≤ 0xDFFF

instance (c : ℕ) : Decidable (IsHigh c) := inferInstanceAs (Decidable (_ ∧ _))

instance (c : ℕ) : Decidable (IsLow c) := inferInstanceAs (Decidable (_ ∧ _))

/-- Text in which no surrogate pair stands for one character. -/
def Joined (s : PyStr) : Prop :=
  (∀ c ∈ s, c < 0x110000) ∧ s.IsChain fun a b => ¬(IsHigh a ∧ IsLow b)

theorem Joined.tail {c : ℕ} {s : PyStr} (h : Joined (c :: s)) : Joined s :=
  ⟨fun d hd => h.1 d (List.mem_cons_of_mem _ hd), h.2.of_cons⟩

/-- The code unit of an escape `\uXXXX` at the start of a text. -/
def nextUnit : PyStr → Option ℕ
  | 92 :: 117 :: e :: f :: g :: h :: _ => hex4 e f g h
  | _ => none

theorem hexValue_digitChar : ∀ d < 16, hexValue (digitChar d) = some d := by decide

theorem hex4_digitChar {u : ℕ} (hu : u < 0x10000) : hex4 (digitChar (u / 4096 % 16))
    (digitChar (u / 256 % 16)) (digitChar (u / 16 % 16)) (digitChar (u % 16)) = some u := by
  have hdigit : ∀ k, hexValue (digitChar (k % 16)) = some (k % 16) := fun k =>
    hexValue_digitChar _ (Nat.mod_lt _ (by decide))
  rw [hex4, hdigit, hdigit, hdigit, hdigit]
  have hval : ((u / 4096 % 16 * 16 + u / 256 % 16) * 16 + u / 16 % 16) * 16 + u % 16 = u := by omega
  exact congrArg some hval

theorem nextUnit_escapeUnit {u : ℕ} (hu : u < 0x10000) (s : PyStr) :
    nextUnit (escapeUnit u ++ s) = some u :=
  hex4_digitChar hu

/-- A text that starts with a malformed escape is not read. -/
theorem scanString_of_hex4_none {a b c d : ℕ} (h : hex4 a b c d = none) (s : PyStr) :
    scanString (92 :: 117 :: a :: b :: c :: d :: s) = .error .value := by
  by_cases hs : ∃ e f g k s', s = 92 :: 117 :: e :: f :: g :: k :: s'
  · obtain ⟨e, f, g, k, s', rfl⟩ := hs
    rw [scanString.eq_3, h]
  · rw [scanString.eq_4 _ _ _ _ _ fun e f g k s' heq => hs ⟨e, f, g, k, s', heq⟩, h]

/-- An escape is read as its code unit, unless it is the first half of a pair. -/
theorem scanString_unit {a b c d u : ℕ} (hhex : hex4 a b c d = some u) {s : PyStr}
    (h : IsHigh u → ∀ v, nextUnit s = some v → ¬IsLow v) :
    scanString (92 :: 117 :: a :: b :: c :: d :: s) =
      (scanString s).map fun r => (u :: r.1, r.2) := by
  by_cases hs : ∃ e f g k s', s = 92 :: 117 :: e :: f :: g :: k :: s'
  · obtain ⟨e, f, g, k, s', rfl⟩ := hs
    rw [scanString.eq_3, hhex]
    cases hv : hex4 e f g k with
    | none =>
      rw [scanString_of_hex4_none hv]
      rfl
    | some v =>
      refine if_neg fun hpair => ?_
      simp only [Bool.and_eq_true, decide_eq_true_eq] at hpair
      obtain ⟨⟨⟨h₁, h₂⟩, h₃⟩, h₄⟩ := hpair
      exact h ⟨h₁, h₂⟩ v hv ⟨h₃, h₄⟩
  · rw [scanString.eq_4 _ _ _ _ _ fun e f g k s' heq => hs ⟨e, f, g, k, s', heq⟩, hhex]

theorem scanString_escapeUnit {u : ℕ} (hu : u < 0x10000) {s : PyStr}
    (h : IsHigh u → ∀ v, nextUnit s = some v → ¬IsLow v) :
    scanString (escapeUnit u ++ s) = (scanString s).map fun r => (u :: r.1, r.2) :=
  scanString_unit (hex4_digitChar hu) h

/-- A pair of escapes is read as one character. -/
theorem scanString_pair {c : ℕ} (hc : 0x10000 ≤ c) (hc' : c < 0x110000) (s : PyStr) :
    scanString (escapeUnit (0xD800 + (c - 0x10000) / 1024) ++
        (escapeUnit (0xDC00 + (c - 0x10000) % 1024) ++ s)) =
      (scanString s).map fun r => (c :: r.1, r.2) := by
  have hhigh : IsHigh (0xD800 + (c - 0x10000) / 1024) := ⟨by omega, by omega⟩
  have hlow : IsLow (0xDC00 + (c - 0x10000) % 1024) := ⟨by omega, by omega⟩
  have hval : 0x10000 + (0xD800 + (c - 0x10000) / 1024 - 0xD800) * 1024 +
      (0xDC00 + (c - 0x10000) % 1024 - 0xDC00) = c := by omega
  generalize 0xD800 + (c - 0x10000) / 1024 = u at hhigh hval
  generalize 0xDC00 + (c - 0x10000) % 1024 = v at hlow hval
  have hu := hex4_digitChar (u := u) (hhigh.2.trans_lt (by decide))
  have hv := hex4_digitChar (u := v) (hlow.2.trans_lt (by decide))
  unfold escapeUnit
  simp only [List.cons_append, List.nil_append]
  rw [scanString.eq_3, hu, hv]
  have hpair : (decide (0xD800 ≤ u) && decide (u ≤ 0xDBFF) && decide (0xDC00 ≤ v) &&
      decide (v ≤ 0xDFFF)) = true := by
    simp [hhigh.1, hhigh.2, hlow.1, hlow.2]
  rw [← hval]
  exact if_pos hpair

/-- An escape of one character. -/
theorem scanString_escape {c x : ℕ} (hx : x ≠ 117) (h : escapeValue x = some c) (s : PyStr) :
    scanString (92 :: x :: s) = (scanString s).map fun r => (c :: r.1, r.2) := by
  rw [scanString.eq_6 _ _ (fun _ _ _ _ _ _ _ _ _ heq => absurd heq hx)
    (fun _ _ _ _ _ heq => absurd heq hx), h]

/-- A character that stands for itself. -/
theorem scanString_char {c : ℕ} (h₁ : c ≠ 34) (h₂ : c ≠ 92) (h₃ : 32 ≤ c) (s : PyStr) :
    scanString (c :: s) = (scanString s).map fun r => (c :: r.1, r.2) := by
  rw [scanString.eq_7 _ _ h₁ (fun _ _ _ _ _ _ _ _ _ heq => absurd heq h₂)
    (fun _ _ _ _ _ heq => absurd heq h₂) (fun heq => absurd heq h₂)
    (fun _ _ heq => absurd heq h₂), if_neg (by omega)]

/-! ### Writing characters -/

/-- One character of a string literal, with `ensure_ascii=False`. -/
def escapeRaw (c : ℕ) : PyStr :=
  if c = 34 then py "\\\""
  else if c = 92 then py "\\\\"
  else if c = 10 then py "\\n"
  else if c = 13 then py "\\r"
  else if c = 9 then py "\\t"
  else if c = 8 then py "\\b"
  else if c = 12 then py "\\f"
  else if c < 32 then escapeUnit c
  else [c]

/-- The characters that both styles write with an escape of one character. -/
theorem escape_cases (c : ℕ) : (∃ x, x ≠ 117 ∧ escapeValue x = some c ∧
      escapeChar c = [92, x] ∧ escapeRaw c = [92, x]) ∨
    (c ≠ 34 ∧ c ≠ 92 ∧
      escapeChar c = (if 32 ≤ c && c ≤ 126 then [c] else if c < 0x10000 then escapeUnit c else
        escapeUnit (0xD800 + (c - 0x10000) / 1024) ++ escapeUnit (0xDC00 + (c - 0x10000) % 1024)) ∧
      escapeRaw c = if c < 32 then escapeUnit c else [c]) := by
  by_cases hc : c = 34 ∨ c = 92 ∨ c = 10 ∨ c = 13 ∨ c = 9 ∨ c = 8 ∨ c = 12
  · left
    rcases hc with rfl | rfl | rfl | rfl | rfl | rfl | rfl
    · exact ⟨34, by decide⟩
    · exact ⟨92, by decide⟩
    · exact ⟨110, by decide⟩
    · exact ⟨114, by decide⟩
    · exact ⟨116, by decide⟩
    · exact ⟨98, by decide⟩
    · exact ⟨102, by decide⟩
  · right
    simp only [not_or] at hc
    obtain ⟨h₁, h₂, h₃, h₄, h₅, h₆, h₇⟩ := hc
    exact ⟨h₁, h₂, by simp only [escapeChar, h₁, h₂, h₃, h₄, h₅, h₆, h₇, if_false],
      by simp only [escapeRaw, h₁, h₂, h₃, h₄, h₅, h₆, h₇, if_false]⟩

/-- The first code unit that is written for a character. -/
theorem nextUnit_escapeChar {c : ℕ} (hc : c < 0x110000) (s : PyStr) {v : ℕ}
    (h : nextUnit (escapeChar c ++ s) = some v) (hv : IsLow v) : c = v := by
  rcases escape_cases c with ⟨x, hx, -, heq, -⟩ | ⟨-, hne, heq, -⟩
  · rw [heq] at h
    simp [nextUnit, hx] at h
  · rw [heq] at h
    split at h
    · simp [nextUnit, hne] at h
    · split at h
      next hlt =>
        rw [nextUnit_escapeUnit hlt] at h
        exact Option.some.inj h
      next hge =>
        -- the first unit of a pair is a high one
        rw [List.append_assoc, nextUnit_escapeUnit (by omega)] at h
        have hfirst := Option.some.inj h
        have hlow := hv.1
        omega

/-- A string literal with ASCII escapes is read back. -/
theorem scanString_escapeChar {s : PyStr} (h : Joined s) (rest : PyStr) :
    scanString (s.flatMap escapeChar ++ 34 :: rest) = .ok (s, rest) := by
  induction s with
  | nil => exact scanString.eq_2 rest
  | cons c s ih =>
    have hread := ih h.tail
    have hc : c < 0x110000 := h.1 c List.mem_cons_self
    rw [List.flatMap_cons, List.append_assoc]
    rcases escape_cases c with ⟨x, hx, hval, heq, -⟩ | ⟨h₁, h₂, heq, -⟩
    · rw [heq, List.cons_append, List.cons_append, List.nil_append, scanString_escape hx hval, hread]
      rfl
    · rw [heq]
      split
      next hplain =>
        simp only [Bool.and_eq_true, decide_eq_true_eq] at hplain
        rw [List.cons_append, List.nil_append, scanString_char h₁ h₂ hplain.1, hread]
        rfl
      · split
        next hlt =>
          have hpair : IsHigh c → ∀ v, nextUnit (s.flatMap escapeChar ++ 34 :: rest) = some v →
              ¬IsLow v := by
            intro hhigh v hv hlow
            cases s with
            | nil => cases hv
            | cons c' s =>
              rw [List.flatMap_cons, List.append_assoc] at hv
              have hc' : c' < 0x110000 := h.1 c' (by simp)
              obtain rfl := nextUnit_escapeChar hc' _ hv hlow
              exact (List.isChain_cons_cons.mp h.2).1 ⟨hhigh, hlow⟩
          rw [scanString_escapeUnit hlt hpair, hread]
          rfl
        next hge =>
          rw [List.append_assoc, scanString_pair (by omega) hc, hread]
          rfl

/-- A string literal with its characters as they are is read back. -/
theorem scanString_escapeRaw (s rest : PyStr) :
    scanString (s.flatMap escapeRaw ++ 34 :: rest) = .ok (s, rest) := by
  induction s with
  | nil => exact scanString.eq_2 rest
  | cons c s ih =>
    rw [List.flatMap_cons, List.append_assoc]
    rcases escape_cases c with ⟨x, hx, hval, -, heq⟩ | ⟨h₁, h₂, -, heq⟩
    · rw [heq, List.cons_append, List.cons_append, List.nil_append, scanString_escape hx hval, ih]
      rfl
    · rw [heq]
      split
      next hlt =>
        have hhigh : ¬IsHigh c := fun h => by
          have := h.1
          omega
        rw [scanString_escapeUnit (by omega) fun h => absurd h hhigh, ih]
        rfl
      next hge =>
        rw [List.cons_append, List.nil_append, scanString_char h₁ h₂ (by omega), ih]
        rfl

/-! ### Strings that are read -/

/-- Text that UTF-8 can carry: scalar values only. -/
def IsScalar (s : PyStr) : Prop := ∀ c ∈ s, c < 0x110000 ∧ ¬IsHigh c ∧ ¬IsLow c

instance (s : PyStr) : Decidable (IsScalar s) := inferInstanceAs (Decidable (∀ c ∈ s, _))

theorem IsScalar.of_suffix {s t : PyStr} (h : IsScalar t) (hs : s <:+ t) : IsScalar s :=
  fun c hc => h c (hs.subset hc)

theorem hexValue_lt {c d : ℕ} (h : hexValue c = some d) : d < 16 := by
  unfold hexValue at h
  split at h
  next hc =>
    simp only [Bool.and_eq_true, decide_eq_true_eq] at hc
    cases h
    omega
  · split at h
    next hc =>
      simp only [Bool.and_eq_true, decide_eq_true_eq] at hc
      cases h
      omega
    · split at h
      next hc =>
        simp only [Bool.and_eq_true, decide_eq_true_eq] at hc
        cases h
        omega
      · cases h

theorem hex4_lt {a b c d u : ℕ} (h : hex4 a b c d = some u) : u < 0x10000 := by
  unfold hex4 at h
  split at h
  next w x y z hw hx hy hz =>
    have := hexValue_lt hw
    have := hexValue_lt hx
    have := hexValue_lt hy
    have := hexValue_lt hz
    cases h
    omega
  · cases h

theorem escapeValue_lt {c u : ℕ} (h : escapeValue c = some u) : u < 0x80 := by
  unfold escapeValue at h
  split at h
  next hc =>
    simp only [Bool.or_eq_true, decide_eq_true_eq] at hc
    cases h
    omega
  · repeat' split at h
    all_goals cases h
    all_goals decide

/-- One more character in front. -/
theorem Joined.cons {c : ℕ} {s : PyStr} (hc : c < 0x110000) (h : Joined s)
    (hpair : IsHigh c → ∀ v, s.head? = some v → ¬IsLow v) : Joined (c :: s) := by
  refine ⟨List.forall_mem_cons.mpr ⟨hc, h.1⟩, ?_⟩
  cases s with
  | nil => exact .singleton c
  | cons v s =>
    refine List.isChain_cons_cons.mpr ⟨?_, h.2⟩
    rintro ⟨hhigh, hlow⟩
    exact hpair hhigh v rfl hlow

/-- What a string literal is read as: no pairs are left in it, and it starts with a low half only
when the literal does. -/
theorem joined_of_scanString {s r rest : PyStr} (hs : IsScalar s)
    (h : scanString s = .ok (r, rest)) :
    Joined r ∧ (∀ v, r.head? = some v → IsLow v → nextUnit s = some v) ∧ rest <:+ s := by
  have hmap : ∀ {t : PyStr} {u : ℕ} {r rest : PyStr},
      (scanString t).map (fun x : PyStr × PyStr => (u :: x.1, x.2)) = .ok (r, rest) →
        ∃ r', scanString t = .ok (r', rest) ∧ r = u :: r' := by
    intro t u r rest h
    cases ht : scanString t with
    | error e =>
      rw [ht] at h
      cases h
    | ok x =>
      rw [ht] at h
      cases h
      exact ⟨x.1, rfl, rfl⟩
  induction s using scanString.induct generalizing r with
  | case1 => cases h
  | case2 s =>
    rw [scanString.eq_2] at h
    cases h
    exact ⟨⟨by simp, .nil⟩, by simp, List.suffix_cons _ _⟩
  | case3 a b c d e f g k s u v hv hu hpair ih =>
    rw [scanString.eq_3, hu, hv] at h
    obtain ⟨r', hr', rfl⟩ := hmap ((if_pos hpair).symm.trans h)
    have hsuffix : s <:+ 92 :: 117 :: a :: b :: c :: d :: 92 :: 117 :: e :: f :: g :: k :: s :=
      ⟨[92, 117, a, b, c, d, 92, 117, e, f, g, k], rfl⟩
    obtain ⟨hj, -, hrest⟩ := ih (hs.of_suffix hsuffix) hr'
    simp only [Bool.and_eq_true, decide_eq_true_eq] at hpair
    refine ⟨hj.cons (by omega) fun hhigh => ?_, fun w hw hlow => ?_, hrest.trans hsuffix⟩
    · have := hhigh.2
      omega
    · have hfirst := Option.some.inj hw
      have := hlow.2
      omega
  | case4 a b c d e f g k s u v hv hu hpair ih =>
    rw [scanString.eq_3, hu, hv] at h
    obtain ⟨r', hr', rfl⟩ := hmap ((if_neg hpair).symm.trans h)
    have hsuffix : 92 :: 117 :: e :: f :: g :: k :: s <:+
        92 :: 117 :: a :: b :: c :: d :: 92 :: 117 :: e :: f :: g :: k :: s :=
      ⟨[92, 117, a, b, c, d], rfl⟩
    obtain ⟨hj, hhead, hrest⟩ := ih (hs.of_suffix hsuffix) hr'
    have hlt := hex4_lt hu
    refine ⟨hj.cons (by omega) fun hhigh w hw hlow => ?_, fun w hw _ => ?_, hrest.trans hsuffix⟩
    · obtain rfl : v = w := Option.some.inj (hv.symm.trans (hhead w hw hlow))
      refine hpair ?_
      simp [hhigh.1, hhigh.2, hlow.1, hlow.2]
    · cases hw
      exact hu
  | case5 a b c d e f g k s hnone =>
    rw [scanString.eq_3] at h
    split at h
    next u v hu hv => exact (hnone u v hu hv).elim
    · cases h
  | case6 a b c d s hno u hu ih =>
    rw [scanString.eq_4 _ _ _ _ _ hno, hu] at h
    obtain ⟨r', hr', rfl⟩ := hmap h
    have hsuffix : s <:+ 92 :: 117 :: a :: b :: c :: d :: s := ⟨[92, 117, a, b, c, d], rfl⟩
    obtain ⟨hj, hhead, hrest⟩ := ih (hs.of_suffix hsuffix) hr'
    have hlt := hex4_lt hu
    refine ⟨hj.cons (by omega) fun _ w hw hlow => ?_, fun w hw _ => ?_, hrest.trans hsuffix⟩
    · have hunit := hhead w hw hlow
      unfold nextUnit at hunit
      split at hunit
      next e f g k s' => exact hno e f g k s' rfl
      · cases hunit
    · cases hw
      exact hu
  | case7 a b c d s hno hnone =>
    rw [scanString.eq_4 _ _ _ _ _ hno, hnone] at h
    cases h
  | case8 => cases h
  | case9 c s h₁ h₂ u hu ih =>
    rw [scanString.eq_6 _ _ h₁ h₂, hu] at h
    obtain ⟨r', hr', rfl⟩ := hmap h
    have hsuffix : s <:+ 92 :: c :: s := ⟨[92, c], rfl⟩
    obtain ⟨hj, -, hrest⟩ := ih (hs.of_suffix hsuffix) hr'
    have hlt := escapeValue_lt hu
    refine ⟨hj.cons (by omega) fun hhigh => ?_, fun w hw hlow => ?_, hrest.trans hsuffix⟩
    · have := hhigh.1
      omega
    · cases hw
      have := hlow.1
      omega
  | case10 c s h₁ h₂ hnone =>
    rw [scanString.eq_6 _ _ h₁ h₂, hnone] at h
    cases h
  | case11 c s h₁ h₂ h₃ h₄ h₅ hlt =>
    rw [scanString.eq_7 _ _ h₁ h₂ h₃ h₄ h₅, if_pos hlt] at h
    cases h
  | case12 c s h₁ h₂ h₃ h₄ h₅ hge ih =>
    rw [scanString.eq_7 _ _ h₁ h₂ h₃ h₄ h₅, if_neg hge] at h
    obtain ⟨r', hr', rfl⟩ := hmap h
    have hsuffix : s <:+ c :: s := List.suffix_cons _ _
    obtain ⟨hj, -, hrest⟩ := ih (hs.of_suffix hsuffix) hr'
    obtain ⟨hc, hnohigh, hnolow⟩ := hs c List.mem_cons_self
    refine ⟨hj.cons hc fun hhigh => absurd hhigh hnohigh, fun w hw hlow => ?_,
      hrest.trans hsuffix⟩
    cases hw
    exact absurd hlow hnolow

/-! ### Numbers -/

/-- What may follow a value inside a text. -/
def Ends (s : PyStr) : Prop := ∀ c r, s = c :: r → c = 44 ∨ c = 93 ∨ c = 125

theorem ends_nil : Ends [] := fun _ _ h => by cases h

theorem ends_cons {c : ℕ} {s : PyStr} (h : c = 44 ∨ c = 93 ∨ c = 125) : Ends (c :: s) :=
  fun _ _ heq => by cases heq; exact h

theorem isDigit_of_mem_natRepr {n c : ℕ} (h : c ∈ natRepr 10 n) : isDigit c = true := by
  obtain ⟨d, hd, rfl⟩ := mem_natRepr (by decide) h
  rw [digitChar, if_pos hd]
  simp only [isDigit, Bool.and_eq_true, decide_eq_true_eq]
  omega

/-- A printed number starts with a zero only when it is zero. -/
theorem natRepr_eq_cons (n : ℕ) : ∃ c cs, natRepr 10 n = c :: cs ∧ (c = 48 → cs = []) := by
  by_cases hn : n = 0
  · exact ⟨48, [], by rw [natRepr, if_pos hn], fun _ => rfl⟩
  · have hne : Nat.digits 10 n ≠ [] := Nat.digits_ne_nil_iff_ne_zero.mpr hn
    have hlast := Nat.getLast_digit_ne_zero 10 hn
    have hlt : (Nat.digits 10 n).getLast hne < 10 :=
      Nat.digits_lt_base (by decide) (List.getLast_mem hne)
    refine ⟨digitChar ((Nat.digits 10 n).getLast hne),
      (Nat.digits 10 n).dropLast.reverse.map digitChar, ?_, fun h => absurd h ?_⟩
    · rw [natRepr, if_neg hn]
      conv_lhs => rw [← List.dropLast_append_getLast hne]
      rw [List.reverse_append]
      rfl
    · rw [digitChar, if_pos hlt]
      omega

theorem digitsValue_natRepr (n : ℕ) : digitsValue (natRepr 10 n) = n := by
  rw [natRepr_eq, digitsValue, List.foldl_map]
  have hstep : (numeralDigits 10 n).foldl (fun a d => a * 10 + (digitChar d - 48)) 0 =
      (numeralDigits 10 n).foldl (fun a d => a * 10 + d) 0 := by
    refine List.foldl_ext _ _ _ fun a d hd => ?_
    have hlt : d < 10 := lt_of_mem_numeralDigits (by decide) hd
    rw [digitChar, if_pos hlt]
    omega
  rw [hstep, foldl_numeralDigits]

theorem takeWhile_append_of_all {p : ℕ → Bool} {s t : PyStr} (hs : ∀ c ∈ s, p c = true)
    (ht : ∀ c r, t = c :: r → p c = false) :
    (s ++ t).takeWhile p = s ∧ (s ++ t).dropWhile p = t := by
  induction s with
  | nil =>
    cases t with
    | nil => exact ⟨rfl, rfl⟩
    | cons c r => simp [ht c r rfl]
  | cons c s ih =>
    obtain ⟨htake, hdrop⟩ := ih fun d hd => hs d (List.mem_cons_of_mem _ hd)
    have hc := hs c List.mem_cons_self
    constructor
    · rw [List.cons_append, List.takeWhile_cons, hc, htake]
      rfl
    · rw [List.cons_append, List.dropWhile_cons, hc, hdrop]
      rfl

theorem scanIntPart_natRepr (n : ℕ) {rest : PyStr} (hrest : Ends rest) :
    scanIntPart (natRepr 10 n ++ rest) = some (natRepr 10 n, rest) := by
  obtain ⟨c, cs, heq, hzero⟩ := natRepr_eq_cons n
  have hdigits : ∀ d ∈ c :: cs, isDigit d = true := fun d hd =>
    isDigit_of_mem_natRepr (heq ▸ hd)
  have hstop : ∀ d r, rest = d :: r → isDigit d = false := by
    intro d r hr
    rcases hrest d r hr with rfl | rfl | rfl <;> rfl
  rw [heq, List.cons_append, scanIntPart]
  by_cases hc : c = 48
  · rw [if_pos hc, hzero hc, hc]
    rfl
  · obtain ⟨htake, hdrop⟩ := takeWhile_append_of_all
      (fun d hd => hdigits d (List.mem_cons_of_mem _ hd)) hstop
    rw [if_neg hc, if_pos (hdigits c List.mem_cons_self), htake, hdrop]

theorem scanFraction_ends {rest : PyStr} (hrest : Ends rest) : scanFraction rest = ([], rest) := by
  unfold scanFraction
  split
  next r => exact absurd (hrest 46 r rfl) (by decide)
  · rfl

theorem scanExponent_ends {rest : PyStr} (hrest : Ends rest) : scanExponent rest = (none, rest) := by
  unfold scanExponent
  split
  next c r =>
    rcases hrest c r rfl with rfl | rfl | rfl <;> rfl
  · rfl

/-- The digits of a number are read back, up to the limit of `int`. -/
theorem scanNumber_natRepr {n : ℕ} (hn : (natRepr 10 n).length ≤ maxStrDigits) (neg : Bool)
    {rest : PyStr} (hrest : Ends rest) : scanNumber neg (natRepr 10 n ++ rest) =
      .ok (.int (if neg then -(n : ℤ) else n), rest) := by
  unfold scanNumber
  rw [scanIntPart_natRepr n hrest]
  dsimp only
  rw [scanFraction_ends hrest, scanExponent_ends hrest]
  dsimp only
  have hint : (([] : PyStr).isEmpty && (none : Option ℤ).isNone) = true := rfl
  rw [digitsValue_natRepr, if_pos hint, if_neg (by omega)]

theorem dropLiteral_of_head_ne {t s : PyStr} {c d : ℕ} (h : d ≠ c) :
    dropLiteral (d :: t) (c :: s) = none := by
  have hno : List.isPrefixOf (d :: t) (c :: s) = false := by
    simp [List.isPrefixOf, h]
  rw [dropLiteral, hno]
  rfl

/-- A printed integer is read back. -/
theorem scanAtom_intRepr {n : ℤ} (hn : (natRepr 10 n.natAbs).length ≤ maxStrDigits) {rest : PyStr}
    (hrest : Ends rest) : scanAtom (intRepr n ++ rest) = .ok (.int n, rest) := by
  cases n with
  | ofNat n =>
    obtain ⟨c, cs, heq, -⟩ := natRepr_eq_cons n
    have hdigit : isDigit c = true := isDigit_of_mem_natRepr (heq ▸ List.mem_cons_self)
    have hbound : 48 ≤ c ∧ c ≤ 57 := by
      simpa [isDigit] using hdigit
    have hread : scanNumber false (natRepr 10 n ++ rest) = .ok (.int n, rest) :=
      scanNumber_natRepr hn false hrest
    rw [show intRepr (Int.ofNat n) = natRepr 10 n from rfl]
    rw [heq, List.cons_append] at hread ⊢
    unfold scanAtom
    rw [show py "null" = 110 :: py "ull" from rfl, show py "true" = 116 :: py "rue" from rfl,
      show py "false" = 102 :: py "alse" from rfl, show py "NaN" = 78 :: py "aN" from rfl,
      show py "Infinity" = 73 :: py "nfinity" from rfl,
      show py "-Infinity" = 45 :: py "Infinity" from rfl,
      dropLiteral_of_head_ne (by omega), dropLiteral_of_head_ne (by omega),
      dropLiteral_of_head_ne (by omega), dropLiteral_of_head_ne (by omega),
      dropLiteral_of_head_ne (by omega), dropLiteral_of_head_ne (by omega)]
    dsimp only
    split
    next r hr =>
      cases hr
      omega
    · exact hread
  | negSucc n =>
    obtain ⟨c, cs, heq, -⟩ := natRepr_eq_cons (n + 1)
    have hdigit : isDigit c = true := isDigit_of_mem_natRepr (heq ▸ List.mem_cons_self)
    have hbound : 48 ≤ c ∧ c ≤ 57 := by
      simpa [isDigit] using hdigit
    have hread : scanNumber true (natRepr 10 (n + 1) ++ rest) =
        .ok (.int (-((n + 1 : ℕ) : ℤ)), rest) := scanNumber_natRepr hn true hrest
    have hinf : dropLiteral (py "-Infinity") (45 :: c :: (cs ++ rest)) = none := by
      have hne : 73 ≠ c := by omega
      have hno : List.isPrefixOf (py "-Infinity") (45 :: c :: (cs ++ rest)) = false := by
        rw [show py "-Infinity" = 45 :: 73 :: py "nfinity" from rfl]
        simp [List.isPrefixOf, hne]
      rw [dropLiteral, hno]
      rfl
    rw [show intRepr (Int.negSucc n) = 45 :: natRepr 10 (n + 1) from rfl]
    rw [heq, List.cons_append] at hread
    rw [heq, List.cons_append, List.cons_append]
    unfold scanAtom
    rw [hinf, show py "null" = 110 :: py "ull" from rfl, show py "true" = 116 :: py "rue" from rfl,
      show py "false" = 102 :: py "alse" from rfl, show py "NaN" = 78 :: py "aN" from rfl,
      show py "Infinity" = 73 :: py "nfinity" from rfl,
      dropLiteral_of_head_ne (by decide), dropLiteral_of_head_ne (by decide),
      dropLiteral_of_head_ne (by decide), dropLiteral_of_head_ne (by decide),
      dropLiteral_of_head_ne (by decide)]
    exact hread

/-! ### Literal names -/

theorem dropLiteral_append (t s : PyStr) : dropLiteral t (t ++ s) = some s := by
  have hprefix : List.isPrefixOf t (t ++ s) = true :=
    List.isPrefixOf_iff_prefix.mpr (List.prefix_append t s)
  rw [dropLiteral, if_pos hprefix, List.drop_left]

theorem scanAtom_null (rest : PyStr) : scanAtom (py "null" ++ rest) = .ok (.null, rest) := by
  unfold scanAtom
  rw [dropLiteral_append]

theorem scanAtom_true (rest : PyStr) : scanAtom (py "true" ++ rest) = .ok (.bool true, rest) := by
  have hnull : dropLiteral (py "null") (py "true" ++ rest) = none :=
    dropLiteral_of_head_ne (by decide)
  unfold scanAtom
  rw [dropLiteral_append, hnull]

theorem scanAtom_false (rest : PyStr) :
    scanAtom (py "false" ++ rest) = .ok (.bool false, rest) := by
  have hnull : dropLiteral (py "null") (py "false" ++ rest) = none :=
    dropLiteral_of_head_ne (by decide)
  have htrue : dropLiteral (py "true") (py "false" ++ rest) = none :=
    dropLiteral_of_head_ne (by decide)
  unfold scanAtom
  rw [dropLiteral_append, hnull, htrue]

/-! ### Values -/

/-- Induction over the containers. -/
@[elab_as_elim]
theorem Json.ind {P : Json → Prop} (null : P .null) (bool : ∀ b, P (.bool b))
    (int : ∀ n, P (.int n)) (float : ∀ f, P (.float f)) (str : ∀ s, P (.str s))
    (arr : ∀ xs, (∀ x ∈ xs, P x) → P (.arr xs))
    (obj : ∀ kvs, (∀ e ∈ kvs, P e.2) → P (.obj kvs)) (v : Json) : P v := by
  refine Json.rec (motive_1 := P) (motive_2 := fun xs => ∀ x ∈ xs, P x)
    (motive_3 := fun kvs => ∀ e ∈ kvs, P e.2) (motive_4 := fun e => P e.2)
    null bool int float str arr obj ?_ ?_ ?_ ?_ ?_ v
  · exact List.forall_mem_nil _
  · exact fun x xs hx hxs => List.forall_mem_cons.mpr ⟨hx, hxs⟩
  · exact List.forall_mem_nil _
  · exact fun e kvs he hkvs => List.forall_mem_cons.mpr ⟨he, hkvs⟩
  · exact fun k v hv => hv

mutual

/-- The nesting of containers. -/
def Json.depth : Json → ℕ
  | .arr xs => depthElements xs + 1
  | .obj kvs => depthItems kvs + 1
  | _ => 0

/-- The nesting in the elements of an array. -/
def depthElements : List Json → ℕ
  | [] => 0
  | x :: xs => max x.depth (depthElements xs)

/-- The nesting in the items of an object. -/
def depthItems : List (PyStr × Json) → ℕ
  | [] => 0
  | (_, v) :: kvs => max v.depth (depthItems kvs)

end

/-- A value whose leaves and keys are as stated, without repeated keys. -/
inductive Json.Made (leaf : Json → Prop) (key : PyStr → Prop) : Json → Prop
  | null : leaf .null → Made leaf key .null
  | bool {b} : leaf (.bool b) → Made leaf key (.bool b)
  | int {n} : leaf (.int n) → Made leaf key (.int n)
  | float {f} : leaf (.float f) → Made leaf key (.float f)
  | str {s} : leaf (.str s) → Made leaf key (.str s)
  | arr {xs} : (∀ x ∈ xs, Made leaf key x) → Made leaf key (.arr xs)
  | obj {kvs} : (kvs.map Prod.fst).Nodup → (∀ e ∈ kvs, key e.1) →
      (∀ e ∈ kvs, Made leaf key e.2) → Made leaf key (.obj kvs)

/-- A leaf of a value that is written by a program: no floats, and no integers that are too long to
be read. -/
def PlainLeaf (p : PyStr → Prop) : Json → Prop
  | .null | .bool _ => True
  | .int n => (natRepr 10 n.natAbs).length ≤ maxStrDigits
  | .str s => p s
  | _ => False

/-- A leaf of any value. -/
def AnyLeaf (p : PyStr → Prop) : Json → Prop
  | .null | .bool _ | .int _ | .float _ => True
  | .str s => p s
  | _ => False

/-- How values are written: the separators, and the characters of strings. -/
structure JsonStyle where
  comma : PyStr
  colon : PyStr
  escape : ℕ → PyStr

mutual

/-- `json.dumps` in a style, with the keys in their order. -/
def Json.write (st : JsonStyle) : Json → PyStr
  | .null => py "null"
  | .bool true => py "true"
  | .bool false => py "false"
  | .int n => intRepr n
  | .float f => floatRepr f
  | .str s => 34 :: s.flatMap st.escape ++ [34]
  | .arr xs => 91 :: writeElements st xs ++ [93]
  | .obj kvs => 123 :: writeMembers st kvs ++ [125]

/-- The elements of an array. -/
def writeElements (st : JsonStyle) : List Json → PyStr
  | [] => []
  | [x] => x.write st
  | x :: y :: xs => x.write st ++ st.comma ++ writeElements st (y :: xs)

/-- The members of an object. -/
def writeMembers (st : JsonStyle) : List (PyStr × Json) → PyStr
  | [] => []
  | [(k, v)] => 34 :: k.flatMap st.escape ++ 34 :: st.colon ++ v.write st
  | (k, v) :: e :: kvs =>
      34 :: k.flatMap st.escape ++ 34 :: st.colon ++ v.write st ++ st.comma ++
        writeMembers st (e :: kvs)

end

/-- `json.dumps(v, ensure_ascii=False)`. -/
def defaultStyle : JsonStyle := ⟨py ", ", py ": ", escapeRaw⟩

/-- `json.dumps(v, separators=(',', ':'))`. -/
def compactStyle : JsonStyle := ⟨py ",", py ":", escapeChar⟩

/-! ### Containers -/

theorem skipSpace_of_head {c : ℕ} {s : PyStr} (h : isJsonSpace c = false) :
    skipSpace (c :: s) = c :: s := by
  rw [skipSpace, List.dropWhile_cons, h]
  rfl

theorem skipSpace_append {w s : PyStr} (h : ∀ c ∈ w, isJsonSpace c = true) :
    skipSpace (w ++ s) = skipSpace s := by
  induction w with
  | nil => rfl
  | cons c w ih =>
    have hc := h c List.mem_cons_self
    rw [List.cons_append, skipSpace, List.dropWhile_cons, hc]
    exact ih fun d hd => h d (List.mem_cons_of_mem _ hd)

section Scan

variable {fuel depth : ℕ} {s r : PyStr} {v : Json} {k : PyStr} {kvs : List (PyStr × Json)}

theorem scanValue_atom {c : ℕ} (h₁ : c ≠ 34) (h₂ : c ≠ 123) (h₃ : c ≠ 91) :
    scanValue (fuel + 1) depth (c :: s) = scanAtom (c :: s) :=
  scanValue.eq_7 _ _ _ (fun _ h => h₁ (List.cons.inj h).1) (fun _ h => h₂ (List.cons.inj h).1)
    fun _ h => h₃ (List.cons.inj h).1

theorem scanValue_arr (h : ∀ r, skipSpace s ≠ 93 :: r) :
    scanValue (fuel + 1) (depth + 1) (91 :: s) =
      (scanElements fuel depth (skipSpace s)).map fun x => (.arr x.1, x.2) := by
  rw [scanValue.eq_6]
  split
  next r hr => exact absurd hr (h r)
  · rfl

theorem scanValue_obj (h : ∀ r, skipSpace s ≠ 125 :: r) :
    scanValue (fuel + 1) (depth + 1) (123 :: s) =
      (scanMembers fuel depth [] (skipSpace s)).map fun x => (.obj x.1, x.2) := by
  rw [scanValue.eq_4]
  split
  next r hr => exact absurd hr (h r)
  · rfl

theorem scanElements_last (h : scanValue fuel depth s = .ok (v, 93 :: r)) :
    scanElements (fuel + 1) depth s = .ok ([v], r) := by
  rw [scanElements.eq_2, h]
  rfl

theorem scanElements_next (h : scanValue fuel depth s = .ok (v, 44 :: r)) :
    scanElements (fuel + 1) depth s =
      (scanElements fuel depth (skipSpace r)).map fun x => (v :: x.1, x.2) := by
  rw [scanElements.eq_2, h]
  rfl

theorem scanMembers_last {r₂ : PyStr} (hk : scanString s = .ok (k, 58 :: r₂))
    (hv : scanValue fuel depth (skipSpace r₂) = .ok (v, 125 :: r)) :
    scanMembers (fuel + 1) depth kvs (34 :: s) = .ok (dictSet kvs k v, r) := by
  have hcolon : skipSpace (58 :: r₂) = 58 :: r₂ := rfl
  have hclose : skipSpace (125 :: r) = 125 :: r := rfl
  rw [scanMembers.eq_2]
  simp only [hk, hcolon, hv, hclose]

theorem scanMembers_next {r₂ : PyStr} (hk : scanString s = .ok (k, 58 :: r₂))
    (hv : scanValue fuel depth (skipSpace r₂) = .ok (v, 44 :: r)) :
    scanMembers (fuel + 1) depth kvs (34 :: s) =
      scanMembers fuel depth (dictSet kvs k v) (skipSpace r) := by
  have hcolon : skipSpace (58 :: r₂) = 58 :: r₂ := rfl
  have hcomma : skipSpace (44 :: r) = 44 :: r := rfl
  rw [scanMembers.eq_2]
  simp only [hk, hcolon, hv, hcomma]

end Scan

theorem dictSet_of_not_mem {β : Type} {kvs : List (PyStr × β)} {k : PyStr} {v : β}
    (h : k ∉ kvs.map Prod.fst) : dictSet kvs k v = kvs ++ [(k, v)] := by
  have hno : kvs.any (fun e => decide (e.1 = k)) = false := by
    rw [List.any_eq_false]
    intro e he hk
    exact h (List.mem_map.mpr ⟨e, he, of_decide_eq_true hk⟩)
  rw [dictSet, hno]
  rfl

/-! ### Reading what has been written -/

/-- The style is one whose text is read back, for strings with the property `p`. -/
structure JsonStyle.Reads (st : JsonStyle) (p : PyStr → Prop) : Prop where
  comma : ∃ w, st.comma = 44 :: w ∧ ∀ c ∈ w, isJsonSpace c = true
  colon : ∃ w, st.colon = 58 :: w ∧ ∀ c ∈ w, isJsonSpace c = true
  string : ∀ s, p s → ∀ rest, scanString (s.flatMap st.escape ++ 34 :: rest) = .ok (s, rest)

theorem defaultStyle_reads : defaultStyle.Reads fun _ => True where
  comma := ⟨[32], rfl, by decide⟩
  colon := ⟨[32], rfl, by decide⟩
  string s _ rest := scanString_escapeRaw s rest

theorem compactStyle_reads : compactStyle.Reads Joined where
  comma := ⟨[], rfl, by decide⟩
  colon := ⟨[], rfl, by decide⟩
  string _ hs rest := scanString_escapeChar hs rest

/-- The first character of a value tells where it starts. -/
theorem write_head (st : JsonStyle) (v : Json) (hv : ∀ f, v ≠ .float f) : ∃ c t,
    v.write st = c :: t ∧ isJsonSpace c = false ∧ c ≠ 93 ∧ c < 0x80 := by
  cases v with
  | null => exact ⟨110, py "ull", rfl, by decide⟩
  | bool b =>
    cases b with
    | true => exact ⟨116, py "rue", rfl, by decide⟩
    | false => exact ⟨102, py "alse", rfl, by decide⟩
  | int n =>
    cases n with
    | ofNat n =>
      obtain ⟨c, cs, heq, -⟩ := natRepr_eq_cons n
      have hdigit : isDigit c = true := isDigit_of_mem_natRepr (heq ▸ List.mem_cons_self)
      have hbound : 48 ≤ c ∧ c ≤ 57 := by simpa [isDigit] using hdigit
      refine ⟨c, cs, heq, ?_, by omega, by omega⟩
      simp only [isJsonSpace, Bool.or_eq_false_iff, beq_eq_false_iff_ne]
      omega
    | negSucc n => exact ⟨45, natRepr 10 (n + 1), rfl, by decide⟩
  | float f => exact absurd rfl (hv f)
  | str s => exact ⟨34, s.flatMap st.escape ++ [34], rfl, by decide⟩
  | arr xs => exact ⟨91, writeElements st xs ++ [93], rfl, by decide⟩
  | obj kvs => exact ⟨123, writeMembers st kvs ++ [125], rfl, by decide⟩

theorem Json.Made.not_float {p q : PyStr → Prop} {v : Json} (h : v.Made (PlainLeaf p) q) (f) :
    v ≠ .float f := by
  rintro rfl
  cases h with
  | float hf => exact hf

theorem depth_le_of_mem {xs : List Json} {x : Json} (h : x ∈ xs) : x.depth ≤ depthElements xs := by
  induction xs with
  | nil => cases h
  | cons y xs ih =>
    rcases List.mem_cons.mp h with rfl | h
    · exact le_max_left _ _
    · exact (ih h).trans (le_max_right _ _)

theorem depth_le_of_mem_items {kvs : List (PyStr × Json)} {e : PyStr × Json} (h : e ∈ kvs) :
    e.2.depth ≤ depthItems kvs := by
  induction kvs with
  | nil => cases h
  | cons e' kvs ih =>
    rcases List.mem_cons.mp h with rfl | h
    · exact le_max_left _ _
    · exact (ih h).trans (le_max_right _ _)

section Write

variable {st : JsonStyle} {p : PyStr → Prop}

/-- What reads one value, given enough fuel. -/
def ReadsBack (st : JsonStyle) (v : Json) : Prop :=
  ∀ fuel depth rest, 2 * (v.write st).length ≤ fuel → v.depth ≤ depth → Ends rest →
    scanValue fuel depth (v.write st ++ rest) = .ok (v, rest)

theorem skipSpace_write {w : PyStr} (hw : ∀ c ∈ w, isJsonSpace c = true) {v : Json}
    (hv : ∀ f, v ≠ .float f) (rest : PyStr) :
    skipSpace (w ++ (v.write st ++ rest)) = v.write st ++ rest := by
  obtain ⟨c, t, heq, hspace, -⟩ := write_head st v hv
  rw [skipSpace_append hw, heq, List.cons_append, skipSpace_of_head hspace]

/-- The elements of an array are read back, one after the other. -/
theorem scanElements_write (hst : st.Reads p) {xs : List Json} (hne : xs ≠ [])
    (hfloat : ∀ x ∈ xs, ∀ f, x ≠ .float f) (hxs : ∀ x ∈ xs, ReadsBack st x) {fuel depth : ℕ}
    (hfuel : 2 * (writeElements st xs).length + 1 ≤ fuel) (hdepth : depthElements xs ≤ depth)
    (rest : PyStr) :
    scanElements fuel depth (writeElements st xs ++ 93 :: rest) = .ok (xs, rest) := by
  obtain ⟨w, hcomma, hspace⟩ := hst.comma
  induction xs generalizing fuel with
  | nil => exact absurd rfl hne
  | cons x xs ih =>
    obtain ⟨fuel, rfl⟩ : ∃ k, fuel = k + 1 := ⟨fuel - 1, by omega⟩
    have hx : x.depth ≤ depth := (depth_le_of_mem List.mem_cons_self).trans hdepth
    have hread := hxs x List.mem_cons_self fuel depth
    cases xs with
    | nil =>
      rw [writeElements] at hfuel ⊢
      exact scanElements_last (hread _ (by omega) hx (ends_cons (.inr (.inl rfl))))
    | cons y xs =>
      have htext : writeElements st (x :: y :: xs) ++ 93 :: rest =
          x.write st ++ 44 :: (w ++ (writeElements st (y :: xs) ++ 93 :: rest)) := by
        rw [writeElements, hcomma]
        simp
      have hlen : (writeElements st (x :: y :: xs)).length =
          (x.write st).length + (w.length + 1) + (writeElements st (y :: xs)).length := by
        rw [writeElements, hcomma]
        simp
        omega
      have hskip : skipSpace (w ++ (writeElements st (y :: xs) ++ 93 :: rest)) =
          writeElements st (y :: xs) ++ 93 :: rest := by
        have hy := hfloat y (by simp)
        cases xs with
        | nil => exact skipSpace_write hspace hy _
        | cons z xs =>
          rw [writeElements, List.append_assoc, List.append_assoc]
          exact skipSpace_write hspace hy _
      have hdepth' : depthElements (y :: xs) ≤ depth := (le_max_right _ _).trans hdepth
      have htail : scanElements fuel depth (writeElements st (y :: xs) ++ 93 :: rest) =
          .ok (y :: xs, rest) :=
        ih (List.cons_ne_nil _ _) (fun z hz => hfloat z (List.mem_cons_of_mem _ hz))
          (fun z hz => hxs z (List.mem_cons_of_mem _ hz)) (by omega) hdepth'
      rw [htext, scanElements_next (hread _ (by omega) hx (ends_cons (.inl rfl))), hskip, htail]
      rfl

/-- The members of an object are read back, one after the other. -/
theorem scanMembers_write (hst : st.Reads p) {kvs : List (PyStr × Json)} (hne : kvs ≠ [])
    (hkeys : ∀ e ∈ kvs, p e.1) (hfloat : ∀ e ∈ kvs, ∀ f, e.2 ≠ .float f)
    (hkvs : ∀ e ∈ kvs, ReadsBack st e.2) {fuel depth : ℕ} {done : List (PyStr × Json)}
    (hnodup : ((done ++ kvs).map Prod.fst).Nodup)
    (hfuel : 2 * (writeMembers st kvs).length + 1 ≤ fuel) (hdepth : depthItems kvs ≤ depth)
    (rest : PyStr) :
    scanMembers fuel depth done (writeMembers st kvs ++ 125 :: rest) = .ok (done ++ kvs, rest) := by
  obtain ⟨w, hcomma, hspace⟩ := hst.comma
  obtain ⟨w', hcolon, hspace'⟩ := hst.colon
  induction kvs generalizing fuel done with
  | nil => exact absurd rfl hne
  | cons e kvs ih =>
    obtain ⟨k, v⟩ := e
    obtain ⟨fuel, rfl⟩ : ∃ k, fuel = k + 1 := ⟨fuel - 1, by omega⟩
    have hv : v.depth ≤ depth :=
      (le_max_left _ _ : v.depth ≤ depthItems ((k, v) :: kvs)).trans hdepth
    have hread : ReadsBack st v := hkvs (k, v) List.mem_cons_self
    have hstring := hst.string k (hkeys (k, v) List.mem_cons_self)
    have hvfloat : ∀ f, v ≠ .float f := hfloat (k, v) List.mem_cons_self
    have hset : dictSet done k v = done ++ [(k, v)] := by
      refine dictSet_of_not_mem fun hmem => ?_
      rw [List.map_append, List.nodup_append] at hnodup
      exact hnodup.2.2 k hmem k (by simp) rfl
    cases kvs with
    | nil =>
      have htext : writeMembers st [(k, v)] ++ 125 :: rest =
          34 :: (k.flatMap st.escape ++ 34 :: (58 :: (w' ++ (v.write st ++ 125 :: rest)))) := by
        rw [writeMembers, hcolon]
        simp
      have hlen : (v.write st).length ≤ (writeMembers st [(k, v)]).length := by
        rw [writeMembers]
        simp
        omega
      have hvalue : scanValue fuel depth (skipSpace (w' ++ (v.write st ++ 125 :: rest))) =
          .ok (v, 125 :: rest) := by
        rw [skipSpace_write hspace' hvfloat]
        exact hread fuel depth _ (by omega) hv (ends_cons (.inr (.inr rfl)))
      rw [htext, scanMembers_last (hstring _) hvalue, hset]
    | cons e' kvs =>
      have htext : writeMembers st ((k, v) :: e' :: kvs) ++ 125 :: rest =
          34 :: (k.flatMap st.escape ++ 34 :: (58 :: (w' ++ (v.write st ++
            44 :: (w ++ (writeMembers st (e' :: kvs) ++ 125 :: rest)))))) := by
        rw [writeMembers, hcolon, hcomma]
        simp
      have hlen : (v.write st).length + (writeMembers st (e' :: kvs)).length + 1 ≤
          (writeMembers st ((k, v) :: e' :: kvs)).length := by
        rw [writeMembers, hcomma]
        simp
        omega
      have hvalue : scanValue fuel depth (skipSpace (w' ++ (v.write st ++
          44 :: (w ++ (writeMembers st (e' :: kvs) ++ 125 :: rest))))) =
            .ok (v, 44 :: (w ++ (writeMembers st (e' :: kvs) ++ 125 :: rest))) := by
        rw [skipSpace_write hspace' hvfloat]
        exact hread fuel depth _ (by omega) hv (ends_cons (.inl rfl))
      have hskip : skipSpace (w ++ (writeMembers st (e' :: kvs) ++ 125 :: rest)) =
          writeMembers st (e' :: kvs) ++ 125 :: rest := by
        have hquote : ∃ t, writeMembers st (e' :: kvs) = 34 :: t := by
          obtain ⟨k', v'⟩ := e'
          cases kvs with
          | nil => exact ⟨_, rfl⟩
          | cons e'' kvs => exact ⟨_, rfl⟩
        obtain ⟨t, ht⟩ := hquote
        rw [skipSpace_append hspace, ht, List.cons_append]
        exact skipSpace_of_head rfl
      have hdepth' : depthItems (e' :: kvs) ≤ depth := (le_max_right _ _).trans hdepth
      have hnodup' : (((done ++ [(k, v)]) ++ e' :: kvs).map Prod.fst).Nodup := by
        rw [List.append_assoc]
        exact hnodup
      have htail : scanMembers fuel depth (done ++ [(k, v)])
          (writeMembers st (e' :: kvs) ++ 125 :: rest) =
            .ok ((done ++ [(k, v)]) ++ e' :: kvs, rest) :=
        ih (List.cons_ne_nil _ _) (fun x hx => hkeys x (List.mem_cons_of_mem _ hx))
          (fun x hx => hfloat x (List.mem_cons_of_mem _ hx))
          (fun x hx => hkvs x (List.mem_cons_of_mem _ hx)) hnodup' (by omega) hdepth'
      rw [htext, scanMembers_next (hstring _) hvalue, hset, hskip, htail, List.append_assoc]
      rfl

/-- **A value is read back** from the text that has been written for it. -/
theorem readsBack_write (hst : st.Reads p) {v : Json} (hv : v.Made (PlainLeaf p) p) :
    ReadsBack st v := by
  induction v using Json.ind with
  | null =>
    intro fuel depth rest hfuel _ _
    obtain ⟨fuel, rfl⟩ : ∃ k, fuel = k + 1 := ⟨fuel - 1, by
      have : (Json.null.write st).length = 4 := rfl
      omega⟩
    exact (scanValue_atom (by decide) (by decide) (by decide)).trans (scanAtom_null rest)
  | bool b =>
    intro fuel depth rest hfuel _ _
    obtain ⟨fuel, rfl⟩ : ∃ k, fuel = k + 1 := ⟨fuel - 1, by
      have : 4 ≤ ((Json.bool b).write st).length := by
        cases b with
        | true => exact (by decide : 4 ≤ (py "true").length)
        | false => exact (by decide : 4 ≤ (py "false").length)
      omega⟩
    cases b with
    | true => exact (scanValue_atom (by decide) (by decide) (by decide)).trans (scanAtom_true rest)
    | false =>
      exact (scanValue_atom (by decide) (by decide) (by decide)).trans (scanAtom_false rest)
  | int n =>
    intro fuel depth rest hfuel _ hrest
    have hlen : (natRepr 10 n.natAbs).length ≤ maxStrDigits := by
      cases hv with
      | int h => exact h
    have hatom := scanAtom_intRepr hlen hrest
    have hhead : ∃ c t, intRepr n = c :: t ∧ c ≠ 34 ∧ c ≠ 123 ∧ c ≠ 91 := by
      cases n with
      | ofNat n =>
        obtain ⟨c, cs, heq, -⟩ := natRepr_eq_cons n
        have hdigit : isDigit c = true := isDigit_of_mem_natRepr (heq ▸ List.mem_cons_self)
        have hbound : 48 ≤ c ∧ c ≤ 57 := by simpa [isDigit] using hdigit
        exact ⟨c, cs, heq, by omega, by omega, by omega⟩
      | negSucc n => exact ⟨45, natRepr 10 (n + 1), rfl, by decide⟩
    obtain ⟨c, t, heq, h₁, h₂, h₃⟩ := hhead
    rw [Json.write, heq] at hfuel ⊢
    rw [heq] at hatom
    obtain ⟨fuel, rfl⟩ : ∃ k, fuel = k + 1 := ⟨fuel - 1, by
      rw [List.length_cons] at hfuel
      omega⟩
    exact (scanValue_atom h₁ h₂ h₃).trans hatom
  | float f => exact absurd rfl (hv.not_float f)
  | str s =>
    intro fuel depth rest hfuel _ _
    have hs : p s := by
      cases hv with
      | str h => exact h
    have htext : (Json.str s).write st ++ rest = 34 :: (s.flatMap st.escape ++ 34 :: rest) := by
      rw [Json.write]
      simp
    obtain ⟨fuel, rfl⟩ : ∃ k, fuel = k + 1 := ⟨fuel - 1, by
      rw [Json.write] at hfuel
      simp at hfuel
      omega⟩
    rw [htext, scanValue.eq_2, hst.string s hs]
    rfl
  | arr xs ih =>
    intro fuel depth rest hfuel hdepth _
    have hmade : ∀ x ∈ xs, x.Made (PlainLeaf p) p := by
      cases hv with
      | arr h => exact h
    have htext : (Json.arr xs).write st ++ rest = 91 :: (writeElements st xs ++ 93 :: rest) := by
      rw [Json.write]
      simp
    have hlen : ((Json.arr xs).write st).length = (writeElements st xs).length + 2 := by
      rw [Json.write]
      simp
    obtain ⟨fuel, rfl⟩ : ∃ k, fuel = k + 1 := ⟨fuel - 1, by omega⟩
    rw [Json.depth] at hdepth
    obtain ⟨depth, rfl⟩ : ∃ k, depth = k + 1 := ⟨depth - 1, by omega⟩
    rw [htext]
    cases xs with
    | nil =>
      rw [scanValue.eq_6]
      rfl
    | cons x xs =>
      have hfloat : ∀ y ∈ x :: xs, ∀ f, y ≠ .float f := fun y hy => (hmade y hy).not_float
      have hstart : ∃ c t, writeElements st (x :: xs) ++ 93 :: rest = c :: t ∧
          isJsonSpace c = false ∧ c ≠ 93 := by
        obtain ⟨c, t, heq, hspace, hne, -⟩ := write_head st x (hfloat x List.mem_cons_self)
        cases xs with
        | nil => exact ⟨c, t ++ 93 :: rest, by rw [writeElements, heq]; rfl, hspace, hne⟩
        | cons y xs =>
          refine ⟨c, t ++ st.comma ++ writeElements st (y :: xs) ++ 93 :: rest, ?_, hspace, hne⟩
          rw [writeElements, heq]
          rfl
      obtain ⟨c, t, heq, hspace, hne⟩ := hstart
      have hskip : skipSpace (writeElements st (x :: xs) ++ 93 :: rest) =
          writeElements st (x :: xs) ++ 93 :: rest := by
        rw [heq]
        exact skipSpace_of_head hspace
      have hopen : ∀ r, skipSpace (writeElements st (x :: xs) ++ 93 :: rest) ≠ 93 :: r := by
        intro r hr
        rw [hskip, heq] at hr
        exact hne (List.cons.inj hr).1
      have helements : scanElements fuel depth (writeElements st (x :: xs) ++ 93 :: rest) =
          .ok (x :: xs, rest) :=
        scanElements_write hst (List.cons_ne_nil x xs) hfloat (fun y hy => ih y hy (hmade y hy))
          (by omega) (by omega) rest
      rw [scanValue_arr hopen, hskip, helements]
      rfl
  | obj kvs ih =>
    intro fuel depth rest hfuel hdepth _
    obtain ⟨hnodup, hkeys, hmade⟩ : (kvs.map Prod.fst).Nodup ∧ (∀ e ∈ kvs, p e.1) ∧
        ∀ e ∈ kvs, e.2.Made (PlainLeaf p) p := by
      cases hv with
      | obj h₁ h₂ h₃ => exact ⟨h₁, h₂, h₃⟩
    have htext : (Json.obj kvs).write st ++ rest = 123 :: (writeMembers st kvs ++ 125 :: rest) := by
      rw [Json.write]
      simp
    have hlen : ((Json.obj kvs).write st).length = (writeMembers st kvs).length + 2 := by
      rw [Json.write]
      simp
    obtain ⟨fuel, rfl⟩ : ∃ k, fuel = k + 1 := ⟨fuel - 1, by omega⟩
    rw [Json.depth] at hdepth
    obtain ⟨depth, rfl⟩ : ∃ k, depth = k + 1 := ⟨depth - 1, by omega⟩
    rw [htext]
    cases kvs with
    | nil =>
      rw [scanValue.eq_4]
      rfl
    | cons e kvs =>
      have hquote : ∃ t, writeMembers st (e :: kvs) ++ 125 :: rest = 34 :: t := by
        obtain ⟨k, v⟩ := e
        cases kvs with
        | nil => exact ⟨_, rfl⟩
        | cons e' kvs => exact ⟨_, rfl⟩
      obtain ⟨t, heq⟩ := hquote
      have hskip : skipSpace (writeMembers st (e :: kvs) ++ 125 :: rest) =
          writeMembers st (e :: kvs) ++ 125 :: rest := by
        rw [heq]
        exact skipSpace_of_head rfl
      have hopen : ∀ r, skipSpace (writeMembers st (e :: kvs) ++ 125 :: rest) ≠ 125 :: r := by
        intro r hr
        rw [hskip, heq] at hr
        exact absurd (List.cons.inj hr).1 (by decide)
      have hmembers : scanMembers fuel depth [] (writeMembers st (e :: kvs) ++ 125 :: rest) =
          .ok ([] ++ e :: kvs, rest) :=
        scanMembers_write hst (List.cons_ne_nil e kvs) hkeys
          (fun x hx => (hmade x hx).not_float) (fun x hx => ih x hx (hmade x hx)) hnodup (by omega)
          (by omega) rest
      rw [scanValue_obj hopen, hskip, hmembers]
      rfl

/-- `json.loads` undoes `json.dumps`, for a value that is no float. -/
theorem loads_write (hst : st.Reads p) {v : Json} (hv : v.Made (PlainLeaf p) p) {limit : ℕ}
    (hlimit : v.depth ≤ limit) : loads limit (v.write st) = .ok v := by
  obtain ⟨c, t, heq, hspace, -, hascii⟩ := write_head st v hv.not_float
  have hskip : skipSpace (v.write st) = v.write st := by
    rw [heq]
    exact skipSpace_of_head hspace
  have hread : scanValue (2 * (v.write st).length + 2) limit (v.write st) = .ok (v, []) := by
    have h := readsBack_write hst hv (2 * (v.write st).length + 2) limit [] (by omega) hlimit
      ends_nil
    rwa [List.append_nil] at h
  have hbom : ∀ t, v.write st ≠ 0xFEFF :: t := by
    intro t' ht'
    rw [heq] at ht'
    have hfirst := (List.cons.inj ht').1
    omega
  unfold loads
  split
  next t' ht' => exact absurd ht' (hbom t')
  · rw [hskip, hread]
    rfl

end Write

end Py
