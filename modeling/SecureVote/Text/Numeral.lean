import SecureVote.Text.PyStr
import Mathlib.Data.Nat.Digits.Lemmas

/-!
# Printing and reading numerals

What `int` reads from the text that `str` and `hex` print.
-/

namespace Py

/-! ### Digits -/

theorem digit_digitChar {base d : ℕ} (hb : base ≤ 16) (hd : d < base) :
    digit base (digitChar d) = some d := by
  have hvalue : ∀ d < 16, digitValue (digitChar d) = some d := by decide
  rw [digit, hvalue d (hd.trans_le hb)]
  simp [hd]

/-- The printed digits are decimal digits or lower-case letters up to `f`. -/
theorem isNumeral_digitChar : ∀ d < 16, isSpace (digitChar d) = false ∧ digitChar d ≠ 95 ∧
    digitChar d ≠ 45 ∧ digitChar d ≠ 43 ∧ digitChar d < 0x80 := by decide

theorem scanDigits_map {base : ℕ} (hb : base ≤ 16) {ds : List ℕ} (hds : ∀ d ∈ ds, d < base)
    (acc : ℕ) : scanDigits base acc (ds.map digitChar) =
      some (ds.foldl (fun a d => a * base + d) acc) := by
  induction ds generalizing acc with
  | nil => rfl
  | cons d ds ih =>
    have hd : d < base := hds d List.mem_cons_self
    have hne : digitChar d ≠ 95 := (isNumeral_digitChar d (hd.trans_le hb)).2.1
    rw [List.map_cons, scanDigits.eq_4 _ _ _ _ (fun h => absurd h hne) (fun _ _ h => absurd h hne),
      digit_digitChar hb hd]
    exact ih (fun x hx => hds x (List.mem_cons_of_mem _ hx)) _

theorem scanNat_map {base : ℕ} (hb : base ≤ 16) {ds : List ℕ} (hds : ∀ d ∈ ds, d < base)
    (hne : ds ≠ []) : scanNat base (ds.map digitChar) =
      some (ds.foldl (fun a d => a * base + d) 0) := by
  rcases ds with _ | ⟨d, ds⟩
  · exact absurd rfl hne
  · rw [List.map_cons, scanNat, digit_digitChar hb (hds d List.mem_cons_self), List.foldl_cons,
      Nat.zero_mul, Nat.zero_add]
    exact scanDigits_map hb (fun x hx => hds x (List.mem_cons_of_mem _ hx)) d

theorem foldl_eq_ofDigits (base : ℕ) (ds : List ℕ) :
    ds.foldl (fun a d => a * base + d) 0 = Nat.ofDigits base ds.reverse := by
  rw [Nat.ofDigits_eq_foldr, List.foldr_reverse]
  refine congrFun (congrFun (congrArg List.foldl (funext₂ fun a d => ?_)) 0) ds
  rw [Nat.mul_comm, Nat.add_comm]
  rfl

/-! ### Numerals -/

/-- The digits of a number as printed, most significant first. -/
def numeralDigits (base n : ℕ) : List ℕ := if n = 0 then [0] else (Nat.digits base n).reverse

theorem natRepr_eq (base n : ℕ) : natRepr base n = (numeralDigits base n).map digitChar := by
  unfold natRepr numeralDigits
  split <;> rfl

theorem numeralDigits_ne_nil (base n : ℕ) : numeralDigits base n ≠ [] := by
  unfold numeralDigits
  split
  · exact List.cons_ne_nil _ _
  next h => simpa using Nat.digits_ne_nil_iff_ne_zero.mpr h

theorem lt_of_mem_numeralDigits {base n d : ℕ} (hb : 1 < base) (hd : d ∈ numeralDigits base n) :
    d < base := by
  unfold numeralDigits at hd
  split at hd
  · rw [List.mem_singleton.mp hd]
    omega
  · exact Nat.digits_lt_base hb (List.mem_reverse.mp hd)

theorem foldl_numeralDigits (base n : ℕ) :
    (numeralDigits base n).foldl (fun a d => a * base + d) 0 = n := by
  rw [foldl_eq_ofDigits]
  unfold numeralDigits
  split
  next h => simp [h]
  · rw [List.reverse_reverse, Nat.ofDigits_digits]

/-- A printed numeral reads back as its number. -/
theorem scanNat_natRepr {base : ℕ} (h₁ : 1 < base) (h₂ : base ≤ 16) (n : ℕ) :
    scanNat base (natRepr base n) = some n := by
  rw [natRepr_eq, scanNat_map h₂ (fun d hd => lt_of_mem_numeralDigits h₁ hd)
    (numeralDigits_ne_nil base n), foldl_numeralDigits]

theorem mem_natRepr {base n c : ℕ} (h₁ : 1 < base) (hc : c ∈ natRepr base n) :
    ∃ d < base, c = digitChar d := by
  rw [natRepr_eq] at hc
  obtain ⟨d, hd, rfl⟩ := List.mem_map.mp hc
  exact ⟨d, lt_of_mem_numeralDigits h₁ hd, rfl⟩

theorem length_natRepr_le {n k : ℕ} (hk : 0 < k) (hn : n < 10 ^ k) :
    (natRepr 10 n).length ≤ k := by
  rw [natRepr_eq, List.length_map, numeralDigits]
  split
  · exact hk
  · rw [List.length_reverse]
    exact (Nat.digits_length_le_iff (by decide) n).mpr hn

/-! ### `int` of a printed number -/

theorem strip_eq_self {s : PyStr} (h : ∀ c ∈ s, isSpace c = false) : strip s = s := by
  have hdrop : ∀ l : PyStr, (∀ c ∈ l, isSpace c = false) → l.dropWhile isSpace = l := by
    intro l hl
    rcases l with _ | ⟨c, cs⟩
    · rfl
    · rw [List.dropWhile_cons, hl c List.mem_cons_self]
      rfl
  rw [strip, hdrop s h, hdrop _ fun c hc => h c (List.mem_reverse.mp hc), List.reverse_reverse]

/-- `int` of text without spaces and signs. -/
theorem int_of_unsigned {base : ℕ} {s : PyStr} (hs : ∀ c ∈ s, isSpace c = false)
    (hhead : ∀ c cs, s = c :: cs → c ≠ 45 ∧ c ≠ 43) :
    int base s = (scanMagnitude base s).map Int.ofNat := by
  rw [int, strip_eq_self hs]
  split
  next cs => exact absurd rfl (hhead 45 cs rfl).1
  next cs => exact absurd rfl (hhead 43 cs rfl).2
  · rfl

theorem int_natRepr {base : ℕ} (h₁ : 1 < base) (h₂ : base ≤ 16) (n : ℕ) :
    int base (natRepr base n) = (scanMagnitude base (natRepr base n)).map Int.ofNat := by
  refine int_of_unsigned (fun c hc => ?_) fun c cs hs => ?_
  · obtain ⟨d, hd, rfl⟩ := mem_natRepr h₁ hc
    exact (isNumeral_digitChar d (hd.trans_le h₂)).1
  · obtain ⟨d, hd, rfl⟩ := mem_natRepr h₁ (hs ▸ List.mem_cons_self)
    exact ⟨(isNumeral_digitChar d (hd.trans_le h₂)).2.2.1,
      (isNumeral_digitChar d (hd.trans_le h₂)).2.2.2.1⟩

theorem dropPrefix16_eq_self {s : PyStr} (h : ∀ c ∈ s, c ≠ 120 ∧ c ≠ 88) : dropPrefix16 s = s := by
  unfold dropPrefix16
  split
  · exact absurd rfl (h 120 (by simp)).1
  · exact absurd rfl (h 88 (by simp)).2
  · exact absurd rfl (h 120 (by simp)).1
  · exact absurd rfl (h 88 (by simp)).2
  · rfl

/-- `int(text, 16)` of hexadecimal digits. -/
theorem int_map_digitChar {ds : List ℕ} (hds : ∀ d ∈ ds, d < 16) (hne : ds ≠ []) :
    int 16 (ds.map digitChar) = some (Int.ofNat (ds.foldl (fun a d => a * 16 + d) 0)) := by
  have hchar : ∀ d < 16, digitChar d ≠ 120 ∧ digitChar d ≠ 88 := by decide
  have hprefix : dropPrefix16 (ds.map digitChar) = ds.map digitChar := by
    refine dropPrefix16_eq_self fun c hc => ?_
    obtain ⟨d, hd, rfl⟩ := List.mem_map.mp hc
    exact hchar d (hds d hd)
  rw [int_of_unsigned, scanMagnitude, if_pos rfl, hprefix, scanNat_map (by decide) hds hne]
  · rfl
  · intro c hc
    obtain ⟨d, hd, rfl⟩ := List.mem_map.mp hc
    exact (isNumeral_digitChar d (hds d hd)).1
  · intro c cs hs
    obtain ⟨d, hd, rfl⟩ := List.mem_map.mp (hs ▸ List.mem_cons_self : c ∈ ds.map digitChar)
    exact ⟨(isNumeral_digitChar d (hds d hd)).2.2.1, (isNumeral_digitChar d (hds d hd)).2.2.2.1⟩

/-- `int(str(n))` is `n`, unless `n` is too long to be read. -/
theorem eq_of_int_natRepr {n : ℕ} {z : ℤ} (h : int 10 (natRepr 10 n) = some z) : z = n := by
  rw [int_natRepr (by decide) (by decide)] at h
  obtain ⟨m, hm, rfl⟩ := Option.map_eq_some_iff.mp h
  rw [scanMagnitude, if_neg (by decide)] at hm
  split at hm
  · cases hm
  · rw [scanNat_natRepr (by decide) (by decide)] at hm
    cases hm
    rfl

/-! ### Numbers without leading zeros -/

/-- A decimal text, from its digits. -/
theorem map_digitChar_sub {s : PyStr} (h : ∀ c ∈ s, 48 ≤ c ∧ c ≤ 57) :
    (s.map (· - 48)).map digitChar = s := by
  have hchar : ∀ c ∈ s, digitChar (c - 48) = c := by
    intro c hc
    obtain ⟨hle, hge⟩ := h c hc
    rw [digitChar, if_pos (by omega)]
    omega
  rw [List.map_map, List.map_congr_left (f := digitChar ∘ (· - 48)) (g := id) hchar, List.map_id]

/-- Reading further digits does not make a number smaller. -/
theorem le_foldl_digits (ds : List ℕ) (acc : ℕ) :
    acc ≤ ds.foldl (fun a d => a * 10 + d) acc := by
  induction ds generalizing acc with
  | nil => exact Nat.le_refl acc
  | cons d ds ih =>
    have hstep : acc ≤ acc * 10 + d := by omega
    exact hstep.trans (ih _)

/-- A decimal text that does not start with a zero denotes a positive number. -/
theorem one_le_of_int {c : ℕ} {cs : PyStr} {n : ℤ} (hc : c ≠ 48)
    (hdigits : ∀ d ∈ c :: cs, 48 ≤ d ∧ d ≤ 57) (h : int 10 (c :: cs) = some n) : 1 ≤ n := by
  have hc9 : 48 ≤ c ∧ c ≤ 57 := hdigits c List.mem_cons_self
  have hspace : ∀ d ∈ c :: cs, isSpace d = false := by
    intro d hd
    obtain ⟨hle, hge⟩ := hdigits d hd
    have hall : ∀ k < 10, isSpace (48 + k) = false := by decide
    have := hall (d - 48) (by omega)
    rwa [Nat.add_sub_cancel' hle] at this
  rw [int_of_unsigned hspace fun d ds hds => by cases hds; omega] at h
  obtain ⟨m, hm, rfl⟩ := Option.map_eq_some_iff.mp h
  rw [scanMagnitude, if_neg (by decide)] at hm
  split at hm
  · cases hm
  · rw [← map_digitChar_sub hdigits, scanNat_map (by decide) (fun d hd => ?_) (by simp)] at hm
    · cases hm
      have hge := le_foldl_digits (cs.map (· - 48)) (c - 48)
      simp only [List.map_cons, List.foldl_cons, Nat.zero_mul, Nat.zero_add, Int.ofNat_eq_natCast]
      omega
    · obtain ⟨e, he, rfl⟩ := List.mem_map.mp hd
      have := hdigits e he
      omega

/-! ### Hexadecimal octets -/

/-- `bytes.fromhex` reads back what `bytes.hex` writes. -/
theorem fromHex_bytesHex (bs : List UInt8) : fromHex (bytesHex bs) = some bs := by
  have hdigit : ∀ d < 16, hexValue (digitChar d) = some d ∧ isAsciiSpace (digitChar d) = false := by
    decide
  induction bs with
  | nil => rfl
  | cons b bs ih =>
    have hlt : b.toNat < 256 := b.toNat_lt
    obtain ⟨hhigh, hspace⟩ := hdigit (b.toNat / 16) (by omega)
    obtain ⟨hlow, -⟩ := hdigit (b.toNat % 16) (by omega)
    have hoctet : UInt8.ofNat (16 * (b.toNat / 16) + b.toNat % 16) = b := by
      rw [Nat.div_add_mod, UInt8.ofNat_toNat]
    have hcons : bytesHex (b :: bs) =
        digitChar (b.toNat / 16) :: digitChar (b.toNat % 16) :: bytesHex bs := rfl
    rw [hcons, fromHex, hspace, hhigh, hlow, ih]
    simp only [Bool.false_eq_true, if_false, Option.map_some, hoctet]

end Py
