import Mathlib.Data.Int.GCD
import Mathlib.Data.Int.ModEq
import Mathlib.Algebra.Group.Basic
import Mathlib.Tactic.Ring

/-!
# Residues

One round of square-and-multiply, one round of the extended Euclidean algorithm, and the least
residue by division that truncates.
-/

namespace Residue

/-! ### Powers -/

/-- A round of square-and-multiply keeps the product of the accumulator with the power that is
left. -/
theorem mul_pow_half {M : Type*} [CommMonoid M] (x b : M) (e : ℕ) :
    (if e % 2 = 1 then x * b else x) * (b * b) ^ (e / 2) = x * b ^ e := by
  have hsquare : (b * b) ^ (e / 2) = b ^ (2 * (e / 2)) := by rw [pow_mul, sq]
  rw [hsquare]
  split_ifs with hodd
  · have he : 2 * (e / 2) + 1 = e := by omega
    rw [mul_assoc, ← pow_succ', he]
  · have he : 2 * (e / 2) = e := by omega
    rw [he]

/-! ### The rows of the extended Euclidean algorithm -/

section Rows

variable {a m r s r' s' : ℤ}

/-- Two rows with `r = a * s` and `r' = a * s'` up to multiples of the modulus give a third. -/
theorem row_sub_mul (h : r ≡ a * s [ZMOD m]) (h' : r' ≡ a * s' [ZMOD m]) (q : ℤ) :
    r - q * r' ≡ a * (s - q * s') [ZMOD m] := by
  have hring : a * s - q * (a * s') = a * (s - q * s') := by ring
  exact hring ▸ h.sub (h'.mul_left q)

/-- The divisor and the remainder have the divisors of the dividend and the divisor. -/
theorem gcd_sub_mul (r r' q : ℤ) : Int.gcd r' (r - q * r') = Int.gcd r r' := by
  rw [Int.gcd_sub_mul_right_right, Int.gcd_comm]

/-- What a round leaves is the remainder by division that truncates. -/
theorem sub_tdiv_mul (r r' : ℤ) : r - r.tdiv r' * r' = r.tmod r' := by
  rw [Int.tdiv_mul_self, sub_sub_cancel]

theorem natAbs_tmod_lt (r : ℤ) (h : r' ≠ 0) : (r.tmod r').natAbs < r'.natAbs := by
  rw [Int.natAbs_tmod]
  exact Nat.mod_lt _ (Int.natAbs_pos.mpr h)

/-- Among the least residues there is one inverse at most. -/
theorem inverse_unique {x y : ℤ} (ha : Int.gcd a m = 1) (hx : 0 ≤ x ∧ x < m)
    (hy : 0 ≤ y ∧ y < m) (hxy : a * x ≡ a * y [ZMOD m]) : x = y := by
  have hgcd : Int.gcd m a = 1 := Int.gcd_comm a m ▸ ha
  have hmod : x ≡ y [ZMOD m] := by
    have hcancel := Int.ModEq.cancel_left_div_gcd (hx.1.trans_lt hx.2) hxy
    rwa [hgcd, Nat.cast_one, Int.ediv_one] at hcancel
  have hreduced : x % m = y % m := hmod
  rwa [Int.emod_eq_of_lt hx.1 hx.2, Int.emod_eq_of_lt hy.1 hy.2] at hreduced

end Rows

/-! ### Least residues -/

/-- A negative remainder is brought into range by adding the modulus. -/
theorem tmod_add_tmod (a : ℤ) {m : ℤ} (hm : 0 < m) : (a.tmod m + m).tmod m = a % m := by
  have hlow : -m < a.tmod m := Int.lt_tmod_of_pos a hm
  have hnonneg : 0 ≤ a.tmod m + m := by omega
  rw [Int.tmod_eq_emod_of_nonneg hnonneg, Int.add_emod_right, Int.tmod_def,
    Int.sub_mul_emod_self_left]

end Residue
