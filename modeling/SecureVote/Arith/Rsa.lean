import Mathlib.FieldTheory.Finite.Basic

/-!
# RSA

The two exponents of an RSA key undo each other on all residues. Where two exponents do so, a
blinded element hides what is under it: for every invertible element there is one factor that blinds
it to the given one, and what is signed under a factor is unblinded by its inverse.
-/

namespace Rsa

/-! ### Blinding -/

section Blinding

variable {M : Type*} [CommMonoid M] {e d : ℕ}

theorem pow_injective (hpow : ∀ x : M, (x ^ e) ^ d = x) : Function.Injective fun x : M => x ^ e :=
  fun x y hxy => (hpow x).symm.trans ((congrArg (· ^ d) hxy).trans (hpow y))

/-- One factor blinds an invertible `h` to `b`. -/
theorem existsUnique_blinding (hpow : ∀ x : M, (x ^ e) ^ d = x) {h h' : M} (hinv : h * h' = 1)
    (b : M) : ∃! r, b = h * r ^ e := by
  have hroot : ((b * h') ^ d) ^ e = b * h' := by rw [pow_right_comm, hpow]
  refine ⟨(b * h') ^ d, ?_, fun r hr => pow_injective hpow ?_⟩
  · dsimp only
    rw [hroot, mul_left_comm, hinv, mul_one]
  · dsimp only
    rw [hroot, hr, mul_right_comm, hinv, one_mul]

/-- The inverse of the factor unblinds what is signed under it to the signature on `h`. -/
theorem unblinded_eq (hpow : ∀ x : M, (x ^ e) ^ d = x) {h r x s : M} (hx : r * x = 1)
    (hs : s ^ e = h) : (h * r ^ e) ^ d * x = s := by
  rw [mul_pow, hpow, ← hs, hpow, mul_assoc, hx, mul_one]

/-- An unblinded signature verifies. -/
theorem unblinded_pow (hpow : ∀ x : M, (x ^ e) ^ d = x) {h r x : M} (hx : r * x = 1) :
    ((h * r ^ e) ^ d * x) ^ e = h := by
  rw [mul_pow, pow_right_comm, hpow, mul_assoc, ← mul_pow, hx, one_pow, mul_one]

end Blinding

/-! ### Keys -/

/-- Fermat's little theorem, for an exponent that is 1 modulo `p - 1`. -/
theorem pow_eq_self {p k : ℕ} [Fact p.Prime] (hk : k ≠ 0) (hmod : k ≡ 1 [MOD p - 1])
    (x : ZMod p) : x ^ k = x := by
  obtain ⟨t, ht⟩ : p - 1 ∣ k - 1 :=
    (Nat.modEq_iff_dvd' (Nat.one_le_iff_ne_zero.mpr hk)).mp hmod.symm
  have hsplit : k = (p - 1) * t + 1 := by omega
  rcases eq_or_ne x 0 with rfl | hx
  · exact zero_pow hk
  · rw [hsplit, pow_succ, pow_mul, ZMod.pow_card_sub_one_eq_one hx, one_pow, one_mul]

/-- An RSA key with its prime factors. -/
structure Key where
  p : ℕ
  q : ℕ
  e : ℕ
  d : ℕ
  p_prime : p.Prime
  q_prime : q.Prime
  p_ne_q : p ≠ q
  inverse : e * d ≡ 1 [MOD Nat.lcm (p - 1) (q - 1)]

namespace Key

variable (K : Key)

/-- The modulus. -/
def n : ℕ := K.p * K.q

theorem two_lt_n : 2 < K.n := by
  have hle : 2 * 2 ≤ K.p * K.q := Nat.mul_le_mul K.p_prime.two_le K.q_prime.two_le
  rw [n]
  omega

instance : NeZero K.n := ⟨(two_pos.trans K.two_lt_n).ne'⟩

/-- The factors are not both 2, so the exponents are not zero. -/
theorem e_mul_d_ne_zero : K.e * K.d ≠ 0 := by
  intro hzero
  have hmod : 0 ≡ 1 [MOD Nat.lcm (K.p - 1) (K.q - 1)] := hzero ▸ K.inverse
  have hlcm : Nat.lcm (K.p - 1) (K.q - 1) ∣ 1 := Nat.modEq_zero_iff_dvd.mp hmod.symm
  have hp : K.p - 1 = 1 := Nat.dvd_one.mp ((Nat.dvd_lcm_left _ _).trans hlcm)
  have hq : K.q - 1 = 1 := Nat.dvd_one.mp ((Nat.dvd_lcm_right _ _).trans hlcm)
  exact K.p_ne_q (by omega)

theorem e_ne_zero : K.e ≠ 0 := left_ne_zero_of_mul K.e_mul_d_ne_zero

/-- The exponents undo each other modulo the product of the two primes. -/
theorem pow_modEq (x : ℕ) : x ^ (K.e * K.d) ≡ x [MOD K.n] := by
  have hfactor : ∀ r : ℕ, r.Prime → r - 1 ∣ Nat.lcm (K.p - 1) (K.q - 1) →
      x ^ (K.e * K.d) ≡ x [MOD r] := by
    intro r hr hdvd
    have : Fact r.Prime := ⟨hr⟩
    rw [← ZMod.natCast_eq_natCast_iff, Nat.cast_pow]
    exact pow_eq_self K.e_mul_d_ne_zero (K.inverse.of_dvd hdvd) _
  exact (Nat.modEq_and_modEq_iff_modEq_mul
    ((Nat.coprime_primes K.p_prime K.q_prime).mpr K.p_ne_q)).mp
      ⟨hfactor _ K.p_prime (Nat.dvd_lcm_left _ _), hfactor _ K.q_prime (Nat.dvd_lcm_right _ _)⟩

theorem pow_pow (x : ZMod K.n) : (x ^ K.e) ^ K.d = x := by
  have hval : ((x.val : ℕ) : ZMod K.n) = x := ZMod.natCast_zmod_val x
  rw [← pow_mul, ← hval, ← Nat.cast_pow, ZMod.natCast_eq_natCast_iff]
  exact K.pow_modEq _

end Key

end Rsa
