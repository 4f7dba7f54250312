import SecureVote.Client.BlindVote

/-!
# The number theory of the voting client

`modPow` keeps `result * base ^ exp` up to multiples of the modulus (`PowInv`), and the exponent
shrinks. `modInverse` keeps, for each of the last two remainders, a coefficient of `a` that gives it
up to multiples of the modulus (`RowInv`), and the second remainder shrinks. The inverse is right
because the last remainder is the greatest common divisor and not its negative; for that `a` must
not be negative.
-/

namespace SecureVote

namespace BlindVote

open Loop Comp Js

/-! ### Exponentiation -/

/-- What the loop of `modPow` keeps on its way to a residue of `target`. -/
structure PowInv (target mod : ℤ) (v : ModPowVars) : Prop where
  product : v.result * v.base ^ v.exp.toNat ≡ target [ZMOD mod]
  result_range : 0 ≤ v.result ∧ v.result < mod
  base_nonneg : 0 ≤ v.base

/-- What a round of `modPow` computes. -/
theorem returns_modPowRound {mod base result : ℤ} (hmod : 0 < mod) (hresult : 0 ≤ result)
    (hbase : 0 ≤ base) (e : ℕ) :
    (modPowRound mod ⟨base, result, e⟩).Returns
      ⟨base * base % mod, if e % 2 = 1 then result * base % mod else result, (e / 2 : ℕ)⟩ := by
  have hsquare : (rem (base * base) mod).Returns (base * base % mod) :=
    returns_rem_of_nonneg (Int.mul_nonneg hbase hbase) hmod
  have hresult : (if bitAnd e 1 ≠ 0 then rem (result * base) mod else pure result).Returns
      (if e % 2 = 1 then result * base % mod else result) := by
    rw [bitAnd_one]
    split_ifs with hbit hodd hodd
    · exact returns_rem_of_nonneg (Int.mul_nonneg hresult hbase) hmod
    · omega
    · omega
    · exact returns_pure result
  refine hresult.bind (hsquare.bind ?_)
  rw [shiftRight_one]
  exact returns_pure _

theorem PowInv.round {target mod : ℤ} {v : ModPowVars} (hmod : 0 < mod) (h : PowInv target mod v)
    (hexp : 0 < v.exp) :
    ∃ w, (modPowRound mod v).Returns w ∧ PowInv target mod w ∧ w.exp.toNat < v.exp.toNat := by
  obtain ⟨base, result, exp⟩ := v
  obtain ⟨e, rfl⟩ := Int.eq_ofNat_of_zero_le hexp.le
  have hpos : 0 < e := Int.natCast_pos.mp hexp
  refine ⟨_, returns_modPowRound hmod h.result_range.1 h.base_nonneg e, ⟨?_, ?_, ?_⟩, ?_⟩
  · have hmul : (if e % 2 = 1 then result * base % mod else result) ≡
        if e % 2 = 1 then result * base else result [ZMOD mod] := by
      split_ifs
      · exact Int.mod_modEq _ _
      · exact Int.ModEq.rfl
    have hpow : (base * base % mod) ^ (e / 2) ≡ (base * base) ^ (e / 2) [ZMOD mod] :=
      (Int.mod_modEq _ _).pow _
    calc (if e % 2 = 1 then result * base % mod else result) * (base * base % mod) ^ (e / 2)
        ≡ (if e % 2 = 1 then result * base else result) * (base * base) ^ (e / 2) [ZMOD mod] :=
          hmul.mul hpow
      _ = result * base ^ e := Residue.mul_pow_half result base e
      _ ≡ target [ZMOD mod] := h.product
  · split_ifs
    · exact ⟨Int.emod_nonneg _ hmod.ne', Int.emod_lt_of_pos _ hmod⟩
    · exact h.result_range
  · exact Int.emod_nonneg _ hmod.ne'
  · exact Nat.div_lt_self hpos one_lt_two

/-- `modPow` returns the least residue of the power. -/
theorem returns_modPow (base : ℤ) {exp mod : ℤ} (hmod : 1 < mod) :
    (modPow base exp mod).Returns (base ^ exp.toNat % mod) := by
  have hpos : 0 < mod := one_pos.trans hmod
  have hinit : PowInv (base ^ exp.toNat) mod ⟨base % mod, 1, exp⟩ := by
    refine ⟨?_, ⟨zero_le_one, hmod⟩, Int.emod_nonneg _ hpos.ne'⟩
    rw [one_mul]
    exact (Int.mod_modEq base mod).pow _
  obtain ⟨v, hloop, hv, hexit⟩ : ∃ v,
      (whileDo modPowTest (modPowRound mod) ⟨base % mod, 1, exp⟩).Returns v ∧
        PowInv (base ^ exp.toNat) mod v ∧ modPowTest v = false :=
    returns_whileDo (fun v => v.exp.toNat)
      (fun v hv htest => hv.round hpos (of_decide_eq_true htest)) hinit
  have hexp : v.exp.toNat = 0 := Int.toNat_of_nonpos (not_lt.mp (of_decide_eq_false hexit))
  have hresult : v.result = base ^ exp.toNat % mod := by
    have hproduct : v.result ≡ base ^ exp.toNat [ZMOD mod] := by
      simpa only [hexp, pow_zero, mul_one] using hv.product
    exact (Int.emod_eq_of_lt hv.result_range.1 hv.result_range.2).symm.trans hproduct
  rw [← hresult]
  exact (returns_rem base hpos.ne').bind (((Residue.tmod_add_tmod base hpos).symm ▸
    returns_rem (base.tmod mod + mod) hpos.ne').bind (hloop.bind (returns_pure _)))

/-! ### Inversion -/

/-- What the loop of `modInverse` keeps. -/
structure RowInv (a m : ℤ) (v : ModInverseVars) : Prop where
  oldRow : v.oldR ≡ a * v.oldS [ZMOD m]
  row : v.r ≡ a * v.s [ZMOD m]
  gcd_eq : Int.gcd v.oldR v.r = Int.gcd a m
  nonneg : 0 ≤ a → 0 ≤ v.oldR ∧ 0 ≤ v.r

/-- What a round of `modInverse` computes. -/
theorem returns_modInverseRound {v : ModInverseVars} (hr : v.r ≠ 0) :
    (modInverseRound v).Returns
      ⟨v.r, v.oldR - v.oldR.tdiv v.r * v.r, v.s, v.oldS - v.oldR.tdiv v.r * v.s⟩ :=
  (returns_div v.oldR hr).bind (returns_pure _)

theorem RowInv.round {a m : ℤ} {v : ModInverseVars} (h : RowInv a m v) (hr : v.r ≠ 0) :
    ∃ w, (modInverseRound v).Returns w ∧ RowInv a m w ∧ w.r.natAbs < v.r.natAbs := by
  refine ⟨_, returns_modInverseRound hr, ⟨h.row, ?_, ?_, fun ha => ⟨(h.nonneg ha).2, ?_⟩⟩, ?_⟩
  · exact Residue.row_sub_mul h.oldRow h.row _
  · exact (Residue.gcd_sub_mul _ _ _).trans h.gcd_eq
  · rw [Residue.sub_tdiv_mul]
    exact Int.tmod_nonneg v.r (h.nonneg ha).1
  · rw [Residue.sub_tdiv_mul]
    exact Residue.natAbs_tmod_lt v.oldR hr

/-- `modInverse` returns a least residue that `a` takes to the greatest common divisor, or to its
negative when `a` is negative. -/
theorem exists_returns_modInverse (a : ℤ) {m : ℤ} (hm : 0 < m) :
    ∃ x g, (modInverse a m).Returns x ∧ (0 ≤ x ∧ x < m) ∧ a * x ≡ g [ZMOD m] ∧
      g.natAbs = Int.gcd a m ∧ (0 ≤ a → 0 ≤ g) := by
  have hinit : RowInv a m ⟨a, m, 1, 0⟩ := by
    refine ⟨?_, ?_, rfl, fun ha => ⟨ha, hm.le⟩⟩
    · rw [mul_one]
    · rw [mul_zero]
      exact Int.modulus_modEq_zero
  obtain ⟨v, hloop, hv, hexit⟩ : ∃ v,
      (whileDo modInverseTest modInverseRound ⟨a, m, 1, 0⟩).Returns v ∧ RowInv a m v ∧
        modInverseTest v = false :=
    returns_whileDo (fun v => v.r.natAbs)
      (fun v hv htest => hv.round (of_decide_eq_true htest)) hinit
  have hr : v.r = 0 := not_ne_iff.mp (of_decide_eq_false hexit)
  refine ⟨v.oldS % m, v.oldR, hloop.bind (returns_rem_add_rem v.oldS hm),
    ⟨Int.emod_nonneg _ hm.ne', Int.emod_lt_of_pos _ hm⟩, ?_, ?_, fun ha => (hv.nonneg ha).1⟩
  · calc a * (v.oldS % m) ≡ a * v.oldS [ZMOD m] := (Int.mod_modEq _ _).mul_left a
      _ ≡ v.oldR [ZMOD m] := hv.oldRow.symm
  · rw [← hv.gcd_eq, hr, Int.gcd_zero_right]

/-- The last remainder of a negative `a` may be negative, and then the result is wrong by its
sign. -/
example : (modInverse (-1) 5).run 3 = some (.ok 1) := rfl

/-- The inverse of a unit. -/
theorem exists_returns_inverse {a m : ℤ} (ha : 0 ≤ a) (hm : 1 < m) (hgcd : Int.gcd a m = 1) :
    ∃ x, (modInverse a m).Returns x ∧ (0 ≤ x ∧ x < m) ∧ a * x % m = 1 := by
  obtain ⟨x, g, hreturns, hrange, hx, habs, hnonneg⟩ :=
    exists_returns_modInverse a (one_pos.trans hm)
  have hg : g = 1 := by
    have := hnonneg ha
    omega
  refine ⟨x, hreturns, hrange, ?_⟩
  calc a * x % m = g % m := hx
    _ = 1 := by rw [hg, Int.emod_eq_of_lt zero_le_one hm]

/-- **The client's number theory.** `modInverse` ends and returns the only inverse in range, and
`modPow` ends and returns the least residue of the power. -/
theorem client_number_theory :
    (∀ a m : ℤ, 0 < a → a < m → 1 < m → Int.gcd a m = 1 →
      ∃ x, (modInverse a m).Returns x ∧ (0 ≤ x ∧ x < m) ∧ a * x % m = 1 ∧
        ∀ y, 0 ≤ y ∧ y < m → a * y % m = 1 → y = x) ∧
    ∀ base exp mod : ℤ, 0 ≤ exp → 1 < mod →
      ∃ v, (modPow base exp mod).Returns v ∧ (0 ≤ v ∧ v < mod) ∧ v = base ^ exp.toNat % mod := by
  refine ⟨fun a m ha _ hm hgcd => ?_, fun base exp mod _ hmod => ?_⟩
  · obtain ⟨x, hreturns, hrange, hx⟩ := exists_returns_inverse ha.le hm hgcd
    refine ⟨x, hreturns, hrange, hx, fun y hy hay => ?_⟩
    exact Residue.inverse_unique hgcd hy hrange (hay.trans hx.symm)
  · have hpos : 0 < mod := one_pos.trans hmod
    exact ⟨_, returns_modPow base hmod,
      ⟨Int.emod_nonneg _ hpos.ne', Int.emod_lt_of_pos _ hpos⟩, rfl⟩

/-- The inverse of 3 modulo 7, and a power of a negative base. -/
theorem client_number_theory_sample :
    (modInverse 3 7).Returns 5 ∧ (modPow (-3) 5 7).Returns 2 := by
  obtain ⟨hinverse, hpow⟩ := client_number_theory
  obtain ⟨x, hreturns, hrange, hx, -⟩ :=
    hinverse 3 7 (by decide) (by decide) (by decide) (by decide)
  obtain ⟨v, hv, -, heq⟩ := hpow (-3) 5 7 (by decide) (by decide)
  have hfive : x = 5 := by omega
  have htwo : v = 2 := heq.trans (by decide)
  exact ⟨hfive ▸ hreturns, htwo ▸ hv⟩

end BlindVote

end SecureVote
