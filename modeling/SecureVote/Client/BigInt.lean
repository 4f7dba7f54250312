import SecureVote.Loop.Comp
import SecureVote.Arith.Residue
import Mathlib.Data.Int.Bitwise

/-!
# BigInt arithmetic

The operators on `BigInt` that the script uses. Addition, subtraction and multiplication are those
of `ℤ`; division truncates toward zero, a remainder has the sign of the dividend, and both raise on
a zero divisor.
-/

namespace Js

open Loop Comp

/-- What a script throws. -/
inductive Error
  | rangeError
  | syntaxError
  /-- `new Error(message)` -/
  | error (message : List ℕ)
  deriving DecidableEq, Repr

/-- A piece of script. -/
abbrev Eval := Comp Error

/-- `a / b` -/
def div (a b : ℤ) : Eval ℤ := if b = 0 then raise .rangeError else pure (a.tdiv b)

/-- `a % b` -/
def rem (a b : ℤ) : Eval ℤ := if b = 0 then raise .rangeError else pure (a.tmod b)

/-- `a & b`, on two's complement. -/
def bitAnd (a b : ℤ) : ℤ := Int.land a b

/-- `a >> k`, rounding down. -/
def shiftRight (a : ℤ) (k : ℕ) : ℤ := a >>> k

theorem returns_div (a : ℤ) {b : ℤ} (hb : b ≠ 0) : (div a b).Returns (a.tdiv b) := by
  rw [div, if_neg hb]
  exact returns_pure _

theorem returns_rem (a : ℤ) {b : ℤ} (hb : b ≠ 0) : (rem a b).Returns (a.tmod b) := by
  rw [rem, if_neg hb]
  exact returns_pure _

/-- On a nonnegative dividend the remainder is the least residue. -/
theorem returns_rem_of_nonneg {a b : ℤ} (ha : 0 ≤ a) (hb : 0 < b) : (rem a b).Returns (a % b) :=
  Int.tmod_eq_emod_of_nonneg (b := b) ha ▸ returns_rem a hb.ne'

/-- `((a % m) + m) % m` is the least residue. -/
theorem returns_rem_add_rem (a : ℤ) {m : ℤ} (hm : 0 < m) :
    (rem a m >>= fun x => rem (x + m) m).Returns (a % m) :=
  (returns_rem a hm.ne').bind (Residue.tmod_add_tmod a hm ▸ returns_rem _ hm.ne')

/-- `a & 1` is the last bit. -/
theorem bitAnd_one (n : ℕ) : bitAnd n 1 = (n % 2 : ℕ) := by
  have hland : bitAnd n 1 = (n.land 1 : ℕ) := rfl
  rw [hland]
  exact congrArg Nat.cast (Nat.and_one_is_mod n)

theorem shiftRight_one (n : ℕ) : shiftRight n 1 = (n / 2 : ℕ) := by
  rw [shiftRight, Int.shiftRight_eq_div_pow]
  norm_cast

end Js
