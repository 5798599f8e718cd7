import Mathlib.Algebra.Group.Basic
import Mathlib.Algebra.Group.Nat.Defs

/-! Powers by squaring, from the lowest bit of the exponent on. -/
namespace BinaryPower

variable {M : Type*} [Monoid M]

/-- What one pass makes of the product so far and the current power: the power goes into the
product if its bit is set, and is squared. -/
def pass (n : ℕ) (acc : M × M) (i : ℕ) : M × M :=
  (if n.testBit i then acc.2 * acc.1 else acc.1, acc.2 * acc.2)

theorem mod_two_pow_succ (n i : ℕ) :
    n % 2 ^ (i + 1) = (if n.testBit i then 2 ^ i else 0) + n % 2 ^ i := by
  rw [Nat.mod_pow_succ, ← Nat.toNat_testBit, Nat.add_comm]
  cases n.testBit i with
  | false => simp
  | true => simp

/-- After `count` passes the product has the lowest `count` bits of the exponent. -/
theorem foldl_pass (g : M) (n count : ℕ) :
    (List.range count).foldl (pass n) (1, g) = (g ^ (n % 2 ^ count), g ^ 2 ^ count) := by
  induction count with
  | zero => simp [Nat.mod_one]
  | succ count ih =>
      have hSquare : g ^ 2 ^ count * g ^ 2 ^ count = g ^ 2 ^ (count + 1) := by
        rw [← pow_add g, ← Nat.two_mul, ← Nat.pow_succ']
      rw [List.range_succ, List.foldl_append, ih, List.foldl_cons, List.foldl_nil, pass, hSquare,
        mod_two_pow_succ]
      split
      next => rw [pow_add g]
      next => rw [Nat.zero_add]

end BinaryPower
