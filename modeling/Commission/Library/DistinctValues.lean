import Mathlib.Algebra.BigOperators.Group.Finset.Basic
import Mathlib.Combinatorics.Pigeonhole
import Mathlib.Data.Nat.Bitwise

/-! How many values a function on numbers takes, counted in a bit mask, and a value which it
takes seldom. Numbers are combined by the functions behind the operators, which `decide` needs
not unfold. -/
namespace DistinctValues

/-- One bit for each value at the `2 ^ n` arguments from `a * 2 ^ n` on. -/
def mask (f : ℕ → ℕ) : ℕ → ℕ → ℕ
  | 0, a => Nat.shiftLeft 1 (f a)
  | n + 1, a => Nat.lor (mask f n (Nat.mul 2 a)) (mask f n (Nat.add (Nat.mul 2 a) 1))

/-- The number of bits among the lowest `2 ^ n`. -/
def bitCount : ℕ → ℕ → ℕ
  | 0, x => Nat.mod x 2
  | n + 1, x => Nat.add (bitCount n (Nat.shiftRight x (Nat.pow 2 n)))
      (bitCount n (Nat.mod x (Nat.pow 2 (Nat.pow 2 n))))

theorem mask_zero (f : ℕ → ℕ) (a : ℕ) : mask f 0 a = 1 <<< f a := rfl

theorem mask_succ (f : ℕ → ℕ) (n a : ℕ) :
    mask f (n + 1) a = mask f n (2 * a) ||| mask f n (2 * a + 1) := rfl

theorem bitCount_zero (x : ℕ) : bitCount 0 x = x % 2 := rfl

theorem bitCount_succ (n x : ℕ) :
    bitCount (n + 1) x = bitCount n (x >>> 2 ^ n) + bitCount n (x % 2 ^ 2 ^ n) := rfl

variable {f : ℕ → ℕ}

theorem exists_of_testBit_mask {n a b : ℕ} (hBit : (mask f n a).testBit b = true) :
    ∃ i < 2 ^ n, f (a * 2 ^ n + i) = b := by
  induction n generalizing a with
  | zero =>
      rw [mask_zero, Nat.one_shiftLeft, Nat.testBit_two_pow, decide_eq_true_eq] at hBit
      exact ⟨0, Nat.one_pos, by rw [pow_zero, mul_one, add_zero, hBit]⟩
  | succ n ih =>
      rw [mask_succ, Nat.testBit_or, Bool.or_eq_true] at hBit
      rcases hBit with hLow | hHigh
      · obtain ⟨i, hi, rfl⟩ := ih hLow
        refine ⟨i, hi.trans (Nat.pow_lt_pow_succ (by decide)), congrArg f ?_⟩
        ring
      · obtain ⟨i, hi, rfl⟩ := ih hHigh
        refine ⟨2 ^ n + i, by rw [pow_succ]; omega, congrArg f ?_⟩
        ring

theorem bitCount_eq (n x : ℕ) :
    bitCount n x = ((Finset.range (2 ^ n)).filter fun i => x.testBit i = true).card := by
  induction n generalizing x with
  | zero =>
      rw [bitCount_zero, pow_zero, Finset.range_one, Finset.filter_singleton, Nat.testBit_zero]
      rcases Nat.mod_two_eq_zero_or_one x with hBit | hBit <;> simp [hBit]
  | succ n ih =>
      rw [bitCount_succ, ih, ih, pow_succ, mul_two, Finset.card_filter, Finset.card_filter,
        Finset.card_filter, Finset.sum_range_add, add_comm]
      congr 1
      · apply Finset.sum_congr rfl
        intro i hi
        rw [Nat.testBit_mod_two_pow, decide_eq_true (Finset.mem_range.mp hi), Bool.true_and]
      · apply Finset.sum_congr rfl
        intro i _
        rw [Nat.testBit_shiftRight]

/-- The bits of the mask are values of the function. -/
theorem bitCount_mask_le (w n a : ℕ) : bitCount w (mask f n a) ≤
    ((Finset.range (2 ^ n)).image fun i => f (a * 2 ^ n + i)).card := by
  rw [bitCount_eq]
  apply Finset.card_le_card
  intro b hb
  obtain ⟨i, hi, hValue⟩ := exists_of_testBit_mask (Finset.mem_filter.mp hb).2
  exact Finset.mem_image.mpr ⟨i, Finset.mem_range.mpr hi, hValue⟩

/-- A function which takes `count` values at its first arguments takes one of them at no more
than `few` of all its arguments. -/
theorem exists_rare_value {w n count few total : ℕ} (hCount : 0 < count)
    (hMany : count ≤ bitCount w (mask f n 0)) (hFew : total ≤ count * few) :
    ∃ first < 2 ^ n, ((Finset.range total).filter fun i => f i = f first).card ≤ few := by
  have hValues : count ≤ ((Finset.range (2 ^ n)).image f).card := by
    refine hMany.trans ((bitCount_mask_le w n 0).trans_eq ?_)
    simp only [zero_mul, zero_add]
  have hSome : ((Finset.range (2 ^ n)).image f).Nonempty := Finset.card_pos.mp (hCount.trans_le hValues)
  obtain ⟨value, hValue, hRare⟩ := Finset.exists_card_fiber_le_of_card_le_mul (f := f)
    (s := Finset.range total) hSome
    (by rw [Finset.card_range]; exact hFew.trans (Nat.mul_le_mul_right few hValues))
  obtain ⟨first, hFirst, rfl⟩ := Finset.mem_image.mp hValue
  exact ⟨first, Finset.mem_range.mp hFirst, hRare⟩

end DistinctValues
