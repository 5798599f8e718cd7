import Mathlib.Data.Finset.Card
import Mathlib.Order.Interval.Finset.Nat
import Mathlib.Algebra.Order.Floor.Div

/-! Bounded draws by multiplication: a draw `l` below `range` gives the high part of
`l * bound`, and is rejected if the low part is too small. -/
namespace MultiplyShift

/-- The low parts below `range % bound` are one too many. -/
def Accepted (range bound l : ℕ) : Prop := range % bound ≤ l * bound % range

instance (range bound l : ℕ) : Decidable (Accepted range bound l) :=
  inferInstanceAs (Decidable (range % bound ≤ l * bound % range))

/-- What an accepted draw gives. -/
def result (range bound l : ℕ) : ℕ := l * bound / range

/-- The accepted draws below `range` which give `value`. -/
def drawsOf (range bound value : ℕ) : Finset ℕ :=
  (Finset.range range).filter fun l => Accepted range bound l ∧ result range bound l = value

variable {range bound value l : ℕ}

theorem result_lt (hBound : 0 < bound) (hl : l < range) : result range bound l < bound := by
  apply Nat.div_lt_of_lt_mul
  exact Nat.mul_lt_mul_of_pos_right hl hBound

/-- The multiples of `bound` which an accepted draw can stand for. -/
theorem accepted_and_result_iff (hRange : 0 < range) :
    Accepted range bound l ∧ result range bound l = value ↔
      value * range + range % bound ≤ l * bound ∧ l * bound < (value + 1) * range := by
  have hSplit : l * bound / range * range + l * bound % range = l * bound :=
    Nat.div_add_mod' (l * bound) range
  have hLow : l * bound % range < range := Nat.mod_lt _ hRange
  constructor
  · rintro ⟨hAccepted, rfl⟩
    rw [Accepted] at hAccepted
    rw [result, Nat.add_one_mul]
    omega
  · rintro ⟨hFirst, hLast⟩
    have hValue : result range bound l = value := by
      apply Nat.div_eq_of_lt_le
      · exact (Nat.le_add_right _ _).trans hFirst
      · exact hLast
    refine ⟨?_, hValue⟩
    rw [result] at hValue
    rw [hValue] at hSplit
    rw [Accepted]
    omega

/-- As many multiples of `bound` as it fits into the distance. -/
theorem mul_between_iff (hBound : 0 < bound) (first count : ℕ) :
    (first ≤ l * bound ∧ l * bound < first + count * bound) ↔
      l ∈ Finset.Ico (first ⌈/⌉ bound) (first ⌈/⌉ bound + count) := by
  have hFrom (k : ℕ) : first ⌈/⌉ bound ≤ k ↔ first ≤ k * bound := by
    rw [ceilDiv_le_iff_le_mul hBound, Nat.mul_comm]
  rw [Finset.mem_Ico, hFrom]
  apply and_congr_right
  intro _
  obtain hBelow | ⟨k, rfl⟩ := lt_or_ge l count |>.imp_right Nat.exists_eq_add_of_le
  · have hProduct : l * bound < count * bound := Nat.mul_lt_mul_of_pos_right hBelow hBound
    omega
  · rw [Nat.add_mul, Nat.add_comm (count * bound), Nat.add_lt_add_iff_right, Nat.add_comm count,
      Nat.add_lt_add_iff_right, ← not_le, ← not_le, hFrom]

/-- Every value stands for the same number of accepted draws. -/
theorem card_drawsOf (hBound : 0 < bound) (hValue : value < bound) :
    (drawsOf range bound value).card = range / bound := by
  let first := value * range + range % bound
  have hWidth : (value + 1) * range = first + range / bound * bound := by
    have hSplit := Nat.div_add_mod' range bound
    rw [Nat.add_one_mul]
    omega
  have hDraws : drawsOf range bound value =
      Finset.Ico (first ⌈/⌉ bound) (first ⌈/⌉ bound + range / bound) := by
    ext l
    rw [← mul_between_iff hBound, ← hWidth, drawsOf, Finset.mem_filter, Finset.mem_range]
    constructor
    · rintro ⟨hl, hDraw⟩
      exact (accepted_and_result_iff (Nat.zero_lt_of_lt hl)).mp hDraw
    · intro hBetween
      -- a product below `bound * range` is that of a draw
      have hProduct : l * bound < range * bound := by
        calc l * bound < (value + 1) * range := hBetween.2
          _ ≤ bound * range := Nat.mul_le_mul_right range hValue
          _ = range * bound := Nat.mul_comm _ _
      have hl : l < range := Nat.lt_of_mul_lt_mul_right hProduct
      exact ⟨hl, (accepted_and_result_iff (Nat.zero_lt_of_lt hl)).mpr hBetween⟩
  rw [hDraws, Nat.card_Ico, Nat.add_sub_cancel_left]

end MultiplyShift
