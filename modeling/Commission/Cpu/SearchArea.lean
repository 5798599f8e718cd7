import Commission.Cpu.BiomeCenters
import Mathlib.Tactic.Linarith

/-! The piece of the world which a `Range` of `make_range` stands for, by the conventions
of cubiomes: `scale` blocks a cell horizontally, and vertically one block for the scale 1
and four for every other scale. -/
namespace Commission

namespace Range

variable (r : Range)

def blockX : ℤ := r.x * r.scale

def blockZ : ℤ := r.z * r.scale

def verticalUnit : ℤ := if r.scale = 1 then 1 else 4

def blockY : ℤ := r.y * r.verticalUnit

/-- A square of `range` blocks whose corner lies within one cell of `(x - range / 2,
z - range / 2)`. -/
structure CoversSquare (x z range : ℤ) : Prop where
  width : r.sx * r.scale = range
  depth : r.sz * r.scale = range
  cornerX : |r.blockX - (x - range / 2)| ≤ r.scale - 1
  cornerZ : |r.blockZ - (z - range / 2)| ≤ r.scale - 1

end Range

/-- The scales of the two island tests of `process`. -/
def testScales : List ℤ := [16, 4]

/-- Both island tests look at the square around `(x, z)`, at the block height 256. -/
def SameArea (large : Bool) (x z : BitVec 32) : Prop :=
  ∀ scale ∈ testScales,
    (makeRange x z (searchRange large) scale).CoversSquare x.toInt z.toInt (searchRange large) ∧
    (makeRange x z (searchRange large) scale).blockY = 256

/-- The distance which a division toward zero leaves. -/
theorem abs_tdiv_mul_sub_le (a : ℤ) {scale : ℤ} (hScale : 0 < scale) :
    |a.tdiv scale * scale - a| ≤ scale - 1 := by
  have hSplit := Int.mul_tdiv_add_tmod a scale
  have hLower := Int.lt_tmod_of_pos a hScale
  have hUpper := Int.tmod_lt_of_pos a hScale
  rw [abs_le]
  constructor <;> linarith

/-- Around a centre which stays away from the limits of `int` nothing wraps. -/
theorem toInt_sub_half {x : BitVec 32} (hx : |x.toInt| ≤ 2 ^ 30) {range : ℤ}
    (hRange : 0 ≤ range ∧ range ≤ 51200) :
    (x - BitVec.ofInt 32 (range / 2)).toInt = x.toInt - range / 2 := by
  obtain ⟨hLower, hUpper⟩ := abs_le.mp hx
  have hHalf : (BitVec.ofInt 32 (range / 2)).toInt = range / 2 := by
    rw [BitVec.toInt_ofInt]
    exact Int.bmod_eq_of_le (by omega) (by omega)
  rw [BitVec.toInt_sub, hHalf]
  exact Int.bmod_eq_of_le (by omega) (by omega)

theorem searchRange_bounds (large : Bool) : 0 ≤ searchRange large ∧ searchRange large ≤ 51200 := by
  cases large <;> decide

theorem makeRange_coversSquare (large : Bool) {x z : BitVec 32} (hx : |x.toInt| ≤ 2 ^ 30)
    (hz : |z.toInt| ≤ 2 ^ 30) {scale : ℤ} (hScale : scale ∈ testScales) :
    (makeRange x z (searchRange large) scale).CoversSquare x.toInt z.toInt (searchRange large) := by
  have hSide : ((searchRange large / scale).toNat : ℤ) * scale = searchRange large ∧ 0 < scale := by
    simp only [testScales, List.mem_cons, List.not_mem_nil, or_false] at hScale
    rcases hScale with rfl | rfl <;> cases large <;> decide
  have hBounds := searchRange_bounds large
  refine ⟨hSide.1, hSide.1, ?_, ?_⟩
  · rw [← toInt_sub_half hx hBounds]
    exact abs_tdiv_mul_sub_le _ hSide.2
  · rw [← toInt_sub_half hz hBounds]
    exact abs_tdiv_mul_sub_le _ hSide.2

/-- The squares of the two tests agree up to one cell, but the coarse test looks at the
height 64 and only the fine one at 256. -/
theorem makeRange_heights (large : Bool) (x z : BitVec 32) (hx : |x.toInt| ≤ 2 ^ 30)
    (hz : |z.toInt| ≤ 2 ^ 30) :
    (∀ scale ∈ testScales,
      (makeRange x z (searchRange large) scale).CoversSquare x.toInt z.toInt (searchRange large)) ∧
    (makeRange x z (searchRange large) 16).blockY = 64 ∧
    (makeRange x z (searchRange large) 4).blockY = 256 ∧
    ¬SameArea large x z := by
  have hCoarse : (makeRange x z (searchRange large) 16).blockY = 64 := rfl
  refine ⟨fun scale hScale => makeRange_coversSquare large hx hz hScale, hCoarse, rfl, ?_⟩
  intro hSame
  have hHeight := (hSame 16 List.mem_cons_self).2
  rw [hCoarse] at hHeight
  exact absurd hHeight (by decide)

theorem makeRange_heights_origin :
    |(0#32).toInt| ≤ 2 ^ 30 ∧ ¬SameArea false 0#32 0#32 := by
  have hOrigin : |(0#32).toInt| ≤ 2 ^ 30 := by decide
  exact ⟨hOrigin, (makeRange_heights false 0#32 0#32 hOrigin hOrigin).2.2.2⟩

/-- At the origin the coarse test works a quarter of the height up. -/
theorem not_sameArea_origin : ¬SameArea false 0#32 0#32 := by
  intro hSame
  have hHeight : (makeRange 0#32 0#32 (searchRange false) 16).blockY = 256 :=
    (hSame 16 List.mem_cons_self).2
  exact absurd hHeight (by decide)

end Commission
