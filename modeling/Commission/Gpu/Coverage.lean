import Commission.Gpu.GradVecs
import Mathlib.Tactic.Linarith
import Mathlib.Tactic.NormNum

/-! Which window centres of a bounded build the two gradient-vector filters
examine, one axis at a time. -/
namespace Commission.Coverage

open KernelFilterGradVecs1 KernelFilterGradVecs2

/-- An octave offset: a multiple of `2^-16` in `[0, 256)`, as `init_noise`
draws them. The float operations on it are exact. -/
def offset (n : Fin (2 ^ 24)) : ℚ := n.val / 2 ^ 16

theorem nextFloat_offset (random : XrsrRandom) :
    ∃ n, (nextFloat (F := ℚ) random).1 * 256 = offset n := by
  have hLt : (random.nextBits 24).1.toNat < 2 ^ 24 := by
    have hWord := random.nextInternal.1.isLt
    simp only [XrsrRandom.nextBits, BitVec.toNat_ushiftRight, Nat.shiftRight_eq_div_pow]
    omega
  refine ⟨⟨_, hLt⟩, ?_⟩
  simp only [nextFloat, offset, Arith.ofInt_exact, Arith.const_exact]
  push_cast
  ring

/-- Every offset which `init_noise` stores has this form. -/
theorem initNoise_offset {fuel : ℕ} {random : XrsrRandom} {noise : ImprovedNoise ℚ}
    (hNoise : initNoise fuel random = some noise) :
    (∃ n, noise.xo = offset n) ∧ ∃ n, noise.zo = offset n := by
  rw [initNoise, Option.map_eq_some_iff] at hNoise
  obtain ⟨table, -, rfl⟩ := hNoise
  exact ⟨nextFloat_offset _, nextFloat_offset _⟩

/-- The window centre `x_center + cell_size * m`. -/
def windowCentre (large : Bool) (n : Fin (2 ^ 24)) (m : ℤ) : ℤ :=
  center large (offset n) + cellSize large * m

/-- The block coordinate `4 * x` lies in the world. -/
def InWorld (x : ℤ) : Prop := -30000000 ≤ 4 * x ∧ 4 * x ≤ 30000000

/-- The pair of window number and tile number examines the centre `m`, where
`window` is the coordinate which the first filter gives to a window number. -/
def Examines (large : Bool) (n : Fin (2 ^ 24)) (window : ℕ → ℤ) (m : ℤ) (pair : ℕ × ℕ) : Prop :=
  pair.1 < 256 ∧ pair.2 < gridWidth large false ∧
    tilePos large false (window pair.1) pair.2 = windowCentre large n m

/-- Every window centre of the world is examined once along the axis. -/
def CoversAxis (large : Bool) (n : Fin (2 ^ 24)) (window : ℕ → ℤ) : Prop :=
  ∀ m, InWorld (windowCentre large n m) → ∃! pair, Examines large n window m pair

/-- Both axes are covered, for the offsets `xo` and `zo` of one octave 0A. -/
def CoversWorld (large : Bool) (xo zo : Fin (2 ^ 24)) : Prop :=
  CoversAxis large xo (windowX large (offset xo)) ∧ CoversAxis large zo (windowZ large (offset zo))

/-- The offsets, in units of `2^-16`, for which the strip of tiles reaches both
borders: from `57.939453125` below `202.0625`, or from `79.60986328125` below
`180.390625` with large biomes. -/
def OffsetReaches (large : Bool) (n : Fin (2 ^ 24)) : Prop :=
  if large then 5217312 ≤ n.val ∧ n.val < 11822080
  else 3797120 ≤ n.val ∧ n.val < 13242368

theorem cellSize_pos (large : Bool) : 0 < cellSize large := by
  cases large <;> decide

theorem truncRat_div (a : ℤ) (b : ℕ) :
    truncRat (a / b) = if 0 ≤ a then a / (b : ℤ) else -(-a / (b : ℤ)) := by
  rcases Nat.eq_zero_or_pos b with rfl | hPos
  · simp [truncRat]
  have hSign : (0 : ℚ) ≤ a / b ↔ 0 ≤ a := by
    rw [le_div_iff₀ (by exact_mod_cast hPos), zero_mul]
    exact_mod_cast Iff.rfl
  simp only [truncRat, hSign]
  split
  · exact Rat.floor_intCast_div_natCast a b
  · have hNeg : -((a : ℚ) / b) = ((-a : ℤ) : ℚ) / b := by
      push_cast
      ring
    rw [← neg_neg ((a : ℚ) / b), hNeg, Int.ceil_neg, Rat.floor_intCast_div_natCast]

/-- The first window centre in integer arithmetic: `2.5` is `163840 / 2^16`. -/
theorem center_offset (large : Bool) (n : Fin (2 ^ 24)) :
    center large (offset n) =
      if (n.val : ℤ) ≤ 163840 then (163840 - n.val : ℤ) / (if large then 32 else 128)
      else -((n.val - 163840 : ℤ) / (if large then 32 else 128)) := by
  have hDiv : (5 / 2 - (n.val : ℚ) / 2 ^ 16) * (cellSize large : ℤ) =
      ((163840 - n.val : ℤ) : ℚ) / ((if large then 32 else 128 : ℕ) : ℚ) := by
    cases large <;> simp [cellSize, largeBiomesPosMul] <;> ring
  simp only [center, offset, Arith.const_exact, Arith.ofInt_exact, Arith.truncInt_exact]
  rw [hDiv, truncRat_div]
  cases large <;> simp

/-- Tile `t` of window `n` is the centre number `n + 256 * (t - grid_half)`. -/
theorem tilePos_windowZ (large : Bool) (n : Fin (2 ^ 24)) (nz tz : ℕ) :
    tilePos large false (windowZ large (offset n) nz) tz =
      windowCentre large n (nz + 256 * (tz - gridHalf large false)) := by
  rw [tilePos, windowZ, windowCentre, cellSize0A_eq]
  ring

theorem windowCentre_inj (large : Bool) (n : Fin (2 ^ 24)) (m k : ℤ) :
    windowCentre large n m = windowCentre large n k ↔ m = k := by
  have hPos := cellSize_pos large
  simp only [windowCentre, add_right_inj]
  exact mul_right_inj' hPos.ne'

theorem examines_iff (large : Bool) (n : Fin (2 ^ 24)) (m : ℤ) (pair : ℕ × ℕ) :
    Examines large n (windowZ large (offset n)) m pair ↔
      pair.1 < 256 ∧ pair.2 < gridWidth large false ∧
        (pair.1 : ℤ) + 256 * (pair.2 - gridHalf large false) = m := by
  rw [Examines, tilePos_windowZ, windowCentre_inj]

/-- A centre is examined exactly if its number is in the strip of tiles, and
then for one pair only. -/
theorem existsUnique_examines_iff (large : Bool) (n : Fin (2 ^ 24)) (m : ℤ) :
    (∃! pair, Examines large n (windowZ large (offset n)) m pair) ↔
      -(256 * gridHalf large false : ℤ) ≤ m ∧
        m < 256 * (gridWidth large false - gridHalf large false) := by
  simp only [examines_iff]
  constructor
  · rintro ⟨⟨nz, tz⟩, ⟨hWindow, hTile, hCentre⟩, -⟩
    dsimp only at hWindow hTile hCentre
    omega
  · rintro ⟨hLow, hHigh⟩
    have hDiv := Int.emod_add_mul_ediv (m + 256 * gridHalf large false) 256
    have hNonneg := Int.emod_nonneg (m + 256 * gridHalf large false) (by decide : (256 : ℤ) ≠ 0)
    have hLt := Int.emod_lt_of_pos (m + 256 * gridHalf large false) (by decide : (0 : ℤ) < 256)
    refine ⟨(((m + 256 * gridHalf large false) % 256).toNat,
      ((m + 256 * gridHalf large false) / 256).toNat), ?_, ?_⟩
    · dsimp only
      omega
    · rintro ⟨nz, tz⟩ ⟨hWindow, hTile, hCentre⟩
      dsimp only at hWindow hTile hCentre
      rw [Prod.mk.injEq]
      omega

theorem center_offset_bounds (large : Bool) (n : Fin (2 ^ 24)) :
    -600000 ≤ center large (offset n) ∧ center large (offset n) ≤ 600000 := by
  have hLt := n.isLt
  rw [center_offset]
  cases large <;> simp only [Bool.false_eq_true, if_true, if_false] <;> split <;> omega

/-- Covering an axis is a condition on its first window centre alone: the
centre below the strip and the one above it lie outside of the world. -/
theorem coversAxis_windowZ_iff (large : Bool) (n : Fin (2 ^ 24)) :
    CoversAxis large n (windowZ large (offset n)) ↔
      center large (offset n) + cellSize large * (-(256 * gridHalf large false) - 1) < -7500000 ∧
        7500000 < center large (offset n) +
          cellSize large * (256 * (gridWidth large false - gridHalf large false)) := by
  have hPos := cellSize_pos large
  obtain ⟨hCentreLow, hCentreHigh⟩ := center_offset_bounds large n
  simp only [CoversAxis, existsUnique_examines_iff, InWorld, windowCentre]
  constructor
  · intro hCovers
    have hBelow := hCovers (-(256 * gridHalf large false) - 1)
    have hAbove := hCovers (256 * (gridWidth large false - gridHalf large false))
    cases large with
    | false | true =>
        simp only [gridHalf, gridWidth, cellSize, largeBiomesPosMul] at *
        norm_num at *
        omega
  · rintro ⟨hBelow, hAbove⟩ m ⟨hLow, hHigh⟩
    constructor
    · by_contra hOut
      have hLe := mul_le_mul_of_nonneg_left
        (by omega : m ≤ -(256 * (gridHalf large false : ℤ)) - 1) hPos.le
      omega
    · by_contra hOut
      have hLe := mul_le_mul_of_nonneg_left
        (by omega : 256 * ((gridWidth large false : ℤ) - gridHalf large false) ≤ m) hPos.le
      omega

theorem coversAxis_iff_offsetReaches (large : Bool) (n : Fin (2 ^ 24)) :
    CoversAxis large n (windowZ large (offset n)) ↔ OffsetReaches large n := by
  rw [coversAxis_windowZ_iff, center_offset, OffsetReaches]
  cases large with
  | false | true =>
      simp only [gridHalf, gridWidth, cellSize, largeBiomesPosMul]
      norm_num
      split <;> omega

/-- The strip of tiles covers the bounded world exactly if both offsets lie in
the range of `OffsetReaches`; nothing is examined twice in any case. -/
theorem coversWorld_iff (large : Bool) (xo zo : Fin (2 ^ 24)) :
    CoversWorld large xo zo ↔ OffsetReaches large xo ∧ OffsetReaches large zo := by
  have hAxis : windowX large (offset xo) = windowZ large (offset xo) := by
    funext nx
    exact windowX_eq_windowZ large (offset xo) nx
  rw [CoversWorld, hAxis, coversAxis_iff_offsetReaches, coversAxis_iff_offsetReaches]

/-- With both offsets zero the centre `x_center - cell_size * 14650`, at block
coordinate `-29998080`, is in the world and no tile reaches it. -/
theorem not_coversWorld_zero : ¬ CoversWorld false 0 0 := by
  rintro ⟨-, hAxis⟩
  rw [coversAxis_iff_offsetReaches] at hAxis
  simp [OffsetReaches] at hAxis

end Commission.Coverage
