import Commission.Noise.SeedAgreement
import Mathlib.Tactic.Linarith

/-! Where the Monte-Carlo test and the biome generator sample the continentalness: `eval`
of `cubiomes.c` and the shift at the start of `sampleBiomeNoise`, both at scale 4. -/
namespace Commission.Cubiomes

/-- The position `(px, pz)` of `eval`. -/
def evalPosition (bn : BiomeNoise) (x z : ℤ) : ℚ × ℚ :=
  (x + sampleDoublePerlin bn.shift x 0 z * 4, z + sampleDoublePerlin bn.shift x z 0 * 4)

/-- `eval`; the literal `-1.05f` is read as `-105/100`, and `y` is not used. -/
def eval (bn : BiomeNoise) (x _y z : ℤ) : ℤ :=
  let p := evalPosition bn x z
  let c := sampleDoublePerlin bn.continentalness p.1 0 p.2
  if c < -(105 / 100) then 1 else 0

/-- The position `(px, pz)` of `sampleBiomeNoise` in a generator which is set up for all
climate parameters; `noShift` is the flag `SAMPLE_NO_SHIFT`. -/
def sampleBiomeNoisePosition (bn : BiomeNoise) (noShift : Bool) (x z : ℤ) : ℚ × ℚ :=
  if noShift then (x, z)
  else (x + sampleDoublePerlin bn.shift x 0 z * 4, z + sampleDoublePerlin bn.shift z x 0 * 4)

/-- The continentalness `c` which `sampleBiomeNoise` takes the biome from. -/
def sampleBiomeNoiseContinentalness (bn : BiomeNoise) (noShift : Bool) (x _y z : ℤ) : ℚ :=
  let p := sampleBiomeNoisePosition bn noShift x z
  sampleDoublePerlin bn.continentalness p.1 0 p.2

/-- The test and the generator look at the same point of the noise. -/
def SameField (bn : BiomeNoise) (x z : ℤ) : Prop :=
  evalPosition bn x z = sampleBiomeNoisePosition bn false x z ∧
  ∀ y, eval bn x y z = 1 ↔ sampleBiomeNoiseContinentalness bn false x y z < -(105 / 100)

theorem position_eq_iff (bn : BiomeNoise) (x z : ℤ) :
    evalPosition bn x z = sampleBiomeNoisePosition bn false x z ↔
      sampleDoublePerlin bn.shift x z 0 = sampleDoublePerlin bn.shift z x 0 := by
  constructor
  · intro h
    have hSecond := congrArg Prod.snd h
    simp only [evalPosition, sampleBiomeNoisePosition, Bool.false_eq_true, if_false] at hSecond
    linarith
  · intro h
    simp only [evalPosition, sampleBiomeNoisePosition, Bool.false_eq_true, if_false, h]

/-- Both read the same climate from there. -/
theorem sameField_iff (bn : BiomeNoise) (x z : ℤ) :
    SameField bn x z ↔
      sampleDoublePerlin bn.shift x z 0 = sampleDoublePerlin bn.shift z x 0 := by
  rw [← position_eq_iff]
  constructor
  · intro h
    exact h.1
  · intro h
    refine ⟨h, ?_⟩
    intro y
    simp only [eval, sampleBiomeNoiseContinentalness, h]
    split <;> simp_all

/-! A shift noise of one octave whose cells are so wide that two given positions lie in
one of them. -/

/-- The unshuffled table, with the origin in the middle of a cell in `x` and `y`. -/
def cellNoise (lacunarity : ℚ) : PerlinNoise :=
  { perlinOf (fun i => UInt8.ofNat i) (1 / 2) (1 / 2) 0 with lacunarity := lacunarity }

def wideNoise (lacunarity : ℚ) : DoublePerlinNoise := ⟨1, [cellNoise lacunarity], []⟩

/-- The noise inside the cell of the origin, at its lower side in `z`. -/
def cellValue (d1 d2 : ℚ) : ℚ :=
  lerp (smooth d2) (lerp (smooth d1) (d1 + d2) (-(d1 - 1) + d2))
    (lerp (smooth d1) (-d1 + (d2 - 1)) (d1 - 1 - (d2 - 1)))

theorem floor_add_half {u : ℚ} (hu : |u| ≤ 1 / 8) : ⌊u + 1 / 2⌋ = 0 := by
  obtain ⟨hLower, hUpper⟩ := abs_le.mp hu
  rw [Int.floor_eq_zero_iff]
  exact ⟨by linarith, by linarith⟩

/-- The y values of a sample, cached or not. -/
theorem cellNoise_y (lacunarity : ℚ) {v : ℚ} (hv : |v| ≤ 1 / 8) :
    (if v = 0 then
        ((cellNoise lacunarity).d2, (cellNoise lacunarity).h2, (cellNoise lacunarity).t2)
      else
        (v + (cellNoise lacunarity).b - ⌊v + (cellNoise lacunarity).b⌋,
          toByte ⌊v + (cellNoise lacunarity).b⌋,
          smooth (v + (cellNoise lacunarity).b - ⌊v + (cellNoise lacunarity).b⌋))) =
      (v + 1 / 2, 0, smooth (v + 1 / 2)) := by
  have hByte : toByte 0 = 0 := rfl
  have hFloor : ⌊v + 1 / 2⌋ = 0 := floor_add_half hv
  by_cases hZero : v = 0
  · subst hZero
    have hHalf : ⌊(1 / 2 : ℚ)⌋ = 0 := by simpa using hFloor
    simp only [if_true, cellNoise, perlinOf, hHalf, hByte, Int.cast_zero, sub_zero, zero_add]
  · simp only [if_neg hZero, cellNoise, perlinOf, hFloor, hByte, Int.cast_zero, sub_zero]

theorem samplePerlin_cellNoise (lacunarity : ℚ) {u v : ℚ} (hu : |u| ≤ 1 / 8) (hv : |v| ≤ 1 / 8) :
    samplePerlin (cellNoise lacunarity) u v 0 0 0 = cellValue (u + 1 / 2) (v + 1 / 2) := by
  have hByte : toByte 0 = 0 := rfl
  have hx : (cellNoise lacunarity).a = 1 / 2 := rfl
  have hz : (cellNoise lacunarity).c = 0 := rfl
  have hFirst : entry (cellNoise lacunarity).d 0 0 = 0 := rfl
  have hNext : entry (cellNoise lacunarity).d 0 1 = 1 := rfl
  have hSmooth : smooth 0 = 0 := by norm_num [smooth]
  have hSide (a b : ℚ) : lerp 0 a b = a := by simp [lerp]
  simp only [samplePerlin, cellNoise_y lacunarity hv, hx, hz, floor_add_half hu, hByte, hFirst,
    hNext, add_zero, Int.floor_zero, Int.cast_zero, sub_zero, hSmooth, hSide]
  -- the gradients at the corners are read from the table
  rfl

theorem smooth_mem_unit {d : ℚ} (hLower : 0 ≤ d) (hUpper : d ≤ 1) :
    0 ≤ smooth d ∧ smooth d ≤ 1 := by
  have hStart : smooth d = d ^ 3 * (6 * (d - 5 / 4) ^ 2 + 5 / 8) := by
    simp only [smooth]
    ring
  have hEnd : 1 - smooth d = (1 - d) ^ 3 * (6 * d ^ 2 + 3 * d + 1) := by
    simp only [smooth]
    ring
  have hRest : 0 ≤ 1 - d := by linarith
  constructor
  · rw [hStart]
    positivity
  · have hNonneg : 0 ≤ 1 - smooth d := by
      rw [hEnd]
      positivity
    linarith

/-- Near the middle of the cell the noise is not symmetric in its coordinates. -/
theorem cellValue_ne {u v : ℚ} (hu : |u| ≤ 1 / 8) (hv : |v| ≤ 1 / 8) (h : u ≠ v) :
    cellValue (u + 1 / 2) (v + 1 / 2) ≠ cellValue (v + 1 / 2) (u + 1 / 2) := by
  obtain ⟨hu1, hu2⟩ := abs_le.mp hu
  obtain ⟨hv1, hv2⟩ := abs_le.mp hv
  intro hSame
  -- the two values differ by a multiple of the distance
  have hFactor : cellValue (u + 1 / 2) (v + 1 / 2) - cellValue (v + 1 / 2) (u + 1 / 2) =
      2 * (u - v) * (15 / 8 - 5 * (u ^ 2 + u * v + v ^ 2) +
        6 * (u ^ 4 + u ^ 3 * v + u ^ 2 * v ^ 2 + u * v ^ 3 + v ^ 4) -
        (smooth (u + 1 / 2) + smooth (v + 1 / 2) -
          3 * (smooth (u + 1 / 2) * smooth (v + 1 / 2)))) := by
    simp only [cellValue, lerp, smooth]
    ring
  obtain ⟨hs1, hs2⟩ := smooth_mem_unit (d := u + 1 / 2) (by linarith) (by linarith)
  obtain ⟨ht1, ht2⟩ := smooth_mem_unit (d := v + 1 / 2) (by linarith) (by linarith)
  have hMixed : smooth (u + 1 / 2) + smooth (v + 1 / 2) -
      3 * (smooth (u + 1 / 2) * smooth (v + 1 / 2)) ≤ 1 := by
    have hBoth := mul_nonneg hs1 ht1
    have hNone := mul_nonneg (sub_nonneg.mpr hs2) (sub_nonneg.mpr ht2)
    linarith
  have hSquare : u ^ 2 + u * v + v ^ 2 ≤ 3 / 64 := by
    nlinarith [sq_nonneg (u - v)]
  have hFourth : 0 ≤ u ^ 4 + u ^ 3 * v + u ^ 2 * v ^ 2 + u * v ^ 3 + v ^ 4 := by
    nlinarith [sq_nonneg (u ^ 2 + u * v / 2), sq_nonneg (v ^ 2 + u * v / 2), sq_nonneg (u * v)]
  rw [hSame, sub_self, eq_comm, mul_eq_zero] at hFactor
  rcases hFactor with hDistance | hRest
  · exact h (by linarith)
  · linarith

theorem sampleDoublePerlin_wideNoise (lacunarity x y : ℚ) :
    sampleDoublePerlin (wideNoise lacunarity) x y 0 =
      samplePerlin (cellNoise lacunarity) (x * lacunarity) (y * lacunarity) 0 0 0 := by
  have hAmplitude : (cellNoise lacunarity).amplitude = 1 := rfl
  have hLacunarity : (cellNoise lacunarity).lacunarity = lacunarity := rfl
  simp only [sampleDoublePerlin, wideNoise, sampleOctave, List.foldl_cons, List.foldl_nil,
    maintainPrecision, hAmplitude, hLacunarity, zero_mul, zero_add, one_mul, add_zero, mul_one]

/-- Off the diagonal there is a shift noise which tells the two samples apart. -/
theorem exists_shift_ne {x z : ℤ} (h : x ≠ z) :
    ∃ shift : DoublePerlinNoise, sampleDoublePerlin shift x z 0 ≠ sampleDoublePerlin shift z x 0 := by
  have hWidth : (0 : ℚ) < 8 * (|(x : ℚ)| + |(z : ℚ)| + 1) := by positivity
  let lacunarity : ℚ := 1 / (8 * (|(x : ℚ)| + |(z : ℚ)| + 1))
  have hInside {n : ℚ} (hn : |n| ≤ |(x : ℚ)| + |(z : ℚ)| + 1) : |n * lacunarity| ≤ 1 / 8 := by
    rw [abs_mul, abs_of_pos (one_div_pos.mpr hWidth), mul_one_div, div_le_div_iff₀ hWidth (by norm_num)]
    linarith
  have hx : |(x : ℚ) * lacunarity| ≤ 1 / 8 := hInside (by linarith [abs_nonneg (z : ℚ)])
  have hz : |(z : ℚ) * lacunarity| ≤ 1 / 8 := hInside (by linarith [abs_nonneg (x : ℚ)])
  have hDistinct : (x : ℚ) * lacunarity ≠ z * lacunarity := by
    intro hSame
    have hCast : (x : ℚ) = z := mul_right_cancel₀ (one_div_pos.mpr hWidth).ne' hSame
    exact h (by exact_mod_cast hCast)
  refine ⟨wideNoise lacunarity, ?_⟩
  rw [sampleDoublePerlin_wideNoise, sampleDoublePerlin_wideNoise,
    samplePerlin_cellNoise lacunarity hx hz, samplePerlin_cellNoise lacunarity hz hx]
  exact cellValue_ne hx hz hDistinct

/-- The Monte-Carlo test evaluates the field of the generator exactly on the diagonal;
for one generator, exactly where its shift noise does not see the exchanged
coordinates. -/
theorem eval_sameField_iff (x z : ℤ) :
    (∀ bn : BiomeNoise, SameField bn x z ↔
      sampleDoublePerlin bn.shift x z 0 = sampleDoublePerlin bn.shift z x 0) ∧
    ((∀ bn : BiomeNoise, SameField bn x z) ↔ x = z) := by
  constructor
  · intro bn
    exact sameField_iff bn x z
  · constructor
    · intro hAll
      by_contra hOff
      obtain ⟨shift, hShift⟩ := exists_shift_ne hOff
      exact hShift ((sameField_iff ⟨shift, shift, shift, shift, shift, shift⟩ x z).mp (hAll _))
    · rintro rfl bn
      exact (sameField_iff bn x x).mpr rfl

/-- The shift noise of a seeded generator. -/
theorem setBiomeSeed_shift {fuel : ℕ} {seed : BitVec 64} {large : Bool} {bn : BiomeNoise}
    (h : setBiomeSeed fuel seed large = some bn) :
    initClimateSeed fuel (xNextLong (xSetSeed seed)).1
      (xNextLong (xNextLong (xSetSeed seed)).2).1 large .shift (-1) = some bn.shift := by
  simp only [setBiomeSeed, Option.bind_eq_bind, Option.bind_eq_some_iff] at h
  obtain ⟨temperature, -, humidity, -, continentalness, -, erosion, -, shift, hShift, weirdness, -,
    hEnd⟩ := h
  split at hEnd
  · cases hEnd
  · cases hEnd
    exact hShift

theorem eval_not_sameField_one :
    ∃ bn, setBiomeSeed 0 1#64 false = some bn ∧ ¬ SameField bn 1 0 := by
  obtain ⟨bn, hBuilt⟩ := Option.isSome_iff_exists.mp (setBiomeSeed_isSome seedAccepted_one 0)
  refine ⟨bn, hBuilt, ?_⟩
  have hValues : (initClimateSeed 0 (xNextLong (xSetSeed 1#64)).1
      (xNextLong (xNextLong (xSetSeed 1#64)).2).1 false .shift (-1)).map (fun shift =>
        decide (sampleDoublePerlin shift 1 0 0 = sampleDoublePerlin shift 0 1 0)) = some false := by
    decide +kernel
  rw [setBiomeSeed_shift hBuilt, Option.map_some, Option.some_inj, decide_eq_false_iff_not] at hValues
  intro hSame
  exact hValues (by simpa using (sameField_iff bn 1 0).mp hSame)

end Commission.Cubiomes
