import Commission.Cubiomes.MushroomFields
import Commission.Cubiomes.NoiseBounds
import Commission.Cubiomes.Spline

/-! The climate which the biome map of the newest version is looked up with: `sampleBiomeNoise`
for the noises of a seed, and which points of the noise are mushroom fields. -/
namespace Commission.Cubiomes

/-- The parameters of the spline: `np_param`. -/
def splineParam (c e w : ℚ) : SplineType → ℚ
  | .continentalness => c
  | .erosion => e
  | .ridges => -3 * (|(|w| - 6666667 / 10000000)| - 33333334 / 100000000)
  | .weirdness => w

/-- The array `np` of `sampleBiomeNoise` in a generator which is set up for all climate
parameters. `none` is the exit of `getSpline`. -/
def sampleBiomeNoise (bn : BiomeNoise) (noShift : Bool) (x y z : ℤ) : Option (ℕ → ℤ) :=
  let p := sampleBiomeNoisePosition bn noShift x z
  let c := sampleDoublePerlin bn.continentalness p.1 0 p.2
  let e := sampleDoublePerlin bn.erosion p.1 0 p.2
  let w := sampleDoublePerlin bn.weirdness p.1 0 p.2
  (getSpline (splineParam c e w) terrain.1).map fun spline =>
    let off := spline + 15 / 1000
    let d := 1 - ((y * 4 : ℤ) : ℚ) / 128 - 83 / 160 + off
    let t := sampleDoublePerlin bn.temperature p.1 0 p.2
    let h := sampleDoublePerlin bn.humidity p.1 0 p.2
    fun i => truncRat (10000 * [t, h, c, e, d, w].getD i 0)

section Values

theorem truncRat_bounds (q : ℚ) : q - 1 < truncRat q ∧ (truncRat q : ℚ) < q + 1 := by
  rw [truncRat]
  split
  · exact ⟨Int.sub_one_lt_floor q, (Int.floor_le q).trans_lt (lt_add_one q)⟩
  · exact ⟨(sub_one_lt q).trans_le (Int.le_ceil q), Int.ceil_lt_add_one q⟩

theorem truncRat_le_iff {q : ℚ} {n : ℤ} (hNegative : n < 0) : truncRat q ≤ n ↔ q ≤ n := by
  rw [truncRat]
  split_ifs with hSign
  · have hCast : (n : ℚ) < 0 := by exact_mod_cast hNegative
    have hFloor := Int.floor_nonneg.mpr hSign
    constructor <;> intro hLe
    · omega
    · exact absurd (hSign.trans hLe) (not_le.mpr hCast)
  · exact Int.ceil_le

theorem le_truncRat_iff {q : ℚ} {n : ℤ} (hPositive : 0 < n) : n ≤ truncRat q ↔ (n : ℚ) ≤ q := by
  rw [truncRat]
  split_ifs with hSign
  · exact Int.le_floor
  · have hCast : (0 : ℚ) < n := by exact_mod_cast hPositive
    have hCeil : ⌈q⌉ ≤ 0 := Int.ceil_le.mpr (by exact_mod_cast (not_le.mp hSign).le)
    constructor <;> intro hLe
    · omega
    · exact absurd (hCast.trans_le hLe) (fun hAbove => hSign hAbove.le)

theorem splineParam_bounds {c e w : ℚ} (hc : |c| ≤ 8) (he : |e| ≤ 8) (hw : |w| ≤ 8) :
    ∀ typ, splineLow typ ≤ splineParam c e w typ ∧ splineParam c e w typ ≤ splineHigh typ := by
  intro typ
  cases typ with
  | continentalness => exact abs_le.mp hc
  | erosion => exact abs_le.mp he
  | weirdness => exact abs_le.mp hw
  | ridges =>
      have hFold : |(|w| - 6666667 / 10000000)| ≤ 15 / 2 := by
        rw [abs_le]
        constructor <;> linarith [abs_nonneg w]
      simp only [splineParam, splineLow, splineHigh]
      constructor <;> linarith [abs_nonneg (|w| - 6666667 / 10000000)]

end Values

section Sampled

variable {bn : BiomeNoise}

/-- Every climate of bounded noises is sampled, no parameter comes near the limits of 64 bits, and
from height 256 on nothing is below the surface. -/
theorem sampleBiomeNoise_moderate (hBounded : bn.Bounded) (noShift : Bool) (x z : ℤ) {y : ℤ}
    (hHeight : 0 ≤ y ∧ y ≤ 320) :
    ∃ np, sampleBiomeNoise bn noShift x y z = some np ∧ Moderate np ∧ (64 ≤ y → np 4 < 1000) := by
  have hBound (nptype : ClimateParameter) := hBounded nptype
    (sampleBiomeNoisePosition bn noShift x z).1 0 (sampleBiomeNoisePosition bn noShift x z).2
  have hc := hBound .continentalness
  have he := hBound .erosion
  have hw := hBound .weirdness
  have ht := hBound .temperature
  have hh := hBound .humidity
  simp only [BiomeNoise.climate] at hc he hw ht hh
  obtain ⟨spline, hSpline, hLow, hHigh⟩ :=
    getSpline_enclosed (splineParam_bounds hc he hw) terrain.1 terrain_wellFormed
  have hLow := terrain_bounds.1.trans hLow
  have hHigh := hHigh.trans terrain_bounds.2
  have hBottom : (0 : ℚ) ≤ y := by exact_mod_cast hHeight.1
  have hTop : (y : ℚ) ≤ 320 := by exact_mod_cast hHeight.2
  simp only [sampleBiomeNoise, hSpline, Option.map_some]
  refine ⟨_, rfl, fun i hi => ?_, fun hSky => ?_⟩
  · have hTrunc {q : ℚ} (hq : |q| ≤ 100) : |truncRat (10000 * q)| ≤ 2 ^ 20 := by
      have hNear := truncRat_bounds (10000 * q)
      rw [abs_le] at hq
      have hCast : |(truncRat (10000 * q) : ℚ)| ≤ 2 ^ 20 := by
        rw [abs_le]
        constructor <;> norm_num <;> linarith [hq.1, hq.2, hNear.1, hNear.2]
      exact_mod_cast hCast
    refine hTrunc ?_
    rw [abs_le] at *
    interval_cases i <;> simp only [List.getD_cons_zero, List.getD_cons_succ] <;> push_cast <;>
      constructor <;> linarith
  · have hSkyCast : (64 : ℚ) ≤ y := by exact_mod_cast hSky
    have hNear := (truncRat_bounds (10000 * (1 - ((y * 4 : ℤ) : ℚ) / 128 - 83 / 160 +
      (spline + 15 / 1000)))).2
    have hCast : (truncRat (10000 * (1 - ((y * 4 : ℤ) : ℚ) / 128 - 83 / 160 +
        (spline + 15 / 1000))) : ℚ) < 1000 := by
      refine hNear.trans ?_
      push_cast
      linarith
    exact_mod_cast hCast

/-- Whatever the seed, its noises can be sampled everywhere: the splines of the terrain fit their
arrays and are never bad parameters for `getSpline`, the squares of no climate overflow, and at
the height of the final test of the biome centres no position is below the surface. -/
theorem setBiomeSeed_sampled (fuel : ℕ) (seed : BitVec 64) (large : Bool) (bn : BiomeNoise)
    (hSeed : setBiomeSeed fuel seed large = some bn) :
    terrain.1.wellFormed = true ∧ terrain.2.len ≤ 42 ∧ terrain.2.flen ≤ 151 ∧
      ∀ (noShift : Bool) (x y z : ℤ), 0 ≤ y ∧ y ≤ 320 →
        ∃ np, sampleBiomeNoise bn noShift x y z = some np ∧ Moderate np ∧
          (64 ≤ y → np 4 < 1000) :=
  ⟨terrain_wellFormed, terrain_stack.1, terrain_stack.2, fun noShift x _ z hHeight =>
    sampleBiomeNoise_moderate (setBiomeSeed_bounded hSeed) noShift x z hHeight⟩

theorem setBiomeSeed_sampled_one :
    ∃ bn np, setBiomeSeed 0 1#64 false = some bn ∧ sampleBiomeNoise bn false 0 64 0 = some np ∧
      Moderate np ∧ np 4 < 1000 := by
  obtain ⟨bn, hSeed⟩ := Option.isSome_iff_exists.mp (setBiomeSeed_isSome seedAccepted_one 0)
  obtain ⟨np, hSample, hModerate, hSky⟩ :=
    (setBiomeSeed_sampled 0 1#64 false bn hSeed).2.2.2 false 0 64 0 (by decide)
  exact ⟨bn, np, hSeed, hSample, hModerate, hSky le_rfl⟩

/-- The climate at a position. -/
def BiomeNoise.climateAt (bn : BiomeNoise) (noShift : Bool) (x y z : ℤ) : ℕ → ℤ :=
  (sampleBiomeNoise bn noShift x y z).getD fun _ => 0

theorem climateAt_moderate (hBounded : bn.Bounded) (noShift : Bool) (x z : ℤ) {y : ℤ}
    (hHeight : 0 ≤ y ∧ y ≤ 320) :
    Moderate (bn.climateAt noShift x y z) ∧ (64 ≤ y → bn.climateAt noShift x y z 4 < 1000) := by
  obtain ⟨np, hSample, hModerate, hSky⟩ := sampleBiomeNoise_moderate hBounded noShift x z hHeight
  rw [BiomeNoise.climateAt, hSample]
  exact ⟨hModerate, hSky⟩

/-- Where the shifted noises are those of mushroom fields. -/
def MushroomNoise (bn : BiomeNoise) (x z : ℤ) : Prop :=
  let p := sampleBiomeNoisePosition bn false x z
  let c := sampleDoublePerlin bn.continentalness p.1 0 p.2
  let t := sampleDoublePerlin bn.temperature p.1 0 p.2
  c ≤ -(10501 / 10000) ∨ c ≤ -(105 / 100) ∧ 2001 / 10000 ≤ t

theorem mushroomClimate_iff_noise (hBounded : bn.Bounded) (x z : ℤ) {y : ℤ}
    (hHeight : 0 ≤ y ∧ y ≤ 320) :
    MushroomClimate (bn.climateAt false x y z) ↔ MushroomNoise bn x z := by
  obtain ⟨np, hSample, -⟩ := sampleBiomeNoise_moderate hBounded false x z hHeight
  rw [BiomeNoise.climateAt, hSample, Option.getD_some]
  obtain ⟨spline, -, rfl⟩ := Option.map_eq_some_iff.mp hSample
  simp only [MushroomClimate, MushroomNoise, List.getD_cons_zero, List.getD_cons_succ]
  generalize sampleDoublePerlin bn.continentalness _ _ _ = c
  generalize sampleDoublePerlin bn.temperature _ _ _ = t
  have hOffshore : c ≤ -(10501 / 10000) ↔ truncRat (10000 * c) ≤ -10501 := by
    rw [truncRat_le_iff (by decide)]
    push_cast
    constructor <;> intro hLe <;> linarith
  have hCoast : c ≤ -(105 / 100) ↔ truncRat (10000 * c) ≤ -10500 := by
    rw [truncRat_le_iff (by decide)]
    push_cast
    constructor <;> intro hLe <;> linarith
  have hWarm : 2001 / 10000 ≤ t ↔ 2001 ≤ truncRat (10000 * t) := by
    rw [le_truncRat_iff (by decide)]
    push_cast
    constructor <;> intro hLe <;> linarith
  rw [hOffshore, hCoast, hWarm]
  omega

end Sampled

/-- The number of the noise for a parameter of `para`. -/
def climateParameter : Climate → ClimateParameter
  | .temperature => .temperature
  | .humidity => .humidity
  | .erosion => .erosion
  | .continentalness => .continentalness
  | .weirdness => .weirdness

/-- A generator for `MC_NEWEST` with the noises of a seed. -/
def newestGenerator (bt : BiomeTree) (limits : ℤ → Climate → ℤ × ℤ) (tileIds : Range → ℤ → ℤ → ℤ)
    (bn : BiomeNoise) : Generator where
  toBiomeSource :=
    bt.biomeSource fun noShift x y z i => BitVec.ofInt 64 (bn.climateAt noShift x y z i)
  climate k px pz :=
    truncRat (10000 * sampleDoublePerlin (bn.climate (climateParameter k)) px 0 pz)
  biomeParaLimits := limits
  tileIds := tileIds

/-- The noises before any seed is applied. -/
def BiomeNoise.unset : BiomeNoise :=
  let noise := ⟨0, [], []⟩
  ⟨noise, noise, noise, noise, noise, noise⟩

/-- A `Cubiomes` object: `cubiomes_apply_seed` sets up the noises, for a seed with which it comes
to an end. -/
def newestCubiomes (bt : BiomeTree) (limits : ℤ → Climate → ℤ × ℤ)
    (tileIds : Range → ℤ → ℤ → ℤ)
    (testMonteCarlo : (seed : BitVec 64) → (x z : BitVec 32) → (range minArea : ℤ) → Bool)
    (fuel : ℕ) (large : Bool) : Commission.Cubiomes where
  g seed := newestGenerator bt limits tileIds ((setBiomeSeed fuel seed large).getD .unset)
  newest _ := rfl
  testMonteCarlo := testMonteCarlo

theorem newestCubiomes_g {bt : BiomeTree} {limits : ℤ → Climate → ℤ × ℤ}
    {tileIds : Range → ℤ → ℤ → ℤ}
    {testMonteCarlo : (seed : BitVec 64) → (x z : BitVec 32) → (range minArea : ℤ) → Bool}
    {fuel : ℕ} {large : Bool} {seed : BitVec 64} {bn : BiomeNoise}
    (hSeed : setBiomeSeed fuel seed large = some bn) :
    (newestCubiomes bt limits tileIds testMonteCarlo fuel large).g seed =
      newestGenerator bt limits tileIds bn := by
  have hSet : (setBiomeSeed fuel seed large).getD .unset = bn := by rw [hSeed, Option.getD_some]
  exact congrArg (newestGenerator bt limits tileIds) hSet

section Island

open GridSearch BoundedRuns

/-- Cells of 4 blocks which hang together in the noise of mushroom fields, with fewer than `tol`
other cells in a row between them. -/
structure NoiseIsland (bn : BiomeNoise) (r : Range) (tol : ℕ) (cells : Finset GridSearch.Cell) :
    Prop where
  inside : ∀ c ∈ cells, InGrid r.sx r.sz c
  mushroom : ∀ c ∈ cells, MushroomNoise bn (r.x + c.1) (r.z + c.2)
  joined : ∃ first, ∀ c ∈ cells, ∃ path, Walk Adj (InGrid r.sx r.sz)
    (fun c' => ¬MushroomNoise bn (r.x + c'.1) (r.z + c'.2)) tol first path ∧ path.getLast? = some c

variable {bt : BiomeTree} {before after : List ℕ} {field : ℕ} {limits : ℤ → Climate → ℤ × ℤ}
  {tileIds : Range → ℤ → ℤ → ℤ} {bn : BiomeNoise}

/-- At height 256 the biome map tells exactly where the noise is that of mushroom fields. -/
theorem getBiomeAt_iff_noise (hTable : bt.MushroomLeaves before field after)
    (hBounded : bn.Bounded) (x z : ℤ) :
    (newestGenerator bt limits tileIds bn).getBiomeAt 4 x 64 z = mushroomFields ↔
      MushroomNoise bn x z := by
  have hHeight : (0 : ℤ) ≤ 64 ∧ (64 : ℤ) ≤ 320 := by decide
  have hMiddle (i : ℤ) : cellMiddle 4 i = i := by simp [cellMiddle]
  have hBiome := getBiomeAt_mushroomFields_iff hTable (y := 64)
    (fun noShift x z => (climateAt_moderate hBounded noShift x z hHeight).1)
    (fun noShift x z => (climateAt_moderate hBounded noShift x z hHeight).2 le_rfl) 4 x z
  rw [hMiddle, hMiddle, decide_eq_false (lt_irrefl _)] at hBiome
  exact hBiome.trans (mushroomClimate_iff_noise hBounded x z hHeight)

/-- For every seed, the biome map of the final test is mushroom fields exactly where the noises of
continentalness and temperature are. -/
theorem mushroomFields_iff_noise (bt : BiomeTree) (before after : List ℕ) (field fuel : ℕ)
    (seed : BitVec 64) (large : Bool) (bn : BiomeNoise) (limits : ℤ → Climate → ℤ × ℤ)
    (tileIds : Range → ℤ → ℤ → ℤ) (x z : ℤ) (hTable : bt.MushroomLeaves before field after)
    (hSeed : setBiomeSeed fuel seed large = some bn) :
    (newestGenerator bt limits tileIds bn).getBiomeAt 4 x 64 z = mushroomFields ↔
      MushroomNoise bn x z :=
  getBiomeAt_iff_noise hTable (setBiomeSeed_bounded hSeed) x z

theorem mushroomFields_iff_noise_one :
    ∃ bn, setBiomeSeed 0 1#64 false = some bn ∧
      ((newestGenerator coastTable (fun _ _ => (intMin, intMax)) (fun _ _ _ => 0) bn).getBiomeAt
        4 0 64 0 = mushroomFields ↔ MushroomNoise bn 0 0) := by
  obtain ⟨bn, hSeed⟩ := Option.isSome_iff_exists.mp (setBiomeSeed_isSome seedAccepted_one 0)
  exact ⟨bn, hSeed, mushroomFields_iff_noise coastTable [2, 3, 4] [6, 7, 9, 10] 5 0 1#64 false bn _ _
    0 0 coastTable_mushroomLeaves hSeed⟩

theorem noiseIsland_of_island (hTable : bt.MushroomLeaves before field after)
    (hBounded : bn.Bounded) {r : Range} (hScale : r.scale = 4) (hHeight : r.y = 64) {tol : ℕ}
    {cells : Finset GridSearch.Cell}
    (hIsland : Island (newestGenerator bt limits tileIds bn) r tol cells) :
    NoiseIsland bn r tol cells := by
  have hBiome (c : GridSearch.Cell) : (newestGenerator bt limits tileIds bn).getBiomeAt r.scale
      (r.x + c.1) r.y (r.z + c.2) = mushroomFields ↔ MushroomNoise bn (r.x + c.1) (r.z + c.2) := by
    rw [hScale, hHeight]
    exact getBiomeAt_iff_noise hTable hBounded _ _
  refine ⟨hIsland.inside, fun c hC => (hBiome c).mp (hIsland.mushroom c hC), ?_⟩
  simpa only [ne_eq, hBiome] using hIsland.joined

end Island

end Commission.Cubiomes
