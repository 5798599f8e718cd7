import Commission.Cpu.ShiftedSample

/-! How large the climate noises of a seed can be. -/
namespace Commission.Cubiomes

section Perlin

theorem abs_lerp_le {part start stop bound : ℚ} (hPart : 0 ≤ part ∧ part ≤ 1)
    (hStart : |start| ≤ bound) (hStop : |stop| ≤ bound) : |lerp part start stop| ≤ bound := by
  have hRest : 0 ≤ 1 - part := sub_nonneg.mpr hPart.2
  calc |lerp part start stop| = |(1 - part) * start + part * stop| := by
        rw [lerp]
        congr 1
        ring
    _ ≤ |(1 - part) * start| + |part * stop| := abs_add_le _ _
    _ = (1 - part) * |start| + part * |stop| := by
        rw [abs_mul, abs_mul, abs_of_nonneg hRest, abs_of_nonneg hPart.1]
    _ ≤ (1 - part) * bound + part * bound :=
        add_le_add (mul_le_mul_of_nonneg_left hStart hRest)
          (mul_le_mul_of_nonneg_left hStop hPart.1)
    _ = bound := by ring

theorem abs_indexedLerp_le (idx : UInt8) {a b c : ℚ} (ha : |a| ≤ 1) (hb : |b| ≤ 1) (hc : |c| ≤ 1) :
    |indexedLerp idx a b c| ≤ 2 := by
  rw [abs_le] at *
  unfold indexedLerp
  split <;> constructor <;> linarith

theorem fract_unit (d : ℚ) : 0 ≤ d - ⌊d⌋ ∧ d - ⌊d⌋ ≤ 1 :=
  ⟨Int.fract_nonneg d, (Int.fract_lt_one d).le⟩

/-- The cached y values are those of a position inside a cell. -/
structure PerlinNoise.InCell (noise : PerlinNoise) : Prop where
  d2 : 0 ≤ noise.d2 ∧ noise.d2 ≤ 1
  t2 : 0 ≤ noise.t2 ∧ noise.t2 ≤ 1

theorem inCell_perlinOf (idx : Fin 257 → UInt8) (a b c : ℚ) : (perlinOf idx a b c).InCell :=
  ⟨fract_unit b, smooth_mem_unit (fract_unit b).1 (fract_unit b).2⟩

variable {noise : PerlinNoise}

theorem abs_samplePerlin_le (hCell : noise.InCell) (d1 d2 d3 : ℚ) :
    |samplePerlin noise d1 d2 d3 0 0| ≤ 2 := by
  have hNear {d : ℚ} (hUnit : 0 ≤ d ∧ d ≤ 1) : |d| ≤ 1 ∧ |d - 1| ≤ 1 := by
    simp only [abs_le]
    constructor <;> constructor <;> linarith [hUnit.1, hUnit.2]
  have hSmooth {d : ℚ} (hUnit : 0 ≤ d ∧ d ≤ 1) := smooth_mem_unit hUnit.1 hUnit.2
  have hY : ∃ (y : ℚ × UInt8 × ℚ), (0 ≤ y.1 ∧ y.1 ≤ 1) ∧ (0 ≤ y.2.2 ∧ y.2.2 ≤ 1) ∧
      (if d2 = 0 then (noise.d2, noise.h2, noise.t2)
        else (d2 + noise.b - ⌊d2 + noise.b⌋, toByte ⌊d2 + noise.b⌋,
          smooth (d2 + noise.b - ⌊d2 + noise.b⌋))) = y := by
    refine ⟨_, ?_, ?_, rfl⟩
    · split
      · exact hCell.d2
      · exact fract_unit _
    · split
      · exact hCell.t2
      · exact hSmooth (fract_unit _)
  obtain ⟨y, hD2, hT2, hY⟩ := hY
  have hD1 := fract_unit (d1 + noise.a)
  have hD3 := fract_unit (d3 + noise.c)
  simp only [samplePerlin, hY, ne_eq, not_true_eq_false, if_false]
  refine abs_lerp_le (hSmooth hD3) (abs_lerp_le hT2 ?_ ?_) (abs_lerp_le hT2 ?_ ?_) <;>
    refine abs_lerp_le (hSmooth hD1) ?_ ?_ <;>
    refine abs_indexedLerp_le _ ?_ ?_ ?_ <;>
    first
    | exact (hNear hD1).1
    | exact (hNear hD1).2
    | exact (hNear hD2).1
    | exact (hNear hD2).2
    | exact (hNear hD3).1
    | exact (hNear hD3).2

end Perlin

section Octaves

/-- The sum of the amplitudes. -/
def octaveWeight (octaves : List PerlinNoise) : ℚ := (octaves.map fun p => |p.amplitude|).sum

theorem abs_sampleOctave_le {octaves : List PerlinNoise} (hCells : ∀ p ∈ octaves, p.InCell)
    (x y z : ℚ) : |sampleOctave octaves x y z| ≤ 2 * octaveWeight octaves := by
  have hFrom (v : ℚ) : |octaves.foldl (fun v p => v + p.amplitude *
      samplePerlin p (maintainPrecision (x * p.lacunarity)) (maintainPrecision (y * p.lacunarity))
        (maintainPrecision (z * p.lacunarity)) 0 0) v| ≤ |v| + 2 * octaveWeight octaves := by
    induction octaves generalizing v with
    | nil => simp [octaveWeight]
    | cons p rest ih =>
        have hSample := abs_samplePerlin_le (hCells p List.mem_cons_self)
          (maintainPrecision (x * p.lacunarity)) (maintainPrecision (y * p.lacunarity))
          (maintainPrecision (z * p.lacunarity))
        have hHere := abs_add_le v (p.amplitude * samplePerlin p
          (maintainPrecision (x * p.lacunarity)) (maintainPrecision (y * p.lacunarity))
          (maintainPrecision (z * p.lacunarity)) 0 0)
        have hProduct := mul_le_mul_of_nonneg_left hSample (abs_nonneg p.amplitude)
        have hRest := ih (fun q hMem => hCells q (List.mem_cons_of_mem p hMem)) (v + p.amplitude *
          samplePerlin p (maintainPrecision (x * p.lacunarity))
            (maintainPrecision (y * p.lacunarity)) (maintainPrecision (z * p.lacunarity)) 0 0)
        rw [abs_mul] at hHere
        rw [List.foldl_cons]
        simp only [octaveWeight, List.map_cons, List.sum_cons] at hRest ⊢
        linarith
  simpa [sampleOctave] using hFrom 0

/-- The sum of the amplitudes which `xOctaveInit` sets. -/
def initWeight : List ℚ → ℚ → ℚ
  | [], _ => 0
  | amplitude :: rest, persist => |amplitude * persist| + initWeight rest (persist * (1 / 2))

theorem initWeight_nonneg (amplitudes : List ℚ) (persist : ℚ) :
    0 ≤ initWeight amplitudes persist := by
  induction amplitudes generalizing persist with
  | nil => exact le_rfl
  | cons amplitude rest ih => exact add_nonneg (abs_nonneg _) (ih _)

variable {init : ℕ → Xoroshiro → Option PerlinNoise} {xlo xhi : BitVec 64} {omin nmax : ℤ}
  {amplitudes : List ℚ} {octaves : List PerlinNoise}

theorem octaveLoop_bounded (hInit : ∀ n xr noise, init n xr = some noise → noise.InCell) {i n : ℕ}
    {lacuna persist : ℚ}
    (hLoop : octaveLoop init xlo xhi omin nmax amplitudes i n lacuna persist = some octaves) :
    (∀ p ∈ octaves, p.InCell) ∧ octaveWeight octaves ≤ initWeight amplitudes persist := by
  induction amplitudes generalizing i n lacuna persist octaves with
  | nil =>
      cases hLoop
      exact ⟨List.forall_mem_nil _, le_rfl⟩
  | cons amplitude rest ih =>
      rw [octaveLoop] at hLoop
      split_ifs at hLoop with hMax hZero
      · cases hLoop
        exact ⟨List.forall_mem_nil _, initWeight_nonneg _ _⟩
      · obtain ⟨hCells, hWeight⟩ := ih hLoop
        exact ⟨hCells, hWeight.trans (le_add_of_nonneg_left (abs_nonneg _))⟩
      · obtain ⟨noise, hNoise, hRest⟩ := Option.bind_eq_some_iff.mp hLoop
        obtain ⟨later, hLater, rfl⟩ := Option.map_eq_some_iff.mp hRest
        obtain ⟨hCells, hWeight⟩ := ih hLater
        have hCell := hInit n _ noise hNoise
        refine ⟨List.forall_mem_cons.mpr ⟨⟨hCell.d2, hCell.t2⟩, hCells⟩, ?_⟩
        rw [octaveWeight, List.map_cons, List.sum_cons]
        exact add_le_add le_rfl hWeight

theorem xPerlinInit_inCell {fuel : ℕ} {xr : Xoroshiro} {noise : PerlinNoise}
    (hInit : xPerlinInit fuel xr = some noise) : noise.InCell := by
  obtain ⟨table, -, rfl⟩ := Option.map_eq_some_iff.mp hInit
  exact inCell_perlinOf _ _ _ _

/-- The largest value of a noise with these settings. -/
def noiseBound (amplitudes : List ℚ) : ℚ :=
  2 * (2 * initWeight amplitudes (persistIni.getD amplitudes.length 0)) *
    |ampIni.getD (trimmedLength amplitudes) 0|

theorem abs_sampleDoublePerlin_le {fuel : ℕ} {xr : Xoroshiro} {noise : DoublePerlinNoise}
    (hInit : xDoublePerlinInit fuel xr amplitudes omin nmax = some noise) (x y z : ℚ) :
    |sampleDoublePerlin noise x y z| ≤ noiseBound amplitudes := by
  simp only [xDoublePerlinInit, doublePerlinInit] at hInit
  obtain ⟨octavesA, hA, hInit⟩ := Option.bind_eq_some_iff.mp hInit
  obtain ⟨octavesB, hB, rfl⟩ := Option.map_eq_some_iff.mp hInit
  have hPerlin : ∀ (n : ℕ) (xr : Xoroshiro) (noise : PerlinNoise),
      xPerlinInit fuel xr = some noise → noise.InCell := fun _ _ _ => xPerlinInit_inCell
  obtain ⟨hCellsA, hWeightA⟩ := octaveLoop_bounded hPerlin hA
  obtain ⟨hCellsB, hWeightB⟩ := octaveLoop_bounded hPerlin hB
  have hOctA := abs_sampleOctave_le hCellsA x y z
  have hOctB := abs_sampleOctave_le hCellsB (x * (337 / 331)) (y * (337 / 331)) (z * (337 / 331))
  simp only [sampleDoublePerlin, noiseBound, zero_add, abs_mul]
  refine mul_le_mul_of_nonneg_right ?_ (abs_nonneg _)
  refine (abs_add_le _ _).trans ?_
  linarith

end Octaves

section Seed

/-- The noises of `climate`, by the numbers of the parameters. -/
def BiomeNoise.climate (bn : BiomeNoise) : ClimateParameter → DoublePerlinNoise
  | .temperature => bn.temperature
  | .humidity => bn.humidity
  | .continentalness => bn.continentalness
  | .erosion => bn.erosion
  | .shift => bn.shift
  | .weirdness => bn.weirdness

/-- No climate noise is larger than 8. -/
def BiomeNoise.Bounded (bn : BiomeNoise) : Prop :=
  ∀ nptype x y z, |sampleDoublePerlin (bn.climate nptype) x y z| ≤ 8

theorem noiseBound_climateSettings (large : Bool) (nptype : ClimateParameter) :
    noiseBound (climateSettings large nptype).2.1 ≤ 8 := by
  cases large <;> cases nptype <;> decide +kernel

variable {fuel : ℕ} {seed : BitVec 64} {large : Bool} {bn : BiomeNoise}

theorem setBiomeSeed_climate (hSeed : setBiomeSeed fuel seed large = some bn)
    (nptype : ClimateParameter) :
    initClimateSeed fuel (xNextLong (xSetSeed seed)).1 (xNextLong (xNextLong (xSetSeed seed)).2).1
      large nptype (-1) = some (bn.climate nptype) := by
  simp only [setBiomeSeed, Option.bind_eq_bind, Option.bind_eq_some_iff] at hSeed
  obtain ⟨temperature, hTemperature, humidity, hHumidity, continentalness, hContinentalness,
    erosion, hErosion, shift, hShift, weirdness, hWeirdness, hEnd⟩ := hSeed
  split at hEnd
  · cases hEnd
  · cases hEnd
    cases nptype with
    | temperature => exact hTemperature
    | humidity => exact hHumidity
    | continentalness => exact hContinentalness
    | erosion => exact hErosion
    | shift => exact hShift
    | weirdness => exact hWeirdness

theorem setBiomeSeed_bounded (hSeed : setBiomeSeed fuel seed large = some bn) : bn.Bounded :=
  fun nptype x y z => (abs_sampleDoublePerlin_le (setBiomeSeed_climate hSeed nptype) x y z).trans
    (noiseBound_climateSettings large nptype)

end Seed

end Commission.Cubiomes
