import Commission.Noise.Device
import Commission.Cubiomes.Noise
import Mathlib.Data.List.GetD
import Mathlib.Tactic.FinCases
import Mathlib.Tactic.NormNum

/-! In exact arithmetic the device evaluator and `sampleDoublePerlin` give the
same value on the same tables. -/
namespace Commission

open Cubiomes (PerlinNoise indexedLerp lerp smooth samplePerlin entry)

/-- The cubiomes noise which holds the table and the offsets of a device noise. -/
def heldPerlin (noise : ImprovedNoise ℚ) : PerlinNoise :=
  Cubiomes.perlinOf (fun i => noise.p (Fin.ofNat 256 i)) noise.xo noise.yo noise.zo

/-- The gradient table has the rows of the gradient switch. -/
theorem gradDot_eq_indexedLerp (p : UInt8) (x y z : ℚ) :
    gradDot initGradDotTable p x y z = indexedLerp p x y z := by
  have hHash : (lowNibble p : ℕ) = p.toNat % 16 := rfl
  simp only [gradDot, initGradDotTable, indexedLerp, ← hHash, Arith.fma_exact, Arith.ofInt_exact]
  generalize lowNibble p = hash
  fin_cases hash <;> simp [gradDotRows] <;> ring

theorem smoothstep_eq_smooth (value : ℚ) : smoothstep value = smooth value := by
  simp only [smoothstep, smooth, Arith.const_exact]

theorem lerp1_eq_lerp (fx v0 v1 : ℚ) : lerp1 fx v0 v1 = lerp fx v0 v1 := by
  simp only [lerp1, lerp, Arith.fma_exact]
  ring

/-- Reading `idx[v]` or `idx[v+1]` is reading the masked index: the 257th entry
repeats the first one. -/
theorem entry_heldPerlin (noise : ImprovedNoise ℚ) (v : UInt8) {offset : ℕ} (h : offset ≤ 1) :
    entry (heldPerlin noise).d v offset = noise.p (maskByte (v.toNat + offset)) := by
  have hv := v.toNat_lt
  simp only [entry, heldPerlin, Cubiomes.perlinOf, Function.update_apply]
  split
  · next hLast =>
      have hSum : v.toNat + offset = 256 := by
        have hVal := congrArg Fin.val hLast
        simp only [Fin.val_ofNat] at hVal
        change (v.toNat + offset) % 257 = 256 at hVal
        omega
      congr 1
      apply Fin.ext
      zify
      rw [maskByte_val, ← Int.natCast_add, hSum]
      decide
  · next hLast =>
      have hSum : v.toNat + offset ≠ 256 := by
        intro he
        exact hLast (by rw [he]; rfl)
      congr 1
      apply Fin.ext
      zify
      rw [maskByte_val]
      simp only [Fin.val_ofNat]
      push_cast
      omega

/-- Adding bytes with wrap-around and masking the integer sum agree. -/
theorem maskByte_add_toByte (c : UInt8) (n : ℤ) (offset : ℕ) :
    maskByte ((c + toByte n).toNat + offset) = maskByte (c.toNat + n + offset) := by
  apply maskByte_congr
  have hn := toByte_toNat n
  rw [UInt8.toNat_add]
  push_cast
  omega

theorem maskByte_toByte (n : ℤ) (offset : ℕ) :
    maskByte ((toByte n).toNat + offset) = maskByte (n + offset) := by
  apply maskByte_congr
  have hn := toByte_toNat n
  omega

/-- One octave: `sample_noise` at `y = 0` is `samplePerlin` with its cached y
values. -/
theorem sampleNoise_eq_samplePerlin (noise : ImprovedNoise ℚ) (x z : ℚ) :
    sampleNoise initGradDotTable noise x 0 z = samplePerlin (heldPerlin noise) x 0 z 0 0 := by
  have hh2 : (heldPerlin noise).h2 = toByte ⌊noise.yo⌋ := rfl
  have hd2 : (heldPerlin noise).d2 = noise.yo - ⌊noise.yo⌋ := rfl
  have ht2 : (heldPerlin noise).t2 = smooth (noise.yo - ⌊noise.yo⌋) := rfl
  have ha : (heldPerlin noise).a = noise.xo := rfl
  have hc : (heldPerlin noise).c = noise.zo := rfl
  have zero (v : UInt8) : entry (heldPerlin noise).d v 0 = noise.p (maskByte v.toNat) := by
    simpa using entry_heldPerlin noise v (Nat.zero_le 1)
  have one (v : UInt8) : entry (heldPerlin noise).d v 1 = noise.p (maskByte (v.toNat + 1)) := by
    simpa using entry_heldPerlin noise v (Nat.le_refl 1)
  have sum0 (c : UInt8) (n : ℤ) : maskByte (c + toByte n).toNat = maskByte (c.toNat + n) := by
    simpa using maskByte_add_toByte c n 0
  have sum1 (c : UInt8) (n : ℤ) :
      maskByte ((c + toByte n).toNat + 1) = maskByte (c.toNat + n + 1) := by
    simpa using maskByte_add_toByte c n 1
  have first0 (n : ℤ) : maskByte (toByte n).toNat = maskByte n := by
    simpa using maskByte_toByte n 0
  have first1 (n : ℤ) : maskByte ((toByte n).toNat + 1) = maskByte (n + 1) := by
    simpa using maskByte_toByte n 1
  simp only [sampleNoise, samplePerlin, lerp3, lerp2, lerp1_eq_lerp, smoothstep_eq_smooth,
    gradDot_eq_indexedLerp, hh2, hd2, ht2, ha, hc, zero, one, sum0, sum1, first0, first1,
    Arith.floorInt_exact, Arith.ofInt_exact, Arith.const_exact, zero_add, if_true, ne_eq,
    not_true_eq_false, if_false]

theorem sampleOctave_eq_samplePerlin (config : OctaveConfig) (noise : ImprovedNoise ℚ) (x z : ℤ) :
    sampleOctave config initGradDotTable noise x 0 z =
      samplePerlin (heldPerlin noise) (x * config.inputFactor) 0 (z * config.inputFactor) 0 0 *
        config.valueFactor := by
  simp only [sampleOctave, wrap, Arith.ofInt_exact, Arith.const_exact, Int.cast_zero, zero_mul,
    sampleNoise_eq_samplePerlin]

/-- Fill octave `n` of a half with a given table instead of drawing one. -/
def heldOctave (result : Result ℚ) (half : Half) (n : ℕ) (_ : Cubiomes.Xoroshiro) :
    Option PerlinNoise :=
  some (heldPerlin (result ⟨Fin.ofNat 9 n, half⟩))

/-- Lacunarity of octave `k`. -/
def octaveLacunarity (large : Bool) (k : Fin 9) : ℚ :=
  2 ^ (k : ℕ) / (if large then 2048 else 512)

/-- Amplitude of octave `k` inside its half. -/
def octaveAmplitude (k : Fin 9) : ℚ :=
  [1, 1, 2, 2, 2, 1, 1, 1, 1].getD k 0 * (256 / 511) / 2 ^ (k : ℕ)

/-- The scaling of the device: both halves share the amplitude, `3/2` is the
amplitude of the double noise and the second half is stretched by `337/331`. -/
theorem octaveConfig_factors (large : Bool) (member : Member) :
    (octaveConfig large member).valueFactor = octaveAmplitude member.octave * (3 / 2) ∧
      (octaveConfig large member).inputFactor =
        (match member.half with | .a => 1 | .b => 337 / 331) *
          octaveLacunarity large member.octave := by
  obtain ⟨octave, half⟩ := member
  cases large <;> cases half <;> revert octave <;> decide +kernel

/-- With octaves that are given, the loop of `xOctaveInit` only scales them. -/
theorem octaveLoop_given (given : ℕ → PerlinNoise) (xlo xhi : BitVec 64) (omin : ℤ)
    {amplitudes : List ℚ} (hNonzero : ∀ amplitude ∈ amplitudes, amplitude ≠ 0) (i n : ℕ)
    (lacuna persist : ℚ) :
    Cubiomes.octaveLoop (fun k _ => some (given k)) xlo xhi omin (-1) amplitudes i n lacuna persist =
      some (amplitudes.mapIdx fun k amplitude =>
        { given (n + k) with
          amplitude := amplitude * (persist / 2 ^ k)
          lacunarity := lacuna * 2 ^ k }) := by
  induction amplitudes generalizing i n lacuna persist with
  | nil => rfl
  | cons amplitude rest ih =>
      have hLimit : ¬((n : ℤ) = -1) := by omega
      have hRest : ∀ a ∈ rest, a ≠ 0 := fun a ha => hNonzero a (List.mem_cons_of_mem _ ha)
      rw [Cubiomes.octaveLoop, if_neg hLimit, if_neg (hNonzero _ (List.mem_cons_self ..)),
        Option.bind_some, ih hRest, Option.map_some, List.mapIdx_cons]
      simp only [Nat.add_zero, pow_zero, div_one, mul_one, pow_succ, Nat.add_assoc, Nat.add_comm 1]
      congr 2
      apply List.ext_getElem (by simp)
      intro k hk _
      simp only [List.getElem_mapIdx]
      congr 1
      · ring
      · ring

theorem octaveLoop_held (large : Bool) (result : Result ℚ) (half : Half) (xlo xhi : BitVec 64) :
    Cubiomes.octaveLoop (heldOctave result half) xlo xhi
        (Cubiomes.climateSettings large .continentalness).2.2 (-1)
        (Cubiomes.climateSettings large .continentalness).2.1 0 0
        (Cubiomes.lacunaIni.getD (-(Cubiomes.climateSettings large .continentalness).2.2).toNat 0)
        (Cubiomes.persistIni.getD
          (Cubiomes.climateSettings large .continentalness).2.1.length 0) =
      some ((List.finRange 9).map fun k =>
        { heldPerlin (result ⟨k, half⟩) with
          amplitude := octaveAmplitude k
          lacunarity := octaveLacunarity large k }) := by
  have hAmplitudes : (Cubiomes.climateSettings large .continentalness).2.1 =
      [1, 1, 2, 2, 2, 1, 1, 1, 1] := rfl
  have hNonzero : ∀ amplitude ∈ (Cubiomes.climateSettings large .continentalness).2.1,
      amplitude ≠ 0 := by
    rw [hAmplitudes]
    intro amplitude hm
    simp only [List.mem_cons, List.not_mem_nil, or_false] at hm
    rcases hm with rfl | rfl | rfl | rfl | rfl | rfl | rfl | rfl | rfl <;> norm_num
  have hGiven := octaveLoop_given (fun k => heldPerlin (result ⟨Fin.ofNat 9 k, half⟩)) xlo xhi
    (Cubiomes.climateSettings large .continentalness).2.2 hNonzero 0 0
    (Cubiomes.lacunaIni.getD (-(Cubiomes.climateSettings large .continentalness).2.2).toNat 0)
    (Cubiomes.persistIni.getD (Cubiomes.climateSettings large .continentalness).2.1.length 0)
  refine hGiven.trans (congrArg some (List.ext_getElem (by simp [hAmplitudes]) ?_))
  intro k hk _
  have hk9 : k < 9 := by simpa [hAmplitudes] using hk
  have hFin : Fin.ofNat 9 k = ⟨k, hk9⟩ := Fin.ext (Nat.mod_eq_of_lt hk9)
  simp only [List.getElem_mapIdx, List.getElem_map, List.getElem_finRange, Nat.zero_add, hFin,
    hAmplitudes, octaveAmplitude, octaveLacunarity, Fin.cast_mk]
  congr 1
  · rw [List.getD_eq_getElem [(1 : ℚ), 1, 2, 2, 2, 1, 1, 1, 1] 0 (by simpa using hk9)]
    change [(1 : ℚ), 1, 2, 2, 2, 1, 1, 1, 1][k] * (256 / 511 / 2 ^ k) = _
    ring
  · cases large <;> simp [Cubiomes.climateSettings, Cubiomes.lacunaIni] <;> ring

/-- The device value of a member, through the octave cubiomes samples. -/
theorem sampleOctave_member (large : Bool) (result : Result ℚ) (member : Member) (x z : ℤ) :
    sampleOctave (octaveConfig large member) initGradDotTable (result member) x 0 z =
      samplePerlin (heldPerlin (result member))
        (x * (match member.half with | .a => 1 | .b => 337 / 331) *
          octaveLacunarity large member.octave) 0
        (z * (match member.half with | .a => 1 | .b => 337 / 331) *
          octaveLacunarity large member.octave) 0 0 *
        (octaveAmplitude member.octave * (3 / 2)) := by
  obtain ⟨hValue, hInput⟩ := octaveConfig_factors large member
  rw [sampleOctave_eq_samplePerlin, hValue, hInput, mul_assoc, mul_assoc]

/-- Scaling fields play no part in `samplePerlin`. -/
theorem samplePerlin_scaled (noise : PerlinNoise) (amplitude lacunarity d1 d2 d3 yamp ymin : ℚ) :
    samplePerlin { noise with amplitude := amplitude, lacunarity := lacunarity } d1 d2 d3 yamp ymin =
      samplePerlin noise d1 d2 d3 yamp ymin := rfl

/-- `ResultSampler<18>::sample` at `y = 0` is `sampleDoublePerlin` over a
double noise which holds the same tables and offsets and is scaled by the loop
of `xDoublePerlinInit`, for normal and large biomes alike. -/
theorem sample_eq_sampleDoublePerlin (large : Bool) (result : Result ℚ) (xr : Cubiomes.Xoroshiro)
    (x z : ℤ) :
    (Cubiomes.doublePerlinInit (heldOctave result .a) (heldOctave result .b) xr
        (Cubiomes.climateSettings large .continentalness).2.1
        (Cubiomes.climateSettings large .continentalness).2.2 (-1)).map
          (fun noise => Cubiomes.sampleDoublePerlin noise x 0 z) =
      some (ResultSampler.sample large 18 initGradDotTable result x 0 z) := by
  have hMax : ¬(0 : ℤ) < -1 := by decide
  have hAmplitude : Cubiomes.ampIni.getD (Cubiomes.trimmedLength
      (Cubiomes.climateSettings large .continentalness).2.1) 0 = 3 / 2 := by
    cases large <;> decide +kernel
  have hRange : List.range 18 =
      [0, 1, 2, 3, 4, 5, 6, 7, 8, 9, 10, 11, 12, 13, 14, 15, 16, 17] := by decide
  have hFin : List.finRange 9 = [0, 1, 2, 3, 4, 5, 6, 7, 8] := by decide
  simp only [Cubiomes.doublePerlinInit, hMax, if_false, Cubiomes.octaveInit, octaveLoop_held,
    Option.bind_some, Option.map_some, hAmplitude, Option.some.injEq]
  -- both sides are now sums of the same eighteen octave values
  simp only [Cubiomes.sampleDoublePerlin, Cubiomes.sampleOctave, Cubiomes.maintainPrecision,
    ResultSampler.sample, sampleOctave_member, samplePerlin_scaled, hRange, hFin, List.map_cons,
    List.map_nil, List.foldl_cons, List.foldl_nil, zero_mul, Arith.const_exact, samplerMember,
    resultMembers, List.getD_cons_succ, List.getD_cons_zero, mul_one]
  ring

end Commission
