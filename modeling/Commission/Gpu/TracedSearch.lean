import Commission.Gpu.RareSeeds
import Commission.Gpu.Search
import Commission.Gpu.WindowScores
import Commission.Noise.Shuffle
import Commission.Random.Period
import Mathlib.Data.Int.Interval

/-! A search with results. Its arithmetic keeps the terms which values were computed by, and
decides by the integers in them: of each seed with the given `row` it keeps the windows of
`filter_gradvecs_1` with one of sixteen hashes, of these at most one in `filter_2_01a`, and all
tiles of that one. -/
namespace Commission

/-- A value: a constant, a converted integer, or a `fmaf` of two values. -/
inductive Traced (row nz : ℕ) where
  | const (q : ℚ)
  | int (n : ℤ)
  | fma (x z : Traced row nz)

namespace Traced

variable {row nz : ℕ}

/-- The first value which is no constant. -/
def pick : Traced row nz → Traced row nz → Traced row nz
  | .const _, y => y
  | x, _ => x

/-- The first and the last row of the square of the window in row `nz`, up to whole periods. -/
def lowRow (nz : ℕ) (z : ℤ) : Bool :=
  (z - 2048 * nz + 3840) % 524288 = 0 ∨ (z - 2048 * nz + 3840) % 524288 = 7680

/-- The columns of the square of the first window, up to whole periods. -/
def lowColumn (x : ℤ) : Bool := (x + 3840) % 524288 < 8192

/-- Noise below -1 is asked for at any point, other noise at low points. -/
def lt : Traced row nz → Traced row nz → Bool
  | .fma (.int z) (.fma _ (.fma (.int x) _)), .const q => q < -1 || lowRow nz z && lowColumn x
  | _, _ => true

/-- The score of a seed is its row; the gate of `filter_gradvecs_1` lets the entry zero through. -/
def le : Traced row nz → Traced row nz → Bool
  | .const _, .int n => n % 2 ^ 16 ≠ row
  | .const q, .const r => q ≠ KernelFilterGradVecs1.prefilterThreshold || r = 0
  | _, _ => true

instance : Arith (Traced row nz) where
  add := pick
  sub x _ := x
  mul := pick
  fma x _ z := .fma x z
  abs x := x
  const := .const
  ofInt := .int
  floorInt _ := 0
  truncInt _ := 0
  lt := lt
  le := le

section Seeds

open KernelFilterSeeds

theorem scoreStaysBelow_int (term : ℚ → Member → Traced row nz) (n : ℤ) (rest : List (ℚ × Member)) :
    scoreStaysBelow term (.int n) rest = decide (n % 2 ^ 16 = row) := by
  have hTest : Arith.le (Arith.const maxScore) (.int n : Traced row nz) =
      decide (n % 2 ^ 16 ≠ row) := rfl
  induction rest with
  | nil =>
      rw [scoreStaysBelow, hTest]
      simp
  | cons part rest ih =>
      have hSum : (.int n + term part.1 part.2 : Traced row nz) = .int n := rfl
      rw [scoreStaysBelow, hTest, hSum, ih]
      simp

/-- `filter_seeds` keeps the seeds with the given row. -/
theorem accepts_seed (seed : BitVec 64) :
    KernelFilterSeeds.accepts (Traced row nz) true seed = decide (rowOfSeed seed = row) := by
  refine (scoreStaysBelow_int _ _ _).trans (decide_eq_decide.mpr ?_)
  rw [rowOfSeed]
  norm_cast

end Seeds

section Windows

open KernelFilterGradVecs1

/-- A score of constants is the last one. -/
theorem convSum_traced (table : List (List ℕ)) (p : Fin 256 → UInt8) (dny first dnx : ℕ) :
    convSum (F := Traced row nz) (initConvKernel table) p dny first dnx =
      .const (hostEntry table dny dnx 5 (lowNibble (p (maskByte (first + 5 : ℕ))))) := rfl

theorem convZ_traced (table : List (List ℕ)) (p : Fin 256 → UInt8) (dny : ℕ) {index : ℕ}
    (hIndex : index < 512) (dnx : ℕ) :
    convZ (F := Traced row nz) (initConvKernel table) p dny index dnx =
      .const (hostEntry table dny dnx 5 (lowNibble (p (maskByte (index + 5 : ℕ))))) := by
  rw [convZ]
  split
  · exact convSum_traced ..
  · have hByte : maskByte (index - 256 + 5 : ℕ) = maskByte (index + 5 : ℕ) :=
      maskByte_congr (by omega)
    rw [convSum_traced, hByte]

/-- A score of four entries is the last one. -/
theorem scoreCenter2x2_traced (table : List (List ℕ)) (p : Fin 256 → UInt8) {idx0 idx1 : ℕ → ℕ}
    (hIdx0 : ∀ i, idx0 i < 512) (hIdx1 : ∀ i, idx1 i < 512) :
    scoreCenter2x2 (convZ (F := Traced row nz) (initConvKernel table) p 0)
        (convZ (initConvKernel table) p 1) idx0 idx1 =
      .const (hostEntry table 1 3 5 (lowNibble (p (maskByte (idx1 3 + 5 : ℕ))))) := by
  rw [scoreCenter2x2, convZ_traced table p 0 (hIdx0 2), convZ_traced table p 0 (hIdx0 3),
    convZ_traced table p 1 (hIdx1 2), convZ_traced table p 1 (hIdx1 3)]
  rfl

theorem windowIdx_lt (oct : ImprovedNoise (Traced row nz)) (dny nx i : ℕ) {z : ℕ} (hz : z < 256) :
    windowIdx oct dny z nx i < 512 := by
  rw [windowIdx, window]
  have hByte (byte : UInt8) : byte.toNat + z < 512 := by
    have := byte.toNat_lt
    omega
  exact hByte _

/-- Only gradient 8 has the entry zero there. -/
theorem entry_eq_zero_iff (nibble : Fin 16) : hostEntry hostKernel0A 1 3 5 nibble = 0 ↔ nibble = 8 := by
  revert nibble
  decide +kernel

/-- The byte of the hash which decides about a window. -/
def windowByte (oct : ImprovedNoise (Traced row nz)) (x z : ℕ) : UInt8 :=
  oct.p (maskByte ((idxXy oct 1 (x + 3)).toNat + z + 5 : ℕ))

theorem windowByte_congr {nz nz' : ℕ} {oct : ImprovedNoise (Traced row nz)}
    {oct' : ImprovedNoise (Traced row nz')} (hTable : oct.p = oct'.p) (x z : ℕ) :
    windowByte oct x z = windowByte oct' x z := by
  rw [windowByte, windowByte, idxXy, idxXy, hTable]
  rfl

theorem accepts_window (oct : ImprovedNoise (Traced row nz)) (x : ℕ) {z : ℕ} (hz : z < 256) :
    accepts deviceKernel0A oct x z = decide (lowNibble (windowByte oct x z) = 8) := by
  have hGate : gate deviceKernel0A oct x z =
      .const (hostEntry hostKernel0A 1 3 5 (lowNibble (windowByte oct x z))) := by
    have hColumn : 8 * (x / 8) + (x % 8 + 3) = x + 3 := by omega
    rw [gate, deviceKernel0A, scoreCenter2x2_traced _ _ (fun i => windowIdx_lt oct 0 x i hz)
      (fun i => windowIdx_lt oct 1 x i hz), windowByte, windowIdx, window_eq _ _ _ (by omega), hColumn]
  have hScore : Arith.lt (Arith.const finalThreshold) (score deviceKernel0A oct x z) = true := rfl
  have hPrefilter (r : ℚ) : Arith.le (Arith.const prefilterThreshold) (.const r : Traced row nz) =
      decide (r = 0) := by
    change (decide (prefilterThreshold ≠ prefilterThreshold) || decide (r = 0)) = _
    simp
  rw [accepts, hScore, Bool.and_true, hGate, hPrefilter]
  exact decide_eq_decide.mpr (entry_eq_zero_iff _)

theorem lowNibble_eq_iff (byte : UInt8) : lowNibble byte = 8 ↔ byte.toNat % 16 = 8 := by
  rw [Fin.ext_iff]
  rfl

/-- In a column the hashes of the windows are those of all places of the table. -/
theorem card_column_le {oct : ImprovedNoise (Traced row nz)} (hTable : Function.Injective oct.p)
    (x : ℕ) : ((Finset.range 256).filter fun z => lowNibble (windowByte oct x z) = 8).card ≤ 16 := by
  have hBytes : ((Finset.range 256).filter fun byte => byte % 16 = 8).card = 16 := by
    decide +kernel
  refine le_trans ?_ hBytes.le
  apply Finset.card_le_card_of_injOn fun z => (windowByte oct x z).toNat
  · intro z hz
    have hByte := (lowNibble_eq_iff _).mp (Finset.mem_filter.mp hz).2
    exact Finset.mem_filter.mpr ⟨Finset.mem_range.mpr (windowByte oct x z).toNat_lt, hByte⟩
  · intro z hz z' hz' hSame
    have hFirst := Finset.mem_range.mp (Finset.mem_filter.mp hz).1
    have hSecond := Finset.mem_range.mp (Finset.mem_filter.mp hz').1
    have hPlace := congrArg (fun place : Fin 256 => ((place : ℕ) : ℤ))
      (hTable (UInt8.toNat_inj.mp hSame))
    simp only [maskByte_val] at hPlace
    omega

theorem exists_row {oct : ImprovedNoise (Traced row nz)} (hTable : Function.Surjective oct.p)
    (x : ℕ) : ∃ z < 256, lowNibble (windowByte oct x z) = 8 := by
  obtain ⟨place, hPlace⟩ := hTable 8
  obtain ⟨z, hz⟩ := Int.eq_ofNat_of_zero_le
    (Int.emod_nonneg ((place : ℤ) - (idxXy oct 1 (x + 3)).toNat - 5) (by decide : (256 : ℤ) ≠ 0))
  refine ⟨z, by omega, ?_⟩
  have hIndex : maskByte ((idxXy oct 1 (x + 3)).toNat + z + 5 : ℕ) = place := by
    apply Fin.ext
    have hValue := maskByte_val ((idxXy oct 1 (x + 3)).toNat + z + 5 : ℕ)
    omega
  rw [windowByte, hIndex, hPlace]
  decide

end Windows

section Squares

open KernelFilter2 KernelFilter2Pair Reduction

/-- The low rows of a square of 16 points from `first` on. -/
def rowCount (nz : ℕ) (first : ℤ) : ℕ :=
  ∑ i ∈ Finset.range 16, if lowRow nz (first + i * 512) then 1 else 0

def columnCount (first : ℤ) : ℕ :=
  ∑ i ∈ Finset.range 16, if lowColumn (first + i * 512) then 1 else 0

variable {T : Template true}

/-- What the templates of the pair kernels have in common. -/
def PairTemplate (T : Template true) : Prop :=
  T.posStep = 512 ∧ T.posOffset = -3840 ∧ ¬((T.noiseThreshold : ℚ) / 10000 < -1)

/-- One for a low point of the square of an input. -/
def lowPoint (nz : ℕ) (input : SeedPos) (r c : ℤ) : ℕ :=
  if lowRow nz (input.z - 3840 + r * 512) && lowColumn (input.x - 3840 + c * 512) then 1 else 0

theorem lowPoint_eq_mul (input : SeedPos) (r c : ℤ) : lowPoint nz input r c =
    (if lowRow nz (input.z - 3840 + r * 512) then 1 else 0) *
      if lowColumn (input.x - 3840 + c * 512) then 1 else 0 := by
  rw [lowPoint]
  cases lowRow nz (input.z - 3840 + r * 512) <;> simp

theorem lt_threshold {q : ℚ} (hThreshold : ¬q < -1) (x z : ℤ) (y rest : Traced row nz) :
    Arith.lt (.fma (.int z) (.fma y (.fma (.int x) rest)) : Traced row nz) (Arith.const q) =
      (lowRow nz z && lowColumn x) := by
  change (decide (q < -1) || lowRow nz z && lowColumn x) = _
  rw [decide_eq_false hThreshold, Bool.false_or]

theorem localCount_traced (hTemplate : PairTemplate T) (half : Half)
    (result : Result (Traced row nz)) (input : SeedPos) (lane : ℕ) :
    localCount T half result input lane =
      ∑ k ∈ Finset.range 8, lowPoint nz input (lane / 2 : ℕ) (lane % 2 * 8 + k : ℕ) := by
  obtain ⟨hStep, hOffset, hThreshold⟩ := hTemplate
  rw [localCount]
  refine (fst_foldl_add (fun k : ℤ => lowPoint nz input (lane / 2 : ℕ)
    ((lane % 2 * 8 : ℕ) + k)) (fun state k => ?_) _ _).trans ?_
  · have hX : input.x + (lane % 2 * 8 : ℕ) * 512 + -3840 + k * 512 =
        input.x - 3840 + ((lane % 2 * 8 : ℕ) + k) * 512 := by ring
    have hZ : input.z + (lane / 2 : ℕ) * 512 + -3840 = input.z - 3840 + (lane / 2 : ℕ) * 512 := by
      ring
    simp only [hStep, hOffset, hX, hZ, lowPoint]
    rw [← lt_threshold hThreshold]
    rfl
  · rw [zero_add]
    rfl

theorem outcome_traced (hTemplate : PairTemplate T) (half : Half) (result : Result (Traced row nz))
    (input : SeedPos) :
    KernelFilter2Pair.outcome T half result input =
      if T.minCount ≤ rowCount nz (input.z - 3840) * columnCount (input.x - 3840) then some input
      else none := by
  have hTotal : ((List.range 32).map (localCount T half result input)).sum =
      rowCount nz (input.z - 3840) * columnCount (input.x - 3840) := by
    change ∑ lane ∈ Finset.range (16 * 2), localCount T half result input lane = _
    rw [sum_range_mul, rowCount, columnCount, Finset.sum_mul_sum]
    apply Finset.sum_congr rfl
    intro r _
    rw [show (16 : ℕ) = 2 * 8 from rfl, sum_range_mul]
    apply Finset.sum_congr rfl
    intro side hSide
    obtain ⟨hDiv, hMod⟩ := div_mod_place r (Finset.mem_range.mp hSide)
    rw [localCount_traced hTemplate, hDiv, hMod]
    exact Finset.sum_congr rfl fun k _ => lowPoint_eq_mul ..
  rw [KernelFilter2Pair.outcome, hTotal]

/-- Only the distance to the own row counts, up to whole periods. -/
theorem rowCount_eq {nz : ℕ} {first first' : ℤ}
    (hSame : (first - 2048 * nz) % 524288 = first' % 524288) :
    rowCount nz first = rowCount 0 first' := by
  apply Finset.sum_congr rfl
  intro i _
  have hPlace : (first + i * 512 - 2048 * nz + 3840) % 524288 =
      (first' + i * 512 - 2048 * (0 : ℕ) + 3840) % 524288 := by
    omega
  rw [lowRow, lowRow, hPlace]

theorem columnCount_eq {first first' : ℤ} (hSame : first % 524288 = first' % 524288) :
    columnCount first = columnCount first' := by
  apply Finset.sum_congr rfl
  intro i _
  have hPlace : (first + i * 512 + 3840) % 524288 = (first' + i * 512 + 3840) % 524288 := by
    omega
  rw [lowColumn, lowColumn, hPlace]

/-- The squares of other windows have no more than 24 low points. -/
theorem count_other {x z : ℕ} (hx : x < 256) (hz : z < 256) (hnz : nz < 256)
    (hOther : ¬(x = 0 ∧ z = nz)) :
    rowCount nz (2048 * z - 3840) * columnCount (2048 * x - 3840) ≤ 24 := by
  have hAllColumns : ∀ x < 256, columnCount (2048 * (x : ℕ) - 3840) ≤ if x = 0 then 16 else 12 := by
    decide +kernel
  have hAllRows : ∀ shift ∈ Finset.Ioo (-256 : ℤ) 256,
      rowCount 0 (2048 * shift - 3840) ≤ if shift = 0 then 2 else 1 := by
    decide +kernel
  have hColumns := hAllColumns x hx
  have hRows := hAllRows (z - nz) (Finset.mem_Ioo.mpr (by omega))
  have hSame : rowCount nz (2048 * z - 3840) = rowCount 0 (2048 * (z - nz) - 3840) :=
    rowCount_eq (by omega)
  rw [← hSame] at hRows
  split at hColumns <;> split at hRows
  · exact absurd ⟨‹_›, by omega⟩ hOther
  all_goals
    exact (Nat.mul_le_mul hRows hColumns).trans (by decide)

/-- The square of the window in row `nz`, and those whole periods away, have 32. -/
theorem count_own (nz : ℕ) (s t : ℤ) : rowCount nz (2048 * nz + 524288 * t - 3840) *
    columnCount (524288 * s - 3840) = 32 := by
  have hRows : rowCount nz (2048 * nz + 524288 * t - 3840) = rowCount 0 (-3840) :=
    rowCount_eq (by omega)
  have hColumns : columnCount (524288 * s - 3840) = columnCount (-3840) := columnCount_eq (by omega)
  rw [hRows, hColumns]
  decide +kernel

end Squares

end Traced

section Noises

variable {F : Type} [Arith F]

/-- With enough redraws every octave of every seed comes to be. -/
theorem octaveNoise_returns (large : Bool) (seed : BitVec 64) (member : Member) {fuel : ℕ}
    (hFuel : XrsrRandom.maxRedraws ≤ fuel) :
    (octaveNoise (F := F) fuel large seed member).isSome :=
  XrsrRandom.initNoise_returns hFuel (XrsrRandom.make_ne_zero _ _)

/-- The tables do not depend on the arithmetic. -/
theorem noises_table (F G : Type) [Arith F] [Arith G] (cfg : Config) (seed : BitVec 64)
    (member : Member) : (Search.noises F cfg seed member).p = (Search.noises G cfg seed member).p := by
  have hSame : (octaveNoise (F := F) cfg.fuel cfg.large seed member).map ImprovedNoise.p =
      (octaveNoise (F := G) cfg.fuel cfg.large seed member).map ImprovedNoise.p := by
    rw [octaveNoise, octaveNoise, initNoise, initNoise, Option.map_map, Option.map_map]
    rfl
  rw [Search.noises, Search.noises]
  generalize octaveNoise (F := F) cfg.fuel cfg.large seed member = first at hSame ⊢
  generalize octaveNoise (F := G) cfg.fuel cfg.large seed member = second at hSame ⊢
  cases first <;> cases second <;> simp_all

theorem noises_bijective {cfg : Config} (hFuel : XrsrRandom.maxRedraws ≤ cfg.fuel)
    (seed : BitVec 64) (member : Member) :
    Function.Bijective (Search.noises F cfg seed member).p := by
  obtain ⟨noise, hNoise⟩ := Option.isSome_iff_exists.mp
    (octaveNoise_returns (F := F) cfg.large seed member hFuel)
  obtain ⟨choices, hTable, -⟩ := initNoise_eq_some hNoise
  rw [Search.noises, hNoise, Option.getD_some, hTable]
  exact chosenTable_bijective choices

end Noises


namespace Traced

open Search

/-- A build for large biomes whose redraws always come to an end. -/
def config : Config := ⟨true, false, XrsrRandom.maxRedraws⟩

variable {row nz : ℕ}

section Stages

theorem window_traced (seed : BitVec 64) (x : ℕ) {z : ℕ} (hz : z < 256) :
    window (Traced row nz) config seed (x, z) =
      if lowNibble (windowByte (noises (Traced row nz) config seed ⟨0, .a⟩) x z) = 8 then
        some ⟨seed, 2048 * x, 2048 * z⟩ else none := by
  have hPlace (offset : Traced row nz) (n : ℕ) :
      KernelFilterGradVecs1.windowZ true offset n = 2048 * n := by
    have hCell : KernelFilterGradVecs1.cellSize true = 2048 := rfl
    have hCenter : KernelFilterGradVecs1.center true offset = 0 := rfl
    rw [KernelFilterGradVecs1.windowZ, hCenter, hCell, zero_add, mul_comm]
  change (if KernelFilterGradVecs1.accepts deviceKernel0A _ x z = true then
    some (⟨seed, KernelFilterGradVecs1.windowX true _ x, KernelFilterGradVecs1.windowZ true _ z⟩ :
      Candidate) else none) = _
  rw [accepts_window _ x hz, KernelFilterGradVecs1.windowX_eq_windowZ, hPlace, hPlace]
  exact if_congr decide_eq_true_iff rfl rfl

/-- A stage which keeps candidates as they are. -/
theorem judge_of_ite {F : Type} [Arith F] {cfg : Config} {Keep : SeedPos → Prop}
    [DecidablePred Keep] {outcome : Result F → SeedPos → Option SeedPos}
    (hOutcome : ∀ result input, outcome result input = if Keep input then some input else none)
    (c : Candidate) : judge F cfg outcome c = if Keep ⟨0, c.x, c.z⟩ then some c else none := by
  rw [judge, hOutcome]
  split <;> rfl

theorem pairTemplate_0a : PairTemplate (KernelFilter2_0A.T true) :=
  ⟨by decide, by decide, by norm_num [KernelFilter2_0A.T]⟩

theorem pairTemplate_0b : PairTemplate (KernelFilter2_0B.T true) :=
  ⟨by decide, by decide, by norm_num [KernelFilter2_0B.T]⟩

theorem judge2_0a_traced (c : Candidate) : judge2_0a (Traced row nz) config c =
    if 27 ≤ rowCount nz (c.z - 3840) * columnCount (c.x - 3840) then some c else none :=
  judge_of_ite (outcome_traced pairTemplate_0a KernelFilter2_0A.half) c

theorem judge2_0b_traced (c : Candidate) : judge2_0b (Traced row nz) config c =
    if 20 ≤ rowCount nz (c.z - 3840) * columnCount (c.x - 3840) then some c else none :=
  judge_of_ite (outcome_traced pairTemplate_0b KernelFilter2_0B.half) c

theorem tile_traced (c : Candidate) (tx tz : ℕ) : tile (Traced row nz) config c (tx, tz) =
    some ⟨c.seed, c.x + (tx - 14) * 524288, c.z + (tz - 14) * 524288⟩ := by
  have hPlace (start : ℤ) (t : ℕ) :
      KernelFilterGradVecs2.tilePos true false start t = start + (t - 14) * 524288 := by
    rw [KernelFilterGradVecs2.tilePos, KernelFilterGradVecs2.cellSize0A_eq]
    rfl
  have hIndex (oct : ImprovedNoise (Traced row nz)) (dny i : ℕ) :
      KernelFilterGradVecs2.tileIdx oct 0 0 dny i < 512 := by
    have := (KernelFilterGradVecs2.hoistedIdxXy oct 0 dny i).toNat_lt
    have := (maskByte 0).isLt
    rw [KernelFilterGradVecs2.tileIdx]
    omega
  have hAccepts (oct : ImprovedNoise (Traced row nz)) (x z : ℤ) :
      KernelFilterGradVecs2.accepts true deviceKernel0B oct x z = true := by
    change (Arith.le (Arith.const KernelFilterGradVecs2.prefilterThreshold)
      (KernelFilterGradVecs2.gate deviceKernel0B oct 0 0) && true) = true
    rw [KernelFilterGradVecs2.gate, deviceKernel0B, scoreCenter2x2_traced _ _ (hIndex oct 0)
      (hIndex oct 1), Bool.and_true]
    change (decide (KernelFilterGradVecs2.prefilterThreshold ≠
      KernelFilterGradVecs1.prefilterThreshold) || _) = true
    rw [decide_eq_true, Bool.true_or]
    norm_num [KernelFilterGradVecs2.prefilterThreshold, KernelFilterGradVecs1.prefilterThreshold]
  change (if KernelFilterGradVecs2.accepts true deviceKernel0B _ _ _ = true then
    some (⟨c.seed, KernelFilterGradVecs2.tilePos true false c.x tx,
      KernelFilterGradVecs2.tilePos true false c.z tz⟩ : Candidate) else none) = _
  rw [if_pos (hAccepts _ _ _), hPlace, hPlace]

theorem lt_of_low {q : ℚ} (hLow : q < -1) (val : Traced row nz) :
    Arith.lt val (Arith.const q) = true := by
  change lt val (.const q) = true
  rw [lt.eq_def]
  split
  next hThreshold =>
    cases hThreshold
    rw [decide_eq_true hLow, Bool.true_or]
  next => rfl

/-- The later runs keep every candidate. -/
theorem judge2_traced (row nz : ℕ) (index : Fin 4) (c : Candidate) :
    ∃ kept, judge2 (Traced row nz) config index c = some kept := by
  have hThreshold : ((filter2Runs true index).noiseThreshold : ℚ) / 10000 < -1 := by
    revert index
    decide +kernel
  have hSquare : (filter2Runs true index).minCount ≤
      (filter2Runs true index).threadsPerInput * (filter2Runs true index).loops := by
    revert index
    decide +kernel
  have hLength (input : SeedPos) : (KernelFilter2.points (filter2Runs true index) input).length =
      (filter2Runs true index).threadsPerInput * (filter2Runs true index).loops := by
    simp [KernelFilter2.points, List.length_flatMap]
  have hValid (result : Result (Traced row nz)) (pos : ℤ × ℤ) :
      KernelFilter2.valid (filter2Runs true index) result pos = true :=
    lt_of_low hThreshold _
  have hHits (result : Result (Traced row nz)) (input : SeedPos) :
      (KernelFilter2.points (filter2Runs true index) input).filter
        (KernelFilter2.valid (filter2Runs true index) result) =
      KernelFilter2.points (filter2Runs true index) input :=
    List.filter_eq_self.mpr fun pos _ => hValid result pos
  have hKeeps (result : Result (Traced row nz)) (input : SeedPos) :
      ∃ kept, KernelFilter2.outcome (filter2Runs true index) result input = some kept := by
    rw [KernelFilter2.outcome]
    simp only [hHits]
    rw [if_pos (by rw [hLength]; exact hSquare)]
    exact ⟨_, rfl⟩
  obtain ⟨kept, hKept⟩ := hKeeps (noises (Traced row nz) config c.seed) ⟨0, c.x, c.z⟩
  exact ⟨_, congrArg (Option.map _) hKept⟩

end Stages

section Lengths

/-- A list without repetitions has at most one element which is kept, if only one may be. -/
theorem length_filterMap_le_one {α β : Type*} {items : List α} (hNodup : items.Nodup)
    {f : α → Option β} (only : α) (hOnly : ∀ item ∈ items, item ≠ only → f item = none) :
    (items.filterMap f).length ≤ 1 := by
  induction items with
  | nil => exact Nat.zero_le 1
  | cons item items ih =>
      obtain ⟨hFirst, hRest⟩ := List.nodup_cons.mp hNodup
      by_cases hHere : item = only
      · subst hHere
        have hNone : items.filterMap f = [] := by
          rw [List.filterMap_eq_nil_iff]
          intro other hOther
          exact hOnly other (List.mem_cons_of_mem _ hOther) fun hSame => hFirst (hSame ▸ hOther)
        rw [List.filterMap_cons]
        cases f item <;> simp [hNone]
      · rw [List.filterMap_cons_none (hOnly item List.mem_cons_self hHere)]
        exact ih hRest fun other hOther => hOnly other (List.mem_cons_of_mem _ hOther)

theorem length_column_le (seed : BitVec 64) (x : ℕ) :
    ((List.range 256).filterMap fun z => window (Traced row nz) config seed (x, z)).length ≤ 16 := by
  have hTable : Function.Injective (noises (Traced row nz) config seed ⟨0, .a⟩).p :=
    (noises_bijective le_rfl seed ⟨0, .a⟩).1
  have hKept : ∀ z ∈ List.range 256, (window (Traced row nz) config seed (x, z)).isSome =
      decide (lowNibble (windowByte (noises (Traced row nz) config seed ⟨0, .a⟩) x z) = 8) := by
    intro z hz
    rw [window_traced seed x (List.mem_range.mp hz)]
    split <;> simp [*]
  rw [List.length_filterMap_eq_countP, List.countP_congr fun z hz => by rw [hKept z hz],
    List.countP_eq_length_filter]
  exact card_column_le hTable x

theorem length_filterGradvecs1_le (seed : BitVec 64) :
    (filterGradvecs1 (Traced row nz) config seed).length ≤ 4096 := by
  have hColumns : KernelFilterGradVecs1.windows.filterMap (window (Traced row nz) config seed) =
      (List.range 256).flatMap fun x =>
        (List.range 256).filterMap fun z => window (Traced row nz) config seed (x, z) := by
    refine List.filterMap_flatMap.trans (congrArg (List.flatMap · _) (funext fun x => ?_))
    exact List.filterMap_map
  rw [filterGradvecs1]
  split
  · rw [hColumns, List.length_flatMap]
    refine (List.sum_le_card_nsmul _ 16 fun length hLength => ?_).trans (by simp)
    obtain ⟨x, -, rfl⟩ := List.mem_map.mp hLength
    exact length_column_le seed x
  · exact Nat.zero_le _

theorem length_filter2_0a_le (hnz : nz < 256) (seed : BitVec 64) :
    (filter2_0a (Traced row nz) config seed).length ≤ 1 := by
  rw [filter2_0a, filterGradvecs1]
  split
  · rw [List.filterMap_filterMap]
    apply length_filterMap_le_one (List.nodup_range.product List.nodup_range) (0, nz)
    rintro ⟨x, z⟩ hPlace hOther
    obtain ⟨hx, hz⟩ := List.mem_product.mp hPlace
    rw [List.mem_range] at hx hz
    rw [window_traced seed x hz]
    split
    · rw [Option.bind_some, judge2_0a_traced]
      have hCount := count_other hx hz hnz (by simpa using hOther)
      exact if_neg (Nat.not_le.mpr (hCount.trans_lt (by decide)))
    · rfl
  · exact Nat.zero_le _

theorem length_filterGradvecs2_le (hnz : nz < 256) (seed : BitVec 64) :
    (filterGradvecs2 (Traced row nz) config seed).length ≤ 841 := by
  have hTiles : (KernelFilterGradVecs2.tiles true false).length = 841 := List.length_product ..
  refine (AtomicAppend.length_image_le _ _ _).trans ?_
  exact (Nat.mul_le_mul (length_filter2_0a_le hnz seed) hTiles.le).trans_eq (one_mul _)

end Lengths

section Found

variable {seed : BitVec 64}

/-- A tile of the kept window of a seed. -/
def tileOf (nz : ℕ) (seed : BitVec 64) (tx tz : ℕ) : Candidate :=
  ⟨seed, (tx - 14) * 524288, 2048 * nz + (tz - 14) * 524288⟩

/-- The seed has the row, and the gate lets its window in row `nz` of the first column through. -/
def Kept (row nz : ℕ) (seed : BitVec 64) : Prop :=
  KernelFilterSeeds.rowOfSeed seed = row ∧ nz < 256 ∧
    lowNibble (windowByte (noises (Traced row nz) config seed ⟨0, .a⟩) 0 nz) = 8

theorem window_mem (hKept : Kept row nz seed) :
    ⟨seed, 0, 2048 * nz⟩ ∈ filter2_0a (Traced row nz) config seed := by
  obtain ⟨hRow, hnz, hByte⟩ := hKept
  have hAccepts : KernelFilterSeeds.accepts (Traced row nz) config.large seed = true :=
    (accepts_seed seed).trans (decide_eq_true hRow)
  refine List.mem_filterMap.mpr ⟨⟨seed, 0, 2048 * nz⟩, ?_, ?_⟩
  · rw [filterGradvecs1, if_pos hAccepts]
    refine List.mem_filterMap.mpr ⟨(0, nz), ?_, ?_⟩
    · exact List.mem_product.mpr ⟨List.mem_range.mpr (by decide), List.mem_range.mpr hnz⟩
    · rw [window_traced seed 0 hnz, if_pos hByte]
      rfl
  · have hCount := count_own nz 0 0
    rw [mul_zero, add_zero] at hCount
    rw [judge2_0a_traced, if_pos (hCount.symm ▸ by decide)]

theorem tile_mem (hKept : Kept row nz seed) {tx tz : ℕ} (hx : tx < 29) (hz : tz < 29) :
    tileOf nz seed tx tz ∈ filter2_0b (Traced row nz) config seed := by
  have hTile : tileOf nz seed tx tz ∈ filterGradvecs2 (Traced row nz) config seed := by
    refine AtomicAppend.mem_image.mpr ⟨_, window_mem hKept, (tx, tz), ?_, ?_⟩
    · exact List.mem_product.mpr ⟨List.mem_range.mpr hx, List.mem_range.mpr hz⟩
    · rw [tile_traced, tileOf, zero_add]
  refine List.mem_filterMap.mpr ⟨_, hTile, ?_⟩
  have hCount := count_own nz (tx - 14) (tz - 14)
  rw [mul_comm 524288, mul_comm 524288] at hCount
  rw [judge2_0b_traced, tileOf, if_pos (hCount.symm ▸ by decide)]

/-- All tiles of a window stand or fall together. -/
theorem exists_other_tile {c : Candidate} (hMem : c ∈ filter2_0b (Traced row nz) config seed) :
    ∃ other ∈ filter2_0b (Traced row nz) config seed, other ≠ c := by
  obtain ⟨before, hBefore, hJudge⟩ := List.mem_filterMap.mp hMem
  obtain ⟨start, hStart, ⟨tx, tz⟩, hPlace, hTile⟩ := AtomicAppend.mem_image.mp hBefore
  obtain ⟨-, hz⟩ := List.mem_product.mp hPlace
  obtain ⟨other, hOther, hNe⟩ : ∃ other ∈ List.range 29, other ≠ tx := by
    by_cases hFirst : tx = 0
    · exact ⟨1, by decide, by omega⟩
    · exact ⟨0, by decide, by omega⟩
  rw [tile_traced] at hTile
  cases hTile
  rw [judge2_0b_traced] at hJudge
  obtain ⟨hCount, hSame⟩ := Option.ite_none_right_eq_some.mp hJudge
  cases hSame
  refine ⟨⟨start.seed, start.x + (other - 14) * 524288, start.z + (tz - 14) * 524288⟩, ?_, ?_⟩
  · refine List.mem_filterMap.mpr ⟨_, AtomicAppend.mem_image.mpr ⟨start, hStart, (other, tz),
      List.mem_product.mpr ⟨hOther, hz⟩, tile_traced ..⟩, ?_⟩
    have hColumns : columnCount (start.x + (other - 14) * 524288 - 3840) =
        columnCount (start.x + (tx - 14) * 524288 - 3840) := columnCount_eq (by omega)
    rw [judge2_0b_traced, hColumns, if_pos hCount]
  · intro hEqual
    have hPlaces := congrArg Candidate.x hEqual
    simp only at hPlaces
    omega

/-- A candidate goes through all later runs. -/
theorem filter2_ne_nil (hKept : Kept row nz seed) (index : ℕ) :
    filter2 (Traced row nz) config seed index ≠ [] := by
  induction index with
  | zero => exact List.ne_nil_of_mem (tile_mem hKept (by decide : 14 < 29) (by decide : 14 < 29))
  | succ index ih =>
      obtain ⟨c, hFound⟩ := List.exists_mem_of_ne_nil _ ih
      obtain ⟨kept, hJudge⟩ := judge2_traced row nz (Fin.ofNat 4 index) c
      exact List.ne_nil_of_mem (List.mem_filterMap.mpr ⟨c, hFound, hJudge⟩)

end Found

section Batch

/-- Only the seeds which `filter_seeds` keeps have candidates. -/
theorem length_batch_le {F : Type} [Arith F] {cfg : Config} {startSeed : BitVec 64}
    {stage : BitVec 64 → List Candidate} {bound : ℕ} (hBound : ∀ seed, (stage seed).length ≤ bound)
    (hSeed : ∀ seed, ∀ c ∈ stage seed, KernelFilterSeeds.accepts F cfg.large seed = true) :
    (batch stage startSeed).length ≤ (batchSeeds F cfg startSeed).length * bound := by
  rw [batch, batchSeeds]
  induction seedsFrom startSeed KernelFilterSeeds.threadsPerRun with
  | nil => exact Nat.zero_le _
  | cons seed seeds ih =>
      rw [List.flatMap_cons, List.length_append, List.filter_cons]
      split
      · rw [List.length_cons, Nat.succ_mul, add_comm]
        exact Nat.add_le_add ih (hBound seed)
      · next hRejected =>
          have hNone : stage seed = [] :=
            List.eq_nil_iff_forall_not_mem.mpr fun c hMem => hRejected (hSeed seed c hMem)
          rw [hNone, List.length_nil, zero_add]
          exact ih

theorem accepts_ofNat {i : ℕ} (hWrap : i < 2 ^ 64) :
    KernelFilterSeeds.accepts (Traced row nz) true (.ofNat 64 i) =
      decide (KernelFilterSeeds.rowNat i = row) := by
  rw [accepts_seed, KernelFilterSeeds.rowOfSeed_eq, BitVec.toNat_ofNat, Nat.mod_eq_of_lt hWrap]

/-- The seeds from zero on which are kept are those of the row. -/
theorem length_filter_seedsFrom (row nz : ℕ) {n : ℕ} (hWrap : n ≤ 2 ^ 64) :
    ((seedsFrom 0 n).filter (KernelFilterSeeds.accepts (Traced row nz) true)).length =
      ((Finset.range n).filter fun i => KernelFilterSeeds.rowNat i = row).card := by
  have hKept : ∀ i ∈ List.range n,
      (KernelFilterSeeds.accepts (Traced row nz) true ∘ fun i => 0 + BitVec.ofNat 64 i) i =
        decide (KernelFilterSeeds.rowNat i = row) := by
    intro i hi
    rw [Function.comp_apply, zero_add, accepts_ofNat ((List.mem_range.mp hi).trans_le hWrap)]
  rw [seedsFrom, List.filter_map, List.length_map, List.filter_congr hKept]
  rfl

theorem fits_traced (hnz : nz < 256) (hRare : ((Finset.range KernelFilterSeeds.threadsPerRun).filter
    fun i => KernelFilterSeeds.rowNat i = row).card ≤ 10922) : Fits (Traced row nz) config 0 := by
  have hWrap : KernelFilterSeeds.threadsPerRun ≤ 2 ^ 64 := by decide
  rw [← length_filter_seedsFrom row nz hWrap] at hRare
  constructor
  · exact hRare.trans (by decide)
  · have hLength : (batch (filterGradvecs1 (Traced row nz) config) 0).length ≤
        (batchSeeds (Traced row nz) config 0).length * 4096 :=
      length_batch_le length_filterGradvecs1_le fun _ _ hMem => (seed_of_mem_filterGradvecs1 hMem).2
    exact hLength.trans ((Nat.mul_le_mul_right _ hRare).trans (by decide))
  · have hLength : (batch (filterGradvecs2 (Traced row nz) config) 0).length ≤
        (batchSeeds (Traced row nz) config 0).length * 841 :=
      length_batch_le (length_filterGradvecs2_le hnz)
        fun _ _ hMem => (seed_of_mem_filterGradvecs2 hMem).2
    exact hLength.trans ((Nat.mul_le_mul_right _ hRare).trans (by decide))

/-- A batch of seeds from zero on whose search has room and finds something. -/
theorem exists_traced_batch : ∃ row nz seed, Kept row nz seed ∧
    seed ∈ seedsFrom 0 KernelFilterSeeds.threadsPerRun ∧ Fits (Traced row nz) config 0 := by
  obtain ⟨first, hFirst, hRare⟩ := KernelFilterSeeds.exists_rare_row
  have hInBatch : first < KernelFilterSeeds.threadsPerRun := hFirst.trans_le (by decide)
  have hRow : KernelFilterSeeds.rowOfSeed (.ofNat 64 first) = KernelFilterSeeds.rowNat first := by
    have hWrap : KernelFilterSeeds.threadsPerRun < 2 ^ 64 := by decide
    rw [KernelFilterSeeds.rowOfSeed_eq, BitVec.toNat_ofNat,
      Nat.mod_eq_of_lt (hInBatch.trans hWrap)]
  generalize KernelFilterSeeds.rowNat first = row at hRare hRow
  have hTable : Function.Surjective (noises (Traced row 0) config (.ofNat 64 first) ⟨0, .a⟩).p :=
    (noises_bijective le_rfl _ ⟨0, .a⟩).2
  obtain ⟨nz, hnz, hByte⟩ := exists_row hTable 0
  rw [windowByte_congr (noises_table _ (Traced row nz) config _ _)] at hByte
  refine ⟨row, nz, .ofNat 64 first, ⟨hRow, hnz, hByte⟩, ?_, fits_traced hnz hRare⟩
  exact List.mem_map.mpr ⟨first, List.mem_range.mpr hInBatch, zero_add _⟩

end Batch

end Traced

end Commission
