import Commission.Gpu.BlockFilter
import Commission.Gpu.Coverage
import Commission.Gpu.Search

/-! How far from the origin the candidates of a seed lie, stage by stage, so that the
32-bit coordinates of an output are the exact ones. -/
namespace Commission

open KernelFilter2

namespace KernelFilter2

variable {large : Bool} {T : Template large}

/-- No offset of the square is further from its middle than this. -/
theorem InSquare.near {offset bound : ℤ} (hOffset : InSquare T offset) (hLow : -bound ≤ T.posOffset)
    (hHigh : T.posOffset + (T.samplesSquareSize - 1) * T.posStep ≤ bound) : |offset| ≤ bound :=
  abs_le.mpr ⟨hLow.trans hOffset.1, hOffset.2.trans hHigh⟩

/-- An input which passes stays, or moves inside its square. -/
theorem outcome_inSquare {F : Type} [Arith F] {result : Result F} {input kept : SeedPos}
    (hKept : outcome T result input = some kept) (hCount : 0 < T.minCount) :
    InSquare T (kept.x - input.x) ∧ InSquare T (kept.z - input.z) := by
  rw [outcome_eq_outcomeOf, outcomeOf, Option.ite_none_right_eq_some] at hKept
  obtain ⟨hEnough, hSome⟩ := hKept
  cases hSome
  have hLength : (hits T (KernelFilter2.valid T result) input).length ≠ 0 := by omega
  have hHits : hits T (KernelFilter2.valid T result) input ≠ [] := by
    intro hNone
    exact hLength (by rw [hNone]; rfl)
  simp only [add_sub_cancel_left]
  cases T.moveCenter with
  | false => exact ⟨inSquare_zero, inSquare_zero⟩
  | true =>
      simp only [if_true, if_pos hLength]
      exact ⟨inSquare_tdiv hHits fun pos hPos => (inSquare_of_mem_points hPos).1,
        inSquare_tdiv hHits fun pos hPos => (inSquare_of_mem_points hPos).2⟩

/-- The square of a template is at most `10 * 1024` blocks wide, or four times that. -/
def Template.Narrow (T : Template large) : Prop :=
  -5120 ≤ T.posOffset ∧ T.posOffset + (T.samplesSquareSize - 1) * T.posStep ≤ 5120

instance (T : Template large) : Decidable T.Narrow := inferInstanceAs (Decidable (_ ∧ _))

theorem filter2Runs_narrow (large : Bool) (index : Fin 4) :
    (filter2Runs large index).Narrow ∧ 0 < (filter2Runs large index).minCount := by
  revert large index
  decide

theorem pair_narrow (large : Bool) :
    (KernelFilter2_0A.T large).Narrow ∧ (KernelFilter2_0B.T large).Narrow := by
  revert large
  decide

end KernelFilter2

namespace Search

/-- A position near the origin, in noise coordinates. -/
def Within (bound : ℤ) (c : Candidate) : Prop := |c.x| ≤ bound ∧ |c.z| ≤ bound

/-- Coordinates far from the limits of 32 bits. -/
def Small (pos : ℤ × ℤ) : Prop := |pos.1| ≤ 2 ^ 27 ∧ |pos.2| ≤ 2 ^ 27

/-- The first window of every seed starts near the origin, on both axes. -/
def CentresBounded (F : Type) [Arith F] (cfg : Config) : Prop :=
  ∀ seed, |KernelFilterGradVecs1.center cfg.large (noises F cfg seed ⟨0, .a⟩).xo| ≤ 600000 ∧
    |KernelFilterGradVecs1.center cfg.large (noises F cfg seed ⟨0, .a⟩).zo| ≤ 600000

section Exact

variable {cfg : Config} {seed : BitVec 64}

/-- The offsets of an octave are those which `init_noise` draws. -/
theorem noises_offset (member : Member) :
    (∃ n, (noises ℚ cfg seed member).xo = Coverage.offset n) ∧
      ∃ n, (noises ℚ cfg seed member).zo = Coverage.offset n := by
  rw [noises]
  cases hNoise : octaveNoise (F := ℚ) cfg.fuel cfg.large seed member with
  | none =>
      have hZero : (0 : ℚ) = Coverage.offset 0 := by simp [Coverage.offset]
      exact ⟨⟨0, hZero⟩, ⟨0, hZero⟩⟩
  | some noise => exact Coverage.initNoise_offset hNoise

theorem centresBounded_exact (cfg : Config) : CentresBounded ℚ cfg := by
  intro seed
  obtain ⟨⟨n, hXo⟩, ⟨m, hZo⟩⟩ : (∃ n, (noises ℚ cfg seed ⟨0, .a⟩).xo = Coverage.offset n) ∧
      ∃ n, (noises ℚ cfg seed ⟨0, .a⟩).zo = Coverage.offset n := noises_offset _
  rw [hXo, hZo]
  exact ⟨abs_le.mpr (Coverage.center_offset_bounds cfg.large n),
    abs_le.mpr (Coverage.center_offset_bounds cfg.large m)⟩

end Exact

section Stages

variable {F : Type} [Arith F] {cfg : Config} {seed : BitVec 64}

/-- So do the 256 windows of the axis. -/
theorem abs_windowZ_le {large : Bool} {offset : F}
    (hCentre : |KernelFilterGradVecs1.center large offset| ≤ 600000) {place : ℕ}
    (hPlace : place < 256) : |KernelFilterGradVecs1.windowZ large offset place| ≤ 1122240 := by
  rw [KernelFilterGradVecs1.windowZ]
  rw [abs_le] at hCentre ⊢
  cases large with
  | false | true =>
      simp only [KernelFilterGradVecs1.cellSize, largeBiomesPosMul]
      norm_num
      omega

/-- A kernel for two octaves keeps the position. -/
theorem within_judge_pair {T : Template cfg.large} {half : Half} {bound : ℤ} {c kept : Candidate}
    (hKept : judge F cfg (KernelFilter2Pair.outcome T half) c = some kept) (hWithin : Within bound c) :
    Within bound kept := by
  obtain ⟨entry, hEntry, rfl⟩ := Option.map_eq_some_iff.mp hKept
  obtain ⟨-, hSome⟩ := Option.ite_none_right_eq_some.mp hEntry
  cases hSome
  exact hWithin

theorem abs_window_le (hCentres : CentresBounded F cfg) (seed : BitVec 64) {place : ℕ × ℕ}
    (hPlace : place ∈ KernelFilterGradVecs1.windows) :
    |KernelFilterGradVecs1.windowX cfg.large (noises F cfg seed ⟨0, .a⟩).xo place.1| ≤ 1122240 ∧
      |KernelFilterGradVecs1.windowZ cfg.large (noises F cfg seed ⟨0, .a⟩).zo place.2| ≤ 1122240 := by
  obtain ⟨hFirst, hSecond⟩ := List.mem_product.mp hPlace
  rw [KernelFilterGradVecs1.windowX_eq_windowZ]
  exact ⟨abs_windowZ_le (hCentres seed).1 (List.mem_range.mp hFirst),
    abs_windowZ_le (hCentres seed).2 (List.mem_range.mp hSecond)⟩

theorem within_filterGradvecs1 (hCentres : CentresBounded F cfg) {c : Candidate}
    (hMem : c ∈ filterGradvecs1 F cfg seed) : Within 1122240 c := by
  rw [filterGradvecs1] at hMem
  split at hMem
  · obtain ⟨place, hPlace, hWindow⟩ := List.mem_filterMap.mp hMem
    obtain ⟨-, hSome⟩ := Option.ite_none_right_eq_some.mp hWindow
    cases hSome
    exact abs_window_le hCentres seed hPlace
  · cases hMem

theorem within_filter2_0a (hCentres : CentresBounded F cfg) {c : Candidate}
    (hMem : c ∈ filter2_0a F cfg seed) : Within 1122240 c := by
  obtain ⟨before, hBefore, hJudged⟩ := List.mem_filterMap.mp hMem
  exact within_judge_pair hJudged (within_filterGradvecs1 hCentres hBefore)

theorem abs_tilePos_le (large unbound : Bool) {input : ℤ} (hInput : |input| ≤ 1122240) {t : ℕ}
    (hTile : t < KernelFilterGradVecs2.gridWidth large unbound) :
    |KernelFilterGradVecs2.tilePos large unbound input t| ≤ 87629760 := by
  obtain ⟨hLow, hHigh⟩ := abs_le.mp hInput
  rw [KernelFilterGradVecs2.tilePos, KernelFilterGradVecs2.cellSize0A_eq, abs_le]
  cases large <;> cases unbound <;>
    simp only [KernelFilterGradVecs2.gridHalf, KernelFilterGradVecs2.gridWidth,
      KernelFilterGradVecs1.cellSize, largeBiomesPosMul] at * <;> norm_num at * <;> omega

theorem abs_tile_le (hCentres : CentresBounded F cfg) {c : Candidate}
    (hMem : c ∈ filter2_0a F cfg seed) {place : ℕ × ℕ}
    (hPlace : place ∈ KernelFilterGradVecs2.tiles cfg.large cfg.unbound) :
    |KernelFilterGradVecs2.tilePos cfg.large cfg.unbound c.x place.1| ≤ 87629760 ∧
      |KernelFilterGradVecs2.tilePos cfg.large cfg.unbound c.z place.2| ≤ 87629760 := by
  obtain ⟨hX, hZ⟩ := within_filter2_0a hCentres hMem
  obtain ⟨hColumn, hRow⟩ := List.mem_product.mp hPlace
  exact ⟨abs_tilePos_le _ _ hX (List.mem_range.mp hColumn),
    abs_tilePos_le _ _ hZ (List.mem_range.mp hRow)⟩

theorem within_filterGradvecs2 (hCentres : CentresBounded F cfg) {c : Candidate}
    (hMem : c ∈ filterGradvecs2 F cfg seed) : Within 87629760 c := by
  obtain ⟨before, hBefore, hTiles⟩ := List.mem_flatMap.mp hMem
  obtain ⟨place, hPlace, hTile⟩ := List.mem_filterMap.mp hTiles
  obtain ⟨-, hSome⟩ := Option.ite_none_right_eq_some.mp hTile
  cases hSome
  exact abs_tile_le hCentres hBefore hPlace

/-- Each stage of `filter_2` moves a candidate inside its square at most. -/
theorem within_filter2 (hCentres : CentresBounded F cfg) {index : ℕ} {c : Candidate}
    (hMem : c ∈ filter2 F cfg seed index) : Within (87629760 + index * 5120) c := by
  induction index generalizing c with
  | zero =>
      obtain ⟨before, hBefore, hKept⟩ := List.mem_filterMap.mp hMem
      simpa using within_judge_pair hKept (within_filterGradvecs2 hCentres hBefore)
  | succ index ih =>
      obtain ⟨before, hBefore, hKept⟩ := List.mem_filterMap.mp hMem
      obtain ⟨hX, hZ⟩ := ih hBefore
      obtain ⟨entry, hEntry, rfl⟩ := Option.map_eq_some_iff.mp hKept
      obtain ⟨⟨hLow, hHigh⟩, hCount⟩ := filter2Runs_narrow cfg.large (Fin.ofNat 4 index)
      obtain ⟨hMoveX, hMoveZ⟩ := outcome_inSquare hEntry hCount
      have hNearX := hMoveX.near hLow hHigh
      have hNearZ := hMoveZ.near hLow hHigh
      rw [abs_le] at hX hZ hNearX hNearZ
      rw [Within, abs_le, abs_le]
      push_cast at *
      constructor <;> constructor <;> omega

/-- The output of a candidate is its exact position in blocks. -/
theorem output_exact (hCentres : CentresBounded F cfg) {c : Candidate}
    (hMem : c ∈ search F cfg seed) :
    c.output.x.toInt = 4 * c.x ∧ c.output.z.toInt = 4 * c.z ∧
      |c.output.x.toInt| ≤ 2 ^ 29 ∧ |c.output.z.toInt| ≤ 2 ^ 29 := by
  obtain ⟨hX, hZ⟩ := within_filter2 hCentres hMem
  rw [abs_le] at hX hZ
  push_cast at hX hZ
  have hExactX : c.output.x.toInt = 4 * c.x := by
    rw [Candidate.output, BitVec.toInt_ofInt, Int.bmod_eq_of_le (by omega) (by omega), mul_comm]
  have hExactZ : c.output.z.toInt = 4 * c.z := by
    rw [Candidate.output, BitVec.toInt_ofInt, Int.bmod_eq_of_le (by omega) (by omega), mul_comm]
  refine ⟨hExactX, hExactZ, ?_, ?_⟩
  · rw [hExactX, abs_le]
    constructor <;> omega
  · rw [hExactZ, abs_le]
    constructor <;> omega

/-- The points which a kernel samples around a candidate. -/
theorem small_of_mem_points {T : Template cfg.large} (hNarrow : T.Narrow) {bound : ℤ}
    (hBound : bound ≤ 2 ^ 27 - 5120) {c : Candidate} (hWithin : Within bound c) {pos : ℤ × ℤ}
    (hPos : pos ∈ points T ⟨0, c.x, c.z⟩) : Small pos := by
  obtain ⟨hX, hZ⟩ := hWithin
  obtain ⟨hLow, hHigh⟩ := hNarrow
  obtain ⟨hPosX, hPosZ⟩ := inSquare_of_mem_points hPos
  have hNearX : |pos.1 - c.x| ≤ 5120 := hPosX.near hLow hHigh
  have hNearZ : |pos.2 - c.z| ≤ 5120 := hPosZ.near hLow hHigh
  rw [abs_le] at hX hZ hNearX hNearZ
  rw [Small, abs_le, abs_le]
  constructor <;> constructor <;> omega

end Stages

/-- Where the kernels sample for a seed: the windows and tiles of the gradient-vector filters, and
the points of the six sampling stages. -/
structure SamplesSmall (F : Type) [Arith F] (cfg : Config) (seed : BitVec 64) : Prop where
  windows : ∀ place ∈ KernelFilterGradVecs1.windows,
    Small (KernelFilterGradVecs1.windowX cfg.large (noises F cfg seed ⟨0, .a⟩).xo place.1,
      KernelFilterGradVecs1.windowZ cfg.large (noises F cfg seed ⟨0, .a⟩).zo place.2)
  points2_0a : ∀ c ∈ filterGradvecs1 F cfg seed,
    ∀ pos ∈ points (KernelFilter2_0A.T cfg.large) ⟨0, c.x, c.z⟩, Small pos
  tiles : ∀ c ∈ filter2_0a F cfg seed,
    ∀ place ∈ KernelFilterGradVecs2.tiles cfg.large cfg.unbound,
      Small (KernelFilterGradVecs2.tilePos cfg.large cfg.unbound c.x place.1,
        KernelFilterGradVecs2.tilePos cfg.large cfg.unbound c.z place.2)
  points2_0b : ∀ c ∈ filterGradvecs2 F cfg seed,
    ∀ pos ∈ points (KernelFilter2_0B.T cfg.large) ⟨0, c.x, c.z⟩, Small pos
  points2 : ∀ index : Fin 4, ∀ c ∈ filter2 F cfg seed index,
    ∀ pos ∈ points (filter2Runs cfg.large index) ⟨0, c.x, c.z⟩, Small pos

theorem samplesSmall {F : Type} [Arith F] {cfg : Config} (hCentres : CentresBounded F cfg)
    (seed : BitVec 64) : SamplesSmall F cfg seed where
  windows place hPlace := by
    obtain ⟨hX, hZ⟩ := abs_window_le hCentres seed hPlace
    exact ⟨hX.trans (by norm_num), hZ.trans (by norm_num)⟩
  points2_0a c hC pos hPos :=
    small_of_mem_points (pair_narrow cfg.large).1 (by norm_num)
      (within_filterGradvecs1 hCentres hC) hPos
  tiles c hC place hPlace := by
    obtain ⟨hX, hZ⟩ := abs_tile_le hCentres hC hPlace
    exact ⟨hX.trans (by norm_num), hZ.trans (by norm_num)⟩
  points2_0b c hC pos hPos :=
    small_of_mem_points (pair_narrow cfg.large).2 (by norm_num)
      (within_filterGradvecs2 hCentres hC) hPos
  points2 index c hC pos hPos := by
    have hIndex := index.isLt
    exact small_of_mem_points (filter2Runs_narrow cfg.large index).1 (by omega)
      (within_filter2 hCentres hC) hPos

/-- In exact arithmetic every coordinate at which the kernels sample, and every coordinate which is
copied to the host, is far from the limits of 32 bits, and the output of a candidate is its exact
position. -/
theorem search_coordinates_exact (cfg : Config) (seed : BitVec 64) :
    SamplesSmall ℚ cfg seed ∧
    ∀ c ∈ search ℚ cfg seed, c.output.x.toInt = 4 * c.x ∧ c.output.z.toInt = 4 * c.z ∧
      |c.output.x.toInt| ≤ 2 ^ 29 ∧ |c.output.z.toInt| ≤ 2 ^ 29 :=
  ⟨samplesSmall (centresBounded_exact cfg) seed,
    fun _ hC => output_exact (centresBounded_exact cfg) hC⟩

end Search

end Commission
