import Commission.Gpu.BlockFilter

/-! The kernels `KernelFilter2_0A` and `KernelFilter2_0B` against plain sampling of
their two octaves, in exact arithmetic. -/
namespace Commission.KernelFilter2Pair

open KernelFilter2 Reduction

section Lane

variable (config : OctaveConfig) (noise : ImprovedNoise ℚ) (zWorld : ℤ)

/-- The hashes of the cell at `intX`, for the `y` and `z` of a lane. -/
def cellAt (intX : ℤ) : CellHashes :=
  computeCell noise intX ⌊noise.yo⌋ ⌊(zWorld : ℚ) * config.inputFactor + noise.zo⌋

/-- A kept cell holds the hashes of its `cur_ix`. -/
def Keeps (kept : KeptCell) : Prop :=
  ∀ cell ∈ kept, cell.2 = cellAt config noise zWorld cell.1

theorem keeps_none : Keeps config noise zWorld none := by
  intro cell hCell
  cases hCell

/-- The value which a lane takes of a cell at `xWorld`. -/
def interpAt (xWorld : ℤ) (cell : CellHashes) : ℚ :=
  let x := (xWorld : ℚ) * config.inputFactor + noise.xo
  let y := noise.yo
  let z := (zWorld : ℚ) * config.inputFactor + noise.zo
  interp initGradDotTable (x - ⌊x⌋) (y - ⌊y⌋) (z - ⌊z⌋) (smoothstep (x - ⌊x⌋))
    (smoothstep (y - ⌊y⌋)) (smoothstep (z - ⌊z⌋)) cell

/-- Plain sampling computes the hashes anew; at `y = 0` the height is the offset. -/
theorem sampleOctave_eq (xWorld : ℤ) :
    sampleOctave config initGradDotTable noise xWorld 0 zWorld =
      interpAt config noise zWorld xWorld
        (cellAt config noise zWorld ⌊(xWorld : ℚ) * config.inputFactor + noise.xo⌋) *
          config.valueFactor := by
  have hHeight : (0 : ℚ) * config.inputFactor + noise.yo = noise.yo := by ring
  simp only [sampleOctave, sampleNoise, wrap, Arith.ofInt_exact, Arith.const_exact,
    Arith.floorInt_exact, Int.cast_zero, hHeight]
  rfl

variable {config noise zWorld}

/-- The hashes used are those of the point's own cell, kept or not. -/
theorem laneOctave_cell (xWorld : ℤ) {kept : KeptCell} (hKeeps : Keeps config noise zWorld kept) :
    laneOctave config noise zWorld xWorld kept =
      (interpAt config noise zWorld xWorld
          (cellAt config noise zWorld ⌊(xWorld : ℚ) * config.inputFactor + noise.xo⌋),
        some (⌊(xWorld : ℚ) * config.inputFactor + noise.xo⌋,
          cellAt config noise zWorld ⌊(xWorld : ℚ) * config.inputFactor + noise.xo⌋)) := by
  cases kept with
  | none => rfl
  | some cell =>
      obtain ⟨curIx, hashes⟩ := cell
      have hHashes : hashes = cellAt config noise zWorld curIx := hKeeps _ rfl
      subst hHashes
      by_cases hSame : ⌊(xWorld : ℚ) * config.inputFactor + noise.xo⌋ = curIx
      · subst hSame
        simp only [laneOctave, Arith.ofInt_exact, Arith.const_exact, Arith.floorInt_exact, ne_eq,
          not_true_eq_false, if_false]
        rfl
      · simp only [laneOctave, Arith.ofInt_exact, Arith.const_exact, Arith.floorInt_exact, ne_eq,
          hSame, not_false_eq_true, if_true]
        rfl

/-- The value of a point does not depend on what was kept. -/
theorem laneOctave_eq (xWorld : ℤ) {kept : KeptCell} (hKeeps : Keeps config noise zWorld kept) :
    (laneOctave config noise zWorld xWorld kept).1 * config.valueFactor =
        sampleOctave config initGradDotTable noise xWorld 0 zWorld ∧
      Keeps config noise zWorld (laneOctave config noise zWorld xWorld kept).2 := by
  rw [laneOctave_cell xWorld hKeeps, sampleOctave_eq]
  refine ⟨rfl, fun cell hCell => ?_⟩
  cases hCell
  rfl

end Lane

section Count

/-- The two octaves of a half at `y = 0`, sampled plainly. -/
def plainSample (large : Bool) (half : Half) (result : Result ℚ) (pos : ℤ × ℤ) : ℚ :=
  sampleOctave (octaveConfig large ⟨0, half⟩) initGradDotTable (result ⟨0, half⟩) pos.1 0 pos.2 +
    sampleOctave (octaveConfig large ⟨1, half⟩) initGradDotTable (result ⟨1, half⟩) pos.1 0 pos.2

variable {large : Bool} (T : Template large) (half : Half) (result : Result ℚ) (input : SeedPos)

/-- One for a place of the square whose point is below the threshold. -/
def hit (place : ℕ × ℕ) : ℕ :=
  if plainSample large half result (gridPos T input place) < T.noiseThreshold / 10000 then 1 else 0

/-- The body of the loop over the eight points of a lane. -/
def laneStep (lane : ℕ) (state : ℕ × KeptCell × KeptCell) (k : ℕ) : ℕ × KeptCell × KeptCell :=
  let zWorld := input.z + (lane / 2 : ℕ) * T.posStep + T.posOffset
  let xBase := input.x + (lane % 2 * 8 : ℕ) * T.posStep + T.posOffset
  let cfg0 := octaveConfig large ⟨0, half⟩
  let cfg1 := octaveConfig large ⟨1, half⟩
  let xWorld := xBase + k * T.posStep
  let noise0 := laneOctave cfg0 (result ⟨0, half⟩) zWorld xWorld state.2.1
  let noise1 := laneOctave cfg1 (result ⟨1, half⟩) zWorld xWorld state.2.2
  let val := (Arith.const 0 : ℚ) + noise0.1 * Arith.const cfg0.valueFactor +
    noise1.1 * Arith.const cfg1.valueFactor
  (state.1 + (if Arith.lt val (Arith.const (T.noiseThreshold / 10000)) then 1 else 0),
    noise0.2, noise1.2)

theorem localCount_eq_foldl (lane : ℕ) : localCount T half result input lane =
    ((List.range 8).foldl (laneStep T half result input lane) (0, none, none)).1 := rfl

variable {T half result input}

/-- A point adds its hit, and both octaves keep the right hashes. -/
theorem laneStep_eq {lane : ℕ} {state : ℕ × KeptCell × KeptCell}
    (hKeeps : Keeps (octaveConfig large ⟨0, half⟩) (result ⟨0, half⟩)
        (gridPos T input (0, lane / 2)).2 state.2.1 ∧
      Keeps (octaveConfig large ⟨1, half⟩) (result ⟨1, half⟩)
        (gridPos T input (0, lane / 2)).2 state.2.2) (k : ℕ) :
    let next := laneStep T half result input lane state k
    next.1 = state.1 + hit T half result input (lane % 2 * 8 + k, lane / 2) ∧
      Keeps (octaveConfig large ⟨0, half⟩) (result ⟨0, half⟩)
        (gridPos T input (0, lane / 2)).2 next.2.1 ∧
      Keeps (octaveConfig large ⟨1, half⟩) (result ⟨1, half⟩)
        (gridPos T input (0, lane / 2)).2 next.2.2 := by
  have hX : input.x + (lane % 2 * 8 : ℕ) * T.posStep + T.posOffset + k * T.posStep =
      (gridPos T input (lane % 2 * 8 + k, lane / 2)).1 := by
    simp only [gridPos]
    push_cast
    ring
  obtain ⟨hValue0, hKeeps0⟩ :=
    laneOctave_eq (gridPos T input (lane % 2 * 8 + k, lane / 2)).1 hKeeps.1
  obtain ⟨hValue1, hKeeps1⟩ :=
    laneOctave_eq (gridPos T input (lane % 2 * 8 + k, lane / 2)).1 hKeeps.2
  intro next
  simp only [next, laneStep, hX]
  refine ⟨?_, hKeeps0, hKeeps1⟩
  have hVal : (Arith.const 0 : ℚ) +
      (laneOctave (octaveConfig large ⟨0, half⟩) (result ⟨0, half⟩)
        (gridPos T input (0, lane / 2)).2 (gridPos T input (lane % 2 * 8 + k, lane / 2)).1
        state.2.1).1 * Arith.const (octaveConfig large ⟨0, half⟩).valueFactor +
      (laneOctave (octaveConfig large ⟨1, half⟩) (result ⟨1, half⟩)
        (gridPos T input (0, lane / 2)).2 (gridPos T input (lane % 2 * 8 + k, lane / 2)).1
        state.2.2).1 * Arith.const (octaveConfig large ⟨1, half⟩).valueFactor =
      plainSample large half result (gridPos T input (lane % 2 * 8 + k, lane / 2)) := by
    simp only [Arith.const_exact, zero_add]
    rw [hValue0, hValue1]
    rfl
  rw [hit, ← hVal]
  exact congrArg _ (if_congr decide_eq_true_iff rfl rfl)

theorem localCount_eq (lane : ℕ) : localCount T half result input lane =
    ∑ k ∈ Finset.range 8, hit T half result input (lane % 2 * 8 + k, lane / 2) := by
  have hPasses (n : ℕ) :
      let state := (List.range n).foldl (laneStep T half result input lane) (0, none, none)
      state.1 = ∑ k ∈ Finset.range n, hit T half result input (lane % 2 * 8 + k, lane / 2) ∧
        Keeps (octaveConfig large ⟨0, half⟩) (result ⟨0, half⟩)
          (gridPos T input (0, lane / 2)).2 state.2.1 ∧
        Keeps (octaveConfig large ⟨1, half⟩) (result ⟨1, half⟩)
          (gridPos T input (0, lane / 2)).2 state.2.2 := by
    induction n with
    | zero => exact ⟨rfl, keeps_none _ _ _, keeps_none _ _ _⟩
    | succ n ih =>
        obtain ⟨hCount, hKeeps⟩ := ih
        obtain ⟨hNext, hNextKeeps⟩ := laneStep_eq hKeeps n
        rw [List.range_succ, List.foldl_append, List.foldl_cons, List.foldl_nil]
        exact ⟨by rw [hNext, hCount, Finset.sum_range_succ], hNextKeeps⟩
  rw [localCount_eq_foldl]
  exact (hPasses 8).1

/-- The number of points of a 16 by 16 square which are below the threshold, by plain
sampling. -/
def plainCount (T : Template large) (half : Half) (result : Result ℚ) (input : SeedPos)
    (threshold : ℚ) : ℕ :=
  ((Finset.range 16 ×ˢ Finset.range 16).filter fun place =>
    plainSample large half result (gridPos T input place) < threshold).card

/-- The 32 lanes with their eight points are the square: a row takes two lanes. -/
theorem sum_localCount : ((List.range 32).map (localCount T half result input)).sum =
    plainCount T half result input (T.noiseThreshold / 10000) := by
  have hRows : ∀ row < 16, ∑ column ∈ Finset.range 16, hit T half result input (column, row) =
      ∑ side ∈ Finset.range 2, localCount T half result input (row * 2 + side) := by
    intro row _
    rw [show (16 : ℕ) = 2 * 8 from rfl, sum_range_mul]
    apply Finset.sum_congr rfl
    intro side hMem
    obtain ⟨hDiv, hMod⟩ := div_mod_place row (Finset.mem_range.mp hMem)
    rw [localCount_eq, hDiv, hMod]
  change ∑ lane ∈ Finset.range (16 * 2), localCount T half result input lane = _
  rw [sum_range_mul, plainCount, Finset.card_filter, Finset.sum_product_right]
  apply Finset.sum_congr rfl
  intro row hMem
  rw [← hRows row (Finset.mem_range.mp hMem)]
  rfl

end Count

theorem threshold_eq (large : Bool) :
    ((KernelFilter2_0A.T large).noiseThreshold : ℚ) / 10000 = -11 / 20 ∧
      ((KernelFilter2_0B.T large).noiseThreshold : ℚ) / 10000 = -11 / 20 := by
  cases large <;> decide +kernel

/-- With three octaves, `sample_only_a` is the sum of octaves 0A and 1A. -/
theorem valid_eq_plainSample (large : Bool) (result : Result ℚ) (pos : ℤ × ℤ) :
    KernelFilter2.valid (KernelFilter2_0A.T large) result pos =
      decide (plainSample large .a result pos < -11 / 20) := by
  have hSum : ResultSampler.sampleOnlyA large 3 initGradDotTable result pos.1 0 pos.2 =
      (0 + sampleOctave (octaveConfig large ⟨0, .a⟩) initGradDotTable (result ⟨0, .a⟩) pos.1 0 pos.2) +
        sampleOctave (octaveConfig large ⟨1, .a⟩) initGradDotTable (result ⟨1, .a⟩) pos.1 0 pos.2 :=
    rfl
  rw [zero_add] at hSum
  change decide (ResultSampler.sampleOnlyA large 3 initGradDotTable result pos.1 0 pos.2 <
    ((KernelFilter2_0A.T large).noiseThreshold : ℚ) / 10000) = _
  rw [hSum, (threshold_eq large).1]
  rfl

theorem sampledGrid_square (large : Bool) :
    sampledGrid (KernelFilter2_0A.T large) = Finset.range 16 ×ˢ Finset.range 16 := by
  have hSize : (KernelFilter2_0A.T large).samplesSquareSize = 16 := by cases large <;> decide
  have hDense : (KernelFilter2_0A.T large).samplesSquareSparse = false := by cases large <;> decide
  rw [sampledGrid, hSize, Finset.filter_true_of_mem]
  intro place _ hSparse
  rw [hDense] at hSparse
  cases hSparse

/-- `KernelFilter2_0A` decides as `KernelFilter2::kernel<T>` does for its `T`. -/
theorem outcome_0A (large : Bool) (result : Result ℚ) (input : SeedPos) :
    KernelFilter2.outcome (KernelFilter2_0A.T large) result input =
      if 27 ≤ plainCount (KernelFilter2_0A.T large) .a result input (-11 / 20)
      then some input else none := by
  have hCount : (hits (KernelFilter2_0A.T large) (KernelFilter2.valid (KernelFilter2_0A.T large)
      result) input).length = plainCount (KernelFilter2_0A.T large) .a result input (-11 / 20) := by
    rw [length_hits_eq_card, sampledGrid_square, plainCount]
    simp only [valid_eq_plainSample, decide_eq_true_eq]
  have hStays : (KernelFilter2_0A.T large).moveCenter = false := rfl
  have hMin : (KernelFilter2_0A.T large).minCount = 27 := rfl
  rw [outcome_eq_outcomeOf, outcomeOf]
  simp only [hCount, hStays, hMin, Bool.false_eq_true, if_false, add_zero]

/-- Both kernels accept an input exactly if at least 27, or 20, of the 256 points of
its square are below `-0.55` when its two octaves are sampled plainly, and emit it as it
is; `KernelFilter2_0A` decides as the general kernel does; and lane 0 gets the total
from either reduction. -/
theorem pair_eq_plain (large : Bool) (result : Result ℚ) (input : SeedPos) :
    outcome (KernelFilter2_0A.T large) KernelFilter2_0A.half result input =
      (if 27 ≤ plainCount (KernelFilter2_0A.T large) .a result input (-11 / 20)
      then some input else none) ∧
    outcome (KernelFilter2_0A.T large) KernelFilter2_0A.half result input =
      KernelFilter2.outcome (KernelFilter2_0A.T large) result input ∧
    outcome (KernelFilter2_0B.T large) KernelFilter2_0B.half result input =
      (if 20 ≤ plainCount (KernelFilter2_0B.T large) .b result input (-11 / 20)
      then some input else none) ∧
    ∀ (T : Template large) (half : Half) (reduceSync : Bool),
      warpReduceAdd reduceSync (localCount T half result input) 0 =
        ((List.range 32).map (localCount T half result input)).sum := by
  have h0A : outcome (KernelFilter2_0A.T large) KernelFilter2_0A.half result input =
      if 27 ≤ plainCount (KernelFilter2_0A.T large) .a result input (-11 / 20)
      then some input else none := by
    simp only [outcome, sum_localCount, (threshold_eq large).1]
    rfl
  refine ⟨h0A, h0A.trans (outcome_0A large result input).symm, ?_, fun T half reduceSync => ?_⟩
  · simp only [outcome, sum_localCount, (threshold_eq large).2]
    rfl
  · exact warpReduceAdd_zero reduceSync _

end Commission.KernelFilter2Pair
