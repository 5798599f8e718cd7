import Commission.Gpu.PairFilter
import Commission.Gpu.WindowScores

/-! The period of the octaves 0A and 1A: what the stages before the tiling decide about a
position holds for the position in every tile. -/
namespace Commission

open KernelFilterGradVecs2

theorem maskByte_add_period (i m : ℤ) : maskByte (i + 256 * m) = maskByte i := by
  apply maskByte_congr
  omega

/-- 256 lattice cells further on a noise has the same values. -/
theorem sampleNoise_add_period (table : GradDotTable ℚ) (noise : ImprovedNoise ℚ) (x y z : ℚ)
    (m n : ℤ) :
    sampleNoise table noise (x + 256 * m) y (z + 256 * n) = sampleNoise table noise x y z := by
  have hX : x + 256 * m + noise.xo = x + noise.xo + (256 * m : ℤ) := by
    push_cast
    ring
  have hZ : z + 256 * n + noise.zo = z + noise.zo + (256 * n : ℤ) := by
    push_cast
    ring
  have hNextX (i : ℤ) : maskByte (i + 256 * m + 1) = maskByte (i + 1) :=
    maskByte_congr (by omega)
  have hHash (v : ℕ) (i : ℤ) : maskByte (v + (i + 256 * n)) = maskByte (v + i) :=
    maskByte_congr (by omega)
  have hNextHash (v : ℕ) (i : ℤ) : maskByte (v + (i + 256 * n) + 1) = maskByte (v + i + 1) :=
    maskByte_congr (by omega)
  have hFrac (q : ℚ) (k : ℤ) : q + (k : ℚ) - ((⌊q⌋ + k : ℤ) : ℚ) = q - ⌊q⌋ := by
    push_cast
    ring
  simp only [sampleNoise, Arith.floorInt_exact, Arith.ofInt_exact, hX, hZ, Int.floor_add_intCast,
    hFrac, maskByte_add_period, hNextX, hHash, hNextHash]

/-- The period of an octave of the first half is one of its own periods or two of them. -/
theorem cellSize0A_mul_inputFactor (large : Bool) :
    (cellSize0A large : ℚ) * (octaveConfig large ⟨0, .a⟩).inputFactor = 256 ∧
      (cellSize0A large : ℚ) * (octaveConfig large ⟨1, .a⟩).inputFactor = 256 * 2 := by
  cases large <;> decide +kernel

theorem sampleOctave_add_period {config : OctaveConfig} {period : ℤ} {turns : ℤ}
    (hPeriod : (period : ℚ) * config.inputFactor = 256 * turns) (table : GradDotTable ℚ)
    (noise : ImprovedNoise ℚ) (x y z a b : ℤ) :
    sampleOctave config table noise (x + a * period) y (z + b * period) =
      sampleOctave config table noise x y z := by
  have hMove (i k : ℤ) : ((i + k * period : ℤ) : ℚ) * config.inputFactor =
      i * config.inputFactor + 256 * (k * turns : ℤ) := by
    push_cast
    rw [add_mul, mul_assoc, hPeriod]
    ring
  simp only [sampleOctave, wrap, Arith.ofInt_exact, Arith.const_exact, hMove,
    sampleNoise_add_period]

/-- A record moved by whole periods. -/
def SeedPos.moved (large : Bool) (input : SeedPos) (a b : ℤ) : SeedPos :=
  ⟨input.seedIndex, input.x + a * cellSize0A large, input.z + b * cellSize0A large⟩

namespace KernelFilter2Pair

open KernelFilter2

variable {large : Bool} (result : Result ℚ) (input : SeedPos) (a b : ℤ)

theorem plainSample_add_period (pos : ℤ × ℤ) :
    plainSample large .a result (pos.1 + a * cellSize0A large, pos.2 + b * cellSize0A large) =
      plainSample large .a result pos := by
  obtain ⟨hFirst, hSecond⟩ := cellSize0A_mul_inputFactor large
  have hOne : (cellSize0A large : ℚ) * (octaveConfig large ⟨0, .a⟩).inputFactor =
      256 * (1 : ℤ) := by
    rw [hFirst]
    norm_num
  have hTwo : (cellSize0A large : ℚ) * (octaveConfig large ⟨1, .a⟩).inputFactor =
      256 * (2 : ℤ) := by
    rw [hSecond]
    norm_num
  simp only [plainSample, sampleOctave_add_period hOne, sampleOctave_add_period hTwo]

theorem gridPos_moved (T : Template large) (place : ℕ × ℕ) :
    gridPos T (input.moved large a b) place =
      ((gridPos T input place).1 + a * cellSize0A large,
        (gridPos T input place).2 + b * cellSize0A large) := by
  simp only [gridPos, SeedPos.moved]
  exact Prod.ext (by ring) (by ring)

/-- The decision about a moved record is the one about the record itself. -/
theorem outcome_moved (T : Template large) :
    outcome T .a result (input.moved large a b) =
      (outcome T .a result input).map fun output => output.moved large a b := by
  have hCount : plainCount T .a result (input.moved large a b) (T.noiseThreshold / 10000) =
      plainCount T .a result input (T.noiseThreshold / 10000) := by
    simp only [plainCount, gridPos_moved, plainSample_add_period]
  simp only [outcome, sum_localCount, hCount]
  split <;> rfl

end KernelFilter2Pair

theorem directScore_congr (host : ℕ → ℕ → ℕ → ℕ → ℚ) (p : Fin 256 → UInt8) {nx mx nz mz : ℤ}
    (hX : nx % 256 = mx % 256) (hZ : nz % 256 = mz % 256) (ny : ℤ) (columns : Finset ℕ) :
    directScore host p nx ny nz columns = directScore host p mx ny mz columns := by
  have hColumn (dnx : ℕ) : maskByte (nx + dnx) = maskByte (mx + dnx) := maskByte_congr (by omega)
  have hRow (v : ℕ) (dnz : ℕ) : maskByte (v + (nz + dnz)) = maskByte (v + (mz + dnz)) :=
    maskByte_congr (by omega)
  simp only [directScore, latticeHash, hColumn, hRow]

namespace KernelFilterGradVecs1

/-- The number of the window which is centred in the lattice cell of a coordinate. -/
def windowAt (large : Bool) (offset : ℚ) (x : ℤ) : ℕ :=
  maskByte (latticeCell0A large offset x - 2)

theorem windowAt_lt (large : Bool) (offset : ℚ) (x : ℤ) : windowAt large offset x < 256 :=
  (maskByte _).isLt

theorem latticeCell0A_add_period (large : Bool) (offset : ℚ) (x a : ℤ) :
    latticeCell0A large offset (x + a * cellSize0A large) =
      latticeCell0A large offset x + 256 * a := by
  have hMove : ((x + a * cellSize0A large : ℤ) : ℚ) * (octaveConfig large ⟨0, .a⟩).inputFactor +
      offset = x * (octaveConfig large ⟨0, .a⟩).inputFactor + offset + (256 * a : ℤ) := by
    have hPeriod := (cellSize0A_mul_inputFactor large).1
    push_cast
    rw [add_mul, mul_assoc, hPeriod]
    ring
  rw [latticeCell0A, hMove, Int.floor_add_intCast, latticeCell0A]

theorem windowAt_add_period (large : Bool) (offset : ℚ) (x a : ℤ) :
    windowAt large offset (x + a * cellSize0A large) = windowAt large offset x := by
  rw [windowAt, latticeCell0A_add_period, windowAt,
    maskByte_congr (by omega : (latticeCell0A large offset x + 256 * a - 2) % 256 =
      (latticeCell0A large offset x - 2) % 256)]

/-- The kernel writes the record of window `n` at a position whose window is `n`. -/
theorem windowAt_windowZ (large : Bool) (offset : ℚ) {n : ℕ} (hn : n < 256) :
    windowAt large offset (windowZ large offset n) = n := by
  have hMask := maskByte_val (n : ℤ)
  rw [windowAt, latticeCell0A_windowZ, add_sub_cancel_right]
  omega

theorem windowAt_windowX (large : Bool) (offset : ℚ) {n : ℕ} (hn : n < 256) :
    windowAt large offset (windowX large offset n) = n := by
  rw [windowX_eq_windowZ, windowAt_windowZ large offset hn]

/-- The gate score of the window centred at a position. -/
def gateAt (large : Bool) (kernel : ConvKernel ℚ) (oct : ImprovedNoise ℚ) (x z : ℤ) : ℚ :=
  gate kernel oct (windowAt large oct.xo x) (windowAt large oct.zo z)

/-- The full score of the window centred at a position. -/
def scoreAt (large : Bool) (kernel : ConvKernel ℚ) (oct : ImprovedNoise ℚ) (x z : ℤ) : ℚ :=
  score kernel oct (windowAt large oct.xo x) (windowAt large oct.zo z)

/-- The window of any position holds the lattice points from two cells before the
position on. -/
theorem scoreAt_direct (large : Bool) (host : ℕ → ℕ → ℕ → ℕ → ℚ) (oct : ImprovedNoise ℚ)
    (x z : ℤ) :
    scoreAt large (transposeKernel host) oct x z =
        directScore host oct.p (latticeCell0A large oct.xo x - 2) (Arith.truncInt oct.yo)
          (latticeCell0A large oct.zo z - 2) (Finset.range 6) ∧
      gateAt large (transposeKernel host) oct x z =
        directScore host oct.p (latticeCell0A large oct.xo x - 2) (Arith.truncInt oct.yo)
          (latticeCell0A large oct.zo z - 2) {2, 3} := by
  have hRows := windowRows oct (windowAt_lt large oct.xo x) (windowAt_lt large oct.zo z)
  have hCell (offset : ℚ) (i : ℤ) :
      (windowAt large offset i : ℤ) % 256 = (latticeCell0A large offset i - 2) % 256 := by
    rw [windowAt, maskByte_val, Int.emod_emod_of_dvd _ (dvd_refl 256)]
  constructor
  · exact hRows.scoreFull12_eq.trans (directScore_congr host oct.p (hCell _ _) (hCell _ _) _ _)
  · exact hRows.scoreCenter2x2_eq.trans (directScore_congr host oct.p (hCell _ _) (hCell _ _) _ _)

end KernelFilterGradVecs1

/-- The tiles of a record which `KernelFilterGradVecs2` looks at, in the order of the
loops over `tx` and `tz`. -/
def tiles (large unbound : Bool) (input : SeedPos) : List SeedPos :=
  (List.range (gridWidth large unbound)).flatMap fun tx =>
    (List.range (gridWidth large unbound)).map fun tz =>
      ⟨input.seedIndex, tilePos large unbound input.x tx, tilePos large unbound input.z tz⟩

theorem tiles_eq (large unbound : Bool) (input : SeedPos) :
    tiles large unbound input =
      (List.range (gridWidth large unbound)).flatMap fun (tx : ℕ) =>
        (List.range (gridWidth large unbound)).map fun (tz : ℕ) =>
          input.moved large (tx - gridHalf large unbound) (tz - gridHalf large unbound) := rfl

theorem mem_tiles {large unbound : Bool} {input tile : SeedPos}
    (hTile : tile ∈ tiles large unbound input) : ∃ a b, tile = input.moved large a b := by
  rw [tiles_eq] at hTile
  obtain ⟨tx, -, hRow⟩ := List.mem_flatMap.mp hTile
  obtain ⟨tz, -, rfl⟩ := List.mem_map.mp hRow
  exact ⟨_, _, rfl⟩

section Stages

variable (large unbound : Bool) (result : Result ℚ)

/-- `KernelFilter2_0A` for one record. -/
def decision (input : SeedPos) : Option SeedPos :=
  KernelFilter2Pair.outcome (KernelFilter2_0A.T large) KernelFilter2_0A.half result input

theorem decision_eq_some {input output : SeedPos} (h : decision large result input = some output) :
    output = input := by
  simp only [decision, KernelFilter2Pair.outcome] at h
  split at h
  · cases h
    rfl
  · cases h

theorem decision_moved (input : SeedPos) (a b : ℤ) :
    decision large result (input.moved large a b) =
      (decision large result input).map fun output => output.moved large a b :=
  KernelFilter2Pair.outcome_moved result input a b (KernelFilter2_0A.T large)

/-- All tiles of a record are kept, or none of them. -/
theorem filterMap_tiles (input : SeedPos) :
    (tiles large unbound input).filterMap (decision large result) =
      (decision large result input).toList.flatMap (tiles large unbound) := by
  cases hOut : decision large result input with
  | none =>
      rw [Option.toList_none, List.flatMap_nil, List.filterMap_eq_nil_iff]
      intro tile hTile
      obtain ⟨a, b, rfl⟩ := mem_tiles hTile
      rw [decision_moved, hOut, Option.map_none]
  | some output =>
      obtain rfl := decision_eq_some large result hOut
      rw [Option.toList_some, List.flatMap_singleton]
      conv_rhs => rw [← List.filterMap_some (l := tiles large unbound output)]
      apply List.filterMap_congr
      intro tile hTile
      obtain ⟨a, b, rfl⟩ := mem_tiles hTile
      rw [decision_moved, hOut, Option.map_some]

/-- Filtering before the tiling keeps the records which filtering all tiles would keep. -/
theorem filterMap_flatMap_tiles (inputs : List SeedPos) :
    (inputs.flatMap (tiles large unbound)).filterMap (decision large result) =
      (inputs.filterMap (decision large result)).flatMap (tiles large unbound) := by
  induction inputs with
  | nil => rfl
  | cons input rest ih =>
      rw [List.flatMap_cons, List.filterMap_append, ih, filterMap_tiles, List.filterMap_cons]
      cases decision large result input with
      | none => rfl
      | some output => simp

end Stages

/-- The octaves 0A and 1A repeat after `cell_size_0A`: the decision of `KernelFilter2_0A` and
the scores of `KernelFilterGradVecs1` are those of the position one or more periods away,
and the filter may come before the tiling. -/
theorem octaves_repeat (large : Bool) (result : Result ℚ) (host : ℕ → ℕ → ℕ → ℕ → ℚ)
    (oct : ImprovedNoise ℚ) (seedIndex : ℕ) (x z a b : ℤ) :
    (decision large result
        ⟨seedIndex, x + a * cellSize0A large, z + b * cellSize0A large⟩).isSome =
      (decision large result ⟨seedIndex, x, z⟩).isSome ∧
    KernelFilterGradVecs1.gateAt large (transposeKernel host) oct (x + a * cellSize0A large)
        (z + b * cellSize0A large) =
      KernelFilterGradVecs1.gateAt large (transposeKernel host) oct x z ∧
    KernelFilterGradVecs1.scoreAt large (transposeKernel host) oct (x + a * cellSize0A large)
        (z + b * cellSize0A large) =
      KernelFilterGradVecs1.scoreAt large (transposeKernel host) oct x z ∧
    -- the scores at a position are those of the window around it, and of the kernel's own
    -- windows at the positions which it writes
    KernelFilterGradVecs1.scoreAt large (transposeKernel host) oct x z =
      directScore host oct.p (latticeCell0A large oct.xo x - 2) (Arith.truncInt oct.yo)
        (latticeCell0A large oct.zo z - 2) (Finset.range 6) ∧
    KernelFilterGradVecs1.gateAt large (transposeKernel host) oct x z =
      directScore host oct.p (latticeCell0A large oct.xo x - 2) (Arith.truncInt oct.yo)
        (latticeCell0A large oct.zo z - 2) {2, 3} ∧
    (∀ nx < 256, ∀ nz < 256,
      KernelFilterGradVecs1.windowAt large oct.xo
        (KernelFilterGradVecs1.windowX large oct.xo nx) = nx ∧
      KernelFilterGradVecs1.windowAt large oct.zo
        (KernelFilterGradVecs1.windowZ large oct.zo nz) = nz) ∧
    ∀ (unbound : Bool) (inputs : List SeedPos),
      (inputs.flatMap (tiles large unbound)).filterMap (decision large result) =
        (inputs.filterMap (decision large result)).flatMap (tiles large unbound) := by
  obtain ⟨hScore, hGate⟩ := KernelFilterGradVecs1.scoreAt_direct large host oct x z
  refine ⟨?_, ?_, ?_, hScore, hGate, ?_, fun unbound inputs =>
    filterMap_flatMap_tiles large unbound result inputs⟩
  · have hMoved := decision_moved large result ⟨seedIndex, x, z⟩ a b
    exact (congrArg Option.isSome hMoved).trans Option.isSome_map
  · simp only [KernelFilterGradVecs1.gateAt, KernelFilterGradVecs1.windowAt_add_period]
  · simp only [KernelFilterGradVecs1.scoreAt, KernelFilterGradVecs1.windowAt_add_period]
  · intro nx hNx nz hNz
    exact ⟨KernelFilterGradVecs1.windowAt_windowX large oct.xo hNx,
      KernelFilterGradVecs1.windowAt_windowZ large oct.zo hNz⟩

end Commission
