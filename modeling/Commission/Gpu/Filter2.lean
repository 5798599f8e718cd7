import Commission.Gpu.GradVecs

/-! The sampling filters: the parameters and the decision of
`KernelFilter2::kernel<T>`, and the two kernels specialised to two octaves. -/
namespace Commission

namespace KernelFilter2

/-- `Template<…>` of a build, with the conditions of its static assertions.
`noiseThreshold` counts in units of `1 / 10000`. -/
structure Template (large : Bool) where
  noiseThreshold : ℤ
  octaves : ℕ
  posRange : ℕ
  samples : ℕ
  minCount : ℕ
  flippedSparseSamples : Bool
  moveCenter : Bool
  onlyA : Bool
  samples_ge : 32 ≤ samples
  samples_le : samples ≤ 256 * 256
  samples_pow2 : samples = 2 ^ samples.log2
  flipped_sparse : flippedSparseSamples = true → samples.log2 % 2 = 1
  pos_range_dvd :
    posRange * largeBiomesPosMul large % (2 ^ ((samples.log2 + 1) / 2) * 2 * 4 : ℕ) = 0

def threadsPerBlock : ℕ := 256

/-- The grid of every launch. -/
def gridDim : ℕ := 32 * 256

namespace Template

variable {large : Bool} (T : Template large)

def samplesSquareSize : ℕ := 2 ^ ((T.samples.log2 + 1) / 2)

def samplesSquareSparse : Bool := T.samples.log2 % 2 = 1

def posStep : ℤ := T.posRange * largeBiomesPosMul large / 4 / T.samplesSquareSize

def posOffset : ℤ := -(T.posStep * (T.samplesSquareSize - 1) / 2)

def threadsPerInput : ℕ := min T.samples threadsPerBlock

def loops : ℕ := T.samples / T.threadsPerInput

def inputsPerBlock : ℕ := threadsPerBlock / T.threadsPerInput

def zStep : ℤ := T.posStep * (T.samplesSquareSize / T.loops : ℕ)

theorem threadsPerInput_pos : 0 < T.threadsPerInput := by
  have hSamples := T.samples_ge
  simp only [threadsPerInput, threadsPerBlock]
  omega

theorem inputsPerBlock_pos : 0 < T.inputsPerBlock :=
  Nat.div_pos (Nat.min_le_right _ _) T.threadsPerInput_pos

theorem inputsPerBlock_le : T.inputsPerBlock ≤ 8 := by
  have hSamples := T.samples_ge
  have hThreads : 32 ≤ T.threadsPerInput := by
    simp only [threadsPerInput, threadsPerBlock]
    omega
  calc T.inputsPerBlock ≤ threadsPerBlock / 32 := Nat.div_le_div_left hThreads (by decide)
    _ = 8 := rfl

end Template

section Decision

variable {F : Type} [Arith F] {large : Bool} (T : Template large)

/-- `x_index` of the thread with number `pos_index` among those of an input. -/
def xIndex (posIndex : ℕ) : ℕ := posIndex % T.samplesSquareSize

def zIndex (posIndex : ℕ) : ℕ :=
  let zIndex := posIndex / T.samplesSquareSize
  if T.samplesSquareSparse then
    zIndex * 2 + (if (xIndex T posIndex % 2 = 1) ≠ (T.flippedSparseSamples = true) then 1 else 0)
  else zIndex

/-- The point which a thread samples in pass `i` of its loop. -/
def samplePos (input : SeedPos) (posIndex i : ℕ) : ℤ × ℤ :=
  (input.x + xIndex T posIndex * T.posStep + T.posOffset,
    input.z + zIndex T posIndex * T.posStep + T.posOffset + i * T.zStep)

/-- The sampled value is below the threshold. -/
def valid (result : Result F) (pos : ℤ × ℤ) : Bool :=
  let octaves := min T.octaves 18
  let val := if T.onlyA
    then ResultSampler.sampleOnlyA large octaves initGradDotTable result pos.1 0 pos.2
    else ResultSampler.sample large octaves initGradDotTable result pos.1 0 pos.2
  Arith.lt val (Arith.const (T.noiseThreshold / 10000))

/-- The points of an input, over all its threads and passes. -/
def points (input : SeedPos) : List (ℤ × ℤ) :=
  (List.range T.threadsPerInput).flatMap fun posIndex =>
    (List.range T.loops).map (samplePos T input posIndex)

/-- The outcome of one input: the number of valid points decides, and their
centre is the new position if the template moves it. -/
def outcome (result : Result F) (input : SeedPos) : Option SeedPos :=
  let hits := (points T input).filter (valid T result)
  let totalValid := hits.length
  let sumDx := (hits.map fun pos => pos.1 - input.x).sum
  let sumDz := (hits.map fun pos => pos.2 - input.z).sum
  let moved : ℤ × ℤ :=
    if T.moveCenter then (if totalValid ≠ 0 then (sumDx.tdiv totalValid, sumDz.tdiv totalValid)
      else (sumDx, sumDz))
    else (0, 0)
  if T.minCount ≤ totalValid then
    some ⟨input.seedIndex, input.x + moved.1, input.z + moved.2⟩
  else none

end Decision

end KernelFilter2

/-! The kernels `KernelFilter2_0A` and `KernelFilter2_0B` are the same code for
the octaves 0A, 1A and 0B, 1B. One warp handles one input; a lane samples half
a row of the square. -/
namespace KernelFilter2Pair

open KernelFilter2

variable {F : Type} [Arith F] {large : Bool}

def threadsPerBlock : ℕ := 256

/-- `num_warps` of the launch. -/
def numWarps : ℕ := 32 * 256 * threadsPerBlock / 32

/-- The eight hashes of a lattice cell, in the order of `compute_cell`. -/
structure CellHashes where
  c000 : UInt8
  c100 : UInt8
  c010 : UInt8
  c110 : UInt8
  c001 : UInt8
  c101 : UInt8
  c011 : UInt8
  c111 : UInt8

def computeCell (noise : ImprovedNoise F) (intX intY intZ : ℤ) : CellHashes :=
  let p0 := noise.p (maskByte intX)
  let p1 := noise.p (maskByte (intX + 1))
  let p00 := noise.p (maskByte (p0.toNat + intY))
  let p01 := noise.p (maskByte (p0.toNat + intY + 1))
  let p10 := noise.p (maskByte (p1.toNat + intY))
  let p11 := noise.p (maskByte (p1.toNat + intY + 1))
  { c000 := noise.p (maskByte (p00.toNat + intZ))
    c100 := noise.p (maskByte (p10.toNat + intZ))
    c010 := noise.p (maskByte (p01.toNat + intZ))
    c110 := noise.p (maskByte (p11.toNat + intZ))
    c001 := noise.p (maskByte (p00.toNat + intZ + 1))
    c101 := noise.p (maskByte (p10.toNat + intZ + 1))
    c011 := noise.p (maskByte (p01.toNat + intZ + 1))
    c111 := noise.p (maskByte (p11.toNat + intZ + 1)) }

def interp (table : GradDotTable F) (fracX fracY fracZ fx fy fz : F) (c : CellHashes) : F :=
  let one : F := Arith.const 1
  let n000 := gradDot table c.c000 fracX fracY fracZ
  let n100 := gradDot table c.c100 (fracX - one) fracY fracZ
  let n010 := gradDot table c.c010 fracX (fracY - one) fracZ
  let n110 := gradDot table c.c110 (fracX - one) (fracY - one) fracZ
  let n001 := gradDot table c.c001 fracX fracY (fracZ - one)
  let n101 := gradDot table c.c101 (fracX - one) fracY (fracZ - one)
  let n011 := gradDot table c.c011 fracX (fracY - one) (fracZ - one)
  let n111 := gradDot table c.c111 (fracX - one) (fracY - one) (fracZ - one)
  lerp3 fx fy fz n000 n100 n010 n110 n001 n101 n011 n111

/-- The cell which a lane keeps for one octave: `cur_ix` with its hashes, and
nothing while `have` is false. -/
abbrev KeptCell := Option (ℤ × CellHashes)

/-- The value of one octave at `xWorld`, and the cell kept for the next point. The
hashes are computed only when the cell changes along x. -/
def laneOctave (config : OctaveConfig) (noise : ImprovedNoise F) (zWorld xWorld : ℤ)
    (kept : KeptCell) : F × KeptCell :=
  let y := noise.yo
  let intY := Arith.floorInt y
  let fracY := y - Arith.ofInt intY
  let fy := smoothstep fracY
  let z := Arith.ofInt zWorld * Arith.const config.inputFactor + noise.zo
  let intZ := Arith.floorInt z
  let fracZ := z - Arith.ofInt intZ
  let fz := smoothstep fracZ
  let x := Arith.ofInt xWorld * Arith.const config.inputFactor + noise.xo
  let intX := Arith.floorInt x
  let fracX := x - Arith.ofInt intX
  let cell := match kept with
    | none => (intX, computeCell noise intX intY intZ)
    | some cell =>
        if intX ≠ cell.1 then (intX, computeCell noise intX intY intZ) else cell
  let fx := smoothstep fracX
  (interp initGradDotTable fracX fracY fracZ fx fy fz cell.2, some cell)

/-- `local_count` of a lane: the loop over its eight points. -/
def localCount (T : Template large) (half : Half) (result : Result F) (input : SeedPos)
    (lane : ℕ) : ℕ :=
  let zWorld := input.z + (lane / 2 : ℕ) * T.posStep + T.posOffset
  let xBase := input.x + (lane % 2 * 8 : ℕ) * T.posStep + T.posOffset
  let cfg0 := octaveConfig large ⟨0, half⟩
  let cfg1 := octaveConfig large ⟨1, half⟩
  let passes := (List.range 8).foldl
    (fun (state : ℕ × KeptCell × KeptCell) k =>
      let xWorld := xBase + k * T.posStep
      let noise0 := laneOctave cfg0 (result ⟨0, half⟩) zWorld xWorld state.2.1
      let noise1 := laneOctave cfg1 (result ⟨1, half⟩) zWorld xWorld state.2.2
      let val := (Arith.const 0 : F) + noise0.1 * Arith.const cfg0.valueFactor +
        noise1.1 * Arith.const cfg1.valueFactor
      (state.1 + (if Arith.lt val (Arith.const (T.noiseThreshold / 10000)) then 1 else 0),
        noise0.2, noise1.2))
    (0, none, none)
  passes.1

/-- The test of one input by its warp; the record goes out unchanged. -/
def outcome (T : Template large) (half : Half) (result : Result F) (input : SeedPos) :
    Option SeedPos :=
  let total := ((List.range 32).map (localCount T half result input)).sum
  if T.minCount ≤ total then some ⟨input.seedIndex, input.x, input.z⟩ else none

end KernelFilter2Pair

namespace KernelFilter2_0A

def T (large : Bool) : KernelFilter2.Template large :=
  ⟨-5500, 3, 8 * 1024, 256, 27, false, false, true, by decide, by decide, by decide, by decide,
    by cases large <;> decide⟩

def half : Half := .a

end KernelFilter2_0A

namespace KernelFilter2_0B

def T (large : Bool) : KernelFilter2.Template large :=
  ⟨-5500, 3, 8 * 1024, 256, 20, false, false, false, by decide, by decide, by decide, by decide,
    by cases large <;> decide⟩

def half : Half := .b

end KernelFilter2_0B

/-- `filter_2_runs` -/
def filter2Runs (large : Bool) : Fin 4 → KernelFilter2.Template large
  | 0 => ⟨-10500, 12, 8 * 1024, 256, 24, false, true, false, by decide, by decide, by decide,
      by decide, by cases large <;> decide⟩
  | 1 => ⟨-10500, 14, 8 * 1024, 1024, 110, false, true, false, by decide, by decide, by decide,
      by decide, by cases large <;> decide⟩
  | 2 => ⟨-10500, 16, 10 * 1024, 4096, 340, false, false, false, by decide, by decide, by decide,
      by decide, by cases large <;> decide⟩
  | 3 => ⟨-10500, 18, 10 * 1024, 16384, 1540, false, false, false, by decide, by decide, by decide,
      by decide, by cases large <;> decide⟩

end Commission
