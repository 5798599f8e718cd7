import Commission.Noise.Device
import Commission.Gpu.ConvKernels

/-! The gradient-vector filters: the window scores of `KernelFilterGradVecs1`
and `KernelFilterGradVecs2` and the positions they give to their outputs. -/
namespace Commission

/-- A candidate position of one seed of the batch. -/
structure SeedPos where
  seedIndex : ℕ
  x : ℤ
  z : ℤ
  deriving DecidableEq, Repr, Inhabited

def largeBiomesPosMul (large : Bool) : ℤ := if large then 4 else 1

section Scores

variable {F : Type} [Arith F]

/-- The partial sums over `dnz` of one convolution layer for the column that
starts at table index `nz`. -/
def convSum (kernel : ConvKernel F) (p : Fin 256 → UInt8) (dny nz dnx : ℕ) : F :=
  (List.range 6).foldl
    (fun conv dnz =>
      conv + kernel dnx dnz (lowNibble (p (maskByte (nz + dnz)))) dny)
    (Arith.const 0)

/-- The shared array `conv_z0` or `conv_z1`. Rows `nz` and `nz + 256` hold the
same sums; row 512 is never written. -/
def convZ (kernel : ConvKernel F) (p : Fin 256 → UInt8) (dny row dnx : ℕ) : F :=
  if row < 256 then convSum kernel p dny row dnx
  else if row < 512 then convSum kernel p dny (row - 256) dnx
  else Arith.const 0

def scoreCenter2x2 (convZ0 convZ1 : ℕ → ℕ → F) (idx0 idx1 : ℕ → ℕ) : F :=
  convZ0 (idx0 2) 2 + convZ0 (idx0 3) 3 + convZ1 (idx1 2) 2 + convZ1 (idx1 3) 3

def scoreFull12 (convZ0 convZ1 : ℕ → ℕ → F) (idx0 idx1 : ℕ → ℕ) : F :=
  (List.range 6).foldl
    (fun score i => score + convZ0 (idx0 i) i + convZ1 (idx1 i) i)
    (Arith.const 0)

end Scores

namespace KernelFilterGradVecs1

section

variable {F : Type} [Arith F]

def prefilterThreshold : ℚ := -12
def finalThreshold : ℚ := -37 / 2

/-- The shared array `idx_xy[dny]` of 272 bytes: 256 hashes, the first six
again, and ten bytes which are never written. -/
def idxXy (oct : ImprovedNoise F) (dny j : ℕ) : UInt8 :=
  let ny := Arith.truncInt oct.yo
  let hash (nz : ℕ) : UInt8 := oct.p (maskByte ((oct.p (maskByte nz)).toNat + ny + dny))
  if j < 256 then hash j
  else if j < 262 then hash (j - 256)
  else 0

instance neZeroFour : NeZero 4 := ⟨by decide⟩

/-- A `uchar4` loaded from `row[j]`. -/
def load4 (row : ℕ → UInt8) (j : ℕ) : Fin 4 → UInt8 := fun i => row (j + i)

/-- The registers `c_0` and `c_1` at the start of group `g` of eight windows.
They are loaded once and then carried over from `c_2` and `c_3`. -/
def slide (row : ℕ → UInt8) : ℕ → (Fin 4 → UInt8) × (Fin 4 → UInt8)
  | 0 => (load4 row 0, load4 row 4)
  | g + 1 => (load4 row (8 * g + 8), load4 row (8 * g + 12))

/-- Entry `j` of the local array `w0` or `w1` in group `g`. -/
def window (row : ℕ → UInt8) (nz g j : ℕ) : ℕ :=
  let carried := slide row g
  let c2 := load4 row (8 * g + 8)
  let c3 := load4 row (8 * g + 12)
  let lane := Fin.ofNat 4 j
  let byte := match j / 4 with
    | 0 => carried.1 lane
    | 1 => carried.2 lane
    | 2 => c2 lane
    | _ => c3 lane
  byte.toNat + nz

/-- The indices of candidate `nx % 8` in group `nx / 8`. -/
def windowIdx (oct : ImprovedNoise F) (dny nz nx i : ℕ) : ℕ :=
  window (idxXy oct dny) nz (nx / 8) (nx % 8 + i)

def gate (kernel : ConvKernel F) (oct : ImprovedNoise F) (nx nz : ℕ) : F :=
  scoreCenter2x2 (convZ kernel oct.p 0) (convZ kernel oct.p 1)
    (windowIdx oct 0 nz nx) (windowIdx oct 1 nz nx)

def score (kernel : ConvKernel F) (oct : ImprovedNoise F) (nx nz : ℕ) : F :=
  scoreFull12 (convZ kernel oct.p 0) (convZ kernel oct.p 1)
    (windowIdx oct 0 nz nx) (windowIdx oct 1 nz nx)

/-- Window `(nx, nz)` passes the gate and the full score. -/
def accepts (kernel : ConvKernel F) (oct : ImprovedNoise F) (nx nz : ℕ) : Bool :=
  Arith.le (Arith.const prefilterThreshold) (gate kernel oct nx nz) &&
    Arith.lt (Arith.const finalThreshold) (score kernel oct nx nz)

def cellSize (large : Bool) : ℤ := 512 * largeBiomesPosMul large

/-- `x_center` or `z_center`, from the octave offset of that axis. -/
def center (large : Bool) (offset : F) : ℤ :=
  Arith.truncInt ((Arith.const (5 / 2) - offset) * Arith.ofInt (cellSize large))

/-- The `x` of window `nx`: `x + candidate * cell_size`, with `x` advanced by
`8 * cell_size` a group. -/
def windowX (large : Bool) (xo : F) (nx : ℕ) : ℤ :=
  center large xo + (nx / 8 : ℕ) * (8 * cellSize large) + (nx % 8 : ℕ) * cellSize large

/-- The `z` of window `nz`. -/
def windowZ (large : Bool) (zo : F) (nz : ℕ) : ℤ :=
  center large zo + nz * cellSize large

end

/-- The stepped coordinate of the x axis is the one the z axis computes at once. -/
theorem windowX_eq_windowZ {F : Type} [Arith F] (large : Bool) (offset : F) (n : ℕ) :
    windowX large offset n = windowZ large offset n := by
  have hSplit : (n : ℤ) = 8 * (n / 8 : ℕ) + (n % 8 : ℕ) := by
    exact_mod_cast (Nat.div_add_mod n 8).symm
  rw [windowX, windowZ, hSplit]
  ring

end KernelFilterGradVecs1

namespace KernelFilterGradVecs2

section

variable {F : Type} [Arith F]

def prefilterThreshold : ℚ := -27 / 2
def finalThreshold : ℚ := -20

def gridWidth (large unbound : Bool) : ℕ :=
  if unbound then 331 else if large then 29 else 115

def gridHalf (large unbound : Bool) : ℕ := gridWidth large unbound / 2

/-- `cell_size_0A`: one period of octave 0A. -/
def cellSize0A (large : Bool) : ℤ :=
  truncRat (1 / (octaveConfig large ⟨0, .a⟩).inputFactor) * 256

/-- The coordinate of tile `t` of one axis. -/
def tilePos (large unbound : Bool) (input : ℤ) (t : ℕ) : ℤ :=
  input + (t - gridHalf large unbound) * cellSize0A large

/-- The lattice cell `nx` or `nz` of octave 0B below a coordinate. -/
def latticeCell (large : Bool) (offset : F) (x : ℤ) : ℤ :=
  Arith.floorInt (Arith.ofInt x * Arith.const (octaveConfig large ⟨0, .b⟩).inputFactor + offset -
    Arith.const 2)

/-- `hoisted_idx_xy[dny][dnx]` -/
def hoistedIdxXy (oct : ImprovedNoise F) (nx : ℤ) (dny dnx : ℕ) : UInt8 :=
  let ny := Arith.truncInt oct.yo
  let idxX := oct.p (maskByte (nx + dnx))
  oct.p (maskByte (idxX.toNat + ny + dny))

def tileIdx (oct : ImprovedNoise F) (nx nz : ℤ) (dny i : ℕ) : ℕ :=
  (hoistedIdxXy oct nx dny i).toNat + maskByte nz

def gate (kernel : ConvKernel F) (oct : ImprovedNoise F) (nx nz : ℤ) : F :=
  scoreCenter2x2 (convZ kernel oct.p 0) (convZ kernel oct.p 1) (tileIdx oct nx nz 0)
    (tileIdx oct nx nz 1)

def score (kernel : ConvKernel F) (oct : ImprovedNoise F) (nx nz : ℤ) : F :=
  scoreFull12 (convZ kernel oct.p 0) (convZ kernel oct.p 1) (tileIdx oct nx nz 0)
    (tileIdx oct nx nz 1)

/-- The window at `(x, z)` passes the gate and the full score of octave 0B. -/
def accepts (large : Bool) (kernel : ConvKernel F) (oct : ImprovedNoise F) (x z : ℤ) : Bool :=
  let nx := latticeCell large oct.xo x
  let nz := latticeCell large oct.zo z
  Arith.le (Arith.const prefilterThreshold) (gate kernel oct nx nz) &&
    Arith.lt (Arith.const finalThreshold) (score kernel oct nx nz)

end

theorem cellSize0A_eq (large : Bool) :
    cellSize0A large = 256 * KernelFilterGradVecs1.cellSize large := by
  cases large <;> decide +kernel

end KernelFilterGradVecs2

end Commission
