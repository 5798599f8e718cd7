import Commission.Gpu.GradVecs
import Commission.Library.Reduction
import Mathlib.Tactic.Linarith
import Mathlib.Tactic.NormNum

/-! The scores of the gradient-vector filters as direct convolutions, with addition
exact. -/
namespace Commission

/-- A host table `[dny][dnx][dnz][p]` as it is copied to the device. -/
def transposeKernel (host : ℕ → ℕ → ℕ → ℕ → ℚ) : ConvKernel ℚ :=
  fun dnx dnz p dny => host dny dnx dnz p

/-- The hash of a lattice point, of which the low four bits name the gradient. -/
def latticeHash (p : Fin 256 → UInt8) (nx ny nz : ℤ) : UInt8 :=
  p (maskByte ((p (maskByte ((p (maskByte nx)).toNat + ny))).toNat + nz))

/-- The sum over the lattice points of a window, for some of its columns `dnx`. -/
def directScore (host : ℕ → ℕ → ℕ → ℕ → ℚ) (p : Fin 256 → UInt8) (nx ny nz : ℤ)
    (columns : Finset ℕ) : ℚ :=
  ∑ dny ∈ Finset.range 2, ∑ dnx ∈ columns, ∑ dnz ∈ Finset.range 6,
    host dny dnx dnz (lowNibble (latticeHash p (nx + dnx) (ny + dny) (nz + dnz)))

section Columns

variable (host : ℕ → ℕ → ℕ → ℕ → ℚ) (p : Fin 256 → UInt8)

theorem convSum_eq (dny row dnx : ℕ) : convSum (transposeKernel host) p dny row dnx =
    ∑ dnz ∈ Finset.range 6, host dny dnx dnz (lowNibble (p (maskByte (row + dnz)))) := by
  rw [convSum, Arith.const_exact, Reduction.foldl_range_add, zero_add]
  rfl

/-- Both halves of a shared array hold the sums of the column at the row modulo 256. -/
theorem convZ_eq {row : ℕ} (hRow : row < 512) (dny dnx : ℕ) :
    convZ (transposeKernel host) p dny row dnx =
      ∑ dnz ∈ Finset.range 6, host dny dnx dnz (lowNibble (p (maskByte (row + dnz)))) := by
  rw [convZ]
  split
  · exact convSum_eq host p dny row dnx
  · rw [convSum_eq]
    apply Finset.sum_congr rfl
    intro dnz _
    rw [maskByte_congr (by omega : ((row - 256 : ℕ) + dnz : ℤ) % 256 = (row + dnz) % 256)]

variable {host p} {idx : ℕ → ℕ → ℕ} {nx ny nz : ℤ}

/-- The rows which a window takes: one for each `dny` and column, below 512, and the hash
of the column and `nz` modulo 256. -/
def WindowRows (p : Fin 256 → UInt8) (nx ny nz : ℤ) (idx : ℕ → ℕ → ℕ) : Prop :=
  ∀ dny < 2, ∀ dnx < 6, idx dny dnx < 512 ∧
    (idx dny dnx : ℤ) % 256 =
      ((p (maskByte ((p (maskByte (nx + dnx))).toNat + (ny + dny)))).toNat + nz) % 256

theorem WindowRows.convZ_eq (hRows : WindowRows p nx ny nz idx) {dny dnx : ℕ} (hDny : dny < 2)
    (hDnx : dnx < 6) : convZ (transposeKernel host) p dny (idx dny dnx) dnx =
      ∑ dnz ∈ Finset.range 6,
        host dny dnx dnz (lowNibble (latticeHash p (nx + dnx) (ny + dny) (nz + dnz))) := by
  obtain ⟨hRow, hHash⟩ := hRows dny hDny dnx hDnx
  rw [Commission.convZ_eq host p hRow]
  apply Finset.sum_congr rfl
  intro dnz _
  rw [latticeHash, maskByte_congr]
  omega

theorem WindowRows.scoreFull12_eq (hRows : WindowRows p nx ny nz idx) :
    scoreFull12 (convZ (transposeKernel host) p 0) (convZ (transposeKernel host) p 1) (idx 0)
      (idx 1) = directScore host p nx ny nz (Finset.range 6) := by
  have hColumn (dny dnx : ℕ) (hDny : dny < 2) (hDnx : dnx < 6) :
      convZ (transposeKernel host) p dny (idx dny dnx) dnx = _ :=
    hRows.convZ_eq hDny hDnx
  have hSum : directScore host p nx ny nz (Finset.range 6) =
      ∑ dnx ∈ Finset.range 6, convZ (transposeKernel host) p 0 (idx 0 dnx) dnx +
        ∑ dnx ∈ Finset.range 6, convZ (transposeKernel host) p 1 (idx 1 dnx) dnx := by
    rw [directScore, Finset.sum_range_succ, Finset.sum_range_one]
    congr 1 <;> refine Finset.sum_congr rfl fun dnx hMem => (hColumn _ dnx ?_ ?_).symm
    all_goals first | exact Finset.mem_range.mp hMem | decide
  simp only [scoreFull12, Arith.const_exact, add_assoc]
  rw [hSum, Reduction.foldl_range_add, zero_add, Finset.sum_add_distrib]

theorem WindowRows.scoreCenter2x2_eq (hRows : WindowRows p nx ny nz idx) :
    scoreCenter2x2 (convZ (transposeKernel host) p 0) (convZ (transposeKernel host) p 1) (idx 0)
      (idx 1) = directScore host p nx ny nz {2, 3} := by
  rw [directScore, Finset.sum_range_succ, Finset.sum_range_one, Finset.sum_pair (by decide),
    Finset.sum_pair (by decide), scoreCenter2x2]
  rw [hRows.convZ_eq (by decide) (by decide), hRows.convZ_eq (by decide) (by decide),
    hRows.convZ_eq (by decide) (by decide), hRows.convZ_eq (by decide) (by decide)]
  ring

end Columns

namespace KernelFilterGradVecs1

/-- The thirteen entries of a group which its eight candidates use are the bytes of the
row from the first candidate on: whatever else the `uchar4` loads bring in is not used. -/
theorem window_eq (row : ℕ → UInt8) (nz g : ℕ) {j : ℕ} (hEntry : j < 13) :
    window row nz g j = (row (8 * g + j)).toNat + nz := by
  have hCarried : slide row g = (load4 row (8 * g), load4 row (8 * g + 4)) := by
    cases g <;> rfl
  have hQuarter : j / 4 = 0 ∨ j / 4 = 1 ∨ j / 4 = 2 ∨ j / 4 = 3 := by omega
  simp only [window, hCarried, load4, Fin.val_ofNat]
  rcases hQuarter with hQuarter | hQuarter | hQuarter | hQuarter
  all_goals
    rw [hQuarter]
    apply congrArg (fun k => (row k).toNat + nz)
    omega

theorem windowIdx_eq (oct : ImprovedNoise ℚ) (dny nz nx : ℕ) {i : ℕ} (hColumn : i < 6) :
    windowIdx oct dny nz nx i = (idxXy oct dny (nx + i)).toNat + nz := by
  rw [windowIdx, window_eq _ _ _ (by omega)]
  congr 3
  omega

theorem idxXy_eq (oct : ImprovedNoise ℚ) (dny : ℕ) {j : ℕ} (hEntry : j < 262) :
    idxXy oct dny j =
      oct.p (maskByte ((oct.p (maskByte j)).toNat + (Arith.truncInt oct.yo + dny))) := by
  simp only [idxXy, add_assoc]
  split
  · rfl
  · rw [maskByte_congr (by omega : ((j - 256 : ℕ) : ℤ) % 256 = (j : ℤ) % 256)]

theorem windowRows (oct : ImprovedNoise ℚ) {nx nz : ℕ} (hNx : nx < 256) (hNz : nz < 256) :
    WindowRows oct.p nx (Arith.truncInt oct.yo) nz fun dny => windowIdx oct dny nz nx := by
  intro dny _ dnx hDnx
  have hByte := (idxXy oct dny (nx + dnx)).toNat_lt
  simp only [windowIdx_eq oct dny nz nx hDnx]
  refine ⟨by omega, ?_⟩
  rw [idxXy_eq oct dny (by omega)]
  push_cast
  rfl

end KernelFilterGradVecs1

namespace KernelFilterGradVecs2

theorem windowRows (oct : ImprovedNoise ℚ) (nx nz : ℤ) :
    WindowRows oct.p nx (Arith.truncInt oct.yo) nz fun dny => tileIdx oct nx nz dny := by
  intro dny _ dnx _
  have hByte := (hoistedIdxXy oct nx dny dnx).toNat_lt
  have hMask := (maskByte nz).isLt
  have hVal := maskByte_val nz
  have hHoisted : hoistedIdxXy oct nx dny dnx = oct.p (maskByte
      ((oct.p (maskByte (nx + dnx))).toNat + (Arith.truncInt oct.yo + dny))) := by
    rw [hoistedIdxXy, add_assoc]
  simp only [tileIdx]
  refine ⟨by omega, ?_⟩
  rw [← hHoisted]
  omega

end KernelFilterGradVecs2

/-- The octave 0A lattice cell below a coordinate. -/
def latticeCell0A (large : Bool) (offset : ℚ) (x : ℤ) : ℤ :=
  ⌊(x : ℚ) * (octaveConfig large ⟨0, .a⟩).inputFactor + offset⌋

namespace KernelFilterGradVecs1

theorem inputFactor_eq (large : Bool) :
    (octaveConfig large ⟨0, .a⟩).inputFactor = 1 / cellSize large := by
  cases large <;> decide +kernel

theorem abs_truncRat_sub_lt (q : ℚ) : |(truncRat q : ℚ) - q| < 1 := by
  rw [truncRat, abs_lt]
  split
  · constructor
    · linarith [Int.lt_floor_add_one q]
    · linarith [Int.floor_le q]
  · constructor
    · linarith [Int.le_ceil q]
    · linarith [Int.ceil_lt_add_one q]

/-- The truncated centre lies in the middle of cell 2, so window `n` lies in cell `n + 2`. -/
theorem latticeCell0A_windowZ (large : Bool) (offset : ℚ) (n : ℕ) :
    latticeCell0A large offset (windowZ large offset n) = n + 2 := by
  have hCell : (512 : ℚ) ≤ cellSize large := by cases large <;> decide +kernel
  have hPos : (0 : ℚ) < cellSize large := by linarith
  have hCentre := abs_lt.mp (abs_truncRat_sub_lt ((5 / 2 - offset) * cellSize large))
  have hValue : ((windowZ large offset n : ℤ) : ℚ) * (octaveConfig large ⟨0, .a⟩).inputFactor +
      offset = (truncRat ((5 / 2 - offset) * cellSize large) - (5 / 2 - offset) * cellSize large) /
        cellSize large + n + 5 / 2 := by
    rw [inputFactor_eq, windowZ, center]
    simp only [Arith.const_exact, Arith.ofInt_exact, Arith.truncInt_exact]
    push_cast
    field_simp
    ring
  rw [latticeCell0A, hValue, Int.floor_eq_iff]
  push_cast
  constructor
  · have hLow : -1 / (2 : ℚ) ≤ (truncRat ((5 / 2 - offset) * cellSize large) -
        (5 / 2 - offset) * cellSize large) / cellSize large := by
      rw [le_div_iff₀ hPos]
      linarith
    linarith
  · have hHigh : (truncRat ((5 / 2 - offset) * cellSize large) -
        (5 / 2 - offset) * cellSize large) / cellSize large < (1 / 2 : ℚ) := by
      rw [div_lt_iff₀ hPos]
      linarith
    linarith

end KernelFilterGradVecs1

/-- The scores of both filters are the direct sums over the lattice points of the window,
whatever the tables and offsets. Only bytes of `idx_xy` and rows of `conv_z0` and
`conv_z1` which were written are used, and the record of window `(nx, nz)` lies in the
octave 0A cell `(nx + 2, nz + 2)`. -/
theorem windowScores_direct (host : ℕ → ℕ → ℕ → ℕ → ℚ) (oct : ImprovedNoise ℚ) :
    (∀ nx < 256, ∀ nz < 256,
      KernelFilterGradVecs1.score (transposeKernel host) oct nx nz =
        directScore host oct.p nx (Arith.truncInt oct.yo) nz (Finset.range 6) ∧
      KernelFilterGradVecs1.gate (transposeKernel host) oct nx nz =
        directScore host oct.p nx (Arith.truncInt oct.yo) nz {2, 3} ∧
      (∀ dny < 2, ∀ i < 6, KernelFilterGradVecs1.windowIdx oct dny nz nx i < 512) ∧
      (∀ i < 6, nx + i < 262 ∧ ∀ row : ℕ → UInt8,
        KernelFilterGradVecs1.window row nz (nx / 8) (nx % 8 + i) = (row (nx + i)).toNat + nz) ∧
      ∀ large,
        latticeCell0A large oct.xo (KernelFilterGradVecs1.windowX large oct.xo nx) = nx + 2 ∧
        latticeCell0A large oct.zo (KernelFilterGradVecs1.windowZ large oct.zo nz) = nz + 2) ∧
    ∀ nx nz : ℤ,
      KernelFilterGradVecs2.score (transposeKernel host) oct nx nz =
        directScore host oct.p nx (Arith.truncInt oct.yo) nz (Finset.range 6) ∧
      KernelFilterGradVecs2.gate (transposeKernel host) oct nx nz =
        directScore host oct.p nx (Arith.truncInt oct.yo) nz {2, 3} ∧
      ∀ dny < 2, ∀ i < 6, KernelFilterGradVecs2.tileIdx oct nx nz dny i < 512 := by
  constructor
  · intro nx hNx nz hNz
    have hRows := KernelFilterGradVecs1.windowRows oct hNx hNz
    refine ⟨hRows.scoreFull12_eq, hRows.scoreCenter2x2_eq,
      fun dny hDny i hColumn => (hRows dny hDny i hColumn).1, fun i hColumn => ⟨by omega, ?_⟩,
      fun large => ⟨?_, KernelFilterGradVecs1.latticeCell0A_windowZ large oct.zo nz⟩⟩
    · intro row
      rw [KernelFilterGradVecs1.window_eq row nz (nx / 8) (by omega)]
      congr 3
      omega
    · rw [KernelFilterGradVecs1.windowX_eq_windowZ]
      exact KernelFilterGradVecs1.latticeCell0A_windowZ large oct.xo nx
  · intro nx nz
    have hRows := KernelFilterGradVecs2.windowRows oct nx nz
    exact ⟨hRows.scoreFull12_eq, hRows.scoreCenter2x2_eq,
      fun dny hDny i hColumn => (hRows dny hDny i hColumn).1⟩

/-- The identity table, without offsets. -/
def plainNoise : ImprovedNoise ℚ := ⟨fun i => UInt8.ofNat i, 0, 0, 0⟩

/-- The last window wraps around in both directions. -/
theorem windowScores_direct_last :
    KernelFilterGradVecs1.score deviceKernel0A plainNoise 255 255 =
        directScore (hostEntry hostKernel0A) plainNoise.p 255 (Arith.truncInt plainNoise.yo) 255
          (Finset.range 6) ∧
      KernelFilterGradVecs2.score deviceKernel0B plainNoise (-1) (-1) =
        directScore (hostEntry hostKernel0B) plainNoise.p (-1) (Arith.truncInt plainNoise.yo) (-1)
          (Finset.range 6) :=
  ⟨((windowScores_direct (hostEntry hostKernel0A) plainNoise).1 255 (by decide) 255 (by decide)).1,
    ((windowScores_direct (hostEntry hostKernel0B) plainNoise).2 (-1) (-1)).1⟩

end Commission
