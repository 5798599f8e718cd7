import Commission.Gpu.Coverage
import Commission.Gpu.FilterKernels

/-! Whether a bounded build keeps to the world: where the positions which the second
gradient-vector filter appends can lie. -/
namespace Commission.Coverage

open KernelFilterGradVecs1 KernelFilterGradVecs2

/-- A noise as `init_noise` leaves it: a permutation, and offsets which are multiples of
`2^-16` in `[0, 256)`. -/
def DrawnNoise (noise : ImprovedNoise ℚ) : Prop :=
  Function.Injective noise.p ∧ (∃ n, noise.xo = offset n) ∧ (∃ n, noise.yo = offset n) ∧
    ∃ n, noise.zo = offset n

/-- Whatever the tables of a seed with these offsets of octave 0A, every record which the
second filter appends for a record of the first one lies in the world. -/
def StaysInWorld (large : Bool) (xo zo : Fin (2 ^ 24)) : Prop :=
  ∀ (d : Device ℚ) (seedIndex : ℕ) (window tile : ℕ × ℕ) (pos out : SeedPos),
    (∀ member, DrawnNoise (d.noise seedIndex member)) →
    (d.noise seedIndex ⟨0, .a⟩).xo = offset xo → (d.noise seedIndex ⟨0, .a⟩).zo = offset zo →
    window.1 < 256 → window.2 < 256 →
    tile.1 < gridWidth large false → tile.2 < gridWidth large false →
    testWindow large d seedIndex window = some pos → testTile large false d pos tile = some out →
    InWorld out.x ∧ InWorld out.z

/-- The permutation which exchanges the two halves of a byte. -/
def swapNibbles (i : Fin 256) : UInt8 := UInt8.ofNat (i / 16 + i % 16 * 16)

/-- Noise with this table, half-way up a lattice cell, where the score of `filter_seeds` is lowest. -/
def swapNoise (xo zo : ℚ) : ImprovedNoise ℚ := ⟨swapNibbles, xo, 1 / 2, zo⟩

theorem swapNibbles_injective : Function.Injective swapNibbles := by
  intro i j hSame
  have hNat := congrArg UInt8.toNat hSame
  have hI := i.isLt
  have hJ := j.isLt
  have hByte (k : Fin 256) : (swapNibbles k).toNat = k / 16 + k % 16 * 16 := by
    have hK := k.isLt
    exact UInt8.toNat_ofNat_of_lt' (by change _ < 256; omega)
  rw [hByte, hByte] at hNat
  apply Fin.ext
  omega

/-- Its windows `(0, 215)` and `(255, 216)` pass the first filter. -/
theorem accepts_first (xo zo : ℚ) :
    KernelFilterGradVecs1.accepts deviceKernel0A (swapNoise xo zo) 0 215 = true ∧
      KernelFilterGradVecs1.accepts deviceKernel0A (swapNoise xo zo) 255 216 = true := by
  have hPlain : KernelFilterGradVecs1.accepts deviceKernel0A (swapNoise 0 0) 0 215 = true ∧
      KernelFilterGradVecs1.accepts deviceKernel0A (swapNoise 0 0) 255 216 = true := by
    decide +kernel
  exact hPlain

/-- The scores of the second filter depend on its lattice cell modulo 256 only. -/
theorem tileIdx_congr (oct : ImprovedNoise ℚ) {nx nz mx mz : ℤ} (hX : nx % 256 = mx % 256)
    (hZ : nz % 256 = mz % 256) : tileIdx oct nx nz = tileIdx oct mx mz := by
  funext dny i
  have hColumn : maskByte (nx + i) = maskByte (mx + i) := maskByte_congr (by omega)
  simp only [tileIdx, hoistedIdxXy, hColumn, maskByte_congr hZ]

/-- Cell `(250, 149)` passes the second filter. -/
theorem accepts_second (large : Bool) (xo zo : ℚ) {x z : ℤ}
    (hX : latticeCell large xo x % 256 = 250) (hZ : latticeCell large zo z % 256 = 149) :
    KernelFilterGradVecs2.accepts large deviceKernel0B (swapNoise xo zo) x z = true := by
  have hPlain : (Arith.le (Arith.const KernelFilterGradVecs2.prefilterThreshold)
        (KernelFilterGradVecs2.gate deviceKernel0B (swapNoise 0 0) 250 149) &&
      Arith.lt (Arith.const KernelFilterGradVecs2.finalThreshold)
        (KernelFilterGradVecs2.score deviceKernel0B (swapNoise 0 0) 250 149)) = true := by
    decide +kernel
  have hIdx : tileIdx (swapNoise xo zo) (latticeCell large xo x) (latticeCell large zo z) =
      tileIdx (swapNoise xo zo) 250 149 := tileIdx_congr _ hX hZ
  simp only [KernelFilterGradVecs2.accepts, KernelFilterGradVecs2.gate, KernelFilterGradVecs2.score]
  rw [show (swapNoise xo zo).xo = xo from rfl, show (swapNoise xo zo).zo = zo from rfl, hIdx]
  exact hPlain

/-- For every coordinate some whole offset of octave 0B puts it into a given cell. -/
theorem exists_offset (large : Bool) (x : ℤ) (cell : Fin 256) :
    ∃ n, latticeCell large (offset n) x % 256 = cell.val := by
  let base := ⌊(x : ℚ) * (octaveConfig large ⟨0, .b⟩).inputFactor⌋
  let whole := ((cell.val + 2 - base) % 256).toNat
  have hWhole : (whole : ℤ) = (cell.val + 2 - base) % 256 := by
    have hNonneg := Int.emod_nonneg (cell.val + 2 - base) (by decide : (256 : ℤ) ≠ 0)
    exact Int.toNat_of_nonneg hNonneg
  have hLt : whole * 2 ^ 16 < 2 ^ 24 := by omega
  refine ⟨⟨whole * 2 ^ 16, hLt⟩, ?_⟩
  have hOffset : offset ⟨whole * 2 ^ 16, hLt⟩ = whole := by
    simp only [offset]
    push_cast
    ring
  have hCell : latticeCell large (offset ⟨whole * 2 ^ 16, hLt⟩) x = base + (whole - 2) := by
    rw [latticeCell, hOffset]
    simp only [Arith.ofInt_exact, Arith.const_exact, Arith.floorInt_exact]
    have hSum : (x : ℚ) * (octaveConfig large ⟨0, .b⟩).inputFactor + whole - 2 =
        (x : ℚ) * (octaveConfig large ⟨0, .b⟩).inputFactor + ((whole - 2 : ℤ) : ℚ) := by
      push_cast
      ring
    rw [hSum, Int.floor_add_intCast]
  have hBound := cell.isLt
  rw [hCell]
  omega

/-- A device on which every seed has these two first octaves. -/
def borderDevice (oct0A oct0B : ImprovedNoise ℚ) : Device ℚ where
  lens _ := 0
  seeds _ := ⟨0, 0⟩
  results _ member _ := ⟨if member.half = .a then oct0A else oct0B, 0⟩
  initFlags _ := 0
  positions _ _ := ⟨⟨0, 0, 0⟩, 0⟩
  batch := 0

theorem drawnNoise_swapNoise (n m : Fin (2 ^ 24)) : DrawnNoise (swapNoise (offset n) (offset m)) := by
  refine ⟨swapNibbles_injective, ⟨n, rfl⟩, ⟨2 ^ 15, ?_⟩, ⟨m, rfl⟩⟩
  change (1 / 2 : ℚ) = ((2 ^ 15 : ℕ) : ℚ) / 2 ^ 16
  norm_num

theorem drawnNoise_borderDevice (xo zo n m : Fin (2 ^ 24)) (seedIndex : ℕ) (member : Member) :
    DrawnNoise ((borderDevice (swapNoise (offset xo) (offset zo))
      (swapNoise (offset n) (offset m))).noise seedIndex member) := by
  obtain ⟨octave, half⟩ := member
  cases half with
  | a => exact drawnNoise_swapNoise xo zo
  | b => exact drawnNoise_swapNoise n m

/-- If an accepted window and a tile lie outside of the world, some tables lead there. -/
theorem not_staysInWorld_of_window {large : Bool} {xo zo : Fin (2 ^ 24)} (window tile : ℕ × ℕ)
    (hNx : window.1 < 256) (hNz : window.2 < 256) (hTx : tile.1 < gridWidth large false)
    (hTz : tile.2 < gridWidth large false)
    (hAccepts : KernelFilterGradVecs1.accepts deviceKernel0A (swapNoise (offset xo) (offset zo))
      window.1 window.2 = true)
    (hOutside : ¬ InWorld (tilePos large false (windowX large (offset xo) window.1) tile.1)) :
    ¬ StaysInWorld large xo zo := by
  intro hStays
  let x := tilePos large false (windowX large (offset xo) window.1) tile.1
  let z := tilePos large false (windowZ large (offset zo) window.2) tile.2
  obtain ⟨n, hX⟩ := exists_offset large x 250
  obtain ⟨m, hZ⟩ := exists_offset large z 149
  let d := borderDevice (swapNoise (offset xo) (offset zo)) (swapNoise (offset n) (offset m))
  have hFirst : testWindow large d 0 window = some ⟨0, windowX large (offset xo) window.1,
      windowZ large (offset zo) window.2⟩ := if_pos hAccepts
  have hSecond : testTile large false d ⟨0, windowX large (offset xo) window.1,
      windowZ large (offset zo) window.2⟩ tile = some ⟨0, x, z⟩ :=
    if_pos (accepts_second large (offset n) (offset m) hX hZ)
  exact hOutside (hStays d 0 window tile _ _ (drawnNoise_borderDevice xo zo n m 0) rfl rfl hNx hNz
    hTx hTz hFirst hSecond).1

/-- The strip of tiles is wider than the world: for every offset the last window of the
last tile lies too far in the east, or the first window of the first tile too far in
the west. -/
theorem outside_of_strip (large : Bool) (n : Fin (2 ^ 24)) :
    ¬ InWorld (tilePos large false (windowX large (offset n) 255) (gridWidth large false - 1)) ∨
      ¬ InWorld (tilePos large false (windowX large (offset n) 0) 0) := by
  rw [windowX_eq_windowZ, windowX_eq_windowZ, tilePos_windowZ, tilePos_windowZ]
  simp only [InWorld, windowCentre]
  cases large with
  | false | true =>
      simp only [gridHalf, gridWidth, cellSize, largeBiomesPosMul]
      norm_num
      omega

/-- A bounded build keeps to the world for no offsets of octave 0A. -/
theorem not_staysInWorld (large : Bool) (xo zo : Fin (2 ^ 24)) : ¬ StaysInWorld large xo zo := by
  have hWidth : 0 < gridWidth large false := by cases large <;> decide
  rcases outside_of_strip large xo with hEast | hWest
  · exact not_staysInWorld_of_window (255, 216) (gridWidth large false - 1, 0) (by decide) (by decide)
      (Nat.sub_lt hWidth Nat.zero_lt_one) hWidth (accepts_first (offset xo) (offset zo)).2 hEast
  · exact not_staysInWorld_of_window (0, 215) (0, 0) (by decide) (by decide) hWidth hWidth
      (accepts_first (offset xo) (offset zo)).1 hWest

/-- Offsets zero in octave 0A, and the offsets 238 and 185 in octave 0B. -/
def eastDevice : Device ℚ :=
  borderDevice (swapNoise (offset 0) (offset 0))
    (swapNoise (offset 15597568) (offset 12124160))

/-- The last window of a row passes with its easternmost tile, at block coordinate
`30411776`. -/
theorem eastDevice_outside :
    (∀ member, DrawnNoise (eastDevice.noise 0 member)) ∧
      testWindow false eastDevice 0 (255, 216) = some ⟨0, 131840, 111872⟩ ∧
      testTile false false eastDevice ⟨0, 131840, 111872⟩ (114, 57) = some ⟨0, 7602944, 111872⟩ ∧
      ¬ InWorld 7602944 := by
  refine ⟨fun member => ?_, by decide +kernel, by decide +kernel, by simp [InWorld]⟩
  exact drawnNoise_borderDevice 0 0 15597568 12124160 0 member

end Commission.Coverage
