import Commission.Cpu.CenterSearch
import Commission.Cpu.FillStack
import Commission.Cpu.SearchArea

/-! The `int` arithmetic of the CPU verification. The lists hold the exact value of every
operation, so nothing overflows as long as all of them are values of `int`. -/
namespace Commission

open GridSearch

def InInt (v : ℤ) : Prop := intMin ≤ v ∧ v ≤ intMax

instance : DecidablePred InInt := fun _ => inferInstanceAs (Decidable (_ ∧ _))

/-- `make_range`. -/
def makeRangeOps (x z range scale : ℤ) : List ℤ :=
  [range / 2, x - range / 2, (x - range / 2).tdiv scale, z - range / 2, (z - range / 2).tdiv scale,
   range / scale, 256 / scale]

/-- The product `r.sx * r.sz * r.scale * r.scale` of `cubiomes_test_monte_carlo`. -/
def areaProduct (r : Range) : ℤ := r.sx * r.sz * r.scale * r.scale

/-- `cubiomes_test_monte_carlo`. -/
def monteCarloOps (r : Range) : List ℤ :=
  [r.sx * r.sz, r.sx * r.sz * r.scale, areaProduct r]

/-- The `fraction` which is passed on as coverage, from the product in 32 bits. -/
def coverage (r : Range) (minArea : ℤ) : ℚ := minArea / (BitVec.ofInt 32 (areaProduct r)).toInt

/-- `cubiomes_test_biome_centers` for a count `siz`. -/
def biomeCentersOps (minArea scale : ℤ) (siz : ℕ) : List ℤ :=
  [scale * scale, minArea / (scale * scale), siz * (scale * scale)]

/-- The step of the search when none is asked for. -/
def searchStep (minsiz : ℤ) : ℕ := 1 + Nat.sqrt (if minsiz ≤ 0 then 1 else minsiz).toNat / 2

/-- The loops of `getBiomeCentersOpt` at a cell: the index, the position for the climate
samples, and the next value of the loop variables. -/
def cellOps (r : Range) (step : ℕ) (c : Cell) : List ℤ :=
  [c.2 * r.sx, r.index c.1 c.2, r.x + c.1, (r.x + c.1) * r.scale, r.z + c.2,
   (r.z + c.2) * r.scale, c.1 + step, c.2 + step]

/-- `getBiomeCentersOpt` outside of the fills, up to the count of its only result. -/
def searchOps (r : Range) (minsiz : ℤ) : List ℤ :=
  [(r.sx : ℤ) * r.sz, searchStep minsiz, 1] ++
    (positions r (searchStep minsiz)).flatMap (cellOps r (searchStep minsiz))

/-- One pass of the loop of `floodFillGen`: `--qn`, the index and the position of the cell,
`n++` and `++d`, the neighbours with the indices of those in the grid, and `qn++`. -/
def fillOps (info : LocateInfo) (s : Fill) : List ℤ :=
  match s.queue with
  | [] => [-1]
  | e :: rest =>
      [(rest.length : ℤ), e.j * info.r.sx, info.r.index e.i e.j, info.r.x + e.i, info.r.z + e.j,
       s.n + 1, e.d + 1, e.j - 1, e.j + 1, e.i - 1, e.i + 1] ++
      ((Fill.next e.i e.j 0).filter fun next => info.Inside next.cell).flatMap
        (fun next => [next.j * (info.r.sx : ℤ), info.r.index next.i next.j]) ++
      (Fill.moments info s).map (fun t => (t.queue.length : ℤ))

/-- No operation of one island test overflows, whatever biome map the generator has and
whatever number of cells the fill reports. -/
structure IslandTestExact (r : Range) (minSize tol : ℤ) : Prop where
  biomeCenters : ∀ siz ≤ r.sx * r.sz, ∀ v ∈ biomeCentersOps minSize r.scale siz, InInt v
  search : ∀ v ∈ searchOps r (minSize / (r.scale * r.scale)), InInt v
  fills : ∀ g : Generator, g.since118 = true →
    ∀ call ∈ searchCalls 1 g r mushroomFields (minSize / (r.scale * r.scale)) tol 0,
    ∀ passes, ∀ v ∈ fillOps (searchInfo g r mushroomFields tol)
      ((Fill.step (searchInfo g r mushroomFields tol))^[passes]
        (Fill.start call.ids call.cell.1 call.cell.2)), InInt v

/-- Scale and tolerance of the island tests of `process`. -/
def islandTests : List (ℤ × ℤ) := [(16, 4), (4, 2)]

/-- No operation of the verification of a position overflows, and the coverage is the
share of the square which has to match. -/
structure ArithExact (large : Bool) (minSize : ℤ) (x z : BitVec 32) : Prop where
  ranges : ∀ test ∈ islandTests,
    ∀ v ∈ makeRangeOps x.toInt z.toInt (searchRange large) test.1, InInt v
  monteCarlo : ∀ v ∈ monteCarloOps (makeRange x z (searchRange large) 4), InInt v
  coverage_eq : coverage (makeRange x z (searchRange large) 4) (minSize * 9 / 10) =
    (minSize * 9 / 10 : ℤ) / (searchRange large : ℚ) ^ 2
  coverage_nonneg : 0 ≤ coverage (makeRange x z (searchRange large) 4) (minSize * 9 / 10)
  islands : ∀ test ∈ islandTests,
    IslandTestExact (makeRange x z (searchRange large) test.1) minSize test.2

/-- In large mode the area of the square is no `int`. -/
theorem not_inInt_areaProduct (x z : BitVec 32) :
    ¬InInt (areaProduct (makeRange x z (searchRange true) 4)) := by
  have hArea : areaProduct (makeRange x z (searchRange true) 4) = 2621440000 := by
    norm_num [areaProduct, makeRange, searchRange]
  rw [hArea]
  decide

/-- What the bounds of the operations need of a range: few cells, and a position away
from the limits of `int`. -/
structure Range.Small (r : Range) : Prop where
  sx : r.sx ≤ 3200
  sz : r.sz ≤ 3200
  scale : 1 ≤ r.scale ∧ r.scale ≤ 16
  width : r.sx * r.scale = 12800
  depth : r.sz * r.scale = 12800
  x : |r.x * r.scale| ≤ 2 ^ 30 + 6415
  z : |r.z * r.scale| ≤ 2 ^ 30 + 6415

theorem makeRange_small {x z : BitVec 32} (hx : |x.toInt| ≤ 2 ^ 30) (hz : |z.toInt| ≤ 2 ^ 30)
    {scale : ℤ} (hScale : scale ∈ testScales) :
    (makeRange x z (searchRange false) scale).Small := by
  have hCovers := makeRange_coversSquare false hx hz hScale
  have hRange : searchRange false = 12800 := rfl
  have hSides : (searchRange false / scale).toNat ≤ 3200 ∧ 1 ≤ scale ∧ scale ≤ 16 := by
    simp only [testScales, List.mem_cons, List.not_mem_nil, or_false] at hScale
    rcases hScale with rfl | rfl <;> decide
  have hNear {corner centre : ℤ} (hCorner : |corner - (centre - searchRange false / 2)| ≤ scale - 1)
      (hCentre : |centre| ≤ 2 ^ 30) : |corner| ≤ 2 ^ 30 + 6415 := by
    rw [hRange] at hCorner
    rw [abs_le] at hCorner hCentre ⊢
    omega
  exact ⟨hSides.1, hSides.1, hSides.2, hCovers.width, hCovers.depth, hNear hCovers.cornerX hx,
    hNear hCovers.cornerZ hz⟩

/-- `make_range` in a build for normal biomes. -/
theorem inInt_makeRangeOps {x z : ℤ} (hx : |x| ≤ 2 ^ 30) (hz : |z| ≤ 2 ^ 30) {scale : ℤ}
    (hScale : scale ∈ testScales) : ∀ v ∈ makeRangeOps x z (searchRange false) scale, InInt v := by
  have hRange : searchRange false = 12800 := rfl
  rw [abs_le] at hx hz
  have hX := Int.natAbs_tdiv_le_natAbs (x - 12800 / 2) scale
  have hZ := Int.natAbs_tdiv_le_natAbs (z - 12800 / 2) scale
  intro v hv
  simp only [makeRangeOps, hRange, List.mem_cons, List.not_mem_nil, or_false] at hv
  simp only [InInt, intMin, intMax]
  simp only [testScales, List.mem_cons, List.not_mem_nil, or_false] at hScale
  rcases hv with rfl | rfl | rfl | rfl | rfl | rfl | rfl
  all_goals rcases hScale with rfl | rfl <;> omega

/-- A value which is far from the limits. -/
theorem inInt_of_abs_le {v : ℤ} (hv : |v| ≤ 2 ^ 31 - 1) : InInt v := by
  rw [abs_le] at hv
  rw [InInt, intMin, intMax]
  omega

theorem abs_le_abs_mul {v scale : ℤ} (hScale : 1 ≤ scale) : |v| ≤ |v * scale| := by
  rw [abs_mul, abs_of_pos (by omega : 0 < scale)]
  exact le_mul_of_one_le_right (abs_nonneg v) hScale

/-- A coordinate of a cell, in cells and in blocks. -/
theorem inInt_coordinate {first scale i : ℤ} {width : ℕ} (hScale : 1 ≤ scale)
    (hFirst : |first * scale| ≤ 2 ^ 30 + 6415) (hWidth : width * scale = 12800) (hLower : 0 ≤ i)
    (hUpper : i < width) : InInt (first + i) ∧ InInt ((first + i) * scale) := by
  have hBlocks : |(first + i) * scale| ≤ 2 ^ 30 + 6415 + 12800 := by
    have hInside : 0 ≤ i * scale ∧ i * scale ≤ width * scale := by
      constructor
      · exact mul_nonneg hLower (by omega)
      · exact mul_le_mul_of_nonneg_right hUpper.le (by omega)
    rw [add_mul]
    rw [abs_le] at hFirst ⊢
    omega
  have hCells := (abs_le_abs_mul hScale).trans hBlocks
  constructor
  · apply inInt_of_abs_le
    omega
  · apply inInt_of_abs_le
    omega

section Small

variable {r : Range} (hSmall : r.Small)
include hSmall

theorem Range.Small.cells_le : r.sx * r.sz ≤ 10240000 :=
  Nat.mul_le_mul hSmall.sx hSmall.sz

/-- The index of a cell and the product in it. -/
theorem Range.Small.inInt_index {c : Cell} (hC : InGrid r.sx r.sz c) :
    InInt (c.2 * r.sx) ∧ InInt (r.index c.1 c.2) := by
  have hCells := hSmall.cells_le
  have hBounds := Range.index_bounds hC
  have hRow : 0 ≤ c.2 * (r.sx : ℤ) := mul_nonneg hC.2.2.1 (Int.natCast_nonneg _)
  have hColumn := hC.1
  have hIndex : r.index c.1 c.2 = c.2 * (r.sx : ℤ) + c.1 := rfl
  simp only [InInt, intMin, intMax]
  omega

theorem Range.Small.inInt_cell {c : Cell} (hC : InGrid r.sx r.sz c) :
    InInt (r.x + c.1) ∧ InInt ((r.x + c.1) * r.scale) ∧ InInt (r.z + c.2) ∧
      InInt ((r.z + c.2) * r.scale) := by
  obtain ⟨hI, hI', hJ, hJ'⟩ := hC
  obtain ⟨hX, hX'⟩ := inInt_coordinate hSmall.scale.1 hSmall.x hSmall.width hI hI'
  obtain ⟨hZ, hZ'⟩ := inInt_coordinate hSmall.scale.1 hSmall.z hSmall.depth hJ hJ'
  exact ⟨hX, hX', hZ, hZ'⟩

theorem Range.Small.cellOps {step : ℕ} (hStep : step ≤ 2 ^ 16) {c : Cell}
    (hC : InGrid r.sx r.sz c) : ∀ v ∈ cellOps r step c, InInt v := by
  obtain ⟨hRow, hIndex⟩ := hSmall.inInt_index hC
  obtain ⟨hX, hX', hZ, hZ'⟩ := hSmall.inInt_cell hC
  have hI : InInt (c.1 + step) := by
    have hSx := hSmall.sx
    obtain ⟨hI, hI', -, -⟩ := hC
    simp only [InInt, intMin, intMax]
    omega
  have hJ : InInt (c.2 + step) := by
    have hSz := hSmall.sz
    obtain ⟨-, -, hJ, hJ'⟩ := hC
    simp only [InInt, intMin, intMax]
    omega
  simp only [Commission.cellOps, List.forall_mem_cons, List.not_mem_nil, false_implies, implies_true, and_true]
  exact ⟨hRow, hIndex, hX, hX', hZ, hZ', hI, hJ⟩

theorem Range.Small.searchOps {minsiz : ℤ} (hMinsiz : minsiz < 2 ^ 31) :
    ∀ v ∈ searchOps r minsiz, InInt v := by
  have hStep : searchStep minsiz ≤ 2 ^ 16 := by
    have hRoot : Nat.sqrt (if minsiz ≤ 0 then 1 else minsiz).toNat ≤ 2 ^ 16 := by
      apply (Nat.sqrt_le_sqrt (n := 2 ^ 16 * 2 ^ 16) ?_).trans_eq (Nat.sqrt_eq _)
      split <;> omega
    rw [searchStep]
    omega
  have hCells : (r.sx : ℤ) * r.sz ≤ 10240000 := by exact_mod_cast hSmall.cells_le
  have hCount : 0 ≤ (r.sx : ℤ) * r.sz := by positivity
  intro v hv
  rcases List.mem_append.mp hv with hHead | hLoop
  · simp only [List.mem_cons, List.not_mem_nil, or_false] at hHead
    simp only [InInt, intMin, intMax]
    rcases hHead with rfl | rfl | rfl <;> omega
  · obtain ⟨c, hC, hv⟩ := List.mem_flatMap.mp hLoop
    exact hSmall.cellOps hStep (mem_positions hC) v hv

end Small

namespace Fill

variable {info : LocateInfo} {ids : ℤ → ℤ} {s : Fill}

/-- No entry stands for more cells without a match than the tolerance allows. -/
def WithinTolerance (info : LocateInfo) (s : Fill) : Prop := ∀ e ∈ s.queue, e.d < info.tol

theorem WithinTolerance.step (hTol : 1 ≤ info.tol) (hWithin : WithinTolerance info s) :
    WithinTolerance info (s.step info) := by
  cases hQueue : s.queue with
  | nil => rwa [step_of_nil hQueue]
  | cons e rest =>
      have hRest : ∀ e' ∈ rest, e'.d < info.tol := fun e' hE' =>
        hWithin e' (hQueue ▸ List.mem_cons_of_mem e hE')
      have hPushed {ids : ℤ → ℤ} {d : ℕ} (hd : d < info.tol) :
          ∀ e' ∈ pushed info ids e.cell d ++ rest, e'.d < info.tol := by
        intro e' hE'
        rcases List.mem_append.mp hE' with hNew | hOld
        · obtain ⟨dir, -, rfl⟩ := List.mem_map.mp hNew
          exact hd
        · exact hRest e' hOld
      rcases step_cases info hQueue with ⟨-, hStep⟩ | ⟨-, -, hStep⟩ | ⟨-, -, -, hStep⟩ |
        ⟨-, -, hNext, hStep⟩ <;> rw [hStep]
      · exact hRest
      · exact hPushed hTol
      · exact hRest
      · exact hPushed hNext

theorem withinTolerance_run (hTol : 1 ≤ info.tol) (i j : ℤ) (passes : ℕ) :
    WithinTolerance info ((Fill.step info)^[passes] (start ids i j)) := by
  induction passes with
  | zero =>
      intro e hE
      cases List.mem_singleton.mp hE
      exact hTol
  | succ passes ih =>
      rw [Function.iterate_succ_apply']
      exact ih.step hTol

/-- One pass of a fill over a small range. -/
theorem inInt_fillOps (hSmall : info.r.Small) (hTol : info.tol ≤ 4) (hInside : QueueInside info s)
    (hWithin : WithinTolerance info s) (hN : s.n ≤ info.r.sx * info.r.sz)
    (hMoments : ∀ t ∈ moments info s, t.queue.length ≤ info.r.sx * info.r.sz) :
    ∀ v ∈ fillOps info s, InInt v := by
  have hCells := hSmall.cells_le
  cases hQueue : s.queue with
  | nil =>
      intro v hv
      rw [fillOps, hQueue] at hv
      cases List.mem_singleton.mp hv
      decide
  | cons e rest =>
      have hE : InGrid info.r.sx info.r.sz e.cell := hInside e (by simp [hQueue])
      have hD := hWithin e (by simp [hQueue])
      obtain ⟨hRow, hIndex⟩ := hSmall.inInt_index hE
      obtain ⟨hX, -, hZ, -⟩ := hSmall.inInt_cell hE
      have hLength : s.queue.length ≤ info.r.sx * info.r.sz := by
        apply hMoments
        simp [moments, hQueue]
      have hSx := hSmall.sx
      have hSz := hSmall.sz
      obtain ⟨hI, hI', hJ, hJ'⟩ := hE
      simp only [Entry.cell] at hI hI' hJ hJ'
      rw [hQueue, List.length_cons] at hLength
      intro v hv
      rw [fillOps, hQueue] at hv
      rcases List.mem_append.mp hv with hv | hv
      · rcases List.mem_append.mp hv with hv | hv
        · simp only [List.mem_cons, List.not_mem_nil, or_false] at hv
          rcases hv with rfl | rfl | rfl | rfl | rfl | hv
          · simp only [InInt, intMin, intMax]
            omega
          · exact hRow
          · exact hIndex
          · exact hX
          · exact hZ
          · simp only [InInt, intMin, intMax]
            omega
        · obtain ⟨next, hNext, hv⟩ := List.mem_flatMap.mp hv
          have hGrid : InGrid info.r.sx info.r.sz next.cell :=
            of_decide_eq_true (List.mem_filter.mp hNext).2
          obtain ⟨hRow, hIndex⟩ := hSmall.inInt_index hGrid
          simp only [List.mem_cons, List.not_mem_nil, or_false] at hv
          rcases hv with rfl | rfl
          · exact hRow
          · exact hIndex
      · obtain ⟨t, hT, rfl⟩ := List.mem_map.mp hv
        have hLength := hMoments t hT
        simp only [InInt, intMin, intMax]
        omega

theorem inInt_fillOps_run (hSmall : info.r.Small) (hTol : 1 ≤ info.tol ∧ info.tol ≤ 4) {i j : ℤ}
    (hStart : info.Inside (i, j)) (passes : ℕ) :
    ∀ v ∈ fillOps info ((Fill.step info)^[passes] (start ids i j)), InInt v := by
  have hInside : QueueInside info ((Fill.step info)^[passes] (start ids i j)) :=
    queueInside_run hStart passes
  have hUnmarked : (unmarked info ids).card ≤ info.r.sx * info.r.sz :=
    (Finset.card_filter_le _ _).trans card_cells.le
  have hCount : ((Fill.step info)^[passes] (start ids i j)).n ≤ (unmarked info ids).card :=
    (Nat.le_add_right _ _).trans (n_run_le hStart passes)
  have hAfter : ((Fill.step info)^[passes + 1] (start ids i j)).queue.length ≤
      info.r.sx * info.r.sz := length_queue_run_le hStart (passes + 1)
  rw [Function.iterate_succ_apply'] at hAfter
  have hBounds := pass_in_bounds hInside (length_queue_run_le hStart passes) hAfter
  exact inInt_fillOps hSmall hTol.2 hInside (withinTolerance_run hTol.1 i j passes)
    (hCount.trans hUnmarked) hBounds.1

end Fill

theorem Range.Small.islandTestExact {r : Range} (hSmall : r.Small) {minSize tol : ℤ}
    (hMinSize : 0 ≤ minSize ∧ minSize < 2 ^ 31) (hTol : 1 ≤ tol ∧ tol ≤ 4) :
    IslandTestExact r minSize tol := by
  obtain ⟨hScale, hScale'⟩ := hSmall.scale
  have hSquare : 1 ≤ r.scale * r.scale := by nlinarith
  have hMinsiz : 0 ≤ minSize / (r.scale * r.scale) ∧ minSize / (r.scale * r.scale) ≤ minSize :=
    ⟨Int.ediv_nonneg hMinSize.1 (by omega), Int.ediv_le_self _ hMinSize.1⟩
  refine ⟨?_, hSmall.searchOps (by omega), ?_⟩
  · intro siz hSiz v hv
    -- the cells of the whole grid make up the square
    have hArea : (siz : ℤ) * (r.scale * r.scale) ≤ 12800 * 12800 := by
      calc (siz : ℤ) * (r.scale * r.scale)
          ≤ (r.sx * r.sz : ℕ) * (r.scale * r.scale) :=
            mul_le_mul_of_nonneg_right (by exact_mod_cast hSiz) (by omega)
        _ = (r.sx * r.scale) * (r.sz * r.scale) := by
            push_cast
            ring
        _ = 12800 * 12800 := by rw [hSmall.width, hSmall.depth]
    have hNonneg : 0 ≤ (siz : ℤ) * (r.scale * r.scale) := mul_nonneg (by omega) (by omega)
    have hUnit : r.scale * r.scale ≤ 16 * 16 := by nlinarith
    simp only [biomeCentersOps, List.mem_cons, List.not_mem_nil, or_false] at hv
    simp only [InInt, intMin, intMax]
    rcases hv with rfl | rfl | rfl <;> omega
  · intro g _ call hCall passes
    obtain ⟨ids, hChain⟩ := searchCalls_chain 1 g r mushroomFields (minSize / (r.scale * r.scale)) tol 0
    have hInfo : 1 ≤ (searchInfo g r mushroomFields tol).tol ∧
        (searchInfo g r mushroomFields tol).tol ≤ 4 := by
      simp only [searchInfo]
      split <;> omega
    have hRange : (searchInfo g r mushroomFields tol).r.Small := hSmall
    exact Fill.inInt_fillOps_run hRange hInfo (hChain.inside call hCall) passes

/-- The verification computes without overflow exactly in the builds for normal biomes. -/
theorem arithExact_iff (large : Bool) (minSize : ℤ) (x z : BitVec 32)
    (hMinSize : 0 ≤ minSize ∧ minSize < 2 ^ 31) (hx : |x.toInt| ≤ 2 ^ 30)
    (hz : |z.toInt| ≤ 2 ^ 30) : ArithExact large minSize x z ↔ large = false := by
  constructor
  · intro hExact
    cases large with
    | false => rfl
    | true =>
        have hProduct := hExact.monteCarlo (areaProduct (makeRange x z (searchRange true) 4))
          (by simp [monteCarloOps])
        exact absurd hProduct (not_inInt_areaProduct x z)
  · rintro rfl
    have hArea : areaProduct (makeRange x z (searchRange false) 4) = 163840000 := by
      norm_num [areaProduct, makeRange, searchRange]
    have hMachine : (BitVec.ofInt 32 163840000).toInt = 163840000 := by decide
    have hSide : (searchRange false : ℚ) ^ 2 = 163840000 := by norm_num [searchRange]
    have hCoverage : coverage (makeRange x z (searchRange false) 4) (minSize * 9 / 10) =
        (minSize * 9 / 10 : ℤ) / (searchRange false : ℚ) ^ 2 := by
      rw [coverage, hArea, hMachine, hSide]
      norm_num
    have hScales : ∀ test ∈ islandTests, test.1 ∈ testScales ∧ 1 ≤ test.2 ∧ test.2 ≤ 4 := by
      decide
    refine ⟨?_, ?_, hCoverage, ?_, ?_⟩
    · intro test hTest
      exact inInt_makeRangeOps hx hz (hScales test hTest).1
    · intro v hv
      simp only [monteCarloOps, hArea, List.mem_cons, List.not_mem_nil, or_false] at hv
      rcases hv with rfl | rfl | rfl <;> norm_num [makeRange, searchRange, InInt, intMin, intMax]
    · rw [hCoverage]
      have hArea : 0 ≤ minSize * 9 / 10 := by omega
      have hCast : (0 : ℚ) ≤ (minSize * 9 / 10 : ℤ) := by exact_mod_cast hArea
      exact div_nonneg hCast (sq_nonneg _)
    · intro test hTest
      obtain ⟨hScale, hTol⟩ := hScales test hTest
      exact (makeRange_small hx hz hScale).islandTestExact hMinSize hTol

theorem arithExact_iff_origin :
    ArithExact false 100000 0#32 0#32 ∧ ¬ArithExact true 100000 0#32 0#32 := by
  have hMinSize : (0 : ℤ) ≤ 100000 ∧ (100000 : ℤ) < 2 ^ 31 := by decide
  have hOrigin : |(0#32).toInt| ≤ 2 ^ 30 := by decide
  constructor
  · exact (arithExact_iff false 100000 0#32 0#32 hMinSize hOrigin hOrigin).mpr rfl
  · intro hExact
    have hLarge := (arithExact_iff true 100000 0#32 0#32 hMinSize hOrigin hOrigin).mp hExact
    cases hLarge

/-- In large mode the coverage at the origin is negative. -/
theorem not_arithExact_large_origin :
    ¬ArithExact true 100000 0#32 0#32 ∧
      coverage (makeRange 0#32 0#32 (searchRange true) 4) (100000 * 9 / 10) < 0 := by
  constructor
  · intro hExact
    have hProduct := hExact.monteCarlo (areaProduct (makeRange 0#32 0#32 (searchRange true) 4))
      (by simp [monteCarloOps])
    exact absurd hProduct (not_inInt_areaProduct 0#32 0#32)
  · have hArea : areaProduct (makeRange 0#32 0#32 (searchRange true) 4) = 2621440000 := by
      norm_num [areaProduct, makeRange, searchRange]
    have hMachine : (BitVec.ofInt 32 2621440000).toInt = -1673527296 := by decide
    rw [coverage, hArea, hMachine]
    norm_num

end Commission
