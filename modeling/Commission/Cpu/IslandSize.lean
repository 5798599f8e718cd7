import Commission.Cpu.BiomeCenters
import Commission.Cpu.Tolerance

/-! The size of a reported island against the size which was asked for. -/
namespace Commission

open GridSearch BoundedRuns

section Search

theorem mem_steps {n step : ℕ} {a : ℤ} (hA : a ∈ steps n step) : 0 ≤ a ∧ a < n := by
  obtain ⟨m, hM, rfl⟩ := List.mem_map.mp hA
  rw [List.mem_range] at hM
  have hStep : 0 < step := by
    by_contra hZero
    obtain rfl : step = 0 := by omega
    simp at hM
  have hLess : (m + 1) * step ≤ n + step - 1 := (Nat.le_div_iff_mul_le hStep).mp hM
  rw [Nat.succ_mul] at hLess
  omega

theorem mem_positions {r : Range} {step : ℕ} {c : Cell} (hC : c ∈ positions r step) :
    InGrid r.sx r.sz c := by
  obtain ⟨j, hJ, hRow⟩ := List.mem_flatMap.mp hC
  obtain ⟨i, hI, rfl⟩ := List.mem_map.mp hRow
  exact ⟨(mem_steps hI).1, (mem_steps hI).2, (mem_steps hJ).1, (mem_steps hJ).2⟩

variable {info : LocateInfo} {candidate minsiz : ℤ} {nmax : ℕ}

/-- A reported size is at least `minsiz`, and at most the number of cells. -/
theorem fillCenters_siz {starts : List (ℤ × ℤ)} (hStarts : ∀ c ∈ starts, info.Inside c)
    (ids : ℤ → ℤ) {found : List Center} {center : Center}
    (hCenter : center ∈ fillCenters info candidate minsiz nmax starts ids found) :
    center ∈ found ∨ minsiz ≤ center.siz ∧ center.siz ≤ info.r.sx * info.r.sz := by
  induction starts generalizing ids found with
  | nil => exact .inl hCenter
  | cons c rest ih =>
      have hRest : ∀ c ∈ rest, info.Inside c := fun c' hC' => hStarts c' (List.mem_cons_of_mem c hC')
      have hNew {fill : Filled} (hFill : fill = floodFillGen info (fun _ => false) ids c.1 c.2)
          (hSize : minsiz ≤ fill.n)
          (hMem : center ∈ found ++ [⟨fill.center.getD ⟨0, 0⟩, fill.n⟩]) :
          center ∈ found ∨ minsiz ≤ center.siz ∧ center.siz ≤ info.r.sx * info.r.sz := by
        rcases List.mem_append.mp hMem with hOld | hLast
        · exact .inl hOld
        · cases List.mem_singleton.mp hLast
          exact .inr ⟨hSize, hFill ▸ floodFillGen_n_le ids (hStarts c List.mem_cons_self)⟩
      rw [fillCenters] at hCenter
      split at hCenter
      · exact ih hRest ids hCenter
      · simp only at hCenter
        split at hCenter
        next hSize =>
          split at hCenter
          · exact hNew rfl hSize hCenter
          · rcases ih hRest _ hCenter with hMem | hSiz
            · exact hNew rfl hSize hMem
            · exact .inr hSiz
        next => exact ih hRest _ hCenter

end Search

/-- The number of cells which the search asks for. -/
def minCells (minArea scale : ℤ) : ℤ :=
  if minArea / (scale * scale) ≤ 0 then 1 else minArea / (scale * scale)

theorem testBiomeCenters_area {g : Generator} {x z : BitVec 32} {range minArea scale tol : ℤ}
    {res : PosArea} (hRes : testBiomeCenters g x z range minArea scale tol = some res) :
    ∃ siz : ℕ, minCells minArea scale ≤ siz ∧
      siz ≤ (range / scale).toNat * (range / scale).toNat ∧
      res.area = BitVec.ofInt 32 (siz * (scale * scale)) := by
  rw [testBiomeCenters] at hRes
  split at hRes
  next pos siz hFound =>
    cases hRes
    have hMem : (⟨pos, siz⟩ : Center) ∈ getBiomeCentersOpt 1 g (makeRange x z range scale)
        mushroomFields (minArea / (scale * scale)) tol 0 := by
      rw [hFound]
      exact List.mem_singleton_self _
    rcases fillCenters_siz (fun c hC => mem_positions hC) _ hMem with hNone | ⟨hMin, hMax⟩
    · cases hNone
    · exact ⟨siz, hMin, hMax, rfl⟩
  next => cases hRes

theorem process_score {large : Bool} {cubiomes : Cubiomes} {minSize : ℤ} {input : GpuOutput}
    {out : CpuOutput} (hOut : process large cubiomes minSize input = some out) :
    ∃ siz : ℕ, minCells minSize 4 ≤ siz ∧
      siz ≤ (searchRange large / 4).toNat * (searchRange large / 4).toNat ∧
      out.score = BitVec.ofInt 32 (siz * 16) := by
  simp only [process] at hOut
  split at hOut
  · cases hOut
  · split at hOut
    · cases hOut
    · obtain ⟨res, hRes, rfl⟩ := Option.map_eq_some_iff.mp hOut
      exact testBiomeCenters_area hRes

/-- Every island which is reported for this size is large enough. -/
def SizesMet (large : Bool) (minSize : ℕ) : Prop :=
  ∀ (cubiomes : Cubiomes) (input : GpuOutput) (out : CpuOutput),
    process large cubiomes minSize input = some out → (minSize : ℤ) ≤ out.score.toInt

/-- The size is a whole number of cells, or less than one, or more than there are. -/
theorem sizesMet_of_cells {minSize : ℕ}
    (hSize : minSize ≤ 16 ∨ 16 ∣ minSize ∨ 163840016 ≤ minSize) : SizesMet false minSize := by
  intro cubiomes input out hOut
  obtain ⟨siz, hMin, hMax, hScore⟩ := process_score hOut
  have hGrid : siz ≤ 10240000 := hMax
  have hExact : out.score.toInt = siz * 16 := by
    rw [hScore, BitVec.toInt_ofInt]
    exact Int.bmod_eq_of_le (by omega) (by omega)
  have hCells : 1 ≤ siz ∧ minSize / 16 ≤ siz := by
    rw [minCells] at hMin
    split at hMin <;> omega
  rw [hExact]
  omega

/-! Maps on which the first `k` cells match, row by row. -/

section FirstCells

variable {info : LocateInfo} {ids : ℤ → ℤ} {k : ℕ}

theorem index_div_mod (r : Range) (n : ℕ) :
    r.index ((n % r.sx : ℕ) : ℤ) ((n / r.sx : ℕ) : ℤ) = n := by
  rw [Range.index]
  exact_mod_cast Nat.div_add_mod' n r.sx

theorem card_firstCells (hWidth : 1 ≤ info.r.sx) :
    ((Fill.cells info).filter fun c => info.r.index c.1 c.2 < k).card =
      min k (info.r.sx * info.r.sz) := by
  rw [← Finset.card_range (min k (info.r.sx * info.r.sz))]
  refine Finset.card_bij' (fun c _ => (info.r.index c.1 c.2).toNat)
    (fun n _ => (((n % info.r.sx : ℕ) : ℤ), ((n / info.r.sx : ℕ) : ℤ))) ?_ ?_ ?_ ?_
  · intro c hC
    obtain ⟨hCell, hFirst⟩ := Finset.mem_filter.mp hC
    have hBounds := Range.index_bounds (Fill.mem_cells.mp hCell)
    exact Finset.mem_range.mpr (lt_min (by omega) (by omega))
  · intro n hN
    obtain ⟨hFirst, hGrid⟩ := lt_min_iff.mp (Finset.mem_range.mp hN)
    have hColumn : n % info.r.sx < info.r.sx := Nat.mod_lt n hWidth
    have hRow : n / info.r.sx < info.r.sz := Nat.div_lt_of_lt_mul hGrid
    refine Finset.mem_filter.mpr ⟨Fill.mem_cells.mpr ?_, ?_⟩
    · exact ⟨Int.natCast_nonneg _, Int.ofNat_lt.mpr hColumn, Int.natCast_nonneg _,
        Int.ofNat_lt.mpr hRow⟩
    · rw [index_div_mod]
      exact Int.ofNat_lt.mpr hFirst
  · intro c hC
    have hInside := Fill.mem_cells.mp (Finset.mem_filter.mp hC).1
    have hBounds := Range.index_bounds hInside
    have hCast : (((info.r.index c.1 c.2).toNat : ℕ) : ℤ) = info.r.index c.1 c.2 :=
      Int.toNat_of_nonneg hBounds.1
    have hRow : (((info.r.index c.1 c.2).toNat / info.r.sx : ℕ) : ℤ) = c.2 := by
      rw [Int.natCast_div, hCast, Range.index_ediv hInside]
    have hIndex := index_div_mod info.r (info.r.index c.1 c.2).toNat
    refine Prod.ext ?_ hRow
    rw [hRow, hCast, Range.index, Range.index] at hIndex
    exact Int.add_left_cancel hIndex
  · intro n hN
    simp only [index_div_mod, Int.toNat_natCast]

variable (hTol : 1 ≤ info.tol) (hUnmarked : ∀ c, info.Inside c → ¬info.Marked ids c)
  (hFirst : ∀ c, info.Inside c → (info.idAt ids c = info.matchId ↔ info.r.index c.1 c.2 < k))
  (hStart : info.Inside (0, 0))

include hTol hUnmarked hFirst hStart

theorem reach_beside {c c' : Cell} {d : ℕ} (hAdj : Adj c c') (hC' : info.Inside c')
    (hIndex : info.r.index c'.1 c'.2 < k)
    (hReach : Reach Adj (Fill.Allowed info ids 0 0) (info.Gap ids) info.tol (0, 0) c d) :
    Reach Adj (Fill.Allowed info ids 0 0) (info.Gap ids) info.tol (0, 0) c' 0 := by
  have hMatch := (hFirst c' hC').mpr hIndex
  have hAfter : after (info.Gap ids) d c' = 0 := after_of_not_gap (not_not_intro hMatch)
  rw [← hAfter]
  exact .step hReach hAdj ⟨hC', Fill.not_refused_of_match hTol hStart hUnmarked hC' hMatch⟩
    (hAfter.trans_lt hTol)

/-- The fill goes down the first column and along the rows. -/
theorem reach_firstCells {c : Cell} (hC : info.Inside c) (hIndex : info.r.index c.1 c.2 < k) :
    Reach Adj (Fill.Allowed info ids 0 0) (info.Gap ids) info.tol (0, 0) c 0 := by
  have hBeside {c c' : Cell} (hAdj : Adj c c') := reach_beside (d := 0) hTol hUnmarked hFirst hStart hAdj
  have hColumn (j : ℕ) (hJ : info.Inside (0, (j : ℤ))) (hAbove : info.r.index 0 j < k) :
      Reach Adj (Fill.Allowed info ids 0 0) (info.Gap ids) info.tol (0, 0) (0, (j : ℤ)) 0 := by
    induction j with
    | zero =>
        have hMatch := (hFirst (0, 0) hStart).mpr hAbove
        have hAfter : after (info.Gap ids) 0 (0, 0) = 0 := after_of_not_gap (not_not_intro hMatch)
        have hReach : Reach Adj (Fill.Allowed info ids 0 0) (info.Gap ids) info.tol (0, 0) (0, 0)
            (after (info.Gap ids) 0 (0, 0)) :=
          .start ⟨hStart, Fill.not_refused_of_match hTol hStart hUnmarked hStart hMatch⟩
            (hAfter.trans_lt hTol)
        rwa [hAfter] at hReach
    | succ j ih =>
        obtain ⟨hI, hI', hJ, hJ'⟩ := hJ
        simp only [Range.index] at hAbove ih
        push_cast at hAbove hJ'
        have hSmaller : (j : ℤ) * info.r.sx + 0 < k := by linarith
        exact hBeside ⟨.down, by simp [move]⟩ ⟨hI, hI', hJ, by simpa using hJ'⟩
          (by simpa [Range.index] using hAbove) (ih ⟨hI, hI', by simp, by simp only; omega⟩ hSmaller)
  have hRow (i j : ℕ) (hI : info.Inside ((i : ℤ), (j : ℤ))) (hBefore : info.r.index i j < k) :
      Reach Adj (Fill.Allowed info ids 0 0) (info.Gap ids) info.tol (0, 0) ((i : ℤ), (j : ℤ)) 0 := by
    induction i with
    | zero => exact hColumn j hI hBefore
    | succ i ih =>
        obtain ⟨hI, hI', hJ, hJ'⟩ := hI
        simp only [Range.index] at hBefore ih
        push_cast at hBefore hI'
        exact hBeside ⟨.right, by simp [move]⟩ ⟨hI, by simpa using hI', hJ, hJ'⟩
          (by simpa [Range.index] using hBefore)
          (ih ⟨by simp, by simp only; omega, hJ, hJ'⟩ (by omega))
  have hI := Int.toNat_of_nonneg hC.1
  have hJ := Int.toNat_of_nonneg hC.2.2.1
  have hReach := hRow c.1.toNat c.2.toNat
  rw [hI, hJ] at hReach
  exact hReach hC hIndex

theorem floodFillGen_firstCells :
    (floodFillGen info (fun _ => false) ids 0 0).n = min k (info.r.sx * info.r.sz) := by
  have hWidth : 1 ≤ info.r.sx := by
    have hLast := hStart.2.1
    omega
  rw [floodFillGen_n, Fill.filled_n hTol hStart hUnmarked, ← card_firstCells hWidth,
    ← Set.ncard_coe_finset]
  congr 1
  ext c
  simp only [Finset.coe_filter, Fill.mem_cells, Set.mem_ofPred_eq]
  constructor
  · rintro ⟨hMatch, path, hWalk, hLast⟩
    have hC := (hWalk.allowed c (List.mem_of_getLast? hLast)).1
    exact ⟨hC, (hFirst c hC).mp hMatch⟩
  · rintro ⟨hC, hIndex⟩
    exact ⟨(hFirst c hC).mpr hIndex, exists_walk_iff.mpr
      ⟨0, reach_firstCells hTol hUnmarked hFirst hStart hC hIndex⟩⟩

end FirstCells

/-- A world in which, at every scale, the first `k` cells of the searched square match. -/
def firstCells (large : Bool) (k : ℕ) : Cubiomes where
  g _ :=
    { since118 := true
      getBiomeAt := fun scale x _ z =>
        if z * (searchRange large / scale) + x < k then mushroomFields else 0
      climate := fun _ _ _ => 0
      biomeParaLimits := fun _ _ => (intMin, intMax)
      tileIds := fun _ _ _ => -1 }
  newest _ := rfl
  testMonteCarlo _ _ _ _ _ := true

/-- A position whose square begins at the origin. -/
def originInput (large : Bool) : GpuOutput :=
  ⟨0, BitVec.ofInt 32 (searchRange large / 2), BitVec.ofInt 32 (searchRange large / 2)⟩

theorem steps_cons {n step : ℕ} (hN : 1 ≤ n) (hStep : 1 ≤ step) :
    ∃ rest, steps n step = 0 :: rest := by
  have hCount : 1 ≤ (n + step - 1) / step := (Nat.le_div_iff_mul_le hStep).mpr (by omega)
  obtain ⟨count, hSucc⟩ := Nat.exists_eq_add_of_le' hCount
  rw [steps, hSucc, List.range_succ_eq_map, List.map_cons, Nat.zero_mul, Nat.cast_zero]
  exact ⟨_, rfl⟩

theorem positions_cons {r : Range} {step : ℕ} (hX : 1 ≤ r.sx) (hZ : 1 ≤ r.sz) (hStep : 1 ≤ step) :
    ∃ rest, positions r step = (0, 0) :: rest := by
  obtain ⟨rows, hRows⟩ := steps_cons hZ hStep
  obtain ⟨columns, hColumns⟩ := steps_cons hX hStep
  rw [positions, hRows, hColumns, List.flatMap_cons, List.map_cons, List.cons_append]
  exact ⟨_, rfl⟩

/-- Where no climate is limited, every cell is a candidate. -/
theorem initialIds_of_unlimited {g : Generator} (hNew : g.since118 = true) {matchId : ℤ}
    (hLimits : ∀ k, g.biomeParaLimits matchId k = (intMin, intMax)) (r : Range) (step : ℕ) :
    g.initialIds r matchId step = fun _ => -1 := by
  have hKeep (i j : ℤ) : g.excludes r matchId i j = false := by
    simp [Generator.excludes, hLimits]
  simp only [Generator.initialIds, hNew, if_true, hKeep, Bool.false_eq_true, if_false]
  exact List.foldl_fixed _

/-- There, a large enough fill from the first cell ends the search. -/
theorem getBiomeCentersOpt_first {g : Generator} (hNew : g.since118 = true) {r : Range}
    {matchId minsiz tol : ℤ} (hLimits : ∀ k, g.biomeParaLimits matchId k = (intMin, intMax))
    (hX : 1 ≤ r.sx) (hZ : 1 ≤ r.sz) (hTol : 1 ≤ tol) {n : ℕ}
    (hFill : (floodFillGen ⟨g.toBiomeSource, r, matchId, tol.toNat⟩ (fun _ => false)
      (fun _ => -1) 0 0).n = n)
    (hMin : (if minsiz ≤ 0 then 1 else minsiz) ≤ n) :
    ∃ pos, getBiomeCentersOpt 1 g r matchId minsiz tol 0 = [⟨pos, n⟩] := by
  have hPlain : ¬tol ≤ 0 := by omega
  simp only [getBiomeCentersOpt, hNew, hPlain, le_refl, if_true, if_false, true_and,
    initialIds_of_unlimited hNew hLimits]
  obtain ⟨rest, hRest⟩ := positions_cons hX hZ (Nat.le_add_right 1 _)
  rw [hRest, fillCenters, if_neg (by simp)]
  simp only [hFill, if_pos hMin, List.nil_append, List.length_singleton, le_refl, if_true]
  exact ⟨_, rfl⟩

theorem makeRange_origin (large : Bool) (scale : ℤ) :
    makeRange (originInput large).x (originInput large).z (searchRange large) scale =
      ⟨scale, 0, 0, (searchRange large / scale).toNat, (searchRange large / scale).toNat,
        256 / scale⟩ := by
  simp [makeRange, originInput]

/-- The square as the search sees it: every cell is a candidate, and the fill from the first
one counts the first cells. -/
theorem testBiomeCenters_firstCells (large : Bool) (k : ℕ) (minArea scale tol : ℤ)
    (hScale : 1 ≤ searchRange large / scale) (hTol : 1 ≤ tol)
    (hMin : minCells minArea scale ≤
      (min k ((searchRange large / scale).toNat * (searchRange large / scale).toNat) : ℕ)) :
    ∃ res, testBiomeCenters ((firstCells large k).g 0) (originInput large).x (originInput large).z
        (searchRange large) minArea scale tol = some res ∧
      res.area = BitVec.ofInt 32 (((min k ((searchRange large / scale).toNat *
        (searchRange large / scale).toNat) : ℕ) : ℤ) * (scale * scale)) := by
  have hSide : 1 ≤ (searchRange large / scale).toNat := by omega
  have hCast : (((searchRange large / scale).toNat : ℕ) : ℤ) = searchRange large / scale :=
    Int.toNat_of_nonneg (by omega)
  have hFill : (floodFillGen ⟨((firstCells large k).g 0).toBiomeSource,
      ⟨scale, 0, 0, (searchRange large / scale).toNat, (searchRange large / scale).toNat,
        256 / scale⟩, mushroomFields, tol.toNat⟩ (fun _ => false) (fun _ => -1) 0 0).n =
      min k ((searchRange large / scale).toNat * (searchRange large / scale).toNat) := by
    refine floodFillGen_firstCells ?_ ?_ ?_ ?_
    · simp only
      omega
    · exact fun c _ => LocateInfo.not_marked_memset _ c
    · intro c _
      simp [LocateInfo.idAt, firstCells, Range.index, hCast, mushroomFields]
    · refine ⟨Int.le_refl 0, ?_, Int.le_refl 0, ?_⟩ <;> simp only <;> omega
  obtain ⟨pos, hFound⟩ := getBiomeCentersOpt_first rfl (fun _ => rfl) hSide hSide hTol hFill hMin
  rw [testBiomeCenters, makeRange_origin]
  simp only [hFound]
  exact ⟨_, rfl, rfl⟩

/-- In that world the island is reported with the size of its cells. -/
theorem process_firstCells (large : Bool) (k : ℕ) (minSize : ℤ)
    (hCoarse : minCells minSize 16 ≤
      (min k ((searchRange large / 16).toNat * (searchRange large / 16).toNat) : ℕ))
    (hFine : minCells minSize 4 ≤
      (min k ((searchRange large / 4).toNat * (searchRange large / 4).toNat) : ℕ)) :
    ∃ out, process large (firstCells large k) minSize (originInput large) = some out ∧
      out.score = BitVec.ofInt 32 (((min k ((searchRange large / 4).toNat *
        (searchRange large / 4).toNat) : ℕ) : ℤ) * 16) := by
  obtain ⟨coarse, hFirst, -⟩ := testBiomeCenters_firstCells large k minSize 16 4
    (by cases large <;> decide) (by decide) hCoarse
  obtain ⟨res, hSecond, hArea⟩ := testBiomeCenters_firstCells large k minSize 4 2
    (by cases large <;> decide) (by decide) hFine
  refine ⟨⟨0, res.x, res.z, res.area⟩, ?_, hArea⟩
  have hProcess : process large (firstCells large k) minSize (originInput large) =
      if (testBiomeCenters ((firstCells large k).g 0) (originInput large).x (originInput large).z
          (searchRange large) minSize 16 4).isNone then none
      else
        (testBiomeCenters ((firstCells large k).g 0) (originInput large).x (originInput large).z
          (searchRange large) minSize 4 2).map fun res => ⟨0, res.x, res.z, res.area⟩ := rfl
  rw [hProcess, hFirst, hSecond]
  rfl

/-- With large biomes a square full of the biome has so many blocks that the area wraps. -/
theorem not_sizesMet_large {minSize : ℕ} (hSize : minSize < 2 ^ 31) : ¬SizesMet true minSize := by
  intro hMet
  have hSixteen : (searchRange true / 16).toNat = 3200 := by decide
  have hFour : (searchRange true / 4).toNat = 12800 := by decide
  obtain ⟨out, hOut, hScore⟩ := process_firstCells true 163840000 minSize
    (by rw [hSixteen, minCells]; split_ifs <;> omega) (by rw [hFour, minCells]; split_ifs <;> omega)
  have hLess := hMet _ _ out hOut
  have hWrapped : out.score.toInt = -1673527296 := by
    rw [hScore, hFour]
    decide
  omega

/-- The number of cells is rounded down. -/
theorem not_sizesMet_of_rest {minSize : ℕ} (hMore : 16 < minSize) (hRest : ¬16 ∣ minSize)
    (hFits : minSize < 163840016) : ¬SizesMet false minSize := by
  intro hMet
  have hSixteen : (searchRange false / 16).toNat = 800 := by decide
  have hFour : (searchRange false / 4).toNat = 3200 := by decide
  obtain ⟨out, hOut, hScore⟩ := process_firstCells false (minSize / 16) minSize
    (by rw [hSixteen, minCells]; split_ifs <;> omega) (by rw [hFour, minCells]; split_ifs <;> omega)
  have hLess := hMet _ _ out hOut
  have hCells : min (minSize / 16) (3200 * 3200) = minSize / 16 := by omega
  have hExact : out.score.toInt = (minSize / 16 : ℕ) * 16 := by
    rw [hScore, hFour, hCells, BitVec.toInt_ofInt]
    exact Int.bmod_eq_of_le (by omega) (by omega)
  omega

/-- When every reported island is as large as requested. -/
theorem sizes_met_iff (large : Bool) (minSize : ℕ) (hSize : minSize < 2 ^ 31) :
    SizesMet large minSize ↔
      large = false ∧ (minSize ≤ 16 ∨ 16 ∣ minSize ∨ 163840016 ≤ minSize) := by
  constructor
  · intro hMet
    cases large with
    | true => exact absurd hMet (not_sizesMet_large hSize)
    | false =>
        refine ⟨rfl, ?_⟩
        by_contra hOther
        push Not at hOther
        exact not_sizesMet_of_rest hOther.1 hOther.2.1 hOther.2.2 hMet
  · rintro ⟨rfl, hCells⟩
    exact sizesMet_of_cells hCells

/-- A size of 17 blocks is asked for as one cell, and one of 32 blocks as two. -/
theorem sizes_met_iff_small : ¬SizesMet false 17 ∧ SizesMet false 32 := by
  refine ⟨fun hMet => ?_, (sizes_met_iff false 32 (by decide)).mpr ⟨rfl, .inr (.inl (by decide))⟩⟩
  have hCells := (sizes_met_iff false 17 (by decide)).mp hMet
  omega

/-- An island of one cell is reported for a size of 17 blocks. -/
theorem one_cell_reported :
    ∃ out, process false (firstCells false 1) 17 ⟨0, 6400, 6400⟩ = some out ∧
      out.score.toInt = 16 ∧ ¬17 ≤ out.score.toInt := by
  obtain ⟨out, hOut, hScore⟩ := process_firstCells false 1 17 (by decide) (by decide)
  have hExact : out.score.toInt = 16 := by
    rw [hScore]
    decide
  exact ⟨out, hOut, hExact, by omega⟩

end Commission
