import Commission.Cpu.CenterSearch
import Commission.Cpu.SearchArea

/-! What a position which `process` keeps says about the biome map: a set of mushroom cells
which hang together, with its size and a centre in the square around the position. -/
namespace Commission

open GridSearch BoundedRuns

namespace Fill

variable {info : LocateInfo} {ids : ℤ → ℤ} {first : Cell} {s : Fill} {e : Entry} {rest : List Entry}

/-- The ends of walks in the grid on which no `tol` consecutive cells are gaps, with the
gaps at their end. -/
def Reached (info : LocateInfo) (ids : ℤ → ℤ) (first : Cell) : Cell → ℕ → Prop :=
  Reach Adj info.Inside (info.Gap ids) info.tol first

/-- What lies on the stack is next to the end of such a walk, or where the fill starts, and
what was counted is the end of one. -/
structure Joined (info : LocateInfo) (ids : ℤ → ℤ) (first : Cell) (s : Fill) : Prop where
  queue : ∀ e ∈ s.queue, e.cell = first ∧ e.d = 0 ∨
    ∃ c, Reached info ids first c e.d ∧ Adj c e.cell
  counted : ∀ c ∈ countedCells info ids s.ids, ∃ d, Reached info ids first c d

theorem joined_start (i j : ℤ) : Joined info ids (i, j) (start ids i j) where
  queue e hE := by
    cases List.mem_singleton.mp hE
    exact .inl ⟨rfl, rfl⟩
  counted c hC := by
    rw [start, countedCells_self] at hC
    exact absurd hC (Finset.notMem_empty c)

/-- A cell which leaves the stack ends a walk, as long as there are not too many gaps. -/
theorem Joined.reached (hJoined : Joined info ids first s) (hQueue : s.queue = e :: rest)
    (hE : info.Inside e.cell) (hTol : after (info.Gap ids) e.d e.cell < info.tol) :
    Reached info ids first e.cell (after (info.Gap ids) e.d e.cell) := by
  rcases hJoined.queue e (by simp [hQueue]) with ⟨hFirst, hZero⟩ | ⟨c, hReach, hAdj⟩
  · rw [hZero, hFirst] at hTol ⊢
    exact .start (hFirst ▸ hE) hTol
  · exact hReach.step hAdj hE hTol

theorem Joined.pushed (hJoined : Joined info ids first s) (hQueue : s.queue = e :: rest)
    {marks : ℤ → ℤ} {d : ℕ} (hReach : Reached info ids first e.cell d) :
    ∀ e' ∈ pushed info marks e.cell d ++ rest, e'.cell = first ∧ e'.d = 0 ∨
      ∃ c, Reached info ids first c e'.d ∧ Adj c e'.cell := by
  intro e' hE'
  rcases List.mem_append.mp hE' with hNew | hRest
  · obtain ⟨dir, -, rfl⟩ := List.mem_map.mp hNew
    exact .inr ⟨e.cell, hReach, dir, rfl⟩
  · exact hJoined.queue e' (hQueue ▸ List.mem_cons_of_mem e hRest)

theorem Joined.step (hTol : 1 ≤ info.tol) (hCounts : Counts info ids s)
    (hInside : QueueInside info s) (hJoined : Joined info ids first s) :
    Joined info ids first (s.step info) := by
  cases hQueue : s.queue with
  | nil => rwa [step_of_nil hQueue]
  | cons e rest =>
      have hE := hInside e (by simp [hQueue])
      have hRest : ∀ e' ∈ rest, e'.cell = first ∧ e'.d = 0 ∨
          ∃ c, Reached info ids first c e'.d ∧ Adj c e'.cell :=
        fun e' hE' => hJoined.queue e' (hQueue ▸ List.mem_cons_of_mem e hE')
      have hUpdate := countedCells_update (e := e) hCounts hE
      rcases step_cases info hQueue with ⟨-, hStep⟩ | ⟨hFresh, hMatch, hStep⟩ |
        ⟨hFresh, hOther, -, hStep⟩ | ⟨hFresh, hOther, hFew, hStep⟩ <;> rw [hStep]
      · exact ⟨hRest, hJoined.counted⟩
      · -- A match ends the run of gaps.
        have hNoGap : after (info.Gap ids) e.d e.cell = 0 :=
          after_of_not_gap fun hGap => hGap ((hCounts.same _ hE hFresh).symm.trans hMatch)
        have hReach := hJoined.reached hQueue hE (by omega)
        rw [hNoGap] at hReach
        refine ⟨hJoined.pushed hQueue hReach, fun c hC => ?_⟩
        rw [(hUpdate hFresh).trans (if_pos hMatch)] at hC
        rcases Finset.mem_insert.mp hC with rfl | hC
        · exact ⟨0, hReach⟩
        · exact hJoined.counted c hC
      · refine ⟨hRest, ?_⟩
        rw [(hUpdate hFresh).trans (if_neg hOther)]
        exact hJoined.counted
      · have hGap : after (info.Gap ids) e.d e.cell = e.d + 1 :=
          if_pos fun hMatch => hOther ((hCounts.same _ hE hFresh).trans hMatch)
        have hReach := hJoined.reached hQueue hE (by omega)
        rw [hGap] at hReach
        refine ⟨hJoined.pushed hQueue hReach, ?_⟩
        rw [(hUpdate hFresh).trans (if_neg hOther)]
        exact hJoined.counted

theorem joined_run {i j : ℤ} (hTol : 1 ≤ info.tol) (hStart : info.Inside (i, j)) (passes : ℕ) :
    Joined info ids (i, j) ((step info)^[passes] (start ids i j)) := by
  induction passes with
  | zero => exact joined_start i j
  | succ passes ih =>
      rw [Function.iterate_succ_apply']
      exact ih.step hTol (counts_run hStart passes) (queueInside_run hStart passes)

end Fill

/-- Mushroom cells of a range which hang together: walks from one cell lead to all of them,
with fewer than `tol` cells of other biomes in a row. -/
structure Island (g : Generator) (r : Range) (tol : ℕ) (cells : Finset Cell) : Prop where
  inside : ∀ c ∈ cells, InGrid r.sx r.sz c
  mushroom : ∀ c ∈ cells, g.getBiomeAt r.scale (r.x + c.1) r.y (r.z + c.2) = mushroomFields
  joined : ∃ first, ∀ c ∈ cells, ∃ path, Walk Adj (InGrid r.sx r.sz)
    (fun c' => g.getBiomeAt r.scale (r.x + c'.1) r.y (r.z + c'.2) ≠ mushroomFields) tol first path ∧
      path.getLast? = some c

section Test

variable {g : Generator} {r : Range} {tol : ℕ}

/-- The cells which a fill counts are an island. -/
theorem FillCall.island (hVersion : g.since118 = true) (hTol : 1 ≤ tol) {call : FillCall}
    (hCell : InGrid r.sx r.sz call.cell) :
    Island g r tol ((call.newlyMarked (searchInfo g r mushroomFields tol)).filter fun c =>
      g.getBiomeAt r.scale (r.x + c.1) r.y (r.z + c.2) = mushroomFields) := by
  let info := searchInfo g r mushroomFields tol
  have hInfo : info.tol = tol := by
    change (if (tol : ℤ) ≤ 0 then 1 else (tol : ℤ)).toNat = tol
    split <;> omega
  have hBiome (c : Cell) : info.idAt call.ids c =
      g.getBiomeAt r.scale (r.x + c.1) r.y (r.z + c.2) := if_pos hVersion
  have hJoined : Fill.Joined info call.ids call.cell (filled info call.ids call.cell.1 call.cell.2) :=
    Fill.joined_run (hTol.trans_eq hInfo.symm) hCell _
  refine ⟨fun c hC => ?_, fun c hC => (Finset.mem_filter.mp hC).2, call.cell, fun c hC => ?_⟩
  · have hMarked := (Finset.mem_filter.mp hC).1
    exact Fill.mem_cells.mp (Finset.mem_filter.mp hMarked).1
  · obtain ⟨hMarked, hMatch⟩ := Finset.mem_filter.mp hC
    rw [FillCall.newlyMarked, FillCall.result, floodFillGen_ids] at hMarked
    obtain ⟨d, hReach⟩ := hJoined.counted c
      (Finset.mem_filter.mpr ⟨hMarked, (hBiome c).trans hMatch⟩)
    obtain ⟨path, hWalk, hLast, -⟩ := hReach.exists_walk
    have hGap : info.Gap call.ids = fun c' =>
        g.getBiomeAt r.scale (r.x + c'.1) r.y (r.z + c'.2) ≠ mushroomFields := by
      funext c'
      rw [LocateInfo.Gap, hBiome]
      rfl
    rw [hGap, hInfo] at hWalk
    exact ⟨path, hWalk, hLast⟩

/-- A position which a test keeps: an island with enough cells, its centre and its area. -/
theorem testBiomeCenters_island {x z : BitVec 32} {range minArea scale : ℤ} {res : PosArea}
    (hVersion : g.since118 = true) (hTol : 1 ≤ tol)
    (hRes : testBiomeCenters g x z range minArea scale tol = some res) :
    ∃ (cells : Finset Cell) (center : Pos), Island g (makeRange x z range scale) tol cells ∧
      minCells minArea scale ≤ cells.card ∧
      center.x ∈ Set.uIcc ((makeRange x z range scale).x * scale)
        (((makeRange x z range scale).x + (makeRange x z range scale).sx) * scale) ∧
      center.z ∈ Set.uIcc ((makeRange x z range scale).z * scale)
        (((makeRange x z range scale).z + (makeRange x z range scale).sz) * scale) ∧
      res = ⟨BitVec.ofInt 32 center.x, BitVec.ofInt 32 center.z,
        BitVec.ofInt 32 (cells.card * (scale * scale))⟩ := by
  rw [testBiomeCenters] at hRes
  split at hRes
  next pos siz hFound =>
    cases hRes
    have hMem : (⟨pos, siz⟩ : Center) ∈ getBiomeCentersOpt 1 g (makeRange x z range scale)
        mushroomFields (minArea / (scale * scale)) tol 0 := by
      rw [hFound]
      exact List.mem_singleton_self _
    obtain ⟨hEnough, hX, hZ⟩ := center_mem_range _ _ _ _ _ _ _ hMem
    obtain ⟨ids, hChain⟩ := searchCalls_chain 1 g (makeRange x z range scale) mushroomFields
      (minArea / (scale * scale)) tol 0
    rw [getBiomeCentersOpt_eq] at hMem
    obtain ⟨call, hCall, hCenter⟩ := List.mem_map.mp hMem
    have hInside := hChain.inside call (List.mem_filter.mp hCall).1
    have hCount := result_n_eq_card_biome g _ _ _ hVersion hInside
    have hSiz : (call.result (searchInfo g (makeRange x z range scale) mushroomFields tol)).n = siz :=
      congrArg Center.siz hCenter
    rw [hSiz] at hCount
    have hLarge : minCells minArea scale ≤ siz := by
      rw [minCells]
      change max (minArea / (scale * scale)) 1 ≤ (siz : ℤ) at hEnough
      split <;> omega
    exact ⟨_, pos, FillCall.island hVersion hTol hInside, hCount ▸ hLarge, hX, hZ, by rw [← hCount]⟩
  next => cases hRes

end Test

/-- What the CPU test has found where it keeps a position. -/
structure ReportedIsland (large : Bool) (cubiomes : Cubiomes) (minSize : ℤ) (input : GpuOutput)
    (out : CpuOutput) : Prop where
  seed : out.seed = input.seed
  /-- The coarse test has found enough cells of 16 blocks. -/
  coarse : ∃ cells, Island (cubiomes.g input.seed)
    (makeRange input.x input.z (searchRange large) 16) 4 cells ∧ minCells minSize 16 ≤ cells.card
  /-- The score is the area of the island of cells of 4 blocks. -/
  fine : ∃ cells, Island (cubiomes.g input.seed)
    (makeRange input.x input.z (searchRange large) 4) 2 cells ∧ minCells minSize 4 ≤ cells.card ∧
      out.score = BitVec.ofInt 32 (cells.card * 16)
  near : |out.x.toInt - input.x.toInt| ≤ searchRange large / 2 + 3 ∧
    |out.z.toInt - input.z.toInt| ≤ searchRange large / 2 + 3

/-- A centre inside the square is an `int`, not far from the middle. -/
theorem centre_near {large : Bool} {x : BitVec 32} (hX : |x.toInt| ≤ 2 ^ 30) {corner centre : ℤ}
    (hCorner : |corner - (x.toInt - searchRange large / 2)| ≤ 3)
    (hCentre : centre ∈ Set.Icc corner (corner + searchRange large)) :
    |(BitVec.ofInt 32 centre).toInt - x.toInt| ≤ searchRange large / 2 + 3 := by
  obtain ⟨hLow, hHigh⟩ := hCentre
  rw [abs_le] at hX hCorner
  have hExact : (BitVec.ofInt 32 centre).toInt = centre := by
    rw [BitVec.toInt_ofInt]
    cases large <;> simp only [searchRange] at * <;> norm_num at * <;>
      exact Int.bmod_eq_of_le (by omega) (by omega)
  rw [hExact, abs_le]
  cases large <;> simp only [searchRange] at * <;> norm_num at * <;> omega

/-- Every position which `process` keeps comes with an island of mushroom fields. -/
theorem process_reportedIsland {large : Bool} {cubiomes : Cubiomes} {minSize : ℤ}
    {input : GpuOutput} {out : CpuOutput} (hX : |input.x.toInt| ≤ 2 ^ 30)
    (hZ : |input.z.toInt| ≤ 2 ^ 30) (hOut : process large cubiomes minSize input = some out) :
    ReportedIsland large cubiomes minSize input out := by
  simp only [process] at hOut
  split at hOut
  · cases hOut
  · split at hOut
    · cases hOut
    next hCoarse =>
      have hVersion := cubiomes.newest input.seed
      obtain ⟨res, hRes, rfl⟩ := Option.map_eq_some_iff.mp hOut
      obtain ⟨coarseRes, hCoarseRes⟩ := Option.isSome_iff_exists.mp
        (by simpa [Option.isNone_iff_eq_none, Option.isSome_iff_ne_none] using hCoarse)
      obtain ⟨coarse, -, hCoarseIsland, hCoarseEnough, -⟩ :=
        testBiomeCenters_island hVersion (by decide) hCoarseRes
      obtain ⟨cells, center, hIsland, hEnough, hCenterX, hCenterZ, rfl⟩ :=
        testBiomeCenters_island hVersion (by decide) hRes
      have hCovers := makeRange_coversSquare large hX hZ (by decide : (4 : ℤ) ∈ testScales)
      have hSide : 0 ≤ searchRange large := (searchRange_bounds large).1
      have hWidth := hCovers.width
      have hDepth := hCovers.depth
      have hScale : (makeRange input.x input.z (searchRange large) 4).scale = 4 := rfl
      rw [hScale] at hWidth hDepth
      rw [add_mul, hWidth, Set.uIcc_of_le (by omega)] at hCenterX
      rw [add_mul, hDepth, Set.uIcc_of_le (by omega)] at hCenterZ
      exact ⟨rfl, ⟨coarse, hCoarseIsland, hCoarseEnough⟩, ⟨cells, hIsland, hEnough, rfl⟩,
        centre_near hX hCovers.cornerX hCenterX, centre_near hZ hCovers.cornerZ hCenterZ⟩

end Commission
