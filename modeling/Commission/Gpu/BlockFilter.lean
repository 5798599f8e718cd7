import Commission.Gpu.Filter2
import Commission.Library.Reduction
import Mathlib.Tactic.IntervalCases

/-! One pass of a block of `KernelFilter2::kernel<T>`, thread by thread: which points
its threads sample, how they add up their counts, and what they emit. -/
namespace Commission

open Reduction

section Warp

variable {M : Type} [AddCommMonoid M]

/-- `warp_reduce_add` with the values of the 32 lanes, by `__reduce_add_sync` or by
shuffles. -/
def warpReduceAdd (reduceSync : Bool) (val : ℕ → M) : ℕ → M :=
  if reduceSync then fun _ => ∑ lane ∈ Finset.range 32, val lane
  else
    let val := addDown 32 1 val
    let val := addDown 32 2 val
    let val := addDown 32 4 val
    let val := addDown 32 8 val
    addDown 32 16 val

/-- Lane 0 gets the sum from both. -/
theorem warpReduceAdd_zero (reduceSync : Bool) (val : ℕ → M) :
    warpReduceAdd reduceSync val 0 = ∑ lane ∈ Finset.range 32, val lane := by
  cases reduceSync with
  | true => rfl
  | false =>
      have hTwo : WindowSums 32 2 val (addDown 32 1 val) :=
        (windowSums_one 32 val).addDown (by decide)
      have hFour : WindowSums 32 4 val _ := hTwo.addDown (by decide)
      have hEight : WindowSums 32 8 val _ := hFour.addDown (by decide)
      have hSixteen : WindowSums 32 16 val _ := hEight.addDown (by decide)
      have hAll : WindowSums 32 32 val _ := hSixteen.addDown (by decide)
      have hZero := hAll 0 (by decide)
      simp only [zero_add] at hZero
      exact hZero

end Warp

namespace KernelFilter2

section Grid

variable {large : Bool} (T : Template large)

/-- How far the rows of one pass of a thread's loop are from those of the next. -/
def Template.rowsPerPass : ℕ := T.samplesSquareSize / T.loops

/-- The place in the square of the point which a thread samples in pass `i`. -/
def gridIndex (posIndex i : ℕ) : ℕ × ℕ :=
  (xIndex T posIndex, zIndex T posIndex + i * T.rowsPerPass)

/-- The places of all threads and passes of an input. -/
def gridIndices : List (ℕ × ℕ) :=
  (List.range T.threadsPerInput).flatMap fun posIndex =>
    (List.range T.loops).map (gridIndex T posIndex)

/-- The places to sample: the whole square, or its points of one parity. -/
def sampledGrid : Finset (ℕ × ℕ) :=
  (Finset.range T.samplesSquareSize ×ˢ Finset.range T.samplesSquareSize).filter fun place =>
    T.samplesSquareSparse = true →
      (place.2 % 2 = 1 ↔ (place.1 % 2 = 1) ≠ (T.flippedSparseSamples = true))

/-- The position of a place of the square. -/
def gridPos (input : SeedPos) (place : ℕ × ℕ) : ℤ × ℤ :=
  (input.x + place.1 * T.posStep + T.posOffset, input.z + place.2 * T.posStep + T.posOffset)

theorem samplePos_eq (input : SeedPos) (posIndex i : ℕ) :
    samplePos T input posIndex i = gridPos T input (gridIndex T posIndex i) := by
  simp only [samplePos, gridPos, gridIndex, Template.zStep, Template.rowsPerPass]
  push_cast
  congr 1
  ring

theorem points_eq (input : SeedPos) : points T input = (gridIndices T).map (gridPos T input) := by
  simp only [points, gridIndices, List.map_flatMap, List.map_map]
  congr 1
  funext posIndex
  apply List.map_congr_left
  intro i _
  exact samplePos_eq T input posIndex i

/-- How the powers of two of a template fit together. -/
structure Template.Shape : Prop where
  loops_mul : T.loops * T.rowsPerPass = T.samplesSquareSize
  square : T.threadsPerInput * (if T.samplesSquareSparse then 2 else 1) =
    T.samplesSquareSize * T.rowsPerPass
  even : T.samplesSquareSparse = true → T.rowsPerPass % 2 = 0
  total : T.threadsPerInput * T.loops = T.samples
  warps : T.threadsPerInput / 32 * 32 = T.threadsPerInput
  block : T.inputsPerBlock * T.threadsPerInput = threadsPerBlock
  square_pos : 0 < T.samplesSquareSize
  rows_pos : 0 < T.rowsPerPass
  single : T.samples ≤ 32 → T.threadsPerInput = 32

theorem Template.shape : T.Shape := by
  have hLow : 5 ≤ T.samples.log2 := (Nat.le_log2 (by have := T.samples_ge; omega)).mpr T.samples_ge
  have hHigh : T.samples.log2 ≤ 16 := by
    have hLt := (Nat.log2_lt (by have := T.samples_ge; omega)).mpr
      (show T.samples < 2 ^ 17 by have := T.samples_le; omega)
    omega
  have hSamples := T.samples_pow2
  generalize T.samples.log2 = k at hLow hHigh hSamples
  constructor <;>
    simp only [Template.rowsPerPass, Template.loops, Template.threadsPerInput,
      Template.inputsPerBlock, Template.samplesSquareSize, Template.samplesSquareSparse,
      threadsPerBlock, hSamples] <;>
    interval_cases k <;> decide

variable {T}

theorem xIndex_lt (posIndex : ℕ) : xIndex T posIndex < T.samplesSquareSize :=
  Nat.mod_lt _ T.shape.square_pos

/-- In the parity of a sparse square the row of a thread follows from its column. -/
theorem zIndex_parity (hSparse : T.samplesSquareSparse = true) (posIndex : ℕ) :
    zIndex T posIndex % 2 = 1 ↔
      (xIndex T posIndex % 2 = 1) ≠ (T.flippedSparseSamples = true) := by
  simp only [zIndex, hSparse, if_true]
  split <;> simp_all

theorem zIndex_div (posIndex : ℕ) : posIndex / T.samplesSquareSize =
    zIndex T posIndex / (if T.samplesSquareSparse then 2 else 1) := by
  cases hSparse : T.samplesSquareSparse with
  | false => simp [zIndex, hSparse]
  | true =>
      simp only [zIndex, hSparse, if_true]
      split <;> omega

theorem zIndex_lt {posIndex : ℕ} (hIndex : posIndex < T.threadsPerInput) :
    zIndex T posIndex < T.rowsPerPass := by
  have hShape := T.shape
  have hSquare := hShape.square
  cases hSparse : T.samplesSquareSparse with
  | false =>
      simp only [hSparse, Bool.false_eq_true, if_false, mul_one] at hSquare
      simp only [zIndex, hSparse, Bool.false_eq_true, if_false]
      exact Nat.div_lt_of_lt_mul (hSquare ▸ hIndex)
  | true =>
      have hEven := hShape.even hSparse
      simp only [hSparse, if_true] at hSquare
      have hHalf : posIndex / T.samplesSquareSize < T.rowsPerPass / 2 := by
        apply Nat.div_lt_of_lt_mul
        have hProduct : T.samplesSquareSize * (T.rowsPerPass / 2) * 2 = T.threadsPerInput * 2 := by
          rw [hSquare, mul_assoc, Nat.div_mul_cancel (Nat.dvd_of_mod_eq_zero hEven)]
        omega
      simp only [zIndex, hSparse, if_true]
      split <;> omega

/-- No two pairs of thread and pass sample the same place. -/
theorem gridIndex_inj {posIndex other i j : ℕ} (hIndex : posIndex < T.threadsPerInput)
    (hOther : other < T.threadsPerInput) (hSame : gridIndex T posIndex i = gridIndex T other j) :
    posIndex = other ∧ i = j := by
  rw [gridIndex, gridIndex, Prod.mk.injEq] at hSame
  obtain ⟨hColumn, hRow⟩ := hSame
  have hLt := zIndex_lt hIndex
  have hLtOther := zIndex_lt hOther
  have hPass : i = j := by
    have hDiv := congrArg (· / T.rowsPerPass) hRow
    simp only [Nat.add_mul_div_right _ _ T.shape.rows_pos, Nat.div_eq_of_lt hLt,
      Nat.div_eq_of_lt hLtOther, zero_add] at hDiv
    exact hDiv
  subst hPass
  refine ⟨?_, rfl⟩
  have hRows : zIndex T posIndex = zIndex T other := by omega
  rw [← Nat.div_add_mod posIndex T.samplesSquareSize, ← Nat.div_add_mod other T.samplesSquareSize,
    zIndex_div, zIndex_div, hRows]
  exact congrArg _ hColumn

theorem gridIndices_nodup : (gridIndices T).Nodup := by
  rw [gridIndices, List.nodup_flatMap]
  refine ⟨fun posIndex hMem => ?_, ?_⟩
  · refine List.Nodup.map_on (fun i _ j _ hSame => ?_) List.nodup_range
    exact (gridIndex_inj (List.mem_range.mp hMem) (List.mem_range.mp hMem) hSame).2
  · refine List.Pairwise.imp_of_mem ?_ List.nodup_range
    intro posIndex other hMem hMemOther hNe place hPlace hPlaceOther
    obtain ⟨i, -, rfl⟩ := List.mem_map.mp hPlace
    obtain ⟨j, -, hSame⟩ := List.mem_map.mp hPlaceOther
    exact hNe (gridIndex_inj (List.mem_range.mp hMemOther) (List.mem_range.mp hMem) hSame).1.symm

theorem gridIndices_length : (gridIndices T).length = T.samples := by
  simp [gridIndices, List.length_flatMap, T.shape.total]

theorem gridIndex_mem {posIndex i : ℕ} (hIndex : posIndex < T.threadsPerInput) (hPass : i < T.loops) :
    gridIndex T posIndex i ∈ sampledGrid T := by
  have hShape := T.shape
  have hRow : zIndex T posIndex + i * T.rowsPerPass < T.samplesSquareSize := by
    have hLt := zIndex_lt hIndex
    have hLe := Nat.mul_le_mul_right T.rowsPerPass (Nat.succ_le_of_lt hPass)
    rw [Nat.succ_mul, hShape.loops_mul] at hLe
    omega
  simp only [sampledGrid, Finset.mem_filter, Finset.mem_product, Finset.mem_range]
  refine ⟨⟨xIndex_lt posIndex, hRow⟩, fun hSparse => ?_⟩
  have hEven : i * T.rowsPerPass % 2 = 0 := by
    rw [Nat.mul_mod, hShape.even hSparse, mul_zero, Nat.zero_mod]
  refine Iff.trans ?_ (zIndex_parity hSparse posIndex)
  simp only [gridIndex]
  omega

/-- The thread of a column and a row below `rowsPerPass`. -/
theorem exists_thread {column row : ℕ} (hColumn : column < T.samplesSquareSize)
    (hRow : row < T.rowsPerPass)
    (hParity : T.samplesSquareSparse = true →
      (row % 2 = 1 ↔ (column % 2 = 1) ≠ (T.flippedSparseSamples = true))) :
    ∃ posIndex < T.threadsPerInput, xIndex T posIndex = column ∧ zIndex T posIndex = row := by
  have hShape := T.shape
  have hSquare := hShape.square
  let line := row / (if T.samplesSquareSparse then 2 else 1)
  have hMod : (line * T.samplesSquareSize + column) % T.samplesSquareSize = column := by
    rw [Nat.mul_add_mod_self_right, Nat.mod_eq_of_lt hColumn]
  have hDiv : (line * T.samplesSquareSize + column) / T.samplesSquareSize = line := by
    rw [Nat.add_comm, Nat.add_mul_div_right _ _ hShape.square_pos, Nat.div_eq_of_lt hColumn, zero_add]
  have hThread : line * T.samplesSquareSize + column < T.threadsPerInput := by
    have hLine : (line + 1) * T.samplesSquareSize ≤ T.threadsPerInput := by
      cases hSparse : T.samplesSquareSparse with
      | false =>
          simp only [hSparse, Bool.false_eq_true, if_false, mul_one, Nat.div_one, line] at hSquare ⊢
          rw [hSquare, Nat.mul_comm]
          exact Nat.mul_le_mul_left _ hRow
      | true =>
          have hEven := hShape.even hSparse
          simp only [hSparse, if_true, line] at hSquare ⊢
          have hHalf : (row / 2 + 1) * 2 ≤ T.rowsPerPass := by omega
          have hLe := Nat.mul_le_mul_left T.samplesSquareSize hHalf
          rw [← hSquare, ← mul_assoc, Nat.mul_comm T.samplesSquareSize] at hLe
          omega
    rw [Nat.succ_mul] at hLine
    omega
  refine ⟨line * T.samplesSquareSize + column, hThread, hMod, ?_⟩
  simp only [zIndex, xIndex, hMod, hDiv]
  cases hSparse : T.samplesSquareSparse with
  | false => simp [line, hSparse]
  | true =>
      have hBit := hParity hSparse
      simp only [line, hSparse, if_true]
      split <;> simp_all <;> omega

theorem mem_gridIndices {place : ℕ × ℕ} : place ∈ gridIndices T ↔ place ∈ sampledGrid T := by
  have hShape := T.shape
  simp only [gridIndices, List.mem_flatMap, List.mem_range, List.mem_map]
  constructor
  · rintro ⟨posIndex, hIndex, i, hPass, rfl⟩
    exact gridIndex_mem hIndex hPass
  · intro hPlace
    simp only [sampledGrid, Finset.mem_filter, Finset.mem_product, Finset.mem_range] at hPlace
    obtain ⟨⟨hColumn, hRow⟩, hParity⟩ := hPlace
    obtain ⟨posIndex, hIndex, hX, hZ⟩ := exists_thread hColumn
      (Nat.mod_lt place.2 hShape.rows_pos) fun hSparse => by
        rw [Nat.mod_mod_of_dvd _ (Nat.dvd_of_mod_eq_zero (hShape.even hSparse))]
        exact hParity hSparse
    refine ⟨posIndex, hIndex, place.2 / T.rowsPerPass, ?_, ?_⟩
    · rw [Nat.div_lt_iff_lt_mul hShape.rows_pos, hShape.loops_mul]
      exact hRow
    · rw [gridIndex, hX, hZ, Nat.mod_add_div']

end Grid

section Hits

variable {large : Bool} (T : Template large)

/-- The points of an input which are below the threshold. -/
def hits (below : ℤ × ℤ → Bool) (input : SeedPos) : List (ℤ × ℤ) := (points T input).filter below

theorem sum_hits {M : Type} [AddCommMonoid M] (below : ℤ × ℤ → Bool) (input : SeedPos)
    (term : ℤ × ℤ → M) :
    ((hits T below input).map term).sum =
      ∑ p ∈ Finset.range T.threadsPerInput, ∑ i ∈ Finset.range T.loops,
        if below (samplePos T input p i) then term (samplePos T input p i) else 0 := by
  rw [hits, points, List.filter_flatMap, List.map_flatMap, List.flatMap, List.sum_flatten,
    List.map_map]
  change ∑ p ∈ Finset.range T.threadsPerInput, _ = _
  apply Finset.sum_congr rfl
  intro p _
  simp only [Function.comp_apply, List.filter_map, List.map_map]
  exact sum_map_filter_range ..

theorem length_hits (below : ℤ × ℤ → Bool) (input : SeedPos) :
    (hits T below input).length =
      ∑ p ∈ Finset.range T.threadsPerInput, ∑ i ∈ Finset.range T.loops,
        if below (samplePos T input p i) then 1 else 0 := by
  rw [← sum_hits (M := ℕ) T below input fun _ => 1]
  simp

/-- They are the places of the sampled grid which are below the threshold. -/
theorem length_hits_eq_card (below : ℤ × ℤ → Bool) (input : SeedPos) :
    (hits T below input).length =
      ((sampledGrid T).filter fun place => below (gridPos T input place)).card := by
  have hFinset : ((gridIndices T).filter fun place => below (gridPos T input place)).toFinset =
      (sampledGrid T).filter fun place => below (gridPos T input place) := by
    ext place
    simp [mem_gridIndices]
  rw [hits, points_eq, List.filter_map, List.length_map, ← hFinset,
    List.toFinset_card_of_nodup (gridIndices_nodup.filter _)]
  rfl

/-- The outcome of an input for any noise. -/
def outcomeOf (below : ℤ × ℤ → Bool) (input : SeedPos) : Option SeedPos :=
  let hits := hits T below input
  let totalValid := hits.length
  let sumDx := (hits.map fun pos => pos.1 - input.x).sum
  let sumDz := (hits.map fun pos => pos.2 - input.z).sum
  let moved : ℤ × ℤ :=
    if T.moveCenter then (if totalValid ≠ 0 then (sumDx.tdiv totalValid, sumDz.tdiv totalValid)
      else (sumDx, sumDz))
    else (0, 0)
  if T.minCount ≤ totalValid then
    some ⟨input.seedIndex, input.x + moved.1, input.z + moved.2⟩
  else none

theorem outcome_eq_outcomeOf {F : Type} [Arith F] (result : Result F) (input : SeedPos) :
    outcome T result input = outcomeOf T (KernelFilter2.valid T result) input := rfl

end Hits

/-- What the threads of a block have in common in one pass of its loop: `below` tells
whether the noise of an input is below the threshold at a point, and `base` is
`block_input_base`. Coordinates and their sums are taken to fit 32 bits. -/
structure Pass (large : Bool) where
  T : Template large
  reduceSync : Bool
  below : SeedPos → ℤ × ℤ → Bool
  inputs : ℕ → SeedPos
  inputsLen : ℕ
  base : ℕ

namespace Pass

variable {large : Bool} (P : Pass large)

def blockInputIndex (t : ℕ) : ℕ := t / P.T.threadsPerInput

def posIndex (t : ℕ) : ℕ := t % P.T.threadsPerInput

def inputIndex (t : ℕ) : ℕ := P.base + P.blockInputIndex t

def isValidInput (t : ℕ) : Bool := P.inputIndex t < P.inputsLen

def input (t : ℕ) : SeedPos := P.inputs (P.inputIndex t)

/-- The point of thread `t` in pass `i` of its own loop. -/
def pos (t i : ℕ) : ℤ × ℤ := samplePos P.T (P.input t) (P.posIndex t) i

def valid (t i : ℕ) : Bool := P.below (P.input t) (P.pos t i)

/-- `warp_reduce_add` of a variable of the threads. -/
def warpReduce {M : Type} [AddCommMonoid M] (val : ℕ → M) (t : ℕ) : M :=
  warpReduceAdd P.reduceSync (fun lane => val (t / 32 * 32 + lane)) (t % 32)

/-- `total_valid` after the loop of a thread. -/
def loopValid (t : ℕ) : ℕ :=
  if P.isValidInput t then
    (List.range P.T.loops).foldl
      (fun totalValid i => totalValid + P.warpReduce (fun u => if P.valid u i then 1 else 0) t) 0
  else 0

/-- The sum of the offsets of a thread's valid points along one axis. -/
def loopSum (offset : ℕ → ℕ → ℤ) (t : ℕ) : ℤ :=
  if P.isValidInput t then
    (List.range P.T.loops).foldl
      (fun sum i =>
        if P.T.moveCenter then
          if P.valid t i then sum + offset t i else sum
        else sum) 0
  else 0

def dx (t i : ℕ) : ℤ := (P.pos t i).1 - (P.input t).x

def dz (t i : ℕ) : ℤ := (P.pos t i).2 - (P.input t).z

/-- The threads which add to the shared arrays. -/
def leaders : List ℕ :=
  (List.range threadsPerBlock).filter fun t => P.isValidInput t && t % 32 == 0

/-- The orders of the atomic additions to `shared_counts` and to the two columns of
`shared_sums`. -/
structure Orders where
  counts : List ℕ
  sumDx : List ℕ
  sumDz : List ℕ
  counts_perm : counts.Perm P.leaders
  sumDx_perm : sumDx.Perm P.leaders
  sumDz_perm : sumDz.Perm P.leaders

instance : Inhabited P.Orders := ⟨⟨P.leaders, P.leaders, P.leaders, .refl _, .refl _, .refl _⟩⟩

/-- The sum of a variable over the leaders of the input, or the variable itself where
one warp is enough. -/
def shareSum {M : Type} [AddCommMonoid M] (order : List ℕ) (val : ℕ → M) (t : ℕ) : M :=
  if 32 < P.T.samples then
    if P.isValidInput t then
      atomicAdds P.blockInputIndex val order (fun _ => 0) (P.blockInputIndex t)
    else val t
  else val t

def totalValid (orders : P.Orders) (t : ℕ) : ℕ := P.shareSum orders.counts P.loopValid t

/-- `sum_dx` or `sum_dz` at the end of the pass. -/
def centre (orders : P.Orders) (order : List ℕ) (offset : ℕ → ℕ → ℤ) (t : ℕ) : ℤ :=
  if P.T.moveCenter then
    let reduced (u : ℕ) : ℤ :=
      if P.isValidInput u then P.warpReduce (P.loopSum offset) u else P.loopSum offset u
    let sum := P.shareSum order reduced t
    if P.isValidInput t && P.totalValid orders t != 0 then sum.tdiv (P.totalValid orders t) else sum
  else P.loopSum offset t

/-- The record which a thread writes. -/
def emitted (orders : P.Orders) (t : ℕ) : Option SeedPos :=
  if P.isValidInput t && P.T.minCount ≤ P.totalValid orders t then
    if P.posIndex t = 0 then
      some ⟨(P.input t).seedIndex, (P.input t).x + P.centre orders orders.sumDx P.dx t,
        (P.input t).z + P.centre orders orders.sumDz P.dz t⟩
    else none
  else none

section Sums

variable {P} {b p : ℕ}

theorem isValidInput_place (hPlace : p < P.T.threadsPerInput) :
    P.isValidInput (b * P.T.threadsPerInput + p) = decide (P.base + b < P.inputsLen) := by
  rw [isValidInput, inputIndex, blockInputIndex, (div_mod_place b hPlace).1]

theorem isValidInput_first (hValid : P.base + b < P.inputsLen) :
    P.isValidInput (b * P.T.threadsPerInput) = true := by
  have hPlace := isValidInput_place (P := P) (b := b) P.T.threadsPerInput_pos
  rw [add_zero] at hPlace
  rw [hPlace]
  exact decide_eq_true hValid

theorem input_place (hPlace : p < P.T.threadsPerInput) :
    P.input (b * P.T.threadsPerInput + p) = P.inputs (P.base + b) := by
  rw [input, inputIndex, blockInputIndex, (div_mod_place b hPlace).1]

theorem pos_place (hPlace : p < P.T.threadsPerInput) (i : ℕ) :
    P.pos (b * P.T.threadsPerInput + p) i = samplePos P.T (P.inputs (P.base + b)) p i := by
  rw [pos, input_place hPlace, posIndex, (div_mod_place b hPlace).2]

/-- The lanes of a warp work on one input, so its branches do not diverge. -/
theorem blockInputIndex_lane {t lane : ℕ} (hLane : lane < 32) :
    P.blockInputIndex (t / 32 * 32 + lane) = P.blockInputIndex t := by
  have hWarps := P.T.shape.warps
  have hDvd : 32 ∣ P.T.threadsPerInput := ⟨P.T.threadsPerInput / 32, by omega⟩
  obtain ⟨warps, hThreads⟩ := hDvd
  simp only [blockInputIndex, hThreads, ← Nat.div_div_eq_div_mul]
  congr 1
  omega

theorem warpReduce_leader {M : Type} [AddCommMonoid M] (val : ℕ → M) {t : ℕ} (hLeader : t % 32 = 0) :
    P.warpReduce val t = ∑ lane ∈ Finset.range 32, val (t + lane) := by
  rw [warpReduce, hLeader, warpReduceAdd_zero, Nat.div_mul_cancel (Nat.dvd_of_mod_eq_zero hLeader)]

/-- A sum over the leaders of an input, warp by warp. -/
theorem sum_leaders {M : Type} [AddCommMonoid M] (val amount : ℕ → M)
    (hAmount : ∀ t, t % 32 = 0 → P.isValidInput t = true →
      amount t = ∑ lane ∈ Finset.range 32, val (t + lane))
    (hValid : P.base + b < P.inputsLen) :
    (∑ p ∈ Finset.range P.T.threadsPerInput,
        if p % 32 = 0 then amount (b * P.T.threadsPerInput + p) else 0) =
      ∑ p ∈ Finset.range P.T.threadsPerInput, val (b * P.T.threadsPerInput + p) := by
  have hWarps := P.T.shape.warps
  have hPlace (warp : ℕ) (hWarp : warp ∈ Finset.range (P.T.threadsPerInput / 32)) :
      warp * 32 < P.T.threadsPerInput := by
    rw [Finset.mem_range] at hWarp
    omega
  have hAligned : b * P.T.threadsPerInput % 32 = 0 := by
    rw [← hWarps, ← mul_assoc]
    exact Nat.mul_mod_left ..
  rw [← hWarps, sum_range_mul, sum_range_mul, hWarps]
  apply Finset.sum_congr rfl
  intro warp hWarp
  rw [Finset.sum_eq_single 0]
  · have hLeader := hAmount (b * P.T.threadsPerInput + warp * 32) (by omega) (by
      rw [isValidInput_place (hPlace warp hWarp)]
      exact decide_eq_true hValid)
    rw [if_pos (by omega), add_zero, hLeader]
    simp only [add_assoc]
  · intro lane hLane hNonzero
    rw [Finset.mem_range] at hLane
    exact if_neg (by omega)
  · intro hNone
    exact absurd (Finset.mem_range.mpr (by decide)) hNone

/-- The leaders of an input add up what the lanes of its warps have. -/
theorem atomicAdds_input {M : Type} [AddCommMonoid M] (val amount : ℕ → M) {order : List ℕ}
    (hOrder : order.Perm P.leaders)
    (hAmount : ∀ t, t % 32 = 0 → P.isValidInput t = true →
      amount t = ∑ lane ∈ Finset.range 32, val (t + lane))
    (hInput : b < P.T.inputsPerBlock) (hValid : P.base + b < P.inputsLen) :
    atomicAdds P.blockInputIndex amount order (fun _ => 0) b =
      ∑ p ∈ Finset.range P.T.threadsPerInput, val (b * P.T.threadsPerInput + p) := by
  have hAligned : b * P.T.threadsPerInput % 32 = 0 := by
    rw [← P.T.shape.warps, ← mul_assoc]
    exact Nat.mul_mod_left ..
  rw [atomicAdds_perm _ _ hOrder, atomicAdds_apply, zero_add, leaders, List.filter_filter,
    sum_map_filter_range, ← P.T.shape.block, sum_range_mul, Finset.sum_eq_single b]
  · rw [← sum_leaders val amount hAmount hValid]
    apply Finset.sum_congr rfl
    intro p hMem
    have hPlace := Finset.mem_range.mp hMem
    simp only [isValidInput_place hPlace, blockInputIndex, (div_mod_place b hPlace).1, hValid,
      decide_true, Bool.true_and, beq_iff_eq]
    congr 1
    rw [eq_iff_iff]
    omega
  · intro other _ hOther
    apply Finset.sum_eq_zero
    intro p hMem
    have hPlace := Finset.mem_range.mp hMem
    simp [blockInputIndex, (div_mod_place other hPlace).1, hOther]
  · intro hNone
    exact absurd (Finset.mem_range.mpr hInput) hNone

/-- What the first thread of an input gets. -/
theorem shareSum_first {M : Type} [AddCommMonoid M] (val amount : ℕ → M) {order : List ℕ}
    (hOrder : order.Perm P.leaders)
    (hAmount : ∀ t, t % 32 = 0 → P.isValidInput t = true →
      amount t = ∑ lane ∈ Finset.range 32, val (t + lane))
    (hInput : b < P.T.inputsPerBlock) (hValid : P.base + b < P.inputsLen) :
    P.shareSum order amount (b * P.T.threadsPerInput) =
      ∑ p ∈ Finset.range P.T.threadsPerInput, val (b * P.T.threadsPerInput + p) := by
  have hPos := P.T.threadsPerInput_pos
  have hFirst := isValidInput_first hValid
  rw [shareSum]
  split
  · rw [blockInputIndex, Nat.mul_div_cancel _ hPos]
    exact atomicAdds_input val amount hOrder hAmount hInput hValid
  · next hSingle =>
      have hThreads := P.T.shape.single (not_lt.mp hSingle)
      rw [hAmount _ (by rw [hThreads]; omega) hFirst, hThreads]

theorem loopValid_leader {t : ℕ} (hLeader : t % 32 = 0) (hValid : P.isValidInput t = true) :
    P.loopValid t = ∑ lane ∈ Finset.range 32, ∑ i ∈ Finset.range P.T.loops,
      if P.valid (t + lane) i then 1 else 0 := by
  rw [loopValid, if_pos hValid, foldl_range_add, zero_add, Finset.sum_comm]
  apply Finset.sum_congr rfl
  intro i _
  rw [warpReduce_leader _ hLeader]

theorem loopSum_eq (hMoves : P.T.moveCenter = true) (offset : ℕ → ℕ → ℤ) {t : ℕ}
    (hValid : P.isValidInput t = true) :
    P.loopSum offset t =
      ∑ i ∈ Finset.range P.T.loops, if P.valid t i then offset t i else 0 := by
  have hTerm : (fun (sum : ℤ) (i : ℕ) => if P.valid t i then sum + offset t i else sum) =
      fun sum i => sum + if P.valid t i then offset t i else 0 := by
    funext sum i
    split <;> simp
  simp only [loopSum, hValid, hMoves, if_true]
  rw [hTerm, foldl_range_add, zero_add]

variable (orders : P.Orders)

theorem valid_place (hPlace : p < P.T.threadsPerInput) (i : ℕ) :
    P.valid (b * P.T.threadsPerInput + p) i =
      P.below (P.inputs (P.base + b)) (samplePos P.T (P.inputs (P.base + b)) p i) := by
  rw [Pass.valid, input_place hPlace, pos_place hPlace]

/-- The first thread of an input gets the number of its hits. -/
theorem totalValid_first (hInput : b < P.T.inputsPerBlock) (hValid : P.base + b < P.inputsLen) :
    P.totalValid orders (b * P.T.threadsPerInput) =
      (hits P.T (P.below (P.inputs (P.base + b))) (P.inputs (P.base + b))).length := by
  rw [totalValid, shareSum_first
    (fun u => ∑ i ∈ Finset.range P.T.loops, if P.valid u i then 1 else 0) P.loopValid
    orders.counts_perm (fun t hLeader hValid => loopValid_leader hLeader hValid) hInput hValid,
    length_hits]
  refine Finset.sum_congr rfl fun p hMem => Finset.sum_congr rfl fun i _ => ?_
  rw [valid_place (Finset.mem_range.mp hMem)]

/-- And the sums of their offsets, divided by their number if there are any. -/
theorem centre_first (hMoves : P.T.moveCenter = true) {order : List ℕ}
    (hOrder : order.Perm P.leaders) (offset : ℕ → ℕ → ℤ) (term : ℤ × ℤ → ℤ)
    (hOffset : ∀ p < P.T.threadsPerInput, ∀ i, offset (b * P.T.threadsPerInput + p) i =
      term (samplePos P.T (P.inputs (P.base + b)) p i))
    (hInput : b < P.T.inputsPerBlock) (hValid : P.base + b < P.inputsLen) :
    let hits := hits P.T (P.below (P.inputs (P.base + b))) (P.inputs (P.base + b))
    P.centre orders order offset (b * P.T.threadsPerInput) =
      if hits.length ≠ 0 then (hits.map term).sum.tdiv hits.length else (hits.map term).sum := by
  intro hits
  have hFirst := isValidInput_first hValid
  have hSum := shareSum_first (P.loopSum offset)
    (fun u => if P.isValidInput u then P.warpReduce (P.loopSum offset) u else P.loopSum offset u)
    hOrder (fun t hLeader hValid => by
        rw [if_pos hValid, warpReduce_leader _ hLeader]) hInput hValid
  have hHits : ∑ p ∈ Finset.range P.T.threadsPerInput, P.loopSum offset (b * P.T.threadsPerInput + p) =
      (hits.map term).sum := by
    rw [sum_hits]
    apply Finset.sum_congr rfl
    intro p hMem
    have hPlace := Finset.mem_range.mp hMem
    rw [loopSum_eq hMoves offset (by rw [isValidInput_place hPlace]; exact decide_eq_true hValid)]
    apply Finset.sum_congr rfl
    intro i _
    rw [valid_place hPlace, hOffset p hPlace]
  rw [centre, if_pos hMoves]
  simp only [hSum, hHits, hFirst, Bool.true_and, totalValid_first orders hInput hValid, bne_iff_ne]
  rfl

theorem loopSum_of_not_moveCenter (hKeeps : P.T.moveCenter = false) (offset : ℕ → ℕ → ℤ) (t : ℕ) :
    P.loopSum offset t = 0 := by
  have hConst : ∀ n, (List.range n).foldl (fun (sum : ℤ) _ => sum) 0 = 0 := by
    intro n
    induction n with
    | zero => rfl
    | succ n ih => rw [List.range_succ, List.foldl_append, ih]; rfl
  simp only [loopSum, hKeeps, Bool.false_eq_true, if_false, hConst, ite_self]

/-- The first thread of an input emits the outcome of the input. -/
theorem emitted_first (hInput : b < P.T.inputsPerBlock) (hValid : P.base + b < P.inputsLen) :
    P.emitted orders (b * P.T.threadsPerInput) =
      outcomeOf P.T (P.below (P.inputs (P.base + b))) (P.inputs (P.base + b)) := by
  have hRecord : P.input (b * P.T.threadsPerInput) = P.inputs (P.base + b) := by
    have hPlace := input_place (P := P) (b := b) P.T.threadsPerInput_pos
    rwa [add_zero] at hPlace
  have hIndex : P.posIndex (b * P.T.threadsPerInput) = 0 := Nat.mul_mod_left ..
  simp only [emitted, isValidInput_first hValid, Bool.true_and, decide_eq_true_eq, hIndex, if_true,
    hRecord, totalValid_first orders hInput hValid, outcomeOf]
  cases hMoves : P.T.moveCenter with
  | false =>
      have hStays (order : List ℕ) (offset : ℕ → ℕ → ℤ) :
          P.centre orders order offset (b * P.T.threadsPerInput) = 0 := by
        rw [centre, hMoves]
        exact loopSum_of_not_moveCenter hMoves offset _
      simp only [hStays, Bool.false_eq_true, if_false]
  | true =>
      have hDx := centre_first orders hMoves orders.sumDx_perm P.dx
        (fun pos => pos.1 - (P.inputs (P.base + b)).x) (fun p hPlace i => by
          rw [dx, input_place hPlace, pos_place hPlace]) hInput hValid
      have hDz := centre_first orders hMoves orders.sumDz_perm P.dz
        (fun pos => pos.2 - (P.inputs (P.base + b)).z) (fun p hPlace i => by
          rw [dz, input_place hPlace, pos_place hPlace]) hInput hValid
      simp only [hDx, hDz, if_true]
      split
      · split <;> rfl
      · rfl

/-- No other thread of the input emits anything. -/
theorem emitted_of_pos {p : ℕ} (hPlace : p < P.T.threadsPerInput) (hPos : 0 < p) :
    P.emitted orders (b * P.T.threadsPerInput + p) = none := by
  have hIndex : P.posIndex (b * P.T.threadsPerInput + p) = p := (div_mod_place b hPlace).2
  rw [emitted, hIndex, if_neg (by omega : ¬ p = 0), ite_self]

end Sums

/-- The points at which the threads of an input evaluate the noise. -/
def evaluated (b : ℕ) : List (ℤ × ℤ) :=
  (List.range P.T.threadsPerInput).flatMap fun p =>
    (List.range P.T.loops).map (P.pos (b * P.T.threadsPerInput + p))

/-- The records which the threads of an input write. -/
def records (orders : P.Orders) (b : ℕ) : List SeedPos :=
  (List.range P.T.threadsPerInput).filterMap fun p =>
    P.emitted orders (b * P.T.threadsPerInput + p)

theorem evaluated_eq (b : ℕ) :
    P.evaluated b = (gridIndices P.T).map (gridPos P.T (P.inputs (P.base + b))) := by
  rw [← points_eq, evaluated, points]
  refine List.flatMap_congr fun p hMem => List.map_congr_left fun i _ => ?_
  exact pos_place (List.mem_range.mp hMem) i

theorem records_eq (orders : P.Orders) {b : ℕ} (hInput : b < P.T.inputsPerBlock)
    (hValid : P.base + b < P.inputsLen) : P.records orders b =
      (outcomeOf P.T (P.below (P.inputs (P.base + b))) (P.inputs (P.base + b))).toList := by
  have hPos := P.T.threadsPerInput_pos
  obtain ⟨rest, hThreads⟩ : ∃ rest, P.T.threadsPerInput = rest + 1 := ⟨_, (Nat.sub_add_cancel hPos).symm⟩
  have hFirst := emitted_first orders hInput hValid
  have hNone : ∀ p ∈ (List.range rest).map Nat.succ,
      P.emitted orders (b * P.T.threadsPerInput + p) = none := by
    intro p hMem
    obtain ⟨q, hq, rfl⟩ := List.mem_map.mp hMem
    exact emitted_of_pos orders (by rw [hThreads]; exact Nat.succ_lt_succ (List.mem_range.mp hq))
      (Nat.succ_pos q)
  have hRange : List.range P.T.threadsPerInput = 0 :: (List.range rest).map Nat.succ := by
    rw [hThreads, List.range_succ_eq_map]
  rw [records, hRange, List.filterMap_cons, add_zero, hFirst, List.filterMap_eq_nil_iff.mpr hNone]
  cases outcomeOf P.T (P.below (P.inputs (P.base + b))) (P.inputs (P.base + b)) <;> rfl

/-- Where the noise is the one of the seed, this is the test of `kernel`. -/
theorem records_eq_outcome {F : Type} [Arith F] (orders : P.Orders) (results : ℕ → Result F)
    (hBelow : ∀ input, P.below input = KernelFilter2.valid P.T (results input.seedIndex)) {b : ℕ}
    (hInput : b < P.T.inputsPerBlock) (hValid : P.base + b < P.inputsLen) :
    P.records orders b = (outcome P.T (results (P.inputs (P.base + b)).seedIndex)
      (P.inputs (P.base + b))).toList := by
  rw [P.records_eq orders hInput hValid, outcome_eq_outcomeOf, hBelow]

theorem records_invalid (orders : P.Orders) {b : ℕ} (hInvalid : P.inputsLen ≤ P.base + b) :
    P.records orders b = [] := by
  rw [records, List.filterMap_eq_nil_iff]
  intro p hMem
  have hNone : P.isValidInput (b * P.T.threadsPerInput + p) = false := by
    rw [isValidInput_place (List.mem_range.mp hMem)]
    exact decide_eq_false (not_lt.mpr hInvalid)
  simp [emitted, hNone]

end Pass


section Centre

/-- A mean, rounded toward zero, lies in every range of the values which contains zero. -/
theorem tdiv_length_mem (values : List ℤ) {low high : ℤ} (hLow : low ≤ 0) (hHigh : 0 ≤ high)
    (hValues : ∀ value ∈ values, low ≤ value ∧ value ≤ high) (hSome : values ≠ []) :
    low ≤ values.sum.tdiv values.length ∧ values.sum.tdiv values.length ≤ high := by
  have hPos : (0 : ℤ) < values.length := by exact_mod_cast List.length_pos_of_ne_nil hSome
  have hLowSum := List.card_nsmul_le_sum values low fun value hMem => (hValues value hMem).1
  have hHighSum := List.sum_le_card_nsmul values high fun value hMem => (hValues value hMem).2
  rw [nsmul_eq_mul] at hLowSum hHighSum
  rcases le_total 0 values.sum with hSum | hSum
  · rw [Int.tdiv_eq_ediv_of_nonneg hSum]
    refine ⟨hLow.trans (Int.ediv_nonneg hSum hPos.le), Int.ediv_le_of_le_mul hPos ?_⟩
    rw [mul_comm]
    exact hHighSum
  · have hNeg : values.sum.tdiv values.length = -((-values.sum) / values.length) := by
      rw [← Int.tdiv_eq_ediv_of_nonneg (by omega), Int.neg_tdiv, neg_neg]
    have hQuotient : -values.sum / values.length ≤ -low := by
      apply Int.ediv_le_of_le_mul hPos
      rw [mul_comm, mul_neg]
      omega
    have hNonneg := Int.ediv_nonneg (by omega : 0 ≤ -values.sum) hPos.le
    omega

variable {large : Bool} {T : Template large}

theorem posStep_nonneg : 0 ≤ T.posStep := by
  have hMul : 0 ≤ largeBiomesPosMul large := by cases large <;> decide
  exact Int.ediv_nonneg (Int.ediv_nonneg (mul_nonneg (Int.natCast_nonneg _) hMul) (by decide))
    (Int.natCast_nonneg _)

/-- The offsets of the square range from `pos_offset` to its other end. -/
def InSquare (T : Template large) (offset : ℤ) : Prop :=
  T.posOffset ≤ offset ∧ offset ≤ T.posOffset + (T.samplesSquareSize - 1) * T.posStep

theorem inSquare_zero : InSquare T 0 := by
  have hStep := posStep_nonneg (T := T)
  have hSize := T.shape.square_pos
  have hNonneg : 0 ≤ T.posStep * ((T.samplesSquareSize : ℤ) - 1) := mul_nonneg hStep (by omega)
  rw [InSquare, mul_comm, Template.posOffset]
  omega

theorem inSquare_place {index : ℕ} (hIndex : index < T.samplesSquareSize) (origin : ℤ) :
    InSquare T (origin + index * T.posStep + T.posOffset - origin) := by
  have hStep := posStep_nonneg (T := T)
  have hLow : 0 ≤ (index : ℤ) * T.posStep := mul_nonneg (Int.natCast_nonneg _) hStep
  have hHigh : (index : ℤ) * T.posStep ≤ (T.samplesSquareSize - 1) * T.posStep :=
    mul_le_mul_of_nonneg_right (by omega) hStep
  rw [InSquare]
  omega

theorem inSquare_of_mem_points {input : SeedPos} {pos : ℤ × ℤ} (hPos : pos ∈ points T input) :
    InSquare T (pos.1 - input.x) ∧ InSquare T (pos.2 - input.z) := by
  rw [points_eq] at hPos
  obtain ⟨place, hPlace, rfl⟩ := List.mem_map.mp hPos
  rw [mem_gridIndices] at hPlace
  simp only [sampledGrid, Finset.mem_filter, Finset.mem_product, Finset.mem_range] at hPlace
  exact ⟨inSquare_place hPlace.1.1 _, inSquare_place hPlace.1.2 _⟩

/-- The centre of the hits lies in the sampled square. -/
theorem inSquare_tdiv {below : ℤ × ℤ → Bool} {input : SeedPos} (hSome : hits T below input ≠ [])
    {term : ℤ × ℤ → ℤ} (hTerm : ∀ pos ∈ points T input, InSquare T (term pos)) :
    InSquare T (((hits T below input).map term).sum.tdiv (hits T below input).length) := by
  have hZero := inSquare_zero (T := T)
  have hMean := tdiv_length_mem ((hits T below input).map term) hZero.1 hZero.2 (by
    intro value hMem
    obtain ⟨pos, hPos, rfl⟩ := List.mem_map.mp hMem
    exact hTerm pos (List.mem_of_mem_filter hPos)) (by simpa using hSome)
  rwa [List.length_map] at hMean

end Centre

/-- What one block does with the inputs of one pass, for every noise, both reductions and
any order of the additions. The threads of an input evaluate the noise once at each
place of the sampled grid. An input is emitted exactly if at least `min_count` of these
are below the threshold; it moves to the centre of those, which lies in the square, or
stays where it is. A thread without an input emits nothing. -/
theorem block_correct {large : Bool} (P : Pass large) (orders : P.Orders) :
    ((gridIndices P.T).Nodup ∧ (gridIndices P.T).length = P.T.samples ∧
      ∀ place, place ∈ gridIndices P.T ↔ place ∈ sampledGrid P.T) ∧
    ∀ b < P.T.inputsPerBlock,
      let input := P.inputs (P.base + b)
      let hits := (P.evaluated b).filter (P.below input)
      let dx : ℤ := if P.T.moveCenter ∧ hits.length ≠ 0
        then (hits.map fun pos => pos.1 - input.x).sum.tdiv hits.length else 0
      let dz : ℤ := if P.T.moveCenter ∧ hits.length ≠ 0
        then (hits.map fun pos => pos.2 - input.z).sum.tdiv hits.length else 0
      P.evaluated b = (gridIndices P.T).map (gridPos P.T input) ∧
      P.records orders b = (if P.base + b < P.inputsLen ∧ P.T.minCount ≤ hits.length
        then [⟨input.seedIndex, input.x + dx, input.z + dz⟩] else []) ∧
      InSquare P.T dx ∧ InSquare P.T dz := by
  refine ⟨⟨gridIndices_nodup, gridIndices_length, fun _ => mem_gridIndices⟩, fun b hInput => ?_⟩
  intro input hits' dx dz
  have hEvaluated := P.evaluated_eq b
  have hHits : hits' = hits P.T (P.below input) input := by
    rw [hits, points_eq, ← hEvaluated]
  refine ⟨hEvaluated, ?_, ?_, ?_⟩
  · by_cases hValid : P.base + b < P.inputsLen
    · have hMoved : outcomeOf P.T (P.below input) input = if P.T.minCount ≤ hits'.length
          then some ⟨input.seedIndex, input.x + dx, input.z + dz⟩ else none := by
        simp only [outcomeOf, ← hHits, dx, dz]
        cases P.T.moveCenter with
        | false => simp
        | true =>
            by_cases hNone : hits'.length = 0
            · simp [List.length_eq_zero_iff.mp hNone]
            · simp [hNone]
      rw [P.records_eq orders hInput hValid, hMoved]
      by_cases hEnough : P.T.minCount ≤ hits'.length
      · rw [if_pos hEnough, if_pos ⟨hValid, hEnough⟩]
        rfl
      · rw [if_neg hEnough, if_neg (fun hBoth => hEnough hBoth.2)]
        rfl
    · rw [P.records_invalid orders (not_lt.mp hValid), if_neg (fun hBoth => hValid hBoth.1)]
  · simp only [dx]
    split
    · next hMoves =>
        rw [hHits] at hMoves ⊢
        exact inSquare_tdiv (List.ne_nil_of_length_pos (Nat.pos_of_ne_zero hMoves.2))
          fun pos hPos => (inSquare_of_mem_points hPos).1
    · exact inSquare_zero
  · simp only [dz]
    split
    · next hMoves =>
        rw [hHits] at hMoves ⊢
        exact inSquare_tdiv (List.ne_nil_of_length_pos (Nat.pos_of_ne_zero hMoves.2))
          fun pos hPos => (inSquare_of_mem_points hPos).2
    · exact inSquare_zero

end KernelFilter2

end Commission
