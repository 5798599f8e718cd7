import Commission.Gpu.FilterKernels

/-! The filter kernels with separate buffers as parallel list filters. -/
namespace Commission

open AtomicAppend Reduction StrideLoop ThreadPool

variable {F ρ : Type}

/-- The accepted work items of a launch with the records they give, judged by the
memory at the launch. -/
def accepted (K : Kernel (Device F) ρ (ℕ × ℕ) (Cell SeedPos)) (items : List (ℕ × ℕ)) (n : ℕ)
    (d : Device F) : List ((ℕ × (ℕ × ℕ)) × Cell SeedPos) :=
  (List.range n ×ˢ items).filterMap (K.accept d)

/-- What a launch for `n` inputs has done once all threads have ended. The
counter is a 32-bit number, so it is the number of accepted items modulo
`2^32`. -/
structure FilterResult (K : Kernel (Device F) ρ (ℕ × ℕ) (Cell SeedPos)) (items : List (ℕ × ℕ))
    (n : ℕ) (d : Device F)
    (pool : Pool (Device F) (Cursor ρ (ℕ × ℕ) (Cell SeedPos)) (Obs (ℕ × ℕ) (Cell SeedPos))) :
    Prop where
  testedOnce : (tested pool.log).Perm (List.range n ×ˢ items)
  counter : K.output.len pool.mem = (accepted K items n d).length % 2 ^ 32
  complete : (accepted K items n d).length ≤ K.output.maxLen →
    ((List.range (K.output.len pool.mem)).map (K.output.data pool.mem)).Perm
      ((accepted K items n d).map Prod.snd)
  overflow : K.output.maxLen < (accepted K items n d).length →
    ∃ source : ℕ → ℕ × (ℕ × ℕ),
      (∀ slot < K.output.maxLen,
        (source slot, K.output.data pool.mem slot) ∈ accepted K items n d) ∧
      Set.InjOn source (Set.Iio K.output.maxLen)

/-- Every run of the launch to its end has this result. -/
def Filters (K : Kernel (Device F) ρ (ℕ × ℕ) (Cell SeedPos)) (items : List (ℕ × ℕ)) (n : ℕ)
    (d : Device F) : Prop :=
  ∀ schedule pool, (K.program n).run ((K.program n).start d) schedule = some pool →
    (K.program n).Finished pool → FilterResult K items n d pool

theorem map_fst_filterMap_accept (K : Kernel (Device F) ρ (ℕ × ℕ) (Cell SeedPos)) (d : Device F)
    (work : List (ℕ × (ℕ × ℕ))) :
    (work.filterMap (K.accept d)).map Prod.fst =
      work.filter fun pair => (K.accept d pair).isSome := by
  induction work with
  | nil => rfl
  | cons pair rest ih =>
      cases hTest : K.test d (K.fetch d pair.1) pair.2 with
      | none => simp [Kernel.accept, hTest, ih]
      | some out => simp [Kernel.accept, hTest, ih]

/-- At least `count` accepted items for each of `n` inputs. -/
theorem le_length_accepted (K : Kernel (Device F) ρ (ℕ × ℕ) (Cell SeedPos))
    (items : List (ℕ × ℕ)) (n : ℕ) (d : Device F) {count : ℕ}
    (hCount : ∀ k, count ≤ ((items.map fun item => (k, item)).filterMap (K.accept d)).length) :
    n * count ≤ (accepted K items n d).length := by
  have hSum : (accepted K items n d).length = ((List.range n).map fun k =>
      ((items.map fun item => (k, item)).filterMap (K.accept d)).length).sum := by
    rw [accepted]
    change (List.filterMap _ (List.flatMap _ _)).length = _
    rw [List.filterMap_flatMap, List.length_flatMap]
  have hTotal := List.card_nsmul_le_sum ((List.range n).map fun k =>
    ((items.map fun item => (k, item)).filterMap (K.accept d)).length) count (by
      intro length hLength
      obtain ⟨k, -, rfl⟩ := List.mem_map.mp hLength
      exact hCount k)
  rwa [List.length_map, List.length_range, nsmul_eq_mul, Nat.cast_id, ← hSum] at hTotal

/-- The general form: the threads share out the work, nothing wraps around, and
the buffers are separate. -/
theorem filters_of_separate {K : Kernel (Device F) ρ (ℕ × ℕ) (Cell SeedPos)}
    {items : List (ℕ × ℕ)} {n : ℕ} {d : Device F} (hFits : K.Fits n) (hSeparate : K.Separate)
    (hTotal : K.total n = Multiset.range n ×ˢ (items : Multiset (ℕ × ℕ))) (hItems : items.Nodup)
    (hMax : K.output.maxLen < 2 ^ 32) (hLen : K.output.len d = 0) : Filters K items n d := by
  intro schedule pool hRun hFinished
  have hSlots := run_slotInv hMax.le hLen hRun
  have hWork := run_workInv hFits hSeparate.toStable (along_readsOriginal hSeparate) hRun
  have hTotal : K.total n = ((List.range n ×ˢ items : List _) : Multiset (ℕ × (ℕ × ℕ))) := by
    rw [hTotal, ← Multiset.coe_product]
    rfl
  have hReserved : (reserved pool.log).Perm (accepted K items n d) := by
    have hEq := hWork.reserved_eq hFinished
    rw [hTotal, Multiset.filterMap_coe] at hEq
    exact Multiset.coe_eq_coe.mp hEq
  have hNodup : ((reserved pool.log).map Prod.fst).Nodup := by
    rw [(hReserved.map Prod.fst).nodup_iff, accepted, map_fst_filterMap_accept]
    exact (List.nodup_range.product hItems).filter _
  constructor
  · have hEq := hWork.tested_eq hFinished
    rw [hTotal] at hEq
    exact Multiset.coe_eq_coe.mp hEq
  · rw [hSlots.len, hReserved.length_eq]
  · intro hFew
    rw [← hReserved.length_eq] at hFew
    rw [hSlots.data_prefix hMax hFinished hFew]
    exact hReserved.map Prod.snd
  · intro hMany
    rw [← hReserved.length_eq] at hMany
    obtain ⟨source, hSource, hInjective⟩ := hSlots.data_distinct hFinished hNodup hMany
    exact ⟨source, fun slot hSlot => hReserved.mem_iff.mp (hSource slot hSlot), hInjective⟩

theorem positions_store_of_ne {inputs outputs : OutputBuffer} (hDistinct : inputs.data ≠ outputs.data)
    (d : Device F) (slot : ℕ) (out : Cell SeedPos) :
    (outputs.positions.store d slot out).positions inputs.data = d.positions inputs.data := by
  simp [OutputBuffer.positions, Function.update_of_ne hDistinct]

section Kernels

variable [Arith F]

namespace KernelFilterGradVecs1

/-- All windows `(nx, nz)` of a seed. -/
def windows : List (ℕ × ℕ) := List.range 256 ×ˢ List.range 256

theorem separate (large : Bool) (outputs : OutputBuffer) :
    (kernel (F := F) large outputs).Separate where
  test_setLen _ _ := rfl
  test_store _ _ _ := rfl
  fetch_setLen _ _ := rfl
  fetch_store _ _ _ := rfl

theorem fits (large : Bool) (outputs : OutputBuffer) {n : ℕ} (hLength : n < 2 ^ 31) :
    (kernel (F := F) large outputs).Fits n where
  bound := by
    simp only [kernel, gridDim]
    omega
  lane _ _ := by
    simp only [kernel, gridDim]
    omega

/-- The rows of the 256 threads make up the windows. -/
theorem sum_rows :
    ∑ nz ∈ Finset.range blockDim, (((List.range 256).map fun nx => (nx, nz)) : Multiset (ℕ × ℕ)) =
      (windows : Multiset (ℕ × ℕ)) := by
  have hSwap := Multiset.bind_map_comm (Multiset.range 256) (Multiset.range 256)
    (f := fun nx nz : ℕ => (nx, nz))
  rw [windows, ← Multiset.coe_product]
  exact hSwap.symm

theorem total_eq (large : Bool) (outputs : OutputBuffer) (n : ℕ) :
    (kernel (F := F) large outputs).total n =
      Multiset.range n ×ˢ (windows : Multiset (ℕ × ℕ)) := by
  rw [total_of_shared_items gridDim blockDim (fun nz => (List.range 256).map fun nx => (nx, nz)) n
    (by decide) rfl rfl, sum_rows]
  intro block _ place hPlace
  obtain ⟨hDiv, hMod⟩ := div_mod_place block hPlace
  refine ⟨hDiv, rfl, ?_⟩
  simp only [kernel, hMod]

theorem filters (large : Bool) (outputs : OutputBuffer) {n : ℕ} {d : Device F}
    (hLength : n < 2 ^ 31) (hZero : d.lens outputs.len = 0) :
    Filters (kernel large outputs) windows n d :=
  filters_of_separate (fits large outputs hLength) (separate large outputs)
    (total_eq large outputs n) (List.nodup_range.product List.nodup_range) outputs.maxLen_lt hZero

end KernelFilterGradVecs1

namespace KernelFilterGradVecs2

/-- All tiles `(tx, tz)` of an input. -/
def tiles (large unbound : Bool) : List (ℕ × ℕ) :=
  List.range (gridWidth large unbound) ×ˢ List.range (gridWidth large unbound)

theorem separate (large unbound : Bool) {inputs outputs : OutputBuffer}
    (hDistinct : inputs.data ≠ outputs.data) :
    (kernel (F := F) large unbound inputs outputs).Separate where
  test_setLen _ _ := rfl
  test_store _ _ _ := rfl
  fetch_setLen _ _ := rfl
  fetch_store d slot out := by
    funext i
    exact congrArg (fun cells => (cells i).value) (positions_store_of_ne hDistinct d slot out)

theorem fits (large unbound : Bool) (inputs outputs : OutputBuffer) {n : ℕ}
    (hLength : n < 2 ^ 31) : (kernel (F := F) large unbound inputs outputs).Fits n where
  bound := by
    simp only [kernel, gridDim]
    omega
  lane _ _ := by
    simp only [kernel, gridDim]
    omega

/-- The 128 threads share out the tiles of a column. -/
theorem sum_columns (large unbound : Bool) :
    ∑ place ∈ Finset.range blockDim,
        (((List.range (gridWidth large unbound)).flatMap fun tx =>
          (visits (gridWidth large unbound) blockDim 0 place).map fun tz => (tx, tz) :
            List (ℕ × ℕ)) : Multiset (ℕ × ℕ)) =
      (tiles large unbound : Multiset (ℕ × ℕ)) := by
  have hColumn : ∀ place, (((List.range (gridWidth large unbound)).flatMap fun tx =>
      (visits (gridWidth large unbound) blockDim 0 place).map fun tz => (tx, tz) :
        List (ℕ × ℕ)) : Multiset (ℕ × ℕ)) =
      Multiset.range (gridWidth large unbound) ×ˢ
        (visits (gridWidth large unbound) (blockDim * 1) 0 (place * 1) : Multiset ℕ) := by
    intro place
    rw [mul_one, mul_one]
    exact (Multiset.coe_product _ _).symm
  have hAll : ((Multiset.range (gridWidth large unbound)).filter fun k => k % 1 = 0) =
      Multiset.range (gridWidth large unbound) := by
    rw [Multiset.filter_eq_self]
    intro k _
    exact Nat.mod_one k
  rw [Finset.sum_congr rfl fun place _ => hColumn place, product_sum,
    sum_visits (by decide) Nat.zero_lt_one, hAll, tiles, ← Multiset.coe_product]
  rfl

theorem total_eq (large unbound : Bool) (inputs outputs : OutputBuffer) (n : ℕ) :
    (kernel (F := F) large unbound inputs outputs).total n =
      Multiset.range n ×ˢ (tiles large unbound : Multiset (ℕ × ℕ)) := by
  rw [total_of_shared_items gridDim blockDim
    (fun place => (List.range (gridWidth large unbound)).flatMap fun tx =>
      (visits (gridWidth large unbound) blockDim 0 place).map fun tz => (tx, tz)) n
    (by decide) rfl rfl, sum_columns]
  intro block _ place hPlace
  obtain ⟨hDiv, hMod⟩ := div_mod_place block hPlace
  refine ⟨hDiv, rfl, ?_⟩
  simp only [kernel, hMod]

theorem filters (large unbound : Bool) {inputs outputs : OutputBuffer} {n : ℕ} {d : Device F}
    (hDistinct : inputs.data ≠ outputs.data) (hLength : n < 2 ^ 31)
    (hZero : d.lens outputs.len = 0) :
    Filters (kernel large unbound inputs outputs) (tiles large unbound) n d :=
  filters_of_separate (fits large unbound inputs outputs hLength)
    (separate large unbound hDistinct) (total_eq large unbound inputs outputs n)
    (List.nodup_range.product List.nodup_range) outputs.maxLen_lt hZero

end KernelFilterGradVecs2

namespace KernelFilter2Pair

variable {large : Bool} (T : KernelFilter2.Template large) (half : Half)

theorem stable (inputs outputs : OutputBuffer) :
    (kernel (F := F) T half inputs outputs).Stable where
  test_setLen _ _ := rfl
  test_store _ _ _ := rfl

theorem separate {inputs outputs : OutputBuffer} (hDistinct : inputs.data ≠ outputs.data) :
    (kernel (F := F) T half inputs outputs).Separate where
  toStable := stable T half inputs outputs
  fetch_setLen _ _ := rfl
  fetch_store d slot out := by
    funext i
    exact congrArg (fun cells => (cells i).value) (positions_store_of_ne hDistinct d slot out)

theorem fits (inputs outputs : OutputBuffer) {n : ℕ} (hLength : n < 2 ^ 31) :
    (kernel (F := F) T half inputs outputs).Fits n where
  bound := by
    simp only [kernel, numWarps, threadsPerBlock]
    omega
  lane _ _ := by
    simp only [kernel, numWarps, threadsPerBlock]
    omega

theorem total_eq (inputs outputs : OutputBuffer) (n : ℕ) :
    (kernel (F := F) T half inputs outputs).total n =
      Multiset.range n ×ˢ (([wholeInput] : List (ℕ × ℕ)) : Multiset (ℕ × ℕ)) := by
  rw [total_of_shared_items numWarps 1 (fun _ => [wholeInput]) n (by decide) rfl rfl]
  · rw [Finset.sum_range_one]
  · intro block _ place hPlace
    obtain rfl : place = 0 := by omega
    refine ⟨?_, rfl, rfl⟩
    simp only [kernel]
    omega

theorem filters {inputs outputs : OutputBuffer} {n : ℕ} {d : Device F}
    (hDistinct : inputs.data ≠ outputs.data) (hLength : n < 2 ^ 31)
    (hZero : d.lens outputs.len = 0) :
    Filters (kernel T half inputs outputs) [wholeInput] n d :=
  filters_of_separate (fits T half inputs outputs hLength) (separate T half hDistinct)
    (total_eq T half inputs outputs n) (List.nodup_singleton _) outputs.maxLen_lt hZero

end KernelFilter2Pair

namespace KernelFilter2

variable {large : Bool} (T : Template large)

theorem separate {inputs outputs : OutputBuffer} (hDistinct : inputs.data ≠ outputs.data) :
    (kernel (F := F) T inputs outputs).Separate where
  test_setLen _ _ := rfl
  test_store _ _ _ := rfl
  fetch_setLen _ _ := rfl
  fetch_store d slot out := by
    funext i
    exact congrArg (fun cells => (cells i).value) (positions_store_of_ne hDistinct d slot out)

theorem fits (inputs outputs : OutputBuffer) {n : ℕ} (hLength : n < 2 ^ 31) :
    (kernel (F := F) T inputs outputs).Fits n where
  bound := by
    have hInputs := T.inputsPerBlock_le
    simp only [kernel, gridDim]
    omega
  lane t _ := by
    have hInputs := T.inputsPerBlock_pos
    have hLane := Nat.mod_lt t hInputs
    simp only [kernel, gridDim]
    omega

theorem total_eq (inputs outputs : OutputBuffer) (n : ℕ) :
    (kernel (F := F) T inputs outputs).total n =
      Multiset.range n ×ˢ (([wholeInput] : List (ℕ × ℕ)) : Multiset (ℕ × ℕ)) := by
  rw [total_of_shared_inputs gridDim T.inputsPerBlock [wholeInput] n (by decide)
    T.inputsPerBlock_pos rfl rfl]
  intro block _ place hPlace
  obtain ⟨hDiv, hMod⟩ := div_mod_place block hPlace
  refine ⟨?_, hMod, rfl⟩
  simp only [kernel, hDiv]

theorem filters {inputs outputs : OutputBuffer} {n : ℕ} {d : Device F}
    (hDistinct : inputs.data ≠ outputs.data) (hLength : n < 2 ^ 31)
    (hZero : d.lens outputs.len = 0) :
    Filters (kernel T inputs outputs) [wholeInput] n d :=
  filters_of_separate (fits T inputs outputs hLength) (separate T hDistinct)
    (total_eq T inputs outputs n) (List.nodup_singleton _) outputs.maxLen_lt hZero

end KernelFilter2

/-- Each filter with separate buffers tests every work item once, counts what it
accepts modulo `2^32`, and leaves exactly the accepted records, or a full buffer
of records of different items if there were too many. -/
theorem filters_correct (large unbound : Bool) (d : Device F) (inputs outputs : OutputBuffer)
    (hDistinct : inputs.data ≠ outputs.data) (hLength : d.lens inputs.len < 2 ^ 31)
    (hZero : d.lens outputs.len = 0) :
    Filters (KernelFilterGradVecs1.kernel large outputs) KernelFilterGradVecs1.windows
        (d.lens inputs.len) d ∧
      Filters (KernelFilterGradVecs2.kernel large unbound inputs outputs)
        (KernelFilterGradVecs2.tiles large unbound) (d.lens inputs.len) d ∧
      Filters (KernelFilter2_0A.kernel large inputs outputs) [wholeInput] (d.lens inputs.len) d ∧
      ∀ T : KernelFilter2.Template large,
        Filters (KernelFilter2.kernel T inputs outputs) [wholeInput] (d.lens inputs.len) d :=
  ⟨KernelFilterGradVecs1.filters large outputs hLength hZero,
    KernelFilterGradVecs2.filters large unbound hDistinct hLength hZero,
    KernelFilter2Pair.filters _ _ hDistinct hLength hZero,
    fun T => KernelFilter2.filters T hDistinct hLength hZero⟩

end Kernels

section Dense

/-- A table for which 104 tiles of the input at the origin are accepted. -/
def denseNoise : ImprovedNoise ℚ where
  p i := UInt8.ofNat (3 * i * i + 9 * i)
  xo := 0
  yo := 0
  zo := 0

/-- A full `outputs_filter_2_0a` whose entries all are the origin of one seed with
this table. -/
def denseDevice : Device ℚ where
  lens := Function.update (fun _ => 0) .filter2_0a outputsFilter2_0a.maxLen
  seeds _ := ⟨0, 0⟩
  results _ _ _ := ⟨denseNoise, 0⟩
  initFlags _ := 0
  positions _ _ := ⟨⟨0, 0, 0⟩, 0⟩
  batch := 0

/-- The launch of `filter_gradvecs_2` in a normal, bounded build. -/
def denseKernel : Kernel (Device ℚ) SeedPos (ℕ × ℕ) (Cell SeedPos) :=
  KernelFilterGradVecs2.kernel false false outputsFilter2_0a outputsFilterGradvecs2

/-- Some of its accepted tiles. -/
def denseTiles : List (ℕ × ℕ) := [5, 29, 36, 67] ×ˢ [2, 26, 33, 57, 64, 71, 95, 102]

theorem accept_denseTiles (k : ℕ) :
    ∀ tile ∈ denseTiles, (denseKernel.accept denseDevice (k, tile)).isSome = true := by
  have hAccepts : ∀ tile ∈ denseTiles, KernelFilterGradVecs2.accepts false deviceKernel0B
      (denseDevice.noise 0 ⟨0, .b⟩) (KernelFilterGradVecs2.tilePos false false 0 tile.1)
        (KernelFilterGradVecs2.tilePos false false 0 tile.2) = true := by
    decide +kernel
  intro tile hTile
  have hTest : denseKernel.test denseDevice (denseKernel.fetch denseDevice k) tile =
      stamp denseDevice (KernelFilterGradVecs2.testTile false false denseDevice ⟨0, 0, 0⟩ tile) :=
    rfl
  rw [Kernel.accept, hTest, KernelFilterGradVecs2.testTile, if_pos (hAccepts tile hTile)]
  rfl

/-- With 32 accepted tiles for each of its inputs a full buffer gives more
accepted items than a 32-bit counter can hold. -/
theorem le_length_accepted_dense :
    2 ^ 32 ≤ (accepted denseKernel (KernelFilterGradVecs2.tiles false false)
      outputsFilter2_0a.maxLen denseDevice).length := by
  have hInside : ∀ tile ∈ denseTiles, tile.1 < 115 ∧ tile.2 < 115 := by decide
  have hSub : denseTiles.Subperm (KernelFilterGradVecs2.tiles false false) := by
    apply List.subperm_of_subset (by decide)
    rintro ⟨tx, tz⟩ hTile
    obtain ⟨hX, hZ⟩ := hInside _ hTile
    exact List.pair_mem_product.mpr ⟨List.mem_range.mpr hX, List.mem_range.mpr hZ⟩
  have hRow : ∀ k, 32 ≤ (((KernelFilterGradVecs2.tiles false false).map fun tile =>
      (k, tile)).filterMap (denseKernel.accept denseDevice)).length := by
    intro k
    rw [List.filterMap_map, List.length_filterMap_eq_countP]
    refine le_trans ?_ (hSub.countP_le _)
    change 32 ≤ denseTiles.countP fun tile => (denseKernel.accept denseDevice (k, tile)).isSome
    rw [List.countP_eq_length.mpr (accept_denseTiles k)]
    decide
  refine le_trans ?_ (le_length_accepted denseKernel _ outputsFilter2_0a.maxLen denseDevice hRow)
  rw [outputsFilter2_0a_maxLen]
  decide

/-- The counter then differs from the number of accepted items. -/
theorem counter_ne_accepted_dense :
    ∃ schedule pool,
      (denseKernel.program outputsFilter2_0a.maxLen).run
          ((denseKernel.program outputsFilter2_0a.maxLen).start denseDevice) schedule = some pool ∧
        (denseKernel.program outputsFilter2_0a.maxLen).Finished pool ∧
        denseKernel.output.len pool.mem ≠
          (accepted denseKernel (KernelFilterGradVecs2.tiles false false) outputsFilter2_0a.maxLen
            denseDevice).length := by
  have hFits : denseKernel.Fits outputsFilter2_0a.maxLen :=
    KernelFilterGradVecs2.fits false false outputsFilter2_0a outputsFilterGradvecs2 (by decide)
  obtain ⟨schedule, pool, hRun, hFinished⟩ := Kernel.exists_run_finished hFits denseDevice
  refine ⟨schedule, pool, hRun, hFinished, ?_⟩
  have hResult := KernelFilterGradVecs2.filters false false
    (show outputsFilter2_0a.data ≠ outputsFilterGradvecs2.data by decide)
    (show outputsFilter2_0a.maxLen < 2 ^ 31 by decide) (d := denseDevice) rfl schedule pool hRun
    hFinished
  have hMany := le_length_accepted_dense
  have hCounter := hResult.counter
  have hLt := Nat.mod_lt (accepted denseKernel (KernelFilterGradVecs2.tiles false false)
    outputsFilter2_0a.maxLen denseDevice).length (by decide : 0 < 2 ^ 32)
  intro hEqual
  rw [denseKernel] at hEqual
  rw [hEqual] at hCounter
  rw [denseKernel] at hLt hMany
  omega

/-- The same launch as a case of the general result. -/
theorem filters_correct_dense :
    denseDevice.lens outputsFilterGradvecs2.len = 0 ∧
      Filters denseKernel (KernelFilterGradVecs2.tiles false false)
        (denseDevice.lens outputsFilter2_0a.len) denseDevice :=
  ⟨rfl, (filters_correct false false denseDevice outputsFilter2_0a outputsFilterGradvecs2 (by decide)
    (by decide) rfl).2.1⟩

end Dense

end Commission
