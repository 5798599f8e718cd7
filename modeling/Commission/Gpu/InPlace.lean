import Commission.Library.InPlaceAppend
import Commission.Gpu.ParallelFilter

/-! The stage `filter_2_01b`. Its input `outputs_filter_gradvecs_2` and its output
`outputs_filter_2_0b` both lie over `buffer_2`, so a warp may write to a slot
which another warp has still to read. -/
namespace Commission

open AtomicAppend StrideLoop ThreadPool

variable {F : Type}

/-- The entries of a buffer up to its counter. -/
def OutputBuffer.entries (buffer : OutputBuffer) (d : Device F) : List SeedPos :=
  (List.range (d.lens buffer.len)).map fun i => (d.positions buffer.data i).value

namespace KernelFilter2_0B

variable [Arith F]

/-- `KernelFilter2_0B::kernel` with the buffers of `GpuThread::run`. -/
def stage (large : Bool) : Kernel (Device F) SeedPos (ℕ × ℕ) (Cell SeedPos) :=
  kernel large outputsFilterGradvecs2 outputsFilter2_0b

/-- The count test on an entry. -/
def passes (large : Bool) (d : Device F) (entry : SeedPos) : Bool :=
  (T large).minCount ≤ ((List.range 32).map
    (KernelFilter2Pair.localCount (T large) half (d.result entry.seedIndex) entry)).sum

theorem outcome_eq (large : Bool) (d : Device F) (entry : SeedPos) :
    KernelFilter2Pair.outcome (T large) half (d.result entry.seedIndex) entry =
      if passes large d entry then some entry else none := by
  simp only [KernelFilter2Pair.outcome, passes, decide_eq_true_eq]

theorem stage_test (large : Bool) (d : Device F) (entry : SeedPos) (item : ℕ × ℕ) :
    (stage large).test d entry item =
      stamp d (if passes large d entry then some entry else none) := by
  simp only [stage, kernel, KernelFilter2Pair.kernel, outcome_eq]

theorem inPlace (large : Bool) : InPlace (stage (F := F) large) Cell.value where
  toStable := KernelFilter2Pair.stable _ _ _ _
  fetch_eq _ _ := rfl
  threads_eq := rfl
  first_eq _ := rfl
  lane_eq _ := rfl

/-- The records which the stage should keep are the entries which pass. -/
theorem map_accepted (large : Bool) (d : Device F) (n : ℕ) :
    (accepted (stage large) [wholeInput] n d).map (fun kept => kept.2.value) =
      ((List.range n).map fun i => (d.positions outputsFilterGradvecs2.data i).value).filter
        (passes large d) := by
  have hWork : (List.range n ×ˢ [wholeInput] : List (ℕ × (ℕ × ℕ))) =
      (List.range n).map fun i => (i, wholeInput) := List.map_eq_flatMap.symm
  have hAccept : ∀ i, (stage large).accept d (i, wholeInput) =
      (stamp d (if passes large d (d.positions outputsFilterGradvecs2.data i).value
        then some (d.positions outputsFilterGradvecs2.data i).value else none)).map
          fun out => ((i, wholeInput), out) :=
    fun i => congrArg (Option.map _) (stage_test large d _ wholeInput)
  rw [accepted, hWork, List.filterMap_map]
  generalize List.range n = indices
  induction indices with
  | nil => rfl
  | cons i rest ih =>
      rw [List.filterMap_cons, Function.comp_apply, hAccept, List.map_cons, List.filter_cons]
      by_cases hPasses : passes large d (d.positions outputsFilterGradvecs2.data i).value = true
      · rw [if_pos hPasses, if_pos hPasses, ← ih]
        rfl
      · rw [if_neg hPasses, if_neg hPasses, ← ih]
        rfl

/-- If no warp replaces an entry which another one has still to read, then the
stage is a list filter. -/
theorem filters_in_place (large : Bool) (d : Device F) (schedule : List ℕ)
    (pool : Pool (Device F) (Cursor SeedPos (ℕ × ℕ) (Cell SeedPos))
      (Obs (ℕ × ℕ) (Cell SeedPos)))
    (hLength : d.lens outputsFilterGradvecs2.len ≤ outputsFilterGradvecs2.maxLen)
    (hZero : d.lens outputsFilter2_0b.len = 0)
    (hRun : ((stage large).program (d.lens outputsFilterGradvecs2.len)).run
      (((stage large).program (d.lens outputsFilterGradvecs2.len)).start d) schedule = some pool)
    (hFinished : ((stage (F := F) large).program (d.lens outputsFilterGradvecs2.len)).Finished pool)
    (hKeeps : Interleaving.Along ((stage large).program (d.lens outputsFilterGradvecs2.len)).advance
      (KeepsUnread (stage large) Cell.value (d.lens outputsFilterGradvecs2.len))
      (((stage large).program (d.lens outputsFilterGradvecs2.len)).start d) schedule) :
    (outputsFilter2_0b.entries pool.mem).Perm
      ((outputsFilterGradvecs2.entries d).filter (passes large d)) := by
  have hFits : (stage (F := F) large).Fits (d.lens outputsFilterGradvecs2.len) :=
    KernelFilter2Pair.fits _ _ _ _ (hLength.trans_lt (by decide))
  have hSlots := run_slotInv outputsFilter2_0b.maxLen_lt.le hZero hRun
  have hWork := run_workInv hFits (inPlace large).toStable
    (along_readsOriginal_of_keepsUnread hFits (inPlace large) hKeeps hRun) hRun
  have hReserved : (reserved pool.log).Perm
      (accepted (stage large) [wholeInput] (d.lens outputsFilterGradvecs2.len) d) := by
    have hEq := hWork.reserved_eq hFinished
    rw [stage, kernel, KernelFilter2Pair.total_eq, ← Multiset.coe_range, Multiset.coe_product,
      Multiset.filterMap_coe] at hEq
    exact Multiset.coe_eq_coe.mp hEq
  -- At most one record for each entry, and the two buffers are equally long.
  have hRoom : (reserved pool.log).length ≤ (stage (F := F) large).output.maxLen := by
    have hKept : (accepted (stage large) [wholeInput] (d.lens outputsFilterGradvecs2.len) d).length ≤
        d.lens outputsFilterGradvecs2.len := by
      apply (List.length_filterMap_le _ _).trans
      rw [List.length_product, List.length_range, List.length_singleton, Nat.mul_one]
    rw [hReserved.length_eq]
    exact hKept.trans hLength
  have hData := hSlots.data_prefix outputsFilter2_0b.maxLen_lt hFinished hRoom
  have hEntries : outputsFilter2_0b.entries pool.mem =
      ((reserved pool.log).map Prod.snd).map Cell.value := by
    rw [← hData, List.map_map]
    rfl
  rw [hEntries, List.map_map, OutputBuffer.entries, ← map_accepted]
  exact hReserved.map _

section Pair

/-- A table with 24 points below the threshold around the origin. -/
def pairNoise : ImprovedNoise ℚ where
  p i := UInt8.ofNat (2 * i * i + 8 * i)
  xo := 0
  yo := 3 / 4
  zo := 3 / 2

/-- Two entries, the origins of two seeds with this table. -/
def pairDevice : Device ℚ where
  lens := Function.update (fun _ => 0) .filterGradvecs2 2
  seeds _ := ⟨0, 0⟩
  results _ _ _ := ⟨pairNoise, 0⟩
  initFlags _ := 0
  positions _ i := ⟨⟨i, 0, 0⟩, 0⟩
  batch := 0

/-- Warp `first` makes a pass, then warp `second`. -/
def pairSchedule (first second : ℕ) : List ℕ :=
  [first, first, first, first, first, second, second, second, second, second]

/-- The memory after the pass of warp `first`. -/
def pairMemory (first : ℕ) : Device ℚ :=
  let outputs := (stage (F := ℚ) false).output
  outputs.store (outputs.setLen pairDevice 1) 0 ⟨⟨first, 0, 0⟩, 0⟩

/-- The memory after both passes; the second one read the entry of seed 1. -/
def pairMemoryEnd (first : ℕ) : Device ℚ :=
  let outputs := (stage (F := ℚ) false).output
  outputs.store (outputs.setLen (pairMemory first) 2) 1 ⟨⟨1, 0, 0⟩, 0⟩

theorem passes_pair (seedIndex : ℕ) : passes false pairDevice ⟨seedIndex, 0, 0⟩ = true := by
  have hLanes : 20 ≤ ([0, 30, 31].map (KernelFilter2Pair.localCount (T false) half
      (pairDevice.result 0) ⟨0, 0, 0⟩)).sum := by
    decide +kernel
  have hSome : [0, 30, 31].Sublist (List.range 32) := by decide
  refine decide_eq_true (hLanes.trans ?_)
  exact (hSome.map _).sum_le_sum fun _ _ => Nat.zero_le _

theorem test_pair (seedIndex : ℕ) (item : ℕ × ℕ) :
    (stage false).test pairDevice ⟨seedIndex, 0, 0⟩ item = some ⟨⟨seedIndex, 0, 0⟩, 0⟩ := by
  rw [stage_test, if_pos (passes_pair seedIndex)]
  rfl

theorem test_pairMemory (first seedIndex : ℕ) (item : ℕ × ℕ) :
    (stage false).test (pairMemory first) ⟨seedIndex, 0, 0⟩ item =
      some ⟨⟨seedIndex, 0, 0⟩, 0⟩ := by
  have hSame : (stage false).test (pairMemory first) = (stage false).test pairDevice := by
    rw [pairMemory, (inPlace false).test_store, (inPlace false).test_setLen]
  rw [hSame, test_pair]

/-- Either order of the two warps, up to what the second one reads. -/
theorem run_pair {first second : ℕ} (hFirst : first < 2) (hSecond : second < 2)
    (hOther : second ≠ first)
    (hRead : (stage false).fetch (pairMemory first) second = ⟨1, 0, 0⟩) :
    ∃ log, ((stage false).program 2).run (((stage false).program 2).start pairDevice)
        (pairSchedule first second) =
      some ⟨Function.update (Function.update Cursor.loop first (.loop (first + 65536))) second
        (.loop (second + 65536)), pairMemoryEnd first, log⟩ := by
  have hIndex : ∀ i < 2, (stage (F := ℚ) false).index i i = i := by decide
  have hNext : ∀ i < 2, (stage (F := ℚ) false).next i = i + 65536 := by decide
  have hAt : ∀ i < 2, (stage (F := ℚ) false).index i i < 2 := by decide
  have hPass : (stage false).test pairDevice ((stage false).fetch pairDevice
      ((stage (F := ℚ) false).index first first)) wholeInput = some ⟨⟨first, 0, 0⟩, 0⟩ := by
    rw [hIndex first hFirst]
    exact test_pair first wholeInput
  have hPassEnd : (stage false).test (pairMemory first) ((stage false).fetch (pairMemory first)
      ((stage (F := ℚ) false).index second second)) wholeInput = some ⟨⟨1, 0, 0⟩, 0⟩ := by
    rw [hIndex second hSecond, hRead]
    exact test_pairMemory first 1 wholeInput
  obtain ⟨log, hBegin⟩ : ∃ log, ((stage false).program 2).run
      (((stage false).program 2).start pairDevice) [first, first, first, first, first] =
      some ⟨Function.update Cursor.loop first (.loop (first + 65536)), pairMemory first, log⟩ := by
    rw [← hNext first hFirst]
    exact run_pass _ (hFirst.trans (by decide)) rfl hFirst (hAt first hFirst) rfl hPass (by decide)
  obtain ⟨log', hEnd⟩ : ∃ log', ((stage false).program 2).run
      ⟨Function.update Cursor.loop first (.loop (first + 65536)), pairMemory first, log⟩
      [second, second, second, second, second] =
      some ⟨Function.update (Function.update Cursor.loop first (.loop (first + 65536))) second
        (.loop (second + 65536)), pairMemoryEnd first, log'⟩ := by
    rw [← hNext second hSecond]
    exact run_pass _ (hSecond.trans (by decide)) (Function.update_of_ne hOther _ _) hSecond
      (hAt second hSecond) rfl hPassEnd (show 1 < 44739242 by decide)
  refine ⟨log', ?_⟩
  have hSplit : pairSchedule first second =
      [first, first, first, first, first] ++ [second, second, second, second, second] := rfl
  rw [hSplit, Program.run, Interleaving.run_append]
  exact Option.bind_eq_some_iff.mpr ⟨_, hBegin, hEnd⟩

theorem finished_pair {first second : ℕ} (hOrder : first = 0 ∧ second = 1 ∨ first = 1 ∧ second = 0)
    {m : Device ℚ} {log : List (Obs (ℕ × ℕ) (Cell SeedPos))} :
    ((stage false).program 2).Finished ⟨Function.update (Function.update Cursor.loop first
      (.loop (first + 65536))) second (.loop (second + 65536)), m, log⟩ := by
  intro t _
  by_cases hSecond : t = second
  · subst hSecond
    simp [Kernel.program, Kernel.halted]
  · by_cases hFirst : t = first
    · subst hFirst
      simp [Kernel.program, Kernel.halted, Function.update_of_ne hSecond]
    · simp only [Kernel.program, Kernel.halted, Function.update_of_ne hSecond,
        Function.update_of_ne hFirst, decide_eq_true_eq]
      omega

/-- Warp 1 goes first and its record replaces the entry of warp 0, which is then
lost: both outputs are the entry of seed 1. -/
theorem entry_lost_pair :
    pairDevice.lens outputsFilterGradvecs2.len ≤ outputsFilterGradvecs2.maxLen ∧
      pairDevice.lens outputsFilter2_0b.len = 0 ∧
      ∃ pool, ((stage false).program (pairDevice.lens outputsFilterGradvecs2.len)).run
          (((stage false).program (pairDevice.lens outputsFilterGradvecs2.len)).start pairDevice)
          (pairSchedule 1 0) = some pool ∧
        ((stage (F := ℚ) false).program (pairDevice.lens outputsFilterGradvecs2.len)).Finished
          pool ∧
        ¬ (outputsFilter2_0b.entries pool.mem).Perm
          ((outputsFilterGradvecs2.entries pairDevice).filter (passes false pairDevice)) := by
  refine ⟨by decide, rfl, ?_⟩
  obtain ⟨log, hRun⟩ := run_pair (by decide) (by decide) (show 0 ≠ 1 by decide) rfl
  refine ⟨_, hRun, finished_pair (.inr ⟨rfl, rfl⟩), fun hPerm => ?_⟩
  have hKept : (⟨0, 0, 0⟩ : SeedPos) ∈
      (outputsFilterGradvecs2.entries pairDevice).filter (passes false pairDevice) :=
    List.mem_filter.mpr ⟨by decide, passes_pair 0⟩
  have hLost : (⟨0, 0, 0⟩ : SeedPos) ∉ outputsFilter2_0b.entries (pairMemoryEnd 1) := by decide
  exact hLost (hPerm.mem_iff.mpr hKept)

/-- A warp which writes to the slot it has just read replaces nothing unread. -/
theorem keepsUnread_own {locals : ℕ → Cursor SeedPos (ℕ × ℕ) (Cell SeedPos)} {t : ℕ} (hThread : t < 2)
    {record : SeedPos} {out : Cell SeedPos} {m : Device ℚ} {log : List (Obs (ℕ × ℕ) (Cell SeedPos))} :
    KeepsUnread (stage false) Cell.value 2
      ⟨Function.update locals t (.store t record wholeInput [] out t), m, log⟩ t := by
  intro i record' item items out' slot hLocal _ _ hUnread
  simp only [Function.update_self] at hLocal
  cases hLocal
  have hOwner : t % (stage (F := ℚ) false).stride = t := Nat.mod_eq_of_lt (hThread.trans (by decide))
  simp only [Unread, hOwner, Function.update_self, Cursor.nextRead] at hUnread
  have hStride : (stage (F := ℚ) false).stride = 65536 := rfl
  omega

/-- In the other order every warp writes to its own slot. -/
theorem along_keepsUnread_pair :
    Interleaving.Along ((stage false).program 2).advance (KeepsUnread (stage false) Cell.value 2)
      (((stage false).program 2).start pairDevice) (pairSchedule 0 1) := by
  have hQuiet : ∀ t (pool : Pool (Device ℚ) (Cursor SeedPos (ℕ × ℕ) (Cell SeedPos))
      (Obs (ℕ × ℕ) (Cell SeedPos))), (∀ i record item items out slot,
        pool.locals t ≠ .store i record item items out slot) →
        KeepsUnread (stage false) Cell.value 2 pool t := by
    intro t pool hNone i record item items out slot hLocal
    exact absurd hLocal (hNone i record item items out slot)
  refine along_pass _ (by decide) rfl (by decide) (by decide) rfl (test_pair 0 wholeInput)
    (by decide) (hQuiet 0) (fun log => keepsUnread_own (by decide)) fun log => ?_
  exact along_pass _ (by decide) rfl (by decide) (by decide) rfl (test_pairMemory 0 1 wholeInput)
    (show 1 < 44739242 by decide) (hQuiet 1) (fun log => keepsUnread_own (by decide))
    fun log => trivial

theorem filters_in_place_pair :
    ∃ pool, ((stage false).program (pairDevice.lens outputsFilterGradvecs2.len)).run
        (((stage false).program (pairDevice.lens outputsFilterGradvecs2.len)).start pairDevice)
        (pairSchedule 0 1) = some pool ∧
      (outputsFilter2_0b.entries pool.mem).Perm
        ((outputsFilterGradvecs2.entries pairDevice).filter (passes false pairDevice)) := by
  obtain ⟨log, hRun⟩ := run_pair (by decide) (by decide) (show 1 ≠ 0 by decide) rfl
  refine ⟨_, hRun, ?_⟩
  exact filters_in_place false pairDevice (pairSchedule 0 1) _ (by decide) rfl hRun
    (finished_pair (.inl ⟨rfl, rfl⟩)) along_keepsUnread_pair

end Pair

end KernelFilter2_0B

end Commission
