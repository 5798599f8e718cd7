import Commission.Gpu.Buffers

/-! The statistics pass at the end of a batch: the copy of the counters to the
host, the clamps, and `StageStats::update` for every stage. -/
namespace Commission

/-- `StageStats` without its event and its times. The pointers `inputs_len` and
`outputs_len` are names of counters in the host copy. -/
structure StageStats where
  name : String
  inputsLen : Option LenId
  outputsLen : LenId
  inputsMultiplier : ℕ
  maxOutputsLen : ℕ
  totalInputs : BitVec 64
  totalOutputs : BitVec 64
  deriving DecidableEq, Repr

/-- The constructor: the totals start at zero. -/
def StageStats.make (name : String) (inputsLen : Option LenId) (outputsLen : LenId)
    (inputsMultiplier maxOutputsLen : ℕ) : StageStats :=
  ⟨name, inputsLen, outputsLen, inputsMultiplier, maxOutputsLen, 0, 0⟩

/-- One printed line `"%s outputs overflow: len = … max_len = …"`. -/
structure OverflowLine where
  name : String
  len : ℕ
  maxLen : ℕ
  deriving DecidableEq, Repr

/-- `StageStats::update` on the host copy, with what it prints. -/
def StageStats.update (hostLens : BufferLens) (stage : StageStats) :
    StageStats × List OverflowLine :=
  ({ stage with
      totalInputs := stage.totalInputs + match stage.inputsLen with
        | some id => BitVec.ofNat 64 (hostLens id)
        | none => 1
      totalOutputs := stage.totalOutputs + BitVec.ofNat 64 (hostLens stage.outputsLen) },
    if stage.maxOutputsLen < hostLens stage.outputsLen then
      [⟨stage.name, hostLens stage.outputsLen, stage.maxOutputsLen⟩]
    else [])

/-- The stages which the loop over `filter_2_runs` adds for `i`; `inputsLen` is
the counter of the stage before. -/
def filter2Stages (i : Fin 4) : List StageStats :=
  let inputsLen := if i = 0 then LenId.filter2_0b else (outputsFilter2 (i - 1)).len
  let outputs := outputsFilter2 i
  StageStats.make ("filter_2".push (Char.ofNat ('a'.toNat + i))) (some inputsLen) outputs.len 1
      outputs.maxLen ::
    if i.val < 3 then
      [StageStats.make ("init_seeds_late_".push (Char.ofNat ('2'.toNat + i))) (some outputs.len)
        outputs.len 1 outputs.maxLen]
    else []

/-- `stage_stats` before the first batch. -/
def stageStats (large unbound : Bool) : List StageStats :=
  [.make "filter_seeds" none .filterSeeds KernelFilterSeeds.threadsPerRun
      outputsFilterSeeds.maxLen,
   .make "init_seeds" (some .filterSeeds) .filterSeeds 1 KernelSeed1.threadsPerRun,
   .make "filter_gradvecs_1" (some .filterSeeds) .filterGradvecs1 (256 * 256)
      outputsFilterGradvecs1.maxLen,
   .make "filter_2_01a" (some .filterGradvecs1) .filter2_0a 1 outputsFilter2_0a.maxLen,
   .make "filter_gradvecs_2" (some .filter2_0a) .filterGradvecs2
      (KernelFilterGradVecs2.threadsPerSeed large unbound) outputsFilterGradvecs2.maxLen,
   .make "filter_2_01b" (some .filterGradvecs2) .filter2_0b 1 outputsFilter2_0b.maxLen,
   .make "init_seeds_late_1" (some .filter2_0b) .filter2_0b 1 outputsFilter2_0b.maxLen] ++
  (List.finRange 4).flatMap filter2Stages

/-- The buffers whose counters are clamped, in the order of the assignments. -/
def clampedOutputs : List OutputBuffer :=
  [outputsFilterSeeds, outputsFilterGradvecs1, outputsFilter2_0a, outputsFilterGradvecs2,
   outputsFilter2_0b] ++ (List.finRange 4).map outputsFilter2

/-- `host_buffer_lens.… = std::min(host_buffer_lens.…, ….max_len)` for one buffer. -/
def clampLen (lens : BufferLens) (outputs : OutputBuffer) : BufferLens :=
  Function.update lens outputs.len (min (lens outputs.len) outputs.maxLen)

def clampLens (lens : BufferLens) : BufferLens :=
  clampedOutputs.foldl clampLen lens

/-- The loop over `stage_stats`: every stage is updated, in order. -/
def updateStages (hostLens : BufferLens) (stages : List StageStats) :
    List StageStats × List OverflowLine :=
  (stages.map fun stage => (stage.update hostLens).1,
    stages.flatMap fun stage => (stage.update hostLens).2)

/-- The end of a batch: the device counters are copied, clamped, and given to
every stage. -/
def endOfBatch (deviceLens : BufferLens) (stages : List StageStats) :
    List StageStats × List OverflowLine :=
  let hostLens := clampLens deviceLens
  updateStages hostLens stages

def StageStats.reset (stage : StageStats) : StageStats :=
  { stage with totalInputs := 0, totalOutputs := 0 }

/-- The batch loop from iteration `i` on: the stages afterwards and what each
batch printed. The totals are reset whenever the table of all stages was
printed. -/
def runBatches (printInterval : ℕ) : ℕ → List BufferLens → List StageStats →
    List StageStats × List (List OverflowLine)
  | _, [], stages => (stages, [])
  | i, deviceLens :: rest, stages =>
      let batch := endOfBatch deviceLens stages
      let stages :=
        if (i + 1) % 2 ^ 32 % printInterval = 0 then batch.1.map StageStats.reset else batch.1
      let later := runBatches printInterval ((i + 1) % 2 ^ 32) rest stages
      (later.1, batch.2 :: later.2)

/-- The stage accepted more entries than its buffer holds. -/
def Overflowed (deviceLens : BufferLens) (stage : StageStats) : Prop :=
  stage.maxOutputsLen < deviceLens stage.outputsLen

/-- The overflow message of the stage is among the lines. -/
def Reported (printed : List OverflowLine) (stage : StageStats) : Prop :=
  ∃ line ∈ printed, line.name = stage.name

/-- A stage compares a counter with the bound which that counter was clamped to. -/
def StageStats.Clamped (stage : StageStats) : Prop :=
  ∃ outputs ∈ clampedOutputs,
    outputs.len = stage.outputsLen ∧ outputs.maxLen = stage.maxOutputsLen

theorem clamped_of_mem_stageStats {large unbound : Bool} {stage : StageStats}
    (hStage : stage ∈ stageStats large unbound) : stage.Clamped := by
  have hAll : ∀ stage ∈ stageStats false false ++ stageStats true false ++ stageStats false true ++
      stageStats true true, ∃ outputs ∈ clampedOutputs,
        outputs.len = stage.outputsLen ∧ outputs.maxLen = stage.maxOutputsLen := by
    decide +kernel
  apply hAll
  cases large <;> cases unbound <;> simp only [List.mem_append, hStage, true_or, or_true]

theorem clampLen_le (lens : BufferLens) (outputs : OutputBuffer) (id : LenId) :
    clampLen lens outputs id ≤ lens id := by
  by_cases hId : id = outputs.len
  · subst hId
    rw [clampLen, Function.update_self]
    exact min_le_left _ _
  · rw [clampLen, Function.update_of_ne hId]

theorem foldl_clampLen_le (buffers : List OutputBuffer) (lens : BufferLens) (id : LenId) :
    buffers.foldl clampLen lens id ≤ lens id := by
  induction buffers generalizing lens with
  | nil => exact le_rfl
  | cons outputs rest ih => exact (ih (clampLen lens outputs)).trans (clampLen_le lens outputs id)

/-- A counter which one of the assignments clamps stays below its bound: the
assignments after it can only lower the counter again. -/
theorem foldl_clampLen_le_maxLen (buffers : List OutputBuffer) (lens : BufferLens)
    {outputs : OutputBuffer} (hMem : outputs ∈ buffers) :
    buffers.foldl clampLen lens outputs.len ≤ outputs.maxLen := by
  induction buffers generalizing lens with
  | nil => cases hMem
  | cons first rest ih =>
      rcases List.mem_cons.mp hMem with rfl | hRest
      · apply (foldl_clampLen_le rest (clampLen lens outputs) outputs.len).trans
        rw [clampLen, Function.update_self]
        exact min_le_right _ _
      · exact ih (clampLen lens first) hRest

theorem clampLens_le_maxOutputsLen (lens : BufferLens) {stage : StageStats}
    (hStage : stage.Clamped) : clampLens lens stage.outputsLen ≤ stage.maxOutputsLen := by
  obtain ⟨outputs, hMem, hLen, hMax⟩ := hStage
  rw [← hLen, ← hMax]
  exact foldl_clampLen_le_maxLen clampedOutputs lens hMem

/-- The test of `update` never fires on the clamped copy. -/
theorem endOfBatch_printed (deviceLens : BufferLens) {stages : List StageStats}
    (hStages : ∀ stage ∈ stages, stage.Clamped) : (endOfBatch deviceLens stages).2 = [] := by
  simp only [endOfBatch, updateStages, List.flatMap_eq_nil_iff]
  intro stage hMem
  have hLe := clampLens_le_maxOutputsLen deviceLens (hStages stage hMem)
  simp only [StageStats.update, if_neg (not_lt.mpr hLe)]

/-- No batch of any run prints an overflow message. -/
theorem runBatches_printed (printInterval : ℕ) (batches : List BufferLens) :
    ∀ (i : ℕ) (stages : List StageStats), (∀ stage ∈ stages, stage.Clamped) →
      ∀ printed ∈ (runBatches printInterval i batches stages).2, printed = [] := by
  induction batches with
  | nil =>
      intro i stages _ printed hPrinted
      cases hPrinted
  | cons deviceLens rest ih =>
      intro i stages hStages printed hPrinted
      rcases List.mem_cons.mp hPrinted with rfl | hLater
      · exact endOfBatch_printed deviceLens hStages
      · refine ih _ _ ?_ printed hLater
        -- Neither `update` nor `reset` touches the pointer or the bound of a stage.
        have hUpdated : ∀ stage ∈ (endOfBatch deviceLens stages).1, stage.Clamped := by
          intro stage hMem
          obtain ⟨before, hBefore, rfl⟩ := List.mem_map.mp hMem
          exact hStages before hBefore
        split
        · intro stage hMem
          obtain ⟨before, hBefore, rfl⟩ := List.mem_map.mp hMem
          exact hUpdated before hBefore
        · exact hUpdated

/-- In every batch of every run a stage meets "an overflow is reported" exactly
if it did not overflow: the message is never printed. -/
theorem overflow_reported_iff (large unbound : Bool) (printInterval : ℕ)
    (batches : List BufferLens) (deviceLens : BufferLens) (printed : List OverflowLine)
    (hBatch : (deviceLens, printed) ∈
      batches.zip (runBatches printInterval 0 batches (stageStats large unbound)).2) :
    ∀ stage ∈ stageStats large unbound,
      (Overflowed deviceLens stage → Reported printed stage) ↔ ¬ Overflowed deviceLens stage := by
  intro stage _
  have hPrinted : printed = [] :=
    runBatches_printed printInterval batches 0 (stageStats large unbound)
      (fun _ hMem => clamped_of_mem_stageStats hMem) printed (List.of_mem_zip hBatch).2
  have hSilent : ¬ Reported printed stage := by
    rw [hPrinted]
    rintro ⟨line, hLine, -⟩
    cases hLine
  exact ⟨fun hReports hOver => hSilent (hReports hOver), fun hFits hOver => absurd hOver hFits⟩

/-- Counters of a batch in which 65537 seeds passed the first filter. -/
def crowdedLens : BufferLens := Function.update (fun _ => 0) .filterSeeds 65537

theorem overflow_reported_iff_crowded :
    (crowdedLens, []) ∈ [crowdedLens].zip
        (runBatches 256 0 [crowdedLens] (stageStats false false)).2 ∧
      ∀ stage ∈ stageStats false false,
        (Overflowed crowdedLens stage → Reported [] stage) ↔ ¬ Overflowed crowdedLens stage := by
  have hBatch : (crowdedLens, []) ∈ [crowdedLens].zip
      (runBatches 256 0 [crowdedLens] (stageStats false false)).2 :=
    List.mem_singleton.mpr (Prod.ext rfl (by decide +kernel))
  exact ⟨hBatch, overflow_reported_iff false false 256 [crowdedLens] crowdedLens [] hBatch⟩

/-- One seed of that batch was dropped and nothing is printed. -/
theorem overflow_not_reported_crowded :
    ¬ ∀ stage ∈ stageStats false false, Overflowed crowdedLens stage →
      Reported (endOfBatch crowdedLens (stageStats false false)).2 stage := by
  intro hReports
  have hPrinted : (endOfBatch crowdedLens (stageStats false false)).2 = [] := by decide +kernel
  obtain ⟨line, hLine, -⟩ := hReports _ (List.mem_cons_self ..)
    (by simp [Overflowed, StageStats.make, crowdedLens])
  rw [hPrinted] at hLine
  cases hLine

end Commission
