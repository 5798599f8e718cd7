import Commission.Gpu.StageStats
import Mathlib.Algebra.Group.Action.Defs
import Mathlib.Algebra.Order.BigOperators.Group.List

/-! What the table of the stages shows: totals over the batches since the last table. -/
namespace Commission

namespace StageStats

variable (stage : StageStats)

/-- The inputs which a stage counts for a batch. -/
def inputsOf (deviceLens : BufferLens) : ℕ :=
  match stage.inputsLen with
  | some id => clampLens deviceLens id
  | none => 1

def outputsOf (deviceLens : BufferLens) : ℕ := clampLens deviceLens stage.outputsLen

/-- A stage with the totals of some batches. -/
def tally (batches : List BufferLens) : StageStats :=
  { stage with
    totalInputs := BitVec.ofNat 64 (batches.map stage.inputsOf).sum
    totalOutputs := BitVec.ofNat 64 (batches.map stage.outputsOf).sum }

theorem update_tally (batches : List BufferLens) (deviceLens : BufferLens) :
    ((stage.tally batches).update (clampLens deviceLens)).1 =
      stage.tally (batches ++ [deviceLens]) := by
  simp only [update, tally, List.map_append, List.map_singleton, List.sum_append,
    List.sum_singleton, BitVec.ofNat_add, inputsOf, outputsOf]
  cases stage.inputsLen with
  | none => rfl
  | some id => rfl

theorem reset_tally (batches : List BufferLens) : (stage.tally batches).reset = stage.tally [] :=
  rfl

end StageStats

section Runs

/-- The batches since the table was printed last. -/
def sincePrint (printInterval : ℕ) (batches : List BufferLens) : List BufferLens :=
  batches.drop (batches.length / printInterval * printInterval)

variable {printInterval : ℕ} {stages : List StageStats}

theorem endOfBatch_tally (batches : List BufferLens) (deviceLens : BufferLens) :
    (endOfBatch deviceLens (stages.map fun stage => stage.tally batches)).1 =
      stages.map fun stage => stage.tally (batches ++ [deviceLens]) := by
  rw [endOfBatch, updateStages, List.map_map]
  exact List.map_congr_left fun stage _ => stage.update_tally batches deviceLens

theorem sincePrint_append_of_length {since : List BufferLens} (hSince : since.length = printInterval)
    (hInterval : 0 < printInterval) (batches : List BufferLens) :
    sincePrint printInterval (since ++ batches) = sincePrint printInterval batches := by
  have hTables : (since ++ batches).length / printInterval * printInterval =
      since.length + batches.length / printInterval * printInterval := by
    rw [List.length_append, hSince, Nat.add_div_left _ hInterval, Nat.succ_mul, Nat.add_comm]
  rw [sincePrint, sincePrint, hTables, List.drop_length_add_append]

theorem map_reset_tally (batches : List BufferLens) :
    (stages.map fun stage => stage.tally batches).map StageStats.reset =
      stages.map fun stage => stage.tally [] := by
  rw [List.map_map]
  exact List.map_congr_left fun stage _ => stage.reset_tally batches

/-- The loop, entered with the totals of the batches since the last table. -/
theorem runBatches_tally (hInterval : 0 < printInterval) (batches : List BufferLens) (i : ℕ)
    (since : List BufferLens) (hSince : since.length = i % printInterval)
    (hCount : i + batches.length < 2 ^ 32) :
    (runBatches printInterval i batches (stages.map fun stage => stage.tally since)).1 =
      stages.map fun stage => stage.tally (sincePrint printInterval (since ++ batches)) := by
  induction batches generalizing i since with
  | nil =>
      have hShort : since.length < printInterval := hSince ▸ Nat.mod_lt i hInterval
      rw [runBatches, List.append_nil, sincePrint, Nat.div_eq_of_lt hShort, zero_mul, List.drop_zero]
  | cons deviceLens rest ih =>
      rw [List.length_cons] at hCount
      have hNext : (i + 1) % 2 ^ 32 = i + 1 := Nat.mod_eq_of_lt (by omega)
      rw [runBatches, hNext, endOfBatch_tally]
      have hLength : (since ++ [deviceLens]).length = i % printInterval + 1 := by
        rw [List.length_append, hSince, List.length_singleton]
      have hStep : (i + 1) % printInterval = (i % printInterval + 1) % printInterval :=
        (Nat.mod_add_mod i printInterval 1).symm
      have hFull : i % printInterval + 1 ≤ printInterval := Nat.mod_lt i hInterval
      have hAll : since ++ deviceLens :: rest = (since ++ [deviceLens]) ++ rest :=
        List.append_cons since deviceLens rest
      rw [hAll]
      by_cases hPrint : (i + 1) % printInterval = 0
      · have hTable : (since ++ [deviceLens]).length = printInterval := by
          rw [hLength]
          by_contra hShort
          rw [hStep, Nat.mod_eq_of_lt (by omega)] at hPrint
          omega
        rw [if_pos hPrint, map_reset_tally, ih (i + 1) [] hPrint.symm (by omega), List.nil_append,
          sincePrint_append_of_length hTable hInterval]
      · have hShort : i % printInterval + 1 < printInterval := by
          rcases hFull.lt_or_eq with hLess | hSame
          · exact hLess
          · rw [hStep, hSame, Nat.mod_self] at hPrint
            exact absurd rfl hPrint
        have hSince' : (since ++ [deviceLens]).length = (i + 1) % printInterval := by
          rw [hLength, hStep, Nat.mod_eq_of_lt hShort]
        rw [if_neg hPrint, ih (i + 1) (since ++ [deviceLens]) hSince' (by omega)]

end Runs

section Table

variable {large unbound : Bool} {stage : StageStats}

/-- What holds for the stages of every build. -/
theorem forall_stageStats {P : StageStats → Prop}
    (hAll : ∀ stage ∈ stageStats false false ++ stageStats true false ++ stageStats false true ++
      stageStats true true, P stage) (hStage : stage ∈ stageStats large unbound) : P stage := by
  apply hAll
  cases large <;> cases unbound <;> simp only [List.mem_append, hStage, true_or, or_true]

theorem stageStats_tally_nil :
    ((stageStats large unbound).map fun stage => stage.tally []) = stageStats large unbound := by
  refine (List.map_congr_left fun stage hStage => ?_).trans (List.map_id _)
  exact forall_stageStats (P := fun stage => stage.tally [] = stage) (by decide +kernel) hStage

/-- The lengths of a batch are 32-bit numbers once they are clamped. -/
theorem outputsOf_lt (hStage : stage ∈ stageStats large unbound) (deviceLens : BufferLens) :
    stage.outputsOf deviceLens < 2 ^ 32 := by
  have hMax : stage.maxOutputsLen < 2 ^ 32 :=
    forall_stageStats (P := fun stage => stage.maxOutputsLen < 2 ^ 32) (by decide +kernel) hStage
  exact (clampLens_le_maxOutputsLen deviceLens (clamped_of_mem_stageStats hStage)).trans_lt hMax

theorem inputsOf_lt (hStage : stage ∈ stageStats large unbound) (deviceLens : BufferLens) :
    stage.inputsOf deviceLens < 2 ^ 32 := by
  have hClamped : ∀ id ∈ stage.inputsLen, ∃ outputs ∈ clampedOutputs,
      outputs.len = id ∧ outputs.maxLen < 2 ^ 32 :=
    forall_stageStats (P := fun stage => ∀ id ∈ stage.inputsLen, ∃ outputs ∈ clampedOutputs,
      outputs.len = id ∧ outputs.maxLen < 2 ^ 32) (by decide +kernel) hStage
  rw [StageStats.inputsOf]
  cases hLen : stage.inputsLen with
  | none => exact Nat.one_lt_two_pow (by decide)
  | some id =>
      obtain ⟨outputs, hMem, rfl, hMax⟩ := hClamped id hLen
      exact (foldl_clampLen_le_maxLen clampedOutputs deviceLens hMem).trans_lt hMax

theorem toNat_sum {lens : BufferLens → ℕ} (hLens : ∀ deviceLens, lens deviceLens < 2 ^ 32)
    {batches : List BufferLens} (hCount : batches.length ≤ 2 ^ 32) :
    (BitVec.ofNat 64 (batches.map lens).sum).toNat = (batches.map lens).sum := by
  have hBound : (batches.map lens).sum ≤ batches.length * (2 ^ 32 - 1) := by
    have hEach : ∀ len ∈ batches.map lens, len ≤ 2 ^ 32 - 1 := by
      intro len hLen
      obtain ⟨deviceLens, -, rfl⟩ := List.mem_map.mp hLen
      exact Nat.le_sub_one_of_lt (hLens deviceLens)
    have hSum := List.sum_le_card_nsmul _ _ hEach
    rwa [List.length_map, smul_eq_mul] at hSum
  have hProduct : batches.length * (2 ^ 32 - 1) ≤ 2 ^ 32 * (2 ^ 32 - 1) :=
    Nat.mul_le_mul_right _ hCount
  rw [BitVec.toNat_ofNat, Nat.mod_eq_of_lt (by omega)]

/-- The totals which a batch leaves in the table: nothing has wrapped, the totals are those of the
batches since the last table, and a stage has taken what the stage before it has put out. -/
structure Totals (batches : List BufferLens) (before table : List StageStats) : Prop where
  rows : table = before.map fun stage => stage.tally batches
  inputs : ∀ stage ∈ before,
    (stage.tally batches).totalInputs.toNat = (batches.map stage.inputsOf).sum
  outputs : ∀ stage ∈ before,
    (stage.tally batches).totalOutputs.toNat = (batches.map stage.outputsOf).sum
  chain : ∀ first ∈ table, ∀ next ∈ table, next.inputsLen = some first.outputsLen →
    next.totalInputs = first.totalOutputs

/-- The table after every batch, and so each one which is printed. -/
theorem table_totals (large unbound : Bool) (printInterval : ℕ) (batches : List BufferLens)
    (deviceLens : BufferLens) (hInterval : 0 < printInterval) (hCount : batches.length < 2 ^ 32) :
    Totals (sincePrint printInterval batches ++ [deviceLens]) (stageStats large unbound)
      (endOfBatch deviceLens
        (runBatches printInterval 0 batches (stageStats large unbound)).1).1 := by
  have hBefore : (runBatches printInterval 0 batches (stageStats large unbound)).1 =
      (stageStats large unbound).map fun stage => stage.tally (sincePrint printInterval batches) := by
    have hNone : ([] : List BufferLens).length = 0 % printInterval := (Nat.zero_mod _).symm
    conv_lhs => rw [← stageStats_tally_nil]
    exact runBatches_tally hInterval batches 0 [] hNone (by omega)
  have hSince : (sincePrint printInterval batches ++ [deviceLens]).length ≤ 2 ^ 32 := by
    rw [sincePrint, List.length_append, List.length_drop, List.length_singleton]
    omega
  rw [hBefore, endOfBatch_tally]
  constructor
  · rfl
  · exact fun stage hStage => toNat_sum (inputsOf_lt hStage) hSince
  · exact fun stage hStage => toNat_sum (outputsOf_lt hStage) hSince
  · intro first hFirst next hNext hFeeds
    obtain ⟨first, -, rfl⟩ := List.mem_map.mp hFirst
    obtain ⟨next, -, rfl⟩ := List.mem_map.mp hNext
    have hSame : next.inputsOf = first.outputsOf := by
      have hLen : next.inputsLen = some first.outputsLen := hFeeds
      funext lens
      rw [StageStats.inputsOf, hLen]
      rfl
    simp only [StageStats.tally, hSame]

theorem table_totals_crowded :
    Totals (sincePrint 256 [crowdedLens] ++ [crowdedLens]) (stageStats false false)
      (endOfBatch crowdedLens (runBatches 256 0 [crowdedLens] (stageStats false false)).1).1 :=
  table_totals false false 256 [crowdedLens] crowdedLens (by decide) (by decide)

end Table

end Commission
