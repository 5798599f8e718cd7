import Commission.Gpu.BatchRuns
import Commission.Gpu.TracedSearch

/-! A batch with results: at its launches seeds are at work, several entries to a
seed, and in the end it hands out what its search finds. -/
namespace Commission

namespace Traced

open Search

variable {row nz : ℕ}

/-- A device whose memory nothing has been written to. -/
def freshDevice (row nz : ℕ) : Device (Traced row nz) where
  lens _ := 0
  seeds _ := ⟨0, 0⟩
  results _ _ _ := ⟨⟨fun _ => 0, .const 0, .const 0, .const 0⟩, 0⟩
  initFlags _ := 0
  positions _ _ := ⟨⟨0, 0, 0⟩, 0⟩
  batch := 1

theorem freshDevice_old : (freshDevice row nz).Old :=
  ⟨fun _ => Nat.zero_lt_one, fun _ _ _ => Nat.zero_lt_one, fun _ _ => Nat.zero_lt_one⟩

theorem noise_returns (seed : BitVec 64) (member : Member) :
    (octaveNoise (F := Traced row nz) config.fuel config.large seed member).isSome :=
  octaveNoise_returns config.large seed member le_rfl

section Shared

variable {d₀ d : Device (Traced row nz)}

/-- No entry of `filter_2_01b` is alone with its seed. -/
theorem exists_shared_entry (hRoom : Fits (Traced row nz) config 0)
    (hBatch : Batch config 0 True (fun _ _ => True) d₀ (some (.initLate 0)) d) {i : ℕ}
    (hi : i < d.lens outputsFilter2_0b.len) : ∃ j < d.lens outputsFilter2_0b.len, j ≠ i ∧
      (d.positions outputsFilter2_0b.data j).value.seedIndex =
        (d.positions outputsFilter2_0b.data i).value.seedIndex := by
  obtain ⟨-, hMatches⟩ := hBatch.matches hRoom
  have hTidy := hBatch.tidy hRoom _ rfl (by decide)
  have hPerm : (d.candidates outputsFilter2_0b).Perm
      (batch (fun seed => filter2 (Traced row nz) config seed 0) 0) := hMatches
  have hHere : d.candidate (d.positions outputsFilter2_0b.data i).value ∈
      d.candidates outputsFilter2_0b := List.mem_map.mpr ⟨i, List.mem_range.mpr hi, rfl⟩
  obtain ⟨seed, hSeed, hFound⟩ := List.mem_flatMap.mp (hPerm.mem_iff.mp hHere)
  obtain ⟨other, hOther, hNe⟩ := exists_other_tile hFound
  have hThere := hPerm.mem_iff.mpr (List.mem_flatMap.mpr ⟨seed, hSeed, hOther⟩)
  obtain ⟨j, hj, rfl⟩ := List.mem_map.mp hThere
  rw [List.mem_range] at hj
  refine ⟨j, hj, ?_, ?_⟩
  · rintro rfl
    exact hNe rfl
  · have hLength := hTidy.noOverflow outputsFilter2_0b (by decide)
    have hBelow : ∀ k < d.lens outputsFilter2_0b.len,
        (d.positions outputsFilter2_0b.data k).value.seedIndex < d.lens outputsFilterSeeds.len :=
      fun k hk => ((hTidy.counted _ rfl).below hLength k hk).2
    have hNodup : d.keptSeeds.Nodup := by
      rw [hTidy.keptSeeds.nodup_iff]
      exact (seedsFrom_nodup 0 (by decide)).filter _
    have hOwn : ∀ c ∈ filter2 (Traced row nz) config seed 0, c.seed = seed :=
      fun _ hMem => (seed_of_mem_filter2 hMem).1
    have hSeeds : (d.seeds (d.positions outputsFilter2_0b.data j).value.seedIndex).value =
        (d.seeds (d.positions outputsFilter2_0b.data i).value.seedIndex).value :=
      (hOwn _ hOther).trans (hOwn _ hFound).symm
    exact List.inj_on_of_nodup_map hNodup (List.mem_range.mpr (hBelow j hj))
      (List.mem_range.mpr (hBelow i hi)) hSeeds

/-- A launch of the first run of `filter_2` at which a thread samples a late octave of a
seed with two entries. -/
structure SharedLaunch (d : Device (Traced row nz)) (inits : List (Op × ℕ))
    (moment : Snapshot (Traced row nz)) (s : ℕ) : Prop where
  reach : Reach config NoOverflow (.filter2 0) d inits
  noOverflow : NoOverflow (.filter2 0) d
  executes : Executes config d moment (.filter2 0)
  sampled : .octave s ⟨2, .a⟩ ∈ moment.accesses
  initialised : (.initLate 0, s) ∈ inits
  entries : ∃ i < d.lens outputsFilter2_0b.len, ∃ j < d.lens outputsFilter2_0b.len, i ≠ j ∧
    (d.positions outputsFilter2_0b.data i).value.seedIndex = s ∧
    (d.positions outputsFilter2_0b.data j).value.seedIndex = s

theorem exists_sharedLaunch {seed : BitVec 64} (hKept : Kept row nz seed)
    (hSeed : seed ∈ seedsFrom 0 KernelFilterSeeds.threadsPerRun)
    (hRoom : Fits (Traced row nz) config 0) :
    ∃ (d : Device (Traced row nz)) (inits : _) (moment : _) (s : ℕ), SharedLaunch d inits moment s := by
  have hLens : NoOverflow .resetLens (freshDevice row nz) := fun _ _ => Nat.zero_le _
  obtain ⟨d, hBatch⟩ := exists_batch_before hRoom (fun seed _ => noise_returns seed)
    (freshDevice row nz) (.initLate 0)
  obtain ⟨hBefore, hMatches⟩ := hBatch.matches hRoom
  obtain ⟨hFits, inits, hReach⟩ := hBatch.reach hRoom freshDevice_old hLens _ rfl
  obtain ⟨d', hCompletes⟩ := Op.exists_completes (fun seed _ => noise_returns seed) hRoom
    (hBefore _ rfl) hMatches
  have hNext := hBatch.step trivial hCompletes
  obtain ⟨hFitsNext, -⟩ := hNext.reach hRoom freshDevice_old hLens _ rfl
  obtain ⟨moment, hExecutes, hFinished, rfl⟩ := hCompletes.executes
  have hFrame := opFrame_of_executes (by decide) (hBefore _ rfl) (.of_noOverflow hFits) hExecutes
    hFinished
  have hLength : moment.device.lens outputsFilter2_0b.len = d.lens outputsFilter2_0b.len :=
    hFrame.lens _ fun _ hNone => absurd hNone (Option.some_ne_none _).symm
  have hPositions := hFrame.positions rfl
  -- The tiles of the kept window are there.
  have hSome : 0 < d.lens outputsFilter2_0b.len := by
    have hPerm : (d.candidates outputsFilter2_0b).Perm
        (batch (fun seed => filter2 (Traced row nz) config seed 0) 0) := hMatches
    rw [← d.length_candidates, hPerm.length_eq, List.length_pos_iff]
    obtain ⟨c, hFound⟩ := List.exists_mem_of_ne_nil _ (filter2_ne_nil hKept 0)
    exact List.ne_nil_of_mem (List.mem_flatMap.mpr ⟨seed, hSeed, hFound⟩)
  obtain ⟨j, hj, hOther, hSame⟩ := exists_shared_entry hRoom hBatch hSome
  have hThreads : 0 < KernelFilter2.gridDim * (filter2Runs config.large 0).inputsPerBlock := by
    decide
  obtain ⟨launch, hLaunch, -, hSampled⟩ := exists_sampling
    (K := KernelFilter2.kernel (filter2Runs config.large 0) (filter2Inputs 0) (outputsFilter2 0))
    (n := moment.device.lens outputsFilter2_0b.len) hThreads (hLength ▸ hSome) (hLength ▸ hSome)
    (List.cons_ne_nil _ _) (some (filter2Inputs 0)) SeedPos.seedIndex
    (KernelFilter2.members (filter2Runs config.large 0)) moment.device
  have hInits := mem_inits_of_entry (hBefore _ rfl) (.of_noOverflow hFits) hExecutes hFinished hSome
  refine ⟨moment.device, _, launch, _, hReach.step hFits hExecutes hFinished rfl, hFitsNext, hLaunch,
    hSampled ⟨2, .a⟩ (by decide), ?_, 0, hLength ▸ hSome, j, hLength ▸ hj, hOther.symm, rfl, ?_⟩
  · refine List.mem_append_right _ (List.mem_map.mpr ⟨_, hInits, ?_⟩)
    rw [← hPositions]
    rfl
  · change _ = (moment.device.positions outputsFilter2_0b.data 0).value.seedIndex
    rw [hPositions]
    exact hSame

theorem exists_sharedLaunch_traced : ∃ row nz, ∃ (d : Device (Traced row nz)) (inits : _) (moment : _)
    (s : ℕ), SharedLaunch d inits moment s := by
  obtain ⟨row, nz, seed, hKept, hSeed, hRoom⟩ := exists_traced_batch
  exact ⟨row, nz, exists_sharedLaunch hKept hSeed hRoom⟩

end Shared

end Traced

/-- At a launch which samples an octave of a seed with two entries. -/
theorem lazy_init_complete_traced :
    ∃ row nz, ∃ (d : Device (Traced row nz)) (inits : List (Op × ℕ))
      (moment : Snapshot (Traced row nz)) (s : ℕ), Traced.SharedLaunch d inits moment s ∧
        (moment.device.seeds s).batch = moment.device.batch ∧
        moment.device.HoldsOctave Traced.config.fuel Traced.config.large s ⟨2, .a⟩ ∧
        (inits ++ moment.inits.map fun s => (Op.filter2 0, s)).count (Op.initLate 0, s) ≤ 1 := by
  obtain ⟨row, nz, d, inits, moment, s, hLaunch⟩ := Traced.exists_sharedLaunch_traced
  obtain ⟨hOctaves, hInits⟩ := lazy_init_complete Traced.config (.filter2 0) d inits moment
    hLaunch.reach hLaunch.noOverflow hLaunch.executes
  obtain ⟨hWritten, hHolds⟩ := hOctaves rfl s ⟨2, .a⟩ hLaunch.sampled
  exact ⟨row, nz, d, inits, moment, s, hLaunch, hWritten, hHolds, hInits 0 s⟩

theorem accesses_in_bounds_traced :
    ∃ row nz, ∃ (d : Device (Traced row nz)) (inits : List (Op × ℕ))
      (moment : Snapshot (Traced row nz)) (s : ℕ), Traced.SharedLaunch d inits moment s ∧
        ∀ access ∈ moment.accesses, access.InBounds moment.device := by
  obtain ⟨row, nz, d, inits, moment, s, hLaunch⟩ := Traced.exists_sharedLaunch_traced
  exact ⟨row, nz, d, inits, moment, s, hLaunch, accesses_in_bounds Traced.config (.filter2 0) d inits
    moment (hLaunch.reach.imp fun _ _ hFits => .of_noOverflow hFits)
    (.of_noOverflow hLaunch.noOverflow) hLaunch.executes⟩

section Outputs

open Traced

/-- The batch hands out a candidate of the seed which is kept. -/
theorem Traced.exists_outputs : ∃ row nz d, Search.Fits (Traced row nz) config 0 ∧
    Batch config 0 True (fun _ _ => True) (Traced.freshDevice row nz) none d ∧
    d.copyOutputs ≠ [] := by
  obtain ⟨row, nz, seed, hKept, hSeed, hRoom⟩ := exists_traced_batch
  obtain ⟨d, hBatch⟩ := batch_runs_on config 0 (Traced.freshDevice row nz) _ .resetLens hRoom
    (fun seed _ => noise_returns seed) .start
  obtain ⟨c, hFound⟩ := List.exists_mem_of_ne_nil _ (filter2_ne_nil hKept 4)
  have hOutput : c.output ∈ d.copyOutputs := by
    refine (hBatch.copyOutputs_perm hRoom).mem_iff.mpr (List.mem_map.mpr ⟨c, ?_, rfl⟩)
    exact List.mem_flatMap.mpr ⟨seed, hSeed, hFound⟩
  exact ⟨row, nz, d, hRoom, hBatch, List.ne_nil_of_mem hOutput⟩

theorem batch_outputs_perm_search_traced :
    ∃ row nz d, Batch config 0 True (fun _ _ => True) (Traced.freshDevice row nz) none d ∧
      d.copyOutputs ≠ [] ∧
      d.copyOutputs.Perm ((seedsFrom 0 KernelFilterSeeds.threadsPerRun).flatMap fun seed =>
        (Search.search (Traced row nz) config seed).map Candidate.output) := by
  obtain ⟨row, nz, d, hRoom, hBatch, hSome⟩ := exists_outputs
  exact ⟨row, nz, d, hBatch, hSome, batch_outputs_perm_search config 0 _ d hRoom hBatch⟩

theorem batch_outputs_subset_search_traced :
    ∃ row nz d, Batch config 0 True InputFits (Traced.freshDevice row nz) none d ∧ d.copyOutputs ≠ [] ∧
      ∀ output ∈ d.copyOutputs, ∃ seed ∈ seedsFrom 0 KernelFilterSeeds.threadsPerRun,
        ∃ c ∈ Search.search (Traced row nz) config seed, output = c.output := by
  obtain ⟨row, nz, d, hRoom, hBatch, hSome⟩ := exists_outputs
  have hFits := hBatch.inputFits hRoom
  exact ⟨row, nz, d, hFits, hSome, batch_outputs_subset_search config 0 _ d hFits⟩

end Outputs

end Commission
