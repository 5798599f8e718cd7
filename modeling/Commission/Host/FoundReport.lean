import Commission.Host.FoundRun
import Commission.Host.Islands
import Commission.Host.Resume

/-! Processes whose batch has results, from the command line to a file with lines: in a world
of mushroom fields alone the test of the CPU keeps every candidate. -/
namespace Commission.Host

section Plain

variable {x z : BitVec 32} {range minArea scale tol : ℤ}

/-- The first fill reports the whole square. -/
theorem testBiomeCenters_plain (seed : BitVec 64) (hScale : 1 ≤ range / scale) (hTol : 1 ≤ tol)
    (hMin : minCells minArea scale ≤ ((range / scale).toNat * (range / scale).toNat : ℕ)) :
    (testBiomeCenters (plainCubiomes.g seed) x z range minArea scale tol).isSome := by
  have hSide : 1 ≤ (range / scale).toNat := by omega
  have hFill : (floodFillGen ⟨(plainCubiomes.g seed).toBiomeSource, makeRange x z range scale,
      mushroomFields, tol.toNat⟩ (fun _ => false) (fun _ => -1) 0 0).n =
      min ((range / scale).toNat * (range / scale).toNat)
        ((range / scale).toNat * (range / scale).toNat) := by
    refine floodFillGen_firstCells ?_ ?_ ?_ ?_
    · simp only
      omega
    · exact fun c _ => LocateInfo.not_marked_memset _ c
    · intro c hC
      exact iff_of_true rfl (by exact_mod_cast (Range.index_bounds hC).2)
    · refine ⟨Int.le_refl 0, ?_, Int.le_refl 0, ?_⟩ <;> simp only [makeRange] <;> omega
  rw [min_self] at hFill
  obtain ⟨pos, hFound⟩ := getBiomeCentersOpt_first rfl (fun _ => rfl) hSide hSide hTol hFill hMin
  rw [testBiomeCenters]
  simp only [hFound]
  rfl

/-- A process of a build for large biomes keeps every position there. -/
theorem process_plain_of_cells {minSize : ℤ} (hCoarse : minCells minSize 16 ≤ (3200 * 3200 : ℕ))
    (hFine : minCells minSize 4 ≤ (12800 * 12800 : ℕ)) (input : GpuOutput) :
    (process true plainCubiomes minSize input).isSome := by
  have hFirst : (testBiomeCenters (plainCubiomes.g input.seed) input.x input.z (searchRange true)
      minSize 16 4).isSome :=
    testBiomeCenters_plain input.seed (by decide) (by decide) hCoarse
  have hSecond : (testBiomeCenters (plainCubiomes.g input.seed) input.x input.z (searchRange true)
      minSize 4 2).isSome :=
    testBiomeCenters_plain input.seed (by decide) (by decide) hFine
  have hProcess : process true plainCubiomes minSize input =
      if (testBiomeCenters (plainCubiomes.g input.seed) input.x input.z (searchRange true) minSize
          16 4).isNone then none
      else
        (testBiomeCenters (plainCubiomes.g input.seed) input.x input.z (searchRange true) minSize
          4 2).map fun res => ⟨input.seed, res.x, res.z, res.area⟩ := rfl
  obtain ⟨coarse, hSome⟩ := Option.isSome_iff_exists.mp hFirst
  rw [hProcess, hSome, Option.isNone_some, if_neg Bool.false_ne_true, Option.isSome_map]
  exact hSecond

/-- Also with the default `--size`. -/
theorem process_plain (input : GpuOutput) :
    (process true plainCubiomes 160000000 input).isSome :=
  process_plain_of_cells (by decide) (by decide) input

end Plain

theorem filterMap_ne_nil {α β : Type} {f : α → Option β} (hKeep : ∀ a, (f a).isSome) {items : List α}
    (hSome : items ≠ []) : items.filterMap f ≠ [] := by
  obtain ⟨item, rest, rfl⟩ := List.exists_cons_of_ne_nil hSome
  obtain ⟨out, hOut⟩ := Option.isSome_iff_exists.mp (hKeep item)
  rw [List.filterMap_cons, hOut]
  exact List.cons_ne_nil _ _

/-- A batch from seed zero on with results. -/
theorem exists_fromOrderedBatch : ∃ row nz outputs, outputs ≠ [] ∧
    State.FromOrderedBatch (Traced row nz) Traced.config 0 outputs := by
  obtain ⟨row, nz, d, hRoom, hBatch, hSome⟩ := Traced.exists_outputs
  exact ⟨row, nz, d.copyOutputs, hSome, hRoom, _, d, hBatch, rfl⟩

namespace State

/-- A test which keeps every output. -/
def keepAll (input : GpuOutput) : Option CpuOutput := some ⟨input.seed, input.x, input.z, 1⟩

theorem report_sound_foundRun :
    ∃ row nz outputs s, run (pairOf 0 keepAll) (initial (pairOf 0 keepAll)) (foundRun outputs) =
        some s ∧ s.outputFile ≠ [] ∧ ∀ line ∈ s.outputFile,
      ∃ seed ∈ seedsFrom 0 (s.claimed.length * KernelFilterSeeds.threadsPerRun),
        ∃ c ∈ Search.search (Traced row nz) Traced.config seed, keepAll c.output = some line := by
  obtain ⟨row, nz, outputs, hSome, hFrom⟩ := exists_fromOrderedBatch
  have hKeep (input : GpuOutput) : (keepAll input).isSome := rfl
  obtain ⟨s, hRun, -, -, -, hFile⟩ := foundRun_returns 0 hKeep outputs
  refine ⟨row, nz, outputs, s, hRun, hFile ▸ filterMap_ne_nil hKeep hSome, ?_⟩
  exact report_sound (Traced row nz) Traced.config (pairOf 0 keepAll) (foundRun outputs) s rfl hRun
    (delivers_foundRun 0 keepAll hFrom.fromBatch)

theorem report_complete_foundRun :
    ∃ row nz outputs s, run (pairOf 0 keepAll) (initial (pairOf 0 keepAll)) (foundRun outputs) =
        some s ∧ s.main = .returned ∧ s.outputFile ≠ [] ∧ s.outputFile.Perm
      ((seedsFrom 0 (s.claimed.length * KernelFilterSeeds.threadsPerRun)).flatMap fun seed =>
        (Search.search (Traced row nz) Traced.config seed).filterMap fun c => keepAll c.output) := by
  obtain ⟨row, nz, outputs, hSome, hFrom⟩ := exists_fromOrderedBatch
  have hKeep (input : GpuOutput) : (keepAll input).isSome := rfl
  obtain ⟨s, hRun, hReturned, hDrained, -, hFile⟩ := foundRun_returns 0 hKeep outputs
  refine ⟨row, nz, outputs, s, hRun, hReturned, hFile ▸ filterMap_ne_nil hKeep hSome, ?_⟩
  exact report_complete (Traced row nz) Traced.config (pairOf 0 keepAll) (foundRun outputs) s rfl
    Nat.one_ne_zero hRun hReturned hDrained (delivers_foundRun 0 keepAll hFrom)

end State

/-- The setup of a build for large biomes, without arguments. -/
theorem mainInner_plain : ∃ setup, mainInner ⟨false, false, false, true⟩ plainCubiomes 0
    (fun _ => true) ["commission".toList] = .ok setup ∧
      setup.cfg = State.pairOf 0 (process true plainCubiomes 160000000) :=
  ⟨_, rfl, rfl⟩

theorem centresBounded_traced (row nz : ℕ) :
    Search.CentresBounded (Traced row nz) Traced.config := by
  intro seed
  change |(0 : ℤ)| ≤ 600000 ∧ |(0 : ℤ)| ≤ 600000
  simp

theorem report_islands_foundRun :
    ∃ row nz setup outputs s, mainInner ⟨false, false, false, true⟩ plainCubiomes 0 (fun _ => true)
        ["commission".toList] = .ok setup ∧
      State.run setup.cfg (State.initial setup.cfg) (State.foundRun outputs) = some s ∧
      s.outputFile ≠ [] ∧
      ∀ line ∈ s.outputFile,
        ∃ seed ∈ seedsFrom setup.cfg.startSeed (s.claimed.length * KernelFilterSeeds.threadsPerRun),
          LineHolds (Traced row nz) Traced.config plainCubiomes setup.minSize seed line := by
  obtain ⟨row, nz, outputs, hSome, hFrom⟩ := exists_fromOrderedBatch
  obtain ⟨setup, hStart, hCfg⟩ := mainInner_plain
  obtain ⟨s, hRun, -, -, -, hFile⟩ := State.foundRun_returns 0 process_plain outputs
  have hDelivers := State.delivers_foundRun 0 (process true plainCubiomes 160000000) hFrom.fromBatch
  rw [← hCfg] at hRun hDelivers
  refine ⟨row, nz, setup, outputs, s, hStart, hRun, hFile ▸ filterMap_ne_nil process_plain hSome, ?_⟩
  exact report_islands (Traced row nz) Traced.config ⟨false, false, false, true⟩ plainCubiomes 0
    (fun _ => true) ["commission".toList] setup (State.foundRun outputs) s rfl
    (centresBounded_traced row nz) hStart (congrArg Config.server hCfg) hRun hDelivers

end Commission.Host
