import Commission.Gpu.FilterSeeds
import Commission.Host.Shutdown

/-! Which seeds the GPU threads of a process have tested once they have been
joined. -/
namespace Commission

open AtomicAppend ThreadPool

/-- Consecutive seeds, modulo `2^64`. -/
def seedsFrom (start : BitVec 64) (count : ℕ) : List (BitVec 64) :=
  (List.range count).map fun n => start + BitVec.ofNat 64 n

section SeedsFrom

theorem seedsFrom_add (start : BitVec 64) (first second : ℕ) :
    seedsFrom start (first + second) =
      seedsFrom start first ++ seedsFrom (start + BitVec.ofNat 64 first) second := by
  simp only [seedsFrom, List.range_add, List.map_append, List.map_map]
  congr 2
  funext n
  simp only [Function.comp_apply, BitVec.ofNat_add, BitVec.add_assoc]

theorem seedsFrom_nodup (start : BitVec 64) {count : ℕ} (hCount : count ≤ 2 ^ 64) :
    (seedsFrom start count).Nodup := by
  refine List.Nodup.map_on (fun first hFirst second hSecond hSame => ?_) List.nodup_range
  rw [List.mem_range] at hFirst hSecond
  have hNat := congrArg BitVec.toNat ((BitVec.add_right_inj start).mp hSame)
  rwa [BitVec.toNat_ofNat, BitVec.toNat_ofNat, Nat.mod_eq_of_lt (by omega),
    Nat.mod_eq_of_lt (by omega)] at hNat

/-- Batches of `width` seeds one after the other. -/
theorem flatMap_seedsFrom (start : BitVec 64) (width count : ℕ) :
    ((List.range count).map fun n => start + BitVec.ofNat 64 (n * width)).flatMap
        (fun first => seedsFrom first width) = seedsFrom start (count * width) := by
  induction count with
  | zero => rw [zero_mul]; rfl
  | succ count ih =>
      rw [List.range_succ, List.map_append, List.flatMap_append, ih, Nat.succ_mul, seedsFrom_add]
      simp

end SeedsFrom

namespace KernelFilterSeeds

section Batch

variable (F : Type) [Arith F]

/-- A launch for the batch of `startSeed` has come to its end and has given these
seeds to the test, in this order. -/
def Tests (large : Bool) (startSeed : BitVec 64) (seeds : List (BitVec 64)) : Prop :=
  let K := kernel (F := F) large startSeed outputsFilterSeeds
  ∃ d schedule pool, (K.program threadsPerRun).run ((K.program threadsPerRun).start d) schedule =
      some pool ∧ (K.program threadsPerRun).Finished pool ∧
    seeds = (tested pool.log).map fun pair => K.fetch pool.mem pair.1

/-- `start_seed + index` with the 32-bit `index` of the thread in a grid of blocks. -/
def threadSeed (startSeed : BitVec 64) (block thread : BitVec 32) : BitVec 64 :=
  startSeed + (block * BitVec.ofNat 32 threadsPerBlock + thread).setWidth 64

variable {F} (large : Bool) (startSeed : BitVec 64)

/-- The 32-bit index does not wrap around. -/
theorem threadSeed_eq_fetch {block thread : ℕ} (hBlock : block < threadsPerRun / threadsPerBlock)
    (hThread : thread < threadsPerBlock) (d : Device F) :
    threadSeed startSeed (BitVec.ofNat 32 block) (BitVec.ofNat 32 thread) =
      (kernel large startSeed outputsFilterSeeds).fetch d
        ((kernel (F := F) large startSeed outputsFilterSeeds).first
          (block * threadsPerBlock + thread)) := by
  simp only [threadSeed, kernel, threadsPerRun, threadsPerBlock] at hBlock hThread ⊢
  congr 1
  apply BitVec.eq_of_toNat_eq
  simp only [BitVec.toNat_setWidth, BitVec.toNat_add, BitVec.toNat_mul, BitVec.toNat_ofNat]
  omega

theorem fits : (kernel (F := F) large startSeed outputsFilterSeeds).Fits threadsPerRun where
  bound := by
    simp only [kernel, threadsPerRun]
    omega
  lane _ _ := by
    simp only [kernel, threadsPerRun]
    omega

theorem separate : (kernel (F := F) large startSeed outputsFilterSeeds).Separate where
  test_setLen _ _ := rfl
  test_store _ _ _ := rfl
  fetch_setLen _ _ := rfl
  fetch_store _ _ _ := rfl

theorem total_eq (n : ℕ) : (kernel (F := F) large startSeed outputsFilterSeeds).total n =
    Multiset.range n ×ˢ (([()] : List Unit) : Multiset Unit) := by
  rw [total_of_shared_items threadsPerRun 1 (fun _ => [()]) n (by decide) (mul_one _).symm rfl]
  · rw [Finset.sum_range_one]
  · intro block _ place hPlace
    obtain rfl : place = 0 := by omega
    exact ⟨mul_one _, rfl, rfl⟩

variable {large startSeed}

theorem map_fst_product_unit (indices : Multiset ℕ) :
    Multiset.map Prod.fst (indices ×ˢ (([()] : List Unit) : Multiset Unit)) = indices := by
  change Multiset.map Prod.fst (indices.bind fun n => {(n, ())}) = _
  rw [Multiset.bind_singleton, Multiset.map_map]
  exact Multiset.map_id _

/-- A batch gives each of its seeds to the test once. -/
theorem Tests.perm {seeds : List (BitVec 64)} (hTests : Tests F large startSeed seeds) :
    seeds.Perm (seedsFrom startSeed threadsPerRun) := by
  obtain ⟨d, schedule, pool, hRun, hFinished, rfl⟩ := hTests
  have hWork := run_workInv (fits large startSeed) (separate large startSeed).toStable
    (along_readsOriginal (separate large startSeed)) hRun
  have hTested := hWork.tested_eq hFinished
  rw [total_eq] at hTested
  have hIndices : ((tested pool.log).map Prod.fst : Multiset ℕ) = Multiset.range threadsPerRun := by
    rw [← Multiset.map_coe, hTested]
    exact map_fst_product_unit _
  have hPerm : ((tested pool.log).map Prod.fst).Perm (List.range threadsPerRun) :=
    Multiset.coe_eq_coe.mp hIndices
  have hSeeds := hPerm.map fun n => startSeed + BitVec.ofNat 64 n
  rw [List.map_map] at hSeeds
  exact hSeeds

theorem flatten_perm_of_tests {starts : List (BitVec 64)} {batches : List (List (BitVec 64))}
    (hBatches : List.Forall₂ (Tests F large) starts batches) :
    batches.flatten.Perm (starts.flatMap fun first => seedsFrom first threadsPerRun) := by
  induction hBatches with
  | nil => rfl
  | cons hFirst _ ih =>
      rw [List.flatten_cons, List.flatMap_cons]
      exact hFirst.perm.append ih

/-- Every launch can come to its end. -/
theorem exists_tests (large : Bool) (startSeed : BitVec 64) (d : Device F) :
    ∃ seeds, Tests F large startSeed seeds := by
  obtain ⟨schedule, pool, hRun, hFinished⟩ :=
    Kernel.exists_run_finished (fits (F := F) large startSeed) d
  exact ⟨_, d, schedule, pool, hRun, hFinished, rfl⟩

end Batch

end KernelFilterSeeds

namespace Host

/-- The batch which a GPU thread is in. -/
def GpuPc.running : GpuPc → Multiset (BitVec 64)
  | .batch startSeed => {startSeed}
  | _ => 0

namespace State

variable {cfg : Config} {s s' : State} {event : Event}

/-- The start seeds of the batches in which GPU threads are. -/
def runningBatches (cfg : Config) (s : State) : Multiset (BitVec 64) :=
  ∑ i ∈ Finset.range cfg.gpus, (s.gpu i).pc.running

/-- The start seeds are given out in order from `start_seed` on, and every batch given
out has ended or is run by one thread. -/
structure ClaimInv (cfg : Config) (s : State) : Prop where
  claimed : s.claimed = (List.range s.claimed.length).map fun n =>
    cfg.startSeed + BitVec.ofNat 64 (n * KernelFilterSeeds.threadsPerRun)
  pos : s.pos = cfg.startSeed + BitVec.ofNat 64 (s.claimed.length * KernelFilterSeeds.threadsPerRun)
  balance : (s.claimed : Multiset (BitVec 64)) = s.finished + runningBatches cfg s

section Steps

/-- Only GPU threads claim and run batches. -/
theorem step_batches_frame (hGpu : ∀ i outputs, event ≠ .gpu i outputs)
    (hStep : s.step cfg event = some s') :
    s'.pos = s.pos ∧ s'.claimed = s.claimed ∧ s'.finished = s.finished ∧
      ∀ i, (s'.gpu i).pc = (s.gpu i).pc := by
  cases event with
  | signal =>
      cases hStep
      exact ⟨rfl, rfl, rfl, fun _ => rfl⟩
  | main =>
      cases mainMoves_of_step hStep with
      | @stopGpu i hMain hIndex =>
          refine ⟨rfl, rfl, rfl, fun j => ?_⟩
          by_cases hSame : j = i
          · subst hSame
            simp [setGpu, Thread.stop]
          · simp [setGpu, Function.update_of_ne hSame]
      | drain hMain => split <;> exact ⟨rfl, rfl, rfl, fun _ => rfl⟩
      | poll | gpusStopped | stopCpu | cpusStopped | stopClient | shutdownServer | joinGpu | gpusJoined
      | joinCpu | cpusJoined | finalDrain | joinClient | joinServer =>
          exact ⟨rfl, rfl, rfl, fun _ => rfl⟩
  | gpu i outputs => exact absurd rfl (hGpu i outputs)
  | cpu i =>
      obtain ⟨-, hStep⟩ := Option.ite_none_right_eq_some.mp hStep
      obtain ⟨-, -, rfl⟩ | rfl | ⟨_, _, -, -, rfl⟩ | ⟨_, -, -, rfl⟩ | ⟨_, _, -, -, rfl⟩ |
        ⟨_, -, rfl⟩ := cpuStep_cases hStep
      all_goals exact ⟨rfl, rfl, rfl, fun _ => rfl⟩
  | client =>
      obtain ⟨-, hStep⟩ := Option.ite_none_right_eq_some.mp hStep
      cases hPc : s.client.pc <;> simp only [clientStep, hPc] at hStep <;> cases hStep <;>
        exact ⟨rfl, rfl, rfl, fun _ => rfl⟩
  | server outputs =>
      obtain ⟨-, hStep⟩ := Option.ite_none_right_eq_some.mp hStep
      cases hPc : s.server.pc with
      | start =>
          simp only [serverStep, hPc] at hStep
          cases hStep
          exact ⟨rfl, rfl, rfl, fun _ => rfl⟩
      | serve =>
          simp only [serverStep, hPc] at hStep
          split at hStep
          · obtain ⟨-, hStep⟩ := Option.ite_none_right_eq_some.mp hStep
            cases hStep
            exact ⟨rfl, rfl, rfl, fun _ => rfl⟩
          · cases hStep
            exact ⟨rfl, rfl, rfl, fun _ => rfl⟩
      | exited =>
          simp only [serverStep, hPc] at hStep
          cases hStep

theorem runningBatches_update {i : ℕ} (hIndex : i < cfg.gpus) {thread : Thread GpuPc}
    (hGpu : s'.gpu = Function.update s.gpu i thread) :
    runningBatches cfg s' + (s.gpu i).pc.running = runningBatches cfg s + thread.pc.running := by
  rw [runningBatches, hGpu]
  exact Interleaving.sum_update_add (Finset.mem_range.mpr hIndex)
    (fun _ thread => thread.pc.running) s.gpu thread

theorem gpuStep_claimInv {i : ℕ} {outputs : List GpuOutput} (hIndex : i < cfg.gpus)
    (hInv : ClaimInv cfg s) (hStep : s.gpuStep i outputs = some s') : ClaimInv cfg s' := by
  cases hPc : (s.gpu i).pc with
  | test =>
      simp only [gpuStep, hPc, Option.some.injEq] at hStep
      have hGpu : s'.gpu = Function.update s.gpu i
          { s.gpu i with pc := if (s.gpu i).stopFlag then .exited else .next } := by
        rw [← hStep]
        rfl
      have hSame := runningBatches_update hIndex hGpu
      have hNone : (if (s.gpu i).stopFlag then GpuPc.exited else GpuPc.next).running = 0 := by
        split <;> rfl
      rw [hPc, hNone] at hSame
      simp only [GpuPc.running, add_zero] at hSame
      subst hStep
      refine ⟨hInv.claimed, hInv.pos, ?_⟩
      rw [hSame]
      exact hInv.balance
  | next =>
      simp only [gpuStep, hPc, Option.some.injEq] at hStep
      have hGpu : s'.gpu = Function.update s.gpu i { s.gpu i with pc := .batch s.pos } := by
        rw [← hStep]
        rfl
      have hNew := runningBatches_update hIndex hGpu
      have hClaimed : s'.claimed = s.claimed ++ [s.pos] := by rw [← hStep]
      have hFinished : s'.finished = s.finished := by rw [← hStep]; rfl
      simp only [hPc, GpuPc.running, add_zero] at hNew
      refine ⟨?_, ?_, ?_⟩
      · simp only [hClaimed, List.length_append, List.length_singleton, List.range_succ,
          List.map_append, List.map_singleton]
        rw [← hInv.claimed, ← hInv.pos]
      · rw [hClaimed, List.length_append, List.length_singleton, Nat.succ_mul, BitVec.ofNat_add,
          ← BitVec.add_assoc, ← hInv.pos, ← hStep]
      · rw [hNew, hClaimed, hFinished, ← Multiset.coe_add, hInv.balance, add_assoc,
          Multiset.coe_singleton]
  | batch startSeed =>
      simp only [gpuStep, hPc, Option.some.injEq] at hStep
      have hGpu : s'.gpu = Function.update s.gpu i { s.gpu i with pc := .test } := by
        rw [← hStep]
        rfl
      have hDone := runningBatches_update hIndex hGpu
      have hFinished : s'.finished = s.finished ++ [startSeed] := by rw [← hStep]
      simp only [hPc, GpuPc.running, add_zero] at hDone
      have hBalance := hInv.balance
      rw [← hDone] at hBalance
      refine ⟨?_, ?_, ?_⟩
      · rw [← hStep]
        exact hInv.claimed
      · rw [← hStep]
        exact hInv.pos
      · have hClaimed : s'.claimed = s.claimed := by rw [← hStep]; rfl
        rw [hClaimed, hBalance, hFinished, ← Multiset.coe_add, Multiset.coe_singleton]
        ac_rfl
  | exited =>
      simp only [gpuStep, hPc] at hStep
      cases hStep

theorem ClaimInv.step (hInv : ClaimInv cfg s) (hStep : s.step cfg event = some s') :
    ClaimInv cfg s' := by
  by_cases hGpu : ∃ i outputs, event = .gpu i outputs
  · obtain ⟨i, outputs, rfl⟩ := hGpu
    obtain ⟨hIndex, hStep⟩ := Option.ite_none_right_eq_some.mp hStep
    exact gpuStep_claimInv hIndex hInv hStep
  · obtain ⟨hPos, hClaimed, hFinished, hPcs⟩ :=
      step_batches_frame (fun i outputs hEvent => hGpu ⟨i, outputs, hEvent⟩) hStep
    constructor
    · rw [hClaimed]
      exact hInv.claimed
    · rw [hPos, hClaimed]
      exact hInv.pos
    · simp only [hClaimed, hFinished, runningBatches, hPcs]
      exact hInv.balance

/-- A GPU thread which has left its loop takes no step any more. -/
theorem step_gpu_exited (hStep : s.step cfg event = some s') {i : ℕ}
    (hExited : (s.gpu i).pc = .exited) : (s'.gpu i).pc = .exited := by
  by_cases hGpu : ∃ j outputs, event = .gpu j outputs
  · obtain ⟨j, outputs, rfl⟩ := hGpu
    obtain ⟨-, hStep⟩ := Option.ite_none_right_eq_some.mp hStep
    have hOther : i ≠ j := by
      rintro rfl
      simp only [gpuStep, hExited] at hStep
      cases hStep
    cases hPc : (s.gpu j).pc <;> simp only [gpuStep, hPc] at hStep <;> cases hStep <;>
      simpa [setGpu, pushOutputs, Function.update_of_ne hOther] using hExited
  · rw [(step_batches_frame (fun j outputs hEvent => hGpu ⟨j, outputs, hEvent⟩) hStep).2.2.2 i]
    exact hExited

/-- The GPU threads which `main_inner` has joined. -/
def gpusJoined (cfg : Config) : MainPc → ℕ
  | .joinGpu i => i
  | .joinCpu _ | .finalDrain | .joinClient | .joinServer | .returned => cfg.gpus
  | _ => 0

/-- The number of joined threads grows only past a thread which has left its loop. -/
theorem mainStep_gpusJoined (hStep : s.mainStep cfg = some s') :
    gpusJoined cfg s'.main ≤ gpusJoined cfg s.main ∨
      (s.gpu (gpusJoined cfg s.main)).pc = .exited ∧
        gpusJoined cfg s'.main = gpusJoined cfg s.main + 1 := by
  cases mainMoves_of_step hStep with
  | joinGpu hMain hIndex hExited =>
      rw [hMain]
      exact .inr ⟨hExited, rfl⟩
  | gpusJoined hMain hAll =>
      rw [hMain]
      exact .inl hAll
  | poll hMain =>
      left
      dsimp only
      split <;> exact Nat.zero_le _
  | drain hMain | stopGpu hMain | gpusStopped hMain | stopCpu hMain | cpusStopped hMain
  | stopClient hMain | shutdownServer hMain => exact .inl (Nat.zero_le _)
  | joinCpu hMain | cpusJoined hMain | finalDrain hMain | joinClient hMain | joinServer hMain =>
      rw [hMain]
      exact .inl le_rfl

theorem step_gpusJoined (hJoined : ∀ i < gpusJoined cfg s.main, (s.gpu i).pc = .exited)
    (hStep : s.step cfg event = some s') :
    ∀ i < gpusJoined cfg s'.main, (s'.gpu i).pc = .exited := by
  intro i hIndex
  apply step_gpu_exited hStep
  by_cases hMain : event = .main
  · subst hMain
    rcases mainStep_gpusJoined hStep with hLe | ⟨hExited, hSucc⟩
    · exact hJoined i (hIndex.trans_le hLe)
    · rcases Nat.lt_or_ge i (gpusJoined cfg s.main) with hLt | hGe
      · exact hJoined i hLt
      · rwa [(by omega : i = gpusJoined cfg s.main)]
  · rw [step_main_frame hMain hStep] at hIndex
    exact hJoined i hIndex

end Steps

/-- All GPU threads have been joined. -/
def GpusJoined : MainPc → Prop
  | .joinCpu _ | .finalDrain | .joinClient | .joinServer | .returned => True
  | _ => False

section Runs

variable {events : List Event}

theorem run_claimInv (hRun : run cfg (initial cfg) events = some s) : ClaimInv cfg s := by
  refine Interleaving.run_invariant (ClaimInv cfg) (fun _ _ _ hInv hStep => hInv.step hStep) ?_ hRun
  constructor
  · rfl
  · simp [initial]
  · simp [runningBatches, initial, GpuPc.running]

/-- Once the GPU threads have been joined every claimed batch has run to its end. -/
theorem finished_perm_claimed (hRun : run cfg (initial cfg) events = some s)
    (hJoined : GpusJoined s.main) : s.finished.Perm s.claimed := by
  have hStart : ∀ i < gpusJoined cfg (initial cfg).main, ((initial cfg).gpu i).pc = .exited :=
    fun i hIndex => absurd hIndex (Nat.not_lt_zero i)
  have hExited := Interleaving.run_invariant
    (fun t : State => ∀ i < gpusJoined cfg t.main, (t.gpu i).pc = .exited)
    (fun _ _ _ => step_gpusJoined) hStart hRun
  have hNone : runningBatches cfg s = 0 := by
    apply Finset.sum_eq_zero
    intro i hIndex
    rw [hExited i]
    · rfl
    · have hLt := Finset.mem_range.mp hIndex
      cases hMain : s.main <;> rw [hMain] at hJoined <;> first | exact hJoined.elim | exact hLt
  have hBalance := (run_claimInv hRun).balance
  rw [hNone, add_zero] at hBalance
  exact (Multiset.coe_eq_coe.mp hBalance).symm

end Runs

/-- Once the GPU threads have been joined, every claimed batch has ended; the seeds
tested in the claimed batches are the first `k * 2^28` ones from `start_seed` on, once
each if these are not more than all seeds; the printed number is theirs; and `pos` is
where a second run has to go on. -/
theorem seeds_partitioned (F : Type) [Arith F] (large : Bool) (cfg : Config) (events : List Event)
    (s : State) (hRun : run cfg (initial cfg) events = some s) (hJoined : GpusJoined s.main)
    (batches : List (List (BitVec 64)))
    (hBatches : List.Forall₂ (KernelFilterSeeds.Tests F large) s.claimed batches) :
    s.finished.Perm s.claimed ∧
    batches.flatten.Perm (seedsFrom cfg.startSeed (s.claimed.length * 2 ^ 28)) ∧
    (s.claimed.length ≤ 2 ^ 36 → batches.flatten.Nodup) ∧
    (s.pos - cfg.startSeed).toNat = s.claimed.length * 2 ^ 28 % 2 ^ 64 ∧
    ∀ count, seedsFrom cfg.startSeed (s.claimed.length * 2 ^ 28) ++ seedsFrom s.pos count =
      seedsFrom cfg.startSeed (s.claimed.length * 2 ^ 28 + count) := by
  have hInv := run_claimInv hRun
  have hPerm : batches.flatten.Perm (seedsFrom cfg.startSeed (s.claimed.length * 2 ^ 28)) := by
    have hFlat : batches.flatten.Perm
        (s.claimed.flatMap fun first => seedsFrom first KernelFilterSeeds.threadsPerRun) :=
      KernelFilterSeeds.flatten_perm_of_tests hBatches
    rw [hInv.claimed, flatMap_seedsFrom] at hFlat
    exact hFlat
  refine ⟨finished_perm_claimed hRun hJoined, hPerm, fun hCount => ?_, ?_, fun count => ?_⟩
  · rw [hPerm.nodup_iff]
    exact seedsFrom_nodup _ (by omega)
  · rw [hInv.pos, BitVec.add_comm, BitVec.add_sub_cancel]
    exact BitVec.toNat_ofNat ..
  · rw [seedsFrom_add, hInv.pos]
    rfl

/-- Two GPU and two CPU threads. -/
def twinConfig : Config := ⟨2, 2, false, false, 0, fun _ => none, nofun⟩

/-- Each thread claims a batch before main tells them to stop, and the second one is done first. -/
def crossedRun : List Event :=
  [.gpu 0 [], .gpu 1 [], .gpu 0 [], .gpu 1 [], .signal] ++ List.replicate 9 .main ++
    [.gpu 1 [], .gpu 0 [islandOutput], .gpu 1 [], .gpu 0 [], .cpu 0, .cpu 0, .cpu 0, .cpu 1] ++
    List.replicate 9 .main

theorem seeds_partitioned_crossedRun :
    ∃ s batches, run twinConfig (initial twinConfig) crossedRun = some s ∧ GpusJoined s.main ∧
      s.claimed = [0, 2 ^ 28] ∧ s.finished = [2 ^ 28, 0] ∧
      List.Forall₂ (KernelFilterSeeds.Tests ℚ false) s.claimed batches ∧
      s.finished.Perm s.claimed ∧
      batches.flatten.Perm (seedsFrom 0 (s.claimed.length * 2 ^ 28)) ∧ batches.flatten.Nodup ∧
      (s.pos - 0).toNat = s.claimed.length * 2 ^ 28 % 2 ^ 64 := by
  have hEnds : (run twinConfig (initial twinConfig) crossedRun).map
      (fun s => (s.main, s.claimed, s.finished)) =
        some (.returned, [0, 2 ^ 28], [2 ^ 28, 0]) := by
    decide +kernel
  obtain ⟨s, hRun, hEnd⟩ := Option.map_eq_some_iff.mp hEnds
  simp only [Prod.mk.injEq] at hEnd
  obtain ⟨hReturned, hClaimed, hFinishedOrder⟩ := hEnd
  have hJoined : GpusJoined s.main := by
    rw [hReturned]
    trivial
  let noise : ImprovedNoise ℚ := ⟨fun _ => 0, 0, 0, 0⟩
  let device : Device ℚ := ⟨fun _ => 0, fun _ => ⟨0, 0⟩, fun _ _ _ => ⟨noise, 0⟩, fun _ => 0,
    fun _ _ => ⟨⟨0, 0, 0⟩, 0⟩, 0⟩
  obtain ⟨first, hFirst⟩ := KernelFilterSeeds.exists_tests (F := ℚ) false 0 device
  obtain ⟨second, hSecond⟩ := KernelFilterSeeds.exists_tests (F := ℚ) false (2 ^ 28) device
  have hBatches : List.Forall₂ (KernelFilterSeeds.Tests ℚ false) s.claimed [first, second] := by
    rw [hClaimed]
    exact .cons hFirst (.cons hSecond .nil)
  obtain ⟨hFinished, hPerm, hNodup, hPos, -⟩ :=
    seeds_partitioned ℚ false twinConfig crossedRun s hRun hJoined [first, second] hBatches
  exact ⟨s, [first, second], hRun, hJoined, hClaimed, hFinishedOrder, hBatches, hFinished, hPerm,
    hNodup (by rw [hClaimed]; decide), hPos⟩

end State

end Host

end Commission
