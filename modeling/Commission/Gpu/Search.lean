import Commission.Gpu.BatchSafety
import Commission.Host.Seeds
import Commission.Library.LaunchView

/-! What the stages of a batch search for, one seed after the other: the same
tests as in the kernels, on candidates which carry their seed and not its index. -/
namespace Commission

open AtomicAppend

/-- A position of a seed, in noise coordinates. -/
structure Candidate where
  seed : BitVec 64
  x : ℤ
  z : ℤ
  deriving DecidableEq, Repr

/-- `{seed, result.x * 4, result.z * 4}`, in block coordinates. -/
def Candidate.output (c : Candidate) : GpuOutput :=
  ⟨c.seed, BitVec.ofInt 32 (c.x * 4), BitVec.ofInt 32 (c.z * 4)⟩

namespace Search

section Stages

variable (F : Type) [Arith F] (cfg : Config)

/-- All octaves of a seed. -/
def noises (seed : BitVec 64) : Result F := fun member =>
  (octaveNoise cfg.fuel cfg.large seed member).getD
    ⟨fun _ => 0, Arith.const 0, Arith.const 0, Arith.const 0⟩

/-- A window of a seed in `filter_gradvecs_1`. -/
def window (seed : BitVec 64) (place : ℕ × ℕ) : Option Candidate :=
  let oct0A := noises F cfg seed ⟨0, .a⟩
  if KernelFilterGradVecs1.accepts deviceKernel0A oct0A place.1 place.2 then
    some ⟨seed, KernelFilterGradVecs1.windowX cfg.large oct0A.xo place.1,
      KernelFilterGradVecs1.windowZ cfg.large oct0A.zo place.2⟩
  else none

/-- A tile of a candidate in `filter_gradvecs_2`. -/
def tile (c : Candidate) (place : ℕ × ℕ) : Option Candidate :=
  let x := KernelFilterGradVecs2.tilePos cfg.large cfg.unbound c.x place.1
  let z := KernelFilterGradVecs2.tilePos cfg.large cfg.unbound c.z place.2
  if KernelFilterGradVecs2.accepts cfg.large deviceKernel0B (noises F cfg c.seed ⟨0, .b⟩) x z then
    some ⟨c.seed, x, z⟩
  else none

/-- A stage which decides about a whole candidate by the octaves of its seed. -/
def judge (outcome : Result F → SeedPos → Option SeedPos) (c : Candidate) : Option Candidate :=
  (outcome (noises F cfg c.seed) ⟨0, c.x, c.z⟩).map fun kept => ⟨c.seed, kept.x, kept.z⟩

def judge2_0a : Candidate → Option Candidate :=
  judge F cfg (KernelFilter2Pair.outcome (KernelFilter2_0A.T cfg.large) KernelFilter2_0A.half)

def judge2_0b : Candidate → Option Candidate :=
  judge F cfg (KernelFilter2Pair.outcome (KernelFilter2_0B.T cfg.large) KernelFilter2_0B.half)

def judge2 (index : Fin 4) : Candidate → Option Candidate :=
  judge F cfg (KernelFilter2.outcome (filter2Runs cfg.large index))

/-- The candidates of a seed after `filter_gradvecs_1`. -/
def filterGradvecs1 (seed : BitVec 64) : List Candidate :=
  if KernelFilterSeeds.accepts F cfg.large seed then
    KernelFilterGradVecs1.windows.filterMap (window F cfg seed)
  else []

def filter2_0a (seed : BitVec 64) : List Candidate :=
  (filterGradvecs1 F cfg seed).filterMap (judge2_0a F cfg)

def filterGradvecs2 (seed : BitVec 64) : List Candidate :=
  image (KernelFilterGradVecs2.tiles cfg.large cfg.unbound) (tile F cfg) (filter2_0a F cfg seed)

def filter2_0b (seed : BitVec 64) : List Candidate :=
  (filterGradvecs2 F cfg seed).filterMap (judge2_0b F cfg)

/-- The candidates which come to stage `index` of `filter_2`. -/
def filter2 (seed : BitVec 64) : ℕ → List Candidate
  | 0 => filter2_0b F cfg seed
  | index + 1 => (filter2 seed index).filterMap (judge2 F cfg (Fin.ofNat 4 index))

/-- What a search of one seed finds. -/
def search (seed : BitVec 64) : List Candidate :=
  filter2 F cfg seed 4

end Stages

/-- A stage for all seeds of the batch which begins with `startSeed`. -/
def batch (stage : BitVec 64 → List Candidate) (startSeed : BitVec 64) : List Candidate :=
  (seedsFrom startSeed KernelFilterSeeds.threadsPerRun).flatMap stage

/-- The seeds which `filter_seeds` keeps. -/
def batchSeeds (F : Type) [Arith F] (cfg : Config) (startSeed : BitVec 64) : List (BitVec 64) :=
  (seedsFrom startSeed KernelFilterSeeds.threadsPerRun).filter
    (KernelFilterSeeds.accepts F cfg.large)

/-- The results of the stages of a batch have room in their buffers. The later
buffers are at least as long as the one of `filter_gradvecs_2`, and no later stage
adds candidates. -/
structure Fits (F : Type) [Arith F] (cfg : Config) (startSeed : BitVec 64) : Prop where
  seeds : (batchSeeds F cfg startSeed).length ≤ outputsFilterSeeds.maxLen
  gradvecs1 : (batch (filterGradvecs1 F cfg) startSeed).length ≤ outputsFilterGradvecs1.maxLen
  gradvecs2 : (batch (filterGradvecs2 F cfg) startSeed).length ≤ outputsFilterGradvecs2.maxLen

section Batch

variable {F : Type} [Arith F] {cfg : Config} {startSeed : BitVec 64}

theorem batch_filterMap (stage : BitVec 64 → List Candidate) (f : Candidate → Option Candidate) :
    batch (fun seed => (stage seed).filterMap f) startSeed = (batch stage startSeed).filterMap f :=
  (List.filterMap_flatMap ..).symm

theorem batch_image (stage : BitVec 64 → List Candidate) (items : List (ℕ × ℕ))
    (f : Candidate → ℕ × ℕ → Option Candidate) :
    batch (fun seed => image items f (stage seed)) startSeed =
      image items f (batch stage startSeed) :=
  List.flatMap_assoc.symm

theorem batch_filterGradvecs1 :
    batch (filterGradvecs1 F cfg) startSeed =
      image KernelFilterGradVecs1.windows (window F cfg) (batchSeeds F cfg startSeed) := by
  rw [batch, image, batchSeeds]
  generalize seedsFrom startSeed KernelFilterSeeds.threadsPerRun = seeds
  induction seeds with
  | nil => rfl
  | cons seed seeds ih =>
      rw [List.flatMap_cons, ih, filterGradvecs1, List.filter_cons]
      split
      · rfl
      · rfl

theorem batchSeeds_eq :
    batchSeeds F cfg startSeed = image [()]
      (fun seed _ => if KernelFilterSeeds.accepts F cfg.large seed then some seed else none)
      (seedsFrom startSeed KernelFilterSeeds.threadsPerRun) := by
  rw [image_singleton, batchSeeds, ← List.filterMap_eq_filter]
  rfl

theorem batch_filter2_0a :
    batch (filter2_0a F cfg) startSeed = image [wholeInput] (fun c _ => judge2_0a F cfg c)
      (batch (filterGradvecs1 F cfg) startSeed) := by
  rw [image_singleton]
  exact batch_filterMap _ _

theorem batch_filterGradvecs2 :
    batch (filterGradvecs2 F cfg) startSeed =
      image (KernelFilterGradVecs2.tiles cfg.large cfg.unbound) (tile F cfg)
        (batch (filter2_0a F cfg) startSeed) :=
  batch_image _ _ _

theorem batch_filter2_0b :
    batch (filter2_0b F cfg) startSeed = image [wholeInput] (fun c _ => judge2_0b F cfg c)
      (batch (filterGradvecs2 F cfg) startSeed) := by
  rw [image_singleton]
  exact batch_filterMap _ _

theorem batch_filter2 (index : Fin 4) :
    batch (fun seed => filter2 F cfg seed (index + 1)) startSeed =
      image [wholeInput] (fun c _ => judge2 F cfg index c)
        (batch (fun seed => filter2 F cfg seed index) startSeed) := by
  have hIndex : Fin.ofNat 4 index.val = index := Fin.ofNat_val_eq_self index
  rw [image_singleton]
  simp only [filter2, hIndex]
  exact batch_filterMap _ _

theorem length_batch_filterMap_le (stage : BitVec 64 → List Candidate)
    (f : Candidate → Option Candidate) :
    (batch (fun seed => (stage seed).filterMap f) startSeed).length ≤
      (batch stage startSeed).length := by
  rw [batch_filterMap]
  exact List.length_filterMap_le _ _

/-- From `filter_gradvecs_2` on no stage has more candidates than that one. -/
theorem length_batch_filter2_le (index : ℕ) :
    (batch (fun seed => filter2 F cfg seed index) startSeed).length ≤
      (batch (filterGradvecs2 F cfg) startSeed).length := by
  induction index with
  | zero => exact length_batch_filterMap_le _ _
  | succ index ih => exact (length_batch_filterMap_le _ _).trans ih

/-- The batches of one search after the other search all their seeds in order. -/
theorem flatMap_batch (stage : BitVec 64 → List Candidate) (start : BitVec 64) (count : ℕ) :
    ((List.range count).map fun n =>
        start + BitVec.ofNat 64 (n * KernelFilterSeeds.threadsPerRun)).flatMap (batch stage) =
      (seedsFrom start (count * KernelFilterSeeds.threadsPerRun)).flatMap stage := by
  rw [← flatMap_seedsFrom, List.flatMap_assoc]
  rfl

end Batch

section Seeds

variable {F : Type} [Arith F] {cfg : Config} {seed : BitVec 64} {c kept : Candidate}

theorem judge_seed {outcome : Result F → SeedPos → Option SeedPos}
    (hKept : judge F cfg outcome c = some kept) : kept.seed = c.seed := by
  obtain ⟨entry, -, rfl⟩ := Option.map_eq_some_iff.mp hKept
  rfl

theorem tile_seed {place : ℕ × ℕ} (hKept : tile F cfg c place = some kept) : kept.seed = c.seed := by
  obtain ⟨-, hSome⟩ := Option.ite_none_right_eq_some.mp hKept
  cases hSome
  rfl

theorem seed_of_mem_filterGradvecs1 (hMem : c ∈ filterGradvecs1 F cfg seed) :
    c.seed = seed ∧ KernelFilterSeeds.accepts F cfg.large seed = true := by
  rw [filterGradvecs1] at hMem
  split at hMem
  · next hAccepts =>
      obtain ⟨place, -, hWindow⟩ := List.mem_filterMap.mp hMem
      obtain ⟨-, hSome⟩ := Option.ite_none_right_eq_some.mp hWindow
      cases hSome
      exact ⟨rfl, hAccepts⟩
  · cases hMem

theorem seed_of_mem_filter2_0a (hMem : c ∈ filter2_0a F cfg seed) :
    c.seed = seed ∧ KernelFilterSeeds.accepts F cfg.large seed = true := by
  obtain ⟨before, hBefore, hKept⟩ := List.mem_filterMap.mp hMem
  rw [judge_seed hKept]
  exact seed_of_mem_filterGradvecs1 hBefore

theorem seed_of_mem_filterGradvecs2 (hMem : c ∈ filterGradvecs2 F cfg seed) :
    c.seed = seed ∧ KernelFilterSeeds.accepts F cfg.large seed = true := by
  obtain ⟨before, hBefore, hTiles⟩ := List.mem_flatMap.mp hMem
  obtain ⟨place, -, hKept⟩ := List.mem_filterMap.mp hTiles
  rw [tile_seed hKept]
  exact seed_of_mem_filter2_0a hBefore

/-- Every candidate of `filter_2` is of the seed it was searched for. -/
theorem seed_of_mem_filter2 {index : ℕ} (hMem : c ∈ filter2 F cfg seed index) :
    c.seed = seed ∧ KernelFilterSeeds.accepts F cfg.large seed = true := by
  induction index generalizing c with
  | zero =>
      obtain ⟨before, hBefore, hKept⟩ := List.mem_filterMap.mp hMem
      rw [judge_seed hKept]
      exact seed_of_mem_filterGradvecs2 hBefore
  | succ index ih =>
      obtain ⟨before, hBefore, hKept⟩ := List.mem_filterMap.mp hMem
      rw [judge_seed hKept]
      exact ih hBefore

theorem seed_mem_batchSeeds {startSeed : BitVec 64} {index : ℕ}
    (hMem : c ∈ batch (fun seed => filter2 F cfg seed index) startSeed) :
    c.seed ∈ batchSeeds F cfg startSeed := by
  obtain ⟨seed, hSeed, hFound⟩ := List.mem_flatMap.mp hMem
  obtain ⟨hSame, hAccepts⟩ := seed_of_mem_filter2 hFound
  rw [hSame]
  exact List.mem_filter.mpr ⟨hSeed, hAccepts⟩

end Seeds

end Search

end Commission
