import Commission.Gpu.FilterSeeds
import Commission.Gpu.SeedKernels

/-! One pass of the loop in `GpuThread::run` as a sequence of operations on device
memory. All of them are on one stream, so each begins when the one before has
ended; within a kernel the threads take their steps in any order. -/
namespace Commission

open AtomicAppend ThreadPool

/-- The build options and the number of redraws after which a rejection loop is
given up. -/
structure Config where
  large : Bool
  unbound : Bool
  fuel : ℕ

/-- What is put on the stream, named after the stages. `initLate k` stands for
`run_late<k + 1>`. -/
inductive Op where
  | resetLens
  | filterSeeds
  | initSeeds
  | filterGradvecs1
  | filter2_0a
  | filterGradvecs2
  | filter2_0b
  | resetFlags
  | initLate (k : Fin 4)
  | filter2 (index : Fin 4)
  deriving DecidableEq, Repr

namespace Op

/-- The operation which follows in the batch. -/
def next : Op → Option Op
  | resetLens => some filterSeeds
  | filterSeeds => some initSeeds
  | initSeeds => some filterGradvecs1
  | filterGradvecs1 => some filter2_0a
  | filter2_0a => some filterGradvecs2
  | filterGradvecs2 => some filter2_0b
  | filter2_0b => some resetFlags
  | resetFlags => some (initLate 0)
  | initLate k => some (filter2 k)
  | filter2 0 => some (initLate 1)
  | filter2 1 => some (initLate 2)
  | filter2 2 => some (initLate 3)
  | filter2 3 => none

end Op

/-- `*inputs` of the loop over `filter_2`, which `run_late` gets too. -/
def filter2Inputs : Fin 4 → OutputBuffer
  | 0 => outputsFilter2_0b
  | 1 => outputsFilter2 0
  | 2 => outputsFilter2 1
  | 3 => outputsFilter2 2

/-- The buffer whose counter a consumer takes as the length of its input. -/
def Op.inputs : Op → Option OutputBuffer
  | .resetLens | .filterSeeds | .resetFlags => none
  | .initSeeds | .filterGradvecs1 => some outputsFilterSeeds
  | .filter2_0a => some outputsFilterGradvecs1
  | .filterGradvecs2 => some outputsFilter2_0a
  | .filter2_0b => some outputsFilterGradvecs2
  | .initLate k => some (filter2Inputs k)
  | .filter2 index => some (filter2Inputs index)

/-- An access to device memory by an index which the kernel computed or read. -/
inductive Access where
  | input (buffer : OutputBuffer) (index : ℕ)
  | seed (index : ℕ)
  | octave (seedIndex : ℕ) (member : Member)
  | initFlag (seedIndex : ℕ)
  deriving DecidableEq

section Accesses

variable {F ρ : Type}

def KernelFilterGradVecs1.members : List Member := [⟨0, .a⟩]

def KernelFilterGradVecs2.members : List Member := [⟨0, .b⟩]

def KernelFilter2Pair.members (half : Half) : List Member := [⟨0, half⟩, ⟨1, half⟩]

def KernelFilter2.members {large : Bool} (T : Template large) : List Member :=
  ((List.range (min T.octaves 18)).filter fun i => !T.onlyA || i % 2 = 0).map samplerMember

/-- The accesses of the next step of a filter: the entry of its input, if it has
one, and then the octaves which the test samples. -/
def filterAccesses (K : Kernel (Device F) ρ (ℕ × ℕ) (Cell SeedPos)) (n : ℕ)
    (inputs : Option OutputBuffer) (seedIndex : ρ → ℕ) (members : List Member) (t : ℕ) :
    Cursor ρ (ℕ × ℕ) (Cell SeedPos) → List Access
  | .loop i =>
      if i < n ∧ K.index t i < n then inputs.toList.map fun buffer => .input buffer (K.index t i)
      else []
  | .work _ record (_ :: _) => members.map (.octave (seedIndex record))
  | _ => []

namespace KernelSeed1

def accesses (inputLen t : ℕ) : Pc → List Access
  | .load => if t < inputLen then [.seed t] else []
  | .run _ (call :: _) (.copy i) =>
      if i < totalU4 ∧ blockBase t + i / u4PerStruct < inputLen then
        [.octave (blockBase t + i / u4PerStruct) call.member]
      else []
  | _ => []

def lateAccesses (inputs : OutputBuffer) (inputsLen : ℕ) : LatePc F → List Access
  | .loop i => if i < inputsLen then [.input inputs i] else []
  | .cas _ seedIndex => [.initFlag seedIndex]
  | .load _ seedIndex => [.seed seedIndex]
  | .copy _ seedIndex _ call _ _ _ => [.octave seedIndex call.member]
  | .init .. => []

end KernelSeed1

end Accesses

/-- An operation at some moment: device memory, what the next step of any thread
may access, the seeds initialised so far, and whether it has ended. -/
structure Snapshot (F : Type) where
  device : Device F
  accesses : Set Access
  inits : List ℕ
  finished : Prop

section Executes

variable {F ρ : Type} [Arith F]

/-- A moment in a run of a filter for as many inputs as the counter says. -/
def ExecutesFilter (K : Kernel (Device F) ρ (ℕ × ℕ) (Cell SeedPos)) (n : ℕ)
    (inputs : Option OutputBuffer) (seedIndex : ρ → ℕ) (members : List Member) (d : Device F)
    (moment : Snapshot F) : Prop :=
  ∃ schedule pool, (K.program n).run ((K.program n).start d) schedule = some pool ∧
    moment = ⟨pool.mem,
      { access | ∃ t < K.threads,
        access ∈ filterAccesses K n inputs seedIndex members t (pool.locals t) },
      [], (K.program n).Finished pool⟩

/-- The moments of an operation which begins with memory `d`. -/
def Executes (cfg : Config) (d : Device F) (moment : Snapshot F) : Op → Prop
  | .resetLens => moment = ⟨{ d with lens := fun _ => 0 }, ∅, [], True⟩
  | .filterSeeds => ∃ startSeed schedule pool,
      let P := (KernelFilterSeeds.kernel cfg.large startSeed outputsFilterSeeds).program
        KernelFilterSeeds.threadsPerRun
      P.run (P.start d) schedule = some pool ∧ moment = ⟨pool.mem, ∅, [], P.Finished pool⟩
  | .initSeeds => ∃ shared schedule pool,
      let P := KernelSeed1.kernel cfg.fuel cfg.large (d.lens outputsFilterSeeds.len)
      P.run (P.start ⟨d, shared, fun _ => 0⟩) schedule = some pool ∧
        moment = ⟨pool.mem.device,
          { access | ∃ t < P.threads, access ∈
            KernelSeed1.accesses (d.lens outputsFilterSeeds.len) t (pool.locals t) },
          [], P.Finished pool⟩
  | .filterGradvecs1 =>
      ExecutesFilter (KernelFilterGradVecs1.kernel cfg.large outputsFilterGradvecs1)
        (d.lens outputsFilterSeeds.len) none id KernelFilterGradVecs1.members d moment
  | .filter2_0a =>
      ExecutesFilter (KernelFilter2_0A.kernel cfg.large outputsFilterGradvecs1 outputsFilter2_0a)
        (d.lens outputsFilterGradvecs1.len) (some outputsFilterGradvecs1) SeedPos.seedIndex
        (KernelFilter2Pair.members KernelFilter2_0A.half) d moment
  | .filterGradvecs2 =>
      ExecutesFilter (KernelFilterGradVecs2.kernel cfg.large cfg.unbound outputsFilter2_0a
          outputsFilterGradvecs2)
        (d.lens outputsFilter2_0a.len) (some outputsFilter2_0a) SeedPos.seedIndex
        KernelFilterGradVecs2.members d moment
  | .filter2_0b =>
      ExecutesFilter (KernelFilter2_0B.kernel cfg.large outputsFilterGradvecs2 outputsFilter2_0b)
        (d.lens outputsFilterGradvecs2.len) (some outputsFilterGradvecs2) SeedPos.seedIndex
        (KernelFilter2Pair.members KernelFilter2_0B.half) d moment
  | .resetFlags =>
      moment = ⟨{ d with
        initFlags := fun s => if s < KernelSeed1.threadsPerRun then 0 else d.initFlags s },
        ∅, [], True⟩
  | .initLate k => ∃ schedule pool,
      let P := KernelSeed1.lateKernel cfg.fuel cfg.large (k + 1) (filter2Inputs k)
        (d.lens (filter2Inputs k).len)
      P.run (P.start d) schedule = some pool ∧
        moment = ⟨pool.mem,
          { access | ∃ t < P.threads, access ∈
            KernelSeed1.lateAccesses (filter2Inputs k) (d.lens (filter2Inputs k).len)
              (pool.locals t) },
          pool.log, P.Finished pool⟩
  | .filter2 index =>
      ExecutesFilter (KernelFilter2.kernel (filter2Runs cfg.large index) (filter2Inputs index)
          (outputsFilter2 index))
        (d.lens (filter2Inputs index).len) (some (filter2Inputs index)) SeedPos.seedIndex
        (KernelFilter2.members (filter2Runs cfg.large index)) d moment

end Executes

section Conditions

variable {F : Type}

/-- All contents of the buffers are from before the running batch. -/
structure Device.Old (d : Device F) : Prop where
  seeds : ∀ s, (d.seeds s).batch < d.batch
  results : ∀ s member word, (d.results s member word).batch < d.batch
  positions : ∀ buffer i, (d.positions buffer i).batch < d.batch

def outputBuffers : List OutputBuffer :=
  [outputsFilterSeeds, outputsFilterGradvecs1, outputsFilter2_0a, outputsFilterGradvecs2,
   outputsFilter2_0b, outputsFilter2 0, outputsFilter2 1, outputsFilter2 2, outputsFilter2 3]

/-- No counter is beyond the end of its buffer. -/
def NoOverflow (_ : Op) (d : Device F) : Prop :=
  ∀ buffer ∈ outputBuffers, d.lens buffer.len ≤ buffer.maxLen

/-- The counter which the operation takes as its input length is not beyond the
end of the buffer; `KernelSeed1::kernel` has one thread for each slot and needs no
such condition. -/
def InputFits (op : Op) (d : Device F) : Prop :=
  op ≠ .initSeeds → ∀ buffer, op.inputs = some buffer → d.lens buffer.len ≤ buffer.maxLen

theorem filter2Inputs_mem : ∀ k, filter2Inputs k ∈ outputBuffers := by decide

theorem InputFits.of_noOverflow {op : Op} {d : Device F} (hFits : NoOverflow op d) :
    InputFits op d := by
  intro _ buffer hInputs
  apply hFits buffer
  cases op with
  | resetLens | filterSeeds | resetFlags => cases hInputs
  | initSeeds | filterGradvecs1 | filter2_0a | filterGradvecs2 | filter2_0b =>
      cases hInputs
      decide
  | initLate k | filter2 k =>
      cases hInputs
      exact filter2Inputs_mem k

end Conditions

/-- Runs of any number of batches in which every operation began in a state with
`Ok`: the next operation, the memory before it, and the initialisations of the
running batch, each with the operation which made it. -/
inductive Reach {F : Type} [Arith F] (cfg : Config) (Ok : Op → Device F → Prop) :
    Op → Device F → List (Op × ℕ) → Prop where
  | start {d : Device F} (hOld : d.Old) : Reach cfg Ok .resetLens d []
  | step {op next : Op} {d : Device F} {inits : List (Op × ℕ)} {moment : Snapshot F}
      (hReach : Reach cfg Ok op d inits) (hOk : Ok op d) (hExecutes : Executes cfg d moment op)
      (hFinished : moment.finished) (hNext : op.next = some next) :
      Reach cfg Ok next moment.device (inits ++ moment.inits.map fun s => (op, s))
  | batch {op : Op} {d : Device F} {inits : List (Op × ℕ)} {moment : Snapshot F}
      (hReach : Reach cfg Ok op d inits) (hOk : Ok op d) (hExecutes : Executes cfg d moment op)
      (hFinished : moment.finished) (hLast : op.next = none) :
      Reach cfg Ok .resetLens { moment.device with batch := moment.device.batch + 1 } []

end Commission
