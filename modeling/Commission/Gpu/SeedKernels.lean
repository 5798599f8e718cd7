import Commission.Gpu.Memory

/-! The kernels which fill `results`: `KernelSeed1::kernel` for the first octaves
of all seeds and `KernelSeed1::late_kernel<Stage>` for later octaves of the seeds
which are still needed. -/
namespace Commission

open ThreadPool

variable {F : Type}

/-- A write of one `uint4` of an octave. -/
def Device.copyWord (d : Device F) (seedIndex : ℕ) (member : Member) (word : ℕ)
    (noise : ImprovedNoise F) : Device F :=
  { d with
    results := fun s m w =>
      if s = seedIndex ∧ m = member ∧ w = word then ⟨noise, d.batch⟩ else d.results s m w }

namespace KernelSeed1

def gridDim : ℕ := threadsPerRun / threadsPerBlock

def totalU4 : ℕ := threadsPerBlock * u4PerStruct

/-- Device memory, the arrays `shared_noise` of all blocks by thread number, and
how often each thread has arrived at a barrier. -/
structure Memory (F : Type) where
  device : Device F
  sharedNoise : ℕ → ImprovedNoise F
  arrived : ℕ → ℕ

def blockBase (t : ℕ) : ℕ := t / threadsPerBlock * threadsPerBlock

namespace Memory

def arrive (m : Memory F) (t : ℕ) : Memory F :=
  { m with arrived := Function.update m.arrived t (m.arrived t + 1) }

/-- `__syncthreads` lets thread `t` go on: all threads of its block have arrived
as often as itself. -/
def allArrived (m : Memory F) (t : ℕ) : Bool :=
  (List.range threadsPerBlock).all fun place => m.arrived t ≤ m.arrived (blockBase t + place)

end Memory

/-- Where a thread is in `init_octave`: before `init_noise`, at the first barrier,
in the loop of `copy_noise`, or at the second barrier. -/
inductive Phase where
  | init
  | filled
  | waitFilled
  | copy (i : ℕ)
  | copied
  | waitCopied

/-- Where a thread of the kernel is; `run` has the remaining calls, the current
one included. -/
inductive Pc where
  | entry
  | load
  | run (seed : BitVec 64) (calls : List InitCall) (phase : Phase)
  | done

section InitSeeds

variable [Arith F] (fuel : ℕ) (large : Bool)

/-- The loop body of `copy_noise` for flat index `i`. -/
def copyNoise (inputLen t : ℕ) (member : Member) (i : ℕ) (m : Memory F) : Memory F :=
  let structIdx := i / u4PerStruct
  let wordIdx := i % u4PerStruct
  if blockBase t + structIdx < inputLen then
    { m with
      device := m.device.copyWord (blockBase t + structIdx) member wordIdx
        (m.sharedNoise (blockBase t + structIdx)) }
  else m

/-- One step of `init_octave`. A thread whose `init_noise` is still in a rejection
loop makes no step. -/
def initOctave (inputLen t : ℕ) (seed : BitVec 64) (call : InitCall) (rest : List InitCall) :
    Phase → Memory F → Option (Pc × Memory F)
  | .init, m =>
      if t < inputLen then
        (call.noise fuel large seed).map fun noise =>
          (.run seed (call :: rest) .filled,
            { m with sharedNoise := Function.update m.sharedNoise t noise })
      else some (.run seed (call :: rest) .filled, m)
  | .filled, m => some (.run seed (call :: rest) .waitFilled, m.arrive t)
  | .waitFilled, m =>
      if m.allArrived t then some (.run seed (call :: rest) (.copy (t % threadsPerBlock)), m)
      else none
  | .copy i, m =>
      if i < totalU4 then
        some (.run seed (call :: rest) (.copy (i + threadsPerBlock)),
          copyNoise inputLen t call.member i m)
      else some (.run seed (call :: rest) .copied, m)
  | .copied, m => some (.run seed (call :: rest) .waitCopied, m.arrive t)
  | .waitCopied, m => if m.allArrived t then some (.run seed rest .init, m) else none

/-- One step of thread `t` of `KernelSeed1::kernel`. -/
def step (inputLen t : ℕ) : Pc → Memory F → Option (Pc × Memory F)
  | .entry, m => if inputLen ≤ blockBase t then some (.done, m) else some (.load, m)
  | .load, m =>
      let seed := if t < inputLen then (m.device.seeds t).value else 0
      some (.run seed kernelCalls .init, m)
  | .run _ [] _, m => some (.done, m)
  | .run seed (call :: rest) phase, m => initOctave fuel large inputLen t seed call rest phase m
  | .done, _ => none

def halted : Pc → Bool
  | .done => true
  | _ => false

/-- `KernelSeed1::kernel` for an input of length `inputLen`. -/
def kernel (inputLen : ℕ) : Program (Memory F) Pc Unit where
  threads := gridDim * threadsPerBlock
  launch _ := .entry
  step := step fuel large inputLen
  halted := halted
  observe _ _ _ := []

end InitSeeds

/-- Where a thread of the late kernel is, with its loop variable: at the loop test,
before `atomicCAS`, before it loads the seed, before the next octave, or before it
copies a word. -/
inductive LatePc (F : Type) where
  | loop (i : ℕ)
  | cas (i seedIndex : ℕ)
  | load (i seedIndex : ℕ)
  | init (i seedIndex : ℕ) (seed : BitVec 64) (calls : List InitCall)
  | copy (i seedIndex : ℕ) (seed : BitVec 64) (call : InitCall) (rest : List InitCall)
      (noise : ImprovedNoise F) (word : ℕ)

def lateGridDim : ℕ := 1024

def lateThreads : ℕ := lateGridDim * threadsPerBlock

section Late

variable [Arith F] (fuel : ℕ) (large : Bool) (stage : ℕ)

/-- One step of `late_kernel<stage>`. -/
def lateStep (inputs : OutputBuffer) (inputsLen : ℕ) :
    LatePc F → Device F → Option (LatePc F × Device F)
  | .loop i, d =>
      if i < inputsLen then some (.cas i (d.positions inputs.data i).value.seedIndex, d) else none
  | .cas i seedIndex, d =>
      if d.initFlags seedIndex = stage - 1 then
        some (.load i seedIndex, { d with initFlags := Function.update d.initFlags seedIndex stage })
      else some (.loop ((i + lateThreads) % 2 ^ 32), d)
  | .load i seedIndex, d => some (.init i seedIndex (d.seeds seedIndex).value (lateCalls stage), d)
  | .init i _ _ [], d => some (.loop ((i + lateThreads) % 2 ^ 32), d)
  | .init i seedIndex seed (call :: rest), d =>
      (call.noise fuel large seed).map fun noise => (.copy i seedIndex seed call rest noise 0, d)
  | .copy i seedIndex seed call rest noise word, d =>
      some (if word + 1 < u4PerStruct then .copy i seedIndex seed call rest noise (word + 1)
          else .init i seedIndex seed rest,
        d.copyWord seedIndex call.member word noise)

def lateHalted (inputsLen : ℕ) : LatePc F → Bool
  | .loop i => inputsLen ≤ i
  | _ => false

/-- The seed index of an `atomicCAS` which succeeds. -/
def lateObserve : LatePc F → Device F → List ℕ
  | .cas _ seedIndex, d => if d.initFlags seedIndex = stage - 1 then [seedIndex] else []
  | _, _ => []

/-- `late_kernel<stage>`; the log lists the seeds whose octaves it initialises. -/
def lateKernel (inputs : OutputBuffer) (inputsLen : ℕ) : Program (Device F) (LatePc F) ℕ where
  threads := lateThreads
  launch t := .loop t
  step _ := lateStep fuel large stage inputs inputsLen
  halted := lateHalted inputsLen
  observe _ := lateObserve stage

end Late

end KernelSeed1

end Commission
