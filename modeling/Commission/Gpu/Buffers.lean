import Commission.Gpu.GradVecs

/-! The device allocations of `GpuThread::run` and the output buffers which it
lays over them. -/
namespace Commission

/-- The counters of `BufferLens`. -/
inductive LenId where
  | filterSeeds
  | filterGradvecs1
  | filter2_0a
  | filter2_0b
  | filterGradvecs2
  | filter2 (index : Fin 7)
  deriving DecidableEq, Repr

/-- The values of `BufferLens`, in device memory or in the host copy. -/
abbrev BufferLens := LenId → ℕ

namespace KernelFilterSeeds

def threadsPerBlock : ℕ := 256
def threadsPerRun : ℕ := 2 ^ 28

end KernelFilterSeeds

namespace KernelSeed1

def threadsPerRun : ℕ := 2 ^ 16
def threadsPerBlock : ℕ := 32

end KernelSeed1

def KernelFilterGradVecs2.threadsPerSeed (large unbound : Bool) : ℕ :=
  gridWidth large unbound * gridWidth large unbound

/-- The allocations which hold outputs of a stage. -/
inductive DeviceBuffer where
  | seeds
  | one
  | two
  deriving DecidableEq, Repr

def sizeofSeed : ℕ := 8
def sizeofSeedPos : ℕ := 12

namespace DeviceBuffer

/-- Bytes of the allocation. -/
def size : DeviceBuffer → ℕ
  | seeds => sizeofSeed * KernelSeed1.threadsPerRun
  | one => 2 ^ 31
  | two => 2 ^ 29

/-- Bytes of one element: `uint64_t` or `SeedPos`. -/
def sizeofElement : DeviceBuffer → ℕ
  | seeds => sizeofSeed
  | one => sizeofSeedPos
  | two => sizeofSeedPos

end DeviceBuffer

/-- `OutputBuffer<T>`: a view of an allocation with its own counter. -/
structure OutputBuffer where
  data : DeviceBuffer
  len : LenId
  deriving DecidableEq, Repr

/-- The elements which fit into the allocation. -/
def OutputBuffer.maxLen (buffer : OutputBuffer) : ℕ :=
  buffer.data.size / buffer.data.sizeofElement

def outputsFilterSeeds : OutputBuffer := ⟨.seeds, .filterSeeds⟩
def outputsFilterGradvecs1 : OutputBuffer := ⟨.two, .filterGradvecs1⟩
def outputsFilter2_0a : OutputBuffer := ⟨.one, .filter2_0a⟩
def outputsFilterGradvecs2 : OutputBuffer := ⟨.two, .filterGradvecs2⟩
def outputsFilter2_0b : OutputBuffer := ⟨.two, .filter2_0b⟩

/-- `filter_2[i].outputs` -/
def outputsFilter2 (i : Fin 4) : OutputBuffer :=
  ⟨if i.val % 2 = 0 then .one else .two, .filter2 (i.castLE (by decide))⟩

@[simp] theorem outputsFilterSeeds_maxLen : outputsFilterSeeds.maxLen = 65536 := rfl
@[simp] theorem outputsFilterGradvecs1_maxLen : outputsFilterGradvecs1.maxLen = 44739242 := rfl
@[simp] theorem outputsFilter2_0a_maxLen : outputsFilter2_0a.maxLen = 178956970 := rfl
@[simp] theorem outputsFilterGradvecs2_maxLen : outputsFilterGradvecs2.maxLen = 44739242 := rfl
@[simp] theorem outputsFilter2_0b_maxLen : outputsFilter2_0b.maxLen = 44739242 := rfl

end Commission
