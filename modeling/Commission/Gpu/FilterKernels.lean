import Commission.Gpu.Filter2
import Commission.Gpu.Memory

/-! The filter kernels as grid-stride loops which append to a buffer. Shared
copies of tables are left out: they are filled between barriers from device
memory which the kernel does not write. -/
namespace Commission

open AtomicAppend StrideLoop

variable {F : Type} [Arith F]

/-- The record which a kernel writes carries the number of the running batch. -/
def stamp {α : Type} (d : Device F) (value : Option α) : Option (Cell α) :=
  value.map fun value => ⟨value, d.batch⟩

namespace KernelFilterGradVecs1

def gridDim : ℕ := 2048
def blockDim : ℕ := 256

/-- The window `(nx, nz)` of a seed: the record it gives if it is accepted. -/
def testWindow (large : Bool) (d : Device F) (seedIndex : ℕ) (window : ℕ × ℕ) : Option SeedPos :=
  let oct0A := d.noise seedIndex ⟨0, .a⟩
  if accepts deviceKernel0A oct0A window.1 window.2 then
    some ⟨seedIndex, windowX large oct0A.xo window.1, windowZ large oct0A.zo window.2⟩
  else none

/-- One block for one seed at a time; the thread `nz` of it tests the windows of
its row. -/
def kernel (large : Bool) (outputs : OutputBuffer) :
    Kernel (Device F) ℕ (ℕ × ℕ) (Cell SeedPos) where
  threads := gridDim * blockDim
  stride := gridDim
  first t := t / blockDim
  lane _ := 0
  items t := (List.range 256).map fun nx => (nx, t % blockDim)
  fetch _ seedIndex := seedIndex
  test d seedIndex window := stamp d (testWindow large d seedIndex window)
  output := outputs.positions

end KernelFilterGradVecs1

namespace KernelFilterGradVecs2

def gridDim : ℕ := 2048
def blockDim : ℕ := 128

/-- The tile `(tx, tz)` of an input. -/
def testTile (large unbound : Bool) (d : Device F) (input : SeedPos) (tile : ℕ × ℕ) :
    Option SeedPos :=
  let x := tilePos large unbound input.x tile.1
  let z := tilePos large unbound input.z tile.2
  if accepts large deviceKernel0B (d.noise input.seedIndex ⟨0, .b⟩) x z then
    some ⟨input.seedIndex, x, z⟩
  else none

/-- One block for one input at a time; a thread takes every 128th tile of each
column. -/
def kernel (large unbound : Bool) (inputs outputs : OutputBuffer) :
    Kernel (Device F) SeedPos (ℕ × ℕ) (Cell SeedPos) where
  threads := gridDim * blockDim
  stride := gridDim
  first t := t / blockDim
  lane _ := 0
  items t := (List.range (gridWidth large unbound)).flatMap fun tx =>
    (visits (gridWidth large unbound) blockDim 0 (t % blockDim)).map fun tz => (tx, tz)
  fetch d i := (d.positions inputs.data i).value
  test d input tile := stamp d (testTile large unbound d input tile)
  output := outputs.positions

end KernelFilterGradVecs2

/-- The single work item of an input. -/
def wholeInput : ℕ × ℕ := (0, 0)

namespace KernelFilter2Pair

/-- One warp for one input at a time. -/
def kernel {large : Bool} (T : KernelFilter2.Template large) (half : Half)
    (inputs outputs : OutputBuffer) : Kernel (Device F) SeedPos (ℕ × ℕ) (Cell SeedPos) where
  threads := numWarps
  stride := numWarps
  first warp := warp
  lane _ := 0
  items _ := [wholeInput]
  fetch d i := (d.positions inputs.data i).value
  test d input _ := stamp d (outcome T half (d.result input.seedIndex) input)
  output := outputs.positions

end KernelFilter2Pair

def KernelFilter2_0A.kernel (large : Bool) (inputs outputs : OutputBuffer) :
    Kernel (Device F) SeedPos (ℕ × ℕ) (Cell SeedPos) :=
  KernelFilter2Pair.kernel (T large) half inputs outputs

def KernelFilter2_0B.kernel (large : Bool) (inputs outputs : OutputBuffer) :
    Kernel (Device F) SeedPos (ℕ × ℕ) (Cell SeedPos) :=
  KernelFilter2Pair.kernel (T large) half inputs outputs

namespace KernelFilter2

/-- A block takes `inputs_per_block` inputs at a time. The threads of one input
stand for one: `block_input_index` is its lane, and the loop variable is
`block_input_base`. -/
def kernel {large : Bool} (T : Template large) (inputs outputs : OutputBuffer) :
    Kernel (Device F) SeedPos (ℕ × ℕ) (Cell SeedPos) where
  threads := gridDim * T.inputsPerBlock
  stride := gridDim * T.inputsPerBlock
  first t := t / T.inputsPerBlock * T.inputsPerBlock
  lane t := t % T.inputsPerBlock
  items _ := [wholeInput]
  fetch d i := (d.positions inputs.data i).value
  test d input _ := stamp d (outcome T (d.result input.seedIndex) input)
  output := outputs.positions

end KernelFilter2

end Commission
