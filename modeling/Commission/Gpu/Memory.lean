import Commission.Gpu.Buffers
import Commission.Library.AtomicAppend

/-! The memory of one device, and the output buffers as parts of it. -/
namespace Commission

/-- A value in device memory with the number of the batch which wrote it. -/
structure Cell (α : Type) where
  value : α
  batch : ℕ

/-- `sizeof(ImprovedNoise) / sizeof(uint4)`: sixteen words of the table and one
with the offsets. -/
def u4PerStruct : ℕ := 17

/-- Device memory. `results` is kept word by word: a word holds its part of the
noise which was copied there last. `positions` is the content of `buffer_1` and
`buffer_2` as `SeedPos`; `batch` is the number of the running batch. -/
structure Device (F : Type) where
  lens : BufferLens
  seeds : ℕ → Cell (BitVec 64)
  results : ℕ → Member → ℕ → Cell (ImprovedNoise F)
  initFlags : ℕ → ℕ
  positions : DeviceBuffer → ℕ → Cell SeedPos
  batch : ℕ

namespace Device

variable {F : Type} (d : Device F)

/-- The octave which a kernel reads from `results[seed_index]`, put together from
its words. -/
def noise (seedIndex : ℕ) (member : Member) : ImprovedNoise F :=
  let word := d.results seedIndex member
  { p := fun i => (word (i / 16)).value.p i
    xo := (word 16).value.xo
    yo := (word 16).value.yo
    zo := (word 16).value.zo }

def result (seedIndex : ℕ) : Result F := d.noise seedIndex

/-- Every word of the octave was written in the running batch with a part of
`noise`. -/
def HoldsNoise (seedIndex : ℕ) (member : Member) (noise : ImprovedNoise F) : Prop :=
  ∀ word < u4PerStruct, d.results seedIndex member word = ⟨noise, d.batch⟩

theorem HoldsNoise.noise_eq {d : Device F} {seedIndex : ℕ} {member : Member}
    {noise : ImprovedNoise F} (hHolds : d.HoldsNoise seedIndex member noise) :
    d.noise seedIndex member = noise := by
  have hOffsets := hHolds 16 (by decide)
  have hTable : ∀ i : Fin 256, (d.results seedIndex member (i / 16)).value.p i = noise.p i := by
    intro i
    have hWord : i.val / 16 < u4PerStruct := by
      have hLt := i.isLt
      simp only [u4PerStruct]
      omega
    rw [hHolds (i / 16) hWord]
  simp only [Device.noise, hOffsets]
  congr 1
  funext i
  exact hTable i

end Device

variable {F : Type}

/-- An `OutputBuffer<SeedPos>` in device memory. -/
def OutputBuffer.positions (buffer : OutputBuffer) :
    AtomicAppend.Output (Device F) (Cell SeedPos) where
  maxLen := buffer.maxLen
  len d := d.lens buffer.len
  setLen d len := { d with lens := Function.update d.lens buffer.len len }
  data d := d.positions buffer.data
  store d slot out := { d with
    positions := Function.update d.positions buffer.data
      (Function.update (d.positions buffer.data) slot out) }
  len_setLen _ _ := by simp
  data_setLen _ _ := rfl
  len_store _ _ _ := rfl
  data_store _ _ _ := by simp

/-- An `OutputBuffer<uint64_t>` in device memory. -/
def OutputBuffer.seeds (buffer : OutputBuffer) :
    AtomicAppend.Output (Device F) (Cell (BitVec 64)) where
  maxLen := buffer.maxLen
  len d := d.lens buffer.len
  setLen d len := { d with lens := Function.update d.lens buffer.len len }
  data d := d.seeds
  store d slot out := { d with seeds := Function.update d.seeds slot out }
  len_setLen _ _ := by simp
  data_setLen _ _ := rfl
  len_store _ _ _ := rfl
  data_store _ _ _ := rfl

theorem OutputBuffer.maxLen_lt (buffer : OutputBuffer) : buffer.maxLen < 2 ^ 32 := by
  rw [OutputBuffer.maxLen]
  cases buffer.data <;> decide

end Commission
