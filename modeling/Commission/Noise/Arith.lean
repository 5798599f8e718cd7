import Mathlib.Data.Rat.Floor
import Mathlib.Tactic.Ring

namespace Commission

/-- The single-precision operations of the device code. Nothing is assumed of
them, so a result for every `Arith F` holds for the rounded operations of the
hardware too; results about values use the exact instance on `ℚ`. -/
class Arith (F : Type) extends Add F, Sub F, Mul F where
  /-- `fmaf` -/
  fma : F → F → F → F
  /-- `fabsf` -/
  abs : F → F
  /-- A literal, or a `constexpr double` converted to `float`. -/
  const : ℚ → F
  /-- Conversion from an integer type. -/
  ofInt : ℤ → F
  /-- `__float2int_rd` -/
  floorInt : F → ℤ
  /-- Conversion to an integer type, toward zero. -/
  truncInt : F → ℤ
  lt : F → F → Bool
  le : F → F → Bool

/-- Rounding toward zero, as a C conversion does. -/
def truncRat (q : ℚ) : ℤ :=
  if 0 ≤ q then ⌊q⌋ else ⌈q⌉

/-- Every operation read as exact rational arithmetic. -/
instance Arith.exact : Arith ℚ where
  fma x y z := x * y + z
  abs x := if x < 0 then -x else x
  const q := q
  ofInt n := n
  floorInt q := ⌊q⌋
  truncInt := truncRat
  lt x y := x < y
  le x y := x ≤ y

@[simp] theorem Arith.fma_exact (x y z : ℚ) : Arith.fma x y z = x * y + z := rfl
@[simp] theorem Arith.const_exact (q : ℚ) : (Arith.const q : ℚ) = q := rfl
@[simp] theorem Arith.ofInt_exact (n : ℤ) : (Arith.ofInt n : ℚ) = n := rfl
@[simp] theorem Arith.floorInt_exact (q : ℚ) : Arith.floorInt q = ⌊q⌋ := rfl
@[simp] theorem Arith.truncInt_exact (q : ℚ) : Arith.truncInt q = truncRat q := rfl

instance neZeroByte : NeZero 256 := ⟨by decide⟩

/-- The index `n & 0xFF` of a 256-entry table. -/
def maskByte (n : ℤ) : Fin 256 :=
  ⟨(n % 256).toNat, by have := Int.emod_nonneg n (by decide : (256 : ℤ) ≠ 0); omega⟩

/-- Conversion of an `int` to `uint8_t`. -/
def toByte (n : ℤ) : UInt8 :=
  UInt8.ofNat (maskByte n)

@[simp] theorem maskByte_val (n : ℤ) : ((maskByte n : ℕ) : ℤ) = n % 256 := by
  have := Int.emod_nonneg n (by decide : (256 : ℤ) ≠ 0)
  simp only [maskByte]
  omega

theorem maskByte_congr {m n : ℤ} (h : m % 256 = n % 256) : maskByte m = maskByte n := by
  apply Fin.ext
  simp only [maskByte, h]

@[simp] theorem toByte_toNat (n : ℤ) : ((toByte n).toNat : ℤ) = n % 256 := by
  have h : (toByte n).toNat = (maskByte n : ℕ) := UInt8.toNat_ofNat_of_lt' (maskByte n).isLt
  rw [h, maskByte_val]

end Commission
