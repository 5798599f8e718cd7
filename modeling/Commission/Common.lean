import Mathlib.Data.Nat.Notation

/-! The types which every thread of the program shares. -/
namespace Commission

structure GpuOutput where
  seed : BitVec 64
  x : BitVec 32
  z : BitVec 32
  deriving DecidableEq, Repr, Inhabited

structure CpuOutput where
  seed : BitVec 64
  x : BitVec 32
  z : BitVec 32
  score : BitVec 32
  deriving DecidableEq, Repr, Inhabited

/-- `net_handshake` as bytes: `OMISSION-GPU LB` or `OMISSION-GPU SB` and a newline. -/
def netHandshake (large : Bool) : List UInt8 :=
  ['O', 'M', 'I', 'S', 'S', 'I', 'O', 'N', '-', 'G', 'P', 'U', ' ', if large then 'L' else 'S',
    'B', '\n'].map fun c => UInt8.ofNat c.toNat

@[simp] theorem netHandshake_length (large : Bool) : (netHandshake large).length = 16 := rfl

end Commission
