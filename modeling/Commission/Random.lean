import Mathlib.Data.BitVec

namespace Commission

/-- The md5 pair which selects one stream of a fork (`XrsrForkHash`). -/
structure XrsrForkHash where
  lo : BitVec 64
  hi : BitVec 64
  deriving DecidableEq, Repr, Inhabited

/-- Two outputs of a parent generator, kept to derive named streams. -/
structure XrsrRandomFork where
  lo : BitVec 64
  hi : BitVec 64
  deriving DecidableEq, Repr

/-- The xoroshiro128++ state of `Random.h`. -/
structure XrsrRandom where
  lo : BitVec 64
  hi : BitVec 64
  deriving DecidableEq, Repr

namespace XrsrRandom

def xrsrMix1 : BitVec 64 := 0xbf58476d1ce4e5b9#64
def xrsrMix2 : BitVec 64 := 0x94d049bb133111eb#64
def xrsrSilverRatio : BitVec 64 := 0x6a09e667f3bcc909#64
def xrsrGoldenRatio : BitVec 64 := 0x9e3779b97f4a7c15#64

def mix64 (a : BitVec 64) : BitVec 64 :=
  let a := (a ^^^ a >>> 30) * xrsrMix1
  let a := (a ^^^ a >>> 27) * xrsrMix2
  a ^^^ a >>> 31

def rol64 (a : BitVec 64) (bits : Nat) : BitVec 64 :=
  a <<< bits ||| a >>> (64 - bits)

/-- The two-word constructor. It replaces the all-zero state by
`-7046029254386353131` and `7640891576956012809`. -/
def make (lo hi : BitVec 64) : XrsrRandom :=
  if lo ||| hi = 0#64 then
    ⟨BitVec.ofInt 64 (-7046029254386353131), BitVec.ofInt 64 7640891576956012809⟩
  else ⟨lo, hi⟩

def setSeed (seed : BitVec 64) : XrsrRandom :=
  let seed := seed ^^^ xrsrSilverRatio
  make (mix64 seed) (mix64 (seed + xrsrGoldenRatio))

/-- One output word and the advanced state. -/
def nextInternal (random : XrsrRandom) : BitVec 64 × XrsrRandom :=
  let l := random.lo
  let h := random.hi
  let r := rol64 (l + h) 17 + l
  let h := h ^^^ l
  (r, ⟨rol64 l 49 ^^^ h ^^^ h <<< 21, rol64 h 28⟩)

def nextBits (random : XrsrRandom) (bits : Nat) : BitVec 64 × XrsrRandom :=
  let draw := random.nextInternal
  (draw.1 >>> (64 - bits), draw.2)

/-- The unbounded `nextInt()`: the low 32 bits of one output word. -/
def nextInt32 (random : XrsrRandom) : Nat × XrsrRandom :=
  let draw := random.nextInternal
  (draw.1.toNat % 2 ^ 32, draw.2)

/-- The loop `while (n < j)` of `nextInt(bound)`, entered with the product
`m = l * bound`. No bound on the number of redraws is known, so `fuel`
limits it and `none` records a loop which is still running. -/
def nextIntLoop (bound j : Nat) : Nat → Nat → XrsrRandom → Option (Nat × XrsrRandom)
  | fuel, m, random =>
      if m % 2 ^ 32 < j then
        match fuel with
        | 0 => none
        | fuel + 1 =>
            let draw := random.nextInt32
            nextIntLoop bound j fuel (draw.1 * bound) draw.2
      else some (m / 2 ^ 32, random)

/-- `nextInt(bound)`. The threshold `(~bound + 1) % bound` is computed in
`uint32_t`, where `~bound + 1` is `2^32 - bound`. -/
def nextInt (fuel bound : Nat) (random : XrsrRandom) : Option (Nat × XrsrRandom) :=
  let draw := random.nextInt32
  let m := draw.1 * bound
  if m % 2 ^ 32 < bound then
    nextIntLoop bound ((2 ^ 32 - bound) % 2 ^ 32 % bound) fuel m draw.2
  else some (m / 2 ^ 32, draw.2)

/-- `nextIntFast(bound)`, without the rejection. -/
def nextIntFast (bound : Nat) (random : XrsrRandom) : Nat × XrsrRandom :=
  let draw := random.nextInt32
  (draw.1 * bound / 2 ^ 32, draw.2)

def nextLong (random : XrsrRandom) : BitVec 64 × XrsrRandom :=
  random.nextInternal

def nextBoolean (random : XrsrRandom) : Bool × XrsrRandom :=
  let draw := random.nextInternal
  (draw.1 &&& 1#64 ≠ 0#64, draw.2)

def fork (random : XrsrRandom) : XrsrRandomFork × XrsrRandom :=
  let lo := random.nextLong
  let hi := lo.2.nextLong
  (⟨lo.1, hi.1⟩, hi.2)

end XrsrRandom

/-- Derive the stream named by `hash`. -/
def XrsrRandomFork.from (noiseFork : XrsrRandomFork) (hash : XrsrForkHash) : XrsrRandom :=
  XrsrRandom.make (noiseFork.lo ^^^ hash.lo) (noiseFork.hi ^^^ hash.hi)

/-- `XrsrRandom_seed_fork`: the unrolled seeding and first fork. The all-zero
fallback of `setSeed` is left out, as in the device code. -/
def xrsrRandomSeedFork (seed : BitVec 64) : XrsrRandomFork :=
  let seed := seed ^^^ XrsrRandom.xrsrSilverRatio
  let l := XrsrRandom.mix64 seed
  let h := XrsrRandom.mix64 (seed + XrsrRandom.xrsrGoldenRatio)
  let r1 := XrsrRandom.rol64 (l + h) 17 + l
  -- update state once
  let h := h ^^^ l
  let l2 := XrsrRandom.rol64 l 49 ^^^ h ^^^ h <<< 21
  let h2 := XrsrRandom.rol64 h 28
  -- skip state update
  let r2 := XrsrRandom.rol64 (l2 + h2) 17 + l2
  ⟨r1, r2⟩

/-- `XrsrRandom_double_fork`: the forks A and B, without the last update. -/
def xrsrRandomDoubleFork (rng : XrsrRandom) : XrsrRandomFork × XrsrRandomFork :=
  let l := rng.lo
  let h := rng.hi
  -- fork A
  let r1 := XrsrRandom.rol64 (l + h) 17 + l
  let h := h ^^^ l
  let l2 := XrsrRandom.rol64 l 49 ^^^ h ^^^ h <<< 21
  let h2 := XrsrRandom.rol64 h 28
  let r2 := XrsrRandom.rol64 (l2 + h2) 17 + l2
  let h2 := h2 ^^^ l2
  let l3 := XrsrRandom.rol64 l2 49 ^^^ h2 ^^^ h2 <<< 21
  let h3 := XrsrRandom.rol64 h2 28
  -- fork B, skip 4th state update
  let r3 := XrsrRandom.rol64 (l3 + h3) 17 + l3
  let h3 := h3 ^^^ l3
  let l4 := XrsrRandom.rol64 l3 49 ^^^ h3 ^^^ h3 <<< 21
  let h4 := XrsrRandom.rol64 h3 28
  let r4 := XrsrRandom.rol64 (l4 + h4) 17 + l4
  (⟨r1, r2⟩, ⟨r3, r4⟩)

/-- The unrolled double fork gives the forks of two successive `fork` calls. -/
theorem xrsrRandomDoubleFork_eq (rng : XrsrRandom) :
    xrsrRandomDoubleFork rng = (rng.fork.1, rng.fork.2.fork.1) := rfl

namespace XrsrRandom

/-- A state which is not all zero passes the constructor unchanged. -/
theorem make_of_ne_zero {lo hi : BitVec 64} (h : lo ||| hi ≠ 0#64) : make lo hi = ⟨lo, hi⟩ :=
  if_neg h

/-- A bounded draw is below its bound, so the table indices built from it
stay inside the table. -/
theorem nextIntLoop_lt {bound j fuel m value : Nat} {random after : XrsrRandom}
    (hm : m < 2 ^ 32 * bound)
    (h : nextIntLoop bound j fuel m random = some (value, after)) : value < bound := by
  induction fuel generalizing m random with
  | zero =>
      rw [nextIntLoop] at h
      split at h
      · cases h
      · cases h
        exact Nat.div_lt_of_lt_mul hm
  | succ fuel ih =>
      rw [nextIntLoop] at h
      split at h
      · refine ih ?_ h
        have hl : random.nextInt32.1 < 2 ^ 32 := Nat.mod_lt _ (by decide)
        have hBound : 0 < bound := Nat.pos_of_ne_zero (by rintro rfl; simp at hm)
        exact Nat.mul_lt_mul_of_pos_right hl hBound
      · cases h
        exact Nat.div_lt_of_lt_mul hm

theorem nextInt_lt {bound fuel value : Nat} {random after : XrsrRandom} (hBound : 0 < bound)
    (h : random.nextInt fuel bound = some (value, after)) : value < bound := by
  have hl : random.nextInt32.1 < 2 ^ 32 := Nat.mod_lt _ (by decide)
  have hm : random.nextInt32.1 * bound < 2 ^ 32 * bound := Nat.mul_lt_mul_of_pos_right hl hBound
  rw [nextInt] at h
  split at h
  · exact nextIntLoop_lt hm h
  · cases h
    exact Nat.div_lt_of_lt_mul hm

end XrsrRandom

end Commission
