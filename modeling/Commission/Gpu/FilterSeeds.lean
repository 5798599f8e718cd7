import Commission.Gpu.FilterKernels

/-! The first stage: `KernelFilterSeeds`, which scores the `yo` offsets of six
octaves of every seed of the batch. -/
namespace Commission

open AtomicAppend

namespace KernelFilterSeeds

/-- The state after the draw of `xo`, which a fork shares with the octaves derived
from it. -/
def noiseYoFork (noiseFork : XrsrRandomFork) : XrsrRandomFork :=
  let l := noiseFork.lo
  let h := noiseFork.hi
  -- skip r
  let h := h ^^^ l
  ⟨XrsrRandom.rol64 l 49 ^^^ h ^^^ h <<< 21, XrsrRandom.rol64 h 28⟩

def octaveYoForkHash (hash : XrsrForkHash) : XrsrForkHash :=
  let rng := (XrsrRandom.make hash.lo hash.hi).nextInternal.2
  ⟨rng.lo, rng.hi⟩

section Score

variable {F : Type} [Arith F]

/-- The fractional part of `yo` of an octave. -/
def octaveYoMod1 (config : OctaveConfig) (noiseYoFork : XrsrRandomFork) : F :=
  let forkHash := octaveYoForkHash config.forkHash
  -- skip state update
  let l := noiseYoFork.lo ^^^ forkHash.lo
  let h := noiseYoFork.hi ^^^ forkHash.hi
  let r := XrsrRandom.rol64 (l + h) 17 + l
  Arith.ofInt (r >>> 32 &&& 0xFFFFFF#64).toNat * Arith.const (1 / 2 ^ 24)

def maxScore : ℚ := 38 / 1000

/-- The terms which are added to the one of octave 0A, in order. -/
def laterTerms : List (ℚ × Member) :=
  [(35 / 100, ⟨0, .b⟩), (11 / 100, ⟨1, .a⟩), (11 / 100, ⟨1, .b⟩), (4 / 100, ⟨2, .a⟩),
   (4 / 100, ⟨2, .b⟩)]

/-- The tests from a score on: the thread returns as soon as the score is too
large. -/
def scoreStaysBelow (term : ℚ → Member → F) : F → List (ℚ × Member) → Bool
  | score, [] => !Arith.le (Arith.const maxScore) score
  | score, (weight, member) :: rest =>
      if Arith.le (Arith.const maxScore) score then false
      else scoreStaysBelow term (score + term weight member) rest

def accepts (F : Type) [Arith F] (large : Bool) (seed : BitVec 64) : Bool :=
  let noiseA := (noiseRandom large seed).fork
  let noiseB := noiseA.2.fork
  let yoFork : Half → XrsrRandomFork
    | .a => noiseYoFork noiseA.1
    | .b => noiseYoFork noiseB.1
  let term (weight : ℚ) (member : Member) : F :=
    Arith.const weight *
      Arith.abs (octaveYoMod1 (octaveConfig large member) (yoFork member.half) - Arith.const (1 / 2))
  scoreStaysBelow term (term (35 / 100) ⟨0, .a⟩) laterTerms

/-- One thread for each seed of the batch. -/
def kernel (large : Bool) (startSeed : BitVec 64) (outputs : OutputBuffer) :
    Kernel (Device F) (BitVec 64) Unit (Cell (BitVec 64)) where
  threads := threadsPerRun
  stride := threadsPerRun
  first index := index
  lane _ := 0
  items _ := [()]
  fetch _ index := startSeed + BitVec.ofNat 64 index
  test d seed _ := stamp d (if accepts F large seed then some seed else none)
  output := outputs.seeds

end Score

end KernelFilterSeeds

end Commission
