import Commission.Gpu.YoScore
import Commission.Library.DistinctValues

/-! The words which `KernelFilterSeeds` takes for `yo` of octave 0A, computed on numbers, and a
value of them which few seeds of the first batch have. -/
namespace Commission

namespace XrsrRandom

/-! The functions of the generator with numbers for words. They are applied by name, so that
`decide` needs not unfold the operators. -/

def wrapNat (a : ℕ) : ℕ := Nat.mod a 18446744073709551616

def rol64Nat (a bits rest : ℕ) : ℕ := Nat.lor (wrapNat (Nat.shiftLeft a bits)) (Nat.shiftRight a rest)

def mixStepNat (a bits factor : ℕ) : ℕ := wrapNat (Nat.mul (Nat.xor a (Nat.shiftRight a bits)) factor)

def mixLastNat (a : ℕ) : ℕ := Nat.xor a (Nat.shiftRight a 31)

def mix64Nat (a : ℕ) : ℕ :=
  mixLastNat (mixStepNat (mixStepNat a 30 0xbf58476d1ce4e5b9) 27 0x94d049bb133111eb)

def outputNat (l h : ℕ) : ℕ := wrapNat (Nat.add (rol64Nat (wrapNat (Nat.add l h)) 17 47) l)

def advanceLoNat (l h : ℕ) : ℕ := Nat.xor (Nat.xor (rol64Nat l 49 15) h) (wrapNat (Nat.shiftLeft h 21))

def advanceHiNat (h : ℕ) : ℕ := rol64Nat h 28 36

variable (a l h : BitVec 64)

theorem wrapNat_eq (a : ℕ) : wrapNat a = a % 2 ^ 64 := rfl

theorem rol64_toNat (bits rest : ℕ) (hRest : 64 - bits = rest) :
    (rol64 a bits).toNat = rol64Nat a.toNat bits rest := by
  rw [rol64, hRest, BitVec.toNat_or, BitVec.toNat_shiftLeft, BitVec.toNat_ushiftRight, ← wrapNat_eq]
  rfl

theorem mixStep_toNat (bits : ℕ) (factor : BitVec 64) :
    ((a ^^^ a >>> bits) * factor).toNat = mixStepNat a.toNat bits factor.toNat := by
  rw [BitVec.toNat_mul, BitVec.toNat_xor, BitVec.toNat_ushiftRight, ← wrapNat_eq]
  rfl

theorem mixLast_toNat : (a ^^^ a >>> 31).toNat = mixLastNat a.toNat := by
  rw [BitVec.toNat_xor, BitVec.toNat_ushiftRight]
  rfl

theorem mix64_toNat : (mix64 a).toNat = mix64Nat a.toNat := by
  have hMix1 : xrsrMix1.toNat = 0xbf58476d1ce4e5b9 := by decide
  have hMix2 : xrsrMix2.toNat = 0x94d049bb133111eb := by decide
  rw [mix64, mixLast_toNat, mixStep_toNat, mixStep_toNat, hMix1, hMix2, mix64Nat]

theorem output_toNat : (rol64 (l + h) 17 + l).toNat = outputNat l.toNat h.toNat := by
  rw [BitVec.toNat_add, rol64_toNat (l + h) 17 47 rfl, BitVec.toNat_add, ← wrapNat_eq, ← wrapNat_eq]
  rfl

theorem advanceLo_toNat : (rol64 l 49 ^^^ (h ^^^ l) ^^^ (h ^^^ l) <<< 21).toNat =
    advanceLoNat l.toNat (Nat.xor h.toNat l.toNat) := by
  have hHigh : (h ^^^ l).toNat = Nat.xor h.toNat l.toNat := BitVec.toNat_xor h l
  rw [BitVec.toNat_xor, BitVec.toNat_xor, BitVec.toNat_shiftLeft, rol64_toNat l 49 15 rfl, hHigh,
    ← wrapNat_eq]
  rfl

theorem advanceHi_toNat :
    (rol64 (h ^^^ l) 28).toNat = advanceHiNat (Nat.xor h.toNat l.toNat) := by
  have hHigh : (h ^^^ l).toNat = Nat.xor h.toNat l.toNat := BitVec.toNat_xor h l
  rw [rol64_toNat (h ^^^ l) 28 36 rfl, hHigh]
  rfl

end XrsrRandom

namespace KernelFilterSeeds

open XrsrRandom DistinctValues

/-- The lower half of the word of octave 0A, which `octave_yo_mod1` takes 24 bits of. -/
def rowOfSeed (seed : BitVec 64) : ℕ :=
  (octaveYoBits (octaveConfig true ⟨0, .a⟩) (noiseYoFork (noiseRandom true seed).fork.1)).toNat %
    2 ^ 16

/-- The word of the advanced fork and the hash of octave 0A. -/
def yoWordNat (l h : ℕ) : ℕ :=
  outputNat (Nat.xor (advanceLoNat l (Nat.xor h l)) 0x9296f062de440efb)
    (Nat.xor (advanceHiNat (Nat.xor h l)) 0x31e5b767b7b7324a)

/-- The fork A of a state of `noise_random`, and its word. -/
def forkWordNat (l h : ℕ) : ℕ :=
  yoWordNat (outputNat l h) (outputNat (advanceLoNat l (Nat.xor h l)) (advanceHiNat (Nat.xor h l)))

def rowNatFrom (l h : ℕ) : ℕ := Nat.mod (Nat.shiftRight (forkWordNat l h) 32) 65536

/-- The constructor of `noise_random`. -/
def rowNatMake (l h : ℕ) : ℕ :=
  if Nat.beq (Nat.lor l h) 0 then rowNatFrom 0x9e3779b97f4a7c15 0x6a09e667f3bcc909
  else rowNatFrom l h

def rowNatFork (l h : ℕ) : ℕ :=
  rowNatMake (Nat.xor (outputNat l h) 0x9a3f51a113fce8dc)
    (Nat.xor (outputNat (advanceLoNat l (Nat.xor h l)) (advanceHiNat (Nat.xor h l))) 0xee2dbd157e5dcdad)

def rowNatMixed (seed : ℕ) : ℕ :=
  rowNatFork (mix64Nat seed) (mix64Nat (wrapNat (Nat.add seed 0x9e3779b97f4a7c15)))

/-- `rowOfSeed` with numbers for words. -/
def rowNat (seed : ℕ) : ℕ := rowNatMixed (Nat.xor seed 0x6a09e667f3bcc909)

theorem noiseYoFork_toNat (noiseFork : XrsrRandomFork) :
    (noiseYoFork noiseFork).lo.toNat =
        advanceLoNat noiseFork.lo.toNat (Nat.xor noiseFork.hi.toNat noiseFork.lo.toNat) ∧
      (noiseYoFork noiseFork).hi.toNat =
        advanceHiNat (Nat.xor noiseFork.hi.toNat noiseFork.lo.toNat) :=
  ⟨advanceLo_toNat _ _, advanceHi_toNat _ _⟩

theorem octaveYoWord_toNat (config : OctaveConfig) (noiseFork : XrsrRandomFork) :
    (octaveYoWord config noiseFork).toNat =
      outputNat (Nat.xor noiseFork.lo.toNat (octaveYoForkHash config.forkHash).lo.toNat)
        (Nat.xor noiseFork.hi.toNat (octaveYoForkHash config.forkHash).hi.toNat) := by
  rw [octaveYoWord, output_toNat, BitVec.toNat_xor, BitVec.toNat_xor]
  rfl

/-- Two outputs one after the other. -/
theorem outputs_toNat (l h : BitVec 64) :
    (rol64 ((rol64 l 49 ^^^ (h ^^^ l) ^^^ (h ^^^ l) <<< 21) + rol64 (h ^^^ l) 28) 17 +
        (rol64 l 49 ^^^ (h ^^^ l) ^^^ (h ^^^ l) <<< 21)).toNat =
      outputNat (advanceLoNat l.toNat (Nat.xor h.toNat l.toNat))
        (advanceHiNat (Nat.xor h.toNat l.toNat)) := by
  rw [output_toNat, advanceLo_toNat, advanceHi_toNat]

theorem rowNatFrom_toNat (random : XrsrRandom) :
    (octaveYoBits (octaveConfig true ⟨0, .a⟩) (noiseYoFork random.fork.1)).toNat % 2 ^ 16 =
      rowNatFrom random.lo.toNat random.hi.toNat := by
  have hForkLo : (octaveYoForkHash (octaveConfig true ⟨0, .a⟩).forkHash).lo.toNat =
      0x9296f062de440efb := by decide +kernel
  have hForkHi : (octaveYoForkHash (octaveConfig true ⟨0, .a⟩).forkHash).hi.toNat =
      0x31e5b767b7b7324a := by decide +kernel
  have hMask : (0xFFFFFF#64).toNat = 2 ^ 24 - 1 := by decide
  have hLower (n : ℕ) : n % 2 ^ 24 % 2 ^ 16 = n % 2 ^ 16 :=
    Nat.mod_mod_of_dvd n (by decide)
  have hLo : random.fork.1.lo.toNat = outputNat random.lo.toNat random.hi.toNat := output_toNat _ _
  have hHi : random.fork.1.hi.toNat =
      outputNat (advanceLoNat random.lo.toNat (Nat.xor random.hi.toNat random.lo.toNat))
        (advanceHiNat (Nat.xor random.hi.toNat random.lo.toNat)) := outputs_toNat _ _
  rw [octaveYoBits, BitVec.toNat_and, BitVec.toNat_ushiftRight, octaveYoWord_toNat, hMask,
    Nat.and_two_pow_sub_one_eq_mod, hLower, (noiseYoFork_toNat _).1, (noiseYoFork_toNat _).2,
    hLo, hHi, hForkLo, hForkHi]
  rfl

theorem rowNatMake_toNat (lo hi : BitVec 64) :
    rowNatFrom (make lo hi).lo.toNat (make lo hi).hi.toNat = rowNatMake lo.toNat hi.toNat := by
  have hZero : lo ||| hi = 0#64 ↔ Nat.beq (Nat.lor lo.toNat hi.toNat) 0 = true := by
    rw [Nat.beq_eq, ← BitVec.toNat_inj, BitVec.toNat_or]
    rfl
  rw [make, rowNatMake]
  by_cases hWords : lo ||| hi = 0#64
  · rw [if_pos hWords, if_pos (hZero.mp hWords)]
    rfl
  · rw [if_neg hWords, if_neg (mt hZero.mpr hWords)]

theorem rowOfSeed_eq (seed : BitVec 64) : rowOfSeed seed = rowNat seed.toNat := by
  have hSilver : xrsrSilverRatio.toNat = 0x6a09e667f3bcc909 := by decide
  have hGolden : xrsrGoldenRatio.toNat = 0x9e3779b97f4a7c15 := by decide
  have hHash : (chosenContinentalnessConfig true).forkHash.lo.toNat = 0x9a3f51a113fce8dc ∧
      (chosenContinentalnessConfig true).forkHash.hi.toNat = 0xee2dbd157e5dcdad := by
    decide +kernel
  have hSeed : (seed ^^^ xrsrSilverRatio).toNat = Nat.xor seed.toNat 0x6a09e667f3bcc909 := by
    rw [BitVec.toNat_xor, hSilver]
    rfl
  have hNext : ((seed ^^^ xrsrSilverRatio) + xrsrGoldenRatio).toNat =
      wrapNat (Nat.add (Nat.xor seed.toNat 0x6a09e667f3bcc909) 0x9e3779b97f4a7c15) := by
    rw [BitVec.toNat_add, hSeed, hGolden, ← wrapNat_eq]
  have hLo : (xrsrRandomSeedFork seed).lo.toNat =
      outputNat (mix64 (seed ^^^ xrsrSilverRatio)).toNat
        (mix64 ((seed ^^^ xrsrSilverRatio) + xrsrGoldenRatio)).toNat := output_toNat _ _
  have hHi := outputs_toNat (mix64 (seed ^^^ xrsrSilverRatio))
    (mix64 ((seed ^^^ xrsrSilverRatio) + xrsrGoldenRatio))
  have hForkHi : (xrsrRandomSeedFork seed).hi.toNat = _ := hHi
  rw [rowOfSeed, rowNatFrom_toNat, noiseRandom, XrsrRandomFork.from, rowNatMake_toNat,
    BitVec.toNat_xor, BitVec.toNat_xor, hLo, hForkHi, hHash.1, hHash.2, mix64_toNat, mix64_toNat,
    hSeed, hNext]
  rfl

theorem many_rows : 24578 ≤ bitCount 16 (mask rowNat 15 0) := by
  decide +kernel

/-- One of the first seeds has a row which no more than 10922 seeds of the first batch have. -/
theorem exists_rare_row : ∃ first < 2 ^ 15,
    ((Finset.range threadsPerRun).filter fun i => rowNat i = rowNat first).card ≤ 10922 :=
  exists_rare_value (by decide) many_rows (by decide)

end KernelFilterSeeds

end Commission
