import Commission.Random
import Commission.Noise.Arith

/-! The continentalness noise of `gpu.cu`: octave configuration, the stored
tables, their initialisation and their evaluation. `large` is the build
option `large_biomes`. -/
namespace Commission

def hashContinentalness : XrsrForkHash := ⟨0x83886c9d0ae3a662#64, 0xafa638a61b42e8ad#64⟩

def hashContinentalnessLarge : XrsrForkHash := ⟨0x9a3f51a113fce8dc#64, 0xee2dbd157e5dcdad#64⟩

/-- md5 of `octave_-12` to `octave_0`. -/
def hashOctave : List XrsrForkHash :=
  [⟨0xb198de63a8012672#64, 0x7b84cad43ef7b5a8#64⟩,
   ⟨0x0fd787bfbc403ec3#64, 0x74a4a31ca21b48b8#64⟩,
   ⟨0x36d326eed40efeb2#64, 0x5be9ce18223c636a#64⟩,
   ⟨0x082fe255f8be6631#64, 0x4e96119e22dedc81#64⟩,
   ⟨0x0ef68ec68504005e#64, 0x48b6bf93a2789640#64⟩,
   ⟨0xf11268128982754f#64, 0x257a1d670430b0aa#64⟩,
   ⟨0xe51c98ce7d1de664#64, 0x5f9478a733040c45#64⟩,
   ⟨0x6d7b49e7e429850a#64, 0x2e3063c622a24777#64⟩,
   ⟨0xbd90d5377ba1b762#64, 0xc07317d419a7548d#64⟩,
   ⟨0x53d39c6752dac858#64, 0xbcd1c5a80ab65b3e#64⟩,
   ⟨0xb4a24d7a84e7677b#64, 0x023ff9668e89b5c4#64⟩,
   ⟨0xdffa22b534c5f608#64, 0xb9b67517d3665ca9#64⟩,
   ⟨0xd50708086cef4d7c#64, 0x6e1651ecc7f43309#64⟩]

/-- `hash_octave[i]`. -/
def hashOctaveAt (i : ℤ) : XrsrForkHash :=
  hashOctave.getD i.toNat ⟨0, 0⟩

structure NoiseParameters where
  firstOctave : ℤ
  amplitudes : List ℚ

def continentalnessParameters : NoiseParameters := ⟨-9, [1, 1, 2, 2, 2, 1, 1, 1, 1]⟩

def continentalnessLargeParameters : NoiseParameters := ⟨-11, [1, 1, 2, 2, 2, 1, 1, 1, 1]⟩

structure OctaveConfig where
  forkHash : XrsrForkHash
  inputFactor : ℚ
  valueFactor : ℚ
  deriving DecidableEq, Inhabited

structure NormalNoiseConfig where
  forkHash : XrsrForkHash
  octavesA : List OctaveConfig
  octavesB : List OctaveConfig

/-- The loop of `make_normal_noise_config`, from octave `i` on. The literal
`1.0181268882175227` is read as `337/331`. -/
def makeOctaves (firstOctave : ℤ) : List ℚ → ℕ → ℚ → ℚ → List (OctaveConfig × OctaveConfig)
  | [], _, _, _ => []
  | amplitude :: rest, i, inputFactor, valueFactor =>
      (⟨hashOctaveAt (firstOctave + 12 + i), inputFactor, valueFactor * amplitude⟩,
        ⟨hashOctaveAt (firstOctave + 12 + i), inputFactor * (337 / 331), valueFactor * amplitude⟩) ::
      makeOctaves firstOctave rest (i + 1) (inputFactor * 2) (valueFactor * (1 / 2))

/-- `make_normal_noise_config`, with `0.16666666666666666` read as `1/6`. -/
def makeNormalNoiseConfig (parameters : NoiseParameters) (forkHash : XrsrForkHash) :
    NormalNoiseConfig :=
  let size := parameters.amplitudes.length
  let rootValueFactor : ℚ := (1 / 6) / ((1 / 10) * (1 + 1 / size))
  let inputFactor : ℚ := 1 / 2 ^ (-parameters.firstOctave).toNat
  let valueFactor : ℚ := 2 ^ (size - 1) / (2 ^ size - 1) * rootValueFactor
  let octaves := makeOctaves parameters.firstOctave parameters.amplitudes 0 inputFactor valueFactor
  ⟨forkHash, octaves.map Prod.fst, octaves.map Prod.snd⟩

def continentalnessConfig : NormalNoiseConfig :=
  makeNormalNoiseConfig continentalnessParameters hashContinentalness

def continentalnessLargeConfig : NormalNoiseConfig :=
  makeNormalNoiseConfig continentalnessLargeParameters hashContinentalnessLarge

def chosenContinentalnessConfig (large : Bool) : NormalNoiseConfig :=
  if large then continentalnessLargeConfig else continentalnessConfig

/-- The two noises which a normal noise adds. -/
inductive Half
  | a
  | b
  deriving DecidableEq, Repr

instance neZeroNine : NeZero 9 := ⟨by decide⟩

/-- A member `continentalness_<octave><half>` of `KernelSeed1::Result`. -/
structure Member where
  octave : Fin 9
  half : Half
  deriving DecidableEq, Repr

def octaveConfig (large : Bool) (member : Member) : OctaveConfig :=
  let config := chosenContinentalnessConfig large
  match member.half with
  | .a => config.octavesA.getD member.octave default
  | .b => config.octavesB.getD member.octave default

/-- Member order of `Result`, which is also how the reinterpretation as
`ResultSampler` numbers the octaves. -/
def resultMembers : List Member :=
  [⟨0, .a⟩, ⟨0, .b⟩, ⟨1, .a⟩, ⟨1, .b⟩, ⟨2, .a⟩, ⟨2, .b⟩, ⟨3, .a⟩, ⟨3, .b⟩, ⟨4, .a⟩, ⟨4, .b⟩,
   ⟨5, .a⟩, ⟨5, .b⟩, ⟨6, .a⟩, ⟨6, .b⟩, ⟨7, .a⟩, ⟨7, .b⟩, ⟨8, .a⟩, ⟨8, .b⟩]

structure ImprovedNoise (F : Type) where
  p : Fin 256 → UInt8
  xo : F
  yo : F
  zo : F

/-- `KernelSeed1::Result`, all octaves of one seed. -/
abbrev Result (F : Type) : Type := Member → ImprovedNoise F

structure GradDotTable (F : Type) where
  x : Fin 16 → F
  y : Fin 16 → F
  z : Fin 16 → F

section Device

variable {F : Type} [Arith F]

/-- The rows which `init_grad_dot_table` writes. -/
def gradDotRows : List (ℤ × ℤ × ℤ) :=
  [(1, 1, 0), (-1, 1, 0), (1, -1, 0), (-1, -1, 0), (1, 0, 1), (-1, 0, 1), (1, 0, -1), (-1, 0, -1),
   (0, 1, 1), (0, -1, 1), (0, 1, -1), (0, -1, -1), (1, 1, 0), (0, -1, 1), (-1, 1, 0), (0, -1, -1)]

def initGradDotTable : GradDotTable F where
  x hash := Arith.ofInt (gradDotRows.getD hash (0, 0, 0)).1
  y hash := Arith.ofInt (gradDotRows.getD hash (0, 0, 0)).2.1
  z hash := Arith.ofInt (gradDotRows.getD hash (0, 0, 0)).2.2

/-- `p & 0xF` -/
def lowNibble (p : UInt8) : Fin 16 :=
  ⟨p.toNat % 16, Nat.mod_lt _ (by decide)⟩

def gradDot (table : GradDotTable F) (p : UInt8) (x y z : F) : F :=
  let hash := lowNibble p
  Arith.fma x (table.x hash) (Arith.fma y (table.y hash) (z * table.z hash))

def smoothstep (value : F) : F :=
  value * value * value *
    (value * (value * Arith.const 6 - Arith.const 15) + Arith.const 10)

def lerp1 (fx v0 v1 : F) : F :=
  Arith.fma fx (v1 - v0) v0

def lerp2 (fx fy v00 v10 v01 v11 : F) : F :=
  lerp1 fy (lerp1 fx v00 v10) (lerp1 fx v01 v11)

def lerp3 (fx fy fz v000 v100 v010 v110 v001 v101 v011 v111 : F) : F :=
  lerp1 fz (lerp2 fx fy v000 v100 v010 v110) (lerp2 fx fy v001 v101 v011 v111)

/-- `sample_noise` -/
def sampleNoise (table : GradDotTable F) (noise : ImprovedNoise F) (x y z : F) : F :=
  let x := x + noise.xo
  let y := y + noise.yo
  let z := z + noise.zo
  let intX := Arith.floorInt x
  let intY := Arith.floorInt y
  let intZ := Arith.floorInt z
  let fracX := x - Arith.ofInt intX
  let fracY := y - Arith.ofInt intY
  let fracZ := z - Arith.ofInt intZ
  let p0 := noise.p (maskByte intX)
  let p1 := noise.p (maskByte (intX + 1))
  let p00 := noise.p (maskByte (p0.toNat + intY))
  let p01 := noise.p (maskByte (p0.toNat + intY + 1))
  let p10 := noise.p (maskByte (p1.toNat + intY))
  let p11 := noise.p (maskByte (p1.toNat + intY + 1))
  let one : F := Arith.const 1
  let n000 := gradDot table (noise.p (maskByte (p00.toNat + intZ))) fracX fracY fracZ
  let n100 := gradDot table (noise.p (maskByte (p10.toNat + intZ))) (fracX - one) fracY fracZ
  let n010 := gradDot table (noise.p (maskByte (p01.toNat + intZ))) fracX (fracY - one) fracZ
  let n110 := gradDot table (noise.p (maskByte (p11.toNat + intZ))) (fracX - one) (fracY - one) fracZ
  let n001 := gradDot table (noise.p (maskByte (p00.toNat + intZ + 1))) fracX fracY (fracZ - one)
  let n101 := gradDot table (noise.p (maskByte (p10.toNat + intZ + 1))) (fracX - one) fracY (fracZ - one)
  let n011 := gradDot table (noise.p (maskByte (p01.toNat + intZ + 1))) fracX (fracY - one) (fracZ - one)
  let n111 := gradDot table (noise.p (maskByte (p11.toNat + intZ + 1)))
    (fracX - one) (fracY - one) (fracZ - one)
  let fx := smoothstep fracX
  let fy := smoothstep fracY
  let fz := smoothstep fracZ
  lerp3 fx fy fz n000 n100 n010 n110 n001 n101 n011 n111

/-- The disabled wrapping of coordinates. -/
def wrap (value : F) : F := value

def sampleOctave (config : OctaveConfig) (table : GradDotTable F) (noise : ImprovedNoise F)
    (x y z : ℤ) : F :=
  sampleNoise table noise (wrap (Arith.ofInt x * Arith.const config.inputFactor))
    (wrap (Arith.ofInt y * Arith.const config.inputFactor))
    (wrap (Arith.ofInt z * Arith.const config.inputFactor)) * Arith.const config.valueFactor

/-- `octaves[i]` of `ResultSampler`, read through the reinterpreted `Result`. -/
def samplerMember (i : ℕ) : Member :=
  resultMembers.getD i ⟨0, .a⟩

/-- `ResultSampler<Octaves>::sample`: one term for each `i < Octaves`. -/
def ResultSampler.sample (large : Bool) (octaves : ℕ) (table : GradDotTable F) (result : Result F)
    (x y z : ℤ) : F :=
  (List.range octaves).foldl
    (fun val i => val +
      sampleOctave (octaveConfig large (samplerMember i)) table (result (samplerMember i)) x y z)
    (Arith.const 0)

/-- `ResultSampler<Octaves>::sample_only_a`: the terms with an even index. -/
def ResultSampler.sampleOnlyA (large : Bool) (octaves : ℕ) (table : GradDotTable F)
    (result : Result F) (x y z : ℤ) : F :=
  ((List.range octaves).filter fun i => i % 2 = 0).foldl
    (fun val i => val +
      sampleOctave (octaveConfig large (samplerMember i)) table (result (samplerMember i)) x y z)
    (Arith.const 0)

/-- `nextFloat()`; the literal `5.9604645E-8f` is the float `2^-24`. -/
def nextFloat (random : XrsrRandom) : F × XrsrRandom :=
  let draw := random.nextBits 24
  (Arith.ofInt draw.1.toNat * Arith.const (1 / 2 ^ 24), draw.2)

/-- One exchange of `p[i]` and `p[k]`. -/
def swapEntries (p : Fin 256 → UInt8) (i k : Fin 256) : Fin 256 → UInt8 :=
  let b := p i
  Function.update (Function.update p i (p k)) k b

/-- The shuffling loop of `init_noise` over the remaining values of `i`. -/
def shuffle (fuel : ℕ) : List ℕ → (Fin 256 → UInt8) → XrsrRandom →
    Option ((Fin 256 → UInt8) × XrsrRandom)
  | [], p, random => some (p, random)
  | i :: rest, p, random =>
      (random.nextInt fuel (256 - i)).bind fun draw =>
        shuffle fuel rest (swapEntries p (Fin.ofNat 256 i) (Fin.ofNat 256 (i + draw.1))) draw.2

/-- `init_noise`; `none` only while a rejection loop is still running. -/
def initNoise (fuel : ℕ) (random : XrsrRandom) : Option (ImprovedNoise F) :=
  let xo := nextFloat (F := F) random
  let yo := nextFloat (F := F) xo.2
  let zo := nextFloat (F := F) yo.2
  (shuffle fuel (List.range 256) (fun i => UInt8.ofNat i) zo.2).map fun table =>
    ⟨table.1, xo.1 * Arith.const 256, yo.1 * Arith.const 256, zo.1 * Arith.const 256⟩

/-- One call of `init_octave` or `init_octave_direct`: the fork it draws from,
the entry of the octave configuration it takes the hash of, and the member of
`Result` it writes. -/
structure InitCall where
  noiseFork : Half
  config : Member
  member : Member
  deriving DecidableEq, Repr

/-- The call takes the fork and the hash of the member which it writes. -/
def InitCall.Own (call : InitCall) : Prop :=
  call.noiseFork = call.member.half ∧ call.config = call.member

instance : DecidablePred InitCall.Own := fun _ => inferInstanceAs (Decidable (_ ∧ _))

/-- The calls of `KernelSeed1::kernel`, in order. -/
def kernelCalls : List InitCall :=
  [⟨.a, ⟨0, .a⟩, ⟨0, .a⟩⟩, ⟨.a, ⟨1, .a⟩, ⟨1, .a⟩⟩,
   ⟨.b, ⟨0, .b⟩, ⟨0, .b⟩⟩, ⟨.b, ⟨1, .b⟩, ⟨1, .b⟩⟩]

/-- The calls of `KernelSeed1::late_kernel<Stage>`, in order. -/
def lateCalls : ℕ → List InitCall
  | 1 =>
      [⟨.a, ⟨2, .a⟩, ⟨2, .a⟩⟩, ⟨.a, ⟨3, .a⟩, ⟨3, .a⟩⟩, ⟨.a, ⟨4, .a⟩, ⟨4, .a⟩⟩, ⟨.a, ⟨5, .a⟩, ⟨5, .a⟩⟩,
       ⟨.b, ⟨2, .b⟩, ⟨2, .b⟩⟩, ⟨.b, ⟨3, .b⟩, ⟨3, .b⟩⟩, ⟨.b, ⟨4, .b⟩, ⟨4, .b⟩⟩, ⟨.b, ⟨5, .b⟩, ⟨5, .b⟩⟩]
  | 2 => [⟨.a, ⟨6, .a⟩, ⟨6, .a⟩⟩, ⟨.b, ⟨6, .b⟩, ⟨6, .b⟩⟩]
  | 3 => [⟨.a, ⟨7, .a⟩, ⟨7, .a⟩⟩, ⟨.b, ⟨7, .b⟩, ⟨7, .b⟩⟩]
  | 4 => [⟨.a, ⟨8, .a⟩, ⟨8, .a⟩⟩, ⟨.b, ⟨8, .b⟩, ⟨8, .b⟩⟩]
  | _ => []

theorem kernelCalls_own : ∀ call ∈ kernelCalls, call.Own := by
  decide

theorem lateCalls_own (stage : ℕ) : ∀ call ∈ lateCalls stage, call.Own := by
  match stage with
  | 0 | 1 | 2 | 3 | 4 => decide
  | stage + 5 => exact fun _ hNone => absurd hNone List.not_mem_nil

/-- The generator `noise_random` which both forks of a seed come from. -/
def noiseRandom (large : Bool) (seed : BitVec 64) : XrsrRandom :=
  (xrsrRandomSeedFork seed).from (chosenContinentalnessConfig large).forkHash

/-- `noise_a_fork` or `noise_b_fork`. -/
def noiseForkOf (large : Bool) (seed : BitVec 64) : Half → XrsrRandomFork
  | .a => (xrsrRandomDoubleFork (noiseRandom large seed)).1
  | .b => (xrsrRandomDoubleFork (noiseRandom large seed)).2

/-- The noise which a call computes for a seed. -/
def InitCall.noise (fuel : ℕ) (large : Bool) (seed : BitVec 64) (call : InitCall) :
    Option (ImprovedNoise F) :=
  initNoise fuel
    ((noiseForkOf large seed call.noiseFork).from (octaveConfig large call.config).forkHash)

end Device

end Commission
