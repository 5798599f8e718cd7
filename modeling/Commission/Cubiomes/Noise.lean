import Commission.Noise.Arith
import Mathlib.Data.BitVec

/-! The part of cubiomes which builds and samples the climate noises of the
CPU verifier (`rng.h`, `noise.c`, `biomenoise.c`). Every `double` is read as
an exact rational. -/
namespace Commission.Cubiomes

structure Xoroshiro where
  lo : BitVec 64
  hi : BitVec 64
  deriving DecidableEq, Repr

def rotl64 (x : BitVec 64) (b : ℕ) : BitVec 64 :=
  x <<< b ||| x >>> (64 - b)

def xSetSeed (value : BitVec 64) : Xoroshiro :=
  let xl := 0x9e3779b97f4a7c15#64
  let xh := 0x6a09e667f3bcc909#64
  let a := 0xbf58476d1ce4e5b9#64
  let b := 0x94d049bb133111eb#64
  let l := value ^^^ xh
  let h := l + xl
  let l := (l ^^^ l >>> 30) * a
  let h := (h ^^^ h >>> 30) * a
  let l := (l ^^^ l >>> 27) * b
  let h := (h ^^^ h >>> 27) * b
  let l := l ^^^ l >>> 31
  let h := h ^^^ h >>> 31
  ⟨l, h⟩

def xNextLong (xr : Xoroshiro) : BitVec 64 × Xoroshiro :=
  let l := xr.lo
  let h := xr.hi
  let n := rotl64 (l + h) 17 + l
  let h := h ^^^ l
  (n, ⟨rotl64 l 49 ^^^ h ^^^ h <<< 21, rotl64 h 28⟩)

/-- `(xNextLong(xr) & 0xFFFFFFFF) * n`. -/
def xNextProduct (n : ℕ) (xr : Xoroshiro) : ℕ × Xoroshiro :=
  let draw := xNextLong xr
  (draw.1.toNat % 2 ^ 32 * n, draw.2)

/-- The rejection loop of `xNextInt`; `none` while it is still running. -/
def xNextIntLoop (n : ℕ) : ℕ → ℕ → Xoroshiro → Option (ℕ × Xoroshiro)
  | fuel, r, xr =>
      if r % 2 ^ 32 < (2 ^ 32 - n) % 2 ^ 32 % n then
        match fuel with
        | 0 => none
        | fuel + 1 => xNextIntLoop n fuel (xNextProduct n xr).1 (xNextProduct n xr).2
      else some (r / 2 ^ 32, xr)

def xNextInt (fuel n : ℕ) (xr : Xoroshiro) : Option (ℕ × Xoroshiro) :=
  let draw := xNextProduct n xr
  if draw.1 % 2 ^ 32 < n then xNextIntLoop n fuel draw.1 draw.2
  else some (draw.1 / 2 ^ 32, draw.2)

/-- `xNextDouble`; the literal `1.1102230246251565E-16` is the double `2^-53`. -/
def xNextDouble (xr : Xoroshiro) : ℚ × Xoroshiro :=
  let draw := xNextLong xr
  ((draw.1 >>> (64 - 53)).toNat * (1 / 2 ^ 53), draw.2)

structure PerlinNoise where
  d : Fin 257 → UInt8
  h2 : UInt8
  a : ℚ
  b : ℚ
  c : ℚ
  amplitude : ℚ
  lacunarity : ℚ
  d2 : ℚ
  t2 : ℚ

structure DoublePerlinNoise where
  amplitude : ℚ
  octA : List PerlinNoise
  octB : List PerlinNoise

/-- `d*d*d * (d * (d*6.0-15.0) + 10.0)`. -/
def smooth (d : ℚ) : ℚ :=
  d * d * d * (d * (d * 6 - 15) + 10)

def swapEntries (idx : Fin 257 → UInt8) (i j : Fin 257) : Fin 257 → UInt8 :=
  let n := idx i
  Function.update (Function.update idx i (idx j)) j n

/-- The shuffling loop of `xPerlinInit` over the remaining values of `i`. -/
def xShuffle (fuel : ℕ) : List ℕ → (Fin 257 → UInt8) → Xoroshiro →
    Option ((Fin 257 → UInt8) × Xoroshiro)
  | [], idx, xr => some (idx, xr)
  | i :: rest, idx, xr =>
      (xNextInt fuel (256 - i) xr).bind fun draw =>
        xShuffle fuel rest (swapEntries idx (Fin.ofNat 257 i) (Fin.ofNat 257 (draw.1 + i))) draw.2

/-- The fields of a noise with the given table and offsets, as the end of
`xPerlinInit` sets them: `idx[256] = idx[0]` and the cached y values. -/
def perlinOf (idx : Fin 257 → UInt8) (a b c : ℚ) : PerlinNoise :=
  let d2 := b - ⌊b⌋
  { d := Function.update idx 256 (idx 0)
    h2 := toByte ⌊b⌋
    a := a
    b := b
    c := c
    amplitude := 1
    lacunarity := 1
    d2 := d2
    t2 := smooth d2 }

def xPerlinInit (fuel : ℕ) (xr : Xoroshiro) : Option PerlinNoise :=
  let a := xNextDouble xr
  let b := xNextDouble a.2
  let c := xNextDouble b.2
  (xShuffle fuel (List.range 256) (fun i => UInt8.ofNat i) c.2).map fun table =>
    perlinOf table.1 (a.1 * 256) (b.1 * 256) (c.1 * 256)

/-- `md5_octave_n`, from `octave_-12` to `octave_0`. -/
def md5OctaveN : List (BitVec 64 × BitVec 64) :=
  [(0xb198de63a8012672#64, 0x7b84cad43ef7b5a8#64),
   (0x0fd787bfbc403ec3#64, 0x74a4a31ca21b48b8#64),
   (0x36d326eed40efeb2#64, 0x5be9ce18223c636a#64),
   (0x082fe255f8be6631#64, 0x4e96119e22dedc81#64),
   (0x0ef68ec68504005e#64, 0x48b6bf93a2789640#64),
   (0xf11268128982754f#64, 0x257a1d670430b0aa#64),
   (0xe51c98ce7d1de664#64, 0x5f9478a733040c45#64),
   (0x6d7b49e7e429850a#64, 0x2e3063c622a24777#64),
   (0xbd90d5377ba1b762#64, 0xc07317d419a7548d#64),
   (0x53d39c6752dac858#64, 0xbcd1c5a80ab65b3e#64),
   (0xb4a24d7a84e7677b#64, 0x023ff9668e89b5c4#64),
   (0xdffa22b534c5f608#64, 0xb9b67517d3665ca9#64),
   (0xd50708086cef4d7c#64, 0x6e1651ecc7f43309#64)]

def lacunaIni : List ℚ :=
  [1, 1 / 2, 1 / 4, 1 / 8, 1 / 16, 1 / 32, 1 / 64, 1 / 128, 1 / 256, 1 / 512, 1 / 1024, 1 / 2048,
   1 / 4096]

def persistIni : List ℚ :=
  [0, 1, 2 / 3, 4 / 7, 8 / 15, 16 / 31, 32 / 63, 64 / 127, 128 / 255, 256 / 511]

/-- The stream of octave `omin + i` of a fork `(xlo, xhi)`. -/
def octaveStream (xlo xhi : BitVec 64) (omin : ℤ) (i : ℕ) : Xoroshiro :=
  let md5 := md5OctaveN.getD (12 + omin + i).toNat (0, 0)
  ⟨xlo ^^^ md5.1, xhi ^^^ md5.2⟩

/-- The loop of `xOctaveInit` from amplitude `i` on, with `n` octaves built.
`init n pxr` fills octave `n`; the source calls `xPerlinInit` there. -/
def octaveLoop (init : ℕ → Xoroshiro → Option PerlinNoise) (xlo xhi : BitVec 64) (omin nmax : ℤ) :
    List ℚ → ℕ → ℕ → ℚ → ℚ → Option (List PerlinNoise)
  | [], _, _, _, _ => some []
  | amplitude :: rest, i, n, lacuna, persist =>
      if (n : ℤ) = nmax then some []
      else if amplitude = 0 then
        octaveLoop init xlo xhi omin nmax rest (i + 1) n (lacuna * 2) (persist * (1 / 2))
      else
        (init n (octaveStream xlo xhi omin i)).bind fun noise =>
          (octaveLoop init xlo xhi omin nmax rest (i + 1) (n + 1) (lacuna * 2)
              (persist * (1 / 2))).map fun octaves =>
            { noise with amplitude := amplitude * persist, lacunarity := lacuna } :: octaves

/-- `xOctaveInit`, generic in how an octave is filled. -/
def octaveInit (init : ℕ → Xoroshiro → Option PerlinNoise) (xr : Xoroshiro) (amplitudes : List ℚ)
    (omin nmax : ℤ) : Option (List PerlinNoise) × Xoroshiro :=
  let lacuna := lacunaIni.getD (-omin).toNat 0
  let persist := persistIni.getD amplitudes.length 0
  let xlo := xNextLong xr
  let xhi := xNextLong xlo.2
  (octaveLoop init xlo.1 xhi.1 omin nmax amplitudes 0 0 lacuna persist, xhi.2)

def ampIni : List ℚ :=
  [0, 5 / 6, 10 / 9, 15 / 12, 20 / 15, 25 / 18, 30 / 21, 35 / 24, 40 / 27, 45 / 30]

/-- Length after trimming the zero amplitudes at both ends. -/
def trimmedLength (amplitudes : List ℚ) : ℕ :=
  amplitudes.length - (amplitudes.reverse.takeWhile (· = 0)).length -
    (amplitudes.takeWhile (· = 0)).length

/-- `xDoublePerlinInit`, generic in how octave `n` of each half is filled. -/
def doublePerlinInit (initA initB : ℕ → Xoroshiro → Option PerlinNoise) (xr : Xoroshiro)
    (amplitudes : List ℚ) (omin nmax : ℤ) : Option DoublePerlinNoise :=
  let na := if 0 < nmax then (nmax + 1) / 2 else -1
  let nb := if 0 < nmax then nmax - na else -1
  let octA := octaveInit initA xr amplitudes omin na
  let octB := octaveInit initB octA.2 amplitudes omin nb
  octA.1.bind fun octavesA => octB.1.map fun octavesB =>
    ⟨ampIni.getD (trimmedLength amplitudes) 0, octavesA, octavesB⟩

def xDoublePerlinInit (fuel : ℕ) (xr : Xoroshiro) (amplitudes : List ℚ) (omin nmax : ℤ) :
    Option DoublePerlinNoise :=
  doublePerlinInit (fun _ => xPerlinInit fuel) (fun _ => xPerlinInit fuel) xr amplitudes omin nmax

/-- The climate parameters, in the order of their numbers. -/
inductive ClimateParameter
  | temperature
  | humidity
  | continentalness
  | erosion
  | shift
  | weirdness
  deriving DecidableEq, Repr

/-- What `init_climate_seed` selects: md5 pair, amplitudes and first octave. -/
def climateSettings (large : Bool) : ClimateParameter → (BitVec 64 × BitVec 64) × List ℚ × ℤ
  | .shift => ((0x080518cf6af25384#64, 0x3f3dfb40a54febd5#64), [1, 1, 1, 0], -3)
  | .temperature =>
      ((if large then 0x944b0073edf549db#64 else 0x5c7e6b29735f0d7f#64,
        if large then 0x4ff44347e9d22b96#64 else 0xf7d86f1bbc734988#64),
        [3 / 2, 0, 1, 0, 0, 0], if large then -12 else -10)
  | .humidity =>
      ((if large then 0x71b8ab943dbd5301#64 else 0x81bb4d22e8dc168e#64,
        if large then 0xbb63ddcf39ff7a2b#64 else 0xf1c8b4bea16303cd#64),
        [1, 1, 0, 0, 0, 0], if large then -10 else -8)
  | .continentalness =>
      ((if large then 0x9a3f51a113fce8dc#64 else 0x83886c9d0ae3a662#64,
        if large then 0xee2dbd157e5dcdad#64 else 0xafa638a61b42e8ad#64),
        [1, 1, 2, 2, 2, 1, 1, 1, 1], if large then -11 else -9)
  | .erosion =>
      ((if large then 0x8c984b1f8702a951#64 else 0xd02491e6058f6fd8#64,
        if large then 0xead7b1f92bae535f#64 else 0x4792512c94c17a80#64),
        [1, 1, 0, 1, 1], if large then -11 else -9)
  | .weirdness => ((0xefc8ef4d36102b34#64, 0x1beeeb324a0f24ea#64), [1, 2, 1, 0, 0, 0], -7)

def initClimateSeed (fuel : ℕ) (xlo xhi : BitVec 64) (large : Bool) (nptype : ClimateParameter)
    (nmax : ℤ) : Option DoublePerlinNoise :=
  let settings := climateSettings large nptype
  let pxr : Xoroshiro := ⟨xlo ^^^ settings.1.1, xhi ^^^ settings.1.2⟩
  xDoublePerlinInit fuel pxr settings.2.1 settings.2.2 nmax

/-- The climate noises of `BiomeNoise`. -/
structure BiomeNoise where
  temperature : DoublePerlinNoise
  humidity : DoublePerlinNoise
  continentalness : DoublePerlinNoise
  erosion : DoublePerlinNoise
  shift : DoublePerlinNoise
  weirdness : DoublePerlinNoise

/-- The octaves a noise occupies in the buffer `bn->oct`. -/
def DoublePerlinNoise.octaveCount (noise : DoublePerlinNoise) : ℕ :=
  noise.octA.length + noise.octB.length

/-- `setBiomeSeed`: the loop over all climate parameters and the check of the
octave buffer of `2*23` entries, which ends the program when it fails. -/
def setBiomeSeed (fuel : ℕ) (seed : BitVec 64) (large : Bool) : Option BiomeNoise := do
  let pxr := xSetSeed seed
  let xlo := xNextLong pxr
  let xhi := xNextLong xlo.2
  let temperature ← initClimateSeed fuel xlo.1 xhi.1 large .temperature (-1)
  let humidity ← initClimateSeed fuel xlo.1 xhi.1 large .humidity (-1)
  let continentalness ← initClimateSeed fuel xlo.1 xhi.1 large .continentalness (-1)
  let erosion ← initClimateSeed fuel xlo.1 xhi.1 large .erosion (-1)
  let shift ← initClimateSeed fuel xlo.1 xhi.1 large .shift (-1)
  let weirdness ← initClimateSeed fuel xlo.1 xhi.1 large .weirdness (-1)
  let n := temperature.octaveCount + humidity.octaveCount + continentalness.octaveCount +
    erosion.octaveCount + shift.octaveCount + weirdness.octaveCount
  if 2 * 23 < n then none
  else some ⟨temperature, humidity, continentalness, erosion, shift, weirdness⟩

def indexedLerp (idx : UInt8) (a b c : ℚ) : ℚ :=
  match idx.toNat % 16 with
  | 0 => a + b
  | 1 => -a + b
  | 2 => a - b
  | 3 => -a - b
  | 4 => a + c
  | 5 => -a + c
  | 6 => a - c
  | 7 => -a - c
  | 8 => b + c
  | 9 => -b + c
  | 10 => b - c
  | 11 => -b - c
  | 12 => a + b
  | 13 => -b + c
  | 14 => -a + b
  | 15 => -b - c
  | _ => 0

def lerp (part start stop : ℚ) : ℚ :=
  start + part * (stop - start)

/-- `idx[v]` and `idx[v+1]` for a byte `v`; the second index may be 256. -/
def entry (idx : Fin 257 → UInt8) (v : UInt8) (offset : ℕ) : UInt8 :=
  idx (Fin.ofNat 257 (v.toNat + offset))

/-- `samplePerlin`. A zero `d2` selects the cached y values. -/
def samplePerlin (noise : PerlinNoise) (d1 d2 d3 yamp ymin : ℚ) : ℚ :=
  let y := if d2 = 0 then (noise.d2, noise.h2, noise.t2)
    else
      let d2 := d2 + noise.b
      (d2 - ⌊d2⌋, toByte ⌊d2⌋, smooth (d2 - ⌊d2⌋))
  let d1 := d1 + noise.a
  let d3 := d3 + noise.c
  let i1 := ⌊d1⌋
  let i3 := ⌊d3⌋
  let d1 := d1 - i1
  let d3 := d3 - i3
  let h1 := toByte i1
  let h2 := y.2.1
  let h3 := toByte i3
  let t1 := smooth d1
  let t2 := y.2.2
  let t3 := smooth d3
  let d2 := if yamp ≠ 0 then
      let yclamp := if ymin < y.1 then ymin else y.1
      y.1 - ⌊yclamp / yamp⌋ * yamp
    else y.1
  let idx := noise.d
  let v1a := entry idx h1 0 + h2
  let v1b := entry idx h1 1 + h2
  let v2a := entry idx v1a 0 + h3
  let v2b := entry idx v1a 1 + h3
  let v3a := entry idx v1b 0 + h3
  let v3b := entry idx v1b 1 + h3
  let l1 := indexedLerp (entry idx v2a 0) d1 d2 d3
  let l5 := indexedLerp (entry idx v2a 1) d1 d2 (d3 - 1)
  let l2 := indexedLerp (entry idx v3a 0) (d1 - 1) d2 d3
  let l6 := indexedLerp (entry idx v3a 1) (d1 - 1) d2 (d3 - 1)
  let l3 := indexedLerp (entry idx v2b 0) d1 (d2 - 1) d3
  let l7 := indexedLerp (entry idx v2b 1) d1 (d2 - 1) (d3 - 1)
  let l4 := indexedLerp (entry idx v3b 0) (d1 - 1) (d2 - 1) d3
  let l8 := indexedLerp (entry idx v3b 1) (d1 - 1) (d2 - 1) (d3 - 1)
  let l1 := lerp t1 l1 l2
  let l3 := lerp t1 l3 l4
  let l5 := lerp t1 l5 l6
  let l7 := lerp t1 l7 l8
  let l1 := lerp t2 l1 l3
  let l5 := lerp t2 l5 l7
  lerp t3 l1 l5

/-- `maintainPrecision`, which returns its argument. -/
def maintainPrecision (x : ℚ) : ℚ := x

def sampleOctave (octaves : List PerlinNoise) (x y z : ℚ) : ℚ :=
  octaves.foldl
    (fun v p =>
      let lf := p.lacunarity
      v + p.amplitude * samplePerlin p (maintainPrecision (x * lf)) (maintainPrecision (y * lf))
        (maintainPrecision (z * lf)) 0 0) 0

def sampleDoublePerlin (noise : DoublePerlinNoise) (x y z : ℚ) : ℚ :=
  let f : ℚ := 337 / 331
  let v := 0 + sampleOctave noise.octA x y z
  let v := v + sampleOctave noise.octB (x * f) (y * f) (z * f)
  v * noise.amplitude

end Commission.Cubiomes
