import Commission.Common
import Commission.Cpu.FloodFill
import Mathlib.Data.Nat.Sqrt

/-! The search for an island: `getBiomeCentersOpt`, the tests which `cubiomes.c` makes of it,
and `process`, which a CPU thread runs for every position from a GPU. -/
namespace Commission

inductive Climate where
  | temperature
  | humidity
  | erosion
  | continentalness
  | weirdness
  deriving DecidableEq

/-- What the search reads of a generator besides the biome map. `climate` is the sampled
noise times 10000, cut to an integer; `tileIds` are the ids which versions before 1.18 leave
in the array, tile by tile. -/
structure Generator extends BiomeSource where
  climate : Climate → (px pz : ℚ) → ℤ
  biomeParaLimits : ℤ → Climate → ℤ × ℤ
  tileIds : Range → ℤ → ℤ → ℤ

def intMin : ℤ := -2 ^ 31

def para : List Climate := [.temperature, .humidity, .erosion, .continentalness, .weirdness]

/-- The loop over `para`: some climate parameter of the cell lies outside its limits. -/
def Generator.excludes (g : Generator) (r : Range) (matchId : ℤ) (i j : ℤ) : Bool :=
  para.any fun k =>
    let lim := g.biomeParaLimits matchId k
    if lim.1 = intMin ∧ lim.2 = intMax then false
    else
      let px : ℚ := ((r.x + i) * r.scale : ℤ) / 4
      let pz : ℚ := ((r.z + j) * r.scale : ℤ) / 4
      let p := g.climate k px pz
      p < lim.1 ∨ lim.2 < p

/-- The values of a loop variable from 0 below `n`. -/
def steps (n step : ℕ) : List ℤ := (List.range ((n + step - 1) / step)).map fun a => ((a * step : ℕ) : ℤ)

/-- The cells of the two nested loops, in their order. -/
def positions (r : Range) (step : ℕ) : List (ℤ × ℤ) :=
  (steps r.sz step).flatMap fun j => (steps r.sx step).map fun i => (i, j)

/-- The ids before the fills: `memset`, and the loops over the cells or the tiles. -/
def Generator.initialIds (g : Generator) (r : Range) (matchId : ℤ) (step : ℕ) : ℤ → ℤ :=
  if g.since118 then
    (positions r step).foldl (fun ids c =>
      if g.excludes r matchId c.1 c.2 then Function.update ids (r.index c.1 c.2) (-2) else ids)
      fun _ => -1
  else g.tileIds r matchId

/-- A reported centre with the number of its cells. -/
structure Center where
  pos : Pos
  siz : ℕ

/-- The loops which start the fills; `found` are the centres reported so far. -/
def fillCenters (info : LocateInfo) (candidate : ℤ) (minsiz : ℤ) (nmax : ℕ) :
    List (ℤ × ℤ) → (ℤ → ℤ) → List Center → List Center
  | [], _, found => found
  | c :: rest, ids, found =>
      if ids (info.r.index c.1 c.2) ≠ candidate then
        fillCenters info candidate minsiz nmax rest ids found
      else
        let fill := floodFillGen info (fun _ => false) ids c.1 c.2
        if minsiz ≤ fill.n then
          let found := found ++ [⟨fill.center.getD ⟨0, 0⟩, fill.n⟩]
          if nmax ≤ found.length then found
          else fillCenters info candidate minsiz nmax rest fill.ids found
        else fillCenters info candidate minsiz nmax rest fill.ids found

/-- `getBiomeCentersOpt` without a stop flag: the centres written to `pos` and `siz`. -/
def getBiomeCentersOpt (nmax : ℕ) (g : Generator) (r : Range) (matchId minsiz tol step : ℤ) :
    List Center :=
  let minsiz := if minsiz ≤ 0 then 1 else minsiz
  let tol := if tol ≤ 0 then 1 else tol
  let step := if step ≤ 0 then 1 else step
  let info : LocateInfo := ⟨g.toBiomeSource, r, matchId, tol.toNat⟩
  let step := if g.since118 ∧ step = 1 then 1 + Nat.sqrt minsiz.toNat / 2 else step.toNat
  let candidate := if g.since118 then -1 else matchId
  fillCenters info candidate minsiz nmax (positions r step) (g.initialIds r matchId step) []

/-- `make_range`, where `/` is the division of C. -/
def makeRange (x z : BitVec 32) (range scale : ℤ) : Range where
  scale := scale
  x := (x - BitVec.ofInt 32 (range / 2)).toInt.tdiv scale
  z := (z - BitVec.ofInt 32 (range / 2)).toInt.tdiv scale
  sx := (range / scale).toNat
  sz := (range / scale).toNat
  y := 256 / scale

def mushroomFields : ℤ := 14

structure PosArea where
  x : BitVec 32
  z : BitVec 32
  area : BitVec 32
  deriving DecidableEq

/-- `cubiomes_test_biome_centers` with what it writes to `out`. -/
def testBiomeCenters (g : Generator) (x z : BitVec 32) (range minArea scale tol : ℤ) :
    Option PosArea :=
  let r := makeRange x z range scale
  let minsiz := minArea / (scale * scale)
  match getBiomeCentersOpt 1 g r mushroomFields minsiz tol 0 with
  | [⟨pos, siz⟩] => some
      ⟨BitVec.ofInt 32 pos.x, BitVec.ofInt 32 pos.z, BitVec.ofInt 32 (siz * (scale * scale))⟩
  | _ => none

/-- A `Cubiomes` object: its generator under every seed, which `cubiomes_create` sets up for
`MC_NEWEST`, and the outcome of `cubiomes_test_monte_carlo`. -/
structure Cubiomes where
  g : BitVec 64 → Generator
  newest : ∀ seed, (g seed).since118 = true
  testMonteCarlo : (seed : BitVec 64) → (x z : BitVec 32) → (range minArea : ℤ) → Bool

/-- `range` of `process`: the side of the square which is searched, in blocks. -/
def searchRange (large : Bool) : ℤ := 12800 * (if large then 4 else 1)

/-- `process` of `cpu.cpp`. -/
def process (large : Bool) (cubiomes : Cubiomes) (minSize : ℤ) (input : GpuOutput) :
    Option CpuOutput :=
  let g := cubiomes.g input.seed
  let range := searchRange large
  if ¬cubiomes.testMonteCarlo input.seed input.x input.z range (minSize * 9 / 10) then none
  else if (testBiomeCenters g input.x input.z range minSize 16 4).isNone then none
  else
    (testBiomeCenters g input.x input.z range minSize 4 2).map fun res =>
      ⟨input.seed, res.x, res.z, res.area⟩

end Commission
