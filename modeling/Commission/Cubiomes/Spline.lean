import Commission.Cubiomes.Noise
import Commission.Library.CubicSpline

/-! The spline which gives the height of the terrain from its climate: `getSpline` and the
splines which `initBiomeNoise` builds. Every `float` is read as an exact rational. -/
namespace Commission.Cubiomes

open CubicSpline

inductive SplineType
  | continentalness
  | erosion
  | ridges
  | weirdness
  deriving DecidableEq, Repr

mutual

/-- `Spline`, or `FixSpline` for a single value. -/
inductive Spline
  | fix (val : ℚ)
  | curve (typ : SplineType) (points : SplinePoints)

/-- The arrays `loc`, `val` and `der` of a spline, `len` entries of them. -/
inductive SplinePoints
  | nil
  | cons (loc : ℚ) (val : Spline) (der : ℚ) (rest : SplinePoints)

end

/-- Where the loop of `getSpline` stops: `i` is the first point which is not left of `f`. The
values of the points are those of the recursive calls; only those which are used are made. -/
def interpolate (points : List (Knot ℚ (Option ℚ))) (f : ℚ) : Option ℚ := do
  let i := points.findIdx fun point => f ≤ point.loc
  if i = 0 ∨ i = points.length then
    let point ← points[i - 1]?
    let v ← point.val
    return v + point.der * (f - point.loc)
  else
    let point1 ← points[i - 1]?
    let point2 ← points[i]?
    let g := point1.loc
    let h := point2.loc
    let k := (f - g) / (h - g)
    let l := point1.der
    let m := point2.der
    let n ← point1.val
    let o ← point2.val
    let p := l * (h - g) - (o - n)
    let q := -m * (h - g) + (o - n)
    return lerp k n o + k * (1 - k) * lerp k p q

mutual

/-- `getSpline`; `none` is its exit for bad parameters. -/
def getSpline (vals : SplineType → ℚ) : Spline → Option ℚ
  | .fix val => some val
  | .curve typ points =>
      let points := getSplines vals points
      if points.length = 0 ∨ 12 ≤ points.length then none else interpolate points (vals typ)

/-- `getSpline` of every point. -/
def getSplines (vals : SplineType → ℚ) : SplinePoints → List (Knot ℚ (Option ℚ))
  | .nil => []
  | .cons loc val der rest => ⟨loc, getSpline vals val, der⟩ :: getSplines vals rest

end

/-- How many entries of `stack` and of `fstack` are taken. -/
structure SplineStack where
  len : ℕ
  flen : ℕ
  deriving DecidableEq

/-- The next entry of `stack`, with the points which `addSplineVal` puts there. -/
def createSpline (typ : SplineType) (points : List (ℚ × Spline × ℚ)) : StateM SplineStack Spline :=
  fun ss => (.curve typ (points.foldr (fun p rest => .cons p.1 p.2.1 p.2.2 rest) .nil),
    { ss with len := ss.len + 1 })

def createFixSpline (val : ℚ) : StateM SplineStack Spline :=
  fun ss => (.fix val, { ss with flen := ss.flen + 1 })

def getOffsetValue (weirdness continentalness : ℚ) : ℚ :=
  let f0 := 1 - (1 - continentalness) * (1 / 2)
  let f1 := 1 / 2 * (1 - continentalness)
  let f2 := (weirdness + 117 / 100) * (46082947 / 100000000)
  let off := f2 * f0 - f1
  if weirdness < -(7 / 10) then if -(2222 / 10000) < off then off else -(2222 / 10000)
  else if 0 < off then off else 0

/-- `createSpline_38219` -/
def createSpline38219 (f : ℚ) (bl : Bool) : StateM SplineStack Spline := do
  let i := getOffsetValue (-1) f
  let k := getOffsetValue 1 f
  let l := 1 - (1 - f) * (1 / 2)
  let u := 1 / 2 * (1 - f)
  let l := u / (46082947 / 100000000 * l) - 117 / 100
  if -(65 / 100) < l ∧ l < 1 then
    let u := getOffsetValue (-(65 / 100)) f
    let p := getOffsetValue (-(75 / 100)) f
    let q := (p - i) * 4
    let r := getOffsetValue l f
    let s := (k - r) / (1 - l)
    createSpline .ridges [(-1, ← createFixSpline i, q), (-(75 / 100), ← createFixSpline p, 0),
      (-(65 / 100), ← createFixSpline u, 0), (l - 1 / 100, ← createFixSpline r, 0),
      (l, ← createFixSpline r, s), (1, ← createFixSpline k, s)]
  else
    let u := (k - i) * (1 / 2)
    if bl then
      createSpline .ridges [(-1, ← createFixSpline (if 2 / 10 < i then i else 2 / 10), 0),
        (0, ← createFixSpline (lerp (1 / 2) i k), u), (1, ← createFixSpline k, u)]
    else createSpline .ridges [(-1, ← createFixSpline i, u), (1, ← createFixSpline k, u)]

def createFlatOffsetSpline (f g h i j k : ℚ) : StateM SplineStack Spline := do
  let l := 1 / 2 * (g - f)
  let l := if l < k then k else l
  let m := 5 * (h - g)
  createSpline .ridges [(-1, ← createFixSpline f, l),
    (-(4 / 10), ← createFixSpline g, if l < m then l else m), (0, ← createFixSpline h, m),
    (4 / 10, ← createFixSpline i, 2 * (i - h)), (1, ← createFixSpline j, 7 / 10 * (j - i))]

def createLandSpline (f g h i j k : ℚ) (bl : Bool) : StateM SplineStack Spline := do
  let sp1 ← createSpline38219 (lerp i (6 / 10) (15 / 10)) bl
  let sp2 ← createSpline38219 (lerp i (6 / 10) 1) bl
  let sp3 ← createSpline38219 i bl
  let ih := 1 / 2 * i
  let sp4 ← createFlatOffsetSpline (f - 15 / 100) ih ih ih (i * (6 / 10)) (1 / 2)
  let sp5 ← createFlatOffsetSpline f (j * i) (g * i) ih (i * (6 / 10)) (1 / 2)
  let sp6 ← createFlatOffsetSpline f j j g h (1 / 2)
  let sp7 ← createFlatOffsetSpline f j j g h (1 / 2)
  let sp8 ← createSpline .ridges [(-1, ← createFixSpline f, 0), (-(4 / 10), sp6, 0),
    (0, ← createFixSpline (h + 7 / 100), 0)]
  let sp9 ← createFlatOffsetSpline (-(2 / 100)) k k g h 0
  createSpline .erosion
    ([(-(85 / 100), sp1, 0), (-(7 / 10), sp2, 0), (-(4 / 10), sp3, 0), (-(35 / 100), sp4, 0),
        (-(1 / 10), sp5, 0), (2 / 10, sp6, 0)] ++
      (if bl then [(4 / 10, sp7, 0), (45 / 100, sp8, 0), (55 / 100, sp8, 0), (58 / 100, sp7, 0)]
        else []) ++
      [(7 / 10, sp9, 0)])

/-- The splines of `initBiomeNoise`. -/
def createTerrainSpline : StateM SplineStack Spline := do
  let sp1 ← createLandSpline (-(15 / 100)) 0 0 (1 / 10) 0 (-(3 / 100)) false
  let sp2 ← createLandSpline (-(1 / 10)) (3 / 100) (1 / 10) (1 / 10) (1 / 100) (-(3 / 100)) false
  let sp3 ← createLandSpline (-(1 / 10)) (3 / 100) (1 / 10) (7 / 10) (1 / 100) (-(3 / 100)) true
  let sp4 ← createLandSpline (-(5 / 100)) (3 / 100) (1 / 10) 1 (1 / 100) (1 / 100) true
  createSpline .continentalness [(-(110 / 100), ← createFixSpline (44 / 1000), 0),
    (-(102 / 100), ← createFixSpline (-(2222 / 10000)), 0),
    (-(51 / 100), ← createFixSpline (-(2222 / 10000)), 0),
    (-(44 / 100), ← createFixSpline (-(12 / 100)), 0),
    (-(18 / 100), ← createFixSpline (-(12 / 100)), 0), (-(16 / 100), sp1, 0),
    (-(15 / 100), sp1, 0), (-(10 / 100), sp2, 0), (25 / 100, sp3, 0), (1, sp4, 0)]

def terrain : Spline × SplineStack := createTerrainSpline.run ⟨0, 0⟩

section Interpolate

variable {f : ℚ} {first second : Knot ℚ ℚ} {rest : List (Knot ℚ ℚ)}

def Knot.made (knot : Knot ℚ ℚ) : Knot ℚ (Option ℚ) := ⟨knot.loc, some knot.val, knot.der⟩

theorem interpolate_left (hHere : f ≤ first.loc) :
    interpolate ((first :: rest).map Knot.made) f = some (first.line f) := by
  simp [interpolate, Knot.made, List.findIdx_cons, hHere, Knot.line]

theorem interpolate_single (hBeyond : first.loc < f) :
    interpolate ([first].map Knot.made) f = some (first.line f) := by
  simp [interpolate, Knot.made, List.findIdx_cons, not_le.mpr hBeyond, Knot.line]

theorem interpolate_segment (hBeyond : first.loc < f) (hHere : f ≤ second.loc) :
    interpolate ((first :: second :: rest).map Knot.made) f = some (CubicSpline.segment first second f) := by
  simp [interpolate, Knot.made, List.findIdx_cons, not_le.mpr hBeyond, hHere, CubicSpline.segment, lerp]

/-- A point which the loop of `getSpline` passes makes no difference if it passes the next one. -/
theorem interpolate_shift (hBeyond : first.loc < f) (hNext : second.loc < f) :
    interpolate ((first :: second :: rest).map Knot.made) f =
      interpolate ((second :: rest).map Knot.made) f := by
  simp [interpolate, Knot.made, List.findIdx_cons, not_le.mpr hBeyond, not_le.mpr hNext]

theorem interpolate_eq_through (hBeyond : first.loc < f) :
    interpolate ((first :: rest).map Knot.made) f = some (CubicSpline.through f first rest) := by
  induction rest generalizing first with
  | nil => exact interpolate_single hBeyond
  | cons second rest ih =>
      rw [CubicSpline.through]
      split_ifs with hHere
      · exact interpolate_segment hBeyond hHere
      · rw [interpolate_shift hBeyond (not_le.mp hHere), ih (not_le.mp hHere)]

theorem interpolate_eq_eval {knots : List (Knot ℚ ℚ)} :
    knots ≠ [] → interpolate (knots.map Knot.made) f = CubicSpline.eval f knots := by
  intro hSome
  cases knots with
  | nil => exact absurd rfl hSome
  | cons first rest =>
      rw [CubicSpline.eval]
      split_ifs with hHere
      · exact interpolate_left hHere
      · exact interpolate_eq_through (not_le.mp hHere)

end Interpolate

def SplinePoints.locs : SplinePoints → List ℚ
  | .nil => []
  | .cons loc _ _ rest => loc :: rest.locs

mutual

/-- The points are in order, not too many, and more than the one of a `FixSpline`. -/
def Spline.wellFormed : Spline → Bool
  | .fix _ => true
  | .curve _ points =>
      decide (1 < points.locs.length ∧ points.locs.length < 12 ∧ points.locs.IsChain (· < ·)) &&
        points.wellFormed

def SplinePoints.wellFormed : SplinePoints → Bool
  | .nil => true
  | .cons _ val _ rest => val.wellFormed && rest.wellFormed

end

mutual

/-- Bounds of a spline where every parameter is between `lo` and `hi`. -/
def Spline.bounds (lo hi : SplineType → ℚ) : Spline → ℚ × ℚ
  | .fix val => (val, val)
  | .curve typ points => CubicSpline.bounds (lo typ) (hi typ) (points.boxes lo hi)

def SplinePoints.boxes (lo hi : SplineType → ℚ) : SplinePoints → List (Knot ℚ (ℚ × ℚ))
  | .nil => []
  | .cons loc val der rest => ⟨loc, val.bounds lo hi, der⟩ :: rest.boxes lo hi

end

theorem SplinePoints.boxes_locs (lo hi : SplineType → ℚ) (points : SplinePoints) :
    (points.boxes lo hi).map Knot.loc = points.locs := by
  induction points using SplinePoints.locs.induct with
  | case1 => rfl
  | case2 loc val der rest ih => rw [SplinePoints.boxes, List.map_cons, ih, SplinePoints.locs]

section Bounds

variable {vals lo hi : SplineType → ℚ}

mutual

/-- A well-formed spline has a value within its bounds. -/
theorem getSpline_enclosed (hVals : ∀ typ, lo typ ≤ vals typ ∧ vals typ ≤ hi typ) (sp : Spline)
    (hSp : sp.wellFormed = true) :
    ∃ v, getSpline vals sp = some v ∧ Enclosed v (sp.bounds lo hi) := by
  cases sp with
  | fix val => exact ⟨val, rfl, le_rfl, le_rfl⟩
  | curve typ points =>
      rw [Spline.wellFormed, Bool.and_eq_true, decide_eq_true_iff] at hSp
      obtain ⟨⟨hTwo, hFew, hOrder⟩, hPoints⟩ := hSp
      obtain ⟨knots, hKnots, hWithin⟩ := getSplines_within hVals points hPoints
      have hLength : knots.length = points.locs.length := by
        rw [hWithin.length_eq, ← points.boxes_locs lo hi, List.length_map]
      have hSome : points.boxes lo hi ≠ [] := by
        intro hNone
        rw [← points.boxes_locs lo hi, hNone] at hTwo
        exact absurd hTwo (by decide)
      have hChain : (points.boxes lo hi).IsChain (·.loc < ·.loc) := by
        rw [← points.boxes_locs lo hi, List.isChain_map] at hOrder
        exact hOrder
      obtain ⟨v, hEval, hMem⟩ := eval_enclosed hWithin hSome hChain (hVals typ).1 (hVals typ).2
      refine ⟨v, ?_, hMem⟩
      have hNonempty : knots ≠ [] := by
        rw [← List.length_pos_iff]
        omega
      rw [getSpline, hKnots, if_neg (by rw [List.length_map]; omega),
        interpolate_eq_eval hNonempty, hEval]

theorem getSplines_within (hVals : ∀ typ, lo typ ≤ vals typ ∧ vals typ ≤ hi typ)
    (points : SplinePoints) (hPoints : points.wellFormed = true) :
    ∃ knots : List (Knot ℚ ℚ), getSplines vals points = knots.map Knot.made ∧
      List.Forall₂ Knot.Within knots (points.boxes lo hi) := by
  cases points with
  | nil => exact ⟨[], rfl, .nil⟩
  | cons loc val der rest =>
      rw [SplinePoints.wellFormed, Bool.and_eq_true] at hPoints
      obtain ⟨v, hVal, hMem⟩ := getSpline_enclosed hVals val hPoints.1
      obtain ⟨knots, hKnots, hWithin⟩ := getSplines_within hVals rest hPoints.2
      refine ⟨⟨loc, v, der⟩ :: knots, ?_, .cons ⟨rfl, rfl, hMem⟩ hWithin⟩
      rw [getSplines, hVal, hKnots, List.map_cons, Knot.made]

end

end Bounds

/-- The arrays `stack[42]` and `fstack[151]` are large enough. -/
theorem terrain_stack : terrain.2.len ≤ 42 ∧ terrain.2.flen ≤ 151 := by decide +kernel

theorem terrain_wellFormed : terrain.1.wellFormed = true := by decide +kernel

/-- What the parameters of the terrain are between for any noise. -/
def splineLow : SplineType → ℚ
  | .ridges => -22
  | _ => -8

def splineHigh : SplineType → ℚ
  | .ridges => 101 / 100
  | _ => 8

theorem terrain_bounds : -12 ≤ (terrain.1.bounds splineLow splineHigh).1 ∧
    (terrain.1.bounds splineLow splineHigh).2 ≤ 15854 / 10000 := by
  decide +kernel

end Commission.Cubiomes
