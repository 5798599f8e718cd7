import Mathlib.Algebra.Order.Field.Basic
import Mathlib.Data.List.Forall2
import Mathlib.Tactic.Linarith
import Mathlib.Tactic.Positivity
import Mathlib.Tactic.Ring

/-! Curves through knots with a slope at each: cubic between two knots, straight beyond the
outermost ones. Where the values at the knots are known up to intervals only, so is the curve. -/
namespace CubicSpline

structure Knot (K V : Type*) where
  loc : K
  val : V
  der : K

section Hull

variable {K : Type*} [LinearOrder K]

/-- An interval is the pair of its ends. -/
def Enclosed (v : K) (b : K × K) : Prop := b.1 ≤ v ∧ v ≤ b.2

def hull (a b : K × K) : K × K := (min a.1 b.1, max a.2 b.2)

variable {a b : K × K} {v : K}

theorem Enclosed.hull_left (hMem : Enclosed v a) : Enclosed v (hull a b) :=
  ⟨(min_le_left _ _).trans hMem.1, hMem.2.trans (le_max_left _ _)⟩

theorem Enclosed.hull_right (hMem : Enclosed v b) : Enclosed v (hull a b) :=
  ⟨(min_le_right _ _).trans hMem.1, hMem.2.trans (le_max_right _ _)⟩

end Hull

section Curve

variable {K : Type*} [Field K]

/-- The tangent at a knot. -/
def Knot.line (knot : Knot K K) (f : K) : K := knot.val + knot.der * (f - knot.loc)

/-- The cubic between two knots. -/
def segment (left right : Knot K K) (f : K) : K :=
  let k := (f - left.loc) / (right.loc - left.loc)
  let p := left.der * (right.loc - left.loc) - (right.val - left.val)
  let q := -right.der * (right.loc - left.loc) + (right.val - left.val)
  left.val + k * (right.val - left.val) + k * (1 - k) * (p + k * (q - p))

theorem segment_eq (left right : Knot K K) (f : K) :
    let k := (f - left.loc) / (right.loc - left.loc)
    segment left right f =
      left.val + k ^ 2 * (3 - 2 * k) * (right.val - left.val) +
        (right.loc - left.loc) * (left.der * (k * (1 - k) ^ 2) - right.der * (k ^ 2 * (1 - k))) := by
  simp only [segment]
  ring

variable [LinearOrder K]

/-- The curve to the right of a knot, through the ones which follow it. -/
def through (f : K) : Knot K K → List (Knot K K) → K
  | left, [] => left.line f
  | left, right :: rest => if f ≤ right.loc then segment left right f else through f right rest

def eval (f : K) : List (Knot K K) → Option K
  | [] => none
  | first :: rest => some (if f ≤ first.loc then first.line f else through f first rest)

/-- The tangent between its knot and `x`. -/
def Knot.lineBounds (knot : Knot K (K × K)) (x : K) : K × K :=
  let t := knot.der * (x - knot.loc)
  (knot.val.1 + min t 0, knot.val.2 + max t 0)

/-- A cubic leaves the interval of its ends by what its slopes allow. -/
def segmentBounds (left right : Knot K (K × K)) : K × K :=
  let w := (right.loc - left.loc) * (4 / 27)
  (min left.val.1 right.val.1 - w * (max (-left.der) 0 + max right.der 0),
    max left.val.2 right.val.2 + w * (max left.der 0 + max (-right.der) 0))

def throughBounds (hi : K) : Knot K (K × K) → List (Knot K (K × K)) → K × K
  | left, [] => left.lineBounds (max hi left.loc)
  | left, right :: rest => hull (segmentBounds left right) (throughBounds hi right rest)

/-- Bounds of the curve between `lo` and `hi`. -/
def bounds (lo hi : K) : List (Knot K (K × K)) → K × K
  | [] => (0, 0)
  | first :: rest => hull (first.lineBounds (min lo first.loc)) (throughBounds hi first rest)

end Curve

section Enclosure

variable {K : Type*} [Field K] [LinearOrder K]

/-- A knot whose value lies in an interval. -/
structure Knot.Within (knot : Knot K K) (box : Knot K (K × K)) : Prop where
  loc : knot.loc = box.loc
  der : knot.der = box.der
  val : Enclosed knot.val box.val

variable {a b : K × K} {f : K} {left right : Knot K K} {leftBox rightBox : Knot K (K × K)}
  [IsStrictOrderedRing K]

theorem line_enclosed {x : K} (hWithin : left.Within leftBox)
    (hBetween : leftBox.loc ≤ f ∧ f ≤ x ∨ x ≤ f ∧ f ≤ leftBox.loc) :
    Enclosed (left.line f) (leftBox.lineBounds x) := by
  have hSlope : min (leftBox.der * (x - leftBox.loc)) 0 ≤ leftBox.der * (f - leftBox.loc) ∧
      leftBox.der * (f - leftBox.loc) ≤ max (leftBox.der * (x - leftBox.loc)) 0 := by
    rcases le_total 0 leftBox.der with hUp | hDown <;>
      rcases hBetween with ⟨hLeft, hRight⟩ | ⟨hLeft, hRight⟩
    · exact ⟨min_le_of_right_le (mul_nonneg hUp (sub_nonneg.mpr hLeft)),
        le_max_of_le_left (mul_le_mul_of_nonneg_left (sub_le_sub_right hRight _) hUp)⟩
    · exact ⟨min_le_of_left_le (mul_le_mul_of_nonneg_left (sub_le_sub_right hLeft _) hUp),
        le_max_of_le_right (mul_nonpos_of_nonneg_of_nonpos hUp (sub_nonpos.mpr hRight))⟩
    · exact ⟨min_le_of_left_le (mul_le_mul_of_nonpos_left (sub_le_sub_right hRight _) hDown),
        le_max_of_le_right (mul_nonpos_of_nonpos_of_nonneg hDown (sub_nonneg.mpr hLeft))⟩
    · exact ⟨min_le_of_right_le (mul_nonneg_of_nonpos_of_nonpos hDown (sub_nonpos.mpr hRight)),
        le_max_of_le_left (mul_le_mul_of_nonpos_left (sub_le_sub_right hLeft _) hDown)⟩
  rw [Knot.line, hWithin.loc, hWithin.der]
  exact ⟨add_le_add hWithin.val.1 hSlope.1, add_le_add hWithin.val.2 hSlope.2⟩

section Segment

variable {k : K} (hStart : 0 ≤ k) (hEnd : k ≤ 1)

include hStart hEnd

theorem weight_start : 0 ≤ k * (1 - k) ^ 2 ∧ k * (1 - k) ^ 2 ≤ 4 / 27 := by
  have hRest : 4 / 27 - k * (1 - k) ^ 2 = (k - 1 / 3) ^ 2 * (4 / 3 - k) := by ring
  have hFar : 0 ≤ 4 / 3 - k := by linarith
  constructor
  · positivity
  · rw [← sub_nonneg, hRest]
    positivity

theorem weight_end : 0 ≤ k ^ 2 * (1 - k) ∧ k ^ 2 * (1 - k) ≤ 4 / 27 := by
  have hMirror := weight_start (k := 1 - k) (sub_nonneg.mpr hEnd) (sub_le_self 1 hStart)
  rwa [sub_sub_cancel, mul_comm] at hMirror

/-- The value of a cubic is mixed from the ends by this weight of the second one. -/
theorem weight_value : 0 ≤ k ^ 2 * (3 - 2 * k) ∧ k ^ 2 * (3 - 2 * k) ≤ 1 := by
  have hRest : 1 - k ^ 2 * (3 - 2 * k) = (1 - k) ^ 2 * (1 + 2 * k) := by ring
  have hFactor : 0 ≤ 3 - 2 * k := by linarith
  constructor
  · positivity
  · rw [← sub_nonneg, hRest]
    positivity

end Segment

theorem slope_le (der : K) {weight : K} (hWeight : 0 ≤ weight ∧ weight ≤ 4 / 27) :
    der * weight ≤ 4 / 27 * max der 0 :=
  calc der * weight ≤ max der 0 * weight := mul_le_mul_of_nonneg_right (le_max_left _ _) hWeight.1
    _ ≤ max der 0 * (4 / 27) := mul_le_mul_of_nonneg_left hWeight.2 (le_max_right _ _)
    _ = 4 / 27 * max der 0 := mul_comm _ _

theorem mixed_enclosed {n o w : K} (hn : Enclosed n a) (ho : Enclosed o b) (hw : 0 ≤ w ∧ w ≤ 1) :
    Enclosed (n + w * (o - n)) (hull a b) := by
  have hMixed : n + w * (o - n) = (1 - w) * n + w * o := by ring
  have hOther : 0 ≤ 1 - w := sub_nonneg.mpr hw.2
  have hN := hn.hull_left (b := b)
  have hO := ho.hull_right (a := a)
  rw [hMixed]
  constructor
  · calc (hull a b).1 = (1 - w) * (hull a b).1 + w * (hull a b).1 := by ring
      _ ≤ (1 - w) * n + w * o :=
        add_le_add (mul_le_mul_of_nonneg_left hN.1 hOther) (mul_le_mul_of_nonneg_left hO.1 hw.1)
  · calc (1 - w) * n + w * o ≤ (1 - w) * (hull a b).2 + w * (hull a b).2 :=
        add_le_add (mul_le_mul_of_nonneg_left hN.2 hOther) (mul_le_mul_of_nonneg_left hO.2 hw.1)
      _ = (hull a b).2 := by ring

theorem segment_enclosed (hLeft : left.Within leftBox) (hRight : right.Within rightBox)
    (hOrder : leftBox.loc < rightBox.loc) (hFrom : leftBox.loc ≤ f) (hTo : f ≤ rightBox.loc) :
    Enclosed (segment left right f) (segmentBounds leftBox rightBox) := by
  have hWidth : 0 < rightBox.loc - leftBox.loc := sub_pos.mpr hOrder
  have hStart : 0 ≤ (f - leftBox.loc) / (rightBox.loc - leftBox.loc) :=
    div_nonneg (sub_nonneg.mpr hFrom) hWidth.le
  have hEnd : (f - leftBox.loc) / (rightBox.loc - leftBox.loc) ≤ 1 :=
    (div_le_one hWidth).mpr (sub_le_sub_right hTo _)
  have hValue := mixed_enclosed hLeft.val hRight.val (weight_value hStart hEnd)
  have hBefore := weight_start hStart hEnd
  have hAfter := weight_end hStart hEnd
  have hEq := segment_eq left right f
  rw [hLeft.loc, hRight.loc, hLeft.der, hRight.der] at hEq
  rw [hEq]
  constructor
  · refine (sub_eq_add_neg _ _).le.trans (add_le_add hValue.1 ?_)
    rw [mul_assoc, ← mul_neg]
    refine mul_le_mul_of_nonneg_left ?_ hWidth.le
    have hUp := slope_le (-leftBox.der) hBefore
    have hDown := slope_le rightBox.der hAfter
    linarith
  · refine add_le_add hValue.2 ?_
    rw [mul_assoc]
    refine mul_le_mul_of_nonneg_left ?_ hWidth.le
    have hUp := slope_le leftBox.der hBefore
    have hDown := slope_le (-rightBox.der) hAfter
    linarith

variable {knots : List (Knot K K)} {boxes : List (Knot K (K × K))} {lo hi : K}

theorem through_enclosed (hLeft : left.Within leftBox) (hKnots : List.Forall₂ Knot.Within knots boxes)
    (hOrder : (leftBox :: boxes).IsChain (·.loc < ·.loc)) (hFrom : leftBox.loc ≤ f) (hTo : f ≤ hi) :
    Enclosed (through f left knots) (throughBounds hi leftBox boxes) := by
  induction hKnots generalizing left leftBox with
  | nil => exact line_enclosed hLeft (.inl ⟨hFrom, hTo.trans (le_max_left _ _)⟩)
  | @cons right rightBox rest boxes hRight hRest ih =>
      obtain ⟨hStep, hOrder⟩ := List.isChain_cons_cons.mp hOrder
      rw [through]
      split_ifs with hHere
      · rw [hRight.loc] at hHere
        exact (segment_enclosed hLeft hRight hStep hFrom hHere).hull_left
      · rw [hRight.loc, not_le] at hHere
        exact (ih hRight hOrder hHere.le).hull_right

/-- The curve through knots with values in intervals lies within the bounds from these. -/
theorem eval_enclosed (hKnots : List.Forall₂ Knot.Within knots boxes) (hSome : boxes ≠ [])
    (hOrder : boxes.IsChain (·.loc < ·.loc)) (hFrom : lo ≤ f) (hTo : f ≤ hi) :
    ∃ v, eval f knots = some v ∧ Enclosed v (bounds lo hi boxes) := by
  cases hKnots with
  | nil => exact absurd rfl hSome
  | @cons first firstBox rest boxes hFirst hRest =>
      refine ⟨_, rfl, ?_⟩
      split_ifs with hHere
      · rw [hFirst.loc] at hHere
        exact (line_enclosed hFirst (.inr ⟨(min_le_left _ _).trans hFrom, hHere⟩)).hull_left
      · rw [hFirst.loc, not_le] at hHere
        exact (through_enclosed hFirst hRest hOrder hHere.le hTo).hull_right

end Enclosure

end CubicSpline
