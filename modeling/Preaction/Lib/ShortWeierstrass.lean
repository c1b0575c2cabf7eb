import Mathlib.Algebra.Field.Basic
import Mathlib.Algebra.Ring.Commute
import Mathlib.Tactic.LinearCombination

/-!
# Points of `y ^ 2 = x ^ 3 + b`

The line through two points of the curve, or the tangent at one, meets the curve in one more
point. Affine addition returns the opposite of that point, so it stays on the curve
(`OnCurve.chord`, `OnCurve.tangent`); and two points with one abscissa are equal or opposite
(`OnCurve.eq_or_neg`), so the slope of a chord is asked for only where there is one.

On the line of slope `l` through a point the curve's equation becomes a cubic in the
abscissa. It has the abscissas of the points for roots, and their sum is `l ^ 2`.
-/

namespace Preaction.ShortWeierstrass

variable {F : Type*} [Field F] {b x y x1 y1 x2 y2 l : F}

/-- The point is on the curve. -/
def OnCurve (b x y : F) : Prop := y ^ 2 = x ^ 3 + b

/-- Points with one abscissa are equal or opposite. -/
theorem OnCurve.eq_or_neg (h1 : OnCurve b x y1) (h2 : OnCurve b x y2) : y1 = y2 ∨ y1 = -y2 :=
  sq_eq_sq_iff_eq_or_eq_neg.mp (Eq.trans h1 (Eq.symm h2))

theorem OnCurve.neg (h : OnCurve b x y) : OnCurve b x (-y) := by
  rw [OnCurve, neg_sq]
  exact h

/-- The sum of two points with different abscissas. -/
theorem OnCurve.chord (h1 : OnCurve b x1 y1) (h2 : OnCurve b x2 y2) (hx : x2 ≠ x1)
    (hl : l * (x2 - x1) = y2 - y1) :
    OnCurve b (l ^ 2 - x1 - x2) (l * (x1 - (l ^ 2 - x1 - x2)) - y1) := by
  unfold OnCurve at h1 h2 ⊢
  -- the cubic minus the product of its three factors is linear, and zero at both abscissas
  refine mul_left_cancel₀ (sub_ne_zero.mpr hx) ?_
  linear_combination (x2 - (l ^ 2 - x1 - x2)) * h1 + (l ^ 2 - x1 - x2 - x1) * h2 +
    (l ^ 2 - x1 - x2 - x1) * (2 * y2 + (l * (x2 - x1) - (y2 - y1))) * hl

/-- The double of a point. -/
theorem OnCurve.tangent (h : OnCurve b x y) (hl : l * (2 * y) = 3 * x ^ 2) :
    OnCurve b (l ^ 2 - x - x) (l * (x - (l ^ 2 - x - x)) - y) := by
  unfold OnCurve at h ⊢
  linear_combination h + (l ^ 2 - x - x - x) * hl

end Preaction.ShortWeierstrass
