import Mathlib.AlgebraicGeometry.EllipticCurve.Affine.Point
import Mathlib.GroupTheory.OrderOfElement
import Preaction.Lib.ShortWeierstrass

/-!
# The group of `y ^ 2 = x ^ 3 + b`

The points of the curve, and one at infinity, are the points of a Weierstrass curve of
Mathlib, which are a group. The slope of a chord or of a tangent is given here by its equation
and not as a quotient, so that code may compute it in any way (`pt_add_chord`, `pt_add_tangent`).

A field has at most two points over each abscissa. So where a point has a prime order `N` that
is more than a third of all there could be, the group has `N` or `2 * N` members; and where no
abscissa has the ordinate zero there is no member of order two, and it is `N`
(`nsmul_order`). No points are counted.

A multiple is quickest had without division: a point is then written `(X / Z ^ 2, Y / Z ^ 3)`
(`Represents`), and doubling it or adding an affine point needs none
(`Represents.double`, `Represents.add`).
-/

namespace Preaction.ShortWeierstrass

open WeierstrassCurve.Affine

variable {F : Type*} [Field F] {b x y x1 y1 x2 y2 l : F}

/-- The curve. -/
abbrev curve (b : F) : WeierstrassCurve.Affine F := ⟨0, 0, 0, 0, b⟩

/-- The discriminant is not zero. -/
class Smooth (b : F) : Prop where
  disc : (432 : F) * b ^ 2 ≠ 0

theorem Smooth.two_ne_zero (b : F) [h : Smooth b] : (2 : F) ≠ 0 := by
  intro h2
  refine h.disc ?_
  linear_combination 216 * b ^ 2 * h2

theorem equation_iff : (curve b).Equation x y ↔ OnCurve b x y := by
  rw [WeierstrassCurve.Affine.equation_iff, OnCurve]
  simp only [zero_mul, add_zero]

theorem nonsingular [h : Smooth b] (hc : OnCurve b x y) : (curve b).Nonsingular x y := by
  have hdelta : (curve b).Δ ≠ 0 := by
    intro hzero
    simp only [WeierstrassCurve.Δ, WeierstrassCurve.b₂, WeierstrassCurve.b₄, WeierstrassCurve.b₆,
      WeierstrassCurve.b₈] at hzero
    refine h.disc ?_
    linear_combination -hzero
  exact ((curve b).equation_iff_nonsingular_of_Δ_ne_zero hdelta).mp (equation_iff.mpr hc)

theorem onCurve (h : (curve b).Nonsingular x y) : OnCurve b x y := equation_iff.mp h.1

/-- The point in a form that says no more than its abscissa and one bit. -/
noncomputable def code (Q : (curve b).Point) : Option (F × Bool) :=
  match Q with
  | .zero => none
  | .some x y _ => open Classical in some (x, decide (y = Function.invFun (· ^ 2) (x ^ 3 + b)))

theorem code_injective : Function.Injective (code (b := b)) := by
  intro Q Q' h
  cases Q with
  | zero =>
    cases Q' with
    | zero => rfl
    | some x' y' h' => cases h
  | some x y hxy =>
    cases Q' with
    | zero => cases h
    | some x' y' hxy' =>
      obtain ⟨rfl, hbit⟩ := Prod.mk.inj (Option.some.inj h)
      rw [decide_eq_decide] at hbit
      rw [Point.some.injEq]
      refine ⟨rfl, ?_⟩
      have hsq := onCurve hxy
      -- the root that is chosen is one of the two, and each ordinate is it or its opposite
      have hroot : OnCurve b x (Function.invFun (· ^ 2) (x ^ 3 + b)) :=
        Function.invFun_eq (f := fun z : F => z ^ 2) ⟨y, hsq⟩
      rcases hsq.eq_or_neg hroot with hy | hy
      · exact hy.trans (hbit.mp hy).symm
      · rcases (onCurve hxy').eq_or_neg hroot with hy' | hy'
        · exact (hbit.mpr hy').trans hy'.symm
        · exact hy.trans hy'.symm

variable [Smooth b]

/-- A finite point. -/
def pt (h : OnCurve b x y) : (curve b).Point := .some x y (nonsingular h)

theorem pt_ne_zero (h : OnCurve b x y) : pt h ≠ 0 := Point.some_ne_zero _

theorem pt_inj {h1 : OnCurve b x1 y1} {h2 : OnCurve b x2 y2} :
    pt h1 = pt h2 ↔ x1 = x2 ∧ y1 = y2 := by
  rw [pt, pt, Point.some.injEq]

theorem exists_pt (Q : (curve b).Point) : Q = 0 ∨ ∃ x y, ∃ h : OnCurve b x y, Q = pt h := by
  cases Q with
  | zero => exact Or.inl rfl
  | some x y h => exact Or.inr ⟨x, y, onCurve h, rfl⟩

theorem neg_pt (h : OnCurve b x y) : -pt h = pt h.neg := by
  rw [pt, Point.neg_some, pt, Point.some.injEq]
  refine ⟨rfl, ?_⟩
  rw [negY]
  simp only [zero_mul, sub_zero]

/-! ## Addition -/

variable [DecidableEq F]

/-- Points with one abscissa whose ordinates cancel. -/
theorem pt_add_opposite (h1 : OnCurve b x y1) (h2 : OnCurve b x y2) (hy : y1 + y2 = 0) :
    pt h1 + pt h2 = 0 := by
  have hneg : pt h1 = -pt h2 := by
    rw [neg_pt, pt_inj]
    exact ⟨rfl, eq_neg_of_add_eq_zero_left hy⟩
  rw [hneg, neg_add_cancel]

theorem pt_add_chord (h1 : OnCurve b x1 y1) (h2 : OnCurve b x2 y2) (hx : x2 ≠ x1)
    (hl : l * (x2 - x1) = y2 - y1) : pt h1 + pt h2 = pt (h1.chord h2 hx hl) := by
  have hslope : (curve b).slope x1 x2 y1 y2 = l := by
    rw [slope_of_X_ne hx.symm, div_eq_iff (sub_ne_zero.mpr hx.symm)]
    linear_combination hl
  rw [pt, pt, Point.add_of_X_ne hx.symm, pt, Point.some.injEq]
  rw [hslope, addY, negAddY, negY, addX]
  constructor
  · ring
  · ring

theorem pt_add_tangent (h : OnCurve b x y) (hy : y ≠ 0) (hl : l * (2 * y) = 3 * x ^ 2) :
    pt h + pt h = pt (h.tangent hl) := by
  have h2 := Smooth.two_ne_zero b
  have hne : y ≠ (curve b).negY x y := by
    intro heq
    rw [negY] at heq
    refine mul_ne_zero h2 hy ?_
    linear_combination heq
  have hslope : (curve b).slope x x y y = l := by
    rw [slope_of_Y_ne rfl hne, div_eq_iff (sub_ne_zero.mpr hne), negY]
    linear_combination -hl
  rw [pt, Point.add_self_of_Y_ne hne, pt, Point.some.injEq]
  rw [hslope, addY, negAddY, negY, addX]
  constructor
  · ring
  · ring

/-! ## The order of a point -/

/-- **Every point has the order of one.** Where a point has a prime order above a third of
`2 * q + 1` and no abscissa has the ordinate zero, that order ends every point. -/
theorem nsmul_order [Fintype F] {N : Nat} (hN : N.Prime) {G : (curve b).Point} (hG : G ≠ 0)
    (hNG : N • G = 0) (hcard : 2 * Fintype.card F + 1 < 3 * N) (hcube : ∀ x : F, x ^ 3 ≠ -b)
    (Q : (curve b).Point) : N • Q = 0 := by
  have hfinite : Finite (curve b).Point := Finite.of_injective code code_injective
  have hle : Nat.card (curve b).Point ≤ 2 * Fintype.card F + 1 := by
    have h := Nat.card_le_card_of_injective code (code_injective (b := b))
    rw [Nat.card_eq_fintype_card (α := Option (F × Bool)), Fintype.card_option, Fintype.card_prod,
      Fintype.card_bool] at h
    omega
  have hdvd : N ∣ Nat.card (curve b).Point := by
    have horder : addOrderOf G = N := by
      have : Fact N.Prime := ⟨hN⟩
      exact addOrderOf_eq_prime hNG hG
    rw [← horder]
    exact addOrderOf_dvd_natCard G
  have hzero : Nat.card (curve b).Point • Q = 0 := card_nsmul_eq_zero'
  obtain ⟨m, hm⟩ := hdvd
  have hpos : 0 < Nat.card (curve b).Point := Nat.card_pos
  have hm3 : m < 3 := by
    by_contra hge
    have := Nat.mul_le_mul_left N (Nat.not_lt.mp hge)
    omega
  have hm0 : 0 < m := by
    rcases Nat.eq_zero_or_pos m with rfl | h
    · rw [hm, mul_zero] at hpos
      exact absurd hpos (lt_irrefl 0)
    · exact h
  rcases (by omega : m = 1 ∨ m = 2) with rfl | rfl
  · rwa [hm, mul_one] at hzero
  · -- what is left is of order two, and there is no such point
    have htwo : N • Q + N • Q = 0 := by
      rwa [hm, mul_nsmul, two_nsmul] at hzero
    rcases exists_pt (N • Q) with h0 | ⟨x, y, h, hQ⟩
    · exact h0
    · rw [hQ, add_eq_zero_iff_eq_neg, neg_pt, pt_inj] at htwo
      have hy : y = 0 := by
        have h2 := mul_eq_zero.mp (show (2 : F) * y = 0 by linear_combination htwo.2)
        exact h2.resolve_left (Smooth.two_ne_zero b)
      refine absurd ?_ (hcube x)
      rw [OnCurve, hy] at h
      linear_combination -h

/-! ## Points without division -/

/-- The point is `(X / Z ^ 2, Y / Z ^ 3)`. -/
def Represents (Q : (curve b).Point) (X Y Z : F) : Prop :=
  Z ≠ 0 ∧ ∃ x y, ∃ h : OnCurve b x y, Q = pt h ∧ X = x * Z ^ 2 ∧ Y = y * Z ^ 3

omit [DecidableEq F] in
theorem represents_pt (h : OnCurve b x y) : Represents (pt h) x y 1 :=
  ⟨one_ne_zero, x, y, h, rfl, by ring, by ring⟩

omit [DecidableEq F] in
theorem Represents.eq_pt {Q : (curve b).Point} {X Y Z : F} (hQ : Represents Q X Y Z)
    (h : OnCurve b x y) (hX : X = x * Z ^ 2) (hY : Y = y * Z ^ 3) : Q = pt h := by
  obtain ⟨hZ, x', y', h', rfl, hX', hY'⟩ := hQ
  rw [pt_inj]
  exact ⟨mul_right_cancel₀ (pow_ne_zero 2 hZ) (hX'.symm.trans hX),
    mul_right_cancel₀ (pow_ne_zero 3 hZ) (hY'.symm.trans hY)⟩

theorem Represents.double {Q : (curve b).Point} {X Y Z : F} (hQ : Represents Q X Y Z)
    (hY : Y ≠ 0) : Represents (Q + Q) ((3 * X ^ 2) ^ 2 - 8 * X * Y ^ 2)
      (3 * X ^ 2 * (4 * X * Y ^ 2 - ((3 * X ^ 2) ^ 2 - 8 * X * Y ^ 2)) - 8 * Y ^ 4) (2 * Y * Z) := by
  obtain ⟨hZ, x, y, h, rfl, rfl, rfl⟩ := hQ
  have h2 := Smooth.two_ne_zero b
  have hy : y ≠ 0 := (mul_ne_zero_iff.mp hY).1
  have hl : 3 * x ^ 2 / (2 * y) * (2 * y) = 3 * x ^ 2 := div_mul_cancel₀ _ (mul_ne_zero h2 hy)
  refine ⟨mul_ne_zero (mul_ne_zero h2 hY) hZ, _, _, h.tangent hl, pt_add_tangent h hy hl, ?_, ?_⟩
  · field_simp
    ring
  · field_simp
    ring

theorem Represents.add {Q : (curve b).Point} {X Y Z : F} (hQ : Represents Q X Y Z)
    (h : OnCurve b x2 y2) {H R : F} (hH : H = x2 * Z ^ 2 - X) (hR : R = y2 * Z ^ 3 - Y)
    (hne : H ≠ 0) : Represents (Q + pt h) (R ^ 2 - H ^ 3 - 2 * X * H ^ 2)
      (R * (X * H ^ 2 - (R ^ 2 - H ^ 3 - 2 * X * H ^ 2)) - Y * H ^ 3) (H * Z) := by
  obtain ⟨hZ, x, y, hQ, rfl, rfl, rfl⟩ := hQ
  have hH' : H = (x2 - x) * Z ^ 2 := by rw [hH]; ring
  have hR' : R = (y2 - y) * Z ^ 3 := by rw [hR]; ring
  have hx : x2 - x ≠ 0 := by
    rw [hH'] at hne
    exact (mul_ne_zero_iff.mp hne).1
  have hl : (y2 - y) / (x2 - x) * (x2 - x) = y2 - y := div_mul_cancel₀ _ hx
  refine ⟨mul_ne_zero hne hZ, _, _, hQ.chord h (sub_ne_zero.mp hx) hl,
    pt_add_chord hQ h (sub_ne_zero.mp hx) hl, ?_, ?_⟩
  · rw [hH', hR']
    field_simp
    ring
  · rw [hH', hR']
    field_simp
    ring

end Preaction.ShortWeierstrass
