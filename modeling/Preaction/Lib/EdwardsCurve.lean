import Mathlib.Algebra.Field.Basic
import Mathlib.Algebra.Group.Hom.Defs
import Mathlib.Algebra.Module.NatInt
import Mathlib.Tactic.FieldSimp
import Mathlib.Tactic.LinearCombination
import Mathlib.Tactic.Ring

/-!
# Edwards curves

The curve `y ^ 2 - x ^ 2 = 1 + d * x ^ 2 * y ^ 2` over a field. Where minus one has a root and `d`
has none, the sum of two points has no exception: neither denominator is zero
(`one_add_ne_zero`). So points are pairs with a proof (`Point`), their sum is total, and they are a
commutative group.

Associativity is shown for the first coordinate, where it is an identity modulo the equations of the
three points. The second coordinate is the first one of a point moved by a quarter (`quarter`).
-/

namespace Preaction.EdwardsCurve

variable {F : Type} [Field F] {d : F}

/-- The curve. -/
def OnCurve (d x y : F) : Prop := y ^ 2 - x ^ 2 = 1 + d * x ^ 2 * y ^ 2

/-- The addition law has no exceptions. -/
class Complete (d : F) : Prop where
  two_ne_zero : (2 : F) ≠ 0
  root : ∃ i : F, i ^ 2 = -1
  nonsquare : ∀ c : F, c ^ 2 ≠ d

/-- An exception would make `d` a square. -/
theorem eq_zero_of_exception [Complete d] {x y u v i t : F} (h : OnCurve d x y)
    (h' : OnCurve d u v) (ht : t = d * x * u * y * v) (hone : t ^ 2 = 1) (hi : i ^ 2 = -1) :
    v + i * u = 0 := by
  have hne : x * y ≠ 0 := by
    intro h0
    have hzero : t = 0 := by linear_combination ht + d * u * v * h0
    rw [hzero] at hone
    norm_num at hone
  by_contra hv
  refine Complete.nonsquare (d := d) ((y + t * i * x) / (x * y * (v + i * u))) ?_
  rw [div_pow, div_eq_iff (pow_ne_zero 2 (mul_ne_zero hne hv))]
  rw [OnCurve] at h h'
  have hleft : (y + t * i * x) ^ 2 = y ^ 2 - x ^ 2 + 2 * t * i * x * y := by
    linear_combination t ^ 2 * x ^ 2 * hi - x ^ 2 * hone
  have hright : d * (x * y * (v + i * u)) ^ 2 = 1 + d * x ^ 2 * y ^ 2 + 2 * t * i * x * y := by
    linear_combination d * x ^ 2 * y ^ 2 * u ^ 2 * hi + d * x ^ 2 * y ^ 2 * h' + hone -
      (t + d * x * u * y * v + 2 * i * x * y) * ht
  rw [hleft, hright, h]

/-- Neither denominator is zero. -/
theorem exception_ne_one [Complete d] {x y u v : F} (h : OnCurve d x y) (h' : OnCurve d u v) :
    (d * x * u * y * v) ^ 2 ≠ 1 := by
  intro hone
  obtain ⟨i, hi⟩ := Complete.root (d := d)
  have hplus := eq_zero_of_exception h h' rfl hone hi
  have hminus := eq_zero_of_exception (i := -i) h h' rfl hone (by linear_combination hi)
  have hv : v = 0 := by
    have h2 : (2 : F) * v = 0 := by linear_combination hplus + hminus
    exact (mul_eq_zero.mp h2).resolve_left (Complete.two_ne_zero d)
  rw [hv] at hone
  norm_num at hone

theorem one_add_ne_zero [Complete d] {x y u v : F} (h : OnCurve d x y) (h' : OnCurve d u v) :
    1 + d * x * u * y * v ≠ 0 := by
  intro h0
  exact exception_ne_one h h' (by linear_combination (d * x * u * y * v - 1) * h0)

theorem one_sub_ne_zero [Complete d] {x y u v : F} (h : OnCurve d x y) (h' : OnCurve d u v) :
    1 - d * x * u * y * v ≠ 0 := by
  intro h0
  exact exception_ne_one h h' (by linear_combination -(d * x * u * y * v + 1) * h0)

/-! ## Points -/

/-- A point of the curve. -/
@[ext]
structure Point (d : F) where
  x : F
  y : F
  on : OnCurve d x y

/-- The neutral point. -/
instance instZeroPoint : Zero (Point d) := ⟨⟨0, 1, by rw [OnCurve]; norm_num⟩⟩

/-- The opposite point. -/
instance instNegPoint : Neg (Point d) :=
  ⟨fun p => ⟨-p.x, p.y, by have h := p.on; rw [OnCurve] at h ⊢; linear_combination h⟩⟩

@[simp] theorem zero_x : (0 : Point d).x = 0 := rfl

@[simp] theorem zero_y : (0 : Point d).y = 1 := rfl

@[simp] theorem neg_x (p : Point d) : (-p).x = -p.x := rfl

@[simp] theorem neg_y (p : Point d) : (-p).y = p.y := rfl

/-- The identity behind associativity. Its certificate is in three sums: `e`, which is symmetric in
the points, and `f1` and `f3`, which single one out. -/
theorem assoc_cross {x1 y1 x2 y2 x3 y3 e f1 f3 : F} (h1 : OnCurve d x1 y1) (h2 : OnCurve d x2 y2)
    (h3 : OnCurve d x3 y3) (he : e = x1 * y2 * y3 + y1 * x2 * y3 + y1 * y2 * x3 + x1 * x2 * x3)
    (hf1 : f1 = (y2 * y3 + x2 * x3) * x1 - (x2 * y3 + y2 * x3) * y1)
    (hf3 : f3 = (y1 * y2 + x1 * x2) * x3 - (x1 * y2 + y1 * x2) * y3) :
    ((x1 * y2 + y1 * x2) * (1 - d * x1 * x2 * y1 * y2) * y3 +
        (y1 * y2 + x1 * x2) * (1 + d * x1 * x2 * y1 * y2) * x3) *
      ((1 - d * x2 * x3 * y2 * y3) * (1 + d * x2 * x3 * y2 * y3) +
        d * (x2 * y3 + y2 * x3) * (y2 * y3 + x2 * x3) * x1 * y1) =
    ((x2 * y3 + y2 * x3) * (1 - d * x2 * x3 * y2 * y3) * y1 +
        (y2 * y3 + x2 * x3) * (1 + d * x2 * x3 * y2 * y3) * x1) *
      ((1 - d * x1 * x2 * y1 * y2) * (1 + d * x1 * x2 * y1 * y2) +
        d * (x1 * y2 + y1 * x2) * (y1 * y2 + x1 * x2) * x3 * y3) := by
  rw [OnCurve] at h1 h2 h3
  have hsum : d * x2 * y2 *
      ((x3 * y3 * f1 + d * x2 * y2 * (x3 * y3) ^ 2 * e) *
          (y1 ^ 2 - x1 ^ 2 - (1 + d * x1 ^ 2 * y1 ^ 2)) +
        d * x1 * y1 * x3 * y3 * (x3 * y3 * f3 - x1 * y1 * f1) *
          (y2 ^ 2 - x2 ^ 2 - (1 + d * x2 ^ 2 * y2 ^ 2)) -
        (x1 * y1 * f3 + d * x2 * y2 * (x1 * y1) ^ 2 * e) *
          (y3 ^ 2 - x3 ^ 2 - (1 + d * x3 ^ 2 * y3 ^ 2))) = 0 := by
    linear_combination d * x2 * y2 *
      ((x3 * y3 * f1 + d * x2 * y2 * (x3 * y3) ^ 2 * e) * h1 +
        d * x1 * y1 * x3 * y3 * (x3 * y3 * f3 - x1 * y1 * f1) * h2 -
        (x1 * y1 * f3 + d * x2 * y2 * (x1 * y1) ^ 2 * e) * h3)
  rw [he, hf1, hf3] at hsum
  linear_combination hsum

variable [Complete d]

/-- The sum of two points is a point. -/
theorem onCurve_add {x1 y1 x2 y2 : F} (h1 : OnCurve d x1 y1) (h2 : OnCurve d x2 y2) :
    OnCurve d ((x1 * y2 + y1 * x2) / (1 + d * x1 * x2 * y1 * y2))
      ((y1 * y2 + x1 * x2) / (1 - d * x1 * x2 * y1 * y2)) := by
  obtain ⟨u, hu⟩ : ∃ u, 1 + d * x1 * x2 * y1 * y2 = u := ⟨_, rfl⟩
  obtain ⟨v, hv⟩ : ∃ v, 1 - d * x1 * x2 * y1 * y2 = v := ⟨_, rfl⟩
  have hu0 : u ≠ 0 := hu ▸ one_add_ne_zero h1 h2
  have hv0 : v ≠ 0 := hv ▸ one_sub_ne_zero h1 h2
  rw [hu, hv]
  rw [OnCurve] at h1 h2 ⊢
  have hcleared : (y1 * y2 + x1 * x2) ^ 2 * u ^ 2 - (x1 * y2 + y1 * x2) ^ 2 * v ^ 2 =
      u ^ 2 * v ^ 2 + d * (x1 * y2 + y1 * x2) ^ 2 * (y1 * y2 + x1 * x2) ^ 2 := by
    rw [← hu, ← hv]
    linear_combination ((1 + d ^ 2 * x1 ^ 2 * x2 ^ 2 * y1 ^ 2 * y2 ^ 2) * (y2 ^ 2 - x2 ^ 2) -
        d * x2 ^ 2 * y2 ^ 2 * (y1 ^ 2 - x1 ^ 2 + 1 + d * x1 ^ 2 * y1 ^ 2)) * h1 +
      ((1 + d ^ 2 * x1 ^ 2 * x2 ^ 2 * y1 ^ 2 * y2 ^ 2) * (1 + d * x1 ^ 2 * y1 ^ 2) -
        d * x1 ^ 2 * y1 ^ 2 * (y2 ^ 2 - x2 ^ 2 + 1 + d * x2 ^ 2 * y2 ^ 2)) * h2
  field_simp
  linear_combination hcleared

instance instAddPoint : Add (Point d) := ⟨fun p q => ⟨_, _, onCurve_add p.on q.on⟩⟩

theorem add_x (p q : Point d) :
    (p + q).x = (p.x * q.y + p.y * q.x) / (1 + d * p.x * q.x * p.y * q.y) := rfl

theorem add_y (p q : Point d) :
    (p + q).y = (p.y * q.y + p.x * q.x) / (1 - d * p.x * q.x * p.y * q.y) := rfl

protected theorem Point.add_comm (p q : Point d) : p + q = q + p := by
  ext
  · rw [add_x, add_x]
    congr 1
    · ring
    · ring
  · rw [add_y, add_y]
    congr 1
    · ring
    · ring

protected theorem Point.zero_add (p : Point d) : 0 + p = p := by
  ext
  · rw [add_x, zero_x, zero_y]
    simp
  · rw [add_y, zero_x, zero_y]
    simp

protected theorem Point.neg_add (p : Point d) : -p + p = 0 := by
  have h := p.on
  rw [OnCurve] at h
  ext
  · rw [add_x, neg_x, neg_y, zero_x, div_eq_zero_iff]
    exact Or.inl (by ring)
  · have hne := one_sub_ne_zero (-p).on p.on
    rw [add_y, zero_y, div_eq_one_iff_eq hne, neg_x, neg_y]
    linear_combination h

/-! ## Associativity -/

/-- The sum of three, cleared of its inner denominators. -/
theorem add_add_x (p q r : Point d) : ∃ w ≠ 0,
    w = (1 - d * p.x * q.x * p.y * q.y) * (1 + d * p.x * q.x * p.y * q.y) +
        d * (p.x * q.y + p.y * q.x) * (p.y * q.y + p.x * q.x) * r.x * r.y ∧
      (p + q + r).x * w =
        (p.x * q.y + p.y * q.x) * (1 - d * p.x * q.x * p.y * q.y) * r.y +
          (p.y * q.y + p.x * q.x) * (1 + d * p.x * q.x * p.y * q.y) * r.x := by
  have hs := one_add_ne_zero (p + q).on r.on
  have hu0 := one_add_ne_zero p.on q.on
  have hv0 := one_sub_ne_zero p.on q.on
  rw [add_x (p + q), add_x p q, add_y p q] at *
  generalize 1 + d * p.x * q.x * p.y * q.y = u at *
  generalize 1 - d * p.x * q.x * p.y * q.y = v at *
  have hw : v * u + d * (p.x * q.y + p.y * q.x) * (p.y * q.y + p.x * q.x) * r.x * r.y =
      v * u * (1 + d * ((p.x * q.y + p.y * q.x) / u) * r.x *
        ((p.y * q.y + p.x * q.x) / v) * r.y) := by
    field_simp
  refine ⟨_, ?_, rfl, ?_⟩
  · rw [hw]
    exact mul_ne_zero (mul_ne_zero hv0 hu0) hs
  · rw [hw, mul_comm (v * u), ← mul_assoc, div_mul_cancel₀ _ hs]
    field_simp

/-- The sums of three agree in the first coordinate. -/
theorem add_assoc_x (p q r : Point d) : (p + q + r).x = (q + r + p).x := by
  obtain ⟨w, hw0, hw, hleft⟩ := add_add_x p q r
  obtain ⟨z, hz0, hz, hright⟩ := add_add_x q r p
  have hcross := assoc_cross p.on q.on r.on rfl rfl rfl
  rw [← hw, ← hz, ← hleft, ← hright] at hcross
  refine mul_right_cancel₀ (mul_ne_zero hw0 hz0) ?_
  linear_combination hcross

/-! ## A quarter -/

/-- The point moved by a point of order four. -/
def quarter (i : F) (hi : i ^ 2 = -1) (p : Point d) : Point d :=
  ⟨i * p.y, i * p.x, by
    have h := p.on
    rw [OnCurve] at h ⊢
    linear_combination h + (p.x ^ 2 - p.y ^ 2 - d * p.x ^ 2 * p.y ^ 2 * (i ^ 2 - 1)) * hi⟩

theorem quarter_add {i : F} (hi : i ^ 2 = -1) (p q : Point d) :
    quarter i hi p + q = quarter i hi (p + q) := by
  have hp : 1 + d * (i * p.y) * q.x * (i * p.x) * q.y = 1 - d * p.x * q.x * p.y * q.y := by
    linear_combination d * p.x * q.x * p.y * q.y * hi
  have hm : 1 - d * (i * p.y) * q.x * (i * p.x) * q.y = 1 + d * p.x * q.x * p.y * q.y := by
    linear_combination -d * p.x * q.x * p.y * q.y * hi
  ext
  · rw [add_x]
    show (i * p.y * q.y + i * p.x * q.x) / (1 + d * (i * p.y) * q.x * (i * p.x) * q.y) =
      i * (p + q).y
    rw [hp, add_y]
    ring
  · rw [add_y]
    show (i * p.x * q.y + i * p.y * q.x) / (1 - d * (i * p.y) * q.x * (i * p.x) * q.y) =
      i * (p + q).x
    rw [hm, add_x]
    ring

protected theorem Point.add_assoc (p q r : Point d) : p + q + r = p + (q + r) := by
  obtain ⟨i, hi⟩ := Complete.root (d := d)
  have hi0 : i ≠ 0 := by
    intro h0
    rw [h0] at hi
    norm_num at hi
  rw [Point.add_comm p (q + r)]
  ext
  · exact add_assoc_x p q r
  · -- the second coordinates are the first ones, a quarter on
    have h := add_assoc_x (quarter i hi p) q r
    rw [Point.add_comm (q + r), quarter_add, quarter_add, quarter_add] at h
    rw [Point.add_comm (q + r)]
    exact mul_left_cancel₀ hi0 h

instance instAddCommGroupPoint : AddCommGroup (Point d) where
  add_assoc := Point.add_assoc
  zero_add := Point.zero_add
  add_zero p := (Point.add_comm p 0).trans (Point.zero_add p)
  neg_add_cancel := Point.neg_add
  add_comm := Point.add_comm
  nsmul := nsmulRec
  zsmul := zsmulRec

/-! ## Extended coordinates -/

/-- The four coordinates are those of the point: `x * y` is kept beside `x` and `y`, and all are
multiples of `Z`. -/
structure Represents (X Y Z T : F) (p : Point d) : Prop where
  z : Z ≠ 0
  x : X = p.x * Z
  y : Y = p.y * Z
  t : T = p.x * p.y * Z

omit [Complete d] in
/-- Points are compared without a division. -/
theorem Represents.eq_iff {X Y Z T X' Y' Z' T' : F} {p q : Point d} (hp : Represents X Y Z T p)
    (hq : Represents X' Y' Z' T' q) : X * Z' = X' * Z ∧ Y * Z' = Y' * Z ↔ p = q := by
  have hz := mul_ne_zero hp.z hq.z
  rw [hp.x, hq.x, hp.y, hq.y, Point.ext_iff]
  refine and_congr ?_ ?_
  · constructor
    · intro h
      exact mul_right_cancel₀ hz (by linear_combination h)
    · intro h
      rw [h]
      ring
  · constructor
    · intro h
      exact mul_right_cancel₀ hz (by linear_combination h)
    · intro h
      rw [h]
      ring

omit [Complete d] in
theorem Represents.neg {X Y Z T : F} {p : Point d} (h : Represents X Y Z T p) :
    Represents (-X) Y Z (-T) (-p) where
  z := h.z
  x := by rw [h.x, neg_x]; ring
  y := by rw [h.y, neg_y]
  t := by rw [h.t, neg_x, neg_y]; ring

/-- The addition of extended coordinates, with no division. -/
theorem Represents.add {X1 Y1 Z1 T1 X2 Y2 Z2 T2 A B C D : F} {p q : Point d}
    (hp : Represents X1 Y1 Z1 T1 p) (hq : Represents X2 Y2 Z2 T2 q)
    (hA : A = (Y1 - X1) * (Y2 - X2)) (hB : B = (Y1 + X1) * (Y2 + X2)) (hC : C = 2 * T1 * T2 * d)
    (hD : D = 2 * Z1 * Z2) :
    Represents ((B - A) * (D - C)) ((D + C) * (B + A)) ((D - C) * (D + C)) ((B - A) * (B + A))
      (p + q) := by
  have hu0 := one_add_ne_zero p.on q.on
  have hv0 := one_sub_ne_zero p.on q.on
  have hz : 2 * Z1 * Z2 ≠ 0 := mul_ne_zero (mul_ne_zero (Complete.two_ne_zero d) hp.z) hq.z
  have hE : B - A = 2 * Z1 * Z2 * (p.x * q.y + p.y * q.x) := by
    rw [hA, hB, hp.x, hp.y, hq.x, hq.y]
    ring
  have hH : B + A = 2 * Z1 * Z2 * (p.y * q.y + p.x * q.x) := by
    rw [hA, hB, hp.x, hp.y, hq.x, hq.y]
    ring
  have hF : D - C = 2 * Z1 * Z2 * (1 - d * p.x * q.x * p.y * q.y) := by
    rw [hC, hD, hp.t, hq.t]
    ring
  have hG : D + C = 2 * Z1 * Z2 * (1 + d * p.x * q.x * p.y * q.y) := by
    rw [hC, hD, hp.t, hq.t]
    ring
  have hx : (p + q).x * (1 + d * p.x * q.x * p.y * q.y) = p.x * q.y + p.y * q.x :=
    div_mul_cancel₀ _ hu0
  have hy : (p + q).y * (1 - d * p.x * q.x * p.y * q.y) = p.y * q.y + p.x * q.x :=
    div_mul_cancel₀ _ hv0
  rw [hE, hH, hF, hG, ← hx, ← hy]
  generalize 2 * Z1 * Z2 = z at hz
  refine ⟨mul_ne_zero (mul_ne_zero hz hv0) (mul_ne_zero hz hu0), ?_, ?_, ?_⟩
  · ring
  · ring
  · ring

/-! ## The point of an ordinate -/

omit [Complete d] in
/-- The square of the abscissa. -/
theorem onCurve_iff {x y : F} : OnCurve d x y ↔ x ^ 2 * (d * y ^ 2 + 1) = y ^ 2 - 1 := by
  rw [OnCurve]
  constructor
  · intro h
    linear_combination -h
  · intro h
    linear_combination -h

theorem ordinate_ne_zero (y : F) : d * y ^ 2 + 1 ≠ 0 := by
  obtain ⟨i, hi⟩ := Complete.root (d := d)
  intro h0
  have hy : y ≠ 0 := by
    intro hy
    rw [hy] at h0
    norm_num at h0
  refine Complete.nonsquare (d := d) (i / y) ?_
  rw [div_pow, div_eq_iff (pow_ne_zero 2 hy)]
  linear_combination hi - h0

/-- Two points of one ordinate are equal or opposite. -/
theorem eq_or_neg {p q : Point d} (h : p.y = q.y) : p = q ∨ p = -q := by
  have hp := onCurve_iff.mp p.on
  have hq := onCurve_iff.mp q.on
  rw [h] at hp
  have hsq : p.x ^ 2 = q.x ^ 2 :=
    mul_right_cancel₀ (ordinate_ne_zero q.y) (hp.trans hq.symm)
  rcases sq_eq_sq_iff_eq_or_eq_neg.mp hsq with hx | hx
  · exact Or.inl (Point.ext hx h)
  · exact Or.inr (Point.ext hx h)

end Preaction.EdwardsCurve

namespace Preaction.EdwardsCurve

/-- A candidate for a root, in a field of `8 * m + 5` elements: it is one, or becomes one when it is
multiplied with a root of minus one. -/
theorem root_candidate {F : Type} [Field F] {a s i : F} {m : Nat} (hs : s ^ 2 = a)
    (hi : i ^ 2 = -1) (hcard : s ≠ 0 → s ^ (8 * m + 4) = 1) :
    (a ^ (m + 1)) ^ 2 = a ∨ (a ^ (m + 1) * i) ^ 2 = a := by
  by_cases h0 : s = 0
  · left
    rw [← hs, h0]
    simp
  · obtain ⟨e, he⟩ : ∃ e, s ^ (4 * m + 2) = e := ⟨_, rfl⟩
    have hsq : e ^ 2 = 1 := by
      rw [← he, ← pow_mul, ← hcard h0]
      congr 1
      ring
    have hc : (a ^ (m + 1)) ^ 2 = e * a := by
      rw [← he, ← hs, ← pow_mul, ← pow_mul, ← pow_add]
      congr 1
      ring
    rcases sq_eq_one_iff.mp hsq with he | he
    · left
      rw [hc, he, one_mul]
    · right
      rw [mul_pow, hc, he, hi]
      ring

end Preaction.EdwardsCurve
