import Mathlib.FieldTheory.Finite.Basic
import Preaction.EdwardsField
import Preaction.Lib.EdwardsCurve
import Preaction.Lib.GroupSignature

/-!
# The group of edwards25519

Extended coordinates stand for points of the curve (`Represents`), `_add` for their sum and `_mul`
for the multiple: `D` has no root modulo `P`, so no sum has an exception. `L` is a prime number and
ends the base point, which is not the neutral one; so a multiple of it is neutral where `L` divides
the scalar, and only there (`nsmul_base_iff`).
-/

namespace Preaction.Edwards

open Preaction.Py EdwardsCurve

instance instFactPrimeP : Fact P.Prime := ⟨prime_P⟩

/-- The field. -/
abbrev Field25519 : Type := ZMod P

/-- The points of the curve. -/
abbrev Curve : Type := EdwardsCurve.Point (D : Field25519)

theorem coe_negP (x : Nat) : ((negP x : Nat) : Field25519) = -x := by
  have hle : x % P ≤ P := (Nat.mod_lt _ prime_P.pos).le
  unfold negP
  rw [ZMod.natCast_mod, Nat.cast_sub hle, ZMod.natCast_self, ZMod.natCast_mod, zero_sub]

theorem coe_powP (b : Nat) {e : Nat} (he : e < 2 ^ 256) :
    ((powP b e : Nat) : Field25519) = (b : Field25519) ^ e := by
  rw [powP_eq he, ZMod.natCast_mod, Nat.cast_pow]

theorem coe_eq_iff {a b : Nat} : (a : Field25519) = b ↔ a % P = b % P :=
  ZMod.natCast_eq_natCast_iff' a b P

/-- `SQRTM1` -/
theorem sqrtM1_sq : (sqrtM1 : Field25519) ^ 2 = -1 := by
  have hroot : (sqrtM1 * sqrtM1 + 1) % P = 0 % P := by decide +kernel
  have hcast := coe_eq_iff.mpr hroot
  push_cast at hcast
  linear_combination hcast

/-- Euler's criterion, run on `D`. -/
theorem D_nonsquare (c : Field25519) : c ^ 2 ≠ (D : Field25519) := by
  intro hc
  have hpow : powP D ((P - 1) / 2) = P - 1 := by decide +kernel
  have hhalf : ((D : Nat) : Field25519) ^ ((P - 1) / 2) = -1 := by
    rw [← coe_powP D (by decide), hpow, Nat.cast_sub prime_P.one_le, ZMod.natCast_self,
      Nat.cast_one, zero_sub]
  have hcard : 2 * ((P - 1) / 2) = P - 1 := by decide
  rw [← hc, ← pow_mul, hcard] at hhalf
  have htwo : (2 : Nat) % P ≠ 0 % P := by decide
  by_cases h0 : c = 0
  · rw [h0, zero_pow (by decide)] at hhalf
    norm_num at hhalf
  · rw [ZMod.pow_card_sub_one_eq_one h0] at hhalf
    refine htwo (coe_eq_iff.mp ?_)
    push_cast
    linear_combination hhalf

instance instCompleteD : Complete (D : Field25519) where
  two_ne_zero := by
    have htwo : (2 : Nat) % P ≠ 0 % P := by decide
    intro h0
    exact htwo (coe_eq_iff.mp (by exact_mod_cast h0))
  root := ⟨sqrtM1, sqrtM1_sq⟩
  nonsquare := D_nonsquare

/-! ## Coordinates -/

/-- The coordinates are those of the point. -/
def Represents (A : Point) (p : Curve) : Prop :=
  EdwardsCurve.Represents (A.X : Field25519) A.Y A.Z A.T p

theorem represents_ident : Represents ident 0 where
  z := by
    show ((1 : Nat) : Field25519) ≠ 0
    rw [Nat.cast_one]
    exact one_ne_zero
  x := by simp [ident]
  y := by simp [ident]
  t := by simp [ident]

/-- `_add` adds. -/
theorem Represents.add {A B : Point} {p q : Curve} (hA : Represents A p) (hB : Represents B q) :
    Represents (Edwards.add A B) (p + q) := by
  have h := EdwardsCurve.Represents.add hA hB rfl rfl rfl rfl
  unfold Represents Edwards.add
  dsimp only
  simp only [ZMod.natCast_mod, Nat.cast_mul, Nat.cast_add, coe_negP, Nat.cast_ofNat,
    ← sub_eq_add_neg]
  exact h

theorem represents_mulAux {fuel s : Nat} {A Q : Point} {p q : Curve} (hs : s < 2 ^ fuel)
    (hA : Represents A p) (hQ : Represents Q q) :
    Represents (mulAux fuel s A Q) (q + s • p) := by
  induction fuel generalizing s A Q p q with
  | zero =>
    obtain rfl : s = 0 := by simpa using hs
    rw [zero_nsmul, add_zero]
    exact hQ
  | succ fuel ih =>
    rw [pow_succ] at hs
    unfold mulAux
    split
    next h0 =>
      rw [h0, zero_nsmul, add_zero]
      exact hQ
    next =>
      have hhalf : s / 2 < 2 ^ fuel := by omega
      split
      next hodd =>
        have hrun := ih hhalf (hA.add hA) (hQ.add hA)
        have hbits : q + s • p = q + p + (s / 2) • (p + p) := by
          conv_lhs => rw [← Nat.div_add_mod s 2, hodd, add_nsmul, one_nsmul, mul_nsmul, two_nsmul]
          rw [add_comm ((s / 2) • (p + p)), add_assoc]
        rwa [hbits]
      next heven =>
        have hrun := ih hhalf (hA.add hA) hQ
        have hbits : q + s • p = q + (s / 2) • (p + p) := by
          conv_lhs => rw [← Nat.div_add_mod s 2, Nat.mod_two_ne_one.mp heven, add_zero, mul_nsmul,
            two_nsmul]
        rwa [hbits]

/-- `_mul` multiplies. -/
theorem Represents.mul {A : Point} {p : Curve} (hA : Represents A p) {s : Nat}
    (hs : s < 2 ^ 256) : Represents (Edwards.mul s A) (s • p) := by
  have h := represents_mulAux hs hA represents_ident
  rwa [zero_add] at h

/-- Two points in extended coordinates are one: the cross products agree. -/
theorem Represents.eq_iff {A B : Point} {p q : Curve} (hA : Represents A p)
    (hB : Represents B q) :
    A.X * B.Z % P = B.X * A.Z % P ∧ A.Y * B.Z % P = B.Y * A.Z % P ↔ p = q := by
  rw [← EdwardsCurve.Represents.eq_iff hA hB, ← coe_eq_iff, ← coe_eq_iff]
  push_cast
  exact Iff.rfl

/-! ## The base point -/

/-- The factors of `L - 1`, the factors of the two largest of them, and so on down. -/
def chainOfL : List Lucas :=
  [⟨14741173, 2, [2, 2, 3, 3, 409477]⟩,
    ⟨58964693, 2, [2, 2, 14741173]⟩,
    ⟨3044861653679985063343, 5, [2, 3, 11, 30703, 82163, 132667, 137849]⟩,
    ⟨198211423230930754013084525763697, 5,
      [2, 2, 2, 2, 3, 23, 58964693, 3044861653679985063343]⟩,
    ⟨292386187, 2, [2, 3, 3, 3, 3, 307, 5879]⟩,
    ⟨213441916511, 13, [2, 5, 73, 292386187]⟩,
    ⟨1257559732178653, 2, [2, 2, 3, 7, 23, 531581, 1224481]⟩,
    ⟨4434155615661930479, 17, [2, 41, 43, 1257559732178653]⟩,
    ⟨172054593956031949258510691, 2, [2, 5, 1361, 2851, 4434155615661930479]⟩,
    ⟨19757330305831588566944191468367130476339, 2,
      [2, 269, 213441916511, 172054593956031949258510691]⟩,
    ⟨276602624281642239937218680557139826668747, 2,
      [2, 7, 19757330305831588566944191468367130476339]⟩,
    ⟨L, 2, [2, 2, 3, 11, 198211423230930754013084525763697,
      276602624281642239937218680557139826668747]⟩]

/-- The factors in the chain that are small. -/
def smallFactorsOfL : List Nat :=
  [2, 3, 5, 7, 11, 23, 41, 43, 73, 269, 307, 1361, 2851, 5879, 30703, 82163, 132667, 137849,
    409477, 531581, 1224481]

theorem prime_smallFactorsOfL : ∀ q ∈ smallFactorsOfL, q.Prime := by
  unfold smallFactorsOfL
  norm_num

/-- `L` is a prime number. -/
theorem prime_L : Nat.Prime L := by
  have hchain : chain smallFactorsOfL chainOfL = true := by decide +kernel
  exact prime_of_chain prime_smallFactorsOfL hchain ⟨L, 2, _⟩ (List.mem_of_getLast? rfl)

/-- The ordinate of the base point. -/
def baseY : Nat := 4 * powP 5 (P - 2) % P

/-- Its abscissa, which is even. -/
def baseX : Nat :=
  if root (xSquared baseY) % 2 = 1 then P - root (xSquared baseY) else root (xSquared baseY)

/-- The base point, in extended coordinates. -/
def basePoint : Point := ⟨baseX, baseY, 1, baseX * baseY % P⟩

/-- The base point. -/
def base : Curve where
  x := (baseX : Field25519)
  y := (baseY : Field25519)
  on := by
    have hon : baseY ^ 2 % P = (1 + D * baseX ^ 2 * baseY ^ 2 + baseX ^ 2) % P := by
      decide +kernel
    have hcast := coe_eq_iff.mpr hon
    push_cast at hcast
    rw [OnCurve]
    linear_combination hcast

/-- Coordinates with `Z = 1`. -/
theorem represents_affine {x y t : Nat} {p : Curve} (hx : (x : Field25519) = p.x)
    (hy : (y : Field25519) = p.y) (ht : (t : Field25519) = p.x * p.y) :
    Represents ⟨x, y, 1, t⟩ p where
  z := by
    show ((1 : Nat) : Field25519) ≠ 0
    rw [Nat.cast_one]
    exact one_ne_zero
  x := by rw [hx, Nat.cast_one, mul_one]
  y := by rw [hy, Nat.cast_one, mul_one]
  t := by rw [ht, Nat.cast_one, mul_one]

theorem represents_base : Represents basePoint base :=
  represents_affine rfl rfl (by rw [ZMod.natCast_mod, Nat.cast_mul]; rfl)

/-- `L` ends the base point: the multiplication is run. -/
theorem nsmul_base : L • base = 0 := by
  have hmul := represents_base.mul (s := L) (by decide)
  refine (hmul.eq_iff represents_ident).mp ?_
  decide +kernel

theorem base_ne : base ≠ 0 := by
  intro h0
  have hx : (baseX : Field25519) = ((0 : Nat) : Field25519) :=
    (congrArg EdwardsCurve.Point.x h0).trans Nat.cast_zero.symm
  have hne : baseX % P ≠ 0 % P := by decide +kernel
  exact hne (coe_eq_iff.mp hx)

/-- A multiple of the base point is neutral where `L` divides the scalar. -/
theorem nsmul_base_iff {s : Nat} : s • base = 0 ↔ L ∣ s := by
  have hprime : Fact L.Prime := ⟨prime_L⟩
  rw [← addOrderOf_dvd_iff_nsmul_eq_zero, addOrderOf_eq_prime nsmul_base base_ne]

theorem nsmul_base_injective {s s' : Nat} (hs : s < L) (hs' : s' < L)
    (h : s • base = s' • base) : s = s' := by
  have hprime : Fact L.Prime := ⟨prime_L⟩
  have hmod := nsmul_eq_nsmul_iff_modEq.mp h
  rw [addOrderOf_eq_prime nsmul_base base_ne] at hmod
  exact hmod.eq_of_lt_of_lt hs hs'

end Preaction.Edwards
