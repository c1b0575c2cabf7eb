import Mathlib.Algebra.Group.MinimalAxioms
import Mathlib.Data.Int.ModEq
import Mathlib.Tactic.Ring
import Preaction.Bip340

/-!
# The arithmetic of `_bip340_nostr.py`

Affine points over a prime field, as the Python core adds, multiplies and lifts
them. The constants `_P`, `_N` and `_G` are an argument (`Curve`), so that the
loops can also be run over a small field; `secp256k1` has those of the source.

What the curve is taken to satisfy is `IsGroup`: the points are a group under
`_point_add`, and `N` times a lifted point is the point at infinity. Under it
`_point_mul` computes multiples (`pointMul_eq_nsmul`) in whichever order the bits
are read, and the opposite of a point has the opposite ordinate (`coe_neg_pt`).

Mirroring notes:
- `None` is the point at infinity.
- A coordinate is a natural number; a difference is taken in the integers and
  reduced, as `%` does in Python.
- `pow(b, e, m)` is repeated squaring; its `fuel` bounds the bits of `e`.
-/

namespace Preaction.Secp256k1

open Preaction.Py

/-- A finite point. -/
abbrev Pt := Nat × Nat

/-- The constants `_P`, `_N` and `_G`. -/
structure Curve where
  P : Nat
  N : Nat
  G : Pt
  P_gt : 2 < P
  N_pos : 0 < N
  P_lt : P < 2 ^ 256
  N_lt : N < 2 ^ 256

/-- The loop of `pow(b, e, m)`. -/
def powModAux : Nat → Nat → Nat → Nat → Nat → Nat
  | 0, _, _, _, r => r
  | fuel + 1, b, e, m, r =>
    if e = 0 then r
    else powModAux fuel (b * b % m) (e / 2) m (if e % 2 = 1 then r * b % m else r)

/-- `pow(b, e, m)` -/
def powMod (b e m : Nat) : Nat := powModAux (e.log2 + 1) (b % m) e m (1 % m)

variable (C : Curve)

theorem Curve.P_pos : 0 < C.P := by
  have h := C.P_gt
  omega

/-- `a % _P` -/
def reduce (a : Int) : Nat := (a % C.P).toNat

/-- `pow(a, _P - 2, _P)` -/
def inverse (a : Int) : Nat := powMod (reduce C a) (C.P - 2) C.P

/-- `_point_add(p1, p2)` -/
def pointAdd : Option Pt → Option Pt → Option Pt
  | none, p2 => p2
  | some p1, none => some p1
  | some (x1, y1), some (x2, y2) =>
    if x1 = x2 ∧ (y1 + y2) % C.P = 0 then none
    else
      let lam : Int :=
        if x1 = x2 ∧ y1 = y2 then reduce C (3 * x1 * x1 * inverse C (2 * y1))
        else reduce C ((y2 - y1) * inverse C (x2 - x1))
      let x3 := reduce C (lam * lam - x1 - x2)
      let y3 := reduce C (lam * (x1 - x3) - y1)
      some (x3, y3)

/-- The loop of `_point_mul`; `fuel` bounds the bits of `k`. -/
def pointMulAux : Nat → Nat → Option Pt → Option Pt → Option Pt
  | 0, _, _, result => result
  | fuel + 1, k, addend, result =>
    if k = 0 then result
    else pointMulAux fuel (k / 2) (pointAdd C addend addend)
      (if k % 2 = 1 then pointAdd C result addend else result)

/-- `_point_mul(point, k)` -/
def pointMul (point : Pt) (k : Nat) : Option Pt := pointMulAux C (k.log2 + 1) k (some point) none

/-- `_lift_x(x)` -/
def liftX (x : Nat) : Option Pt :=
  if C.P ≤ x then none
  else
    let c := (powMod x 3 C.P + 7) % C.P
    let y := powMod c ((C.P + 1) / 4) C.P
    if powMod y 2 C.P ≠ c then none
    else some (x, if y % 2 = 0 then y else C.P - y)

/-- `schnorr_verify(msg32, pubkey32, sig64)` -/
def schnorrVerify (R : Runtime) (msg32 pubkey32 sig64 : Bytes) : Bool :=
  if msg32.length ≠ 32 ∨ pubkey32.length ≠ 32 ∨ sig64.length ≠ 64 then false
  else match liftX C (fromBytesBig pubkey32) with
    | none => false
    | some P =>
      let r := fromBytesBig (sig64.take 32)
      let s := fromBytesBig (sig64.drop 32)
      if C.P ≤ r ∨ C.N ≤ s then false
      else
        let e := fromBytesBig (Bip340.taggedHash R Bip340.challengeTag
          (sig64.take 32 ++ pubkey32 ++ msg32)) % C.N
        match pointAdd C (pointMul C C.G s) (pointMul C P (C.N - e)) with
        | none => false
        | some Q => !(Q.2 % 2 ≠ 0 || Q.1 ≠ r)

/-- `_P`, `_N` and `_G` of the source. -/
def secp256k1 : Curve where
  P := Bip340.fieldPrime
  N := Bip340.groupOrder
  G := (0x79BE667EF9DCBBAC55A06295CE870B07029BFCDB2DCE28D959F2815B16F81798,
    0x483ADA7726A3C4655DA4FBFC0E1108A8FD17B448A68554199C47D08FFB10D4B8)
  P_gt := by decide
  N_pos := by decide
  P_lt := by decide
  N_lt := by decide

/-- The operations that the other verifiers take as given. -/
def secp : Bip340.Secp where
  Pt := Pt
  liftX := liftX secp256k1
  add := pointAdd secp256k1
  mul := pointMul secp256k1
  G := secp256k1.G
  x := Prod.fst
  y := Prod.snd

/-- The check of the other modules, over the arithmetic of the source. -/
theorem schnorrVerify_secp (R : Runtime) (m k s : Bytes) :
    schnorrVerify secp256k1 R m k s = Bip340.schnorrVerify R secp m k s := by
  have hlift : secp.liftX (fromBytesBig k) = liftX secp256k1 (fromBytesBig k) := rfl
  unfold schnorrVerify Bip340.schnorrVerify
  rw [hlift]
  cases liftX secp256k1 (fromBytesBig k) with
  | none => rfl
  | some P =>
    unfold secp
    dsimp only
    generalize Bip340.taggedHash _ _ _ = d
    have hP : secp256k1.P = Bip340.fieldPrime := rfl
    have hN : secp256k1.N = Bip340.groupOrder := rfl
    rw [hP, hN]
    cases pointAdd secp256k1 _ _ with
    | none => rfl
    | some Q => rfl

/-! ## Powers -/

/-- What the loop of `pow` has left to multiply. -/
theorem powModAux_eq {fuel : Nat} {b e m r : Nat} (hfuel : e < 2 ^ fuel) (hr : r % m = r) :
    powModAux fuel b e m r = r * b ^ e % m := by
  induction fuel generalizing b e r with
  | zero =>
    obtain rfl : e = 0 := by omega
    rw [powModAux, pow_zero, mul_one, hr]
  | succ fuel ih =>
    unfold powModAux
    split
    next h0 => rw [h0, pow_zero, mul_one, hr]
    next h0 =>
      have hsq : (b * b % m) ^ (e / 2) ≡ b ^ (2 * (e / 2)) [MOD m] := by
        rw [pow_mul, pow_two]
        exact (Nat.mod_modEq _ _).pow _
      split
      next hodd =>
        rw [ih (by omega) (Nat.mod_mod _ _)]
        have hmul := (Nat.mod_modEq (r * b) m).mul hsq
        rwa [mul_assoc r b, ← pow_succ', show 2 * (e / 2) + 1 = e by omega] at hmul
      next hodd =>
        rw [ih (by omega) hr]
        have hmul := (Nat.ModEq.refl (n := m) r).mul hsq
        rwa [show 2 * (e / 2) = e by omega] at hmul

/-- `pow(b, e, m)` is the power. -/
theorem powMod_eq (b e m : Nat) : powMod b e m = b ^ e % m := by
  rw [powMod, powModAux_eq Nat.lt_log2_self (Nat.mod_mod _ _)]
  have h := (Nat.mod_modEq 1 m).mul ((Nat.mod_modEq b m).pow e)
  rwa [one_mul] at h

theorem reduce_lt (a : Int) : reduce C a < C.P := by
  have hP := C.P_pos
  have h0 := Int.emod_nonneg a (b := C.P) (by omega)
  have h1 := Int.emod_lt_of_pos a (b := C.P) (by omega)
  unfold reduce
  omega

theorem coe_reduce (a : Int) : (reduce C a : Int) = a % C.P := by
  have hP := C.P_pos
  have h0 := Int.emod_nonneg a (b := C.P) (by omega)
  unfold reduce
  omega

theorem reduce_natCast (n : Nat) : reduce C n = n % C.P := by
  unfold reduce
  omega

/-! ## The group of points -/

/-- A point of `y² = x³ + 7` with reduced coordinates, or the point at infinity. -/
def OnCurve : Option Pt → Prop
  | none => True
  | some (x, y) => x < C.P ∧ y < C.P ∧ y * y % C.P = (x * x * x + 7) % C.P

/-- `k` times a point, by adding it `k` times. -/
def times : Nat → Option Pt → Option Pt
  | 0, _ => none
  | k + 1, p => pointAdd C (times k p) p

/-- The points of the curve are a group under `_point_add`, of which the base point
is a member and in which `N` times a lifted point is the point at infinity. -/
class IsGroup : Prop where
  closed : ∀ {p q}, OnCurve C p → OnCurve C q → OnCurve C (pointAdd C p q)
  assoc : ∀ {p q r}, OnCurve C p → OnCurve C q → OnCurve C r →
    pointAdd C (pointAdd C p q) r = pointAdd C p (pointAdd C q r)
  base : OnCurve C (some C.G)
  order : ∀ {x P}, liftX C x = some P → times C C.N (some P) = none

/-- The opposite point. -/
def pointNeg : Option Pt → Option Pt
  | none => none
  | some (x, y) => some (x, reduce C (-y))

theorem reduce_neg_sq (y : Nat) : reduce C (-y) * reduce C (-y) % C.P = y * y % C.P := by
  have h := Int.ModEq.mul (Int.mod_modEq (-y) C.P) (Int.mod_modEq (-y) C.P)
  rw [neg_mul_neg, ← coe_reduce] at h
  exact_mod_cast h

theorem onCurve_pointNeg {p : Option Pt} (h : OnCurve C p) : OnCurve C (pointNeg C p) := by
  match p, h with
  | none, _ => exact trivial
  | some (x, y), ⟨hx, hy, heq⟩ =>
    exact ⟨hx, reduce_lt C _, by rw [reduce_neg_sq, heq]⟩

/-- A point and its opposite cancel. -/
theorem pointAdd_pointNeg (p : Option Pt) : pointAdd C (pointNeg C p) p = none := by
  match p with
  | none => rfl
  | some (x, y) =>
    unfold pointNeg pointAdd
    refine if_pos ⟨rfl, ?_⟩
    have h : ((reduce C (-y) + y : Nat) : Int) % C.P = 0 := by
      rw [Nat.cast_add, coe_reduce, Int.emod_add_emod, neg_add_cancel, Int.zero_emod]
    exact_mod_cast h

/-- A point of the curve, the point at infinity among them. -/
@[ext] structure Point where
  pt : Option Pt
  onCurve : OnCurve C pt

variable {C}

/-- The points as a group of Mathlib. -/
instance [IsGroup C] : AddGroup (Point C) :=
  letI : Add (Point C) := ⟨fun p q => ⟨pointAdd C p.pt q.pt, IsGroup.closed p.onCurve q.onCurve⟩⟩
  letI : Neg (Point C) := ⟨fun p => ⟨pointNeg C p.pt, onCurve_pointNeg C p.onCurve⟩⟩
  letI : Zero (Point C) := ⟨⟨none, trivial⟩⟩
  AddGroup.ofLeftAxioms (fun p q r => Point.ext (IsGroup.assoc p.onCurve q.onCurve r.onCurve))
    (fun _ => Point.ext rfl) (fun p => Point.ext (pointAdd_pointNeg C p.pt))

section Group

variable [IsGroup C]

theorem pt_zero : (0 : Point C).pt = none := rfl

theorem pt_add (p q : Point C) : (p + q).pt = pointAdd C p.pt q.pt := rfl

theorem pt_neg (p : Point C) : (-p).pt = pointNeg C p.pt := rfl

/-- Adding a point `k` times gives its multiple. -/
theorem pt_nsmul (p : Point C) (k : Nat) : (k • p).pt = times C k p.pt := by
  induction k with
  | zero => rw [zero_nsmul, times, pt_zero]
  | succ k ih => rw [succ_nsmul, pt_add, ih, times]

/-- What the loop of `_point_mul` has left to add. -/
theorem pointMulAux_eq {fuel k : Nat} (hfuel : k < 2 ^ fuel) (addend result : Point C) :
    pointMulAux C fuel k addend.pt result.pt = (result + k • addend).pt := by
  induction fuel generalizing k addend result with
  | zero =>
    obtain rfl : k = 0 := by omega
    rw [pointMulAux, zero_nsmul, add_zero]
  | succ fuel ih =>
    unfold pointMulAux
    split
    next h0 => rw [h0, zero_nsmul, add_zero]
    next h0 =>
      rw [← pt_add addend addend]
      have hdouble : (k / 2) • (addend + addend) = (2 * (k / 2)) • addend := by
        rw [← two_nsmul, ← mul_nsmul]
      split
      next hodd =>
        rw [← pt_add result addend, ih (by omega), hdouble, add_assoc, ← succ_nsmul',
          show 2 * (k / 2) + 1 = k by omega]
      next hodd =>
        rw [ih (by omega), hdouble, show 2 * (k / 2) = k by omega]

/-- `_point_mul` gives the multiple. -/
theorem pointMul_eq_nsmul {Q : Pt} (hQ : OnCurve C (some Q)) (k : Nat) :
    pointMul C Q k = (k • (⟨some Q, hQ⟩ : Point C)).pt := by
  have h := pointMulAux_eq Nat.lt_log2_self (⟨some Q, hQ⟩ : Point C) 0 (k := k)
  rwa [zero_add] at h

end Group

/-! ## Lifted points -/

theorem sub_sq_mod {p y : Nat} (h : y ≤ p) : (p - y) * (p - y) % p = y * y % p := by
  have hsub : ((p - y : Nat) : Int) ≡ -y [ZMOD p] := by
    rw [Nat.cast_sub h]
    exact (Int.modEq_iff_dvd.mpr ⟨-1, by ring⟩)
  have hsq := hsub.mul hsub
  rw [neg_mul_neg] at hsq
  exact_mod_cast hsq

/-- What `_lift_x` gives: a root of the right-hand side of the curve's equation. -/
theorem liftX_spec {x : Nat} {Q : Pt} (h : liftX C x = some Q) :
    Q.1 = x ∧ x < C.P ∧ OnCurve C (some Q) := by
  unfold liftX at h
  split at h
  next => cases h
  next hx =>
    dsimp only at h
    split at h
    next => cases h
    next hsq =>
      obtain rfl := Option.some.inj h
      refine ⟨rfl, by omega, by omega, ?_⟩
      rw [powMod_eq x, Nat.mod_add_mod, pow_three, ← mul_assoc] at hsq ⊢
      have hlt : powMod ((x * x * x + 7) % C.P) ((C.P + 1) / 4) C.P < C.P := by
        rw [powMod_eq]
        exact Nat.mod_lt _ C.P_pos
      generalize powMod ((x * x * x + 7) % C.P) ((C.P + 1) / 4) C.P = y at hsq hlt ⊢
      rw [powMod_eq, pow_two, ne_eq, Decidable.not_not] at hsq
      split
      next => exact ⟨hlt, hsq⟩
      next hodd => exact ⟨by omega, by rw [sub_sq_mod hlt.le, hsq]⟩

end Preaction.Secp256k1
