import Preaction.Ed25519RefCoding
import Preaction.EdwardsGroup
import Preaction.PointDecoders

/-!
# Encodings are of points

The encoding of a point has its ordinate and the parity of its abscissa, and no other point has both
(`bytesOf_injective`). The decoders compute the abscissa back: the square of it is a quotient that
has a root, and the candidate for it is one of the two roots. So `_decode` accepts the encodings of
the points of the curve, and nothing else (`decode_iff`); `_decompress` accepts one more text
(`decompress_eq`).
-/

namespace Preaction.Edwards

open Preaction.Py EdwardsCurve

/-- The 32 bytes of a point. -/
def bytesOf (p : Curve) : Bytes := toBytesLittle 32 (p.y.val + 2 ^ 255 * (p.x.val % 2))

/-- The reduced coordinates of a point. -/
def affine (p : Curve) : Point := ⟨p.x.val, p.y.val, 1, p.x.val * p.y.val % P⟩

theorem represents_affine_coordinates (p : Curve) : Represents (affine p) p :=
  represents_affine (ZMod.natCast_zmod_val p.x) (ZMod.natCast_zmod_val p.y) (by
    rw [ZMod.natCast_mod, Nat.cast_mul, ZMod.natCast_zmod_val, ZMod.natCast_zmod_val])

theorem val_x_lt (p : Curve) : p.x.val < P := ZMod.val_lt p.x

theorem val_y_lt (p : Curve) : p.y.val < P := ZMod.val_lt p.y

theorem fromBytes_bytesOf (p : Curve) :
    fromBytesLittle (bytesOf p) = p.y.val + 2 ^ 255 * (p.x.val % 2) := by
  have hy := val_y_lt p
  have hP : P < 2 ^ 255 := by decide
  exact fromBytesLittle_toBytesLittle (by omega)

theorem length_bytesOf (p : Curve) : (bytesOf p).length = 32 := rfl

/-- The two parts of an encoding. -/
theorem parts_bytesOf (p : Curve) : fromBytesLittle (bytesOf p) % 2 ^ 255 = p.y.val ∧
    fromBytesLittle (bytesOf p) / 2 ^ 255 = p.x.val % 2 := by
  have hy := val_y_lt p
  have hP : P < 2 ^ 255 := by decide
  rw [fromBytes_bytesOf]
  omega

/-- `_encode` writes the bytes of the point. -/
theorem Represents.encode {A : Point} {p : Curve} (h : Represents A p) :
    Edwards.encode A = bytesOf p := by
  have hinv : (A.Z : Field25519) ^ (P - 2) = (A.Z : Field25519)⁻¹ := by
    refine eq_inv_of_mul_eq_one_left ?_
    have hsucc : P - 2 + 1 = P - 1 := by decide
    rw [← pow_succ, hsucc, ZMod.pow_card_sub_one_eq_one h.z]
  have hquot {a : Nat} {x : Field25519} (ha : (a : Field25519) = x * A.Z) :
      a * powP A.Z (P - 2) % P = x.val := by
    have hcast : ((a * powP A.Z (P - 2) : Nat) : Field25519) = x := by
      rw [Nat.cast_mul, coe_powP _ (by decide), hinv, ha, mul_assoc, mul_inv_cancel₀ h.z, mul_one]
    rw [← hcast, ZMod.val_natCast]
  unfold Edwards.encode bytesOf
  dsimp only
  rw [hquot h.x, hquot h.y]

theorem eq_of_parity {x x' : Nat} (hx : x < P) (hx' : x' < P) (hparity : x % 2 = x' % 2)
    (h : (x : Field25519) = x' ∨ (x : Field25519) = -x') : x = x' := by
  rcases h with h | h
  · have hmod := coe_eq_iff.mp h
    rwa [Nat.mod_eq_of_lt hx, Nat.mod_eq_of_lt hx'] at hmod
  · -- opposite numbers are of different parity, since `P` is odd
    have hsum : P ∣ x + x' := by
      rw [← ZMod.natCast_eq_zero_iff, Nat.cast_add, h, neg_add_cancel]
    obtain ⟨k, hk⟩ := hsum
    have hodd : P % 2 = 1 := by decide
    have hk2 : k < 2 := by
      by_contra hge
      have : P * 2 ≤ P * k := Nat.mul_le_mul_left P (Nat.not_lt.mp hge)
      omega
    rcases (by omega : k = 0 ∨ k = 1) with rfl | rfl
    · omega
    · omega

/-- **One encoding, one point.** -/
theorem bytesOf_injective {p q : Curve} (h : bytesOf p = bytesOf q) : p = q := by
  have hp := parts_bytesOf p
  rw [h] at hp
  obtain ⟨hy, hparity⟩ := parts_bytesOf q
  have hyy : p.y = q.y := ZMod.val_injective P (hp.1.symm.trans hy)
  have hx : (p.x.val : Field25519) = q.x.val ∨ (p.x.val : Field25519) = -q.x.val := by
    simp only [ZMod.natCast_zmod_val]
    rcases eq_or_neg hyy with rfl | rfl
    · exact Or.inl rfl
    · exact Or.inr rfl
  refine EdwardsCurve.Point.ext (ZMod.val_injective P ?_) hyy
  exact eq_of_parity (val_x_lt p) (val_x_lt q) (hp.2.symm.trans hparity) hx

/-! ## The abscissa of an ordinate -/

/-- The quotient that is computed is the square of the abscissa. -/
theorem coe_xSquared (y : Nat) :
    (xSquared y : Field25519) * ((D : Field25519) * (y : Field25519) ^ 2 + 1) =
      (y : Field25519) ^ 2 - 1 := by
  have hne := ordinate_ne_zero (d := (D : Field25519)) (y : Field25519)
  have hsucc : P - 2 + 1 = P - 1 := by decide
  have hinv := ZMod.pow_card_sub_one_eq_one hne
  rw [← hsucc, pow_succ] at hinv
  unfold xSquared
  rw [ZMod.natCast_mod, Nat.cast_mul, coe_powP _ (by decide)]
  push_cast
  rw [coe_negP, Nat.cast_one]
  have hsq : (D : Field25519) * y * y + 1 = D * (y : Field25519) ^ 2 + 1 := by ring
  rw [hsq]
  linear_combination ((y : Field25519) ^ 2 - 1) * hinv

theorem onCurve_iff_sq {x : Field25519} {y : Nat} :
    OnCurve (D : Field25519) x (y : Field25519) ↔ x ^ 2 = (xSquared y : Field25519) := by
  rw [onCurve_iff, ← coe_xSquared]
  exact mul_left_inj' (ordinate_ne_zero _)

/-- Where there is a root, the candidate is one. -/
theorem root_sq {y : Nat} {x : Field25519} (h : x ^ 2 = (xSquared y : Field25519)) :
    root (xSquared y) * root (xSquared y) % P = xSquared y := by
  have hcard : x ≠ 0 → x ^ (8 * ((P - 5) / 8) + 4) = 1 := by
    intro hx
    have hP : 8 * ((P - 5) / 8) + 4 = P - 1 := by decide
    rw [hP]
    exact ZMod.pow_card_sub_one_eq_one hx
  have hexp : (P - 5) / 8 + 1 = (P + 3) / 8 := by decide
  have hroot := root_candidate h sqrtM1_sq hcard
  rw [hexp, ← coe_powP _ (by decide)] at hroot
  have hsq {r : Nat} : (r : Field25519) ^ 2 = xSquared y ↔ r * r % P = xSquared y := by
    rw [pow_two, ← Nat.cast_mul, coe_eq_iff, Nat.mod_eq_of_lt (xSquared_lt y)]
  unfold root
  dsimp only
  rw [Nat.mod_eq_of_lt (xSquared_lt y)]
  split
  next hno =>
    rw [← hsq, ZMod.natCast_mod, Nat.cast_mul]
    exact hroot.resolve_left (mt hsq.mp hno)
  next hyes => exact not_not.mp hyes

/-- The point with an ordinate and a parity. -/
theorem pointAt_iff {y sign : Nat} {A : Point} (hsign : sign < 2) :
    pointAt y sign = some A ↔ ∃ p : Curve, p.y.val = y ∧ p.x.val % 2 = sign ∧ A = affine p := by
  constructor
  · intro h
    unfold pointAt at h
    split at h
    next => cases h
    next hgood =>
      rw [not_or, not_or, not_le, not_not] at hgood
      obtain ⟨hy, hsq, hzero⟩ := hgood
      obtain ⟨x, hx⟩ : ∃ x, (if root (xSquared y) % 2 ≠ sign then P - root (xSquared y)
        else root (xSquared y)) = x := ⟨_, rfl⟩
      dsimp only at h
      rw [hx] at h
      have hlt := root_lt (xSquared y)
      have hodd : P % 2 = 1 := by decide
      have hxlt : x < P ∧ x % 2 = sign := by
        rw [← hx]
        by_cases h0 : root (xSquared y) = 0
        · have hs : sign = 0 := not_not.mp fun hs => hzero ⟨h0, hs⟩
          rw [h0, hs]
          decide
        · exact parity_root hlt h0 hsign
      have hxx : (x : Field25519) ^ 2 = xSquared y := by
        have hr : (root (xSquared y) : Field25519) ^ 2 = xSquared y := by
          rw [pow_two, ← Nat.cast_mul, coe_eq_iff, hsq, Nat.mod_eq_of_lt (xSquared_lt y)]
        rw [← hx, ← hr]
        split
        next =>
          rw [Nat.cast_sub hlt.le, ZMod.natCast_self, zero_sub, neg_sq]
        next => rfl
      refine ⟨⟨x, y, onCurve_iff_sq.mpr hxx⟩, ?_, ?_, ?_⟩
      · exact ZMod.val_natCast_of_lt hy
      · show (x : Field25519).val % 2 = sign
        rw [ZMod.val_natCast_of_lt hxlt.1]
        exact hxlt.2
      · rw [← Option.some.inj h, affine, ZMod.val_natCast_of_lt hxlt.1, ZMod.val_natCast_of_lt hy]
  · intro h
    obtain ⟨p, rfl, rfl, rfl⟩ := h
    have hpx : p.x ^ 2 = (xSquared p.y.val : Field25519) := by
      rw [← onCurve_iff_sq, ZMod.natCast_zmod_val]
      exact p.on
    have hsq := root_sq hpx
    have hr : (root (xSquared p.y.val) : Field25519) ^ 2 = xSquared p.y.val := by
      rw [pow_two, ← Nat.cast_mul, coe_eq_iff, hsq, Nat.mod_eq_of_lt (xSquared_lt _)]
    have hlt := root_lt (xSquared p.y.val)
    have hxlt := val_x_lt p
    -- the candidate is the abscissa or the opposite of it
    have hsame : (root (xSquared p.y.val) : Field25519) = p.x ∨
        (root (xSquared p.y.val) : Field25519) = -p.x :=
      sq_eq_sq_iff_eq_or_eq_neg.mp (hr.trans hpx.symm)
    have hzero : ¬ (root (xSquared p.y.val) = 0 ∧ p.x.val % 2 ≠ 0) := by
      intro h0
      obtain ⟨h0, hne⟩ := h0
      rw [h0] at hsq
      have hx0 : p.x ^ 2 = 0 := by rw [hpx, ← hsq]; simp
      rw [pow_eq_zero_iff two_ne_zero] at hx0
      rw [hx0, ZMod.val_zero] at hne
      exact hne rfl
    have hx : (if root (xSquared p.y.val) % 2 ≠ p.x.val % 2 then P - root (xSquared p.y.val)
        else root (xSquared p.y.val)) = p.x.val := by
      have hval : (p.x.val : Field25519) = p.x := ZMod.natCast_zmod_val p.x
      have hodd : P % 2 = 1 := by decide
      split
      next hne =>
        have h0 : root (xSquared p.y.val) ≠ 0 := by
          intro h0
          rw [h0] at hne
          exact hzero ⟨h0, fun h => hne h.symm⟩
        refine eq_of_parity (by omega) hxlt (by omega) ?_
        rw [Nat.cast_sub hlt.le, ZMod.natCast_self, zero_sub, hval, neg_inj, neg_eq_iff_eq_neg]
        exact hsame.symm
      next heq =>
        rw [← hval] at hsame
        exact eq_of_parity hlt hxlt (not_not.mp heq) hsame
    unfold pointAt
    rw [if_neg (by
      rw [not_or, not_or, not_le, not_not]
      exact ⟨val_y_lt p, hsq, hzero⟩)]
    dsimp only
    rw [hx]
    rfl

/-! ## The decoders -/

/-- **What `_decode` accepts**: the encodings of points, and of each the one text. -/
theorem decode_iff {b : Bytes} {A : Point} :
    Nenrin.decode b = some A ↔ ∃ p : Curve, b = bytesOf p ∧ A = affine p := by
  by_cases hlen : b.length = 32
  · rw [Nenrin.decode_eq hlen, pointAt_iff (sign_lt hlen)]
    refine exists_congr fun p => ?_
    rw [← and_assoc]
    refine and_congr_left fun _ => ?_
    constructor
    · intro h
      refine fromBytesLittle_injective hlen ?_
      rw [fromBytes_bytesOf, h.1, h.2]
      exact (Nat.mod_add_div _ _).symm
    · intro h
      obtain ⟨hy, hparity⟩ := parts_bytesOf p
      rw [h]
      exact ⟨hy.symm, hparity.symm⟩
  · refine iff_of_false (fun h => ?_) fun h => ?_
    · exact hlen (Nenrin.decode_spec h).1
    · obtain ⟨p, rfl, -⟩ := h
      exact hlen (length_bytesOf p)

theorem decode_bytesOf (p : Curve) : Nenrin.decode (bytesOf p) = some (affine p) :=
  decode_iff.mpr ⟨p, rfl, rfl⟩

/-- The other `_decode` is the same function. -/
theorem toolsDecode_eq (b : Bytes) : Ed25519Tools.decode b = Nenrin.decode b := by
  by_cases hlen : b.length = 32
  · rw [Nenrin.decode_eq hlen, Ed25519Tools.decode_eq hlen]
  · unfold Nenrin.decode Ed25519Tools.decode
    rw [if_pos hlen, if_pos hlen]

theorem xProduct_eq_zero {y : Nat} (h : xProduct y = 0) : xSquared y = 0 := by
  rw [← xProduct_emod, h]
  rfl

/-- The base point as each file writes it, and the one abscissa that is not reduced. -/
theorem constants : Ed25519Ref.G = basePoint ∧ Ed25519Tools.B = basePoint ∧
    Nenrin.decode basePointBytes = some basePoint ∧ Ed25519Ref.recoverX (P - 1) 1 = some P := by
  decide +kernel

/-- The recovered abscissa, and the point with the ordinate and the parity: they differ in one
case. -/
theorem recoverX_eq_pointAt {y sign : Nat} (hsign : sign < 2) :
    (Ed25519Ref.recoverX y sign).map (fun x => (⟨x, y, 1, x * y % P⟩ : Point)) =
      if y = P - 1 ∧ sign = 1 then some ⟨P, P - 1, 1, 0⟩ else pointAt y sign := by
  by_cases hspecial : y = P - 1 ∧ sign = 1
  · obtain ⟨rfl, rfl⟩ := hspecial
    rw [if_pos ⟨rfl, rfl⟩, constants.2.2.2, Option.map_some, Nat.mul_mod_right]
  rw [if_neg hspecial]
  unfold pointAt
  by_cases hy : P ≤ y
  · rw [Ed25519Ref.recoverX_none hy, if_pos (Or.inl hy)]
    rfl
  rw [Ed25519Ref.recoverX_eq (Nat.not_le.mp hy)]
  by_cases hprod : xProduct y = 0
  · -- the root of zero, which has no sign
    rw [if_pos hprod, xProduct_eq_zero hprod, root_zero]
    by_cases h0 : sign = 0
    · rw [if_neg (not_not.mpr h0), if_neg (by simp [hy, h0]), h0]
      rfl
    · rw [if_pos h0, if_pos (Or.inr (Or.inr ⟨rfl, h0⟩))]
      rfl
  rw [if_neg hprod]
  by_cases hsq : root (xSquared y) * root (xSquared y) % P = xSquared y
  · have hgood : ¬ (P ≤ y ∨ root (xSquared y) * root (xSquared y) % P ≠ xSquared y ∨
        (root (xSquared y) = 0 ∧ sign ≠ 0)) := by
      rw [not_or, not_or, not_not]
      refine ⟨hy, hsq, fun h => ?_⟩
      have hzero : xSquared y = 0 := by
        rw [← hsq, h.1]
        rfl
      exact hspecial ⟨Ed25519Ref.eq_minus_one (Nat.not_le.mp hy) hprod hzero, by omega⟩
    rw [if_neg (not_not.mpr hsq), if_neg hgood]
    rfl
  · rw [if_pos hsq, if_pos (Or.inr (Or.inl hsq))]
    rfl

/-- `_decompress` accepts one text more, as a point whose abscissa is not reduced. -/
theorem decompress_eq {b : Bytes} (hlen : b.length = 32) : Ed25519Ref.decompress b =
    if Ed25519Ref.SignedMinusOne b then some ⟨P, P - 1, 1, 0⟩ else Nenrin.decode b := by
  have hsign := sign_lt hlen
  have hspecial : Ed25519Ref.SignedMinusOne b ↔
      fromBytesLittle b % 2 ^ 255 = P - 1 ∧ fromBytesLittle b / 2 ^ 255 = 1 := by
    unfold Ed25519Ref.SignedMinusOne Ed25519Ref.encodedY
    refine and_congr_right fun _ => ?_
    omega
  rw [Nenrin.decode_eq hlen, if_congr hspecial rfl rfl, ← recoverX_eq_pointAt hsign]
  unfold Ed25519Ref.decompress
  rw [if_neg (not_not.mpr hlen)]

end Preaction.Edwards
