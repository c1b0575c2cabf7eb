import Mathlib.RingTheory.Int.Basic
import Preaction.Ed25519Ref
import Preaction.EdwardsField

/-!
# What `_decompress` accepts

`_recover_x` refuses the sign bit where the square of the abscissa is zero, but it
compares the product with zero before it reduces it. At `y = P - 1` the product is a
multiple of `P` other than zero: the root is zero, its sign is fixed, and the
abscissa of the point is `P`. That is the one encoding that is accepted and is not
canonical (`decompress_canonical_iff`).
-/

namespace Preaction.Ed25519Ref

open Preaction.Py Preaction.Edwards

/-- `_compress(P)` -/
def compress (A : Point) : Bytes := encode A

/-- The bytes are `y = P - 1` with the sign bit set. -/
def SignedMinusOne (b : Bytes) : Prop := encodedY b = P - 1 ∧ 2 ^ 255 ≤ fromBytesLittle b

instance (b : Bytes) : Decidable (SignedMinusOne b) := inferInstanceAs (Decidable (_ ∧ _))

theorem recoverX_none {y : Nat} (hy : P ≤ y) (sign : Nat) : recoverX y sign = none := if_pos hy

theorem recoverX_eq {y : Nat} (hy : y < P) (sign : Nat) : recoverX y sign =
    if xProduct y = 0 then if sign ≠ 0 then none else some 0
    else if root (xSquared y) * root (xSquared y) % P ≠ xSquared y then none
    else some
      (if root (xSquared y) % 2 ≠ sign then P - root (xSquared y) else root (xSquared y)) := by
  unfold recoverX
  rw [if_neg (Nat.not_le.mpr hy)]
  extract_lets x2 x x'
  have hx2 : x2 = xProduct y := rfl
  have hx : x' = root (xSquared y) := root_xProduct y
  rw [hx2, hx]
  simp only [ne_eq, square_sub_xProduct]

theorem xSquared_minus_one : xSquared (P - 1) = 0 := by decide +kernel

/-- The product is a multiple of `P` and not zero at `P - 1` only. -/
theorem eq_minus_one {y : Nat} (hy : y < P) (hne : xProduct y ≠ 0) (hzero : xSquared y = 0) :
    y = P - 1 := by
  have hP : (P : Int) ≠ 0 := by decide
  have hmod := Int.emod_nonneg (xProduct y) hP
  have hdvd : (P : Int) ∣ xProduct y := by
    rw [← xProduct_emod] at hzero
    exact Int.dvd_of_emod_eq_zero (by omega)
  unfold xProduct at hdvd hne
  rcases Int.Prime.dvd_mul' prime_P hdvd with h | h
  · have hfactor : (y : Int) * y - 1 = (y - 1) * (y + 1) := by ring
    rw [hfactor] at h
    rcases Int.Prime.dvd_mul' prime_P h with h | h
    · -- one has the product zero
      have hgt : (1 : Int) < P := by decide
      have hone : (y : Int) - 1 = 0 := Int.eq_zero_of_abs_lt_dvd h (by rw [abs_lt]; omega)
      refine absurd ?_ hne
      rw [hfactor, hone, zero_mul, zero_mul]
    · have h' : P ∣ y + 1 := by exact_mod_cast h
      have := Nat.le_of_dvd (Nat.succ_pos y) h'
      omega
  · -- the other factor is reduced
    have hlt := powP_lt (D * y * y + 1) (P - 2)
    have h' : P ∣ powP (D * y * y + 1) (P - 2) := by exact_mod_cast h
    refine absurd ?_ hne
    rw [Nat.eq_zero_of_dvd_of_lt h' hlt, Nat.cast_zero, mul_zero]

/-- What is accepted: the parts of the encoding, and the abscissa that belongs to them. -/
theorem decompress_some {b : Bytes} {A : Point} (h : decompress b = some A) :
    ∃ x, b.length = 32 ∧ encodedY b < P ∧ A = ⟨x, encodedY b, 1, x * encodedY b % P⟩ ∧
      recoverX (encodedY b) (fromBytesLittle b / 2 ^ 255) = some x := by
  unfold decompress at h
  split at h
  next => cases h
  next hlen =>
    obtain ⟨x, hx, rfl⟩ := Option.map_eq_some_iff.mp h
    have hy : encodedY b < P := by
      by_contra hle
      have hnone := recoverX_none (Nat.not_lt.mp hle) (fromBytesLittle b / 2 ^ 255)
      cases hnone.symm.trans hx
    exact ⟨x, not_not.mp hlen, hy, rfl, hx⟩

/-- **One point, one encoding, but for one.** An accepted encoding is the one
`_compress` writes, and its abscissa is reduced, unless it is `P - 1` with the sign
bit set. -/
theorem decompress_canonical_iff {b : Bytes} {A : Point} (h : decompress b = some A) :
    (compress A = b ∧ A.X < P) ↔ ¬ SignedMinusOne b := by
  obtain ⟨x, hlen, hy, rfl, hx⟩ := decompress_some h
  have hn : fromBytesLittle b < 256 ^ 32 := hlen ▸ fromBytesLittle_lt b
  have hsplit : fromBytesLittle b = encodedY b + 2 ^ 255 * (fromBytesLittle b / 2 ^ 255) :=
    (Nat.mod_add_div _ _).symm
  -- an abscissa with the parity of the sign is written as it was read
  have hgood (hlt : x < P) (hparity : x % 2 = fromBytesLittle b / 2 ^ 255) :
      compress ⟨x, encodedY b, 1, x * encodedY b % P⟩ = b ∧ x < P := by
    refine ⟨?_, hlt⟩
    unfold compress
    rw [encode_of_reduced _ hlt hy, hparity, ← hsplit]
    exact toBytesLittle_fromBytesLittle hlen
  unfold SignedMinusOne
  rw [recoverX_eq hy] at hx
  split at hx
  next =>
    split at hx
    next => cases hx
    next hsign =>
      obtain rfl := Option.some.inj hx
      refine iff_of_true (hgood (by decide) ?_) ?_
      · omega
      · omega
  next hne =>
    split at hx
    next => cases hx
    next hroot =>
      rw [not_not] at hroot
      obtain rfl := Option.some.inj hx
      by_cases h0 : root (xSquared (encodedY b)) = 0
      · have hzero : xSquared (encodedY b) = 0 := by
          rw [← hroot, h0]
          rfl
        have hminus := eq_minus_one hy hne hzero
        rw [h0] at hgood ⊢
        by_cases hsign : fromBytesLittle b / 2 ^ 255 = 0
        · rw [hsign] at hgood ⊢
          exact iff_of_true (hgood (by decide) rfl) (by omega)
        · have hP : (if 0 % 2 ≠ fromBytesLittle b / 2 ^ 255 then P - 0 else 0) = P :=
            if_pos (fun h => hsign h.symm)
          rw [hP]
          refine iff_of_false (fun h => lt_irrefl P h.2) (not_not.mpr ⟨hminus, ?_⟩)
          omega
      · obtain ⟨hlt, hparity⟩ := parity_root (root_lt _) h0 (sign_lt hlen)
        refine iff_of_true (hgood hlt hparity) ?_
        rintro ⟨hminus, -⟩
        rw [hminus, xSquared_minus_one] at h0
        exact h0 root_zero

/-- The neutral point. -/
theorem neutral_canonical : compress ident = 1 :: List.replicate 31 0 ∧ ident.X < P :=
  (decompress_canonical_iff (b := 1 :: List.replicate 31 0) (by decide +kernel)).mpr
    (by decide +kernel)

/-- `P - 1` with the sign bit set. -/
def signedMinusOne : Bytes := 0xEC :: List.replicate 31 0xFF

/-- It is accepted as a point with abscissa `P`, which is written without the sign bit. -/
theorem signedMinusOne_not_canonical : ¬ ∀ (b : Bytes) (A : Point), b.length = 32 →
    decompress b = some A → compress A = b ∧ A.X < P := by
  intro hall
  have hdec : decompress signedMinusOne = some ⟨P, P - 1, 1, 0⟩ := by decide +kernel
  exact lt_irrefl P (hall _ _ rfl hdec).2

end Preaction.Ed25519Ref
