import Mathlib.GroupTheory.OrderOfElement
import Mathlib.Tactic.Ring

/-!
# Signatures in a group whose order is known

The equations that Schnorr's scheme, ECDSA and EdDSA check, for scalars that are natural numbers
modulo a number `N` that ends the base point. What an honest signer computes satisfies each
(`schnorr`, `ecdsa`, `eddsa`). A scalar matters modulo `N` only (`nsmul_congr`).
-/

namespace Preaction.GroupSignature

variable {A : Type*} [AddCommGroup A] {N : Nat} {G : A}

theorem nsmul_congr (hG : N • G = 0) {a b : Nat} (h : a ≡ b [MOD N]) : a • G = b • G :=
  nsmul_eq_nsmul_iff_modEq.mpr (h.of_dvd (addOrderOf_dvd_of_nsmul_eq_zero hG))

theorem nsmul_multiple (hG : N • G = 0) (d : Nat) : N • (d • G) = 0 := by
  rw [← mul_nsmul', mul_nsmul, hG, nsmul_zero]

/-- Less than `N` of a point, and the rest of `N`. -/
theorem sub_nsmul (hG : N • G = 0) {e : Nat} (he : e ≤ N) : (N - e) • G = -(e • G) := by
  rw [eq_neg_iff_add_eq_zero, ← add_nsmul, Nat.sub_add_cancel he, hG]

/-- The check of Schnorr's scheme: `s` times the base point, less `e` times the key. -/
theorem schnorr (hG : N • G = 0) {d e k s : Nat} (he : e ≤ N) (hs : s ≡ k + e * d [MOD N]) :
    s • G + (N - e) • (d • G) = k • G := by
  rw [nsmul_congr hG hs, sub_nsmul (nsmul_multiple hG d) he, add_nsmul, mul_nsmul', add_assoc,
    add_neg_cancel, add_zero]

/-- The check of EdDSA, where the nonce and the key are multiples of the base point. -/
theorem eddsa (hG : N • G = 0) {a h r s : Nat} (hs : s ≡ r + h * a [MOD N]) :
    s • G = r • G + h • (a • G) := by
  rw [nsmul_congr hG hs, add_nsmul, mul_nsmul']

/-- The key is recovered from an ECDSA signature and the point of its nonce. -/
theorem ecdsa (hG : N • G = 0) {d k r s z rinv u w : Nat} (hs : s * k ≡ z + r * d [MOD N])
    (hr : r * rinv ≡ 1 [MOD N]) (hu : u ≡ s * rinv [MOD N]) (hw : w + z * rinv ≡ 0 [MOD N]) :
    u • (k • G) + w • G = d • G := by
  rw [← mul_nsmul', ← add_nsmul]
  refine nsmul_congr hG ?_
  have hmul : u * k ≡ z * rinv + d [MOD N] := by
    calc u * k ≡ s * rinv * k [MOD N] := hu.mul_right k
      _ = s * k * rinv := by ring
      _ ≡ (z + r * d) * rinv [MOD N] := hs.mul_right rinv
      _ = z * rinv + r * rinv * d := by ring
      _ ≡ z * rinv + 1 * d [MOD N] := (hr.mul_right d).add_left _
      _ = z * rinv + d := by ring
  calc u * k + w ≡ z * rinv + d + w [MOD N] := hmul.add_right w
    _ = w + z * rinv + d := by ring
    _ ≡ 0 + d [MOD N] := hw.add_right d
    _ = d := Nat.zero_add d

end Preaction.GroupSignature
