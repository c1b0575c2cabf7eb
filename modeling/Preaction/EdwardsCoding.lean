import Mathlib.Algebra.Order.Ring.Int
import Mathlib.Data.Nat.Digits.Lemmas
import Preaction.Edwards

/-!
# The encoding of a point

A point is 32 bytes: the ordinate, and in the top bit the parity of the abscissa.
The three decoders of the repository compute the square of the abscissa from the
ordinate, take a candidate for its root and correct the candidate once (`root`).
They differ in whether the square is reduced modulo `P` before it is compared
with zero (`xSquared`) or not (`xProduct`).
-/

namespace Preaction.Edwards

open Preaction.Py

/-! ## Numbers as bytes -/

theorem fromBytesLittle_eq_ofDigits (b : Bytes) :
    fromBytesLittle b = Nat.ofDigits 256 (b.map UInt8.toNat) := by
  rw [Nat.ofDigits_eq_foldr, List.foldr_map]
  rfl

theorem map_toNat_lt (b : Bytes) : ∀ d ∈ b.map UInt8.toNat, d < 256 := by
  intro d hd
  obtain ⟨x, -, rfl⟩ := List.mem_map.mp hd
  exact x.toNat_lt

theorem map_toNat_injective {a b : Bytes} (h : a.map UInt8.toNat = b.map UInt8.toNat) : a = b :=
  (List.map_inj_right fun _ _ hxy => UInt8.toNat_inj.mp hxy).mp h

theorem fromBytesLittle_injective {a b : Bytes} (hlen : a.length = b.length)
    (h : fromBytesLittle a = fromBytesLittle b) : a = b := by
  rw [fromBytesLittle_eq_ofDigits, fromBytesLittle_eq_ofDigits] at h
  refine map_toNat_injective (Nat.ofDigits_inj_of_len_eq (by decide) ?_ (map_toNat_lt a)
    (map_toNat_lt b) h)
  rw [List.length_map, List.length_map, hlen]

theorem fromBytesLittle_lt (b : Bytes) : fromBytesLittle b < 256 ^ b.length := by
  have h := Nat.ofDigits_lt_base_pow_length (by decide : 1 < 256) (map_toNat_lt b)
  rwa [List.length_map, ← fromBytesLittle_eq_ofDigits] at h

theorem fromBytesLittle_toBytesLittle {len n : Nat} (h : n < 256 ^ len) :
    fromBytesLittle (toBytesLittle len n) = n := by
  induction len generalizing n with
  | zero =>
    rw [Nat.pow_zero] at h
    show 0 = n
    omega
  | succ len ih =>
    show (UInt8.ofNat (n % 256)).toNat + 256 * fromBytesLittle (toBytesLittle len (n / 256)) = n
    rw [ih (by rw [Nat.pow_succ] at h; omega), UInt8.toNat_ofNat', Nat.mod_mod_of_dvd _ (by decide)]
    omega

/-- The bytes of a number below `256 ^ len` are the only `len` bytes that have it. -/
theorem toBytesLittle_fromBytesLittle {len : Nat} {b : Bytes} (h : b.length = len) :
    toBytesLittle len (fromBytesLittle b) = b := by
  subst h
  have hlen (len n : Nat) : (toBytesLittle len n).length = len := by
    induction len generalizing n with
    | zero => rfl
    | succ len ih => rw [toBytesLittle, List.length_cons, ih]
  exact fromBytesLittle_injective (hlen _ _) (fromBytesLittle_toBytesLittle (fromBytesLittle_lt b))

/-- The sign of an encoding is one bit. -/
theorem sign_lt {b : Bytes} (h : b.length = 32) : fromBytesLittle b / 2 ^ 255 < 2 := by
  have hlt : fromBytesLittle b < 256 ^ 32 := h ▸ fromBytesLittle_lt b
  omega

/-! ## Arithmetic modulo `P` -/

theorem powP_lt (b e : Nat) : powP b e < P := by
  have hpos : 0 < P := by decide
  suffices haux : ∀ fuel b e, powModAux fuel b e P < P from haux 256 b e
  intro fuel
  induction fuel with
  | zero => exact fun b e => Nat.mod_lt _ hpos
  | succ fuel ih =>
    intro b e
    unfold powModAux
    dsimp only
    split
    next => exact Nat.mod_lt _ hpos
    next =>
      split
      next => exact Nat.mod_lt _ hpos
      next => exact ih _ _

theorem negP_mod_ne_zero {x : Nat} (hx : x < P) (h0 : x ≠ 0) : negP x % P ≠ 0 := by
  unfold negP
  rw [Nat.mod_mod, Nat.mod_eq_of_lt hx, Nat.mod_eq_of_lt (by omega)]
  omega

/-- The root with the sign that is asked for. -/
theorem parity_root {x sign : Nat} (hx : x < P) (h0 : x ≠ 0) (hsign : sign < 2) :
    (if x % 2 ≠ sign then P - x else x) < P ∧ (if x % 2 ≠ sign then P - x else x) % 2 = sign := by
  have hodd : P % 2 = 1 := by decide
  by_cases h : x % 2 ≠ sign
  · rw [if_pos h]
    omega
  · rw [if_neg h]
    omega

theorem add_negP_mod {a b : Nat} : (a + negP b) % P = 0 ↔ a % P = b % P := by
  have hP : 0 < P := by decide
  have hb := Nat.mod_lt b hP
  have ha := Nat.mod_lt a hP
  unfold negP
  rw [Nat.add_mod, Nat.mod_mod]
  by_cases h0 : b % P = 0
  · rw [h0, Nat.sub_zero, Nat.mod_self, Nat.add_zero, Nat.mod_mod]
  · rw [Nat.mod_eq_of_lt (show P - b % P < P by omega)]
    constructor
    · intro h
      by_contra hne
      rcases Nat.lt_or_ge (a % P + (P - b % P)) P with hlt | hge
      · rw [Nat.mod_eq_of_lt hlt] at h
        omega
      · rw [Nat.mod_eq_sub_mod hge, Nat.mod_eq_of_lt (by omega)] at h
        omega
    · intro h
      rw [h, Nat.add_sub_cancel' hb.le, Nat.mod_self]

/-- A natural number and an integer that are one modulo `P`. -/
theorem sub_emod_P {a : Nat} {c : Int} : ((a : Int) - c) % P = 0 ↔ a % P = (c % P).toNat := by
  have hP : (P : Int) ≠ 0 := by decide
  have hc := Int.emod_nonneg c hP
  rw [← Int.emod_eq_emod_iff_emod_sub_eq_zero]
  omega

/-! ## The abscissa -/

/-- The square of the abscissa of the point with ordinate `y`. -/
def xSquared (y : Nat) : Nat := (y * y + negP 1) * powP (D * y * y + 1) (P - 2) % P

/-- The same product, not reduced. -/
def xProduct (y : Nat) : Int := ((y : Int) * y - 1) * powP (D * y * y + 1) (P - 2)

/-- The candidate for a root, times a root of minus one where it is none. -/
def root (x2 : Nat) : Nat :=
  let x := powP x2 ((P + 3) / 8)
  if x * x % P ≠ x2 % P then x * sqrtM1 % P else x

theorem xSquared_lt (y : Nat) : xSquared y < P := Nat.mod_lt _ (by decide)

theorem root_lt (x2 : Nat) : root x2 < P := by
  unfold root
  dsimp only
  split
  · exact Nat.mod_lt _ (by decide)
  · exact powP_lt _ _

theorem xProduct_emod (y : Nat) : (xProduct y % P).toNat = xSquared y := by
  have hneg : ((negP 1 : Nat) : Int) = P - 1 := by decide
  have hcast : xProduct y % P = (xSquared y : Nat) := by
    unfold xProduct xSquared
    push_cast
    rw [hneg]
    refine Int.emod_emod_of_dvd _ dvd_rfl |>.symm.trans ?_
    rw [Int.emod_emod]
    refine (Int.ModEq.mul_right _ ?_ : _ ≡ _ [ZMOD P])
    exact (Int.modEq_iff_dvd.mpr ⟨1, by ring⟩)
  rw [hcast, Int.toNat_natCast]

theorem square_sub_xProduct {x y : Nat} :
    ((x : Int) * x - xProduct y) % P = 0 ↔ x * x % P = xSquared y := by
  rw [← Nat.cast_mul, sub_emod_P, xProduct_emod]

/-- The candidate that is computed without reducing the square. -/
theorem root_xProduct (y : Nat) :
    (let x := powP (xProduct y % P).toNat ((P + 3) / 8)
      if ((x : Int) * x - xProduct y) % P ≠ 0 then x * sqrtM1 % P else x) = root (xSquared y) := by
  unfold root
  dsimp only
  rw [xProduct_emod, Nat.mod_eq_of_lt (xSquared_lt y)]
  simp only [ne_eq, square_sub_xProduct]

theorem root_zero : root 0 = 0 := by decide +kernel

/-- Only zero has the root zero. -/
theorem root_ne_zero {x2 : Nat} (hx2 : x2 ≠ 0) (h : root x2 * root x2 % P = x2) : root x2 ≠ 0 := by
  intro h0
  rw [h0, Nat.zero_mul, Nat.zero_mod] at h
  exact hx2 h.symm

/-! ## The bytes -/

/-- A point with reduced coordinates is written as the number that has them. -/
theorem encode_of_reduced {x y : Nat} (t : Nat) (hx : x < P) (hy : y < P) :
    encode ⟨x, y, 1, t⟩ = toBytesLittle 32 (y + 2 ^ 255 * (x % 2)) := by
  have hone : powP 1 (P - 2) = 1 := by decide +kernel
  unfold encode
  dsimp only
  rw [hone, Nat.mul_one, Nat.mul_one, Nat.mod_eq_of_lt hx, Nat.mod_eq_of_lt hy]

end Preaction.Edwards
