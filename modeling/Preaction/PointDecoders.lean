import Preaction.Ed25519Tools
import Preaction.Nenrin.DidKey

/-!
# Two decoders of a point

`nenrin_cleanroom.py` asks whether the square of the abscissa is zero before it
takes a root, and reduces the square first; `tools/_ed25519.py` does not reduce it
and asks whether the root is zero. They accept the same bytes as the same point
(`decode_agree`), and an accepted point is written as the bytes it was read from.
-/

namespace Preaction

open Preaction.Py Preaction.Edwards

/-- `encode(P)` -/
def Ed25519Tools.encode (A : Point) : Bytes := Edwards.encode A

theorem Ed25519Tools.xrecover_eq (y : Nat) : xrecover y =
    if root (xSquared y) * root (xSquared y) % P = xSquared y then some (root (xSquared y))
    else none := by
  unfold xrecover
  extract_lets xx x x'
  have hx : x' = root (xSquared y) := root_xProduct y
  have hxx : xx = xProduct y := rfl
  rw [hx, hxx]
  by_cases h : root (xSquared y) * root (xSquared y) % P = xSquared y
  · rw [if_pos h, if_neg (not_not.mpr (square_sub_xProduct.mpr h))]
  · rw [if_neg h, if_pos (fun h0 => h (square_sub_xProduct.mp h0))]

theorem root_add_negP (y : Nat) :
    (let x := powP (xSquared y) ((P + 3) / 8)
      if (x * x + negP (xSquared y)) % P ≠ 0 then x * sqrtM1 % P else x) = root (xSquared y) := by
  unfold root
  simp only [ne_eq, add_negP_mod]

/-- The point with ordinate `y` whose abscissa has the parity `sign`. -/
def pointAt (y sign : Nat) : Option Point :=
  if P ≤ y ∨ root (xSquared y) * root (xSquared y) % P ≠ xSquared y ∨
      (root (xSquared y) = 0 ∧ sign ≠ 0) then none
  else
    let x := if root (xSquared y) % 2 ≠ sign then P - root (xSquared y) else root (xSquared y)
    some ⟨x, y, 1, x * y % P⟩

/-- The square is compared with zero before the root is taken. -/
theorem Nenrin.decode_eq {b : Bytes} (hlen : b.length = 32) :
    Nenrin.decode b = pointAt (fromBytesLittle b % 2 ^ 255) (fromBytesLittle b / 2 ^ 255) := by
  unfold Nenrin.decode
  rw [if_neg (not_not.mpr hlen)]
  extract_lets n sign y x2 x x' z
  have hsign : sign < 2 := sign_lt hlen
  have hx2 : x2 = xSquared y := rfl
  have hx' : x' = root (xSquared y) := root_add_negP y
  change _ = pointAt y sign
  clear_value x2 x' sign y
  subst hx2 hx'
  unfold pointAt
  by_cases hy : P ≤ y
  · rw [if_pos hy, if_pos (.inl hy)]
  rw [if_neg hy]
  by_cases hzero : xSquared y = 0
  · -- the root of zero is zero, and has no other sign
    rw [if_pos hzero, hzero, root_zero]
    by_cases hone : sign = 1
    · rw [if_pos hone, if_pos (.inr (.inr ⟨rfl, by omega⟩))]
    · obtain rfl : sign = 0 := by omega
      rw [if_neg hone, if_neg]
      · simp
      · rintro (h | h | h)
        · exact hy h
        · exact h rfl
        · exact h.2 rfl
  · rw [if_neg hzero]
    have hsquare : (root (xSquared y) * root (xSquared y) + negP (xSquared y)) % P = 0 ↔
        root (xSquared y) * root (xSquared y) % P = xSquared y := by
      rw [add_negP_mod, Nat.mod_eq_of_lt (xSquared_lt y)]
    by_cases h : root (xSquared y) * root (xSquared y) % P = xSquared y
    · rw [if_neg (not_not.mpr (hsquare.mpr h)), if_neg]
      rintro (h' | h' | h')
      · exact hy h'
      · exact h' h
      · exact root_ne_zero hzero h h'.1
    · rw [if_pos (fun h0 => h (hsquare.mp h0)), if_pos (.inr (.inl h))]

theorem Ed25519Tools.decode_eq {b : Bytes} (hlen : b.length = 32) :
    Ed25519Tools.decode b =
      pointAt (fromBytesLittle b % 2 ^ 255) (fromBytesLittle b / 2 ^ 255) := by
  unfold Ed25519Tools.decode pointAt
  rw [if_neg (not_not.mpr hlen)]
  dsimp only
  generalize fromBytesLittle b % 2 ^ 255 = y
  generalize fromBytesLittle b / 2 ^ 255 = sign
  rw [xrecover_eq]
  by_cases hy : P ≤ y
  · rw [if_pos hy, if_pos (.inl hy)]
  rw [if_neg hy]
  by_cases h : root (xSquared y) * root (xSquared y) % P = xSquared y
  · rw [if_pos h]
    change (if root (xSquared y) = 0 ∧ sign ≠ 0 then none else _) = _
    by_cases hzero : root (xSquared y) = 0 ∧ sign ≠ 0
    · rw [if_pos hzero, if_pos (.inr (.inr hzero))]
    · have hnot : ¬ (P ≤ y ∨ root (xSquared y) * root (xSquared y) % P ≠ xSquared y ∨
          (root (xSquared y) = 0 ∧ sign ≠ 0)) := by
        rintro (h' | h' | h')
        · exact hy h'
        · exact h' h
        · exact hzero h'
      rw [if_neg hzero, if_neg hnot]
  · rw [if_neg h, if_pos (.inr (.inl h))]

theorem Nenrin.encode_decode {b : Bytes} {A : Point} (h : Nenrin.decode b = some A) :
    Edwards.encode A = b := by
  obtain ⟨hlen, hz, hx, hy, hn⟩ := Nenrin.decode_spec h
  obtain ⟨x, y, z, t⟩ := A
  obtain rfl : z = 1 := hz
  rw [encode_of_reduced t hx hy, ← hn]
  exact toBytesLittle_fromBytesLittle hlen

/-- **One decoder, written twice.** Every text of bytes is rejected by both decoders or
read as one point by both, and the point is written as these bytes. -/
theorem decode_agree (b : Bytes) : Nenrin.decode b = Ed25519Tools.decode b ∧
    ∀ A, Nenrin.decode b = some A → Edwards.encode A = b ∧ Ed25519Tools.encode A = b := by
  constructor
  · by_cases hlen : b.length = 32
    · rw [Nenrin.decode_eq hlen, Ed25519Tools.decode_eq hlen]
    · unfold Nenrin.decode Ed25519Tools.decode
      rw [if_pos hlen, if_pos hlen]
  · intro A hA
    exact ⟨Nenrin.encode_decode hA, Nenrin.encode_decode hA⟩

/-- The base point. -/
theorem decode_agree_base : ∃ A, Ed25519Tools.decode basePointBytes = some A ∧
    Edwards.encode A = basePointBytes := by
  have hsome : (Nenrin.decode basePointBytes).isSome = true := by decide +kernel
  obtain ⟨A, hA⟩ := Option.isSome_iff_exists.mp hsome
  exact ⟨A, (decode_agree basePointBytes).1 ▸ hA, ((decode_agree basePointBytes).2 A hA).1⟩

end Preaction
