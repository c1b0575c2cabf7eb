import Preaction.Edwards

/-!
# `tools/_ed25519.py` — Ed25519 verification

The third verifier of the repository over the shared curve arithmetic. It
refuses a key and an `R` of small or mixed order, since such a key binds
nobody: under it one signature can verify for more than one message.

Mirroring notes:
- `verify` catches every exception; `decode` and `xrecover` give none where the
  source raises.
- `xx` in `_xrecover` is not reduced modulo `p`, and can be negative.
-/

namespace Preaction.Ed25519Tools

open Preaction.Py Preaction.Edwards

/-- `_eq(P, Q)` -/
def eq (A B : Point) : Bool :=
  (A.X * B.Z + negP (B.X * A.Z)) % P == 0 && (A.Y * B.Z + negP (B.Y * A.Z)) % P == 0

/-- `_xrecover(y)` -/
def xrecover (y : Nat) : Option Nat :=
  let xx : Int := ((y : Int) * y - 1) * powP (D * y * y + 1) (P - 2)
  let x := powP (xx % P).toNat ((P + 3) / 8)
  let x := if ((x : Int) * x - xx) % P ≠ 0 then x * sqrtM1 % P else x
  if ((x : Int) * x - xx) % P ≠ 0 then none else some x

/-- `_By` -/
def By : Nat := 4 * powP 5 (P - 2) % P

/-- `_B` -/
def B : Point :=
  let x := (xrecover By).getD 0
  if x % 2 = 1 then ⟨P - x, By, 1, (P - x) * By % P⟩ else ⟨x, By, 1, x * By % P⟩

/-- `_decode(b)` -/
def decode (b : Bytes) : Option Point :=
  if b.length ≠ 32 then none
  else
    let n := fromBytesLittle b
    let sign := n / 2 ^ 255
    let y := n % 2 ^ 255
    if P ≤ y then none
    else match xrecover y with
      | none => none
      | some x =>
        if x = 0 ∧ sign ≠ 0 then none
        else
          let x := if x % 2 ≠ sign then P - x else x
          some ⟨x, y, 1, x * y % P⟩

/-- `is_small_order(P)` -/
def isSmallOrder (A : Point) : Bool := eq (mul 8 A) ident

/-- `is_torsion_free(P)` -/
def isTorsionFree (A : Point) : Bool := eq (mul L A) ident

/-- `verify(public_key, message, signature)` -/
def verify (R : Runtime) (publicKey message signature : Bytes) : Bool :=
  if signature.length ≠ 64 then false
  else match decode publicKey, decode (signature.take 32) with
    | some A, some Rp =>
      if isSmallOrder A || isSmallOrder Rp then false
      else if !isTorsionFree A || !isTorsionFree Rp then false
      else
        let s := fromBytesLittle (signature.drop 32)
        if L ≤ s then false
        else
          let h := fromBytesLittle (R.sha512 (signature.take 32 ++ publicKey ++ message)) % L
          eq (mul s B) (add Rp (mul h A))
    | _, _ => false

/-- A message has a part in the check only through its challenge. -/
theorem verify_congr {R R' : Runtime} {publicKey m m' signature : Bytes}
    (h : R.sha512 (signature.take 32 ++ publicKey ++ m) =
      R'.sha512 (signature.take 32 ++ publicKey ++ m')) :
    verify R publicKey m signature = verify R' publicKey m' signature := by
  unfold verify
  rw [h]

/-- The signature is one of a single message at most. -/
def MessageBound (R : Runtime) (publicKey signature : Bytes) : Prop :=
  ∀ m m', verify R publicKey m signature = true → verify R publicKey m' signature = true → m = m'

end Preaction.Ed25519Tools
