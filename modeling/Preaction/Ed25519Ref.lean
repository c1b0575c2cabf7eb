import Preaction.Edwards

/-!
# `ed25519_ref.py` — Ed25519

The signer and the verifier of the private-opening kit, which the work-acceptance checker
loads by path. It accepts a key only if its canonical encoding is of a point of
prime order, and a signature only if the encoding of `R` is canonical.

Mirroring notes:
- `x2` in `_recover_x` is not reduced modulo `p`, and can be negative.
- `_compress` is `encode`.
-/

namespace Preaction.Ed25519Ref

open Preaction.Py Preaction.Edwards

/-- `_equal(P, Q)` -/
def equal (A B : Point) : Bool :=
  (A.X * B.Z + negP (B.X * A.Z)) % P == 0 && (A.Y * B.Z + negP (B.Y * A.Z)) % P == 0

/-- `_recover_x(y, sign)` -/
def recoverX (y sign : Nat) : Option Nat :=
  if P ≤ y then none
  else
    let x2 : Int := ((y : Int) * y - 1) * powP (D * y * y + 1) (P - 2)
    if x2 = 0 then
      if sign ≠ 0 then none else some 0
    else
      let x := powP (x2 % P).toNat ((P + 3) / 8)
      let x := if ((x : Int) * x - x2) % P ≠ 0 then x * sqrtM1 % P else x
      if ((x : Int) * x - x2) % P ≠ 0 then none
      else some (if x % 2 ≠ sign then P - x else x)

/-- `_gy` -/
def gy : Nat := 4 * powP 5 (P - 2) % P

/-- `_gx` -/
def gx : Nat := (recoverX gy 0).getD 0

/-- `G` -/
def G : Point := ⟨gx, gy, 1, gx * gy % P⟩

/-- `_decompress(s)` -/
def decompress (s : Bytes) : Option Point :=
  if s.length ≠ 32 then none
  else
    let n := fromBytesLittle s
    let sign := n / 2 ^ 255
    let y := n % 2 ^ 255
    (recoverX y sign).map fun x => ⟨x, y, 1, x * y % P⟩

/-- `int.from_bytes(s, "little") & ((1 << 255) - 1)`, the `y` of an encoding. -/
def encodedY (s : Bytes) : Nat := fromBytesLittle s % 2 ^ 255

/-- `key_ok(public)` -/
def keyOk (key : Bytes) : Bool :=
  if key.length ≠ 32 || P ≤ encodedY key then false
  else match decompress key with
    | some A => !equal A ident && equal (mul L A) ident
    | none => false

variable (R : Runtime)

/-- `verify(public, msg, signature)` -/
def verify (key msg signature : Bytes) : Bool :=
  if key.length ≠ 32 || signature.length ≠ 64 then false
  else if !keyOk key || P ≤ encodedY (signature.take 32) then false
  else match decompress key, decompress (signature.take 32) with
    | some A, some Rp =>
      let s := fromBytesLittle (signature.drop 32)
      if L ≤ s then false
      else
        let h := fromBytesLittle (R.sha512 (signature.take 32 ++ key ++ msg)) % L
        equal (mul s G) (add Rp (mul h A))
    | _, _ => false

/-! ## Signing -/

/-- `_expand(secret)` -/
def expand (secret : Bytes) : Except PyError (Nat × Bytes) :=
  if secret.length ≠ 32 then .error .valueError
  else
    let h := R.sha512 secret
    .ok ((fromBytesLittle (h.take 32) &&& (2 ^ 254 - 8)) ||| 2 ^ 254, h.drop 32)

/-- `public_key(secret)` -/
def publicKey (secret : Bytes) : Except PyError Bytes := do
  let (a, _) ← expand R secret
  return encode (mul a G)

/-- `sign(secret, msg)` -/
def sign (secret msg : Bytes) : Except PyError Bytes := do
  let (a, pre) ← expand R secret
  let A := encode (mul a G)
  let r := fromBytesLittle (R.sha512 (pre ++ msg)) % L
  let Rp := encode (mul r G)
  let h := fromBytesLittle (R.sha512 (Rp ++ A ++ msg)) % L
  return Rp ++ toBytesLittle 32 ((r + h * a) % L)

/-- `verify` accepts what `sign` produces. -/
def SignVerifies : Prop := ∀ secret msg key signature,
  publicKey R secret = .ok key → sign R secret msg = .ok signature →
    verify R key msg signature = true

/-- The sample runtime with a constant SHA-512, for which one verification stands for all. -/
def constantRuntime : Runtime := { Runtime.sample with sha512 := fun _ => List.replicate 64 1 }

theorem constantRuntime_signVerifies : SignVerifies constantRuntime := by
  intro secret msg key signature hkey hsign
  unfold publicKey expand at hkey
  unfold sign expand at hsign
  by_cases hlen : secret.length ≠ 32
  · rw [if_pos hlen] at hkey
    cases hkey
  · rw [if_neg hlen] at hkey hsign
    obtain rfl := Except.ok.inj hkey
    obtain rfl := Except.ok.inj hsign
    have hsha (b : Bytes) : constantRuntime.sha512 b = List.replicate 64 1 := rfl
    unfold verify
    simp only [hsha]
    clear hkey hsign hlen
    decide +kernel

end Preaction.Ed25519Ref
