import Preaction.Edwards

/-!
# `nenrin_cleanroom.py` — Ed25519 and `did:key`

Verification only, over the shared curve arithmetic. Nothing below is proved
about the curve: the results about `verify` hold whatever a signature check
accepts.

Mirroring notes:
- `_KEYS` is a cache and is left out.
-/

namespace Preaction.Nenrin

open Preaction.Py Preaction.Edwards

/-- `_is_ident(p)` -/
def isIdent (p : Point) : Bool := p.X % P == 0 && (p.Y + negP p.Z) % P == 0

/-- `_decode(b)` -/
def decode (b : Bytes) : Option Point :=
  if b.length ≠ 32 then none
  else
    let n := fromBytesLittle b
    let sign := n / 2 ^ 255
    let y := n % 2 ^ 255
    if P ≤ y then none
    else
      let x2 := (y * y + negP 1) * powP (D * y * y + 1) (P - 2) % P
      if x2 = 0 then
        if sign = 1 then none else some ⟨0, y, 1, 0⟩
      else
        let x := powP x2 ((P + 3) / 8)
        let x := if (x * x + negP x2) % P ≠ 0 then x * sqrtM1 % P else x
        if (x * x + negP x2) % P ≠ 0 then none
        else
          let x := if x % 2 ≠ sign then P - x else x
          some ⟨x, y, 1, x * y % P⟩

/-- `resolve_key(raw)` -/
def resolveKey (raw : Bytes) : Option Point :=
  match decode raw with
  | some A => if isIdent A || !isIdent (mul L A) then none else some A
  | none => none

/-- `ed25519_verify(A, raw_key, sig, msg)` -/
def ed25519Verify (R : Runtime) (A : Point) (rawKey sig msg : Bytes) : Bool :=
  match decode basePointBytes with
  | none => false
  | some B =>
    if sig.length ≠ 64 then false
    else
      let Rb := sig.take 32
      let S := fromBytesLittle (sig.drop 32)
      if L ≤ S then false
      else
        let k := fromBytesLittle (R.sha512 (Rb ++ rawKey ++ msg)) % L
        let kA := mul k A
        encode (add (mul S B) ⟨negP kA.X, kA.Y, kA.Z, negP kA.T⟩) == Rb

/-- `B58` -/
def b58 : Str := lit "123456789ABCDEFGHJKLMNPQRSTUVWXYZabcdefghijkmnopqrstuvwxyz"

/-- `n.to_bytes((n.bit_length() + 7) // 8, "big")` -/
def toBytesBig (n : Nat) : Bytes :=
  if n = 0 then [] else (toBytesLittle (n.log2 / 8 + 1) n).reverse

/-- The bytes of a base58 text: a zero for every leading `1`, then the number. -/
def fromBase58 (s : Str) : Option Bytes :=
  if s.all (b58.contains ·) then
    let n := s.foldl (fun n c => n * 58 + b58.idxOf c) 0
    some (List.replicate (s.takeWhile (· == ofChar '1')).length 0 ++ toBytesBig n)
  else none

/-- `did_key(ident)`: the point and the raw key. -/
def didKey (x : Json) : Option (Point × Bytes) :=
  match x with
  | .str s =>
    if (lit "did:key:z").isPrefixOf s ∧ 9 < s.length then
      match fromBase58 (s.drop 9) with
      | some raw =>
        if raw.length = 34 ∧ raw.take 2 = [0xED, 0x01] then
          (resolveKey (raw.drop 2)).map (·, raw.drop 2)
        else none
      | none => none
    else none
  | _ => none

end Preaction.Nenrin
