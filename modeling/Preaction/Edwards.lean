import Preaction.Py.Runtime

/-!
# The arithmetic of edwards25519

Extended coordinates over the integers modulo `2 ^ 255 - 19`, as both Python
verifiers of the repository compute them: `nenrin_cleanroom.py` and
`ed25519_ref.py` have the same `_add` and `_mul`. They differ in how a point is
decoded and what a key has to be, so that is in the modules that mirror them.

Mirroring notes:
- A difference modulo `P` is written with `P` added, since these are naturals.
-/

namespace Preaction.Edwards

open Preaction.Py

/-- `P` -/
def P : Nat := 2 ^ 255 - 19

/-- `L` -/
def L : Nat := 2 ^ 252 + 27742317777372353535851937790883648493

/-- `pow(b, e, m)` by repeated squaring; `fuel` bounds the bits of `e`. -/
def powModAux : Nat → Nat → Nat → Nat → Nat
  | 0, _, _, m => 1 % m
  | fuel + 1, b, e, m =>
    if e = 0 then 1 % m
    else
      let h := powModAux fuel (b * b % m) (e / 2) m
      if e % 2 = 1 then h * b % m else h

/-- `pow(b, e, P)` for an exponent below `2 ^ 256`. -/
def powP (b e : Nat) : Nat := powModAux 256 b e P

/-- `-x % P` for `x < P` -/
def negP (x : Nat) : Nat := (P - x % P) % P

/-- `D` -/
def D : Nat := negP (121665 * powP 121666 (P - 2))

/-- `SQRTM1` -/
def sqrtM1 : Nat := powP 2 ((P - 1) / 4)

/-- A point in extended coordinates. -/
structure Point where
  X : Nat
  Y : Nat
  Z : Nat
  T : Nat
  deriving DecidableEq, Repr

/-- `IDENT` -/
def ident : Point := ⟨0, 1, 1, 0⟩

/-- `_add(p1, p2)` -/
def add (p q : Point) : Point :=
  let A := (p.Y + negP p.X) * (q.Y + negP q.X) % P
  let B := (p.Y + p.X) * (q.Y + q.X) % P
  let C := 2 * p.T * q.T * D % P
  let Dd := 2 * p.Z * q.Z % P
  let E := B + negP A
  let F := Dd + negP C
  let G := Dd + C
  let H := B + A
  ⟨E * F % P, G * H % P, F * G % P, E * H % P⟩

/-- `_mul(s, p)`; `fuel` bounds the bits of `s`. -/
def mulAux : Nat → Nat → Point → Point → Point
  | 0, _, _, q => q
  | fuel + 1, s, p, q =>
    if s = 0 then q
    else mulAux fuel (s / 2) (add p p) (if s % 2 = 1 then add q p else q)

/-- `_mul(s, p)` for a scalar below `2 ^ 256`. -/
def mul (s : Nat) (p : Point) : Point := mulAux 256 s p ident

/-- `n.to_bytes(len, "little")` -/
def toBytesLittle : Nat → Nat → Bytes
  | 0, _ => []
  | len + 1, n => UInt8.ofNat (n % 256) :: toBytesLittle len (n / 256)

/-- `_encode(p)` -/
def encode (p : Point) : Bytes :=
  let zi := powP p.Z (P - 2)
  let x := p.X * zi % P
  let y := p.Y * zi % P
  toBytesLittle 32 (y + 2 ^ 255 * (x % 2))

/-- The bytes the base point `B` is decoded from. -/
def basePointBytes : Bytes := toBytesLittle 32 (4 * powP 5 (P - 2) % P)

end Preaction.Edwards
