import Preaction.Rfc8785

/-!
# `war_check.py` — the canonical form

`jcs` of the work-acceptance checker: RFC 8785 a second time in the repository,
written apart from `tools/_rfc8785.py`. The two place the digits of a double
alike and write strings and keys alike; they differ in which integers are taken
for doubles and in what they ask of `repr`.

Mirroring notes:
- `r.split("e")` and `mant.split(".")` are unpacked into two, so a third part is
  a `ValueError`.
- `json.dumps(s, ensure_ascii=False)` is `jsString`.
-/

namespace Preaction.WarCheck

open Preaction.Py Preaction.Rfc8785

variable (R : Runtime)

/-- `a, b = s.split(sep)` -/
def splitPair (sep : CodePoint) (s : Str) : Except PyError (Str × Str) :=
  let (a, b) := partition sep s
  if b.contains sep then .error .valueError else .ok (a, b)

/-- `es_number(x)` of a `float`. -/
def esDouble (x : PyFloat) : Except PyError Str :=
  match x with
  | .nan | .inf _ => .error .valueError
  | .fin _ _ _ => do
    if x.isZero then return lit "0"
    let r := R.floatRepr (absFloat x)
    let (mant, ex) ←
      if r.contains (ofChar 'e') then do
        let (mant, ex) ← splitPair (ofChar 'e') r
        pure (mant, ← R.int (.str ex))
      else pure (r, 0)
    let (ip, fp) ←
      if mant.contains (ofChar '.') then splitPair (ofChar '.') mant else pure (mant, [])
    let fp := if fp = lit "0" then [] else fp
    return (if isNegative x then lit "-" else []) ++ placeDigits ip fp ex

/-- `es_number(x)` of an `int`. -/
def esInt (n : Int) : Except PyError Str :=
  if 2 ^ 53 < n.natAbs then do esDouble R (← floatOfInt n) else .ok (intStr n)

mutual
/-- `enc(o)` -/
def enc : Json → Except PyError Str
  | .null => .ok (lit "null")
  | .bool true => .ok (lit "true")
  | .bool false => .ok (lit "false")
  | .int n => esInt R n
  | .float x => esDouble R x
  | .str s => .ok (jsString s)
  | .arr xs => return lit "[" ++ joinComma (← encList xs) ++ lit "]"
  | .obj kvs => jcsMembers (encKvs kvs)

def encList : List Json → Except PyError (List Str)
  | [] => .ok []
  | x :: xs => return (← enc x) :: (← encList xs)

def encKvs : List (Str × Json) → List (Str × Except PyError Str)
  | [] => []
  | (k, v) :: kvs => (k, enc v) :: encKvs kvs
end

/-- `jcs(v)` -/
def jcs (v : Json) : Except PyError Bytes := do utf8 (← enc R v)

end Preaction.WarCheck
