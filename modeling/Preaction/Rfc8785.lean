import Mathlib.Data.List.Sort
import Preaction.Py.Runtime

/-!
# `tools/_rfc8785.py` — JSON canonicalization

`jcs` writes a value as RFC 8785 asks: numbers as ECMAScript prints them,
strings with the short escapes, keys in the order of their UTF-16 code units.

Mirroring notes:
- `repr(abs(x))` of a double is the runtime's `floatRepr`; `js_number` only
  moves its digits.
- An object is written from the first binding of each key, so a shadowed
  binding cannot raise: `jcsKvs` carries the outcome of each value.
- A lone surrogate in a key raises in `encode("utf-16-be")`; in a string it
  is copied.
-/

namespace Preaction.Rfc8785

open Preaction.Py

variable (R : Runtime)

/-- `float(n)` -/
def floatOfInt (n : Int) : Except PyError PyFloat :=
  match roundToDouble (n < 0) n.natAbs 1 with
  | .inf _ => .error .overflowError
  | x => .ok x

/-- `s.partition(sep)`: before and after the first `sep`. -/
def partition (sep : CodePoint) (s : Str) : Str × Str :=
  (s.takeWhile (· != sep), (s.dropWhile (· != sep)).drop 1)

/-- The text before the exponent as digits, with the exponent moved into the
place of the point: what `js_number` does with `repr(abs(x))`. -/
def placeDigits (ip fp : Str) (exp10 : Int) : Str :=
  let all := ip ++ fp
  let stripped := all.dropWhile (· == ofChar '0')
  let leadZeros := all.length - stripped.length
  let n : Int := ip.length - leadZeros + exp10
  let kept := (stripped.reverse.dropWhile (· == ofChar '0')).reverse
  let digits := if kept.isEmpty then lit "0" else kept
  let k := digits.length
  if k ≤ n ∧ n ≤ 21 then digits ++ List.replicate (n - k).toNat (ofChar '0')
  else if 0 < n ∧ n ≤ 21 then digits.take n.toNat ++ lit "." ++ digits.drop n.toNat
  else if -6 < n ∧ n ≤ 0 then lit "0." ++ List.replicate (-n).toNat (ofChar '0') ++ digits
  else
    let e := n - 1
    let es := (if 0 ≤ e then lit "+" else lit "-") ++ decimal e.natAbs
    digits.take 1 ++ (if k = 1 then [] else lit "." ++ digits.drop 1) ++ lit "e" ++ es

/-- The magnitude of a double without its sign. -/
def absFloat : PyFloat → PyFloat
  | .nan => .nan
  | .inf _ => .inf false
  | .fin _ exp frac => .fin false exp frac

/-- `x < 0` -/
def isNegative : PyFloat → Bool
  | .fin neg _ _ => neg
  | .inf neg => neg
  | .nan => false

/-- `js_number` of a `float`. -/
def jsDouble (x : PyFloat) : Except PyError Str := do
  match x with
  | .nan | .inf _ => .error .valueError
  | .fin _ _ _ =>
    if x.isZero then return lit "0"
    let (m, e) := partition (ofChar 'e') (R.lower (R.floatRepr (absFloat x)))
    let exp10 ← if e.isEmpty then pure 0 else R.int (.str e)
    let (ip, fp) := partition (ofChar '.') m
    -- two points would not unpack
    if fp.contains (ofChar '.') then .error .valueError
    else return (if isNegative x then lit "-" else []) ++ placeDigits ip fp exp10

/-- `js_number(x)` of an `int`. -/
def jsInt (n : Int) : Except PyError Str := do
  if n.natAbs < 2 ^ 53 then return intStr n
  jsDouble R (← floatOfInt n)

/-- `js_string(s)` -/
def jsString (s : Str) : Str := quote false s

/-- `k.encode("utf-16-be")`, by code unit. -/
def utf16 (s : Str) : Except PyError (List Nat) :=
  if s.any isSurrogate then .error .unicodeEncodeError
  else .ok (s.flatMap fun c =>
    if c.val < 0x10000 then [c.val]
    else [0xD800 + (c.val - 0x10000) / 0x400, 0xDC00 + (c.val - 0x10000) % 0x400])

/-- The order of the keys. -/
def unitsLt : List Nat → List Nat → Bool
  | _, [] => false
  | [], _ :: _ => true
  | a :: as, b :: bs => decide (a < b) || (a == b && unitsLt as bs)

/-- `",".join(parts)` -/
def joinComma : List Str → Str
  | [] => []
  | [p] => p
  | p :: q :: ps => p ++ lit "," ++ joinComma (q :: ps)

/-- An object from its keys and what `jcs` gives for each value. -/
def jcsMembers (members : List (Str × Except PyError Str)) : Except PyError Str := do
  let keys ← ((members.map (·.1)).eraseDups).mapM fun k => return (← utf16 k, k)
  let sorted := keys.insertionSort fun a b => unitsLt b.1 a.1 = false
  let parts ← sorted.mapM fun (_, k) => do
    let v ← (members.lookup k).getD (.error .keyError)
    return jsString k ++ lit ":" ++ v
  return lit "\x7b" ++ joinComma parts ++ lit "\x7d"

mutual
/-- `jcs(v)` -/
def jcs : Json → Except PyError Str
  | .null => .ok (lit "null")
  | .bool true => .ok (lit "true")
  | .bool false => .ok (lit "false")
  | .int n => jsInt R n
  | .float x => jsDouble R x
  | .str s => .ok (jsString s)
  | .arr xs => return lit "[" ++ joinComma (← jcsList xs) ++ lit "]"
  | .obj kvs => jcsMembers (jcsKvs kvs)

def jcsList : List Json → Except PyError (List Str)
  | [] => .ok []
  | x :: xs => return (← jcs x) :: (← jcsList xs)

def jcsKvs : List (Str × Json) → List (Str × Except PyError Str)
  | [] => []
  | (k, v) :: kvs => (k, jcs v) :: jcsKvs kvs
end

end Preaction.Rfc8785
