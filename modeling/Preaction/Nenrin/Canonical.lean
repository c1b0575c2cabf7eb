import Preaction.Py.JsonPrint
import Preaction.Py.Runtime

/-!
# `nenrin_cleanroom.py` — the canonical form

`canonical(v)` prints a value with its keys sorted and its integral floats as
integers; it refuses a number that is not a safe integer and a key that is not
printable ASCII. Two records are one record to the verifier when these bytes are
equal, so the facts here are about `Same`: what equal canonical bytes say about
the fields of two records (`same_of_tryCanonical`, `Same.lookup_str`,
`Same.filter`).

Mirroring notes:
- `_c` is the compact print of the normal form; the checks it makes on the way
  are `isCanonical` of that form.
- `tryCanonical` is `none` where `canonical` raises `CanonicalError`. The depth
  at which Python raises `RecursionError` is not modelled.
-/

namespace Preaction.Nenrin

open Preaction.Py Json

/-- `SAFE` -/
def safe : Int := 2 ^ 53 - 1

/-- The scalar `_c` prints: the token `1.0` is the integer 1 and `-0` is 0. -/
def canonLeaf : Json → Json
  | .float x => match x.toInt? with
    | some n => .int n
    | none => .float x
  | j => j

/-- `0x20 <= ord(ch) <= 0x7E` for every character of a key. -/
def printableAscii (k : Str) : Bool := k.all fun ch => 0x20 ≤ ch.val && ch.val ≤ 0x7E

mutual
/-- Whether `_c` raises nothing on a normal form. -/
def isCanonical : Json → Bool
  | .int n => -safe ≤ n && n ≤ safe
  | .float _ => false
  | .arr xs => areCanonical xs
  | .obj kvs => areCanonicalKvs kvs
  | _ => true

def areCanonical : List Json → Bool
  | [] => true
  | x :: xs => isCanonical x && areCanonical xs

def areCanonicalKvs : List (Str × Json) → Bool
  | [] => true
  | (k, x) :: kvs => printableAscii k && isCanonical x && areCanonicalKvs kvs
end

/-- The shape `_c` prints in. No float is left to print, so any token does. -/
def canonFormat : Format := { surr := true, float := Runtime.floatToken }

/-- `try_canonical(v)` -/
def tryCanonical (v : Json) : Option Bytes :=
  let n := normWith canonLeaf v
  if isCanonical n then some (utf8Bytes (print canonFormat n)) else none

/-- `sha256c(v)` -/
def sha256c (R : Runtime) (v : Json) : Option Str := (tryCanonical v).map R.sha256Hex

/-- The two values are one value to `canonical`. -/
def Same (a b : Json) : Prop := normWith canonLeaf a = normWith canonLeaf b

theorem Same.symm {a b : Json} (h : Same a b) : Same b a := Eq.symm h

/-- Canonical bytes determine the value, up to the order of keys and the
spelling of numbers. -/
theorem same_of_tryCanonical {a b : Json} {c : Bytes} (ha : tryCanonical a = some c)
    (hb : tryCanonical b = some c) : Same a b := by
  simp only [tryCanonical, Option.ite_none_right_eq_some, Option.some.injEq] at ha hb
  exact print_injective (Runtime.floatToken_lawful true)
    (utf8Bytes_injective (ha.2.trans hb.2.symm))

theorem Same.tryCanonical_eq {a b : Json} (h : Same a b) : tryCanonical a = tryCanonical b := by
  rw [tryCanonical, tryCanonical, h]

/-- A text is the only value with its canonical form. -/
theorem normWith_canonLeaf_str {a : Json} {s : Str} : normWith canonLeaf a = .str s ↔ a = .str s := by
  cases a with
  | float x => cases hx : x.toInt? <;> simp [normWith, canonLeaf, hx]
  | _ => simp [normWith, canonLeaf]

/-! ## Records -/

/-- A dict of the bundle, by its bindings. -/
abbrev Record := List (Str × Json)

variable {x y : Record}

/-- A field of two like records: bound in both to like values, or in neither. -/
theorem Same.lookup (h : Same (.obj x) (.obj y)) (k : Str) :
    (x.lookup k).map (normWith canonLeaf) = (y.lookup k).map (normWith canonLeaf) :=
  lookup_of_normWith_obj_eq h k

/-- A text field of two like records. -/
theorem Same.lookup_str (h : Same (.obj x) (.obj y)) {k s : Str} (hx : x.lookup k = some (.str s)) :
    y.lookup k = some (.str s) := by
  have hk := h.lookup k
  rw [hx, Option.map_some, eq_comm, Option.map_eq_some_iff] at hk
  obtain ⟨v, hv, hn⟩ := hk
  rw [hv, normWith_canonLeaf_str.mp hn]

/-- Dropping fields by name keeps two records alike. -/
theorem Same.filter (h : Same (.obj x) (.obj y)) (p : Str → Bool) :
    Same (.obj (x.filter fun kv => p kv.1)) (.obj (y.filter fun kv => p kv.1)) := by
  simp only [Same, normWith, obj.injEq]
  refine sortKvs_congr fun k => ?_
  rw [lookup_normKvs, lookup_normKvs, lookup_filter, lookup_filter]
  split
  next => exact h.lookup k
  next => rfl

end Preaction.Nenrin
