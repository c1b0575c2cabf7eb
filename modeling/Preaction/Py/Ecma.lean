import Mathlib.Data.List.Sort
import Preaction.Py.Digits
import Preaction.Py.JsonAscii

/-!
# JSON in JavaScript

Values as `JSON.parse` gives them, their text under `JSON.stringify`, and the
sorted-key text (`canonicalText`) that the JavaScript half of the repository
hashes. That text has one value only, up to the order of keys and the sign of
zero (`canonicalText_inj`), and never holds a lone surrogate
(`canonicalText_scalar`), so that hashing it as UTF-8 loses nothing.

The arithmetic of doubles is exact on rationals and then rounded (`ofRat`), which
is what IEEE 754 asks of `+` and `*`.

Mirroring notes:
- Every number is a double, so a value holds no `.int`; `canonicalText` has
  none for it.
- A double that is an integer below `10^21` is printed as its digits. The
  digits of any other are an argument (`numberText`): distinct doubles have
  distinct tokens, none of which is an integer's.
- Keys are compared by UTF-16 code units, as `sort` compares strings.
-/

namespace Preaction.Py.Ecma

open Preaction.Py.Json (normWith normList normKvs normList_eq_map normKvs_eq_map)

/-- What the tokens of `numberText` satisfy. -/
structure NumberText (numberText : PyFloat → Str) : Prop where
  lawful : Format.Lawful ⟨true, numberText⟩
  scalar : ∀ x, Scalar (numberText x)

/-- A double as it is printed: an integer below `10^21` is its digits. -/
def printedNumber (x : PyFloat) : Json :=
  match x.toInt? with
  | some n => if n.natAbs < 10 ^ 21 then .int n else .float x
  | none => .float x

/-- `a < b` on strings. -/
def unitsLt (a b : Str) : Bool := strLt (units a) (units b)

/-- The members of an object in the order of `Object.keys(o).sort()`. -/
def sortUnits (kvs : List (Str × Json)) : List (Str × Json) :=
  kvs.insertionSort fun a b => unitsLt b.1 a.1 = false

mutual
/-- A value with its numbers as they are printed and its keys sorted. -/
def sortedForm : Json → Json
  | .float x => printedNumber x
  | .arr xs => .arr (sortedList xs)
  | .obj kvs => .obj (sortUnits (sortKvs (sortedKvs kvs)))
  | j => j

def sortedList : List Json → List Json
  | [] => []
  | x :: xs => sortedForm x :: sortedList xs

def sortedKvs : List (Str × Json) → List (Str × Json)
  | [] => []
  | (k, x) :: xs => (k, sortedForm x) :: sortedKvs xs
end

mutual
/-- Every number is a finite double. -/
def finite : Json → Bool
  | .float x => x.toRat?.isSome
  | .int _ => false
  | .arr xs => finiteList xs
  | .obj kvs => finiteKvs kvs
  | _ => true

def finiteList : List Json → Bool
  | [] => true
  | x :: xs => finite x && finiteList xs

def finiteKvs : List (Str × Json) → Bool
  | [] => true
  | (_, x) :: xs => finite x && finiteKvs xs
end

/-- The sorted-key text; none where it throws on a number that is not finite. -/
def canonicalText (numberText : PyFloat → Str) (v : Json) : Option Str :=
  if finite v then some (print ⟨true, numberText⟩ (sortedForm v)) else none

/-- `===` on two numbers, as a normal form: an integral double is that integer. -/
def numberLeaf : Json → Json
  | .float x => match x.toInt? with
    | some n => .int n
    | none => .float x
  | j => j

/-- Equal JSON values: objects by key, numbers by value. -/
def Same (a b : Json) : Prop := normWith numberLeaf a = normWith numberLeaf b

/-! ## `JSON.stringify` and `String` -/

/-- A key that is an array index; these come first in an object, in order. -/
def isIndexKey (k : Str) : Bool :=
  !k.isEmpty && k.all isDigit && decimal (decimalValue k) == k && decimalValue k < 4294967295

/-- The members of an object in the order of its own keys. -/
def ownOrder (kvs : List (Str × Json)) : List (Str × Json) :=
  (kvs.filter fun kv => isIndexKey kv.1).insertionSort
      (fun a b => decimalValue a.1 ≤ decimalValue b.1) ++
    kvs.filter fun kv => !isIndexKey kv.1

mutual
/-- A value as `JSON.stringify` writes it: keys in their own order, `null` for a number
that is not finite. -/
def stringifyForm : Json → Json
  | .float x => if x.toRat?.isSome then printedNumber x else .null
  | .arr xs => .arr (stringifyList xs)
  | .obj kvs => .obj (ownOrder (stringifyKvs kvs))
  | j => j

def stringifyList : List Json → List Json
  | [] => []
  | x :: xs => stringifyForm x :: stringifyList xs

def stringifyKvs : List (Str × Json) → List (Str × Json)
  | [] => []
  | (k, x) :: xs => (k, stringifyForm x) :: stringifyKvs xs
end

/-- `JSON.stringify(v)` -/
def stringify (numberText : PyFloat → Str) (v : Json) : Str :=
  print ⟨true, numberText⟩ (stringifyForm v)

mutual
/-- An element as `Array.prototype.join` writes it; none where it throws, on an object
whose own `toString` hides the inherited one. -/
def elementText (numberText : PyFloat → Str) : Json → Option Str
  | .null => some []
  | .bool b => some (if b then lit "true" else lit "false")
  | .int n => some (intStr n)
  | .float .nan => some (lit "NaN")
  | .float (.inf neg) => some (if neg then lit "-Infinity" else lit "Infinity")
  | .float x => some (print ⟨true, numberText⟩ (printedNumber x))
  | .str s => some s
  | .arr [] => some []
  | .arr (x :: xs) => do return (← elementText numberText x) ++ (← elementsText numberText xs)
  | .obj kvs => if (kvs.lookup (lit "toString")).isSome then none else some (lit "[object Object]")

def elementsText (numberText : PyFloat → Str) : List Json → Option Str
  | [] => some []
  | x :: xs => do
    return ofChar ',' :: (← elementText numberText x) ++ (← elementsText numberText xs)
end

/-- `String(v)`; the argument none is `undefined`. -/
def stringOf (numberText : PyFloat → Str) : Option Json → Option Str
  | none => some (lit "undefined")
  | some .null => some (lit "null")
  | some v => elementText numberText v

/-- Whether a value is truthy. -/
def truthy : Json → Bool
  | .null => false
  | .bool b => b
  | .int n => n != 0
  | .float x => x != .nan && !x.isZero
  | .str s => !s.isEmpty
  | .arr _ => true
  | .obj _ => true

/-! ## Doubles -/

/-- The double nearest to a number; the sign is that of a zero. -/
def ofRat (neg : Bool) (q : Rat) : PyFloat :=
  if q = 0 then .fin neg 0 0 else roundToDouble (q < 0) q.num.natAbs q.den

/-- `x + y` -/
def add : PyFloat → PyFloat → PyFloat
  | .nan, _ => .nan
  | _, .nan => .nan
  | .inf a, .inf b => if a = b then .inf a else .nan
  | .inf a, _ => .inf a
  | _, .inf b => .inf b
  | .fin a e f, .fin b e' f' =>
    ofRat (a && b)
      (((PyFloat.fin a e f).toRat?.getD 0) + ((PyFloat.fin b e' f').toRat?.getD 0))

/-- `x * n` for a positive integer `n`. -/
def scale (n : Nat) : PyFloat → PyFloat
  | .nan => .nan
  | .inf a => .inf a
  | .fin a e f => ofRat a (n * ((PyFloat.fin a e f).toRat?.getD 0))

/-- `n <= x` for an integer `n`. -/
def intLe (n : Int) : PyFloat → Bool
  | .nan => false
  | .inf neg => !neg
  | .fin a e f => (n : Rat) ≤ ((PyFloat.fin a e f).toRat?.getD 0)

/-! ## Sorting the keys -/

theorem sortedList_eq_map (xs : List Json) : sortedList xs = xs.map sortedForm := by
  induction xs with
  | nil => rfl
  | cons x xs ih => rw [sortedList, ih, List.map_cons]

theorem nodup_keys {l : List (Str × Json)} (h : KeySorted l) : (l.map (·.1)).Nodup := by
  refine List.pairwise_map.mpr (h.imp ?_)
  intro a b hab heq
  rw [heq, strLt_irrefl] at hab
  cases hab

theorem lookup_sortUnits {l : List (Str × Json)} (hl : KeySorted l) (k : Str) :
    (sortUnits l).lookup k = l.lookup k := by
  have hperm : (sortUnits l).Perm l := List.perm_insertionSort ..
  have hnodup := nodup_keys hl
  have hnodup' : ((sortUnits l).map (·.1)).Nodup := (hperm.map _).nodup_iff.mpr hnodup
  refine Option.ext fun v => ?_
  rw [lookup_eq_some_iff hnodup', lookup_eq_some_iff hnodup, hperm.mem_iff]

theorem lookup_sortedKvs (k : Str) (kvs : List (Str × Json)) :
    (sortedKvs kvs).lookup k = (kvs.lookup k).map sortedForm := by
  induction kvs with
  | nil => rfl
  | cons kv kvs ih =>
    obtain ⟨l, v⟩ := kv
    rw [sortedKvs, lookup_cons_if, lookup_cons_if, ih]
    split <;> rfl

theorem numberLeaf_printedNumber (x : PyFloat) :
    normWith numberLeaf (printedNumber x) = numberLeaf (.float x) := by
  have hfloat : normWith numberLeaf (.float x) = numberLeaf (.float x) := rfl
  unfold printedNumber
  cases hn : x.toInt? with
  | none => exact hfloat
  | some n =>
    dsimp only
    split
    next =>
      show Json.int n = numberLeaf (.float x)
      simp only [numberLeaf, hn]
    next => exact hfloat

/-- Nothing is lost in the sorted form. -/
theorem normWith_sortedForm (a : Json) :
    normWith numberLeaf (sortedForm a) = normWith numberLeaf a := by
  induction a with
  | arr xs ih =>
    simp only [sortedForm, normWith, normList_eq_map, sortedList_eq_map, Json.arr.injEq,
      List.map_map]
    exact List.map_congr_left fun x hx => ih x hx
  | obj kvs ih =>
    simp only [sortedForm, normWith, Json.obj.injEq]
    refine sortKvs_congr fun k => ?_
    rw [Json.lookup_normKvs, lookup_sortUnits (sortKvs_keySorted _), lookup_sortKvs,
      Json.lookup_normKvs, lookup_sortedKvs, Option.map_map]
    refine Option.map_congr fun v hv => ?_
    exact ih (k, v) (mem_of_lookup hv)
  | float x => exact numberLeaf_printedNumber x
  | null => rfl
  | bool b => rfl
  | int n => rfl
  | str s => rfl

/-! ## One text, one value -/

theorem canonicalText_inj {numberText : PyFloat → Str} (h : NumberText numberText) {a b : Json}
    {s : Str} (ha : canonicalText numberText a = some s) (hb : canonicalText numberText b = some s) :
    Same a b := by
  unfold canonicalText at ha hb
  split at ha
  next =>
    split at hb
    next =>
      have hprint := print_injective h.lawful
        ((Option.some.inj ha).trans (Option.some.inj hb).symm)
      have hnorm := congrArg (normWith numberLeaf) hprint
      rwa [normWith_sortedForm, normWith_sortedForm] at hnorm
    next => cases hb
  next => cases ha

theorem escapeChar_true_scalar (c : CodePoint) : Scalar (escapeChar true c) := by
  cases hc : isSurrogate c with
  | false => exact (escapeChar_scalar hc true).1 ▸ (escapeChar_scalar hc true).2
  | true =>
    have hrange : 0xD800 ≤ c.val ∧ c.val ≤ 0xDFFF := by
      simpa [isSurrogate] using hc
    unfold escapeChar
    rw [if_neg (by omega), if_neg (by omega), if_neg (by omega), if_neg (by omega),
      if_neg (by omega), if_neg (by omega), if_neg (by omega), hc, if_pos (by simp)]
    simp only [scalar_cons, isSurrogate_hexDigit _ (show c.val / 4096 < 16 by omega),
      isSurrogate_hexDigit _ (show c.val / 256 % 16 < 16 by omega),
      isSurrogate_hexDigit _ (show c.val / 16 % 16 < 16 by omega),
      isSurrogate_hexDigit _ (show c.val % 16 < 16 by omega), true_and]
    decide

/-- A string is quoted without lone surrogates. -/
theorem quote_true_scalar (s : Str) : Scalar (quote true s) := by
  have hesc : Scalar (escape true s) := by
    induction s with
    | nil => rfl
    | cons c cs ih =>
      rw [escape, List.flatMap_cons]
      exact scalar_append.mpr ⟨escapeChar_true_scalar c, ih⟩
  exact scalar_cons.mpr ⟨by decide, scalar_append.mpr ⟨hesc, by decide⟩⟩

section

variable {numberText : PyFloat → Str}

theorem printElems_scalar {xs : List Json}
    (ih : ∀ x ∈ xs, Scalar (print ⟨true, numberText⟩ x)) :
    Scalar (printElems ⟨true, numberText⟩ xs) := by
  induction xs with
  | nil => rw [printElems]; decide
  | cons x xs ihxs =>
    rw [printElems]
    exact scalar_cons.mpr ⟨by decide, scalar_append.mpr ⟨ih x (List.mem_cons_self ..),
      ihxs fun y hy => ih y (List.mem_cons_of_mem _ hy)⟩⟩

theorem printKvs_scalar {kvs : List (Str × Json)}
    (ih : ∀ kv ∈ kvs, Scalar (print ⟨true, numberText⟩ kv.2)) :
    Scalar (printKvs ⟨true, numberText⟩ kvs) := by
  induction kvs with
  | nil => rw [printKvs]; decide
  | cons kv kvs ihkvs =>
    obtain ⟨k, x⟩ := kv
    rw [printKvs]
    have hx := ih (k, x) (List.mem_cons_self ..)
    have hrest := ihkvs fun y hy => ih y (List.mem_cons_of_mem _ hy)
    exact scalar_cons.mpr ⟨by decide, scalar_append.mpr ⟨quote_true_scalar k,
      scalar_cons.mpr ⟨by decide, scalar_append.mpr ⟨hx, hrest⟩⟩⟩⟩

theorem print_scalar (h : ∀ x, Scalar (numberText x)) (a : Json) :
    Scalar (print ⟨true, numberText⟩ a) := by
  induction a with
  | null => rw [print]; decide
  | bool b => cases b <;> (rw [print]; decide)
  | int n => exact scalar_intStr n
  | float x => exact h x
  | str s => exact quote_true_scalar s
  | arr xs ih =>
    cases xs with
    | nil => rw [print]; decide
    | cons x xs =>
      rw [print]
      exact scalar_cons.mpr ⟨by decide, scalar_append.mpr ⟨ih x (List.mem_cons_self ..),
        printElems_scalar fun y hy => ih y (List.mem_cons_of_mem _ hy)⟩⟩
  | obj kvs ih =>
    cases kvs with
    | nil => rw [print]; decide
    | cons kv kvs =>
      obtain ⟨k, x⟩ := kv
      rw [print]
      have hx := ih (k, x) (List.mem_cons_self ..)
      have hrest := printKvs_scalar fun y hy => ih y (List.mem_cons_of_mem _ hy)
      exact scalar_cons.mpr ⟨by decide, scalar_append.mpr ⟨quote_true_scalar k,
        scalar_cons.mpr ⟨by decide, scalar_append.mpr ⟨hx, hrest⟩⟩⟩⟩

theorem canonicalText_scalar (h : NumberText numberText) {a : Json} {s : Str}
    (ha : canonicalText numberText a = some s) : Scalar s := by
  unfold canonicalText at ha
  split at ha
  next =>
    rw [← Option.some.inj ha]
    exact print_scalar h.scalar _
  next => cases ha

end

end Preaction.Py.Ecma
