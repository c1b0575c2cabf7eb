import Mathlib.Data.Rat.Lemmas
import Preaction.Py.Json

/-!
# What a JSON value is

`Json` is a value as Python holds it: a double beside an integer, bindings in an
order. `Value` is what it stands for, with numbers by their value and objects as
maps, so that equality of values is equality in Lean.
-/

namespace Preaction.Py

/-- A JSON value; what is not a number is a double without a value. -/
inductive Value
  | null
  | bool (b : Bool)
  | num (q : Rat)
  | notNum (x : PyFloat)
  | str (s : Str)
  | arr (xs : List Value)
  | obj (f : Str → Option Value)

namespace Json

mutual
/-- The value of a `Json`. -/
def value : Json → Value
  | .null => .null
  | .bool b => .bool b
  | .int n => .num n
  | .float x => match x.toRat? with
    | some q => .num q
    | none => .notNum x
  | .str s => .str s
  | .arr xs => .arr (values xs)
  | .obj kvs => .obj (members kvs)

def values : List Json → List Value
  | [] => []
  | x :: xs => value x :: values xs

/-- The map an object is. -/
def members : List (Str × Json) → Str → Option Value
  | [], _ => none
  | (k, x) :: kvs, j => if j = k then some (value x) else members kvs j
end

theorem values_eq_map (xs : List Json) : values xs = xs.map value := by
  induction xs with
  | nil => rfl
  | cons x xs ih => rw [values, ih, List.map_cons]

theorem members_eq_lookup (kvs : List (Str × Json)) (k : Str) :
    members kvs k = (kvs.lookup k).map value := by
  induction kvs with
  | nil => rfl
  | cons kv kvs ih =>
    obtain ⟨l, x⟩ := kv
    rw [members, lookup_cons_if, ih]
    split <;> rfl

/-- An integral double has the value of its integer. -/
theorem toRat?_of_toInt? {x : PyFloat} {n : Int} (h : x.toInt? = some n) :
    x.toRat? = some (n : Rat) := by
  cases x with
  | nan => cases h
  | inf neg => cases h
  | fin neg exp frac =>
    unfold PyFloat.toInt? at h
    unfold PyFloat.toRat?
    dsimp only at h ⊢
    generalize PyFloat.significand exp frac = m at h ⊢
    generalize PyFloat.scale exp = e at h ⊢
    have hsigned (n : Nat) : (if neg = true then -(n : Rat) else n) =
        ((if neg = true then -(n : Int) else n : Int) : Rat) := by
      split
      · rw [Int.cast_neg, Int.cast_natCast]
      · rw [Int.cast_natCast]
    by_cases he : 1075 ≤ e
    · rw [if_pos he] at h ⊢
      obtain rfl := Option.some.inj h
      have hcast : (m : Rat) * 2 ^ (e - 1075) = ((m * 2 ^ (e - 1075) : Nat) : Rat) := by
        rw [Nat.cast_mul, Nat.cast_pow, Nat.cast_ofNat]
      rw [hcast, hsigned]
    · rw [if_neg he] at h ⊢
      by_cases hm : m % 2 ^ (1075 - e) = 0
      · rw [if_pos hm] at h
        obtain rfl := Option.some.inj h
        obtain ⟨k, rfl⟩ := Nat.dvd_of_mod_eq_zero hm
        have hpos : 0 < 2 ^ (1075 - e) := Nat.pow_pos (by decide)
        have hq : mkRat (2 ^ (1075 - e) * k : Nat) (2 ^ (1075 - e)) = (k : Rat) := by
          rw [Rat.mkRat_eq_div, Nat.cast_mul, Int.cast_mul]
          exact mul_div_cancel_left₀ _ (by positivity)
        rw [hq, hsigned, Nat.mul_div_cancel_left _ hpos]
      · rw [if_neg hm] at h
        cases h

/-- A leaf function that keeps the value of every scalar keeps the value. -/
theorem value_normWith {leaf : Json → Json}
    (hleaf : ∀ a, isLeaf a = true → value (leaf a) = value a) (a : Json) :
    value (normWith leaf a) = value a := by
  induction a with
  | arr xs ih =>
    rw [normWith, value, value, values_eq_map, values_eq_map, normList_eq_map, List.map_map]
    exact congrArg Value.arr (List.map_congr_left fun x hx => ih x hx)
  | obj kvs ih =>
    rw [normWith, value, value]
    congr 1
    funext k
    rw [members_eq_lookup, members_eq_lookup, lookup_sortKvs, lookup_normKvs, Option.map_map]
    refine Option.map_congr fun v hv => ?_
    exact ih (k, v) (mem_of_lookup hv)
  | null => exact hleaf .null rfl
  | bool b => exact hleaf (.bool b) rfl
  | int n => exact hleaf (.int n) rfl
  | float x => exact hleaf (.float x) rfl
  | str s => exact hleaf (.str s) rfl

end Json

end Preaction.Py
