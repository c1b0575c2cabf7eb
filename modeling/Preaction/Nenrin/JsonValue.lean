import Preaction.Nenrin.Records
import Preaction.Py.Value

/-!
# Canonical bytes are values

`canonical` writes the same bytes for two values exactly when they are one JSON
value, numbers by value and objects as maps. That the bytes determine the value
is `same_of_tryCanonical`; the converse is an induction in which every number
left is an integer and every object is its map, in key order.
-/

namespace Preaction.Nenrin

open Preaction.Py Json

theorem value_canonLeaf {a : Json} (ha : isLeaf a = true) : value (canonLeaf a) = value a := by
  cases a with
  | float x =>
    cases hx : x.toInt? with
    | none => simp only [canonLeaf, hx]
    | some n => simp only [canonLeaf, hx, value, toRat?_of_toInt? hx]
  | arr xs => cases ha
  | obj kvs => cases ha
  | _ => rfl

theorem Same.value_eq {a b : Json} (h : Same a b) : value a = value b := by
  have hleaf : ∀ c, isLeaf c = true → value (canonLeaf c) = value c := fun _ => value_canonLeaf
  rw [← value_normWith hleaf a, h, value_normWith hleaf]

/-- A number that `canonical` prints is an integer. -/
theorem normWith_of_num {b : Json} {q : Rat} (hb : isCanonical (normWith canonLeaf b) = true)
    (h : value b = .num q) : ∃ n : Int, normWith canonLeaf b = .int n ∧ (n : Rat) = q := by
  cases b with
  | int n => exact ⟨n, rfl, Value.num.inj h⟩
  | float x =>
    cases hx : x.toInt? with
    | none =>
      rw [show normWith canonLeaf (.float x) = .float x by simp only [normWith, canonLeaf, hx]] at hb
      cases hb
    | some n =>
      refine ⟨n, by simp only [normWith, canonLeaf, hx], ?_⟩
      rw [value, toRat?_of_toInt? hx] at h
      exact Value.num.inj h
  | _ => cases h

theorem areCanonical_mem {xs : List Json} (h : areCanonical xs = true) {x : Json} (hx : x ∈ xs) :
    isCanonical x = true := by
  induction xs with
  | nil => cases hx
  | cons y ys ih =>
    rw [areCanonical, Bool.and_eq_true] at h
    rcases List.mem_cons.mp hx with rfl | hx
    · exact h.1
    · exact ih h.2 hx

theorem areCanonicalKvs_mem {kvs : List (Str × Json)} (h : areCanonicalKvs kvs = true)
    {kv : Str × Json} (hkv : kv ∈ kvs) : isCanonical kv.2 = true := by
  induction kvs with
  | nil => cases hkv
  | cons c kvs ih =>
    rw [areCanonicalKvs, Bool.and_eq_true, Bool.and_eq_true] at h
    rcases List.mem_cons.mp hkv with rfl | hkv
    · exact h.1.2
    · exact ih h.2 hkv

/-- The elements of an array that is printed are printed. -/
theorem isCanonical_elem {xs : List Json} (h : isCanonical (normWith canonLeaf (.arr xs)) = true)
    {x : Json} (hx : x ∈ xs) : isCanonical (normWith canonLeaf x) = true := by
  rw [normWith, isCanonical, normList_eq_map] at h
  exact areCanonical_mem h (List.mem_map_of_mem hx)

/-- The values of an object that is printed are printed. -/
theorem isCanonical_member {kvs : List (Str × Json)}
    (h : isCanonical (normWith canonLeaf (.obj kvs)) = true) {k : Str} {v : Json}
    (hv : kvs.lookup k = some v) : isCanonical (normWith canonLeaf v) = true := by
  rw [normWith, isCanonical] at h
  have hmem : (k, normWith canonLeaf v) ∈ sortKvs (normKvs canonLeaf kvs) := by
    apply mem_of_lookup
    rw [lookup_sortKvs, lookup_normKvs, hv, Option.map_some]
  exact areCanonicalKvs_mem h hmem

/-- Two numbers of one value are printed alike. -/
theorem same_of_num {a b : Json} (ha : isCanonical (normWith canonLeaf a) = true)
    (hb : isCanonical (normWith canonLeaf b) = true) {q : Rat} (hva : value a = .num q)
    (hvb : value b = .num q) : Same a b := by
  obtain ⟨m, hm, rfl⟩ := normWith_of_num ha hva
  obtain ⟨n, hn, hq⟩ := normWith_of_num hb hvb
  have hmn : n = m := by exact_mod_cast hq
  rw [Same, hm, hn, hmn]

/-- A double stands for a number or for itself. -/
theorem value_float (x : PyFloat) :
    (∃ q, value (.float x) = .num q) ∨ value (.float x) = .notNum x := by
  cases hx : x.toRat? with
  | none => exact Or.inr (by simp only [value, hx])
  | some q => exact Or.inl ⟨q, by simp only [value, hx]⟩

/-- Arrays of one value, element by element. -/
theorem map_normWith_of_values {xs ys : List Json}
    (ih : ∀ x ∈ xs, ∀ y ∈ ys, value x = value y → Same x y) (h : values xs = values ys) :
    xs.map (normWith canonLeaf) = ys.map (normWith canonLeaf) := by
  induction xs generalizing ys with
  | nil =>
    cases ys with
    | nil => rfl
    | cons y ys => cases h
  | cons x xs ihxs =>
    cases ys with
    | nil => cases h
    | cons y ys =>
      obtain ⟨hx, hxs⟩ := List.cons.inj h
      have hhead : Same x y := ih x (List.mem_cons_self ..) y (List.mem_cons_self ..) hx
      rw [List.map_cons, List.map_cons, hhead]
      congr 1
      refine ihxs (fun z hz w hw => ?_) hxs
      exact ih z (List.mem_cons_of_mem _ hz) w (List.mem_cons_of_mem _ hw)

/-- Values that are printed and are one value are the same to `canonical`. -/
theorem same_of_value_eq {a b : Json} (ha : isCanonical (normWith canonLeaf a) = true)
    (hb : isCanonical (normWith canonLeaf b) = true) (h : value a = value b) : Same a b := by
  -- a double on the right is a number, and is none of the other values
  have hfloat {x : PyFloat} {v : Value} (hv : v = value (.float x)) :
      (∃ q, v = .num q) ∨ v = .notNum x := hv ▸ value_float x
  induction a generalizing b with
  | null =>
    cases b with
    | null => rfl
    | float x => rcases hfloat h with ⟨q, hq⟩ | hq <;> cases hq
    | _ => cases h
  | bool c =>
    cases b with
    | bool d =>
      obtain rfl := Value.bool.inj h
      rfl
    | float x => rcases hfloat h with ⟨q, hq⟩ | hq <;> cases hq
    | _ => cases h
  | int n => exact same_of_num ha hb rfl h.symm
  | float x =>
    rcases value_float x with hx | hx
    · obtain ⟨q, hq⟩ := hx
      exact same_of_num ha hb hq (h.symm.trans hq)
    · cases b with
      | float y =>
        rcases value_float y with hy | hy
        · obtain ⟨q, hq⟩ := hy
          exact same_of_num ha hb (h.trans hq) hq
        · rw [hx, hy] at h
          rw [Value.notNum.inj h]
          rfl
      | _ =>
        rw [hx] at h
        cases h
  | str s =>
    cases b with
    | str t =>
      obtain rfl := Value.str.inj h
      rfl
    | float x => rcases hfloat h with ⟨q, hq⟩ | hq <;> cases hq
    | _ => cases h
  | arr xs ih =>
    cases b with
    | arr ys =>
      rw [Same, normWith, normWith, normList_eq_map, normList_eq_map,
        map_normWith_of_values (fun x hx y hy hxy => ?_) (Value.arr.inj h)]
      exact ih x hx (isCanonical_elem ha hx) (isCanonical_elem hb hy) hxy
    | float x => rcases hfloat h with ⟨q, hq⟩ | hq <;> cases hq
    | _ => cases h
  | obj kvs ih =>
    cases b with
    | obj kvs' =>
      rw [Same, normWith, normWith]
      congr 1
      refine sortKvs_congr fun k => ?_
      have hk := congrFun (Value.obj.inj h) k
      rw [members_eq_lookup, members_eq_lookup] at hk
      rw [lookup_normKvs, lookup_normKvs]
      cases hv : kvs.lookup k with
      | none =>
        rw [hv, Option.map_none, eq_comm, Option.map_eq_none_iff] at hk
        rw [hk]
      | some v =>
        rw [hv, Option.map_some, eq_comm, Option.map_eq_some_iff] at hk
        obtain ⟨w, hw, hval⟩ := hk
        rw [hw]
        exact congrArg some (ih (k, v) (mem_of_lookup hv) (isCanonical_member ha hv)
          (isCanonical_member hb hw) hval.symm)
    | float x => rcases hfloat h with ⟨q, hq⟩ | hq <;> cases hq
    | _ => cases h

theorem isCanonical_of_tryCanonical {a : Json} {c : Bytes} (h : tryCanonical a = some c) :
    isCanonical (normWith canonLeaf a) = true := by
  unfold tryCanonical at h
  dsimp only at h
  split at h
  next hc => exact hc
  next => cases h

theorem tryCanonical_eq_iff {a b : Json} {c d : Bytes} (ha : tryCanonical a = some c)
    (hb : tryCanonical b = some d) : c = d ↔ value a = value b := by
  constructor
  · intro h
    rw [← h] at hb
    exact (same_of_tryCanonical ha hb).value_eq
  · intro h
    have hsame := same_of_value_eq (isCanonical_of_tryCanonical ha) (isCanonical_of_tryCanonical hb) h
    exact Option.some.inj (ha.symm.trans (hsame.tryCanonical_eq.trans hb))

/-- Canonical bytes are equal exactly for equal values, and two actions are equal exactly
when they are not falsy, can be written canonically and are one value. -/
theorem canonical_eq_iff :
    (∀ (a b : Json) (c d : Bytes), tryCanonical a = some c → tryCanonical b = some d →
      (c = d ↔ value a = value b)) ∧
    ∀ x y : Option Json, actionsEqual x y = true ↔ ∃ a b, x = some a ∧ y = some b ∧
      falsyAction x = false ∧ falsyAction y = false ∧ (tryCanonical a).isSome = true ∧
      (tryCanonical b).isSome = true ∧ value a = value b := by
  refine ⟨fun a b c d => tryCanonical_eq_iff, fun x y => ?_⟩
  unfold actionsEqual
  constructor
  · intro h
    split at h
    next => cases h
    next hfalsy =>
      rw [Bool.not_eq_true, Bool.or_eq_false_iff] at hfalsy
      rw [Bool.and_eq_true, beq_iff_eq] at h
      obtain ⟨hsome, heq⟩ := h
      obtain ⟨c, hc⟩ := Option.isSome_iff_exists.mp hsome
      obtain ⟨a, hx, ha⟩ := Option.bind_eq_some_iff.mp hc
      obtain ⟨b, hy, hb⟩ := Option.bind_eq_some_iff.mp (heq.symm.trans hc)
      exact ⟨a, b, hx, hy, hfalsy.1, hfalsy.2, by rw [ha]; rfl, by rw [hb]; rfl,
        (tryCanonical_eq_iff ha hb).mp rfl⟩
  · intro h
    obtain ⟨a, b, rfl, rfl, hfa, hfb, ha, hb, hval⟩ := h
    obtain ⟨c, hc⟩ := Option.isSome_iff_exists.mp ha
    obtain ⟨d, hd⟩ := Option.isSome_iff_exists.mp hb
    rw [if_neg (by rw [hfa, hfb]; decide), Option.bind_some, Option.bind_some, hc, hd,
      (tryCanonical_eq_iff hc hd).mpr hval]
    simp

/-- An action, and the same in another order and with a double. -/
def sampleAction : Json := object [("op", text "pay"), ("amount", .int 1)]

def sampleAction' : Json := object [("amount", .float (.fin false 1023 0)), ("op", text "pay")]

theorem sampleActions_equal : value sampleAction = value sampleAction' ∧
    actionsEqual (some sampleAction) (some sampleAction') = true := by
  have hsome : (tryCanonical sampleAction).isSome = true := by decide +kernel
  have hsame : tryCanonical sampleAction' = tryCanonical sampleAction := by decide +kernel
  obtain ⟨c, hc⟩ := Option.isSome_iff_exists.mp hsome
  have hval := (canonical_eq_iff.1 _ _ c c hc (hsame.trans hc)).mp rfl
  exact ⟨hval, (canonical_eq_iff.2 _ _).mpr ⟨_, _, rfl, rfl, rfl, rfl, hsome,
    hsame ▸ hsome, hval⟩⟩

end Preaction.Nenrin
