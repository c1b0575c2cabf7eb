import Mathlib.Data.Rat.Defs
import Preaction.Py.Text

/-!
# JSON values as Python holds them

`json.loads` gives `None`, `bool`, `int`, `float`, `str`, `list` and
`dict`; `Json` is that type. The checkers treat a `dict` as a finite map
and never look at its insertion order, so an object is a list of bindings
in which the *first* binding of a key counts: every list denotes a map, and
no side condition on keys is needed anywhere.

Three things live here because every checker uses them:
- the accesses `d.get(k)`, `d[k]`, `x[i]`, iteration and truthiness, with the
  exception Python raises when the value has another type;
- Python's `==` on such values (`pyEq`): `True == 1 == 1.0`, objects compared
  as maps, `nan` unequal to everything;
- `normWith`, the common normal form: keys sorted, shadowed bindings gone,
  each leaf rewritten by a given function. Canonical printing and `==` are
  both stated through it.

A double is its IEEE 754 fields, so every value of `PyFloat` is one that
Python can hold; payloads of NaN are not told apart.
-/

namespace Preaction.Py

/-- A Python `float`: sign, biased exponent and fraction of a binary64. -/
inductive PyFloat
  | nan
  | inf (neg : Bool)
  | fin (neg : Bool) (exp : Fin 2047) (frac : Fin 4503599627370496)
  deriving DecidableEq, Repr

namespace PyFloat

instance neZeroExp : NeZero 2047 := ⟨by decide⟩

instance neZeroFrac : NeZero 4503599627370496 := ⟨by decide⟩

/-- The significand of a finite double as an integer. -/
def significand (exp : Fin 2047) (frac : Fin 4503599627370496) : Nat :=
  if exp.val = 0 then frac.val else 4503599627370496 + frac.val

/-- The power of two that scales the significand, offset by 1075. -/
def scale (exp : Fin 2047) : Nat := if exp.val = 0 then 1 else exp.val

/-- The integer a finite double is, when it is one (`x == int(x)`). -/
def toInt? : PyFloat → Option Int
  | .nan => none
  | .inf _ => none
  | .fin neg exp frac =>
    let m := significand exp frac
    let e := scale exp
    let signed (n : Nat) : Int := if neg then -(n : Int) else n
    if 1075 ≤ e then some (signed (m * 2 ^ (e - 1075)))
    else if m % 2 ^ (1075 - e) = 0 then some (signed (m / 2 ^ (1075 - e)))
    else none

/-- The exact value of a finite double. -/
def toRat? : PyFloat → Option Rat
  | .nan => none
  | .inf _ => none
  | .fin neg exp frac =>
    let m := significand exp frac
    let e := scale exp
    let q : Rat := if 1075 ≤ e then m * 2 ^ (e - 1075) else mkRat m (2 ^ (1075 - e))
    some (if neg then -q else q)

/-- `x == 0`. -/
def isZero (x : PyFloat) : Bool := x.toInt? == some 0

end PyFloat

/-- A JSON value as `json.loads` returns it. -/
inductive Json
  | null
  | bool (b : Bool)
  | int (n : Int)
  | float (x : PyFloat)
  | str (s : Str)
  | arr (xs : List Json)
  | obj (kvs : List (Str × Json))

namespace Json

/-- Induction over a value: the elements of a list and the values of an
object's bindings are smaller. -/
@[elab_as_elim, induction_eliminator]
theorem induct {P : Json → Prop} (null : P .null) (bool : ∀ b, P (.bool b))
    (int : ∀ n, P (.int n)) (float : ∀ x, P (.float x)) (str : ∀ s, P (.str s))
    (arr : ∀ xs, (∀ x ∈ xs, P x) → P (.arr xs))
    (obj : ∀ kvs, (∀ kv ∈ kvs, P kv.2) → P (.obj kvs)) (j : Json) : P j :=
  @Json.rec P (fun xs => ∀ x ∈ xs, P x) (fun kvs => ∀ kv ∈ kvs, P kv.2) (fun kv => P kv.2)
    null bool int float str arr obj
    (fun _ h => absurd h (by simp))
    (fun _ _ hx hxs _ h => (List.mem_cons.mp h).elim (fun e => e ▸ hx) (hxs _))
    (fun _ h => absurd h (by simp))
    (fun _ _ hx hxs _ h => (List.mem_cons.mp h).elim (fun e => e ▸ hx) (hxs _))
    (fun _ _ h => h) j

/-! ## Decidable equality of the representation -/

mutual
/-- Structural equality, the decision procedure behind `DecidableEq Json`. -/
def beq : Json → Json → Bool
  | .null, .null => true
  | .bool a, .bool b => a == b
  | .int a, .int b => a == b
  | .float a, .float b => a == b
  | .str a, .str b => a == b
  | .arr a, .arr b => beqList a b
  | .obj a, .obj b => beqKvs a b
  | _, _ => false

def beqList : List Json → List Json → Bool
  | [], [] => true
  | x :: xs, y :: ys => beq x y && beqList xs ys
  | _, _ => false

def beqKvs : List (Str × Json) → List (Str × Json) → Bool
  | [], [] => true
  | (k, x) :: xs, (l, y) :: ys => k == l && beq x y && beqKvs xs ys
  | _, _ => false
end

theorem beq_iff (a b : Json) : beq a b = true ↔ a = b := by
  induction a generalizing b with
  | null => cases b <;> simp [beq]
  | bool x => cases b <;> simp [beq]
  | int x => cases b <;> simp [beq]
  | float x => cases b <;> simp [beq]
  | str x => cases b <;> simp [beq]
  | arr xs ih =>
    cases b with
    | arr ys =>
      simp only [beq, arr.injEq]
      induction xs generalizing ys with
      | nil => cases ys <;> simp [beqList]
      | cons x xs ihxs =>
        cases ys with
        | nil => simp [beqList]
        | cons y ys =>
          simp only [beqList, Bool.and_eq_true, List.cons.injEq]
          rw [ih x (List.mem_cons_self ..), ihxs (fun z hz => ih z (List.mem_cons_of_mem _ hz))]
    | _ => simp [beq]
  | obj xs ih =>
    cases b with
    | obj ys =>
      simp only [beq, obj.injEq]
      induction xs generalizing ys with
      | nil => cases ys <;> simp [beqKvs]
      | cons x xs ihxs =>
        cases ys with
        | nil => simp [beqKvs]
        | cons y ys =>
          obtain ⟨k, x⟩ := x
          obtain ⟨l, y⟩ := y
          simp only [beqKvs, Bool.and_eq_true, beq_iff_eq, List.cons.injEq, Prod.mk.injEq]
          rw [ih (k, x) (List.mem_cons_self ..),
            ihxs (fun z hz => ih z (List.mem_cons_of_mem _ hz))]
    | _ => simp [beq]

instance : DecidableEq Json := fun a b => decidable_of_iff _ (beq_iff a b)

end Json

/-! ## Objects as maps -/

/-- Python's `<` on `str`: lexicographic by code point. -/
def strLt : Str → Str → Bool
  | _, [] => false
  | [], _ :: _ => true
  | c :: cs, d :: ds => decide (c < d) || (c == d && strLt cs ds)

/-- Put a binding into a list of bindings kept in key order, in front of any
binding of the same key. -/
def insertKey {α : Type} (k : Str) (v : α) : List (Str × α) → List (Str × α)
  | [] => [(k, v)]
  | (l, w) :: rest =>
    if k = l then (k, v) :: rest
    else if strLt k l then (k, v) :: (l, w) :: rest
    else (l, w) :: insertKey k v rest

/-- The bindings of a dict in key order, one for each key: the first. -/
def sortKvs {α : Type} : List (Str × α) → List (Str × α)
  | [] => []
  | (k, v) :: rest => insertKey k v (sortKvs rest)

theorem lookup_cons_if {α : Type} (j k : Str) (v : α) (l : List (Str × α)) :
    ((k, v) :: l).lookup j = if j = k then some v else l.lookup j := by
  rw [List.lookup_cons]
  by_cases h : j = k
  · rw [if_pos h, beq_iff_eq.mpr h]
  · rw [if_neg h, beq_eq_false_iff_ne.mpr h]

/-- In dicts with the same keys, and related values under them, a key is in both or in none. -/
theorem lookup_forall₂ {α β : Type} {P : α → β → Prop} {kvs : List (Str × α)}
    {kws : List (Str × β)} (h : List.Forall₂ (fun kv kw => kv.1 = kw.1 ∧ P kv.2 kw.2) kvs kws)
    (k : Str) : (kvs.lookup k = none ∧ kws.lookup k = none) ∨
      ∃ v w, kvs.lookup k = some v ∧ kws.lookup k = some w ∧ P v w := by
  induction h with
  | nil => exact Or.inl ⟨rfl, rfl⟩
  | @cons kv kw kvs kws hentry _ ih =>
    obtain ⟨l, v⟩ := kv
    obtain ⟨m, w⟩ := kw
    obtain ⟨rfl, hP⟩ := hentry
    rw [lookup_cons_if, lookup_cons_if]
    by_cases hk : k = l
    · rw [if_pos hk, if_pos hk]
      exact Or.inr ⟨v, w, rfl, rfl, hP⟩
    · rw [if_neg hk, if_neg hk]
      exact ih

theorem lookup_insertKey {α : Type} (j k : Str) (v : α) (l : List (Str × α)) :
    (insertKey k v l).lookup j = if j = k then some v else l.lookup j := by
  induction l with
  | nil => exact lookup_cons_if j k v []
  | cons kv rest ih =>
    obtain ⟨l, w⟩ := kv
    simp only [insertKey]
    split
    next hkl =>
      subst hkl
      simp only [lookup_cons_if]
      split <;> rfl
    next hkl =>
      split
      next => simp only [lookup_cons_if]
      next =>
        simp only [lookup_cons_if, ih]
        by_cases hj : j = k
        · subst hj
          rw [if_neg hkl, if_pos rfl, if_pos rfl]
        · rw [if_neg hj, if_neg hj]

/-- Sorting the bindings of a dict does not change what it maps a key to. -/
@[simp] theorem lookup_sortKvs {α : Type} (j : Str) (l : List (Str × α)) :
    (sortKvs l).lookup j = l.lookup j := by
  induction l with
  | nil => rfl
  | cons kv rest ih => rw [sortKvs, lookup_insertKey, ih, ← lookup_cons_if]

/-- The bindings whose key a test keeps. -/
theorem lookup_filter {α : Type} (p : Str → Bool) (k : Str) (l : List (Str × α)) :
    (l.filter fun kv => p kv.1).lookup k = if p k then l.lookup k else none := by
  induction l with
  | nil => simp
  | cons kv rest ih =>
    obtain ⟨m, v⟩ := kv
    rw [List.filter_cons, lookup_cons_if]
    by_cases hkm : k = m
    · subst hkm
      by_cases hp : p k = true
      · rw [if_pos hp, if_pos hp, lookup_cons_if, if_pos rfl, if_pos rfl]
      · rw [if_neg hp, if_neg hp, ih, if_neg hp]
    · rw [if_neg hkm]
      split
      · rw [lookup_cons_if, if_neg hkm, ih]
      · exact ih

theorem mem_of_mem_insertKey {α : Type} {k : Str} {v : α} {l : List (Str × α)} {b : Str × α}
    (h : b ∈ insertKey k v l) : b = (k, v) ∨ b ∈ l := by
  induction l with
  | nil => exact Or.inl (List.mem_singleton.mp h)
  | cons c rest ih =>
    obtain ⟨m, w⟩ := c
    simp only [insertKey] at h
    split at h
    next => exact (List.mem_cons.mp h).imp_right (List.mem_cons_of_mem _)
    split at h
    next => exact List.mem_cons.mp h
    next =>
      rcases List.mem_cons.mp h with rfl | h
      · exact Or.inr (List.mem_cons_self ..)
      · exact (ih h).imp_right (List.mem_cons_of_mem _)

theorem mem_of_mem_sortKvs {α : Type} {l : List (Str × α)} {b : Str × α}
    (h : b ∈ sortKvs l) : b ∈ l := by
  induction l with
  | nil => exact h
  | cons c rest ih =>
    rcases mem_of_mem_insertKey h with rfl | h
    · exact List.mem_cons_self ..
    · exact List.mem_cons_of_mem _ (ih h)

/-- `d[k] = v` on the bindings of a dict: in place, or at the end. -/
def setKey {α : Type} (k : Str) (v : α) : List (Str × α) → List (Str × α)
  | [] => [(k, v)]
  | (l, w) :: rest => if k = l then (k, v) :: rest else (l, w) :: setKey k v rest

theorem lookup_setKey {α : Type} (j k : Str) (v : α) (l : List (Str × α)) :
    (setKey k v l).lookup j = if j = k then some v else l.lookup j := by
  induction l with
  | nil => rw [setKey, lookup_cons_if]
  | cons c rest ih =>
    obtain ⟨m, w⟩ := c
    rw [setKey]
    split
    next hkm =>
      rw [lookup_cons_if, lookup_cons_if, ← hkm]
      split <;> rfl
    next hkm =>
      rw [lookup_cons_if, lookup_cons_if, ih]
      by_cases hjm : j = m
      · have hjk : j ≠ k := fun hjk => hkm (hjk.symm.trans hjm)
        rw [if_pos hjm, if_neg hjk, if_pos hjm]
      · rw [if_neg hjm, if_neg hjm]

theorem mem_of_mem_setKey {α : Type} {k : Str} {v : α} {l : List (Str × α)} {b : Str × α}
    (h : b ∈ setKey k v l) : b = (k, v) ∨ b ∈ l := by
  induction l with
  | nil => exact Or.inl (List.mem_singleton.mp h)
  | cons c rest ih =>
    obtain ⟨m, w⟩ := c
    simp only [setKey] at h
    split at h
    next => exact (List.mem_cons.mp h).imp_right (List.mem_cons_of_mem _)
    next =>
      rcases List.mem_cons.mp h with rfl | h
      · exact Or.inr (List.mem_cons_self ..)
      · exact (ih h).imp_right (List.mem_cons_of_mem _)

theorem mem_of_lookup {α : Type} {k : Str} {v : α} {l : List (Str × α)}
    (h : l.lookup k = some v) : (k, v) ∈ l := by
  induction l with
  | nil => cases h
  | cons c rest ih =>
    obtain ⟨m, w⟩ := c
    rw [lookup_cons_if] at h
    split at h
    next hk =>
      rw [hk, Option.some.inj h]
      exact List.mem_cons_self ..
    next => exact List.mem_cons_of_mem _ (ih h)

/-- In a list that binds each key once, what a key is bound to does not depend on the order. -/
theorem lookup_eq_some_iff {α : Type} {l : List (Str × α)} (hl : (l.map (·.1)).Nodup) {k : Str}
    {v : α} : l.lookup k = some v ↔ (k, v) ∈ l := by
  constructor
  · exact mem_of_lookup
  · intro hmem
    induction l with
    | nil => cases hmem
    | cons b rest ih =>
      obtain ⟨m, w⟩ := b
      obtain ⟨hm, hrest⟩ := List.nodup_cons.mp hl
      rw [lookup_cons_if]
      rcases List.mem_cons.mp hmem with heq | hmem
      · rw [(Prod.mk.inj heq).1, (Prod.mk.inj heq).2, if_pos rfl]
      · rw [if_neg, ih hrest hmem]
        intro hkm
        exact hm (List.mem_map.mpr ⟨(k, v), hmem, hkm⟩)

theorem strLt_irrefl (s : Str) : strLt s s = false := by
  induction s with
  | nil => rfl
  | cons c cs ih => simp [strLt, ih]

theorem strLt_trans {s t u : Str} (hst : strLt s t = true) (htu : strLt t u = true) :
    strLt s u = true := by
  induction s generalizing t u with
  | nil =>
    cases t with
    | nil => cases hst
    | cons d ds => cases u with
      | nil => cases htu
      | cons e es => rfl
  | cons c cs ih =>
    cases t with
    | nil => cases hst
    | cons d ds => cases u with
      | nil => cases htu
      | cons e es =>
        simp only [strLt, Bool.or_eq_true, decide_eq_true_eq, Bool.and_eq_true,
          beq_iff_eq] at hst htu ⊢
        rcases hst with h1 | ⟨rfl, h1⟩
        · rcases htu with h2 | ⟨rfl, _⟩
          · exact Or.inl (Fin.lt_trans h1 h2)
          · exact Or.inl h1
        · rcases htu with h2 | ⟨rfl, h2⟩
          · exact Or.inl h2
          · exact Or.inr ⟨rfl, ih h1 h2⟩

theorem strLt_total {s t : Str} (hne : s ≠ t) (hst : strLt s t = false) : strLt t s = true := by
  induction s generalizing t with
  | nil => cases t with
    | nil => exact absurd rfl hne
    | cons d ds => cases hst
  | cons c cs ih => cases t with
    | nil => rfl
    | cons d ds =>
      simp only [strLt, Bool.or_eq_false_iff, decide_eq_false_iff_not, Bool.and_eq_false_imp,
        beq_iff_eq, Bool.or_eq_true, decide_eq_true_eq, Bool.and_eq_true] at hst ⊢
      rcases Nat.lt_or_eq_of_le (Nat.le_of_not_lt hst.1) with h | h
      · exact Or.inl h
      · obtain rfl := Fin.ext h
        exact Or.inr ⟨rfl, ih (fun he => hne (by rw [he])) (hst.2 rfl)⟩

/-- Strictly increasing keys. -/
def KeySorted {α : Type} (l : List (Str × α)) : Prop :=
  l.Pairwise fun a b => strLt a.1 b.1 = true

theorem insertKey_keySorted {α : Type} {k : Str} {v : α} {l : List (Str × α)}
    (h : KeySorted l) : KeySorted (insertKey k v l) := by
  induction l with
  | nil => exact List.pairwise_singleton _ _
  | cons kv rest ih =>
    obtain ⟨l, w⟩ := kv
    obtain ⟨hl, hrest⟩ := List.pairwise_cons.mp h
    simp only [insertKey]
    split
    next hkl => subst hkl; exact List.pairwise_cons.mpr ⟨hl, hrest⟩
    next hkl =>
      split
      next hlt =>
        refine List.pairwise_cons.mpr ⟨fun b hb => ?_, h⟩
        rcases List.mem_cons.mp hb with rfl | hb
        · exact hlt
        · exact strLt_trans hlt (hl b hb)
      next hlt =>
        refine List.pairwise_cons.mpr ⟨fun b hb => ?_, ih hrest⟩
        have hlk : strLt l k = true := strLt_total hkl (by simpa using hlt)
        have hmem : b = (k, v) ∨ b ∈ rest := by
          clear ih hl hrest h hlk hlt
          induction rest with
          | nil => exact Or.inl (by simpa [insertKey] using hb)
          | cons c rest ihr =>
            obtain ⟨m, x⟩ := c
            simp only [insertKey] at hb
            split at hb
            next => exact (List.mem_cons.mp hb).imp_right (List.mem_cons_of_mem _)
            next =>
              split at hb
              next => exact List.mem_cons.mp hb
              next =>
                rcases List.mem_cons.mp hb with rfl | hb
                · exact Or.inr (List.mem_cons_self ..)
                · exact (ihr hb).imp_right (List.mem_cons_of_mem _)
        rcases hmem with rfl | hb
        · exact hlk
        · exact hl b hb

theorem sortKvs_keySorted {α : Type} (l : List (Str × α)) : KeySorted (sortKvs l) := by
  induction l with
  | nil => exact List.Pairwise.nil
  | cons kv rest ih => exact insertKey_keySorted ih

/-- In a list of strictly increasing keys, a key below the head is unbound. -/
theorem lookup_eq_none_of_lt {α : Type} {k : Str} {l : List (Str × α)}
    (h : ∀ b ∈ l, strLt k b.1 = true) : l.lookup k = none := by
  induction l with
  | nil => rfl
  | cons b rest ih =>
    obtain ⟨m, x⟩ := b
    rw [lookup_cons_if, if_neg, ih (fun c hc => h c (List.mem_cons_of_mem _ hc))]
    rintro rfl
    have := h (k, x) (List.mem_cons_self ..)
    rw [strLt_irrefl] at this
    cases this

/-- Two key-sorted lists that bind each key alike are the same list. -/
theorem KeySorted.ext {α : Type} {a b : List (Str × α)} (ha : KeySorted a) (hb : KeySorted b)
    (h : ∀ k, a.lookup k = b.lookup k) : a = b := by
  induction a generalizing b with
  | nil =>
    cases b with
    | nil => rfl
    | cons y ys =>
      have := h y.1
      rw [lookup_cons_if, if_pos rfl] at this
      cases this
  | cons x xs ih =>
    obtain ⟨k, v⟩ := x
    obtain ⟨hx, hxs⟩ := List.pairwise_cons.mp ha
    cases b with
    | nil =>
      have := h k
      rw [lookup_cons_if, if_pos rfl] at this
      cases this
    | cons y ys =>
      obtain ⟨l, w⟩ := y
      obtain ⟨hy, hys⟩ := List.pairwise_cons.mp hb
      -- the smallest key of either list is bound in the other, so the heads agree
      have hkl : k = l := by
        by_contra hne
        rcases Bool.eq_false_or_eq_true (strLt k l) with hlt | hlt
        · have hk := h k
          rw [lookup_cons_if, if_pos rfl, lookup_cons_if, if_neg hne,
            lookup_eq_none_of_lt fun c hc => strLt_trans hlt (hy c hc)] at hk
          cases hk
        · have hl := h l
          rw [lookup_cons_if, if_neg (Ne.symm hne), lookup_cons_if, if_pos rfl,
            lookup_eq_none_of_lt fun c hc => strLt_trans (strLt_total hne hlt) (hx c hc)] at hl
          cases hl
      subst hkl
      have hv : v = w := by
        have := h k
        rwa [lookup_cons_if, if_pos rfl, lookup_cons_if, if_pos rfl, Option.some.injEq] at this
      subst hv
      rw [ih hxs hys fun j => ?_]
      have hj := h j
      rw [lookup_cons_if, lookup_cons_if] at hj
      by_cases hjk : j = k
      · subst hjk
        rw [lookup_eq_none_of_lt hx, lookup_eq_none_of_lt hy]
      · rwa [if_neg hjk, if_neg hjk] at hj

/-- The sorted bindings depend on the map alone. -/
theorem sortKvs_congr {α : Type} {a b : List (Str × α)} (h : ∀ k, a.lookup k = b.lookup k) :
    sortKvs a = sortKvs b :=
  (sortKvs_keySorted a).ext (sortKvs_keySorted b) fun k => by
    rw [lookup_sortKvs, lookup_sortKvs, h]

namespace Json

/-! ## The normal form -/

mutual
/-- Keys sorted and shadowed bindings gone at every level, `leaf` applied to
every scalar. -/
def normWith (leaf : Json → Json) : Json → Json
  | .arr xs => .arr (normList leaf xs)
  | .obj kvs => .obj (sortKvs (normKvs leaf kvs))
  | j => leaf j

def normList (leaf : Json → Json) : List Json → List Json
  | [] => []
  | x :: xs => normWith leaf x :: normList leaf xs

def normKvs (leaf : Json → Json) : List (Str × Json) → List (Str × Json)
  | [] => []
  | (k, x) :: xs => (k, normWith leaf x) :: normKvs leaf xs
end

theorem normList_eq_map (leaf : Json → Json) (xs : List Json) :
    normList leaf xs = xs.map (normWith leaf) := by
  induction xs with
  | nil => rfl
  | cons x xs ih => rw [normList, ih, List.map_cons]

theorem normKvs_eq_map (leaf : Json → Json) (kvs : List (Str × Json)) :
    normKvs leaf kvs = kvs.map fun kv => (kv.1, normWith leaf kv.2) := by
  induction kvs with
  | nil => rfl
  | cons kv kvs ih => rw [normKvs, ih, List.map_cons]

theorem lookup_normKvs (leaf : Json → Json) (k : Str) (kvs : List (Str × Json)) :
    (normKvs leaf kvs).lookup k = (kvs.lookup k).map (normWith leaf) := by
  induction kvs with
  | nil => rfl
  | cons kv kvs ih =>
    obtain ⟨l, v⟩ := kv
    rw [normKvs, lookup_cons_if, lookup_cons_if, ih]
    split <;> rfl

/-- Equal normal forms of two objects: each key is bound to equal normal
forms, or in neither. -/
theorem lookup_of_normWith_obj_eq {leaf : Json → Json} {a b : List (Str × Json)}
    (h : normWith leaf (.obj a) = normWith leaf (.obj b)) (k : Str) :
    (a.lookup k).map (normWith leaf) = (b.lookup k).map (normWith leaf) := by
  simp only [normWith, obj.injEq] at h
  rw [← lookup_normKvs, ← lookup_normKvs, ← lookup_sortKvs k (normKvs leaf a), h, lookup_sortKvs]

/-- Neither a list nor a dict. -/
def isLeaf : Json → Bool
  | .arr _ => false
  | .obj _ => false
  | _ => true

/-- The normal form of a normal form: keys are sorted already, and each leaf is
rewritten twice. -/
theorem normWith_normWith {f g h : Json → Json}
    (hleaf : ∀ a, isLeaf a = true → normWith g (f a) = h a) (a : Json) :
    normWith g (normWith f a) = normWith h a := by
  induction a with
  | arr xs ih =>
    simp only [normWith, normList_eq_map, arr.injEq, List.map_map]
    exact List.map_congr_left fun x hx => ih x hx
  | obj kvs ih =>
    simp only [normWith, obj.injEq]
    refine sortKvs_congr fun k => ?_
    rw [lookup_normKvs, lookup_sortKvs, lookup_normKvs, lookup_normKvs, Option.map_map]
    refine Option.map_congr fun v hv => ?_
    exact ih (k, v) (mem_of_lookup hv)
  | null => exact hleaf .null rfl
  | bool b => exact hleaf (.bool b) rfl
  | int n => exact hleaf (.int n) rfl
  | float x => exact hleaf (.float x) rfl
  | str s => exact hleaf (.str s) rfl

/-- One value, but for the order of the keys in its objects. -/
def SameValue (a b : Json) : Prop := normWith id a = normWith id b

/-- The normal form without a leaf function says all about any other. -/
theorem normWith_normWith_id (leaf : Json → Json) (a : Json) :
    normWith leaf (normWith id a) = normWith leaf a := by
  refine normWith_normWith (fun a ha => ?_) a
  cases a <;> first | rfl | cases ha

theorem SameValue.normWith {a b : Json} (h : SameValue a b) (leaf : Json → Json) :
    normWith leaf a = normWith leaf b := by
  rw [← normWith_normWith_id leaf a, h, normWith_normWith_id]

/-! ## Python's `==` -/

/-- The number a scalar is under Python's `==`: `True` is `1`, an integral
`float` is that integer. -/
def pyLeaf : Json → Json
  | .bool b => .int (if b then 1 else 0)
  | .float x => match x.toInt? with
    | some n => .int n
    | none => .float x
  | j => j

/-- How a container compares two elements: identical or `==`. All the `nan`s
that `json` reads are one object, so below the top level they are equal. -/
def pySame (a b : Json) : Bool := normWith pyLeaf a == normWith pyLeaf b

/-- `a == b`. -/
def pyEq (a b : Json) : Bool := pySame a b && a != .float .nan

/-- `a in xs` -/
def pyIn (a : Json) (xs : List Json) : Bool := xs.any (pySame a)

/-- `a == b` where either side can be a sentinel that equals only itself. -/
def pyEq? : Option Json → Option Json → Bool
  | none, none => true
  | some a, some b => pyEq a b
  | _, _ => false

theorem pySame_iff {a b : Json} : pySame a b = true ↔ normWith pyLeaf a = normWith pyLeaf b :=
  beq_iff_eq

theorem pySame_refl (a : Json) : pySame a a = true := pySame_iff.mpr rfl

theorem SameValue.pySame {a b : Json} (h : SameValue a b) : pySame a b = true :=
  pySame_iff.mpr (h.normWith pyLeaf)

theorem pySame_symm {a b : Json} (h : pySame a b = true) : pySame b a = true :=
  pySame_iff.mpr (pySame_iff.mp h).symm

theorem pySame_trans {a b c : Json} (hab : pySame a b = true) (hbc : pySame b c = true) :
    pySame a c = true :=
  pySame_iff.mpr ((pySame_iff.mp hab).trans (pySame_iff.mp hbc))

theorem pySame_of_pyEq {a b : Json} (h : pyEq a b = true) : pySame a b = true :=
  (Bool.and_eq_true _ _ ▸ h).1

theorem pySame_str (a : Json) (s : Str) : pySame a (.str s) = true ↔ a = .str s := by
  cases a with
  | float x => cases hx : x.toInt? <;> simp [pySame, normWith, pyLeaf, hx]
  | _ => simp [pySame, normWith, pyLeaf]

theorem pyEq_str (a : Json) (s : Str) : pyEq a (.str s) = true ↔ a = .str s := by
  rw [pyEq, Bool.and_eq_true, pySame_str]
  refine ⟨And.left, fun h => ⟨h, ?_⟩⟩
  rw [h]
  rfl

theorem pySame_null (a : Json) : pySame a .null = true ↔ a = .null := by
  cases a with
  | float x => cases hx : x.toInt? <;> simp [pySame, normWith, pyLeaf, hx]
  | _ => simp [pySame, normWith, pyLeaf]

theorem pyEq_null (a : Json) : pyEq a .null = true ↔ a = .null := by
  cases a with
  | float x => cases hx : x.toInt? <;> simp [pyEq, pySame, normWith, pyLeaf, hx]
  | _ => simp [pyEq, pySame, normWith, pyLeaf]

theorem pySame_int (a : Json) (n : Int) : pySame a (.int n) = true ↔ pyLeaf a = .int n := by
  cases a with
  | float x => cases hx : x.toInt? <;> simp [pySame, normWith, pyLeaf, hx]
  | _ => simp [pySame, normWith, pyLeaf]

/-- What `==` to an integer says: the number is that integer. -/
theorem pyEq_int (a : Json) (n : Int) : pyEq a (.int n) = true ↔ pyLeaf a = .int n := by
  cases a with
  | float x =>
    cases hx : x.toInt? with
    | none => simp [pyEq, pySame, normWith, pyLeaf, hx]
    | some m =>
      have : x ≠ .nan := by rintro rfl; cases hx
      simp [pyEq, pySame, normWith, pyLeaf, hx, this]
  | _ => simp [pyEq, pySame, normWith, pyLeaf]

/-! ## Python's `<` and `>=` -/

/-- The number of a numeric value; none for any other. -/
inductive Num
  | nan
  | inf (neg : Bool)
  | rat (q : Rat)

def num? : Json → Option Num
  | .bool b => some (.rat (if b then 1 else 0))
  | .int n => some (.rat n)
  | .float x => match x.toInt?, x with
    | some n, _ => some (.rat n)
    | none, .inf neg => some (.inf neg)
    | none, x => match x.toRat? with
      | some q => some (.rat q)
      | none => some .nan
  | _ => none

def Num.lt : Num → Num → Bool
  | .nan, _ => false
  | _, .nan => false
  | .inf a, .inf b => a && !b
  | .inf a, .rat _ => a
  | .rat _, .inf b => !b
  | .rat p, .rat q => p < q

mutual
/-- `a < b`. -/
def pyLt : Json → Json → Except PyError Bool
  | .str s, .str t => .ok (strLt s t)
  | .arr xs, .arr ys => pyLtList xs ys
  | a, b => match num? a, num? b with
    | some m, some n => .ok (m.lt n)
    | _, _ => .error .typeError

/-- `xs < ys` of two lists: decided at the first element that differs. -/
def pyLtList : List Json → List Json → Except PyError Bool
  | _, [] => .ok false
  | [], _ :: _ => .ok true
  | x :: xs, y :: ys => if pySame x y then pyLtList xs ys else pyLt x y
end

def Num.ge : Num → Num → Bool
  | .nan, _ => false
  | _, .nan => false
  | m, n => !m.lt n

mutual
/-- `a >= b`. -/
def pyGe : Json → Json → Except PyError Bool
  | .str s, .str t => .ok (!strLt s t)
  | .arr xs, .arr ys => pyGeList xs ys
  | a, b => match num? a, num? b with
    | some m, some n => .ok (m.ge n)
    | _, _ => .error .typeError

/-- `xs >= ys` of two lists. -/
def pyGeList : List Json → List Json → Except PyError Bool
  | _, [] => .ok true
  | [], _ :: _ => .ok false
  | x :: xs, y :: ys => if pySame x y then pyGeList xs ys else pyGe x y
end

/-- `min(xs)`: the first of the least elements. -/
def pyMin : List Json → Except PyError Json
  | [] => .error .valueError
  | x :: xs => xs.foldlM (fun m y => do return if ← pyLt y m then y else m) x

/-- A number is its own normal form. -/
theorem normWith_of_pyLeaf {a : Json} {n : Int} (h : pyLeaf a = .int n) : normWith id a = a := by
  cases a with
  | arr xs => cases h
  | obj kvs => cases h
  | _ => rfl

theorem num?_of_pyLeaf {a : Json} {n : Int} (h : pyLeaf a = .int n) : num? a = some (.rat n) := by
  cases a with
  | bool b => cases b <;> cases h <;> rfl
  | int m => cases h; rfl
  | float x =>
    cases hx : x.toInt? with
    | none => simp [pyLeaf, hx] at h
    | some m =>
      simp only [pyLeaf, hx, int.injEq] at h
      simp [num?, hx, h]
  | _ => cases h

/-- On integral values `<` is the order of the integers. -/
theorem pyLt_int {a b : Json} {m n : Int} (ha : pyLeaf a = .int m) (hb : pyLeaf b = .int n) :
    pyLt a b = .ok (decide (m < n)) := by
  have hlt : Num.lt (.rat m) (.rat n) = decide (m < n) := by
    simp only [Num.lt, Rat.intCast_lt_intCast]
  have hna := num?_of_pyLeaf ha
  have hnb := num?_of_pyLeaf hb
  cases a with
  | str s => cases ha
  | arr xs => cases ha
  | _ => simp only [pyLt, hna, hnb, hlt]

theorem foldlM_pyMin {xs : List Json} (hint : ∀ x ∈ xs, ∃ n, pyLeaf x = .int n) {m : Json}
    {n : Int} (hm : pyLeaf m = .int n) :
    ∃ m' n', xs.foldlM (fun m y => do return if ← pyLt y m then y else m) m
        = (.ok m' : Except PyError Json) ∧
      (m' = m ∨ m' ∈ xs) ∧ pyLeaf m' = .int n' ∧ n' ≤ n ∧
      ∀ x ∈ xs, ∀ k, pyLeaf x = .int k → n' ≤ k := by
  induction xs generalizing m n with
  | nil => exact ⟨m, n, rfl, Or.inl rfl, hm, le_refl n, nofun⟩
  | cons y ys ih =>
    obtain ⟨⟨k, hk⟩, hys⟩ := List.forall_mem_cons.mp hint
    have hstep : pyLeaf (if k < n then y else m) = .int (min k n) := by
      by_cases hlt : k < n
      · rw [if_pos hlt, hk, min_eq_left hlt.le]
      · rw [if_neg hlt, hm, min_eq_right (not_lt.mp hlt)]
    obtain ⟨m', n', hfold, hmem, hm', hle, hall⟩ := ih hys hstep
    refine ⟨m', n', ?_, ?_, hm', hle.trans (min_le_right k n), ?_⟩
    · rw [List.foldlM_cons, pyLt_int hk hm]
      change ys.foldlM _ (if decide (k < n) = true then y else m) = _
      rw [← hfold]
      simp only [decide_eq_true_eq]
    · rcases hmem with rfl | hmem
      · split
        · exact Or.inr (List.mem_cons_self ..)
        · exact Or.inl rfl
      · exact Or.inr (List.mem_cons_of_mem _ hmem)
    · intro x hx j hj
      rcases List.mem_cons.mp hx with rfl | hx
      · rw [hk, int.injEq] at hj
        exact hj ▸ hle.trans (min_le_left k n)
      · exact hall x hx j hj

/-- `min` of a list of integral values is one of them and not above any. -/
theorem pyMin_spec {xs : List Json} (hint : ∀ x ∈ xs, ∃ n, pyLeaf x = .int n) (hne : xs ≠ []) :
    ∃ m n, pyMin xs = .ok m ∧ m ∈ xs ∧ pyLeaf m = .int n ∧
      ∀ x ∈ xs, ∀ k, pyLeaf x = .int k → n ≤ k := by
  cases xs with
  | nil => exact absurd rfl hne
  | cons x xs =>
    obtain ⟨⟨k, hk⟩, hxs⟩ := List.forall_mem_cons.mp hint
    obtain ⟨m, n, hfold, hmem, hm, hle, hall⟩ := foldlM_pyMin hxs hk
    refine ⟨m, n, hfold, List.mem_cons.mpr hmem, hm, fun y hy j hj => ?_⟩
    rcases List.mem_cons.mp hy with rfl | hy
    · rw [hk, int.injEq] at hj
      exact hj ▸ hle
    · exact hall y hy j hj

/-- One step of a stable insertion sort: behind every element not greater. -/
def pyInsert (x : Json) : List Json → Except PyError (List Json)
  | [] => .ok [x]
  | y :: ys => do
    if ← pyLt x y then return x :: y :: ys
    return y :: (← pyInsert x ys)

/-- `sorted(xs)`; an error where two elements cannot be ordered. -/
def pySorted (xs : List Json) : Except PyError (List Json) :=
  xs.foldlM (fun l x => pyInsert x l) []

/-- `hash(x)`: the elements of a set and the keys of a dict. -/
def hashable : Json → Except PyError Unit
  | .arr _ => .error .typeError
  | .obj _ => .error .typeError
  | _ => .ok ()

/-! ## Access -/

/-- `d.get(k)`, with `none` for an absent key. -/
def get? (k : Str) : Json → Except PyError (Option Json)
  | .obj kvs => .ok (kvs.lookup k)
  | _ => .error .attributeError

/-- `d.get(k)` of what is known to be a dict. -/
def find (d : Json) (k : Str) : Json :=
  match d with
  | .obj kvs => (kvs.lookup k).getD .null
  | _ => .null

/-- A member of two objects that are one value. -/
theorem SameValue.find {a b : Json} (h : SameValue a b) (k : Str) :
    SameValue (a.find k) (b.find k) := by
  cases a with
  | obj kvs =>
    cases b with
    | obj kvs' =>
      have hk := lookup_of_normWith_obj_eq h k
      change SameValue ((kvs.lookup k).getD .null) ((kvs'.lookup k).getD .null)
      cases ha : kvs.lookup k with
      | none =>
        rw [ha, Option.map_none, eq_comm, Option.map_eq_none_iff] at hk
        rw [hk]
        rfl
      | some v =>
        rw [ha, Option.map_some, eq_comm, Option.map_eq_some_iff] at hk
        obtain ⟨w, hw, hvw⟩ := hk
        rw [hw]
        exact hvw.symm
    | _ => cases h
  | _ =>
    cases b with
    | obj kvs' => cases h
    | _ => rfl

/-- Only an object equals an object. -/
theorem obj_of_pySame {a : Json} {kvs : List (Str × Json)} (h : pySame a (.obj kvs) = true) :
    ∃ kvs', a = .obj kvs' := by
  have hsame := pySame_iff.mp h
  cases a with
  | obj kvs' => exact ⟨kvs', rfl⟩
  | float x => cases hx : x.toInt? <;> simp [normWith, pyLeaf, hx] at hsame
  | _ => cases hsame

/-- A member of two equal objects. -/
theorem pySame_find {a b : Json} (h : pySame a b = true) (k : Str) :
    pySame (a.find k) (b.find k) = true := by
  cases b with
  | obj kvs =>
    obtain ⟨kvs', rfl⟩ := obj_of_pySame h
    have hk := lookup_of_normWith_obj_eq (pySame_iff.mp h) k
    change pySame ((kvs'.lookup k).getD .null) ((kvs.lookup k).getD .null) = true
    cases hv : kvs'.lookup k with
    | none =>
      rw [hv, Option.map_none, eq_comm, Option.map_eq_none_iff] at hk
      rw [hk]
      exact pySame_refl _
    | some v =>
      rw [hv, Option.map_some, eq_comm, Option.map_eq_some_iff] at hk
      obtain ⟨w, hw, hvw⟩ := hk
      rw [hw]
      exact pySame_iff.mpr hvw.symm
  | _ =>
    cases a with
    | obj kvs' =>
      obtain ⟨_, hobj⟩ := obj_of_pySame (pySame_symm h)
      cases hobj
    | _ => exact pySame_refl _

/-- Two lists are equal when their elements are. -/
theorem pySame_arr {xs ys : List Json} (h : List.Forall₂ (fun x y => pySame x y = true) xs ys) :
    pySame (.arr xs) (.arr ys) = true := by
  rw [pySame_iff, normWith, normWith, normList_eq_map, normList_eq_map]
  congr 1
  induction h with
  | nil => rfl
  | cons hxy _ ih => rw [List.map_cons, List.map_cons, pySame_iff.mp hxy, ih]

/-- `d.get(k, default)`. -/
def getD (d : Json) (k : Str) (default : Json) : Except PyError Json :=
  (get? k d).map (·.getD default)

/-- `d.get(k)`. -/
def get (d : Json) (k : Str) : Except PyError Json := d.getD k .null

/-- `d[k]` for a string `k`. -/
def item (d : Json) (k : Str) : Except PyError Json :=
  match d with
  | .obj kvs => match kvs.lookup k with
    | some v => .ok v
    | none => .error .keyError
  | _ => .error .typeError

theorem get_eq_find {d v : Json} {k : Str} (h : d.get k = .ok v) : v = d.find k := by
  cases d with
  | obj kvs => exact (Except.ok.inj h).symm
  | _ => cases h

theorem item_eq_find {d v : Json} {k : Str} (h : d.item k = .ok v) : v = d.find k := by
  cases d with
  | obj kvs =>
    simp only [item] at h
    split at h
    next w hw =>
      rw [find, hw]
      exact (Except.ok.inj h).symm
    next => cases h
  | _ => cases h

theorem get_of_item {d v : Json} {k : Str} (h : d.item k = .ok v) : d.get k = .ok v := by
  have hfind := item_eq_find h
  cases d with
  | obj kvs => exact congrArg Except.ok hfind.symm
  | _ => cases h

/-- A member that is found and is not null is there. -/
theorem lookup_of_find {kvs : List (Str × Json)} {k : Str} {v : Json}
    (h : find (.obj kvs) k = v) (hv : v ≠ .null) : kvs.lookup k = some v := by
  rw [find] at h
  cases hlookup : kvs.lookup k with
  | some w =>
    rw [hlookup] at h
    exact congrArg some h
  | none =>
    rw [hlookup] at h
    exact absurd h.symm hv

theorem item_of_find {d v : Json} {k : Str} (h : d.find k = v) (hv : v ≠ .null) :
    d.item k = .ok v := by
  cases d with
  | obj kvs => rw [item, lookup_of_find h hv]
  | _ => exact absurd h.symm hv

theorem getD_of_find {d v : Json} {k : Str} (h : d.find k = v) (hv : v ≠ .null) (default : Json) :
    d.getD k default = .ok v := by
  cases d with
  | obj kvs =>
    rw [Json.getD, get?, lookup_of_find h hv]
    rfl
  | _ => exact absurd h.symm hv

/-- An item of two objects that are one value. -/
theorem SameValue.item {a b v : Json} (h : SameValue a b) {k : Str} (hv : a.item k = .ok v) :
    ∃ w, b.item k = .ok w ∧ SameValue v w := by
  cases a with
  | obj kvs =>
    cases b with
    | obj kvs' =>
      have hk := lookup_of_normWith_obj_eq h k
      simp only [Json.item] at hv ⊢
      split at hv
      next w hw =>
        obtain rfl := Except.ok.inj hv
        rw [hw, Option.map_some, eq_comm, Option.map_eq_some_iff] at hk
        obtain ⟨u, hu, hwu⟩ := hk
        rw [hu]
        exact ⟨u, rfl, hwu.symm⟩
      next => cases hv
    | _ => cases h
  | _ => cases hv

/-- `x[i]` for a non-negative integer `i`. -/
def nth (x : Json) (i : Nat) : Except PyError Json :=
  match x with
  | .arr xs => match xs[i]? with
    | some v => .ok v
    | none => .error .indexError
  | .str s => match s[i]? with
    | some c => .ok (.str [c])
    | none => .error .indexError
  | .obj _ => .error .keyError
  | _ => .error .typeError

/-- `for y in x`. -/
def iter : Json → Except PyError (List Json)
  | .arr xs => .ok xs
  | .str s => .ok (s.map fun c => .str [c])
  | .obj kvs => .ok ((kvs.map (·.1)).eraseDups.map .str)
  | _ => .error .typeError

/-- `bool(x)`. -/
def truthy : Json → Bool
  | .null => false
  | .bool b => b
  | .int n => n != 0
  | .float x => !x.isZero
  | .str s => !s.isEmpty
  | .arr xs => !xs.isEmpty
  | .obj kvs => !kvs.isEmpty

theorem sortKvs_isEmpty {α : Type} (l : List (Str × α)) : (sortKvs l).isEmpty = l.isEmpty := by
  cases l with
  | nil => rfl
  | cons kv l =>
    obtain ⟨k, v⟩ := kv
    rw [sortKvs]
    cases sortKvs l with
    | nil => rfl
    | cons lw rest =>
      obtain ⟨l, w⟩ := lw
      rw [insertKey]
      split
      · rfl
      · split <;> rfl

/-- Equal values are both true or both false. -/
theorem truthy_of_pySame {a b : Json} (h : pySame a b = true) : a.truthy = b.truthy := by
  have hnorm (x : Json) : (normWith pyLeaf x).truthy = x.truthy := by
    cases x with
    | bool b => cases b <;> rfl
    | float x => cases hx : x.toInt? <;> simp [normWith, pyLeaf, truthy, PyFloat.isZero, hx, bne]
    | arr xs => cases xs <;> rfl
    | obj kvs =>
      rw [normWith, truthy, truthy, sortKvs_isEmpty]
      cases kvs <;> rfl
    | _ => rfl
  rw [← hnorm a, pySame_iff.mp h, hnorm]

/-- `x or y`. -/
def orElse (x y : Json) : Json := if x.truthy then x else y

def isStr : Json → Bool
  | .str _ => true
  | _ => false

def isObj : Json → Bool
  | .obj _ => true
  | _ => false

/-- A dict can be asked for a key, and nothing else can. -/
theorem get_of_dict {d : Json} (h : d.isObj = true) (k : Str) : d.get k = .ok (d.find k) := by
  cases d with
  | obj kvs => rfl
  | _ => cases h

theorem get_of_not_dict {d : Json} (h : d.isObj = false) (k : Str) :
    d.get k = .error .attributeError := by
  cases d with
  | obj kvs => cases h
  | _ => rfl

theorem exists_of_isStr {x : Json} (h : x.isStr = true) : ∃ s, x = .str s := by
  cases x with
  | str s => exact ⟨s, rfl⟩
  | _ => cases h

end Json
end Preaction.Py
