import Mathlib.Algebra.Group.Nat.Defs
import Preaction.Lib.Merkle

/-!
# Merkle trees that split at a power of two

The recursive root `mth` splits a list at the largest power of two below its
length; `auditPath` collects the roots beside a leaf, from the leaf up. The
level loop that promotes an odd last value computes the same root
(`root_eq_mth`), and the siblings it meets on the way are the same path
(`levelPath_eq_auditPath`).

Both rest on one induction. A list that is cut after `2 ^ m` values, with at
most as many after the cut, is cut the same way one level up (`split_induction`),
so a fact about a cut list needs two cases: two single values, and one level.

Nothing here depends on what a hash is: `node` joins two values.
-/

namespace Preaction.Merkle

variable {β I : Type}

/-! ## The split -/

/-- `k` doubled as long as the double lies below `n`. -/
def doubleBelow (n k : Nat) : Nat :=
  if 0 < k ∧ k * 2 < n then doubleBelow n (k * 2) else k
termination_by n - k

/-- The largest power of two below `n`. -/
def split (n : Nat) : Nat := doubleBelow n 1

theorem doubleBelow_spec {n k : Nat} (hk : k < n) (hpow : ∃ j, k = 2 ^ j) :
    ∃ m, doubleBelow n k = 2 ^ m ∧ 2 ^ m < n ∧ n ≤ 2 ^ m + 2 ^ m := by
  fun_induction doubleBelow n k with
  | case1 k h ih =>
    obtain ⟨j, rfl⟩ := hpow
    exact ih h.2 ⟨j + 1, by rw [Nat.pow_succ]⟩
  | case2 k h =>
    obtain ⟨j, rfl⟩ := hpow
    have hpos : 0 < 2 ^ j := Nat.two_pow_pos j
    exact ⟨j, rfl, hk, by omega⟩

/-- The split is a power of two, below the length and at least half of it. -/
theorem split_spec {n : Nat} (h : 1 < n) :
    ∃ m, split n = 2 ^ m ∧ 2 ^ m < n ∧ n ≤ 2 ^ m + 2 ^ m :=
  doubleBelow_spec h ⟨0, rfl⟩

theorem split_lt {n : Nat} (h : 1 < n) : split n < n := by
  obtain ⟨m, hm, hlt, -⟩ := split_spec h
  omega

theorem split_pos {n : Nat} (h : 1 < n) : 0 < split n := by
  obtain ⟨m, hm, -, -⟩ := split_spec h
  have := Nat.two_pow_pos m
  omega

/-! ## The recursive root and path -/

variable (node : β → β → β)

/-- The recursive root; none over the empty list. -/
def mth (xs : List β) : Option β :=
  if h : 1 < xs.length then do
    let left ← mth (xs.take (split xs.length))
    let right ← mth (xs.drop (split xs.length))
    return node left right
  else xs.head?
termination_by xs.length
decreasing_by
  · rw [List.length_take]
    have := split_lt h
    omega
  · rw [List.length_drop]
    have := split_pos h
    omega

/-- The roots beside the value at `i`, from the leaf up. -/
def auditPath (xs : List β) (i : Nat) : List β :=
  if h : 1 < xs.length then
    if i < split xs.length then
      auditPath (xs.take (split xs.length)) i ++ (mth node (xs.drop (split xs.length))).toList
    else
      auditPath (xs.drop (split xs.length)) (i - split xs.length) ++
        (mth node (xs.take (split xs.length))).toList
  else []
termination_by xs.length
decreasing_by
  · rw [List.length_take]
    have := split_lt h
    omega
  · rw [List.length_drop]
    have := split_pos h
    omega

/-- Everything that is joined on the way to the recursive root, as `input` writes it. -/
def mthInputs (input : β → β → I) (xs : List β) : List I :=
  if h : 1 < xs.length then
    (do return input (← mth node (xs.take (split xs.length)))
          (← mth node (xs.drop (split xs.length)))).toList ++
      (mthInputs input (xs.take (split xs.length)) ++ mthInputs input (xs.drop (split xs.length)))
  else []
termination_by xs.length
decreasing_by
  · rw [List.length_take]
    have := split_lt h
    omega
  · rw [List.length_drop]
    have := split_pos h
    omega

/-! ## The same level by level -/

/-- The value beside the one at `i`; none beside an odd last one. -/
def sibling (xs : List β) (i : Nat) : Option β := if i % 2 = 1 then xs[i - 1]? else xs[i + 1]?

theorem levelUp_length_lt {xs : List β} (h : 1 < xs.length) :
    (levelUp node id xs).length < xs.length := by
  rw [levelUp_length]
  omega

/-- The siblings that the level loop meets above the value at `i`. -/
def levelPath (xs : List β) (i : Nat) : List β :=
  if h : 1 < xs.length then
    (sibling xs i).toList ++ levelPath (levelUp node id xs) (i / 2)
  else []
termination_by xs.length
decreasing_by exact levelUp_length_lt node h

/-- What is joined on one level. -/
def levelInputs (input : β → β → I) : List β → List I
  | x :: y :: xs => input x y :: levelInputs input xs
  | _ => []

/-- What the level loop joins. -/
def climbInputs (input : β → β → I) (xs : List β) : List I :=
  if h : 1 < xs.length then
    levelInputs input xs ++ climbInputs input (levelUp node id xs)
  else []
termination_by xs.length
decreasing_by exact levelUp_length_lt node h

/-! ## One level of a cut list -/

variable {node}

theorem levelUp_append {odd : β → β} {xs ys : List β} (h : xs.length % 2 = 0) :
    levelUp node odd (xs ++ ys) = levelUp node odd xs ++ levelUp node odd ys := by
  induction xs using levelUp.induct with
  | case1 x y xs ih =>
    simp only [List.length_cons] at h
    simp only [List.cons_append, levelUp, ih (by omega)]
  | case2 x => simp at h
  | case3 => rfl

variable (node) in
/-- A list that is cut after a power of two, with at most as many values after the
cut, is cut the same way one level up. -/
theorem split_induction {P : List β → List β → Prop} (one : ∀ x y, P [x] [y])
    (up : ∀ xs ys, xs.length % 2 = 0 → 0 < xs.length → 0 < ys.length →
      P (levelUp node id xs) (levelUp node id ys) → P xs ys)
    {m : Nat} {xs ys : List β} (hxs : xs.length = 2 ^ m) (hys : 0 < ys.length)
    (hle : ys.length ≤ 2 ^ m) : P xs ys := by
  induction m generalizing xs ys with
  | zero =>
    obtain ⟨x, rfl⟩ := List.length_eq_one_iff.mp hxs
    obtain ⟨y, rfl⟩ := List.length_eq_one_iff.mp (by omega : ys.length = 1)
    exact one x y
  | succ m ih =>
    rw [Nat.pow_succ] at hxs hle
    have hpos : 0 < 2 ^ m := Nat.two_pow_pos m
    refine up xs ys (by omega) (by omega) hys (ih ?_ ?_ ?_)
    · rw [levelUp_length]
      omega
    · rw [levelUp_length]
      omega
    · rw [levelUp_length]
      omega

/-- The loop ends the same with any fuel that covers the list. -/
theorem climb_fuel {odd : β → β} {fuel fuel' : Nat} {xs : List β} (h : xs.length ≤ fuel)
    (h' : xs.length ≤ fuel') : climb node odd fuel xs = climb node odd fuel' xs := by
  induction fuel generalizing fuel' xs with
  | zero =>
    cases fuel' with
    | zero => rfl
    | succ fuel' =>
      rw [climb, climb, if_neg (by omega)]
  | succ fuel ih =>
    cases fuel' with
    | zero => rw [climb, climb, if_neg (by omega)]
    | succ fuel' =>
      rw [climb, climb]
      by_cases hlong : 1 < xs.length
      · rw [if_pos hlong, if_pos hlong]
        have hup := levelUp_length node odd xs
        exact ih (by omega) (by omega)
      · rw [if_neg hlong, if_neg hlong]

/-- One level up, the root is the same. -/
theorem root_levelUp {xs : List β} : root node id (levelUp node id xs) = root node id xs := by
  by_cases h : 1 < xs.length
  · have hup := levelUp_length node id xs
    unfold root
    rw [climb_fuel (Nat.le_refl _) (show (levelUp node id xs).length ≤ xs.length - 1 by omega)]
    rw [show xs.length = (xs.length - 1) + 1 by omega, climb, if_pos (by omega)]
    rfl
  · cases xs with
    | nil => rfl
    | cons x xs =>
      obtain rfl : xs = [] := by
        rw [List.length_cons] at h
        exact List.length_eq_zero_iff.mp (by omega)
      rfl

variable (node) in
/-- The root of a cut list joins the roots of its two parts. -/
theorem root_append {m : Nat} {xs ys : List β} (hxs : xs.length = 2 ^ m) (hys : 0 < ys.length)
    (hle : ys.length ≤ 2 ^ m) :
    root node id (xs ++ ys) = (do return node (← root node id xs) (← root node id ys)) := by
  refine split_induction node (P := fun xs ys => root node id (xs ++ ys) =
    (do return node (← root node id xs) (← root node id ys))) ?_ ?_ hxs hys hle
  · intro x y
    rfl
  · intro xs ys heven hpos hys ih
    rw [← levelUp_append heven, root_levelUp, root_levelUp, root_levelUp] at ih
    exact ih

/-- The level loop that promotes an odd last value computes the recursive root. -/
theorem root_eq_mth (xs : List β) : root node id xs = mth node xs := by
  fun_induction mth node xs with
  | case1 xs h ihl ihr =>
    obtain ⟨m, hm, hlt, hle⟩ := split_spec h
    have hcut := @root_append β node m (xs.take (split xs.length))
      (xs.drop (split xs.length)) (by rw [List.length_take]; omega)
      (by rw [List.length_drop]; omega) (by rw [List.length_drop]; omega)
    rw [List.take_append_drop, ihl, ihr] at hcut
    exact hcut
  | case2 xs h =>
    cases xs with
    | nil => rfl
    | cons x xs =>
      obtain rfl : xs = [] := by
        rw [List.length_cons] at h
        exact List.length_eq_zero_iff.mp (by omega)
      rfl

variable (node) in
/-- A non-empty list has a root. -/
theorem exists_mth {xs : List β} (h : xs ≠ []) : ∃ r, mth node xs = some r := by
  have hlen := climb_length node id (Nat.le_refl xs.length)
  have hpos : 0 < xs.length := List.length_pos_iff.mpr h
  rw [← root_eq_mth, root]
  cases hc : climb node id xs.length xs with
  | nil =>
    rw [hc, List.length_nil] at hlen
    omega
  | cons r rs => exact ⟨r, rfl⟩

/-! ## The path of a leaf -/

theorem sibling_append_left {xs ys : List β} (heven : xs.length % 2 = 0) {i : Nat}
    (hi : i < xs.length) : sibling (xs ++ ys) i = sibling xs i := by
  unfold sibling
  by_cases hodd : i % 2 = 1
  · rw [if_pos hodd, if_pos hodd, List.getElem?_append_left (by omega)]
  · rw [if_neg hodd, if_neg hodd, List.getElem?_append_left (by omega)]

theorem sibling_append_right {xs ys : List β} (heven : xs.length % 2 = 0) (j : Nat) :
    sibling (xs ++ ys) (xs.length + j) = sibling ys j := by
  unfold sibling
  by_cases hodd : j % 2 = 1
  · rw [if_pos hodd, if_pos (by omega), List.getElem?_append_right (by omega)]
    exact congrArg (ys[·]?) (by omega)
  · rw [if_neg hodd, if_neg (by omega), List.getElem?_append_right (by omega)]
    exact congrArg (ys[·]?) (by omega)

theorem levelPath_short {xs : List β} (h : ¬ 1 < xs.length) (i : Nat) :
    levelPath node xs i = [] := by
  rw [levelPath, dif_neg h]

variable (node) in
/-- One level of the path. -/
theorem levelPath_step {xs : List β} {i : Nat} (hi : i < xs.length) :
    levelPath node xs i =
      (sibling xs i).toList ++ levelPath node (levelUp node id xs) (i / 2) := by
  by_cases h : 1 < xs.length
  · rw [levelPath, dif_pos h]
  · obtain ⟨x, rfl⟩ := List.length_eq_one_iff.mp (by omega : xs.length = 1)
    obtain rfl : i = 0 := by
      rw [List.length_singleton] at hi
      omega
    rw [levelPath_short h, levelUp, id, levelPath_short h]
    rfl

variable (node) in
/-- The path of a value before the cut ends with the root after it. -/
theorem levelPath_append_left {m : Nat} {xs ys : List β} (hxs : xs.length = 2 ^ m)
    (hys : 0 < ys.length) (hle : ys.length ≤ 2 ^ m) {i : Nat} (hi : i < xs.length) :
    levelPath node (xs ++ ys) i = levelPath node xs i ++ (root node id ys).toList := by
  refine split_induction node (P := fun xs ys => ∀ i < xs.length,
    levelPath node (xs ++ ys) i = levelPath node xs i ++ (root node id ys).toList)
    ?_ ?_ hxs hys hle i hi
  · intro x y i hi
    obtain rfl : i = 0 := by
      rw [List.length_singleton] at hi
      omega
    have htwo : levelPath node (levelUp node id ([x] ++ [y])) (0 / 2) = [] :=
      levelPath_short (show ¬ 1 < [node x y].length by simp) 0
    rw [levelPath_step node (by simp), htwo, levelPath_short (by simp)]
    rfl
  · intro xs ys heven hpos hys ih i hi
    have hup := levelUp_length node id xs
    rw [levelPath_step node (by rw [List.length_append]; omega), levelPath_step node hi,
      sibling_append_left heven hi, levelUp_append heven, ih (i / 2) (by omega), root_levelUp,
      List.append_assoc]

variable (node) in
/-- The path of a value after the cut ends with the root before it. -/
theorem levelPath_append_right {m : Nat} {xs ys : List β} (hxs : xs.length = 2 ^ m)
    (hys : 0 < ys.length) (hle : ys.length ≤ 2 ^ m) {j : Nat} (hj : j < ys.length) :
    levelPath node (xs ++ ys) (xs.length + j) =
      levelPath node ys j ++ (root node id xs).toList := by
  refine split_induction node (P := fun xs ys => ∀ j < ys.length,
    levelPath node (xs ++ ys) (xs.length + j) = levelPath node ys j ++ (root node id xs).toList)
    ?_ ?_ hxs hys hle j hj
  · intro x y j hj
    obtain rfl : j = 0 := by
      rw [List.length_singleton] at hj
      omega
    have htwo : levelPath node (levelUp node id ([x] ++ [y])) (([x].length + 0) / 2) = [] :=
      levelPath_short (show ¬ 1 < [node x y].length by simp) _
    rw [levelPath_step node (by simp), htwo, levelPath_short (by simp)]
    rfl
  · intro xs ys heven hpos hys ih j hj
    have hup := levelUp_length node id xs
    have hup' := levelUp_length node id ys
    rw [levelPath_step node (by rw [List.length_append]; omega), levelPath_step node hj,
      sibling_append_right heven, levelUp_append heven,
      show (xs.length + j) / 2 = (levelUp node id xs).length + j / 2 by omega,
      ih (j / 2) (by omega), root_levelUp, List.append_assoc]

/-- The siblings that the level loop meets are the recursive path. -/
theorem levelPath_eq_auditPath {xs : List β} {i : Nat} (hi : i < xs.length) :
    levelPath node xs i = auditPath node xs i := by
  fun_induction auditPath node xs i with
  | case1 xs i h hlt ih =>
    obtain ⟨m, hm, hm', hle⟩ := split_spec h
    have htake : (xs.take (split xs.length)).length = 2 ^ m := by rw [List.length_take]; omega
    have hdrop := List.length_drop (i := split xs.length) (l := xs)
    have hcut := @levelPath_append_left β node m _ (xs.drop (split xs.length)) htake
      (by omega) (by omega) i (by omega)
    rw [List.take_append_drop, ih (by omega), root_eq_mth] at hcut
    exact hcut
  | case2 xs i h hge ih =>
    obtain ⟨m, hm, hm', hle⟩ := split_spec h
    have htake : (xs.take (split xs.length)).length = 2 ^ m := by rw [List.length_take]; omega
    have hdrop := List.length_drop (i := split xs.length) (l := xs)
    have hcut := @levelPath_append_right β node m _ (xs.drop (split xs.length)) htake
      (by omega) (by omega) (i - split xs.length) (by omega)
    rw [List.take_append_drop, ih (by omega), root_eq_mth, htake,
      show 2 ^ m + (i - split xs.length) = i by omega] at hcut
    exact hcut
  | case3 xs i h => exact levelPath_short h i

/-! ## What is joined -/

theorem levelInputs_append {input : β → β → I} {xs ys : List β} (h : xs.length % 2 = 0) :
    levelInputs input (xs ++ ys) = levelInputs input xs ++ levelInputs input ys := by
  induction xs using levelUp.induct with
  | case1 x y xs ih =>
    simp only [List.length_cons] at h
    simp only [List.cons_append, levelInputs, ih (by omega)]
  | case2 x => simp at h
  | case3 => rfl

theorem climbInputs_short {input : β → β → I} {xs : List β} (h : ¬ 1 < xs.length) :
    climbInputs node input xs = [] := by
  rw [climbInputs, dif_neg h]

theorem climbInputs_step {input : β → β → I} {xs : List β} :
    climbInputs node input xs =
      levelInputs input xs ++ climbInputs node input (levelUp node id xs) := by
  by_cases h : 1 < xs.length
  · rw [climbInputs, dif_pos h]
  · have hup := levelUp_length node id xs
    rw [climbInputs_short h, climbInputs_short (by omega), List.append_nil]
    cases xs with
    | nil => rfl
    | cons x xs =>
      obtain rfl : xs = [] := by
        rw [List.length_cons] at h
        exact List.length_eq_zero_iff.mp (by omega)
      rfl

/-- A cut list joins what its parts join, and their two roots. -/
theorem mem_climbInputs_append {input : β → β → I} {m : Nat} {xs ys : List β}
    (hxs : xs.length = 2 ^ m) (hys : 0 < ys.length) (hle : ys.length ≤ 2 ^ m) {a : I} :
    a ∈ climbInputs node input (xs ++ ys) →
      a ∈ (do return input (← root node id xs) (← root node id ys)).toList ∨
        a ∈ climbInputs node input xs ∨ a ∈ climbInputs node input ys := by
  refine split_induction node (P := fun xs ys => a ∈ climbInputs node input (xs ++ ys) →
    a ∈ (do return input (← root node id xs) (← root node id ys)).toList ∨
      a ∈ climbInputs node input xs ∨ a ∈ climbInputs node input ys) ?_ ?_ hxs hys hle
  · intro x y h
    have htwo : climbInputs node input (levelUp node id ([x] ++ [y])) = [] :=
      climbInputs_short (show ¬ 1 < [node x y].length by simp)
    rw [climbInputs_step, htwo] at h
    exact Or.inl h
  · intro xs ys heven hpos hys ih h
    rw [climbInputs_step, levelInputs_append heven, levelUp_append heven] at h
    rw [root_levelUp, root_levelUp] at ih
    rw [@climbInputs_step β I node input xs, @climbInputs_step β I node input ys]
    simp only [List.mem_append] at h ⊢
    rcases h with (h | h) | h
    · exact Or.inr (Or.inl (Or.inl h))
    · exact Or.inr (Or.inr (Or.inl h))
    · rcases ih h with h | h | h
      · exact Or.inl h
      · exact Or.inr (Or.inl (Or.inr h))
      · exact Or.inr (Or.inr (Or.inr h))

/-- The level loop joins nothing that the recursion does not. -/
theorem mem_mthInputs_of_climb {input : β → β → I} {xs : List β} {a : I}
    (ha : a ∈ climbInputs node input xs) : a ∈ mthInputs node input xs := by
  fun_induction mthInputs node input xs with
  | case1 xs h ihl ihr =>
    obtain ⟨m, hm, hm', hle⟩ := split_spec h
    have htake : (xs.take (split xs.length)).length = 2 ^ m := by rw [List.length_take]; omega
    have hdrop := List.length_drop (i := split xs.length) (l := xs)
    rw [← List.take_append_drop (split xs.length) xs] at ha
    have hcut := mem_climbInputs_append htake (by omega) (by omega) ha
    rw [root_eq_mth, root_eq_mth] at hcut
    simp only [List.mem_append]
    exact hcut.imp_right (Or.imp ihl ihr)
  | case2 xs h =>
    rw [climbInputs_short h] at ha
    cases ha

/-! ## A value and the one above it -/

/-- `ys` is a level above `xs`: it has the same root, joins nothing else, and holds
values of `xs` and joined ones. -/
structure Above (node : β → β → β) (input : β → β → I) (xs ys : List β) : Prop where
  root_eq : root node id ys = root node id xs
  inputs : ∀ a ∈ climbInputs node input ys, a ∈ climbInputs node input xs
  made : ∀ y ∈ ys, y ∈ xs ∨ ∃ l r, y = node l r

theorem Above.trans {input : β → β → I} {xs ys zs : List β} (h : Above node input xs ys)
    (h' : Above node input ys zs) : Above node input xs zs where
  root_eq := h'.root_eq.trans h.root_eq
  inputs a ha := h.inputs a (h'.inputs a ha)
  made z hz := by
    rcases h'.made z hz with hy | hy
    · exact h.made z hy
    · exact Or.inr hy

variable (node) in
theorem above_levelUp (input : β → β → I) (xs : List β) :
    Above node input xs (levelUp node id xs) where
  root_eq := root_levelUp
  inputs a ha := by
    rw [climbInputs_step]
    exact List.mem_append_right _ ha
  made y hy := by
    induction xs using levelUp.induct with
    | case1 x x' xs ih =>
      rcases List.mem_cons.mp hy with rfl | hy
      · exact Or.inr ⟨x, x', rfl⟩
      · rcases ih hy with h | h
        · exact Or.inl (List.mem_cons_of_mem _ (List.mem_cons_of_mem _ h))
        · exact Or.inr h
    | case2 x => exact Or.inl hy
    | case3 => exact Or.inl hy

variable (node) in
/-- Two neighbours are joined. -/
theorem levelUp_pair (input : β → β → I) {odd : β → β} {xs : List β} {i : Nat}
    (h : 2 * i + 1 < xs.length) :
    (levelUp node odd xs)[i]? = some (node xs[2 * i] xs[2 * i + 1]) ∧
      input xs[2 * i] xs[2 * i + 1] ∈ levelInputs input xs := by
  induction xs using levelUp.induct generalizing i with
  | case1 x y xs ih =>
    cases i with
    | zero => exact ⟨rfl, List.mem_cons_self ..⟩
    | succ i =>
      simp only [List.length_cons] at h
      obtain ⟨hget, hmem⟩ := ih (i := i) (by omega)
      exact ⟨hget, List.mem_cons_of_mem _ hmem⟩
  | case2 x => simp at h
  | case3 => simp at h

variable (node) in
/-- An odd last value is promoted. -/
theorem levelUp_last {xs : List β} {i : Nat} (h : 2 * i + 1 = xs.length) :
    (levelUp node id xs)[i]? = xs[2 * i]? := by
  induction xs using levelUp.induct generalizing i with
  | case1 x y xs ih =>
    cases i with
    | zero => simp at h
    | succ i =>
      simp only [List.length_cons] at h
      exact ih (by omega)
  | case2 x =>
    obtain rfl : i = 0 := by
      rw [List.length_singleton] at h
      omega
    rfl
  | case3 => simp at h

/-- What one step up from the value at `i` meets: its sibling, and the two joined
in the order of their places. -/
structure Joined (node : β → β → β) (input : β → β → I) (xs : List β) (i : Nat) (ys : List β)
    (x s : β) : Prop where
  value : xs[i]? = some x
  above : Above node input xs ys
  path : levelPath node xs i = s :: levelPath node ys (i / 2)
  sibling : s ∈ xs
  joined : ys[i / 2]? = some (if i % 2 = 1 then node s x else node x s)
  input : (if i % 2 = 1 then input s x else input x s) ∈ climbInputs node input xs

variable (node) in
/-- A value that is no odd last one is joined with its sibling. -/
theorem exists_joined (input : β → β → I) {xs : List β} {i : Nat} (hi : i < xs.length)
    (hlast : i % 2 = 1 ∨ i + 1 < xs.length) :
    ∃ x s, Joined node input xs i (levelUp node id xs) x s := by
  have hpath := levelPath_step node hi
  have hmem (a : I) (ha : a ∈ levelInputs input xs) : a ∈ climbInputs node input xs := by
    rw [climbInputs_step]
    exact List.mem_append_left _ ha
  by_cases hodd : i % 2 = 1
  · have hpair : 2 * (i / 2) + 1 < xs.length := by omega
    obtain ⟨hget, hin⟩ := @levelUp_pair β I node input id _ _ hpair
    simp only [show 2 * (i / 2) = i - 1 by omega, show i - 1 + 1 = i by omega] at hget hin
    refine ⟨xs[i], xs[i - 1], ⟨List.getElem?_eq_getElem hi, above_levelUp node input xs, ?_,
      List.getElem_mem _, ?_, ?_⟩⟩
    · rw [hpath, sibling, if_pos hodd, List.getElem?_eq_getElem (by omega)]
      rfl
    · rw [if_pos hodd, hget]
    · rw [if_pos hodd]
      exact hmem _ hin
  · have hnext : i + 1 < xs.length := by omega
    have hpair : 2 * (i / 2) + 1 < xs.length := by omega
    obtain ⟨hget, hin⟩ := @levelUp_pair β I node input id _ _ hpair
    simp only [show 2 * (i / 2) = i by omega] at hget hin
    refine ⟨xs[i], xs[i + 1], ⟨List.getElem?_eq_getElem hi, above_levelUp node input xs, ?_,
      List.getElem_mem _, ?_, ?_⟩⟩
    · rw [hpath, sibling, if_neg hodd, List.getElem?_eq_getElem hnext]
      rfl
    · rw [if_neg hodd, hget]
    · rw [if_neg hodd]
      exact hmem _ hin

variable (node) in
/-- Above an odd last value its path goes on unchanged. -/
theorem levelPath_last {xs : List β} {i : Nat} (h : 2 * i + 1 = xs.length) :
    levelPath node (levelUp node id xs) i = levelPath node xs (2 * i) := by
  rw [@levelPath_step β node xs (2 * i) (by omega), sibling, if_neg (by omega),
    List.getElem?_eq_none (by omega), show 2 * i / 2 = i by omega]
  rfl

/-! ## The values of the tree -/

/-- A value of the tree over a list: one of the list, or one that the recursion joins
of two of its values. -/
inductive Part (node : β → β → β) (input : β → β → I) (xs : List β) : β → Prop
  | leaf {x : β} (h : x ∈ xs) : Part node input xs x
  | joined {l r : β} (h : input l r ∈ mthInputs node input xs) (hl : Part node input xs l)
      (hr : Part node input xs r) : Part node input xs (node l r)

theorem Part.mono {input : β → β → I} {xs ys : List β} (hmem : ∀ x ∈ xs, x ∈ ys)
    (hinput : ∀ i ∈ mthInputs node input xs, i ∈ mthInputs node input ys) {v : β}
    (h : Part node input xs v) : Part node input ys v := by
  induction h with
  | leaf h => exact .leaf (hmem _ h)
  | joined h _ _ ihl ihr => exact .joined (hinput _ h) ihl ihr

/-- What is joined for the root of a list of two or more values. -/
theorem mem_mthInputs {input : β → β → I} {xs : List β} (h : 1 < xs.length) {i : I} :
    i ∈ mthInputs node input xs ↔
      (∃ l r, mth node (xs.take (split xs.length)) = some l ∧
        mth node (xs.drop (split xs.length)) = some r ∧ i = input l r) ∨
      i ∈ mthInputs node input (xs.take (split xs.length)) ∨
      i ∈ mthInputs node input (xs.drop (split xs.length)) := by
  rw [mthInputs, dif_pos h, List.mem_append, List.mem_append]
  refine or_congr_left ?_
  cases mth node (xs.take (split xs.length)) with
  | none => simp
  | some l =>
    cases mth node (xs.drop (split xs.length)) with
    | none => simp
    | some r => simp

/-- The root is a value of the tree. -/
theorem part_mth (input : β → β → I) {xs : List β} {v : β} (h : mth node xs = some v) :
    Part node input xs v := by
  fun_induction mth node xs generalizing v with
  | case1 xs hlen ihl ihr =>
    cases hl : mth node (xs.take (split xs.length)) with
    | none => simp [hl] at h
    | some l =>
      cases hr : mth node (xs.drop (split xs.length)) with
      | none => simp [hl, hr] at h
      | some r =>
        obtain rfl : node l r = v := by simpa [hl, hr] using h
        refine .joined ((mem_mthInputs hlen).mpr (Or.inl ⟨l, r, hl, hr, rfl⟩)) ?_ ?_
        · exact (ihl hl).mono (fun x hx => List.mem_of_mem_take hx)
            fun i hi => (mem_mthInputs hlen).mpr (Or.inr (Or.inl hi))
        · exact (ihr hr).mono (fun x hx => List.mem_of_mem_drop hx)
            fun i hi => (mem_mthInputs hlen).mpr (Or.inr (Or.inr hi))
  | case2 xs hlen => exact .leaf (List.mem_of_mem_head? h)

end Preaction.Merkle
