import Mathlib.Algebra.BigOperators.Group.List.Basic
import Mathlib.Algebra.GroupWithZero.Nat
import Preaction.Lib.While

/-!
# Depth-first search with a stack

A search that keeps its work on a stack visits an element, and either has
found what it looks for or pushes the parts of the element, the last part on
top. `search` is that loop for any way of visiting; it can raise, and `fuel`
bounds the number of visits.

What it finds is said without a stack by `First`: what the element itself
gives, or else what its last part that is not `Barren` gives. The two agree
(`search_eq_some_iff`, and for what raises `search_returns_iff`) as soon as the parts of
an element are together smaller than the element, which is also what makes the fuel
suffice.
-/

namespace Preaction.Search

/-- What a visit of an element gives: a result, or parts to look into. -/
inductive Visit (α β : Type)
  | found (b : β)
  | push (xs : List α)

variable {ε α β : Type} (visit : α → Except ε (Visit α β))

/-- The loop: take the top of the stack, visit it, push its parts. -/
def search : Nat → List α → Except ε (Option β)
  | 0, _ => .ok none
  | _ + 1, [] => .ok none
  | fuel + 1, x :: stack => do
    match ← visit x with
    | .found b => return some b
    | .push xs => search fuel (xs.reverse ++ stack)

/-- Nothing is found in the element or in its parts. -/
inductive Barren : α → Prop
  | push {x : α} {xs : List α} (h : visit x = .ok (.push xs)) (hxs : ∀ y ∈ xs, Barren y) : Barren x

/-- What is found first in an element: its own result, or that of a part behind
which there are only barren ones. -/
inductive First : α → β → Prop
  | here {x : α} {b : β} (h : visit x = .ok (.found b)) : First x b
  | inside {x y : α} {before after : List α} {b : β}
      (h : visit x = .ok (.push (before ++ y :: after))) (hafter : ∀ z ∈ after, Barren visit z)
      (hy : First y b) : First x b

/-- What is found first on a stack. -/
def FirstOn (stack : List α) (b : β) : Prop :=
  ∃ above y below, stack = above ++ y :: below ∧ (∀ z ∈ above, Barren visit z) ∧ First visit y b

variable {visit}

@[simp] theorem not_firstOn_nil {b : β} : ¬ FirstOn visit [] b := by
  rintro ⟨above, y, below, heq, -⟩
  simp at heq

/-- What is first on a stack is in its top, or the top is barren. -/
theorem firstOn_cons {x : α} {stack : List α} {b : β} : FirstOn visit (x :: stack) b ↔
    First visit x b ∨ Barren visit x ∧ FirstOn visit stack b := by
  constructor
  · rintro ⟨above, y, below, heq, habove, hy⟩
    cases above with
    | nil => exact Or.inl ((List.cons.inj heq).1 ▸ hy)
    | cons z above =>
      obtain ⟨rfl, hstack⟩ := List.cons.inj heq
      obtain ⟨hx, habove⟩ := List.forall_mem_cons.mp habove
      exact Or.inr ⟨hx, above, y, below, hstack, habove, hy⟩
  · rintro (hx | ⟨hx, above, y, below, rfl, habove, hy⟩)
    · exact ⟨[], x, stack, rfl, nofun, hx⟩
    · exact ⟨x :: above, y, below, rfl, List.forall_mem_cons.mpr ⟨hx, habove⟩, hy⟩

/-- What is first on a stack that is put on another one. -/
theorem firstOn_append {s t : List α} {b : β} : FirstOn visit (s ++ t) b ↔
    FirstOn visit s b ∨ (∀ z ∈ s, Barren visit z) ∧ FirstOn visit t b := by
  induction s with
  | nil => simp
  | cons x s ih =>
    rw [List.cons_append, firstOn_cons, firstOn_cons, ih, List.forall_mem_cons]
    tauto

theorem barren_of_push {x : α} {xs : List α} (h : visit x = .ok (.push xs)) :
    Barren visit x ↔ ∀ y ∈ xs, Barren visit y := by
  constructor
  · rintro ⟨h', hxs⟩
    rw [h] at h'
    cases h'
    exact hxs
  · exact .push h

theorem first_of_push {x : α} {xs : List α} {b : β} (h : visit x = .ok (.push xs)) :
    First visit x b ↔ FirstOn visit xs.reverse b := by
  constructor
  · intro hx
    cases hx with
    | here h' =>
      rw [h] at h'
      cases h'
    | @inside _ y before after _ h' hafter hy =>
      rw [h] at h'
      cases h'
      exact ⟨after.reverse, y, before.reverse, by simp,
        fun z hz => hafter z (List.mem_reverse.mp hz), hy⟩
  · rintro ⟨above, y, below, heq, habove, hy⟩
    have hxs : xs = below.reverse ++ y :: above.reverse := by
      rw [← List.reverse_reverse xs, heq]
      simp
    exact .inside (hxs ▸ h) (fun z hz => habove z (List.mem_reverse.mp hz)) hy

/-- Putting the parts of the top in its place changes nothing. -/
theorem firstOn_push {x : α} {xs stack : List α} {b : β} (h : visit x = .ok (.push xs)) :
    FirstOn visit (x :: stack) b ↔ FirstOn visit (xs.reverse ++ stack) b := by
  rw [firstOn_cons, firstOn_append, first_of_push h, barren_of_push h]
  simp only [List.mem_reverse]

theorem firstOn_found {x : α} {c : β} {stack : List α} {b : β} (h : visit x = .ok (.found c)) :
    FirstOn visit (x :: stack) b ↔ c = b := by
  rw [firstOn_cons]
  constructor
  · rintro (hx | ⟨⟨h', -⟩, -⟩)
    · cases hx with
      | here h' =>
        rw [h] at h'
        cases h'
        rfl
      | inside h' =>
        rw [h] at h'
        cases h'
    · rw [h] at h'
      cases h'
  · rintro rfl
    exact Or.inl (.here h)

theorem not_firstOn_error {x : α} {e : ε} {stack : List α} {b : β} (h : visit x = .error e) :
    ¬ FirstOn visit (x :: stack) b := by
  rw [firstOn_cons]
  rintro (hx | ⟨⟨h', -⟩, -⟩)
  · cases hx with
    | here h' =>
      rw [h] at h'
      cases h'
    | inside h' =>
      rw [h] at h'
      cases h'
  · rw [h] at h'
    cases h'

variable {size : α → Nat}

/-- **The loop finds what is first.** -/
theorem search_eq_some_iff (hpos : ∀ x, 0 < size x)
    (hsize : ∀ x xs, visit x = .ok (.push xs) → (xs.map size).sum < size x)
    {fuel : Nat} {stack : List α} (hfuel : (stack.map size).sum ≤ fuel) {b : β} :
    search visit fuel stack = .ok (some b) ↔ FirstOn visit stack b := by
  induction fuel generalizing stack with
  | zero =>
    cases stack with
    | nil => exact iff_of_false nofun not_firstOn_nil
    | cons x stack =>
      have := hpos x
      rw [List.map_cons, List.sum_cons] at hfuel
      omega
  | succ fuel ih =>
    cases stack with
    | nil => exact iff_of_false nofun not_firstOn_nil
    | cons x stack =>
      rw [List.map_cons, List.sum_cons] at hfuel
      cases hv : visit x with
      | error e =>
        refine iff_of_false ?_ (not_firstOn_error hv)
        rw [search, hv]
        exact nofun
      | ok v =>
        cases v with
        | found c =>
          rw [firstOn_found hv, search, hv]
          exact ⟨fun h => Option.some.inj (Except.ok.inj h), fun h => h ▸ rfl⟩
        | push xs =>
          -- the parts are smaller than `x`, so the fuel left is enough for them
          have hlt := hsize x xs hv
          have hrest : ((xs.reverse ++ stack).map size).sum ≤ fuel := by
            rw [List.map_append, List.sum_append, List.map_reverse, List.sum_reverse]
            omega
          rw [firstOn_push hv, ← ih hrest, search, hv]
          rfl

/-! ## What raises -/

/-- An element raises when it is visited, or its last part that is not barren does. -/
inductive Raises (visit : α → Except ε (Visit α β)) : α → Prop
  | here {x : α} {e : ε} (h : visit x = .error e) : Raises visit x
  | inside {x y : α} {before after : List α}
      (h : visit x = .ok (.push (before ++ y :: after))) (hafter : ∀ z ∈ after, Barren visit z)
      (hy : Raises visit y) : Raises visit x

/-- The search that takes what is raised for a result. -/
def outcome (visit : α → Except ε (Visit α β)) (x : α) : Except ε (Visit α (Except ε β)) :=
  match visit x with
  | .error e => .ok (.found (.error e))
  | .ok (.found b) => .ok (.found (.ok b))
  | .ok (.push xs) => .ok (.push xs)

theorem outcome_push {x : α} {xs : List α} :
    outcome visit x = .ok (.push xs) ↔ visit x = .ok (.push xs) := by
  unfold outcome
  split
  next h => rw [h]; exact ⟨nofun, nofun⟩
  next h => rw [h]; exact ⟨nofun, nofun⟩
  next h => rw [h]; simp

theorem outcome_error {x : α} {e : ε} :
    outcome visit x = .ok (.found (.error e)) ↔ visit x = .error e := by
  unfold outcome
  split
  next h => rw [h]; simp
  next h => rw [h]; exact ⟨nofun, nofun⟩
  next h => rw [h]; exact ⟨nofun, nofun⟩

theorem barren_outcome {x : α} : Barren (outcome visit) x ↔ Barren visit x := by
  constructor
  · intro h
    induction h with
    | push h _ ih => exact .push (outcome_push.mp h) ih
  · intro h
    induction h with
    | push h _ ih => exact .push (outcome_push.mpr h) ih

theorem raises_iff {x : α} : Raises visit x ↔ ∃ e, First (outcome visit) x (.error e) := by
  constructor
  · intro h
    induction h with
    | here h => exact ⟨_, .here (outcome_error.mpr h)⟩
    | inside h hafter _ ih =>
      obtain ⟨e, ih⟩ := ih
      exact ⟨e, .inside (outcome_push.mpr h) (fun z hz => barren_outcome.mpr (hafter z hz)) ih⟩
  · rintro ⟨e, h⟩
    generalize hb : (Except.error e : Except ε β) = b at h
    induction h with
    | here h =>
      subst hb
      exact .here (outcome_error.mp h)
    | inside h hafter _ ih =>
      exact .inside (outcome_push.mp h) (fun z hz => barren_outcome.mp (hafter z hz)) (ih hb)

theorem search_outcome {fuel : Nat} {stack : List α} {e : ε} :
    search (outcome visit) fuel stack = .ok (some (.error e)) ↔
      search visit fuel stack = .error e := by
  induction fuel generalizing stack with
  | zero => exact ⟨nofun, nofun⟩
  | succ fuel ih =>
    cases stack with
    | nil => exact ⟨nofun, nofun⟩
    | cons x stack =>
      rw [search, search, outcome]
      cases hv : visit x with
      | error e' =>
        show Except.ok (some (Except.error e')) = _ ↔ Except.error e' = _
        simp
      | ok v =>
        cases v with
        | found b => exact ⟨nofun, nofun⟩
        | push xs => exact ih

/-- **The loop raises where something that raises is first.** -/
theorem search_returns_iff (hpos : ∀ x, 0 < size x)
    (hsize : ∀ x xs, visit x = .ok (.push xs) → (xs.map size).sum < size x)
    {fuel : Nat} {x : α} (hfuel : size x ≤ fuel) :
    (∃ r, search visit fuel [x] = .ok r) ↔ ¬ Raises visit x := by
  have hstack : (([x] : List α).map size).sum ≤ fuel := by simpa using hfuel
  have herror (e : ε) : search visit fuel [x] = .error e ↔ First (outcome visit) x (.error e) := by
    rw [← search_outcome, search_eq_some_iff hpos (fun y ys h => hsize y ys (outcome_push.mp h))
      hstack, firstOn_cons]
    simp
  rw [raises_iff]
  cases hs : search visit fuel [x] with
  | error e => exact iff_of_false nofun (not_not.mpr ⟨e, (herror e).mp hs⟩)
  | ok r =>
    refine iff_of_true ⟨r, rfl⟩ ?_
    rintro ⟨e, he⟩
    cases hs.symm.trans ((herror e).mpr he)

/-! ## The loop without a bound -/

/-- What a round of the loop does with the stack. -/
def round (visit : α → Except ε (Visit α β)) :
    List α → While.Round (List α) (Except ε (Option β))
  | [] => .done (.ok none)
  | x :: stack =>
    match visit x with
    | .error e => .done (.error e)
    | .ok (.found b) => .done (.ok (some b))
    | .ok (.push xs) => .next (xs.reverse ++ stack)

/-- A round that goes on has put the parts of the top in its place. -/
theorem round_next {stack stack' : List α} : round visit stack = .next stack' ↔
    ∃ x rest xs, stack = x :: rest ∧ visit x = .ok (.push xs) ∧ stack' = xs.reverse ++ rest := by
  cases stack with
  | nil => simp [round]
  | cons x rest =>
    rw [round]
    cases hv : visit x with
    | error e => simp [hv]
    | ok v =>
      cases v with
      | found b => simp [hv]
      | push xs =>
        constructor
        · intro h
          cases h
          exact ⟨x, rest, xs, rfl, hv, rfl⟩
        · rintro ⟨y, rest', ys, heq, hy, rfl⟩
          cases heq
          rw [hv] at hy
          cases hy
          rfl

theorem sum_size_push {x : α} {xs rest : List α} (h : (xs.map size).sum < size x) :
    ((xs.reverse ++ rest).map size).sum < ((x :: rest).map size).sum := by
  rw [List.map_append, List.sum_append, List.map_reverse, List.sum_reverse, List.map_cons,
    List.sum_cons]
  omega

/-- **The loop ends** where the parts of an element are together smaller than it. -/
theorem exists_ends (hsize : ∀ x xs, visit x = .ok (.push xs) → (xs.map size).sum < size x)
    (stack : List α) : ∃ states r, While.Ends (round visit) stack states r ∧
      states.length ≤ (stack.map size).sum + 1 := by
  refine While.exists_ends (I := fun _ => True) (m := fun s : List α => (s.map size).sum)
    (fun stack stack' _ hround => ?_) trivial
  obtain ⟨x, rest, xs, rfl, hv, rfl⟩ := round_next.mp hround
  exact ⟨trivial, sum_size_push (hsize x xs hv)⟩

/-- A run of the loop gives what the loop with enough fuel gives. -/
theorem search_of_ends (hpos : ∀ x, 0 < size x)
    (hsize : ∀ x xs, visit x = .ok (.push xs) → (xs.map size).sum < size x) {stack : List α}
    {states : List (List α)} {r : Except ε (Option β)}
    (h : While.Ends (round visit) stack states r) {fuel : Nat}
    (hfuel : (stack.map size).sum ≤ fuel) : search visit fuel stack = r := by
  induction h generalizing fuel with
  | @done stack r hround =>
    cases stack with
    | nil =>
      cases hround
      cases fuel with
      | zero => rfl
      | succ fuel => rfl
    | cons x stack =>
      have hx := hpos x
      rw [List.map_cons, List.sum_cons] at hfuel
      obtain ⟨fuel, rfl⟩ : ∃ n, fuel = n + 1 := ⟨fuel - 1, by omega⟩
      rw [round] at hround
      rw [search]
      cases hv : visit x with
      | error e =>
        rw [hv] at hround
        cases hround
        rfl
      | ok v =>
        rw [hv] at hround
        cases v with
        | found b =>
          cases hround
          rfl
        | push xs => cases hround
  | next hround _ ih =>
    obtain ⟨x, rest, xs, rfl, hv, rfl⟩ := round_next.mp hround
    have hlt := (sum_size_push (hsize x xs hv)).trans_le hfuel
    obtain ⟨fuel, rfl⟩ : ∃ n, fuel = n + 1 := ⟨fuel - 1, by omega⟩
    rw [search, hv]
    exact ih (Nat.lt_succ_iff.mp hlt)

end Preaction.Search
