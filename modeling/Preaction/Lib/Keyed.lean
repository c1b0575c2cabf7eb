import Mathlib.Data.List.Sort
import Mathlib.Data.List.TakeWhile

/-!
# Lists in the order of a key

A list sorted by a key need not be determined by its elements: elements of one
key can stand in any order, any number of times. What two such lists with the
same elements have in common is where a key begins (`exists_split_key`), what
stands before it (`mem_before_of_key_lt`), and how many elements are not before
it (`countP_key_le`).
-/

namespace Preaction.Keyed

variable {α : Type} {key : α → Nat}

/-- In the order of the key. -/
def Sorted (key : α → Nat) (xs : List α) : Prop := xs.Pairwise fun a b => key a ≤ key b

/-- The elements before the first that fails, and those behind it. -/
theorem forall_or_exists_first (P : α → Prop) (xs : List α) :
    (∀ x ∈ xs, P x) ∨
      ∃ before c later, xs = before ++ c :: later ∧ (∀ b ∈ before, P b) ∧ ¬ P c := by
  induction xs with
  | nil => exact Or.inl nofun
  | cons x xs ih =>
    by_cases hx : P x
    · rcases ih with hall | ⟨before, c, later, rfl, hbefore, hc⟩
      · exact Or.inl (List.forall_mem_cons.mpr ⟨hx, hall⟩)
      · exact Or.inr ⟨x :: before, c, later, rfl, List.forall_mem_cons.mpr ⟨hx, hbefore⟩, hc⟩
    · exact Or.inr ⟨[], x, xs, rfl, nofun, hx⟩

/-- What does not stand before an element is not below it. -/
theorem key_le_of_split {before later : List α} {c x : α}
    (h : Sorted key (before ++ c :: later)) (hx : x ∈ c :: later) : key c ≤ key x := by
  have hsplit := (List.pairwise_append.mp h).2.1
  rcases List.mem_cons.mp hx with rfl | hx
  · exact le_refl _
  · exact List.rel_of_pairwise_cons hsplit hx

theorem mem_before_of_key_lt {before later : List α} {c x : α}
    (h : Sorted key (before ++ c :: later)) (hx : x ∈ before ++ c :: later)
    (hlt : key x < key c) : x ∈ before := by
  refine (List.mem_append.mp hx).resolve_right fun hx => ?_
  exact absurd (key_le_of_split h hx) (not_le.mpr hlt)

/-- Where the key of an element begins. -/
theorem exists_split_key {ys : List α} (h : Sorted key ys) {c : α} (hc : c ∈ ys) :
    ∃ before c' later, ys = before ++ c' :: later ∧ (∀ b ∈ before, key b < key c) ∧
      key c' = key c := by
  rcases forall_or_exists_first (fun y => key y < key c) ys with hall | ⟨bef, c', later, rfl, hb, hc'⟩
  · exact absurd (hall c hc) (lt_irrefl _)
  · refine ⟨bef, c', later, rfl, hb, le_antisymm (key_le_of_split h ?_) (not_lt.mp hc')⟩
    refine (List.mem_append.mp hc).resolve_left fun hc => ?_
    exact lt_irrefl _ (hb c hc)

/-- How many elements are not below a key, where it begins. -/
theorem countP_key_le {before later : List α} {c : α} (h : Sorted key (before ++ c :: later))
    (hb : ∀ b ∈ before, key b < key c) :
    (before ++ c :: later).countP (fun x => decide (key c ≤ key x)) = later.length + 1 := by
  have hbefore : before.countP (fun x => decide (key c ≤ key x)) = 0 := by
    rw [List.countP_eq_zero]
    intro b hbm
    simpa using hb b hbm
  have hlater : (c :: later).countP (fun x => decide (key c ≤ key x)) = (c :: later).length := by
    rw [List.countP_eq_length]
    intro x hx
    simpa using key_le_of_split h hx
  rw [List.countP_append, hbefore, hlater, Nat.zero_add, List.length_cons]

/-- An element that is sorted in last stands where its key begins. -/
theorem insertionSort_cons_split (c : α) (xs : List α) : ∃ before later,
    (c :: xs).insertionSort (fun a b => key a ≤ key b) = before ++ c :: later ∧
      ∀ b ∈ before, key b < key c := by
  refine ⟨_, _, List.insertionSort_cons_eq_take_drop _ c xs, fun b hb => ?_⟩
  simpa using List.mem_takeWhile_imp hb

end Preaction.Keyed
