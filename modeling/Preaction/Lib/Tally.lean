import Mathlib.Data.List.Perm.Subperm
import Preaction.Lib.Loop

/-!
# Tallies

A tally counts entries, and its reader wants to know how many different parties
are behind the count. Two questions of such a tally, for any type:

- whether there are `n + 1` different values among one distinguished value and a
  list (`exists_distinct_iff`, and for the whole list `exists_distinct_all_iff`);
- what a list that has one of its own entries once more counts (`Repeats.countP`,
  and over a loop that can raise `Repeats.mapM`).
-/

namespace Preaction.Tally

open Preaction.Loop

variable {α : Type}

/-- There are more than `n` different values among `a` and the list exactly when `n`
entries of the list are different from each other and from `a`. -/
theorem exists_distinct_iff [DecidableEq α] {a : α} {xs : List α} {n : Nat} :
    (∃ ks : List α, ks.Nodup ∧ n + 1 ≤ ks.length ∧ ∀ k ∈ ks, k = a ∨ k ∈ xs) ↔
      ∃ others : List α, others.length = n ∧ (a :: others).Nodup ∧ others.Subperm xs := by
  constructor
  · rintro ⟨ks, hnodup, hlen, hmem⟩
    -- at most one of the values is `a`; of the others take `n`
    have hlong : n ≤ (ks.erase a).length := by
      by_cases ha : a ∈ ks
      · rw [List.length_erase_of_mem ha]
        omega
      · rw [List.erase_of_not_mem ha]
        omega
    have hsub : (ks.erase a).take n ⊆ ks.erase a := List.take_subset _ _
    have hrest := hnodup.erase a
    refine ⟨(ks.erase a).take n, List.length_take_of_le hlong, ?_, ?_⟩
    · rw [List.nodup_cons]
      exact ⟨fun h => hnodup.not_mem_erase (hsub h), hrest.sublist (List.take_sublist _ _)⟩
    · refine List.subperm_of_subset (hrest.sublist (List.take_sublist _ _)) fun k hk => ?_
      obtain ⟨hne, hk⟩ := hnodup.mem_erase_iff.mp (hsub hk)
      exact (hmem k hk).resolve_left hne
  · rintro ⟨others, hlen, hnodup, hsub⟩
    refine ⟨a :: others, hnodup, by rw [List.length_cons]; omega, fun k hk => ?_⟩
    exact (List.mem_cons.mp hk).imp_right fun hk => hsub.subset hk

/-- All values are different exactly when there is one more than the list is long. -/
theorem exists_distinct_all_iff [DecidableEq α] {a : α} {xs : List α} :
    (∃ ks : List α, ks.Nodup ∧ xs.length + 1 ≤ ks.length ∧ ∀ k ∈ ks, k = a ∨ k ∈ xs) ↔
      (a :: xs).Nodup := by
  rw [exists_distinct_iff]
  constructor
  · rintro ⟨others, hlen, hnodup, hsub⟩
    have hperm := hsub.perm_of_length_le (by omega)
    exact (hperm.cons a).nodup_iff.mp hnodup
  · intro h
    exact ⟨xs, rfl, h, List.Subperm.refl xs⟩

/-! ## One entry once more -/

/-- The second list is the first with its entry `x` once more, anywhere. -/
def Repeats (x : α) (xs ys : List α) : Prop :=
  x ∈ xs ∧ ∃ pre post, xs = pre ++ post ∧ ys = pre ++ x :: post

theorem Repeats.perm {x : α} {xs ys : List α} (h : Repeats x xs ys) : ys.Perm (x :: xs) := by
  obtain ⟨-, pre, post, rfl, rfl⟩ := h
  exact List.perm_middle

/-- A repeated entry adds no value. -/
theorem Repeats.sameElems {x : α} {xs ys : List α} (h : Repeats x xs ys) : SameElems xs ys := by
  intro y
  rw [h.perm.mem_iff, List.mem_cons]
  constructor
  · exact Or.inr
  · rintro (rfl | hy)
    · exact h.1
    · exact hy

/-- A tally counts a repeated entry once more. -/
theorem Repeats.countP {x : α} {xs ys : List α} (h : Repeats x xs ys) (p : α → Bool) :
    ys.countP p = xs.countP p + if p x then 1 else 0 := by
  rw [h.perm.countP_eq, List.countP_cons]

/-- A loop over the list with the entry once more has that entry's result once more. -/
theorem Repeats.mapM {ε β : Type} {f : α → Except ε β} {x : α} {xs ys : List α} {as : List β}
    (h : Repeats x xs ys) (hm : xs.mapM f = .ok as) :
    ∃ b bs, f x = .ok b ∧ ys.mapM f = .ok bs ∧ Repeats b as bs := by
  obtain ⟨hx, pre, post, rfl, rfl⟩ := h
  obtain ⟨b, hb, hxb⟩ := mem_mapM_of_mem hm hx
  rw [List.mapM_append] at hm
  obtain ⟨as₁, h₁, hm⟩ := bind_ok.mp hm
  obtain ⟨as₂, h₂, hm⟩ := bind_ok.mp hm
  obtain rfl := Except.ok.inj hm
  refine ⟨b, as₁ ++ b :: as₂, hxb, ?_, hb, as₁, as₂, rfl, rfl⟩
  rw [List.mapM_append]
  refine bind_ok.mpr ⟨as₁, h₁, bind_ok.mpr ⟨b :: as₂, ?_, rfl⟩⟩
  rw [List.mapM_cons]
  exact bind_ok.mpr ⟨b, hxb, bind_ok.mpr ⟨as₂, h₂, rfl⟩⟩

end Preaction.Tally
