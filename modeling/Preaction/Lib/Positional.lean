import Mathlib.Data.List.TakeWhile
import Mathlib.Data.Nat.Digits.Lemmas

/-!
# Numbers written in a base

`horner b` reads digits with the most significant first, as a loop that
multiplies and adds does. Leading zeros are all it forgets: the number and how
many there are determine the digits.
-/

namespace Preaction.Positional

/-- The number with these digits, the most significant first. -/
def horner (b : Nat) (ds : List Nat) : Nat := ds.foldl (fun n d => n * b + d) 0

/-- The zeros that lead. -/
def zeros (ds : List Nat) : List Nat := ds.takeWhile (· == 0)

variable {b : Nat} {ds es : List Nat}

theorem horner_eq_ofDigits (b : Nat) (ds : List Nat) : horner b ds = Nat.ofDigits b ds.reverse := by
  induction ds using List.reverseRecOn with
  | nil => rfl
  | append_singleton ds d ih =>
    rw [List.reverse_append, List.reverse_singleton, List.singleton_append, Nat.ofDigits_cons, ← ih]
    show List.foldl _ 0 (ds ++ [d]) = _
    rw [List.foldl_append]
    show horner b ds * b + d = d + b * horner b ds
    ring

theorem zeros_eq_replicate (ds : List Nat) : zeros ds = List.replicate (zeros ds).length 0 :=
  List.eq_replicate_length.mpr fun _ hd => beq_iff_eq.mp (List.mem_takeWhile_imp (p := (· == 0)) hd)

/-- What follows the leading zeros does not lead with one. -/
theorem head_dropWhile_zero (h : ds.dropWhile (· == 0) ≠ []) :
    (ds.dropWhile (· == 0)).head h ≠ 0 := by
  have hhead := List.head_dropWhile_not (· == 0) h
  exact beq_eq_false_iff_ne.mp hhead

/-- Leading zeros add nothing. -/
theorem horner_dropWhile (b : Nat) (ds : List Nat) :
    horner b (ds.dropWhile (· == 0)) = horner b ds := by
  conv_rhs => rw [← List.takeWhile_append_dropWhile (p := (· == 0)) (l := ds)]
  rw [horner_eq_ofDigits, horner_eq_ofDigits, List.reverse_append]
  show _ = Nat.ofDigits b (_ ++ (zeros ds).reverse)
  rw [zeros_eq_replicate, List.reverse_replicate, Nat.ofDigits_append_replicate_zero]

/-- The digits of a number are its own but for the leading zeros. -/
theorem dropWhile_eq_digits (hb : 1 < b) (hds : ∀ d ∈ ds, d < b) :
    (ds.dropWhile (· == 0)).reverse = Nat.digits b (horner b ds) := by
  rw [← horner_dropWhile, horner_eq_ofDigits, Nat.digits_ofDigits b hb]
  · intro d hd
    exact hds d (List.dropWhile_sublist _ |>.subset (List.mem_reverse.mp hd))
  · intro hne
    rw [List.getLast_reverse]
    exact head_dropWhile_zero _

/-- Digits with as many leading zeros, and the same number, are the same. -/
theorem eq_of_horner_eq (hb : 1 < b) (hds : ∀ d ∈ ds, d < b) (hes : ∀ d ∈ es, d < b)
    (hzeros : (zeros ds).length = (zeros es).length) (h : horner b ds = horner b es) : ds = es := by
  have hrest : ds.dropWhile (· == 0) = es.dropWhile (· == 0) := by
    apply List.reverse_injective
    rw [dropWhile_eq_digits hb hds, dropWhile_eq_digits hb hes, h]
  rw [← List.takeWhile_append_dropWhile (p := (· == 0)) (l := ds),
    ← List.takeWhile_append_dropWhile (p := (· == 0)) (l := es), hrest]
  show zeros ds ++ _ = zeros es ++ _
  rw [zeros_eq_replicate ds, zeros_eq_replicate es, hzeros]

end Preaction.Positional
