import Preaction.Py.JsonAscii

/-!
# Keys by code points and by code units

`sort_keys=True` orders the keys of an object by code points, RFC 8785 by UTF-16
code units. The two orders differ on one kind of pair only: where the keys first
differ, one has a character from `U+E000` to `U+FFFF` and the other one above it,
whose first code unit is a surrogate and so below (`Clash`). On all other keys
without lone surrogates they are one order (`strLt_units`).
-/

namespace Preaction.Py

/-- The first character in which the keys differ is from `U+E000` to `U+FFFF` in
the one and above in the other. -/
def Clash (k l : Str) : Prop :=
  ∃ p c d s t, k = p ++ c :: s ∧ l = p ++ d :: t ∧
    0xE000 ≤ c.val ∧ c.val < 0x10000 ∧ 0x10000 ≤ d.val

theorem strLt_append (p s t : Str) : strLt (p ++ s) (p ++ t) = strLt s t := by
  induction p with
  | nil => rfl
  | cons c p ih => simp [strLt, ih]

theorem strLt_cons_of_ne {c d : CodePoint} (h : c ≠ d) (s t : Str) :
    strLt (c :: s) (d :: t) = decide (c < d) := by
  rw [strLt, beq_eq_false_iff_ne.mpr h, Bool.false_and, Bool.or_false]

theorem strLt_nil (s : Str) : strLt s [] = false := by
  cases s <;> rfl

theorem nil_strLt (c : CodePoint) (s : Str) : strLt [] (c :: s) = true :=
  rfl

theorem unitsOf_ne_nil (c : CodePoint) : unitsOf c ≠ [] := by
  unfold unitsOf
  split <;> exact List.cons_ne_nil _ _

/-- A surrogate is below the characters from `U+E000` and above all others. -/
theorem lt_unitsOf {c d : CodePoint} (hc : isSurrogate c = false) (hlt : c.val < 0x10000)
    (hd : 0x10000 ≤ d.val) (s t : Str) :
    strLt (c :: s) (unitsOf d ++ t) = decide (c.val < 0xE000) ∧
    strLt (unitsOf d ++ t) (c :: s) = decide (0xE000 ≤ c.val) := by
  obtain ⟨a, b, hunits, ha, -⟩ := unitsOf_astral (c := d) (by omega)
  have hd' := d.isLt
  have hrange : c.val < 0xD800 ∨ 0xE000 ≤ c.val := by
    simp only [isSurrogate, Bool.and_eq_false_iff, decide_eq_false_iff_not] at hc
    omega
  have hne : c ≠ a := fun heq => by
    have := congrArg Fin.val heq
    omega
  have hlt : ∀ x y : CodePoint, x < y ↔ x.val < y.val := fun _ _ => Iff.rfl
  rw [hunits, List.cons_append, strLt_cons_of_ne hne, strLt_cons_of_ne hne.symm]
  simp only [hlt, decide_eq_decide]
  omega

/-- Units of distinct characters compare as the characters do, but for a clash. -/
theorem strLt_unitsOf {c d : CodePoint} (h : c ≠ d) (hc : isSurrogate c = false)
    (hd : isSurrogate d = false) (hcd : ¬ (0xE000 ≤ c.val ∧ c.val < 0x10000 ∧ 0x10000 ≤ d.val))
    (hdc : ¬ (0xE000 ≤ d.val ∧ d.val < 0x10000 ∧ 0x10000 ≤ c.val)) (s t : Str) :
    strLt (unitsOf c ++ s) (unitsOf d ++ t) = decide (c < d) := by
  have hlt : ∀ x y : CodePoint, x < y ↔ x.val < y.val := fun _ _ => Iff.rfl
  by_cases hc' : c.val < 0x10000
  · have hunits : unitsOf c = [c] := if_pos hc'
    rw [hunits, List.singleton_append]
    by_cases hd' : d.val < 0x10000
    · have hunits : unitsOf d = [d] := if_pos hd'
      rw [hunits, List.singleton_append, strLt_cons_of_ne h]
    · rw [(lt_unitsOf hc hc' (by omega) s t).1]
      simp only [hlt, decide_eq_decide]
      omega
  · by_cases hd' : d.val < 0x10000
    · have hunits : unitsOf d = [d] := if_pos hd'
      rw [hunits, List.singleton_append, (lt_unitsOf hd hd' (by omega) t s).2]
      simp only [hlt, decide_eq_decide]
      omega
    · obtain ⟨a, b, hunits, ha, hb⟩ := unitsOf_astral hc'
      obtain ⟨a', b', hunits', ha', hb'⟩ := unitsOf_astral hd'
      have hval : c.val ≠ d.val := fun heq => h (Fin.ext heq)
      rw [hunits, hunits']
      simp only [List.cons_append, List.nil_append]
      by_cases hfirst : a = a'
      · have hsecond : b ≠ b' := fun heq => by
          have := congrArg Fin.val heq
          have := congrArg Fin.val hfirst
          omega
        have hcons := strLt_append [a'] (b :: s) (b' :: t)
        rw [List.singleton_append, List.singleton_append] at hcons
        have := congrArg Fin.val hfirst
        rw [hfirst, hcons, strLt_cons_of_ne hsecond]
        simp only [hlt, decide_eq_decide]
        omega
      · have : a.val ≠ a'.val := fun heq => hfirst (Fin.ext heq)
        rw [strLt_cons_of_ne hfirst]
        simp only [hlt, decide_eq_decide]
        omega

/-- Where two keys clash the orders differ. -/
theorem Clash.orders {k l : Str} (h : Clash k l) :
    strLt k l = true ∧ strLt (units l) (units k) = true := by
  obtain ⟨p, c, d, s, t, rfl, rfl, hlow, hhigh, hd⟩ := h
  have hlt : ∀ x y : CodePoint, x < y ↔ x.val < y.val := fun _ _ => Iff.rfl
  have hne : c ≠ d := fun heq => by
    rw [heq] at hhigh
    omega
  have hc : isSurrogate c = false := by
    simp only [isSurrogate, Bool.and_eq_false_iff, decide_eq_false_iff_not]
    omega
  have hunits : unitsOf c = [c] := if_pos hhigh
  constructor
  · rw [strLt_append, strLt_cons_of_ne hne]
    exact decide_eq_true ((hlt c d).mpr (by omega))
  · rw [units, units, List.flatMap_append, List.flatMap_append, strLt_append, List.flatMap_cons,
      List.flatMap_cons, hunits, List.singleton_append, (lt_unitsOf hc hhigh hd _ _).2]
    exact decide_eq_true hlow

theorem clash_cons {c : CodePoint} {s t : Str} (h : Clash s t) : Clash (c :: s) (c :: t) := by
  obtain ⟨p, a, b, u, v, rfl, rfl, hrange⟩ := h
  exact ⟨c :: p, a, b, u, v, rfl, rfl, hrange⟩

/-- Keys that do not clash are ordered alike. -/
theorem strLt_units {k l : Str} (hk : Scalar k) (hl : Scalar l) (hkl : ¬ Clash k l)
    (hlk : ¬ Clash l k) : strLt (units k) (units l) = strLt k l := by
  induction k generalizing l with
  | nil =>
    cases l with
    | nil => rfl
    | cons d t =>
      obtain ⟨a, r, hunits⟩ := List.exists_cons_of_ne_nil (unitsOf_ne_nil d)
      rw [units_cons, hunits, List.cons_append, show units [] = [] from rfl, nil_strLt,
        nil_strLt]
  | cons c s ih =>
    cases l with
    | nil => rw [strLt_nil, show units [] = [] from rfl, strLt_nil]
    | cons d t =>
      obtain ⟨hc, hs⟩ := scalar_cons.mp hk
      obtain ⟨hd, ht⟩ := scalar_cons.mp hl
      rw [units_cons, units_cons]
      by_cases hne : c = d
      · subst hne
        have hcons := strLt_append [c] s t
        rw [List.singleton_append, List.singleton_append] at hcons
        rw [strLt_append, hcons]
        exact ih hs ht (fun h => hkl (clash_cons h)) fun h => hlk (clash_cons h)
      · rw [strLt_unitsOf hne hc hd ?_ ?_, strLt_cons_of_ne hne]
        · exact fun h => hkl ⟨[], c, d, s, t, rfl, rfl, h⟩
        · exact fun h => hlk ⟨[], d, c, t, s, rfl, rfl, h⟩

theorem wellPaired_of_scalar {s : Str} (h : Scalar s) : wellPaired s = true := by
  induction s with
  | nil => rfl
  | cons c s ih =>
    obtain ⟨hc, hs⟩ := scalar_cons.mp h
    refine wellPaired_cons (fun hhigh => ?_) (ih hs)
    -- a high surrogate is a surrogate
    have hsurr : isSurrogate c = true := by
      simp only [isHigh, isSurrogate, Bool.and_eq_true, decide_eq_true_eq] at hhigh ⊢
      omega
    rw [hc] at hsurr
    cases hsurr

/-- Units determine a key without lone surrogates. -/
theorem units_injective {k l : Str} (hk : Scalar k) (hl : Scalar l) (h : units k = units l) :
    k = l := by
  rw [← joinUnits_units (wellPaired_of_scalar hk), h, joinUnits_units (wellPaired_of_scalar hl)]

end Preaction.Py
