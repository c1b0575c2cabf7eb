import Mathlib.Data.List.TakeWhile
import Preaction.Py.DecimalForm
import Preaction.Rfc8785

/-!
# Where the digits of a number are placed

`js_number` and `es_number` take the shortest digits from `repr` and place them as
ECMAScript does: plain for a number below `10^21` and not below `10^-6`, with an
exponent otherwise. The digits are stripped of the zeros at both ends
(`significant`); what is left and the place of the point fix the number, and each
of the four layouts is a decimal form that denotes it (`placePoint_form`).
-/

namespace Preaction.Rfc8785

open Preaction.Py

/-- `0` -/
def isZeroDigit (c : CodePoint) : Bool := c == ofChar '0'

/-- The digits without the zeros at both ends. -/
def significant (all : Str) : Str :=
  ((all.dropWhile isZeroDigit).reverse.dropWhile isZeroDigit).reverse

/-- How many zeros the digits start with. -/
def leadZeros (all : Str) : Nat := all.length - (all.dropWhile isZeroDigit).length

/-- How many zeros stand behind the significant digits. -/
def tailZeros (all : Str) : Nat := (all.dropWhile isZeroDigit).length - (significant all).length

/-- The layout of digits of which `n` stand before the point. -/
def placePoint (digits : Str) (n : Int) : Str :=
  if digits.length ≤ n ∧ n ≤ 21 then
    digits ++ List.replicate (n - digits.length).toNat (ofChar '0')
  else if 0 < n ∧ n ≤ 21 then digits.take n.toNat ++ lit "." ++ digits.drop n.toNat
  else if -6 < n ∧ n ≤ 0 then lit "0." ++ List.replicate (-n).toNat (ofChar '0') ++ digits
  else digits.take 1 ++ (if digits.length = 1 then [] else lit "." ++ digits.drop 1) ++ lit "e" ++
    ((if 0 ≤ n - 1 then lit "+" else lit "-") ++ decimal (n - 1).natAbs)

theorem placeDigits_eq {ip fp : Str} (h : significant (ip ++ fp) ≠ []) (exp10 : Int) :
    placeDigits ip fp exp10 =
      placePoint (significant (ip ++ fp)) (ip.length - leadZeros (ip ++ fp) + exp10) := by
  have hkept : (significant (ip ++ fp)).isEmpty = false := List.isEmpty_eq_false_iff.mpr h
  have hplace : placeDigits ip fp exp10 = placePoint
      (if (significant (ip ++ fp)).isEmpty then lit "0" else significant (ip ++ fp))
      (ip.length - leadZeros (ip ++ fp) + exp10) := rfl
  rw [hplace, hkept, if_neg Bool.false_ne_true]

/-! ## The zeros at both ends -/

theorem takeWhile_isZeroDigit (s : Str) :
    s.takeWhile isZeroDigit = List.replicate (s.takeWhile isZeroDigit).length (ofChar '0') :=
  List.eq_replicate_length.mpr fun _ hc => beq_iff_eq.mp
    (List.mem_takeWhile_imp (p := isZeroDigit) hc)

theorem length_takeWhile (s : Str) :
    (s.takeWhile isZeroDigit).length = s.length - (s.dropWhile isZeroDigit).length := by
  have h := congrArg List.length (List.takeWhile_append_dropWhile (p := isZeroDigit) (l := s))
  rw [List.length_append] at h
  omega

theorem zeros_append_dropWhile (s : Str) :
    List.replicate (leadZeros s) (ofChar '0') ++ s.dropWhile isZeroDigit = s := by
  rw [leadZeros, ← length_takeWhile, ← takeWhile_isZeroDigit, List.takeWhile_append_dropWhile]

theorem significant_append_zeros (all : Str) :
    significant all ++ List.replicate (tailZeros all) (ofChar '0') = all.dropWhile isZeroDigit := by
  have h := congrArg List.reverse (zeros_append_dropWhile (all.dropWhile isZeroDigit).reverse)
  rw [List.reverse_append, List.reverse_reverse, List.reverse_replicate] at h
  rw [tailZeros]
  simpa only [significant, leadZeros, List.length_reverse] using h

/-- The significant digits, between the zeros. -/
theorem zeros_significant_zeros (all : Str) : List.replicate (leadZeros all) (ofChar '0') ++
    (significant all ++ List.replicate (tailZeros all) (ofChar '0')) = all := by
  rw [significant_append_zeros, zeros_append_dropWhile]

theorem length_eq (all : Str) :
    leadZeros all + (significant all).length + tailZeros all = all.length := by
  have h := congrArg List.length (zeros_significant_zeros all)
  simp only [List.length_append, List.length_replicate] at h
  omega

theorem decimalValue_significant (all : Str) :
    decimalValue all = decimalValue (significant all) * 10 ^ tailZeros all := by
  conv_lhs => rw [← zeros_significant_zeros all]
  rw [decimalValue_zeros_append, decimalValue_append_zeros]

theorem significant_subset {all : Str} {c : CodePoint} (h : c ∈ significant all) : c ∈ all := by
  rw [significant, List.mem_reverse] at h
  exact (List.dropWhile_sublist _).subset
    (List.mem_reverse.mp ((List.dropWhile_sublist _).subset h))

/-- Digits that are a positive number have a significant one. -/
theorem significant_ne_nil {all : Str} (h : 0 < decimalValue all) : significant all ≠ [] := by
  intro heq
  rw [decimalValue_significant, heq] at h
  simp [decimalValue] at h

theorem ne_zero_of_head_dropWhile {s : Str} {c : CodePoint}
    (h : (s.dropWhile isZeroDigit).head? = some c) : c ≠ ofChar '0' := by
  have hne : s.dropWhile isZeroDigit ≠ [] := by
    intro heq
    simp [heq] at h
  have hhead := List.head_dropWhile_not isZeroDigit hne
  rw [List.head?_eq_some_head hne] at h
  rw [← Option.some.inj h]
  exact beq_eq_false_iff_ne.mp hhead

/-- The first significant digit is no zero. -/
theorem head_significant {all : Str} {c : CodePoint} (h : (significant all).head? = some c) :
    c ≠ ofChar '0' := by
  refine ne_zero_of_head_dropWhile (s := all) ?_
  rw [← significant_append_zeros, List.head?_append, h, Option.some_or]

/-- Neither is the last. -/
theorem last_significant {all : Str} {c : CodePoint} (h : (significant all).getLast? = some c) :
    c ≠ ofChar '0' := by
  rw [significant, List.getLast?_reverse] at h
  exact ne_zero_of_head_dropWhile h

/-! ## The four layouts -/

/-- Digits without a zero at either end. -/
structure Significant (digits : Str) : Prop where
  ne_nil : digits ≠ []
  isDigit : digits.all isDigit = true
  head : ∀ c ∈ digits.head?, c ≠ ofChar '0'
  last : ∀ c ∈ digits.getLast?, c ≠ ofChar '0'

/-- What a layout of digits, `n` of them before the point, has to be. -/
structure Layout (digits : Str) (n : Int) (q : DecimalForm) : Prop where
  text : placePoint digits n = q.text
  wellFormed : q.WellFormed
  trimmed : q.Trimmed
  value : q.value = decimalValue digits * (10 : Rat) ^ (n - digits.length)
  exp : q.exp.isSome = true ↔ n ≤ -6 ∨ 21 < n

variable {digits : Str} {n : Int}

theorem all_replicate_zero (k : Nat) : (List.replicate k (ofChar '0')).all isDigit = true :=
  List.all_eq_true.mpr fun _ hc => (List.eq_of_mem_replicate hc) ▸ (by decide)

/-- An integer: zeros behind the digits. -/
theorem layout_integer (h : Significant digits) (hle : digits.length ≤ n) (hn : n ≤ 21) :
    ∃ q, Layout digits n q := by
  have hpos := List.length_pos_of_ne_nil h.ne_nil
  refine ⟨⟨digits ++ List.replicate (n - digits.length).toNat (ofChar '0'), none, none⟩,
    ?_, ⟨?_, ?_, by simp, by simp⟩, ⟨fun hhead => ?_, by simp⟩, ?_, ?_⟩
  · rw [placePoint, if_pos ⟨hle, hn⟩]
    simp [DecimalForm.text, DecimalForm.pointText, DecimalForm.expText]
  · simp [h.ne_nil]
  · rw [List.all_append, h.isDigit, all_replicate_zero]
    rfl
  · rw [List.head?_append_of_ne_nil _ h.ne_nil] at hhead
    exact absurd rfl (h.head _ hhead)
  · have hexp : (10 : Rat) ^ (n - digits.length) = 10 ^ (n - digits.length).toNat := by
      rw [← zpow_natCast, Int.toNat_of_nonneg (by omega)]
    rw [hexp]
    simp [DecimalForm.value, DecimalForm.fraction, DecimalForm.exponent, decimalValue_append_zeros]
  · simp
    omega

/-- A point between the digits. -/
theorem layout_point (h : Significant digits) (hlt : n < digits.length) (hpos : 0 < n)
    (hn : n ≤ 21) : ∃ q, Layout digits n q := by
  obtain ⟨m, rfl⟩ := Int.eq_ofNat_of_zero_le hpos.le
  have hm : m < digits.length := by omega
  have hdrop : digits.drop m ≠ [] := List.ne_nil_of_length_pos (by rw [List.length_drop]; omega)
  have htake : digits.take m ≠ [] := List.ne_nil_of_length_pos (by rw [List.length_take]; omega)
  refine ⟨⟨digits.take m, some (digits.drop m), none⟩, ?_, ⟨htake, ?_, ?_, by simp⟩,
    ⟨fun hhead => ?_, ?_⟩, ?_, ?_⟩
  · rw [placePoint, if_neg (by omega), if_pos ⟨hpos, hn⟩]
    simp [DecimalForm.text, DecimalForm.pointText, DecimalForm.expText, lit]
  · exact List.all_eq_true.mpr fun c hc => List.all_eq_true.mp h.isDigit c (List.mem_of_mem_take hc)
  · rintro f ⟨⟩
    exact ⟨hdrop, List.all_eq_true.mpr fun c hc =>
      List.all_eq_true.mp h.isDigit c (List.mem_of_mem_drop hc)⟩
  · rw [List.head?_take, if_neg (by omega)] at hhead
    exact absurd rfl (h.head _ hhead)
  · rintro f ⟨⟩ hlast
    rw [List.getLast?_drop, if_neg (by omega)] at hlast
    exact absurd rfl (h.last _ hlast)
  · have hlen : (digits.drop m).length = digits.length - m := List.length_drop
    simp only [DecimalForm.value, DecimalForm.fraction, DecimalForm.exponent, Option.getD_some,
      List.take_append_drop, hlen]
    congr 2
    omega
  · simp
    omega

/-- Zeros between the point and the digits. -/
theorem layout_small (h : Significant digits) (hle : n ≤ 0) (hn : -6 < n) :
    ∃ q, Layout digits n q := by
  have hpos := List.length_pos_of_ne_nil h.ne_nil
  refine ⟨⟨lit "0", some (List.replicate (-n).toNat (ofChar '0') ++ digits), none⟩,
    ?_, ⟨by simp [lit], rfl, ?_, by simp⟩, ⟨fun _ => rfl, ?_⟩, ?_, ?_⟩
  · rw [placePoint, if_neg (by omega), if_neg (by omega), if_pos ⟨hn, hle⟩]
    simp [DecimalForm.text, DecimalForm.pointText, DecimalForm.expText, lit]
  · rintro f ⟨⟩
    refine ⟨by simp [h.ne_nil], ?_⟩
    rw [List.all_append, h.isDigit, all_replicate_zero]
    rfl
  · rintro f ⟨⟩ hlast
    rw [List.getLast?_append_of_ne_nil _ h.ne_nil] at hlast
    exact absurd rfl (h.last _ hlast)
  · have hvalue : decimalValue (lit "0" ++ (List.replicate (-n).toNat (ofChar '0') ++ digits)) =
        decimalValue digits := by
      rw [decimalValue_append, decimalValue_zeros_append]
      exact (congrArg (· + _) (Nat.zero_mul _)).trans (Nat.zero_add _)
    simp only [DecimalForm.value, DecimalForm.fraction, DecimalForm.exponent, Option.getD_some,
      hvalue, List.length_append, List.length_replicate]
    congr 2
    omega
  · simp
    omega

/-- One digit before the point, and an exponent. -/
theorem layout_exponent (h : Significant digits) (hn : n ≤ -6 ∨ 21 < n) :
    ∃ q, Layout digits n q := by
  obtain ⟨c, ds, rfl⟩ := List.exists_cons_of_ne_nil h.ne_nil
  obtain ⟨hc, hds⟩ : isDigit c = true ∧ ds.all isDigit = true := by
    simpa only [List.all_cons, Bool.and_eq_true] using h.isDigit
  have hzero : c ≠ ofChar '0' := h.head c rfl
  refine ⟨⟨[c], if ds = [] then none else some ds,
      some (decide (n - 1 < 0), decimal (n - 1).natAbs)⟩,
    ?_, ⟨by simp, by simp [hc], ?_, ?_⟩, ⟨fun _ => rfl, ?_⟩, ?_, ?_⟩
  · have hsign : (if 0 ≤ n - 1 then lit "+" else lit "-") =
        [DecimalForm.sign (decide (n - 1 < 0))] := by
      by_cases hneg : n - 1 < 0
      · rw [if_neg (by omega), decide_eq_true hneg]
        rfl
      · rw [if_pos (by omega), decide_eq_false hneg]
        rfl
    rw [placePoint, if_neg (by omega), if_neg (by omega), if_neg (by omega), hsign]
    cases ds with
    | nil => rfl
    | cons d ds => simp [DecimalForm.text, DecimalForm.pointText, DecimalForm.expText, lit]
  · intro f hf
    split at hf
    · cases hf
    · next hne =>
      obtain rfl := Option.some.inj hf
      exact ⟨hne, hds⟩
  · rintro e ⟨⟩
    exact ⟨decimal_ne_nil _, List.all_eq_true.mpr fun d hd => isDigit_of_mem_decimal hd⟩
  · intro f hf
    split at hf
    · cases hf
    · next hne =>
      obtain rfl := Option.some.inj hf
      intro hlast
      refine h.last (ofChar '0') ?_ rfl
      rw [List.getLast?_cons, hlast]
      rfl
  · have hexp : DecimalForm.signed (decide (n - 1 < 0)) (decimalValue (decimal (n - 1).natAbs)) =
        n - 1 := by
      rw [decimalValue_decimal, DecimalForm.signed]
      by_cases hneg : n - 1 < 0
      · rw [decide_eq_true hneg, if_pos rfl]
        omega
      · rw [decide_eq_false hneg, if_neg Bool.false_ne_true]
        omega
    have hfraction : (if ds = [] then none else some ds).getD [] = ds := by
      split
      · next hnil => exact hnil.symm
      · rfl
    simp only [DecimalForm.value, DecimalForm.fraction, DecimalForm.exponent, hexp, hfraction,
      List.singleton_append, List.length_cons]
    congr 2
    omega
  · simpa using hn

theorem exists_layout (h : Significant digits) (n : Int) : ∃ q, Layout digits n q := by
  by_cases hexp : n ≤ -6 ∨ 21 < n
  · exact layout_exponent h hexp
  · rw [not_or, Int.not_le, Int.not_lt] at hexp
    by_cases hle : n ≤ 0
    · exact layout_small h hle hexp.1
    · by_cases hlen : (digits.length : Int) ≤ n
      · exact layout_integer h hlen hexp.2
      · exact layout_point h (by omega) (by omega) hexp.2

/-- The place of the point says between which powers of ten the number is. -/
theorem Layout.bounds {q : DecimalForm} (hq : Layout digits n q) (h : Significant digits) :
    (10 : Rat) ^ (n - 1) ≤ q.value ∧ q.value < (10 : Rat) ^ n := by
  obtain ⟨c, ds, rfl⟩ := List.exists_cons_of_ne_nil h.ne_nil
  have hc : isDigit c = true := List.all_eq_true.mp h.isDigit c List.mem_cons_self
  have hlow : ((10 : Rat) ^ ds.length) ≤ decimalValue (c :: ds) := by
    exact_mod_cast pow_le_decimalValue (s := ds) hc (h.head c rfl)
  have hhigh : (decimalValue (c :: ds) : Rat) < 10 ^ (c :: ds).length := by
    exact_mod_cast decimalValue_lt h.isDigit
  have hpos : (0 : Rat) < 10 ^ (n - (c :: ds).length) := by positivity
  rw [hq.value]
  constructor
  · calc (10 : Rat) ^ (n - 1) = 10 ^ ds.length * 10 ^ (n - (c :: ds).length) := by
          rw [← zpow_natCast, ← zpow_add₀ (by norm_num), List.length_cons]
          congr 1
          omega
      _ ≤ _ := mul_le_mul_of_nonneg_right hlow hpos.le
  · calc decimalValue (c :: ds) * (10 : Rat) ^ (n - (c :: ds).length)
        < 10 ^ (c :: ds).length * 10 ^ (n - (c :: ds).length) := mul_lt_mul_of_pos_right hhigh hpos
      _ = 10 ^ n := by
          rw [← zpow_natCast, ← zpow_add₀ (by norm_num)]
          congr 1
          omega

/-- A number has an exponent outside the range that is written plainly. -/
theorem Layout.exp_iff {q : DecimalForm} (hq : Layout digits n q) (h : Significant digits) :
    q.exp.isSome = true ↔ 10 ^ 21 ≤ q.value ∨ q.value < 1 / 10 ^ 6 := by
  obtain ⟨hlow, hhigh⟩ := hq.bounds h
  have hsmall : (1 : Rat) / 10 ^ 6 = 10 ^ (-6 : Int) := by norm_num
  have hlarge : (10 : Rat) ^ 21 = 10 ^ (21 : Int) := by norm_num
  have hmono : ∀ {a b : Int}, a ≤ b → (10 : Rat) ^ a ≤ 10 ^ b :=
    fun hab => zpow_le_zpow_right₀ (by norm_num) hab
  rw [hq.exp, hsmall, hlarge]
  constructor
  · rintro (hn | hn)
    · exact Or.inr (hhigh.trans_le (hmono hn))
    · exact Or.inl ((hmono (by omega)).trans hlow)
  · rintro (hv | hv)
    · by_contra hn
      exact absurd (hhigh.trans_le (hmono (show n ≤ 21 by omega))) (not_lt.mpr hv)
    · by_contra hn
      exact absurd ((hmono (show -6 ≤ n - 1 by omega)).trans hlow) (not_le.mpr hv)

/-- The digits of a positive number are placed so that they denote it. -/
theorem placeDigits_form {p : DecimalForm} (hp : p.WellFormed) (hpos : 0 < p.value) :
    ∃ q : DecimalForm, placeDigits p.whole p.fraction p.exponent = q.text ∧ q.WellFormed ∧
      q.Trimmed ∧ q.value = p.value ∧
      (q.exp.isSome = true ↔ 10 ^ 21 ≤ p.value ∨ p.value < 1 / 10 ^ 6) := by
  have hall : (p.whole ++ p.fraction).all isDigit = true := by
    rw [List.all_append, hp.whole, hp.fraction]
    rfl
  have hvalue : 0 < decimalValue (p.whole ++ p.fraction) := by
    refine Nat.pos_of_ne_zero fun hzero => ?_
    rw [DecimalForm.value, hzero, Nat.cast_zero, zero_mul] at hpos
    exact lt_irrefl _ hpos
  have hne := significant_ne_nil hvalue
  have hsig : Significant (significant (p.whole ++ p.fraction)) :=
    ⟨hne, List.all_eq_true.mpr fun c hc => List.all_eq_true.mp hall c (significant_subset hc),
      fun c hc => head_significant hc, fun c hc => last_significant hc⟩
  obtain ⟨q, hq⟩ := exists_layout hsig
    (p.whole.length - leadZeros (p.whole ++ p.fraction) + p.exponent)
  have hsame : q.value = p.value := by
    have hlen := length_eq (p.whole ++ p.fraction)
    rw [List.length_append] at hlen
    rw [hq.value, DecimalForm.value, decimalValue_significant (p.whole ++ p.fraction), Nat.cast_mul,
      Nat.cast_pow, mul_assoc, Nat.cast_ofNat, ← zpow_natCast, ← zpow_add₀ (by norm_num)]
    congr 2
    omega
  refine ⟨q, (placeDigits_eq hne _).trans hq.text, hq.wellFormed, hq.trimmed, hsame, ?_⟩
  rw [hq.exp_iff hsig, hsame]

/-! ## Reading `repr` -/

theorem partition_append {sep : CodePoint} {a : Str} (ha : ∀ c ∈ a, c ≠ sep) (b : Str) :
    partition sep (a ++ sep :: b) = (a, b) := by
  have hne : ∀ c ∈ a, (c != sep) = true := fun c hc => bne_iff_ne.mpr (ha c hc)
  rw [partition, List.takeWhile_append_of_pos hne, List.dropWhile_append_of_pos hne]
  simp

theorem partition_self {sep : CodePoint} {a : Str} (ha : ∀ c ∈ a, c ≠ sep) :
    partition sep a = (a, []) := by
  have hne : ∀ c ∈ a, (c != sep) = true := fun c hc => bne_iff_ne.mpr (ha c hc)
  rw [partition, List.takeWhile_eq_self_iff.mpr hne, List.dropWhile_eq_nil_iff.mpr hne]
  rfl

theorem ne_of_isDigit {s : Str} (h : s.all isDigit = true) {x : Char}
    (hx : isDigit (ofChar x) = false) : ∀ c ∈ s, c ≠ ofChar x := by
  rintro c hc rfl
  rw [List.all_eq_true.mp h _ hc] at hx
  cases hx

/-- The part before the exponent. -/
def mantissa (p : DecimalForm) : Str := p.whole ++ DecimalForm.pointText p.point

/-- The part behind the `e`. -/
def expDigits (p : DecimalForm) : Str := (DecimalForm.expText p.exp).drop 1

variable {R : Runtime} {p : DecimalForm}

theorem mantissa_ne_e (hp : p.WellFormed) : ∀ c ∈ mantissa p, c ≠ ofChar 'e' := by
  intro c hc
  rw [mantissa, List.mem_append] at hc
  obtain hc | hc := hc
  · exact ne_of_isDigit hp.whole (by decide) c hc
  · cases hpoint : p.point with
    | none => simp [hpoint, DecimalForm.pointText] at hc
    | some f =>
      rw [hpoint] at hc
      obtain rfl | hc := List.mem_cons.mp hc
      · decide
      · exact ne_of_isDigit (hp.point f hpoint).2 (by decide) c hc

theorem partition_e (hp : p.WellFormed) :
    partition (ofChar 'e') p.text = (mantissa p, expDigits p) := by
  have htext : p.text = mantissa p ++ DecimalForm.expText p.exp := (List.append_assoc _ _ _).symm
  rw [htext, expDigits]
  cases hexp : p.exp with
  | none =>
    rw [DecimalForm.expText, List.append_nil, partition_self (mantissa_ne_e hp)]
    rfl
  | some e =>
    rw [DecimalForm.expText, partition_append (mantissa_ne_e hp)]
    rfl

theorem partition_point (hp : p.WellFormed) :
    partition (ofChar '.') (mantissa p) = (p.whole, p.fraction) := by
  have hwhole := ne_of_isDigit hp.whole (show isDigit (ofChar '.') = false by decide)
  rw [mantissa, DecimalForm.fraction]
  cases p.point with
  | none =>
    rw [DecimalForm.pointText, List.append_nil, partition_self hwhole]
    rfl
  | some f =>
    rw [DecimalForm.pointText, partition_append hwhole]
    rfl

/-- A text is that of one decimal number. -/
theorem text_injective {q : DecimalForm} (hp : p.WellFormed) (hq : q.WellFormed)
    (h : p.text = q.text) : p = q := by
  have he := partition_e hp
  rw [h, partition_e hq] at he
  obtain ⟨hmantissa, hexp⟩ := Prod.mk.inj he
  have hpoint := partition_point hp
  rw [← hmantissa, partition_point hq] at hpoint
  obtain ⟨hwhole, hfraction⟩ := Prod.mk.inj hpoint
  obtain ⟨whole, point, exp⟩ := p
  obtain ⟨whole', point', exp'⟩ := q
  obtain rfl : whole' = whole := hwhole
  obtain rfl : point = point' := by
    have hp := hp.point
    have hq := hq.point
    cases point with
    | none =>
      cases point' with
      | none => rfl
      | some f => exact absurd hfraction (hq f rfl).1
    | some f =>
      cases point' with
      | none => exact absurd hfraction.symm (hp f rfl).1
      | some g => exact congrArg some hfraction.symm
  obtain rfl : exp = exp' := by
    cases exp with
    | none =>
      cases exp' with
      | none => rfl
      | some e => cases hexp
    | some e =>
      cases exp' with
      | none => cases hexp
      | some e' =>
        obtain ⟨neg, ds⟩ := e
        obtain ⟨neg', ds'⟩ := e'
        obtain ⟨hsign, rfl⟩ := List.cons.inj hexp
        have hneg : neg = neg' := by
          revert hsign
          cases neg <;> cases neg' <;> decide
        rw [hneg]
  rfl

/-- `int` of the exponent, where there is one. -/
def reprExponent (R : Runtime) (p : DecimalForm) : Except PyError Int :=
  if p.exp.isSome then R.int (.str (expDigits p)) else .ok 0

theorem some_neg_beq_zero (n : Int) : (some (-n) == some 0) = (some n == some 0) := by
  rw [Bool.eq_iff_iff, beq_iff_eq, beq_iff_eq, Option.some_inj, Option.some_inj, Int.neg_eq_zero]

theorem isZero_sign (neg : Bool) (exp : Fin 2047) (frac : Fin 4503599627370496) :
    (PyFloat.fin neg exp frac).isZero = (PyFloat.fin false exp frac).isZero := by
  unfold PyFloat.isZero PyFloat.toInt?
  cases neg with
  | false => rfl
  | true =>
    dsimp only
    split
    · exact some_neg_beq_zero _
    · split
      · exact some_neg_beq_zero _
      · rfl

/-- `js_number` of a double with this `repr`. -/
theorem jsDouble_eq (hp : p.WellFormed) (hlower : R.lower p.text = p.text) (neg : Bool)
    {exp : Fin 2047} {frac : Fin 4503599627370496}
    (hzero : (PyFloat.fin neg exp frac).isZero = false)
    (hrepr : R.floatRepr (.fin false exp frac) = p.text) :
    jsDouble R (.fin neg exp frac) = (reprExponent R p).map fun e =>
      (if neg then lit "-" else []) ++ placeDigits p.whole p.fraction e := by
  have hfraction : p.fraction.contains (ofChar '.') = false := by
    refine Bool.eq_false_iff.mpr fun hmem => ?_
    exact ne_of_isDigit hp.fraction (by decide) _ (List.contains_iff_mem.mp hmem) rfl
  have habs : absFloat (.fin neg exp frac) = .fin false exp frac := rfl
  have hempty : (expDigits p).isEmpty = !p.exp.isSome := by
    unfold expDigits
    cases p.exp with
    | none => rfl
    | some e => rfl
  unfold jsDouble
  dsimp only
  rw [hzero, if_neg Bool.false_ne_true, habs, hrepr, hlower, partition_e hp]
  dsimp only
  rw [partition_point hp, hempty]
  dsimp only
  rw [hfraction, reprExponent]
  cases p.exp.isSome with
  | false => rfl
  | true =>
    cases R.int (.str (expDigits p)) with
    | error e => rfl
    | ok e => rfl

end Preaction.Rfc8785
