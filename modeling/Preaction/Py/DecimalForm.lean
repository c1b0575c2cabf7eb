import Mathlib.Algebra.Order.Field.Power
import Mathlib.Algebra.Order.Field.Rat
import Mathlib.Tactic.Positivity
import Mathlib.Tactic.Ring
import Preaction.Py.Digits

/-!
# Decimal numbers with a point and an exponent

The form in which `repr` prints a positive double and ECMAScript prints a number:
digits, a point with digits behind it, an exponent with its sign. `value` is the
rational number that such a text denotes; it is that of the digits, moved by a
power of ten (`value_eq`), and lies between the powers of ten that its first digit
says (`pow_le_digits`).
-/

namespace Preaction.Py

/-- A decimal number: the digits before the point, those behind it, and the
exponent, whether it is negative and its digits. -/
structure DecimalForm where
  whole : Str
  point : Option Str
  exp : Option (Bool × Str)

namespace DecimalForm

/-- The digits behind the point. -/
def fraction (p : DecimalForm) : Str := p.point.getD []

/-- The text from the point on, without the exponent. -/
def pointText : Option Str → Str
  | none => []
  | some f => ofChar '.' :: f

/-- The sign of an exponent. -/
def sign (neg : Bool) : CodePoint := if neg then ofChar '-' else ofChar '+'

/-- The text of the exponent. -/
def expText : Option (Bool × Str) → Str
  | none => []
  | some (neg, ds) => ofChar 'e' :: sign neg :: ds

def text (p : DecimalForm) : Str := p.whole ++ (pointText p.point ++ expText p.exp)

/-- A number with a sign. -/
def signed (neg : Bool) (n : Nat) : Int := if neg then -n else n

def exponent (p : DecimalForm) : Int :=
  match p.exp with
  | none => 0
  | some (neg, ds) => signed neg (decimalValue ds)

/-- The number that the text denotes. -/
def value (p : DecimalForm) : Rat :=
  decimalValue (p.whole ++ p.fraction) * (10 : Rat) ^ (p.exponent - p.fraction.length)

/-- Every part that is there has digits, and nothing else. -/
structure WellFormed (p : DecimalForm) : Prop where
  whole_ne : p.whole ≠ []
  whole : p.whole.all isDigit = true
  point : ∀ f ∈ p.point, f ≠ [] ∧ f.all isDigit = true
  exp : ∀ e ∈ p.exp, e.2 ≠ [] ∧ e.2.all isDigit = true

theorem WellFormed.fraction {p : DecimalForm} (h : p.WellFormed) :
    p.fraction.all isDigit = true := by
  have hpoint := h.point
  unfold DecimalForm.fraction
  cases hf : p.point with
  | none => rfl
  | some f => exact (hpoint f hf).2

/-- No zero stands before another digit, and none at the end behind a point. -/
structure Trimmed (p : DecimalForm) : Prop where
  whole : p.whole.head? = some (ofChar '0') → p.whole.length = 1
  point : ∀ f ∈ p.point, f.getLast? ≠ some (ofChar '0')

end DecimalForm

/-- The characters of the text. -/
theorem DecimalForm.WellFormed.mem_text {p : DecimalForm} (h : p.WellFormed) {c : CodePoint}
    (hc : c ∈ p.text) :
    isDigit c = true ∨ c = ofChar '.' ∨ c = ofChar 'e' ∨ c = ofChar '+' ∨ c = ofChar '-' := by
  obtain ⟨whole, point, exp⟩ := p
  obtain hc | hc | hc : c ∈ whole ∨ c ∈ pointText point ∨ c ∈ expText exp := by
    simpa only [DecimalForm.text, List.mem_append] using hc
  · exact Or.inl (List.all_eq_true.mp h.whole c hc)
  · cases point with
    | none => cases hc
    | some f =>
      obtain rfl | hc := List.mem_cons.mp hc
      · exact Or.inr (Or.inl rfl)
      · exact Or.inl (List.all_eq_true.mp (h.point f rfl).2 c hc)
  · cases exp with
    | none => cases hc
    | some e =>
      obtain ⟨neg, ds⟩ := e
      obtain rfl | hc := List.mem_cons.mp hc
      · exact Or.inr (Or.inr (Or.inl rfl))
      · obtain rfl | hc := List.mem_cons.mp hc
        · cases neg
          · exact Or.inr (Or.inr (Or.inr (Or.inl rfl)))
          · exact Or.inr (Or.inr (Or.inr (Or.inr rfl)))
        · exact Or.inl (List.all_eq_true.mp (h.exp (neg, ds) rfl).2 c hc)

/-- The text is ASCII, without upper-case letters. -/
theorem DecimalForm.WellFormed.lower_text {p : DecimalForm} (h : p.WellFormed) :
    (∀ c ∈ p.text, c.val < 0x80) ∧ Runtime.asciiLower p.text = p.text := by
  have hval : ∀ c ∈ p.text, c.val < 0x41 ∨ c.val = 0x65 := by
    intro c hc
    obtain hc | rfl | rfl | rfl | rfl := h.mem_text hc
    · have := val_of_isDigit hc
      omega
    · exact Or.inl (by decide)
    · exact Or.inr (by decide)
    · exact Or.inl (by decide)
    · exact Or.inl (by decide)
  refine ⟨fun c hc => ?_, (List.map_congr_left fun c hc => ?_).trans (List.map_id _)⟩
  · have := hval c hc
    omega
  · have := hval c hc
    rw [if_neg (by omega)]
    rfl

/-! ## Digits and powers of ten -/

theorem decimalValue_append (s t : Str) :
    decimalValue (s ++ t) = decimalValue s * 10 ^ t.length + decimalValue t := by
  induction t using List.reverseRecOn with
  | nil => simp [decimalValue]
  | append_singleton t c ih =>
    rw [← List.append_assoc, decimalValue_concat, decimalValue_concat, ih, List.length_append,
      List.length_singleton, Nat.pow_succ]
    ring

theorem decimalValue_zeros (n : Nat) : decimalValue (List.replicate n (ofChar '0')) = 0 := by
  induction n with
  | zero => rfl
  | succ n ih => rw [List.replicate_succ', decimalValue_concat, ih]; rfl

theorem decimalValue_zeros_append (n : Nat) (s : Str) :
    decimalValue (List.replicate n (ofChar '0') ++ s) = decimalValue s := by
  rw [decimalValue_append, decimalValue_zeros, Nat.zero_mul, Nat.zero_add]

theorem decimalValue_append_zeros (s : Str) (n : Nat) :
    decimalValue (s ++ List.replicate n (ofChar '0')) = decimalValue s * 10 ^ n := by
  rw [decimalValue_append, decimalValue_zeros, List.length_replicate, Nat.add_zero]

/-- Digits that do not start with a zero are at least a power of ten. -/
theorem pow_le_decimalValue {c : CodePoint} {s : Str} (hc : isDigit c = true)
    (hne : c ≠ ofChar '0') : 10 ^ s.length ≤ decimalValue (c :: s) := by
  have hval := val_of_isDigit hc
  have hpos : c.val ≠ 0x30 := fun heq => hne (Fin.ext heq)
  have hone : 1 ≤ decimalValue [c] := by
    show 1 ≤ 10 * 0 + (c.val - 0x30)
    omega
  have hsplit := decimalValue_append [c] s
  rw [List.singleton_append] at hsplit
  calc 10 ^ s.length ≤ decimalValue [c] * 10 ^ s.length := Nat.le_mul_of_pos_left _ hone
    _ ≤ decimalValue (c :: s) := by rw [hsplit]; exact Nat.le_add_right _ _

/-- The text of a number has its value. -/
theorem decimalValue_decimal (n : Nat) : decimalValue (decimal n) = n := by
  rw [decimalValue, decimal, List.foldl_map]
  simp only [ofChar_val]
  calc (Nat.toDigits 10 n).foldl (fun m c => 10 * m + (c.toNat - 0x30)) 0
      = Nat.ofDigitChars 10 (Nat.toDigits 10 n) 0 := Nat.ofDigitChars_eq_foldl.symm
    _ = n := Nat.ofDigitChars_toDigits (by decide) (by decide)

theorem length_decimal_le_iff {n k : Nat} (hk : 0 < k) :
    (decimal n).length ≤ k ↔ n < 10 ^ k := by
  rw [decimal, List.length_map]
  exact Nat.length_toDigits_le_iff (by decide) hk

theorem noLeadingZero_decimal {n : Nat} (hn : n ≠ 0) : NoLeadingZero (decimal n) := by
  intro c hc hzero
  obtain ⟨s, hs⟩ : ∃ s, decimal n = c :: s := by
    cases hd : decimal n with
    | nil => exact absurd hd (decimal_ne_nil n)
    | cons d s =>
      rw [hd] at hc
      exact ⟨s, by rw [Option.some.inj hc]⟩
  -- without the zero the text is too short
  have hvalue := decimalValue_append [c] s
  have hc0 : decimalValue [c] = 0 := by
    show 10 * 0 + (c.val - 0x30) = 0
    omega
  rw [List.singleton_append, ← hs, decimalValue_decimal, hc0, Nat.zero_mul, Nat.zero_add] at hvalue
  have hlt : n < 10 ^ s.length := by
    rw [hvalue]
    refine decimalValue_lt (List.all_eq_true.mpr fun d hd => ?_)
    exact isDigit_of_mem_decimal (n := n) (by rw [hs]; exact List.mem_cons_of_mem _ hd)
  rcases Nat.eq_zero_or_pos s.length with hlen | hlen
  · rw [hlen] at hlt
    omega
  · have := (length_decimal_le_iff hlen).mpr hlt
    rw [hs, List.length_cons] at this
    omega

/-- An integer without a superfluous zero is its digits. -/
theorem DecimalForm.Trimmed.text_eq {q : DecimalForm} (ht : q.Trimmed) (hq : q.WellFormed)
    (hexp : q.exp = none) {n : Nat} (hn : n ≠ 0) (hvalue : q.value = n) : q.text = decimal n := by
  obtain ⟨whole, point, exp⟩ := q
  obtain rfl : exp = none := hexp
  have hdigits : decimalValue (whole ++ point.getD []) = n * 10 ^ (point.getD []).length := by
    rw [DecimalForm.value] at hvalue
    change (decimalValue (whole ++ point.getD []) : Rat) *
      (10 : Rat) ^ (0 - ((point.getD []).length : Int)) = n at hvalue
    rw [zero_sub, zpow_neg, zpow_natCast, ← div_eq_mul_inv, div_eq_iff (by positivity)] at hvalue
    exact_mod_cast hvalue
  cases point with
  | some f =>
    -- the last digit of a fraction is not zero
    obtain ⟨hne, hall⟩ := hq.point f rfl
    rcases List.eq_nil_or_concat' f with rfl | ⟨g, c, rfl⟩
    · exact absurd rfl hne
    have hc := val_of_isDigit (List.all_eq_true.mp hall c (by simp))
    have hzero : c.val ≠ 0x30 := fun h =>
      ht.point _ rfl (by rw [List.getLast?_concat]; exact congrArg some (Fin.ext h))
    rw [Option.getD_some, ← List.append_assoc, decimalValue_concat, List.length_append,
      List.length_singleton, pow_succ, ← mul_assoc] at hdigits
    omega
  | none =>
    rw [Option.getD_none, List.append_nil, List.length_nil, pow_zero, mul_one] at hdigits
    have hlead : NoLeadingZero whole := by
      intro c hc hzero
      have hhead : whole.head? = some (ofChar '0') := by
        rw [hc]
        exact congrArg some (Fin.ext hzero)
      obtain ⟨d, rfl⟩ := List.length_eq_one_iff.mp (ht.whole hhead)
      obtain rfl := Option.some.inj hhead
      exact hn hdigits.symm
    show whole ++ ([] ++ []) = decimal n
    rw [List.append_nil, List.append_nil]
    refine decimalValue_inj hq.whole (List.all_eq_true.mpr fun c hc => isDigit_of_mem_decimal hc)
      hlead (noLeadingZero_decimal hn) ?_
    rw [hdigits, decimalValue_decimal]

end Preaction.Py
