import Preaction.JcsWriter
import Preaction.Py.Rounding
import Preaction.WorkAcceptance.JcsAgree

/-!
# The vendored "strict" canonicalizer

`check_composed_envelope.py` and `check_sequence_integrity.py` carry one text of a
canonicalizer of their own. It differs from `tools/_rfc8785.py` in its numbers: an
integer is its digits, however large, where RFC 8785 reads it as a double first, and
a double that `repr` writes with an exponent is refused.

On integers the two agree below `2^53`, and from there on exactly on those below
`10^21` that are the shortest decimal of their own double (`jsInt_eq_iff`).

Mirroring notes:
- `assert float(r) == x` holds of what `repr` returns and is left out.
- `str` of an integer raises where it has more digits than
  `sys.get_int_max_str_digits()`, which is 0 or at least 640.
-/

namespace Preaction.VendoredJcs

open Preaction.Py Preaction.Loop Rfc8785 Decimal

variable (R : Runtime)

/-- An integer with more digits than `str` takes. -/
def TooLong (n : Int) : Prop :=
  R.maxStrDigits ≠ 0 ∧ R.maxStrDigits < (decimal n.natAbs).length

instance decidableTooLong (n : Int) : Decidable (TooLong R n) :=
  inferInstanceAs (Decidable (_ ∧ _))

/-- `str(n)` -/
def strOfInt (n : Int) : Except PyError Str :=
  if TooLong R n then .error .valueError else .ok (intStr n)

/-- `r` behind its asserts. -/
def plainRepr (x : PyFloat) : Except PyError Str :=
  let r := R.floatRepr x
  if r.contains (ofChar 'e') || r.contains (ofChar 'E') then .error .assertionError else .ok r

/-- `_jcs_number(x)` -/
def jcsNumber : Json → Except PyError Str
  | .int n => strOfInt R n
  | .float x =>
    match x with
    | .nan | .inf _ => .error .valueError
    | .fin neg exp frac =>
      match (PyFloat.fin neg exp frac).toInt? with
      | some n => if n.natAbs < 10 ^ 21 then strOfInt R n else plainRepr R x
      | none => plainRepr R x
  | _ => .error .typeError

/-- `jcs(obj)`; its `_jcs_string` is `js_string`. -/
def jcs (obj : Json) : Except PyError Str := write (jcsNumber R) obj

/-! ## Integers as doubles -/

/-- What `repr` of a positive double is documented to be, the shortest decimal that is
read as it, and `int` of the exponent there. -/
structure ReprOf (exp : Fin 2047) (frac : Fin 4503599627370496) (p : DecimalForm) : Prop where
  text : R.floatRepr (.fin false exp frac) = p.text
  wellFormed : p.WellFormed
  exponent : ∀ neg ds, p.exp = some (neg, ds) →
    R.intOfStr (DecimalForm.sign neg :: ds) = some (DecimalForm.signed neg (decimalValue ds))
  shortest : Shortest (ReadsAs exp frac) (integralValue exp frac) p.value

variable {R} {exp : Fin 2047} {frac : Fin 4503599627370496} {p : DecimalForm} {n : Int}

theorem isZero_of_exp (neg : Bool) (frac : Fin 4503599627370496) (hexp : 1075 ≤ exp.val) :
    (PyFloat.fin neg exp frac).isZero = false := by
  have hnormal : exp.val ≠ 0 := by omega
  obtain ⟨hsig, -⟩ := significand_bounds frac hnormal
  have hscale : PyFloat.scale exp = exp.val := if_neg (by omega)
  have hpos : 0 < PyFloat.significand exp frac * 2 ^ (exp.val - 1075) := by positivity
  rw [isZero_sign, PyFloat.isZero, PyFloat.toInt?]
  dsimp only
  rw [hscale, if_pos hexp, if_neg Bool.false_ne_true, beq_eq_false_iff_ne]
  intro h
  have := Option.some.inj h
  omega

/-- `js_number` of a double with this `repr` denotes what that denotes. -/
theorem jsDouble_denotes (hlower : ∀ s, (∀ c ∈ s, c.val < 0x80) → R.lower s = Runtime.asciiLower s)
    (hp : ReprOf R exp frac p) (hexp : 1075 ≤ exp.val) (neg : Bool) :
    ∃ q : DecimalForm, jsDouble R (.fin neg exp frac) =
        .ok ((if neg then lit "-" else []) ++ q.text) ∧ q.WellFormed ∧ q.Trimmed ∧
      q.value = p.value ∧ (q.exp.isSome = true ↔ 10 ^ 21 ≤ p.value ∨ p.value < 1 / 10 ^ 6) := by
  obtain ⟨q, htext, hq, htrim, hvalue, hqexp⟩ :=
    placeDigits_form hp.wellFormed hp.shortest.same.1
  obtain ⟨hascii, hsame⟩ := hp.wellFormed.lower_text
  have hjs := jsDouble_eq hp.wellFormed ((hlower _ hascii).trans hsame) neg
    (isZero_of_exp neg frac hexp) hp.text
  rw [WarCheck.reprExponent_eq hp.exponent] at hjs
  refine ⟨q, hjs.trans ?_, hq, htrim, hvalue, hqexp⟩
  rw [← htext]
  rfl

theorem intStr_eq (n : Int) :
    intStr n = (if decide (n < 0) then lit "-" else []) ++ decimal n.natAbs := by
  cases n with
  | ofNat m => rfl
  | negSucc m =>
    rw [if_pos (decide_eq_true (Int.negSucc_lt_zero m))]
    rfl

/-- An integer that rounds to this double is written as it. -/
theorem jsInt_eq_jsDouble (hlarge : 2 ^ 53 ≤ n.natAbs)
    (hround : roundToDouble false n.natAbs 1 = .fin false exp frac) :
    jsInt R n = jsDouble R (.fin (decide (n < 0)) exp frac) := by
  have hfloat : floatOfInt n = .ok (.fin (decide (n < 0)) exp frac) := by
    rw [floatOfInt, roundToDouble_sign _ hround]
  rw [jsInt, if_neg (by omega), hfloat]
  rfl

/-- The digits of an integer as a decimal number. -/
def integerForm (n : Nat) : DecimalForm := ⟨decimal n, none, none⟩

theorem integerForm_wellFormed (n : Nat) : (integerForm n).WellFormed where
  whole_ne := decimal_ne_nil n
  whole := WarCheck.all_decimal n
  point := by simp [integerForm]
  exp := by simp [integerForm]

theorem integerForm_text (n : Nat) : (integerForm n).text = decimal n := by
  show decimal n ++ ([] ++ []) = decimal n
  rw [List.append_nil, List.append_nil]

theorem integerForm_value (n : Nat) : (integerForm n).value = n := by
  show (decimalValue (decimal n ++ []) : Rat) * (10 : Rat) ^ (0 - ((0 : Nat) : Int)) = n
  rw [List.append_nil, decimalValue_decimal, Nat.cast_zero, sub_zero, zpow_zero, mul_one]

/-- From `2^53` on RFC 8785 writes an integer as its digits exactly where it is below
`10^21` and the shortest decimal of its own double. -/
theorem jsInt_eq_iff (hlower : ∀ s, (∀ c ∈ s, c.val < 0x80) → R.lower s = Runtime.asciiLower s)
    (hlarge : 2 ^ 53 ≤ n.natAbs) (hround : roundToDouble false n.natAbs 1 = .fin false exp frac)
    (hp : ReprOf R exp frac p) : jsInt R n = .ok (intStr n) ↔
      n.natAbs < 10 ^ 21 ∧ Shortest (ReadsAs exp frac) (integralValue exp frac) n.natAbs := by
  have hlow := exp_of_large hlarge hround
  obtain ⟨q, hq, hwf, htrim, hvalue, hexp⟩ := jsDouble_denotes hlower hp (by omega) (decide (n < 0))
  rw [jsInt_eq_jsDouble hlarge hround, hq, intStr_eq, Except.ok.injEq, List.append_cancel_left_eq]
  constructor
  · intro htext
    rw [← integerForm_text] at htext
    obtain rfl := text_injective hwf (integerForm_wellFormed _) htext
    rw [integerForm_value] at hvalue
    rw [← hvalue] at hexp
    refine ⟨?_, ?_⟩
    · by_contra hle
      have hle' : (10 : Rat) ^ 21 ≤ n.natAbs := by exact_mod_cast not_lt.mp hle
      exact absurd (hexp.mpr (Or.inl hle')) (by simp [integerForm])
    · rw [hvalue]
      exact hp.shortest
  · rintro ⟨hsmall, hshort⟩
    have hhigh := exp_of_small (by omega) (by omega) hround
    have hsame : p.value = n.natAbs := shortest_unique hlow hhigh hp.shortest hshort
    have hnone : q.exp = none := by
      refine Option.not_isSome_iff_eq_none.mp fun hsome => ?_
      rw [hsame] at hexp
      rcases hexp.mp hsome with h | h
      · have : 10 ^ 21 ≤ n.natAbs := by exact_mod_cast h
        omega
      · have h1 : (1 : Rat) ≤ n.natAbs := by exact_mod_cast (show 1 ≤ n.natAbs by omega)
        have h2 : (1 : Rat) / 10 ^ 6 < 1 := by norm_num
        linarith
    exact htrim.text_eq hwf hnone (by omega) (hvalue.trans hsame)

/-! ## Agreement on integers -/

/-- The integer is the shortest decimal of the double nearest to it: no decimal of fewer
digits is read as that double, and none of as few is nearer to it. -/
def ShortestOfDouble (n : Nat) : Prop :=
  ∃ exp frac, roundToDouble false n 1 = .fin false exp frac ∧
    Shortest (ReadsAs exp frac) (integralValue exp frac) n

/-- An integer that RFC 8785 writes as its digits. -/
def Exact (n : Int) : Prop :=
  n.natAbs < 2 ^ 53 ∨ n.natAbs < 10 ^ 21 ∧ ShortestOfDouble n.natAbs

/-- What the integer needs of the runtime: the `repr` of its double, where it has one. -/
def ReprAt (R : Runtime) (n : Int) : Prop :=
  2 ^ 53 ≤ n.natAbs → ∀ exp frac, roundToDouble false n.natAbs 1 = .fin false exp frac →
    ∃ p, ReprOf R exp frac p

/-- `sys.get_int_max_str_digits()` is no limit, or one of its allowed values. -/
def DigitLimit (R : Runtime) : Prop := R.maxStrDigits = 0 ∨ 640 ≤ R.maxStrDigits

theorem finite_of_jsInt_ok {t : Str} (hlarge : 2 ^ 53 ≤ n.natAbs) (h : jsInt R n = .ok t) :
    ∃ exp frac, roundToDouble false n.natAbs 1 = .fin false exp frac := by
  rw [jsInt, if_neg (by omega)] at h
  obtain ⟨x, hx, h⟩ := bind_ok.mp h
  cases x with
  | nan => cases h
  | inf neg => cases h
  | fin neg exp frac =>
    have hround : roundToDouble (decide (n < 0)) n.natAbs 1 = .fin neg exp frac := by
      unfold floatOfInt at hx
      split at hx
      next => cases hx
      next => exact Except.ok.inj hx
    exact ⟨exp, frac, roundToDouble_sign false hround⟩

theorem not_tooLong_of_lt (hlimit : DigitLimit R) (h : n.natAbs < 10 ^ 21) : ¬ TooLong R n := by
  rintro ⟨hne, hlong⟩
  have hlen := (length_decimal_le_iff (by decide)).mpr h
  rcases hlimit with hzero | hlimit
  · exact hne hzero
  · omega

theorem jsInt_of_tooLong (hlimit : DigitLimit R) (h : TooLong R n) : ¬ Returns (jsInt R n) := by
  obtain ⟨hne, hlong⟩ := h
  have hlen : ¬ (decimal n.natAbs).length ≤ 640 := by
    rcases hlimit with hzero | hlimit
    · exact absurd hzero hne
    · omega
  rw [length_decimal_le_iff (by decide), not_lt] at hlen
  -- so many digits are beyond all doubles
  have hpow (m : Nat) : 2 ^ (3 * m) ≤ 10 ^ m := by
    rw [pow_mul]
    exact Nat.pow_le_pow_left (by decide) m
  have hbeyond := (hpow 640).trans hlen
  have hinf (neg : Bool) := roundToDouble_inf neg (by decide) hbeyond
  have hlarge : 2 ^ 53 ≤ n.natAbs :=
    (Nat.pow_le_pow_right (by decide) (by decide)).trans hbeyond
  rintro ⟨t, ht⟩
  obtain ⟨exp, frac, hfin⟩ := finite_of_jsInt_ok hlarge ht
  rw [hinf false] at hfin
  cases hfin

/-- The two write an integer alike exactly where it is exact. -/
theorem int_agree_iff (hlimit : DigitLimit R)
    (hlower : ∀ s, (∀ c ∈ s, c.val < 0x80) → R.lower s = Runtime.asciiLower s)
    (hrepr : ReprAt R n) :
    (∃ t, jcsNumber R (.int n) = .ok t ∧ jsNumber R (.int n) = .ok t) ↔ Exact n := by
  rw [jcsNumber, jsNumber, strOfInt]
  constructor
  · rintro ⟨t, hstr, hjs⟩
    refine or_iff_not_imp_left.mpr fun hlarge => ?_
    have hlarge' : 2 ^ 53 ≤ n.natAbs := not_lt.mp hlarge
    obtain ⟨exp, frac, hround⟩ := finite_of_jsInt_ok hlarge' hjs
    obtain ⟨p, hp⟩ := hrepr hlarge' exp frac hround
    split at hstr
    next => cases hstr
    next =>
      rw [← Except.ok.inj hstr] at hjs
      obtain ⟨hsmall, hshort⟩ := (jsInt_eq_iff hlower hlarge' hround hp).mp hjs
      exact ⟨hsmall, exp, frac, hround, hshort⟩
  · intro hexact
    have hsmall : n.natAbs < 10 ^ 21 := by
      rcases hexact with h | h
      · omega
      · exact h.1
    rw [if_neg (not_tooLong_of_lt hlimit hsmall)]
    refine ⟨intStr n, rfl, ?_⟩
    by_cases hlarge : n.natAbs < 2 ^ 53
    · rw [jsInt, if_pos hlarge]
      rfl
    · obtain ⟨-, exp, frac, hround, hshort⟩ := hexact.resolve_left hlarge
      obtain ⟨p, hp⟩ := hrepr (not_lt.mp hlarge) exp frac hround
      exact (jsInt_eq_iff hlower (not_lt.mp hlarge) hround hp).mpr ⟨hsmall, hshort⟩

/-- The tokens of an integer end before what can stand behind them. -/
theorem delimits_jsInt
    (hlower : ∀ s, (∀ c ∈ s, c.val < 0x80) → R.lower s = Runtime.asciiLower s)
    (hrepr : ReprAt R n) {t : Str} (h : jsInt R n = .ok t) : ∀ c ∈ t, isDelim c = false := by
  by_cases hlarge : n.natAbs < 2 ^ 53
  · rw [jsInt, if_pos hlarge] at h
    obtain rfl := Except.ok.inj h
    exact intStr_no_delim n
  · obtain ⟨exp, frac, hround⟩ := finite_of_jsInt_ok (not_lt.mp hlarge) h
    obtain ⟨p, hp⟩ := hrepr (not_lt.mp hlarge) exp frac hround
    have hexp := exp_of_large (not_lt.mp hlarge) hround
    obtain ⟨q, hq, hwf, -⟩ := jsDouble_denotes hlower hp (by omega) (decide (n < 0))
    rw [jsInt_eq_jsDouble (not_lt.mp hlarge) hround, hq] at h
    obtain rfl := Except.ok.inj h
    intro c hc
    rcases List.mem_append.mp hc with hc | hc
    · split at hc
      next =>
        obtain rfl := List.mem_singleton.mp hc
        decide
      next => cases hc
    · rcases hwf.mem_text hc with hdigit | rfl | rfl | rfl | rfl
      · have := val_of_isDigit hdigit
        simp only [isDelim, Bool.or_eq_false_iff, beq_eq_false_iff_ne]
        omega
      · decide
      · decide
      · decide
      · decide

/-- On a value whose numbers are integers the vendored canonicalizer gives the texts of
`tools/_rfc8785.py` exactly where both raise, at a key or at an integer of too many
digits, or all integers are exact. -/
theorem agree_iff {v : Json} (hlimit : DigitLimit R)
    (hlower : ∀ s, (∀ c ∈ s, c.val < 0x80) → R.lower s = Runtime.asciiLower s)
    (hints : ∀ x, ¬ Within (.float x) v) (hrepr : ∀ n, Within (.int n) v → ReprAt R n) :
    (∀ t, jcs R v = .ok t ↔ Rfc8785.jcs R v = .ok t) ↔
      (ScalarKeys v → (∃ n, Within (.int n) v ∧ TooLong R n) ∨
        ∀ n, Within (.int n) v → Exact n) := by
  have hnumber {P : Json → Prop} : (∀ x, Within x v → isNumber x = true → P x) ↔
      ∀ n, Within (.int n) v → P (.int n) := by
    constructor
    · exact fun h n hw => h _ hw rfl
    · intro h x hw hx
      cases x with
      | int n => exact h n hw
      | float x => exact absurd hw (hints x)
      | _ => cases hx
  have hdelim : Delimits (jcsNumber R) v := hnumber.mpr fun n _ t ht => by
    rw [jcsNumber, strOfInt] at ht
    split at ht
    next => cases ht
    next =>
      rw [← Except.ok.inj ht]
      exact intStr_no_delim n
  have hdelim' : Delimits (jsNumber R) v := hnumber.mpr fun n hw t ht =>
    delimits_jsInt hlower (hrepr n hw) ht
  have htokens : ¬ HasTokens (jcsNumber R) v ↔ ∃ n, Within (.int n) v ∧ TooLong R n := by
    rw [HasTokens, hnumber]
    simp only [not_forall, exists_prop]
    refine exists_congr fun n => and_congr_right fun _ => ?_
    rw [jcsNumber, strOfInt]
    split
    next h => exact iff_of_true (not_returns_error _) h
    next h => exact iff_of_false (not_not.mpr (returns_ok _)) h
  have hraises : (∃ n, Within (.int n) v ∧ TooLong R n) → ¬ HasTokens (jsNumber R) v := by
    rintro ⟨n, hw, hlong⟩ h
    exact jsInt_of_tooLong hlimit hlong (h _ hw rfl)
  rw [jcs, jcs_eq_write, write_agree_iff hdelim hdelim', htokens, hnumber,
    and_iff_left_of_imp hraises]
  refine imp_congr_right fun _ => or_congr_right ?_
  exact forall₂_congr fun n hw => int_agree_iff hlimit hlower (hrepr n hw)

end Preaction.VendoredJcs
