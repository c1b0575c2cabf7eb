import Preaction.NumberLayout
import Preaction.WorkAcceptance.Jcs

/-!
# The two canonical forms agree

`war_check.jcs` and `tools/_rfc8785.jcs` are the same function of a value, up to
the bytes at the end (`jcs_agree`). They part in the text of `repr` they take apart
and in the integers they take for doubles. What settles the first is the form of
that text; the second leaves only `2^53` and its negative, whose double prints as
the integer does.
-/

namespace Preaction.WarCheck

open Preaction.Py Preaction.Rfc8785

/-- What `repr` of a double and `lower` are documented to do. -/
structure ReprLaws (R : Runtime) : Prop where
  /-- ASCII letters have their lower-case forms. -/
  lower : ∀ s, (∀ c ∈ s, c.val < 0x80) → R.lower s = Runtime.asciiLower s
  /-- A positive double is a decimal number. -/
  repr : ∀ exp frac, (PyFloat.fin false exp frac).isZero = false →
    ∃ p : DecimalForm, p.WellFormed ∧ 0 < p.value ∧ R.floatRepr (.fin false exp frac) = p.text
  /-- `repr(2.0 ** 53)` -/
  repr53 : R.floatRepr (.fin false 1076 0) = lit "9007199254740992.0"

variable {R : Runtime} {p : DecimalForm}

theorem contains_append {sep : CodePoint} {a b : Str} (ha : ∀ c ∈ a, c ≠ sep) :
    (a ++ sep :: b).contains sep = true ∧ a.contains sep = false := by
  refine ⟨List.contains_iff_mem.mpr (List.mem_append_right _ List.mem_cons_self), ?_⟩
  exact Bool.eq_false_iff.mpr fun hmem => ha sep (List.contains_iff_mem.mp hmem) rfl

/-- What is read before and behind the `e`. -/
theorem split_e (hp : p.WellFormed) : p.text.contains (ofChar 'e') = p.exp.isSome ∧
    (p.exp.isSome = true → splitPair (ofChar 'e') p.text = .ok (mantissa p, expDigits p)) ∧
    (p.exp.isSome = false → p.text = mantissa p) := by
  have htext : p.text = mantissa p ++ DecimalForm.expText p.exp := (List.append_assoc _ _ _).symm
  have hpart := partition_e hp
  have hexp := hp.exp
  rw [splitPair, hpart]
  dsimp only
  rw [htext, expDigits]
  cases he : p.exp with
  | none =>
    rw [DecimalForm.expText, List.append_nil]
    exact ⟨(contains_append (b := []) (mantissa_ne_e hp)).2, fun h => Bool.noConfusion h,
      fun _ => rfl⟩
  | some e =>
    obtain ⟨neg, ds⟩ := e
    have hdigits := ne_of_isDigit (hexp _ he).2 (show isDigit (ofChar 'e') = false by decide)
    have hrest : ∀ c ∈ DecimalForm.sign neg :: ds, c ≠ ofChar 'e' := by
      refine List.forall_mem_cons.mpr ⟨?_, hdigits⟩
      cases neg <;> decide
    refine ⟨(contains_append (mantissa_ne_e hp)).1, fun _ => ?_, fun h => Bool.noConfusion h⟩
    rw [DecimalForm.expText, List.drop_succ_cons, List.drop_zero,
      (contains_append (b := []) hrest).2, if_neg Bool.false_ne_true]

/-- What is read before and behind the point. -/
theorem split_point (hp : p.WellFormed) :
    (mantissa p).contains (ofChar '.') = true ∧
      splitPair (ofChar '.') (mantissa p) = .ok (p.whole, p.fraction) ∨
    (mantissa p).contains (ofChar '.') = false ∧ (mantissa p, []) = (p.whole, p.fraction) := by
  have hwhole := ne_of_isDigit hp.whole (show isDigit (ofChar '.') = false by decide)
  have hfraction := ne_of_isDigit hp.fraction (show isDigit (ofChar '.') = false by decide)
  have hpart := partition_point hp
  rw [splitPair, hpart]
  dsimp only
  rw [(contains_append (b := []) hfraction).2, if_neg Bool.false_ne_true, mantissa,
    DecimalForm.fraction]
  cases p.point with
  | none =>
    rw [DecimalForm.pointText, List.append_nil]
    exact Or.inr ⟨(contains_append (b := []) hwhole).2, rfl⟩
  | some f => exact Or.inl ⟨(contains_append hwhole).1, rfl⟩

theorem significant_concat_zero {s : Str} (h : significant s ≠ []) :
    significant (s ++ [ofChar '0']) = significant s ∧
      leadZeros (s ++ [ofChar '0']) = leadZeros s := by
  have hdrop : (s ++ [ofChar '0']).dropWhile isZeroDigit =
      s.dropWhile isZeroDigit ++ [ofChar '0'] := by
    rw [List.dropWhile_append, if_neg]
    intro hempty
    rw [significant, List.isEmpty_iff.mp hempty] at h
    exact h rfl
  constructor
  · rw [significant, hdrop, List.reverse_append]
    rfl
  · rw [leadZeros, hdrop, leadZeros, List.length_append, List.length_append]
    omega

/-- A zero alone behind the point changes nothing. -/
theorem placeDigits_zero_fraction {ip fp : Str} (hpos : 0 < decimalValue (ip ++ fp)) (e : Int) :
    placeDigits ip (if fp = lit "0" then [] else fp) e = placeDigits ip fp e := by
  split
  · next hzero =>
    rw [hzero] at hpos ⊢
    have hne : significant (ip ++ []) ≠ [] := by
      refine significant_ne_nil ?_
      rw [List.append_nil]
      rw [decimalValue_append] at hpos
      refine Nat.pos_of_ne_zero fun h => ?_
      rw [h] at hpos
      exact absurd hpos (by decide)
    rw [List.append_nil] at hne
    obtain ⟨hsig, hlead⟩ := significant_concat_zero hne
    have hzero : lit "0" = [ofChar '0'] := rfl
    rw [placeDigits_eq (by rwa [List.append_nil]), hzero, placeDigits_eq (by rwa [hsig]), hsig,
      hlead, List.append_nil]
  · rfl

/-- `es_number` of a double with this `repr`. -/
theorem esDouble_eq (hp : p.WellFormed) (hpos : 0 < decimalValue (p.whole ++ p.fraction))
    (neg : Bool) {exp : Fin 2047} {frac : Fin 4503599627370496}
    (hzero : (PyFloat.fin neg exp frac).isZero = false)
    (hrepr : R.floatRepr (.fin false exp frac) = p.text) :
    esDouble R (.fin neg exp frac) = (reprExponent R p).map fun e =>
      (if neg then lit "-" else []) ++ placeDigits p.whole p.fraction e := by
  have habs : absFloat (.fin neg exp frac) = .fin false exp frac := rfl
  obtain ⟨hcontains, hsplit, hplain⟩ := split_e hp
  have hpoint := split_point hp
  unfold esDouble
  dsimp only
  rw [hzero, if_neg Bool.false_ne_true, habs, hrepr, hcontains, reprExponent]
  cases he : p.exp.isSome with
  | true =>
    rw [if_pos rfl, if_pos rfl, hsplit he]
    change (R.int (.str (expDigits p)) >>= fun _ => _) = _
    cases R.int (.str (expDigits p)) with
    | error e => rfl
    | ok e =>
      change (if (mantissa p).contains (ofChar '.') = true then _ else _) = _
      obtain ⟨hdot, hpair⟩ | ⟨hdot, hpair⟩ := hpoint
      · rw [hdot, if_pos rfl, hpair]
        exact congrArg (fun t => Except.ok (_ ++ t)) (placeDigits_zero_fraction hpos e)
      · rw [hdot, if_neg Bool.false_ne_true, hpair]
        exact congrArg (fun t => Except.ok (_ ++ t)) (placeDigits_zero_fraction hpos e)
  | false =>
    rw [if_neg Bool.false_ne_true, if_neg Bool.false_ne_true, hplain he]
    change (if (mantissa p).contains (ofChar '.') = true then _ else _) = _
    obtain ⟨hdot, hpair⟩ | ⟨hdot, hpair⟩ := hpoint
    · rw [hdot, if_pos rfl, hpair]
      exact congrArg (fun t => Except.ok (_ ++ t)) (placeDigits_zero_fraction hpos 0)
    · rw [hdot, if_neg Bool.false_ne_true, hpair]
      exact congrArg (fun t => Except.ok (_ ++ t)) (placeDigits_zero_fraction hpos 0)

/-! ## The layout of a double -/

/-- `int` of the exponent is what it denotes. -/
theorem reprExponent_eq (hint : ∀ neg ds, p.exp = some (neg, ds) →
    R.intOfStr (DecimalForm.sign neg :: ds) = some (DecimalForm.signed neg (decimalValue ds))) :
    reprExponent R p = .ok p.exponent := by
  unfold reprExponent expDigits DecimalForm.exponent
  cases hexp : p.exp with
  | none => rfl
  | some e =>
    obtain ⟨neg, ds⟩ := e
    rw [Option.isSome_some, if_pos rfl]
    change R.int (.str (DecimalForm.sign neg :: ds)) = _
    rw [Runtime.int, hint neg ds hexp]

theorem decimalValue_pos_of_value (hpos : 0 < p.value) :
    0 < decimalValue (p.whole ++ p.fraction) := by
  refine Nat.pos_of_ne_zero fun hzero => ?_
  rw [DecimalForm.value, hzero, Nat.cast_zero, zero_mul] at hpos
  exact lt_irrefl _ hpos

/-- Both write the number that `repr` of a positive double denotes, without a zero
too many, and with an exponent exactly from `10^21` on and below `10^-6`. -/
theorem numbers_denote {exp : Fin 2047} {frac : Fin 4503599627370496}
    (hlower : ∀ s, (∀ c ∈ s, c.val < 0x80) → R.lower s = Runtime.asciiLower s)
    (hint : ∀ neg ds, p.exp = some (neg, ds) →
      R.intOfStr (DecimalForm.sign neg :: ds) = some (DecimalForm.signed neg (decimalValue ds)))
    (hzero : (PyFloat.fin false exp frac).isZero = false)
    (hrepr : R.floatRepr (.fin false exp frac) = p.text) (hp : p.WellFormed) (hpos : 0 < p.value) :
    ∃ q : DecimalForm, jsDouble R (.fin false exp frac) = .ok q.text ∧
      esDouble R (.fin false exp frac) = .ok q.text ∧ q.WellFormed ∧ q.Trimmed ∧
      q.value = p.value ∧ (q.exp.isSome = true ↔ 10 ^ 21 ≤ p.value ∨ p.value < 1 / 10 ^ 6) := by
  obtain ⟨q, htext, hq, htrim, hvalue, hexp⟩ := placeDigits_form hp hpos
  obtain ⟨hascii, hsame⟩ := hp.lower_text
  have hexponent := reprExponent_eq hint
  have hjs := jsDouble_eq hp ((hlower _ hascii).trans hsame) false hzero hrepr
  have hes := esDouble_eq hp (decimalValue_pos_of_value hpos) false hzero hrepr
  rw [hexponent] at hjs hes
  exact ⟨q, hjs.trans (congrArg Except.ok htext), hes.trans (congrArg Except.ok htext), hq, htrim,
    hvalue, hexp⟩

/-- The double nearest to `1.5e-7`. -/
def tinyDouble : PyFloat := .fin false 1000 1163240152073078

/-- `1.5e-07`, its `repr`. -/
def tinyForm : DecimalForm := ⟨lit "1", some (lit "5"), some (true, lit "07")⟩

/-- A runtime in which `repr` and `int` are right on that double. -/
def tinyRuntime : Runtime := { Runtime.sample with
  floatRepr := fun _ => lit "1.5e-07", intOfStr := fun _ => some (-7) }

theorem tinyForm_wellFormed : tinyForm.WellFormed := by
  refine ⟨by decide, rfl, ?_, ?_⟩
  · rintro f ⟨⟩
    exact ⟨by decide, rfl⟩
  · rintro e ⟨⟩
    exact ⟨by decide, rfl⟩

theorem tinyForm_value : tinyForm.value = 15 * (10 : Rat) ^ (-8 : Int) := by
  rfl

/-- It is written with an exponent. -/
theorem tinyDouble_denotes : ∃ q : DecimalForm,
    jsDouble tinyRuntime tinyDouble = .ok q.text ∧ esDouble tinyRuntime tinyDouble = .ok q.text ∧
      q.WellFormed ∧ q.Trimmed ∧ q.value = tinyForm.value ∧
      (q.exp.isSome = true ↔ 10 ^ 21 ≤ tinyForm.value ∨ tinyForm.value < 1 / 10 ^ 6) := by
  refine numbers_denote (fun _ _ => rfl) ?_ (by decide) rfl tinyForm_wellFormed ?_
  · rintro neg ds ⟨⟩
    decide
  · rw [tinyForm_value]
    positivity

/-! ## All values -/

/-- The two numbers on doubles are one. -/
theorem esDouble_eq_jsDouble (hR : ReprLaws R) (x : PyFloat) : esDouble R x = jsDouble R x := by
  cases x with
  | nan => rfl
  | inf neg => rfl
  | fin neg exp frac =>
    cases hzero : (PyFloat.fin neg exp frac).isZero with
    | true =>
      unfold esDouble jsDouble
      dsimp only
      rw [hzero, if_pos rfl]
      rfl
    | false =>
      obtain ⟨p, hp, hpos, hrepr⟩ := hR.repr exp frac ((isZero_sign neg exp frac).symm.trans hzero)
      obtain ⟨hascii, hsame⟩ := hp.lower_text
      rw [esDouble_eq hp (decimalValue_pos_of_value hpos) neg hzero hrepr,
        jsDouble_eq hp ((hR.lower _ hascii).trans hsame) neg hzero hrepr]

/-- `2^53` as a decimal form. -/
def form53 : DecimalForm := ⟨lit "9007199254740992", some (lit "0"), none⟩

theorem form53_wellFormed : form53.WellFormed := by
  refine ⟨by decide, rfl, ?_, by simp [form53]⟩
  rintro f ⟨⟩
  exact ⟨by decide, rfl⟩

/-- `2^53` and its negative print as the integers, read as doubles. -/
theorem jsInt_53 (hR : ReprLaws R) {n : Int} (hn : n.natAbs = 2 ^ 53) :
    jsInt R n = .ok (intStr n) := by
  have hlower : R.lower form53.text = form53.text := by
    obtain ⟨hascii, hsame⟩ := form53_wellFormed.lower_text
    exact (hR.lower _ hascii).trans hsame
  have hdouble : ∀ neg, jsDouble R (.fin neg 1076 0) =
      .ok ((if neg then lit "-" else []) ++ lit "9007199254740992") := by
    intro neg
    have hzero : (PyFloat.fin neg 1076 0).isZero = false := by
      rw [isZero_sign]
      decide
    have hplace : placeDigits form53.whole form53.fraction 0 = lit "9007199254740992" := by decide
    rw [jsDouble_eq form53_wellFormed hlower neg hzero hR.repr53, ← hplace]
    rfl
  unfold jsInt
  rw [if_neg (by omega)]
  obtain rfl | rfl : n = 2 ^ 53 ∨ n = -2 ^ 53 := by omega
  · have hfloat : floatOfInt (2 ^ 53) = .ok (.fin false 1076 0) := by rfl
    rw [hfloat]
    exact hdouble false
  · have hfloat : floatOfInt (-2 ^ 53) = .ok (.fin true 1076 0) := by rfl
    rw [hfloat]
    exact hdouble true

theorem esInt_eq_jsInt (hR : ReprLaws R) (n : Int) : esInt R n = jsInt R n := by
  by_cases h53 : n.natAbs = 2 ^ 53
  · rw [jsInt_53 hR h53, esInt, if_neg (by omega)]
  · unfold esInt jsInt
    by_cases hlt : n.natAbs < 2 ^ 53
    · rw [if_neg (by omega), if_pos hlt]
      rfl
    · rw [if_pos (by omega), if_neg hlt]
      cases floatOfInt n with
      | error e => rfl
      | ok x => exact esDouble_eq_jsDouble hR x

/-- `enc` and `jcs` are one function. -/
theorem enc_eq_jcs (hR : ReprLaws R) (v : Json) : enc R v = Rfc8785.jcs R v := by
  induction v with
  | null => rfl
  | bool b => cases b <;> rfl
  | int n => exact esInt_eq_jsInt hR n
  | float x => exact esDouble_eq_jsDouble hR x
  | str s => rfl
  | arr xs ih =>
    have hlist : encList R xs = jcsList R xs := by
      induction xs with
      | nil => rfl
      | cons x xs ihxs =>
        obtain ⟨hx, hxs⟩ := List.forall_mem_cons.mp ih
        rw [encList, jcsList, hx, ihxs hxs]
    rw [enc, Rfc8785.jcs, hlist]
  | obj kvs ih =>
    have hkvs : encKvs R kvs = jcsKvs R kvs := by
      induction kvs with
      | nil => rfl
      | cons kv kvs ihkvs =>
        obtain ⟨k, v⟩ := kv
        obtain ⟨hv, hrest⟩ := List.forall_mem_cons.mp ih
        rw [encKvs, jcsKvs, hv, ihkvs hrest]
    rw [enc, Rfc8785.jcs, hkvs]

/-- The bytes of `war_check.jcs` are those of `tools/_rfc8785.jcs` in UTF-8, and
where one raises so does the other. -/
theorem jcs_agree (hR : ReprLaws R) (v : Json) :
    WarCheck.jcs R v = (do utf8 (← Rfc8785.jcs R v)) := by
  rw [WarCheck.jcs, enc_eq_jcs hR]

/-! ## A runtime that prints doubles exactly -/

/-- The digits of a positive double: those of an integer, or all those of a fraction. -/
def exactForm (exp : Fin 2047) (frac : Fin 4503599627370496) : DecimalForm :=
  match (PyFloat.fin false exp frac).toInt? with
  | some n => ⟨decimal n.natAbs, some (lit "0"), none⟩
  | none =>
    let k := 1075 - PyFloat.scale exp
    ⟨decimal (PyFloat.significand exp frac * 5 ^ k), none, some (true, decimal k)⟩

/-- The `repr` of an integral double below `10^16` is what it is in Python. -/
def exactRepr : PyFloat → Str
  | .fin neg exp frac => (if neg then lit "-" else []) ++ (exactForm exp frac).text
  | _ => []

def exactRuntime : Runtime := { Runtime.sample with floatRepr := exactRepr }

theorem all_decimal (n : Nat) : (decimal n).all isDigit = true :=
  List.all_eq_true.mpr fun _ hc => isDigit_of_mem_decimal hc

theorem value_pos {p : DecimalForm} (h : 0 < decimalValue (p.whole ++ p.fraction)) :
    0 < p.value := by
  have hcast : (0 : Rat) < decimalValue (p.whole ++ p.fraction) := by exact_mod_cast h
  rw [DecimalForm.value]
  positivity

/-- A double that is no integer has a significand. -/
theorem significand_pos {exp : Fin 2047} {frac : Fin 4503599627370496}
    (h : (PyFloat.fin false exp frac).toInt? = none) : 0 < PyFloat.significand exp frac := by
  refine Nat.pos_of_ne_zero fun hzero => ?_
  unfold PyFloat.toInt? at h
  dsimp only at h
  rw [hzero] at h
  split at h
  · cases h
  · rw [if_pos (Nat.zero_mod _)] at h
    cases h

theorem exactForm_laws {exp : Fin 2047} {frac : Fin 4503599627370496}
    (hzero : (PyFloat.fin false exp frac).isZero = false) :
    (exactForm exp frac).WellFormed ∧ 0 < (exactForm exp frac).value := by
  unfold exactForm
  cases hint : (PyFloat.fin false exp frac).toInt? with
  | some n =>
    have hn : n.natAbs ≠ 0 := by
      intro h
      rw [PyFloat.isZero, hint, Int.natAbs_eq_zero.mp h] at hzero
      cases hzero
    refine ⟨⟨decimal_ne_nil _, all_decimal _, ?_, by simp⟩, value_pos ?_⟩
    · rintro f ⟨⟩
      exact ⟨by decide, rfl⟩
    · change 0 < decimalValue (decimal n.natAbs ++ lit "0")
      rw [decimalValue_append, decimalValue_decimal]
      exact Nat.add_pos_left (Nat.mul_pos (Nat.pos_of_ne_zero hn) (by decide)) _
  | none =>
    dsimp only
    refine ⟨⟨decimal_ne_nil _, all_decimal _, by simp, ?_⟩, value_pos ?_⟩
    · rintro e ⟨⟩
      exact ⟨decimal_ne_nil _, all_decimal _⟩
    · rw [DecimalForm.fraction, Option.getD_none, List.append_nil, decimalValue_decimal]
      exact Nat.mul_pos (significand_pos hint) (Nat.pow_pos (by decide))

theorem exactRuntime_laws : ReprLaws exactRuntime where
  lower _ _ := rfl
  repr exp frac hzero := by
    obtain ⟨hwf, hpos⟩ := exactForm_laws hzero
    exact ⟨exactForm exp frac, hwf, hpos, rfl⟩
  repr53 := by decide +kernel

/-- An integer that one of them takes for a double, and its negative as a double. -/
def sampleNumbers : Json := object [("n", .int (2 ^ 53)), ("x", .float (.fin true 1076 0))]

theorem jcs_agree_sample : WarCheck.jcs exactRuntime sampleNumbers =
    (do utf8 (← Rfc8785.jcs exactRuntime sampleNumbers)) :=
  jcs_agree exactRuntime_laws sampleNumbers

end Preaction.WarCheck
