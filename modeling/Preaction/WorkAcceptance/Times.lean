import Mathlib.Algebra.Order.Field.Rat
import Mathlib.Tactic.Linarith
import Mathlib.Tactic.Positivity
import Preaction.Py.Calendar
import Preaction.Py.Stamp
import Preaction.WorkAcceptance.Check

/-!
# The two time forms of a work-acceptance record

`rfc_time` reads `YYYY-MM-DDTHH:MM:SS[.f]Z` and `gen_time` reads
`YYYYMMDDHHMMSS[.f]Z`. What a text of either form denotes is said of its fields
(`Stamp`), without a reader. The patterns ask for `\\d`, which is a decimal digit
of any script, so each function accepts its form in every script: that is where
they part from the profile (`rfcTime_iff`, `genTime_iff`).

Mirroring notes:
- `int` of a text has a limit on the number of its digits, which only the fraction
  of `gen_time` can exceed; `genTimeLimited` is `gen_time` with it.
-/

namespace Preaction.WarCheck

open Preaction.Py

/-- `[1-9]` -/
def isNonzero (c : CodePoint) : Prop := 0x31 ≤ c.val ∧ c.val ≤ 0x39

/-- The text is the ASCII form of RFC 3339 with up to three digits of fraction and
real calendar fields, and denotes the instant. -/
def RfcDenotes (s : Str) (q : Rat) : Prop :=
  ∃ p : Stamp, p.IsDigits (isDigit · = true) ∧ p.fraction.length ≤ 3 ∧
    (p.time intOf).isValid = true ∧ s = p.rfc ∧ q = p.instant intOf

/-- The text is the ASCII form of a GeneralizedTime, without a zero at the end of a
fraction and with real calendar fields, and denotes the instant. -/
def GenDenotes (s : Str) (q : Rat) : Prop :=
  ∃ p : Stamp, p.IsDigits (isDigit · = true) ∧ (∀ c ∈ p.fraction.getLast?, isNonzero c) ∧
    (p.time intOf).isValid = true ∧ s = p.generalized ∧ q = p.instant intOf

variable (R : Runtime)

/-- A digit of the form is not an ASCII one; otherwise it denotes an instant. -/
def RfcOtherScript (s : Str) : Prop :=
  ∃ p : Stamp, p.IsDigits (AnyDigit R) ∧ p.fraction.length ≤ 3 ∧
    (p.time (valueOf R)).isValid = true ∧ s = p.rfc ∧ ∃ c ∈ s, 0x80 ≤ c.val

/-- As `RfcOtherScript`; the last digit of a fraction is an ASCII one. -/
def GenOtherScript (s : Str) : Prop :=
  ∃ p : Stamp, p.IsDigits (AnyDigit R) ∧ (∀ c ∈ p.fraction.getLast?, isNonzero c) ∧
    (p.time (valueOf R)).isValid = true ∧ s = p.generalized ∧ ∃ c ∈ s, 0x80 ≤ c.val

/-- More digits of a fraction than `int` takes: all but 16 characters are. -/
def TooLong (g : Str) : Prop := R.maxStrDigits ≠ 0 ∧ R.maxStrDigits + 16 < g.length

instance (g : Str) : Decidable (TooLong R g) := inferInstanceAs (Decidable (_ ∧ _))

/-- `gen_time(g)`, whose `int` of the fraction raises `ValueError` over its limit. -/
def genTimeLimited (g : Str) : Except PyError (Option Rat) :=
  match genTime R g with
  | some q => if TooLong R g then .error .valueError else .ok (some q)
  | none => .ok none

/-! ## The readers -/

variable {R}

theorem readFraction_eq_some {ds : Str} {x : Rat} : readFraction R ds = some x ↔
    (∀ c ∈ ds, AnyDigit R c) ∧ x = mkRat (valueOf R ds) (10 ^ ds.length) := by
  rw [readFraction, Option.map_eq_some_iff]
  constructor
  · rintro ⟨ns, hns, rfl⟩
    obtain ⟨hall, rfl⟩ := mapM_digitVal.mp hns
    rw [List.foldl_map, List.length_map, valueOf]
    exact ⟨hall, rfl⟩
  · rintro ⟨hall, rfl⟩
    refine ⟨_, mapM_digitVal.mpr ⟨hall, rfl⟩, ?_⟩
    rw [List.foldl_map, List.length_map, valueOf]

/-! ## What the readers accept -/

theorem cal_eq_some {t : DateTime} {f q : Rat} :
    cal t f = some q ↔ t.isValid = true ∧ q = t.timegm + f := by
  unfold cal
  split
  · next h => simp [h, eq_comm]
  · next h => simp [h]

theorem valueOf_nil : mkRat (valueOf R []) (10 ^ List.length ([] : Str)) = 0 := by
  simp [valueOf]

theorem readChar_tail_nil : readChar '.' (Stamp.tail []) = none := by
  rfl

theorem readChar_tail {f : Str} (h : f ≠ []) :
    readChar '.' (Stamp.tail f) = some (f ++ [ofChar 'Z']) := by
  rw [Stamp.tail, if_neg h]
  rfl

/-- A text behind a point that ends in `Z` is the tail of what is between them. -/
theorem tail_dropLast {r : Str} (hlast : r.getLast? = some (ofChar 'Z')) (hne : r.dropLast ≠ []) :
    ofChar '.' :: r = Stamp.tail r.dropLast := by
  rw [Stamp.tail, if_neg hne, List.dropLast_append_getLast? _ hlast]

variable (R) in
/-- What both readers do behind the seconds: they differ in the fractions they refuse. -/
def readTail (bad : Str → Prop) [DecidablePred bad] (time : DateTime) (s : Str) : Option Rat :=
  match readChar '.' s with
  | none => if s = lit "Z" then cal time 0 else none
  | some s =>
    if s.getLast? ≠ some (ofChar 'Z') ∨ bad s.dropLast then none
    else readFraction R s.dropLast >>= cal time

/-- The tail of a fraction that is not refused is read, and nothing else. -/
theorem readTail_eq_some {bad : Str → Prop} [DecidablePred bad] (hempty : bad []) {time : DateTime}
    {s : Str} {q : Rat} : readTail R bad time s = some q ↔ ∃ f : Str, (∀ c ∈ f, AnyDigit R c) ∧
      (f ≠ [] → ¬ bad f) ∧ s = Stamp.tail f ∧ time.isValid = true ∧
      q = time.timegm + mkRat (valueOf R f) (10 ^ f.length) := by
  unfold readTail
  constructor
  · intro h
    cases hdot : readChar '.' s with
    | none =>
      rw [hdot] at h
      dsimp only at h
      split at h
      · next hz =>
        obtain ⟨hvalid, rfl⟩ := cal_eq_some.mp h
        exact ⟨[], by simp, fun hne => absurd rfl hne, hz, hvalid, by rw [valueOf_nil]⟩
      · cases h
    | some r =>
      obtain rfl := readChar_eq_some.mp hdot
      rw [hdot] at h
      dsimp only at h
      split at h
      · cases h
      · next hform =>
        rw [not_or, not_not] at hform
        obtain ⟨hlast, hgood⟩ := hform
        obtain ⟨x, hx, h⟩ := Option.bind_eq_some_iff.mp h
        obtain ⟨hall, rfl⟩ := readFraction_eq_some.mp hx
        obtain ⟨hvalid, rfl⟩ := cal_eq_some.mp h
        have hne : r.dropLast ≠ [] := by
          intro heq
          rw [heq] at hgood
          exact hgood hempty
        exact ⟨r.dropLast, hall, fun _ => hgood, tail_dropLast hlast hne, hvalid, rfl⟩
  · intro h
    obtain ⟨f, hall, hgood, rfl, hvalid, rfl⟩ := h
    by_cases hf : f = []
    · have hz : Stamp.tail [] = lit "Z" := rfl
      rw [hf, readChar_tail_nil]
      dsimp only
      rw [if_pos hz, valueOf_nil]
      exact cal_eq_some.mpr ⟨hvalid, rfl⟩
    · rw [readChar_tail hf]
      dsimp only
      rw [List.dropLast_concat, if_neg (not_or.mpr ⟨by simp, hgood hf⟩)]
      refine Option.bind_eq_some_iff.mpr ⟨_, readFraction_eq_some.mpr ⟨hall, rfl⟩, ?_⟩
      exact cal_eq_some.mpr ⟨hvalid, rfl⟩

/-- A fraction without a digit, or with more than three. -/
def RfcRefuses (f : Str) : Prop := f.length < 1 ∨ 3 < f.length

instance : DecidablePred RfcRefuses := fun _ => inferInstanceAs (Decidable (_ ∨ _))

theorem rfcRefuses_nil : RfcRefuses [] := Or.inl Nat.zero_lt_one

/-- `rfc_time` accepts the form with digits of any script. -/
theorem rfcTime_eq_some {s : Str} {q : Rat} : rfcTime R (.str s) = some q ↔
    ∃ p : Stamp, p.IsDigits (AnyDigit R) ∧ p.fraction.length ≤ 3 ∧
      (p.time (valueOf R)).isValid = true ∧ s = p.rfc ∧ q = p.instant (valueOf R) := by
  constructor
  · intro h
    obtain ⟨y, s, rfl, hy, h⟩ := readDigits_bind.mp h
    obtain ⟨s, rfl, h⟩ := readChar_bind.mp h
    obtain ⟨mo, s, rfl, hmo, h⟩ := readDigits_bind.mp h
    obtain ⟨s, rfl, h⟩ := readChar_bind.mp h
    obtain ⟨d, s, rfl, hd, h⟩ := readDigits_bind.mp h
    obtain ⟨s, rfl, h⟩ := readChar_bind.mp h
    obtain ⟨ho, s, rfl, hho, h⟩ := readDigits_bind.mp h
    obtain ⟨s, rfl, h⟩ := readChar_bind.mp h
    obtain ⟨mi, s, rfl, hmi, h⟩ := readDigits_bind.mp h
    obtain ⟨s, rfl, h⟩ := readChar_bind.mp h
    obtain ⟨se, s, rfl, hse, h⟩ := readDigits_bind.mp h
    change readTail R RfcRefuses ⟨valueOf R y, valueOf R mo, valueOf R d, valueOf R ho, valueOf R mi,
      valueOf R se⟩ s = some q at h
    obtain ⟨f, hall, hgood, rfl, hvalid, rfl⟩ := (readTail_eq_some rfcRefuses_nil).mp h
    have hlen : f.length ≤ 3 := by
      by_cases hf : f = []
      · simp [hf]
      · exact Nat.not_lt.mp (not_or.mp (hgood hf)).2
    exact ⟨⟨y, mo, d, ho, mi, se, f⟩, ⟨hy, hmo, hd, hho, hmi, hse, hall⟩, hlen, hvalid, rfl, rfl⟩
  · rintro ⟨p, hp, hlen, hvalid, rfl, rfl⟩
    refine readDigits_bind.mpr ⟨p.year, _, rfl, hp.year, ?_⟩
    refine readChar_bind.mpr ⟨_, rfl, ?_⟩
    refine readDigits_bind.mpr ⟨p.month, _, rfl, hp.month, ?_⟩
    refine readChar_bind.mpr ⟨_, rfl, ?_⟩
    refine readDigits_bind.mpr ⟨p.day, _, rfl, hp.day, ?_⟩
    refine readChar_bind.mpr ⟨_, rfl, ?_⟩
    refine readDigits_bind.mpr ⟨p.hour, _, rfl, hp.hour, ?_⟩
    refine readChar_bind.mpr ⟨_, rfl, ?_⟩
    refine readDigits_bind.mpr ⟨p.minute, _, rfl, hp.minute, ?_⟩
    refine readChar_bind.mpr ⟨_, rfl, ?_⟩
    refine readDigits_bind.mpr ⟨p.second, _, rfl, hp.second, ?_⟩
    have hgood : p.fraction ≠ [] → ¬ RfcRefuses p.fraction := by
      intro hf
      have hpos := List.length_pos_of_ne_nil hf
      exact not_or.mpr ⟨Nat.not_lt.mpr hpos, Nat.not_lt.mpr hlen⟩
    exact (readTail_eq_some rfcRefuses_nil).mpr ⟨p.fraction, hp.fraction, hgood, rfl, hvalid, rfl⟩

theorem oneOf_nonzero {c : CodePoint} : oneOf "123456789" c = true ↔ isNonzero c := by
  have hval : c ∈ lit "123456789" ↔ c.val ∈ (lit "123456789").map (·.val) :=
    (List.mem_map_of_injective Fin.val_injective).symm
  have hdigits : (lit "123456789").map (·.val) =
    [0x31, 0x32, 0x33, 0x34, 0x35, 0x36, 0x37, 0x38, 0x39] := by decide
  rw [oneOf, List.contains_iff_mem, hval, hdigits, isNonzero]
  simp only [List.mem_cons, List.not_mem_nil, or_false]
  omega

/-- A fraction that does not end in one of the digits from 1. -/
def GenRefuses (f : Str) : Prop := (!f.getLast?.any (oneOf "123456789")) = true

instance : DecidablePred GenRefuses := fun _ => inferInstanceAs (Decidable (_ = _))

theorem genRefuses_nil : GenRefuses [] := rfl

theorem genRefuses_iff {f : Str} : ¬ GenRefuses f ↔ ∃ c ∈ f.getLast?, isNonzero c := by
  rw [GenRefuses, Bool.not_eq_true, Bool.not_eq_false', Option.any_eq_true]
  exact exists_congr fun c => and_congr_right fun _ => oneOf_nonzero

/-- `gen_time` accepts the form with digits of any script, but for the last one of
a fraction. -/
theorem genTime_eq_some {s : Str} {q : Rat} : genTime R s = some q ↔
    ∃ p : Stamp, p.IsDigits (AnyDigit R) ∧ (∀ c ∈ p.fraction.getLast?, isNonzero c) ∧
      (p.time (valueOf R)).isValid = true ∧ s = p.generalized ∧ q = p.instant (valueOf R) := by
  constructor
  · intro h
    obtain ⟨y, s, rfl, hy, h⟩ := readDigits_bind.mp h
    obtain ⟨mo, s, rfl, hmo, h⟩ := readDigits_bind.mp h
    obtain ⟨d, s, rfl, hd, h⟩ := readDigits_bind.mp h
    obtain ⟨ho, s, rfl, hho, h⟩ := readDigits_bind.mp h
    obtain ⟨mi, s, rfl, hmi, h⟩ := readDigits_bind.mp h
    obtain ⟨se, s, rfl, hse, h⟩ := readDigits_bind.mp h
    change readTail R GenRefuses ⟨valueOf R y, valueOf R mo, valueOf R d, valueOf R ho, valueOf R mi,
      valueOf R se⟩ s = some q at h
    obtain ⟨f, hall, hgood, rfl, hvalid, rfl⟩ := (readTail_eq_some genRefuses_nil).mp h
    have hlast : ∀ e ∈ f.getLast?, isNonzero e := by
      intro e he
      have hf : f ≠ [] := by
        intro hf
        rw [hf] at he
        cases he
      obtain ⟨c, hc, hnonzero⟩ := genRefuses_iff.mp (hgood hf)
      exact Option.some.inj (hc.symm.trans he) ▸ hnonzero
    exact ⟨⟨y, mo, d, ho, mi, se, f⟩, ⟨hy, hmo, hd, hho, hmi, hse, hall⟩, hlast, hvalid, rfl, rfl⟩
  · rintro ⟨p, hp, hlast, hvalid, rfl, rfl⟩
    refine readDigits_bind.mpr ⟨p.year, _, rfl, hp.year, ?_⟩
    refine readDigits_bind.mpr ⟨p.month, _, rfl, hp.month, ?_⟩
    refine readDigits_bind.mpr ⟨p.day, _, rfl, hp.day, ?_⟩
    refine readDigits_bind.mpr ⟨p.hour, _, rfl, hp.hour, ?_⟩
    refine readDigits_bind.mpr ⟨p.minute, _, rfl, hp.minute, ?_⟩
    refine readDigits_bind.mpr ⟨p.second, _, rfl, hp.second, ?_⟩
    have hgood : p.fraction ≠ [] → ¬ GenRefuses p.fraction := by
      intro hf
      have hc := List.getLast?_eq_getLast_of_ne_nil hf
      exact genRefuses_iff.mpr ⟨_, hc, hlast _ hc⟩
    exact (readTail_eq_some genRefuses_nil).mpr ⟨p.fraction, hp.fraction, hgood, rfl, hvalid, rfl⟩

/-! ## Where the forms are those of the profile -/

section Ascii

variable (hascii : ∀ c : CodePoint, c.val < 0x80 → R.digitVal c = asciiDigit c)

include hascii

/-- A reader of a form in any script reads it as the profile has it exactly when the
text is not the form with another script in it. -/
theorem denotes_iff {form : Stamp → Str} (hform : AsciiForm form) {ok : Stamp → Prop} {s : Str}
    {read : Option Rat} (hread : ∀ q, read = some q ↔ ∃ p : Stamp, p.IsDigits (AnyDigit R) ∧ ok p ∧
      (p.time (valueOf R)).isValid = true ∧ s = form p ∧ q = p.instant (valueOf R)) :
    (∀ q, read = some q ↔ ∃ p : Stamp, p.IsDigits (isDigit · = true) ∧ ok p ∧
      (p.time intOf).isValid = true ∧ s = form p ∧ q = p.instant intOf) ↔
    ¬ ∃ p : Stamp, p.IsDigits (AnyDigit R) ∧ ok p ∧ (p.time (valueOf R)).isValid = true ∧
      s = form p ∧ ∃ c ∈ s, 0x80 ≤ c.val := by
  constructor
  · rintro hiff ⟨p, hp, hok, hvalid, hs, c, hc, hother⟩
    obtain ⟨p', hp', -, -, hs', -⟩ := (hiff _).mp ((hread _).mpr ⟨p, hp, hok, hvalid, hs, rfl⟩)
    obtain hdigit | hlt := (hform p').2 c (hs' ▸ hc)
    · have := val_of_isDigit (hp'.digits c hdigit)
      omega
    · omega
  · intro hno q
    rw [hread]
    constructor
    · rintro ⟨p, hp, hok, hvalid, hs, hq⟩
      have hdigits : p.IsDigits (isDigit · = true) := by
        refine hp.mono fun c hc hany => isDigit_of_anyDigit hascii hany ?_
        by_contra hother
        exact hno ⟨p, hp, hok, hvalid, hs, c, hs ▸ (hform p).1 c hc, Nat.not_lt.mp hother⟩
      obtain ⟨htime, hinstant⟩ := instant_valueOf hascii hdigits
      exact ⟨p, hdigits, hok, htime ▸ hvalid, hs, hinstant ▸ hq⟩
    · rintro ⟨p, hp, hok, hvalid, hs, hq⟩
      obtain ⟨htime, hinstant⟩ := instant_valueOf hascii hp
      refine ⟨p, hp.mono fun c _ hc => ?_, hok, htime ▸ hvalid, hs, hinstant ▸ hq⟩
      rw [AnyDigit, digitVal_of_isDigit hascii hc]
      rfl

/-- `rfc_time` gives what the text denotes, and nothing for other texts, exactly
when no digit is of another script. -/
theorem rfcTime_iff (s : Str) :
    (∀ q, rfcTime R (.str s) = some q ↔ RfcDenotes s q) ↔ ¬ RfcOtherScript R s :=
  denotes_iff hascii asciiForm_rfc fun _ => rfcTime_eq_some

theorem genTime_iff (s : Str) :
    (∀ q, genTime R s = some q ↔ GenDenotes s q) ↔ ¬ GenOtherScript R s :=
  denotes_iff hascii asciiForm_generalized fun _ => genTime_eq_some

/-- As `genTime_iff`, and the fraction has no more digits than `int` takes. -/
theorem genTimeLimited_iff (s : Str) :
    (∀ q, genTimeLimited R s = .ok (some q) ↔ GenDenotes s q) ↔
      ¬ (TooLong R s ∧ ∃ q, GenDenotes s q) ∧ ¬ (GenOtherScript R s ∧ ¬ TooLong R s) := by
  by_cases hlong : TooLong R s
  · have hno : ∀ q, genTimeLimited R s ≠ .ok (some q) := by
      intro q h
      unfold genTimeLimited at h
      split at h
      · rw [if_pos hlong] at h
        cases h
      · cases h
    simp [hlong, hno]
  · have hlimited : ∀ q, genTimeLimited R s = .ok (some q) ↔ genTime R s = some q := by
      intro q
      unfold genTimeLimited
      split
      · next heq => simp [hlong, heq]
      · next heq => simp [heq]
    simp only [hlimited, hlong, genTime_iff hascii, false_and, not_false_eq_true, and_true,
      true_and]

end Ascii

/-! ## The order of instants -/

/-- A decimal fraction is less than a second. -/
theorem fractionOf_mem {p : Stamp} (h : p.IsDigits (isDigit · = true)) :
    0 ≤ p.fractionOf intOf ∧ p.fractionOf intOf < 1 := by
  have hlt : intOf p.fraction < 10 ^ p.fraction.length :=
    decimalValue_lt (List.all_eq_true.mpr h.fraction)
  rw [Stamp.fractionOf, Rat.mkRat_eq_div]
  have hpos : (0 : Rat) < (10 ^ p.fraction.length : Nat) := by positivity
  refine ⟨by positivity, (div_lt_one hpos).mpr ?_⟩
  exact_mod_cast hlt

/-- Instants compare as the fields from the year down, and then as the fractions. -/
theorem instant_lt_iff {p p' : Stamp} (h : p.IsDigits (isDigit · = true))
    (h' : p'.IsDigits (isDigit · = true)) (hvalid : (p.time intOf).isValid = true)
    (hvalid' : (p'.time intOf).isValid = true) : p.instant intOf < p'.instant intOf ↔
      (p.time intOf).fields < (p'.time intOf).fields ∨
      (p.time intOf).fields = (p'.time intOf).fields ∧ p.fractionOf intOf < p'.fractionOf intOf := by
  obtain ⟨hge, hlt⟩ := fractionOf_mem h
  obtain ⟨hge', hlt'⟩ := fractionOf_mem h'
  have hlex := DateTime.timegm_lt_iff hvalid hvalid'
  have hlex' := DateTime.timegm_lt_iff hvalid' hvalid
  unfold Stamp.instant
  rcases lt_trichotomy (p.time intOf).timegm (p'.time intOf).timegm with hsec | hsec | hsec
  · have hle : ((p.time intOf).timegm : Rat) + 1 ≤ (p'.time intOf).timegm := by exact_mod_cast hsec
    exact iff_of_true (by linarith) (Or.inl (hlex.mp hsec))
  · have hfields : (p.time intOf).fields = (p'.time intOf).fields := by
      refine le_antisymm (not_lt.mp fun h => ?_) (not_lt.mp fun h => ?_)
      · exact absurd (hlex'.mpr h) (by omega)
      · exact absurd (hlex.mpr h) (by omega)
    rw [hsec, hfields]
    simp
  · have hle : ((p'.time intOf).timegm : Rat) + 1 ≤ (p.time intOf).timegm := by exact_mod_cast hsec
    have hgt := hlex'.mp hsec
    refine iff_of_false (by linarith) ?_
    rintro (hlt | ⟨heq, -⟩)
    · exact lt_asymm hgt hlt
    · exact absurd heq hgt.ne'

/-! ## The time forms -/

/-- Both functions return the instant that the text denotes in the ASCII form of the
profile, and nothing for any other text, exactly when the digits are of no other
script and, in `gen_time`, not too many; instants compare as their fields do. -/
theorem times_denote_iff (hascii : ∀ c : CodePoint, c.val < 0x80 → R.digitVal c = asciiDigit c)
    (s : Str) :
    ((∀ q, rfcTime R (.str s) = some q ↔ RfcDenotes s q) ↔ ¬ RfcOtherScript R s) ∧
    ((∀ q, genTimeLimited R s = .ok (some q) ↔ GenDenotes s q) ↔
      ¬ (TooLong R s ∧ ∃ q, GenDenotes s q) ∧ ¬ (GenOtherScript R s ∧ ¬ TooLong R s)) ∧
    ∀ p p' : Stamp, p.IsDigits (isDigit · = true) → p'.IsDigits (isDigit · = true) →
      (p.time intOf).isValid = true → (p'.time intOf).isValid = true →
      (p.instant intOf < p'.instant intOf ↔ (p.time intOf).fields < (p'.time intOf).fields ∨
        (p.time intOf).fields = (p'.time intOf).fields ∧
          p.fractionOf intOf < p'.fractionOf intOf) :=
  ⟨rfcTime_iff hascii s, genTimeLimited_iff hascii s, fun _ _ => instant_lt_iff⟩

/-- A text without digits of another script. -/
theorem rfcTime_denotes_march : ∃ q,
    rfcTime .sample (.str (lit "2026-03-01T00:00:05.5Z")) = some q ∧
      RfcDenotes (lit "2026-03-01T00:00:05.5Z") q := by
  have hascii : ∀ c : CodePoint, c.val < 0x80 → Runtime.sample.digitVal c = asciiDigit c :=
    fun _ _ => rfl
  have hread : (rfcTime .sample (.str (lit "2026-03-01T00:00:05.5Z"))).isSome = true := by
    decide +kernel
  obtain ⟨q, hq⟩ := Option.isSome_iff_exists.mp hread
  refine ⟨q, hq, ((times_denote_iff hascii (lit "2026-03-01T00:00:05.5Z")).1.mpr ?_ q).mp hq⟩
  rintro ⟨p, -, -, -, -, c, hc, hother⟩
  have hall : (lit "2026-03-01T00:00:05.5Z").all (·.val < 0x80) = true := by decide
  have := of_decide_eq_true (List.all_eq_true.mp hall c hc)
  omega

/-- The decimal digits of ASCII and of Arabic. -/
def arabicRuntime : Runtime := { Runtime.sample with
  digitVal := fun c =>
    if 0x660 ≤ c.val ∧ c.val ≤ 0x669 then some (c.val - 0x660) else asciiDigit c }

/-- 1 March 2026, the year in Arabic digits. -/
def arabicStamp : Stamp :=
  ⟨[0x662, 0x660, 0x662, 0x666], lit "03", lit "01", lit "00", lit "00", lit "05", []⟩

theorem arabicStamp_digits : arabicStamp.IsDigits (AnyDigit arabicRuntime) := by
  have hall : ∀ ds : Str, ds.all (arabicRuntime.digitVal · |>.isSome) = true →
      ∀ c ∈ ds, AnyDigit arabicRuntime c := fun _ h => List.all_eq_true.mp h
  exact ⟨⟨rfl, hall _ (by decide)⟩, ⟨rfl, hall _ (by decide)⟩, ⟨rfl, hall _ (by decide)⟩,
    ⟨rfl, hall _ (by decide)⟩, ⟨rfl, hall _ (by decide)⟩, ⟨rfl, hall _ (by decide)⟩,
    hall [] rfl⟩

theorem arabicStamp_valid : (arabicStamp.time (valueOf arabicRuntime)).isValid = true := by
  decide +kernel

theorem arabicRuntime_ascii (c : CodePoint) (h : c.val < 0x80) :
    arabicRuntime.digitVal c = asciiDigit c :=
  if_neg (by omega)

/-- Both functions read the year. -/
theorem arabicStamp_accepted :
    ¬ (∀ s q, rfcTime arabicRuntime (.str s) = some q ↔ RfcDenotes s q) ∧
    ¬ (∀ s q, genTimeLimited arabicRuntime s = .ok (some q) ↔ GenDenotes s q) := by
  refine ⟨fun hall => ?_, fun hall => ?_⟩
  · refine (rfcTime_iff arabicRuntime_ascii arabicStamp.rfc).mp (hall _) ?_
    exact ⟨arabicStamp, arabicStamp_digits, by decide, arabicStamp_valid, rfl, 0x662,
      List.mem_cons_self, by decide⟩
  · have hother : GenOtherScript arabicRuntime arabicStamp.generalized :=
      ⟨arabicStamp, arabicStamp_digits, by simp [arabicStamp], arabicStamp_valid, rfl, 0x662,
        List.mem_cons_self, by decide⟩
    have hshort : ¬ TooLong arabicRuntime arabicStamp.generalized := by decide
    exact ((genTimeLimited_iff arabicRuntime_ascii _).mp (hall _)).2 ⟨hother, hshort⟩

end Preaction.WarCheck
