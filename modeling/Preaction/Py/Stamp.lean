import Preaction.Py.Date
import Preaction.Py.Digits

/-!
# The fields of a time in a text

A pattern for a time fixes the lengths of its fields and what stands between them.
`Stamp` is the fields as texts, without a reader; the forms write them down. The
patterns ask for `\\d`, which is a decimal digit of any script, so a form read that
way is the ASCII one exactly where no digit is of another script (`script_iff`).
-/

namespace Preaction.Py

/-- The texts of the fields of a time, the fraction empty where there is none. -/
structure Stamp where
  year : Str
  month : Str
  day : Str
  hour : Str
  minute : Str
  second : Str
  fraction : Str

namespace Stamp

/-- `Z`, behind the fraction and its point. -/
def tail (f : Str) : Str :=
  if f = [] then [ofChar 'Z'] else ofChar '.' :: (f ++ [ofChar 'Z'])

/-- `YYYY-MM-DDTHH:MM:SS[.f]Z` -/
def rfc (p : Stamp) : Str :=
  p.year ++ ofChar '-' :: (p.month ++ ofChar '-' :: (p.day ++ ofChar 'T' :: (p.hour ++
    ofChar ':' :: (p.minute ++ ofChar ':' :: (p.second ++ tail p.fraction)))))

/-- `YYYYMMDDHHMMSS[.f]Z` -/
def generalized (p : Stamp) : Str :=
  p.year ++ (p.month ++ (p.day ++ (p.hour ++ (p.minute ++ (p.second ++ tail p.fraction)))))

/-- Fields of the lengths of the form, of digits only. -/
structure IsDigits (digit : CodePoint → Prop) (p : Stamp) : Prop where
  year : p.year.length = 4 ∧ ∀ c ∈ p.year, digit c
  month : p.month.length = 2 ∧ ∀ c ∈ p.month, digit c
  day : p.day.length = 2 ∧ ∀ c ∈ p.day, digit c
  hour : p.hour.length = 2 ∧ ∀ c ∈ p.hour, digit c
  minute : p.minute.length = 2 ∧ ∀ c ∈ p.minute, digit c
  second : p.second.length = 2 ∧ ∀ c ∈ p.second, digit c
  fraction : ∀ c ∈ p.fraction, digit c

/-- The fields as numbers. -/
def time (value : Str → Nat) (p : Stamp) : DateTime :=
  ⟨value p.year, value p.month, value p.day, value p.hour, value p.minute, value p.second⟩

/-- The decimal fraction. -/
def fractionOf (value : Str → Nat) (p : Stamp) : Rat :=
  mkRat (value p.fraction) (10 ^ p.fraction.length)

/-- The instant: the seconds since the epoch. -/
def instant (value : Str → Nat) (p : Stamp) : Rat := (p.time value).timegm + p.fractionOf value

/-- The characters of all fields. -/
def digits (p : Stamp) : Str :=
  p.year ++ p.month ++ p.day ++ p.hour ++ p.minute ++ p.second ++ p.fraction

end Stamp

/-! ## Digits of any script -/

variable (R : Runtime)

/-- The value of digits of any script. -/
def valueOf (ds : Str) : Nat := ds.foldl (fun n c => 10 * n + (R.digitVal c).getD 0) 0

/-- The characters that `\\d` matches. -/
def AnyDigit (c : CodePoint) : Prop := (R.digitVal c).isSome = true

variable {R}

theorem mapM_digitVal {ds : Str} {ns : List Nat} : ds.mapM R.digitVal = some ns ↔
    (∀ c ∈ ds, AnyDigit R c) ∧ ns = ds.map fun c => (R.digitVal c).getD 0 := by
  induction ds generalizing ns with
  | nil => simp [eq_comm]
  | cons c ds ih =>
    rw [List.mapM_cons, List.forall_mem_cons, AnyDigit]
    cases hc : R.digitVal c with
    | none => simp
    | some n =>
      cases hds : ds.mapM R.digitVal with
      | none =>
        have hno : ¬ ∀ c ∈ ds, AnyDigit R c := fun hall => by
          rw [ih.mpr ⟨hall, rfl⟩] at hds
          cases hds
        simp [hno]
      | some ms =>
        obtain ⟨hall, rfl⟩ := ih.mp hds
        rw [List.map_cons, hc]
        exact ⟨fun h => ⟨⟨rfl, hall⟩, (Option.some.inj h).symm⟩, fun h => congrArg some h.2.symm⟩

/-- A field is read off the front of the text. -/
theorem readDigits_bind {α : Type} {k : Nat} {s : Str} {f : Nat × Str → Option α} {x : α} :
    (readDigits R.digitVal k s >>= f) = some x ↔ ∃ ds r, s = ds ++ r ∧
      (ds.length = k ∧ ∀ c ∈ ds, AnyDigit R c) ∧ f (valueOf R ds, r) = some x := by
  constructor
  · intro h
    obtain ⟨⟨n, r⟩, hread, hx⟩ := Option.bind_eq_some_iff.mp h
    unfold readDigits at hread
    split at hread
    · cases hread
    · next hlen =>
      obtain ⟨ns, hns, heq⟩ := Option.map_eq_some_iff.mp hread
      obtain ⟨hn, rfl⟩ := Prod.mk.inj heq
      obtain ⟨hall, rfl⟩ := mapM_digitVal.mp hns
      rw [List.foldl_map] at hn
      refine ⟨s.take k, s.drop k, (List.take_append_drop k s).symm,
        ⟨List.length_take_of_le (by omega), hall⟩, ?_⟩
      rwa [valueOf, hn]
  · rintro ⟨ds, r, rfl, ⟨rfl, hall⟩, hx⟩
    refine Option.bind_eq_some_iff.mpr ⟨(valueOf R ds, r), ?_, hx⟩
    rw [readDigits, if_neg (by simp), List.take_left, List.drop_left, mapM_digitVal.mpr ⟨hall, rfl⟩,
      Option.map_some, List.foldl_map, valueOf]

theorem readChar_eq_some {c : Char} {s r : Str} : readChar c s = some r ↔ s = ofChar c :: r := by
  cases s with
  | nil => simp [readChar]
  | cons d s =>
    rw [readChar]
    split
    · next h => simp [h]
    · next h => simp [h]

theorem readChar_bind {α : Type} {c : Char} {s : Str} {f : Str → Option α} {x : α} :
    (readChar c s >>= f) = some x ↔ ∃ r, s = ofChar c :: r ∧ f r = some x := by
  simp only [Option.bind_eq_bind, Option.bind_eq_some_iff, readChar_eq_some]

/-! ## Forms -/

theorem Stamp.IsDigits.mono {digit digit' : CodePoint → Prop} {p : Stamp} (h : p.IsDigits digit)
    (himp : ∀ c ∈ p.digits, digit c → digit' c) : p.IsDigits digit' := by
  simp only [Stamp.digits, List.mem_append] at himp
  exact ⟨⟨h.year.1, fun c hc => himp c (by tauto) (h.year.2 c hc)⟩,
    ⟨h.month.1, fun c hc => himp c (by tauto) (h.month.2 c hc)⟩,
    ⟨h.day.1, fun c hc => himp c (by tauto) (h.day.2 c hc)⟩,
    ⟨h.hour.1, fun c hc => himp c (by tauto) (h.hour.2 c hc)⟩,
    ⟨h.minute.1, fun c hc => himp c (by tauto) (h.minute.2 c hc)⟩,
    ⟨h.second.1, fun c hc => himp c (by tauto) (h.second.2 c hc)⟩,
    fun c hc => himp c (by tauto) (h.fraction c hc)⟩

theorem Stamp.IsDigits.digits {digit : CodePoint → Prop} {p : Stamp} (h : p.IsDigits digit) :
    ∀ c ∈ p.digits, digit c := by
  intro c hc
  simp only [Stamp.digits, List.mem_append] at hc
  obtain (((((hc | hc) | hc) | hc) | hc) | hc) | hc := hc
  · exact h.year.2 c hc
  · exact h.month.2 c hc
  · exact h.day.2 c hc
  · exact h.hour.2 c hc
  · exact h.minute.2 c hc
  · exact h.second.2 c hc
  · exact h.fraction c hc

/-- A form adds ASCII characters to the fields. -/
def AsciiForm (form : Stamp → Str) : Prop :=
  ∀ p : Stamp, (∀ c ∈ p.digits, c ∈ form p) ∧ ∀ c ∈ form p, c ∈ p.digits ∨ c.val < 0x80

theorem mem_tail {f : Str} {c : CodePoint} :
    c ∈ Stamp.tail f ↔ c ∈ f ∨ c = ofChar 'Z' ∨ (f ≠ [] ∧ c = ofChar '.') := by
  unfold Stamp.tail
  split
  · next h => simp [h]
  · next h =>
    simp only [List.mem_cons, List.mem_append, List.not_mem_nil, or_false, h, ne_eq,
      not_false_eq_true, true_and]
    tauto

theorem ne_ofChar {c : CodePoint} (h : ¬ c.val < 0x80) {x : Char} (hx : x.toNat < 0x80) :
    c ≠ ofChar x := by
  rintro rfl
  exact h (by rwa [ofChar_val])

theorem asciiForm_rfc : AsciiForm Stamp.rfc := by
  refine fun p => ⟨fun c hc => ?_, fun c hc => ?_⟩
  · simp only [Stamp.digits, List.mem_append] at hc
    simp only [Stamp.rfc, List.mem_append, List.mem_cons, mem_tail]
    tauto
  · by_cases hlt : c.val < 0x80
    · exact Or.inr hlt
    · have hdash := ne_ofChar hlt (show '-'.toNat < 0x80 by decide)
      have ht := ne_ofChar hlt (show 'T'.toNat < 0x80 by decide)
      have hcolon := ne_ofChar hlt (show ':'.toNat < 0x80 by decide)
      have hz := ne_ofChar hlt (show 'Z'.toNat < 0x80 by decide)
      have hdot := ne_ofChar hlt (show '.'.toNat < 0x80 by decide)
      simp only [Stamp.rfc, List.mem_append, List.mem_cons, mem_tail] at hc
      simp only [Stamp.digits, List.mem_append]
      tauto

theorem asciiForm_generalized : AsciiForm Stamp.generalized := by
  refine fun p => ⟨fun c hc => ?_, fun c hc => ?_⟩
  · simp only [Stamp.digits, List.mem_append] at hc
    simp only [Stamp.generalized, List.mem_append, mem_tail]
    tauto
  · by_cases hlt : c.val < 0x80
    · exact Or.inr hlt
    · have hz := ne_ofChar hlt (show 'Z'.toNat < 0x80 by decide)
      have hdot := ne_ofChar hlt (show '.'.toNat < 0x80 by decide)
      simp only [Stamp.generalized, List.mem_append, mem_tail] at hc
      simp only [Stamp.digits, List.mem_append]
      tauto

section Ascii

variable (hascii : ∀ c : CodePoint, c.val < 0x80 → R.digitVal c = asciiDigit c)

include hascii

theorem digitVal_of_isDigit {c : CodePoint} (h : isDigit c = true) :
    R.digitVal c = some (c.val - 0x30) := by
  have hc := val_of_isDigit h
  rw [hascii c (by omega), asciiDigit, if_pos h]

theorem isDigit_of_anyDigit {c : CodePoint} (h : AnyDigit R c) (hc : c.val < 0x80) :
    isDigit c = true := by
  rw [AnyDigit, hascii c hc, asciiDigit] at h
  split at h
  · assumption
  · cases h

theorem valueOf_eq_intOf {ds : Str} (h : ∀ c ∈ ds, isDigit c = true) : valueOf R ds = intOf ds := by
  unfold valueOf intOf
  refine List.foldl_ext _ _ _ fun n c hc => ?_
  rw [digitVal_of_isDigit hascii (h c hc), Option.getD_some]

/-- The numbers of an ASCII form. -/
theorem instant_valueOf {p : Stamp} (h : p.IsDigits (isDigit · = true)) :
    p.time (valueOf R) = p.time intOf ∧ p.instant (valueOf R) = p.instant intOf := by
  have htime : p.time (valueOf R) = p.time intOf := by
    simp only [Stamp.time, valueOf_eq_intOf hascii h.year.2, valueOf_eq_intOf hascii h.month.2,
      valueOf_eq_intOf hascii h.day.2, valueOf_eq_intOf hascii h.hour.2,
      valueOf_eq_intOf hascii h.minute.2, valueOf_eq_intOf hascii h.second.2]
  refine ⟨htime, ?_⟩
  rw [Stamp.instant, Stamp.instant, htime, Stamp.fractionOf, Stamp.fractionOf,
    valueOf_eq_intOf hascii h.fraction]

/-- A form with digits of any script is the form with ASCII digits exactly where the text
has no other digit in it. -/
theorem script_iff {form : Stamp → Str} (hform : AsciiForm form) {ok ok' : Stamp → Prop}
    (hok : ∀ p : Stamp, p.IsDigits (isDigit · = true) → (ok p ↔ ok' p)) (s : Str) :
    ((∃ p : Stamp, p.IsDigits (AnyDigit R) ∧ ok p ∧ s = form p) ↔
      ∃ p : Stamp, p.IsDigits (isDigit · = true) ∧ ok' p ∧ s = form p) ↔
    ¬ ∃ p : Stamp, p.IsDigits (AnyDigit R) ∧ ok p ∧ s = form p ∧ ∃ c ∈ s, 0x80 ≤ c.val := by
  constructor
  · rintro hiff ⟨p, hp, hpok, hs, c, hc, hother⟩
    obtain ⟨p', hp', -, hs'⟩ := hiff.mp ⟨p, hp, hpok, hs⟩
    obtain hdigit | hlt := (hform p').2 c (hs' ▸ hc)
    · have := val_of_isDigit (hp'.digits c hdigit)
      omega
    · omega
  · intro hno
    constructor
    · rintro ⟨p, hp, hpok, hs⟩
      have hdigits : p.IsDigits (isDigit · = true) := by
        refine hp.mono fun c hc hany => isDigit_of_anyDigit hascii hany ?_
        by_contra hother
        exact hno ⟨p, hp, hpok, hs, c, hs ▸ (hform p).1 c hc, Nat.not_lt.mp hother⟩
      exact ⟨p, hdigits, (hok p hdigits).mp hpok, hs⟩
    · rintro ⟨p, hp, hpok, hs⟩
      refine ⟨p, hp.mono fun c _ hc => ?_, (hok p hp).mpr hpok, hs⟩
      rw [AnyDigit, digitVal_of_isDigit hascii hc]
      rfl

end Ascii

end Preaction.Py
