import Preaction.EvidenceSet
import Preaction.Py.Stamp

/-!
# What the time test of an evidence set accepts

`_valid_ts` reads `YYYY-MM-DDTHH:MM:SS.mmmZ` in the digits of any script and asks for
real calendar fields (`validTs_iff`). An accepted text has no surrogate in it, so it
can be encoded.
-/

namespace Preaction.EvidenceSet

open Preaction.Py

/-- Fields of a real time, in the proleptic Gregorian calendar from the year 0. -/
structure RealFields (t : DateTime) : Prop where
  month : 1 ≤ t.month ∧ t.month ≤ 12
  day : 1 ≤ t.day ∧ t.day ≤ (daysInMonth t.year).getD (t.month - 1) 0
  hour : t.hour ≤ 23
  minute : t.minute ≤ 59
  second : t.second ≤ 59

variable {R : Runtime}

theorem rfc_eq {p : Stamp} (h : p.fraction.length = 3) :
    p.rfc = p.year ++ ofChar '-' :: (p.month ++ ofChar '-' :: (p.day ++ ofChar 'T' :: (p.hour ++
      ofChar ':' :: (p.minute ++ ofChar ':' :: (p.second ++
        ofChar '.' :: (p.fraction ++ [ofChar 'Z'])))))) := by
  have hne : p.fraction ≠ [] := List.ne_nil_of_length_pos (by omega)
  rw [Stamp.rfc, Stamp.tail, if_neg hne]

/-- `_valid_ts` accepts the form with digits of any script. -/
theorem validTs_iff {s : Str} : validTs R (.str s) = true ↔ ∃ p : Stamp, p.IsDigits (AnyDigit R) ∧
    (p.fraction.length = 3 ∧ RealFields (p.time (valueOf R))) ∧ s = p.rfc := by
  have hreal (t : DateTime) : (decide (1 ≤ t.month) && decide (t.month ≤ 12) &&
      decide (t.hour ≤ 23) && decide (t.minute ≤ 59) && decide (t.second ≤ 59) &&
      decide (1 ≤ t.day) && decide (t.day ≤ (daysInMonth t.year).getD (t.month - 1) 0)) = true ↔
        RealFields t := by
    simp only [Bool.and_eq_true, decide_eq_true_eq]
    constructor
    · rintro ⟨⟨⟨⟨⟨⟨hm, hm'⟩, hh⟩, hmi⟩, hs⟩, hd⟩, hd'⟩
      exact ⟨⟨hm, hm'⟩, ⟨hd, hd'⟩, hh, hmi, hs⟩
    · rintro ⟨⟨hm, hm'⟩, ⟨hd, hd'⟩, hh, hmi, hs⟩
      exact ⟨⟨⟨⟨⟨⟨hm, hm'⟩, hh⟩, hmi⟩, hs⟩, hd⟩, hd'⟩
  have hread (t : DateTime) : readTs R s = some t ↔ ∃ p : Stamp, p.IsDigits (AnyDigit R) ∧
      p.fraction.length = 3 ∧ s = p.rfc ∧ t = p.time (valueOf R) := by
    constructor
    · intro h
      obtain ⟨y, s, rfl, hy, h⟩ := readDigits_bind.mp h
      obtain ⟨s, rfl, h⟩ := readChar_bind.mp h
      obtain ⟨mo, s, rfl, hmo, h⟩ := readDigits_bind.mp h
      obtain ⟨s, rfl, h⟩ := readChar_bind.mp h
      obtain ⟨d, s, rfl, hd, h⟩ := readDigits_bind.mp h
      obtain ⟨s, rfl, h⟩ := readChar_bind.mp h
      obtain ⟨ho, s, rfl, hho, h⟩ := readDigits_bind.mp h
      obtain ⟨s, rfl, h⟩ := readChar_bind.mp h
      obtain ⟨mi, s, rfl, hmi, h⟩ := readDigits_bind.mp h
      obtain ⟨s, rfl, h⟩ := readChar_bind.mp h
      obtain ⟨se, s, rfl, hse, h⟩ := readDigits_bind.mp h
      obtain ⟨s, rfl, h⟩ := readChar_bind.mp h
      obtain ⟨f, s, rfl, hf, h⟩ := readDigits_bind.mp h
      dsimp only at h
      obtain ⟨last, hlast, hend⟩ := Option.bind_eq_some_iff.mp h
      obtain ⟨r, hr, rfl⟩ := Option.map_eq_some_iff.mp hlast
      obtain rfl := readChar_eq_some.mp hr
      split at hend
      · next hempty =>
        obtain rfl := List.isEmpty_iff.mp hempty
        refine ⟨⟨y, mo, d, ho, mi, se, f⟩, ⟨hy, hmo, hd, hho, hmi, hse, hf.2⟩, hf.1, ?_,
          (Option.some.inj hend).symm⟩
        rw [rfc_eq hf.1]
      · cases hend
    · rintro ⟨p, hp, hlen, rfl, rfl⟩
      rw [rfc_eq hlen]
      refine readDigits_bind.mpr ⟨p.year, _, rfl, hp.year, ?_⟩
      refine readChar_bind.mpr ⟨_, rfl, ?_⟩
      refine readDigits_bind.mpr ⟨p.month, _, rfl, hp.month, ?_⟩
      refine readChar_bind.mpr ⟨_, rfl, ?_⟩
      refine readDigits_bind.mpr ⟨p.day, _, rfl, hp.day, ?_⟩
      refine readChar_bind.mpr ⟨_, rfl, ?_⟩
      refine readDigits_bind.mpr ⟨p.hour, _, rfl, hp.hour, ?_⟩
      refine readChar_bind.mpr ⟨_, rfl, ?_⟩
      refine readDigits_bind.mpr ⟨p.minute, _, rfl, hp.minute, ?_⟩
      refine readChar_bind.mpr ⟨_, rfl, ?_⟩
      refine readDigits_bind.mpr ⟨p.second, _, rfl, hp.second, ?_⟩
      refine readChar_bind.mpr ⟨_, rfl, ?_⟩
      refine readDigits_bind.mpr ⟨p.fraction, _, rfl, ⟨hlen, hp.fraction⟩, ?_⟩
      rfl
  unfold validTs
  dsimp only
  cases h : readTs R s with
  | none =>
    refine iff_of_false Bool.false_ne_true ?_
    rintro ⟨p, hp, ⟨hlen, -⟩, rfl⟩
    rw [(hread _).mpr ⟨p, hp, hlen, rfl, rfl⟩] at h
    cases h
  | some t =>
    dsimp only
    rw [hreal]
    obtain ⟨p, hp, hlen, rfl, rfl⟩ := (hread t).mp h
    constructor
    · intro ht
      exact ⟨p, hp, ⟨hlen, ht⟩, rfl⟩
    · rintro ⟨p', hp', ⟨hlen', ht'⟩, hs⟩
      have hsame := (hread _).mpr ⟨p', hp', hlen', hs, rfl⟩
      rw [h] at hsame
      rw [Option.some.inj hsame]
      exact ht'

/-- An accepted text has an encoding. -/
theorem utf8_of_validTs (hsurr : ∀ c, isSurrogate c = true → R.digitVal c = none) {s : Str}
    (h : validTs R (.str s) = true) : utf8 s = .ok (utf8Bytes s) := by
  obtain ⟨p, hp, -, rfl⟩ := validTs_iff.mp h
  have hclean : p.rfc.any isSurrogate = false := by
    rw [List.any_eq_false]
    intro c hc hs
    obtain hdigit | hlt := (asciiForm_rfc p).2 c hc
    · have hany := hp.digits c hdigit
      rw [AnyDigit, hsurr c hs] at hany
      cases hany
    · simp only [isSurrogate, Bool.and_eq_true, decide_eq_true_eq] at hs
      omega
  rw [utf8, hclean, if_neg Bool.false_ne_true]

end Preaction.EvidenceSet
