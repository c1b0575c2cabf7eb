import Preaction.AcceptanceRecord
import Preaction.EvidenceSet.Times
import Preaction.Py.Calendar
import Preaction.Py.DecimalForm
import Preaction.WorkAcceptance.Times

/-!
# The order of the times of a set and of a record

`evidence_set_check.py` takes the bytewise-least `retrieved_at` of a set and
`acceptance_record_check.py` compares two times as texts. Both rely on one law: the
test `_valid_ts` admits one form of fixed length, so that texts compare as the
instants they denote. The form is `YYYY-MM-DDTHH:MM:SS.mmmZ`; the pattern asks for
`\\d`, a decimal digit of any script, and with two scripts the law is lost. It holds
exactly where no digit is of another script (`timeLaw_iff`).

Mirroring notes:
- The tests take the month lengths and the leap years from a table of their own, and
  admit the year 0, which `datetime` has not. The instant is counted 400 years, a whole
  cycle of the calendar, later.
-/

namespace Preaction.EvidenceSet

open Preaction.Py

/-- The same time a cycle of the calendar later. -/
def cycleLater (t : DateTime) : DateTime := { t with year := t.year + 400 }

/-- The milliseconds since the epoch. -/
def millis (t : DateTime) (ms : Nat) : Int :=
  ((cycleLater t).timegm - 146097 * 86400) * 1000 + ms

/-- The text is the form in these digits with real fields, and denotes the instant. -/
def Denotes (digit : CodePoint → Prop) (value : Str → Nat) (s : Str) (m : Int) : Prop :=
  ∃ p : Stamp, p.IsDigits digit ∧ (p.fraction.length = 3 ∧ RealFields (p.time value)) ∧
    s = p.rfc ∧ m = millis (p.time value) (value p.fraction)

/-- ASCII `YYYY-MM-DDTHH:MM:SS.mmmZ`, denoting a real instant. -/
def Canonical (s : Str) : Prop := ∃ m, Denotes (isDigit · = true) intOf s m

variable (R : Runtime)

/-- A digit of the form is not an ASCII one; otherwise it denotes an instant. -/
def OtherScript (s : Str) : Prop :=
  ∃ p : Stamp, p.IsDigits (AnyDigit R) ∧
    (p.fraction.length = 3 ∧ RealFields (p.time (valueOf R))) ∧ s = p.rfc ∧ ∃ c ∈ s, 0x80 ≤ c.val

/-- The test accepts the two texts exactly when they are canonical, and then as texts
and as bytes they are in the order of their instants. -/
def TimeLaw (valid : Json → Bool) (s t : Str) : Prop :=
  (valid (.str s) = true ↔ Canonical s) ∧ (valid (.str t) = true ↔ Canonical t) ∧
  (valid (.str s) = true → valid (.str t) = true →
    ∃ m n, Denotes (AnyDigit R) (valueOf R) s m ∧ Denotes (AnyDigit R) (valueOf R) t n ∧
      (strLt s t = true ↔ m < n) ∧ (utf8Bytes s < utf8Bytes t ↔ m < n))

/-! ## The calendar from the year 0 -/

theorem isLeap_cycle (y : Nat) : isLeap (y + 400) = isLeap y := by
  have h4 : (y + 400) % 4 = y % 4 := by omega
  have h100 : (y + 400) % 100 = y % 100 := by omega
  have h400 : (y + 400) % 400 = y % 400 := by omega
  rw [isLeap, isLeap, h4, h100, h400]

theorem daysInMonth_cycle (y : Nat) : daysInMonth (y + 400) = daysInMonth y := by
  rw [daysInMonth, daysInMonth, isLeap_cycle]

/-- The fields are real exactly when `datetime` takes them a cycle later. -/
theorem realFields_iff {t : DateTime} : RealFields t ↔ (cycleLater t).isValid = true := by
  have hiff : (toOrdinal (t.year + 400) t.month t.day).isSome = true ↔
      (1 ≤ t.month ∧ t.month ≤ 12) ∧ 1 ≤ t.day ∧
        t.day ≤ (daysInMonth t.year).getD (t.month - 1) 0 := by
    unfold toOrdinal
    rw [daysInMonth_cycle]
    split
    · next h =>
      obtain ⟨-, hm, hm', hd⟩ := h
      exact iff_of_true rfl ⟨⟨hm, hm'⟩, hd⟩
    · next h =>
      simp only [Option.isSome_none, Bool.false_eq_true, false_iff]
      exact fun hreal => h ⟨by omega, hreal.1.1, hreal.1.2, hreal.2⟩
  unfold cycleLater
  simp only [DateTime.isValid, Bool.and_eq_true, decide_eq_true_eq, hiff]
  constructor
  · intro h
    exact ⟨⟨⟨⟨h.month, h.day⟩, Nat.lt_succ_of_le h.hour⟩, Nat.lt_succ_of_le h.minute⟩,
      Nat.lt_succ_of_le h.second⟩
  · rintro ⟨⟨⟨⟨hmonth, hday⟩, hhour⟩, hminute⟩, hsecond⟩
    exact ⟨hmonth, hday, Nat.le_of_lt_succ hhour, Nat.le_of_lt_succ hminute,
      Nat.le_of_lt_succ hsecond⟩

/-- From the year 1 the instant is that of `calendar.timegm`. -/
theorem millis_eq_timegm {t : DateTime} (h : t.isValid = true) (ms : Nat) :
    millis t ms = t.timegm * 1000 + ms := by
  simp only [DateTime.isValid, Bool.and_eq_true] at h
  obtain ⟨n, hn⟩ := Option.isSome_iff_exists.mp h.1.1.1
  obtain ⟨hy, hm, hd, rfl⟩ := toOrdinal_eq_some hn
  have hlater : toOrdinal (t.year + 400) t.month t.day =
      some (daysBeforeYear t.year + daysBeforeMonth t.year t.month + t.day + 146097) := by
    unfold toOrdinal
    rw [daysInMonth_cycle]
    dsimp only
    rw [if_pos ⟨by omega, hm.1, hm.2, hd⟩, daysBeforeYear, daysBeforeMonth, Option.some.injEq]
    omega
  simp only [millis, DateTime.timegm, cycleLater, hn, hlater, Option.getD_some]
  omega

/-! ## The order of texts of fixed fields -/

/-- Blocks of one length compare first. -/
theorem append_lt_append_iff {α : Type} [LinearOrder α] {a b x y : List α}
    (h : a.length = b.length) : a ++ x < b ++ y ↔ a < b ∨ a = b ∧ x < y := by
  induction a generalizing b with
  | nil =>
    obtain rfl := List.length_eq_zero_iff.mp h.symm
    simp
  | cons c a ih =>
    cases b with
    | nil => cases h
    | cons d b =>
      have hlen : a.length = b.length := Nat.succ.inj h
      rw [List.cons_append, List.cons_append, List.cons_lt_cons_iff, List.cons_lt_cons_iff,
        ih hlen, List.cons.injEq]
      tauto

theorem intOf_cons (c : CodePoint) (ds : Str) :
    intOf (c :: ds) = (c.val - 0x30) * 10 ^ ds.length + intOf ds := by
  have h := decimalValue_append [c] ds
  rwa [show decimalValue [c] = c.val - 0x30 from Nat.zero_add _] at h

/-- Digits of one length compare as their values. -/
theorem digits_lt_iff {ds es : Str} (hlen : ds.length = es.length)
    (hds : ∀ c ∈ ds, isDigit c = true) (hes : ∀ c ∈ es, isDigit c = true) :
    (ds < es ↔ intOf ds < intOf es) ∧ (ds = es ↔ intOf ds = intOf es) := by
  induction ds generalizing es with
  | nil =>
    obtain rfl := List.length_eq_zero_iff.mp hlen.symm
    simp
  | cons c ds ih =>
    cases es with
    | nil => cases hlen
    | cons d es =>
      obtain ⟨hc, hds⟩ := List.forall_mem_cons.mp hds
      obtain ⟨hd, hes⟩ := List.forall_mem_cons.mp hes
      have hlen : ds.length = es.length := Nat.succ.inj hlen
      obtain ⟨hlt, heq⟩ := ih hlen hds hes
      have hcv := val_of_isDigit hc
      have hdv := val_of_isDigit hd
      have hsmall : intOf ds < 10 ^ es.length :=
        hlen ▸ decimalValue_lt (List.all_eq_true.mpr hds)
      have hsmall' : intOf es < 10 ^ es.length := decimalValue_lt (List.all_eq_true.mpr hes)
      rw [List.cons_lt_cons_iff, List.cons.injEq, hlt, heq, intOf_cons, intOf_cons, hlen]
      rcases lt_trichotomy c d with hcd | rfl | hcd
      · -- a smaller first digit outweighs the others
        have hstep : (c.val - 0x30 + 1) * 10 ^ es.length ≤ (d.val - 0x30) * 10 ^ es.length :=
          Nat.mul_le_mul_right _ (by have : c.val < d.val := hcd; omega)
        rw [Nat.succ_mul] at hstep
        exact ⟨iff_of_true (Or.inl hcd) (by omega), iff_of_false (fun h => hcd.ne h.1) (by omega)⟩
      · exact ⟨by simp, by simp⟩
      · have hstep : (d.val - 0x30 + 1) * 10 ^ es.length ≤ (c.val - 0x30) * 10 ^ es.length :=
          Nat.mul_le_mul_right _ (by have : d.val < c.val := hcd; omega)
        rw [Nat.succ_mul] at hstep
        refine ⟨iff_of_false ?_ (by omega), iff_of_false (fun h => hcd.ne' h.1) (by omega)⟩
        rintro (h | ⟨h, -⟩)
        · exact lt_asymm h hcd
        · exact hcd.ne' h

/-- Texts of the form compare as their fields, and then as the milliseconds. -/
theorem rfc_lt_iff {p q : Stamp} (hp : p.IsDigits (isDigit · = true))
    (hq : q.IsDigits (isDigit · = true)) (hpf : p.fraction.length = 3)
    (hqf : q.fraction.length = 3) : p.rfc < q.rfc ↔
      (p.time intOf).fields ++ [intOf p.fraction] < (q.time intOf).fields ++ [intOf q.fraction] := by
  have hfrac := hpf.trans hqf.symm
  obtain ⟨hylen, hy⟩ := And.intro (hp.year.1.trans hq.year.1.symm) hp.year.2
  have hyear := digits_lt_iff hylen hy hq.year.2
  have hmolen := hp.month.1.trans hq.month.1.symm
  have hmonth := digits_lt_iff hmolen hp.month.2 hq.month.2
  have hdlen := hp.day.1.trans hq.day.1.symm
  have hday := digits_lt_iff hdlen hp.day.2 hq.day.2
  have hhlen := hp.hour.1.trans hq.hour.1.symm
  have hhour := digits_lt_iff hhlen hp.hour.2 hq.hour.2
  have hmilen := hp.minute.1.trans hq.minute.1.symm
  have hminute := digits_lt_iff hmilen hp.minute.2 hq.minute.2
  have hslen := hp.second.1.trans hq.second.1.symm
  have hsecond := digits_lt_iff hslen hp.second.2 hq.second.2
  have hmillis := digits_lt_iff hfrac hp.fraction hq.fraction
  rw [rfc_eq hpf, rfc_eq hqf]
  simp only [append_lt_append_iff hylen, append_lt_append_iff hmolen, append_lt_append_iff hdlen,
    append_lt_append_iff hhlen, append_lt_append_iff hmilen, append_lt_append_iff hslen,
    append_lt_append_iff hfrac, List.cons_lt_cons_iff, lt_irrefl, false_or, true_and, and_false,
    or_false, hyear, hmonth, hday, hhour, hminute, hsecond, hmillis, DateTime.fields, Stamp.time,
    List.cons_append, List.nil_append]

/-- Instants compare as the fields, and then as the milliseconds. -/
theorem millis_lt_iff {t u : DateTime} {m n : Nat} (ht : RealFields t) (hu : RealFields u)
    (hm : m < 1000) (hn : n < 1000) :
    millis t m < millis u n ↔ t.fields ++ [m] < u.fields ++ [n] := by
  have hlt := DateTime.timegm_lt_iff (realFields_iff.mp ht) (realFields_iff.mp hu)
  have hgt := DateTime.timegm_lt_iff (realFields_iff.mp hu) (realFields_iff.mp ht)
  have hfields (t u : DateTime) : (cycleLater t).fields < (cycleLater u).fields ↔
      t.fields < u.fields := by
    simp only [DateTime.fields, cycleLater, List.cons_lt_cons_iff, Nat.add_lt_add_iff_right,
      Nat.add_right_cancel_iff]
  rw [hfields] at hlt hgt
  have hlen : t.fields.length = u.fields.length := rfl
  rw [append_lt_append_iff hlen, ← hlt, List.cons_lt_cons_iff]
  simp only [List.not_lt_nil, and_false, or_false, millis]
  rcases lt_trichotomy t.fields u.fields with h | h | h
  · have hsec := hlt.mpr h
    exact iff_of_true (by omega) (Or.inl hsec)
  · have hsec : (cycleLater t).timegm = (cycleLater u).timegm := by
      refine le_antisymm (not_lt.mp fun hlt' => ?_) (not_lt.mp fun hlt' => ?_)
      · exact absurd (hgt.mp hlt') (h ▸ lt_irrefl _)
      · exact absurd (hlt.mp hlt') (h ▸ lt_irrefl _)
    rw [hsec]
    simp only [h, lt_irrefl, false_or, true_and]
    omega
  · have hsec := hgt.mpr h
    refine iff_of_false (by omega) ?_
    rintro (hsec' | ⟨heq, -⟩)
    · omega
    · exact h.ne' heq

theorem strLt_iff (s t : Str) : strLt s t = true ↔ s < t := by
  induction s generalizing t with
  | nil => cases t <;> simp [strLt]
  | cons c s ih =>
    cases t with
    | nil => simp [strLt]
    | cons d t => simp [strLt, List.cons_lt_cons_iff, ih]

/-- The UTF-8 of ASCII texts is in the order of the texts. -/
theorem utf8Bytes_lt_iff {s t : Str} (hs : ∀ c ∈ s, c.val < 0x80) (ht : ∀ c ∈ t, c.val < 0x80) :
    utf8Bytes s < utf8Bytes t ↔ s < t := by
  induction s generalizing t with
  | nil =>
    cases t with
    | nil => simp [utf8Bytes]
    | cons d t => simp [utf8Bytes, utf8Point, (List.forall_mem_cons.mp ht).1]
  | cons c s ih =>
    obtain ⟨hc, hs⟩ := List.forall_mem_cons.mp hs
    cases t with
    | nil => simp [utf8Bytes]
    | cons d t =>
      obtain ⟨hd, ht⟩ := List.forall_mem_cons.mp ht
      have hlt : UInt8.ofNat c.val < UInt8.ofNat d.val ↔ c < d := by
        rw [UInt8.lt_iff_toNat_lt, UInt8.toNat_ofNat', UInt8.toNat_ofNat', Nat.mod_eq_of_lt (by omega),
          Nat.mod_eq_of_lt (by omega)]
        rfl
      have heq : UInt8.ofNat c.val = UInt8.ofNat d.val ↔ c = d := by
        rw [← UInt8.toNat_inj, UInt8.toNat_ofNat', UInt8.toNat_ofNat', Nat.mod_eq_of_lt (by omega),
          Nat.mod_eq_of_lt (by omega), Fin.val_inj]
      rw [utf8Bytes, utf8Bytes, utf8Point, utf8Point, if_pos hc, if_pos hd, List.singleton_append,
        List.singleton_append, List.cons_lt_cons_iff, List.cons_lt_cons_iff, hlt, heq, ih hs ht]

/-! ## What the test accepts -/

variable {R}

theorem canonical_iff {s : Str} : Canonical s ↔ ∃ p : Stamp, p.IsDigits (isDigit · = true) ∧
    (p.fraction.length = 3 ∧ RealFields (p.time intOf)) ∧ s = p.rfc := by
  constructor
  · rintro ⟨-, p, hp, hreal, hs, -⟩
    exact ⟨p, hp, hreal, hs⟩
  · rintro ⟨p, hp, hreal, hs⟩
    exact ⟨_, p, hp, hreal, hs, rfl⟩

section Ascii

variable (hascii : ∀ c : CodePoint, c.val < 0x80 → R.digitVal c = asciiDigit c)

include hascii

theorem validTs_iff_canonical (s : Str) :
    (validTs R (.str s) = true ↔ Canonical s) ↔ ¬ OtherScript R s := by
  rw [validTs_iff, canonical_iff]
  refine script_iff hascii asciiForm_rfc (fun p hp => ?_) s
  rw [(instant_valueOf hascii hp).1]

/-- A canonical text denotes its instant in any script. -/
theorem Denotes.of_ascii {s : Str} {m : Int} (h : Denotes (isDigit · = true) intOf s m) :
    Denotes (AnyDigit R) (valueOf R) s m := by
  obtain ⟨p, hp, hreal, hs, hm⟩ := h
  have htime := (instant_valueOf hascii hp).1
  refine ⟨p, hp.mono fun c _ hc => ?_, htime ▸ hreal, hs, ?_⟩
  · rw [AnyDigit, digitVal_of_isDigit hascii hc]
    rfl
  · rw [hm, htime, valueOf_eq_intOf hascii hp.fraction]

omit hascii in
theorem Denotes.ascii {s : Str} {m : Int} (h : Denotes (isDigit · = true) intOf s m) :
    ∀ c ∈ s, c.val < 0x80 := by
  obtain ⟨p, hp, -, rfl, -⟩ := h
  intro c hc
  obtain hdigit | hlt := (asciiForm_rfc p).2 c hc
  · have := val_of_isDigit (hp.digits c hdigit)
    omega
  · exact hlt

omit hascii in
/-- Canonical texts are in the order of their instants. -/
theorem Denotes.lt_iff {s t : Str} {m n : Int} (hs : Denotes (isDigit · = true) intOf s m)
    (ht : Denotes (isDigit · = true) intOf t n) : s < t ↔ m < n := by
  obtain ⟨p, hp, ⟨hpf, hpreal⟩, rfl, rfl⟩ := hs
  obtain ⟨q, hq, ⟨hqf, hqreal⟩, rfl, rfl⟩ := ht
  have hsmall {r : Stamp} (hr : r.IsDigits (isDigit · = true)) (hrf : r.fraction.length = 3) :
      intOf r.fraction < 1000 := by
    have := decimalValue_lt (List.all_eq_true.mpr hr.fraction)
    rwa [hrf] at this
  rw [rfc_lt_iff hp hq hpf hqf, millis_lt_iff hpreal hqreal (hsmall hp hpf) (hsmall hq hqf)]

/-- The test is that of the form and its accepted texts are in the order of time
exactly when no digit is of another script. -/
theorem timeLaw_validTs (s t : Str) :
    TimeLaw R (validTs R) s t ↔ ¬ OtherScript R s ∧ ¬ OtherScript R t := by
  unfold TimeLaw
  rw [validTs_iff_canonical hascii, validTs_iff_canonical hascii]
  refine ⟨fun h => ⟨h.1, h.2.1⟩, fun ⟨hs, ht⟩ => ⟨hs, ht, fun hsv htv => ?_⟩⟩
  obtain ⟨m, hm⟩ := ((validTs_iff_canonical hascii s).mpr hs).mp hsv
  obtain ⟨n, hn⟩ := ((validTs_iff_canonical hascii t).mpr ht).mp htv
  refine ⟨m, n, hm.of_ascii hascii, hn.of_ascii hascii, ?_, ?_⟩
  · rw [strLt_iff, hm.lt_iff hn]
  · rw [utf8Bytes_lt_iff hm.ascii hn.ascii, hm.lt_iff hn]

end Ascii

/-- The tests of evidence sets and of acceptance records accept canonical texts only,
and order them as their instants, exactly when no digit is of another script. -/
theorem timeLaw_iff (hascii : ∀ c : CodePoint, c.val < 0x80 → R.digitVal c = asciiDigit c)
    (s t : Str) :
    (TimeLaw R (validTs R) s t ↔ ¬ OtherScript R s ∧ ¬ OtherScript R t) ∧
    (TimeLaw R (AcceptanceRecord.validTs R) s t ↔ ¬ OtherScript R s ∧ ¬ OtherScript R t) :=
  ⟨timeLaw_validTs hascii s t, timeLaw_validTs hascii s t⟩

theorem not_otherScript {s : Str} (h : s.all (·.val < 0x80) = true) : ¬ OtherScript R s := by
  rintro ⟨p, -, -, -, c, hc, hother⟩
  have := of_decide_eq_true (List.all_eq_true.mp h c hc)
  omega

/-- A leap day of the year 0, and a second of 2026. -/
theorem timeLaw_march :
    TimeLaw .sample (validTs .sample) (lit "0000-02-29T23:59:59.999Z")
      (lit "2026-03-01T00:00:05.500Z") ∧
    TimeLaw .sample (AcceptanceRecord.validTs .sample) (lit "0000-02-29T23:59:59.999Z")
      (lit "2026-03-01T00:00:05.500Z") := by
  have hascii : ∀ c : CodePoint, c.val < 0x80 → Runtime.sample.digitVal c = asciiDigit c :=
    fun _ _ => rfl
  obtain ⟨hset, hrecord⟩ := timeLaw_iff hascii (lit "0000-02-29T23:59:59.999Z")
    (lit "2026-03-01T00:00:05.500Z")
  have hother := And.intro (not_otherScript (R := .sample) (s := lit "0000-02-29T23:59:59.999Z")
    (by decide)) (not_otherScript (R := .sample) (s := lit "2026-03-01T00:00:05.500Z") (by decide))
  exact ⟨hset.mpr hother, hrecord.mpr hother⟩

/-- 1 March 2025, the year in Arabic digits. -/
def arabicYear : Stamp :=
  ⟨[0x662, 0x660, 0x662, 0x665], lit "03", lit "01", lit "00", lit "00", lit "05", lit "000"⟩

/-- The same day a year later. -/
def asciiYear : Stamp :=
  ⟨lit "2026", lit "03", lit "01", lit "00", lit "00", lit "05", lit "000"⟩

theorem denotes_arabicYear :
    Denotes (AnyDigit WarCheck.arabicRuntime) (valueOf WarCheck.arabicRuntime) arabicYear.rfc
      1740787205000 := by
  have hall : ∀ ds : Str, ds.all (WarCheck.arabicRuntime.digitVal · |>.isSome) = true →
      ∀ c ∈ ds, AnyDigit WarCheck.arabicRuntime c := fun _ h => List.all_eq_true.mp h
  refine ⟨arabicYear, ⟨⟨rfl, hall _ (by decide)⟩, ⟨rfl, hall _ (by decide)⟩,
    ⟨rfl, hall _ (by decide)⟩, ⟨rfl, hall _ (by decide)⟩, ⟨rfl, hall _ (by decide)⟩,
    ⟨rfl, hall _ (by decide)⟩, hall _ (by decide)⟩, ⟨rfl, ?_⟩, rfl, by decide +kernel⟩
  exact realFields_iff.mpr (by decide +kernel)

theorem denotes_asciiYear : Denotes (isDigit · = true) intOf asciiYear.rfc 1772323205000 := by
  have hall : ∀ ds : Str, ds.all isDigit = true → ∀ c ∈ ds, isDigit c = true :=
    fun _ h => List.all_eq_true.mp h
  refine ⟨asciiYear, ⟨⟨rfl, hall _ (by decide)⟩, ⟨rfl, hall _ (by decide)⟩,
    ⟨rfl, hall _ (by decide)⟩, ⟨rfl, hall _ (by decide)⟩, ⟨rfl, hall _ (by decide)⟩,
    ⟨rfl, hall _ (by decide)⟩, hall _ (by decide)⟩, ⟨rfl, ?_⟩, rfl, by decide +kernel⟩
  exact realFields_iff.mpr (by decide +kernel)

/-- Both tests accept the Arabic digits, and these sort behind those of a later time. -/
theorem arabicYear_accepted :
    ¬ TimeLaw WarCheck.arabicRuntime (validTs WarCheck.arabicRuntime) arabicYear.rfc asciiYear.rfc ∧
    ¬ TimeLaw WarCheck.arabicRuntime (AcceptanceRecord.validTs WarCheck.arabicRuntime)
      arabicYear.rfc asciiYear.rfc ∧
    ∃ m n, Denotes (AnyDigit WarCheck.arabicRuntime) (valueOf WarCheck.arabicRuntime)
        arabicYear.rfc m ∧
      Denotes (AnyDigit WarCheck.arabicRuntime) (valueOf WarCheck.arabicRuntime) asciiYear.rfc n ∧
      m < n ∧ strLt arabicYear.rfc asciiYear.rfc = false ∧
      ¬ utf8Bytes arabicYear.rfc < utf8Bytes asciiYear.rfc := by
  have hother : OtherScript WarCheck.arabicRuntime arabicYear.rfc := by
    obtain ⟨p, hp, hreal, hs, -⟩ := denotes_arabicYear
    exact ⟨p, hp, hreal, hs, 0x662, List.mem_cons_self, by decide⟩
  have hascii := WarCheck.arabicRuntime_ascii
  refine ⟨fun h => ((timeLaw_validTs hascii _ _).mp h).1 hother,
    fun h => ((timeLaw_validTs hascii _ _).mp h).1 hother,
    1740787205000, 1772323205000, denotes_arabicYear, denotes_asciiYear.of_ascii hascii, by decide,
    by decide +kernel, by decide +kernel⟩

end Preaction.EvidenceSet
