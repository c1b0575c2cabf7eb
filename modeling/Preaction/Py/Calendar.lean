import Mathlib.Data.List.Lex
import Preaction.Py.Date

/-!
# The order of dates and times

The ordinal of a date and the seconds of a time grow with the fields, read from the
year down: a month or a year begins only behind the last day of the one before.
-/

namespace Preaction.Py

/-- The days before a year. -/
def daysBeforeYear (y : Nat) : Nat := (y - 1) * 365 + (y - 1) / 4 - (y - 1) / 100 + (y - 1) / 400

/-- The days of the year before a month. -/
def daysBeforeMonth (y m : Nat) : Nat := ((daysInMonth y).take (m - 1)).sum

theorem toOrdinal_eq_some {y m d n : Nat} (h : toOrdinal y m d = some n) :
    1 ≤ y ∧ (1 ≤ m ∧ m ≤ 12) ∧ (1 ≤ d ∧ d ≤ (daysInMonth y).getD (m - 1) 0) ∧
      n = daysBeforeYear y + daysBeforeMonth y m + d := by
  unfold toOrdinal at h
  dsimp only at h
  split at h
  · next hvalid =>
    obtain ⟨hy, hm, hm', hd, hd'⟩ := hvalid
    exact ⟨hy, ⟨hm, hm'⟩, ⟨hd, hd'⟩, (Option.some.inj h).symm⟩
  · cases h

/-- A month begins behind the days of every one before it, and the year has no
more days than its months. -/
theorem month_le (y : Nat) : ∀ m < 13, 1 ≤ m →
    daysBeforeMonth y m + (daysInMonth y).getD (m - 1) 0 ≤ 365 + (isLeap y).toNat ∧
    ∀ k < 13, m < k →
      daysBeforeMonth y m + (daysInMonth y).getD (m - 1) 0 ≤ daysBeforeMonth y k := by
  unfold daysBeforeMonth daysInMonth
  generalize isLeap y = leap
  revert leap
  decide

/-- A year begins behind the days of every one before it. -/
theorem year_le {y z : Nat} (hy : 1 ≤ y) (h : y < z) :
    daysBeforeYear y + 365 + (isLeap y).toNat ≤ daysBeforeYear z := by
  unfold daysBeforeYear
  have hleap : (isLeap y).toNat ≤ 1 := Bool.toNat_le _
  by_cases hnext : z = y + 1
  · subst hnext
    have hif : (isLeap y).toNat = if y % 4 = 0 ∧ (y % 100 ≠ 0 ∨ y % 400 = 0) then 1 else 0 := by
      rw [isLeap]
      split <;> simp_all
    rw [hif]
    split <;> omega
  · omega

/-- Ordinals grow with year, month and day. -/
theorem toOrdinal_lt {y m d y' m' d' n n' : Nat} (h : toOrdinal y m d = some n)
    (h' : toOrdinal y' m' d' = some n')
    (hlt : y < y' ∨ y = y' ∧ (m < m' ∨ m = m' ∧ d < d')) : n < n' := by
  obtain ⟨hy, ⟨hm, hm12⟩, ⟨-, hd⟩, rfl⟩ := toOrdinal_eq_some h
  obtain ⟨-, ⟨hm', hm12'⟩, ⟨hd', -⟩, rfl⟩ := toOrdinal_eq_some h'
  obtain ⟨hyear, hmonth⟩ := month_le y m (by omega) hm
  obtain hlt | ⟨rfl, hlt | ⟨rfl, hlt⟩⟩ := hlt
  · have := year_le hy hlt
    omega
  · have := hmonth m' (by omega) hlt
    omega
  · omega

/-- The fields from the year down. -/
def DateTime.fields (t : DateTime) : List Nat :=
  [t.year, t.month, t.day, t.hour, t.minute, t.second]

theorem DateTime.timegm_lt {t u : DateTime} (ht : t.isValid = true) (hu : u.isValid = true)
    (h : t.fields < u.fields) : t.timegm < u.timegm := by
  simp only [DateTime.isValid, Bool.and_eq_true, decide_eq_true_eq] at ht hu
  obtain ⟨⟨⟨htday, hth⟩, htm⟩, hts⟩ := ht
  obtain ⟨⟨⟨huday, huh⟩, hum⟩, hus⟩ := hu
  obtain ⟨n, hn⟩ := Option.isSome_iff_exists.mp htday
  obtain ⟨k, hk⟩ := Option.isSome_iff_exists.mp huday
  simp only [DateTime.timegm, hn, hk, Option.getD_some]
  simp only [DateTime.fields, List.cons_lt_cons_iff, List.not_lt_nil, and_false, or_false] at h
  by_cases hday : t.year = u.year ∧ t.month = u.month ∧ t.day = u.day
  · obtain ⟨hy, hm, hd⟩ := hday
    rw [hy, hm, hd, hk] at hn
    obtain rfl := Option.some.inj hn
    omega
  · have := toOrdinal_lt hn hk (by omega)
    omega

/-- Times compare as their fields do. -/
theorem DateTime.timegm_lt_iff {t u : DateTime} (ht : t.isValid = true) (hu : u.isValid = true) :
    t.timegm < u.timegm ↔ t.fields < u.fields := by
  refine ⟨fun h => ?_, DateTime.timegm_lt ht hu⟩
  rcases lt_trichotomy t.fields u.fields with hlt | heq | hgt
  · exact hlt
  · simp only [DateTime.fields, List.cons.injEq] at heq
    obtain ⟨hy, hm, hd, hh, hmi, hs, -⟩ := heq
    simp only [DateTime.timegm, hy, hm, hd, hh, hmi, hs, lt_irrefl] at h
  · have := DateTime.timegm_lt hu ht hgt
    omega

end Preaction.Py
