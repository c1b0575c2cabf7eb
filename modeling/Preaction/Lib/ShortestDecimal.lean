import Mathlib.Algebra.Order.Field.Power
import Mathlib.Algebra.Order.Field.Rat
import Mathlib.Algebra.Order.Group.Abs
import Mathlib.Data.Nat.Prime.Basic
import Mathlib.Tactic.Linarith
import Mathlib.Tactic.Positivity
import Mathlib.Tactic.Ring

/-!
# Shortest decimals

A number that is stored inexactly stands for all the decimals that are read as it. A
printer chooses one of the fewest digits, and of these one that is nearest to the
number stored (`Shortest`). Two of them can be equally near, on either side. Where the
number stored is an integer and a multiple of the spacing of its neighbours, that does
not happen: the midpoint of two decimals on one grid has fewer factors of two than the
grid's spacing, or is on the grid (`Shortest.unique`).
-/

namespace Preaction.Decimal

/-- The number is an integer of at most `D` decimal digits, moved by a power of ten. -/
def HasDigits (D : Nat) (q : Rat) : Prop :=
  ∃ (d : Nat) (k : Int), d < 10 ^ D ∧ q = d * (10 : Rat) ^ k

/-- A decimal that is read as `x`, of the fewest digits and of these nearest to it. -/
structure Shortest (reads : Rat → Prop) (x q : Rat) : Prop where
  same : reads q
  fewest : ∀ r D, reads r → HasDigits D r → HasDigits D q
  nearest : ∀ r, reads r → (∀ D, HasDigits D q → HasDigits D r) → |q - x| ≤ |r - x|

/-- Two decimals on the finer of their grids. -/
theorem common_grid (d e : Nat) (k l : Int) : ∃ (m : Int) (a b : Nat),
    d * (10 : Rat) ^ k = a * (10 : Rat) ^ m ∧ e * (10 : Rat) ^ l = b * (10 : Rat) ^ m ∧
      (a = d ∧ m = k ∨ b = e ∧ m = l) := by
  have hmove (n : Nat) {i j : Int} (hij : i ≤ j) :
      n * (10 : Rat) ^ j = (n * 10 ^ (j - i).toNat : Nat) * (10 : Rat) ^ i := by
    push_cast
    rw [← zpow_natCast, Int.toNat_of_nonneg (by omega), mul_assoc,
      ← zpow_add₀ (by norm_num : (10 : Rat) ≠ 0), sub_add_cancel]
  rcases le_total k l with h | h
  · exact ⟨k, d, e * 10 ^ (l - k).toNat, rfl, hmove e h, Or.inl ⟨rfl, rfl⟩⟩
  · exact ⟨l, d * 10 ^ (k - l).toNat, e, hmove d h, rfl, Or.inr ⟨rfl, rfl⟩⟩

/-- The double of an integer on a grid of fractions is even there. -/
theorem even_of_grid_nonpos {x M : Nat} {m : Int} (hm : m ≤ 0)
    (h : (M : Rat) * (10 : Rat) ^ m = 2 * x) : Even M := by
  have hM : M = 2 * (x * 10 ^ (-m).toNat) := by
    have : (M : Rat) = 2 * (x * 10 ^ (-m).toNat) := by
      rw [← zpow_natCast, Int.toNat_of_nonneg (by omega), ← mul_assoc, ← h, mul_assoc,
        ← zpow_add₀ (by norm_num : (10 : Rat) ≠ 0), add_neg_cancel, zpow_zero, mul_one]
    exact_mod_cast this
  exact ⟨_, hM.trans (two_mul _)⟩

/-- An odd multiple of `10^p` has `p` factors of two. -/
theorem pow_le_of_odd {M p x w : Nat} (hM : Odd M) (h : M * 10 ^ p = 2 * x)
    (hx : 2 ^ (w + 1) ∣ x) : 2 ^ (w + 2) ≤ 2 ^ p := by
  have hdvd : 2 ^ (w + 2) ∣ (M * 5 ^ p) * 2 ^ p := by
    have hten : M * 5 ^ p * 2 ^ p = 2 * x := by
      rw [mul_assoc, ← mul_pow, show 5 * 2 = 10 from rfl, h]
    rw [hten, pow_succ, mul_comm]
    exact Nat.mul_dvd_mul_left 2 hx
  have hcop : Nat.Coprime (2 ^ (w + 2)) (M * 5 ^ p) := by
    refine Nat.Coprime.pow_left _ ((Nat.coprime_mul_iff_right).mpr ⟨?_, ?_⟩)
    · exact (Nat.coprime_two_left).mpr hM
    · exact Nat.Coprime.pow_right _ (by decide)
  exact Nat.le_of_dvd (Nat.pow_pos (by decide)) (hcop.dvd_of_dvd_mul_left hdvd)

variable {x w D d e : Nat}

/-- Of two decimals on either side of an integer and equally near to it, the midpoint is on
their grid. -/
theorem even_of_midpoint {a b : Nat} {m : Int} (hx : 2 ^ (w + 1) ∣ x)
    (hsum : (a + b : Nat) * (10 : Rat) ^ m = 2 * x) (hlt : a * (10 : Rat) ^ m < x)
    (hgap : x - a * (10 : Rat) ^ m ≤ 2 ^ w) : Even (a + b) := by
  rcases le_or_gt m 0 with hm | hm
  · exact even_of_grid_nonpos hm hsum
  · by_contra hodd
    obtain ⟨p, rfl⟩ := Int.eq_ofNat_of_zero_le hm.le
    rw [zpow_natCast] at hsum hlt hgap
    have hsum' : (a + b) * 10 ^ p = 2 * x := by exact_mod_cast hsum
    have hlt' : a * 10 ^ p < x := by exact_mod_cast hlt
    have hgap' : x ≤ 2 ^ w + a * 10 ^ p := by
      have : (x : Rat) ≤ 2 ^ w + a * 10 ^ p := by linarith
      exact_mod_cast this
    have hpow := pow_le_of_odd (Nat.not_even_iff_odd.mp hodd) hsum' hx
    have hten : 2 ^ p ≤ 10 ^ p := Nat.pow_le_pow_left (by decide) p
    have hab : a < b := by
      by_contra hle
      have : (a + b) * 10 ^ p ≤ (a + a) * 10 ^ p := Nat.mul_le_mul_right _ (by omega)
      rw [hsum', Nat.add_mul] at this
      omega
    -- they are at least the grid's spacing apart
    have hspace : (a + 1) * 10 ^ p ≤ b * 10 ^ p := Nat.mul_le_mul_right _ hab
    rw [Nat.add_mul, Nat.one_mul] at hspace
    rw [Nat.add_mul] at hsum'
    rw [pow_succ, pow_succ] at hpow
    omega

/-- An integer just beyond a power of ten is that power. -/
theorem eq_pow_of_near {m : Int} {q : Rat} (hx : 2 ^ (w + 1) ∣ x) (hbig : 10 ^ w + 2 ^ w ≤ x)
    (hq : q < (10 : Rat) ^ D * (10 : Rat) ^ m) (hxp : (10 : Rat) ^ D * (10 : Rat) ^ m ≤ x)
    (hgap : x - q ≤ 2 ^ w) : (x : Rat) = (10 : Rat) ^ (D + m) := by
  rw [← zpow_natCast, ← zpow_add₀ (by norm_num : (10 : Rat) ≠ 0)] at hq hxp
  have hw : (w : Int) < D + m := by
    refine (zpow_lt_zpow_iff_right₀ (by norm_num : (1 : Rat) < 10)).mp (lt_of_le_of_lt ?_ hq)
    have : (10 : Rat) ^ w + 2 ^ w ≤ x := by exact_mod_cast hbig
    rw [zpow_natCast]
    linarith
  obtain ⟨P, hP⟩ := Int.eq_ofNat_of_zero_le (show 0 ≤ (D : Int) + m by omega)
  rw [hP, zpow_natCast] at hq hxp ⊢
  have hle : 10 ^ P ≤ x := by exact_mod_cast hxp
  have hlt : x < 10 ^ P + 2 ^ w := by
    have : (x : Rat) < 10 ^ P + 2 ^ w := by linarith
    exact_mod_cast this
  have hdvd : 2 ^ (w + 1) ∣ 10 ^ P :=
    (Nat.pow_dvd_pow 2 (by omega)).trans (pow_dvd_pow_of_dvd (by decide : 2 ∣ 10) P)
  have hzero := Nat.eq_zero_of_dvd_of_lt (Nat.dvd_sub hx hdvd) (by rw [pow_succ]; omega)
  have : x = 10 ^ P := by omega
  exact_mod_cast this

/-- Then the integer has as few digits as they have. -/
theorem hasDigits_midpoint {k l : Int} (hx : 2 ^ (w + 1) ∣ x) (hbig : 10 ^ w + 2 ^ w ≤ x)
    (hd : d < 10 ^ D) (he : e < 10 ^ D)
    (hsum : d * (10 : Rat) ^ k + e * (10 : Rat) ^ l = 2 * x) (hlt : d * (10 : Rat) ^ k < x)
    (hgap : x - d * (10 : Rat) ^ k ≤ 2 ^ w) : HasDigits D x := by
  obtain ⟨m, a, b, ha, hb, hgrid⟩ := common_grid d e k l
  have hm : (0 : Rat) < (10 : Rat) ^ m := by positivity
  rw [ha] at hlt hgap
  rw [ha, hb, ← add_mul] at hsum
  obtain ⟨N, hN⟩ := even_of_midpoint (b := b) hx (by exact_mod_cast hsum) hlt hgap
  have hxN : (x : Rat) = N * (10 : Rat) ^ m := by
    have : ((a + b : Nat) : Rat) = N + N := by exact_mod_cast hN
    push_cast at this
    rw [this] at hsum
    linarith
  by_cases hND : N < 10 ^ D
  · exact ⟨N, m, hND, hxN⟩
  · -- the integer is beyond the next power of ten, and the lower decimal below it
    have hNx : (10 : Rat) ^ D * (10 : Rat) ^ m ≤ x := by
      rw [hxN]
      have : ((10 ^ D : Nat) : Rat) ≤ N := by exact_mod_cast not_lt.mp hND
      push_cast at this
      exact mul_le_mul_of_nonneg_right this hm.le
    have hbelow {c f : Nat} (hc : c = f) (hf : f < 10 ^ D) :
        c * (10 : Rat) ^ m < (10 : Rat) ^ D * (10 : Rat) ^ m := by
      have : (f : Rat) < (10 ^ D : Nat) := by exact_mod_cast hf
      rw [hc]
      push_cast at this
      exact mul_lt_mul_of_pos_right this hm
    rcases hgrid with ⟨had, -⟩ | ⟨hbe, -⟩
    · refine ⟨1, D + m, ?_, ?_⟩
      · refine Nat.one_lt_pow (fun hD => ?_) (by decide)
        -- no digit at all is zero, which is not near
        rw [hD, pow_zero, Nat.lt_one_iff] at hd
        rw [had, hd, Nat.cast_zero, zero_mul, sub_zero] at hgap
        have hten : 0 < 10 ^ w := by positivity
        have : x ≤ 2 ^ w := by exact_mod_cast hgap
        omega
      · rw [Nat.cast_one, one_mul]
        exact eq_pow_of_near hx hbig (hbelow had hd) hNx hgap
    · have := hbelow hbe he
      linarith

variable {reads : Rat → Prop}

theorem Shortest.hasDigits_iff {y q r : Rat} (hq : Shortest reads y q) (hr : Shortest reads y r)
    (D : Nat) : HasDigits D q ↔ HasDigits D r :=
  ⟨hr.fewest q D hq.same, hq.fewest r D hr.same⟩

/-- A shortest decimal below the integer leaves no room for one above. -/
theorem Shortest.not_lt {q r : Rat} (hx : 2 ^ (w + 1) ∣ x) (hbig : 10 ^ w + 2 ^ w ≤ x)
    (hself : reads x) (hclose : ∀ r, reads r → |r - x| ≤ 2 ^ w) (hq : Shortest reads x q)
    (hr : Shortest reads x r) (hsum : q + r = 2 * x) : ¬ q < x := by
  intro hlt
  have hgap : x - q ≤ 2 ^ w := by
    have := hclose q hq.same
    rw [abs_sub_comm] at this
    exact (abs_le.mp this).2
  refine absurd (hq.nearest x hself fun D hD => ?_) ?_
  · obtain ⟨d, k, hd, rfl⟩ := hD
    obtain ⟨e, l, he, rfl⟩ := (hq.hasDigits_iff hr D).mp ⟨d, k, hd, rfl⟩
    exact hasDigits_midpoint hx hbig hd he hsum hlt hgap
  · rw [sub_self, abs_zero, not_le, abs_pos]
    exact (sub_neg.mpr hlt).ne

/-- The shortest decimal of an integer that is a multiple of the spacing of its
neighbours. -/
theorem Shortest.unique {q r : Rat} (hx : 2 ^ (w + 1) ∣ x) (hbig : 10 ^ w + 2 ^ w ≤ x)
    (hself : reads x) (hclose : ∀ r, reads r → |r - x| ≤ 2 ^ w) (hq : Shortest reads x q)
    (hr : Shortest reads x r) : q = r := by
  have hnear : |q - x| = |r - x| :=
    le_antisymm (hq.nearest r hr.same fun D => (hq.hasDigits_iff hr D).mp)
      (hr.nearest q hq.same fun D => (hq.hasDigits_iff hr D).mpr)
  rcases abs_eq_abs.mp hnear with h | h
  · exact sub_left_inj.mp h
  · have hsum : q + r = 2 * x := by linarith
    have hq' := hq.not_lt hx hbig hself hclose hr hsum
    have hr' := hr.not_lt hx hbig hself hclose hq ((add_comm r q).trans hsum)
    linarith

end Preaction.Decimal
