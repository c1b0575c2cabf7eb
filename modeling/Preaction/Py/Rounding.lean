import Mathlib.Algebra.Order.Field.Power
import Mathlib.Algebra.Order.Field.Rat
import Mathlib.Algebra.Order.Group.Abs
import Mathlib.Tactic.FieldSimp
import Mathlib.Tactic.Linarith
import Mathlib.Tactic.Positivity
import Mathlib.Tactic.Ring
import Preaction.Lib.ShortestDecimal
import Preaction.Py.JsonParse

/-!
# How far a double is from what was rounded to it

`roundToDouble` of a number is at most half a unit in the last place away from it
(`roundToDouble_near`, for doubles from `2^53` on, which are integers), and a double
that is such an integer is rounded to itself (`roundToDouble_self`).
-/

namespace Preaction.Py

/-- The quotient is rounded by at most one half. -/
theorem roundHalfEven_near (n : Nat) {d : Nat} (hd : 0 < d) :
    |(n : Rat) / d - roundHalfEven n d| ≤ 1 / 2 := by
  have hd' : (0 : Rat) < d := by exact_mod_cast hd
  have hdiv : (n : Rat) = d * (n / d : Nat) + (n % d : Nat) := by
    exact_mod_cast (Nat.div_add_mod n d).symm
  have hmod : ((n % d : Nat) : Rat) < d := by exact_mod_cast Nat.mod_lt n hd
  have hnonneg : (0 : Rat) ≤ (n % d : Nat) := Nat.cast_nonneg _
  have hquot : (n : Rat) / d = (n / d : Nat) + (n % d : Nat) / d := by
    rw [div_eq_iff hd'.ne', add_mul, div_mul_cancel₀ _ hd'.ne']
    linarith
  have hdown (h : 2 * (n % d) ≤ d) : |(n : Rat) / d - (n / d : Nat)| ≤ 1 / 2 := by
    have h' : 2 * ((n % d : Nat) : Rat) ≤ d := by exact_mod_cast h
    rw [hquot, add_sub_cancel_left, abs_of_nonneg (by positivity), div_le_iff₀ hd']
    linarith
  have hup (h : d ≤ 2 * (n % d)) : |(n : Rat) / d - (n / d + 1 : Nat)| ≤ 1 / 2 := by
    have h' : (d : Rat) ≤ 2 * ((n % d : Nat) : Rat) := by exact_mod_cast h
    have hlow : 1 / 2 ≤ ((n % d : Nat) : Rat) / d := by
      rw [le_div_iff₀ hd']
      linarith
    have hhigh : ((n % d : Nat) : Rat) / d ≤ 1 := by
      rw [div_le_one hd']
      exact hmod.le
    rw [hquot, abs_le]
    push_cast
    constructor <;> linarith
  unfold roundHalfEven
  dsimp only
  split
  next h => exact hdown (by omega)
  next =>
    split
    next h => exact hup (by omega)
    next =>
      split
      next => exact hdown (by omega)
      next => exact hup (by omega)

theorem roundHalfEven_mul (m : Nat) {d : Nat} (hd : 0 < d) : roundHalfEven (m * d) d = m := by
  unfold roundHalfEven
  dsimp only
  rw [Nat.mul_div_cancel m hd, Nat.mul_mod_left, if_pos (by omega)]

theorem roundHalfEven_le {n d b : Nat} (h : n < d * b) : roundHalfEven n d ≤ b := by
  have hdiv : n / d < b := Nat.div_lt_of_lt_mul h
  unfold roundHalfEven
  dsimp only
  split
  · omega
  · split
    · omega
    · split <;> omega

/-- A quotient is below the power of two that the logarithms say, and where they are one
too many below the next lower one. -/
theorem lt_pow_log2 {n d : Nat} (hd : d ≠ 0) :
    (n : Rat) < d * (2 : Rat) ^ ((Nat.log2 n : Int) - Nat.log2 d + 1) := by
  have hn2 : (n : Rat) < (2 : Rat) ^ ((Nat.log2 n : Int) + 1) := by
    have : n < 2 ^ (Nat.log2 n + 1) := Nat.lt_log2_self
    rw [← Nat.cast_succ, zpow_natCast]
    exact_mod_cast this
  have hd2 : (2 : Rat) ^ (Nat.log2 d : Int) ≤ d := by
    rw [zpow_natCast]
    exact_mod_cast Nat.log2_self_le hd
  have hsplit : (2 : Rat) ^ ((Nat.log2 n : Int) + 1) =
      (2 : Rat) ^ (Nat.log2 d : Int) * (2 : Rat) ^ ((Nat.log2 n : Int) - Nat.log2 d + 1) := by
    rw [← zpow_add₀ (by norm_num : (2 : Rat) ≠ 0)]
    exact congrArg _ (by omega)
  rw [hsplit] at hn2
  exact lt_of_lt_of_le hn2 (mul_le_mul_of_nonneg_right hd2 (by positivity))

theorem lt_of_below {n d : Nat} {l : Int}
    (h : if 0 ≤ l then n < d * 2 ^ l.toNat else n * 2 ^ (-l).toNat < d) :
    (n : Rat) < d * (2 : Rat) ^ l := by
  split at h
  next hl =>
    obtain ⟨j, rfl⟩ := Int.eq_ofNat_of_zero_le hl
    rw [zpow_natCast]
    exact_mod_cast h
  next hl =>
    obtain ⟨j, hj⟩ := Int.eq_ofNat_of_zero_le (show 0 ≤ -l by omega)
    rw [hj, Int.toNat_natCast] at h
    have h' : (n : Rat) * 2 ^ j < d := by exact_mod_cast h
    rw [← neg_neg l, hj, zpow_neg, zpow_natCast, ← div_eq_mul_inv, lt_div_iff₀ (by positivity)]
    exact h'

/-- A number is below the end of its binade. -/
theorem lt_binade {n d : Nat} (hd : d ≠ 0) :
    (n : Rat) < d * (2 : Rat) ^ ((binade n d : Int) - 1022) := by
  have hd' : (0 : Rat) ≤ d := Nat.cast_nonneg _
  have hmono {k : Int} (hk : (n : Rat) < d * (2 : Rat) ^ (k + 1)) :
      (n : Rat) < d * (2 : Rat) ^ (((max 1 (k + 1023)).toNat : Int) - 1022) :=
    lt_of_lt_of_le hk (mul_le_mul_of_nonneg_left
      (zpow_le_zpow_right₀ (by norm_num) (by omega)) hd')
  unfold binade
  dsimp only
  apply hmono
  by_cases h : if 0 ≤ (Nat.log2 n : Int) - Nat.log2 d
      then n < d * 2 ^ ((Nat.log2 n : Int) - Nat.log2 d).toNat
      else n * 2 ^ (-((Nat.log2 n : Int) - Nat.log2 d)).toNat < d
  · rw [if_pos h, sub_add_cancel]
    exact lt_of_below h
  · rw [if_neg h]
    exact lt_pow_log2 hd

/-- The binade of an integer. -/
theorem binade_one {n : Nat} (hn : n ≠ 0) : binade n 1 = Nat.log2 n + 1023 := by
  have hself := Nat.log2_self_le hn
  have hone : Nat.log2 1 = 0 := by decide
  have hnot : ¬ if 0 ≤ (Nat.log2 n : Int) then n < 1 * 2 ^ (Nat.log2 n : Int).toNat
      else n * 2 ^ (-(Nat.log2 n : Int)).toNat < 1 := by
    rw [if_pos (Int.natCast_nonneg _), Int.toNat_natCast]
    omega
  unfold binade
  dsimp only
  rw [hone, Int.natCast_zero, sub_zero, if_neg hnot]
  omega

/-! ## Doubles from `2^53` on -/

/-- The significand that `n / d` is rounded to. -/
def rounded (n d : Nat) : Nat :=
  if binade n d ≤ 1075 then roundHalfEven (n * 2 ^ (1075 - binade n d)) d
  else roundHalfEven n (d * 2 ^ (binade n d - 1075))

/-- The integer that a double from `2^52` on is. -/
def integralValue (exp : Fin 2047) (frac : Fin 4503599627370496) : Nat :=
  PyFloat.significand exp frac * 2 ^ (exp.val - 1075)

theorem rounded_near {n d : Nat} (hd : 0 < d) :
    |(n : Rat) / d - rounded n d * (2 : Rat) ^ ((binade n d : Int) - 1075)| ≤
      (2 : Rat) ^ ((binade n d : Int) - 1075) / 2 := by
  have hd' : (d : Rat) ≠ 0 := by exact_mod_cast hd.ne'
  -- one unit is the spacing of the binade
  have hscale {q : Rat} {m : Nat} {j : Int} (hj : (0 : Rat) < (2 : Rat) ^ j)
      (h : |q - m| ≤ 1 / 2) : |q * (2 : Rat) ^ j - m * (2 : Rat) ^ j| ≤ (2 : Rat) ^ j / 2 := by
    rw [← sub_mul, abs_mul, abs_of_pos hj]
    calc |q - m| * (2 : Rat) ^ j ≤ 1 / 2 * (2 : Rat) ^ j := mul_le_mul_of_nonneg_right h hj.le
      _ = (2 : Rat) ^ j / 2 := by ring
  unfold rounded
  split
  next h =>
    have hnear := hscale (j := (binade n d : Int) - 1075) (by positivity)
      (roundHalfEven_near (n * 2 ^ (1075 - binade n d)) hd)
    have hpow : ((n * 2 ^ (1075 - binade n d) : Nat) : Rat) / d *
        (2 : Rat) ^ ((binade n d : Int) - 1075) = n / d := by
      have hneg : (binade n d : Int) - 1075 = -((1075 - binade n d : Nat) : Int) := by omega
      rw [hneg, zpow_neg, zpow_natCast]
      push_cast
      field_simp
    rwa [hpow] at hnear
  next h =>
    have hnear := hscale (j := (binade n d : Int) - 1075) (by positivity)
      (roundHalfEven_near n (d := d * 2 ^ (binade n d - 1075)) (by positivity))
    have hpow : (n : Rat) / (d * 2 ^ (binade n d - 1075) : Nat) *
        (2 : Rat) ^ ((binade n d : Int) - 1075) = n / d := by
      have hpos : (binade n d : Int) - 1075 = ((binade n d - 1075 : Nat) : Int) := by omega
      rw [hpos, zpow_natCast]
      push_cast
      field_simp
    rwa [hpow] at hnear

theorem rounded_le {n d : Nat} (hd : d ≠ 0) : rounded n d ≤ 2 ^ 53 := by
  have hlt := lt_binade (n := n) hd
  have hsplit : (2 : Rat) ^ ((binade n d : Int) - 1022) =
      2 ^ 53 * (2 : Rat) ^ ((binade n d : Int) - 1075) := by
    rw [show (2 : Rat) ^ 53 = (2 : Rat) ^ (53 : Int) from rfl,
      ← zpow_add₀ (by norm_num : (2 : Rat) ≠ 0)]
    exact congrArg _ (by omega)
  rw [hsplit] at hlt
  unfold rounded
  split
  next h =>
    apply roundHalfEven_le
    have hneg : (binade n d : Int) - 1075 = -((1075 - binade n d : Nat) : Int) := by omega
    rw [hneg, zpow_neg, zpow_natCast, ← div_eq_mul_inv, ← mul_div_assoc,
      lt_div_iff₀ (by positivity)] at hlt
    exact_mod_cast hlt
  next h =>
    apply roundHalfEven_le
    have hpos : (binade n d : Int) - 1075 = ((binade n d - 1075 : Nat) : Int) := by omega
    rw [hpos, zpow_natCast] at hlt
    have : n < d * (2 ^ 53 * 2 ^ (binade n d - 1075)) := by exact_mod_cast hlt
    calc n < d * (2 ^ 53 * 2 ^ (binade n d - 1075)) := this
      _ = d * 2 ^ (binade n d - 1075) * 2 ^ 53 := by ring

variable {neg neg' : Bool} {n d : Nat} {exp : Fin 2047} {frac : Fin 4503599627370496}

/-- The last step of `roundToDouble`: a significand and its binade as a double. -/
def packed (neg : Bool) (m e : Nat) : PyFloat :=
  if 2047 ≤ e then .inf neg
  else if m < 4503599627370496 then .fin neg 0 (Fin.ofNat _ m)
  else .fin neg (Fin.ofNat _ e) (Fin.ofNat _ (m - 4503599627370496))

theorem roundToDouble_eq (neg : Bool) (hn : n ≠ 0) (d : Nat) : roundToDouble neg n d =
    packed neg (if rounded n d = 9007199254740992 then 4503599627370496 else rounded n d)
      (if rounded n d = 9007199254740992 then binade n d + 1 else binade n d) := by
  rw [roundToDouble, if_neg hn]
  rfl

/-- The sign goes through. -/
theorem packed_sign {m e : Nat} (sign : Bool) (h : packed neg m e = .fin neg' exp frac) :
    packed sign m e = .fin sign exp frac := by
  unfold packed at h ⊢
  split at h
  next => cases h
  next hfin =>
    rw [if_neg hfin]
    split at h
    next hsub =>
      obtain ⟨-, rfl, rfl⟩ := PyFloat.fin.inj h
      rw [if_pos hsub]
    next hsub =>
      obtain ⟨-, rfl, rfl⟩ := PyFloat.fin.inj h
      rw [if_neg hsub]

theorem roundToDouble_sign {d : Nat} (sign : Bool)
    (h : roundToDouble neg n d = .fin neg' exp frac) :
    roundToDouble sign n d = .fin sign exp frac := by
  by_cases hn : n = 0
  · rw [roundToDouble, if_pos hn] at h ⊢
    obtain ⟨-, rfl, rfl⟩ := PyFloat.fin.inj h
    rfl
  · rw [roundToDouble_eq _ hn] at h ⊢
    exact packed_sign sign h

/-- A packed significand is read back. -/
theorem packed_fin {m e : Nat} (hm : m < 9007199254740992)
    (h : packed neg m e = .fin neg' exp frac) (hexp : exp.val ≠ 0) :
    neg' = neg ∧ exp.val = e ∧ PyFloat.significand exp frac = m := by
  unfold packed at h
  split at h
  next => cases h
  next he =>
    split at h
    next =>
      cases h
      exact absurd rfl hexp
    next hlow =>
      cases h
      have he' : (Fin.ofNat 2047 e).val = e := Nat.mod_eq_of_lt (by omega)
      rw [he'] at hexp
      refine ⟨rfl, he', ?_⟩
      rw [PyFloat.significand, he', if_neg hexp, Fin.val_ofNat, Nat.mod_eq_of_lt (by omega)]
      omega

/-- The double that a number is rounded to, from its significand and binade. -/
theorem value_roundToDouble (hn : n ≠ 0) (hd : d ≠ 0)
    (h : roundToDouble neg n d = .fin neg' exp frac) (hexp : exp.val ≠ 0) :
    neg' = neg ∧ binade n d ≤ exp.val ∧
      (PyFloat.significand exp frac : Rat) * (2 : Rat) ^ ((exp.val : Int) - 1075) =
        rounded n d * (2 : Rat) ^ ((binade n d : Int) - 1075) := by
  rw [roundToDouble_eq neg hn] at h
  by_cases hmax : rounded n d = 9007199254740992
  · -- rounded up to the next binade
    rw [if_pos hmax, if_pos hmax] at h
    obtain ⟨hneg, hval, hsig⟩ := packed_fin (by decide) h hexp
    refine ⟨hneg, by omega, ?_⟩
    have hnext : ((binade n d + 1 : Nat) : Int) - 1075 = (binade n d : Int) - 1075 + 1 := by
      omega
    rw [hsig, hval, hmax, hnext, zpow_add₀ (by norm_num : (2 : Rat) ≠ 0), zpow_one]
    push_cast
    ring
  · have hle := rounded_le (n := n) hd
    rw [if_neg hmax, if_neg hmax] at h
    obtain ⟨hneg, hval, hsig⟩ := packed_fin (by omega) h hexp
    exact ⟨hneg, by omega, by rw [hsig, hval]⟩

/-- A double from `2^53` on is within half the spacing there of what was rounded to it. -/
theorem roundToDouble_near (hn : n ≠ 0) (hd : d ≠ 0)
    (h : roundToDouble neg n d = .fin neg' exp frac) (hexp : 1076 ≤ exp.val) :
    |(n : Rat) / d - integralValue exp frac| ≤ 2 ^ (exp.val - 1076) := by
  obtain ⟨-, hle, hvalue⟩ := value_roundToDouble hn hd h (by omega)
  have hint : (integralValue exp frac : Rat) =
      PyFloat.significand exp frac * (2 : Rat) ^ ((exp.val : Int) - 1075) := by
    rw [integralValue, show (exp.val : Int) - 1075 = ((exp.val - 1075 : Nat) : Int) by omega,
      zpow_natCast]
    push_cast
    rfl
  have hhalf : (2 : Rat) ^ ((exp.val : Int) - 1075) / 2 = 2 ^ (exp.val - 1076) := by
    rw [show (exp.val : Int) - 1075 = ((exp.val - 1076 : Nat) : Int) + 1 by omega,
      zpow_add₀ (by norm_num : (2 : Rat) ≠ 0), zpow_one, zpow_natCast, mul_div_assoc,
      div_self (by norm_num), mul_one]
  rw [hint, hvalue, ← hhalf]
  refine (rounded_near (Nat.pos_of_ne_zero hd)).trans ?_
  have : (2 : Rat) ^ ((binade n d : Int) - 1075) ≤ (2 : Rat) ^ ((exp.val : Int) - 1075) :=
    zpow_le_zpow_right₀ (by norm_num) (by omega)
  linarith

theorem le_roundHalfEven {b : Nat} (hd : 0 < d) (h : b * d ≤ n) : b ≤ roundHalfEven n d := by
  have hdiv : b ≤ n / d := (Nat.le_div_iff_mul_le hd).mpr h
  unfold roundHalfEven
  dsimp only
  split
  · exact hdiv
  · split
    · omega
    · split <;> omega

/-- An integer from `2^53` on is rounded to a double from `2^53` on. -/
theorem exp_of_large (hlarge : 2 ^ 53 ≤ n) (h : roundToDouble neg n 1 = .fin neg' exp frac) :
    1076 ≤ exp.val := by
  have hn : n ≠ 0 := by omega
  have hlog : 53 ≤ Nat.log2 n := (Nat.le_log2 hn).mpr hlarge
  have hbinade := binade_one hn
  have hround : 2 ^ 52 ≤ rounded n 1 := by
    rw [rounded, if_neg (by omega)]
    refine le_roundHalfEven (by positivity) ?_
    calc 2 ^ 52 * (1 * 2 ^ (binade n 1 - 1075)) = 2 ^ Nat.log2 n := by
          rw [one_mul, ← pow_add]
          exact congrArg _ (by omega)
      _ ≤ n := Nat.log2_self_le hn
  have hpacked {m e : Nat} (hm : 2 ^ 52 ≤ m) (h : packed neg m e = .fin neg' exp frac) :
      exp.val = e := by
    unfold packed at h
    split at h
    next => cases h
    next he =>
      rw [if_neg (by omega)] at h
      cases h
      exact Nat.mod_eq_of_lt (by omega)
  rw [roundToDouble_eq neg hn] at h
  split at h
  next => rw [hpacked (by decide) h]; omega
  next => rw [hpacked hround h]; omega

theorem significand_bounds (frac : Fin 4503599627370496) (hexp : exp.val ≠ 0) :
    2 ^ 52 ≤ PyFloat.significand exp frac ∧ PyFloat.significand exp frac < 2 ^ 53 := by
  have hfrac := frac.isLt
  rw [PyFloat.significand, if_neg hexp]
  omega

/-- A double that is an integer is rounded to itself. -/
theorem roundToDouble_self (neg : Bool) (frac : Fin 4503599627370496) (hexp : 1075 ≤ exp.val) :
    roundToDouble neg (integralValue exp frac) 1 = .fin neg exp frac := by
  have hnormal : exp.val ≠ 0 := by omega
  obtain ⟨hlow, hhigh⟩ := significand_bounds frac hnormal
  have hn : integralValue exp frac ≠ 0 := by
    rw [integralValue]
    positivity
  have hlog : Nat.log2 (integralValue exp frac) = 52 + (exp.val - 1075) := by
    rw [Nat.log2_eq_iff hn, integralValue, pow_add, show 52 + (exp.val - 1075) + 1 =
      53 + (exp.val - 1075) by omega, pow_add]
    exact ⟨Nat.mul_le_mul_right _ hlow, Nat.mul_lt_mul_of_pos_right hhigh (by positivity)⟩
  have hbinade : binade (integralValue exp frac) 1 = exp.val := by
    rw [binade_one hn, hlog]
    omega
  have hround : rounded (integralValue exp frac) 1 = PyFloat.significand exp frac := by
    rw [rounded, hbinade, integralValue]
    split
    next hle =>
      rw [show exp.val - 1075 = 1075 - exp.val by omega, mul_assoc, ← pow_add,
        show 1075 - exp.val + (1075 - exp.val) = 0 by omega, pow_zero]
      exact roundHalfEven_mul _ (by decide)
    next => rw [one_mul, roundHalfEven_mul _ (by positivity)]
  have hlt := exp.isLt
  rw [roundToDouble_eq neg hn, hround, hbinade, if_neg (by omega), if_neg (by omega), packed,
    if_neg (by omega), if_neg (by omega)]
  have hsig : PyFloat.significand exp frac - 4503599627370496 = frac.val := by
    rw [PyFloat.significand, if_neg (by omega)]
    omega
  rw [hsig]
  have hexp' : Fin.ofNat 2047 exp.val = exp := Fin.ext (Nat.mod_eq_of_lt hlt)
  have hfrac' : Fin.ofNat 4503599627370496 frac.val = frac := Fin.ext (Nat.mod_eq_of_lt frac.isLt)
  rw [hexp', hfrac']

/-! ## The shortest decimal of a double -/

/-- The decimal is read as the double. -/
def ReadsAs (exp : Fin 2047) (frac : Fin 4503599627370496) (q : Rat) : Prop :=
  0 < q ∧ roundToDouble false q.num.natAbs q.den = .fin false exp frac

theorem readsAs_natCast {n : Nat} :
    ReadsAs exp frac n ↔ 0 < n ∧ roundToDouble false n 1 = .fin false exp frac := by
  rw [ReadsAs, Nat.cast_pos, Rat.num_natCast, Rat.den_natCast, Int.natAbs_natCast]

theorem ReadsAs.near {q : Rat} (h : ReadsAs exp frac q) (hexp : 1076 ≤ exp.val) :
    |q - integralValue exp frac| ≤ 2 ^ (exp.val - 1076) := by
  obtain ⟨hpos, hround⟩ := h
  have hnum : 0 < q.num := Rat.num_pos.mpr hpos
  have hq : (q.num.natAbs : Rat) / q.den = q := by
    rw [← Int.cast_natCast, Int.natAbs_of_nonneg hnum.le]
    exact Rat.num_div_den q
  have hnear := roundToDouble_near (by omega) q.den_nz hround hexp
  rwa [hq] at hnear

/-- An integer from `2^1024` on overflows. -/
theorem roundToDouble_inf (neg : Bool) {k : Nat} (hk : 1024 ≤ k) (hlarge : 2 ^ k ≤ n) :
    roundToDouble neg n 1 = .inf neg := by
  have hn : n ≠ 0 := ((Nat.two_pow_pos k).trans_le hlarge).ne'
  have hlog : k ≤ Nat.log2 n := (Nat.le_log2 hn).mpr hlarge
  have hbinade := binade_one hn
  rw [roundToDouble_eq neg hn, packed, if_pos]
  split <;> omega

/-- The double of an integer below `2^70` is not far above it. -/
theorem exp_of_small (hn : n ≠ 0) (hsmall : n < 2 ^ 70)
    (h : roundToDouble neg n 1 = .fin neg' exp frac) : exp.val ≤ 1093 := by
  by_cases hexp : exp.val = 0
  · omega
  have hlog : Nat.log2 n < 70 := (Nat.log2_lt hn).mpr hsmall
  have hbinade := binade_one hn
  have hle := rounded_le (n := n) (d := 1) (by decide)
  rw [roundToDouble_eq neg hn] at h
  split at h
  next => exact (packed_fin (by decide) h hexp).2.1 ▸ by omega
  next => exact (packed_fin (by omega) h hexp).2.1 ▸ by omega

/-- A double from `2^53` and not far above `2^70` has one shortest decimal. -/
theorem shortest_unique {q r : Rat} (hlow : 1076 ≤ exp.val) (hhigh : exp.val ≤ 1093)
    (hq : Decimal.Shortest (ReadsAs exp frac) (integralValue exp frac) q)
    (hr : Decimal.Shortest (ReadsAs exp frac) (integralValue exp frac) r) : q = r := by
  have hnormal : exp.val ≠ 0 := by omega
  obtain ⟨hsig, -⟩ := significand_bounds frac hnormal
  have hpow : 2 ^ (exp.val - 1075) = 2 ^ (exp.val - 1076 + 1) := congrArg _ (by omega)
  have hfive : 5 ^ (exp.val - 1076) ≤ 5 ^ 17 := Nat.pow_le_pow_right (by decide) (by omega)
  have hpos : 0 < integralValue exp frac := by
    rw [integralValue]
    positivity
  refine hq.unique (w := exp.val - 1076) ?_ ?_ ?_ (fun s hs => hs.near hlow) hr
  · rw [integralValue, hpow]
    exact Nat.dvd_mul_left _ _
  · calc 10 ^ (exp.val - 1076) + 2 ^ (exp.val - 1076)
        = (5 ^ (exp.val - 1076) + 1) * 2 ^ (exp.val - 1076) := by
          rw [add_mul, one_mul, ← mul_pow, show 5 * 2 = 10 from rfl]
      _ ≤ 2 ^ 53 * 2 ^ (exp.val - 1076) := Nat.mul_le_mul_right _ (by omega)
      _ = 2 ^ 52 * 2 ^ (exp.val - 1076 + 1) := by ring
      _ ≤ integralValue exp frac := by
          rw [integralValue, hpow]
          exact Nat.mul_le_mul_right _ hsig
  · exact readsAs_natCast.mpr ⟨hpos, roundToDouble_self false frac (by omega)⟩

end Preaction.Py
