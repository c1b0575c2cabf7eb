import Preaction.ReceiptCheck.Group

/-!
# The arithmetic of secp256k1, in one file and in another

`_point_add` of `_bip340_nostr.py` inverts with a power and `_add` of `receipt_check.py` with
`pow(a, -1, P)`, which can raise. On points of the curve they give the same sum
(`add_eq_pointAdd`), so what is known of the one (`add_sum`) is known of the other: its points
are a group and `N` ends each of them. That is the class `IsGroup`, which the results about
signatures were given as a hypothesis; here it is proved.
-/

namespace Preaction.Secp256k1

open Preaction.ReceiptCheck (Fp Secp Valid pointOf prime_P prime_N invMod add mul)

theorem onCurve_iff_valid {p : Option Pt} : OnCurve secp256k1 p ↔ Valid p := by
  match p with
  | none => exact Iff.rfl
  | some (x, y) =>
    have heq : y * y % ReceiptCheck.P = (x * x * x + 7) % ReceiptCheck.P ↔
        ShortWeierstrass.OnCurve (7 : Fp) x y := by
      rw [ReceiptCheck.onCurve_iff, pow_two, pow_three, mul_assoc]
    constructor
    · intro h
      obtain ⟨hx, hy, hc⟩ := h
      exact ⟨hx, hy.le, heq.mp hc⟩
    · intro h
      obtain ⟨hx, -, hc⟩ := id h
      exact ⟨hx, ReceiptCheck.snd_lt h, heq.mpr hc⟩

theorem coe_inverse {a : Int} (ha : (a : Fp) ≠ 0) :
    (a : Fp) * (inverse secp256k1 a : Nat) = 1 := by
  have hpow : ((inverse secp256k1 a : Nat) : Fp) = (a : Fp) ^ (ReceiptCheck.P - 2) := by
    unfold inverse
    rw [powMod_eq]
    show (((ReceiptCheck.reduce a ReceiptCheck.P) ^ (ReceiptCheck.P - 2) % ReceiptCheck.P : Nat) :
      Fp) = _
    rw [ZMod.natCast_mod, Nat.cast_pow, ReceiptCheck.coe_reduce prime_P.pos]
  have hsucc : ReceiptCheck.P - 2 + 1 = ReceiptCheck.P - 1 := by decide
  rw [hpow, ← pow_succ', hsucc, ZMod.pow_card_sub_one_eq_one ha]

/-- The inverse by Euclid's algorithm is the inverse by Fermat's theorem. -/
theorem invMod_eq_inverse {a : Int} {i : Nat} (h : invMod a ReceiptCheck.P = .ok i) :
    i = inverse secp256k1 a := by
  have hinv := ReceiptCheck.invMod_spec prime_P.pos h
  have ha : (a : Fp) ≠ 0 := left_ne_zero_of_mul_eq_one hinv
  have hlt : i < ReceiptCheck.P := by
    unfold invMod at h
    split at h
    next => exact Except.ok.inj h ▸ ReceiptCheck.reduce_lt prime_P.pos _
    next => cases h
  have hlt' : inverse secp256k1 a < ReceiptCheck.P := by
    unfold inverse
    rw [powMod_eq]
    exact Nat.mod_lt _ prime_P.pos
  have hcast : (i : Fp) = (inverse secp256k1 a : Nat) :=
    mul_left_cancel₀ ha (hinv.trans (coe_inverse ha).symm)
  rwa [ZMod.natCast_eq_natCast_iff', Nat.mod_eq_of_lt hlt, Nat.mod_eq_of_lt hlt'] at hcast

theorem slope_eq {p q : Pt} {l : Nat} (h : ReceiptCheck.slope p q = .ok l) :
    l = if p.1 = q.1 ∧ p.2 = q.2 then
        reduce secp256k1 (3 * p.1 * p.1 * inverse secp256k1 (2 * p.2))
      else reduce secp256k1 ((q.2 - p.2) * inverse secp256k1 (q.1 - p.1)) := by
  unfold ReceiptCheck.slope at h
  simp only [Prod.ext_iff] at h
  split at h
  next heq =>
    obtain ⟨i, hi, h⟩ := Loop.bind_ok.mp h
    obtain rfl := Except.ok.inj h
    rw [if_pos heq, ← invMod_eq_inverse hi]
    rfl
  next hne =>
    obtain ⟨i, hi, h⟩ := Loop.bind_ok.mp h
    obtain rfl := Except.ok.inj h
    rw [if_neg hne, ← invMod_eq_inverse hi]
    rfl

/-- **Two additions are one.** -/
theorem add_eq_pointAdd {p q : Option Pt} (hp : OnCurve secp256k1 p) (hq : OnCurve secp256k1 q) :
    add p q = .ok (pointAdd secp256k1 p q) := by
  obtain ⟨s, hs, -⟩ := ReceiptCheck.add_ok (onCurve_iff_valid.mp hp) (onCurve_iff_valid.mp hq)
  match p, q with
  | none, _ => rfl
  | some p, none => rfl
  | some (x1, y1), some (x2, y2) =>
    rw [hs]
    refine congrArg Except.ok ?_
    unfold pointAdd
    rw [add] at hs
    by_cases hopp : x1 = x2 ∧ (y1 + y2) % ReceiptCheck.P = 0
    · rw [if_pos hopp] at hs
      obtain rfl := Except.ok.inj hs
      exact (if_pos hopp).symm
    · rw [if_neg hopp] at hs
      obtain ⟨l, hl, hs⟩ := Loop.bind_ok.mp hs
      obtain rfl := Except.ok.inj hs
      have hslope := slope_eq hl
      dsimp only at hslope ⊢
      refine Eq.trans ?_ (if_neg hopp).symm
      rw [← Nat.cast_ite, ← hslope]
      rfl

/-! ## The group -/

/-- `_point_add` adds. -/
theorem pointAdd_sum {p q : Option Pt} (hp : OnCurve secp256k1 p) (hq : OnCurve secp256k1 q) :
    OnCurve secp256k1 (pointAdd secp256k1 p q) ∧
      pointOf (pointAdd secp256k1 p q) = pointOf p + pointOf q := by
  rw [onCurve_iff_valid]
  exact ReceiptCheck.add_sum (onCurve_iff_valid.mp hp) (onCurve_iff_valid.mp hq)
    (add_eq_pointAdd hp hq)

theorem pointOf_inj {p q : Option Pt} (hp : OnCurve secp256k1 p) (hq : OnCurve secp256k1 q)
    (h : pointOf p = pointOf q) : p = q :=
  ReceiptCheck.pointOf_injective (onCurve_iff_valid.mp hp) (onCurve_iff_valid.mp hq) h

theorem pointAdd_assoc {p q r : Option Pt} (hp : OnCurve secp256k1 p) (hq : OnCurve secp256k1 q)
    (hr : OnCurve secp256k1 r) : pointAdd secp256k1 (pointAdd secp256k1 p q) r =
      pointAdd secp256k1 p (pointAdd secp256k1 q r) := by
  obtain ⟨hpq, hsum⟩ := pointAdd_sum hp hq
  obtain ⟨hqr, hsum'⟩ := pointAdd_sum hq hr
  obtain ⟨hleft, hl⟩ := pointAdd_sum hpq hr
  obtain ⟨hright, hr'⟩ := pointAdd_sum hp hqr
  refine pointOf_inj hleft hright ?_
  rw [hl, hsum, hr', hsum', add_assoc]

theorem pointOf_times {p : Option Pt} (hp : OnCurve secp256k1 p) (k : Nat) :
    OnCurve secp256k1 (times secp256k1 k p) ∧
      pointOf (times secp256k1 k p) = k • pointOf p := by
  induction k with
  | zero =>
    rw [zero_nsmul]
    exact ⟨trivial, rfl⟩
  | succ k ih =>
    obtain ⟨hk, hsum⟩ := ih
    obtain ⟨hk', hsum'⟩ := pointAdd_sum hk hp
    refine ⟨hk', ?_⟩
    rw [times, hsum', hsum, succ_nsmul]

/-- What ends every point of the group ends every point. -/
theorem times_eq_none {n : Nat} (hn : ∀ Q : Secp, n • Q = 0) {p : Option Pt}
    (hp : OnCurve secp256k1 p) : times secp256k1 n p = none := by
  obtain ⟨hv, hsum⟩ := pointOf_times hp n
  exact pointOf_inj hv (onCurve_iff_valid.mpr trivial) (hsum.trans (hn _))

/-- The multiple of a point is nothing exactly where `N` divides the scalar: the group has no
smaller part. -/
theorem times_eq_none_iff {Q : Pt} (hQ : OnCurve secp256k1 (some Q)) {k : Nat} :
    times secp256k1 k (some Q) = none ↔ ReceiptCheck.N ∣ k := by
  obtain ⟨hc, hsum⟩ := pointOf_times hQ k
  have hprime : Fact ReceiptCheck.N.Prime := ⟨ReceiptCheck.prime_N⟩
  have hne : pointOf (some Q) ≠ 0 := fun h =>
    Option.some_ne_none Q (pointOf_inj hQ (onCurve_iff_valid.mpr trivial) h)
  have hzero : times secp256k1 k (some Q) = none ↔ pointOf (times secp256k1 k (some Q)) = 0 := by
    constructor
    · intro h
      rw [h]
      rfl
    · intro h
      exact pointOf_inj hc (onCurve_iff_valid.mpr trivial) h
  rw [hzero, hsum, ← addOrderOf_dvd_iff_nsmul_eq_zero,
    addOrderOf_eq_prime (ReceiptCheck.nsmul_N _) hne]

/-- **secp256k1 is a group**, and `N` ends every point. -/
instance isGroup_secp256k1 : IsGroup secp256k1 where
  closed hp hq := (pointAdd_sum hp hq).1
  assoc := pointAdd_assoc
  base := onCurve_iff_valid.mpr ReceiptCheck.valid_G
  order h := times_eq_none ReceiptCheck.nsmul_N (liftX_spec h).2.2

/-- **The group law**: sums are on the curve, in any order and however bracketed, every point has
an opposite, and what ends a point is what `N` divides. -/
theorem group_law {p q r : Option Pt} (hp : OnCurve secp256k1 p) (hq : OnCurve secp256k1 q)
    (hr : OnCurve secp256k1 r) :
    OnCurve secp256k1 (pointAdd secp256k1 p q) ∧
      pointAdd secp256k1 p q = pointAdd secp256k1 q p ∧
      pointAdd secp256k1 (pointAdd secp256k1 p q) r =
        pointAdd secp256k1 p (pointAdd secp256k1 q r) ∧
      (∃ p', OnCurve secp256k1 p' ∧ pointAdd secp256k1 p p' = none) ∧
      (p ≠ none → ∀ k, times secp256k1 k p = none ↔ ReceiptCheck.N ∣ k) := by
  obtain ⟨hpq, hsum⟩ := pointAdd_sum hp hq
  obtain ⟨hqp, hsum'⟩ := pointAdd_sum hq hp
  refine ⟨hpq, ?_, pointAdd_assoc hp hq hr, ?_, ?_⟩
  · refine pointOf_inj hpq hqp ?_
    rw [hsum, hsum', add_comm]
  · -- the opposite is the last multiple before `N`
    obtain ⟨k, hk⟩ : ∃ k, k + 1 = ReceiptCheck.N := ⟨_, Nat.sub_add_cancel prime_N.pos⟩
    obtain ⟨hc, hlast⟩ := pointOf_times hp k
    obtain ⟨hsum, hadd⟩ := pointAdd_sum hp hc
    refine ⟨_, hc, pointOf_inj hsum (onCurve_iff_valid.mpr trivial) ?_⟩
    rw [hadd, hlast, ← succ_nsmul', hk, ReceiptCheck.nsmul_N]
    rfl
  · intro hne k
    cases p with
    | none => exact absurd rfl hne
    | some Q => exact times_eq_none_iff hp

/-- The base point. -/
theorem group_law_base :
    OnCurve secp256k1 (pointAdd secp256k1 (some secp256k1.G) (some secp256k1.G)) ∧
      pointAdd secp256k1 (some secp256k1.G) (some secp256k1.G) =
        pointAdd secp256k1 (some secp256k1.G) (some secp256k1.G) ∧
      pointAdd secp256k1 (pointAdd secp256k1 (some secp256k1.G) (some secp256k1.G)) none =
        pointAdd secp256k1 (some secp256k1.G) (pointAdd secp256k1 (some secp256k1.G) none) ∧
      (∃ p', OnCurve secp256k1 p' ∧ pointAdd secp256k1 (some secp256k1.G) p' = none) ∧
      (some secp256k1.G ≠ none →
        ∀ k, times secp256k1 k (some secp256k1.G) = none ↔ ReceiptCheck.N ∣ k) :=
  group_law isGroup_secp256k1.base isGroup_secp256k1.base trivial

/-- `_point_mul` computes the multiple. -/
theorem pointMul_sum {Q : Pt} (hQ : OnCurve secp256k1 (some Q)) (k : Nat) :
    OnCurve secp256k1 (pointMul secp256k1 Q k) ∧
      pointOf (pointMul secp256k1 Q k) = k • pointOf (some Q) := by
  rw [pointMul_eq_nsmul hQ, pt_nsmul]
  exact pointOf_times hQ k

/-- **Two multiplications are one.** -/
theorem mul_eq_pointMul {Q : Pt} (hQ : OnCurve secp256k1 (some Q)) (k : Nat) :
    mul k (some Q) = .ok (pointMul secp256k1 Q k) := by
  have hv := onCurve_iff_valid.mp hQ
  obtain ⟨p, hp, -⟩ := ReceiptCheck.mul_ok k hv
  obtain ⟨hvp, hsum⟩ := ReceiptCheck.mul_nsmul hv hp
  obtain ⟨hc, hsum'⟩ := pointMul_sum hQ k
  rw [hp, pointOf_inj (onCurve_iff_valid.mpr hvp) hc (hsum.trans hsum'.symm)]

end Preaction.Secp256k1
