import Preaction.EdwardsField
import Preaction.Lib.Loop
import Preaction.Lib.ShortWeierstrass
import Preaction.ReceiptCheck.Keccak
import Preaction.Secp256k1

/-!
# `x402-receipt-authorization-commitment/receipt_check.py` — `recover_address`

The signer of a digest is recovered from its signature by affine arithmetic on secp256k1. The
slopes are taken with `pow(a, -1, P)`, which raises where `a` has no inverse, and the inverse
of `r` with `pow(r, -1, N)`.

Neither can happen (`recoverAddress_returns`). `P` and `N` are prime numbers, so what has no
inverse is zero; the points are on the curve, so two of them with one abscissa are equal or
opposite, and the code asks for both before it divides. The abscissa `r` is compared as it
stands: it is below `N`, and so below `P`. An ordinate can be `P` itself, where the root is
zero and is negated; then it is its own opposite.

Mirroring notes:
- `None` is the point at infinity, and `_mul` is its loop over the bits of `k`.
- `pow(b, e, P)` with a positive exponent is `Secp256k1.powMod`.
-/

namespace Preaction.ReceiptCheck

open Preaction.Py Preaction.Loop ShortWeierstrass

/-- `P` -/
def P : Nat := 0xFFFFFFFFFFFFFFFFFFFFFFFFFFFFFFFFFFFFFFFFFFFFFFFFFFFFFFFEFFFFFC2F

/-- `N` -/
def N : Nat := 0xFFFFFFFFFFFFFFFFFFFFFFFFFFFFFFFEBAAEDCE6AF48A03BBFD25E8CD0364141

/-- A finite point. -/
abbrev Pt := Nat × Nat

/-- `G` -/
def G : Pt := (0x79BE667EF9DCBBAC55A06295CE870B07029BFCDB2DCE28D959F2815B16F81798,
  0x483ADA7726A3C4655DA4FBFC0E1108A8FD17B448A68554199C47D08FFB10D4B8)

/-! ## The arithmetic -/

/-- `a % m` -/
def reduce (a : Int) (m : Nat) : Nat := (a % m).toNat

/-- `pow(a, -1, m)` -/
def invMod (a : Int) (m : Nat) : Except PyError Nat :=
  if (reduce a m).gcd m = 1 then .ok (reduce (Nat.gcdA (reduce a m) m) m) else .error .valueError

/-- `lam` of `_add`. -/
def slope (p1 p2 : Pt) : Except PyError Nat := do
  if p1 = p2 then
    return reduce (3 * p1.1 * p1.1 * (← invMod (2 * p1.2) P)) P
  return reduce ((p2.2 - p1.2) * (← invMod (p2.1 - p1.1) P)) P

/-- `_add(p1, p2)` -/
def add : Option Pt → Option Pt → Except PyError (Option Pt)
  | none, p2 => .ok p2
  | some p1, none => .ok (some p1)
  | some p1, some p2 => do
    if p1.1 = p2.1 ∧ (p1.2 + p2.2) % P = 0 then return none
    let lam ← slope p1 p2
    let x := reduce (lam * lam - p1.1 - p2.1) P
    return some (x, reduce (lam * (p1.1 - x) - p1.2) P)

/-- `acc`, with `pt` added where the lowest bit of `k` is set. -/
def addBit (k : Nat) (acc pt : Option Pt) : Except PyError (Option Pt) :=
  if k % 2 = 1 then add acc pt else .ok acc

/-- The loop of `_mul`. -/
def mulLoop (k : Nat) (acc pt : Option Pt) : Except PyError (Option Pt) := do
  if k = 0 then return acc
  let acc ← addBit k acc pt
  let pt ← add pt pt
  mulLoop (k / 2) acc pt
termination_by k
decreasing_by omega

/-- `_mul(k, pt)` -/
def mul (k : Nat) (pt : Option Pt) : Except PyError (Option Pt) := mulLoop k none pt

/-- `n.to_bytes(32, "big")` -/
def toBytes32 (n : Int) : Except PyError Bytes :=
  if 0 ≤ n ∧ n < 2 ^ 256 then .ok (Edwards.toBytesLittle 32 n.toNat).reverse
  else .error .overflowError

/-- `_address(pub)` -/
def address (pub : Pt) : Except PyError Str := do
  let raw := (← toBytes32 pub.1) ++ (← toBytes32 pub.2)
  return lit "0x" ++ hexStr ((keccak256 raw).drop ((keccak256 raw).length - 20))

/-- `recover_address(digest, r, s, rec)` -/
def recoverAddress (digest : Bytes) (r s rec : Nat) : Except PyError (Option Str) := do
  if ¬ (1 ≤ r ∧ r < N ∧ 1 ≤ s ∧ s < N) ∨ (rec ≠ 0 ∧ rec ≠ 1) then return none
  let y2 := (Secp256k1.powMod r 3 P + 7) % P
  let y := Secp256k1.powMod y2 ((P + 1) / 4) P
  if y * y % P ≠ y2 then return none
  let y := if y % 2 ≠ rec then P - y else y
  let z := fromBytesBig digest
  let rinv ← invMod r N
  let q ← add (← mul (s * rinv % N) (some (r, y))) (← mul (reduce (-z * rinv) N) (some G))
  match q with
  | none => return none
  | some q => return some (← address q)

/-! ## The two primes -/

/-- The factors of `P - 1`, the factors of the largest of them, and so on down. -/
def chainOfP : List Edwards.Lucas :=
  [⟨107590001, 3, [2, 2, 2, 2, 5, 5, 5, 5, 7, 29, 53]⟩,
    ⟨255515944373312847190720520512484175977, 3,
      [2, 2, 2, 7, 7, 11, 1627, 2657, 4423, 41201, 96557, 7240687, 107590001]⟩,
    ⟨13331831, 13, [2, 5, 971, 1373]⟩,
    ⟨173378833005251801, 6, [2, 2, 2, 5, 5, 2621, 24809, 13331831]⟩,
    ⟨22149492674086928081353, 5, [2, 2, 2, 3, 5323, 173378833005251801]⟩,
    ⟨132896956044521568488119, 6, [2, 3, 22149492674086928081353]⟩,
    ⟨205115282021455665897114700593932402728804164701536103180137503955397371, 10,
      [2, 3, 5, 29, 29, 31, 7723, 132896956044521568488119,
        255515944373312847190720520512484175977]⟩,
    ⟨P, 3, [2, 3, 7, 13441,
      205115282021455665897114700593932402728804164701536103180137503955397371]⟩]

/-- The same for `N - 1`. -/
def chainOfN : List Edwards.Lucas :=
  [⟨44706919, 6, [2, 3, 797, 9349]⟩,
    ⟨174723607534414371449, 3, [2, 2, 2, 17, 59, 4051, 120233, 44706919]⟩,
    ⟨107361793816595537, 3, [2, 2, 2, 2, 16699, 85831, 4681609]⟩,
    ⟨297159362677, 2, [2, 2, 3, 3, 11, 461, 1627771]⟩,
    ⟨545358713, 5, [2, 2, 2, 41, 59, 28181]⟩,
    ⟨29047611873442575647497758179, 2, [2, 293, 305873, 545358713, 297159362677]⟩,
    ⟨341948486974166000522343609283189, 2, [2, 2, 3, 3, 3, 109, 29047611873442575647497758179]⟩,
    ⟨N, 7, [2, 2, 2, 2, 2, 2, 3, 149, 631, 107361793816595537, 174723607534414371449,
      341948486974166000522343609283189]⟩]

/-- The prime factors that are small. -/
def smallPrimes : List Nat :=
  [2, 3, 5, 7, 11, 17, 29, 31, 41, 53, 59, 109, 149, 293, 461, 631, 797, 971, 1373, 1627, 2621,
    2657, 4051, 4423, 5323, 7723, 9349, 13441, 16699, 24809, 28181, 41201, 85831, 96557, 120233,
    305873, 1627771, 4681609, 7240687]

theorem prime_smallPrimes : ∀ q ∈ smallPrimes, q.Prime := by
  unfold smallPrimes
  norm_num

theorem prime_P : Nat.Prime P := by
  have hchain : Edwards.chain smallPrimes chainOfP = true := by decide +kernel
  exact Edwards.prime_of_chain prime_smallPrimes hchain ⟨P, 3, _⟩ (List.mem_of_getLast? rfl)

theorem prime_N : Nat.Prime N := by
  have hchain : Edwards.chain smallPrimes chainOfN = true := by decide +kernel
  exact Edwards.prime_of_chain prime_smallPrimes hchain ⟨N, 7, _⟩ (List.mem_of_getLast? rfl)

/-! ## Inverses -/

instance factP : Fact P.Prime := ⟨prime_P⟩

theorem reduce_lt {m : Nat} (hm : 0 < m) (a : Int) : reduce a m < m := by
  have h := Int.emod_lt_of_pos a (Int.natCast_pos.mpr hm)
  have h' := Int.emod_nonneg a (Int.natCast_pos.mpr hm).ne'
  unfold reduce
  omega

theorem coe_reduce {m : Nat} (hm : 0 < m) (a : Int) : ((reduce a m : Nat) : ZMod m) = a := by
  have h : ((reduce a m : Nat) : Int) = a % m :=
    Int.toNat_of_nonneg (Int.emod_nonneg a (Int.natCast_pos.mpr hm).ne')
  rw [← Int.cast_natCast, h, ZMod.intCast_mod]

/-- What is not zero modulo a prime has an inverse. -/
theorem invMod_ok {m : Nat} (hm : m.Prime) {a : Int} (ha : (a : ZMod m) ≠ 0) :
    ∃ i, invMod a m = .ok i ∧ (a : ZMod m) * i = 1 := by
  have hcast := coe_reduce hm.pos a
  have hcoprime : (reduce a m).gcd m = 1 := by
    refine ((Nat.Prime.coprime_iff_not_dvd hm).mpr fun hdvd => ha ?_).symm
    rw [← hcast]
    exact (ZMod.natCast_eq_zero_iff _ _).mpr hdvd
  refine ⟨_, by rw [invMod, if_pos hcoprime], ?_⟩
  have hbezout := congrArg (Int.cast : Int → ZMod m) (Nat.gcd_eq_gcd_ab (reduce a m) m)
  rw [hcoprime] at hbezout
  push_cast at hbezout
  rw [hcast, ZMod.natCast_self, zero_mul, add_zero] at hbezout
  rw [coe_reduce hm.pos]
  exact hbezout.symm

/-! ## The points stay on the curve -/

/-- A point that the code meets: its ordinate can be `P`. -/
def Valid : Option Pt → Prop
  | none => True
  | some p => p.1 < P ∧ p.2 ≤ P ∧ OnCurve (7 : ZMod P) p.1 p.2

theorem onCurve_iff (x y : Nat) : OnCurve (7 : ZMod P) x y ↔ y ^ 2 % P = (x ^ 3 + 7) % P := by
  rw [OnCurve, ← ZMod.natCast_eq_natCast_iff']
  push_cast
  rfl

theorem valid_G : Valid (some G) := by
  refine ⟨by decide, by decide, (onCurve_iff _ _).mpr ?_⟩
  decide +kernel

/-- Ordinates that are one number modulo `P` are one, or they are zero and `P`. -/
theorem eq_or_sum_zero {y1 y2 : Nat} (h1 : y1 ≤ P) (h2 : y2 ≤ P)
    (h : (y1 : ZMod P) = y2) : y1 = y2 ∨ (y1 + y2) % P = 0 := by
  have hmod := (ZMod.natCast_eq_natCast_iff' _ _ _).mp h
  have hP := prime_P.pos
  rcases Nat.lt_or_eq_of_le h1 with hlt1 | rfl
  · rcases Nat.lt_or_eq_of_le h2 with hlt2 | rfl
    · rw [Nat.mod_eq_of_lt hlt1, Nat.mod_eq_of_lt hlt2] at hmod
      exact Or.inl hmod
    · rw [Nat.mod_self] at hmod
      exact Or.inr (by rw [Nat.add_mod_right, hmod])
  · rw [Nat.mod_self] at hmod
    exact Or.inr (by rw [Nat.add_mod_left, ← hmod])

/-- Two points of one abscissa that are not the same are opposite. -/
theorem opposite_of_ne {p1 p2 : Pt} (h1 : Valid (some p1)) (h2 : Valid (some p2))
    (hx : p1.1 = p2.1) (hne : p1 ≠ p2) : (p1.2 + p2.2) % P = 0 := by
  obtain ⟨-, hle1, hc1⟩ := h1
  obtain ⟨-, hle2, hc2⟩ := h2
  rw [hx] at hc1
  rcases hc1.eq_or_neg hc2 with hy | hy
  · exact (eq_or_sum_zero hle1 hle2 hy).resolve_left fun hy => hne (Prod.ext hx hy)
  · have hsum : ((p1.2 + p2.2 : Nat) : ZMod P) = 0 := by
      rw [Nat.cast_add, hy, neg_add_cancel]
    exact Nat.mod_eq_zero_of_dvd ((ZMod.natCast_eq_zero_iff _ _).mp hsum)

/-- The slope is there, and the line meets the curve where the sum is reflected from. -/
theorem slope_ok {p1 p2 : Pt} (h1 : Valid (some p1)) (h2 : Valid (some p2))
    (hne : ¬ (p1.1 = p2.1 ∧ (p1.2 + p2.2) % P = 0)) :
    ∃ l, slope p1 p2 = .ok l ∧ OnCurve (7 : ZMod P) ((l : ZMod P) ^ 2 - p1.1 - p2.1)
      (l * (p1.1 - ((l : ZMod P) ^ 2 - p1.1 - p2.1)) - p1.2) := by
  obtain ⟨hlt1, -, hc1⟩ := id h1
  obtain ⟨hlt2, -, hc2⟩ := id h2
  by_cases heq : p1 = p2
  · subst heq
    -- the tangent: its denominator vanishes only at a point of order two
    have hdouble : ((2 * p1.2 : Int) : ZMod P) ≠ 0 := by
      intro hzero
      refine hne ⟨rfl, ?_⟩
      have hsum : ((p1.2 + p1.2 : Nat) : ZMod P) = 0 := by
        rw [← hzero]
        push_cast
        ring
      exact Nat.mod_eq_zero_of_dvd ((ZMod.natCast_eq_zero_iff _ _).mp hsum)
    obtain ⟨i, hi, hinv⟩ := invMod_ok prime_P hdouble
    refine ⟨_, by rw [slope, if_pos rfl, hi]; rfl, hc1.tangent ?_⟩
    rw [coe_reduce prime_P.pos]
    push_cast at hinv ⊢
    linear_combination 3 * (p1.1 : ZMod P) ^ 2 * hinv
  · -- the chord: points in one column are opposite, which was excluded
    have hx : ((p2.1 - p1.1 : Int) : ZMod P) ≠ 0 := by
      intro hzero
      push_cast at hzero
      have hmod := (ZMod.natCast_eq_natCast_iff' _ _ _).mp (sub_eq_zero.mp hzero)
      rw [Nat.mod_eq_of_lt hlt1, Nat.mod_eq_of_lt hlt2] at hmod
      exact hne ⟨hmod.symm, opposite_of_ne h1 h2 hmod.symm heq⟩
    obtain ⟨i, hi, hinv⟩ := invMod_ok prime_P hx
    push_cast at hx hinv
    refine ⟨_, by rw [slope, if_neg heq, hi]; rfl, hc1.chord hc2 (sub_ne_zero.mp hx) ?_⟩
    rw [coe_reduce prime_P.pos]
    push_cast
    linear_combination ((p2.2 : ZMod P) - p1.2) * hinv

theorem add_ok {p1 p2 : Option Pt} (h1 : Valid p1) (h2 : Valid p2) :
    ∃ p, add p1 p2 = .ok p ∧ Valid p := by
  cases p1 with
  | none => exact ⟨p2, rfl, h2⟩
  | some p1 =>
    cases p2 with
    | none => exact ⟨some p1, rfl, h1⟩
    | some p2 =>
      by_cases hopp : p1.1 = p2.1 ∧ (p1.2 + p2.2) % P = 0
      · exact ⟨none, by rw [add, if_pos hopp]; rfl, trivial⟩
      · obtain ⟨l, hl, hc⟩ := slope_ok h1 h2 hopp
        obtain ⟨x, hx⟩ : ∃ x, reduce (l * l - p1.1 - p2.1) P = x := ⟨_, rfl⟩
        have hcast : (x : ZMod P) = (l : ZMod P) ^ 2 - p1.1 - p2.1 := by
          rw [← hx, coe_reduce prime_P.pos]
          push_cast
          ring
        have hadd : add (some p1) (some p2) =
            .ok (some (x, reduce (l * (p1.1 - x) - p1.2) P)) := by
          rw [add, if_neg hopp, hl, ← hx]
          rfl
        have hc' : OnCurve (7 : ZMod P) x (reduce (l * (p1.1 - x) - p1.2) P : Nat) := by
          rw [coe_reduce prime_P.pos]
          push_cast
          rw [hcast]
          exact hc
        exact ⟨_, hadd, hx ▸ reduce_lt prime_P.pos _, (reduce_lt prime_P.pos _).le, hc'⟩

theorem addBit_ok (k : Nat) {acc pt : Option Pt} (hacc : Valid acc) (hpt : Valid pt) :
    ∃ p, addBit k acc pt = .ok p ∧ Valid p := by
  unfold addBit
  by_cases hodd : k % 2 = 1
  · rw [if_pos hodd]
    exact add_ok hacc hpt
  · rw [if_neg hodd]
    exact ⟨acc, rfl, hacc⟩

theorem mulLoop_ok (k : Nat) {acc pt : Option Pt} (hacc : Valid acc) (hpt : Valid pt) :
    ∃ p, mulLoop k acc pt = .ok p ∧ Valid p := by
  induction k using Nat.strongRecOn generalizing acc pt with
  | ind k ih =>
    rw [mulLoop]
    by_cases hk : k = 0
    · rw [if_pos hk]
      exact ⟨acc, rfl, hacc⟩
    · rw [if_neg hk]
      obtain ⟨acc', hacc', hv⟩ := addBit_ok k hacc hpt
      obtain ⟨pt', hpt', hv'⟩ := add_ok hpt hpt
      rw [hacc', ok_bind, hpt', ok_bind]
      exact ih (k / 2) (by omega) hv hv'

theorem mul_ok (k : Nat) {pt : Option Pt} (h : Valid pt) : ∃ p, mul k pt = .ok p ∧ Valid p :=
  mulLoop_ok k trivial h

/-! ## The address is recovered -/

theorem toBytes32_ok {n : Nat} (h : n ≤ P) : ∃ b, toBytes32 n = .ok b := by
  have hP : P < 2 ^ 256 := by decide
  exact ⟨_, if_pos ⟨Int.natCast_nonneg n, by exact_mod_cast h.trans_lt hP⟩⟩

theorem address_ok {p : Pt} (h : Valid (some p)) : ∃ a, address p = .ok a := by
  obtain ⟨hx, hy, -⟩ := h
  obtain ⟨bx, hbx⟩ := toBytes32_ok hx.le
  obtain ⟨y, hby⟩ := toBytes32_ok hy
  rw [address, hbx, ok_bind, hby]
  exact ⟨_, rfl⟩

/-- The root of `x ^ 3 + 7`, or its opposite, makes a point with a reduced `x`. -/
theorem valid_of_root {x y : Nat} (hx : x < P) (hy : y < P)
    (h : y * y % P = (Secp256k1.powMod x 3 P + 7) % P) (odd : Prop) [Decidable odd] :
    Valid (some (x, if odd then P - y else y)) := by
  have hroot : OnCurve (7 : ZMod P) x y := by
    rw [onCurve_iff, pow_two, h, Secp256k1.powMod_eq, Nat.mod_add_mod]
  by_cases hodd : odd
  · rw [if_pos hodd]
    refine ⟨hx, Nat.sub_le _ _, ?_⟩
    have hneg : ((P - y : Nat) : ZMod P) = -y := by
      rw [Nat.cast_sub hy.le, ZMod.natCast_self, zero_sub]
    show OnCurve (7 : ZMod P) (x : ZMod P) ((P - y : Nat) : ZMod P)
    rw [hneg]
    exact hroot.neg
  · rw [if_neg hodd]
    exact ⟨hx, hy.le, hroot⟩

/-- Recovering the signer of a digest raises on no signature. -/
theorem recoverAddress_ok (digest : Bytes) (r s rec : Nat) :
    ∃ a, recoverAddress digest r s rec = .ok a := by
  unfold recoverAddress
  by_cases hrange : ¬ (1 ≤ r ∧ r < N ∧ 1 ≤ s ∧ s < N) ∨ (rec ≠ 0 ∧ rec ≠ 1)
  · rw [if_pos hrange]
    exact ⟨none, rfl⟩
  rw [if_neg hrange]
  obtain ⟨hr, hrN, -, -⟩ := not_not.mp (not_or.mp hrange).1
  have hrP : r < P := hrN.trans (by decide)
  dsimp only
  split
  next => exact ⟨none, rfl⟩
  next hroot =>
    -- the root was tested, so the point of the nonce is on the curve
    have hylt : Secp256k1.powMod ((Secp256k1.powMod r 3 P + 7) % P) ((P + 1) / 4) P < P := by
      rw [Secp256k1.powMod_eq]
      exact Nat.mod_lt _ prime_P.pos
    have hrne : ((r : Int) : ZMod N) ≠ 0 := by
      intro hzero
      rw [Int.cast_natCast, ZMod.natCast_eq_zero_iff] at hzero
      exact absurd (Nat.le_of_dvd hr hzero) (Nat.not_le.mpr hrN)
    obtain ⟨rinv, hrinv, -⟩ := invMod_ok prime_N hrne
    have hpoint := valid_of_root hrP hylt (not_not.mp hroot)
      (Secp256k1.powMod ((Secp256k1.powMod r 3 P + 7) % P) ((P + 1) / 4) P % 2 ≠ rec)
    obtain ⟨q1, hq1, hv1⟩ := mul_ok (s * rinv % N) hpoint
    obtain ⟨q2, hq2, hv2⟩ := mul_ok (reduce (-(fromBytesBig digest : Int) * rinv) N) valid_G
    obtain ⟨q, hq, hv⟩ := add_ok hv1 hv2
    rw [hrinv, ok_bind, hq1, ok_bind, hq2, ok_bind, hq, ok_bind]
    cases q with
    | none => exact ⟨none, rfl⟩
    | some q =>
      obtain ⟨a, ha⟩ := address_ok hv
      dsimp only
      rw [ha]
      exact ⟨some a, rfl⟩

end Preaction.ReceiptCheck
