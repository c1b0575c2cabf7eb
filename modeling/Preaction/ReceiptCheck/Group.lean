import Mathlib.FieldTheory.Finite.Basic
import Preaction.Lib.CurveGroup
import Preaction.ReceiptCheck.Recover

/-!
# secp256k1 is a group of prime order

The points that the repository's code adds are points of Mathlib's Weierstrass curve
`y ^ 2 = x ^ 3 + 7` over the integers modulo `P` (`pointOf`), and its addition is the addition
there (`add_sum`). So its double-and-add loop computes multiples (`mul_nsmul`), whatever
the order of the bits, and the laws of a group need no further proof.

`N` times the base point is the point at infinity: that is evaluated, without division
(`Jac.run`), by the kernel. No abscissa has the ordinate zero (`not_cube`). Hence `N` times any
point is the point at infinity (`nsmul_N`), and what the other modules ask of the curve
(`Secp256k1.IsGroup`) holds of it.
-/

namespace Preaction.ReceiptCheck

open ShortWeierstrass Loop

/-- The numeral of the equation is one term wherever it is written. -/
local instance atLeastTwoSeven : Nat.AtLeastTwo 7 := ⟨by decide⟩

/-- The field of the coordinates. -/
abbrev Fp := ZMod P

/-- The group. -/
abbrev Secp := (curve (7 : Fp)).Point

theorem natCast_ne_zero {n : Nat} (h0 : 0 < n) (hn : n < P) : (n : Fp) ≠ 0 := by
  intro hzero
  rw [ZMod.natCast_eq_zero_iff] at hzero
  exact absurd (Nat.le_of_dvd h0 hzero) (Nat.not_le.mpr hn)

instance smooth : Smooth (7 : Fp) where
  disc := by
    have h := natCast_ne_zero (n := 432 * 7 ^ 2) (by decide) (by decide)
    push_cast at h
    exact h

/-- The point of the group; the point at infinity also for what is no point. -/
noncomputable def pointOf : Option Pt → Secp
  | none => 0
  | some p => open Classical in if h : OnCurve (7 : Fp) p.1 p.2 then pt h else 0

theorem pointOf_none : pointOf none = 0 := rfl

theorem pointOf_some {p : Pt} (h : OnCurve (7 : Fp) p.1 p.2) : pointOf (some p) = pt h := by
  rw [pointOf, dif_pos h]

/-! ## Addition -/

theorem invMod_spec {a : Int} {m i : Nat} (hm : 0 < m) (h : invMod a m = .ok i) :
    (a : ZMod m) * i = 1 := by
  unfold invMod at h
  split at h
  next hgcd =>
    obtain rfl := Except.ok.inj h
    have hbezout := congrArg (Int.cast : Int → ZMod m)
      (Nat.gcd_eq_gcd_ab (reduce a m) m)
    rw [hgcd] at hbezout
    push_cast at hbezout
    rw [coe_reduce hm, ZMod.natCast_self, zero_mul, add_zero] at hbezout
    rw [coe_reduce hm]
    exact hbezout.symm
  next => cases h

/-- The slope is that of the tangent, or of the chord. -/
theorem slope_spec {p1 p2 : Pt} {l : Nat} (h : slope p1 p2 = .ok l) :
    (p1 = p2 → (l : Fp) * (2 * p1.2) = 3 * (p1.1 : Fp) ^ 2) ∧
      (p1 ≠ p2 → (l : Fp) * (p2.1 - p1.1) = p2.2 - p1.2) := by
  unfold slope at h
  split at h
  next heq =>
    obtain ⟨i, hi, h⟩ := bind_ok.mp h
    obtain rfl := Except.ok.inj h
    refine ⟨fun _ => ?_, fun hne => absurd heq hne⟩
    have hinv := invMod_spec prime_P.pos hi
    rw [coe_reduce prime_P.pos]
    push_cast at hinv ⊢
    linear_combination 3 * (p1.1 : Fp) ^ 2 * hinv
  next hne =>
    obtain ⟨i, hi, h⟩ := bind_ok.mp h
    obtain rfl := Except.ok.inj h
    refine ⟨fun heq => absurd heq hne, fun _ => ?_⟩
    have hinv := invMod_spec prime_P.pos hi
    rw [coe_reduce prime_P.pos]
    push_cast at hinv ⊢
    linear_combination ((p2.2 : Fp) - p1.2) * hinv

theorem cast_sum_eq_zero {y1 y2 : Nat} (h : (y1 + y2) % P = 0) : (y1 : Fp) + y2 = 0 := by
  rw [← Nat.cast_add, ZMod.natCast_eq_zero_iff]
  exact Nat.dvd_of_mod_eq_zero h

/-- The coordinates that are computed of the sum. -/
theorem sum_coordinates (l : Nat) (p1 p2 : Pt) :
    let x := reduce (l * l - p1.1 - p2.1) P
    (x : Fp) = (l : Fp) ^ 2 - p1.1 - p2.1 ∧
      ((reduce (l * (p1.1 - x) - p1.2) P : Nat) : Fp) =
        l * (p1.1 - ((l : Fp) ^ 2 - p1.1 - p2.1)) - p1.2 := by
  intro x
  have hx : (x : Fp) = (l : Fp) ^ 2 - p1.1 - p2.1 := by
    rw [coe_reduce prime_P.pos]
    push_cast
    ring
  refine ⟨hx, ?_⟩
  rw [coe_reduce prime_P.pos, ← hx]
  push_cast
  rfl

/-- **`_add` adds.** -/
theorem add_sum {p1 p2 p : Option Pt} (h1 : Valid p1) (h2 : Valid p2) (h : add p1 p2 = .ok p) :
    Valid p ∧ pointOf p = pointOf p1 + pointOf p2 := by
  obtain ⟨p', hp', hv⟩ := add_ok h1 h2
  obtain rfl := Except.ok.inj (hp'.symm.trans h)
  refine ⟨hv, ?_⟩
  match p1, p2 with
  | none, _ =>
    obtain rfl := Except.ok.inj h
    rw [pointOf_none, zero_add]
  | some p1, none =>
    obtain rfl := Except.ok.inj h
    rw [pointOf_none, add_zero]
  | some p1, some p2 =>
    obtain ⟨hlt1, hle1, hc1⟩ := id h1
    obtain ⟨hlt2, hle2, hc2⟩ := id h2
    rw [pointOf_some hc1, pointOf_some hc2]
    rw [add] at h
    split at h
    next hopp =>
      obtain rfl := Except.ok.inj h
      obtain ⟨x1, y1⟩ := p1
      obtain ⟨x2, y2⟩ := p2
      obtain ⟨rfl, hsum⟩ : x1 = x2 ∧ (y1 + y2) % P = 0 := hopp
      exact (pt_add_opposite hc1 hc2 (cast_sum_eq_zero hsum)).symm
    next hopp =>
      obtain ⟨l, hl, h⟩ := bind_ok.mp h
      obtain rfl := Except.ok.inj h
      obtain ⟨htangent, hchord⟩ := slope_spec hl
      rw [pointOf_some hv.2.2]
      by_cases heq : p1 = p2
      · subst heq
        have hy : (p1.2 : Fp) ≠ 0 := by
          intro hzero
          refine hopp ⟨rfl, ?_⟩
          have hsum : ((p1.2 + p1.2 : Nat) : Fp) = 0 := by
            rw [Nat.cast_add, hzero, add_zero]
          exact Nat.mod_eq_zero_of_dvd ((ZMod.natCast_eq_zero_iff _ _).mp hsum)
        rw [pt_add_tangent hc1 hy (htangent rfl), pt_inj]
        exact sum_coordinates l p1 p1
      · -- points in one column are opposite, which was excluded
        have hx : (p2.1 : Fp) ≠ p1.1 := by
          intro hx
          rw [ZMod.natCast_eq_natCast_iff', Nat.mod_eq_of_lt hlt1, Nat.mod_eq_of_lt hlt2] at hx
          exact hopp ⟨hx.symm, opposite_of_ne h1 h2 hx.symm heq⟩
        rw [pt_add_chord hc1 hc2 hx (hchord heq), pt_inj]
        exact sum_coordinates l p1 p2

/-! ## Points as pairs of numbers -/

/-- No abscissa has the ordinate zero. -/
theorem not_cube (x : Fp) : x ^ 3 ≠ -7 := by
  intro hx
  -- a cube has the power `(P - 1) / 3` one
  have hpow : (-7 : Fp) ^ ((P - 1) / 3) = 1 := by
    have hthird : 3 * ((P - 1) / 3) = P - 1 := by decide
    have hne : x ≠ 0 := by
      intro hzero
      rw [hzero, zero_pow three_ne_zero, eq_comm, neg_eq_zero] at hx
      exact natCast_ne_zero (n := 7) (by decide) (by decide) hx
    rw [← hx, ← pow_mul, hthird, ZMod.pow_card_sub_one_eq_one hne]
  have htest : Secp256k1.powMod (P - 7) ((P - 1) / 3) P ≠ 1 := by decide +kernel
  refine htest ?_
  rw [Secp256k1.powMod_eq, ← Nat.mod_eq_of_lt (show 1 < P by decide),
    ← ZMod.natCast_eq_natCast_iff']
  rw [Nat.cast_pow, Nat.cast_sub (by decide), ZMod.natCast_self, zero_sub, Nat.cast_one]
  exact hpow

/-- The ordinate of a point is reduced: it is not zero, and so not `P`. -/
theorem snd_lt {p : Pt} (h : Valid (some p)) : p.2 < P := by
  obtain ⟨-, hle, hc⟩ := h
  refine lt_of_le_of_ne hle ?_
  intro hy
  refine not_cube (p.1 : Fp) ?_
  rw [OnCurve, hy, ZMod.natCast_self] at hc
  linear_combination -hc

/-- Points are told apart in the group. -/
theorem pointOf_injective {p q : Option Pt} (hp : Valid p) (hq : Valid q)
    (h : pointOf p = pointOf q) : p = q := by
  match p, q with
  | none, none => rfl
  | none, some q =>
    rw [pointOf_some hq.2.2, pointOf_none] at h
    exact absurd h.symm (pt_ne_zero _)
  | some p, none =>
    rw [pointOf_some hp.2.2, pointOf_none] at h
    exact absurd h (pt_ne_zero _)
  | some p, some q =>
    rw [pointOf_some hp.2.2, pointOf_some hq.2.2, pt_inj] at h
    obtain ⟨hx, hy⟩ := h
    rw [ZMod.natCast_eq_natCast_iff', Nat.mod_eq_of_lt hp.1, Nat.mod_eq_of_lt hq.1] at hx
    rw [ZMod.natCast_eq_natCast_iff', Nat.mod_eq_of_lt (snd_lt hp),
      Nat.mod_eq_of_lt (snd_lt hq)] at hy
    rw [Prod.ext hx hy]

/-! ## Multiples -/

theorem addBit_sum {k : Nat} {acc pt p : Option Pt} (hacc : Valid acc) (hpt : Valid pt)
    (h : addBit k acc pt = .ok p) :
    Valid p ∧ pointOf p = pointOf acc + (k % 2) • pointOf pt := by
  unfold addBit at h
  by_cases hodd : k % 2 = 1
  · rw [if_pos hodd] at h
    rw [hodd, one_nsmul]
    exact add_sum hacc hpt h
  · rw [if_neg hodd] at h
    obtain rfl := Except.ok.inj h
    rw [Nat.mod_two_ne_one.mp hodd, zero_nsmul, add_zero]
    exact ⟨hacc, rfl⟩

/-- What the loop of `_mul` has left to add. -/
theorem mulLoop_nsmul {k : Nat} {acc pt p : Option Pt} (hacc : Valid acc) (hpt : Valid pt)
    (h : mulLoop k acc pt = .ok p) :
    Valid p ∧ pointOf p = pointOf acc + k • pointOf pt := by
  induction k using Nat.strongRecOn generalizing acc pt with
  | ind k ih =>
    rw [mulLoop] at h
    by_cases hk : k = 0
    · rw [if_pos hk] at h
      obtain rfl := Except.ok.inj h
      rw [hk, zero_nsmul, add_zero]
      exact ⟨hacc, rfl⟩
    · rw [if_neg hk] at h
      obtain ⟨acc', hacc', h⟩ := bind_ok.mp h
      obtain ⟨pt', hpt', h⟩ := bind_ok.mp h
      obtain ⟨hv, hsum⟩ := addBit_sum hacc hpt hacc'
      obtain ⟨hv', hdouble⟩ := add_sum hpt hpt hpt'
      obtain ⟨hvalid, hp⟩ := ih (k / 2) (by omega) hv hv' h
      refine ⟨hvalid, ?_⟩
      -- the bit that was read and twice the bits that are left
      rw [hp, hsum, hdouble, ← two_nsmul, ← mul_nsmul, add_assoc, ← add_nsmul, Nat.mod_add_div]

/-- **`_mul` computes the multiple.** -/
theorem mul_nsmul {k : Nat} {pt p : Option Pt} (hpt : Valid pt) (h : mul k pt = .ok p) :
    Valid p ∧ pointOf p = k • pointOf pt := by
  obtain ⟨hv, hp⟩ := mulLoop_nsmul (show Valid none from trivial) hpt h
  rw [pointOf_none, zero_add] at hp
  exact ⟨hv, hp⟩

/-! ## The order of the base point -/

/-- A point as `(X / Z ^ 2, Y / Z ^ 3)`. -/
structure Jac where
  X : Nat
  Y : Nat
  Z : Nat

def Jac.double (q : Jac) : Jac :=
  let M : Int := 3 * q.X ^ 2
  let x := reduce (M ^ 2 - 8 * q.X * q.Y ^ 2) P
  ⟨x, reduce (M * (4 * q.X * q.Y ^ 2 - x) - 8 * q.Y ^ 4) P, reduce (2 * q.Y * q.Z) P⟩

/-- The base point added. -/
def Jac.addG (q : Jac) : Jac :=
  let H : Int := G.1 * q.Z ^ 2 - q.X
  let R : Int := G.2 * q.Z ^ 3 - q.Y
  let x := reduce (R ^ 2 - H ^ 3 - 2 * q.X * H ^ 2) P
  ⟨x, reduce (R * (q.X * H ^ 2 - x) - q.Y * H ^ 3) P, reduce (H * q.Z) P⟩

def Jac.step (bit : Bool) (q : Jac) : Jac := if bit then q.double.addG else q.double

/-- Bits of a multiplier, the highest first; none where the sum of two points with one abscissa
would be taken. -/
def Jac.run : List Bool → Jac → Option Jac
  | [], q => some q
  | bit :: bits, q => if (q.step bit).Z = 0 then none else run bits (q.step bit)

/-- What the bits make of a multiplier. -/
def readBits (bits : List Bool) (k : Nat) : Nat := bits.foldl (fun k bit => 2 * k + bit.toNat) k

/-- The triple is one of the point. -/
def Jac.Of (q : Jac) (Q : Secp) : Prop := Represents Q (q.X : Fp) q.Y q.Z

theorem Jac.Of.double {q : Jac} {Q : Secp} (h : q.Of Q) (hz : (q.double.Z : Fp) ≠ 0) :
    q.double.Of (Q + Q) := by
  have hP := prime_P.pos
  unfold Jac.double Jac.Of at *
  dsimp only at hz ⊢
  rw [coe_reduce hP] at hz ⊢
  rw [coe_reduce hP, coe_reduce hP]
  push_cast at hz ⊢
  have hY : (q.Y : Fp) ≠ 0 := (mul_ne_zero_iff.mp (mul_ne_zero_iff.mp hz).1).2
  rw [coe_reduce hP]
  push_cast
  exact Represents.double h hY

theorem Jac.Of.addG {q : Jac} {Q : Secp} (h : q.Of Q) (hz : (q.addG.Z : Fp) ≠ 0) :
    q.addG.Of (Q + pointOf (some G)) := by
  have hP := prime_P.pos
  unfold Jac.addG Jac.Of at *
  dsimp only at hz ⊢
  rw [coe_reduce hP] at hz ⊢
  rw [coe_reduce hP, coe_reduce hP]
  push_cast at hz ⊢
  rw [pointOf_some valid_G.2.2, coe_reduce hP]
  push_cast
  exact Represents.add h _ rfl rfl (mul_ne_zero_iff.mp hz).1

theorem Jac.Of.step {q : Jac} {k : Nat} {bit : Bool} (h : q.Of (k • pointOf (some G)))
    (hz : ((q.step bit).Z : Fp) ≠ 0) :
    (q.step bit).Of ((2 * k + bit.toNat) • pointOf (some G)) := by
  cases bit with
  | false =>
    have hdouble := h.double hz
    rwa [← two_nsmul, ← mul_nsmul'] at hdouble
  | true =>
    -- the last coordinate of the sum is a multiple of that of the double
    have hne : (q.double.Z : Fp) ≠ 0 := by
      intro hzero
      refine hz ?_
      show ((q.double.addG.Z : Nat) : Fp) = 0
      unfold Jac.addG
      dsimp only
      rw [coe_reduce prime_P.pos]
      push_cast
      rw [hzero, mul_zero]
    have hadd := (h.double hne).addG hz
    rwa [← two_nsmul, ← mul_nsmul', ← succ_nsmul] at hadd

theorem Jac.run_of {bits : List Bool} {q q' : Jac} {k : Nat} (h : q.Of (k • pointOf (some G)))
    (hrun : Jac.run bits q = some q') : q'.Of (readBits bits k • pointOf (some G)) := by
  induction bits generalizing q k with
  | nil =>
    obtain rfl := Option.some.inj hrun
    exact h
  | cons bit bits ih =>
    rw [run] at hrun
    split at hrun
    next => cases hrun
    next hz =>
      refine ih (h.step ?_) hrun
      intro hzero
      have hlt : (q.step bit).Z < P := by
        cases bit with
        | false =>
          show reduce (2 * q.Y * q.Z) P < P
          exact reduce_lt prime_P.pos _
        | true =>
          show reduce ((G.1 * q.double.Z ^ 2 - q.double.X) * q.double.Z) P < P
          exact reduce_lt prime_P.pos _
      rw [ZMod.natCast_eq_zero_iff] at hzero
      exact hz (Nat.eq_zero_of_dvd_of_lt hzero hlt)

/-- The bits of `N - 1` below the highest. -/
def bitsOfN : List Bool := ((List.range 255).map (N - 1).testBit).reverse

/-- The triple is one of the opposite of the base point. -/
def Jac.isNegG (q : Jac) : Bool :=
  q.X == G.1 * q.Z ^ 2 % P && (q.Y + G.2 * q.Z ^ 3) % P == 0

theorem run_bitsOfN : (Jac.run bitsOfN ⟨G.1, G.2, 1⟩).any Jac.isNegG = true := by decide +kernel

theorem readBits_bitsOfN : readBits bitsOfN 1 + 1 = N := by decide +kernel

/-- **`N` times the base point** is the point at infinity. -/
theorem nsmul_G : N • pointOf (some G) = 0 := by
  have hG := valid_G.2.2
  have hstart : Jac.Of ⟨G.1, G.2, 1⟩ (1 • pointOf (some G)) := by
    rw [one_nsmul, pointOf_some hG, Jac.Of, Nat.cast_one]
    exact represents_pt hG
  obtain ⟨q, hq, hneg⟩ := (Option.any_eq_true _ _).mp run_bitsOfN
  have hof := Jac.run_of hstart hq
  unfold Jac.isNegG at hneg
  rw [Bool.and_eq_true, beq_iff_eq, beq_iff_eq] at hneg
  obtain ⟨hx, hy⟩ := hneg
  have hX : (q.X : Fp) = G.1 * (q.Z : Fp) ^ 2 := by
    rw [hx, ZMod.natCast_mod]
    push_cast
    rfl
  have hY : (q.Y : Fp) = -G.2 * (q.Z : Fp) ^ 3 := by
    have hsum := cast_sum_eq_zero hy
    push_cast at hsum
    linear_combination hsum
  rw [← readBits_bitsOfN, succ_nsmul, hof.eq_pt hG.neg hX hY, pointOf_some hG, ← neg_pt hG,
    neg_add_cancel]

/-! ## The order of every point -/

theorem pointOf_G_ne : pointOf (some G) ≠ 0 := by
  rw [pointOf_some valid_G.2.2]
  exact pt_ne_zero _

/-- A multiple of the base point is the point at infinity for multiples of `N` only. -/
theorem nsmul_G_iff {k : Nat} : k • pointOf (some G) = 0 ↔ N ∣ k := by
  have hprime : Fact N.Prime := ⟨prime_N⟩
  rw [← addOrderOf_dvd_iff_nsmul_eq_zero, addOrderOf_eq_prime nsmul_G pointOf_G_ne]

/-- **`N` times any point** is the point at infinity. -/
theorem nsmul_N (Q : Secp) : N • Q = 0 := by
  refine nsmul_order prime_N pointOf_G_ne nsmul_G ?_ not_cube Q
  rw [ZMod.card]
  decide

/-! ## The point over an abscissa -/

/-- `y2` of `recover_address`. -/
def rightSide (x : Nat) : Nat := (Secp256k1.powMod x 3 P + 7) % P

/-- `y` of `recover_address`, before its parity is looked at. -/
def rootOver (x : Nat) : Nat := Secp256k1.powMod (rightSide x) ((P + 1) / 4) P

theorem rootOver_lt (x : Nat) : rootOver x < P := by
  unfold rootOver
  rw [Secp256k1.powMod_eq]
  exact Nat.mod_lt _ prime_P.pos

theorem coe_rightSide (x : Nat) : (rightSide x : Fp) = (x : Fp) ^ 3 + 7 := by
  unfold rightSide
  rw [Secp256k1.powMod_eq, Nat.mod_add_mod, ZMod.natCast_mod]
  push_cast
  rfl

/-- Where there is a point, the power of the square is its ordinate or the opposite one. -/
theorem rootOver_eq_or_neg {x y : Nat} (h : OnCurve (7 : Fp) x y) :
    (rootOver x : Fp) = y ∨ (rootOver x : Fp) = -y := by
  have hsquare : (rightSide x : Fp) = (y : Fp) ^ 2 := by
    rw [coe_rightSide]
    exact h.symm
  have hroot : (rootOver x : Fp) = (y : Fp) ^ ((P + 1) / 2) := by
    have hexp : 2 * ((P + 1) / 4) = (P + 1) / 2 := by decide
    unfold rootOver
    rw [Secp256k1.powMod_eq, ZMod.natCast_mod, Nat.cast_pow, hsquare, ← pow_mul, hexp]
  refine sq_eq_sq_iff_eq_or_eq_neg.mp ?_
  rw [hroot, ← pow_mul]
  by_cases hy : (y : Fp) = 0
  · have hpos : (P + 1) / 2 * 2 ≠ 0 := by decide
    rw [hy, zero_pow hpos, zero_pow two_ne_zero]
  · have hexp : (P + 1) / 2 * 2 = P - 1 + 2 := by decide
    rw [hexp, pow_add, ZMod.pow_card_sub_one_eq_one hy, one_mul]

/-- **The point is found again** from its abscissa and the parity of its ordinate. -/
theorem rootOver_spec {x y : Nat} (h : Valid (some (x, y))) :
    rootOver x * rootOver x % P = rightSide x ∧
      (if rootOver x % 2 ≠ y % 2 then P - rootOver x else rootOver x) = y := by
  obtain ⟨hx, -, hc⟩ := id h
  have hy : y < P := snd_lt h
  have hlt := rootOver_lt x
  have hodd : P % 2 = 1 := by decide
  have hor := rootOver_eq_or_neg hc
  constructor
  · have hsq : ((rootOver x * rootOver x : Nat) : Fp) = (rightSide x : Nat) := by
      rw [Nat.cast_mul, coe_rightSide, ← pow_two, sq_eq_sq_iff_eq_or_eq_neg.mpr hor]
      exact hc
    rw [ZMod.natCast_eq_natCast_iff'] at hsq
    rw [hsq]
    exact Nat.mod_eq_of_lt (Nat.mod_lt _ prime_P.pos)
  · have hsum : rootOver x = y ∨ rootOver x + y = P := by
      rcases hor with heq | hneg
      · rw [ZMod.natCast_eq_natCast_iff', Nat.mod_eq_of_lt hlt, Nat.mod_eq_of_lt hy] at heq
        exact Or.inl heq
      · have hzero : ((rootOver x + y : Nat) : Fp) = 0 := by
          rw [Nat.cast_add, hneg, neg_add_cancel]
        obtain ⟨m, hm⟩ := (ZMod.natCast_eq_zero_iff _ _).mp hzero
        have hne : y ≠ 0 := by
          intro h0
          refine not_cube (x : Fp) ?_
          rw [OnCurve, h0, Nat.cast_zero] at hc
          linear_combination -hc
        -- both are below `P` and one is not zero
        have hm1 : m = 1 := by
          have h1 : 0 < m := by
            rcases Nat.eq_zero_or_pos m with rfl | h1
            · omega
            · exact h1
          have h2 : m < 2 := by
            by_contra hge
            have := Nat.mul_le_mul_left P (Nat.not_lt.mp hge)
            omega
          omega
        rw [hm1, Nat.mul_one] at hm
        exact Or.inr hm
    rcases hsum with heq | hsum
    · rw [heq, if_neg (not_not.mpr rfl)]
    · rw [if_pos (by omega)]
      omega

/-- Over an abscissa there is one point of each parity. -/
theorem parity_unique {x y y' : Nat} (h : Valid (some (x, y))) (h' : Valid (some (x, y')))
    (hparity : y % 2 = y' % 2) : y = y' := by
  have hroot := (rootOver_spec h).2
  rw [hparity] at hroot
  exact hroot.symm.trans (rootOver_spec h').2

end Preaction.ReceiptCheck
