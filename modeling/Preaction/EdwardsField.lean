import Mathlib.Data.List.Prime
import Mathlib.NumberTheory.LucasPrimality
import Mathlib.Tactic.NormNum.Prime
import Preaction.EdwardsCoding

/-!
# The field of edwards25519

`pow(b, e, m)` by repeated squaring is the power, and `P` is a prime number. The
second is Lucas's test down a chain of primes: each number of the chain is tested on
factors that are certified before it (`prime_of_chain`), and the test itself runs on
`powModAux`.
-/

namespace Preaction.Edwards

theorem powModAux_eq {fuel b e m : Nat} (hfuel : e < 2 ^ fuel) :
    powModAux fuel b e m = b ^ e % m := by
  induction fuel generalizing b e with
  | zero =>
    obtain rfl : e = 0 := by simpa using hfuel
    rfl
  | succ fuel ih =>
    rw [Nat.pow_succ] at hfuel
    have hhalf : powModAux fuel (b * b % m) (e / 2) m = (b * b) ^ (e / 2) % m := by
      rw [ih (by omega), ← Nat.pow_mod]
    unfold powModAux
    dsimp only
    rw [hhalf, ← pow_two, ← pow_mul]
    split
    next hzero => rw [hzero, pow_zero]
    next =>
      split
      next hodd =>
        rw [Nat.mod_mul_mod, ← pow_succ]
        congr 2
        omega
      next heven =>
        congr 2
        omega

theorem powP_eq {b e : Nat} (he : e < 2 ^ 256) : powP b e = b ^ e % P := powModAux_eq he

/-- Lucas's test of `p`: the base `a`, and the prime factors of `p - 1`. -/
structure Lucas where
  p : Nat
  a : Nat
  factors : List Nat

/-- `a` is of order `p - 1` modulo `p`. -/
def Lucas.passes (c : Lucas) : Bool :=
  2 ≤ c.p && c.p < 2 ^ 256 && c.factors.prod == c.p - 1 &&
    powModAux 256 c.a (c.p - 1) c.p == 1 &&
    c.factors.all fun q => powModAux 256 c.a ((c.p - 1) / q) c.p != 1

theorem Lucas.prime {c : Lucas} (hc : c.passes = true) (hfactors : ∀ q ∈ c.factors, q.Prime) :
    c.p.Prime := by
  unfold passes at hc
  simp only [Bool.and_eq_true, decide_eq_true_eq, beq_iff_eq, List.all_eq_true, bne_iff_ne] at hc
  obtain ⟨⟨⟨⟨hp, hlt⟩, hprod⟩, hone⟩, hne⟩ := hc
  have hpow (e : Nat) (he : e ≤ c.p - 1) :
      (c.a : ZMod c.p) ^ e = 1 ↔ powModAux 256 c.a e c.p = 1 := by
    rw [powModAux_eq (by omega), ← Nat.cast_pow, ← Nat.cast_one, ZMod.natCast_eq_natCast_iff',
      Nat.one_mod_eq_one.mpr (by omega)]
  refine lucas_primality c.p (c.a : ZMod c.p) ((hpow _ le_rfl).mpr hone) ?_
  intro q hq hdvd
  rw [← hprod] at hdvd
  obtain ⟨r, hr, hqr⟩ := (Prime.dvd_prod_iff hq.prime).mp hdvd
  obtain rfl := (Nat.prime_dvd_prime_iff_eq hq (hfactors r hr)).mp hqr
  rw [ne_eq, hpow _ (Nat.div_le_self _ _)]
  exact hne q hr

/-- Every test passes, on factors that are `known` or tested before. -/
def chain : List Nat → List Lucas → Bool
  | _, [] => true
  | known, c :: cs => c.passes && c.factors.all (known.contains ·) && chain (c.p :: known) cs

theorem prime_of_chain {known : List Nat} {cs : List Lucas} (hknown : ∀ q ∈ known, q.Prime)
    (h : chain known cs = true) : ∀ c ∈ cs, c.p.Prime := by
  induction cs generalizing known with
  | nil => exact List.forall_mem_nil _
  | cons c cs ih =>
    rw [chain, Bool.and_eq_true, Bool.and_eq_true] at h
    obtain ⟨⟨hpasses, hfactors⟩, hrest⟩ := h
    have hc : c.p.Prime := c.prime hpasses fun q hq =>
      hknown q (List.contains_iff_mem.mp (List.all_eq_true.mp hfactors q hq))
    exact List.forall_mem_cons.mpr ⟨hc, ih (List.forall_mem_cons.mpr ⟨hc, hknown⟩) hrest⟩

/-! ## The chain of `P` -/

/-- The prime factors that are small. -/
def smallFactors : List Nat :=
  [2, 3, 5, 7, 13, 19, 31, 47, 107, 127, 223, 353, 2437, 4153, 57467, 65147, 75707, 132049, 430751,
    569003, 1923133, 8574133]

theorem prime_smallFactors : ∀ q ∈ smallFactors, q.Prime := by
  unfold smallFactors
  norm_num

/-- The factors of `P - 1`, the factors of the largest of them, and so on down. -/
def chainOfP : List Lucas :=
  [⟨2773320623, 5, [2, 2437, 569003]⟩,
    ⟨72106336199, 7, [2, 13, 2773320623]⟩,
    ⟨1919519569386763, 2, [2, 3, 7, 19, 47, 47, 127, 8574133]⟩,
    ⟨75445702479781427272750846543864801, 7,
      [2, 2, 2, 2, 2, 3, 3, 5, 5, 75707, 72106336199, 1919519569386763]⟩,
    ⟨31757755568855353, 10, [2, 2, 2, 3, 31, 107, 223, 4153, 430751]⟩,
    ⟨74058212732561358302231226437062788676166966415465897661863160754340907, 2,
      [2, 3, 353, 57467, 132049, 1923133, 31757755568855353,
        75445702479781427272750846543864801]⟩,
    ⟨P, 2, [2, 2, 3, 65147,
      74058212732561358302231226437062788676166966415465897661863160754340907]⟩]

/-- `P` is a prime number. -/
theorem prime_P : Nat.Prime P := by
  have hchain : chain smallFactors chainOfP = true := by decide +kernel
  exact prime_of_chain prime_smallFactors hchain ⟨P, 2, _⟩ (List.mem_of_getLast? rfl)

end Preaction.Edwards
