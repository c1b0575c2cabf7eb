import Preaction.Lib.GroupSignature
import Preaction.Secp256k1.Agreement
import Preaction.Secp256k1.Coding

/-!
# `x402-receipt-authorization-commitment/bip340.py` — BIP-340, signing and verification

The third file with the arithmetic of secp256k1, and the one that signs. Its `_add` asks whether
two points of one abscissa differ, not whether they cancel, and its `_mul` always runs 256
rounds. On points of the curve these are the sum and the multiple (`add_eq`, `mul_spec`).

The secret key and the nonce are both replaced by their opposites where the ordinate of the point
is odd (`even_multiple`), because a verifier that knows the abscissa takes the even one.

Mirroring notes:
- `P`, `N` and `G` are those of `receipt_check.py`, and `_lift_x` is that of `_bip340_nostr.py`.
-/

namespace Preaction.Bip340Signer

open Preaction.Py Preaction.Loop Preaction.Secp256k1
open Preaction.ReceiptCheck (P N G Valid pointOf Fp Secp toBytes32)
open Preaction.Bip340 (taggedHash challengeTag)

/-- `_add(p1, p2)` -/
def add : Option Pt → Option Pt → Option Pt
  | none, p2 => p2
  | some p1, none => some p1
  | some p1, some p2 =>
    if p1.1 = p2.1 ∧ p1.2 ≠ p2.2 then none
    else
      let lam : Int :=
        if p1 = p2 then reduce secp256k1 (3 * p1.1 * p1.1 * inverse secp256k1 (2 * p1.2))
        else reduce secp256k1 ((p2.2 - p1.2) * inverse secp256k1 (p2.1 - p1.1))
      let x3 := reduce secp256k1 (lam * lam - p1.1 - p2.1)
      some (x3, reduce secp256k1 (lam * (p1.1 - x3) - p1.2))

/-- The body of the loop of `_mul`, on `r` and `pt`. -/
def mulRound (k : Nat) (s : Option Pt × Option Pt) (i : Nat) : Option Pt × Option Pt :=
  (if k / 2 ^ i % 2 = 1 then add s.1 s.2 else s.1, add s.2 s.2)

/-- `_mul(pt, k)` -/
def mul (pt : Option Pt) (k : Nat) : Option Pt :=
  ((List.range 256).foldl (mulRound k) (none, pt)).1

/-- `_lift_x(x)` -/
def liftX (x : Nat) : Option Pt := Secp256k1.liftX secp256k1 x

/-- `pubkey(seckey)` -/
def pubkey (seckey : Bytes) : Except PyError Bytes := do
  let d := fromBytesBig seckey
  if ¬ (1 ≤ d ∧ d ≤ N - 1) then throw .valueError
  toBytes32 (← finite (mul (some G) d)).1

variable (R : Runtime)

/-- `"BIP0340/aux"` -/
def auxTag : Str := lit "BIP0340/aux"

/-- `"BIP0340/nonce"` -/
def nonceTag : Str := lit "BIP0340/nonce"

/-- `x`, or its opposite where the ordinate of the point is odd. -/
def evenOf (p : Pt) (x : Nat) : Nat := if p.2 % 2 = 0 then x else N - x

/-- `sign` from the nonce on: the key is `d`, and `pt` is the point of the secret key. -/
def signFrom (pt : Pt) (d k0 : Nat) (msg : Bytes) : Except PyError Bytes := do
  let r ← finite (mul (some G) k0)
  let k := evenOf r k0
  let e := fromBytesBig
    (taggedHash R challengeTag ((← toBytes32 r.1) ++ (← toBytes32 pt.1) ++ msg)) % N
  return (← toBytes32 r.1) ++ (← toBytes32 ((k + e * d) % N : Nat))

/-- `k0` of `sign`, for the key and its abscissa as bytes. -/
def nonceOf (key pub msg aux : Bytes) : Nat :=
  let t := key.zipWith (· ^^^ ·) (taggedHash R auxTag aux)
  fromBytesBig (taggedHash R nonceTag (t ++ pub ++ msg)) % N

/-- `sign(seckey, msg, aux)` -/
def sign (seckey msg aux : Bytes) : Except PyError Bytes := do
  let d0 := fromBytesBig seckey
  if ¬ (1 ≤ d0 ∧ d0 ≤ N - 1) then throw .valueError
  let pt ← finite (mul (some G) d0)
  let d := evenOf pt d0
  let k0 := nonceOf R (← toBytes32 d) (← toBytes32 pt.1) msg aux
  if k0 = 0 then throw .valueError
  signFrom R pt d k0 msg

/-- `verify(pub, msg, sig)` -/
def verify (pub msg sig : Bytes) : Bool :=
  if pub.length ≠ 32 ∨ sig.length ≠ 64 then false
  else
    let r := fromBytesBig (sig.take 32)
    let s := fromBytesBig (sig.drop 32)
    match liftX (fromBytesBig pub) with
    | none => false
    | some pt =>
      if P ≤ r ∨ N ≤ s then false
      else
        let e := fromBytesBig (taggedHash R challengeTag (sig.take 32 ++ pub ++ msg)) % N
        match add (mul (some G) s) (mul (some pt) (N - e)) with
        | none => false
        | some rr => rr.2 % 2 = 0 && rr.1 = r

/-! ## The arithmetic -/

/-- On the curve, points of one abscissa that differ are the points that cancel. -/
theorem differ_iff {p q : Pt} (hp : OnCurve secp256k1 (some p)) (hq : OnCurve secp256k1 (some q)) :
    (p.1 = q.1 ∧ p.2 ≠ q.2) ↔ (p.1 = q.1 ∧ (p.2 + q.2) % P = 0) := by
  have hv := onCurve_iff_valid.mp hp
  refine and_congr_right fun hx => ?_
  constructor
  · intro hne
    refine ReceiptCheck.opposite_of_ne hv (onCurve_iff_valid.mp hq) hx ?_
    intro heq
    exact hne (congrArg Prod.snd heq)
  · intro hsum heq
    -- a point that cancels with itself would have the ordinate zero
    have hy := ReceiptCheck.cast_sum_eq_zero hsum
    rw [← heq] at hy
    have hzero : (p.2 : Fp) = 0 := by
      have h2 := mul_eq_zero.mp (show (2 : Fp) * p.2 = 0 by linear_combination hy)
      exact h2.resolve_left (ShortWeierstrass.Smooth.two_ne_zero (7 : Fp))
    have hc := hv.2.2
    rw [ShortWeierstrass.OnCurve, hzero] at hc
    exact ReceiptCheck.not_cube (p.1 : Fp) (by linear_combination -hc)

theorem add_eq {p q : Option Pt} (hp : OnCurve secp256k1 p) (hq : OnCurve secp256k1 q) :
    add p q = pointAdd secp256k1 p q := by
  match p, q with
  | none, _ => rfl
  | some p, none => rfl
  | some p, some q =>
    unfold add pointAdd
    refine if_congr (differ_iff hp hq) rfl ?_
    simp only [Prod.ext_iff]

theorem add_sum {p q : Option Pt} (hp : OnCurve secp256k1 p) (hq : OnCurve secp256k1 q) :
    OnCurve secp256k1 (add p q) ∧ pointOf (add p q) = pointOf p + pointOf q := by
  rw [add_eq hp hq]
  exact pointAdd_sum hp hq

/-- After `n` rounds: the multiple by the bits that were read, and the next power of two. -/
theorem mulRounds {pt : Option Pt} (hpt : OnCurve secp256k1 pt) (k n : Nat) :
    let s := (List.range n).foldl (mulRound k) (none, pt)
    (OnCurve secp256k1 s.1 ∧ pointOf s.1 = (k % 2 ^ n) • pointOf pt) ∧
      OnCurve secp256k1 s.2 ∧ pointOf s.2 = (2 ^ n) • pointOf pt := by
  induction n with
  | zero =>
    rw [pow_zero, Nat.mod_one, zero_nsmul, one_nsmul]
    exact ⟨⟨trivial, rfl⟩, hpt, rfl⟩
  | succ n ih =>
    obtain ⟨⟨hr, hr'⟩, hp, hp'⟩ := ih
    intro s
    have hs : s = mulRound k ((List.range n).foldl (mulRound k) (none, pt)) n := by
      show (List.range (n + 1)).foldl (mulRound k) (none, pt) = _
      rw [List.range_succ, List.foldl_append]
      rfl
    generalize (List.range n).foldl (mulRound k) (none, pt) = t at hs hr hr' hp hp'
    obtain ⟨hdouble, hdouble'⟩ := add_sum hp hp
    obtain ⟨hsum, hsum'⟩ := add_sum hr hp
    rw [hs, mulRound]
    refine ⟨?_, hdouble, ?_⟩
    · have hbit : k % 2 ^ (n + 1) = k % 2 ^ n + 2 ^ n * (k / 2 ^ n % 2) := by
        rw [pow_succ, Nat.mod_mul]
      rw [hbit]
      dsimp only
      by_cases h1 : k / 2 ^ n % 2 = 1
      · rw [if_pos h1, h1, Nat.mul_one, add_nsmul, hsum', hr', hp']
        exact ⟨hsum, rfl⟩
      · rw [if_neg h1, Nat.mod_two_ne_one.mp h1, Nat.mul_zero, Nat.add_zero]
        exact ⟨hr, hr'⟩
    · dsimp only
      rw [hdouble', hp', ← two_nsmul, ← mul_nsmul, pow_succ]

/-- `_mul` computes the multiple. -/
theorem mul_spec {pt : Option Pt} (hpt : OnCurve secp256k1 pt) {k : Nat} (hk : k < 2 ^ 256) :
    OnCurve secp256k1 (mul pt k) ∧ pointOf (mul pt k) = k • pointOf pt := by
  have h := (mulRounds hpt k 256).1
  rwa [Nat.mod_eq_of_lt hk] at h

/-! ## What the signer computes -/

theorem onCurve_G : OnCurve secp256k1 (some G) := onCurve_iff_valid.mpr ReceiptCheck.valid_G

theorem mul_G {k : Nat} (hk : k < N) :
    OnCurve secp256k1 (mul (some G) k) ∧ pointOf (mul (some G) k) = k • pointOf (some G) :=
  mul_spec onCurve_G (hk.trans (by decide))

/-- The point of `_lift_x`: that of the given one and its opposite which has an even ordinate. -/
theorem liftX_of_onCurve {p : Pt} (h : OnCurve secp256k1 (some p)) :
    ∃ y, liftX p.1 = some (p.1, y) ∧ y % 2 = 0 ∧ OnCurve secp256k1 (some (p.1, y)) ∧
      pointOf (some (p.1, y)) = if p.2 % 2 = 0 then pointOf (some p) else -pointOf (some p) := by
  have hv := onCurve_iff_valid.mp h
  obtain ⟨hsq, hroot⟩ := ReceiptCheck.rootOver_spec hv
  have hrlt := ReceiptCheck.rootOver_lt p.1
  have hodd : P % 2 = 1 := by decide
  obtain ⟨y, hy⟩ : ∃ y, (if ReceiptCheck.rootOver p.1 % 2 = 0 then ReceiptCheck.rootOver p.1
    else P - ReceiptCheck.rootOver p.1) = y := ⟨_, rfl⟩
  have hlift : liftX p.1 = some (p.1, y) := by
    have hsq' : ¬ Secp256k1.powMod (ReceiptCheck.rootOver p.1) 2 P ≠
        ReceiptCheck.rightSide p.1 := by
      rw [powMod_eq, pow_two, not_not]
      exact hsq
    unfold liftX Secp256k1.liftX
    refine (if_neg (Nat.not_le.mpr hv.1)).trans ((if_neg hsq').trans ?_)
    rw [← hy]
    rfl
  have hc := (liftX_spec hlift).2.2
  have hv' := onCurve_iff_valid.mp hc
  refine ⟨y, hlift, ?_, hc, ?_⟩
  · rw [← hy]
    split
    next heven => exact heven
    next => omega
  · rw [ReceiptCheck.pointOf_some hv'.2.2, ReceiptCheck.pointOf_some hv.2.2,
      ShortWeierstrass.neg_pt]
    by_cases heven : p.2 % 2 = 0
    · have hsame : y = p.2 := by
        rw [heven] at hroot
        rw [← hy, ← hroot]
        simp only [ne_eq, ite_not]
      rw [if_pos heven, ShortWeierstrass.pt_inj]
      exact ⟨rfl, congrArg Nat.cast hsame⟩
    · have hsum : y + p.2 = P := by
        rw [Nat.mod_two_ne_zero.mp heven] at hroot
        rw [← hy]
        by_cases h0 : ReceiptCheck.rootOver p.1 % 2 = 0
        · rw [if_pos (by omega)] at hroot
          rw [if_pos h0]
          omega
        · rw [if_neg (by omega)] at hroot
          rw [if_neg h0]
          omega
      rw [if_neg heven, ShortWeierstrass.pt_inj]
      refine ⟨rfl, ?_⟩
      rw [eq_neg_iff_add_eq_zero, ← Nat.cast_add, hsum, ZMod.natCast_self]

/-- A scalar, the point it belongs to, and the even point over its abscissa: that belongs to
the scalar or to its opposite. -/
theorem even_multiple {x : Nat} (h0 : 1 ≤ x) (hx : x < N) :
    ∃ p y, mul (some G) x = some p ∧ OnCurve secp256k1 (some p) ∧ liftX p.1 = some (p.1, y) ∧
      y % 2 = 0 ∧ OnCurve secp256k1 (some (p.1, y)) ∧
      pointOf (some (p.1, y)) = evenOf p x • pointOf (some G) := by
  obtain ⟨hc, hsum⟩ := mul_G hx
  cases hm : mul (some G) x with
  | none =>
    rw [hm] at hsum
    have hdvd := ReceiptCheck.nsmul_G_iff.mp hsum.symm
    exact absurd (Nat.le_of_dvd h0 hdvd) (Nat.not_le.mpr hx)
  | some p =>
    rw [hm] at hc hsum
    obtain ⟨y, hlift, heven, hcy, hy⟩ := liftX_of_onCurve hc
    refine ⟨p, y, rfl, hc, hlift, heven, hcy, ?_⟩
    rw [hy, hsum, evenOf]
    split
    next => rfl
    next => rw [GroupSignature.sub_nsmul ReceiptCheck.nsmul_G hx.le]

/-- The check, on numbers that the bytes are of. -/
theorem verify_of_sum {pub msg rb sb : Bytes} {p r : Pt} {s : Nat} (hpub : pub.length = 32)
    (hrb : rb.length = 32) (hsb : sb.length = 32) (hp : liftX (fromBytesBig pub) = some p)
    (hr : fromBytesBig rb = r.1) (hs : fromBytesBig sb = s) (hlt : s < N)
    (hc : OnCurve secp256k1 (some r)) (heven : r.2 % 2 = 0)
    (hsum : pointOf (some r) = s • pointOf (some G) +
      (N - fromBytesBig (taggedHash R challengeTag (rb ++ pub ++ msg)) % N) • pointOf (some p)) :
    verify R pub msg (rb ++ sb) = true := by
  obtain ⟨htake, hdrop⟩ := halves (b := sb) hrb
  have hlen : (rb ++ sb).length = 64 := by rw [List.length_append, hrb, hsb]
  have hcp : OnCurve secp256k1 (some p) := (liftX_spec hp).2.2
  unfold verify
  rw [if_neg (by omega), htake, hdrop]
  dsimp only
  rw [hp]
  dsimp only
  have hx : r.1 < P := hc.1
  rw [hr, hs, if_neg (not_or.mpr ⟨Nat.not_le.mpr hx, Nat.not_le.mpr hlt⟩)]
  generalize fromBytesBig (taggedHash R challengeTag (rb ++ pub ++ msg)) % N = e at hsum ⊢
  obtain ⟨hc1, hsum1⟩ := mul_G hlt
  obtain ⟨hc2, hsum2⟩ := mul_spec hcp (show N - e < 2 ^ 256 from
    (Nat.sub_le N e).trans_lt (by decide))
  obtain ⟨hc3, hsum3⟩ := add_sum hc1 hc2
  have hrr : add (mul (some G) s) (mul (some p) (N - e)) = some r := by
    refine pointOf_inj hc3 hc ?_
    rw [hsum3, hsum1, hsum2, hsum]
  rw [hrr]
  simp [heven]

/-- A nonce and a key that are not multiples of `N` make a signature that verifies. -/
theorem signFrom_verifies {d0 k0 : Nat} {pt : Pt} {pub : Bytes} (msg : Bytes) (h1 : 1 ≤ d0) (hd : d0 < N)
    (hpt : mul (some G) d0 = some pt) (hpub : toBytes32 pt.1 = .ok pub) (hk1 : 1 ≤ k0)
    (hk : k0 < N) :
    ∃ sig, signFrom R pt (evenOf pt d0) k0 msg = .ok sig ∧ verify R pub msg sig = true := by
  obtain ⟨-, hplen, hpx⟩ := toBytes32_inv hpub
  obtain ⟨pt', y, hpt', -, hlift, -, -, hkey⟩ := even_multiple h1 hd
  obtain rfl := Option.some.inj (hpt.symm.trans hpt')
  obtain ⟨r, z, hr, hcr, -, hz, hcz, hnonce⟩ := even_multiple hk1 hk
  have hxr : r.1 < P := hcr.1
  obtain ⟨rb, hrb, hrlen, hrx⟩ := toBytes32_spec (hxr.trans (by decide))
  obtain ⟨e, he⟩ : ∃ e, fromBytesBig (taggedHash R challengeTag (rb ++ pub ++ msg)) % N = e :=
    ⟨_, rfl⟩
  obtain ⟨s, hs⟩ : ∃ s, (evenOf r k0 + e * evenOf pt d0) % N = s := ⟨_, rfl⟩
  have hslt : s < N := hs ▸ Nat.mod_lt _ ReceiptCheck.prime_N.pos
  obtain ⟨sb, hsb, hslen, hsx⟩ := toBytes32_spec (hslt.trans (by decide))
  have hrun : signFrom R pt (evenOf pt d0) k0 msg = .ok (rb ++ sb) := by
    unfold signFrom
    rw [hr, finite, ok_bind]
    dsimp only
    rw [hrb, ok_bind, hpub, ok_bind, he, hs, hsb]
    rfl
  refine ⟨rb ++ sb, hrun, ?_⟩
  have hlift' : liftX (fromBytesBig pub) = some (pt.1, y) := by rw [hpx, hlift]
  refine verify_of_sum R hplen hrlen hslen hlift' (r := (r.1, z)) hrx hsx hslt hcz hz ?_
  have hle : e ≤ N := he ▸ (Nat.mod_lt _ ReceiptCheck.prime_N.pos).le
  rw [he, hnonce, hkey]
  refine (GroupSignature.schnorr ReceiptCheck.nsmul_G hle ?_).symm
  rw [← hs]
  exact Nat.mod_modEq _ _

/-- **What is signed verifies.** A key in range has a public key, and every message is signed
under it, unless the nonce happens to be zero: that is an error. -/
theorem sign_verifies {seckey : Bytes} (h1 : 1 ≤ fromBytesBig seckey)
    (hlt : fromBytesBig seckey < N) :
    ∃ key pub, pubkey seckey = .ok pub ∧ ∀ msg aux,
      if nonceOf R key pub msg aux = 0 then sign R seckey msg aux = .error .valueError
      else ∃ sig, sign R seckey msg aux = .ok sig ∧ verify R pub msg sig = true := by
  have hrange : ¬ ¬ (1 ≤ fromBytesBig seckey ∧ fromBytesBig seckey ≤ N - 1) :=
    not_not.mpr ⟨h1, by omega⟩
  obtain ⟨pt, y, hpt, hcpt, -, -, -, -⟩ := even_multiple h1 hlt
  have hx : pt.1 < P := hcpt.1
  obtain ⟨pub, hpub, -, -⟩ := toBytes32_spec (hx.trans (by decide))
  have hd : evenOf pt (fromBytesBig seckey) < 2 ^ 256 := by
    have hN : N < 2 ^ 256 := by decide
    unfold evenOf
    split
    next => omega
    next => omega
  obtain ⟨key, hkey, -, -⟩ := toBytes32_spec hd
  refine ⟨key, pub, ?_, fun msg aux => ?_⟩
  · unfold pubkey
    rw [if_neg hrange, hpt, finite, ok_bind]
    exact hpub
  · have hsign : sign R seckey msg aux = (do
        if nonceOf R key pub msg aux = 0 then throw PyError.valueError
        signFrom R pt (evenOf pt (fromBytesBig seckey)) (nonceOf R key pub msg aux) msg) := by
      unfold sign
      rw [if_neg hrange, hpt, finite, ok_bind]
      dsimp only
      rw [hkey, ok_bind, hpub, ok_bind]
    rw [hsign]
    split
    next => rfl
    next hk0 =>
      exact signFrom_verifies R msg h1 hlt hpt hpub (Nat.pos_of_ne_zero hk0)
        (Nat.mod_lt _ ReceiptCheck.prime_N.pos)

/-- The secret key one. -/
theorem sign_verifies_one : ∃ key pub, pubkey [1] = .ok pub ∧ ∀ msg aux,
    if nonceOf .sample key pub msg aux = 0 then sign .sample [1] msg aux = .error .valueError
    else ∃ sig, sign .sample [1] msg aux = .ok sig ∧ verify .sample pub msg sig = true :=
  sign_verifies .sample (by decide) (by decide)

/-! ## The verifiers agree -/

theorem mul_eq {p : Pt} (hp : OnCurve secp256k1 (some p)) {k : Nat} (hk : k < 2 ^ 256) :
    mul (some p) k = pointMul secp256k1 p k := by
  obtain ⟨hc, hsum⟩ := mul_spec hp hk
  obtain ⟨hc', hsum'⟩ := pointMul_sum hp k
  exact pointOf_inj hc hc' (hsum.trans hsum'.symm)

/-- **One arithmetic, three times.** The sums of the three files agree on the points of the
curve, and their multiplications are what adding again and again comes to: nothing is left of a
point where `N` divides the scalar, and only there. -/
theorem arithmetic_agrees {Q : Pt} {p : Option Pt} {k : Nat} (hQ : OnCurve secp256k1 (some Q))
    (hp : OnCurve secp256k1 p) (hk : k < 2 ^ 256) :
    (ReceiptCheck.add p (some Q) = .ok (pointAdd secp256k1 p (some Q)) ∧
        add p (some Q) = pointAdd secp256k1 p (some Q)) ∧
      (ReceiptCheck.mul k (some Q) = .ok (times secp256k1 k (some Q)) ∧
        pointMul secp256k1 Q k = times secp256k1 k (some Q) ∧
        mul (some Q) k = times secp256k1 k (some Q)) ∧
      (times secp256k1 k (some Q) = none ↔ N ∣ k) := by
  have htimes : pointMul secp256k1 Q k = times secp256k1 k (some Q) := by
    rw [pointMul_eq_nsmul hQ, pt_nsmul]
  refine ⟨⟨add_eq_pointAdd hp hQ, add_eq hp hQ⟩, ⟨?_, htimes, ?_⟩, times_eq_none_iff hQ⟩
  · rw [mul_eq_pointMul hQ, htimes]
  · rw [mul_eq hQ hk, htimes]

/-- The base point, added to itself. -/
theorem arithmetic_agrees_base :
    (ReceiptCheck.add (some G) (some G) = .ok (pointAdd secp256k1 (some G) (some G)) ∧
        add (some G) (some G) = pointAdd secp256k1 (some G) (some G)) ∧
      (ReceiptCheck.mul 2 (some G) = .ok (times secp256k1 2 (some G)) ∧
        pointMul secp256k1 G 2 = times secp256k1 2 (some G) ∧
        mul (some G) 2 = times secp256k1 2 (some G)) ∧
      (times secp256k1 2 (some G) = none ↔ N ∣ 2) :=
  arithmetic_agrees onCurve_G onCurve_G (by decide)

/-- For messages of 32 bytes, `verify` and `schnorr_verify` are one function. -/
theorem verify_eq_schnorrVerify {msg : Bytes} (hmsg : msg.length = 32) (pub sig : Bytes) :
    verify R pub msg sig = schnorrVerify secp256k1 R msg pub sig := by
  unfold verify schnorrVerify
  by_cases hlen : pub.length ≠ 32 ∨ sig.length ≠ 64
  · rw [if_pos hlen, if_pos (Or.inr hlen)]
  rw [if_neg hlen, if_neg (by rw [hmsg]; simpa using hlen)]
  have hlift : liftX (fromBytesBig pub) = Secp256k1.liftX secp256k1 (fromBytesBig pub) := rfl
  dsimp only
  rw [hlift]
  cases h : Secp256k1.liftX secp256k1 (fromBytesBig pub) with
  | none => rfl
  | some p =>
    have hcp := (liftX_spec h).2.2
    dsimp only
    by_cases hrange : P ≤ fromBytesBig (sig.take 32) ∨ N ≤ fromBytesBig (sig.drop 32)
    · rw [if_pos hrange]
      exact (if_pos hrange).symm
    · rw [if_neg hrange]
      refine Eq.trans ?_ (if_neg hrange).symm
      obtain ⟨-, hs⟩ := not_or.mp hrange
      generalize fromBytesBig (taggedHash R challengeTag (sig.take 32 ++ pub ++ msg)) = e
      have hmulG := mul_eq onCurve_G (k := fromBytesBig (sig.drop 32))
        ((Nat.not_le.mp hs).trans (by decide))
      have hmulP := mul_eq hcp (k := N - e % N) ((Nat.sub_le _ _).trans_lt (by decide))
      have hN : secp256k1.N = N := rfl
      have hG : secp256k1.G = G := rfl
      rw [hmulG, hmulP, hN, hG, add_eq (pointMul_sum onCurve_G _).1 (pointMul_sum hcp _).1]
      cases pointAdd secp256k1 _ _ with
      | none => rfl
      | some Q => simp only [ne_eq, decide_not, Bool.not_or, Bool.not_not]

/-- A message of zeros. -/
theorem verify_eq_schnorrVerify_zeros :
    verify .sample [] (List.replicate 32 0) [] =
      schnorrVerify secp256k1 .sample (List.replicate 32 0) [] [] :=
  verify_eq_schnorrVerify .sample rfl [] []

/-! ## A signature is not malleable -/

theorem length_of_verify {pub msg sig : Bytes} (h : verify R pub msg sig = true) :
    sig.length = 64 := by
  unfold verify at h
  split at h
  next => cases h
  next hlen => exact not_not.mp (not_or.mp hlen).2

/-- What an accepted signature says of the points. -/
theorem verify_sum {pub msg rb sb : Bytes} (hrb : rb.length = 32)
    (h : verify R pub msg (rb ++ sb) = true) :
    ∃ p y, liftX (fromBytesBig pub) = some p ∧ fromBytesBig sb < N ∧ y % 2 = 0 ∧
      OnCurve secp256k1 (some (fromBytesBig rb, y)) ∧
      pointOf (some (fromBytesBig rb, y)) = fromBytesBig sb • pointOf (some G) +
        (N - fromBytesBig (taggedHash R challengeTag (rb ++ pub ++ msg)) % N) •
          pointOf (some p) := by
  obtain ⟨htake, hdrop⟩ := halves (b := sb) hrb
  unfold verify at h
  rw [htake, hdrop] at h
  split at h
  next => cases h
  next =>
    dsimp only at h
    split at h
    next => cases h
    next p hp =>
      split at h
      next => cases h
      next hrange =>
        obtain ⟨-, hs⟩ := not_or.mp hrange
        have hslt := Nat.not_le.mp hs
        obtain ⟨hc1, hsum1⟩ := mul_G hslt
        obtain ⟨hc2, hsum2⟩ := mul_spec (liftX_spec hp).2.2
          (k := N - fromBytesBig (taggedHash R challengeTag (rb ++ pub ++ msg)) % N)
          ((Nat.sub_le _ _).trans_lt (by decide))
        obtain ⟨hc3, hsum3⟩ := add_sum hc1 hc2
        split at h
        next => cases h
        next rr hrr =>
          rw [Bool.and_eq_true, decide_eq_true_eq, decide_eq_true_eq] at h
          obtain ⟨heven, hx⟩ := h
          rw [hrr] at hc3 hsum3
          refine ⟨p, rr.2, hp, hslt, heven, hx ▸ hc3, ?_⟩
          rw [← hx, hsum3, hsum1, hsum2]

theorem nsmul_G_injective {s s' : Nat} (hs : s < N) (hs' : s' < N)
    (h : s • pointOf (some G) = s' • pointOf (some G)) : s = s' := by
  have hmod := nsmul_eq_nsmul_iff_modEq.mp h
  have hprime : Fact N.Prime := ⟨ReceiptCheck.prime_N⟩
  rw [addOrderOf_eq_prime ReceiptCheck.nsmul_G ReceiptCheck.pointOf_G_ne] at hmod
  exact hmod.eq_of_lt_of_lt hs hs'

/-- **One `r`, one `s`**: of the signatures with a given first half, one at most verifies. -/
theorem verify_unique {pub msg rb sb sb' : Bytes} (hrb : rb.length = 32)
    (h : verify R pub msg (rb ++ sb) = true) (h' : verify R pub msg (rb ++ sb') = true) :
    sb = sb' := by
  have hlen {b : Bytes} (hb : verify R pub msg (rb ++ b) = true) : b.length = 32 := by
    have h64 := length_of_verify R hb
    rw [List.length_append] at h64
    omega
  obtain ⟨p, y, hp, hs, heven, hc, hsum⟩ := verify_sum R hrb h
  obtain ⟨p', y', hp', hs', heven', hc', hsum'⟩ := verify_sum R hrb h'
  obtain rfl := Option.some.inj (hp.symm.trans hp')
  obtain rfl := ReceiptCheck.parity_unique (onCurve_iff_valid.mp hc) (onCurve_iff_valid.mp hc')
    (heven.trans heven'.symm)
  have hnum : fromBytesBig sb = fromBytesBig sb' := by
    refine nsmul_G_injective hs hs' ?_
    exact add_right_cancel (hsum.symm.trans hsum')
  rw [fromBytesBig_eq, fromBytesBig_eq] at hnum
  refine List.reverse_injective (Edwards.fromBytesLittle_injective ?_ hnum)
  rw [List.length_reverse, List.length_reverse, hlen h, hlen h']

/-- A signature by the secret key one, with the nonce one. -/
theorem verify_unique_one : ∃ pub msg rb sb, verify .sample pub msg (rb ++ sb) = true ∧
    ∀ sb', verify .sample pub msg (rb ++ sb') = true → sb = sb' := by
  obtain ⟨pt, y, hpt, hc, -⟩ := even_multiple (x := 1) (by decide) (by decide)
  have hx : pt.1 < P := hc.1
  obtain ⟨pub, hpub, -⟩ := toBytes32_spec (hx.trans (by decide))
  have hN : 1 < N := by decide
  obtain ⟨sig, -, hsig⟩ := signFrom_verifies .sample [] le_rfl hN hpt hpub le_rfl hN
  have hlen := length_of_verify .sample hsig
  rw [← List.take_append_drop 32 sig] at hsig
  exact ⟨pub, [], sig.take 32, sig.drop 32, hsig, fun sb' h' =>
    verify_unique .sample (by rw [List.length_take, hlen]; rfl) hsig h'⟩

end Preaction.Bip340Signer
