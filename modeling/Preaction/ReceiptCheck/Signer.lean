import Preaction.Lib.GroupSignature
import Preaction.Lib.While
import Preaction.ReceiptCheck.Group
import Preaction.Secp256k1.Coding

/-!
# `x402-receipt-authorization-commitment/receipt_check.py` — `sign_digest`

The signer of the test receipts, and that `recover_address` gives back its address.

The nonce is drawn until it is in range: the loop of `_rfc6979_k` has no bound, so it is a run
that ends (`While.Ends`). A signature with a large `s` is replaced by the other one of its nonce,
with `rec` flipped: the two stand for opposite points (`recoverAddress_flip`), and
`recover_address` accepts both.

The abscissa of the nonce's point is reduced modulo `N`, and `recover_address` takes `r` for the
abscissa itself. So the address comes back where the abscissa is below `N`
(`recover_signed`).

Mirroring notes:
- `hmac.new(k, m, hashlib.sha256).digest()` is an argument (`hmac`).
-/

namespace Preaction.ReceiptCheck

open Preaction.Py Preaction.Loop ShortWeierstrass
open Preaction.Secp256k1 (toBytes32_spec toBytes32_inv finite)

/-- `address_of_key(priv)` -/
def addressOfKey (priv : Nat) : Except PyError Str := do
  address (← finite (← mul priv (some G)))

/-! ## The nonce -/

variable (hmac : Bytes → Bytes → Bytes)

/-- `v` and `k` of `_rfc6979_k`. -/
structure Drbg where
  v : Bytes
  k : Bytes

/-- `_rfc6979_k` up to its loop. -/
def Drbg.start (x h : Bytes) : Drbg :=
  let v := List.replicate 32 0x01
  let k := List.replicate 32 0x00
  let k := hmac k (v ++ [0x00] ++ x ++ h)
  let v := hmac k v
  let k := hmac k (v ++ [0x01] ++ x ++ h)
  ⟨hmac k v, k⟩

/-- The body of the loop of `_rfc6979_k`. -/
def Drbg.round (s : Drbg) : While.Round Drbg Nat :=
  let v := hmac s.k s.v
  let cand := fromBytesBig v
  if 1 ≤ cand ∧ cand < N then .done cand
  else
    let k := hmac s.k (v ++ [0x00])
    .next ⟨hmac k v, k⟩

/-- `_rfc6979_k(priv, z)` returns `k`. -/
def Nonce (priv z k : Nat) : Prop :=
  ∃ x h states, toBytes32 priv = .ok x ∧ toBytes32 (z % N : Nat) = .ok h ∧
    While.Ends (Drbg.round hmac) (Drbg.start hmac x h) states k

/-! ## The signature -/

/-- What `sign_digest` returns. -/
structure Signature where
  r : Nat
  s : Nat
  recId : Nat
  deriving DecidableEq

/-- `if s > N // 2: s, rec = N - s, rec ^ 1` -/
def lowS (r s rec : Nat) : Signature :=
  if N / 2 < s then ⟨r, N - s, rec ^^^ 1⟩ else ⟨r, s, rec⟩

/-- `sign_digest` from the nonce on. -/
def signWith (priv k : Nat) (digest : Bytes) : Except PyError Signature := do
  let z := fromBytesBig digest
  let R ← finite (← mul k (some G))
  let r := R.1 % N
  let s := (← invMod k N) * (z + r * priv) % N
  return lowS r s (R.2 % 2)

/-- `sign_digest(priv, digest)` returns `sig`, with the nonce `k`. -/
def Signs (priv k : Nat) (digest : Bytes) (sig : Signature) : Prop :=
  Nonce hmac priv (fromBytesBig digest) k ∧ signWith priv k digest = .ok sig

theorem Nonce.range {priv z k : Nat} (h : Nonce hmac priv z k) :
    priv < 2 ^ 256 ∧ 1 ≤ k ∧ k < N := by
  obtain ⟨x, hb, states, hx, -, hends⟩ := h
  obtain ⟨hpriv, -⟩ := toBytes32_inv hx
  obtain ⟨s, -, hdone⟩ := hends.last
  refine ⟨hpriv, ?_⟩
  unfold Drbg.round at hdone
  dsimp only at hdone
  split at hdone
  next hrange =>
    obtain rfl := While.Round.done.inj hdone
    exact hrange
  next => cases hdone

/-! ## Recovering -/

/-- The end of `recover_address`. -/
def addressOf : Option Pt → Except PyError (Option Str)
  | none => .ok none
  | some q => do return some (← address q)

/-- Where no point has the abscissa, there is no signer. -/
theorem recoverAddress_none {digest : Bytes} {r s recId : Nat}
    (hroot : rootOver r * rootOver r % P ≠ rightSide r) :
    recoverAddress digest r s recId = .ok none := by
  unfold recoverAddress
  split
  next => rfl
  next => exact if_pos hroot

/-- What is recovered: the sum of two multiples, of the point with the abscissa `r` and the
parity `rec`, and of the base point. -/
theorem recoverAddress_spec (digest : Bytes) {r s recId rinv : Nat} (hr : 1 ≤ r ∧ r < N)
    (hs : 1 ≤ s ∧ s < N) (hrec : recId < 2) (hroot : rootOver r * rootOver r % P = rightSide r)
    (hrinv : invMod r N = .ok rinv) :
    ∃ y q, Valid (some (r, y)) ∧ y % 2 = recId ∧ Valid q ∧
      pointOf q = (s * rinv % N) • pointOf (some (r, y)) +
        reduce (-(fromBytesBig digest : Int) * rinv) N • pointOf (some G) ∧
      recoverAddress digest r s recId = addressOf q := by
  have hrP : r < P := hr.2.trans (by decide)
  have hodd : P % 2 = 1 := by decide
  have hrlt := rootOver_lt r
  obtain ⟨y, hy⟩ : ∃ y, (if rootOver r % 2 ≠ recId then P - rootOver r else rootOver r) = y :=
    ⟨_, rfl⟩
  have hpoint : Valid (some (r, y)) := by
    rw [← hy]
    exact valid_of_root hrP hrlt hroot _
  have hparity : y % 2 = recId := by
    rw [← hy]
    split
    next => omega
    next heq => exact not_not.mp heq
  obtain ⟨q1, hq1, -⟩ := mul_ok (s * rinv % N) hpoint
  obtain ⟨q2, hq2, -⟩ := mul_ok (reduce (-(fromBytesBig digest : Int) * rinv) N) valid_G
  obtain ⟨hv1, hsum1⟩ := mul_nsmul hpoint hq1
  obtain ⟨hv2, hsum2⟩ := mul_nsmul valid_G hq2
  obtain ⟨q, hq, -⟩ := add_ok hv1 hv2
  obtain ⟨hv, hsum⟩ := add_sum hv1 hv2 hq
  refine ⟨y, q, hpoint, hparity, hv, by rw [hsum, hsum1, hsum2], ?_⟩
  have hrange : ¬ (¬ (1 ≤ r ∧ r < N ∧ 1 ≤ s ∧ s < N) ∨ (recId ≠ 0 ∧ recId ≠ 1)) := by
    rw [not_or, not_not]
    exact ⟨⟨hr.1, hr.2, hs⟩, by omega⟩
  unfold recoverAddress
  rw [if_neg hrange]
  refine (if_neg (not_not.mpr hroot)).trans ?_
  dsimp only
  show (do
    let rinv ← invMod r N
    let q ← add (← mul (s * rinv % N) (some (r, if rootOver r % 2 ≠ recId then P - rootOver r
      else rootOver r))) (← mul (reduce (-(fromBytesBig digest : Int) * rinv) N) (some G))
    match q with
    | none => return none
    | some q => return some (← address q)) = _
  rw [hy, hrinv, ok_bind, hq1, ok_bind, hq2, ok_bind, hq, ok_bind]
  cases q with
  | none => rfl
  | some q => rfl

/-- The two points over an abscissa, told apart by parity. -/
theorem pointOf_flip {x y y' : Nat} (h : Valid (some (x, y))) (h' : Valid (some (x, y')))
    (hparity : y' % 2 ≠ y % 2) : pointOf (some (x, y')) = -pointOf (some (x, y)) := by
  have hne : (x, y) ≠ (x, y') := fun heq => hparity (by rw [(Prod.mk.inj heq).2])
  have hsum := opposite_of_ne h h' rfl hne
  rw [pointOf_some h.2.2, pointOf_some h'.2.2, eq_neg_iff_add_eq_zero]
  refine pt_add_opposite h'.2.2 h.2.2 ?_
  rw [add_comm]
  exact cast_sum_eq_zero hsum

/-- **A signature has a second form**, with the other half of the scalars and the other parity:
it is of the same signer. -/
theorem recoverAddress_flip (digest : Bytes) (r : Nat) {s recId : Nat} (hs : 1 ≤ s ∧ s < N)
    (hrec : recId < 2) :
    recoverAddress digest r (N - s) (1 - recId) = recoverAddress digest r s recId := by
  by_cases hr : 1 ≤ r ∧ r < N
  · by_cases hroot : rootOver r * rootOver r % P = rightSide r
    · have hrne : ((r : Int) : ZMod N) ≠ 0 := by
        intro hzero
        rw [Int.cast_natCast, ZMod.natCast_eq_zero_iff] at hzero
        exact absurd (Nat.le_of_dvd hr.1 hzero) (Nat.not_le.mpr hr.2)
      obtain ⟨rinv, hrinv, -⟩ := invMod_ok prime_N hrne
      have hs' : 1 ≤ N - s ∧ N - s < N := by omega
      have hrec' : 1 - recId < 2 := by omega
      obtain ⟨y, q, hv, hy, hq, hsum, hrun⟩ := recoverAddress_spec digest hr hs hrec
        hroot hrinv
      obtain ⟨y', q', hv', hy', hq', hsum', hrun'⟩ := recoverAddress_spec digest hr
        hs' hrec' hroot hrinv
      have hsame : q' = q := by
        refine pointOf_injective hq' hq ?_
        rw [hsum, hsum', pointOf_flip hv hv' (by omega), add_left_inj]
        -- the two scalars cancel
        have hzero : ((N - s) * rinv % N) • pointOf (some (r, y)) +
            (s * rinv % N) • pointOf (some (r, y)) = 0 := by
          rw [← add_nsmul]
          have hmod : (N - s) * rinv % N + s * rinv % N ≡ 0 [MOD N] := by
            calc (N - s) * rinv % N + s * rinv % N ≡ (N - s) * rinv + s * rinv [MOD N] :=
                  (Nat.mod_modEq _ _).add (Nat.mod_modEq _ _)
              _ = N * rinv := by rw [← Nat.add_mul, Nat.sub_add_cancel hs.2.le]
              _ ≡ 0 [MOD N] := Nat.modEq_zero_iff_dvd.mpr (Nat.dvd_mul_right _ _)
          rw [GroupSignature.nsmul_congr (nsmul_N _) hmod, zero_nsmul]
        rw [neg_nsmul, neg_eq_iff_add_eq_zero]
        exact hzero
      rw [hrun, hrun', hsame]
    · rw [recoverAddress_none hroot, recoverAddress_none hroot]
  · unfold recoverAddress
    rw [if_pos, if_pos]
    · exact Or.inl fun h => hr ⟨h.1, h.2.1⟩
    · exact Or.inl fun h => hr ⟨h.1, h.2.1⟩

/-! ## What is signed is recovered -/

/-- What a verifier can do with the signature: the abscissa of the nonce's point is `r`, and `s`
is not zero. -/
structure Recoverable (k : Nat) (sig : Signature) : Prop where
  abscissa : ∀ p, mul k (some G) = .ok (some p) → p.1 < N
  s : sig.s ≠ 0

/-- No point has the abscissa zero. -/
theorem fst_ne_zero {p : Pt} (h : Valid (some p)) : p.1 ≠ 0 := by
  intro hzero
  have hroot := (rootOver_spec (x := p.1) (y := p.2) h).1
  have hno : rootOver 0 * rootOver 0 % P ≠ rightSide 0 := by decide +kernel
  rw [hzero] at hroot
  exact hno hroot

theorem addressOfKey_ok {priv : Nat} (h : ¬ N ∣ priv) :
    ∃ p a, Valid (some p) ∧ pointOf (some p) = priv • pointOf (some G) ∧ address p = .ok a ∧
      addressOfKey priv = .ok a := by
  obtain ⟨q, hq, -⟩ := mul_ok priv valid_G
  obtain ⟨hv, hsum⟩ := mul_nsmul valid_G hq
  cases q with
  | none => exact absurd (nsmul_G_iff.mp hsum.symm) h
  | some p =>
    obtain ⟨a, ha⟩ := address_ok hv
    refine ⟨p, a, hv, hsum, ha, ?_⟩
    rw [addressOfKey, hq, ok_bind, finite, ok_bind, ha]

/-- What `sign_digest` computes is not raised over, and what it is. -/
theorem signWith_ok {k : Nat} (hk : 1 ≤ k ∧ k < N) (priv : Nat) (digest : Bytes) :
    ∃ (p : Pt) (kinv : Nat), mul k (some G) = .ok (some p) ∧ Valid (some p) ∧
      pointOf (some p) = k • pointOf (some G) ∧ (k : ZMod N) * kinv = 1 ∧
      signWith priv k digest = .ok
        (lowS (p.1 % N) (kinv * (fromBytesBig digest + p.1 % N * priv) % N) (p.2 % 2)) := by
  have hdvd : ¬ N ∣ k := fun h => absurd (Nat.le_of_dvd hk.1 h) (Nat.not_le.mpr hk.2)
  have hkne : ((k : Int) : ZMod N) ≠ 0 := by
    rw [Int.cast_natCast, ne_eq, ZMod.natCast_eq_zero_iff]
    exact hdvd
  obtain ⟨q, hq, -⟩ := mul_ok k valid_G
  obtain ⟨hv, hsum⟩ := mul_nsmul valid_G hq
  obtain ⟨kinv, hkinv, hone⟩ := invMod_ok prime_N hkne
  cases q with
  | none => exact absurd (nsmul_G_iff.mp hsum.symm) hdvd
  | some p =>
    refine ⟨p, kinv, hq, hv, hsum, by rw [← hone, Int.cast_natCast], ?_⟩
    unfold signWith
    dsimp only
    rw [hq, ok_bind, finite, ok_bind, hkinv]
    rfl

theorem xor_one : ∀ b < 2, b ^^^ 1 = 1 - b := by decide

/-- **What is signed is recovered**: the address of the key, where the abscissa of the nonce's
point is below `N` and `s` is not zero. -/
theorem recover_signed {priv k : Nat} {digest : Bytes} {sig : Signature}
    (h : Signs hmac priv k digest sig) (hpriv : ¬ N ∣ priv) (hgood : Recoverable k sig) :
    ∃ a, addressOfKey priv = .ok a ∧
      recoverAddress digest sig.r sig.s sig.recId = .ok (some a) := by
  obtain ⟨hnonce, hrun⟩ := h
  obtain ⟨-, hk⟩ := hnonce.range
  obtain ⟨p, kinv, hp, hv, hsum, hkinv, hsign⟩ := signWith_ok hk priv digest
  obtain ⟨pub, a, hpub, hpubsum, ha, hkey⟩ := addressOfKey_ok hpriv
  have hxN : p.1 < N := hgood.abscissa p hp
  have hr : 1 ≤ p.1 ∧ p.1 < N := ⟨Nat.pos_of_ne_zero (fst_ne_zero hv), hxN⟩
  rw [Nat.mod_eq_of_lt hxN] at hsign
  obtain ⟨s, hsdef⟩ : ∃ s, kinv * (fromBytesBig digest + p.1 * priv) % N = s := ⟨_, rfl⟩
  rw [hsdef] at hsign
  obtain rfl := Except.ok.inj (hsign.symm.trans hrun)
  have hslt : s < N := hsdef ▸ Nat.mod_lt _ prime_N.pos
  have hs0 : 1 ≤ s := by
    rw [Nat.one_le_iff_ne_zero]
    intro h0
    have hs := hgood.s
    rw [h0] at hs
    exact hs rfl
  refine ⟨a, hkey, ?_⟩
  have hplain : recoverAddress digest p.1 s (p.2 % 2) = .ok (some a) := by
    have hrne : ((p.1 : Int) : ZMod N) ≠ 0 := by
      intro hzero
      rw [Int.cast_natCast, ZMod.natCast_eq_zero_iff] at hzero
      exact absurd (Nat.le_of_dvd hr.1 hzero) (Nat.not_le.mpr hr.2)
    obtain ⟨rinv, hrinv, hone⟩ := invMod_ok prime_N hrne
    obtain ⟨y, q, hvy, hparity, hvq, hq, hrec⟩ := recoverAddress_spec digest hr
      ⟨hs0, hslt⟩ (Nat.mod_lt _ two_pos) (rootOver_spec hv).1 hrinv
    obtain rfl := parity_unique hvy hv hparity
    have hsk : s * k ≡ fromBytesBig digest + p.1 * priv [MOD N] := by
      rw [← ZMod.natCast_eq_natCast_iff, ← hsdef, Nat.cast_mul, ZMod.natCast_mod]
      push_cast
      linear_combination ((fromBytesBig digest : ZMod N) + p.1 * priv) * hkinv
    have hrr : p.1 * rinv ≡ 1 [MOD N] := by
      rw [← ZMod.natCast_eq_natCast_iff, Nat.cast_mul, Nat.cast_one]
      exact_mod_cast hone
    have hw : reduce (-(fromBytesBig digest : Int) * rinv) N + fromBytesBig digest * rinv ≡ 0
        [MOD N] := by
      rw [← ZMod.natCast_eq_natCast_iff, Nat.cast_add, coe_reduce prime_N.pos]
      push_cast
      ring
    have hpoint : q = some pub := by
      refine pointOf_injective hvq hpub ?_
      rw [hq, hsum, hpubsum]
      exact GroupSignature.ecdsa nsmul_G hsk hrr (Nat.mod_modEq _ _) hw
    rw [hrec, hpoint, addressOf, ha]
    rfl
  unfold lowS
  split
  next =>
    dsimp only
    rw [xor_one _ (Nat.mod_lt _ two_pos),
      recoverAddress_flip digest p.1 ⟨hs0, hslt⟩ (Nat.mod_lt _ two_pos), hplain]
  next => exact hplain

/-! ## A nonce that is known -/

/-- A keyed hash that gives the nonce one. -/
def unitHmac (_ _ : Bytes) : Bytes := List.replicate 31 0 ++ [1]

theorem nonce_unit {priv : Nat} (h : priv < 2 ^ 256) (z : Nat) : Nonce unitHmac priv z 1 := by
  obtain ⟨x, hx, -, -⟩ := toBytes32_spec h
  obtain ⟨b, hb, -, -⟩ := toBytes32_spec (n := z % N)
    ((Nat.mod_lt _ prime_N.pos).trans (by decide))
  exact ⟨x, b, [_], hx, hb, .done rfl⟩

/-- The signature with the nonce one, where its `s` is not zero. -/
theorem signs_unit_of {priv : Nat} {digest : Bytes} (h : priv < 2 ^ 256)
    (hs : ¬ N ∣ fromBytesBig digest + G.1 % N * priv) :
    ∃ sig, Signs unitHmac priv 1 digest sig ∧ Recoverable 1 sig := by
  obtain ⟨p, kinv, hp, -, -, hkinv, hsign⟩ := signWith_ok ⟨le_rfl, by decide⟩ priv digest
  have hG : mul 1 (some G) = .ok (some G) := by decide +kernel
  obtain rfl := Option.some.inj (Except.ok.inj (hG.symm.trans hp))
  refine ⟨_, ⟨nonce_unit h _, hsign⟩, ?_, ?_⟩
  · intro p hp
    obtain rfl := Option.some.inj (Except.ok.inj (hG.symm.trans hp))
    decide
  · -- the inverse of one is one
    have hmod : kinv ≡ 1 [MOD N] := by
      rw [← ZMod.natCast_eq_natCast_iff, Nat.cast_one, ← hkinv, Nat.cast_one, one_mul]
    have hne : kinv * (fromBytesBig digest + G.1 % N * priv) % N ≠ 0 := by
      intro hzero
      have hdvd := ((hmod.mul_right _).dvd_iff dvd_rfl).mp (Nat.dvd_of_mod_eq_zero hzero)
      rw [one_mul] at hdvd
      exact hs hdvd
    have hlt := Nat.mod_lt (kinv * (fromBytesBig digest + G.1 % N * priv)) prime_N.pos
    unfold lowS
    split
    next => exact Nat.sub_ne_zero_of_lt hlt
    next => exact hne

/-- Of every digest, the key one or the key two makes a signature that can be recovered. -/
theorem signs_unit (digest : Bytes) : ∃ priv sig, ¬ N ∣ priv ∧
    Signs unitHmac priv 1 digest sig ∧ Recoverable 1 sig := by
  by_cases hone : N ∣ fromBytesBig digest + G.1 % N * 1
  · have htwo : ¬ N ∣ fromBytesBig digest + G.1 % N * 2 := by
      intro htwo
      have hdvd : N ∣ G.1 % N := by
        have hsub := Nat.dvd_sub htwo hone
        rwa [show fromBytesBig digest + G.1 % N * 2 - (fromBytesBig digest + G.1 % N * 1) =
          G.1 % N by omega] at hsub
      exact absurd hdvd (by decide)
    obtain ⟨sig, hsig, hgood⟩ := signs_unit_of (by decide) htwo
    exact ⟨2, sig, by decide, hsig, hgood⟩
  · obtain ⟨sig, hsig, hgood⟩ := signs_unit_of (by decide) hone
    exact ⟨1, sig, by decide, hsig, hgood⟩

end Preaction.ReceiptCheck
