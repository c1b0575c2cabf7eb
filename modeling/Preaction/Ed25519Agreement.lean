import Preaction.EdwardsDecoding

/-!
# The three Ed25519 verifiers

`ed25519_ref.py`, `nenrin_cleanroom.py` and `tools/_ed25519.py` check one equation on points of the
curve (`Valid`). The first two accept the same signatures. The third also refuses the neutral point
for `R` (`ed25519_verify_agree`). All of them take a key for good where it is a point of order `L`, and none
accepts a signature twice, with another `s` (`one_scalar`).

`sign` makes signatures that are valid, whatever the hash is (`ed25519_sign_verifies`): the secret
scalar is a multiple of eight with its top bit set, which `L` does not divide.
-/

namespace Preaction.Edwards

open Preaction.Py EdwardsCurve

variable (R : Runtime)

/-- The challenge. -/
def challenge (key msg r : Bytes) : Nat := fromBytesLittle (R.sha512 (r ++ key ++ msg)) % L

/-- The equation that is checked, of two points and a scalar. -/
structure Equation (key msg sig : Bytes) (A Q : Curve) (s : Nat) : Prop where
  keyBytes : key = bytesOf A
  sigBytes : sig = bytesOf Q ++ toBytesLittle 32 s
  lt : s < L
  equation : s • base = Q + challenge R key msg (bytesOf Q) • A

/-- What an Ed25519 signature is: the point of the key is of order `L`. -/
structure Valid (key msg sig : Bytes) (A Q : Curve) (s : Nat) : Prop extends
    Equation R key msg sig A Q s where
  ne : A ≠ 0
  order : L • A = 0

variable {R}

/-! ## Points -/

/-- The neutral point, and another one whose abscissa is zero. -/
theorem not_signedMinusOne (p : Curve) : ¬ Ed25519Ref.SignedMinusOne (bytesOf p) := by
  intro h
  obtain ⟨hy, hsign⟩ := h
  obtain ⟨hyy, hparity⟩ := parts_bytesOf p
  have hval : p.y.val = P - 1 := hyy.symm.trans hy
  have hminus : p.y = -1 := by
    rw [← ZMod.natCast_zmod_val p.y, hval, Nat.cast_sub prime_P.one_le, ZMod.natCast_self,
      Nat.cast_one, zero_sub]
  have hcurve := onCurve_iff.mp p.on
  have hne := ordinate_ne_zero (d := (D : Field25519)) p.y
  rw [hminus] at hcurve hne
  have hx : p.x = 0 := by
    have hsq : p.x ^ 2 * ((D : Field25519) * (-1) ^ 2 + 1) = 0 := by
      rw [hcurve]
      ring
    exact pow_eq_zero_iff two_ne_zero |>.mp ((mul_eq_zero.mp hsq).resolve_right hne)
  rw [hx, ZMod.val_zero] at hparity
  omega

theorem decompress_bytesOf (p : Curve) : Ed25519Ref.decompress (bytesOf p) = some (affine p) := by
  rw [decompress_eq (length_bytesOf p), if_neg (not_signedMinusOne p), decode_bytesOf]

/-- The point that `_decompress` accepts in a form that is not canonical. -/
def minusOne : Curve where
  x := 0
  y := -1
  on := by
    generalize (D : Field25519) = d
    rw [OnCurve]
    ring

theorem represents_minusOne : Represents ⟨P, P - 1, 1, 0⟩ minusOne := by
  refine represents_affine (ZMod.natCast_self P) ?_ ?_
  · rw [Nat.cast_sub prime_P.one_le, ZMod.natCast_self, Nat.cast_one, zero_sub]
    rfl
  · rw [Nat.cast_zero]
    exact (zero_mul _).symm

theorem two_nsmul_minusOne : 2 • minusOne = 0 := by
  have hx : minusOne.x = 0 := rfl
  have hy : minusOne.y = -1 := rfl
  rw [two_nsmul]
  ext
  · rw [add_x, hx, zero_x]
    ring
  · rw [add_y, hx, hy, zero_y]
    ring

/-- It is of order two, and `L` is odd. -/
theorem nsmul_minusOne : L • minusOne ≠ 0 := by
  intro h
  have hodd : L = 2 * (L / 2) + 1 := by decide
  rw [hodd, add_nsmul, mul_nsmul, two_nsmul_minusOne, nsmul_zero, zero_add, one_nsmul] at h
  have hy : (-1 : Field25519) = 1 := congrArg EdwardsCurve.Point.y h
  have htwo : ((2 : Nat) : Field25519) = 0 := by
    push_cast
    linear_combination -hy
  rw [ZMod.natCast_eq_zero_iff] at htwo
  exact absurd htwo (by decide)

/-- What `_decompress` accepts is the encoding of a point, or not of order `L`. -/
theorem decompress_represents {b : Bytes} {A : Point} (h : Ed25519Ref.decompress b = some A) :
    ∃ p, Represents A p ∧ (b = bytesOf p ∨ L • p ≠ 0) := by
  obtain ⟨-, hlen, -, -, -⟩ := Ed25519Ref.decompress_some h
  rw [decompress_eq hlen] at h
  split at h
  next =>
    obtain rfl := Option.some.inj h
    exact ⟨minusOne, represents_minusOne, Or.inr nsmul_minusOne⟩
  next =>
    obtain ⟨p, hb, rfl⟩ := decode_iff.mp h
    exact ⟨p, represents_affine_coordinates p, Or.inl hb⟩

/-- `_equal` compares points. -/
theorem equal_iff {A B : Point} {p q : Curve} (hA : Represents A p) (hB : Represents B q) :
    Ed25519Ref.equal A B = true ↔ p = q := by
  rw [← hA.eq_iff hB, Ed25519Ref.equal, Bool.and_eq_true, beq_iff_eq, beq_iff_eq, add_negP_mod,
    add_negP_mod]

theorem isIdent_iff {A : Point} {p : Curve} (hA : Represents A p) :
    Nenrin.isIdent A = true ↔ p = 0 := by
  rw [← equal_iff hA represents_ident, Nenrin.isIdent, Ed25519Ref.equal, Bool.and_eq_true,
    Bool.and_eq_true, beq_iff_eq, beq_iff_eq, beq_iff_eq, beq_iff_eq, add_negP_mod, add_negP_mod,
    add_negP_mod]
  simp [ident]

/-- Coordinates that stand for a point. -/
def OnCurve25519 (A : Point) : Prop := ∃ p : Curve, Represents A p

/-- `L` is odd, so it ends no point of order eight but the neutral one. -/
theorem eight_nsmul_iff {p : Curve} (h : L • p = 0) : 8 • p = 0 ↔ p = 0 := by
  constructor
  · intro h8
    have hgcd := (Nat.dvd_gcd (addOrderOf_dvd_of_nsmul_eq_zero h8)
      (addOrderOf_dvd_of_nsmul_eq_zero h))
    have hlarge : ¬ L ∣ 8 := by decide
    have hcop : Nat.gcd 8 L = 1 := (prime_L.coprime_iff_not_dvd.mpr hlarge).symm
    rw [hcop, Nat.dvd_one] at hgcd
    exact AddMonoid.addOrderOf_eq_one_iff.mp hgcd
  · intro h0
    rw [h0, nsmul_zero]

/-- `key_ok` -/
theorem keyOk_iff {key : Bytes} :
    Ed25519Ref.keyOk key = true ↔ ∃ A : Curve, key = bytesOf A ∧ A ≠ 0 ∧ L • A = 0 := by
  have hmul {A : Point} {p : Curve} (hA : Represents A p) :
      (!Ed25519Ref.equal A ident && Ed25519Ref.equal (mul L A) ident) = true ↔
        p ≠ 0 ∧ L • p = 0 := by
    rw [Bool.and_eq_true, Bool.not_eq_true', ← Bool.not_eq_true, equal_iff hA represents_ident,
      equal_iff (hA.mul (by decide)) represents_ident]
  unfold Ed25519Ref.keyOk
  constructor
  · intro h
    split at h
    next => cases h
    next =>
      split at h
      next A hA =>
        obtain ⟨p, hp, hb⟩ := decompress_represents hA
        obtain ⟨hne, hL⟩ := (hmul hp).mp h
        exact ⟨p, hb.resolve_right (not_not.mpr hL), hne, hL⟩
      next => cases h
  · intro h
    obtain ⟨p, rfl, hne, hL⟩ := h
    have hy : ¬ (P ≤ Ed25519Ref.encodedY (bytesOf p)) := by
      unfold Ed25519Ref.encodedY
      rw [(parts_bytesOf p).1, not_le]
      exact val_y_lt p
    rw [if_neg (by simp [length_bytesOf, hy]), decompress_bytesOf]
    exact (hmul (represents_affine_coordinates p)).mpr ⟨hne, hL⟩

/-- `resolve_key` -/
theorem resolveKey_iff {raw : Bytes} {A : Point} : Nenrin.resolveKey raw = some A ↔
    ∃ p : Curve, raw = bytesOf p ∧ A = affine p ∧ p ≠ 0 ∧ L • p = 0 := by
  have hmul (p : Curve) : (Nenrin.isIdent (affine p) || !Nenrin.isIdent (mul L (affine p))) =
      true ↔ ¬ (p ≠ 0 ∧ L • p = 0) := by
    have hp := represents_affine_coordinates p
    rw [Bool.or_eq_true, Bool.not_eq_true', ← Bool.not_eq_true, isIdent_iff hp,
      isIdent_iff (hp.mul (by decide))]
    tauto
  unfold Nenrin.resolveKey
  constructor
  · intro h
    split at h
    next A' hA' =>
      obtain ⟨p, rfl, rfl⟩ := decode_iff.mp hA'
      split at h
      next => cases h
      next hgood =>
        rw [hmul, not_not] at hgood
        exact ⟨p, rfl, (Option.some.inj h).symm, hgood⟩
    next => cases h
  · intro h
    obtain ⟨p, rfl, rfl, hgood⟩ := h
    rw [decode_bytesOf]
    exact if_neg (by rw [hmul, not_not]; exact hgood)

/-! ## The equation -/

theorem represents_G : Represents Ed25519Ref.G base := by
  rw [constants.1]
  exact represents_base

theorem represents_B : Represents Ed25519Tools.B base := by
  rw [constants.2.1]
  exact represents_base

theorem decode_basePointBytes : Nenrin.decode basePointBytes = some basePoint := constants.2.2.1

theorem lt_of_lt_L {s : Nat} (h : s < L) : s < 2 ^ 256 := h.trans (by decide)

theorem challenge_lt (key msg r : Bytes) : challenge R key msg r < L := Nat.mod_lt _ prime_L.pos

/-- The two halves of a signature of 64 bytes. -/
theorem sig_halves {sig : Bytes} (h : sig.length = 64) {r : Bytes} (hr : sig.take 32 = r) :
    sig = r ++ toBytesLittle 32 (fromBytesLittle (sig.drop 32)) := by
  have hlen : (sig.drop 32).length = 32 := by rw [List.length_drop, h]
  rw [toBytesLittle_fromBytesLittle hlen, ← hr, List.take_append_drop]

theorem Equation.halves {key msg sig : Bytes} {A Q : Curve} {s : Nat}
    (h : Equation R key msg sig A Q s) : sig.length = 64 ∧ sig.take 32 = bytesOf Q ∧
      fromBytesLittle (sig.drop 32) = s := by
  have hlt : s < 256 ^ 32 := (lt_of_lt_L h.lt).trans_eq (by decide)
  rw [h.sigBytes]
  refine ⟨rfl, rfl, ?_⟩
  exact fromBytesLittle_toBytesLittle hlt

/-- The point `R` of a signature is of order `L`, since the others are. -/
theorem Valid.order_Q {key msg sig : Bytes} {A Q : Curve} {s : Nat}
    (h : Valid R key msg sig A Q s) : L • Q = 0 := by
  have hQ : Q = s • base - challenge R key msg (bytesOf Q) • A := by
    rw [h.equation, add_sub_cancel_right]
  rw [hQ, nsmul_sub, GroupSignature.nsmul_multiple nsmul_base,
    GroupSignature.nsmul_multiple h.order, sub_zero]

/-- `verify` of `ed25519_ref.py` -/
theorem refVerify_iff {key msg sig : Bytes} : Ed25519Ref.verify R key msg sig = true ↔
    ∃ A Q s, Valid R key msg sig A Q s := by
  constructor
  · intro h
    unfold Ed25519Ref.verify at h
    split at h
    next => cases h
    next hlen =>
      split at h
      next => cases h
      next hgood =>
        rw [Bool.or_eq_true, not_or, decide_eq_true_eq, decide_eq_true_eq, not_not,
          not_not] at hlen
        rw [Bool.or_eq_true, not_or, Bool.not_eq_true', Bool.not_eq_false] at hgood
        obtain ⟨A, rfl, hne, hL⟩ := keyOk_iff.mp hgood.1
        rw [decompress_bytesOf] at h
        split at h
        next A' Q' hA' hQ' =>
          obtain rfl := Option.some.inj hA'
          obtain ⟨Q, hQ, hb⟩ := decompress_represents hQ'
          dsimp only at h
          split at h
          next => cases h
          next hs =>
            have hlt := Nat.not_le.mp hs
            have hA := represents_affine_coordinates A
            rw [equal_iff (represents_G.mul (lt_of_lt_L hlt))
              (hQ.add (hA.mul (lt_of_lt_L (Nat.mod_lt _ prime_L.pos))))] at h
            -- the equation says that the order of `Q` is `L`
            have hLQ : L • Q = 0 := by
              rw [← sub_eq_iff_eq_add] at h
              rw [← h, nsmul_sub, GroupSignature.nsmul_multiple nsmul_base,
                GroupSignature.nsmul_multiple hL, sub_zero]
            have hbytes := hb.resolve_right (not_not.mpr hLQ)
            refine ⟨A, Q, _, ⟨rfl, sig_halves hlen.2 hbytes, hlt, ?_⟩, hne, hL⟩
            rw [h, challenge, ← hbytes]
        next => cases h
  · intro h
    obtain ⟨A, Q, s, h⟩ := h
    obtain ⟨hlen, hr, hs⟩ := h.halves
    have hkey := keyOk_iff.mpr ⟨A, h.keyBytes, h.ne, h.order⟩
    have hy : ¬ (P ≤ Ed25519Ref.encodedY (bytesOf Q)) := by
      unfold Ed25519Ref.encodedY
      rw [(parts_bytesOf Q).1, not_le]
      exact val_y_lt Q
    have hA := represents_affine_coordinates A
    have hQ := represents_affine_coordinates Q
    unfold Ed25519Ref.verify
    rw [if_neg (by rw [h.keyBytes, length_bytesOf, hlen]; decide),
      if_neg (by rw [hkey, hr]; simpa using hy), hr, h.keyBytes, decompress_bytesOf,
      decompress_bytesOf]
    dsimp only
    rw [hs, if_neg (Nat.not_le.mpr h.lt), equal_iff (represents_G.mul (lt_of_lt_L h.lt))
      (hQ.add (hA.mul (lt_of_lt_L (Nat.mod_lt _ prime_L.pos)))), h.equation, challenge,
      h.keyBytes]

/-- The point that `ed25519_verify` encodes. -/
theorem represents_difference {s k : Nat} {A : Curve} (hs : s < L) (hk : k < L) :
    Represents (add (mul s basePoint) ⟨negP (mul k (affine A)).X, (mul k (affine A)).Y,
      (mul k (affine A)).Z, negP (mul k (affine A)).T⟩) (s • base - k • A) := by
  have hA := (represents_affine_coordinates A).mul (lt_of_lt_L hk)
  rw [sub_eq_add_neg]
  refine (represents_base.mul (lt_of_lt_L hs)).add ?_
  have hneg := EdwardsCurve.Represents.neg hA
  rw [← coe_negP, ← coe_negP] at hneg
  exact hneg

/-- `ed25519_verify` of `nenrin_cleanroom.py`, under a key that is resolved. -/
theorem nenrinVerify_iff {key msg sig : Bytes} :
    (∃ A, Nenrin.resolveKey key = some A ∧ Nenrin.ed25519Verify R A key sig msg = true) ↔
      ∃ A Q s, Valid R key msg sig A Q s := by
  constructor
  · intro h
    obtain ⟨A', hkey, h⟩ := h
    obtain ⟨A, rfl, rfl, hne, hL⟩ := resolveKey_iff.mp hkey
    unfold Nenrin.ed25519Verify at h
    rw [decode_basePointBytes] at h
    dsimp only at h
    split at h
    next => cases h
    next hlen =>
      split at h
      next => cases h
      next hs =>
        have hlt := Nat.not_le.mp hs
        rw [(represents_difference hlt (Nat.mod_lt _ prime_L.pos)).encode, beq_iff_eq] at h
        refine ⟨A, _, _, ⟨rfl, sig_halves (not_not.mp hlen) h.symm, hlt, ?_⟩, hne, hL⟩
        rw [h, challenge, sub_add_cancel]
  · intro h
    obtain ⟨A, Q, s, h⟩ := h
    obtain ⟨hlen, hr, hs⟩ := h.halves
    refine ⟨affine A, resolveKey_iff.mpr ⟨A, h.keyBytes, rfl, h.ne, h.order⟩, ?_⟩
    unfold Nenrin.ed25519Verify
    rw [decode_basePointBytes]
    dsimp only
    rw [if_neg (not_not.mpr hlen), hs, if_neg (Nat.not_le.mpr h.lt), hr,
      (represents_difference h.lt (Nat.mod_lt _ prime_L.pos)).encode, beq_iff_eq, h.equation,
      challenge, add_sub_cancel_right]

/-- `verify` of `tools/_ed25519.py` -/
theorem toolsVerify_iff {key msg sig : Bytes} : Ed25519Tools.verify R key msg sig = true ↔
    ∃ A Q s, Valid R key msg sig A Q s ∧ Q ≠ 0 := by
  have hsmall (p : Curve) : Ed25519Tools.isSmallOrder (affine p) = true ↔ 8 • p = 0 :=
    equal_iff ((represents_affine_coordinates p).mul (by decide)) represents_ident
  have hfree (p : Curve) : Ed25519Tools.isTorsionFree (affine p) = true ↔ L • p = 0 :=
    equal_iff ((represents_affine_coordinates p).mul (by decide)) represents_ident
  constructor
  · intro h
    unfold Ed25519Tools.verify at h
    split at h
    next => cases h
    next hlen =>
      rw [toolsDecode_eq, toolsDecode_eq] at h
      split at h
      next A' Q' hA' hQ' =>
        obtain ⟨A, rfl, rfl⟩ := decode_iff.mp hA'
        obtain ⟨Q, hr, rfl⟩ := decode_iff.mp hQ'
        split at h
        next => cases h
        next hsm =>
          split at h
          next => cases h
          next hfr =>
            rw [Bool.or_eq_true, not_or, hsmall, hsmall] at hsm
            rw [Bool.or_eq_true, not_or, Bool.not_eq_true', Bool.not_eq_true',
              Bool.not_eq_false, Bool.not_eq_false, hfree, hfree] at hfr
            dsimp only at h
            split at h
            next => cases h
            next hs =>
              have hlt := Nat.not_le.mp hs
              have hA := represents_affine_coordinates A
              have hQ := represents_affine_coordinates Q
              have heq := (equal_iff (represents_B.mul (lt_of_lt_L hlt))
                (hQ.add (hA.mul (lt_of_lt_L (Nat.mod_lt _ prime_L.pos))))).mp h
              rw [eight_nsmul_iff hfr.1, eight_nsmul_iff hfr.2] at hsm
              refine ⟨A, Q, _, ⟨⟨rfl, sig_halves (not_not.mp hlen) hr, hlt, ?_⟩, hsm.1, hfr.1⟩,
                hsm.2⟩
              rw [heq, challenge, ← hr]
      next => cases h
  · intro h
    obtain ⟨A, Q, s, h, hne⟩ := h
    obtain ⟨hlen, hr, hs⟩ := h.halves
    have hLQ := h.order_Q
    have hA := represents_affine_coordinates A
    have hQ := represents_affine_coordinates Q
    unfold Ed25519Tools.verify
    rw [if_neg (not_not.mpr hlen), hr, h.keyBytes, toolsDecode_eq, toolsDecode_eq, decode_bytesOf,
      decode_bytesOf]
    dsimp only
    rw [if_neg (by
        rw [Bool.or_eq_true, hsmall, hsmall, eight_nsmul_iff h.order, eight_nsmul_iff hLQ]
        exact not_or.mpr ⟨h.ne, hne⟩),
      if_neg (by
        rw [(hfree A).mpr h.order, (hfree Q).mpr hLQ]
        decide),
      hs, if_neg (Nat.not_le.mpr h.lt)]
    refine (equal_iff (represents_B.mul (lt_of_lt_L h.lt))
      (hQ.add (hA.mul (lt_of_lt_L (Nat.mod_lt _ prime_L.pos))))).mpr ?_
    rw [h.equation, challenge, h.keyBytes]

/-! ## The verifiers agree -/

theorem bytesOf_zero : bytesOf 0 = 1 :: List.replicate 31 0 := by
  have hx : (0 : Curve).x.val = 0 := ZMod.val_zero
  have hy : (0 : Curve).y.val = 1 := ZMod.val_one P
  unfold bytesOf
  rw [hx, hy]
  rfl

/-- **Three verifiers, one relation.** `nenrin_cleanroom.py` and `ed25519_ref.py` accept the same
signatures, and `tools/_ed25519.py` those of them whose `R` is not the neutral point. -/
theorem ed25519_verify_agree (R : Runtime) (key msg sig : Bytes) :
    ((∃ A, Nenrin.resolveKey key = some A ∧ Nenrin.ed25519Verify R A key sig msg = true) ↔
      Ed25519Ref.verify R key msg sig = true) ∧
    (Ed25519Tools.verify R key msg sig = true ↔ Ed25519Ref.verify R key msg sig = true ∧
      sig.take 32 ≠ 1 :: List.replicate 31 0) := by
  refine ⟨nenrinVerify_iff.trans refVerify_iff.symm, ?_⟩
  rw [toolsVerify_iff, refVerify_iff, ← bytesOf_zero]
  constructor
  · intro h
    obtain ⟨A, Q, s, h, hne⟩ := h
    refine ⟨⟨A, Q, s, h⟩, fun h0 => hne ?_⟩
    exact bytesOf_injective (h.halves.2.1.symm.trans h0)
  · intro h
    obtain ⟨⟨A, Q, s, h⟩, hne⟩ := h
    refine ⟨A, Q, s, h, fun h0 => hne ?_⟩
    rw [h.halves.2.1, h0]

/-! ## Signing -/

/-- The secret scalar: a multiple of eight with its top bit set. `L` does not divide it. -/
theorem expand_spec {secret pre : Bytes} {a : Nat} (h : Ed25519Ref.expand R secret = .ok (a, pre)) :
    a < 2 ^ 255 ∧ ¬ L ∣ a := by
  unfold Ed25519Ref.expand at h
  split at h
  next => cases h
  next =>
    obtain ⟨rfl, -⟩ := Prod.mk.inj (Except.ok.inj h)
    obtain ⟨x, hx⟩ : ∃ x, fromBytesLittle ((R.sha512 secret).take 32) &&& (2 ^ 254 - 8) = x :=
      ⟨_, rfl⟩
    have hlt : x < 2 ^ 254 := by
      rw [← hx]
      exact Nat.and_le_right.trans_lt (by decide)
    have height : x % 2 ^ 3 = 0 := by
      have hmask : (2 ^ 254 - 8) % 2 ^ 3 = 0 := by decide
      rw [← hx, Nat.and_mod_two_pow, hmask, Nat.and_zero]
    have hor : x ||| 2 ^ 254 = 2 ^ 254 + x := by
      rw [Nat.or_comm]
      exact (Nat.two_pow_add_eq_or_of_lt hlt 1).symm
    rw [hx, hor]
    refine ⟨by omega, fun hdvd => ?_⟩
    -- eight is not divisible by `L`, and what remains is too small
    have hsplit : 2 ^ 254 + x = 8 * ((2 ^ 254 + x) / 8) := by omega
    rw [hsplit] at hdvd
    rcases prime_L.dvd_mul.mp hdvd with h8 | hrest
    · exact absurd h8 (by decide)
    · have hle := Nat.le_of_dvd (by omega) hrest
      have hL : 2 ^ 252 ≤ L := by decide
      omega

/-- What `sign` and `public_key` write. -/
theorem sign_spec {secret msg key sig : Bytes} (hkey : Ed25519Ref.publicKey R secret = .ok key)
    (hsign : Ed25519Ref.sign R secret msg = .ok sig) : ∃ a pre r,
      Ed25519Ref.expand R secret = .ok (a, pre) ∧ r = fromBytesLittle (R.sha512 (pre ++ msg)) % L ∧
        Valid R key msg sig (a • base) (r • base)
          ((r + challenge R key msg (bytesOf (r • base)) * a) % L) := by
  obtain ⟨⟨a, pre⟩, hexp, hkey⟩ := Loop.bind_ok.mp hkey
  obtain ⟨⟨a', pre'⟩, hexp', hsign⟩ := Loop.bind_ok.mp hsign
  obtain ⟨rfl, rfl⟩ := Prod.mk.inj (Except.ok.inj (hexp.symm.trans hexp'))
  obtain rfl := Except.ok.inj hkey
  obtain rfl := Except.ok.inj hsign
  obtain ⟨ha, hdvd⟩ := expand_spec hexp
  have hr : fromBytesLittle (R.sha512 (pre ++ msg)) % L < L := Nat.mod_lt _ prime_L.pos
  have hA : encode (mul a Ed25519Ref.G) = bytesOf (a • base) :=
    (represents_G.mul (ha.trans (by decide))).encode
  have hQ := (represents_G.mul (lt_of_lt_L hr)).encode
  refine ⟨a, pre, _, hexp, rfl, ⟨hA, ?_, Nat.mod_lt _ prime_L.pos, ?_⟩, ?_, ?_⟩
  · rw [hQ, hA]
    rfl
  · exact GroupSignature.eddsa nsmul_base (Nat.mod_modEq _ _)
  · intro h0
    exact hdvd (nsmul_base_iff.mp h0)
  · exact GroupSignature.nsmul_multiple nsmul_base a

/-- **What is signed verifies**, whatever the hash is. -/
theorem ed25519_sign_verifies (R : Runtime) : Ed25519Ref.SignVerifies R := by
  intro secret msg key sig hkey hsign
  obtain ⟨a, pre, r, -, -, h⟩ := sign_spec hkey hsign
  exact refVerify_iff.mpr ⟨_, _, _, h⟩

/-- **What is signed is accepted by `tools/_ed25519.py`** unless the nonce is a multiple of `L`: the
signer does not refuse it, and `R` is the neutral point then. -/
theorem toolsVerify_signed_iff {secret msg key sig pre : Bytes} {a : Nat}
    (hexp : Ed25519Ref.expand R secret = .ok (a, pre))
    (hkey : Ed25519Ref.publicKey R secret = .ok key)
    (hsign : Ed25519Ref.sign R secret msg = .ok sig) :
    Ed25519Tools.verify R key msg sig = true ↔
      ¬ L ∣ fromBytesLittle (R.sha512 (pre ++ msg)) := by
  obtain ⟨a', pre', r, hexp', hr, h⟩ := sign_spec hkey hsign
  obtain ⟨rfl, rfl⟩ := Prod.mk.inj (Except.ok.inj (hexp.symm.trans hexp'))
  have hne : r • base ≠ 0 ↔ ¬ L ∣ fromBytesLittle (R.sha512 (pre ++ msg)) := by
    rw [ne_eq, nsmul_base_iff, hr, Nat.dvd_mod_iff dvd_rfl]
  rw [toolsVerify_iff, ← hne]
  constructor
  · intro h'
    obtain ⟨A, Q, s, h', hQ⟩ := h'
    rwa [bytesOf_injective (h.halves.2.1.symm.trans h'.halves.2.1)]
  · intro hne
    exact ⟨_, _, _, h, hne⟩

/-- A secret of zeros, with a constant hash. -/
theorem toolsVerify_signed_zeros : ∃ key sig,
    Ed25519Tools.verify Ed25519Ref.constantRuntime key [] sig = true ↔
      ¬ L ∣ fromBytesLittle (Ed25519Ref.constantRuntime.sha512 (List.replicate 32 1)) := by
  obtain ⟨key, hkey⟩ : ∃ key, Ed25519Ref.publicKey Ed25519Ref.constantRuntime
    (List.replicate 32 0) = .ok key := ⟨_, rfl⟩
  obtain ⟨sig, hsig⟩ : ∃ sig, Ed25519Ref.sign Ed25519Ref.constantRuntime
    (List.replicate 32 0) [] = .ok sig := ⟨_, rfl⟩
  exact ⟨key, sig, toolsVerify_signed_iff rfl hkey hsig⟩

/-- **One `R`, one `s`**: of the signatures of a message with a given first half, one at most
verifies. -/
theorem one_scalar {key msg sig sig' : Bytes} (h : Ed25519Ref.verify R key msg sig = true)
    (h' : Ed25519Ref.verify R key msg sig' = true) (hr : sig.take 32 = sig'.take 32) :
    sig = sig' := by
  obtain ⟨A, Q, s, h⟩ := refVerify_iff.mp h
  obtain ⟨A', Q', s', h'⟩ := refVerify_iff.mp h'
  obtain rfl := bytesOf_injective (h.keyBytes.symm.trans h'.keyBytes)
  rw [h.halves.2.1, h'.halves.2.1] at hr
  obtain rfl := bytesOf_injective hr
  obtain rfl := nsmul_base_injective h.lt h'.lt (h.equation.trans h'.equation.symm)
  exact h.sigBytes.trans h'.sigBytes.symm

theorem one_scalar_zeros : ∃ key sig, Ed25519Ref.verify Ed25519Ref.constantRuntime key [] sig = true ∧
    ∀ sig', Ed25519Ref.verify Ed25519Ref.constantRuntime key [] sig' = true →
      sig.take 32 = sig'.take 32 → sig = sig' := by
  obtain ⟨key, hkey⟩ : ∃ key, Ed25519Ref.publicKey Ed25519Ref.constantRuntime
    (List.replicate 32 0) = .ok key := ⟨_, rfl⟩
  obtain ⟨sig, hsig⟩ : ∃ sig, Ed25519Ref.sign Ed25519Ref.constantRuntime
    (List.replicate 32 0) [] = .ok sig := ⟨_, rfl⟩
  obtain ⟨_, _, _, _, _, h⟩ := sign_spec hkey hsig
  have hverify := refVerify_iff.mpr ⟨_, _, _, h⟩
  exact ⟨key, sig, hverify, fun sig' h' hr => one_scalar hverify h' hr⟩

end Preaction.Edwards
