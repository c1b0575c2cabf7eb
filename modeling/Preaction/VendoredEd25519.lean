import Preaction.Ed25519Agreement

/-!
# The vendored Ed25519 verifier

`check_composed_envelope.py` and `check_sequence_integrity.py` carry one text of a verifier, which
tests the bare equation and not the key. So `ed25519_ref.verify` is this verifier behind `key_ok`
(`refVerify_eq_vendored`).

A key that is not tested can be of small order. Under the neutral point anyone signs, and a
signature is good for every message (`neutral_key_signs_all`). Under a key that `key_ok` accepts a
signature is good for another message only where the two have one challenge (`verify_other_iff`).

Mirroring notes:
- `_edwards_add` and `_scalarmult` are `_add` and `_mul` of the other files.
-/

namespace Preaction.VendoredEd25519

open Preaction.Py Preaction.Edwards

variable (R : Runtime)

/-- `_recover_x(y, sign)` -/
def recoverX (y sign : Nat) : Option Nat :=
  if P ≤ y then none
  else
    let x2 := (y * y + negP 1) * powP (D * y * y + 1) (P - 2) % P
    if x2 = 0 then
      if sign ≠ 0 then none else some 0
    else
      let x := powP x2 ((P + 3) / 8)
      let x := if (x * x + negP x2) % P ≠ 0 then x * sqrtM1 % P else x
      if (x * x + negP x2) % P ≠ 0 then none
      else some (if x % 2 ≠ sign then P - x else x)

/-- `_By` -/
def By : Nat := 4 * powP 5 (P - 2) % P

/-- `_Bx` -/
def Bx : Nat := (recoverX By 0).getD 0

/-- `_B` -/
def B : Point := ⟨Bx, By, 1, Bx * By % P⟩

/-- `_point_equal(P, Q)` -/
def pointEqual (A C : Point) : Bool :=
  (A.X * C.Z + negP (C.X * A.Z)) % P == 0 && (A.Y * C.Z + negP (C.Y * A.Z)) % P == 0

/-- `_decompress(s)` -/
def decompress (s : Bytes) : Option Point :=
  if s.length ≠ 32 then none
  else
    let n := fromBytesLittle s
    let sign := n / 2 ^ 255
    let y := n % 2 ^ 255
    (recoverX y sign).map fun x => ⟨x, y, 1, x * y % P⟩

/-- `ed25519_verify(public_key, msg, signature)` -/
def ed25519Verify (publicKey msg signature : Bytes) : Bool :=
  if publicKey.length ≠ 32 || signature.length ≠ 64 then false
  else
    let Rs := signature.take 32
    match decompress publicKey, decompress Rs with
    | some A, some C =>
      let s := fromBytesLittle (signature.drop 32)
      if L ≤ s then false
      else
        let h := fromBytesLittle (R.sha512 (Rs ++ publicKey ++ msg)) % L
        pointEqual (mul s B) (add C (mul h A))
    | _, _ => false

/-! ## The equation -/

variable {R}

/-- The decoder is the one of `nenrin_cleanroom.py`. -/
theorem decompress_eq (b : Bytes) : decompress b = Nenrin.decode b := by
  unfold decompress Nenrin.decode
  by_cases hlen : b.length = 32
  · rw [if_neg (not_not.mpr hlen), if_neg (not_not.mpr hlen)]
    extract_lets n sign y x2 x x' z
    have hsign : sign < 2 := sign_lt hlen
    show (recoverX y sign).map _ = _
    unfold recoverX
    by_cases hy : P ≤ y
    · rw [if_pos hy, if_pos hy]
      rfl
    · rw [if_neg hy, if_neg hy]
      show Option.map _ (if x2 = 0 then _ else _) = _
      by_cases h0 : x2 = 0
      · rw [if_pos h0, if_pos h0]
        by_cases hone : sign = 1
        · rw [if_pos hone, if_pos (by omega)]
          rfl
        · rw [if_neg hone, if_neg (by omega), Option.map_some, zero_mul]
          rfl
      · rw [if_neg h0, if_neg h0]
        show Option.map _ (if (x' * x' + negP x2) % P ≠ 0 then _ else _) = _
        by_cases hroot : (x' * x' + negP x2) % P = 0
        · rw [if_neg (not_not.mpr hroot), if_neg (not_not.mpr hroot)]
          rfl
        · rw [if_pos hroot, if_pos hroot]
          rfl
  · rw [if_pos hlen, if_pos hlen]

theorem represents_B : Represents B base := by
  have hlt : By < P := Nat.mod_lt _ prime_P.pos
  have hbytes : fromBytesLittle basePointBytes = By :=
    fromBytesLittle_toBytesLittle (hlt.trans (by decide))
  have hP : P < 2 ^ 255 := by decide
  have hdecode := (decompress_eq basePointBytes).trans constants.2.2.1
  have hlen : basePointBytes.length = 32 := rfl
  unfold decompress at hdecode
  rw [if_neg (not_not.mpr hlen), hbytes] at hdecode
  dsimp only at hdecode
  rw [Nat.mod_eq_of_lt (hlt.trans hP), Nat.div_eq_of_lt (hlt.trans hP),
    Option.map_eq_some_iff] at hdecode
  obtain ⟨x, hx, hbase⟩ := hdecode
  have hB : B = basePoint := by
    rw [← hbase, B, Bx, hx]
    rfl
  rw [hB]
  exact represents_base

theorem verify_iff {key msg sig : Bytes} :
    ed25519Verify R key msg sig = true ↔ ∃ A Q s, Equation R key msg sig A Q s := by
  have heq {A Q : Curve} {s k : Nat} (hs : s < L) (hk : k < L) :
      pointEqual (mul s B) (add (affine Q) (mul k (affine A))) = true ↔
        s • base = Q + k • A :=
    equal_iff (represents_B.mul (lt_of_lt_L hs)) ((represents_affine_coordinates Q).add
      ((represents_affine_coordinates A).mul (lt_of_lt_L hk)))
  constructor
  · intro h
    unfold ed25519Verify at h
    split at h
    next => cases h
    next hlen =>
      rw [Bool.or_eq_true, not_or, decide_eq_true_eq, decide_eq_true_eq, not_not, not_not] at hlen
      dsimp only at h
      rw [decompress_eq, decompress_eq] at h
      split at h
      next A' Q' hA' hQ' =>
        obtain ⟨A, rfl, rfl⟩ := decode_iff.mp hA'
        obtain ⟨Q, hr, rfl⟩ := decode_iff.mp hQ'
        split at h
        next => cases h
        next hs =>
          have hlt := Nat.not_le.mp hs
          refine ⟨A, Q, _, rfl, sig_halves hlen.2 hr, hlt, ?_⟩
          rw [(heq hlt (Nat.mod_lt _ prime_L.pos)).mp h, challenge, ← hr]
      next => cases h
  · intro h
    obtain ⟨A, Q, s, h⟩ := h
    obtain ⟨hlen, hr, hs⟩ := h.halves
    have hkey : key.length = 32 := by
      rw [h.keyBytes]
      exact length_bytesOf A
    unfold ed25519Verify
    rw [if_neg (by rw [hkey, hlen]; decide)]
    dsimp only
    rw [hr, decompress_eq, decompress_eq, decode_bytesOf]
    rw [h.keyBytes, decode_bytesOf]
    dsimp only
    rw [hs, if_neg (Nat.not_le.mpr h.lt)]
    refine (heq h.lt (Nat.mod_lt _ prime_L.pos)).mpr ?_
    rw [h.equation, challenge, h.keyBytes]

/-- **The other verifier is this one behind `key_ok`.** -/
theorem refVerify_eq_vendored (R : Runtime) (key msg sig : Bytes) :
    Ed25519Ref.verify R key msg sig =
      (Ed25519Ref.keyOk key && ed25519Verify R key msg sig) := by
  rw [Bool.eq_iff_iff, Bool.and_eq_true, refVerify_iff, verify_iff, keyOk_iff]
  constructor
  · intro h
    obtain ⟨A, Q, s, h⟩ := h
    exact ⟨⟨A, h.keyBytes, h.ne, h.order⟩, A, Q, s, h.toEquation⟩
  · intro h
    obtain ⟨⟨A', hkey, hne, horder⟩, A, Q, s, h⟩ := h
    obtain rfl := bytesOf_injective (hkey.symm.trans h.keyBytes)
    exact ⟨A', Q, s, h, hne, horder⟩

/-! ## Keys that are not tested -/

/-- **Under the neutral point anyone signs**: for every scalar there is one signature, and it is
good for every message. `ed25519_ref.py` accepts none. -/
theorem neutral_key_signs_all (R : Runtime) (msg sig : Bytes) :
    (ed25519Verify R (1 :: List.replicate 31 0) msg sig = true ↔
      ∃ s < L, sig = encode (mul s B) ++ toBytesLittle 32 s) ∧
    Ed25519Ref.verify R (1 :: List.replicate 31 0) msg sig = false := by
  have hencode {s : Nat} (hs : s < L) : encode (mul s B) = bytesOf (s • base) :=
    (represents_B.mul (lt_of_lt_L hs)).encode
  refine ⟨?_, ?_⟩
  · rw [verify_iff, ← bytesOf_zero]
    constructor
    · intro h
      obtain ⟨A, Q, s, h⟩ := h
      obtain rfl := bytesOf_injective h.keyBytes
      have hQ := h.equation
      rw [nsmul_zero, add_zero] at hQ
      refine ⟨s, h.lt, ?_⟩
      rw [hencode h.lt, hQ]
      exact h.sigBytes
    · intro h
      obtain ⟨s, hs, rfl⟩ := h
      refine ⟨0, s • base, s, rfl, ?_, hs, ?_⟩
      · rw [hencode hs]
      · rw [nsmul_zero, add_zero]
  · rw [← Bool.not_eq_true, refVerify_iff, ← bytesOf_zero]
    intro h
    obtain ⟨A, Q, s, h⟩ := h
    exact h.ne (bytesOf_injective h.keyBytes).symm

/-- The equation of another message. -/
theorem other_iff {key msg msg' sig : Bytes} {A Q : Curve} {s : Nat}
    (h : Equation R key msg sig A Q s) : ed25519Verify R key msg' sig = true ↔
      challenge R key msg (bytesOf Q) • A = challenge R key msg' (bytesOf Q) • A := by
  rw [verify_iff]
  constructor
  · intro h'
    obtain ⟨A', Q', s', h'⟩ := h'
    obtain rfl := bytesOf_injective (h.keyBytes.symm.trans h'.keyBytes)
    obtain rfl := bytesOf_injective (h.halves.2.1.symm.trans h'.halves.2.1)
    obtain rfl := h.halves.2.2.symm.trans h'.halves.2.2
    exact add_left_cancel (h.equation.symm.trans h'.equation)
  · intro heq
    refine ⟨A, Q, s, h.keyBytes, h.sigBytes, h.lt, ?_⟩
    rw [h.equation, heq]

/-- Another message, by the point that the decoder finds. -/
theorem verify_other_point {key msg sig : Bytes} (h : ed25519Verify R key msg sig = true)
    (msg' : Bytes) : ed25519Verify R key msg' sig = true ↔ ∃ A, decompress key = some A ∧
      pointEqual (mul (challenge R key msg (sig.take 32)) A)
        (mul (challenge R key msg' (sig.take 32)) A) = true := by
  obtain ⟨A, Q, s, h⟩ := verify_iff.mp h
  have hlt (m : Bytes) : challenge R key m (bytesOf Q) < L := challenge_lt key m (bytesOf Q)
  have hmul (m : Bytes) := (represents_affine_coordinates A).mul (lt_of_lt_L (hlt m))
  rw [other_iff h, h.halves.2.1, h.keyBytes, decompress_eq, decode_bytesOf, ← h.keyBytes]
  constructor
  · intro heq
    exact ⟨affine A, rfl, (equal_iff (hmul msg) (hmul msg')).mpr heq⟩
  · intro heq
    obtain ⟨A', hA, heq⟩ := heq
    obtain rfl := Option.some.inj hA
    exact (equal_iff (hmul msg) (hmul msg')).mp heq

/-- Another message under a tested key: the multiples of its point are as many as the challenges. -/
theorem verify_other_key {key msg sig : Bytes} (h : ed25519Verify R key msg sig = true)
    (hkey : Ed25519Ref.keyOk key = true) (msg' : Bytes) : ed25519Verify R key msg' sig = true ↔
      challenge R key msg (sig.take 32) = challenge R key msg' (sig.take 32) := by
  obtain ⟨A, Q, s, h⟩ := verify_iff.mp h
  have hlt (m : Bytes) : challenge R key m (bytesOf Q) < L := challenge_lt key m (bytesOf Q)
  rw [other_iff h, h.halves.2.1]
  obtain ⟨A', hA, hne, horder⟩ := keyOk_iff.mp hkey
  obtain rfl := bytesOf_injective (hA.symm.trans h.keyBytes)
  constructor
  · intro heq
    have hprime : Fact L.Prime := ⟨prime_L⟩
    have hmod := nsmul_eq_nsmul_iff_modEq.mp heq
    rw [addOrderOf_eq_prime horder hne] at hmod
    exact hmod.eq_of_lt_of_lt (hlt msg) (hlt msg')
  · intro heq
    rw [heq]

/-- **A signature is good for another message** where the challenges take the point of the key to
the same point, and under a tested key where they are the same. -/
theorem verify_other_iff {key msg sig : Bytes} (h : ed25519Verify R key msg sig = true)
    (msg' : Bytes) :
    (ed25519Verify R key msg' sig = true ↔ ∃ A, decompress key = some A ∧
      pointEqual (mul (challenge R key msg (sig.take 32)) A)
        (mul (challenge R key msg' (sig.take 32)) A) = true) ∧
    (Ed25519Ref.keyOk key = true → (ed25519Verify R key msg' sig = true ↔
      challenge R key msg (sig.take 32) = challenge R key msg' (sig.take 32))) :=
  ⟨verify_other_point h msg', fun hkey => verify_other_key h hkey msg'⟩

/-- A key of zeros, with a constant hash: the signature is good for other messages. -/
theorem verify_other_zeros : ∃ key sig, ∀ msg',
    (ed25519Verify Ed25519Ref.constantRuntime key msg' sig = true ↔
      ∃ A, decompress key = some A ∧
        pointEqual (mul (challenge Ed25519Ref.constantRuntime key [] (sig.take 32)) A)
          (mul (challenge Ed25519Ref.constantRuntime key msg' (sig.take 32)) A) = true) ∧
    (Ed25519Ref.keyOk key = true →
      (ed25519Verify Ed25519Ref.constantRuntime key msg' sig = true ↔
        challenge Ed25519Ref.constantRuntime key [] (sig.take 32) =
          challenge Ed25519Ref.constantRuntime key msg' (sig.take 32))) := by
  obtain ⟨key, hkey⟩ : ∃ key, Ed25519Ref.publicKey Ed25519Ref.constantRuntime
    (List.replicate 32 0) = .ok key := ⟨_, rfl⟩
  obtain ⟨sig, hsig⟩ : ∃ sig, Ed25519Ref.sign Ed25519Ref.constantRuntime
    (List.replicate 32 0) [] = .ok sig := ⟨_, rfl⟩
  obtain ⟨_, _, _, _, _, h⟩ := sign_spec hkey hsig
  exact ⟨key, sig, verify_other_iff (verify_iff.mpr ⟨_, _, _, h.toEquation⟩)⟩

end Preaction.VendoredEd25519
