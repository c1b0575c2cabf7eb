import Mathlib.Data.List.Induction
import Preaction.Secp256k1
import Preaction.VerifyJs

/-!
# `bip340.ts` — the signature check of the federation adapter

`verifyBip340` over BigInts, as the adapter of the federation port has it, and that it
answers as `schnorr_verify` of the Python core does, on byte strings of any
lengths (`schnorrVerify_eq_verifyBip340`).

The two differ in every loop. `mul` walks 256 bits from the top, doubling before
each, where `_point_mul` walks the bits there are from the bottom: both give the
multiple (`mul_eq_nsmul`, `pointMul_eq_nsmul`). The equation is `s·G + e·(-P)`
here and `s·G + (N - e)·P` there: equal because `N·P` is the point at infinity.
The challenge hashes `r` and the key written back from numbers, which are the
bytes they were read from (`toBytes_toInt`).

Mirroring notes:
- A BigInt is an `Int`; `%` truncates (`tmod`), `>>` and `&` are on non-negative
  values.
- `null` is the point at infinity.
- `Buffer` is a list of bytes; `h.update` of several parts hashes them joined.
-/

namespace Preaction.Bip340Ts

open Preaction.Py
open Preaction.VerifyJs (bufferFromHex bufferFromHex_hexStr)
open Preaction.Secp256k1

/-- A finite `Pt`. -/
abbrev PtTs := Int × Int

/-- `mod(a, m)` -/
def mod (a m : Int) : Int := (a.tmod m + m).tmod m

/-- The loop of `pow`; `fuel` bounds the bits of `e`. -/
def powAux : Nat → Int → Int → Int → Int → Int
  | 0, _, _, _, r => r
  | fuel + 1, b, e, m, r =>
    if 0 < e then
      powAux fuel ((b * b).tmod m) (e / 2) m (if e % 2 = 1 then (r * b).tmod m else r)
    else r

/-- `pow(b, e, m)` -/
def pow (b e m : Int) : Int := powAux (e.toNat.log2 + 1) (mod b m) e m 1

variable (C : Curve)

/-- `inv(a)` -/
def inv (a : Int) : Int := pow a (C.P - 2) C.P

/-- `add(a, b)` -/
def add : Option PtTs → Option PtTs → Option PtTs
  | none, b => b
  | some a, none => some a
  | some a, some b =>
    if a.1 = b.1 ∧ mod (a.2 + b.2) C.P = 0 then none
    else
      let l :=
        if a.1 = b.1 ∧ a.2 = b.2 then mod (3 * a.1 * a.1 * inv C (2 * a.2)) C.P
        else mod ((b.2 - a.2) * inv C (b.1 - a.1)) C.P
      let x := mod (l * l - a.1 - b.1) C.P
      some (x, mod (l * (a.1 - x) - a.2) C.P)

/-- The loop of `mul`, with `i` bits to go. -/
def mulAux (p : Option PtTs) (k : Int) : Nat → Option PtTs → Option PtTs
  | 0, r => r
  | i + 1, r =>
    let r := add C r r
    mulAux p k i (if k / 2 ^ i % 2 = 1 then add C r p else r)

/-- `mul(p, k)` -/
def mul (p : Option PtTs) (k : Int) : Option PtTs := mulAux C p k 256 none

/-- `BigInt('0x' + s)` of a text of hex digits. -/
def bigIntHex (s : Str) : Int := s.foldl (fun n c => 16 * n + (hexVal c).getD 0) 0

/-- `toInt(b)` -/
def toInt (b : Bytes) : Int := bigIntHex (if hexStr b = [] then lit "0" else hexStr b)

/-- The digits of `x.toString(16)`; `fuel` bounds their number. -/
def hexDigits : Nat → Nat → Str
  | 0, _ => []
  | fuel + 1, n => if n = 0 then [] else hexDigits fuel (n / 16) ++ [hexDigit (n % 16)]

/-- `x.toString(16)` of a non-negative `x`. -/
def toString16 (x : Int) : Str :=
  if x = 0 then lit "0" else hexDigits (x.toNat.log2 + 1) x.toNat

/-- `s.padStart(n, '0')` -/
def padStart (s : Str) (n : Nat) : Str := List.replicate (n - s.length) (ofChar '0') ++ s

/-- `toBytes(x)` -/
def toBytes (x : Int) : Bytes := bufferFromHex (padStart (toString16 x) 64)

/-- `tagged(tag, ...parts)` -/
def tagged (R : Runtime) (tag : Str) (parts : List Bytes) : Bytes :=
  let th := R.sha256 (utf8Bytes tag)
  R.sha256 (th ++ th ++ parts.flatten)

/-- `liftX(x)` -/
def liftX (x : Int) : Option PtTs :=
  if x ≥ C.P then none
  else
    let c := mod (x * x * x + 7) C.P
    let y := pow c ((C.P + 1) / 4) C.P
    if (y * y).tmod C.P ≠ c then none
    else some (x, if y.tmod 2 = 0 then y else C.P - y)

/-- `_G` of the source as a pair of BigInts. -/
def toTs (p : Pt) : PtTs := (p.1, p.2)

/-- `verifyBip340(pubkey, msg, sig)` -/
def verifyBip340 (R : Runtime) (pubkey msg sig : Bytes) : Bool :=
  if pubkey.length ≠ 32 ∨ msg.length ≠ 32 ∨ sig.length ≠ 64 then false
  else match liftX C (toInt pubkey) with
    | none => false
    | some Pk =>
      let r := toInt (sig.take 32)
      let s := toInt ((sig.drop 32).take 32)
      if r ≥ C.P ∨ s ≥ C.N then false
      else
        let e := mod (toInt (tagged R Bip340.challengeTag [toBytes r, toBytes Pk.1, msg])) C.N
        match add C (mul C (some (toTs C.G)) s) (mul C (some (Pk.1, mod (-Pk.2) C.P)) e) with
        | none => false
        | some Q => Q.2.tmod 2 = 0 && Q.1 = r

/-! ## Arithmetic -/

/-- `mod` is the remainder of Python. -/
theorem mod_eq {a m : Int} (hm : 0 < m) : mod a m = a % m := by
  have hlow : 0 ≤ a.tmod m + m := by
    have h := Int.lt_tmod_of_pos a hm
    omega
  have hrest : a.tmod m = a - m * a.tdiv m := Int.tmod_def a m
  unfold mod
  rw [Int.tmod_eq_emod_of_nonneg hlow, Int.add_emod_right, hrest, Int.sub_mul_emod_self_left]

theorem mod_P (a : Int) : mod a C.P = reduce C a := by
  have hP := C.P_pos
  rw [mod_eq (by omega), coe_reduce]

/-- The two loops of `pow` go through the same values. -/
theorem powAux_eq (fuel b e m r : Nat) :
    powAux fuel b e m r = powModAux fuel b e m r := by
  induction fuel generalizing b e r with
  | zero => rfl
  | succ fuel ih =>
    unfold powAux powModAux
    by_cases h0 : e = 0
    · rw [if_pos h0, if_neg (by omega)]
    · rw [if_neg h0, if_pos (by omega), ← Nat.cast_mul, ← Nat.cast_mul,
        ← Int.ofNat_tmod, ← Int.ofNat_tmod]
      by_cases hodd : e % 2 = 1
      · rw [if_pos hodd, if_pos (by omega)]
        exact ih (b * b % m) (e / 2) (r * b % m)
      · rw [if_neg hodd, if_neg (by omega)]
        exact ih (b * b % m) (e / 2) r

theorem pow_eq {b : Int} {e m : Nat} (hm : 1 < m) :
    pow b e m = powMod (b % m).toNat e m := by
  have hb := Int.emod_nonneg b (b := m) (by omega)
  have hlt := Int.emod_lt_of_pos b (b := m) (by omega)
  have hcast : mod b m = ((b % m).toNat : Int) := by rw [mod_eq (by omega)]; omega
  unfold pow powMod
  rw [hcast, Nat.mod_eq_of_lt (a := (b % m).toNat) (by omega), Nat.mod_eq_of_lt hm]
  exact powAux_eq _ _ _ _ 1

theorem inv_eq (a : Int) : inv C a = inverse C a := by
  have hP := C.P_gt
  unfold inv inverse
  rw [show (C.P : Int) - 2 = (C.P - 2 : Nat) by omega, pow_eq (by omega)]
  rfl

/-- `toTs` where the point can be the one at infinity. -/
def toTs? (p : Option Pt) : Option PtTs := p.map toTs

/-- `add` is `_point_add`. -/
theorem add_eq (p q : Option Pt) : add C (toTs? p) (toTs? q) = toTs? (pointAdd C p q) := by
  match p, q with
  | none, _ => rfl
  | some _, none => rfl
  | some (x1, y1), some (x2, y2) =>
    have hzero : mod ((y1 : Int) + y2) C.P = 0 ↔ (y1 + y2) % C.P = 0 := by
      rw [mod_P, ← Nat.cast_add, reduce_natCast]
      omega
    have hsame : ((x1 : Int) = x2 ∧ (y1 : Int) = y2) ↔ (x1 = x2 ∧ y1 = y2) := by omega
    unfold pointAdd
    by_cases hnone : x1 = x2 ∧ (y1 + y2) % C.P = 0
    · simp only [if_pos hnone]
      exact if_pos ⟨congrArg Nat.cast hnone.1, hzero.mpr hnone.2⟩
    · simp only [if_neg hnone]
      refine (if_neg fun h => hnone ⟨Int.ofNat.inj h.1, hzero.mp h.2⟩).trans ?_
      simp only [toTs, mod_P, inv_eq, hsame]
      rfl

/-- `liftX` is `_lift_x`. -/
theorem liftX_eq (x : Nat) : liftX C x = toTs? (Secp256k1.liftX C x) := by
  have hP := C.P_gt
  unfold liftX Secp256k1.liftX
  by_cases hx : C.P ≤ x
  · rw [if_pos hx, if_pos (by omega)]
    rfl
  · rw [if_neg hx, if_neg (by omega)]
    dsimp only
    have hc : mod ((x : Int) * x * x + 7) C.P = ((powMod x 3 C.P + 7) % C.P : Nat) := by
      rw [mod_P, powMod_eq, Nat.mod_add_mod, ← reduce_natCast, pow_three, ← mul_assoc]
      norm_cast
    rw [hc]
    have hlt : (powMod x 3 C.P + 7) % C.P < C.P := Nat.mod_lt _ (by omega)
    generalize (powMod x 3 C.P + 7) % C.P = c at hlt ⊢
    have hy : pow c (((C.P : Int) + 1) / 4) C.P = powMod c ((C.P + 1) / 4) C.P := by
      rw [show ((C.P : Int) + 1) / 4 = ((C.P + 1) / 4 : Nat) by omega, pow_eq (by omega),
        show ((c : Int) % C.P).toNat = c % C.P by omega, Nat.mod_eq_of_lt hlt]
    have hylt : powMod c ((C.P + 1) / 4) C.P < C.P := by
      rw [powMod_eq]
      exact Nat.mod_lt _ (by omega)
    rw [hy]
    generalize powMod c ((C.P + 1) / 4) C.P = y at hylt ⊢
    have hsq : ((y : Int) * y).tmod C.P = (powMod y 2 C.P : Nat) := by
      rw [← Nat.cast_mul, ← Int.ofNat_tmod, powMod_eq, pow_two]
    have hparity : (y : Int).tmod 2 = 0 ↔ y % 2 = 0 := by
      rw [Int.tmod_eq_emod_of_nonneg (by omega)]
      omega
    simp only [hsq, ne_eq, Nat.cast_inj, hparity]
    by_cases hroot : powMod y 2 C.P = c
    · simp only [not_not.mpr hroot, if_false]
      by_cases heven : y % 2 = 0
      · simp only [if_pos heven]
        rfl
      · simp only [if_neg heven, ← Nat.cast_sub hylt.le]
        rfl
    · simp only [hroot, not_false_eq_true, if_true]
      rfl

/-! ## Multiples -/

section Group

variable {C} [IsGroup C]

/-- What the loop of `mul` holds: the multiple by the bits read so far. -/
theorem mulAux_eq (p : Point C) (k : Nat) {i : Nat} {r : Option PtTs}
    (hr : r = toTs? ((k / 2 ^ i) • p).pt) :
    mulAux C (toTs? p.pt) k i r = toTs? (k • p).pt := by
  induction i generalizing r with
  | zero =>
    rw [pow_zero, Nat.div_one] at hr
    exact hr
  | succ i ih =>
    have hhalf : k / 2 ^ (i + 1) = k / 2 ^ i / 2 := by rw [pow_succ, Nat.div_div_eq_div_mul]
    have hbit : (k : Int) / 2 ^ i % 2 = 1 ↔ k / 2 ^ i % 2 = 1 := by
      rw [show (k : Int) / 2 ^ i = (k / 2 ^ i : Nat) by push_cast; rfl]
      omega
    rw [hhalf] at hr
    unfold mulAux
    rw [hr, add_eq, ← pt_add, ← two_nsmul, ← mul_nsmul']
    dsimp only
    refine ih ?_
    generalize k / 2 ^ i = n at hbit ⊢
    by_cases hodd : n % 2 = 1
    · rw [if_pos (hbit.mpr hodd), add_eq, ← pt_add, ← succ_nsmul,
        show 2 * (n / 2) + 1 = n by omega]
    · rw [if_neg (fun h => hodd (hbit.mp h)), show 2 * (n / 2) = n by omega]

/-- `mul` gives the multiple by a number of at most 256 bits. -/
theorem mul_eq_nsmul (p : Point C) {k : Nat} (hk : k < 2 ^ 256) :
    mul C (toTs? p.pt) k = toTs? (k • p).pt := by
  refine mulAux_eq p k ?_
  rw [Nat.div_eq_of_lt hk, zero_nsmul]
  rfl

end Group

/-! ## Bytes of numbers -/

theorem foldl_hexStr (b : Bytes) (n : Nat) :
    (hexStr b).foldl (fun (n : Int) c => 16 * n + ((hexVal c).getD 0 : Nat)) n =
      (b.foldl (fun n x => 256 * n + x.toNat) n : Nat) := by
  induction b generalizing n with
  | nil => rfl
  | cons x xs ih =>
    have hx : x.toNat < 256 := x.toNat_lt
    rw [hexStr, List.foldl_cons, List.foldl_cons, List.foldl_cons,
      hexVal_hexDigit _ (by omega), hexVal_hexDigit _ (by omega), Option.getD_some,
      Option.getD_some, ← ih]
    congr 1
    push_cast
    omega

/-- `toInt` is `int.from_bytes`. -/
theorem toInt_eq (b : Bytes) : toInt b = fromBytesBig b := by
  unfold toInt bigIntHex
  by_cases hb : hexStr b = []
  · obtain rfl : b = [] := hexStr_injective hb
    rfl
  · rw [if_neg hb]
    exact foldl_hexStr b 0

/-- The `w` low hex digits of a number. -/
def hexPad : Nat → Nat → Str
  | 0, _ => []
  | w + 1, n => hexPad w (n / 16) ++ [hexDigit (n % 16)]

theorem hexPad_zero (w : Nat) : hexPad w 0 = List.replicate w (ofChar '0') := by
  induction w with
  | zero => rfl
  | succ w ih =>
    rw [hexPad, Nat.zero_div, ih, List.replicate_succ']
    rfl

/-- Zeros in front of the digits fill them up to the width. -/
theorem padStart_hexDigits {fuel w n : Nat} (hfuel : n < 16 ^ fuel) (hw : n < 16 ^ w) :
    padStart (hexDigits fuel n) w = hexPad w n := by
  unfold padStart
  induction fuel generalizing w n with
  | zero =>
    obtain rfl : n = 0 := by omega
    rw [hexDigits, List.length_nil, List.append_nil, hexPad_zero, Nat.sub_zero]
  | succ fuel ih =>
    unfold hexDigits
    by_cases h0 : n = 0
    · rw [if_pos h0, h0, List.length_nil, List.append_nil, hexPad_zero, Nat.sub_zero]
    · cases w with
      | zero => omega
      | succ w =>
        rw [if_neg h0, List.length_append, List.length_singleton, Nat.add_sub_add_right,
          ← List.append_assoc, ih (by omega) (by omega), hexPad]

theorem padStart_toString16 {n w : Nat} (hpos : 0 < w) (hw : n < 16 ^ w) :
    padStart (toString16 n) w = hexPad w n := by
  unfold toString16
  by_cases h0 : n = 0
  · rw [if_pos (by omega), h0, hexPad_zero]
    obtain ⟨v, rfl⟩ : ∃ v, w = v + 1 := ⟨w - 1, by omega⟩
    exact (List.replicate_succ' ..).symm
  · rw [if_neg (by omega), Int.toNat_natCast]
    refine padStart_hexDigits (Nat.lt_log2_self.trans_le ?_) hw
    exact Nat.pow_le_pow_left (by omega) _

/-- The hex of bytes is that of their number, as wide as they are. -/
theorem hexPad_fromBytesBig (b : Bytes) :
    fromBytesBig b < 16 ^ (2 * b.length) ∧ hexPad (2 * b.length) (fromBytesBig b) = hexStr b := by
  induction b using List.reverseRecOn with
  | nil => exact ⟨by decide, rfl⟩
  | append_singleton b x ih =>
    have hx : x.toNat < 256 := x.toNat_lt
    have hsum : fromBytesBig (b ++ [x]) = 256 * fromBytesBig b + x.toNat := by
      rw [fromBytesBig, List.foldl_append, List.foldl_cons, List.foldl_nil, fromBytesBig]
    rw [hsum, List.length_append, List.length_singleton, Nat.mul_add]
    refine ⟨?_, ?_⟩
    · rw [show 2 * 1 = 1 + 1 by rfl, ← Nat.add_assoc, pow_succ, pow_succ]
      omega
    · show hexPad (2 * b.length) (_ / 16 / 16) ++ [_] ++ [_] = _
      rw [show (256 * fromBytesBig b + x.toNat) / 16 / 16 = fromBytesBig b by omega, ih.2,
        show (256 * fromBytesBig b + x.toNat) / 16 % 16 = x.toNat / 16 by omega,
        show (256 * fromBytesBig b + x.toNat) % 16 = x.toNat % 16 by omega, hexStr_append,
        List.append_assoc]
      rfl

/-- `toBytes` gives back 32 bytes that were read as a number. -/
theorem toBytes_fromBytesBig {b : Bytes} (hb : b.length = 32) : toBytes (fromBytesBig b) = b := by
  obtain ⟨hlt, hpad⟩ := hexPad_fromBytesBig b
  rw [hb] at hlt hpad
  unfold toBytes
  rw [padStart_toString16 (by omega) hlt, hpad, bufferFromHex_hexStr]

/-! ## Agreement -/

section Group

variable {C} [IsGroup C]

/-- `e` times the opposite of a lifted point is `N - e` times the point. -/
theorem mul_pointNeg {x : Nat} {Q : Pt} (hlift : Secp256k1.liftX C x = some Q) {e : Nat}
    (he : e < C.N) :
    mul C (some ((Q.1 : Int), mod (-Q.2) C.P)) e = toTs? (pointMul C Q (C.N - e)) := by
  obtain ⟨-, -, hQ⟩ := liftX_spec hlift
  have hneg : some ((Q.1 : Int), mod (-Q.2) C.P) = toTs? (-(⟨some Q, hQ⟩ : Point C)).pt := by
    rw [mod_P, pt_neg]
    rfl
  have horder : C.N • (⟨some Q, hQ⟩ : Point C) = 0 :=
    Point.ext ((pt_nsmul _ _).trans (IsGroup.order hlift))
  have hN := C.N_lt
  rw [hneg, mul_eq_nsmul _ (by omega), pointMul_eq_nsmul hQ, sub_nsmul _ he.le, horder, zero_add,
    neg_nsmul]

/-- The sum that either check looks at. -/
theorem add_mul_eq {x : Nat} {Q : Pt} (hlift : Secp256k1.liftX C x = some Q) {s e : Nat}
    (hs : s < C.N) (he : e < C.N) :
    add C (mul C (some (toTs C.G)) s) (mul C (some ((Q.1 : Int), mod (-Q.2) C.P)) e) =
      toTs? (pointAdd C (pointMul C C.G s) (pointMul C Q (C.N - e))) := by
  have hG : some (toTs C.G) = toTs? (⟨some C.G, IsGroup.base⟩ : Point C).pt := rfl
  have hN := C.N_lt
  rw [hG, mul_eq_nsmul _ (by omega), mul_pointNeg hlift he, add_eq, ← pointMul_eq_nsmul]

end Group

/-- The challenge of either check. -/
theorem challenge_eq (R : Runtime) {key rBytes msg : Bytes} (hr : rBytes.length = 32)
    (hkey : key.length = 32) :
    mod (toInt (tagged R Bip340.challengeTag
      [toBytes (fromBytesBig rBytes), toBytes (fromBytesBig key), msg])) C.N =
      (fromBytesBig (Bip340.taggedHash R Bip340.challengeTag (rBytes ++ key ++ msg)) % C.N : Nat) := by
  have hN := C.N_pos
  have htag : tagged R Bip340.challengeTag [rBytes, key, msg] =
      Bip340.taggedHash R Bip340.challengeTag (rBytes ++ key ++ msg) := by
    unfold tagged Bip340.taggedHash
    simp only [List.flatten_cons, List.flatten_nil, List.append_nil, List.append_assoc]
  rw [toBytes_fromBytesBig hr, toBytes_fromBytesBig hkey, htag, toInt_eq, mod_eq (by omega)]
  rfl

/-- The two checks answer alike. -/
theorem schnorrVerify_eq_verifyBip340 [IsGroup C] (R : Runtime) (key msg sig : Bytes) :
    schnorrVerify C R msg key sig = verifyBip340 C R key msg sig := by
  unfold schnorrVerify verifyBip340
  by_cases hlen : msg.length ≠ 32 ∨ key.length ≠ 32 ∨ sig.length ≠ 64
  · rw [if_pos hlen, if_pos (by omega)]
  · have hr : (sig.take 32).length = 32 := by
      rw [List.length_take]
      omega
    have hs : (sig.drop 32).take 32 = sig.drop 32 := by
      refine List.take_of_length_le ?_
      rw [List.length_drop]
      omega
    rw [if_neg hlen, if_neg (by omega), toInt_eq, liftX_eq, hs, toInt_eq, toInt_eq]
    cases hlift : Secp256k1.liftX C (fromBytesBig key) with
    | none => rfl
    | some Q =>
      show (if C.P ≤ fromBytesBig (sig.take 32) ∨ C.N ≤ fromBytesBig (sig.drop 32) then false
        else _) = if (fromBytesBig (sig.take 32) : Int) ≥ C.P ∨
          (fromBytesBig (sig.drop 32) : Int) ≥ C.N then false else _
      by_cases hrange : C.P ≤ fromBytesBig (sig.take 32) ∨ C.N ≤ fromBytesBig (sig.drop 32)
      · rw [if_pos hrange, if_pos (by omega)]
      · rw [if_neg hrange, if_neg (by omega)]
        have hx : (Q.1 : Int) = fromBytesBig key := congrArg Nat.cast (liftX_spec hlift).1
        simp only [toTs, hx, challenge_eq C R hr (show key.length = 32 by omega)]
        rw [← hx]
        have hsum := add_mul_eq hlift (s := fromBytesBig (sig.drop 32)) (by omega)
          (Nat.mod_lt (fromBytesBig (Bip340.taggedHash R Bip340.challengeTag
            (sig.take 32 ++ key ++ msg))) C.N_pos)
        simp only [toTs] at hsum
        rw [hsum]
        cases pointAdd C _ _ with
        | none => rfl
        | some S =>
          have hparity : (S.2 : Int).tmod 2 = 0 ↔ S.2 % 2 = 0 := by
            rw [Int.tmod_eq_emod_of_nonneg (by omega)]
            omega
          by_cases heven : S.2 % 2 = 0
          · simp [toTs?, toTs, hparity, heven]
          · simp [toTs?, toTs, hparity, heven]

/-! ## A small curve -/

/-- `y² = x³ + 7` over the field of 43 elements: 31 points. -/
def smallCurve : Curve where
  P := 43
  N := 31
  G := (2, 12)
  P_gt := by decide
  N_pos := by decide
  P_lt := by decide
  N_lt := by decide

/-- The multiples of the base point. -/
def smallPoints : List (Option Pt) := (List.range 31).map fun k => times smallCurve k (some (2, 12))

theorem smallPoints_add : ∀ i < 31, ∀ j < 31,
    pointAdd smallCurve (smallPoints.getD i none) (smallPoints.getD j none) =
      smallPoints.getD ((i + j) % 31) none := by decide +kernel

theorem smallPoints_order : ∀ i < 31, times smallCurve 31 (smallPoints.getD i none) = none := by
  decide +kernel

theorem exists_small {p : Option Pt} (h : OnCurve smallCurve p) :
    ∃ i < 31, smallPoints.getD i none = p := by
  have hall : ∀ x < 43, ∀ y < 43, y * y % 43 = (x * x * x + 7) % 43 →
      ∃ i < 31, smallPoints.getD i none = some (x, y) := by decide +kernel
  match p, h with
  | none, _ => exact ⟨0, by decide, rfl⟩
  | some (x, y), ⟨hx, hy, heq⟩ => exact hall x hx y hy heq

theorem onCurve_small : ∀ i < 31, OnCurve smallCurve (smallPoints.getD i none) := by
  have hall : ∀ i < 31, ((smallPoints.getD i none).elim true fun q =>
      decide (q.1 < 43 ∧ q.2 < 43 ∧ q.2 * q.2 % 43 = (q.1 * q.1 * q.1 + 7) % 43)) = true := by
    decide +kernel
  intro i hi
  have h := hall i hi
  cases hp : smallPoints.getD i none with
  | none => trivial
  | some q =>
    rw [hp] at h
    obtain ⟨hx, hy, heq⟩ := of_decide_eq_true h
    exact ⟨hx, hy, heq⟩

instance : IsGroup smallCurve where
  closed := by
    intro p q hp hq
    obtain ⟨i, hi, rfl⟩ := exists_small hp
    obtain ⟨j, hj, rfl⟩ := exists_small hq
    rw [smallPoints_add i hi j hj]
    exact onCurve_small _ (Nat.mod_lt _ (by omega))
  assoc := by
    intro p q r hp hq hr
    obtain ⟨i, hi, rfl⟩ := exists_small hp
    obtain ⟨j, hj, rfl⟩ := exists_small hq
    obtain ⟨k, hk, rfl⟩ := exists_small hr
    rw [smallPoints_add i hi j hj, smallPoints_add j hj k hk,
      smallPoints_add _ (Nat.mod_lt _ (by omega)) k hk,
      smallPoints_add i hi _ (Nat.mod_lt _ (by omega)), Nat.mod_add_mod, Nat.add_mod_mod,
      Nat.add_assoc]
  base := ⟨by decide, by decide, by decide⟩
  order := by
    intro x Q h
    obtain ⟨i, hi, hQ⟩ := exists_small (liftX_spec h).2.2
    rw [← hQ]
    exact smallPoints_order i hi

/-- 32 bytes with the value `n`. -/
def smallBytes (n : UInt8) : Bytes := List.replicate 31 0 ++ [n]

/-- Over the small curve both accept a signature, and both refuse it with another `s`. -/
theorem smallCurve_agree :
    (schnorrVerify smallCurve Runtime.sample (smallBytes 9) (smallBytes 2)
        (smallBytes 42 ++ smallBytes 3) = true ∧
      verifyBip340 smallCurve Runtime.sample (smallBytes 2) (smallBytes 9)
        (smallBytes 42 ++ smallBytes 3) = true) ∧
    schnorrVerify smallCurve Runtime.sample (smallBytes 9) (smallBytes 2)
        (smallBytes 42 ++ smallBytes 4) = false ∧
      verifyBip340 smallCurve Runtime.sample (smallBytes 2) (smallBytes 9)
        (smallBytes 42 ++ smallBytes 4) = false := by
  have haccept : schnorrVerify smallCurve Runtime.sample (smallBytes 9) (smallBytes 2)
      (smallBytes 42 ++ smallBytes 3) = true := by decide +kernel
  have hrefuse : schnorrVerify smallCurve Runtime.sample (smallBytes 9) (smallBytes 2)
      (smallBytes 42 ++ smallBytes 4) = false := by decide +kernel
  exact ⟨⟨haccept, (schnorrVerify_eq_verifyBip340 smallCurve _ _ _ _).symm.trans haccept⟩,
    hrefuse, (schnorrVerify_eq_verifyBip340 smallCurve _ _ _ _).symm.trans hrefuse⟩

end Preaction.Bip340Ts
