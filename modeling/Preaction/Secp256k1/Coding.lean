import Preaction.ReceiptCheck.Recover

/-!
# Numbers as 32 bytes

A coordinate and each half of a signature is `n.to_bytes(32, "big")`, and is read back with
`int.from_bytes(b, "big")`.
-/

namespace Preaction.Secp256k1

open Preaction.Py Preaction.Edwards Preaction.ReceiptCheck

theorem fromBytesBig_reverse (b : Bytes) : fromBytesBig b.reverse = fromBytesLittle b := by
  rw [fromBytesBig, List.foldl_reverse]
  induction b with
  | nil => rfl
  | cons x b ih =>
    rw [List.foldr_cons, ih]
    show 256 * fromBytesLittle b + x.toNat = x.toNat + 256 * fromBytesLittle b
    exact Nat.add_comm _ _

theorem fromBytesBig_eq (b : Bytes) : fromBytesBig b = fromBytesLittle b.reverse := by
  rw [← fromBytesBig_reverse, List.reverse_reverse]

theorem fromBytesBig_lt (b : Bytes) : fromBytesBig b < 256 ^ b.length := by
  have h := fromBytesLittle_lt b.reverse
  rwa [← fromBytesBig_eq, List.length_reverse] at h

theorem length_toBytesLittle (len n : Nat) : (toBytesLittle len n).length = len := by
  induction len generalizing n with
  | zero => rfl
  | succ len ih => rw [toBytesLittle, List.length_cons, ih]

/-- The bytes of a number that has 32 of them, and how they are read. -/
theorem toBytes32_spec {n : Nat} (h : n < 2 ^ 256) :
    ∃ b, toBytes32 n = .ok b ∧ b.length = 32 ∧ fromBytesBig b = n := by
  refine ⟨(toBytesLittle 32 n).reverse, ?_, ?_, ?_⟩
  · exact if_pos ⟨Int.natCast_nonneg n, by exact_mod_cast h⟩
  · rw [List.length_reverse, length_toBytesLittle]
  · rw [fromBytesBig_reverse, fromBytesLittle_toBytesLittle (by omega)]

theorem toBytes32_inv {n : Nat} {b : Bytes} (h : toBytes32 n = .ok b) :
    n < 2 ^ 256 ∧ b.length = 32 ∧ fromBytesBig b = n := by
  unfold toBytes32 at h
  split at h
  next hn =>
    have hlt : n < 2 ^ 256 := by exact_mod_cast hn.2
    obtain ⟨b', hb', hspec⟩ := toBytes32_spec hlt
    unfold toBytes32 at hb'
    rw [if_pos hn, h] at hb'
    obtain rfl := Except.ok.inj hb'
    exact ⟨hlt, hspec⟩
  next => cases h

/-- `p[i]` needs a point that is not `None`. -/
def finite : Option Pt → Except PyError Pt
  | none => .error .typeError
  | some p => .ok p

/-- Two numbers as 64 bytes. -/
theorem halves {a b : Bytes} (ha : a.length = 32) :
    (a ++ b).take 32 = a ∧ (a ++ b).drop 32 = b := by
  exact ⟨List.take_left' ha, List.drop_left' ha⟩

end Preaction.Secp256k1
