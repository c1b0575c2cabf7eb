import Preaction.Py.Base64Url
import Preaction.Py.JsonAscii
import Preaction.ReceiptCheck.Check
import Preaction.ReceiptCheck.Link
import Preaction.ReceiptCheck.Signer

/-!
# `x402-receipt-authorization-commitment/receipt_check.py` — receipts that are issued

`sign_eip712` and `sign_jws_es256k` issue receipts in the two formats, and `check_receipt` checks
them. What the one side writes the other reads back: 65 bytes of hex, or three parts in base64
without padding (`issued_eip712_valid`, `issued_jws_valid`).

A signature is not the only one for what it signs. With `N - s` for `s`, and with the other
parity where the format carries it, the verdict on a receipt is the same.

Mirroring notes:
- `json.dumps` writes ASCII and `json.loads` reads bytes (`loads`), which is an argument.
-/

namespace Preaction.ReceiptCheck

open Preaction.Py Preaction.Loop Json
open Preaction.Secp256k1 (toBytes32_spec toBytes32_inv halves)

variable (R : Runtime) (hmac : Bytes → Bytes → Bytes)

/-! ## EIP-712 -/

/-- The text that `sign_eip712` makes of a signature. -/
def sigHex (sig : Signature) : Except PyError Str := do
  return lit "0x" ++ hexStr (← toBytes32 sig.r) ++ hexStr (← toBytes32 sig.s) ++
    hexStr [UInt8.ofNat (27 + sig.recId)]

/-- A signature is two scalars and a parity. -/
theorem signWith_range {priv k : Nat} {digest : Bytes} {sig : Signature}
    (h : signWith priv k digest = .ok sig) : sig.r < N ∧ sig.s ≤ N ∧ sig.recId < 2 := by
  unfold signWith at h
  obtain ⟨q, -, h⟩ := bind_ok.mp h
  obtain ⟨p, -, h⟩ := bind_ok.mp h
  obtain ⟨kinv, -, h⟩ := bind_ok.mp h
  obtain rfl := Except.ok.inj h
  have hr : p.1 % N < N := Nat.mod_lt _ prime_N.pos
  unfold lowS
  split
  next =>
    refine ⟨hr, Nat.sub_le _ _, ?_⟩
    show p.2 % 2 ^^^ 1 < 2
    rw [xor_one _ (Nat.mod_lt _ two_pos)]
    omega
  next => exact ⟨hr, (Nat.mod_lt _ prime_N.pos).le, Nat.mod_lt _ two_pos⟩

theorem bytes_ok {priv k : Nat} {digest : Bytes} {sig : Signature}
    (h : signWith priv k digest = .ok sig) :
    ∃ rb sb, toBytes32 sig.r = .ok rb ∧ toBytes32 sig.s = .ok sb := by
  obtain ⟨hr, hs, -⟩ := signWith_range h
  have hN : N < 2 ^ 256 := by decide
  obtain ⟨rb, hrb, -⟩ := toBytes32_spec (hr.trans hN)
  obtain ⟨sb, hsb, -⟩ := toBytes32_spec (hs.trans_lt hN)
  exact ⟨rb, sb, hrb, hsb⟩

/-- Every signature has a text. -/
theorem sigHex_ok {priv k : Nat} {digest : Bytes} {sig : Signature}
    (h : signWith priv k digest = .ok sig) : ∃ t, sigHex sig = .ok t := by
  obtain ⟨rb, sb, hrb, hsb⟩ := bytes_ok h
  rw [sigHex, hrb, ok_bind, hsb, ok_bind]
  exact ⟨_, rfl⟩

/-- The text is read back. -/
theorem sigHex_read {sig : Signature} {t : Str} (hrec : sig.recId < 2) (h : sigHex sig = .ok t) :
    ∃ raw, bytesFromHex (.str (t.drop 2)) = .ok raw ∧ fromBytesBig (raw.take 32) = sig.r ∧
      fromBytesBig ((raw.drop 32).take 32) = sig.s ∧ byteOf raw 64 = .ok (27 + sig.recId) ∧
      (lit "0x").isPrefixOf t = true ∧ t.length = 132 := by
  obtain ⟨rb, hrb, h⟩ := bind_ok.mp h
  obtain ⟨sb, hsb, h⟩ := bind_ok.mp h
  obtain rfl := Except.ok.inj h
  obtain ⟨-, hrlen, hr⟩ := toBytes32_inv hrb
  obtain ⟨-, hslen, hs⟩ := toBytes32_inv hsb
  have htext : lit "0x" ++ hexStr rb ++ hexStr sb ++ hexStr [UInt8.ofNat (27 + sig.recId)] =
      lit "0x" ++ hexStr (rb ++ (sb ++ [UInt8.ofNat (27 + sig.recId)])) := by
    simp only [hexStr_append, List.append_assoc]
  obtain ⟨htake, hdrop⟩ := halves (b := sb ++ [UInt8.ofNat (27 + sig.recId)]) hrlen
  refine ⟨rb ++ (sb ++ [UInt8.ofNat (27 + sig.recId)]), ?_, ?_, ?_, ?_, ?_, ?_⟩
  · rw [htext, List.drop_left' (by rfl), bytesFromHex_str, fromHex_hexStr]
  · rw [htake, hr]
  · rw [hdrop, List.take_left' hslen, hs]
  · have hget : (rb ++ (sb ++ [UInt8.ofNat (27 + sig.recId)]))[64]? =
        some (UInt8.ofNat (27 + sig.recId)) := by
      rw [← List.append_assoc, List.getElem?_append_right (by simp [hrlen, hslen])]
      simp [hrlen, hslen]
    rw [byteOf, hget]
    refine congrArg Except.ok ?_
    rw [UInt8.toNat_ofNat']
    omega
  · rw [htext]
    rfl
  · rw [htext, List.length_append, hexStr_length, List.length_append, List.length_append, hrlen,
      hslen]
    rfl

/-- The EIP-712 path accepts what was signed with the key of an authorized address. -/
theorem verifyEip712_signed {authorized : Authorized} {payload : Json}
    {fields : List (Str × FieldType)} {priv k : Nat} {digest : Bytes} {sig : Signature} {t a : Str}
    (hdigest : eip712Digest R payload fields = .ok digest) (hsign : Signs hmac priv k digest sig)
    (hgood : Recoverable k sig) (hpriv : ¬ N ∣ priv) (ht : sigHex sig = .ok t)
    (ha : addressOfKey priv = .ok a) (hauth : a ∈ (authorized.eip712.getD []).map R.lower) :
    verifyEip712 R authorized payload fields t = .ok (.valid a payload) := by
  obtain ⟨-, -, hrec⟩ := signWith_range hsign.2
  obtain ⟨raw, hraw, hr, hs, hv, -, -⟩ := sigHex_read hrec ht
  obtain ⟨a', ha', hrecover⟩ := recover_signed hmac hsign hpriv hgood
  obtain rfl := Except.ok.inj (ha'.symm.trans ha)
  have hid : (if 27 ≤ 27 + sig.recId then 27 + sig.recId - 27 else 27 + sig.recId) = sig.recId := by
    rw [if_pos (Nat.le_add_right _ _), Nat.add_sub_cancel_left]
  unfold verifyEip712
  rw [hraw, ok_bind]
  dsimp only
  rw [hr, hs, hv, ok_bind, hdigest, ok_bind, hid, hrecover, ok_bind]
  dsimp only
  rw [if_neg (not_not.mpr hauth)]
  rfl

/-- What `check_receipt` does with an EIP-712 receipt of the right shape. -/
theorem checkReceipt_of_opens712 {loads : Bytes → Except PyError Json} {kvs : List (Str × Json)}
    {authorized : Authorized} {payload : Json} {fields : List (Str × FieldType)} {issuedAt : Int}
    {t : Str} (h : Opens712 (.obj kvs) payload fields issuedAt t) :
    checkReceipt R loads (.obj kvs) authorized = verifyEip712 R authorized payload fields t := by
  have hget (key : Str) : Json.get (.obj kvs) key = .ok (find (.obj kvs) key) := rfl
  have hsig : Json.getD (.obj kvs) (lit "signature") (.str []) = .ok (.str t) :=
    getD_of_find h.signature Json.noConfusion _
  have htext : sigText (.str t) = some t := if_pos ⟨h.start, h.length⟩
  unfold checkReceipt
  rw [hget, h.format, ok_bind, if_pos rfl, checkEip712, hget, h.carried, ok_bind, hsig,
    ok_bind, h.dict, get_of_dict h.dict]
  show Except.ok _ >>= _ = _
  rw [ok_bind, h.version]
  dsimp only
  rw [get_of_dict h.dict, ok_bind, h.time, htext]
  rfl

/-- An EIP-712 receipt. -/
def receipt712 (payload : Json) (t : Str) : List (Str × Json) :=
  [(lit "format", text "eip712"), (lit "payload", payload), (lit "signature", .str t)]

/-- The payload of a payment that commits to an authorization. -/
def heldPayload : Json := object
  [("version", .int 2), ("issuedAt", .int 0), ("authorizationMethod", text "eip3009"),
    ("authorizationCommitment", .str (digits "0x" 64 '0')), ("payer", .str (digits "0x" 40 'b')),
    ("transaction", .str [])]

theorem opens_heldPayload {t : Str} (hstart : (lit "0x").isPrefixOf t = true)
    (hlen : t.length = 132) :
    Opens712 (.obj (receipt712 heldPayload t)) heldPayload fieldsV2 0 t where
  format := rfl
  carried := rfl
  dict := rfl
  version := by decide +kernel
  time := by decide +kernel
  signature := rfl
  start := hstart
  length := hlen

theorem address_lower {p : Pt} {a : Str} (h : address p = .ok a) : Runtime.asciiLower a = a := by
  obtain ⟨xb, -, h⟩ := bind_ok.mp h
  obtain ⟨yb, -, h⟩ := bind_ok.mp h
  obtain rfl := Except.ok.inj h
  have hdigit : ∀ n < 16, lowerPoint (hexDigit n) = hexDigit n := by decide +kernel
  have hlit : (lit "0x").map lowerPoint = lit "0x" := by decide
  rw [asciiLower_eq_map, List.map_append, hlit]
  refine congrArg _ ((List.map_congr_left fun c hc => ?_).trans (List.map_id _))
  obtain ⟨n, hn, rfl⟩ := mem_hexStr hc
  exact hdigit n hn

/-- A signature of the payload, by the key one or the key two. -/
theorem heldPayload_signed (R : Runtime) : ∃ digest priv sig t a,
    eip712Digest R heldPayload fieldsV2 = .ok digest ∧ Signs unitHmac priv 1 digest sig ∧
      Recoverable 1 sig ∧ ¬ N ∣ priv ∧ sigHex sig = .ok t ∧ addressOfKey priv = .ok a ∧
      Runtime.asciiLower a = a := by
  have hzeros : (lit "0x").isPrefixOf (digits "0x" 130 '0') = true := by decide
  have hreturns : ∀ f ∈ fieldsV2, Returns (encodeField R heldPayload f) := by
    refine (encodeFields_iff R (opens_heldPayload hzeros rfl)).mpr ⟨fun name v hname hv => ?_,
      le_rfl, by decide⟩
    have hall : ∀ f ∈ fieldsV2, f.2 = .string → ∃ t, heldPayload.getD f.1 (.str []) = .ok (.str t) ∧
        Scalar t := by
      intro f hf hstring
      simp only [fieldsV2, fieldsV1, List.cons_append, List.nil_append, List.mem_cons,
        List.not_mem_nil, or_false] at hf
      rcases hf with rfl | rfl | rfl | rfl | rfl | rfl | rfl | rfl
      · cases hstring
      · exact ⟨[], by decide +kernel, by decide +kernel⟩
      · exact ⟨[], by decide +kernel, by decide +kernel⟩
      · exact ⟨digits "0x" 40 'b', by decide +kernel, by decide +kernel⟩
      · cases hstring
      · exact ⟨[], by decide +kernel, by decide +kernel⟩
      · exact ⟨lit "eip3009", by decide +kernel, by decide +kernel⟩
      · exact ⟨digits "0x" 64 '0', by decide +kernel, by decide +kernel⟩
    obtain ⟨t, ht, hscalar⟩ := hall _ hname rfl
    exact ⟨t, Except.ok.inj (hv.symm.trans ht), hscalar⟩
  obtain ⟨digest, hdigest⟩ := (returns_eip712Digest R).mpr hreturns
  obtain ⟨priv, sig, hpriv, hsig, hgood⟩ := signs_unit digest
  obtain ⟨t, ht⟩ := sigHex_ok hsig.2
  obtain ⟨p, a, -, -, ha, hkey⟩ := addressOfKey_ok hpriv
  exact ⟨digest, priv, sig, t, a, hdigest, hsig, hgood, hpriv, ht, hkey, address_lower ha⟩

/-- **An issued EIP-712 receipt is valid**, and its signer is the address of the key. -/
theorem issued_eip712_valid {loads : Bytes → Except PyError Json} {kvs : List (Str × Json)}
    {authorized : Authorized} {payload : Json} {fields : List (Str × FieldType)} {issuedAt : Int}
    {priv k : Nat} {digest : Bytes} {sig : Signature} {t a : Str}
    (hopen : Opens712 (.obj kvs) payload fields issuedAt t)
    (hdigest : eip712Digest R payload fields = .ok digest) (hsign : Signs hmac priv k digest sig)
    (hgood : Recoverable k sig) (hpriv : ¬ N ∣ priv) (ht : sigHex sig = .ok t)
    (ha : addressOfKey priv = .ok a) (hauth : a ∈ (authorized.eip712.getD []).map R.lower) :
    checkReceipt R loads (.obj kvs) authorized = .ok (.valid a payload) := by
  rw [checkReceipt_of_opens712 R hopen]
  exact verifyEip712_signed R hmac hdigest hsign hgood hpriv ht ha hauth

/-- The payload, signed. -/
theorem issued_eip712_valid_held :
    ∃ t a, checkReceipt .sample (fun _ => .error .valueError) (.obj
      (receipt712 heldPayload t)) ⟨some [a], none⟩ = .ok (.valid a heldPayload) := by
  obtain ⟨digest, priv, sig, t, a, hdigest, hsig, hgood, hpriv, ht, ha, hlower⟩ :=
    heldPayload_signed .sample
  obtain ⟨-, -, -, -, -, hstart, hlen⟩ := sigHex_read (signWith_range hsig.2).2.2 ht
  refine ⟨t, a, issued_eip712_valid .sample unitHmac (opens_heldPayload hstart hlen) hdigest hsig
    hgood hpriv ht ha ?_⟩
  exact List.mem_singleton.mpr hlower.symm

/-! ## JWS -/

/-- `_b64u(b)` -/
def b64u (b : Bytes) : Str := urlsafeB64bare b

/-- `json.dumps(o, separators=(",", ":"))` -/
def dumps (o : Json) : Str := printWith quoteUnits R.dumpsFormat (o.mapStr units)

/-- The head of `sign_jws_es256k`. -/
def jwsHead (kid : Str) : Json := object [("alg", text "ES256K"), ("kid", .str kid)]

/-- `head + "." + body` -/
def signingInput (payload : Json) (kid : Str) : Str :=
  b64u (utf8Bytes (dumps R (jwsHead kid))) ++ lit "." ++ b64u (utf8Bytes (dumps R payload))

/-- The digest that `sign_jws_es256k` signs. -/
def jwsDigest (payload : Json) (kid : Str) : Bytes :=
  R.sha256 (utf8Bytes (signingInput R payload kid))

/-- The text that `sign_jws_es256k` makes of a signature. -/
def jwsText (payload : Json) (kid : Str) (sig : Signature) : Except PyError Str := do
  return signingInput R payload kid ++ lit "." ++
    b64u ((← toBytes32 sig.r) ++ (← toBytes32 sig.s))

theorem jwsText_ok (payload : Json) (kid : Str) {priv k : Nat} {digest : Bytes} {sig : Signature}
    (h : signWith priv k digest = .ok sig) : ∃ t, jwsText R payload kid sig = .ok t := by
  obtain ⟨rb, sb, hrb, hsb⟩ := bytes_ok h
  rw [jwsText, hrb, ok_bind, hsb, ok_bind]
  exact ⟨_, rfl⟩

/-- **Base64 without padding is read back.** -/
theorem unb64u_b64u (b : Bytes) : unb64u (b64u b) = .ok b := by
  have hdecode := urlsafeB64decode_bare b
  unfold repadded at hdecode
  unfold unb64u b64u
  rw [hdecode]

theorem dot_not_mem (b : Bytes) : ofChar '.' ∉ b64u b := by
  have hchar : ∀ n < 64, (if b64Char n = ofChar '+' then ofChar '-'
      else if b64Char n = ofChar '/' then ofChar '_' else b64Char n) ≠ ofChar '.' := by decide
  intro hmem
  have hmem' : ofChar '.' ∈ urlsafeB64encode b := by
    rw [← repadded_bare]
    exact List.mem_append_left _ hmem
  obtain ⟨c, hc, hdot⟩ := List.mem_map.mp hmem'
  rcases mem_b64encode hc with rfl | ⟨n, hn, rfl⟩
  · exact absurd hdot (by decide)
  · exact hchar n hn hdot

/-- The three parts are found again. -/
theorem split_jwsText {payload : Json} {kid : Str} {sig : Signature} {t : Str}
    (h : jwsText R payload kid sig = .ok t) :
    ∃ raw, t.splitOn (ofChar '.') = [b64u (utf8Bytes (dumps R (jwsHead kid))),
        b64u (utf8Bytes (dumps R payload)), b64u raw] ∧ raw.length = 64 ∧
      fromBytesBig (raw.take 32) = sig.r ∧ fromBytesBig (raw.drop 32) = sig.s := by
  obtain ⟨rb, hrb, h⟩ := bind_ok.mp h
  obtain ⟨sb, hsb, h⟩ := bind_ok.mp h
  obtain rfl := Except.ok.inj h
  obtain ⟨-, hrlen, hr⟩ := toBytes32_inv hrb
  obtain ⟨-, hslen, hs⟩ := toBytes32_inv hsb
  obtain ⟨htake, hdrop⟩ := halves (b := sb) hrlen
  refine ⟨rb ++ sb, ?_, by rw [List.length_append, hrlen, hslen], by rw [htake, hr],
    by rw [hdrop, hs]⟩
  have hdot : lit "." = [ofChar '.'] := rfl
  rw [signingInput, hdot]
  simp only [List.append_assoc, List.cons_append, List.nil_append]
  rw [List.splitOn_append_cons_self_of_not_mem (dot_not_mem _),
    List.splitOn_append_cons_self_of_not_mem (dot_not_mem _),
    List.splitOn_eq_singleton (dot_not_mem _)]

/-- What `check_receipt` does with a JWS of three parts. -/
theorem checkReceipt_of_opensJws {loads : Bytes → Except PyError Json} {kvs : List (Str × Json)}
    {authorized : Authorized} {p0 p1 p2 : Str} (h : OpensJws (.obj kvs) p0 p1 p2) :
    checkReceipt R loads (.obj kvs) authorized =
      verifyOpened R authorized p0 p1 (openParts loads p0 p1 p2) := by
  have hget : Json.get (.obj kvs) (lit "format") = .ok (find (.obj kvs) (lit "format")) := rfl
  rw [checkReceipt, hget, h.format, ok_bind, if_neg (by decide +kernel), if_pos rfl,
    checkJws_of_opens R loads h]

/-- **An issued JWS is valid**, and its signer is the address of the key. -/
theorem issued_jws_valid {loads : Bytes → Except PyError Json} {kvs : List (Str × Json)}
    {authorized : Authorized} {payload : Json} {kid t a expected : Str}
    {fields : List (Str × FieldType)} {priv k : Nat} {sig : Signature}
    (hformat : find (.obj kvs) (lit "format") = text "jws")
    (hbare : Json.get? (lit "payload") (.obj kvs) = .ok none)
    (ht : find (.obj kvs) (lit "signature") = .str t)
    (hloads : ∀ o ∈ [jwsHead kid, payload], loads (utf8Bytes (dumps R o)) = .ok o)
    (hdict : payload.isObj = true)
    (hversion : receiptFields (payload.find (lit "version")) = some fields)
    (hsign : Signs hmac priv k (jwsDigest R payload kid) sig) (hgood : Recoverable k sig)
    (hpriv : ¬ N ∣ priv) (htext : jwsText R payload kid sig = .ok t) (hkid : kid ≠ [])
    (hauth : (authorized.jws.getD []).lookup kid = some expected)
    (ha : addressOfKey priv = .ok a) (hexpected : R.lower expected = a) :
    checkReceipt R loads (.obj kvs) authorized = .ok (.valid a payload) := by
  obtain ⟨hhead, hpayload⟩ := List.forall_mem_cons.mp hloads
  obtain ⟨hpayload, -⟩ := List.forall_mem_cons.mp hpayload
  obtain ⟨raw, hsplit, hraw, hr, hs⟩ := split_jwsText R htext
  have hopens : OpensJws (.obj kvs) (b64u (utf8Bytes (dumps R (jwsHead kid))))
      (b64u (utf8Bytes (dumps R payload))) (b64u raw) :=
    ⟨hformat, hbare, t, getD_of_find ht Json.noConfusion _, hsplit⟩
  have hparts : openParts loads (b64u (utf8Bytes (dumps R (jwsHead kid))))
      (b64u (utf8Bytes (dumps R payload))) (b64u raw) = .ok ⟨jwsHead kid, payload, raw⟩ := by
    unfold openParts
    rw [unb64u_b64u, ok_bind, hhead, ok_bind, unb64u_b64u, ok_bind, hpayload, ok_bind,
      unb64u_b64u]
    rfl
  have hscalar := scalar_of_openParts loads hparts
  obtain ⟨a', ha', hrecover⟩ := recover_signed hmac hsign hpriv hgood
  obtain rfl := Except.ok.inj (ha'.symm.trans ha)
  have hverify : verifyJws R authorized (b64u (utf8Bytes (dumps R (jwsHead kid))))
      (b64u (utf8Bytes (dumps R payload))) ⟨jwsHead kid, payload, raw⟩ =
      .ok (.valid a' payload) := by
    have halg : (jwsHead kid).get (lit "alg") = .ok (text "ES256K") := rfl
    have hkid' : (jwsHead kid).get (lit "kid") = .ok (.str kid) := by
      unfold jwsHead
      rw [get_of_dict rfl, find_object_cons_ne (by decide), find_object_cons]
    have htruthy : (Json.str kid).truthy = true := by
      cases kid with
      | nil => exact absurd rfl hkid
      | cons c cs => rfl
    have hlookup : expectedOf authorized (.str kid) = .ok (some expected) :=
      congrArg Except.ok hauth
    unfold verifyJws
    dsimp only
    rw [halg, ok_bind, hkid', ok_bind, if_neg (by simp [htruthy, hraw]), get_of_dict hdict, ok_bind,
      hversion]
    dsimp only
    rw [hlookup, ok_bind]
    dsimp only
    rw [utf8_of_scalar hscalar, ok_bind, hr, hs]
    change (do
      let signers := [← recoverAddress (jwsDigest R payload kid) sig.r sig.s 0,
        ← recoverAddress (jwsDigest R payload kid) sig.r sig.s 1]
      if some (R.lower expected) ∉ signers then
        return Verdict.rejected (lit "signature_invalid") none
      return Verdict.valid (R.lower expected) payload) = _
    -- the format does not carry the parity, so both points are tried
    obtain ⟨b0, hb0⟩ := recoverAddress_ok (jwsDigest R payload kid) sig.r sig.s 0
    obtain ⟨b1, hb1⟩ := recoverAddress_ok (jwsDigest R payload kid) sig.r sig.s 1
    have hmem : some a' ∈ [b0, b1] := by
      obtain ⟨-, -, hrec⟩ := signWith_range hsign.2
      rcases (by omega : sig.recId = 0 ∨ sig.recId = 1) with h0 | h1
      · rw [h0, hb0] at hrecover
        rw [Except.ok.inj hrecover]
        exact List.mem_cons_self
      · rw [h1, hb1] at hrecover
        rw [Except.ok.inj hrecover]
        exact List.mem_cons_of_mem _ List.mem_cons_self
    rw [hb0, ok_bind, hb1, ok_bind, hexpected, if_neg (not_not.mpr hmem)]
    rfl
  rw [checkReceipt_of_opensJws R hopens, hparts]
  exact hverify

/-- `json.loads` on the two parts of a JWS with the kid `k`. -/
def heldLoads (b : Bytes) : Except PyError Json :=
  if b = utf8Bytes (dumps .sample (jwsHead (lit "k"))) then .ok (jwsHead (lit "k"))
  else .ok heldPayload

/-- The payload, signed as a JWS. -/
theorem issued_jws_valid_held :
    ∃ t a, checkReceipt .sample heldLoads (.obj [(lit "format", text "jws"),
      (lit "signature", .str t)]) ⟨none, some [(lit "k", a)]⟩ = .ok (.valid a heldPayload) := by
  obtain ⟨priv, sig, hpriv, hsig, hgood⟩ := signs_unit (jwsDigest .sample heldPayload (lit "k"))
  obtain ⟨p, a, -, -, ha, hkey⟩ := addressOfKey_ok hpriv
  obtain ⟨t, ht⟩ := jwsText_ok .sample heldPayload (lit "k") hsig.2
  have hloads : ∀ o ∈ [jwsHead (lit "k"), heldPayload],
      heldLoads (utf8Bytes (dumps .sample o)) = .ok o := by
    refine List.forall_mem_cons.mpr ⟨if_pos rfl, ?_⟩
    exact List.forall_mem_singleton.mpr (if_neg (by decide +kernel))
  have hversion : receiptFields (heldPayload.find (lit "version")) = some fieldsV2 := by
    decide +kernel
  exact ⟨t, a, issued_jws_valid .sample unitHmac rfl rfl rfl hloads rfl hversion hsig
    hgood hpriv ht (by decide) rfl hkey (address_lower ha)⟩

/-! ## The other signature -/

/-- Receipts that differ in the signature only: the one has `s`, and the other `N - s`. -/
inductive Twin (loads : Bytes → Except PyError Json) :
    List (Str × Json) → List (Str × Json) → Prop
  | eip712 {kvs kvs' : List (Str × Json)} {payload : Json} {fields : List (Str × FieldType)}
      {issuedAt : Int} {t t' : Str} {sig : Signature}
      (h : Opens712 (.obj kvs) payload fields issuedAt t)
      (h' : Opens712 (.obj kvs') payload fields issuedAt t') (hs : 1 ≤ sig.s ∧ sig.s < N)
      (hrec : sig.recId < 2) (ht : sigHex sig = .ok t)
      (ht' : sigHex ⟨sig.r, N - sig.s, 1 - sig.recId⟩ = .ok t') : Twin loads kvs kvs'
  | jws {kvs kvs' : List (Str × Json)} {p0 p1 p2 p2' : Str} {raw raw' : Bytes}
      (h : OpensJws (.obj kvs) p0 p1 p2) (h' : OpensJws (.obj kvs') p0 p1 p2')
      (hraw : unb64u p2 = .ok raw) (hraw' : unb64u p2' = .ok raw') (hlen : raw.length = 64)
      (hlen' : raw'.length = 64) (hr : raw'.take 32 = raw.take 32)
      (hs : 1 ≤ fromBytesBig (raw.drop 32) ∧ fromBytesBig (raw.drop 32) < N)
      (hs' : fromBytesBig (raw'.drop 32) = N - fromBytesBig (raw.drop 32)) : Twin loads kvs kvs'

theorem verifyEip712_twin {authorized : Authorized} {payload : Json}
    {fields : List (Str × FieldType)} {t t' : Str} {sig : Signature} (hs : 1 ≤ sig.s ∧ sig.s < N)
    (hrec : sig.recId < 2) (ht : sigHex sig = .ok t)
    (ht' : sigHex ⟨sig.r, N - sig.s, 1 - sig.recId⟩ = .ok t') :
    verifyEip712 R authorized payload fields t' = verifyEip712 R authorized payload fields t := by
  obtain ⟨raw, hraw, hr, hs1, hv, -, -⟩ := sigHex_read hrec ht
  obtain ⟨raw', hraw', hr', hs1', hv', -, -⟩ :=
    sigHex_read (by dsimp only; omega) ht'
  have hid (n : Nat) : (if 27 ≤ 27 + n then 27 + n - 27 else 27 + n) = n := by
    rw [if_pos (Nat.le_add_right _ _), Nat.add_sub_cancel_left]
  unfold verifyEip712
  rw [hraw, hraw', ok_bind, ok_bind]
  dsimp only
  rw [hr, hs1, hv, hr', hs1', hv', ok_bind, ok_bind, hid, hid]
  dsimp only
  cases eip712Digest R payload fields with
  | error e => rfl
  | ok digest => rw [ok_bind, ok_bind, recoverAddress_flip digest sig.r hs hrec]

/-- The two signers that a JWS can have, in the other order. -/
theorem verifyJws_twin {authorized : Authorized} {p0 p1 : Str} {head payload : Json}
    {raw raw' : Bytes} (hlen : raw.length = 64) (hlen' : raw'.length = 64)
    (hr : raw'.take 32 = raw.take 32)
    (hs : 1 ≤ fromBytesBig (raw.drop 32) ∧ fromBytesBig (raw.drop 32) < N)
    (hs' : fromBytesBig (raw'.drop 32) = N - fromBytesBig (raw.drop 32)) :
    verifyJws R authorized p0 p1 ⟨head, payload, raw'⟩ =
      verifyJws R authorized p0 p1 ⟨head, payload, raw⟩ := by
  have hflip (digest : Bytes) (recId : Nat) (hrec : recId < 2) :=
    recoverAddress_flip digest (fromBytesBig (raw.take 32)) hs hrec
  unfold verifyJws
  dsimp only
  rw [hlen, hlen', hr, hs']
  refine bind_congr fun alg => bind_congr fun kid => if_congr Iff.rfl rfl ?_
  refine bind_congr fun version => ?_
  cases receiptFields version with
  | none => rfl
  | some fields =>
    refine bind_congr fun expected => ?_
    cases expected with
    | none => rfl
    | some expected =>
      refine bind_congr fun signed => ?_
      obtain ⟨b0, hb0⟩ := recoverAddress_ok (R.sha256 signed) (fromBytesBig (raw.take 32))
        (fromBytesBig (raw.drop 32)) 0
      obtain ⟨b1, hb1⟩ := recoverAddress_ok (R.sha256 signed) (fromBytesBig (raw.take 32))
        (fromBytesBig (raw.drop 32)) 1
      have hb0' := (hflip (R.sha256 signed) 0 two_pos).trans hb0
      have hb1' := (hflip (R.sha256 signed) 1 one_lt_two).trans hb1
      rw [Nat.sub_self] at hb1'
      rw [hb0, hb1, hb1', hb0', ok_bind, ok_bind, ok_bind, ok_bind]
      have hswap : some (R.lower expected) ∈ [b1, b0] ↔ some (R.lower expected) ∈ [b0, b1] := by
        simp only [List.mem_cons, List.not_mem_nil, or_false]
        exact or_comm
      exact if_congr (not_congr hswap) rfl rfl

/-- Whether a JWS is opened does not depend on which signature it has. -/
theorem openParts_raw (loads : Bytes → Except PyError Json) (p0 p1 : Str) :
    (∃ head payload, ∀ {p2 raw}, unb64u p2 = .ok raw →
      openParts loads p0 p1 p2 = .ok ⟨head, payload, raw⟩) ∨
    (∃ e, ∀ {p2 raw}, unb64u p2 = .ok raw → openParts loads p0 p1 p2 = .error e) := by
  unfold openParts
  cases unb64u p0 with
  | error e => exact Or.inr ⟨e, fun _ => rfl⟩
  | ok b0 =>
    simp only [ok_bind]
    cases loads b0 with
    | error e => exact Or.inr ⟨e, fun _ => rfl⟩
    | ok head =>
      simp only [ok_bind]
      cases unb64u p1 with
      | error e => exact Or.inr ⟨e, fun _ => rfl⟩
      | ok b1 =>
        simp only [ok_bind]
        cases loads b1 with
        | error e => exact Or.inr ⟨e, fun _ => rfl⟩
        | ok payload =>
          refine Or.inl ⟨head, payload, fun hraw => ?_⟩
          rw [hraw]
          rfl

/-- **The other signature is as good**: `check_receipt` says the same of both receipts. -/
theorem checkReceipt_twin {loads : Bytes → Except PyError Json} {kvs kvs' : List (Str × Json)}
    (h : Twin loads kvs kvs') (authorized : Authorized) :
    checkReceipt R loads (.obj kvs') authorized = checkReceipt R loads (.obj kvs) authorized := by
  cases h with
  | eip712 h h' hs hrec ht ht' =>
    rw [checkReceipt_of_opens712 R h, checkReceipt_of_opens712 R h']
    exact verifyEip712_twin R hs hrec ht ht'
  | @jws p0 p1 p2 p2' raw raw' h h' hraw hraw' hlen hlen' hr hs hs' =>
    rw [checkReceipt_of_opensJws R h, checkReceipt_of_opensJws R h']
    rcases openParts_raw loads p0 p1 with ⟨head, payload, hopen⟩ | ⟨e, hopen⟩
    · rw [hopen hraw, hopen hraw']
      exact verifyJws_twin R hlen hlen' hr hs hs'
    · rw [hopen hraw, hopen hraw']

/-- The signatures `(1, 1, 0)` and `(1, N - 1, 1)`. -/
theorem checkReceipt_twin_one : ∃ t t', t' ≠ t ∧
    checkReceipt .sample heldLoads (.obj (receipt712 heldPayload t')) ⟨none, none⟩ =
      checkReceipt .sample heldLoads (.obj (receipt712 heldPayload t)) ⟨none, none⟩ := by
  obtain ⟨t, ht⟩ : ∃ t, sigHex ⟨1, 1, 0⟩ = .ok t := ⟨_, rfl⟩
  obtain ⟨t', ht'⟩ : ∃ t, sigHex ⟨1, N - 1, 1⟩ = .ok t := ⟨_, rfl⟩
  obtain ⟨raw, hraw, -, hs, -, hstart, hlen⟩ := sigHex_read (by decide) ht
  obtain ⟨raw', hraw', -, hs', -, hstart', hlen'⟩ := sigHex_read (by decide) ht'
  refine ⟨t, t', ?_, checkReceipt_twin .sample (.eip712 (opens_heldPayload hstart hlen)
    (opens_heldPayload hstart' hlen') ⟨le_rfl, by decide⟩ (by decide) ht ht') _⟩
  intro heq
  rw [heq] at hraw'
  obtain rfl := Except.ok.inj (hraw.symm.trans hraw')
  exact absurd (hs.symm.trans hs') (by decide)

end Preaction.ReceiptCheck
