import Preaction.Py.Base64
import Preaction.Py.Digits
import Preaction.Py.JsonPrint
import Preaction.ReceiptCheck.Recover

/-!
# `x402-receipt-authorization-commitment/receipt_check.py` — `check_receipt`

A receipt is a JSON object with a signature, in one of two formats, and comes from outside.
`check_receipt` says of it that it is valid, or rejects it with a reason. What it asks of the
shape of a receipt it asks before it reads on, but not of everything:

- `bytes.fromhex` raises on a signature of the right length that is not hex, and one with
  blanks is short of its last byte;
- a field of the payload that is no text has no `encode`, a lone surrogate has no UTF-8 form,
  and a time can be too large for 32 bytes, or negative;
- the signature of a JWS need not be a text, its head and payload need not be dicts, and its
  `kid` need not be one that a dict can be asked for.

`checkReceipt_returns_iff` says that these are all. The arithmetic behind them raises on no
signature (`recoverAddress_ok`).

Mirroring notes:
- `json.loads` of bytes is an argument (`loads`). Every kind of `ValueError` is `valueError`; any
  other error is one that the code does not catch, as for a nesting that is too deep.
- The relying party's lists are typed, as the docstring describes them.
-/

namespace Preaction.ReceiptCheck

open Preaction.Py Preaction.Loop Json

variable (R : Runtime)

/-! ## The digest of EIP-712 -/

inductive FieldType
  | uint256
  | string
  deriving DecidableEq

def FieldType.name : FieldType → Str
  | .uint256 => lit "uint256"
  | .string => lit "string"

/-- `RECEIPT_FIELDS[1]` -/
def fieldsV1 : List (Str × FieldType) :=
  [(lit "version", .uint256), (lit "network", .string), (lit "resourceUrl", .string),
    (lit "payer", .string), (lit "issuedAt", .uint256), (lit "transaction", .string)]

/-- `RECEIPT_FIELDS[2]` -/
def fieldsV2 : List (Str × FieldType) :=
  fieldsV1 ++ [(lit "authorizationMethod", .string), (lit "authorizationCommitment", .string)]

/-- `RECEIPT_FIELDS[version]`; none unless `_is_int(version) and version in RECEIPT_FIELDS`. -/
def receiptFields (version : Json) : Option (List (Str × FieldType)) :=
  if version = .int 1 then some fieldsV1
  else if version = .int 2 then some fieldsV2
  else none

/-- `DOMAIN` -/
def domain : Json :=
  object [("name", text "x402 receipt"), ("version", text "1"), ("chainId", .int 1)]

/-- `dom_fields` -/
def domFields : List (Str × FieldType) :=
  [(lit "name", .string), (lit "version", .string), (lit "chainId", .uint256)]

/-- `_type_string(name, fields)` -/
def typeString (name : String) (fields : List (Str × FieldType)) : Bytes :=
  utf8Bytes (lit name ++ lit "(" ++
    (lit ",").intercalate (fields.map fun f => f.2.name ++ lit " " ++ f.1) ++ lit ")")

/-- `v.encode("utf-8")` -/
def encodeText (v : Json) : Except PyError Bytes :=
  match v with
  | .str s => utf8 s
  | _ => .error .attributeError

/-- The body of the loop of `_encode`. -/
def encodeField (values : Json) (field : Str × FieldType) : Except PyError Bytes := do
  let v ← values.getD field.1 (.str [])
  match field.2 with
  | .string => return keccak256 (← encodeText v)
  | .uint256 => toBytes32 (← R.int v)

/-- `_encode(fields, values)` -/
def encode (fields : List (Str × FieldType)) (values : Json) : Except PyError Bytes := do
  return (← fields.mapM (encodeField R values)).flatten

/-- `eip712_digest(payload, types_version)`, with the fields of the version. -/
def eip712Digest (payload : Json) (fields : List (Str × FieldType)) : Except PyError Bytes := do
  let dom := keccak256 (keccak256 (typeString "EIP712Domain" domFields) ++
    (← encode R domFields domain))
  let receipt := keccak256 (keccak256 (typeString "Receipt" fields) ++
    (← encode R fields payload))
  return keccak256 ([0x19, 0x01] ++ dom ++ receipt)

/-! ## The receipt -/

/-- What `check_receipt` returns. -/
inductive Verdict
  | valid (signer : Str) (payload : Json)
  | rejected (reason : Str) (signer : Option Str)

/-- The authorized signers. -/
structure Authorized where
  eip712 : Option (List Str)
  jws : Option (List (Str × Str))

/-- `raw[i]` -/
def byteOf (raw : Bytes) (i : Nat) : Except PyError Nat :=
  match raw[i]? with
  | some b => .ok b.toNat
  | none => .error .indexError

/-- The EIP-712 path, once the shape is tested. -/
def verifyEip712 (authorized : Authorized) (payload : Json) (fields : List (Str × FieldType))
    (sig : Str) : Except PyError Verdict := do
  let raw ← bytesFromHex (.str (sig.drop 2))
  let r := fromBytesBig (raw.take 32)
  let s := fromBytesBig ((raw.drop 32).take 32)
  let v ← byteOf raw 64
  let recId := if 27 ≤ v then v - 27 else v
  match ← recoverAddress (← eip712Digest R payload fields) r s recId with
  | none => return .rejected (lit "signature_invalid") none
  | some signer =>
    if signer ∉ (authorized.eip712.getD []).map R.lower then
      return .rejected (lit "signer_not_authorized") (some signer)
    return .valid signer payload

/-- `_is_int(v)` -/
def isInt : Json → Bool
  | .int _ => true
  | _ => false

/-- `isinstance(sig, str) and sig.startswith("0x") and len(sig) == 132`, and the text. -/
def sigText (sig : Json) : Option Str :=
  match sig with
  | .str s => if (lit "0x").isPrefixOf s ∧ s.length = 132 then some s else none
  | _ => none

/-- The EIP-712 path. -/
def checkEip712 (authorized : Authorized) (receipt : Json) : Except PyError Verdict := do
  let payload ← receipt.get (lit "payload")
  let sig ← receipt.getD (lit "signature") (.str [])
  if !payload.isObj then return .rejected (lit "payload_missing") none
  match receiptFields (← payload.get (lit "version")) with
  | none => return .rejected (lit "unsupported_version") none
  | some fields =>
    if !isInt (← payload.get (lit "issuedAt")) then
      return .rejected (lit "payload_field_type") none
    match sigText sig with
    | none => return .rejected (lit "signature_encoding") none
    | some s => verifyEip712 R authorized payload fields s

/-- `_unb64u(s)` -/
def unb64u (s : Str) : Except PyError Bytes :=
  match urlsafeB64decode (s ++ List.replicate ((4 - s.length % 4) % 4) (ofChar '=')) with
  | some b => .ok b
  | none => .error .valueError

variable (loads : Bytes → Except PyError Json)

/-- What is decoded of a JWS: `head`, `payload` and `raw`. -/
structure Opened where
  head : Json
  payload : Json
  raw : Bytes

/-- The body of the `try`. -/
def openParts (p0 p1 p2 : Str) : Except PyError Opened := do
  let head ← loads (← unb64u p0)
  let payload ← loads (← unb64u p1)
  return ⟨head, payload, ← unb64u p2⟩

/-- `authorized.get("jws", {}).get(kid)` -/
def expectedOf (authorized : Authorized) (kid : Json) : Except PyError (Option Str) := do
  kid.hashable
  match kid with
  | .str k => return (authorized.jws.getD []).lookup k
  | _ => return none

/-- The JWS path, behind the `try`. -/
def verifyJws (authorized : Authorized) (p0 p1 : Str) (jws : Opened) : Except PyError Verdict := do
  let alg ← jws.head.get (lit "alg")
  let kid ← jws.head.get (lit "kid")
  if alg ≠ text "ES256K" ∨ kid.truthy = false ∨ jws.raw.length ≠ 64 then
    return .rejected (lit "unsupported_alg") none
  match receiptFields (← jws.payload.get (lit "version")) with
  | none => return .rejected (lit "unsupported_version") none
  | some _ =>
    match ← expectedOf authorized kid with
    | none => return .rejected (lit "kid_unresolved") none
    | some expected =>
      let digest := R.sha256 (← utf8 (p0 ++ lit "." ++ p1))
      let r := fromBytesBig (jws.raw.take 32)
      let s := fromBytesBig (jws.raw.drop 32)
      let signers := [← recoverAddress digest r s 0, ← recoverAddress digest r s 1]
      if some (R.lower expected) ∉ signers then
        return .rejected (lit "signature_invalid") none
      return .valid (R.lower expected) jws.payload

/-- `s.split(".")` of what need not be a text. -/
def splitDots (s : Json) : Except PyError (List Str) :=
  match s with
  | .str s => .ok (s.splitOn (ofChar '.'))
  | _ => .error .attributeError

/-- What becomes of a JWS, by how the `try` ends. -/
def verifyOpened (authorized : Authorized) (p0 p1 : Str) :
    Except PyError Opened → Except PyError Verdict
  | .ok jws => verifyJws R authorized p0 p1 jws
  | .error .valueError => .ok (.rejected (lit "signature_encoding") none)
  | .error e => .error e

/-- The JWS path. -/
def checkJws (authorized : Authorized) (receipt : Json) : Except PyError Verdict := do
  if (← receipt.get? (lit "payload")).isSome then
    return .rejected (lit "jws_payload_duplicated") none
  match ← splitDots (← receipt.getD (lit "signature") (.str [])) with
  | [p0, p1, p2] => verifyOpened R authorized p0 p1 (openParts loads p0 p1 p2)
  | _ => return .rejected (lit "signature_encoding") none

/-- `check_receipt(receipt, authorized)` -/
def checkReceipt (receipt : Json) (authorized : Authorized) : Except PyError Verdict := do
  let fmt ← receipt.get (lit "format")
  if fmt = text "eip712" then checkEip712 R authorized receipt
  else if fmt = text "jws" then checkJws R loads authorized receipt
  else return .rejected (lit "unsupported_format") none

/-! ## What raises -/

/-- The EIP-712 path gets to the signature and the payload of this receipt. -/
structure Opens712 (receipt payload : Json) (fields : List (Str × FieldType)) (issuedAt : Int)
    (sig : Str) : Prop where
  format : receipt.find (lit "format") = text "eip712"
  carried : receipt.find (lit "payload") = payload
  dict : payload.isObj = true
  version : receiptFields (payload.find (lit "version")) = some fields
  time : payload.find (lit "issuedAt") = .int issuedAt
  signature : receipt.find (lit "signature") = .str sig
  start : (lit "0x").isPrefixOf sig = true
  length : sig.length = 132

/-- The JWS path gets to the `try`. -/
structure OpensJws (receipt : Json) (p0 p1 p2 : Str) : Prop where
  format : receipt.find (lit "format") = text "jws"
  bare : receipt.get? (lit "payload") = .ok none
  parts : ∃ sig, receipt.getD (lit "signature") (.str []) = .ok (.str sig) ∧
    sig.splitOn (ofChar '.') = [p0, p1, p2]

/-- The head and the signature of a JWS are accepted. -/
structure Opened.Accepted (jws : Opened) : Prop where
  alg : jws.head.find (lit "alg") = text "ES256K"
  kid : (jws.head.find (lit "kid")).truthy = true
  length : jws.raw.length = 64

/-- The inputs on which `check_receipt` raises. -/
inductive Raises (loads : Bytes → Except PyError Json) (receipt : Json) : Prop
  /-- the signature is not of 130 hex digits -/
  | digits {payload : Json} {fields : List (Str × FieldType)} {issuedAt : Int} {sig : Str}
      (h : Opens712 receipt payload fields issuedAt sig) (c : CodePoint) (hc : c ∈ sig.drop 2)
      (hdigit : isHexDigit c = false)
  /-- a text field of the payload is no text that UTF-8 can encode -/
  | field {payload : Json} {fields : List (Str × FieldType)} {issuedAt : Int} {sig : Str}
      (h : Opens712 receipt payload fields issuedAt sig) {name : Str} {v : Json}
      (hname : (name, .string) ∈ fields) (hv : payload.getD name (.str []) = .ok v)
      (htext : ∀ t, v = .str t → ¬ Scalar t)
  /-- the time does not fit 32 bytes -/
  | time {payload : Json} {fields : List (Str × FieldType)} {issuedAt : Int} {sig : Str}
      (h : Opens712 receipt payload fields issuedAt sig)
      (htime : issuedAt < 0 ∨ 2 ^ 256 ≤ issuedAt)
  /-- the signature of a JWS is no text -/
  | signature {sig : Json} (hformat : receipt.find (lit "format") = text "jws")
      (hbare : receipt.get? (lit "payload") = .ok none)
      (hsig : receipt.getD (lit "signature") (.str []) = .ok sig) (htext : sig.isStr = false)
  /-- a part of a JWS is refused by `json.loads` with another error than `ValueError` -/
  | parts {p0 p1 p2 : Str} {e : PyError} (h : OpensJws receipt p0 p1 p2)
      (herror : openParts loads p0 p1 p2 = .error e) (hcaught : e ≠ .valueError)
  /-- the head of a JWS is no dict -/
  | head {p0 p1 p2 : Str} {jws : Opened} (h : OpensJws receipt p0 p1 p2)
      (hopen : openParts loads p0 p1 p2 = .ok jws) (hdict : jws.head.isObj = false)
  /-- the payload of a JWS is no dict -/
  | payload {p0 p1 p2 : Str} {jws : Opened} (h : OpensJws receipt p0 p1 p2)
      (hopen : openParts loads p0 p1 p2 = .ok jws) (haccepted : jws.Accepted)
      (hdict : jws.payload.isObj = false)
  /-- the `kid` of a JWS is a list or a dict -/
  | kid {p0 p1 p2 : Str} {jws : Opened} (h : OpensJws receipt p0 p1 p2)
      (hopen : openParts loads p0 p1 p2 = .ok jws) (haccepted : jws.Accepted)
      (hversion : (receiptFields (jws.payload.find (lit "version"))).isSome = true)
      (hkey : hashable (jws.head.find (lit "kid")) ≠ .ok ())

/-! ## The signature as hex -/

/-- Two characters a byte, and every blank is one character too many. -/
theorem fromHex_length {s : Str} {b : Bytes} (h : fromHex s = some b) :
    2 * b.length ≤ s.length ∧ (s.length ≤ 2 * b.length → s.all isHexDigit = true) := by
  induction s using fromHex.induct generalizing b with
  | case1 =>
    obtain rfl := Option.some.inj h
    exact ⟨le_rfl, fun _ => rfl⟩
  | case2 c cs hspace ih =>
    rw [fromHex.eq_def] at h
    simp only [hspace, if_true] at h
    obtain ⟨hle, -⟩ := ih h
    rw [List.length_cons]
    exact ⟨by omega, fun hge => by omega⟩
  | case3 c hspace =>
    simp [fromHex, hspace] at h
  | case4 c hspace d ds v w hv hw ih =>
    simp only [fromHex, hspace, hv, hw, Bool.false_eq_true, if_false, Option.map_eq_some_iff] at h
    obtain ⟨bs, hbs, rfl⟩ := h
    obtain ⟨hle, hall⟩ := ih hbs
    simp only [List.length_cons, List.all_cons, isHexDigit, hv, hw, Option.isSome_some,
      Bool.true_and]
    exact ⟨by omega, fun hge => hall (by omega)⟩
  | case5 c hspace d ds hno =>
    rw [fromHex.eq_def] at h
    simp only [hspace, Bool.false_eq_true, if_false] at h
    cases h

theorem bytesFromHex_str {s : Str} {b : Bytes} :
    bytesFromHex (.str s) = .ok b ↔ fromHex s = some b := by
  rw [bytesFromHex]
  cases fromHex s with
  | none => exact iff_of_false (fun h => by cases h) (fun h => by cases h)
  | some b' => rw [Except.ok.injEq, Option.some.injEq]

/-- The bytes of a signature are all there where it has no other character than hex digits. -/
theorem raw_iff {sig : Str} (hlen : sig.length = 132) :
    (∃ raw v, bytesFromHex (.str (sig.drop 2)) = .ok raw ∧ byteOf raw 64 = .ok v) ↔
      (sig.drop 2).all isHexDigit = true := by
  have hdrop : (sig.drop 2).length = 2 * 65 := by rw [List.length_drop, hlen]
  constructor
  · intro h
    obtain ⟨raw, v, hraw, hv⟩ := h
    refine (fromHex_length (bytesFromHex_str.mp hraw)).2 ?_
    unfold byteOf at hv
    split at hv
    next x hx =>
      have hlt := (List.getElem?_eq_some_iff.mp hx).1
      omega
    next => cases hv
  · intro hall
    obtain ⟨raw, hraw, hlength, -⟩ := lower_hexDigits hdrop hall
    have hget : raw[64]? = some raw[64] := List.getElem?_eq_getElem (by omega)
    exact ⟨raw, _, bytesFromHex_str.mpr hraw, by rw [byteOf, hget]⟩

/-! ## The payload as bytes -/

theorem returns_encodeText {v : Json} : Returns (encodeText v) ↔ ∃ t, v = .str t ∧ Scalar t := by
  cases v with
  | str s =>
    show Returns (utf8 s) ↔ _
    constructor
    · intro h
      obtain ⟨b, hb⟩ := h
      refine ⟨s, rfl, ?_⟩
      unfold utf8 at hb
      split at hb
      next => cases hb
      next hs => exact Bool.eq_false_iff.mpr hs
    · intro h
      obtain ⟨t, ht, hscalar⟩ := h
      obtain rfl := Json.str.inj ht
      exact ⟨_, utf8_of_scalar hscalar⟩
  | _ =>
    refine iff_of_false (not_returns_error _) fun h => ?_
    obtain ⟨t, ht, -⟩ := h
    cases ht

theorem returns_toBytes32 {n : Int} : Returns (toBytes32 n) ↔ 0 ≤ n ∧ n < 2 ^ 256 := by
  unfold toBytes32
  by_cases hn : 0 ≤ n ∧ n < 2 ^ 256
  · rw [if_pos hn]
    exact iff_of_true (returns_ok _) hn
  · rw [if_neg hn]
    exact iff_of_false (not_returns_error _) hn

theorem returns_encode {fields : List (Str × FieldType)} {values : Json} :
    Returns (encode R fields values) ↔ ∀ f ∈ fields, Returns (encodeField R values f) := by
  rw [encode, returns_bind_pure, returns_mapM]

theorem returns_encode_domain : Returns (encode R domFields domain) := by
  have hname : domain.getD (lit "name") (.str []) = .ok (text "x402 receipt") := rfl
  have hversion : domain.getD (lit "version") (.str []) = .ok (text "1") := rfl
  have hchain : domain.getD (lit "chainId") (.str []) = .ok (.int 1) := rfl
  refine (returns_encode R).mpr fun f hf => ?_
  simp only [domFields, List.mem_cons, List.not_mem_nil, or_false] at hf
  rcases hf with rfl | rfl | rfl
  · rw [encodeField, hname]
    exact ⟨_, rfl⟩
  · rw [encodeField, hversion]
    exact ⟨_, rfl⟩
  · rw [encodeField, hchain]
    exact ⟨_, rfl⟩

theorem returns_eip712Digest {payload : Json} {fields : List (Str × FieldType)} :
    Returns (eip712Digest R payload fields) ↔ ∀ f ∈ fields, Returns (encodeField R payload f) := by
  obtain ⟨dom, hdom⟩ := returns_encode_domain R
  rw [eip712Digest, hdom, ok_bind, returns_bind_pure, returns_encode]

/-- Behind the tests of the shape, the signature has to be hex and the fields to have bytes. -/
theorem returns_verifyEip712 {authorized : Authorized} {payload : Json}
    {fields : List (Str × FieldType)} {sig : Str} (hlen : sig.length = 132) :
    Returns (verifyEip712 R authorized payload fields sig) ↔
      (sig.drop 2).all isHexDigit = true ∧ ∀ f ∈ fields, Returns (encodeField R payload f) := by
  rw [← raw_iff hlen, ← returns_eip712Digest, verifyEip712]
  constructor
  · intro h
    obtain ⟨raw, hraw, h⟩ := returns_bind.mp h
    obtain ⟨v, hv, h⟩ := returns_bind.mp h
    obtain ⟨digest, hdigest, -⟩ := returns_bind.mp h
    exact ⟨⟨raw, v, hraw, hv⟩, digest, hdigest⟩
  · intro h
    obtain ⟨⟨raw, v, hraw, hv⟩, digest, hdigest⟩ := h
    obtain ⟨a, ha⟩ := recoverAddress_ok digest (fromBytesBig (raw.take 32))
      (fromBytesBig ((raw.drop 32).take 32)) (if 27 ≤ v then v - 27 else v)
    rw [hraw, ok_bind, hv, ok_bind, hdigest, ok_bind, ha, ok_bind]
    cases a with
    | none => exact ⟨_, rfl⟩
    | some signer =>
      dsimp only
      split
      · exact ⟨_, rfl⟩
      · exact ⟨_, rfl⟩

/-- The fields that are numbers. -/
theorem name_of_uint256 {version : Json} {fields : List (Str × FieldType)} {name : Str}
    (h : receiptFields version = some fields) (hmem : (name, .uint256) ∈ fields) :
    name = lit "version" ∨ name = lit "issuedAt" := by
  have hall : ∀ f ∈ fieldsV2, f.2 = .uint256 → f.1 = lit "version" ∨ f.1 = lit "issuedAt" := by
    decide
  refine hall (name, .uint256) ?_ rfl
  unfold receiptFields at h
  split at h
  · obtain rfl := Option.some.inj h
    exact List.mem_append_left _ hmem
  · split at h
    · obtain rfl := Option.some.inj h
      exact hmem
    · cases h

/-- Every version has the time. -/
theorem issuedAt_mem {version : Json} {fields : List (Str × FieldType)}
    (h : receiptFields version = some fields) : (lit "issuedAt", .uint256) ∈ fields := by
  unfold receiptFields at h
  split at h
  · obtain rfl := Option.some.inj h
    decide
  · split at h
    · obtain rfl := Option.some.inj h
      decide
    · cases h

theorem version_of_fields {version : Json} {fields : List (Str × FieldType)}
    (h : receiptFields version = some fields) : version = .int 1 ∨ version = .int 2 := by
  unfold receiptFields at h
  split at h
  next h1 => exact Or.inl h1
  next =>
    split at h
    next h2 => exact Or.inr h2
    next => cases h

/-- The fields of a payload have bytes: the texts are texts, and the time fits. -/
theorem encodeFields_iff {receipt payload : Json} {fields : List (Str × FieldType)}
    {issuedAt : Int} {sig : Str} (h : Opens712 receipt payload fields issuedAt sig) :
    (∀ f ∈ fields, Returns (encodeField R payload f)) ↔
      (∀ name v, (name, FieldType.string) ∈ fields → payload.getD name (.str []) = .ok v →
        ∃ t, v = .str t ∧ Scalar t) ∧ 0 ≤ issuedAt ∧ issuedAt < 2 ^ 256 := by
  have htime : payload.getD (lit "issuedAt") (.str []) = .ok (.int issuedAt) :=
    getD_of_find h.time (by exact fun h => by cases h) _
  constructor
  · intro hall
    refine ⟨fun name v hname hv => ?_, ?_⟩
    · have hfield := hall _ hname
      rw [encodeField, hv, ok_bind] at hfield
      obtain ⟨b, hb, -⟩ := returns_bind.mp hfield
      exact returns_encodeText.mp ⟨b, hb⟩
    · have hfield := hall _ (issuedAt_mem h.version)
      rw [encodeField, htime, ok_bind] at hfield
      exact returns_toBytes32.mp hfield
  · intro h' field hf
    obtain ⟨htexts, hfits⟩ := h'
    -- a number is the version, which has been tested, or the time
    obtain ⟨name, type⟩ := field
    cases type with
    | string =>
      obtain ⟨v, hv⟩ : ∃ v, payload.getD name (.str []) = .ok v := by
        have hdict := h.dict
        cases payload with
        | obj kvs => exact ⟨_, rfl⟩
        | _ => cases hdict
      rw [encodeField, hv, ok_bind]
      obtain ⟨b, hb⟩ := returns_encodeText.mpr (htexts name v hf hv)
      show Returns (encodeText v >>= _)
      rw [hb]
      exact ⟨_, rfl⟩
    | uint256 =>
      rcases name_of_uint256 h.version hf with rfl | rfl
      · rcases version_of_fields h.version with hv | hv
        · rw [encodeField, getD_of_find hv (by exact fun h => by cases h)]
          exact ⟨_, rfl⟩
        · rw [encodeField, getD_of_find hv (by exact fun h => by cases h)]
          exact ⟨_, rfl⟩
      · rw [encodeField, htime, ok_bind]
        exact returns_toBytes32.mpr hfits

/-! ## When `check_receipt` returns -/

theorem sigText_iff {kvs : List (Str × Json)} {sig : Str} :
    sigText ((kvs.lookup (lit "signature")).getD (.str [])) = some sig ↔
      find (.obj kvs) (lit "signature") = .str sig ∧ (lit "0x").isPrefixOf sig = true ∧
        sig.length = 132 := by
  rw [Json.find]
  cases kvs.lookup (lit "signature") with
  | none => exact iff_of_false (fun h => by cases h) (fun h => by cases h.1)
  | some v =>
    show sigText v = some sig ↔ v = .str sig ∧ _
    cases v with
    | str s =>
      rw [sigText, Json.str.injEq]
      constructor
      · intro h
        split at h
        next hshape =>
          obtain rfl := Option.some.inj h
          exact ⟨rfl, hshape⟩
        next => cases h
      · intro h
        obtain ⟨rfl, hshape⟩ := h
        rw [if_pos hshape]
    | _ => exact iff_of_false (fun h => by cases h) (fun h => by cases h.1)

/-- The EIP-712 path returns where what it opens can be verified. -/
theorem returns_checkEip712 {authorized : Authorized} {kvs : List (Str × Json)}
    (hformat : find (.obj kvs) (lit "format") = text "eip712") :
    Returns (checkEip712 R authorized (.obj kvs)) ↔
      ∀ payload fields issuedAt sig, Opens712 (.obj kvs) payload fields issuedAt sig →
        Returns (verifyEip712 R authorized payload fields sig) := by
  obtain ⟨payload, hpayload⟩ : ∃ payload, find (.obj kvs) (lit "payload") = payload := ⟨_, rfl⟩
  have hget : Json.get (.obj kvs) (lit "payload") = .ok payload := congrArg Except.ok hpayload
  have hsig : Json.getD (.obj kvs) (lit "signature") (.str []) =
      .ok ((kvs.lookup (lit "signature")).getD (.str [])) := rfl
  rw [checkEip712, hget, ok_bind, hsig, ok_bind]
  -- every test that fails is a rejection, and the receipt does not open
  by_cases hdict : payload.isObj = true
  swap
  · rw [Bool.eq_false_iff.mpr hdict]
    refine iff_of_true (returns_ok _) fun p fields issuedAt sig h => ?_
    exact absurd (h.carried.symm.trans hpayload ▸ h.dict) hdict
  rw [hdict, get_of_dict hdict]
  show Returns (Except.ok _ >>= _) ↔ _
  rw [ok_bind]
  cases hfields : receiptFields (payload.find (lit "version")) with
  | none =>
    refine iff_of_true (returns_ok _) fun p fields issuedAt sig h => ?_
    obtain rfl := h.carried.symm.trans hpayload
    rw [h.version] at hfields
    cases hfields
  | some fields =>
    dsimp only
    rw [get_of_dict hdict, ok_bind]
    cases htime : payload.find (lit "issuedAt") with
    | int issuedAt =>
      rw [isInt, Bool.not_true, if_neg Bool.false_ne_true]
      cases hs : sigText ((kvs.lookup (lit "signature")).getD (.str [])) with
      | none =>
        refine iff_of_true (returns_ok _) fun p fields issuedAt sig h => ?_
        rw [sigText_iff.mpr ⟨h.signature, h.start, h.length⟩] at hs
        cases hs
      | some sig =>
        obtain ⟨hfind, hstart, hlen⟩ := sigText_iff.mp hs
        constructor
        · intro h p fields' issuedAt' sig' hopens
          obtain rfl := hopens.carried.symm.trans hpayload
          obtain rfl := Option.some.inj (hopens.version.symm.trans hfields)
          obtain rfl := Json.str.inj (hopens.signature.symm.trans hfind)
          exact h
        · intro h
          exact h payload fields issuedAt sig
            ⟨hformat, hpayload, hdict, hfields, htime, hfind, hstart, hlen⟩
    | _ =>
      refine iff_of_true (returns_ok _) fun p fields issuedAt sig h => ?_
      obtain rfl := h.carried.symm.trans hpayload
      rw [h.time] at htime
      cases htime

/-- What base64 accepts is ASCII. -/
theorem scalar_of_unb64u {s : Str} {b : Bytes} (h : unb64u s = .ok b) : Scalar s := by
  unfold unb64u urlsafeB64decode at h
  split at h
  next hdecode =>
    split at hdecode
    next => cases hdecode
    next hascii =>
      refine List.any_eq_false.mpr fun c hc hsurrogate => hascii ?_
      refine List.any_eq_true.mpr ⟨c, List.mem_append_left _ hc, decide_eq_true ?_⟩
      simp only [isSurrogate, Bool.and_eq_true, decide_eq_true_eq] at hsurrogate
      omega
  next => cases h

theorem scalar_of_openParts {p0 p1 p2 : Str} {jws : Opened}
    (h : openParts loads p0 p1 p2 = .ok jws) : Scalar (p0 ++ lit "." ++ p1) := by
  obtain ⟨b0, hb0, h⟩ := bind_ok.mp h
  obtain ⟨head, -, h⟩ := bind_ok.mp h
  obtain ⟨b1, hb1, -⟩ := bind_ok.mp h
  exact scalar_append.mpr ⟨scalar_append.mpr ⟨scalar_of_unb64u hb0, rfl⟩, scalar_of_unb64u hb1⟩

theorem returns_expectedOf {authorized : Authorized} {kid : Json} :
    Returns (expectedOf authorized kid) ↔ hashable kid = .ok () := by
  unfold expectedOf
  rw [returns_bind]
  constructor
  · intro h
    obtain ⟨⟨⟩, h, -⟩ := h
    exact h
  · intro h
    refine ⟨(), h, ?_⟩
    cases kid <;> exact returns_ok _

/-- Behind the `try`, the head has to be a dict; where it and the signature are accepted the
payload has to be one too, and the `kid` one that can be asked for. -/
theorem returns_verifyJws {authorized : Authorized} {p0 p1 : Str} {jws : Opened}
    (hscalar : Scalar (p0 ++ lit "." ++ p1)) :
    Returns (verifyJws R authorized p0 p1 jws) ↔ jws.head.isObj = true ∧
      (jws.Accepted → jws.payload.isObj = true ∧
        ((receiptFields (jws.payload.find (lit "version"))).isSome = true →
          hashable (jws.head.find (lit "kid")) = .ok ())) := by
  -- the head is read before the gate, payload and `kid` behind it
  by_cases hhead : jws.head.isObj = true
  swap
  · rw [verifyJws, get_of_not_dict (Bool.eq_false_iff.mpr hhead)]
    exact iff_of_false (not_returns_error _) fun h => hhead h.1
  rw [verifyJws, get_of_dict hhead, ok_bind, get_of_dict hhead, ok_bind]
  by_cases hgate : jws.head.find (lit "alg") ≠ text "ES256K" ∨
      (jws.head.find (lit "kid")).truthy = false ∨ jws.raw.length ≠ 64
  · rw [if_pos hgate]
    refine iff_of_true (returns_ok _) ⟨hhead, fun h => ?_⟩
    rcases hgate with h' | h' | h'
    · exact absurd h.alg h'
    · exact absurd (h.kid.symm.trans h') (by decide)
    · exact absurd h.length h'
  rw [if_neg hgate]
  have haccepted : jws.Accepted := by
    obtain ⟨halg, hkid, hlength⟩ : _ ∧ _ ∧ _ := by
      simpa only [not_or, not_not, Bool.not_eq_false] using hgate
    exact ⟨halg, hkid, hlength⟩
  by_cases hpayload : jws.payload.isObj = true
  swap
  · rw [get_of_not_dict (Bool.eq_false_iff.mpr hpayload)]
    exact iff_of_false (not_returns_error _) fun h => hpayload (h.2 haccepted).1
  rw [get_of_dict hpayload, ok_bind]
  cases hfields : receiptFields (jws.payload.find (lit "version")) with
  | none =>
    exact iff_of_true (returns_ok _) ⟨hhead, fun _ => ⟨hpayload, fun h => by cases h⟩⟩
  | some fields =>
    dsimp only
    -- of what is left only the lookup of the `kid` can raise
    constructor
    · intro h
      obtain ⟨expected, hexpected, -⟩ := returns_bind.mp h
      exact ⟨hhead, fun _ => ⟨hpayload, fun _ => returns_expectedOf.mp ⟨_, hexpected⟩⟩⟩
    · intro h
      obtain ⟨expected, hexpected⟩ : Returns (expectedOf authorized (jws.head.find (lit "kid"))) :=
        returns_expectedOf.mpr ((h.2 haccepted).2 rfl)
      rw [hexpected, ok_bind]
      cases expected with
      | none => exact returns_ok _
      | some expected =>
        obtain ⟨a0, ha0⟩ := recoverAddress_ok (R.sha256 (utf8Bytes (p0 ++ lit "." ++ p1)))
          (fromBytesBig (jws.raw.take 32)) (fromBytesBig (jws.raw.drop 32)) 0
        obtain ⟨a1, ha1⟩ := recoverAddress_ok (R.sha256 (utf8Bytes (p0 ++ lit "." ++ p1)))
          (fromBytesBig (jws.raw.take 32)) (fromBytesBig (jws.raw.drop 32)) 1
        dsimp only
        rw [utf8_of_scalar hscalar, ok_bind]
        rw [ha0, ok_bind, ha1, ok_bind]
        split
        · exact returns_ok _
        · exact returns_ok _

theorem checkJws_of_opens {authorized : Authorized} {receipt : Json} {p0 p1 p2 : Str}
    (h : OpensJws receipt p0 p1 p2) : checkJws R loads authorized receipt =
      verifyOpened R authorized p0 p1 (openParts loads p0 p1 p2) := by
  obtain ⟨sig, hsig, hsplit⟩ := h.parts
  have hdots : splitDots (.str sig) = .ok [p0, p1, p2] := congrArg Except.ok hsplit
  rw [checkJws, h.bare, ok_bind, hsig, ok_bind, hdots]
  rfl

theorem verifyOpened_error {authorized : Authorized} {p0 p1 : Str} {e : PyError}
    (he : e ≠ .valueError) : verifyOpened R authorized p0 p1 (.error e) = .error e := by
  cases e with
  | valueError => exact absurd rfl he
  | _ => rfl

theorem checkEip712_iff {authorized : Authorized} {kvs : List (Str × Json)}
    (hformat : find (.obj kvs) (lit "format") = text "eip712") :
    Returns (checkEip712 R authorized (.obj kvs)) ↔ ¬ Raises loads (.obj kvs) := by
  have hother (h : find (.obj kvs) (lit "format") = text "jws") : False :=
    absurd (hformat.symm.trans h) (by decide +kernel)
  rw [returns_checkEip712 R hformat]
  constructor
  · intro hall hraises
    cases hraises with
    | digits h c hc hdigit =>
      obtain ⟨hdigits, -⟩ := (returns_verifyEip712 R h.length).mp (hall _ _ _ _ h)
      exact absurd (List.all_eq_true.mp hdigits c hc) (Bool.eq_false_iff.mp hdigit)
    | field h hname hv htext =>
      obtain ⟨-, hfields⟩ := (returns_verifyEip712 R h.length).mp (hall _ _ _ _ h)
      obtain ⟨t, ht, hscalar⟩ := ((encodeFields_iff R h).mp hfields).1 _ _ hname hv
      exact htext t ht hscalar
    | time h htime =>
      obtain ⟨-, hfields⟩ := (returns_verifyEip712 R h.length).mp (hall _ _ _ _ h)
      obtain ⟨-, hlow, hhigh⟩ := (encodeFields_iff R h).mp hfields
      omega
    | signature h => exact hother h
    | parts h => exact hother h.format
    | head h => exact hother h.format
    | payload h => exact hother h.format
    | kid h => exact hother h.format
  · intro hnot payload fields issuedAt sig h
    refine (returns_verifyEip712 R h.length).mpr ⟨?_, (encodeFields_iff R h).mpr ⟨?_, ?_⟩⟩
    · refine List.all_eq_true.mpr fun c hc => ?_
      by_contra hdigit
      exact hnot (.digits h c hc (Bool.eq_false_iff.mpr hdigit))
    · intro name v hname hv
      by_contra hno
      exact hnot (.field h hname hv fun t ht hscalar => hno ⟨t, ht, hscalar⟩)
    · by_contra hno
      exact hnot (.time h (by omega))

theorem checkJws_iff {authorized : Authorized} {kvs : List (Str × Json)}
    (hformat : find (.obj kvs) (lit "format") = text "jws") :
    Returns (checkJws R loads authorized (.obj kvs)) ↔ ¬ Raises loads (.obj kvs) := by
  have hother (h : find (.obj kvs) (lit "format") = text "eip712") : False :=
    absurd (hformat.symm.trans h) (by decide +kernel)
  constructor
  · intro hreturns hraises
    cases hraises with
    | digits h => exact hother h.format
    | field h => exact hother h.format
    | time h => exact hother h.format
    | @signature sig _ hbare hsig htext =>
      rw [checkJws, hbare, ok_bind, hsig, ok_bind] at hreturns
      cases sig with
      | str s => cases htext
      | _ => exact not_returns_error _ hreturns
    | parts h herror hcaught =>
      rw [checkJws_of_opens R loads h, herror, verifyOpened_error R hcaught] at hreturns
      exact not_returns_error _ hreturns
    | head h hopen hdict =>
      rw [checkJws_of_opens R loads h, hopen] at hreturns
      have hhead := ((returns_verifyJws R (scalar_of_openParts loads hopen)).mp hreturns).1
      rw [hdict] at hhead
      cases hhead
    | payload h hopen haccepted hdict =>
      rw [checkJws_of_opens R loads h, hopen] at hreturns
      obtain ⟨-, hrest⟩ := (returns_verifyJws R (scalar_of_openParts loads hopen)).mp hreturns
      have hpayload := (hrest haccepted).1
      rw [hdict] at hpayload
      cases hpayload
    | kid h hopen haccepted hversion hkey =>
      rw [checkJws_of_opens R loads h, hopen] at hreturns
      obtain ⟨-, hrest⟩ := (returns_verifyJws R (scalar_of_openParts loads hopen)).mp hreturns
      exact hkey ((hrest haccepted).2 hversion)
  · intro hnot
    cases hlookup : kvs.lookup (lit "payload") with
    | some v =>
      have hbare : get? (lit "payload") (.obj kvs) = .ok (some v) := congrArg Except.ok hlookup
      rw [checkJws, hbare]
      exact returns_ok _
    | none =>
      have hbare : get? (lit "payload") (.obj kvs) = .ok none := congrArg Except.ok hlookup
      obtain ⟨sig, hsig⟩ : ∃ sig, getD (.obj kvs) (lit "signature") (.str []) = .ok sig := ⟨_, rfl⟩
      by_cases htext : sig.isStr = true
      swap
      · exact absurd (.signature hformat hbare hsig (Bool.eq_false_iff.mpr htext)) hnot
      cases sig with
      | str sig =>
        by_cases hthree : ∃ p0 p1 p2, sig.splitOn (ofChar '.') = [p0, p1, p2]
        · obtain ⟨p0, p1, p2, hsplit⟩ := hthree
          have h : OpensJws (.obj kvs) p0 p1 p2 := ⟨hformat, hbare, sig, hsig, hsplit⟩
          rw [checkJws_of_opens R loads h]
          cases hopen : openParts loads p0 p1 p2 with
          | error e =>
            -- the `except` takes a `ValueError` alone
            by_cases he : e = .valueError
            · rw [he]
              exact returns_ok _
            · exact absurd (.parts h hopen he) hnot
          | ok jws =>
            have hscalar := scalar_of_openParts loads hopen
            refine (returns_verifyJws R hscalar).mpr ⟨?_, fun ha => ⟨?_, ?_⟩⟩
            · by_contra hdict
              exact hnot (.head h hopen (Bool.eq_false_iff.mpr hdict))
            · by_contra hdict
              exact hnot (.payload h hopen ha (Bool.eq_false_iff.mpr hdict))
            · intro hversion
              by_contra hkey
              exact hnot (.kid h hopen ha hversion hkey)
        · have hdots : splitDots (.str sig) = .ok (sig.splitOn (ofChar '.')) := rfl
          rw [checkJws, hbare, ok_bind, Option.isSome_none, if_neg Bool.false_ne_true, hsig,
            ok_bind, hdots, ok_bind]
          split
          next p0 p1 p2 hsplit => exact absurd ⟨p0, p1, p2, hsplit⟩ hthree
          next => exact returns_ok _
      | _ => cases htext

/-- **When `check_receipt` returns.** Every receipt is found valid or rejected, but those on
which one of the readings behind the tests raises. -/
theorem checkReceipt_returns_iff (kvs : List (Str × Json)) (authorized : Authorized) :
    Returns (checkReceipt R loads (.obj kvs) authorized) ↔ ¬ Raises loads (.obj kvs) := by
  have hget : Json.get (.obj kvs) (lit "format") = .ok (find (.obj kvs) (lit "format")) := rfl
  rw [checkReceipt, hget, ok_bind]
  by_cases heip : find (.obj kvs) (lit "format") = text "eip712"
  · rw [if_pos heip]
    exact checkEip712_iff R loads heip
  rw [if_neg heip]
  by_cases hjws : find (.obj kvs) (lit "format") = text "jws"
  · rw [if_pos hjws]
    exact checkJws_iff R loads hjws
  rw [if_neg hjws]
  refine iff_of_true (returns_ok _) fun hraises => ?_
  cases hraises with
  | digits h => exact heip h.format
  | field h => exact heip h.format
  | time h => exact heip h.format
  | signature h => exact hjws h
  | parts h => exact hjws h.format
  | head h => exact hjws h.format
  | payload h => exact hjws h.format
  | kid h => exact hjws h.format

/-- A signature of the right length, with no hex digit behind its prefix. -/
def noHex : Str := lit "0x" ++ List.replicate 130 (ofChar 'z')

def samplePayload712 : Json := object [("version", .int 1), ("issuedAt", .int 0)]

/-- A receipt with this signature. -/
def noHexReceipt : List (Str × Json) :=
  [(lit "format", text "eip712"), (lit "payload", samplePayload712), (lit "signature", .str noHex)]

/-- `bytes.fromhex` raises on it. -/
theorem noHexReceipt_raises : ¬ ∀ (R : Runtime) (loads : Bytes → Except PyError Json) kvs
    authorized, Returns (checkReceipt R loads (.obj kvs) authorized) := by
  intro hall
  have hformat : find (.obj noHexReceipt) (lit "format") = text "eip712" := by decide +kernel
  have hpayload : find (.obj noHexReceipt) (lit "payload") = samplePayload712 := by decide +kernel
  have hsig : find (.obj noHexReceipt) (lit "signature") = .str noHex := by decide +kernel
  have hversion : receiptFields (samplePayload712.find (lit "version")) = some fieldsV1 := by
    decide +kernel
  have hopens : Opens712 (.obj noHexReceipt) samplePayload712 fieldsV1 0 noHex :=
    ⟨hformat, hpayload, rfl, hversion, by decide +kernel, hsig, by decide +kernel,
      by decide +kernel⟩
  have hreturns := hall .sample (fun _ => .error .valueError) noHexReceipt ⟨none, none⟩
  have hget : Json.get (.obj noHexReceipt) (lit "format") = .ok (text "eip712") :=
    congrArg Except.ok hformat
  rw [checkReceipt, hget, ok_bind, if_pos rfl] at hreturns
  exact (checkEip712_iff .sample (fun _ => .error .valueError) hformat).mp hreturns
    (.digits hopens (ofChar 'z') (by decide +kernel) (by decide +kernel))

end Preaction.ReceiptCheck
