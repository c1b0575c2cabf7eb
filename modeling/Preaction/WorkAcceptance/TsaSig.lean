import Preaction.Py.Date
import Preaction.WorkAcceptance.Tst

/-!
# `tsa_sig.py` — reading a time-stamp token as CMS

`Token` takes the same bytes apart by position: a TimeStampResp or a ContentInfo,
its SignedData, the eContent of the encapContentInfo, the certificates, the first
SignerInfo. The eContent is what the message digest and with it the signature of
the authority are over.

Mirroring notes:
- The reader works with offsets into the whole token and checks a length against
  the end of the token, not of the element around it.
- `datetime.strptime` matches its format from the left and then asks that nothing
  is left over, so a field takes two digits where two fit.
-/

namespace Preaction.TsaSig

open Preaction.Py Preaction.WarCheck

/-- `OID_SIGNED_DATA` -/
def oidSignedData : Str := lit "1.2.840.113549.1.7.2"

/-- `b[i]` -/
def byteAt (b : Bytes) (i : Nat) : Except PyError UInt8 :=
  match b[i]? with
  | some x => .ok x
  | none => .error .indexError

/-- `b[s:e]` -/
def span (b : Bytes) (s e : Nat) : Bytes := (b.take e).drop s

/-- An element: its tag, where its content starts and stops, and where it does. -/
structure Elem where
  tag : UInt8
  start : Nat
  stop : Nat
  pos : Nat
  next : Nat
  deriving DecidableEq, Repr

/-- `b[s:e]` of the content of an element. -/
def Elem.content (b : Bytes) (e : Elem) : Bytes := span b e.start e.stop

/-- `tlv(b, i)` -/
def tlv (b : Bytes) (i : Nat) : Except PyError Elem := do
  let tag ← byteAt b i
  if tag.toNat % 0x20 = 0x1F then .error .valueError
  else
    let ln ← byteAt b (i + 1)
    let k := ln.toNat - 0x80
    if 0x80 ≤ ln.toNat ∧ (k = 0 ∨ 4 < k) then .error .valueError
    else
      let (n, j) := if ln.toNat < 0x80 then (ln.toNat, i + 2)
        else (fromBytesBig (span b (i + 2) (i + 2 + k)), i + 2 + k)
      if b.length < j + n then .error .valueError
      else return ⟨tag, j, j + n, i, j + n⟩

/-- The loop of `children`; each element takes two bytes. -/
def childrenAux (b : Bytes) (stop : Nat) : Nat → Nat → Except PyError (List Elem)
  | 0, _ => .ok []
  | fuel + 1, i =>
    if i < stop then do
      let e ← tlv b i
      return e :: (← childrenAux b stop fuel e.next)
    else .ok []

/-- `children(b, start, end)` -/
def children (b : Bytes) (start stop : Nat) : Except PyError (List Elem) :=
  childrenAux b stop (stop - start) start

/-- The elements in the content of an element. -/
def childrenOf (b : Bytes) (e : Elem) : Except PyError (List Elem) := children b e.start e.stop

/-- `oid(b, s, e)`: the first number is one byte. -/
def oid (b : Bytes) (e : Elem) : Except PyError Str :=
  match e.content b with
  | [] => .error .indexError
  | first :: v => .ok (oidText first.toNat (base128 0 v))

/-- `xs[i]` -/
def nth (xs : List Elem) (i : Nat) : Except PyError Elem :=
  match xs[i]? with
  | some x => .ok x
  | none => .error .indexError

/-- `alg_id(b, s, e)` -/
def algId (b : Bytes) (e : Elem) : Except PyError (Str × Option Elem) := do
  let ch ← childrenOf b e
  return (← oid b (← nth ch 0), ch[1]?)

/-! ## `datetime.strptime(whole, "%Y%m%d%H%M%S")` -/

/-- The alternatives of a field, each a range for every character. -/
abbrev Field := List (List (Char × Char))

def yearField : Field := [[('0', '9'), ('0', '9'), ('0', '9'), ('0', '9')]]
def monthField : Field := [[('1', '1'), ('0', '2')], [('0', '0'), ('1', '9')], [('1', '9')]]
def dayField : Field := [[('3', '3'), ('0', '1')], [('1', '2'), ('0', '9')], [('0', '0'), ('1', '9')],
  [('1', '9')], [(' ', ' '), ('1', '9')]]
def hourField : Field := [[('2', '2'), ('0', '3')], [('0', '1'), ('0', '9')], [('0', '9')]]
def minuteField : Field := [[('0', '5'), ('0', '9')], [('0', '9')]]
def secondField : Field := [[('6', '6'), ('0', '1')], [('0', '5'), ('0', '9')], [('0', '9')]]

/-- The text starts with one character of each range; the value of the digits and
what follows. -/
def readAlternative : Nat → List (Char × Char) → Str → Option (Nat × Str)
  | n, [], s => some (n, s)
  | _, _ :: _, [] => none
  | n, (lo, hi) :: rest, c :: s =>
    if (ofChar lo).val ≤ c.val ∧ c.val ≤ (ofChar hi).val then
      readAlternative (10 * n + (c.val - 0x30)) rest s
    else none

/-- The ways to read a field, the preferred one first. -/
def readField (f : Field) (s : Str) : List (Nat × Str) := f.filterMap fun alt =>
  readAlternative 0 alt s

/-- All matches of the format at the start of the text, the preferred one first. -/
def readDateTime (s : Str) : List (DateTime × Str) :=
  (readField yearField s).flatMap fun (y, s) =>
  (readField monthField s).flatMap fun (m, s) =>
  (readField dayField s).flatMap fun (d, s) =>
  (readField hourField s).flatMap fun (h, s) =>
  (readField minuteField s).flatMap fun (mi, s) =>
  (readField secondField s).map fun (se, s) => (⟨y, m, d, h, mi, se⟩, s)

/-- `datetime.strptime(s, "%Y%m%d%H%M%S")` -/
def strptime (s : Str) : Except PyError DateTime :=
  match readDateTime s with
  | (t, []) :: _ => if t.isValid then .ok t else .error .valueError
  | _ => .error .valueError

example : strptime (lit "20260301000005") = .ok ⟨2026, 3, 1, 0, 0, 5⟩ := by rfl

/-! ## The token -/

/-- How a SignerInfo names its certificate. -/
inductive SignerId
  | issuerSerial (issuer : Bytes) (serial : Int)
  | ski (keyId : Bytes)
  deriving DecidableEq, Repr

/-- The dict `_signer_info` returns. -/
structure Signer where
  sid : SignerId
  digestAlg : Str
  attrs : List (Str × List Elem)
  attrsDer : Option Bytes
  sigAlg : Str
  sigParams : Option Elem
  signature : Bytes

/-- `Token` -/
structure Token where
  econtentType : Str
  econtent : Bytes
  certsDer : List Bytes
  signer : Option Signer
  genTime : DateTime

/-- `int.from_bytes(v, "big", signed=True)` -/
def fromBytesSigned (v : Bytes) : Int :=
  match v with
  | [] => 0
  | x :: _ => if x.toNat < 0x80 then fromBytesBig v else fromBytesBig v - 256 ^ v.length

/-- `attrs.setdefault(name, []).extend(vals)` -/
def extendAttr (name : Str) (vals : List Elem) (attrs : List (Str × List Elem)) :
    List (Str × List Elem) :=
  setKey name ((attrs.lookup name).getD [] ++ vals) attrs

/-- The signed attributes of a SignerInfo. -/
def readAttrs (b : Bytes) : List Elem → List (Str × List Elem) →
    Except PyError (List (Str × List Elem))
  | [], attrs => .ok attrs
  | a :: rest, attrs => do
    let ac ← childrenOf b a
    let vals ← childrenOf b (← nth ac 1)
    readAttrs b rest (extendAttr (← oid b (← nth ac 0)) vals attrs)

/-- The signer identifier. -/
def readSignerId (b : Bytes) (sid : Elem) : Except PyError SignerId := do
  if sid.tag = 0x30 then
    let sc ← childrenOf b sid
    let issuer ← nth sc 0
    let serial ← nth sc 1
    return .issuerSerial (span b issuer.pos issuer.next) (fromBytesSigned (serial.content b))
  else return .ski (sid.content b)

/-- `_signer_info(el)` -/
def signerInfo (b : Bytes) (el : Elem) : Except PyError Signer := do
  let f ← childrenOf b el
  let sid ← readSignerId b (← nth f 1)
  let (digestAlg, _) ← algId b (← nth f 2)
  let third ← nth f 3
  -- the signature covers the attributes under the SET OF tag, not `[0]`
  let signed := third.tag == 0xA0
  let attrsDer := if signed then some (0x31 :: span b (third.pos + 1) third.next) else none
  let attrs ← if signed then readAttrs b (← childrenOf b third) [] else pure []
  let k := if signed then 4 else 3
  let (sigAlg, sigParams) ← algId b (← nth f k)
  let signature := (← nth f (k + 1)).content b
  return ⟨sid, digestAlg, attrs, attrsDer, sigAlg, sigParams, signature⟩

/-- `txt.rstrip("Z")` -/
def rstripZ (s : Str) : Str := (s.reverse.dropWhile (· == ofChar 'Z')).reverse

/-- `_gen_time()` -/
def readGenTime (econtent : Bytes) : Except PyError DateTime := do
  let info ← tlv econtent 0
  let f ← childrenOf econtent info
  match f.find? (·.tag == 0x18) with
  | none => .error .valueError
  | some e =>
    let text := e.content econtent
    if text.any (0x80 ≤ ·.toNat) then .error .valueError
    else
      let s := rstripZ (text.map fun x => Fin.ofNat _ x.toNat)
      strptime (s.takeWhile (· != ofChar '.'))

/-- The elements of the ContentInfo, out of a TimeStampResp or not. -/
def contentInfo (b : Bytes) : Except PyError (List Elem) := do
  let ci ← childrenOf b (← tlv b 0)
  match ci with
  | status :: token :: _ =>
    if status.tag = 0x30 ∧ token.tag = 0x30 then childrenOf b token else return ci
  | _ => return ci

/-- The certificates, and what follows them and the revocation lists. -/
def readCerts (b : Bytes) : List Elem → List Bytes → Except PyError (List Bytes × List Elem)
  | [], certs => .ok (certs, [])
  | e :: rest, certs =>
    if e.tag = 0xA0 then do
      let cs ← childrenOf b e
      readCerts b rest ((cs.filter (·.tag == 0x30)).map fun c => span b c.pos c.next)
    else if e.tag = 0xA1 then readCerts b rest certs
    else .ok (certs, e :: rest)

/-- `Token(der)` -/
def readToken (b : Bytes) : Except PyError Token := do
  let ci ← contentInfo b
  let first ← nth ci 0
  let isSignedData ← if first.tag = 0x06 then (· == oidSignedData) <$> oid b first else pure false
  if !isSignedData then .error .valueError
  else
    let sd ← childrenOf b (← tlv b (← nth ci 1).start)
    let enc ← childrenOf b (← nth sd 2)
    let econtentType ← oid b (← nth enc 0)
    let econtent := (← tlv b (← nth enc 1).start).content b
    let (certsDer, rest) ← readCerts b (sd.drop 3) []
    let sis ← match rest with
      | [] => pure []
      | e :: _ => childrenOf b e
    let signer ← sis.head?.mapM (signerInfo b)
    return ⟨econtentType, econtent, certsDer, signer, ← readGenTime econtent⟩

end Preaction.TsaSig
