import Preaction.Py.Runtime

/-!
# `_bip340_nostr.py` — BIP-340, NIP-01 and the proof verifier

The vendored core every signature check of the suite goes through:
`schnorr_verify`, the NIP-01 event id, and `verify_proof` on top of both.

The secp256k1 group law is a parameter (`Secp`): the checkers only ever
form `s·G + (N - e)·P` for a lifted `P` and look at the coordinates of the
sum, so nothing below depends on how points are added. `Secp.Lawful` is the
one fact about the curve any result uses: a lifted point has order dividing
`N`.

Mirroring notes:
- `none` is the point at infinity, as `None` in the source.
- An exception is an `Except` error; `verify_proof` catches them all, so its
  model is a plain function.
-/

namespace Preaction.Bip340

open Preaction.Py

/-- `_P` -/
def fieldPrime : Nat := 0xFFFFFFFFFFFFFFFFFFFFFFFFFFFFFFFFFFFFFFFFFFFFFFFFFFFFFFFEFFFFFC2F

/-- `_N` -/
def groupOrder : Nat := 0xFFFFFFFFFFFFFFFFFFFFFFFFFFFFFFFEBAAEDCE6AF48A03BBFD25E8CD0364141

/-- The secp256k1 operations the verifiers use. -/
structure Secp where
  Pt : Type
  /-- `_lift_x`: the point with this x and even y; none when there is none. -/
  liftX : Nat → Option Pt
  /-- `_point_add` -/
  add : Option Pt → Option Pt → Option Pt
  /-- `_point_mul` -/
  mul : Pt → Nat → Option Pt
  /-- `_G` -/
  G : Pt
  x : Pt → Nat
  y : Pt → Nat

/-- `N` and `0` times a lifted point are the point at infinity. -/
def Secp.Lawful (C : Secp) : Prop :=
  ∀ x P, C.liftX x = some P → C.mul P groupOrder = none ∧ C.mul P 0 = none

/-- A group of one finite point, in the place of the curve in concrete runs: a
signature verifies when its `r` is zero. -/
def Secp.onePoint : Secp where
  Pt := Unit
  liftX _ := some ()
  add _ _ := some ()
  mul _ k := if k % groupOrder = 0 then none else some ()
  G := ()
  x _ := 0
  y _ := 0

theorem Secp.onePoint_lawful : Secp.onePoint.Lawful := fun _ _ _ => ⟨rfl, rfl⟩

variable (R : Runtime) (C : Secp)

/-- `_tagged_hash` -/
def taggedHash (tag : Str) (msg : Bytes) : Bytes :=
  let t := R.sha256 (utf8Bytes tag)
  R.sha256 (t ++ t ++ msg)

/-- `"BIP0340/challenge"` -/
def challengeTag : Str := lit "BIP0340/challenge"

/-- `schnorr_verify(msg32, pubkey32, sig64)` -/
def schnorrVerify (msg32 pubkey32 sig64 : Bytes) : Bool :=
  if msg32.length ≠ 32 ∨ pubkey32.length ≠ 32 ∨ sig64.length ≠ 64 then false
  else match C.liftX (fromBytesBig pubkey32) with
    | none => false
    | some P =>
      let r := fromBytesBig (sig64.take 32)
      let s := fromBytesBig (sig64.drop 32)
      if fieldPrime ≤ r ∨ groupOrder ≤ s then false
      else
        let e := fromBytesBig (taggedHash R challengeTag (sig64.take 32 ++ pubkey32 ++ msg32))
          % groupOrder
        match C.add (C.mul C.G s) (C.mul P (groupOrder - e)) with
        | none => false
        | some Q => !(C.y Q % 2 ≠ 0 || C.x Q ≠ r)

/-- The NIP-01 serialization `[0, pubkey, created_at, kind, tags, content]`. -/
def nostrSerial (pubkey : Str) (createdAt kind : Int) (tags : Json) (content : Str) : Str :=
  print R.dumpsFormat
    (.arr [.int 0, .str (R.lower pubkey), .int createdAt, .int kind, tags, .str content])

/-- `nostr_event_id(event)` -/
def nostrEventId (event : Json) : Except PyError Str := do
  let pubkey ← event.item (lit "pubkey")
  let createdAt ← (← event.item (lit "created_at")) |> R.int
  let kind ← (← event.item (lit "kind")) |> R.int
  let tags ← event.getD (lit "tags") (.arr [])
  let content ← event.item (lit "content")
  let serial := nostrSerial R (R.str pubkey) createdAt kind (tags.orElse (.arr [])) (R.str content)
  return R.sha256Hex (← utf8 serial)

/-! ## `verify_proof` -/

/-- `PUBLISHED_PUBKEY` -/
def publishedPubkey : Str :=
  lit "6786e18a864893a900bd9858e650f67ccc3513f248fed374b591e2ff6922fbb7"

/-- `PROOF_KIND` -/
def proofKind : Int := 30078

/-- `SCHEMA_PREFIX` -/
def schemaPrefix : Str := lit "invinoveritas."

/-- `out["checks"]` -/
structure Checks where
  idIntegrity : Bool
  signatureValid : Bool
  issuedByInvinoveritas : Bool
  isProofEvent : Bool
  deriving DecidableEq

/-- `out["error"]` -/
inductive ProofError
  | notAnObject
  | contentTooLargeOrNotStr
  | tagsTooLarge
  | missingRequiredFields
  | malformedEvent (e : PyError)
  | notAVerdictProof
  deriving DecidableEq

/-- What `verify_proof` returns. -/
structure ProofReport where
  valid : Bool
  checks : Checks
  error : Option ProofError
  proofPayload : Option Json

/-- The report of an event refused before any check ran. -/
def ProofReport.refused (e : ProofError) : ProofReport :=
  ⟨false, ⟨false, false, false, false⟩, some e, none⟩

/-- `schnorr_verify` over the hex fields of an event; an exception is `False`. -/
def eventSchnorr (id pubkey sig : Str) : Bool :=
  match fromHex id, fromHex pubkey, fromHex sig with
  | some m, some k, some s => schnorrVerify R C m k s
  | _, _, _ => false

/-- `json.loads(content).get("schema", "")`, `""` on any exception. -/
def schemaOf (content : Str) : Json :=
  match R.loads content with
  | some (.obj kvs) => (kvs.lookup (lit "schema")).getD (.str [])
  | _ => .str []

/-- The four checks, in the order they are made. -/
def proofChecks (event : Json) (pin : Str) : Except PyError Checks := do
  let recomputed ← nostrEventId R event
  let id ← event.item (lit "id")
  let pubkey ← event.item (lit "pubkey")
  let sig ← event.item (lit "sig")
  let content ← event.item (lit "content")
  let kind ← (← event.item (lit "kind")) |> R.int
  let schema := schemaOf R (R.str content)
  return {
    idIntegrity := R.lower recomputed == R.lower (R.str id)
    signatureValid := eventSchnorr R C (R.str id) (R.str pubkey) (R.str sig)
    issuedByInvinoveritas := !pin.isEmpty && R.lower (R.strip (R.str pubkey)) == pin
    isProofEvent := kind == proofKind && match schema with
      | .str s => schemaPrefix.isPrefixOf s
      | _ => false }

/-- A required field that is absent, `None` or `""`. -/
def missingField (kvs : List (Str × Json)) (k : Str) : Bool :=
  match kvs.lookup k with
  | none => true
  | some .null => true
  | some (.str s) => s.isEmpty
  | some _ => false

/-- The fields `verify_proof` requires. -/
def requiredFields : List Str :=
  [lit "id", lit "pubkey", lit "created_at", lit "kind", lit "content", lit "sig"]

/-- `verify_proof(event, expect_pubkey)` -/
def verifyProof (event : Json) (expectPubkey : Str) : ProofReport :=
  let pin := R.lower (R.strip expectPubkey)
  match event with
  | .obj kvs =>
    let content := (kvs.lookup (lit "content")).getD (.str [])
    let tags := ((kvs.lookup (lit "tags")).getD (.arr [])).orElse (.arr [])
    match content, tags with
    | .str contentText, .arr tagList =>
      if 65536 < contentText.length then .refused .contentTooLargeOrNotStr
      else if 256 < tagList.length ∨ 65536 < (R.str tags).length then .refused .tagsTooLarge
      else if requiredFields.any (missingField kvs) then .refused .missingRequiredFields
      else match proofChecks R C event pin with
        | .error e => .refused (.malformedEvent e)
        | .ok checks =>
          { valid := checks.idIntegrity && checks.signatureValid && checks.issuedByInvinoveritas
              && checks.isProofEvent
            checks := checks
            error := if checks.signatureValid && checks.issuedByInvinoveritas
              && !checks.isProofEvent then some .notAVerdictProof else none
            proofPayload := R.loads contentText }
    | .str contentText, _ =>
      if 65536 < contentText.length then .refused .contentTooLargeOrNotStr
      else .refused .tagsTooLarge
    | _, _ => .refused .contentTooLargeOrNotStr
  | _ => .refused .notAnObject

end Preaction.Bip340
