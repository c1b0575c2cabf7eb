import Preaction.Bip340
import Preaction.Ed25519Tools
import Preaction.Lib.Loop
import Preaction.Py.Base64
import Preaction.Py.Digits

/-!
# `issuer_profile.py` — the envelope check of a profile

`verify_envelope` under an issuer profile, and what is left of the promise that
the default profile reproduces `verify_proof`: both accept the genuine events
(`Genuine`), but `verify_proof` first bounds the size and the type of content
and tags (`WithinGuards`), which `verify_envelope` does not. The two agree on a
record exactly when it is within these bounds or not genuine
(`verifyEnvelope_agree_iff`).

Mirroring notes:
- A profile holds the fields the check reads. `json.loads` of bytes is an
  argument (`loadsBytes`); only a `jws-eddsa` profile gets there.
- `why` is a value; `failed` holds the names that the source joins.
- The outer `try` is the `match` in `verifyEnvelope`.
-/

namespace Preaction.IssuerProfile

open Preaction.Py
open Preaction.Bip340

/-- The `"nip01"` member of a profile. -/
structure Nip01 where
  kinds : Option (List Int)
  schemaPrefix : Option Str

/-- `ENVELOPES` -/
inductive Envelope
  | nip01Schnorr
  | jwsEddsa

/-- A profile, as far as `verify_envelope` reads it. -/
structure Profile where
  envelope : Envelope
  keys : List Str
  kidLabels : Option (List (Str × Str))
  nip01 : Option Nip01

/-- `DEFAULT_PROFILE` -/
def defaultProfile : Profile where
  envelope := .nip01Schnorr
  keys := [publishedPubkey]
  kidLabels := none
  nip01 := some { kinds := some [30078], schemaPrefix := some (lit "invinoveritas.") }

/-- `"why"` of a report. -/
inductive Why
  | ok
  | notAnEvent
  | failed (names : List Str)
  | notAJws
  | algIsNotEdDSA
  | kidNotAmongKeys
  | sig
  | malformed (e : PyError)

/-- What `verify_envelope` returns. -/
structure Report where
  valid : Bool
  payload : Option Json
  why : Why

variable (R : Runtime) (C : Secp)

/-- `payload if isinstance(payload, dict) else None` -/
def dictOnly : Option Json → Option Json
  | some (.obj kvs) => some (.obj kvs)
  | _ => none

/-- The report on a NIP-01 event whose id and kind could be read. -/
def nip01Report (keys : List Str) (nip : Nip01) (recomputed : Str) (kind : Int)
    (id pubkey sig content : Str) : Report :=
  let idOk := R.lower recomputed == R.lower id
  let sigOk := eventSchnorr R C id pubkey sig
  let keyOk := keys.contains (R.lower (R.strip pubkey))
  let payload := dictOnly (R.loads content)
  let kindOk := (nip.kinds.getD [kind]).contains kind
  let schema := match payload with
    | some (.obj kvs) => (kvs.lookup (lit "schema")).getD (.str [])
    | _ => .str []
  let shapeOk := kindOk && match nip.schemaPrefix with
    | none => true
    | some p => match schema with
      | .str s => p.isPrefixOf s
      | _ => false
  let valid := idOk && sigOk && keyOk && shapeOk
  let checks := [(lit "id", idOk), (lit "sig", sigOk), (lit "key", keyOk),
    (lit "kind/schema", shapeOk)]
  { valid := valid
    payload := payload
    why := if valid then .ok else .failed ((checks.filter (!·.2)).map (·.1)) }

/-- The branch of a `nip01-schnorr` profile. -/
def verifyNip01 (record : Json) (keys : List Str) (nip : Nip01) : Except PyError Report :=
  match record with
  | .obj kvs =>
    if requiredFields.any (missingField kvs) then .ok ⟨false, none, .notAnEvent⟩
    else do
      let recomputed ← nostrEventId R (.obj kvs)
      let id ← record.item (lit "id")
      let pubkey ← record.item (lit "pubkey")
      let sig ← record.item (lit "sig")
      let content ← record.item (lit "content")
      let kind ← (← record.item (lit "kind")) |> R.int
      return nip01Report R C keys nip recomputed kind (R.str id) (R.str pubkey) (R.str sig)
        (R.str content)
  | _ => .ok ⟨false, none, .notAnEvent⟩

/-- `_b64url(s)` -/
def b64url (s : Str) : Except PyError Bytes :=
  match urlsafeB64decode (s ++ List.replicate ((4 - s.length % 4) % 4) (ofChar '=')) with
  | some b => .ok b
  | none => .error .valueError

/-- `s.encode("ascii")` -/
def ascii (s : Str) : Except PyError Bytes :=
  if s.all (·.val < 0x80) then .ok (utf8Bytes s) else .error .unicodeEncodeError

/-- The branch of a `jws-eddsa` profile. -/
def verifyJws (loadsBytes : Bytes → Except PyError Json) (record : Json) (keys : List Str)
    (labels : List (Str × Str)) : Except PyError Report :=
  match record with
  | .obj kvs =>
    match kvs.lookup (lit "protected"), kvs.lookup (lit "payload"), kvs.lookup (lit "signature") with
    | some (.str protectedText), some (.str payloadText), some (.str signatureText) => do
      let header ← loadsBytes (← b64url protectedText)
      if (← header.get (lit "alg")) != text "EdDSA" then return ⟨false, none, .algIsNotEdDSA⟩
      let kid := R.str (← header.getD (lit "kid") (.str []))
      let kid := R.lower ((labels.lookup kid).getD kid)
      if !keys.contains kid then return ⟨false, none, .kidNotAmongKeys⟩
      let signingInput ← ascii (protectedText ++ lit "." ++ payloadText)
      let key ← bytesFromHex (.str kid)
      let signature ← b64url signatureText
      if !Ed25519Tools.verify R key signingInput signature then return ⟨false, none, .sig⟩
      let payload ← loadsBytes (← b64url payloadText)
      return ⟨(dictOnly (some payload)).isSome, dictOnly (some payload), .ok⟩
    | _, _, _ => .ok ⟨false, none, .notAJws⟩
  | _ => .ok ⟨false, none, .notAJws⟩

/-- `verify_envelope(record, profile)` -/
def verifyEnvelope (loadsBytes : Bytes → Except PyError Json) (record : Json)
    (profile : Profile) : Report :=
  let keys := profile.keys.map R.lower
  let branch := match profile.envelope with
    | .nip01Schnorr => verifyNip01 R C record keys (profile.nip01.getD ⟨none, none⟩)
    | .jwsEddsa => verifyJws R loadsBytes record keys (profile.kidLabels.getD [])
  match branch with
  | .ok report => report
  | .error e => ⟨false, none, .malformed e⟩

/-! ## What the two accept -/

/-- Content and tags have the type and the size that `verify_proof` asks for. -/
def WithinGuards (record : Json) : Prop :=
  (∃ s, record.find (lit "content") = .str s ∧ s.length ≤ 65536) ∧
  ∃ ts, (record.find (lit "tags")).orElse (.arr []) = .arr ts ∧ ts.length ≤ 256 ∧
    (R.str (.arr ts)).length ≤ 65536

/-- The four checks on an event with all its fields, of which the id and the kind could
be read. -/
def Passes (event : Json) (eid : Str) (kind : Int) : Prop :=
  R.lower eid = R.lower (R.str (event.find (lit "id"))) ∧
  eventSchnorr R C (R.str (event.find (lit "id"))) (R.str (event.find (lit "pubkey")))
    (R.str (event.find (lit "sig"))) = true ∧
  R.lower (R.strip (R.str (event.find (lit "pubkey")))) = publishedPubkey ∧
  kind = proofKind ∧
  ∃ s, schemaOf R (R.str (event.find (lit "content"))) = .str s ∧ schemaPrefix.isPrefixOf s = true

/-- An event with all its fields, whose id is its own, signed by the published key, of
the kind and the schema of a proof. -/
def Genuine (record : Json) : Prop :=
  ∃ kvs, record = .obj kvs ∧ requiredFields.any (missingField kvs) = false ∧
    ∃ eid kind, nostrEventId R record = .ok eid ∧ R.int (record.find (lit "kind")) = .ok kind ∧
      Passes R C record eid kind

variable {R C} in
theorem genuine_iff {kvs : List (Str × Json)}
    (hfields : requiredFields.any (missingField kvs) = false) {eid : Str} {kind : Int}
    (hid : nostrEventId R (.obj kvs) = .ok eid)
    (hkind : R.int ((Json.obj kvs).find (lit "kind")) = .ok kind) :
    Genuine R C (.obj kvs) ↔ Passes R C (.obj kvs) eid kind := by
  constructor
  · intro ⟨_, _, _, eid', kind', hid', hkind', hpasses⟩
    rw [hid] at hid'
    rw [hkind] at hkind'
    rwa [Except.ok.inj hid', Except.ok.inj hkind']
  · intro hpasses
    exact ⟨kvs, rfl, hfields, eid, kind, hid, hkind, hpasses⟩

/-- A required field that is not missing can be read. -/
theorem item_of_present {kvs : List (Str × Json)}
    (h : requiredFields.any (missingField kvs) = false) {k : Str} (hk : k ∈ requiredFields) :
    (Json.obj kvs).item k = .ok ((Json.obj kvs).find k) := by
  have hpresent := List.any_eq_false.mp h k hk
  unfold missingField at hpresent
  unfold Json.item Json.find
  split at hpresent
  next => exact absurd rfl hpresent
  next hnull => simp only [hnull, Option.getD_some]
  next hstr => simp only [hstr, Option.getD_some]
  next v _ _ hv => simp only [hv, Option.getD_some]

theorem schema_of_dictOnly (s : Str) :
    (match dictOnly (R.loads s) with
      | some (.obj kvs) => (kvs.lookup (lit "schema")).getD (.str [])
      | _ => .str []) = schemaOf R s := by
  unfold schemaOf dictOnly
  split
  next h =>
    split at h
    next kvs' hkvs =>
      obtain rfl := Json.obj.inj (Option.some.inj h)
      simp only [hkvs]
    next => cases h
  next h =>
    split
    next kvs' hkvs =>
      rw [hkvs] at h
      exact absurd rfl (h kvs')
    next => rfl

/-- `isinstance(schema, str) and schema.startswith(prefix)` -/
theorem startsWith_iff {schema : Json} {p : Str} :
    (match schema with
      | .str s => p.isPrefixOf s
      | _ => false) = true ↔ ∃ s, schema = .str s ∧ p.isPrefixOf s = true := by
  cases schema with
  | str s => exact ⟨fun h => ⟨s, rfl, h⟩, fun ⟨_, hs, h⟩ => Json.str.inj hs ▸ h⟩
  | _ => exact ⟨nofun, fun ⟨_, hs, _⟩ => nomatch hs⟩

theorem nip01Report_valid (hlower : R.lower publishedPubkey = publishedPubkey) (event : Json)
    (eid : Str) (kind : Int) :
    (nip01Report R C [R.lower publishedPubkey] ⟨some [30078], some (lit "invinoveritas.")⟩ eid kind
      (R.str (event.find (lit "id"))) (R.str (event.find (lit "pubkey")))
      (R.str (event.find (lit "sig"))) (R.str (event.find (lit "content")))).valid = true ↔
    Passes R C event eid kind := by
  unfold nip01Report Passes
  simp only [schema_of_dictOnly, startsWith_iff, Bool.and_eq_true, beq_iff_eq, hlower,
    List.contains_cons, List.contains_nil, Bool.or_false, Option.getD_some, and_assoc]
  rfl

/-- On an event with all its fields only the id and the kind can raise. -/
theorem verifyNip01_eq {kvs : List (Str × Json)}
    (hfields : requiredFields.any (missingField kvs) = false) (keys : List Str) (nip : Nip01) :
    verifyNip01 R C (.obj kvs) keys nip = (do
      let recomputed ← nostrEventId R (.obj kvs)
      let kind ← R.int ((Json.obj kvs).find (lit "kind"))
      return nip01Report R C keys nip recomputed kind (R.str ((Json.obj kvs).find (lit "id")))
        (R.str ((Json.obj kvs).find (lit "pubkey"))) (R.str ((Json.obj kvs).find (lit "sig")))
        (R.str ((Json.obj kvs).find (lit "content")))) := by
  have hitem {k : Str} := item_of_present hfields (k := k)
  unfold verifyNip01
  dsimp only
  rw [if_neg (Bool.eq_false_iff.mp hfields), hitem (by decide), hitem (by decide),
    hitem (by decide), hitem (by decide), hitem (by decide)]
  rfl

/-- Under the default profile the check accepts the genuine events. -/
theorem verifyEnvelope_valid_iff (hlower : R.lower publishedPubkey = publishedPubkey)
    (loadsBytes : Bytes → Except PyError Json) (record : Json) :
    (verifyEnvelope R C loadsBytes record defaultProfile).valid = true ↔ Genuine R C record := by
  unfold verifyEnvelope
  show (match verifyNip01 R C record [R.lower publishedPubkey]
    ⟨some [30078], some (lit "invinoveritas.")⟩ with
    | .ok report => report
    | .error e => ⟨false, none, .malformed e⟩).valid = true ↔ _
  cases record with
  | obj kvs =>
    cases hfields : requiredFields.any (missingField kvs) with
    | true =>
      unfold verifyNip01
      dsimp only
      rw [if_pos hfields]
      refine ⟨nofun, ?_⟩
      intro ⟨kvs', hkvs, h, _⟩
      rw [← Json.obj.inj hkvs, hfields] at h
      cases h
    | false =>
      rw [verifyNip01_eq R C hfields]
      cases hid : nostrEventId R (.obj kvs) with
      | error e =>
        refine ⟨nofun, ?_⟩
        intro ⟨_, _, _, _, _, h, _⟩
        rw [hid] at h
        cases h
      | ok eid =>
        cases hkind : R.int ((Json.obj kvs).find (lit "kind")) with
        | error e =>
          refine ⟨nofun, ?_⟩
          intro ⟨_, _, _, _, _, _, h, _⟩
          rw [hkind] at h
          cases h
        | ok kind =>
          rw [genuine_iff hfields hid hkind]
          exact nip01Report_valid R C hlower _ eid kind
  | _ => exact ⟨nofun, fun ⟨_, h, _⟩ => nomatch h⟩

/-- `verify_proof` makes the same checks on an event with all its fields. -/
theorem proofChecks_eq {kvs : List (Str × Json)}
    (hfields : requiredFields.any (missingField kvs) = false) (pin : Str) :
    proofChecks R C (.obj kvs) pin = (do
      let recomputed ← nostrEventId R (.obj kvs)
      let kind ← R.int ((Json.obj kvs).find (lit "kind"))
      return {
        idIntegrity := R.lower recomputed == R.lower (R.str ((Json.obj kvs).find (lit "id")))
        signatureValid := eventSchnorr R C (R.str ((Json.obj kvs).find (lit "id")))
          (R.str ((Json.obj kvs).find (lit "pubkey"))) (R.str ((Json.obj kvs).find (lit "sig")))
        issuedByInvinoveritas := !pin.isEmpty &&
          R.lower (R.strip (R.str ((Json.obj kvs).find (lit "pubkey")))) == pin
        isProofEvent := kind == proofKind &&
          match schemaOf R (R.str ((Json.obj kvs).find (lit "content"))) with
          | .str s => schemaPrefix.isPrefixOf s
          | _ => false }) := by
  have hitem {k : Str} := item_of_present hfields (k := k)
  unfold proofChecks
  rw [hitem (by decide), hitem (by decide), hitem (by decide), hitem (by decide),
    hitem (by decide)]
  rfl

theorem getD_of_find_str {kvs : List (Str × Json)} {k s : Str}
    (h : (Json.obj kvs).find k = .str s) : (kvs.lookup k).getD (.str []) = .str s := by
  unfold Json.find at h
  dsimp only at h
  cases hk : kvs.lookup k with
  | none =>
    rw [hk] at h
    cases h
  | some v =>
    rw [hk] at h
    exact h

theorem getD_of_item {kvs : List (Str × Json)} {k : Str} {v : Json}
    (h : (Json.obj kvs).item k = .ok v) (default : Json) : (kvs.lookup k).getD default = v := by
  unfold Json.item at h
  dsimp only at h
  cases hk : kvs.lookup k with
  | none =>
    rw [hk] at h
    cases h
  | some w =>
    rw [hk] at h
    exact Except.ok.inj h

theorem getD_orElse (kvs : List (Str × Json)) (k : Str) :
    ((kvs.lookup k).getD (.arr [])).orElse (.arr []) =
      ((Json.obj kvs).find k).orElse (.arr []) := by
  unfold Json.find
  dsimp only
  cases kvs.lookup k with
  | none => rfl
  | some v => rfl

theorem proofChecks_valid_iff {kvs : List (Str × Json)}
    (hfields : requiredFields.any (missingField kvs) = false) :
    (∃ checks, proofChecks R C (.obj kvs) publishedPubkey = .ok checks ∧
      (checks.idIntegrity && checks.signatureValid && checks.issuedByInvinoveritas
        && checks.isProofEvent) = true) ↔ Genuine R C (.obj kvs) := by
  rw [proofChecks_eq R C hfields]
  simp only [Loop.bind_ok]
  constructor
  · intro ⟨checks, ⟨eid, hid, kind, hkind, hchecks⟩, hvalid⟩
    obtain rfl := Except.ok.inj hchecks
    refine (genuine_iff hfields hid hkind).mpr ?_
    have hpin : publishedPubkey.isEmpty = false := by decide
    simp only [hpin, startsWith_iff, Bool.and_eq_true, beq_iff_eq, Bool.not_false, true_and,
      and_assoc] at hvalid
    exact hvalid
  · intro h
    obtain ⟨_, _, _, eid, kind, hid, hkind, hpasses⟩ := h
    refine ⟨_, ⟨eid, hid, kind, hkind, rfl⟩, ?_⟩
    have hpin : publishedPubkey.isEmpty = false := by decide
    simp only [hpin, startsWith_iff, Bool.and_eq_true, beq_iff_eq, Bool.not_false, true_and,
      and_assoc]
    exact hpasses

/-- `verify_proof` accepts the genuine events within its bounds. -/
theorem verifyProof_valid_iff (hlower : R.lower publishedPubkey = publishedPubkey)
    (hstrip : R.strip publishedPubkey = publishedPubkey) (record : Json) :
    (verifyProof R C record publishedPubkey).valid = true ↔
      Genuine R C record ∧ WithinGuards R record := by
  unfold verifyProof
  rw [hstrip, hlower]
  cases record with
  | obj kvs =>
    dsimp only
    rw [getD_orElse]
    split
    next contentText tagList hcontent htags =>
      have hguards : WithinGuards R (.obj kvs) →
          contentText.length ≤ 65536 ∧ tagList.length ≤ 256 ∧
            (R.str (.arr tagList)).length ≤ 65536 := by
        intro ⟨⟨s, hs, hslen⟩, ts, hts, htslen, htstr⟩
        rw [getD_of_find_str hs] at hcontent
        rw [hts] at htags
        obtain rfl := Json.str.inj hcontent
        obtain rfl := Json.arr.inj htags
        exact ⟨hslen, htslen, htstr⟩
      by_cases hlen : 65536 < contentText.length
      · rw [if_pos hlen]
        refine ⟨nofun, fun h => ?_⟩
        have := (hguards h.2).1
        omega
      · rw [if_neg hlen]
        by_cases htagsize : 256 < tagList.length ∨
            65536 < (R.str (((Json.obj kvs).find (lit "tags")).orElse (.arr []))).length
        · rw [if_pos htagsize]
          refine ⟨nofun, fun h => ?_⟩
          have := (hguards h.2).2
          rw [htags] at htagsize
          omega
        · rw [if_neg htagsize]
          cases hfields : requiredFields.any (missingField kvs) with
          | true =>
            rw [if_pos rfl]
            refine ⟨nofun, ?_⟩
            intro ⟨⟨kvs', hkvs, h, _⟩, _⟩
            rw [← Json.obj.inj hkvs, hfields] at h
            cases h
          | false =>
            rw [if_neg Bool.false_ne_true, ← proofChecks_valid_iff R C hfields]
            have hfind : (Json.obj kvs).find (lit "content") = .str contentText :=
              (getD_of_item (item_of_present hfields (by decide)) _).symm.trans hcontent
            have hwithin : WithinGuards R (.obj kvs) := by
              rw [htags] at htagsize
              exact ⟨⟨contentText, hfind, by omega⟩, tagList, htags, by omega, by omega⟩
            rw [and_iff_left hwithin]
            cases hchecks : proofChecks R C (.obj kvs) publishedPubkey with
            | error e => exact ⟨nofun, fun ⟨_, h, _⟩ => nomatch h⟩
            | ok checks =>
              exact ⟨fun h => ⟨checks, rfl, h⟩, fun ⟨_, h, hv⟩ => Except.ok.inj h ▸ hv⟩
    next contentText hcontent htags =>
      refine ⟨fun h => ?_, ?_⟩
      · split at h
        next => cases h
        next => cases h
      · intro ⟨_, _, ts, hts, _⟩
        exact absurd hts (htags ts)
    next hcontent _ =>
      refine ⟨nofun, ?_⟩
      intro ⟨_, ⟨s, hs, _⟩, _⟩
      exact absurd (getD_of_find_str hs) (hcontent s)
  | _ => exact ⟨nofun, fun ⟨⟨_, h, _⟩, _⟩ => nomatch h⟩

/-! ## Where the two agree -/

/-- `lower` and `strip` leave the hex of bytes as it is. -/
def KeepsHex : Prop := ∀ b : Bytes, R.lower (hexStr b) = hexStr b ∧ R.strip (hexStr b) = hexStr b

variable {R} in
theorem KeepsHex.publishedPubkey (h : KeepsHex R) :
    R.lower publishedPubkey = publishedPubkey ∧ R.strip publishedPubkey = publishedPubkey := by
  have hhex : hexStr ((fromHex Bip340.publishedPubkey).getD []) = Bip340.publishedPubkey := by
    decide +kernel
  have hkeep := h ((fromHex Bip340.publishedPubkey).getD [])
  rwa [hhex] at hkeep

/-- The two agree on a record exactly when it is within the bounds or not genuine. -/
theorem verifyEnvelope_agree_iff (hR : KeepsHex R)
    (loadsBytes : Bytes → Except PyError Json) (record : Json) :
    (verifyEnvelope R C loadsBytes record defaultProfile).valid =
        (verifyProof R C record publishedPubkey).valid ↔
      (Genuine R C record → WithinGuards R record) := by
  obtain ⟨hlower, hstrip⟩ := hR.publishedPubkey
  rw [Bool.eq_iff_iff, verifyEnvelope_valid_iff R C hlower,
    verifyProof_valid_iff R C hlower hstrip, iff_self_and]

/-- A runtime of one digest, for concrete runs. -/
def flatRuntime : Runtime := { Runtime.sample with sha256 := fun _ => List.replicate 32 0 }

theorem keepsHex_flatRuntime : KeepsHex flatRuntime := by
  have hdigit : ∀ n < 16, lowerPoint (hexDigit n) = hexDigit n := by decide
  intro b
  refine ⟨?_, rfl⟩
  show Runtime.asciiLower (hexStr b) = hexStr b
  rw [asciiLower_eq_map]
  refine (List.map_congr_left fun c hc => ?_).trans (List.map_id _)
  obtain ⟨n, hn, rfl⟩ := mem_hexStr hc
  exact hdigit n hn

/-- An event of the published key with the given tags. -/
def sampleEvent (tags : List Json) : Json :=
  object [("id", .str (List.replicate 64 (ofChar '0'))), ("pubkey", .str publishedPubkey),
    ("created_at", .int 1700000000), ("kind", .int 30078), ("tags", .arr tags),
    ("content", text "\x7b\"schema\":\"invinoveritas.verdict\"\x7d"),
    ("sig", .str (List.replicate 128 (ofChar '0')))]

/-- The reader of a profile that no `nip01-schnorr` check uses. -/
def noBytes : Bytes → Except PyError Json := fun _ => .error .valueError

/-- A genuine event with as many tags as `verify_proof` takes. -/
def fullTags : Json := sampleEvent (List.replicate 256 (.arr [text "t", text "a"]))

/-- A genuine event with one tag more. -/
def manyTags : Json := sampleEvent (List.replicate 257 (.arr [text "t", text "a"]))

/-- Both verifiers accept the first. -/
theorem fullTags_agree :
    (verifyEnvelope flatRuntime .onePoint noBytes fullTags defaultProfile).valid = true ∧
      (verifyProof flatRuntime .onePoint fullTags publishedPubkey).valid = true := by
  have hproof : (verifyProof flatRuntime .onePoint fullTags publishedPubkey).valid = true := by
    decide +kernel
  have hwithin : WithinGuards flatRuntime fullTags := by
    refine ⟨⟨_, rfl, by decide⟩, _, rfl, ?_, Nat.zero_le _⟩
    exact Nat.le_of_eq (List.length_replicate ..)
  have hagree := (verifyEnvelope_agree_iff flatRuntime .onePoint keepsHex_flatRuntime noBytes
    fullTags).mpr fun _ => hwithin
  exact ⟨hagree.trans hproof, hproof⟩

/-- Of the second `verify_envelope` says valid, `verify_proof` not. -/
theorem manyTags_disagree :
    (verifyEnvelope flatRuntime .onePoint noBytes manyTags defaultProfile).valid = true ∧
      (verifyProof flatRuntime .onePoint manyTags publishedPubkey).valid = false := by
  decide +kernel

end Preaction.IssuerProfile
