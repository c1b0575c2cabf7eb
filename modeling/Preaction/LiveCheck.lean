import Mathlib.Data.List.Infix
import Preaction.Bip340
import Preaction.Lib.Loop
import Preaction.Py.Base64

/-!
# `adapters/live_check.py` — the admission invariant of a live endpoint

A mapping says where an endpoint's response carries an envelope hash, a
signature and the key it is by; `run` reports `admission_invariant` pass
when a signature verifies and the key is trusted and not the actor's. Which
signature that is depends on the scheme:

- `bip340…`: Schnorr by `pubkey` over the envelope hash;
- `ed25519…`: Ed25519 by `pubkey` over the hash, raw or as hex text;
- a JWS leg by `pubkey` whose payload is the canonical bytes;
- `nostr-event`: Schnorr over the id of an event *by the event's own key*.

The last one is checked inside the event and never compared with the
`pubkey` and `envelope_hash` the other tests are about.
`admission_pass_tied_iff` is the exact extent of that.

Mirroring notes:
- The response is an argument; fetching it is not modelled. `run` is followed
  up to `admission_invariant`: the other suites, the texts, the audit record
  and the co-signer count do not feed it and are left out, so what they
  raise is not seen here.
- The schemes are arbitrary functions. `ed25519` is none where PyNaCl is not
  installed, and a key of a wrong length is one that verifies nothing.
- An exception inside `_verify_admission` is a failed signature.
-/

namespace Preaction.LiveCheck

open Preaction.Py Preaction.Bip340 Preaction.Loop

/-- The signature schemes: key, message, signature. -/
structure Schemes where
  /-- `schnorr_verify`, arguments in the order key, message, signature -/
  schnorr : Bytes → Bytes → Bytes → Bool
  /-- `VerifyKey(key).verify(message, signature)` does not raise. -/
  ed25519 : Option (Bytes → Bytes → Bytes → Bool)

variable (R : Runtime) (S : Schemes)

/-! ## Reading the response -/

/-- The prefixes `_hex_only` strips. -/
def hashPrefixes : List Str := [lit "sha256-", lit "sha256:", lit "0x"]

/-- `_hex_only(h)` -/
def hexOnly (h : Json) : Json :=
  match h with
  | .str t =>
    let s := R.lower t
    match hashPrefixes.find? fun p => p.isPrefixOf s with
    | some p => .str (s.drop p.length)
    | none => .str s
  | _ => h

/-- `cur[i] if -len(cur) <= i < len(cur) else None` -/
def indexOrNone (xs : List Json) (i : Int) : Json :=
  if 0 ≤ i then (xs[i.toNat]?).getD .null
  else if -xs.length ≤ i then (xs[(xs.length + i).toNat]?).getD .null
  else .null

/-- One step of `_dig`. What is neither dict nor list has nothing below it. -/
def digStep (cur k : Json) : Except PyError Json :=
  match cur with
  | .obj _ => do
    k.hashable
    match k with
    | .str s => return cur.find s
    | _ => return .null
  | .arr xs => match k with
    | .int i => .ok (indexOrNone xs i)
    | .bool b => .ok (indexOrNone xs (if b then 1 else 0))
    | _ => .ok .null
  | _ => .ok .null

/-- `_dig(obj, path)` -/
def dig (obj path : Json) : Except PyError Json :=
  match path with
  | .null => .ok obj
  | .str s => digStep obj (.str s)
  | p => do (← p.iter).foldlM digStep obj

/-- `_dig(gov, fields[k]) if fields.get(k) else None` -/
def digIfMapped (gov fields : Json) (k : Str) : Except PyError Json := do
  let path ← fields.get k
  if path.truthy then dig gov path else return .null

/-- `x in container` -/
def containsElem (container x : Json) : Except PyError Bool :=
  match container with
  | .arr xs => .ok (x.pyIn xs)
  | .obj kvs => do
    x.hashable
    match x with
    | .str s => return (kvs.lookup s).isSome
    | _ => return false
  | .str t => match x with
    | .str s => .ok (decide (s <:+: t))
    | _ => .error .typeError
  | _ => .error .typeError

/-- What `run` reads before the admission invariant. -/
structure Inputs where
  envelopeHash : Json
  pubkey : Json
  signature : Json
  scheme : Json
  event : Json
  canonicalBytes : Json
  /-- `trust` -/
  trust : Json
  actorPubkey : Json
  /-- `co` -/
  coSigners : List Json
  jws : Json

/-- `governance_path`, in `fetch` or beside `response_file`. -/
def governancePath (mapping : Json) : Except PyError Json := do
  match ← mapping.get? (lit "fetch") with
  | some f =>
    let _ ← f.get (lit "body")
    let _ ← f.item (lit "url")
    f.get (lit "governance_path")
  | none =>
    let _ ← mapping.item (lit "response_file")
    mapping.get (lit "governance_path")

/-- The fields `run` digs out; none where the response has no governance block. -/
def readInputs (mapping resp : Json) : Except PyError (Option Inputs) := do
  let fields ← mapping.getD (lit "fields") (.obj [])
  let gov ← dig resp (← governancePath mapping)
  if gov = .null then return none
  let envelopeHash := hexOnly R (← dig gov (← fields.get (lit "envelope_hash")))
  let pubkey ← dig gov (← fields.get (lit "pubkey"))
  let signature ← dig gov (← fields.get (lit "signature"))
  let scheme := (← digIfMapped gov fields (lit "sig_scheme")).orElse
    (← mapping.get (lit "sig_scheme"))
  let event ← digIfMapped gov fields (lit "event")
  let canonicalBytes ← digIfMapped gov fields (lit "canonical_bytes")
  let trust ← (← mapping.getD (lit "trust_policy") (.obj [])).getD
    (lit "independent_verifier_pubkeys") (.arr [])
  let actorPubkey ← mapping.get (lit "actor_pubkey")
  let co ← dig gov (← fields.getD (lit "co_signers") (.str (lit "co_signers")))
  let jws ← match resp with
    | .obj _ => do digStep resp (← mapping.getD (lit "jws_path") (.str (lit "jws")))
    | _ => pure .null
  return some {
    envelopeHash := envelopeHash
    pubkey := pubkey
    signature := signature
    scheme := scheme
    event := event
    canonicalBytes := canonicalBytes
    trust := trust
    actorPubkey := actorPubkey
    coSigners := match co with
      | .arr xs => xs
      | _ => []
    jws := jws }

/-! ## The JWS legs -/

/-- `_b64u(s)` -/
def b64u (s : Json) : Except PyError Bytes :=
  match s with
  | .str t =>
    match urlsafeB64decode (t ++ List.replicate ((4 - t.length % 4) % 4) (ofChar '=')) with
    | some b => .ok b
    | none => .error .valueError
  | _ => .error .typeError

/-- What `_verify_jws_legs` returns. -/
structure Legs where
  verified : Nat
  total : Nat
  payloadOk : Bool
  verifiedPubkeys : List Str

/-- The bytes a leg's signature is over. -/
def signingInput (leg : Json) (payload : Json) : Except PyError Bytes := do
  match ← leg.getD (lit "protected") (.str []), payload with
  | .str p, .str b => utf8 (p ++ lit "." ++ b)
  | _, _ => .error .typeError

/-- One leg: the first candidate key it verifies under. -/
def verifyLeg (ed25519 : Bytes → Bytes → Bytes → Bool) (keys : List (Str × Bytes))
    (payload leg : Json) : Except PyError (Option Str) := do
  let si ← signingInput leg payload
  let raw ← b64u (← leg.getD (lit "signature") (.str []))
  return (keys.find? fun k => ed25519 k.2 si raw).map (·.1)

/-- `payload_ok` -/
def payloadIsCanonical (payload canonicalBytes : Json) : Except PyError Bool := do
  if !payload.truthy then return false
  let decoded ← b64u payload
  match canonicalBytes with
  | .str t => return decoded == (← utf8 t)
  | _ => return false

/-- A key text and its bytes. -/
def candidateKey (k : Json) : Except PyError (Str × Bytes) := do
  let b ← bytesFromHex k
  match k with
  | .str s => return (s, b)
  | _ => .error .typeError

/-- `_verify_jws_legs(jws, canonical_bytes, candidate_pubkeys)` -/
def verifyJwsLegs (jws canonicalBytes : Json) (candidates : List Json) : Except PyError Legs := do
  match S.ed25519 with
  | none => return ⟨0, 0, false, []⟩
  | some ed25519 =>
    let sigs ← ((← jws.get (lit "signatures")).orElse (.arr [])).iter
    let payload ← jws.getD (lit "payload") (.str [])
    let payloadOk ← payloadIsCanonical payload canonicalBytes
    let keys ← (candidates.filter (·.truthy)).mapM candidateKey
    let hits ← sigs.mapM (verifyLeg ed25519 keys payload)
    let found := hits.filterMap id
    return ⟨found.length, sigs.length, payloadOk, found⟩

/-- `c.get("pubkey") or c.get("public_key")` of a co-signer that is a dict. -/
def coPubkey (c : Json) : Json := (c.find (lit "pubkey")).orElse (c.find (lit "public_key"))

/-- `used_jws and pubkey in verified_pubkeys`: the primary signer's leg verified,
over a payload that is the canonical bytes. -/
def primaryByJws (inp : Inputs) : Except PyError Bool := do
  match inp.jws with
  | .obj _ =>
    if !(inp.jws.find (lit "signatures")).truthy then return false
    let coPubkeys := (inp.coSigners.filter Json.isObj).map coPubkey
    let legs ← verifyJwsLegs S inp.jws inp.canonicalBytes (inp.pubkey :: coPubkeys)
    return legs.payloadOk && legs.total != 0 && inp.pubkey.pyIn (legs.verifiedPubkeys.map .str)
  | _ => return false

/-! ## The primary signature -/

/-- The second component of `_verify_admission`, by what it says. -/
inductive Detail
  | bip340OverHash
  | noEvent
  | eventIdDoesNotRecompute
  | nostrEvent
  | ed25519NeedsLibrary
  | ed25519OverRaw
  | ed25519OverHex
  | ed25519DidNotVerify
  | unknownScheme
  | checkError
  | jwsLeg
  deriving DecidableEq, Repr

/-- The signature as hex, else as base64url. -/
def signatureBytes (signature : Json) : Except PyError Bytes :=
  match bytesFromHex signature with
  | .error .valueError => b64u signature
  | r => r

/-- `x.encode("utf-8")` -/
def encodeOf (x : Json) : Except PyError Bytes :=
  match x with
  | .str t => utf8 t
  | _ => .error .attributeError

theorem encodeOf_ok {x : Json} {b : Bytes} (h : encodeOf x = .ok b) :
    ∃ t, x = .str t ∧ utf8 t = .ok b := by
  cases x with
  | str t => exact ⟨t, rfl, h⟩
  | _ => cases h

/-- The body of the `try` of `_verify_admission`, for a lower-case scheme. -/
def verifyScheme (s : Str) (inp : Inputs) : Except PyError (Option Bool × Detail) := do
  if (lit "bip340").isPrefixOf s then
    let msg ← bytesFromHex inp.envelopeHash
    let key ← bytesFromHex inp.pubkey
    let sig ← bytesFromHex inp.signature
    return (some (S.schnorr key msg sig), .bip340OverHash)
  else if s = lit "nostr-event" then
    if !inp.event.truthy then return (some false, .noEvent)
    let id ← nostrEventId R inp.event
    if !(← inp.event.get (lit "id")).pyEq (.str id) then
      return (some false, .eventIdDoesNotRecompute)
    let msg ← bytesFromHex (← inp.event.item (lit "id"))
    let key ← bytesFromHex (← inp.event.item (lit "pubkey"))
    let sig ← bytesFromHex (← inp.event.item (lit "sig"))
    return (some (S.schnorr key msg sig), .nostrEvent)
  else if (lit "ed25519").isPrefixOf s then
    match S.ed25519 with
    | none => return (none, .ed25519NeedsLibrary)
    | some ed25519 =>
      let key ← bytesFromHex inp.pubkey
      let sig ← signatureBytes inp.signature
      let raw ← bytesFromHex inp.envelopeHash
      let hex ← encodeOf inp.envelopeHash
      if ed25519 key raw sig then return (some true, .ed25519OverRaw)
      else if ed25519 key hex sig then return (some true, .ed25519OverHex)
      else return (some false, .ed25519DidNotVerify)
  else return (some false, .unknownScheme)

/-- `(scheme or "").lower()` -/
def schemeName (scheme : Json) : Except PyError Str :=
  match scheme.orElse (.str []) with
  | .str s => .ok (R.lower s)
  | _ => .error .attributeError

/-- `_verify_admission(scheme, envelope_hash, pubkey, signature, event)` -/
def verifyAdmission (inp : Inputs) : Except PyError (Option Bool × Detail) := do
  let s ← schemeName R inp.scheme
  match verifyScheme R S s inp with
  | .ok r => return r
  | .error _ => return (some false, .checkError)

/-! ## The invariant -/

/-- The admission suite. -/
inductive Admission
  | unverifiedHere
  | signatureInvalid
  | keyDifferentButIdentityUnproven
  | admissionNotIndependent
  | pass
  deriving DecidableEq, Repr

/-- The signature that decides, and what it is over. -/
def primarySignature (inp : Inputs) : Except PyError (Option Bool × Detail) := do
  if ← primaryByJws S inp then return (some true, .jwsLeg)
  verifyAdmission R S inp

/-- `not (trust and pubkey not in trust)` -/
def trusted (inp : Inputs) : Except PyError Bool :=
  if inp.trust.truthy then containsElem inp.trust inp.pubkey else .ok true

/-- The admission invariant. -/
def admission (inp : Inputs) : Except PyError (Admission × Detail) := do
  match ← primarySignature R S inp with
  | (none, d) => return (.unverifiedHere, d)
  | (some false, d) => return (.signatureInvalid, d)
  | (some true, d) =>
    if !(← trusted inp) then return (.keyDifferentButIdentityUnproven, d)
    if inp.actorPubkey.truthy && inp.pubkey.pyEq inp.actorPubkey then
      return (.admissionNotIndependent, d)
    return (.pass, d)

/-- What `run` reports of the admission invariant; none for `no_governance_block`. -/
def run (mapping resp : Json) : Except PyError (Option (Admission × Detail)) := do
  match ← readInputs R mapping resp with
  | none => return none
  | some inp => return some (← admission R S inp)

/-! ## Which signature a pass rests on -/

/-- What a verified signature is over. -/
inductive Signed
  /-- the bytes of a hash -/
  | hashBytes (m : Bytes)
  /-- the text of a hash -/
  | hashText (t : Bytes)
  /-- a JWS payload -/
  | payload (p : Bytes)

/-- A verified signature: the key it is by and what it is over. -/
structure Check where
  key : Bytes
  signed : Signed

/-- The signature that decided, by the detail reported for it. -/
inductive Verified (inp : Inputs) : Detail → Check → Prop
  | bip340 {m k s : Bytes} (hm : bytesFromHex inp.envelopeHash = .ok m)
      (hk : bytesFromHex inp.pubkey = .ok k) (hs : bytesFromHex inp.signature = .ok s)
      (h : S.schnorr k m s = true) : Verified inp .bip340OverHash ⟨k, .hashBytes m⟩
  | nostr {id : Str} {m k s : Bytes} (hid : nostrEventId R inp.event = .ok id)
      (heq : inp.event.find (lit "id") = .str id)
      (hm : bytesFromHex (inp.event.find (lit "id")) = .ok m)
      (hk : bytesFromHex (inp.event.find (lit "pubkey")) = .ok k)
      (hs : bytesFromHex (inp.event.find (lit "sig")) = .ok s)
      (h : S.schnorr k m s = true) : Verified inp .nostrEvent ⟨k, .hashBytes m⟩
  | ed25519Raw {ed : Bytes → Bytes → Bytes → Bool} {m k s : Bytes} (hed : S.ed25519 = some ed)
      (hm : bytesFromHex inp.envelopeHash = .ok m) (hk : bytesFromHex inp.pubkey = .ok k)
      (hs : signatureBytes inp.signature = .ok s) (h : ed k m s = true) :
      Verified inp .ed25519OverRaw ⟨k, .hashBytes m⟩
  | ed25519Hex {ed : Bytes → Bytes → Bytes → Bool} {t : Str} {m k s : Bytes}
      (hed : S.ed25519 = some ed) (ht : inp.envelopeHash = .str t) (hm : utf8 t = .ok m)
      (hk : bytesFromHex inp.pubkey = .ok k) (hs : signatureBytes inp.signature = .ok s)
      (h : ed k m s = true) : Verified inp .ed25519OverHex ⟨k, .hashText m⟩
  | jws {ed : Bytes → Bytes → Bytes → Bool} {payload leg : Json} {p si raw k : Bytes}
      (hed : S.ed25519 = some ed) (hpayload : inp.jws.getD (lit "payload") (.str []) = .ok payload)
      (hp : b64u payload = .ok p) (hsi : signingInput leg payload = .ok si)
      (hk : bytesFromHex inp.pubkey = .ok k) (h : ed k si raw = true) :
      Verified inp .jwsLeg ⟨k, .payload p⟩

/-- The signature is by the key that was tested, over the reported envelope. -/
def Tied (inp : Inputs) (check : Check) : Prop :=
  bytesFromHex inp.pubkey = .ok check.key ∧
  match check.signed with
  | .hashBytes m => bytesFromHex inp.envelopeHash = .ok m
  | .hashText m => ∃ t, inp.envelopeHash = .str t ∧ utf8 t = .ok m
  | .payload p => ∃ t, inp.canonicalBytes = .str t ∧ utf8 t = .ok p

/-- The event's signature decides: the scheme is `nostr-event`, and no JWS leg
has verified the primary key. -/
def NostrDecides (inp : Inputs) : Prop :=
  schemeName R inp.scheme = .ok (lit "nostr-event") ∧ primaryByJws S inp = .ok false

/-- The event is by the `pubkey` field and its id is the envelope hash, as bytes. -/
def EventIsEnvelope (inp : Inputs) : Prop :=
  bytesFromHex (inp.event.find (lit "pubkey")) = bytesFromHex inp.pubkey ∧
    bytesFromHex (inp.event.find (lit "id")) = bytesFromHex inp.envelopeHash

instance (inp : Inputs) : Decidable (EventIsEnvelope inp) := inferInstanceAs (Decidable (_ ∧ _))

/-! ### The JWS path -/

theorem payloadIsCanonical_true {payload canonicalBytes : Json}
    (h : payloadIsCanonical payload canonicalBytes = .ok true) :
    ∃ p t, b64u payload = .ok p ∧ canonicalBytes = .str t ∧ utf8 t = .ok p := by
  unfold payloadIsCanonical at h
  split at h
  next => cases h
  next =>
    obtain ⟨p, hp, h⟩ := bind_ok.mp h
    split at h
    next t _ =>
      obtain ⟨b, hb, h⟩ := bind_ok.mp h
      obtain rfl := beq_iff_eq.mp (Except.ok.inj h)
      exact ⟨p, t, hp, rfl, hb⟩
    next => cases h

/-- The bytes of a candidate key are those of its text. -/
theorem candidateKey_ok {k : Json} {key : Str × Bytes} (h : candidateKey k = .ok key) :
    bytesFromHex (.str key.1) = .ok key.2 := by
  obtain ⟨b, hb, h⟩ := bind_ok.mp h
  cases k with
  | str s =>
    cases h
    exact hb
  | _ => cases h

/-- A key text that `_verify_jws_legs` reports verified one of the legs. -/
theorem verifyJwsLegs_verified {jws canonicalBytes : Json} {candidates : List Json} {legs : Legs}
    (h : verifyJwsLegs S jws canonicalBytes candidates = .ok legs) {s : Str}
    (hs : s ∈ legs.verifiedPubkeys) :
    ∃ ed payload leg si raw k, S.ed25519 = some ed ∧
      jws.getD (lit "payload") (.str []) = .ok payload ∧
      payloadIsCanonical payload canonicalBytes = .ok legs.payloadOk ∧
      signingInput leg payload = .ok si ∧ bytesFromHex (.str s) = .ok k ∧
      ed k si raw = true := by
  unfold verifyJwsLegs at h
  split at h
  next =>
    cases h
    cases hs
  next ed hed =>
    obtain ⟨_, -, h⟩ := bind_ok.mp h
    obtain ⟨sigs, -, h⟩ := bind_ok.mp h
    obtain ⟨payload, hpayload, h⟩ := bind_ok.mp h
    obtain ⟨payloadOk, hok, h⟩ := bind_ok.mp h
    obtain ⟨keys, hkeys, h⟩ := bind_ok.mp h
    obtain ⟨hits, hhits, h⟩ := bind_ok.mp h
    cases h
    obtain ⟨hit, hhit, rfl⟩ := List.mem_filterMap.mp hs
    obtain ⟨leg, -, hleg⟩ := exists_of_mem_mapM hhits hhit
    obtain ⟨si, hsi, hleg⟩ := bind_ok.mp hleg
    obtain ⟨_, -, hleg⟩ := bind_ok.mp hleg
    obtain ⟨raw, -, hleg⟩ := bind_ok.mp hleg
    obtain ⟨key, hfind, rfl⟩ := Option.map_eq_some_iff.mp (Except.ok.inj hleg)
    obtain ⟨k, -, hk⟩ := exists_of_mem_mapM hkeys (List.mem_of_find?_eq_some hfind)
    have hver : ed key.2 si raw = true := by simpa using List.find?_some hfind
    exact ⟨ed, payload, leg, si, raw, key.2, hed, hpayload, hok, hsi, candidateKey_ok hk, hver⟩

/-- The JWS path: a leg by the primary key, over the canonical bytes. -/
theorem primaryByJws_true {inp : Inputs} (h : primaryByJws S inp = .ok true) :
    ∃ check, Verified R S inp .jwsLeg check ∧ Tied inp check := by
  unfold primaryByJws at h
  split at h
  next hobj =>
    split at h
    next => cases h
    next =>
      obtain ⟨legs, hlegs, h⟩ := bind_ok.mp h
      simp only [Except.ok.injEq, pure, Except.pure, Bool.and_eq_true] at h
      obtain ⟨⟨hpay, -⟩, hin⟩ := h
      obtain ⟨_, hmem, hsame⟩ := List.any_eq_true.mp hin
      obtain ⟨s, hs, rfl⟩ := List.mem_map.mp hmem
      have hpub : inp.pubkey = .str s := (Json.pySame_str _ _).mp hsame
      obtain ⟨ed, payload, leg, si, raw, k, hed, hpayload, hcanon, hsi, hk, hver⟩ :=
        verifyJwsLegs_verified S hlegs hs
      rw [hpay] at hcanon
      obtain ⟨p, t, hp, ht, htp⟩ := payloadIsCanonical_true hcanon
      rw [← hpub] at hk
      exact ⟨⟨k, .payload p⟩, .jws hed hpayload hp hsi hk hver, hk, t, ht, htp⟩
  next => cases h

/-! ### The four schemes -/

/-- A scheme that verified: the check behind it, and where it is not tied. -/
theorem verifyScheme_true {s : Str} {inp : Inputs} {d : Detail}
    (h : verifyScheme R S s inp = .ok (some true, d)) :
    ∃ check, Verified R S inp d check ∧
      (Tied inp check ↔ (s = lit "nostr-event" → EventIsEnvelope inp)) := by
  unfold verifyScheme at h
  split at h
  next hpre =>
    -- `bip340…` is not `nostr-event`
    obtain ⟨m, hm, h⟩ := bind_ok.mp h
    obtain ⟨k, hk, h⟩ := bind_ok.mp h
    obtain ⟨sig, hsig, h⟩ := bind_ok.mp h
    simp only [pure, Except.pure, Except.ok.injEq, Prod.mk.injEq, Option.some.injEq] at h
    obtain ⟨hver, rfl⟩ := h
    refine ⟨_, .bip340 hm hk hsig hver, iff_of_true ⟨hk, hm⟩ ?_⟩
    rintro rfl
    exact absurd hpre (by decide)
  next =>
    split at h
    next hnostr =>
      split at h
      next => cases h
      next =>
        obtain ⟨id, hid, h⟩ := bind_ok.mp h
        obtain ⟨evId, hevId, h⟩ := bind_ok.mp h
        split at h
        next => cases h
        next hsame =>
          obtain ⟨evId', hevId', h⟩ := bind_ok.mp h
          obtain ⟨m, hm, h⟩ := bind_ok.mp h
          obtain ⟨pub, hpub, h⟩ := bind_ok.mp h
          obtain ⟨k, hk, h⟩ := bind_ok.mp h
          obtain ⟨sg, hsg, h⟩ := bind_ok.mp h
          obtain ⟨sig, hsig, h⟩ := bind_ok.mp h
          simp only [pure, Except.pure, Except.ok.injEq, Prod.mk.injEq, Option.some.injEq] at h
          obtain ⟨hver, rfl⟩ := h
          simp only [Bool.not_eq_true, Bool.not_eq_false', Json.pyEq_str] at hsame
          rw [Json.get_eq_find hevId] at hsame
          rw [Json.item_eq_find hevId'] at hm
          rw [Json.item_eq_find hpub] at hk
          rw [Json.item_eq_find hsg] at hsig
          refine ⟨_, .nostr hid hsame hm hk hsig hver, ?_⟩
          simp only [Tied, hnostr, EventIsEnvelope, hm, hk, true_implies]
          exact and_congr eq_comm eq_comm
    next hnostr =>
      split at h
      next =>
        split at h
        next => cases h
        next ed hed =>
          obtain ⟨k, hk, h⟩ := bind_ok.mp h
          obtain ⟨sig, hsig, h⟩ := bind_ok.mp h
          obtain ⟨raw, hraw, h⟩ := bind_ok.mp h
          obtain ⟨hex, hhex, h⟩ := bind_ok.mp h
          obtain ⟨t, ht, htx⟩ := encodeOf_ok hhex
          split at h
          next hver =>
            cases h
            exact ⟨_, .ed25519Raw hed hraw hk hsig hver,
              iff_of_true ⟨hk, hraw⟩ fun hs => absurd hs hnostr⟩
          next =>
            split at h
            next hver =>
              cases h
              exact ⟨_, .ed25519Hex hed ht htx hk hsig hver,
                iff_of_true ⟨hk, t, ht, htx⟩ fun hs => absurd hs hnostr⟩
            next => cases h
      next => cases h

/-- The signature that decides a valid admission, and where it is not tied. -/
theorem primarySignature_true {inp : Inputs} {d : Detail}
    (h : primarySignature R S inp = .ok (some true, d)) :
    ∃ check, Verified R S inp d check ∧
      (Tied inp check ↔ (NostrDecides R S inp → EventIsEnvelope inp)) := by
  obtain ⟨byJws, hjws, h⟩ := bind_ok.mp h
  cases byJws with
  | true =>
    cases h
    obtain ⟨check, hver, htied⟩ := primaryByJws_true R S hjws
    refine ⟨check, hver, iff_of_true htied fun hn => ?_⟩
    rw [hn.2] at hjws
    cases hjws
  | false =>
    obtain ⟨s, hs, h⟩ := bind_ok.mp h
    split at h
    next r hr =>
      obtain rfl := Except.ok.inj h
      obtain ⟨check, hver, hiff⟩ := verifyScheme_true R S hr
      refine ⟨check, hver, hiff.trans ?_⟩
      rw [NostrDecides, hs, hjws, Except.ok.injEq]
      simp
    next => cases h

/-- A pass: the signature verified, and the `pubkey` field passed the trust test
and the actor test. -/
theorem admission_pass {inp : Inputs} {d : Detail} (h : admission R S inp = .ok (.pass, d)) :
    primarySignature R S inp = .ok (some true, d) ∧
      (inp.trust.truthy = true → containsElem inp.trust inp.pubkey = .ok true) ∧
      (inp.actorPubkey.truthy = true → inp.pubkey.pyEq inp.actorPubkey = false) := by
  obtain ⟨⟨valid, d'⟩, hsig, h⟩ := bind_ok.mp h
  match valid with
  | none => cases h
  | some false => cases h
  | some true =>
    obtain ⟨trust, htrust, h⟩ := bind_ok.mp h
    cases trust with
    | false => cases h
    | true =>
      by_cases hactor : (inp.actorPubkey.truthy && inp.pubkey.pyEq inp.actorPubkey) = true
      · have h := (if_pos hactor).symm.trans h
        cases h
      · have h := (if_neg hactor).symm.trans h
        cases h
        refine ⟨hsig, fun ht => ?_, fun ha => ?_⟩
        · rwa [trusted, if_pos ht] at htrust
        · simpa [ha] using hactor

/-- **What a pass of `admission_invariant` rests on.** Behind every pass is a
verified signature, and it is by the tested key over the reported envelope
exactly when, where the event decides, the event is that key's and its id is
the envelope hash. -/
theorem admission_pass_tied_iff {mapping resp : Json} {d : Detail}
    (h : run R S mapping resp = .ok (some (.pass, d))) :
    ∃ inp check, readInputs R mapping resp = .ok (some inp) ∧ Verified R S inp d check ∧
      (inp.trust.truthy = true → containsElem inp.trust inp.pubkey = .ok true) ∧
      (inp.actorPubkey.truthy = true → inp.pubkey.pyEq inp.actorPubkey = false) ∧
      (Tied inp check ↔ (NostrDecides R S inp → EventIsEnvelope inp)) := by
  obtain ⟨inputs, hinputs, h⟩ := bind_ok.mp h
  cases inputs with
  | none => cases h
  | some inp =>
    obtain ⟨⟨state, d'⟩, hadm, h⟩ := bind_ok.mp h
    cases h
    obtain ⟨hsig, htrust, hactor⟩ := admission_pass R S hadm
    obtain ⟨check, hver, hiff⟩ := primarySignature_true R S hsig
    exact ⟨inp, check, hinputs, hver, htrust, hactor, hiff⟩

/-! ## Two responses to run -/

/-- Schnorr over the sample hash and the one-point group; no PyNaCl. -/
def sampleSchemes : Schemes where
  schnorr k m s := schnorrVerify .sample .onePoint m k s
  ed25519 := none

/-- A key of 64 equal digits. -/
def keyText (c : Char) : Str := List.replicate 64 (ofChar c)

/-- An event signed by the key `c`. -/
def sampleEvent (c : Char) : Json := object
  [("id", .str (Runtime.sample.sha256Hex (utf8Bytes
      (nostrSerial .sample (keyText c) 1 1 (.arr []) (lit "x"))))),
    ("pubkey", .str (keyText c)), ("created_at", .int 1), ("kind", .int 1),
    ("content", text "x"), ("sig", .str (List.replicate 128 (ofChar '0')))]

/-- A mapping of the `nostr-event` scheme that reads the key beside the event,
and trusts the key `a`. -/
def sampleMapping : Json := object
  [("response_file", text "response.json"), ("sig_scheme", text "nostr-event"),
    ("fields", object [("envelope_hash", text "envelope_hash"), ("pubkey", text "pubkey"),
      ("signature", text "signature"), ("event", text "event")]),
    ("trust_policy", object
      [("independent_verifier_pubkeys", .arr [.str (keyText 'a')])])]

/-- A response that names the key `a` and holds an event by the key `c`. -/
def sampleResponse (c : Char) : Json := object
  [("envelope_hash", (sampleEvent c).find (lit "id")), ("pubkey", .str (keyText 'a')),
    ("event", sampleEvent c)]

/-- The equivalence at a response whose event is by the key it names. -/
theorem sampleResponse_tied : ∃ inp check,
    readInputs .sample sampleMapping (sampleResponse 'a') = .ok (some inp) ∧
      Verified .sample sampleSchemes inp .nostrEvent check ∧ Tied inp check := by
  have hrun : run .sample sampleSchemes sampleMapping (sampleResponse 'a')
      = .ok (some (.pass, .nostrEvent)) := by decide +kernel
  obtain ⟨inp, check, hinputs, hver, -, -, hiff⟩ := admission_pass_tied_iff _ _ hrun
  refine ⟨inp, check, hinputs, hver, hiff.mpr fun _ => ?_⟩
  have henv : (readInputs .sample sampleMapping (sampleResponse 'a')).map
      (fun i => i.map fun inp => decide (EventIsEnvelope inp)) = .ok (some true) := by
    decide +kernel
  obtain ⟨i, hi, hdec⟩ := map_ok.mp henv
  obtain rfl := Except.ok.inj (hinputs.symm.trans hi)
  exact of_decide_eq_true (Option.some.inj hdec)

/-- The response names the trusted key `a`; the event that verifies is by the
key `c`, and the invariant passes. -/
theorem run_pass_event_by_other_key :
    ¬ ∀ (R : Runtime) (S : Schemes) (mapping resp : Json) (d : Detail),
      run R S mapping resp = .ok (some (.pass, d)) →
      ∃ inp check, readInputs R mapping resp = .ok (some inp) ∧ Verified R S inp d check ∧
        Tied inp check := by
  intro hall
  have hrun : run .sample sampleSchemes sampleMapping (sampleResponse 'c')
      = .ok (some (.pass, .nostrEvent)) := by decide +kernel
  obtain ⟨inp, check, hinputs, hver, htied⟩ := hall _ _ _ _ _ hrun
  -- the key that verified is the event's
  cases hver with
  | nostr _ _ _ hk _ _ =>
    have hkeys : (readInputs .sample sampleMapping (sampleResponse 'c')).map
        (fun i => i.map fun inp => decide (bytesFromHex (inp.event.find (lit "pubkey"))
          = bytesFromHex inp.pubkey)) = .ok (some false) := by decide +kernel
    obtain ⟨i, hi, hdec⟩ := map_ok.mp hkeys
    obtain rfl := Except.ok.inj (hinputs.symm.trans hi)
    exact of_decide_eq_false (Option.some.inj hdec) (hk.trans htied.1.symm)

end Preaction.LiveCheck
