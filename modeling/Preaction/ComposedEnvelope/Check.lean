import Preaction.ComposedEnvelope
import Preaction.SequenceIntegrity.Fixture

/-!
# `check_composed_envelope.py` — the envelope and its tampered copy

`check` passes an envelope whose payload is its own canonical form and whose signatures all verify,
each under the key that its header names. `tamper_demo` flips one bit of the payload and expects the
check to fail. What a copy with another payload needs to pass is exact (`verdict_other_iff`): a
canonical payload, and for every signature a challenge that takes the point of the key where the
first one took it. Without signatures the canonical form is all that is asked.

Mirroring notes:
- A signature is checked as in `check_sequence_integrity.py`, whose text is the same.
- The files are values: the copy that is written is the copy that is read.
- `json.loads` of bytes, and of decoded ones, are arguments (`loads`, `loadsText`).
-/

namespace Preaction.ComposedEnvelope

open Preaction.Py Preaction.Loop Json
open Edwards (mul challenge)
open SequenceIntegrity (Keys Keys.find b64uD loadJwks signatureOk textOf)
open VendoredEd25519 (ed25519Verify decompress pointEqual verify_other_point verify_other_key)

variable (R : Runtime) (loads loadsText : Bytes → Except PyError Json)

/-- `canon_ok` of the bytes of a payload. -/
def payloadOk (pb : Bytes) : Except PyError Bool :=
  match loadsText pb with
  | .ok payloadObj => canonOk R payloadObj pb
  | .error .valueError => .ok false
  | .error e => .error e

/-- `verdict` of `check`, with the bytes of the payload. -/
def verdict (env : Json) (jwks : List Json) : Except PyError (Bool × Bytes) := do
  let payload ← env.item (lit "payload")
  let pb ← b64uD payload
  let canon ← payloadOk R loadsText pb
  let keys ← jwks.foldlM loadJwks []
  let oks ← (← (← env.item (lit "signatures")).iter).mapM (signatureOk R loads keys payload)
  return (canon && oks.all id, pb)

/-- `check(envelope_path, jwks_dir, expect_fail)` -/
def check (env : Json) (jwks : List Json) (expectFail : Bool) : Except PyError Str := do
  let (passed, pb) ← verdict R loads loadsText env jwks
  if passed == expectFail then throw .assertionError
  return R.sha256Hex pb

/-- `raw[-2] ^= 0x01` -/
def flipBit (raw : Bytes) : Except PyError Bytes :=
  if raw.length < 2 then .error .indexError else .ok (raw.modify (raw.length - 2) (· ^^^ 1))

/-- `env["payload"] = base64.urlsafe_b64encode(pb).rstrip(b"=").decode()` -/
def withPayload (pb : Bytes) : Json → Json
  | .obj kvs => .obj (setKey (lit "payload") (.str (urlsafeB64bare pb)) kvs)
  | env => env

/-- `tamper_demo(envelope_path, jwks_dir)` -/
def tamperDemo (env : Json) (jwks : List Json) : Except PyError Unit := do
  let raw ← flipBit (← b64uD (← env.item (lit "payload")))
  let _ ← check R loads loadsText (withPayload raw env) jwks true
  return ()

/-! ## What a signature is over -/

/-- The bytes that are signed. -/
def signingInput (header payload : Str) : Bytes := utf8Bytes (header ++ lit "." ++ payload)

/-- The header of a signature, the key it names, and the signature. -/
structure Signed (keys : Keys) (s : Json) (header : Str) (key sig : Bytes) : Prop where
  headerAt : s.item (lit "protected") = .ok (.str header)
  keyAt : ∃ pb prot kid alg, b64uD (.str header) = .ok pb ∧ loads pb = .ok prot ∧
    prot.get (lit "kid") = .ok kid ∧ prot.get (lit "alg") = .ok alg ∧
    alg.pyEq (text "EdDSA") = true ∧ keys.find kid = .ok (some key)
  sigAt : ∃ x, s.item (lit "signature") = .ok x ∧ b64uD x = .ok sig

variable {R loads loadsText}

theorem exists_str_of_b64uD {x : Json} {b : Bytes} (h : b64uD x = .ok b) : ∃ t, x = .str t := by
  cases x with
  | str t => exact ⟨t, rfl⟩
  | _ => cases h

/-- A signature that names a key is answered by the verifier. -/
theorem signatureOk_signed {keys : Keys} {s : Json} {header : Str} {key sig : Bytes}
    (h : Signed loads keys s header key sig) (payload : Str) :
    signatureOk R loads keys (.str payload) s =
      .ok (ed25519Verify R key (signingInput header payload) sig) := by
  obtain ⟨pb, prot, kid, alg, hpb, hprot, hkid, halg, heddsa, hfound⟩ := h.keyAt
  obtain ⟨x, hx, hsig⟩ := h.sigAt
  unfold signatureOk
  rw [h.headerAt, ok_bind, hpb, ok_bind, hprot, ok_bind, hkid, ok_bind]
  dsimp only
  rw [halg, ok_bind, heddsa]
  rw [if_neg (show ¬ (!true) = true by decide), hfound, ok_bind]
  dsimp only
  rw [hx, ok_bind, hsig]
  rfl

theorem signatureOk_iff {keys : Keys} {payload : Str} {s : Json} :
    signatureOk R loads keys (.str payload) s = .ok true ↔ ∃ header key sig,
      Signed loads keys s header key sig ∧
        ed25519Verify R key (signingInput header payload) sig = true := by
  constructor
  · intro h
    unfold signatureOk at h
    obtain ⟨prot64, hprot64, h⟩ := bind_ok.mp h
    obtain ⟨pb, hpb, h⟩ := bind_ok.mp h
    obtain ⟨prot, hprot, h⟩ := bind_ok.mp h
    obtain ⟨kid, hkid, h⟩ := bind_ok.mp h
    obtain ⟨header, rfl⟩ := exists_str_of_b64uD hpb
    obtain ⟨alg, halg, h⟩ := bind_ok.mp h
    split at h
    next => cases h
    next heddsa =>
      rw [Bool.not_eq_true', Bool.not_eq_false] at heddsa
      obtain ⟨found, hfound, h⟩ := bind_ok.mp h
      cases found with
      | none => cases h
      | some key =>
        obtain ⟨x, hx, h⟩ := bind_ok.mp h
        obtain ⟨sig, hsig, h⟩ := bind_ok.mp h
        have hkey := And.intro halg (And.intro heddsa hfound)
        exact ⟨header, key, sig, ⟨hprot64, ⟨pb, prot, kid, alg, hpb, hprot, hkid, hkey⟩, x, hx, hsig⟩,
          Except.ok.inj h⟩
  · intro h
    obtain ⟨header, key, sig, hsigned, hverify⟩ := h
    rw [← hverify]
    exact signatureOk_signed hsigned payload

/-- A signature has one header, one key and one value. -/
theorem Signed.unique {keys : Keys} {s : Json} {header header' : Str} {key key' sig sig' : Bytes}
    (h : Signed loads keys s header key sig) (h' : Signed loads keys s header' key' sig') :
    header = header' ∧ key = key' ∧ sig = sig' := by
  obtain rfl := Json.str.inj (Except.ok.inj (h.headerAt.symm.trans h'.headerAt))
  obtain ⟨pb, prot, kid, -, hpb, hprot, hkid, -, -, hfound⟩ := h.keyAt
  obtain ⟨pb', prot', kid', -, hpb', hprot', hkid', -, -, hfound'⟩ := h'.keyAt
  obtain rfl := Except.ok.inj (hpb.symm.trans hpb')
  obtain rfl := Except.ok.inj (hprot.symm.trans hprot')
  obtain rfl := Except.ok.inj (hkid.symm.trans hkid')
  obtain ⟨x, hx, hsig⟩ := h.sigAt
  obtain ⟨x', hx', hsig'⟩ := h'.sigAt
  obtain rfl := Except.ok.inj (hx.symm.trans hx')
  exact ⟨rfl, Option.some.inj (Except.ok.inj (hfound.symm.trans hfound')),
    Except.ok.inj (hsig.symm.trans hsig')⟩

/-! ## What the verdict is about -/

/-- The payload, the keys and the signatures of an envelope. -/
structure Opened (env : Json) (jwks : List Json) (payload : Str) (pb : Bytes) (keys : Keys)
    (sigs : List Json) : Prop where
  payloadAt : env.item (lit "payload") = .ok (.str payload)
  decoded : b64uD (.str payload) = .ok pb
  keysAt : jwks.foldlM loadJwks [] = .ok keys
  signaturesAt : ∃ x, env.item (lit "signatures") = .ok x ∧ x.iter = .ok sigs

theorem mapM_all_iff {α : Type} {f : α → Except PyError Bool} {xs : List α} :
    (∃ oks, xs.mapM f = .ok oks ∧ oks.all id = true) ↔ ∀ x ∈ xs, f x = .ok true := by
  constructor
  · intro h x hx
    obtain ⟨oks, hoks, hall⟩ := h
    obtain ⟨ok, hok, hfx⟩ := mem_mapM_of_mem hoks hx
    rw [hfx]
    exact congrArg Except.ok (List.all_eq_true.mp hall ok hok)
  · intro h
    refine ⟨xs.map fun _ => true, mapM_eq_map h, ?_⟩
    rw [List.all_map]
    exact List.all_eq_true.mpr fun _ _ => rfl

theorem verdict_iff {env : Json} {jwks : List Json} {pb : Bytes} :
    verdict R loads loadsText env jwks = .ok (true, pb) ↔ ∃ payload keys sigs,
      Opened env jwks payload pb keys sigs ∧ payloadOk R loadsText pb = .ok true ∧
        ∀ s ∈ sigs, signatureOk R loads keys (.str payload) s = .ok true := by
  unfold verdict
  constructor
  · intro h
    obtain ⟨x, hx, h⟩ := bind_ok.mp h
    obtain ⟨pb', hpb, h⟩ := bind_ok.mp h
    obtain ⟨payload, rfl⟩ := exists_str_of_b64uD hpb
    obtain ⟨canon, hcanon, h⟩ := bind_ok.mp h
    obtain ⟨keys, hkeys, h⟩ := bind_ok.mp h
    obtain ⟨y, hy, h⟩ := bind_ok.mp h
    obtain ⟨sigs, hsigs, h⟩ := bind_ok.mp h
    obtain ⟨oks, hoks, h⟩ := bind_ok.mp h
    obtain ⟨hpass, rfl⟩ := Prod.mk.inj (Except.ok.inj h)
    obtain ⟨rfl, hall⟩ := (Bool.and_eq_true _ _).mp hpass
    exact ⟨payload, keys, sigs, ⟨hx, hpb, hkeys, y, hy, hsigs⟩, hcanon,
      mapM_all_iff.mp ⟨oks, hoks, hall⟩⟩
  · intro h
    obtain ⟨payload, keys, sigs, hopened, hcanon, hall⟩ := h
    obtain ⟨y, hy, hsigs⟩ := hopened.signaturesAt
    obtain ⟨oks, hoks, hpass⟩ := mapM_all_iff.mpr hall
    rw [hopened.payloadAt, ok_bind, hopened.decoded, ok_bind, hcanon, ok_bind, hopened.keysAt,
      ok_bind, hy, ok_bind, hsigs, ok_bind, hoks, ok_bind, hpass]
    rfl

/-- Another payload leaves the rest of an envelope. -/
theorem Opened.withPayload {env : Json} {jwks : List Json} {payload : Str} {pb : Bytes}
    {keys : Keys} {sigs : List Json} (h : Opened env jwks payload pb keys sigs) (pb' : Bytes) :
    Opened (withPayload pb' env) jwks (urlsafeB64bare pb') pb' keys sigs := by
  obtain ⟨hpayload, -, hkeys, x, hx, hsigs⟩ := h
  cases env with
  | obj kvs =>
    have hne : lit "signatures" ≠ lit "payload" := by decide
    refine ⟨?_, ?_, hkeys, x, ?_, hsigs⟩
    · unfold ComposedEnvelope.withPayload Json.item
      dsimp only
      rw [lookup_setKey, if_pos rfl]
    · unfold b64uD
      dsimp only
      rw [urlsafeB64decode_bare]
    · unfold ComposedEnvelope.withPayload Json.item
      dsimp only
      rw [lookup_setKey, if_neg hne]
      exact hx
  | _ => cases hpayload

theorem Opened.unique {env : Json} {jwks : List Json} {payload payload' : Str} {pb pb' : Bytes}
    {keys keys' : Keys} {sigs sigs' : List Json} (h : Opened env jwks payload pb keys sigs)
    (h' : Opened env jwks payload' pb' keys' sigs') :
    payload = payload' ∧ keys = keys' ∧ sigs = sigs' := by
  obtain rfl := Json.str.inj (Except.ok.inj (h.payloadAt.symm.trans h'.payloadAt))
  obtain rfl := Except.ok.inj (h.keysAt.symm.trans h'.keysAt)
  obtain ⟨x, hx, hsigs⟩ := h.signaturesAt
  obtain ⟨x', hx', hsigs'⟩ := h'.signaturesAt
  obtain rfl := Except.ok.inj (hx.symm.trans hx')
  exact ⟨rfl, rfl, Except.ok.inj (hsigs.symm.trans hsigs')⟩

/-! ## A copy with another payload -/

/-- The signatures of an envelope, each with its header, its key and its value. -/
def SignedBy (loads : Bytes → Except PyError Json) (keys : Keys) (sigs : List Json) (header : Str)
    (key sig : Bytes) : Prop := ∃ s ∈ sigs, Signed loads keys s header key sig

section Copy

variable {env : Json} {jwks : List Json} {payload : Str} {pb : Bytes} {keys : Keys}
  {sigs : List Json}

/-- Every signature of an envelope that passes is answered, whatever the payload of the copy. -/
theorem signatures_verify (h : verdict R loads loadsText env jwks = .ok (true, pb))
    (hopened : Opened env jwks payload pb keys sigs) : ∀ s ∈ sigs, ∃ header key sig,
      Signed loads keys s header key sig ∧
        ed25519Verify R key (signingInput header payload) sig = true := by
  obtain ⟨_, _, _, hopened', -, hall⟩ := verdict_iff.mp h
  obtain ⟨rfl, rfl, rfl⟩ := hopened.unique hopened'
  intro s hs
  exact signatureOk_iff.mp (hall s hs)

/-- A copy returns a verdict where its payload does. -/
theorem verdict_copy (h : verdict R loads loadsText env jwks = .ok (true, pb))
    (hopened : Opened env jwks payload pb keys sigs) {pb' : Bytes} {out : Bool × Bytes} :
    verdict R loads loadsText (withPayload pb' env) jwks = .ok out ↔
      ∃ canon, payloadOk R loadsText pb' = .ok canon ∧ out.2 = pb' ∧ (out.1 = true ↔
        canon = true ∧ ∀ header key sig, SignedBy loads keys sigs header key sig →
          ed25519Verify R key (signingInput header (urlsafeB64bare pb')) sig = true) := by
  have hsigned := signatures_verify h hopened
  have hcopy := hopened.withPayload pb'
  obtain ⟨y, hy, hsigs⟩ := hcopy.signaturesAt
  obtain ⟨oks, hoks⟩ : ∃ oks, sigs.mapM (signatureOk R loads keys (.str (urlsafeB64bare pb'))) =
      .ok oks := by
    refine mapM_of_ok fun s hs => ?_
    obtain ⟨header, key, sig, hsigned, -⟩ := hsigned s hs
    exact ⟨_, signatureOk_signed hsigned _⟩
  have hall : oks.all id = true ↔ ∀ header key sig, SignedBy loads keys sigs header key sig →
      ed25519Verify R key (signingInput header (urlsafeB64bare pb')) sig = true := by
    constructor
    · intro hoks' header key sig hby
      obtain ⟨s, hs, hby⟩ := hby
      have hok := mapM_all_iff.mp ⟨oks, hoks, hoks'⟩ s hs
      rw [signatureOk_signed hby] at hok
      exact Except.ok.inj hok
    · intro hverify
      obtain ⟨oks', hoks', hpass⟩ := mapM_all_iff.mpr fun s hs => by
        obtain ⟨header, key, sig, hsigned, -⟩ := hsigned s hs
        exact signatureOk_iff.mpr ⟨header, key, sig, hsigned,
          hverify header key sig ⟨s, hs, hsigned⟩⟩
      rwa [Except.ok.inj (hoks.symm.trans hoks')]
  rw [← hall]
  unfold verdict
  rw [hcopy.payloadAt, ok_bind, hcopy.decoded, ok_bind]
  constructor
  · intro hout
    obtain ⟨canon, hcanon, hout⟩ := bind_ok.mp hout
    rw [hcopy.keysAt, ok_bind, hy, ok_bind, hsigs, ok_bind, hoks] at hout
    obtain rfl := Except.ok.inj hout
    exact ⟨canon, hcanon, rfl, Bool.and_eq_true_iff⟩
  · intro hout
    obtain ⟨canon, hcanon, hbytes, hpass⟩ := hout
    rw [hcanon, ok_bind, hcopy.keysAt, ok_bind, hy, ok_bind, hsigs, ok_bind, hoks]
    obtain ⟨passed, bytes⟩ := out
    obtain rfl : bytes = pb' := hbytes
    have hpassed : (canon && oks.all id) = passed := by
      rw [Bool.eq_iff_iff, Bool.and_eq_true, hpass]
    rw [← hpassed]
    rfl

theorem SignedBy.verifies {header : Str} {key sig : Bytes}
    (h : verdict R loads loadsText env jwks = .ok (true, pb))
    (hopened : Opened env jwks payload pb keys sigs)
    (hby : SignedBy loads keys sigs header key sig) :
    ed25519Verify R key (signingInput header payload) sig = true := by
  obtain ⟨s, hs, hsigned⟩ := hby
  obtain ⟨_, _, _, hsigned', hverify⟩ := signatures_verify h hopened s hs
  obtain ⟨rfl, rfl, rfl⟩ := hsigned.unique hsigned'
  exact hverify

/-- What passes as the payload of a copy: it is canonical, and for every signature the challenges of
the two payloads take the point of the key to one point. -/
structure Undetected (R : Runtime) (loads loadsText : Bytes → Except PyError Json) (keys : Keys)
    (sigs : List Json) (payload : Str) (pb' : Bytes) : Prop where
  canonical : payloadOk R loadsText pb' = .ok true
  samePoint : ∀ header key sig, SignedBy loads keys sigs header key sig → ∃ A,
    decompress key = some A ∧ pointEqual
      (mul (challenge R key (signingInput header payload) (sig.take 32)) A)
      (mul (challenge R key (signingInput header (urlsafeB64bare pb')) (sig.take 32)) A) = true

theorem copy_passes (h : verdict R loads loadsText env jwks = .ok (true, pb))
    (hopened : Opened env jwks payload pb keys sigs) {pb' : Bytes} {canon : Bool}
    (hcanon : payloadOk R loadsText pb' = .ok canon) : (canon = true ∧
      ∀ header key sig, SignedBy loads keys sigs header key sig →
        ed25519Verify R key (signingInput header (urlsafeB64bare pb')) sig = true) ↔
      Undetected R loads loadsText keys sigs payload pb' := by
  constructor
  · intro hpass
    obtain ⟨rfl, hverify⟩ := hpass
    refine ⟨hcanon, ?_⟩
    intro header key sig hby
    exact (verify_other_point (hby.verifies h hopened) _).mp (hverify header key sig hby)
  · intro hpass
    refine ⟨Except.ok.inj (hcanon.symm.trans hpass.canonical), ?_⟩
    intro header key sig hby
    exact (verify_other_point (hby.verifies h hopened) _).mpr (hpass.samePoint header key sig hby)

/-- **When a copy with another payload passes.** Under tested keys that takes one challenge for both
payloads, in every signature. -/
theorem verdict_other_iff (h : verdict R loads loadsText env jwks = .ok (true, pb))
    (hopened : Opened env jwks payload pb keys sigs) (pb' : Bytes) :
    (verdict R loads loadsText (withPayload pb' env) jwks = .ok (true, pb') ↔
      Undetected R loads loadsText keys sigs payload pb') ∧
    ((∀ header key sig, SignedBy loads keys sigs header key sig → Ed25519Ref.keyOk key = true) →
      (verdict R loads loadsText (withPayload pb' env) jwks = .ok (true, pb') ↔
        payloadOk R loadsText pb' = .ok true ∧
          ∀ header key sig, SignedBy loads keys sigs header key sig →
            challenge R key (signingInput header payload) (sig.take 32) =
              challenge R key (signingInput header (urlsafeB64bare pb')) (sig.take 32))) := by
  have hiff : verdict R loads loadsText (withPayload pb' env) jwks = .ok (true, pb') ↔
      Undetected R loads loadsText keys sigs payload pb' := by
    rw [verdict_copy h hopened]
    constructor
    · intro hpass
      obtain ⟨canon, hcanon, -, hpass⟩ := hpass
      exact (copy_passes h hopened hcanon).mp (hpass.mp rfl)
    · intro hpass
      have hpassed := (copy_passes h hopened hpass.canonical).mpr hpass
      exact ⟨true, hpass.canonical, rfl, fun _ => hpassed, fun _ => rfl⟩
  refine ⟨hiff, ?_⟩
  intro hkeys
  have hchallenge {header : Str} {key sig : Bytes}
      (hby : SignedBy loads keys sigs header key sig) :=
    (verify_other_point (hby.verifies h hopened)
      (signingInput header (urlsafeB64bare pb'))).symm.trans
        (verify_other_key (hby.verifies h hopened) (hkeys header key sig hby) _)
  rw [hiff]
  constructor
  · intro hpass
    exact ⟨hpass.canonical, fun header key sig hby =>
      (hchallenge hby).mp (hpass.samePoint header key sig hby)⟩
  · intro hpass
    exact ⟨hpass.1, fun header key sig hby => (hchallenge hby).mpr (hpass.2 header key sig hby)⟩

end Copy

/-! ## An envelope of one signature -/

open SequenceIntegrity (fixtureRuntime fixtureSign exists_fixtureKey logJwks logJwks_keys)

/-- A reader that finds the same header everywhere. -/
def readHeader (_ : Bytes) : Except PyError Json :=
  .ok (object [("alg", text "EdDSA"), ("kid", text "k")])

/-- A reader that finds `null` everywhere. -/
def readNothing (_ : Bytes) : Except PyError Json := .ok .null

/-- The bytes `null`. -/
def nullBytes : Bytes := utf8Bytes (lit "null")

/-- The signature of the sample. -/
def sampleSigned : Json :=
  object [("protected", text "e30"), ("signature", .str (urlsafeB64bare
    (fixtureSign (signingInput (lit "e30") (urlsafeB64bare nullBytes)))))]

def sampleEnvelope : Json :=
  object [("payload", .str (urlsafeB64bare nullBytes)), ("signatures", .arr [sampleSigned])]

theorem nullBytes_canonical : payloadOk fixtureRuntime readNothing nullBytes = .ok true := by
  decide +kernel

/-- The sample passes. -/
theorem exists_sample_passes : ∃ key,
    verdict fixtureRuntime readHeader readNothing sampleEnvelope [logJwks (lit "k") key] =
      .ok (true, nullBytes) ∧
    Opened sampleEnvelope [logJwks (lit "k") key] (urlsafeB64bare nullBytes) nullBytes
      [(text "k", key)] [sampleSigned] := by
  obtain ⟨key, hkey⟩ := exists_fixtureKey
  have hkeys : [logJwks (lit "k") key].foldlM loadJwks [] = .ok [(text "k", key)] := by
    rw [List.foldlM_cons, logJwks_keys]
    rfl
  have hdecoded : b64uD (.str (urlsafeB64bare nullBytes)) = .ok nullBytes := by
    unfold b64uD
    dsimp only
    rw [urlsafeB64decode_bare]
  have hopened : Opened sampleEnvelope [logJwks (lit "k") key] (urlsafeB64bare nullBytes) nullBytes
      [(text "k", key)] [sampleSigned] := ⟨rfl, hdecoded, hkeys, _, rfl, rfl⟩
  refine ⟨key, verdict_iff.mpr ⟨_, _, _, hopened, nullBytes_canonical, ?_⟩, hopened⟩
  intro s hs
  obtain rfl := List.mem_singleton.mp hs
  refine signatureOk_iff.mpr ⟨lit "e30", key,
    fixtureSign (signingInput (lit "e30") (urlsafeB64bare nullBytes)), ⟨rfl, ?_, _, rfl, ?_⟩,
    hkey _⟩
  · exact ⟨_, _, _, _, rfl, rfl, rfl, rfl, rfl, rfl⟩
  · unfold b64uD
    dsimp only
    rw [urlsafeB64decode_bare]

theorem verdict_other_null : ∃ key, ∀ pb',
    (verdict fixtureRuntime readHeader readNothing (withPayload pb' sampleEnvelope)
        [logJwks (lit "k") key] = .ok (true, pb') ↔
      Undetected fixtureRuntime readHeader readNothing [(text "k", key)] [sampleSigned]
        (urlsafeB64bare nullBytes) pb') := by
  obtain ⟨key, hpasses, hopened⟩ := exists_sample_passes
  exact ⟨key, fun pb' => (verdict_other_iff hpasses hopened pb').1⟩

end Preaction.ComposedEnvelope
