import Preaction.Bip340
import Preaction.Lib.Loop

/-!
# `verifier.py` — the fixture verifier, and whose key it admits

`verify_fixture` recomputes five suites from the bytes of a fixture. The
admission suite ties three things together: a signature that verifies, a
verdict that names the recomputed envelope hash, and a signer that is
trusted and is not the actor. The first is decided on *decoded* bytes, the
third on the *hex text* of the keys.

That split is what this file measures. A key has many spellings
(`bytes.fromhex` reads either case and skips whitespace), so "signer is not
the actor" as a comparison of texts lets the actor's own key through under
another spelling: `verifyFixture_actor_key_respelled` is such a fixture.
`verifyFixture_signer_independent_iff` says exactly when the documented
guarantee holds.

Mirroring notes:
- A fixture has the members and types of the published ones, so no access
  raises. What can raise is `str.encode` on a lone surrogate: inside the
  signature check that is caught, in the envelope hash it is not.
- `suites` is a dict in insertion order; `Suites.values` lists it so.
-/

namespace Preaction.Verifier

open Preaction.Py Preaction.Bip340

/-- A NIP-01 event with the fields it signs. -/
structure Event where
  id : Str
  pubkey : Str
  createdAt : Int
  kind : Int
  tags : List (List Str)
  content : Str
  sig : Str

/-- The `anchor` member. `precedence` is `null` when the key is absent. -/
structure Anchor where
  commitmentDigest : Str
  precedence : Json
  blockTime : Int
  terminalOutcomeTime : Int

/-- A fixture. -/
structure Fixture where
  canonicalBytesUtf8 : Str
  expectedEnvelopeHash : Str
  /-- `chain.pre_action` -/
  preEnvelopeHash : Str
  preActionRef : Str
  actorPubkey : Str
  /-- `chain.terminal` -/
  executedEnvelopeHash : Str
  terminalActionRef : Str
  /-- `admission.verdict_event` -/
  verdictEvent : Event
  /-- `trust_policy.independent_verifier_pubkeys` -/
  trust : List Str
  anchor : Option Anchor

/-- The failure codes. -/
inductive Code
  | envelopeHashMismatch
  | chainJoinFailed
  | admissionSignatureInvalid
  | verdictBindingFailed
  | admissionNotIndependent
  | keyDifferentButIdentityUnproven
  | orderingUnanchored
  | anchorCommitmentMismatch
  | notAssessable
  | existenceOnlyAnchor
  | lateCommitment
  deriving DecidableEq, Repr

/-- One reported suite. `pass` is `none` where the source reports `None`. -/
structure Suite where
  pass : Option Bool
  code : Option Code
  deriving DecidableEq, Repr

def Suite.passed : Suite := ⟨some true, none⟩
def Suite.failed (c : Code) : Suite := ⟨some false, some c⟩
def Suite.notAssessable : Suite := ⟨none, some .notAssessable⟩

structure Suites where
  canonicalEnvelope : Suite
  chainInvariant : Suite
  admissionInvariant : Suite
  anchoringExistence : Suite
  anchoringPrecedence : Suite
  deriving DecidableEq, Repr

/-- `suites.values()` -/
def Suites.values (s : Suites) : List Suite :=
  [s.canonicalEnvelope, s.chainInvariant, s.admissionInvariant, s.anchoringExistence,
    s.anchoringPrecedence]

/-- `all(s["pass"] is True for s in suites.values())` -/
def Suites.overallPass (s : Suites) : Bool := s.values.all (·.pass == some true)

/-- `next((s["code"] for s in suites.values() if s["pass"] is False), None)` -/
def Suites.failureReason (s : Suites) : Option Code :=
  (s.values.find? (·.pass == some false)).bind (·.code)

/-- What `verify_fixture` returns. -/
structure Report where
  suites : Suites
  envelopeHash : Str
  deriving DecidableEq, Repr

def Report.overallPass (r : Report) : Bool := r.suites.overallPass
def Report.failureReason (r : Report) : Option Code := r.suites.failureReason

variable (R : Runtime) (C : Secp)

/-- The tags of an event as JSON. -/
def tagsJson (tags : List (List Str)) : Json := .arr (tags.map fun t => .arr (t.map .str))

/-- `nostr_event_id(ev)` of a typed event. -/
def eventId (ev : Event) : Except PyError Str :=
  (utf8 (nostrSerial R ev.pubkey ev.createdAt ev.kind (tagsJson ev.tags) ev.content)).map
    R.sha256Hex

/-- `_event_signature_valid(ev)`: an exception is `False`. -/
def eventSignatureValid (ev : Event) : Bool :=
  match eventId R ev with
  | .error _ => false
  | .ok id => id == ev.id && eventSchnorr R C ev.id ev.pubkey ev.sig

/-- `json.loads(ev["content"]).get("artifact_hash")`, `None` on an exception. -/
def boundHash (content : Str) : Json :=
  match R.loads content with
  | some (.obj kvs) => (kvs.lookup (lit "artifact_hash")).getD .null
  | _ => .null

/-- The admission suite. -/
def admission (fx : Fixture) (envelopeHash : Str) : Suite :=
  let ev := fx.verdictEvent
  if !eventSignatureValid R C ev then .failed .admissionSignatureInvalid
  else if !(boundHash R ev.content).pyEq (.str envelopeHash) then .failed .verdictBindingFailed
  else if ev.pubkey = fx.actorPubkey then .failed .admissionNotIndependent
  else if ev.pubkey ∉ fx.trust then .failed .keyDifferentButIdentityUnproven
  else .passed

/-- The two anchoring suites: existence, then precedence. -/
def anchoring (fx : Fixture) : Suite × Suite :=
  match fx.anchor with
  | none => (.failed .orderingUnanchored, .notAssessable)
  | some anc =>
    if anc.commitmentDigest ≠ fx.verdictEvent.id then
      (.failed .anchorCommitmentMismatch, .notAssessable)
    else if anc.precedence = .bool false then (.passed, .failed .existenceOnlyAnchor)
    else if anc.terminalOutcomeTime ≤ anc.blockTime then (.passed, .failed .lateCommitment)
    else (.passed, .passed)

/-- `verify_fixture(fx)` -/
def verifyFixture (fx : Fixture) : Except PyError Report := do
  let envelopeHash := R.sha256Hex (← utf8 fx.canonicalBytesUtf8)
  let envOk := envelopeHash = fx.expectedEnvelopeHash
  let chainOk := fx.preEnvelopeHash = envelopeHash ∧ fx.executedEnvelopeHash = envelopeHash
    ∧ fx.preActionRef = fx.terminalActionRef
  let (existence, precedence) := anchoring fx
  return {
    suites := {
      canonicalEnvelope := if envOk then .passed else .failed .envelopeHashMismatch
      chainInvariant := if chainOk then .passed else .failed .chainJoinFailed
      admissionInvariant := admission R C fx envelopeHash
      anchoringExistence := existence
      anchoringPrecedence := precedence }
    envelopeHash := envelopeHash }

/-! ## What a passing admission says -/

/-- `_event_signature_valid`, spelled out: the id is the event's own, and the
signature verifies over the decoded id under the decoded key. -/
theorem eventSignatureValid_iff (ev : Event) :
    eventSignatureValid R C ev = true ↔
      eventId R ev = .ok ev.id ∧ ∃ m k s, fromHex ev.id = some m ∧ fromHex ev.pubkey = some k ∧
        fromHex ev.sig = some s ∧ schnorrVerify R C m k s = true := by
  unfold eventSignatureValid
  cases hid : eventId R ev with
  | error e => simp
  | ok id =>
    simp only [Bool.and_eq_true, beq_iff_eq, Except.ok.injEq]
    refine and_congr_right fun _ => ?_
    unfold eventSchnorr
    split
    next m k s hm hk hs => simp [hm, hk, hs]
    next h =>
      constructor
      · intro hf; cases hf
      · rintro ⟨m, k, s, hm, hk, hs, -⟩
        exact absurd hs (h m k s hm hk)

/-- A passing admission suite, spelled out. -/
theorem admission_pass_iff (fx : Fixture) (h : Str) :
    (admission R C fx h).pass = some true ↔
      eventSignatureValid R C fx.verdictEvent = true ∧
      boundHash R fx.verdictEvent.content = .str h ∧
      fx.verdictEvent.pubkey ≠ fx.actorPubkey ∧ fx.verdictEvent.pubkey ∈ fx.trust := by
  have failed {c : Code} : (Suite.failed c).pass ≠ some true := by simp [Suite.failed]
  rw [← Json.pyEq_str]
  dsimp only [admission]
  split
  next h1 => exact iff_of_false failed (by simp_all)
  next h1 =>
    split
    next h2 => exact iff_of_false failed (by simp_all)
    next h2 =>
      split
      next h3 => exact iff_of_false failed (by simp_all)
      next h3 =>
        split
        next h4 => exact iff_of_false failed (by simp_all)
        next h4 => exact iff_of_true rfl (by simp_all)

/-- A report that passes overall passes each suite. -/
theorem Suites.pass_of_overallPass {s : Suites} (h : s.overallPass = true) :
    ∀ x ∈ s.values, x.pass = some true := by
  simpa [Suites.overallPass] using h

/-- What a report's suites are. -/
theorem verifyFixture_suites {fx : Fixture} {r : Report} (h : verifyFixture R C fx = .ok r) :
    ∃ b, utf8 fx.canonicalBytesUtf8 = .ok b ∧ r.envelopeHash = R.sha256Hex b ∧
      r.suites.admissionInvariant = admission R C fx r.envelopeHash := by
  obtain ⟨b, hb, hr⟩ := Loop.bind_ok.mp h
  cases hr
  exact ⟨b, hb, rfl, rfl⟩

/-! ## Whose key a passing fixture is signed by -/

/-- The documented guarantee: the 32-byte key the signature verifies under is
another key than the actor's, and is one of the trusted ones. -/
def SignerIndependent (fx : Fixture) : Prop :=
  ∃ m k s, fromHex fx.verdictEvent.id = some m ∧ fromHex fx.verdictEvent.pubkey = some k ∧
    fromHex fx.verdictEvent.sig = some s ∧ k.length = 32 ∧ schnorrVerify R C m k s = true ∧
    fromHex fx.actorPubkey ≠ some k ∧ ∃ t ∈ fx.trust, fromHex t = some k

/-- The actor's key and the signer's key are one text if they are one key. -/
def OneSpelling (fx : Fixture) : Prop :=
  fromHex fx.actorPubkey = fromHex fx.verdictEvent.pubkey →
    fx.actorPubkey = fx.verdictEvent.pubkey

instance (fx : Fixture) : Decidable (OneSpelling fx) := inferInstanceAs (Decidable (_ → _))

theorem length_of_schnorrVerify {m k s : Bytes} (h : schnorrVerify R C m k s = true) :
    m.length = 32 ∧ k.length = 32 ∧ s.length = 64 := by
  by_contra hne
  rw [schnorrVerify, if_pos (by omega)] at h
  cases h

/-- **When the admission guarantee holds.** A fixture that passes is signed by a
trusted key other than the actor's exactly when the actor's key is not the
signer's under another spelling. -/
theorem verifyFixture_signer_independent_iff {fx : Fixture} {r : Report}
    (h : verifyFixture R C fx = .ok r) (hpass : r.overallPass = true) :
    SignerIndependent R C fx ↔ OneSpelling fx := by
  obtain ⟨b, -, -, hadm⟩ := verifyFixture_suites R C h
  have hsuite := Suites.pass_of_overallPass hpass r.suites.admissionInvariant
    (by simp [Suites.values])
  rw [hadm, admission_pass_iff, eventSignatureValid_iff] at hsuite
  obtain ⟨⟨-, m, k, s, hm, hk, hs, hver⟩, -, hne, htrust⟩ := hsuite
  constructor
  · rintro ⟨m', k', s', -, hk', -, -, -, hactor, -⟩ hsame
    exact absurd (hsame.trans hk') hactor
  · intro hone
    refine ⟨m, k, s, hm, hk, hs, (length_of_schnorrVerify R C hver).2.1, hver, ?_, ?_⟩
    · intro hactor
      exact hne (hone (hactor.trans hk.symm)).symm
    · exact ⟨_, htrust, hk⟩

/-- A fixture whose five suites pass in the sample runtime. -/
def passingFixture : Fixture where
  canonicalBytesUtf8 := lit "\x7b\x7d"
  expectedEnvelopeHash := lit "a9a9a9a9a9a9a9a9a9a9a9a9a9a9a9a9a9a9a9a9a9a9a9a9a9a9a9a9a9a9a9a9"
  preEnvelopeHash := lit "a9a9a9a9a9a9a9a9a9a9a9a9a9a9a9a9a9a9a9a9a9a9a9a9a9a9a9a9a9a9a9a9"
  preActionRef := lit "act-1"
  actorPubkey := lit "59ae1763f5bb7bfe78525dc1c98de50ba439b782e6824d89d8af313b14c31230"
  executedEnvelopeHash := lit "a9a9a9a9a9a9a9a9a9a9a9a9a9a9a9a9a9a9a9a9a9a9a9a9a9a9a9a9a9a9a9a9"
  terminalActionRef := lit "act-1"
  verdictEvent := {
    id := lit "5252525252525252525252525252525252525252525252525252525252525252"
    pubkey := lit "aaaaaaaaaaaaaaaaaaaaaaaaaaaaaaaaaaaaaaaaaaaaaaaaaaaaaaaaaaaaaaaa"
    createdAt := 1782598909
    kind := 30078
    tags := [[lit "t", lit "proof"]]
    content := lit
      "\x7b\"artifact_hash\":\"a9a9a9a9a9a9a9a9a9a9a9a9a9a9a9a9a9a9a9a9a9a9a9a9a9a9a9a9a9a9a9a9\"\x7d"
    sig := List.replicate 128 (ofChar '0') }
  trust := [lit "aaaaaaaaaaaaaaaaaaaaaaaaaaaaaaaaaaaaaaaaaaaaaaaaaaaaaaaaaaaaaaaa"]
  anchor := some {
    commitmentDigest := lit "5252525252525252525252525252525252525252525252525252525252525252"
    precedence := .null
    blockTime := 1782600300
    terminalOutcomeTime := 1782600600 }

/-- The same fixture with the signer as the actor, its key in upper case. -/
def respelledFixture : Fixture :=
  { passingFixture with
    actorPubkey := lit "AAAAAAAAAAAAAAAAAAAAAAAAAAAAAAAAAAAAAAAAAAAAAAAAAAAAAAAAAAAAAAAA" }

theorem passingFixture_pass : ∃ r, verifyFixture .sample .onePoint passingFixture = .ok r ∧
    r.overallPass = true :=
  ⟨{ suites := ⟨.passed, .passed, .passed, .passed, .passed⟩
     envelopeHash := passingFixture.expectedEnvelopeHash }, by decide +kernel, by decide⟩

theorem respelledFixture_pass : ∃ r, verifyFixture .sample .onePoint respelledFixture = .ok r ∧
    r.overallPass = true :=
  ⟨{ suites := ⟨.passed, .passed, .passed, .passed, .passed⟩
     envelopeHash := passingFixture.expectedEnvelopeHash }, by decide +kernel, by decide⟩

/-- The equivalence at a fixture that passes with one spelling a key. -/
theorem passingFixture_signer_independent :
    SignerIndependent .sample .onePoint passingFixture := by
  obtain ⟨r, hr, hp⟩ := passingFixture_pass
  exact (verifyFixture_signer_independent_iff _ _ hr hp).mpr (by decide +kernel)

/-- An actor that signs its own verdict passes all five suites by writing its
key in upper case. -/
theorem verifyFixture_actor_key_respelled :
    ¬ ∀ (R : Runtime) (C : Secp) (fx : Fixture) (r : Report), verifyFixture R C fx = .ok r →
      r.overallPass = true → SignerIndependent R C fx := by
  intro hall
  obtain ⟨r, hr, hp⟩ := respelledFixture_pass
  obtain ⟨m, k, s, -, hk, -, -, -, hactor, -⟩ := hall _ _ _ r hr hp
  refine hactor (Eq.trans ?_ hk)
  decide +kernel

end Preaction.Verifier
