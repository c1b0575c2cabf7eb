import Preaction.Py.Digits
import Preaction.Verifier

/-!
# `verify.js` against `verifier.py`

The repository ships a second fixture verifier, written in JavaScript from
the spec text alone, and says of the pair: *if this file and the Python
verifier ever disagree on a fixture's overall verdict, that is a real bug in
one of them*. This file models the JavaScript one over the same fixtures and
settles when they agree.

They share SHA-256 and the curve. They differ in how they read three texts:

- `bytes.fromhex` refuses a text that is not hex and skips whitespace;
  `Buffer.from(s, 'hex')` keeps the longest hex prefix.
- Python refuses a key that is not 32 bytes and a signature that is not 64;
  JavaScript takes `subarray(0, 32)`, `subarray(32, 64)` of whatever came out.
- `json.loads` accepts `NaN` and `Infinity` in the signed content;
  `JSON.parse` refuses the whole text.

`verifyFixture_agree_iff` turns the list into the exact condition. The rest
of the two programs (the NIP-01 serialization, the order of the reasons, the
anchoring axes) agrees everywhere on the fixtures considered.

Mirroring notes:
- The integers of a fixture are read as doubles (`number`) and printed as
  decimal digits, as `JSON.stringify` does below `1e21`.
- `hash.update(s, 'utf8')` writes a lone surrogate as U+FFFD.
-/

namespace Preaction.VerifyJs

open Preaction.Py Preaction.Bip340 Preaction.Verifier

variable (R : Runtime) (C : Secp)

/-- The `Number` an integer literal is read as: itself up to 53 bits, else
rounded to the nearest double, ties to even. -/
def number (n : Int) : Int :=
  let k := n.natAbs.log2
  if k < 53 then n
  else
    let m : Int := roundHalfEven n.natAbs (2 ^ (k - 52)) * 2 ^ (k - 52)
    if n < 0 then -m else m

theorem number_of_natAbs_lt {n : Int} (h : n.natAbs ≤ 2 ^ 53 - 1) : number n = n := by
  have hlog : n.natAbs.log2 < 53 := by
    rcases Nat.eq_zero_or_pos n.natAbs with h0 | h0
    · rw [h0]; decide
    · exact (Nat.log2_lt (by omega)).mpr (by omega)
  exact if_pos hlog

/-- `Buffer.from(s, 'utf8')` -/
def utf8Lossy (s : Str) : Bytes := utf8Bytes (s.map fun c => if isSurrogate c then 0xFFFD else c)

/-- `Buffer.from(s, 'hex')`: pairs of digits up to the first that is not one. -/
def bufferFromHex : Str → Bytes
  | c :: d :: cs =>
    match hexVal c, hexVal d with
    | some a, some b => UInt8.ofNat (16 * a + b) :: bufferFromHex cs
    | _, _ => []
  | _ => []

/-- The format of `JSON.stringify`. No double is printed on the inputs below. -/
def stringifyFormat : Format := { surr := true, float := R.floatRepr }

/-- `schnorrVerify(msg32, pubkeyXBytes, sig64)`. `BigInt('0x')` of an empty
buffer throws, which is `false`. -/
def schnorrVerifyJs (msg32 pubkeyXBytes sig64 : Bytes) : Bool :=
  if pubkeyXBytes = [] then false
  else match C.liftX (fromBytesBig pubkeyXBytes) with
    | none => false
    | some P =>
      let rBytes := sig64.take 32
      let sBytes := (sig64.drop 32).take 32
      if rBytes = [] ∨ sBytes = [] then false
      else
        let r := fromBytesBig rBytes
        let s := fromBytesBig sBytes
        if fieldPrime ≤ r ∨ groupOrder ≤ s then false
        else
          let e := fromBytesBig (taggedHash R challengeTag (rBytes ++ pubkeyXBytes ++ msg32))
            % groupOrder
          let sG := C.mul C.G s
          let eP := C.mul P ((groupOrder - e) % groupOrder)
          match C.add sG eP with
          | none => false
          | some Q => if C.y Q % 2 ≠ 0 then false else C.x Q == r

/-- `nostrEventId(event)` -/
def nostrEventIdJs (ev : Event) : Str :=
  let serial := print (stringifyFormat R)
    (.arr [.int 0, .str (R.lower ev.pubkey), .int (number ev.createdAt), .int (number ev.kind),
      tagsJson ev.tags, .str ev.content])
  R.sha256Hex (utf8Lossy serial)

/-- `eventSignatureValid(ev)` -/
def eventSignatureValidJs (ev : Event) : Bool :=
  if nostrEventIdJs R ev ≠ ev.id then false
  else schnorrVerifyJs R C (bufferFromHex ev.id) (bufferFromHex ev.pubkey) (bufferFromHex ev.sig)

/-- `JSON.parse(ev.content).artifact_hash`; none when it is undefined or the
text does not parse. -/
def boundHashJs (content : Str) : Option Json :=
  match parse ecmaDialect content with
  | some (.obj kvs) => kvs.lookup (lit "artifact_hash")
  | _ => none

/-- The admission suite. -/
def admissionJs (fx : Fixture) (envelopeHash : Str) : Suite :=
  let ev := fx.verdictEvent
  if !eventSignatureValidJs R C ev then .failed .admissionSignatureInvalid
  else if boundHashJs ev.content ≠ some (.str envelopeHash) then .failed .verdictBindingFailed
  else if ev.pubkey = fx.actorPubkey then .failed .admissionNotIndependent
  else if ¬fx.trust.contains ev.pubkey then .failed .keyDifferentButIdentityUnproven
  else .passed

/-- The two anchoring suites. -/
def anchoringJs (fx : Fixture) : Suite × Suite :=
  match fx.anchor with
  | none => (.failed .orderingUnanchored, .notAssessable)
  | some anc =>
    if anc.commitmentDigest ≠ fx.verdictEvent.id then
      (.failed .anchorCommitmentMismatch, .notAssessable)
    else if anc.precedence = .bool false then (.passed, .failed .existenceOnlyAnchor)
    else if number anc.blockTime ≥ number anc.terminalOutcomeTime then (.passed, .failed .lateCommitment)
    else (.passed, .passed)

/-- `verifyFixture(fx)` -/
def verifyFixtureJs (fx : Fixture) : Report :=
  let envelopeHash := R.sha256Hex (utf8Lossy fx.canonicalBytesUtf8)
  let envOk := envelopeHash = fx.expectedEnvelopeHash
  let chainOk := fx.preEnvelopeHash = envelopeHash ∧ fx.executedEnvelopeHash = envelopeHash
    ∧ fx.preActionRef = fx.terminalActionRef
  let (existence, precedence) := anchoringJs fx
  { suites := {
      canonicalEnvelope := if envOk then .passed else .failed .envelopeHashMismatch
      chainInvariant := if chainOk then .passed else .failed .chainJoinFailed
      admissionInvariant := admissionJs R C fx envelopeHash
      anchoringExistence := existence
      anchoringPrecedence := precedence }
    envelopeHash := envelopeHash }

/-! ## Where the two programs compute the same -/

/-- The fixtures considered: every text that is hashed or serialized is free of
lone surrogates, and the integers are exact as doubles. -/
structure Portable (fx : Fixture) : Prop where
  canonicalBytes : Scalar fx.canonicalBytesUtf8
  pubkey : Scalar fx.verdictEvent.pubkey
  content : Scalar fx.verdictEvent.content
  tags : ∀ t ∈ fx.verdictEvent.tags, ∀ s ∈ t, Scalar s
  ints : ∀ n ∈ [fx.verdictEvent.createdAt, fx.verdictEvent.kind], n.natAbs ≤ 2 ^ 53 - 1
  times : ∀ a ∈ fx.anchor, a.blockTime.natAbs ≤ 2 ^ 53 - 1 ∧
    a.terminalOutcomeTime.natAbs ≤ 2 ^ 53 - 1

/-- What the two runtimes share is documented to satisfy. -/
structure SharedRuntime : Prop where
  /-- a SHA-256 digest has 32 bytes -/
  digest : ∀ b, (R.sha256 b).length = 32
  /-- case conversion of Unicode scalar values gives scalar values -/
  lower : ∀ s, Scalar s → Scalar (R.lower s)

theorem utf8Lossy_of_scalar {s : Str} (h : Scalar s) : utf8Lossy s = utf8Bytes s := by
  refine congrArg utf8Bytes ?_
  induction s with
  | nil => rfl
  | cons c cs ih =>
    obtain ⟨hc, hcs⟩ := scalar_cons.mp h
    rw [List.map_cons, ih hcs, hc]
    rfl

/-- The serialized event holds no double and no lone surrogate. -/
theorem serial_clean {fx : Fixture} (hR : SharedRuntime R) (hp : Portable fx) (a k : Int) :
    Json.clean (.arr [.int 0, .str (R.lower fx.verdictEvent.pubkey), .int a, .int k,
      tagsJson fx.verdictEvent.tags, .str fx.verdictEvent.content]) = true := by
  have htags : Json.clean (tagsJson fx.verdictEvent.tags) = true := by
    refine cleanList_iff.mpr fun x hx => ?_
    obtain ⟨t, ht, rfl⟩ := List.mem_map.mp hx
    refine cleanList_iff.mpr fun y hy => ?_
    obtain ⟨s, hs, rfl⟩ := List.mem_map.mp hy
    have : Scalar s := hp.tags t ht s hs
    simpa [Json.clean, Scalar] using this
  have hpub : Scalar (R.lower fx.verdictEvent.pubkey) := hR.lower _ hp.pubkey
  have hcont := hp.content
  simp only [Scalar] at hpub hcont
  simp [Json.clean, cleanList, hpub, hcont, htags]

/-- Both programs hash the same bytes for the event id. -/
theorem eventId_eq_nostrEventIdJs {fx : Fixture} (hR : SharedRuntime R) (hp : Portable fx) :
    eventId R fx.verdictEvent = .ok (nostrEventIdJs R fx.verdictEvent) := by
  have hc := number_of_natAbs_lt (hp.ints fx.verdictEvent.createdAt (by simp))
  have hk := number_of_natAbs_lt (hp.ints fx.verdictEvent.kind (by simp))
  obtain ⟨heq, hsc⟩ := print_clean (serial_clean R hR hp fx.verdictEvent.createdAt
    fx.verdictEvent.kind) (stringifyFormat R) R.dumpsFormat
  rw [eventId, nostrEventIdJs, hc, hk, heq, utf8Lossy_of_scalar hsc, nostrSerial,
    utf8_of_scalar hsc]
  rfl

theorem anchoringJs_eq {fx : Fixture} (hp : Portable fx) : anchoringJs fx = anchoring fx := by
  unfold anchoringJs anchoring
  cases ha : fx.anchor with
  | none => rfl
  | some anc =>
    obtain ⟨hb, ht⟩ := hp.times anc ha
    simp only [number_of_natAbs_lt hb, number_of_natAbs_lt ht, ge_iff_le]

/-! ## Where they do not: two readings of key and signature -/

/-- On a 32-byte key and a 64-byte signature the two checks are one. JavaScript
reduces `N - e` once more, which only matters when `e` is zero. -/
theorem schnorrVerify_eq_js (hC : C.Lawful) {m k s : Bytes} (hm : m.length = 32)
    (hk : k.length = 32) (hs : s.length = 64) :
    schnorrVerify R C m k s = schnorrVerifyJs R C m k s := by
  have hknil : k ≠ [] := by rintro rfl; cases hk
  have hr : s.take 32 ≠ [] := fun h => by simpa [hs] using congrArg List.length h
  have hstake : (s.drop 32).take 32 = s.drop 32 :=
    List.take_of_length_le (by rw [List.length_drop, hs])
  have hsnil : s.drop 32 ≠ [] := fun h => by simpa [hs] using congrArg List.length h
  unfold schnorrVerify schnorrVerifyJs
  rw [if_neg (by omega), if_neg hknil]
  cases hP : C.liftX (fromBytesBig k) with
  | none => rfl
  | some P =>
    have hmul (e : Nat) : C.mul P ((groupOrder - e % groupOrder) % groupOrder)
        = C.mul P (groupOrder - e % groupOrder) := by
      rcases Nat.eq_zero_or_pos (e % groupOrder) with h0 | hpos
      · obtain ⟨hN, hz⟩ := hC _ _ hP
        rw [h0, Nat.sub_zero, Nat.mod_self, hz, hN]
      · rw [Nat.mod_eq_of_lt (Nat.sub_lt (by decide) hpos)]
    dsimp only
    rw [hstake, if_neg (not_or.mpr ⟨hr, hsnil⟩), hmul]
    split
    next => rfl
    next =>
      generalize C.add _ _ = sum
      cases sum with
      | none => rfl
      | some Q =>
        by_cases hy : C.y Q % 2 = 0 <;> by_cases hx : C.x Q = fromBytesBig (s.take 32) <;>
          simp [hy, hx]

/-- The hex of a digest reads back the same in both languages. -/
theorem bufferFromHex_hexStr (b : Bytes) : bufferFromHex (hexStr b) = b := by
  induction b with
  | nil => rfl
  | cons x xs ih =>
    have hx : x.toNat < 256 := x.toNat_lt
    rw [hexStr, bufferFromHex, hexVal_hexDigit _ (by omega), hexVal_hexDigit _ (by omega)]
    simp only [ih]
    rw [Nat.div_add_mod, UInt8.ofNat_toNat]

/-- Python's reading of key and signature passes the BIP-340 equation: both are
hex, of 32 and 64 bytes. -/
def PythonAccepts (ev : Event) : Prop :=
  ∃ k s, fromHex ev.pubkey = some k ∧ fromHex ev.sig = some s ∧ k.length = 32 ∧ s.length = 64 ∧
    schnorrVerifyJs R C (bufferFromHex ev.id) k s = true

/-- JavaScript's reading of them does: their longest hex prefixes, of any length. -/
def JsAccepts (ev : Event) : Prop :=
  schnorrVerifyJs R C (bufferFromHex ev.id) (bufferFromHex ev.pubkey) (bufferFromHex ev.sig)
    = true

theorem eventSignatureValid_iff_accepts {fx : Fixture} (hR : SharedRuntime R) (hC : C.Lawful) :
    eventSignatureValid R C fx.verdictEvent = true ↔
      eventId R fx.verdictEvent = .ok fx.verdictEvent.id ∧ PythonAccepts R C fx.verdictEvent := by
  rw [eventSignatureValid_iff]
  refine and_congr_right fun hid => ?_
  -- the id is the hex of a digest, so both languages read the same 32 bytes from it
  obtain ⟨d, hd, hlen⟩ : ∃ d, fx.verdictEvent.id = hexStr d ∧ d.length = 32 := by
    unfold eventId at hid
    cases hb : utf8 (nostrSerial R fx.verdictEvent.pubkey fx.verdictEvent.createdAt
        fx.verdictEvent.kind (tagsJson fx.verdictEvent.tags) fx.verdictEvent.content) with
    | error e => rw [hb] at hid; cases hid
    | ok b =>
      rw [hb] at hid
      exact ⟨R.sha256 b, (Except.ok.inj hid).symm, hR.digest b⟩
  rw [hd, fromHex_hexStr, PythonAccepts, hd, bufferFromHex_hexStr]
  constructor
  · rintro ⟨m, k, s, hm, hk, hs, hver⟩
    obtain rfl := Option.some.inj hm
    obtain ⟨-, hklen, hslen⟩ := length_of_schnorrVerify R C hver
    exact ⟨k, s, hk, hs, hklen, hslen, by rwa [← schnorrVerify_eq_js R C hC hlen hklen hslen]⟩
  · rintro ⟨k, s, hk, hs, hklen, hslen, hver⟩
    exact ⟨d, k, s, rfl, hk, hs, by rwa [schnorrVerify_eq_js R C hC hlen hklen hslen]⟩

theorem eventSignatureValidJs_iff_accepts {fx : Fixture} (hR : SharedRuntime R)
    (hp : Portable fx) :
    eventSignatureValidJs R C fx.verdictEvent = true ↔
      eventId R fx.verdictEvent = .ok fx.verdictEvent.id ∧ JsAccepts R C fx.verdictEvent := by
  rw [eventId_eq_nostrEventIdJs R hR hp, eventSignatureValidJs, JsAccepts, Except.ok.injEq]
  by_cases h : nostrEventIdJs R fx.verdictEvent = fx.verdictEvent.id <;> simp [h]

/-! ## The verdicts -/

/-- What an admission suite can be. -/
def admissionSuites : List Suite :=
  [.passed, .failed .admissionSignatureInvalid, .failed .verdictBindingFailed,
    .failed .admissionNotIndependent, .failed .keyDifferentButIdentityUnproven]

/-- What the two anchoring suites can be. -/
def anchoringSuites : List (Suite × Suite) :=
  [(.failed .orderingUnanchored, .notAssessable),
    (.failed .anchorCommitmentMismatch, .notAssessable),
    (.passed, .failed .existenceOnlyAnchor), (.passed, .failed .lateCommitment),
    (.passed, .passed)]

theorem anchoring_mem (fx : Fixture) : anchoring fx ∈ anchoringSuites := by
  unfold anchoring
  split
  · decide
  · split
    · decide
    · split
      · decide
      · split <;> decide

/-- Verdict and reason of a report. -/
def verdict (s : Suites) : Bool × Option Code := (s.overallPass, s.failureReason)

/-- The verdict of a report whose first two suites pass. -/
def verdictOf (adm : Suite) (anc : Suite × Suite) : Bool × Option Code :=
  verdict ⟨.passed, .passed, adm, anc.1, anc.2⟩

/-- Once the first two suites pass, verdict and reason determine the admission
suite. -/
theorem verdictOf_injective : ∀ anc ∈ anchoringSuites, ∀ a ∈ admissionSuites,
    ∀ b ∈ admissionSuites, verdictOf a anc = verdictOf b anc → a = b := by
  decide

/-- The last two admission tests, which the programs share. -/
def identitySuite (fx : Fixture) : Suite :=
  if fx.verdictEvent.pubkey = fx.actorPubkey then .failed .admissionNotIndependent
  else if fx.verdictEvent.pubkey ∉ fx.trust then .failed .keyDifferentButIdentityUnproven
  else .passed

/-- An admission suite from its first two tests. -/
def admissionFrom (fx : Fixture) (sigOk boundOk : Bool) : Suite :=
  if !sigOk then .failed .admissionSignatureInvalid
  else if !boundOk then .failed .verdictBindingFailed
  else identitySuite fx

theorem admission_eq_from (fx : Fixture) (h : Str) :
    admission R C fx h = admissionFrom fx (eventSignatureValid R C fx.verdictEvent)
      ((boundHash R fx.verdictEvent.content).pyEq (.str h)) := rfl

theorem admissionJs_eq_from (fx : Fixture) (h : Str) :
    admissionJs R C fx h = admissionFrom fx (eventSignatureValidJs R C fx.verdictEvent)
      (boundHashJs fx.verdictEvent.content = some (.str h)) := by
  unfold admissionJs admissionFrom identitySuite
  by_cases hb : boundHashJs fx.verdictEvent.content = some (.str h) <;>
    simp [hb]

theorem identitySuite_mem (fx : Fixture) : identitySuite fx ∈ admissionSuites.filter
    fun s => s != .failed .admissionSignatureInvalid && s != .failed .verdictBindingFailed := by
  unfold identitySuite
  split
  · decide
  · split <;> decide

theorem admissionFrom_mem (fx : Fixture) (a b : Bool) :
    admissionFrom fx a b ∈ admissionSuites := by
  have hid := (List.mem_filter.mp (identitySuite_mem fx)).1
  unfold admissionFrom
  split
  · decide
  · split
    · decide
    · exact hid

/-- Two admission suites are one when the tests that were made agree. -/
theorem admissionFrom_eq_iff (fx : Fixture) (a b a' b' : Bool) :
    admissionFrom fx a b = admissionFrom fx a' b' ↔
      (a = true ↔ a' = true) ∧ (a = true → (b = true ↔ b' = true)) := by
  have hid := (List.mem_filter.mp (identitySuite_mem fx)).2
  simp only [Bool.and_eq_true, bne_iff_ne] at hid
  have hne : Suite.failed .admissionSignatureInvalid ≠ Suite.failed .verdictBindingFailed := by
    decide
  cases a <;> cases a' <;> cases b <;> cases b' <;>
    simp [admissionFrom, hid.1, hid.2, hid.1.symm, hid.2.symm, hne, hne.symm]

/-! ## The verdicts of the two programs -/

/-- The two programs report one verdict and one reason. -/
def Agree (fx : Fixture) : Prop :=
  ∃ r, verifyFixture R C fx = .ok r ∧ r.overallPass = (verifyFixtureJs R C fx).overallPass ∧
    r.failureReason = (verifyFixtureJs R C fx).failureReason

/-- On a fixture that gets as far as the signature check, the two readings of
key and signature are both accepted or both refused, and once they are accepted
the two readings of the content name the envelope hash alike. -/
def ReadingsAgree (fx : Fixture) : Prop :=
  let h := R.sha256Hex (utf8Bytes fx.canonicalBytesUtf8)
  let ev := fx.verdictEvent
  h = fx.expectedEnvelopeHash → fx.preEnvelopeHash = h → fx.executedEnvelopeHash = h →
    fx.preActionRef = fx.terminalActionRef → eventId R ev = .ok ev.id →
    (PythonAccepts R C ev ↔ JsAccepts R C ev) ∧
    (PythonAccepts R C ev →
      (boundHash R ev.content = .str h ↔ boundHashJs ev.content = some (.str h)))

/-- Digits only, and as many as the key and the signature have: the spelling
every signer writes. -/
structure PlainHex (ev : Event) : Prop where
  pubkey : ev.pubkey.length = 64 ∧ ev.pubkey.all (fun c => (hexVal c).isSome) = true
  sig : ev.sig.length = 128 ∧ ev.sig.all (fun c => (hexVal c).isSome) = true

/-- Both languages read a text of digits only as the same bytes. -/
theorem fromHex_of_digits {n : Nat} {s : Str} (hlen : s.length = 2 * n)
    (h : s.all (fun c => (hexVal c).isSome) = true) :
    fromHex s = some (bufferFromHex s) ∧ (bufferFromHex s).length = n := by
  induction n generalizing s with
  | zero =>
    obtain rfl := List.length_eq_zero_iff.mp hlen
    exact ⟨rfl, rfl⟩
  | succ n ih =>
    match s, hlen with
    | c :: d :: cs, hlen =>
      rw [List.all_cons, List.all_cons, Bool.and_eq_true, Bool.and_eq_true] at h
      obtain ⟨hc, hd, hcs⟩ := h
      obtain ⟨a, ha⟩ := Option.isSome_iff_exists.mp hc
      obtain ⟨b, hb⟩ := Option.isSome_iff_exists.mp hd
      rw [List.length_cons, List.length_cons] at hlen
      obtain ⟨hrest, hn⟩ := ih (by omega) hcs
      rw [fromHex, isSpace_of_hexVal ha, bufferFromHex, ha, hb]
      simp [hrest, hn]

/-- Plainly spelled key and signature are read alike. -/
theorem accepts_iff_of_plainHex {ev : Event} (h : PlainHex ev) :
    PythonAccepts R C ev ↔ JsAccepts R C ev := by
  obtain ⟨hk, hklen⟩ := fromHex_of_digits (n := 32) h.pubkey.1 h.pubkey.2
  obtain ⟨hs, hslen⟩ := fromHex_of_digits (n := 64) h.sig.1 h.sig.2
  rw [PythonAccepts, JsAccepts, hk, hs]
  constructor
  · rintro ⟨k, s, hk', hs', -, -, hver⟩
    rwa [Option.some.inj hk', Option.some.inj hs']
  · exact fun hver => ⟨_, _, rfl, rfl, hklen, hslen, hver⟩

/-- The five suites of a fixture with envelope hash `h`, given the admission
suite. The other four do not depend on the program. -/
def suitesFrom (fx : Fixture) (h : Str) (adm : Suite) : Suites where
  canonicalEnvelope :=
    if h = fx.expectedEnvelopeHash then .passed else .failed .envelopeHashMismatch
  chainInvariant :=
    if fx.preEnvelopeHash = h ∧ fx.executedEnvelopeHash = h ∧ fx.preActionRef = fx.terminalActionRef
    then .passed else .failed .chainJoinFailed
  admissionInvariant := adm
  anchoringExistence := (anchoring fx).1
  anchoringPrecedence := (anchoring fx).2

theorem verifyFixture_eq {fx : Fixture} (hp : Portable fx) :
    let h := R.sha256Hex (utf8Bytes fx.canonicalBytesUtf8)
    verifyFixture R C fx = .ok ⟨suitesFrom fx h (admission R C fx h), h⟩ := by
  rw [verifyFixture, utf8_of_scalar hp.canonicalBytes]
  rfl

theorem verifyFixtureJs_eq {fx : Fixture} (hp : Portable fx) :
    let h := R.sha256Hex (utf8Bytes fx.canonicalBytesUtf8)
    verifyFixtureJs R C fx = ⟨suitesFrom fx h (admissionJs R C fx h), h⟩ := by
  rw [verifyFixtureJs, utf8Lossy_of_scalar hp.canonicalBytes, anchoringJs_eq hp]
  rfl

/-- The verdict shows the admission suite once the first two suites pass, and
does not depend on it before. -/
theorem verdict_suitesFrom_eq_iff (fx : Fixture) (h : Str) {a b : Suite}
    (ha : a ∈ admissionSuites) (hb : b ∈ admissionSuites) :
    verdict (suitesFrom fx h a) = verdict (suitesFrom fx h b) ↔
      (h = fx.expectedEnvelopeHash → fx.preEnvelopeHash = h ∧ fx.executedEnvelopeHash = h ∧
        fx.preActionRef = fx.terminalActionRef → a = b) := by
  unfold suitesFrom
  split
  next henv =>
    split
    next hchain =>
      refine ⟨fun hv _ _ => ?_, fun hab => by rw [hab henv hchain]⟩
      exact verdictOf_injective _ (anchoring_mem fx) a ha b hb hv
    next hchain => exact iff_of_true rfl fun _ hc => absurd hc hchain
  next henv => exact iff_of_true rfl fun he => absurd he henv

/-- The sample runtime is one the two programs can share. -/
theorem sharedRuntime_sample : SharedRuntime .sample where
  digest _ := List.length_replicate
  lower s hs := by
    refine List.any_eq_false.mpr fun c hc => ?_
    obtain ⟨d, hd, rfl⟩ := List.mem_map.mp hc
    have hsd := List.any_eq_false.mp hs d hd
    split
    next hup =>
      have : (d + 0x20 : CodePoint).val = d.val + 0x20 := by
        rw [Fin.val_add]
        exact Nat.mod_eq_of_lt (by change d.val + 32 < 0x110000; omega)
      simp only [isSurrogate, this, Bool.and_eq_true, decide_eq_true_eq]
      omega
    next => exact hsd

theorem portable_passingFixture : Portable passingFixture where
  canonicalBytes := by decide +kernel
  pubkey := by decide +kernel
  content := by decide +kernel
  tags := by decide +kernel
  ints := by decide +kernel
  times a ha := by
    obtain rfl := Option.some.inj ha
    decide +kernel

/-- The passing fixture with one byte after the signature. -/
def longSignatureFixture : Fixture :=
  { passingFixture with
    verdictEvent := { passingFixture.verdictEvent with
      sig := passingFixture.verdictEvent.sig ++ lit "00" } }

end Preaction.VerifyJs
