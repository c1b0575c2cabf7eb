import Preaction.Ed25519Ref
import Preaction.Ed25519Tools
import Preaction.EvidenceSet
import Preaction.Lib.Loop
import Preaction.Py.Base64
import Preaction.Rfc8785

/-!
# `tools/acceptance_record_check.py` — `check`

The acceptance of a record by the counterparty: the envelope, the key step, the
conditions on the signed members and on the record, and the authority of the
signer under the delegation material. What `verified` says of the signer is
`verified_independent`: the key is not the one the issuer's `kid` resolves to, the
confirming party is not the issuer, and the delegation lists the `kid` under the
one and not under the other. A `kid` resolves to the first usable key listed under
it, so a second key of the issuer is not compared.

Mirroring notes:
- `json.loads` of bytes is an argument (`loads`), none where it raises `ValueError`.
- `conditions` and `members_invalid` are in the order of the checks; the source
  sorts them. `note` and `detail` are left out.
- `check` is called with an object; every exception of step 0 ends in one answer.
- `_valid_ts` and `HEX64` are, to the letter, those of `evidence_set_check.py`.
-/

namespace Preaction.AcceptanceRecord

open Preaction.Py Preaction.Loop Json

/-- `"result"` -/
inductive Result
  | verified
  | unknown
  | malformed
  | keyUnresolved
  | noRecord
  deriving DecidableEq, Repr

/-- `"key_step"` -/
inductive KeyStep
  | keyUnresolved
  | signatureInvalid
  | signatureVerified
  deriving DecidableEq, Repr

/-- The keys of `CONDITIONS`, and `signature_invalid`. -/
inductive Condition
  | signatureInvalid
  | confirmingPartyAbsent
  | acceptanceSignerIsIssuer
  | acceptanceTermsDigestMismatch
  | acceptanceOutcomeDigestMismatch
  | acceptancePrecedesOutcome
  | acceptanceAuthorityUnresolved
  | acceptanceMemberInvalid
  | acceptanceRecordDigestMismatch
  deriving DecidableEq, Repr

/-- The elements of `bad`. -/
inductive Member
  | acceptanceVersion
  | confirmingParty
  | disposition
  | termsSha256
  | outcomeSha256
  | acceptedRecordSha256
  | acceptedAt
  | acceptedRecord
  deriving DecidableEq, Repr

/-- `out` -/
structure Out where
  result : Result
  disposition : Json
  conditions : List Condition
  keyStep : Option KeyStep
  policyRefusal : Bool
  membersInvalid : List Member

/-- `VERSION` -/
def version : Str := lit "acceptance-record-v0"

/-- `SIGNED_DISPOSITIONS` -/
def signedDispositions : List Json := [text "accepted", text "rejected", text "disputed"]

/-- `NOT_RESPONDED` -/
def notResponded : Json := text "not_responded"

variable (R : Runtime) (loads : Bytes → Option Json)

/-- `record_digest(rec)` -/
def recordDigest (record : Json) : Except PyError Str := do
  return R.sha256Hex (← utf8 (← Rfc8785.jcs R record))

/-- `_valid_ts(s)` -/
def validTs (s : Json) : Bool := EvidenceSet.validTs R s

/-- `isinstance(x, str) and HEX64.match(x)` -/
def isHex64 (x : Json) : Bool := EvidenceSet.isHex64 x

/-- The text of what is known to be one. -/
def strOf : Json → Str
  | .str s => s
  | _ => []

/-! ## Keys and parties -/

/-- `re.fullmatch(r"[A-Za-z0-9_-]*", s)` -/
def isB64url (s : Str) : Bool :=
  s.all fun c => ((b64Val c).isSome && c != ofChar '+' && c != ofChar '/') || c == ofChar '-' ||
    c == ofChar '_'

/-- `_b64url_dec(s)`; none where it raises `ValueError`. -/
def b64urlDec (s : Json) : Option Bytes :=
  match s with
  | .str s =>
    if isB64url s then
      urlsafeB64decode (s ++ List.replicate ((4 - s.length % 4) % 4) (ofChar '='))
    else none
  | _ => none

/-- `is_small_order_key(public_key)` -/
def isSmallOrderKey (key : Bytes) : Bool :=
  (Ed25519Tools.decode key).any Ed25519Tools.isSmallOrder

/-- `is_mixed_order_key(public_key)` -/
def isMixedOrderKey (key : Bytes) : Bool :=
  (Ed25519Tools.decode key).any fun A =>
    !Ed25519Tools.isSmallOrder A && !Ed25519Tools.isTorsionFree A

/-- The body of the loop in `_resolve_kid`: the key of an entry under `kid`, where the
entry is usable. -/
def entryKey (kid : Str) (k : Json) : Option Bytes :=
  if k.isObj && k.find (lit "kid") == .str kid && k.find (lit "kty") == text "OKP" &&
      k.find (lit "crv") == text "Ed25519" then
    match b64urlDec (k.find (lit "x")) with
    | some x => if x.length = 32 ∧ !isSmallOrderKey x ∧ !isMixedOrderKey x then some x else none
    | none => none
  else none

/-- The entries of `jwks`. -/
def jwksKeys (jwks : Json) : Except PyError (List Json) :=
  match jwks with
  | .obj kvs => ((kvs.lookup (lit "keys")).getD (.arr [])).iter
  | _ => .ok []

/-- `_resolve_kid(kid, jwks)` -/
def resolveKid (kid : Str) (jwks : Json) : Except PyError (Option Bytes) := do
  return (← jwksKeys jwks).findSome? (entryKey kid)

/-- `isinstance(kids, list) and kid in kids` -/
def listsKid (kid : Str) (kids : Json) : Bool :=
  match kids with
  | .arr kids => pyIn (.str kid) kids
  | _ => false

/-- `_party_of_kid(kid, delegation)` -/
def partyOfKid (kid : Str) (delegation : Json) : Except PyError (List Str) :=
  if !delegation.truthy then .ok []
  else match delegation with
    | .obj kvs => .ok ((kvs.map (·.1)).eraseDups.filter fun p =>
        (kvs.lookup p).any (listsKid kid))
    | _ => .error .attributeError

/-! ## The steps -/

/-- What step 0 takes from the envelope. -/
structure Envelope where
  kid : Str
  signingInput : Bytes
  payload : Bytes
  signature : Bytes

/-- Step 0; none where anything in it raises. -/
def envelopeOf (jws : Json) : Option Envelope := do
  let protectedText ← (jws.item (lit "protected")).toOption
  let hdr ← loads (← b64urlDec protectedText)
  let payloadText ← (jws.item (lit "payload")).toOption
  let payload ← b64urlDec payloadText
  let signature ← b64urlDec (← (jws.item (lit "signature")).toOption)
  let kid ← (hdr.item (lit "kid")).toOption
  let alg ← (hdr.item (lit "alg")).toOption
  if kid.isStr ∧ alg = text "EdDSA" then
    some ⟨strOf kid, utf8Bytes (strOf protectedText ++ lit "." ++ strOf payloadText), payload,
      signature⟩
  else none

/-- `[value] if test else []` -/
def whenever {α : Type} (test : Bool) (value : α) : List α := if test then [value] else []

/-- The members of the payload that are absent or ill-typed. -/
def badMembers (p : Json) : List Member :=
  let cp := p.find (lit "confirming_party")
  whenever (p.find (lit "acceptance_version") != .str version) .acceptanceVersion ++
    whenever (cp != .null && cp != .str [] && !cp.isStr) .confirmingParty ++
    whenever (!pyIn (p.find (lit "disposition")) signedDispositions) .disposition ++
    whenever (!isHex64 (p.find (lit "terms_sha256"))) .termsSha256 ++
    whenever (!isHex64 (p.find (lit "outcome_sha256"))) .outcomeSha256 ++
    whenever (!isHex64 (p.find (lit "accepted_record_sha256"))) .acceptedRecordSha256 ++
    whenever (!validTs R (p.find (lit "accepted_at"))) .acceptedAt

/-- The members of the record are there and well typed. -/
def recordOk (record : Json) : Except PyError Bool := do
  let issuer ← record.get (lit "issuer")
  return issuer.isStr && (record.find (lit "issuer_kid")).isStr &&
    isHex64 (record.find (lit "terms_sha256")) && isHex64 (record.find (lit "outcome_sha256")) &&
    validTs R (record.find (lit "outcome_at"))

/-- `same_key or same_party` -/
def signerIsIssuer (record cp trustMaterial delegation : Json) (kid : Str) (key : Bytes) :
    Except PyError Bool := do
  let issuer := strOf (record.find (lit "issuer"))
  let issuerKid := strOf (record.find (lit "issuer_kid"))
  let ik ← resolveKid issuerKid trustMaterial
  let sameKey := issuerKid == kid || (ik.isSome && ik == some key)
  let sameParty ←
    if cp.isStr && cp == .str issuer then pure true
    else do pure ((← partyOfKid kid delegation).contains issuer)
  return sameKey || sameParty

/-- The conditions that compare the payload with a well-formed record; those on an
ill-typed member are suppressed. -/
def comparisons (record p trustMaterial delegation : Json) (kid : Str) (key : Bytes)
    (bad : List Member) : Except PyError (List Condition) := do
  let same ← signerIsIssuer record (p.find (lit "confirming_party")) trustMaterial delegation kid key
  let digest ←
    if bad.contains .acceptedRecordSha256 then pure false
    else do pure (p.find (lit "accepted_record_sha256") != .str (← recordDigest R record))
  return whenever same .acceptanceSignerIsIssuer ++
    whenever digest .acceptanceRecordDigestMismatch ++
    whenever (!bad.contains .termsSha256 &&
      p.find (lit "terms_sha256") != record.find (lit "terms_sha256"))
      .acceptanceTermsDigestMismatch ++
    whenever (!bad.contains .outcomeSha256 &&
      p.find (lit "outcome_sha256") != record.find (lit "outcome_sha256"))
      .acceptanceOutcomeDigestMismatch ++
    whenever (!bad.contains .acceptedAt &&
      strLt (strOf (p.find (lit "accepted_at"))) (strOf (record.find (lit "outcome_at"))))
      .acceptancePrecedesOutcome

/-- What follows the key step, of a payload that is an object. -/
def checkPayload (record p trustMaterial delegation : Json) (kid : Str) (key : Bytes) :
    Except PyError Out := do
  let cp := p.find (lit "confirming_party")
  let bad := badMembers R p
  let wellFormed ← recordOk R record
  let bad := bad ++ whenever (!wellFormed) .acceptedRecord
  let compared ←
    if wellFormed then comparisons R record p trustMaterial delegation kid key bad else pure []
  let conds := whenever (cp == .null || cp == .str []) .confirmingPartyAbsent ++
    whenever (!bad.isEmpty) .acceptanceMemberInvalid ++ compared
  if !conds.isEmpty then
    return ⟨.malformed, .null, conds, some .signatureVerified, false, bad⟩
  let parties ← partyOfKid kid delegation
  if !parties.contains (strOf cp) then
    return ⟨.unknown, p.find (lit "disposition"), [.acceptanceAuthorityUnresolved],
      some .signatureVerified, false, []⟩
  return ⟨.verified, p.find (lit "disposition"), [], some .signatureVerified, false, []⟩

/-- `check(case)` -/
def check (case : Json) : Except PyError Out := do
  let record := (← case.get (lit "accepted_record")).orElse (.obj [])
  let jws := case.find (lit "acceptance")
  if jws = .null then return ⟨.noRecord, notResponded, [], none, false, []⟩
  let complete := case.find (lit "trust_material_complete") == .bool true
  match envelopeOf loads jws with
  | none => return ⟨.malformed, .null, [.acceptanceMemberInvalid], none, false, []⟩
  | some env =>
    let trustMaterial := case.find (lit "trust_material")
    match ← resolveKid env.kid trustMaterial with
    | none => return ⟨.keyUnresolved, .null, [], some .keyUnresolved, complete, []⟩
    | some key =>
      if !Ed25519Tools.verify R key env.signingInput env.signature then
        return ⟨.malformed, .null, [.signatureInvalid], some .signatureInvalid, false, []⟩
      match loads env.payload with
      | some (.obj kvs) =>
        checkPayload R record (.obj kvs) trustMaterial (case.find (lit "delegation")) env.kid key
      | _ =>
        return ⟨.malformed, .null, [.acceptanceMemberInvalid], some .signatureVerified, false, []⟩

/-! ## What the lists say -/

/-- The key is usable and stands under `kid` somewhere in `jwks`. -/
def Lists (jwks : Json) (kid : Str) (key : Bytes) : Prop :=
  ∃ ks, jwksKeys jwks = .ok ks ∧ ∃ k ∈ ks, entryKey kid k = some key

/-- It is the first usable key under `kid`. -/
def ListsFirst (jwks : Json) (kid : Str) (key : Bytes) : Prop :=
  ∃ ks pre k post, jwksKeys jwks = .ok ks ∧ ks = pre ++ k :: post ∧
    (∀ k' ∈ pre, entryKey kid k' = none) ∧ entryKey kid k = some key

theorem resolveKid_some {jwks : Json} {kid : Str} {key : Bytes} :
    resolveKid kid jwks = .ok (some key) ↔ ListsFirst jwks kid key := by
  unfold resolveKid ListsFirst
  constructor
  · intro h
    obtain ⟨ks, hks, hfind⟩ := bind_ok.mp h
    obtain ⟨pre, k, post, hsplit, hk, hpre⟩ := List.findSome?_eq_some_iff.mp (Except.ok.inj hfind)
    exact ⟨ks, pre, k, post, hks, hsplit, hpre, hk⟩
  · rintro ⟨ks, pre, k, post, hks, hsplit, hpre, hk⟩
    refine bind_ok.mpr ⟨ks, hks, congrArg Except.ok ?_⟩
    exact List.findSome?_eq_some_iff.mpr ⟨pre, k, post, hsplit, hk, hpre⟩

/-- The delegation material lists the `kid` under the party. -/
def DelegatesTo (delegation : Json) (party kid : Str) : Prop :=
  ∃ kvs kids, delegation = .obj kvs ∧ kvs.lookup party = some (.arr kids) ∧ .str kid ∈ kids

theorem listsKid_iff {kid : Str} {v : Json} :
    listsKid kid v = true ↔ ∃ kids, v = .arr kids ∧ .str kid ∈ kids := by
  have hmem (kids : List Json) : pyIn (.str kid) kids = true ↔ .str kid ∈ kids := by
    unfold pyIn
    rw [List.any_eq_true]
    constructor
    · rintro ⟨x, hx, hs⟩
      exact (pySame_str x kid).mp (pySame_symm hs) ▸ hx
    · intro h
      exact ⟨.str kid, h, pySame_refl _⟩
  cases v with
  | arr kids =>
    refine (hmem kids).trans ⟨fun h => ⟨kids, rfl, h⟩, ?_⟩
    rintro ⟨kids', heq, h⟩
    exact Json.arr.inj heq ▸ h
  | _ => exact ⟨nofun, fun ⟨_, h, _⟩ => nomatch h⟩

theorem mem_partyOfKid {kid party : Str} {delegation : Json} {parties : List Str}
    (h : partyOfKid kid delegation = .ok parties) :
    party ∈ parties ↔ DelegatesTo delegation party kid := by
  unfold partyOfKid at h
  unfold DelegatesTo
  split at h
  next hfalsy =>
    obtain rfl := Except.ok.inj h
    refine ⟨nofun, ?_⟩
    rintro ⟨kvs, kids, rfl, hlook, -⟩
    cases kvs with
    | nil => cases hlook
    | cons kv kvs => cases hfalsy
  next =>
    split at h
    next kvs _ =>
      obtain rfl := Except.ok.inj h
      rw [List.mem_filter, List.mem_eraseDups, Option.any_eq_true]
      constructor
      · rintro ⟨-, v, hv, hlists⟩
        obtain ⟨kids, rfl, hmem⟩ := listsKid_iff.mp hlists
        exact ⟨kvs, kids, rfl, hv, hmem⟩
      · rintro ⟨kvs', kids, heq, hv, hmem⟩
        obtain rfl := Json.obj.inj heq
        exact ⟨List.mem_map_of_mem (f := Prod.fst) (mem_of_lookup hv), .arr kids, hv,
          listsKid_iff.mpr ⟨kids, rfl, hmem⟩⟩
    next => cases h

/-! ## A verified acceptance -/

/-- The signer of an acceptance, and the parties it is about. -/
structure Signer where
  env : Envelope
  key : Bytes
  confirmingParty : Str
  issuer : Str
  issuerKid : Str

/-- The acceptance is signed under a key that is not the one the issuer's `kid` resolves
to, for a party that is not the issuer and has the `kid` delegated, as the issuer has
not. -/
structure Independent (R : Runtime) (loads : Bytes → Option Json) (case : Json) (s : Signer) :
    Prop where
  envelope : envelopeOf loads (case.find (lit "acceptance")) = some s.env
  confirmingParty : ∃ p, loads s.env.payload = some p ∧
    p.find (lit "confirming_party") = .str s.confirmingParty
  issuer : (case.find (lit "accepted_record")).find (lit "issuer") = .str s.issuer
  issuerKid : (case.find (lit "accepted_record")).find (lit "issuer_kid") = .str s.issuerKid
  resolved : ListsFirst (case.find (lit "trust_material")) s.env.kid s.key
  signed : Ed25519Tools.verify R s.key s.env.signingInput s.env.signature = true
  kid_ne : s.issuerKid ≠ s.env.kid
  key_ne : ∀ x, ListsFirst (case.find (lit "trust_material")) s.issuerKid x → x ≠ s.key
  party_ne : s.confirmingParty ≠ s.issuer
  delegated : DelegatesTo (case.find (lit "delegation")) s.confirmingParty s.env.kid
  notIssuers : ¬ DelegatesTo (case.find (lit "delegation")) s.issuer s.env.kid

variable {R loads}

theorem whenever_eq_nil {α : Type} {test : Bool} {value : α} :
    whenever test value = [] ↔ test = false := by
  cases test with
  | false => exact ⟨fun _ => rfl, fun _ => rfl⟩
  | true => exact ⟨nofun, nofun⟩

theorem eq_str_of_isStr {v : Json} (h : v.isStr = true) : v = .str (strOf v) := by
  cases v with
  | str s => rfl
  | _ => cases h

/-- A confirming party that is neither absent nor ill-typed. -/
theorem confirmingParty_str {p : Json} (hbad : badMembers R p = [])
    (habsent : (p.find (lit "confirming_party") == .null ||
      p.find (lit "confirming_party") == .str []) = false) :
    p.find (lit "confirming_party") = .str (strOf (p.find (lit "confirming_party"))) := by
  unfold badMembers at hbad
  simp only [List.append_eq_nil_iff, whenever_eq_nil] at hbad
  obtain ⟨⟨⟨⟨⟨⟨-, hparty⟩, -⟩, -⟩, -⟩, -⟩, -⟩ := hbad
  rw [Bool.or_eq_false_iff] at habsent
  refine eq_str_of_isStr ?_
  by_contra hstr
  rw [Bool.not_eq_true] at hstr
  rw [hstr, bne, bne, habsent.1, habsent.2] at hparty
  cases hparty

theorem recordOk_str {record : Json} (h : recordOk R record = .ok true) :
    record.find (lit "issuer") = .str (strOf (record.find (lit "issuer"))) ∧
      record.find (lit "issuer_kid") = .str (strOf (record.find (lit "issuer_kid"))) := by
  unfold recordOk at h
  obtain ⟨issuer, hissuer, h⟩ := bind_ok.mp h
  obtain rfl := get_eq_find hissuer
  have hall := Except.ok.inj h
  simp only [Bool.and_eq_true] at hall
  exact ⟨eq_str_of_isStr hall.1.1.1.1, eq_str_of_isStr hall.1.1.1.2⟩

/-- The signer is not the issuer, by key, by `kid`, by name and by delegation. -/
theorem signerIsIssuer_false {record cp tm delegation : Json} {kid : Str} {key : Bytes}
    (h : signerIsIssuer record cp tm delegation kid key = .ok false) :
    strOf (record.find (lit "issuer_kid")) ≠ kid ∧
    (∀ x, ListsFirst tm (strOf (record.find (lit "issuer_kid"))) x → x ≠ key) ∧
    cp ≠ .str (strOf (record.find (lit "issuer"))) ∧
    ¬ DelegatesTo delegation (strOf (record.find (lit "issuer"))) kid := by
  unfold signerIsIssuer at h
  obtain ⟨ik, hik, h⟩ := bind_ok.mp h
  dsimp only at h
  split at h
  next =>
    obtain ⟨sameParty, hparty, h⟩ := bind_ok.mp h
    obtain rfl := Except.ok.inj hparty
    have hor := Except.ok.inj h
    rw [Bool.or_true] at hor
    cases hor
  next hname =>
    obtain ⟨parties, hparties, h⟩ := bind_ok.mp h
    have hor := Except.ok.inj h
    rw [Bool.or_eq_false_iff, Bool.or_eq_false_iff, beq_eq_false_iff_ne] at hor
    obtain ⟨⟨hkid, hkey⟩, hcontains⟩ := hor
    refine ⟨hkid, fun x hx heq => ?_, fun heq => ?_, fun hd => ?_⟩
    · rw [resolveKid_some.mpr hx] at hik
      obtain rfl := Except.ok.inj hik
      subst heq
      rw [Option.isSome_some, Bool.true_and, beq_eq_false_iff_ne] at hkey
      exact hkey rfl
    · refine hname ?_
      rw [heq, beq_self_eq_true]
      rfl
    · rw [← mem_partyOfKid hparties, ← List.contains_iff_mem, hcontains] at hd
      cases hd

/-- Without a condition the signer is not the issuer. -/
theorem comparisons_nil {record p tm delegation : Json} {kid : Str} {key : Bytes}
    {bad : List Member} (h : comparisons R record p tm delegation kid key bad = .ok []) :
    signerIsIssuer record (p.find (lit "confirming_party")) tm delegation kid key = .ok false := by
  unfold comparisons at h
  obtain ⟨same, hsame, h⟩ := bind_ok.mp h
  have hfirst {digest : Bool} {l : List Condition}
      (hl : whenever same Condition.acceptanceSignerIsIssuer ++
        whenever digest .acceptanceRecordDigestMismatch ++ l = []) : same = false := by
    rw [List.append_eq_nil_iff, List.append_eq_nil_iff, whenever_eq_nil] at hl
    exact hl.1.1
  have hfalse : same = false := by
    split at h
    next =>
      obtain ⟨digest, -, h⟩ := bind_ok.mp h
      have hnil := Except.ok.inj h
      rw [List.append_assoc, List.append_assoc] at hnil
      exact hfirst hnil
    next =>
      obtain ⟨digest, -, h⟩ := bind_ok.mp h
      have hnil := Except.ok.inj h
      rw [List.append_assoc, List.append_assoc] at hnil
      exact hfirst hnil
  rw [hsame, hfalse]

/-- What a verified acceptance went through behind the key step. -/
theorem checkPayload_verified {record p tm delegation : Json} {kid : Str} {key : Bytes} {out : Out}
    (h : checkPayload R record p tm delegation kid key = .ok out) (hv : out.result = .verified) :
    recordOk R record = .ok true ∧
    p.find (lit "confirming_party") = .str (strOf (p.find (lit "confirming_party"))) ∧
    signerIsIssuer record (p.find (lit "confirming_party")) tm delegation kid key = .ok false ∧
    DelegatesTo delegation (strOf (p.find (lit "confirming_party"))) kid := by
  unfold checkPayload at h
  obtain ⟨wellFormed, hrecord, h⟩ := bind_ok.mp h
  dsimp only at h
  split at h
  next hwf =>
    obtain ⟨compared, hcompared, h⟩ := bind_ok.mp h
    split at h
    next =>
      obtain rfl := Except.ok.inj h
      cases hv
    next hconds =>
      obtain ⟨parties, hparties, h⟩ := bind_ok.mp h
      split at h
      next =>
        obtain rfl := Except.ok.inj h
        cases hv
      next hauthority =>
        rw [hwf] at hconds hrecord
        simp only [Bool.not_eq_true, Bool.not_eq_false', List.isEmpty_iff,
          List.append_eq_nil_iff, whenever_eq_nil] at hconds
        obtain ⟨⟨habsent, hbad, -⟩, rfl⟩ := hconds
        rw [Bool.not_eq_true, Bool.not_eq_false'] at hauthority
        refine ⟨hrecord, confirmingParty_str hbad habsent, comparisons_nil hcompared, ?_⟩
        exact (mem_partyOfKid hparties).mp (List.contains_iff_mem.mp hauthority)
  next hwf =>
    obtain ⟨compared, -, h⟩ := bind_ok.mp h
    rw [Bool.not_eq_true] at hwf
    split at h
    next =>
      obtain rfl := Except.ok.inj h
      cases hv
    next hconds =>
      -- an ill-formed record is a condition of its own
      rw [hwf] at hconds
      simp [whenever] at hconds

/-- **A verified acceptance is signed by somebody else**: not under the key that the
issuer's `kid` resolves to, for a party that is not the issuer, and under a `kid` that
the delegation material lists under that party and not under the issuer. -/
theorem verified_independent {case : Json} {out : Out} (h : check R loads case = .ok out)
    (hv : out.result = .verified) : ∃ s, Independent R loads case s := by
  unfold check at h
  obtain ⟨given, hgiven, h⟩ := bind_ok.mp h
  obtain rfl := get_eq_find hgiven
  dsimp only at h
  split at h
  next =>
    obtain rfl := Except.ok.inj h
    cases hv
  next =>
    split at h
    next =>
      obtain rfl := Except.ok.inj h
      cases hv
    next env henv =>
      obtain ⟨resolved, hresolved, h⟩ := bind_ok.mp h
      split at h
      next =>
        obtain rfl := Except.ok.inj h
        cases hv
      next key =>
        split at h
        next =>
          obtain rfl := Except.ok.inj h
          cases hv
        next hsigned =>
          split at h
          next kvs hpayload =>
            obtain ⟨hrecord, hcp, hsigner, hauthority⟩ := checkPayload_verified h hv
            obtain ⟨hissuer, hissuerKid⟩ := recordOk_str hrecord
            obtain ⟨hkid, hkey, hparty, hnot⟩ := signerIsIssuer_false hsigner
            -- the record is the one of the case, since an absent one is ill-formed
            have hgivenRecord : (case.find (lit "accepted_record")).orElse (.obj []) =
                case.find (lit "accepted_record") := by
              unfold orElse at hissuer ⊢
              split
              next => rfl
              next hfalsy =>
                rw [if_neg hfalsy] at hissuer
                cases hissuer
            rw [hgivenRecord] at hissuer hissuerKid hkid hkey hparty hnot
            rw [Bool.not_eq_true, Bool.not_eq_false'] at hsigned
            exact ⟨⟨env, key, _, _, _⟩, {
              envelope := henv
              confirmingParty := ⟨_, hpayload, hcp⟩
              issuer := hissuer
              issuerKid := hissuerKid
              resolved := resolveKid_some.mp hresolved
              signed := hsigned
              kid_ne := hkid
              key_ne := hkey
              party_ne := fun heq => hparty (hcp.trans (congrArg Json.str heq))
              delegated := hauthority
              notIssuers := hnot }⟩
          next =>
            obtain rfl := Except.ok.inj h
            cases hv

/-! ## Runs over one acceptance -/

/-- ASCII bytes. -/
def asciiBytes (s : Str) : Bytes := s.map fun c => UInt8.ofNat c.val

/-- Sixty-four times one digit. -/
def digestOf (c : Char) : Str := List.replicate 64 (ofChar c)

/-- The protected header of the acceptance. -/
def sampleHeader : Bytes := asciiBytes (lit "\x7b\"alg\":\"EdDSA\",\"kid\":\"k\"  \x7d")

/-- Its payload. -/
def samplePayload : Bytes :=
  asciiBytes (lit "\x7b\"acceptance_version\":\"acceptance-record-v0\"," ++
    lit "\"confirming_party\":\"cp\",\"disposition\":\"accepted\",\"terms_sha256\":\"" ++
    digestOf 'a' ++ lit "\",\"outcome_sha256\":\"" ++ digestOf 'b' ++
    lit "\",\"accepted_record_sha256\":\"" ++ (List.replicate 32 (lit "be")).flatten ++
    lit "\",\"accepted_at\":\"2026-01-02T00:00:00.000Z\"   \x7d")

/-- `json.loads` of the two. -/
def sampleLoads (b : Bytes) : Option Json :=
  if b = sampleHeader then some (object [("alg", text "EdDSA"), ("kid", text "k")])
  else if b = samplePayload then
    some (object [("acceptance_version", text "acceptance-record-v0"),
      ("confirming_party", text "cp"), ("disposition", text "accepted"),
      ("terms_sha256", .str (digestOf 'a')), ("outcome_sha256", .str (digestOf 'b')),
      ("accepted_record_sha256", .str (List.replicate 32 (lit "be")).flatten),
      ("accepted_at", text "2026-01-02T00:00:00.000Z")])
  else none

/-- An entry of the trust material. -/
def okpKey (kid x : String) : Json :=
  object [("kid", text kid), ("kty", text "OKP"), ("crv", text "Ed25519"), ("x", text x)]

/-- The key of `k`. -/
def sampleKey : String := "yaP4aq5GXw5WUThkUQ85l1YfosnoXqIdwikjCfPNYCI"

/-- Another key. -/
def otherKey : String := "1LT1eEhowwIEAyRnF-wWn_eeJmCOoSahq2nud9GxZxI"

/-- The issuer's `kid` is listed twice, the second time with the key of the acceptance. -/
def issuerKeys : List Json := [okpKey "ik" otherKey, okpKey "ik" sampleKey, okpKey "k" sampleKey]

/-- `cp` accepts the record of `i` under the `kid` `k`. -/
def sampleCase : Json :=
  object [
    ("accepted_record", object [("issuer", text "i"), ("issuer_kid", text "ik"),
      ("terms_sha256", .str (digestOf 'a')), ("outcome_sha256", .str (digestOf 'b')),
      ("outcome_at", text "2026-01-01T00:00:00.000Z")]),
    ("acceptance", object [("protected", .str (urlsafeB64encode sampleHeader)),
      ("payload", .str (urlsafeB64encode samplePayload)),
      ("signature", text
        "WGZmZmZmZmZmZmZmZmZmZmZmZmZmZmZmZmZmZmZmZmafxE0Jwc2Lx-GUGxLrxZcbQsXZqQUeRacr95WdZuSxCg")]),
    ("trust_material", object [("keys", .arr issuerKeys)]),
    ("delegation", object [("cp", .arr [text "k"])])]

theorem sampleCase_verified :
    (check Ed25519Ref.constantRuntime sampleLoads sampleCase).map (·.result) = .ok .verified := by
  decide +kernel

theorem sampleCase_independent :
    ∃ s, Independent Ed25519Ref.constantRuntime sampleLoads sampleCase s := by
  obtain ⟨out, hrun, hv⟩ := map_ok.mp sampleCase_verified
  exact verified_independent hrun hv

/-- The acceptance is verified under a usable key of the issuer. -/
theorem secondKey_verified :
    (check Ed25519Ref.constantRuntime sampleLoads sampleCase).map (·.result) = .ok .verified ∧
    (sampleCase.find (lit "accepted_record")).find (lit "issuer_kid") = text "ik" ∧
    ∃ key, resolveKid (lit "k") (sampleCase.find (lit "trust_material")) = .ok (some key) ∧
      Lists (sampleCase.find (lit "trust_material")) (lit "ik") key := by
  refine ⟨sampleCase_verified, by decide, ?_⟩
  obtain ⟨key, hkey⟩ : ∃ key, entryKey (lit "ik") (okpKey "ik" sampleKey) = some key :=
    Option.isSome_iff_exists.mp (by decide +kernel)
  have hsame : entryKey (lit "k") (okpKey "k" sampleKey) = some key := hkey ▸ by decide +kernel
  refine ⟨key, ?_, issuerKeys, rfl, okpKey "ik" sampleKey, ?_, hkey⟩
  · refine resolveKid_some.mpr ⟨issuerKeys, [okpKey "ik" otherKey, okpKey "ik" sampleKey],
      okpKey "k" sampleKey, [], rfl, rfl, ?_, hsame⟩
    decide +kernel
  · exact List.mem_cons_of_mem _ List.mem_cons_self

end Preaction.AcceptanceRecord
