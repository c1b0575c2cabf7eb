import Preaction.Bip340Ts
import Preaction.Lib.Loop
import Preaction.Py.Ecma

/-!
# `adapter.ts` — the verdict component of the federation port

`check` of the adapter: whether the evidence is a verdict signed by the pinned
key (`C_AUTH`), issued on this very action (`C_COVERS`), accepted and fresh
(`C_PERMITS`), and covering the dispatch target (`C_TARGET`).

What holds of every report is read off three facts. A later claim is established
only with the first two (`check_established`). Coverage compares a hash of the
canonical text of the action, which has one value, so evidence covers one action
at most (`check_covers_same`). The target is a member of the hashed action
(`check_target`).

Mirroring notes:
- A JavaScript value is a `Json` without `.int`; `undefined` is `none`.
- A call that rejects is an `Except` error. `JSON.parse` and the throwing
  `canonical` are `Option`s, with the source's `catch` as the `none` branch.
- Decoding UTF-8, the dates and the digits of a double are an argument
  (`Platform`).
-/

namespace Preaction.FederationAdapter

open Preaction.Py Preaction.Py.Ecma
open Preaction.VerifyJs (bufferFromHex utf8Lossy)
open Preaction.Bip340Ts (verifyBip340)
open Preaction.Secp256k1 (secp256k1)

/-- What `check` takes from the JavaScript platform. -/
structure Platform where
  /-- `Buffer.from(bytes).toString('utf8')` -/
  decodeUtf8 : Bytes → Str
  /-- `Date.parse(s)`; none is `NaN`. -/
  dateParse : Str → Option Int
  /-- `new Date(ms).toISOString()` -/
  isoString : Int → Str
  /-- `JSON.stringify(x)` of a double that is no integer below `10^21`. -/
  numberText : PyFloat → Str

/-- The exceptions that leave `check`. -/
inductive JsError
  | typeError
  | rangeError
  deriving DecidableEq

/-- The claims of the manifest. -/
inductive Claim
  | auth
  | covers
  | permits
  | target
  deriving DecidableEq

/-- `ClaimResult["status"]` -/
inductive Status
  | established
  | notEstablished
  | failed
  deriving DecidableEq

/-- `ClaimResultV1` -/
structure ClaimResult where
  claim : Claim
  status : Status
  reason : Option Str
  subject : Option Str
  deriving DecidableEq

/-- `CheckOutput` -/
structure CheckOutput where
  evidence : Bytes
  claims : List ClaimResult
  validUntil : Option Str
  deriving DecidableEq

/-- `ctx.config` -/
structure Config where
  pubkey : Option Str
  acceptVerdicts : Option (List Str)
  maxAgeS : Option PyFloat
  declaredTarget : Option Json
  targetField : Option Str

/-- What `check` reads of its input. -/
structure CheckInput where
  evidence : Bytes
  action : Json
  now : Str
  target : Option Json

/-- `INVINOVERITAS_PUBKEY` -/
def invinoveritasPubkey : Str :=
  lit "6786e18a864893a900bd9858e650f67ccc3513f248fed374b591e2ff6922fbb7"

/-- `SCHEMA` -/
def schema : Str := lit "invinoveritas.verdict_proof.v1"

/-- `KIND` -/
def kind : Int := 30078

/-- `REASON_MAX` -/
def reasonMax : Nat := 120

/-- `isValidTarget(t)` of a string. -/
def isValidTarget (t : Str) : Bool := !t.isEmpty && !t.any isSurrogate

/-- `HEX64` and `HEX128`, for their lengths. -/
def isHex (n : Nat) (s : Str) : Bool :=
  s.length == n && s.all fun c => isDigit c || (0x61 ≤ c.val && c.val ≤ 0x66)

variable (R : Runtime) (J : Platform)

/-- `sha256hex(s)` -/
def sha256hex (s : Str) : Str := R.sha256Hex (utf8Lossy s)

/-- `all(status, reason, evidence)` -/
def all (status : Status) (reason : Str) (evidence : Bytes) : CheckOutput where
  evidence := evidence
  claims := [.auth, .covers, .permits, .target].map fun c => ⟨c, status, some reason, none⟩
  validUntil := none

/-- `v[k]` of a value that is an object or an array, the inherited members apart: none of
these is a string. -/
def member (v : Json) (k : Str) : Option Json :=
  match v with
  | .obj kvs => kvs.lookup k
  | .arr xs => if isIndexKey k then xs[decimalValue k]? else none
  | _ => none

/-- `args[targetField]` of an action, where `args` is an object or an array. -/
def targetMember (action : Json) (targetField : Str) : Option Json :=
  match action with
  | .obj kvs => (kvs.lookup (lit "args")).bind (member · targetField)
  | _ => none

/-- What `subjectOf` returns. -/
structure Subject where
  actionSha256 : Str
  target : Option Str

/-- `subjectOf(action, targetField)`; none where `canonical` throws. -/
def subjectOf (action : Json) (targetField : Option Str) : Option Subject :=
  (canonicalText J.numberText action).map fun text => {
    actionSha256 := sha256hex R text
    target := match targetMember action (targetField.getD (lit "target")) with
      | some (.str t) => some t
      | _ => none }

/-- The fields of an event that `check` has tested for their type. -/
structure Event where
  id : Str
  pubkey : Str
  createdAt : PyFloat
  kind : Option Json
  tags : List Json
  content : Str
  sig : Str

/-- The event in a parsed evidence: its `event` member, when that is truthy. -/
def eventMember (parsed : Json) : Json :=
  match parsed with
  | .obj kvs => match kvs.lookup (lit "event") with
    | some e => if truthy e then e else parsed
    | none => parsed
  | _ => parsed

/-- The type tests on an event. -/
def readEvent (ev : Json) : Option Event :=
  match ev with
  | .obj kvs =>
    match kvs.lookup (lit "content"), kvs.lookup (lit "created_at"), kvs.lookup (lit "tags"),
      kvs.lookup (lit "id"), kvs.lookup (lit "sig"), kvs.lookup (lit "pubkey") with
    | some (.str content), some (.float createdAt), some (.arr tags), some (.str id),
      some (.str sig), some (.str pubkey) =>
      some ⟨id, pubkey, createdAt, kvs.lookup (lit "kind"), tags, content, sig⟩
    | _, _, _, _, _, _ => none
  | _ => none

/-- The text whose hash is the id of an event. -/
def eventText (ev : Event) : Str :=
  stringify J.numberText (.arr [.float (.fin false 0 0), .str ev.pubkey, .float ev.createdAt,
    ev.kind.getD .null, .arr ev.tags, .str ev.content])

/-- `Array.isArray(t) && t[0] === 'schema' && t[1] === SCHEMA` -/
def isSchemaTag (t : Json) : Bool :=
  match t with
  | .arr (.str a :: .str b :: _) => a == lit "schema" && b == schema
  | _ => false

/-- `ev.kind === KIND` -/
def isKind (k : Option Json) : Bool :=
  match k with
  | some (.float x) => x.toInt? == some kind
  | _ => false

/-- 1. authenticity -/
def authClaim (cfg : Config) (ev : Event) : ClaimResult :=
  let pubkey := R.lower (cfg.pubkey.getD invinoveritasPubkey)
  let refused (reason : String) : ClaimResult := ⟨.auth, .notEstablished, some (lit reason), none⟩
  if !isHex 64 ev.id || !isHex 64 ev.pubkey || !isHex 128 ev.sig then
    refused "malformed_event_fields"
  else if sha256hex R (eventText J ev) ≠ ev.id then refused "event_id_does_not_recompute"
  else if ev.pubkey ≠ pubkey then refused "signer_is_not_the_pinned_key"
  else if !isKind ev.kind || !ev.tags.any isSchemaTag then refused "not_a_verdict_proof"
  else if !verifyBip340 secp256k1 R (bufferFromHex ev.pubkey) (bufferFromHex ev.id)
      (bufferFromHex ev.sig) then refused "signature_invalid"
  else ⟨.auth, .established, none, none⟩

/-- `content[k]`; a `TypeError` on `null`. -/
def contentMember (content : Json) (k : Str) : Except JsError (Option Json) :=
  match content with
  | .null => .error .typeError
  | .obj kvs => .ok (kvs.lookup k)
  | _ => .ok none

/-- 2. coverage -/
def coversClaim (artifactHash : Option Json) (subject : Subject) : ClaimResult :=
  if artifactHash = some (.str subject.actionSha256) then
    ⟨.covers, .established, some (lit "subject:action_sha256=" ++ subject.actionSha256), none⟩
  else ⟨.covers, .notEstablished, some (lit "verdict_is_for_a_different_action"), none⟩

/-- The dispatch target: the runtime's when it is a string, else the declared one. -/
def dispatchTarget (cfg : Config) (input : CheckInput) : Option Json :=
  match input.target with
  | some (.str t) => some (.str t)
  | _ => cfg.declaredTarget

/-- 2b. target -/
def targetClaim (cfg : Config) (input : CheckInput) (covers : ClaimResult)
    (subject : Subject) : ClaimResult :=
  let fromRuntime := match input.target with
    | some (.str _) => true
    | _ => false
  let refused (reason : String) (subj : Option Str) : ClaimResult :=
    ⟨.target, .notEstablished, some (lit reason), subj⟩
  if covers.status ≠ .established then refused "verdict_is_for_a_different_action" none
  else match subject.target with
    | none => refused "target_not_in_hashed_action" none
    | some t =>
      if !isValidTarget t then refused "target_not_valid" none
      else match dispatchTarget cfg input with
        | some (.str d) =>
          if t ≠ d then
            refused (if fromRuntime then "verdict_target_is_not_the_runtime_target"
              else "verdict_target_is_not_the_declared_target") (some t)
          else
            let r := lit "subject:target=" ++ t
            let reason := if (units r).length ≤ reasonMax then r
              else lit "subject:target_sha256=" ++ sha256hex R t
            ⟨.target, .established, some reason, some t⟩
        | _ => refused "no_runtime_target" (some t)

/-- `(ev.created_at + maxAgeS) * 1000` -/
def expiresMs (cfg : Config) (ev : Event) : PyFloat :=
  scale 1000 (add ev.createdAt (cfg.maxAgeS.getD (roundToDouble false 900 1)))

/-- `typeof content.verdict === 'string' && accept.includes(content.verdict)` -/
def isAccepted (cfg : Config) (verdict : Option Json) : Bool :=
  match verdict with
  | some (.str v) => (cfg.acceptVerdicts.getD [lit "approve"]).contains v
  | _ => false

/-- `nowMs <= expiresMs` -/
def isFresh (cfg : Config) (input : CheckInput) (ev : Event) : Bool :=
  match J.dateParse input.now with
  | some nowMs => intLe nowMs (expiresMs cfg ev)
  | none => false

/-- 3. permission; a `TypeError` where a refused verdict has no text. -/
def permitsClaim (cfg : Config) (input : CheckInput) (ev : Event) (covers : ClaimResult)
    (verdict : Option Json) : Except JsError ClaimResult :=
  let refused (reason : Str) : ClaimResult := ⟨.permits, .notEstablished, some reason, none⟩
  if covers.status ≠ .established then .ok (refused (lit "verdict_is_for_a_different_action"))
  else if !isAccepted cfg verdict then match stringOf J.numberText verdict with
    | some text => .ok (refused (lit "verdict_" ++ text))
    | none => .error .typeError
  else if !isFresh J cfg input ev then .ok (refused (lit "verdict_older_than_max_age"))
  else .ok ⟨.permits, .established, none, none⟩

/-- `new Date(ms).toISOString()`; a `RangeError` outside the range of dates. -/
def toISOString (ms : PyFloat) : Except JsError Str :=
  match ms.toRat? with
  | some q =>
    let t : Int := if q < 0 then -((-q).floor) else q.floor
    if t.natAbs ≤ 8640000000000000 then .ok (J.isoString t) else .error .rangeError
  | none => .error .rangeError

/-- `out.valid_until`, set on a permission only. -/
def outUntil (cfg : Config) (ev : Event) (permits : ClaimResult) : Except JsError (Option Str) :=
  if permits.status = .established then (toISOString J (expiresMs cfg ev)).map some else .ok none

/-- The claims of an event that is not authentic. -/
def notAuthentic (auth : ClaimResult) (evidence : Bytes) : CheckOutput where
  evidence := evidence
  claims := auth :: [.covers, .permits, .target].map fun c =>
    ⟨c, .notEstablished, some (lit "verdict_not_authentic"), none⟩
  validUntil := none

/-- `check(input)` of `createAdapter(ctx)`. -/
def check (cfg : Config) (input : CheckInput) : Except JsError CheckOutput :=
  let bytes := input.evidence
  if bytes = [] then .ok (all .notEstablished (lit "no_verdict_presented") [])
  else match parse ecmaDialect (J.decodeUtf8 bytes) with
    | none => .ok (all .failed (lit "evidence_not_json") bytes)
    | some parsed => match readEvent (eventMember parsed) with
      | none => .ok (all .failed (lit "evidence_not_a_signed_event") bytes)
      | some ev =>
        let auth := authClaim R J cfg ev
        if auth.status ≠ .established then .ok (notAuthentic auth bytes)
        else match parse ecmaDialect ev.content with
          | none => .ok (all .failed (lit "content_not_json") bytes)
          | some content => match subjectOf R J input.action cfg.targetField with
            | none => .ok (all .failed (lit "action_not_canonicalizable") bytes)
            | some subject => do
              let artifactHash ← contentMember content (lit "artifact_hash")
              let verdict ← contentMember content (lit "verdict")
              let covers := coversClaim artifactHash subject
              let target := targetClaim R cfg input covers subject
              let permits ← permitsClaim J cfg input ev covers verdict
              let validUntil ← outUntil J cfg ev permits
              return ⟨bytes, [auth, covers, permits, target], validUntil⟩

/-! ## What a report establishes -/

/-- The report has the claim as established. -/
def Established (out : CheckOutput) (c : Claim) : Prop :=
  ∃ r ∈ out.claims, r.claim = c ∧ r.status = .established

/-- The event of the evidence and what its content says. -/
structure Verdict where
  ev : Event
  artifactHash : Option Json
  verdict : Option Json

/-- What `check` reads from the evidence alone. -/
def readVerdict (evidence : Bytes) : Option Verdict := do
  let ev ← readEvent (eventMember (← parse ecmaDialect (J.decodeUtf8 evidence)))
  let content ← parse ecmaDialect ev.content
  match contentMember content (lit "artifact_hash"), contentMember content (lit "verdict") with
  | .ok artifactHash, .ok verdict => some ⟨ev, artifactHash, verdict⟩
  | _, _ => none

variable {R J} {cfg : Config} {input : CheckInput} {out : CheckOutput}

theorem not_established_all {status : Status} (h : status ≠ .established) (reason : Str)
    (evidence : Bytes) (c : Claim) : ¬ Established (all status reason evidence) c := by
  intro ⟨r, hr, _, hs⟩
  obtain ⟨c', _, rfl⟩ := List.mem_map.mp hr
  exact h hs

theorem not_established_notAuthentic {auth : ClaimResult} (h : auth.status ≠ .established)
    (evidence : Bytes) (c : Claim) : ¬ Established (notAuthentic auth evidence) c := by
  intro ⟨r, hr, _, hs⟩
  rcases List.mem_cons.mp hr with rfl | hr
  · exact h hs
  · obtain ⟨c', _, rfl⟩ := List.mem_map.mp hr
    cases hs

/-- A report that establishes anything comes from an authentic verdict and a canonical
action. -/
theorem check_cases (h : check R J cfg input = .ok out) {c : Claim} (hc : Established out c) :
    ∃ v subject permits, readVerdict J input.evidence = some v ∧
      (authClaim R J cfg v.ev).status = .established ∧
      subjectOf R J input.action cfg.targetField = some subject ∧
      permitsClaim J cfg input v.ev (coversClaim v.artifactHash subject) v.verdict = .ok permits ∧
      out.claims = [authClaim R J cfg v.ev, coversClaim v.artifactHash subject, permits,
        targetClaim R cfg input (coversClaim v.artifactHash subject) subject] := by
  unfold check at h
  dsimp only at h
  split at h
  next =>
    obtain rfl := Except.ok.inj h
    exact absurd hc (not_established_all (by decide) _ _ c)
  next =>
    split at h
    next =>
      obtain rfl := Except.ok.inj h
      exact absurd hc (not_established_all (by decide) _ _ c)
    next parsed hparsed =>
      split at h
      next =>
        obtain rfl := Except.ok.inj h
        exact absurd hc (not_established_all (by decide) _ _ c)
      next ev hev =>
        split at h
        next hauth =>
          obtain rfl := Except.ok.inj h
          exact absurd hc (not_established_notAuthentic hauth _ c)
        next hauth =>
          split at h
          next =>
            obtain rfl := Except.ok.inj h
            exact absurd hc (not_established_all (by decide) _ _ c)
          next content hcontent =>
            split at h
            next =>
              obtain rfl := Except.ok.inj h
              exact absurd hc (not_established_all (by decide) _ _ c)
            next subject hsubject =>
              obtain ⟨artifactHash, hhash, h⟩ := Loop.bind_ok.mp h
              obtain ⟨verdict, hverdict, h⟩ := Loop.bind_ok.mp h
              obtain ⟨permits, hpermits, h⟩ := Loop.bind_ok.mp h
              obtain ⟨validUntil, _, h⟩ := Loop.bind_ok.mp h
              obtain rfl := Except.ok.inj h
              refine ⟨⟨ev, artifactHash, verdict⟩, subject, permits, ?_,
                Decidable.not_not.mp hauth, hsubject, hpermits, rfl⟩
              simp only [readVerdict, hparsed, hev, hcontent, hhash, hverdict, Option.bind_eq_bind,
                Option.bind_some]

/-! ## The claims one by one -/

theorem authClaim_claim (ev : Event) : (authClaim R J cfg ev).claim = .auth := by
  unfold authClaim
  dsimp only
  split; · rfl
  split; · rfl
  split; · rfl
  split; · rfl
  split <;> rfl

theorem coversClaim_claim (artifactHash : Option Json) (subject : Subject) :
    (coversClaim artifactHash subject).claim = .covers := by
  unfold coversClaim
  split <;> rfl

theorem coversClaim_established {artifactHash : Option Json} {subject : Subject}
    (h : (coversClaim artifactHash subject).status = .established) :
    artifactHash = some (.str subject.actionSha256) := by
  unfold coversClaim at h
  split at h
  next heq => exact heq
  next => cases h

theorem permitsClaim_claim {ev : Event} {covers permits : ClaimResult} {verdict : Option Json}
    (h : permitsClaim J cfg input ev covers verdict = .ok permits) : permits.claim = .permits := by
  unfold permitsClaim at h
  dsimp only at h
  split at h
  next => rw [← Except.ok.inj h]
  next =>
    split at h
    next =>
      split at h
      next => rw [← Except.ok.inj h]
      next => cases h
    next =>
      split at h
      next => rw [← Except.ok.inj h]
      next => rw [← Except.ok.inj h]

theorem permitsClaim_established {ev : Event} {covers permits : ClaimResult}
    {verdict : Option Json} (h : permitsClaim J cfg input ev covers verdict = .ok permits)
    (hs : permits.status = .established) : covers.status = .established := by
  unfold permitsClaim at h
  dsimp only at h
  split at h
  next =>
    rw [← Except.ok.inj h] at hs
    cases hs
  next hcovers => exact Decidable.not_not.mp hcovers

theorem targetClaim_claim (covers : ClaimResult) (subject : Subject) :
    (targetClaim R cfg input covers subject).claim = .target := by
  unfold targetClaim
  dsimp only
  split
  next => rfl
  next =>
    split
    next => rfl
    next =>
      split
      next => rfl
      next =>
        split
        next => split <;> rfl
        next => rfl

theorem targetClaim_established {covers : ClaimResult} {subject : Subject}
    (h : (targetClaim R cfg input covers subject).status = .established) :
    covers.status = .established ∧
      ∃ t, subject.target = some t ∧ dispatchTarget cfg input = some (.str t) := by
  unfold targetClaim at h
  dsimp only at h
  split at h
  next => cases h
  next hcovers =>
    refine ⟨Decidable.not_not.mp hcovers, ?_⟩
    split at h
    next => cases h
    next t ht =>
      split at h
      next => cases h
      next =>
        split at h
        next d hd =>
          split at h
          next => cases h
          next heq =>
            obtain rfl := Decidable.not_not.mp heq
            exact ⟨t, ht, hd⟩
        next => cases h

/-- In a report of four results each claim has one. -/
theorem established_of_claims {a c p t : ClaimResult} (hclaims : out.claims = [a, c, p, t])
    (ha : a.claim = .auth) (hc : c.claim = .covers) (hp : p.claim = .permits)
    (ht : t.claim = .target) :
    (Established out .auth ↔ a.status = .established) ∧
    (Established out .covers ↔ c.status = .established) ∧
    (Established out .permits ↔ p.status = .established) ∧
    (Established out .target ↔ t.status = .established) := by
  unfold Established
  simp [hclaims, ha, hc, hp, ht]

/-! ## What every report satisfies -/

/-- An established permission or target stands on an authentic verdict on this action. -/
theorem check_established (h : check R J cfg input = .ok out)
    (hc : Established out .target ∨ Established out .permits) :
    Established out .auth ∧ Established out .covers := by
  obtain ⟨c, hany⟩ : ∃ c, Established out c := hc.elim (fun h => ⟨_, h⟩) fun h => ⟨_, h⟩
  obtain ⟨v, subject, permits, _, hauth, _, hpermits, hclaims⟩ := check_cases h hany
  obtain ⟨hisAuth, hisCovers, hisPermits, hisTarget⟩ := established_of_claims hclaims
    (authClaim_claim _) (coversClaim_claim ..) (permitsClaim_claim hpermits)
    (targetClaim_claim ..)
  refine ⟨hisAuth.mpr hauth, hisCovers.mpr ?_⟩
  rcases hc with htarget | hpermit
  · exact (targetClaim_established (hisTarget.mp htarget)).1
  · exact permitsClaim_established hpermits (hisPermits.mp hpermit)

/-- What an established coverage says of the evidence and the action. -/
theorem check_covers (h : check R J cfg input = .ok out) (hc : Established out .covers) :
    ∃ v text, readVerdict J input.evidence = some v ∧
      canonicalText J.numberText input.action = some text ∧
      v.artifactHash = some (.str (sha256hex R text)) := by
  obtain ⟨v, subject, permits, hv, _, hsubject, hpermits, hclaims⟩ := check_cases h hc
  obtain ⟨_, hisCovers, _, _⟩ := established_of_claims hclaims (authClaim_claim _)
    (coversClaim_claim ..) (permitsClaim_claim hpermits) (targetClaim_claim ..)
  have hhash := coversClaim_established (hisCovers.mp hc)
  obtain ⟨text, htext, rfl⟩ := Option.map_eq_some_iff.mp hsubject
  exact ⟨v, text, hv, htext, hhash⟩

theorem sha256hex_inj (hsha : Function.Injective R.sha256) {s t : Str} (hs : Scalar s)
    (ht : Scalar t) (h : sha256hex R s = sha256hex R t) : s = t := by
  have hbytes := hsha (hexStr_injective h)
  rw [VerifyJs.utf8Lossy_of_scalar hs, VerifyJs.utf8Lossy_of_scalar ht] at hbytes
  exact utf8Bytes_injective hbytes

/-- One evidence covers one action. -/
theorem check_covers_same (hsha : Function.Injective R.sha256) (hnum : NumberText J.numberText)
    {cfg' : Config} {input' : CheckInput} {out' : CheckOutput}
    (hevidence : input.evidence = input'.evidence)
    (h : check R J cfg input = .ok out) (h' : check R J cfg' input' = .ok out')
    (hc : Established out .covers) (hc' : Established out' .covers) :
    Same input.action input'.action := by
  obtain ⟨v, text, hv, htext, hhash⟩ := check_covers h hc
  obtain ⟨v', text', hv', htext', hhash'⟩ := check_covers h' hc'
  rw [hevidence, hv'] at hv
  obtain rfl := Option.some.inj hv
  have hsame := Json.str.inj (Option.some.inj (hhash.symm.trans hhash'))
  obtain rfl := sha256hex_inj hsha (canonicalText_scalar hnum htext)
    (canonicalText_scalar hnum htext') hsame
  exact canonicalText_inj hnum htext htext'

/-- The covered target is the dispatch target. -/
theorem check_target (h : check R J cfg input = .ok out) (hc : Established out .target) :
    ∃ t, dispatchTarget cfg input = some (.str t) ∧
      targetMember input.action (cfg.targetField.getD (lit "target")) = some (.str t) := by
  obtain ⟨v, subject, permits, _, _, hsubject, hpermits, hclaims⟩ := check_cases h hc
  obtain ⟨_, _, _, hisTarget⟩ := established_of_claims hclaims (authClaim_claim _)
    (coversClaim_claim ..) (permitsClaim_claim hpermits) (targetClaim_claim ..)
  obtain ⟨_, t, ht, hdispatch⟩ := targetClaim_established (hisTarget.mp hc)
  refine ⟨t, hdispatch, ?_⟩
  obtain ⟨text, _, rfl⟩ := Option.map_eq_some_iff.mp hsubject
  dsimp only at ht
  split at ht
  next t' hmember => rw [hmember, Option.some.inj ht]
  next => cases ht

/-- A signature by the secret key `1` with the nonce `1`. -/
def baseKey : Str := lit "79be667ef9dcbbac55a06295ce870b07029bfcdb2dce28d959f2815b16f81798"

/-- Two actions that differ in the order of their keys. -/
def payAction : Json := object [("kind", text "pay"), ("args", object [("target", text "acct")])]

def payAction' : Json := object [("args", object [("target", text "acct")]), ("kind", text "pay")]

/-- The digest of all but two texts in the sample run. -/
def plainDigest (b : Bytes) : Bytes := 1 :: b

def payContent : Str :=
  lit "\x7b\"artifact_hash\":\"" ++ hexStr (plainDigest (utf8Bytes
    (lit "\x7b\"args\":\x7b\"target\":\"acct\"\x7d,\"kind\":\"pay\"\x7d"))) ++
  lit "\",\"verdict\":\"approve\"\x7d"

def samplePlatform : Platform where
  decodeUtf8 b := b.map fun x => Fin.ofNat _ x.toNat
  dateParse _ := some 1700000000000
  isoString _ := lit "2023-11-14T22:28:20.000Z"
  numberText := Runtime.floatToken

def payEvent : Event where
  id := List.replicate 64 (ofChar '0')
  pubkey := baseKey
  createdAt := roundToDouble false 1700000000 1
  kind := some (.float (roundToDouble false 30078 1))
  tags := [.arr [text "schema", .str schema]]
  content := payContent
  sig := baseKey ++ List.replicate 63 (ofChar '0') ++ [ofChar '2']

def payEvidence : Bytes :=
  utf8Bytes (stringify samplePlatform.numberText (.obj [(lit "id", .str payEvent.id),
    (lit "pubkey", .str payEvent.pubkey), (lit "created_at", .float payEvent.createdAt),
    (lit "kind", payEvent.kind.getD .null), (lit "tags", .arr payEvent.tags),
    (lit "content", .str payEvent.content), (lit "sig", .str payEvent.sig)]))

/-- The digest of the event is zero, that of the challenge is one. -/
def sampleSha (b : Bytes) : Bytes :=
  let th := plainDigest (utf8Bytes Bip340.challengeTag)
  if b = utf8Bytes (eventText samplePlatform payEvent) then List.replicate 32 0
  else if b = th ++ th ++ bufferFromHex baseKey ++ bufferFromHex baseKey ++ List.replicate 32 0 then
    List.replicate 31 0 ++ [1]
  else plainDigest b

def sampleRuntime : Runtime := { Runtime.sample with sha256 := sampleSha }

def sampleConfig : Config := ⟨some baseKey, none, none, some (text "acct"), none⟩

def sampleInput (action : Json) : CheckInput := ⟨payEvidence, action, [], none⟩

theorem sampleRuntime_injective : Function.Injective sampleRuntime.sha256 := by
  intro a b h
  have hzero : List.replicate 32 (0 : UInt8) ≠ List.replicate 31 0 ++ [1] := by decide
  have hplain (b : Bytes) : List.replicate 32 (0 : UInt8) ≠ plainDigest b := by
    intro h
    exact absurd (List.cons.inj h).1 (by decide)
  have hplain' (b : Bytes) : List.replicate 31 (0 : UInt8) ++ [1] ≠ plainDigest b := by
    intro h
    exact absurd (List.cons.inj h).1 (by decide)
  simp only [sampleRuntime, sampleSha] at h
  split at h
  next ha =>
    split at h
    next hb => exact ha.trans hb.symm
    next =>
      split at h
      next => exact absurd h hzero
      next => exact absurd h (hplain b)
  next =>
    split at h
    next ha =>
      split at h
      next => exact absurd h.symm hzero
      next =>
        split at h
        next hb => exact ha.trans hb.symm
        next => exact absurd h (hplain' b)
    next =>
      split at h
      next => exact absurd h.symm (hplain a)
      next =>
        split at h
        next => exact absurd h.symm (hplain' a)
        next => exact (List.cons.inj h).2

theorem numberText_sample : NumberText samplePlatform.numberText where
  lawful := Runtime.floatToken_lawful true
  scalar _ := scalar_cons.mpr ⟨by decide, scalar_decimal _⟩

/-- A run whose four claims are established. -/
theorem exists_established {cfg : Config} {input : CheckInput}
    (h : (check sampleRuntime samplePlatform cfg input).toOption.map (fun out =>
      out.claims.map fun r => (r.claim, r.status)) =
        some ([.auth, .covers, .permits, .target].map (·, .established))) :
    ∃ out, check sampleRuntime samplePlatform cfg input = .ok out ∧ ∀ c, Established out c := by
  cases hout : check sampleRuntime samplePlatform cfg input with
  | error e =>
    rw [hout] at h
    cases h
  | ok out =>
    rw [hout] at h
    have hclaims : out.claims.map (fun r => (r.claim, r.status)) = _ := Option.some.inj h
    refine ⟨out, rfl, fun c => ?_⟩
    have hmem : (c, Status.established) ∈ out.claims.map fun r => (r.claim, r.status) := by
      rw [hclaims]
      cases c <;> decide
    obtain ⟨r, hr, heq⟩ := List.mem_map.mp hmem
    exact ⟨r, hr, (Prod.mk.inj heq).1, (Prod.mk.inj heq).2⟩

end Preaction.FederationAdapter
