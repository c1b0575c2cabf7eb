import Mathlib.Data.List.Sort
import Preaction.Lib.Loop
import Preaction.Nenrin.Records

/-!
# `nenrin_cleanroom.py` — `verify`

The six steps of the procedure over one bundle, each a report of what it
refuses and finds; a bundle is accepted when no step refuses anything.

Mirroring notes:
- `Report.signature` sorts and de-duplicates what is collected here in order;
  neither changes whether there is a refusal.
- `pair_check` and the checks of the preflight step differ in the fields they
  read and in the action bindings they ask for; both are `checkAgainstGrant`.
- The only exception is the hash of a `prev_evidence_id` that is a list or a
  dict.
- Which verdicts stand at one `seq` is asked of pairs of observations instead
  of through a dict of sets.
-/

namespace Preaction.Nenrin

open Preaction.Py

/-- The codes of `r.refuse`. -/
inductive Code
  | taskIdMissing
  | taskIdMismatch
  | delegationObservationInvalid
  | delegationChainBroken
  | executionInvalid
  | executionIncompletePair
  | executionSignatureInvalid
  | executionUnreconciled
  | executionEquivocation
  | preflightWithoutGrant
  | preflightInvalid
  | preflightSignatureInvalid
  | evidenceInvalid
  | linkageReceiptMismatch
  deriving DecidableEq, Repr

/-- The codes of `r.find`. -/
inductive Finding
  | noDelegationObservations
  | witnessDisagreement
  | noExecutionRecords
  | openGrant
  | selfAuthorized
  | declaredExecutedDivergence
  | noEvidenceBound
  | evidenceBoundUnchecked
  | noDigestLink
  deriving DecidableEq, Repr

/-- `Report` -/
structure Report where
  refusals : List (Code × Option Reason)
  findings : List Finding
  deriving DecidableEq, Repr

namespace Report

def empty : Report := ⟨[], []⟩

/-- `r.refuse(code, reason)` -/
def refuse (code : Code) (reason : Option Reason) : Report := ⟨[(code, reason)], []⟩

/-- `r.find(code)` -/
def find (code : Finding) : Report := ⟨[], [code]⟩

instance : Append Report := ⟨fun a b => ⟨a.refusals ++ b.refusals, a.findings ++ b.findings⟩⟩

/-- `if why: r.refuse(code, why)` -/
def refuseIf (code : Code) (why : Option Reason) : Report :=
  match why with
  | some why => refuse code (some why)
  | none => empty

/-- `verdict == "accepted"` -/
def Accepted (r : Report) : Prop := r.refusals = []

instance (r : Report) : Decidable r.Accepted := inferInstanceAs (Decidable (_ = _))

@[simp] theorem refusals_append (a b : Report) : (a ++ b).refusals = a.refusals ++ b.refusals := rfl

@[simp] theorem findings_append (a b : Report) : (a ++ b).findings = a.findings ++ b.findings := rfl

theorem append_assoc (a b c : Report) : a ++ b ++ c = a ++ (b ++ c) :=
  congrArg₂ Report.mk (List.append_assoc ..) (List.append_assoc ..)

@[simp] theorem accepted_append {a b : Report} : (a ++ b).Accepted ↔ a.Accepted ∧ b.Accepted :=
  List.append_eq_nil_iff

@[simp] theorem accepted_empty : empty.Accepted := rfl

@[simp] theorem accepted_find (code : Finding) : (find code).Accepted := rfl

@[simp] theorem not_accepted_refuse {code : Code} {reason : Option Reason} :
    ¬ (refuse code reason).Accepted := nofun

@[simp] theorem accepted_refuseIf {code : Code} {why : Option Reason} :
    (refuseIf code why).Accepted ↔ why = none := by
  cases why <;> simp [refuseIf]

end Report

open Report

variable (R : Runtime)

/-! ## The slots of a bundle -/

/-- `_slot(bundle, key, r, code)`: the record, and what it refuses. -/
def slot (bundle : Record) (key : String) (code : Code) : Option Record × Report :=
  match getField bundle key with
  | .null => (none, empty)
  | .bool false => (none, empty)
  | .obj kvs => (some kvs, empty)
  | _ => (none, refuse code (some .recordNotObject))

/-- `_list(bundle, key)` -/
def listAt (bundle : Record) (key : String) : List Json :=
  match getField bundle key with
  | .arr xs => xs
  | _ => []

/-- `[o for o in xs if isinstance(o, dict)]` -/
def dicts (xs : List Json) : List Record := xs.filterMap dict?

/-- `sigs` -/
def requireSignatures (bundle : Record) : Bool :=
  getField bundle "require_signatures" != .bool false

/-- The grant of a bundle. -/
def grantOf (bundle : Record) : Option Record := (slot bundle "grant" .executionInvalid).1

/-- `cands`: the receipt objects of a bundle. -/
def cands (bundle : Record) : List Record :=
  (slot bundle "receipt" .executionInvalid).1.toList ++ dicts (listAt bundle "receipts")

/-- `r_exec`: what the malformed records of the execution step refuse. -/
def malformedExecution (bundle : Record) : Report :=
  (slot bundle "grant" .executionInvalid).2 ++ (slot bundle "receipt" .executionInvalid).2 ++
    ⟨(listAt bundle "receipts").filterMap fun x =>
      if (dict? x).isSome then none else some (.executionInvalid, some .recordNotObject), []⟩

/-- The loop over `cands`: a record whose canonical bytes were seen is dropped. -/
def dropSeen : List Bytes → List Record → List Record
  | _, [] => []
  | seen, x :: xs => match tryCanonical (.obj x) with
    | some cb => if seen.contains cb then dropSeen seen xs else x :: dropSeen (seen ++ [cb]) xs
    | none => x :: dropSeen seen xs

/-- `rset` -/
def receiptSet (bundle : Record) : List Record := dropSeen [] (cands bundle)

/-! ## Step 0, identity -/

def identity (tid : Json) (records : List Record) : Report :=
  match tid with
  | .str (c :: cs) =>
    if records.any fun x => x.lookup (lit "task_id") != some (.str (c :: cs)) then
      refuse .taskIdMismatch none
    else empty
  | _ => refuse .taskIdMissing none ++
      if records.isEmpty then empty else refuse .taskIdMismatch none

/-! ## Step 1, delegation -/

/-- The hop of an observation, empty where it is not a dict. -/
def hopOf (o : Record) : Record := (dict? (getField o "hop")).getD []

/-- What the `from` of a hop signs. -/
def edgePreimage (taskId hop : Json) : Json := .obj [(lit "task_id", taskId), (lit "hop", hop)]

/-- The body of the loop over `obs`. -/
def observationFault (sigs : Bool) (o : Record) : Option Reason :=
  let hop := hopOf o
  let w := o.lookup (lit "witness_id")
  if Json.pyEq? w (hop.lookup (lit "from")) || Json.pyEq? w (hop.lookup (lit "to")) then
    some .witnessNotIndependent
  else if !recomputes R o .obs "evidence_id" then some .recomputeMismatch
  else if !sigs then none
  else if !sigVerifies R (getField o "witness_id") (getField o "witness_sig") (preimage o .obs) then
    some .witnessSigInvalid
  else match o.lookup (lit "task_id"), o.lookup (lit "hop") with
    | some t, some h =>
      if sigVerifies R (getField hop "from") (getField o "edge_sig") (edgePreimage t h) then none
      else some .edgeSigInvalid
    | _, _ => some .edgeSigInvalid

/-- `seq_of(o)`; `none` is `MISSING`. -/
def seqOf (o : Record) : Option Int :=
  match (dict? (getField o "hop")).bind (·.lookup (lit "seq")) with
  | some (.int n) => some n
  | _ => none

/-- `sorted(set(seqs)) == list(range(len(set(seqs))))` -/
def gapless (seqs : List Int) : Bool :=
  let distinct := seqs.eraseDups
  distinct.insertionSort (· ≤ ·) == (List.range distinct.length).map Int.ofNat

/-- An element of `ids[s]`: a digest, or `None`. -/
def ridValue (o : Record) : Json :=
  match rid R o .obs with
  | some h => .str h
  | none => .null

/-- `ids.get(s, set())` -/
def idsAt (obs : List (Record × Int)) (s : Int) : List Json :=
  (obs.filter (·.2 == s)).map fun o => ridValue R o.1

/-- The loop that checks each link; `all` is what `ids` was filled from. -/
def linkFault (all : List (Record × Int)) : List (Record × Int) → Except PyError (Option Reason)
  | [] => .ok none
  | (o, s) :: rest =>
    let pv := o.lookup (lit "prev_evidence_id")
    if s = 0 then
      if pv = some .null then linkFault all rest else .ok (some .rootPrevNotNull)
    else match pv with
      | none => .ok (some .brokenLink)
      | some .null => .ok (some .brokenLink)
      | some pv => do
        Json.hashable pv
        if Json.pyIn pv (idsAt R all (s - 1)) then linkFault all rest
        else return some .brokenLink

/-- R3 -/
def chainFault (obs : List Record) : Except PyError (Option Reason) :=
  if obs.any (fun o => (seqOf o).isNone) || !gapless (obs.filterMap seqOf) then
    .ok (some .seqGap)
  else
    let all := obs.filterMap fun o => (seqOf o).map (o, ·)
    linkFault R all all

/-- The verdict an observation gives, as R4 tells them apart. -/
inductive Verdict
  | missing
  | str (s : Str)
  | other (repr : Str)
  deriving DecidableEq

/-- The key R4 groups by: no hop, a hop without `seq`, or the text of `seq`. -/
def groupKey (o : Record) : Option (Option Str) :=
  (dict? (getField o "hop")).map fun h => (h.lookup (lit "seq")).map R.repr

def verdictOf (o : Record) : Verdict :=
  match (dict? (getField o "conduct")).bind (·.lookup (lit "verdict")) with
  | none => .missing
  | some (.str s) => .str s
  | some v => .other (R.repr v)

/-- R4 -/
def witnessDisagreement (obs : List Record) : Bool :=
  obs.any fun a => obs.any fun b => groupKey R a == groupKey R b && verdictOf R a != verdictOf R b

def delegation (sigs : Bool) (rawObs : List Json) : Except PyError Report :=
  if rawObs.isEmpty then .ok (find .noDelegationObservations)
  else do
    let obs := dicts rawObs
    let malformed := if obs.length = rawObs.length then empty
      else refuse .delegationObservationInvalid (some .recordNotObject)
    let faults : Report := ⟨(obs.filterMap (observationFault R sigs)).map fun why =>
      (.delegationObservationInvalid, some why), []⟩
    let broken ← chainFault R obs
    return malformed ++ faults ++ refuseIf .delegationChainBroken broken ++
      if witnessDisagreement R obs then find .witnessDisagreement else empty

/-! ## Step 2, execution -/

/-- What tells a receipt from an intent in the check against the grant. -/
structure Bound where
  kind : Kind
  idField : String
  mismatch : Reason
  unbound : Reason
  atField : String
  actionField : String

def receiptBound : Bound :=
  ⟨.receipt, "receipt_id", .receiptRecomputeMismatch, .receiptUnbound, "executed_at",
    "executed_action"⟩

def intentBound : Bound :=
  ⟨.intent, "intent_id", .intentRecomputeMismatch, .intentUnbound, "declared_at",
    "proposed_action"⟩

/-- `gp is not None and gp != rec.get("provider_id", MISSING)` -/
def providerRefuses (grant rec : Record) : Bool :=
  let gp := getField grant "provider_id"
  gp != .null && !Json.pyEq? (some gp) (rec.lookup (lit "provider_id"))

/-- What a pair inside the window finds about its grant. -/
def grantFindings (grant : Record) : List Finding :=
  let gp := getField grant "provider_id"
  if gp = .null then [.openGrant]
  else if Json.pyEq? (some gp) (grant.lookup (lit "caller_id")) then [.selfAuthorized]
  else []

/-- The first failing reason of a record against its grant, and the findings made
on the way; `binding` is what the action bindings answer. -/
def checkAgainstGrant (b : Bound) (binding : Option Reason) (grant rec : Record) :
    Option Reason × List Finding :=
  match rid R grant .grant with
  | none => (some .grantRecomputeMismatch, [])
  | some gref =>
    if grant.lookup (lit "grant_ref") ≠ some (.str gref) then (some .grantRecomputeMismatch, [])
    else if !recomputes R rec b.kind b.idField then (some b.mismatch, [])
    else match binding with
      | some why => (some why, [])
      | none =>
        if rec.lookup (lit "grant_ref") ≠ some (.str gref) then (some b.unbound, [])
        else match instant (getField rec b.atField) with
          | none => (some .invalidTimestamp, [])
          | some t =>
            if !boundOk grant "not_before" || !boundOk grant "not_after" then
              (some .invalidTimestamp, [])
            else if providerRefuses grant rec then (some .providerNotAuthorized, [])
            else if !inWindow grant t then (some .outsideAuthorizationWindow, [])
            else
              (if actionsEqual (grant.lookup (lit "action")) (rec.lookup (lit b.actionField)) then
                none else some .actionDiverged, grantFindings grant)

/-- `pair_check(grant, rec, r, add_findings)` -/
def pairCheck (grant rec : Record) : Option Reason × List Finding :=
  checkAgainstGrant R receiptBound
    (actionBinding R grant "action" <|> actionBinding R rec "executed_action") grant rec

/-- The caller's signature over the grant. -/
def callerSigned (grant : Record) : Bool :=
  sigVerifies R (getField grant "caller_id") (getField grant "caller_sig") (preimage grant .grant)

/-- A signature over the receipt by the provider it names. -/
def providerSigned (x : Record) : Bool :=
  sigVerifies R (getField x "provider_id") (getField x "provider_sig") (preimage x .receipt)

/-- The receipt counts for reconciliation: it names the grant and `gp`, its id
recomputes, and `gp` signed it. -/
def counts (sigs : Bool) (grant : Record) (gp : Json) (x : Record) : Bool :=
  Json.pyEq? (x.lookup (lit "grant_ref")) (grant.lookup (lit "grant_ref")) &&
    Json.pyEq? (x.lookup (lit "provider_id")) (some gp) &&
    recomputes R x .receipt "receipt_id" &&
    (!sigs || sigVerifies R gp (getField x "provider_sig") (preimage x .receipt))

/-- `auth`: the first receipt that counts for each `receipt_id`. -/
def authorized (sigs : Bool) (grant : Record) (gp : Json) : List Json → List Record → List Record
  | _, [] => []
  | ids, x :: xs =>
    let i := getField x "receipt_id"
    if counts R sigs grant gp x && !Json.pyIn i ids then
      x :: authorized sigs grant gp (ids ++ [i]) xs
    else authorized sigs grant gp ids xs

/-- The reconciliation of the receipts of a grant. -/
def reconcile (sigs : Bool) (grant : Record) (rset : List Record) : Report × Option Record :=
  let gp := getField grant "provider_id"
  if gp = .null then (refuse .executionUnreconciled (some .openGrant), none)
  else match authorized R sigs grant gp [] rset with
    | [] => (refuse .executionUnreconciled none, none)
    | [x] => (empty, some x)
    | _ => (refuse .executionEquivocation none, none)

/-- The execution step of a grant with at least one receipt. -/
def executionPair (sigs : Bool) (grant primary : Record) (rest : List Record) :
    Report × Option Record :=
  let (why, findings) := pairCheck R grant primary
  let signatures :=
    if !sigs then empty
    else if !callerSigned R grant then refuse .executionSignatureInvalid (some .callerSig)
    else if !providerSigned R primary then refuse .executionSignatureInvalid (some .providerSig)
    else empty
  let others : Report := ⟨rest.filterMap fun x =>
    if sigs && !(callerSigned R grant && providerSigned R x) then none
    else (pairCheck R grant x).1.map fun why => (.executionInvalid, some why), []⟩
  let (reconciliation, reconciled) := reconcile R sigs grant (primary :: rest)
  (refuseIf .executionInvalid why ++ ⟨[], findings⟩ ++ signatures ++ others ++ reconciliation,
    reconciled)

def execution (sigs : Bool) (grant : Option Record) (rset : List Record) :
    Report × Option Record :=
  match grant, rset with
  | none, [] => (find .noExecutionRecords, none)
  | some grant, primary :: rest => executionPair R sigs grant primary rest
  | _, _ => (refuse .executionIncompletePair none, none)

/-! ## Steps 3 to 5 -/

def preflight (sigs : Bool) (grant intent reconciled : Option Record) : Report :=
  match intent, grant with
  | none, _ => empty
  | some _, none => refuse .preflightWithoutGrant none
  | some intent, some grant =>
    let (why, findings) :=
      checkAgainstGrant R intentBound (actionBinding R intent "proposed_action") grant intent
    let signature :=
      if sigs && !sigVerifies R (getField intent "provider_id") (getField intent "intent_sig")
          (preimage intent .intent) then refuse .preflightSignatureInvalid none
      else empty
    let divergence := match reconciled with
      | none => empty
      | some x =>
        let a := tryCanonical (getField intent "proposed_action")
        let b := tryCanonical (getField x "executed_action")
        if a.isNone || b.isNone || a != b then find .declaredExecutedDivergence else empty
    ⟨[], findings⟩ ++ refuseIf .preflightInvalid why ++ signature ++ divergence

/-- The kinds of evidence. -/
def evidenceKinds : List Str :=
  [lit "bitcoin_tx", lit "ledger_record", lit "document_sha256", lit "url_sha256"]

/-- `re.fullmatch(r"[0-9a-f]{64}", s)` -/
def isDigest (s : Str) : Bool :=
  s.length == 64 && s.all fun c => isDigit c || (0x61 ≤ c.val && c.val ≤ 0x66)

/-- What the `evidence` of an outcome has to be. -/
def evidenceBound (e : Record) : Bool :=
  (match getField e "kind" with
    | .str kind => evidenceKinds.contains kind
    | _ => false) &&
  (match getField e "ref" with
    | .str ref => isDigest ref
    | _ => false) &&
  (match getField e "system" with
    | .str system => !system.isEmpty
    | _ => false)

def evidence (target : Option Record) : Report :=
  match target with
  | none => empty
  | some target =>
    let e := (dict? (getField target "outcome")).bind (·.lookup (lit "evidence"))
    if falsyAction e then find .noEvidenceBound
    else if (e.bind dict?).any evidenceBound then find .evidenceBoundUnchecked
    else refuse .evidenceInvalid none

/-- `"nenrin-exec://"` -/
def execScheme : Str := lit "nenrin-exec://"

/-- What the link of an observation names, where its conduct has one. -/
def linkOf (o : Record) : Option Str :=
  match (dict? (getField o "conduct")).bind (·.lookup (lit "detail_ref")) with
  | some (.str ref) =>
    if execScheme.isPrefixOf ref then some (ref.drop execScheme.length) else none
  | _ => none

def linkage (rawObs : List Json) (reconciled : Option Record) : Report :=
  match reconciled with
  | none => empty
  | some x =>
    if rawObs.isEmpty then empty
    else
      let links := (dicts rawObs).filterMap linkOf
      if links.isEmpty then find .noDigestLink
      else if links.any fun l => some l != rid R x .receipt then refuse .linkageReceiptMismatch none
      else empty

/-- `verify(bundle)` -/
def verify (bundle : Json) : Except PyError Report := do
  let bundle := (dict? bundle).getD []
  let sigs := requireSignatures bundle
  let rawObs := listAt bundle "observations"
  let grant := grantOf bundle
  let (intent, malformedPreflight) := slot bundle "intent" .preflightInvalid
  let rset := receiptSet bundle
  -- an empty dict is falsy, so a record without fields is not counted
  let records := dicts rawObs ++ (grant.toList ++ intent.toList).filter (!·.isEmpty) ++ rset
  let delegated ← delegation R sigs rawObs
  let (executed, reconciled) := execution R sigs grant rset
  return identity (getField bundle "task_id") records ++ delegated ++
    malformedExecution bundle ++ executed ++
    malformedPreflight ++ preflight R sigs grant intent reconciled ++
    evidence (reconciled <|> rset.head?) ++ linkage R rawObs reconciled

/-! ## A bundle that is accepted -/

/-- The caller: the key is the base point. -/
def sampleCaller : Json := text "did:key:z6MkkQLV92bJ9Frad3fq3yWJzQqc6dpbE4rJWVaRjKCC2wRf"

/-- The provider and witness: the key is the double of the base point. -/
def sampleProvider : Json := text "did:key:z6Mkt2P1UQRHCoc6Zaku6WE9rDvUB1a7MUAZuqcAVrD4HtRP"

/-- A digest of the sample runtime. -/
def sampleDigest (byte : Char) (nibble : Char) : Json :=
  .str ((List.replicate 32 [ofChar byte, ofChar nibble]).flatten)

def sampleObservation (seq : Int) (prev evidenceId : Json) (witnessSig edgeSig : String) : Json :=
  object [("task_id", text "t"), ("witness_id", sampleProvider), ("prev_evidence_id", prev),
    ("hop", object [("seq", .int seq), ("from", sampleCaller), ("to", text "agent-b")]),
    ("evidence_id", evidenceId), ("witness_sig", text witnessSig), ("edge_sig", text edgeSig)]

def sampleGrant : Record :=
  [(lit "task_id", text "t"), (lit "caller_id", sampleCaller), (lit "provider_id", sampleProvider),
    (lit "action", object [("op", text "pay")]), (lit "not_after", text "2026-12-31T00:00:00Z"),
    (lit "grant_ref", sampleDigest '4' '9'),
    (lit "caller_sig", text
      "AQAAAAAAAAAAAAAAAAAAAAAAAAAAAAAAAAAAAAAAAAAAlp+xTR1IqtJL8H+hDoCSvMahm7hsNV75wQ23Tb14Aw==")]

def sampleReceipt : Json :=
  object [("task_id", text "t"), ("provider_id", sampleProvider),
    ("grant_ref", sampleDigest '4' '9'), ("executed_at", text "2026-07-01T12:00:00.5Z"),
    ("executed_action", object [("op", text "pay")]), ("receipt_id", sampleDigest 'd' 'e'),
    ("provider_sig", text
      "AQAAAAAAAAAAAAAAAAAAAAAAAAAAAAAAAAAAAAAAAACeAOscHY5SGK1lb4KQMiHXxNsIQ8/kSfunnmUt6E5ADg==")]

/-- The first hop. -/
def sampleRoot : Json := sampleObservation 0 .null (sampleDigest '5' '9')
  "AQAAAAAAAAAAAAAAAAAAAAAAAAAAAAAAAAAAAAAAAAAAMO0Pcxj1M8UnHIMf8EpIMX5q7IfQeq4XLA/GnmmtAA=="
  "AQAAAAAAAAAAAAAAAAAAAAAAAAAAAAAAAAAAAAAAAABPpUcFp7LOOsdTzBCVQseLegHI8bJO8LbNyncZ59jGCA=="

/-- The hop behind it. -/
def sampleLeaf : Json := sampleObservation 1 (sampleDigest '5' '9') (sampleDigest '1' 'f')
  "AQAAAAAAAAAAAAAAAAAAAAAAAAAAAAAAAAAAAAAAAABPbSudU1e+CG+PdlXEqjd4xL5n1H6HqDzxjI5CVffKCQ=="
  "AQAAAAAAAAAAAAAAAAAAAAAAAAAAAAAAAAAAAAAAAABPlFTq1zEWp2/4qGZ/vROquMo+f1Xf+259XE3xSaBPCA=="

/-- Two hops, a grant and its receipt, signed in the sample runtime. -/
def sampleBundle : Record :=
  [(lit "task_id", text "t"), (lit "observations", .arr [sampleRoot, sampleLeaf]),
    (lit "grant", .obj sampleGrant), (lit "receipt", sampleReceipt)]

theorem observationFault_none {o : Record} {t h : Json}
    (hindependent : (Json.pyEq? (o.lookup (lit "witness_id")) ((hopOf o).lookup (lit "from")) ||
      Json.pyEq? (o.lookup (lit "witness_id")) ((hopOf o).lookup (lit "to"))) = false)
    (hid : recomputes R o .obs "evidence_id" = true)
    (hwitness : sigVerifies R (getField o "witness_id") (getField o "witness_sig")
      (preimage o .obs) = true)
    (ht : o.lookup (lit "task_id") = some t) (hh : o.lookup (lit "hop") = some h)
    (hedge : sigVerifies R (getField (hopOf o) "from") (getField o "edge_sig")
      (edgePreimage t h) = true) : observationFault R true o = none := by
  unfold observationFault
  dsimp only
  rw [hindependent, hid, hwitness, ht, hh]
  dsimp only
  rw [hedge]
  rfl

theorem executionPair_empty {grant x : Record} (hpair : pairCheck R grant x = (none, []))
    (hcaller : callerSigned R grant = true) (hprovider : providerSigned R x = true)
    (hgp : getField grant "provider_id" ≠ .null)
    (hcounts : counts R true grant (getField grant "provider_id") x = true) :
    executionPair R true grant x [] = (empty, some x) := by
  have hauth : authorized R true grant (getField grant "provider_id") [] [x] = [x] := by
    unfold authorized
    dsimp only
    rw [hcounts]
    rfl
  unfold executionPair reconcile
  dsimp only
  rw [hpair, hcaller, hprovider, hauth, if_neg hgp]
  rfl

-- every signature is checked in a step of its own, which keeps each small
theorem sampleObservations_sound :
    ∀ o ∈ dicts [sampleRoot, sampleLeaf], observationFault .sample true o = none := by
  intro o ho
  obtain rfl | ho := List.mem_cons.mp ho
  · exact observationFault_none _ (by decide +kernel) (by decide +kernel) (by decide +kernel)
      rfl rfl (by decide +kernel)
  · obtain rfl := List.mem_singleton.mp ho
    exact observationFault_none _ (by decide +kernel) (by decide +kernel) (by decide +kernel)
      rfl rfl (by decide +kernel)

theorem delegation_sampleBundle : delegation .sample (requireSignatures sampleBundle)
    (listAt sampleBundle "observations") = .ok empty := by
  have hfaults : (dicts [sampleRoot, sampleLeaf]).filterMap (observationFault .sample true) = [] :=
    List.filterMap_eq_nil_iff.mpr sampleObservations_sound
  have hchain : chainFault .sample (dicts [sampleRoot, sampleLeaf]) = .ok none := by
    decide +kernel
  have hverdicts : witnessDisagreement .sample (dicts [sampleRoot, sampleLeaf]) = false := by
    decide +kernel
  change delegation .sample true [sampleRoot, sampleLeaf] = .ok empty
  unfold delegation
  dsimp only
  rw [if_neg (by decide), hfaults, hchain, hverdicts]
  rfl

theorem execution_sampleBundle : execution .sample (requireSignatures sampleBundle)
    (grantOf sampleBundle) (receiptSet sampleBundle) =
      (empty, some ((dict? sampleReceipt).getD [])) := by
  have hset : receiptSet sampleBundle = [(dict? sampleReceipt).getD []] := by decide +kernel
  have hgrant : grantOf sampleBundle = some sampleGrant := rfl
  have hsigs : requireSignatures sampleBundle = true := rfl
  have hprovider : sigVerifies .sample sampleProvider
      (getField ((dict? sampleReceipt).getD []) "provider_sig")
      (preimage ((dict? sampleReceipt).getD []) .receipt) = true := by decide +kernel
  have hcounts : counts .sample true sampleGrant (getField sampleGrant "provider_id")
      ((dict? sampleReceipt).getD []) = true := by
    unfold counts
    rw [Bool.and_eq_true, Bool.not_true, Bool.false_or]
    exact ⟨by decide +kernel, hprovider⟩
  rw [hset, hgrant, hsigs, execution]
  exact executionPair_empty _ (by decide +kernel) (by decide +kernel) hprovider (by decide) hcounts

theorem sampleBundle_accepted : ∃ r, verify .sample (.obj sampleBundle) = .ok r ∧ r.Accepted := by
  unfold verify
  dsimp only [dict?, Option.getD_some]
  rw [delegation_sampleBundle, execution_sampleBundle]
  exact ⟨_, rfl, by decide +kernel⟩

end Preaction.Nenrin
