import Mathlib.Data.List.Sort
import Preaction.Bip340
import Preaction.Lib.Loop

/-!
# `procedure-manifest-v003/check.py` — from package to verdict

A package claims that one judge run, bound to a manifest, produced an
output. `evaluate` decides four terms and reports `RESULT` only when all
four are true. Three parts carry the decision:

- `slotOf` derives the slot: the run id, the ids of the enumerated attempts,
  and the claims the provider attested for one of them, in attempt order;
- `ordering` reads precedence from a hash-chained log whose head the
  manifest-pinned anchor signed (C16);
- `walk` goes through the claims in order and decides which terminal counts
  and whether a retry was allowed (C20).

Mirroring notes:
- A package is any JSON value, and every access has Python's exception.
- `DISABLED` is empty, as it is outside `mutation_check.py`.
- The texts of the reasons are left out; a reason is a constructor, with the
  values the text shows.
- A set is the list of its elements in order of insertion, without
  repetitions under `==`.
-/

namespace Preaction.ProcedureManifest

open Preaction.Py Preaction.Bip340 Preaction.Loop

variable (R : Runtime) (C : Secp)

/-- `canon(o)` -/
def canon (o : Json) : Except PyError Bytes := utf8 (R.canonText o)

/-- `H(o)` -/
def H (o : Json) : Except PyError Str := return R.sha256Hex (← canon R o)

/-- `except Exception: return False` -/
def orFalse : Except PyError Bool → Bool
  | .ok b => b
  | .error _ => false

/-- `_sig_ok(record, pubkey)` -/
def sigOk (record pubkey : Json) : Except PyError Bool :=
  match record with
  | .obj kvs =>
    let body := Json.obj (kvs.filter (·.1 != lit "attestation"))
    .ok (orFalse do
      let msg := R.sha256 (← canon R body)
      let key ← bytesFromHex pubkey
      let sig ← bytesFromHex (← record.item (lit "attestation"))
      return schnorrVerify R C msg key sig)
  | _ => .error .attributeError

/-- The keys a submission commitment signs. -/
def commitmentKeys : List Str :=
  [lit "type", lit "version", lit "request_digest", lit "attempt_id", lit "sent_at",
    lit "requester_pubkey"]

/-- `commitment_ok(c)` -/
def commitmentOk (c : Json) : Bool := orFalse do
  let body ← commitmentKeys.mapM fun k => return (k, ← c.item k)
  if !(← c.get (lit "type")).pyEq (.str (lit "submission_commitment")) then return false
  let msg := R.sha256 (← canon R (.obj body))
  let key ← bytesFromHex (← c.item (lit "requester_pubkey"))
  let sig ← bytesFromHex (← c.item (lit "sig"))
  return schnorrVerify R C msg key sig

/-- `admission_receipt_recomputes(r)` -/
def admissionReceiptRecomputes (r : Json) : Except PyError Bool := do
  let p := [(lit "admission_index", ← r.item (lit "admission_index")),
    (lit "accepted_at", ← r.item (lit "accepted_at")),
    (lit "request_digest", ← r.item (lit "artifact_hash")),
    (lit "prev_receipt_hash", ← r.item (lit "prev_receipt_hash"))]
  let ref ← r.get (lit "submission_commitment_ref")
  let p := if ref = .null then p else p ++ [(lit "submission_commitment_ref", ref)]
  let h ← H R (.obj p)
  return (← r.get (lit "receipt_hash")).pyEq (.str h)

/-- `ZERO` -/
def zero : Str := List.replicate 64 (ofChar '0')

/-- `claim_core(c)` -/
def claimCore (c : Json) : Json :=
  .obj [(lit "run_id", c.find (lit "run_id")), (lit "attempt_id", c.find (lit "attempt_id")),
    (lit "request_hash", c.find (lit "request_hash"))]

/-- `{k: e.get(k) for k in ("seq", "kind", "ref", "prev")}` -/
def entryCore (e : Json) : Json :=
  .obj [(lit "seq", e.find (lit "seq")), (lit "kind", e.find (lit "kind")),
    (lit "ref", e.find (lit "ref")), (lit "prev", e.find (lit "prev"))]

/-- An eligibility term: `"true"`, `"false"` or `"cannot_establish"`. -/
inductive Term
  | holds
  | fails
  | cannotEstablish
  deriving DecidableEq, Repr

/-- What `out["reasons"]` can hold. -/
inductive Reason
  | noProviderAdmission
  | noPreAuthorizedRun
  | requestHashDiffers
  | retryPredicateRefused (allowed : List Json)
  | disputeIdNotDerived
  | noOrderingMechanism
  | entryDoesNotChain (i : Nat)
  | checkpointNotAttested
  | disputeNotInLog
  | orderingProofUnresolved
  | disputeAfterClaim
  | submissionNotClaimed
  | noAttestedClaim
  | conflictingClaims
  | conflictingTerminals
  | retryNotCommitted
  | retryWithoutNoResult
  | noAttestedTerminal
  | claimBindsOtherRequest
  | scopeNotCovered (got need : List Json)
  | terminalUnresolved

/-! ## The ordering log -/

/-- The outcome of the loop over the log's entries. -/
inductive Chained
  /-- Entry `i` does not chain. -/
  | broken (i : Nat)
  /-- All do: the last hash, and the entries by their hash. -/
  | upTo (prev : Str) (byHash : List (Str × Json))

/-- The loop over the log's entries. -/
def chainEntries : Nat → Str → List (Str × Json) → List Json → Except PyError Chained
  | _, prev, byHash, [] => .ok (.upTo prev byHash)
  | i, prev, byHash, e :: es => do
    if !(← e.get (lit "seq")).pyEq (.int i) then return .broken i
    if !(e.find (lit "prev")).pyEq (.str prev) then return .broken i
    let h ← H R (entryCore e)
    if !(e.find (lit "entry_hash")).pyEq (.str h) then return .broken i
    chainEntries (i + 1) h (setKey h e byHash) es

/-- `e["kind"] == kind and e["ref"] == H(x)` -/
def refersTo (kind : Str) (x e : Json) : Except PyError Bool := do
  if !(← e.item (lit "kind")).pyEq (.str kind) then return false
  let ref ← e.item (lit "ref")
  return ref.pyEq (.str (← H R x))

/-- `by_hash.get(k)` for any `k`. -/
def byHashGet (byHash : List (Str × Json)) (k : Json) : Except PyError (Option Json) := do
  k.hashable
  match k with
  | .str s => return byHash.lookup s
  | _ => return none

/-- The loop over the claims: `cseq`, none where a claim does not resolve. -/
def claimSeqs (byHash : List (Str × Json)) : List Json → Except PyError (Option (List Json))
  | [] => .ok (some [])
  | c :: cs => do
    match ← byHashGet byHash (← c.get (lit "ordering_proof")) with
    | none => return none
    | some e =>
      if !(← refersTo R (lit "claim") (claimCore c) e) then return none
      let seq ← e.item (lit "seq")
      return (← claimSeqs byHash cs).map (seq :: ·)

/-- The checkpoint names the head and the last `seq`, and the anchor signed it. -/
def checkpointOk (cp anchor : Json) (prev : Str) (n : Nat) : Except PyError Bool := do
  if !(← cp.get (lit "head")).pyEq (.str prev) then return false
  if !(← cp.get (lit "seq")).pyEq (.int ((n : Int) - 1)) then return false
  sigOk R C cp anchor

/-- `cseq and min(dseq) > min(cseq)` -/
def disputeAfter (dseq cseq : List Json) : Except PyError Bool := do
  if cseq.isEmpty then return false
  Json.pyLt (← Json.pyMin cseq) (← Json.pyMin dseq)

/-- `ordering(pkg, acq, ds, claims)` -/
def ordering (pkg acq ds : Json) (claims : List Json) : Except PyError (Term × Option Reason) := do
  let log ← pkg.get (lit "ordering_log")
  let anchor ← acq.get (lit "ordering_anchor_pubkey")
  if !log.truthy || !anchor.truthy then
    return (.cannotEstablish, some .noOrderingMechanism)
  let entries ← (← log.getD (lit "entries") (.arr [])).iter
  match ← chainEntries R 0 zero [] entries with
  | .broken i => return (.cannotEstablish, some (.entryDoesNotChain i))
  | .upTo prev byHash =>
    let cp := (← log.get (lit "checkpoint")).orElse (.obj [])
    if !(← checkpointOk R C cp anchor prev entries.length) then
      return (.cannotEstablish, some .checkpointNotAttested)
    let disputes ← filterE (refersTo R (lit "dispute_commitment") ds) (byHash.map (·.2))
    let dseq ← disputes.mapM (·.item (lit "seq"))
    if dseq.isEmpty then return (.cannotEstablish, some .disputeNotInLog)
    match ← claimSeqs R byHash claims with
    | none => return (.cannotEstablish, some .orderingProofUnresolved)
    | some cseq =>
      if ← disputeAfter dseq cseq then return (.fails, some .disputeAfterClaim)
      return (.holds, none)

/-! ## The slot -/

/-- `m`, `acq` and `req_def`. -/
structure Parts where
  manifest : Json
  acquisition : Json
  requirement : Json

def parts (pkg : Json) : Except PyError Parts := do
  let m ← pkg.item (lit "manifest")
  let acq ← m.item (lit "acquisition")
  let req ← (← m.item (lit "requirements")).nth 0
  return ⟨m, acq, req⟩

/-- `allowed` -/
def allowedAfter (acq : Json) : Except PyError (List Json) := do
  (← (← acq.item (lit "retry_policy")).getD (lit "allowed_after") (.arr [])).iter

/-- `"ATTESTED_NO_RESULT"` -/
def attestedNoResult : Json := .str (lit "ATTESTED_NO_RESULT")

/-- What `evaluate` derives before it decides anything. -/
structure Slot where
  disputeState : Json
  derivedOk : Bool
  /-- `attempt_ids` -/
  attemptIds : List Str
  /-- `prov` -/
  provider : Json
  retryCommitted : Bool
  claims : Json
  /-- `pkg.get("terminals", [])` -/
  terminals : Json
  validClaims : List Json

/-- The attempt id of a claim that has one. -/
def attemptId (c : Json) : Str :=
  match c.find (lit "attempt_id") with
  | .str s => s
  | _ => []

/-- `claim_valid(c)` -/
def claimValid (acq prov : Json) (runId : Str) (attemptIds : List Str) (c : Json) :
    Except PyError Bool := do
  if !(← c.get (lit "run_id")).pyEq (.str runId) then return false
  if !(c.find (lit "attempt_id")).pyIn (attemptIds.map .str) then return false
  if !(c.find (lit "provenance_profile")).pyEq (← acq.item (lit "provenance_profile")) then
    return false
  sigOk R C c prov

/-- `sorted(claims, key=…)` by the index of the attempt; the sort is stable. -/
def sortClaims (attemptIds : List Str) (claims : List Json) : List Json :=
  claims.insertionSort fun a b => attemptIds.idxOf (attemptId a) ≤ attemptIds.idxOf (attemptId b)

/-- The derivation of the slot, and its valid claims in attempt order. -/
def slotOf (pkg : Json) (p : Parts) : Except PyError Slot := do
  let retryCommitted := attestedNoResult.pyIn (← allowedAfter p.acquisition)
  let manifestHash ← H R p.manifest
  let ds ← pkg.item (lit "dispute_state")
  let derivedDispute ← H R (.obj [(lit "manifest_hash", .str manifestHash),
    (lit "contract_id", ← ds.item (lit "contract_id")),
    (lit "dispute_nonce", ← ds.item (lit "dispute_nonce"))])
  let claims ← pkg.getD (lit "claims") (.arr [])
  let disputeId ← pkg.item (lit "dispute_id")
  let runId ← H R (.obj [(lit "manifest_hash", .str manifestHash), (lit "dispute_id", disputeId),
    (lit "requirement_id", ← p.requirement.item (lit "requirement_id")),
    (lit "judge_id", ← p.requirement.item (lit "judge_id")), (lit "run_index", .int 0)])
  let maxAtt ← R.int (← (← p.acquisition.item (lit "retry_policy")).item (lit "max_attempts"))
  let attemptIds ← (List.range maxAtt.toNat).mapM fun k =>
    H R (.obj [(lit "run_id", .str runId), (lit "attempt_index", .int k)])
  let prov ← p.acquisition.item (lit "provider_pubkey")
  let valid ← filterE (claimValid R C p.acquisition prov runId attemptIds) (← claims.iter)
  return {
    disputeState := ds
    derivedOk := disputeId.pyEq (.str derivedDispute)
    attemptIds := attemptIds
    provider := prov
    retryCommitted := retryCommitted
    claims := claims
    terminals := ← pkg.getD (lit "terminals") (.arr [])
    validClaims := sortClaims attemptIds valid }

/-- Two claims of one attempt id with different hashes. -/
def conflictingClaims (cs : List Json) : Except PyError Bool := do
  let perAttempt ← cs.mapM fun c => return (attemptId c, ← H R c)
  return perAttempt.any fun p => perAttempt.any fun q => p.1 = q.1 && p.2 != q.2

/-! ## The walk over the attempts -/

/-- `terminals_for(c)` -/
def terminalsFor (s : Slot) (c : Json) : Except PyError (List Json) := do
  let crh ← H R c
  filterE (fun t => do
    if !(← t.get (lit "claim_receipt_hash")).pyEq (.str crh) then return false
    sigOk R C t s.provider) (← s.terminals.iter)

/-- The status and output of a terminal, as an element of a set. -/
def statusOutput (t : Json) : Except PyError (Json × Json) := do
  let status ← t.item (lit "terminal_status")
  status.hashable
  let output := t.find (lit "output_hash")
  output.hashable
  return (status, output)

/-- `s.add(p)` -/
def addPair (s : List (Json × Json)) (p : Json × Json) : List (Json × Json) :=
  if s.any fun q => q.1.pySame p.1 && q.2.pySame p.2 then s else s ++ [p]

/-- `distinct` -/
def distinctTerminals (ts : List Json) : Except PyError (List (Json × Json)) := do
  return (← ts.mapM statusOutput).foldl addPair []

/-- `"NO_RESULT"` -/
def noResult : Json := .str (lit "NO_RESULT")

/-- What the walk leaves behind. -/
structure WalkResult where
  /-- it stopped at conflicting terminals -/
  equivocation : Bool
  /-- claim, terminal and status -/
  chosen : Option (Json × Json × Json)
  retryViolation : Bool
  /-- the state was set to `"ATTESTED_NO_RESULT"` -/
  attestedNoResult : Bool
  reasons : List Reason

/-- The loop over the valid claims; the tail of the list is `later`. -/
def walk (s : Slot) : List Json → Except PyError WalkResult
  | [] => .ok ⟨false, none, false, false, []⟩
  | c :: later => do
    let ts ← terminalsFor R C s c
    match ← distinctTerminals ts with
    | _ :: _ :: _ => return ⟨true, none, false, false, [.conflictingTerminals]⟩
    | distinct =>
      let status := (distinct.head?.map (·.1)).getD .null
      if status.pyEq noResult then
        if later.isEmpty then return ⟨false, none, false, true, []⟩
        if s.retryCommitted then walk s later
        else return ⟨false, none, true, true, [.retryNotCommitted]⟩
      else
        let violation := !later.isEmpty
        let reasons := if violation then [Reason.retryWithoutNoResult] else []
        if status = .null then
          return ⟨false, none, violation, false,
            if violation then reasons else reasons ++ [.noAttestedTerminal]⟩
        else match ts with
          | t :: _ => return ⟨false, some (c, t, status), violation, false, reasons⟩
          | [] => .error .stopIteration

/-! ## The verdict -/

structure Terms where
  authorizedExecution : Term
  exactRequestBinding : Term
  uniqueTerminalExecution : Term
  sufficientScope : Term
  deriving DecidableEq, Repr

/-- Every term is `"true"`. -/
def Terms.eligible (t : Terms) : Bool :=
  [t.authorizedExecution, t.exactRequestBinding, t.uniqueTerminalExecution,
    t.sufficientScope].all (· == .holds)

inductive RunVerdict
  | result
  | unresolved
  deriving DecidableEq, Repr

/-- `out` -/
structure Evaluation where
  terms : Terms
  reasons : List Reason
  state : Json
  submissionCommitmentsValid : List Bool
  eligible : Bool
  runVerdict : RunVerdict
  /-- set when the verdict is `RESULT` -/
  outputHash : Option Json

/-- `_finish(out, output_hash)` -/
def finish (terms : Terms) (reasons : List Reason) (state : Json) (evidence : List Bool)
    (output : Json) : Evaluation :=
  let result := terms.eligible && output.truthy
  { terms := terms
    reasons := reasons
    state := state
    submissionCommitmentsValid := evidence
    eligible := terms.eligible
    runVerdict := if result then .result else .unresolved
    outputHash := if result then some output else none }

/-- The terms of a run that is refused before any terminal counts. -/
def Terms.refused (authorized : Term) : Terms :=
  ⟨authorized, .cannotEstablish, .cannotEstablish, .cannotEstablish⟩

/-- `hashlib.sha256(x.encode()).hexdigest()` -/
def textHash (x : Json) : Except PyError Str :=
  match x with
  | .str s => return R.sha256Hex (← utf8 s)
  | _ => .error .attributeError

/-- `ok and rec["artifact_hash"] == want` -/
def bindsRequest (ok : Bool) (receipt : Json) (want : Str) : Except PyError Bool := do
  if !ok then return false
  return (← receipt.item (lit "artifact_hash")).pyEq (.str want)

/-- The profile without run slots. -/
def evaluateAdmission (pkg requirement : Json) (evidence : List Bool) :
    Except PyError Evaluation := do
  let receipt ← pkg.get (lit "admission_receipt")
  if !receipt.truthy then
    return finish (.refused .fails) [.noProviderAdmission] (.str (lit "AUTHORIZED")) evidence .null
  let ok ← admissionReceiptRecomputes R receipt
  let want ← textHash R (← requirement.item (lit "request_text"))
  let bound ← bindsRequest ok receipt want
  return finish
    ⟨.cannotEstablish, if bound then .holds else .fails, .cannotEstablish, .cannotEstablish⟩
    (.noPreAuthorizedRun :: if bound then [] else [.requestHashDiffers])
    (.str (if ok then lit "CLAIMED" else lit "AUTHORIZED")) evidence .null

/-- The elements of a set. -/
def setOf (x : Json) : Except PyError (List Json) := do
  let xs ← x.iter
  xs.forM Json.hashable
  return xs.foldl (fun s y => if y.pyIn s then s else s ++ [y]) []

/-- The state that a chosen status gives. -/
def stateOf (status : Json) : Json :=
  match status with
  | .str s =>
    if s = lit "RESULT" ∨ s = lit "UNRESOLVED" then .str (lit "TERMINAL_" ++ s) else status
  | _ => status

/-- The reason given when the scope is not covered; it shows both sets sorted. -/
def scopeReasons (covered : Bool) (got need : List Json) : Except PyError (List Reason) := do
  if covered then return []
  return [.scopeNotCovered (← Json.pySorted got) (← Json.pySorted need)]

/-- From the chosen terminal to the verdict. -/
def evaluateChosen (requirement : Json) (authorized : Term) (reasons : List Reason)
    (evidence : List Bool) (c t status : Json) : Except PyError Evaluation := do
  let requestHash ← c.item (lit "request_hash")
  let bound := requestHash.pyEq (.str (← H R (← requirement.item (lit "request"))))
  let need ← setOf (← requirement.item (lit "required_scope"))
  let got ← setOf ((t.find (lit "observed_scope")).orElse (.arr []))
  let covered := need.all (·.pyIn got)
  let scopeReasons ← scopeReasons covered got need
  let terms : Terms := ⟨authorized, if bound then .holds else .fails, .holds,
    if covered then .holds else .fails⟩
  let reasons := reasons ++ (if bound then [] else [.claimBindsOtherRequest]) ++ scopeReasons
  if status.pyEq (.str (lit "UNRESOLVED")) then
    return finish terms (reasons ++ [.terminalUnresolved]) (stateOf status) evidence .null
  return finish terms reasons (stateOf status) evidence (t.find (lit "output_hash"))

/-- From the slot to the verdict. -/
def evaluateSlot (pkg : Json) (p : Parts) (s : Slot) (subs : Json) (evidence : List Bool) :
    Except PyError Evaluation := do
  let (order, why) ← ordering R C pkg p.acquisition s.disputeState s.validClaims
  let reasons := (if s.derivedOk then [] else [Reason.disputeIdNotDerived]) ++ why.toList
  let auth16 := if !s.derivedOk || order == .fails then Term.fails else order
  if s.validClaims.isEmpty then
    let reason := if subs.truthy && !s.claims.truthy then [Reason.submissionNotClaimed]
      else if s.claims.truthy then [.noAttestedClaim] else []
    return finish (.refused .fails) (reasons ++ reason) (.str (lit "AUTHORIZED")) evidence .null
  if ← conflictingClaims R s.validClaims then
    return finish (.refused .fails) (reasons ++ [.conflictingClaims]) (.str (lit "EQUIVOCATION"))
      evidence .null
  let w ← walk R C s s.validClaims
  let reasons := reasons ++ w.reasons
  if w.equivocation then
    return finish ⟨auth16, .cannotEstablish, .fails, .cannotEstablish⟩ reasons
      (.str (lit "EQUIVOCATION")) evidence .null
  let authorized := if w.retryViolation then .fails else auth16
  match w.chosen with
  | none =>
    let state := if w.attestedNoResult then attestedNoResult else .str (lit "CLAIMED")
    return finish (.refused authorized) reasons state evidence .null
  | some (c, t, status) =>
    evaluateChosen R p.requirement authorized reasons evidence c t status

/-- `evaluate(pkg)` -/
def evaluate (pkg : Json) : Except PyError Evaluation := do
  let p ← parts pkg
  let subs ← pkg.getD (lit "submission_commitments") (.arr [])
  let evidence := (← subs.iter).map (commitmentOk R C)
  let profile ← p.acquisition.get (lit "provenance_profile")
  if profile.pyEq (.str (lit "invinoveritas-admission-chain-v1")) then
    evaluateAdmission R pkg p.requirement evidence
  else
    let allowed ← allowedAfter p.acquisition
    if allowed.any fun x => !x.pyEq attestedNoResult then
      let shown ← Json.pySorted allowed
      return finish (.refused .fails) [.retryPredicateRefused shown]
        (.str (lit "FORMATION_REFUSED")) evidence .null
    let s ← slotOf R C pkg p
    evaluateSlot R C pkg p s subs evidence

/-- The slot of a package. -/
def slot (pkg : Json) : Except PyError Slot := do slotOf R C pkg (← parts pkg)

/-! ## What each path reports -/

/-- The two ways an evaluation of a slot can end with `authorized_execution`
other than `"false"`: `auth16` with no terminal chosen, or a chosen one. -/
theorem evaluateSlot_cases {pkg : Json} {p : Parts} {s : Slot} {subs : Json}
    {evidence : List Bool} {out : Evaluation}
    (h : evaluateSlot R C pkg p s subs evidence = .ok out) :
    ∃ order why, ordering R C pkg p.acquisition s.disputeState s.validClaims = .ok (order, why) ∧
      let auth16 := if !s.derivedOk || order == .fails then Term.fails else order
      (∃ terms reasons state, (terms.authorizedExecution = .fails ∨
        terms.authorizedExecution = auth16) ∧ terms.sufficientScope = .cannotEstablish ∧
        out = finish terms reasons state evidence .null) ∨
      ∃ w c t status reasons, walk R C s s.validClaims = .ok w ∧ w.equivocation = false ∧
        w.chosen = some (c, t, status) ∧
        evaluateChosen R p.requirement (if w.retryViolation then .fails else auth16) reasons
          evidence c t status = .ok out := by
  obtain ⟨⟨order, why⟩, hord, h⟩ := bind_ok.mp h
  refine ⟨order, why, hord, ?_⟩
  dsimp only at h ⊢
  split at h
  next => exact Or.inl ⟨_, _, _, Or.inl rfl, rfl, (Except.ok.inj h).symm⟩
  next =>
    obtain ⟨conflict, -, h⟩ := bind_ok.mp h
    cases conflict with
    | true => exact Or.inl ⟨_, _, _, Or.inl rfl, rfl, (Except.ok.inj h).symm⟩
    | false =>
      obtain ⟨w, hw, h⟩ := bind_ok.mp h
      split at h
      next => exact Or.inl ⟨_, _, _, Or.inr rfl, rfl, (Except.ok.inj h).symm⟩
      next heq =>
        split at h
        next =>
          refine Or.inl ⟨_, _, _, ?_, rfl, (Except.ok.inj h).symm⟩
          cases w.retryViolation
          · exact Or.inr rfl
          · exact Or.inl rfl
        next c t status hchosen =>
          exact Or.inr ⟨w, c, t, status, _, hw, by simpa using heq, hchosen, h⟩

/-- A chosen terminal leaves `authorized_execution` as it was, and the output is
the terminal's or none. -/
theorem evaluateChosen_ok {requirement : Json} {authorized : Term} {reasons : List Reason}
    {evidence : List Bool} {c t status : Json} {out : Evaluation}
    (h : evaluateChosen R requirement authorized reasons evidence c t status = .ok out) :
    ∃ terms reasons', terms.authorizedExecution = authorized ∧
      (out = finish terms reasons' (stateOf status) evidence .null ∨
        out = finish terms reasons' (stateOf status) evidence (t.find (lit "output_hash"))) := by
  obtain ⟨_, -, h⟩ := bind_ok.mp h
  obtain ⟨_, -, h⟩ := bind_ok.mp h
  obtain ⟨_, -, h⟩ := bind_ok.mp h
  obtain ⟨_, -, h⟩ := bind_ok.mp h
  obtain ⟨_, -, h⟩ := bind_ok.mp h
  obtain ⟨_, -, h⟩ := bind_ok.mp h
  obtain ⟨_, -, h⟩ := bind_ok.mp h
  dsimp only at h
  by_cases hu : status.pyEq (.str (lit "UNRESOLVED")) = true
  · rw [if_pos hu] at h
    exact ⟨_, _, rfl, Or.inl (Except.ok.inj h).symm⟩
  · rw [if_neg hu] at h
    exact ⟨_, _, rfl, Or.inr (Except.ok.inj h).symm⟩

/-- An evaluation goes through the slot unless it ends with
`authorized_execution` not `"true"` and no result. -/
theorem evaluate_cases {pkg : Json} {out : Evaluation} (h : evaluate R C pkg = .ok out) :
    (out.terms.authorizedExecution ≠ .holds ∧ out.runVerdict = .unresolved) ∨
      ∃ p s subs evidence, parts pkg = .ok p ∧ slotOf R C pkg p = .ok s ∧
        evaluateSlot R C pkg p s subs evidence = .ok out := by
  obtain ⟨p, hp, h⟩ := bind_ok.mp h
  obtain ⟨subs, -, h⟩ := bind_ok.mp h
  obtain ⟨subList, -, h⟩ := bind_ok.mp h
  obtain ⟨profile, -, h⟩ := bind_ok.mp h
  split at h
  next =>
    refine Or.inl ?_
    obtain ⟨receipt, -, h⟩ := bind_ok.mp h
    split at h
    next =>
      cases h
      exact ⟨nofun, rfl⟩
    next =>
      obtain ⟨_, -, h⟩ := bind_ok.mp h
      obtain ⟨_, -, h⟩ := bind_ok.mp h
      obtain ⟨_, -, h⟩ := bind_ok.mp h
      obtain ⟨_, -, h⟩ := bind_ok.mp h
      cases h
      exact ⟨nofun, rfl⟩
  next =>
    obtain ⟨allowed, -, h⟩ := bind_ok.mp h
    split at h
    next =>
      obtain ⟨_, -, h⟩ := bind_ok.mp h
      cases h
      exact Or.inl ⟨nofun, rfl⟩
    next =>
      obtain ⟨s, hs, h⟩ := bind_ok.mp h
      exact Or.inr ⟨p, s, subs, _, hp, hs, h⟩

/-- A `RESULT` needs four true terms and an output. -/
theorem eligible_of_result {terms : Terms} {reasons : List Reason} {state output : Json}
    {evidence : List Bool}
    (h : (finish terms reasons state evidence output).runVerdict = .result) :
    terms.eligible = true ∧ output.truthy = true ∧
      (finish terms reasons state evidence output).outputHash = some output := by
  cases hr : terms.eligible && output.truthy with
  | false => simp [finish, hr] at h
  | true =>
    obtain ⟨he, ho⟩ := Bool.and_eq_true _ _ ▸ hr
    exact ⟨he, ho, by simp [finish, hr]⟩

end Preaction.ProcedureManifest
