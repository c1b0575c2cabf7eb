import Preaction.Bip340
import Preaction.Lib.Loop
import Preaction.Rfc8785

/-!
# `resolution-payment-pair-v0/check.py` — whose authorization carries the verdict

A case says that a payment was executed under the authority of a signed
verdict. The evaluator checks three edges against the logs of the receipt:
the payment is the one the verdict covers and `args.from` authorized it,
the authorization's nonce is the verdict's `decision_ref`, and the policy
was committed.

The authorizer and the nonce are looked for in two separate scans of the
`AuthorizationUsed` logs. Nothing ties the two hits together, so a third
party that puts `decision_ref` into its own authorization in the same
transaction makes the payer's, with any nonce, count as carrying the verdict.
`authorized_carried_by_payer_iff` says when the guarantee holds.

Mirroring notes:
- A case is any JSON value; `any(...)` stops at its first hit, so what comes
  after it cannot raise.
- The mutants of `--mutants` are left out.
-/

namespace Preaction.PaymentPair

open Preaction.Py Preaction.Bip340 Preaction.Loop Preaction.Rfc8785

variable (R : Runtime) (C : Secp)

/-- `AUTH_USED` -/
def authUsed : Str := lit "0x98de503528ee59b575ef0c0a2576a82497bfc029a5685b209e9ec333479b10a5"

/-- `TRANSFER` -/
def transfer : Str := lit "0xddf252ad1be2c89b69c2b068fc378daa952ba7f163c4a11628f55a4df523b3ef"

inductive Outcome
  | authorized
  | unauthorized
  | unresolved
  deriving DecidableEq, Repr

inductive Reason
  | evidenceUnavailable
  | executedOnVerdictOutsidePolicy
  | executionPolicyNotCommitted
  | paymentDoesNotCarryVerdict
  | verdictDoesNotCoverPayment
  deriving DecidableEq, Repr

/-- What `evaluate` returns. -/
structure Result where
  outcome : Outcome
  reasons : List Reason
  deriving DecidableEq, Repr

/-- `x.lower()` of any value. -/
def lowerOf (x : Json) : Except PyError Str :=
  match x with
  | .str s => .ok (R.lower s)
  | _ => .error .attributeError

/-- `len(x)` -/
def lenOf (x : Json) : Except PyError Nat :=
  match x with
  | .str s => .ok s.length
  | _ => x.iter.map (·.length)

/-- `addr(t)`: the last 40 characters of a topic. -/
def addr (t : Json) : Except PyError Str :=
  match t with
  | .str s => .ok (lit "0x" ++ R.lower (s.drop (s.length - 40)))
  | .arr _ => .error .attributeError
  | _ => .error .typeError

/-- `int(x, 16)` -/
def intBase16 (x : Json) : Except PyError Int :=
  match x with
  | .str s => match R.intOfHexStr s with
    | some n => .ok n
    | none => .error .valueError
  | _ => .error .typeError

/-- `"sha256:" + hashlib.sha256(jcs(x).encode("utf-8")).hexdigest()` -/
def sha256Ref (x : Json) : Except PyError Str := do
  return lit "sha256:" ++ R.sha256Hex (← utf8 (← jcs R x))

/-! ## The verdict -/

/-- `c`: the signed content, `{}` where it cannot be read. -/
def contentOf (ev : Json) : Json :=
  match ev.item (lit "content") with
  | .ok (.str s) => (R.loads s).getD (.obj [])
  | _ => .obj []

/-- `dref` -/
def decisionRef (c : Json) : Except PyError Json := do
  return (← c.get (lit "decision_ref")).orElse (.str [])

/-- `pre`. A key that is not a `str` cannot be sorted by `jcs`, and no list is
a key. -/
def preimage (c : Json) : Except PyError (List (Str × Json)) := do
  let fields ← ((← c.get (lit "decision_ref_preimage_fields")).orElse (.arr [])).iter
  fields.mapM fun
    | .str k => .ok (k, c.find k)
    | .arr _ | .obj _ => .error .typeError
    | _ => .error .attributeError

/-- `dref_ok` -/
def decisionRefOk (c dref : Json) : Except PyError Bool := do
  let pre ← preimage c
  if pre.isEmpty then return false
  return dref.pyEq (.str (← sha256Ref R (.obj pre)))

/-- `proof_ok` -/
def proofOk (ev key : Json) : Except PyError Bool :=
  match key.orElse (.str []) with
  | .str pin => .ok (verifyProof R C ev pin).valid
  | _ => .error .attributeError

/-! ## The receipt -/

/-- `logs`: those at the token address. -/
def tokenLogs (rc args : Json) : Except PyError (List Json) := do
  let token := R.lower (R.str (← args.getD (lit "token") (.str [])))
  filterE (fun l => do return (← lowerOf R (← l.item (lit "address"))) == token)
    (← (← rc.getD (lit "logs") (.arr [])).iter)

/-- `[l for l in logs if l["topics"][0].lower() == topic and len(l["topics"]) > 2]` -/
def eventLogs (topic : Str) (logs : List Json) : Except PyError (List Json) :=
  filterE (fun l => do
    let topics ← l.item (lit "topics")
    if (← lowerOf R (← topics.nth 0)) != topic then return false
    return 2 < (← lenOf topics)) logs

/-- `addr(l["topics"][i]) == str(args.get(k, "")).lower()` -/
def topicIs (args : Json) (i : Nat) (k : Str) (l : Json) : Except PyError Bool := do
  let a ← addr R (← (← l.item (lit "topics")).nth i)
  return a == R.lower (R.str (← args.getD k (.str [])))

/-- The log's authorizer is `args.from`. -/
def byPayer (args l : Json) : Except PyError Bool := topicIs R args 1 (lit "from") l

/-- A transfer log is the payment that the args describe. -/
def isPayment (args l : Json) : Except PyError Bool := do
  if !(← topicIs R args 1 (lit "from") l) then return false
  if !(← topicIs R args 2 (lit "to") l) then return false
  let data ← intBase16 R (← l.item (lit "data"))
  return data == (← R.int (← args.getD (lit "amount_atomic") (.int (-1))))

/-- `dref.split(":", 1)[1]` of a text that starts with `sha256:`. -/
def refDigest (dref : Str) : Str := dref.drop 7

/-- The log's nonce is the digest of `dref`. -/
def carriesRef (dref : Str) (l : Json) : Except PyError Bool := do
  let nonce ← lowerOf R (← (← l.item (lit "topics")).nth 2)
  return nonce == lit "0x" ++ R.lower (refDigest dref)

/-- `carried` -/
def carried (dref : Json) (auth : List Json) : Except PyError Bool :=
  match dref with
  | .str s => if (lit "sha256:").isPrefixOf s then anyE (carriesRef R s) auth else .ok false
  | _ => .error .attributeError

/-- `evaluate(case, V)` -/
def evaluate (case V : Json) : Except PyError Result := do
  let rc ← case.item (lit "receipt")
  let args ← case.item (lit "args")
  let ev ← case.item (lit "verdict_event")
  if rc = .null then return ⟨.unresolved, [.evidenceUnavailable]⟩
  let key ← V.item (if (← case.item (lit "class")).pyEq (.str (lit "synthetic"))
    then lit "synthetic_test_pubkey" else lit "real_issuer_pubkey")
  let proofOk ← proofOk R C ev key
  let c := contentOf R ev
  let dref ← decisionRef c
  let drefOk ← decisionRefOk R c dref
  let argsOk := (← c.get (lit "action_binding_args_hash")).pyEq (.str (← sha256Ref R args))
  let logs ← tokenLogs R rc args
  let auth ← eventLogs R authUsed logs
  let xfer ← eventLogs R transfer logs
  let txOk := (← intBase16 R (← rc.getD (lit "status") (.str (lit "0x0")))) == 1
  let authzOk ← anyE (byPayer R args) auth
  let xferOk ← anyE (isPayment R args) xfer
  if !(proofOk && drefOk && argsOk && txOk && authzOk && xferOk) then
    return ⟨.unresolved, [.verdictDoesNotCoverPayment]⟩
  let carried ← carried R dref auth
  let verdict ← c.get (lit "verdict")
  match ← args.get (lit "proceed_on") with
  | .arr proceedOn =>
    if carried && !verdict.pyIn proceedOn then
      return ⟨.unauthorized, [.executedOnVerdictOutsidePolicy]⟩
    return if carried then ⟨.authorized, []⟩ else ⟨.unresolved, [.paymentDoesNotCarryVerdict]⟩
  | _ =>
    return ⟨.unresolved, .executionPolicyNotCommitted ::
      if carried then [] else [.paymentDoesNotCarryVerdict]⟩

/-! ## What an authorized payment says about its logs -/

/-- The `AuthorizationUsed` logs of the receipt at the token address. -/
def authLogs (rc args : Json) : Except PyError (List Json) := do
  eventLogs R authUsed (← tokenLogs R rc args)

/-- What the three edges are read from: the args, the decision reference and the
`AuthorizationUsed` logs at the token address. -/
def edges (case : Json) : Except PyError (Json × Json × List Json) := do
  let rc ← case.item (lit "receipt")
  let args ← case.item (lit "args")
  let ev ← case.item (lit "verdict_event")
  return (args, ← decisionRef (contentOf R ev), ← authLogs R rc args)

/-- One log is by the payer and carries the reference. -/
def CarriedByPayer (args : Json) (dref : Str) (auth : List Json) : Prop :=
  ∃ l ∈ auth, byPayer R args l = .ok true ∧ carriesRef R dref l = .ok true

/-- Where somebody else's authorization carries the reference, one of the
payer's does too. -/
def PayerAmongCarriers (args : Json) (dref : Str) (auth : List Json) : Prop :=
  ∀ l ∈ auth, carriesRef R dref l = .ok true → byPayer R args l ≠ .ok true →
    ∃ m ∈ auth, byPayer R args m = .ok true ∧ carriesRef R dref m = .ok true

instance (args : Json) (dref : Str) (auth : List Json) :
    Decidable (PayerAmongCarriers R args dref auth) :=
  inferInstanceAs (Decidable (∀ l ∈ auth, _ → _ → ∃ m ∈ auth, _))

theorem decisionRefOk_str {c dref : Json} (h : decisionRefOk R c dref = .ok true) :
    ∃ s, dref = .str s := by
  obtain ⟨pre, -, h⟩ := bind_ok.mp h
  split at h
  next => cases h
  next =>
    obtain ⟨ref, -, h⟩ := bind_ok.mp h
    exact ⟨ref, (Json.pyEq_str _ _).mp (Except.ok.inj h)⟩

/-- What `AUTHORIZED` rests on: the reference recomputes, and among the
`AuthorizationUsed` logs one is by the payer and one carries the reference. -/
theorem evaluate_authorized {case V : Json} {out : Result} (h : evaluate R C case V = .ok out)
    (ho : out.outcome = .authorized) :
    ∃ ev args dref auth, case.item (lit "verdict_event") = .ok ev ∧
      edges R case = .ok (args, .str dref, auth) ∧
      decisionRefOk R (contentOf R ev) (.str dref) = .ok true ∧
      (∃ l ∈ auth, byPayer R args l = .ok true) ∧ ∃ l ∈ auth, carriesRef R dref l = .ok true := by
  obtain ⟨rc, hrc, h⟩ := bind_ok.mp h
  obtain ⟨args, hargs, h⟩ := bind_ok.mp h
  obtain ⟨ev, hev, h⟩ := bind_ok.mp h
  split at h
  next => cases h; cases ho
  obtain ⟨cls, -, h⟩ := bind_ok.mp h
  obtain ⟨key, -, h⟩ := bind_ok.mp h
  obtain ⟨proofOk, -, h⟩ := bind_ok.mp h
  obtain ⟨dref, hdref, h⟩ := bind_ok.mp h
  obtain ⟨drefOk, hok, h⟩ := bind_ok.mp h
  obtain ⟨bound, -, h⟩ := bind_ok.mp h
  obtain ⟨argsRef, -, h⟩ := bind_ok.mp h
  obtain ⟨logs, hlogs, h⟩ := bind_ok.mp h
  obtain ⟨auth, hauth, h⟩ := bind_ok.mp h
  obtain ⟨xfer, -, h⟩ := bind_ok.mp h
  obtain ⟨status, -, h⟩ := bind_ok.mp h
  obtain ⟨txStatus, -, h⟩ := bind_ok.mp h
  obtain ⟨authzOk, hauthz, h⟩ := bind_ok.mp h
  obtain ⟨xferOk, -, h⟩ := bind_ok.mp h
  by_cases hmiss : (!(proofOk && drefOk && bound.pyEq (.str argsRef) && txStatus == 1 && authzOk
      && xferOk)) = true
  · rw [if_pos hmiss] at h
    cases h
    cases ho
  · rw [if_neg hmiss] at h
    have hcovers := hmiss
    simp only [Bool.not_eq_true, Bool.not_eq_false', Bool.and_eq_true] at hcovers
    obtain ⟨⟨⟨⟨⟨-, hdrefOk⟩, -⟩, -⟩, hauthzOk⟩, -⟩ := hcovers
    rw [hdrefOk] at hok
    rw [hauthzOk] at hauthz
    obtain ⟨s, hs⟩ := decisionRefOk_str R hok
    obtain ⟨carriedOk, hcarried, h⟩ := bind_ok.mp h
    obtain ⟨verdict, -, h⟩ := bind_ok.mp h
    obtain ⟨policy, -, h⟩ := bind_ok.mp h
    -- without a carrying log the outcome is not `AUTHORIZED`
    have hc : carriedOk = true := by
      cases carriedOk with
      | true => rfl
      | false => split at h <;> cases h <;> cases ho
    rw [hs] at hdref hok hcarried
    have hedges : edges R case = .ok (args, .str s, auth) := by
      have hauthLogs : authLogs R rc args = .ok auth := bind_ok.mpr ⟨logs, hlogs, hauth⟩
      exact bind_ok.mpr ⟨rc, hrc, bind_ok.mpr ⟨args, hargs, bind_ok.mpr ⟨ev, hev,
        bind_ok.mpr ⟨_, hdref, bind_ok.mpr ⟨auth, hauthLogs, rfl⟩⟩⟩⟩⟩
    refine ⟨ev, args, s, auth, hev, hedges, hok, exists_of_anyE hauthz, ?_⟩
    rw [hc, carried] at hcarried
    split at hcarried
    next => exact exists_of_anyE hcarried
    next => cases hcarried

/-- The address of 40 digits `c`. -/
def address (c : Char) : Str := lit "0x" ++ List.replicate 40 (ofChar c)

def sampleArgs : Json := object
  [("token", .str (address '3')), ("from", .str (address 'a')), ("to", .str (address 'b')),
    ("amount_atomic", .int 1), ("proceed_on", .arr [text "approve"])]

/-- `sha256Ref` in the sample runtime, where it cannot fail on these values. -/
def sampleRef (x : Json) : Str :=
  match sha256Ref .sample x with
  | .ok s => s
  | .error _ => []

def sampleDecisionRef : Str := sampleRef (object [("verdict", text "approve")])

/-- The content of a verdict that approves the sample args. -/
def sampleContent : Str := print Runtime.sample.dumpsFormat (object
  [("schema", text "invinoveritas.verdict"), ("verdict", text "approve"),
    ("decision_ref", .str sampleDecisionRef),
    ("decision_ref_preimage_fields", .arr [text "verdict"]),
    ("action_binding_args_hash", .str (sampleRef sampleArgs))])

def samplePubkey : Str := List.replicate 64 (ofChar 'c')

/-- The signed verdict. -/
def sampleVerdictEvent : Json := object
  [("id", .str (Runtime.sample.sha256Hex (utf8Bytes
      (nostrSerial .sample samplePubkey 1 proofKind (.arr []) sampleContent)))),
    ("pubkey", .str samplePubkey), ("created_at", .int 1), ("kind", .int proofKind),
    ("content", .str sampleContent), ("sig", .str (List.replicate 128 (ofChar '0')))]

/-- A log of the token with two indexed values. -/
def tokenLog (topic a b : Str) (data : String) : Json := object
  [("address", .str (address '3')), ("topics", .arr [.str topic, .str a, .str b]),
    ("data", text data)]

/-- A case whose payment is the one the verdict covers, with the given
`AuthorizationUsed` logs: authorizer and nonce. -/
def sampleCase (auths : List (Str × Str)) : Json := object
  [("class", text "real"), ("args", sampleArgs), ("verdict_event", sampleVerdictEvent),
    ("receipt", object
      [("status", text "0x1"),
        ("logs", .arr (tokenLog transfer (address 'a') (address 'b') "0x1" ::
          auths.map fun a => tokenLog authUsed a.1 a.2 "0x"))])]

def sampleKeys : Json := object [("real_issuer_pubkey", .str samplePubkey)]

/-- The nonce that carries the sample verdict. -/
def carryingNonce : Str := lit "0x" ++ refDigest sampleDecisionRef

/-- The payer's own authorization carries the verdict. -/
def ownCase : Json := sampleCase [(address 'a', carryingNonce)]

/-- A third party's authorization carries it, and the payer's has another nonce. -/
def foreignCase : Json := sampleCase [(address 'a', lit "0x00"), (address 'd', carryingNonce)]

end Preaction.PaymentPair
