import Preaction.Ed25519Ref
import Preaction.Lib.Loop
import Preaction.Py.Date
import Preaction.WorkAcceptance.Jcs
import Preaction.WorkAcceptance.Tst

/-!
# `war_check.py` — `check`

The steps of the work-acceptance profile over one record: the signature of the
issuer under a listed key, the criteria document and its results, the time-stamp
tokens and the order of the two times, the independence of the checker, and the
verdict. A step reports problem codes, warning codes and fields of the report;
a record of other types, or of another schema, is refused.

Mirroring notes:
- `_types_ok` says of every value it looks at what type it has, so behind it
  `find` stands for an access that cannot fail; what it does not look at is
  accessed as the source does, with the exception it can raise.
- `P(c)` and `W(c)` keep a code once, in the order of first use.
- `REF_RULE` has its default, `"earlier"`.
- `tsa_sig.evaluate` rests on the `cryptography` package, `json.loads` of bytes
  on a detection of their encoding, `casefold` on the tables of Unicode; each is
  a field of `Host`. None of them adds a problem code by itself.
-/

namespace Preaction.WarCheck

open Preaction.Py Preaction.Loop Json

/-- What the checker calls and does not define. -/
structure Host where
  /-- `json.loads(b)`; none where it raises `ValueError`. -/
  loads : Bytes → Option Json
  /-- `s.casefold()` -/
  casefold : Str → Str
  /-- `tsa_sig.evaluate(token_der, anchors_der)` -/
  evaluate : Bytes → List Bytes → Except PyError Str

/-- The problem codes. -/
inductive Problem
  | keyRejected
  | signatureInvalid
  | checkerNotSigner
  | criteriaHashMismatch
  | criteriaResultsMismatch
  | criteriaTimeMismatch
  | criteriaTimestampMismatch
  | receiptTimeUnreadable
  | criteriaCommittedAfterCheck
  | keyCollision
  | independenceInconsistent
  | resultVocabulary
  | verdictMismatch
  deriving DecidableEq, Repr

/-- The warning codes. -/
inductive Warning
  | criteriaCommitmentUnverified
  | selfChecked
  | producerUndeclared
  deriving DecidableEq, Repr

/-- `criteria_hash` -/
inductive CriteriaHash
  | matched
  | mismatch
  | absent
  deriving DecidableEq, Repr

/-- `receipt_timestamp` -/
inductive ReceiptTimestamp
  | none
  | imprintMatch
  | imprintMismatch
  deriving DecidableEq, Repr

/-- `derived` -/
inductive Independence
  | undeclared
  | selfChecked
  | independent
  deriving DecidableEq, Repr

def Independence.text : Independence → Str
  | .undeclared => lit "undeclared"
  | .selfChecked => lit "self-checked"
  | .independent => lit "independent"

/-- `verdict_recomputed` -/
inductive Verdict
  | pass
  | fail
  | incomplete
  deriving DecidableEq, Repr

def Verdict.text : Verdict → Str
  | .pass => lit "pass"
  | .fail => lit "fail"
  | .incomplete => lit "incomplete"

/-- `out` -/
structure Report where
  problems : List Problem
  warnings : List Warning
  signatureValid : Bool
  criteriaHash : CriteriaHash
  receiptTimestamp : ReceiptTimestamp
  tsaSignature : List (String × Str)
  commitmentMs : Option Rat
  referenceMs : Option Rat
  committedBefore : Bool
  independence : Json
  verdictRecomputed : Verdict
  verdictStated : Json

/-- What `check` returns. -/
inductive Outcome
  | refused
  | report (r : Report)

variable (R : Runtime) (H : Host)

/-! ## Types -/

def isArr : Json → Bool
  | .arr _ => true
  | _ => false

/-- The elements of what is known to be a list. -/
def elements : Json → List Json
  | .arr xs => xs
  | _ => []

/-- The text of what is known to be one. -/
def strOf : Json → Str
  | .str s => s
  | _ => []

/-- `x is None or isinstance(x, str)` -/
def nullOrStr (x : Json) : Bool := x == .null || x.isStr

/-- `_types_ok(inputs)` -/
def typesOk (inputs : Json) : Bool :=
  let record := inputs.find (lit "receipt")
  let r := record.find (lit "receipt")
  let signature := record.find (lit "signature")
  let parties := r.find (lit "parties")
  let checker := parties.find (lit "checker")
  let producer := parties.find (lit "producer")
  let criteria := r.find (lit "criteria")
  let keys := inputs.find (lit "keys")
  record.isObj && r.isObj && signature.isObj &&
    (signature.find (lit "value")).isStr && (signature.find (lit "key_id")).isStr &&
    (r.find (lit "key_id")).isStr && (r.find (lit "issued_utc")).isStr &&
    parties.isObj && checker.isObj && (producer == .null || producer.isObj) &&
    ([checker, producer].all fun party =>
      nullOrStr (party.find (lit "name")) && nullOrStr (party.find (lit "key_id"))) &&
    criteria.isObj && (criteria.find (lit "sha256")).isStr &&
    nullOrStr (criteria.find (lit "committed_at")) &&
    isArr (r.find (lit "results")) &&
    ((elements (r.find (lit "results"))).all fun x =>
      x.isObj && (x.find (lit "id")).isStr && (x.find (lit "result")).isStr) &&
    keys.isObj && isArr (keys.find (lit "keys")) &&
    (elements (keys.find (lit "keys"))).all fun k =>
      k.isObj && (k.find (lit "key_id")).isStr && (k.find (lit "public_key_base64")).isStr

/-- `inputs["receipt"]["receipt"]` -/
def receiptOf (inputs : Json) : Json := (inputs.find (lit "receipt")).find (lit "receipt")

/-- Step 1: the record has another schema, canonicalization or suite. -/
def unknownForm (r : Json) : Except PyError Bool := do
  let schema := r.find (lit "schema")
  hashable schema
  if schema ≠ text "trilatic.acceptance-receipt/1.2" then return true
  if r.find (lit "canonicalization") ≠ text "JCS-RFC8785" then return true
  return !(r.find (lit "suite")).pyEq
    (object [("digest", text "sha-256"), ("signature", text "Ed25519")])

/-! ## Keys and the signature -/

/-- `klist` -/
def keyList (inputs : Json) : List Json := elements ((inputs.find (lit "keys")).find (lit "keys"))

/-- `ids` -/
def keyIds (inputs : Json) : List Str := (keyList inputs).map fun k => strOf (k.find (lit "key_id"))

/-- `kid in dup` -/
def isRepeated (inputs : Json) (kid : Str) : Bool := 1 < (keyIds inputs).count kid

/-- `dec`, at a key id: none where it is not a key, `some none` for a key that is
not canonical base64. -/
def decoded (inputs : Json) (kid : Str) : Option (Option Bytes) :=
  ((keyList inputs).find? fun k => strOf (k.find (lit "key_id")) = kid).map fun k =>
    b64Canonical (k.find (lit "public_key_base64"))

/-- Step 2: `signature_valid` and the problems. -/
def signatureStep (inputs : Json) : Except PyError (Bool × List Problem) := do
  let r := receiptOf inputs
  let signature := (inputs.find (lit "receipt")).find (lit "signature")
  let skid := strOf (r.find (lit "key_id"))
  let repeats := if (keyIds inputs).any (isRepeated inputs) then [Problem.keyRejected] else []
  if isRepeated inputs skid then return (false, repeats ++ [.keyRejected])
  match decoded inputs skid with
  | some none => return (false, repeats ++ [.keyRejected])
  | none => return (false, repeats ++ [.signatureInvalid])
  | some (some pub) =>
    if !Ed25519Ref.keyOk pub then return (false, repeats ++ [.keyRejected])
    let valid ← match b64Canonical (signature.find (lit "value")) with
      | some sig =>
        if sig.length = 64 ∧ signature.find (lit "key_id") = .str skid then do
          pure (Ed25519Ref.verify R pub (← jcs R r) sig)
        else pure false
      | none => pure false
    return (valid, repeats ++ if valid then [] else [.signatureInvalid])

/-- The checker is the signer. -/
def signerStep (r : Json) : List Problem :=
  if ((r.find (lit "parties")).find (lit "checker")).find (lit "key_id") ≠ r.find (lit "key_id") then
    [.checkerNotSigner]
  else []

/-! ## The criteria document -/

/-- The value a dict comprehension leaves under a key: that of the last entry. -/
def lastOf (entries : List (Json × Bool)) (k : Json) : Option Bool :=
  (entries.reverse.find? fun e => e.1.pySame k).map (·.2)

/-- `==` of two dicts that comprehensions built. -/
def sameDict (a b : List (Json × Bool)) : Bool :=
  (a ++ b).all fun e => lastOf a e.1 == lastOf b e.1

/-- One criterion of the document, `(c["id"], bool(c.get("required")))`. -/
def criterion (c : Json) : Except PyError (Json × Bool) := do
  let i ← c.item (lit "id")
  hashable i
  return (i, (← c.get (lit "required")).truthy)

/-- `crit`; none where the document is unreadable. -/
def criteriaOf (doc : Json) : Option (List (Json × Bool)) :=
  (do (← (← doc.item (lit "criteria")).iter).mapM criterion).toOption

/-- `got` -/
def resultFlags (r : Json) : List (Json × Bool) :=
  (elements (r.find (lit "results"))).map fun x =>
    (x.find (lit "id"), (x.find (lit "required")).truthy)

/-- The bytes of the criteria document that `criteria_hash` compares. -/
def criteriaHashOf (inputs : Json) : CriteriaHash × Bytes :=
  let file := inputs.find (lit "criteria_file_base64")
  if !file.truthy then (.absent, [])
  else match b64Canonical file with
    | some cb =>
      if .str (R.sha256Hex cb) = ((receiptOf inputs).find (lit "criteria")).find (lit "sha256") then
        (.matched, cb)
      else (.mismatch, cb)
    | none => (.mismatch, [])

/-- Step 4 -/
def criteriaStep (inputs : Json) : CriteriaHash × List Problem :=
  match criteriaHashOf R inputs with
  | (.absent, _) => (.absent, [])
  | (.mismatch, _) => (.mismatch, [.criteriaHashMismatch])
  | (.matched, cb) => (.matched,
      if ((H.loads cb).bind criteriaOf).any (sameDict (resultFlags (receiptOf inputs))) then []
      else [.criteriaResultsMismatch])

/-! ## Time-stamps -/

/-- `OID_SHA256` -/
def oidSha256 : Str := lit "2.16.840.1.101.3.4.2.1"

/-- A decimal fraction, as digits of any script. -/
def readFraction (ds : Str) : Option Rat :=
  (ds.mapM R.digitVal).map fun ns =>
    mkRat (ns.foldl (fun n d => 10 * n + d) 0 : Nat) (10 ^ ns.length)

/-- `_cal(m)` -/
def cal (t : DateTime) (fraction : Rat) : Option Rat :=
  if t.isValid then some (t.timegm + fraction) else none

/-- `gen_time(g)` -/
def genTime (g : Str) : Option Rat := do
  let (y, s) ← readDigits R.digitVal 4 g
  let (mo, s) ← readDigits R.digitVal 2 s
  let (d, s) ← readDigits R.digitVal 2 s
  let (h, s) ← readDigits R.digitVal 2 s
  let (mi, s) ← readDigits R.digitVal 2 s
  let (se, s) ← readDigits R.digitVal 2 s
  let fraction ← match readChar '.' s with
    | none => if s = lit "Z" then some 0 else none
    | some s => do
      let ds := s.dropLast
      if s.getLast? ≠ some (ofChar 'Z') ∨ !(ds.getLast?.any (oneOf "123456789")) then none
      readFraction R ds
  cal ⟨y, mo, d, h, mi, se⟩ fraction

/-- `rfc_time(t)` -/
def rfcTime (t : Json) : Option Rat :=
  match t with
  | .str t => do
    let (y, s) ← readDigits R.digitVal 4 t
    let (mo, s) ← readDigits R.digitVal 2 (← readChar '-' s)
    let (d, s) ← readDigits R.digitVal 2 (← readChar '-' s)
    let (h, s) ← readDigits R.digitVal 2 (← readChar 'T' s)
    let (mi, s) ← readDigits R.digitVal 2 (← readChar ':' s)
    let (se, s) ← readDigits R.digitVal 2 (← readChar ':' s)
    let fraction ← match readChar '.' s with
      | none => if s = lit "Z" then some 0 else none
      | some s => do
        let ds := s.dropLast
        if s.getLast? ≠ some (ofChar 'Z') ∨ ds.length < 1 ∨ 3 < ds.length then none
        readFraction R ds
    cal ⟨y, mo, d, h, mi, se⟩ fraction
  | _ => none

/-- `_ms_up(x)` -/
def msUp (x : Rat) : Rat := (x * 1000).ceil

/-- `_ms_down(x)` -/
def msDown (x : Rat) : Rat := (x * 1000).floor

/-- Step 6 -/
def receiptTimestampOf (r : Json) (rt : TstResult) : Except PyError ReceiptTimestamp :=
  match rt with
  | .none => .ok .none
  | .noncanonical => .ok .imprintMismatch
  | .info t => do
    if t.alg ≠ oidSha256 then return .imprintMismatch
    return if t.imprint = R.sha256Hex (← jcs R r) then .imprintMatch else .imprintMismatch

/-- `base64.b64decode(a)` of any value. -/
def b64decode (a : Json) : Except PyError Bytes :=
  match a with
  | .str s =>
    if s.any fun c => 0x80 ≤ c.val then .error .valueError
    else match a2bLoop 0 0 0 s with
      | some b => .ok b
      | none => .error .valueError
  | _ => .error .typeError

/-- Step 9 for one token: nothing where there is none. -/
def tsaOf (anchors : List Bytes) (name : String) (token : Json) :
    Except PyError (List (String × Str)) :=
  if !token.truthy then .ok []
  else match b64Canonical token with
    | none => .ok [(name, if anchors.isEmpty then lit "not_evaluated" else lit "failed")]
    | some raw => do
      let status ← H.evaluate raw anchors
      match ← tst token with
      | .info t =>
        let unusable := !anchors.isEmpty && (genTime R t.gen).isNone
        return [(name, if unusable then lit "failed" else status)]
      | _ => return [(name, status)]

/-- Step 9: `tsa_signature`. -/
def tsaSignatureOf (inputs : Json) : Except PyError (List (String × Str)) := do
  let roots := (inputs.find (lit "tsa_roots_base64")).orElse (.arr [])
  let anchors ← (← roots.iter).mapM b64decode
  let criteria ← tsaOf R H anchors "criteria" (inputs.find (lit "criteria_tsr_base64"))
  let receipt ← tsaOf R H anchors "receipt" (inputs.find (lit "receipt_tsr_base64"))
  return criteria ++ receipt

/-! ## The order of the two times -/

/-- The token is a SHA-256 time-stamp over the criteria document of the record. -/
def coversCriteria (r : Json) (t : Tst) : Bool :=
  t.alg == oidSha256 && .str t.imprint == (r.find (lit "criteria")).find (lit "sha256")

/-- The genTime and accuracy of a usable criteria token. -/
def usableToken (r : Json) (ct : TstResult) : Option (Rat × Rat) :=
  match ct with
  | .info t => if coversCriteria r t then (genTime R t.gen).map (·, t.acc) else none
  | _ => none

/-- Step 5, the commitment: its millisecond, the problems and the warnings. -/
def commitmentStep (r : Json) (ct : TstResult) : Option Rat × List Problem × List Warning :=
  let stated := rfcTime R ((r.find (lit "criteria")).find (lit "committed_at"))
  match usableToken R r ct with
  | some (tc, acc) =>
    (some (msUp tc + acc * 1000),
      if stated.map Rat.floor = some tc.floor then [] else [.criteriaTimeMismatch], [])
  | none =>
    let uncovered := match ct with
      | .none => false
      | .noncanonical => true
      | .info t => !coversCriteria r t
    (stated.map msUp, if uncovered then [.criteriaTimestampMismatch] else [],
      [.criteriaCommitmentUnverified])

/-- Step 5, the reference time in milliseconds. -/
def referenceMs (r : Json) (rt : TstResult) (stamp : ReceiptTimestamp) : Option Rat :=
  (rfcTime R (r.find (lit "issued_utc"))).map fun issued =>
    match rt with
    | .info t =>
      match genTime R t.gen with
      | some tr =>
        if stamp = .imprintMatch then min (msDown issued) (msDown (tr - t.acc)) else msDown issued
      | none => msDown issued
    | _ => msDown issued

/-- Step 5, the comparison. -/
def orderStep (commitment reference : Option Rat) : Bool × List Problem :=
  match commitment, reference with
  | some c, some t => if c < t then (true, []) else (false, [.criteriaCommittedAfterCheck])
  | _, _ => (false, [.receiptTimeUnreadable])

/-! ## Independence -/

/-- `_name(x)` -/
def nameOf (x : Json) : Option Str :=
  match x with
  | .null => none
  | .bool false => none
  | .int 0 => none
  | .str [] => none
  | .arr [] => none
  | .obj [] => none
  | .str s => some (H.casefold (R.strip s))
  | .float x => if x.isZero then none else some (R.repr (.float x))
  | x => some (R.repr x)

/-- The key ids that the parties state, of what is known to be texts or null. -/
def statedKeys (pk ck : Json) : List Str :=
  [pk, ck].filterMap fun k => if k == .null then none else some (strOf k)

/-- `rp_dec` -/
def relyingKeys (rpk : Json) : Except PyError (List Bytes) := do
  let keys ← (← rpk.getD (lit "keys") (.arr [])).iter
  let entries := keys.filter Json.isObj
  let decoded ← entries.mapM fun k => return b64Canonical (← k.getD (lit "public_key_base64") (.str []))
  return decoded.filterMap id

/-- What step 8 says of the parties' keys. -/
structure KeyFacts where
  unreadable : Bool
  byKey : Bool
  collision : Bool
  keyRule : Bool

/-- The keys of the parties. -/
def keyFacts (inputs : Json) (pk ck : Json) (claimInd : Bool) : Except PyError KeyFacts := do
  let stated := statedKeys pk ck
  let unreadable := stated.any fun kid => decoded inputs kid == some none
  let byKey := unreadable || stated.any (isRepeated inputs)
  let keyAt (k : Json) : Option Bytes := if k == .null then none else (decoded inputs (strOf k)).join
  let collision := pk != .null && (pk == ck || ((keyAt pk).isSome && keyAt pk == keyAt ck))
  let unlisted := claimInd && stated.any fun kid => kid.isEmpty || (keyIds inputs).count kid != 1
  let rpk := inputs.find (lit "relying_party_keys")
  let unknown ←
    if rpk.isObj && claimInd && pk != .null then do
      let known ← relyingKeys rpk
      pure !((keyAt pk).any known.contains)
    else pure false
  return ⟨unreadable, byKey, collision, byKey || unlisted || unknown⟩

/-- `derived` -/
def deriveIndependence (pn cn : Option Str) (k : KeyFacts) : Independence :=
  match pn with
  | none => .undeclared
  | some n =>
    if n = lit "unspecified" ∨ n = lit "unknown" then .undeclared
    else if pn = cn ∨ k.collision ∨ k.keyRule then .selfChecked
    else .independent

/-- Steps 8 and 12: the problems and the warnings. -/
def independenceStep (inputs : Json) : Except PyError (List Problem × List Warning) := do
  let r := receiptOf inputs
  let parties := r.find (lit "parties")
  let producer := parties.find (lit "producer")
  let checker := parties.find (lit "checker")
  let stated := r.find (lit "independence")
  let facts ← keyFacts inputs (producer.find (lit "key_id")) (checker.find (lit "key_id"))
    (stated == text "independent")
  let derived := deriveIndependence (nameOf R H (producer.find (lit "name")))
    (nameOf R H (checker.find (lit "name"))) facts
  return ((if facts.unreadable then [.keyRejected] else []) ++
      (if facts.collision then [.keyCollision] else []) ++
      if stated = .str derived.text then [] else [.independenceInconsistent],
    (if stated = text "self-checked" then [.selfChecked] else []) ++
      if derived = .undeclared then [.producerUndeclared] else [])

/-! ## The verdict -/

/-- `RESULTS` -/
def vocabulary : List Str := [lit "pass", lit "fail", lit "not-evaluated", lit "error"]

/-- `req` -/
def requiredResults (r : Json) : List Str :=
  ((elements (r.find (lit "results"))).filter fun x => (x.find (lit "required")).truthy).map fun x =>
    strOf (x.find (lit "result"))

/-- `verdict_recomputed` -/
def recompute (req : List Str) : Verdict :=
  if req.contains (lit "fail") then .fail
  else if req.all (· == lit "pass") then .pass
  else .incomplete

/-- Step 7 -/
def verdictStep (r : Json) : List Problem :=
  (if (elements (r.find (lit "results"))).any fun x =>
      !vocabulary.contains (strOf (x.find (lit "result"))) then [.resultVocabulary] else []) ++
  if r.find (lit "verdict") = .str (recompute (requiredResults r)).text then []
  else [.verdictMismatch]

/-! ## The steps together -/

/-- `check(inputs)` -/
def check (inputs : Json) : Except PyError Outcome := do
  if !typesOk inputs then return .refused
  let r := receiptOf inputs
  if ← unknownForm r then return .refused
  let (signatureValid, signatureProblems) ← signatureStep R inputs
  let (criteriaHash, criteriaProblems) := criteriaStep R H inputs
  let rt ← tst (inputs.find (lit "receipt_tsr_base64"))
  let stamp ← receiptTimestampOf R r rt
  let ct ← tst (inputs.find (lit "criteria_tsr_base64"))
  let tsa ← tsaSignatureOf R H inputs
  let (commitment, commitmentProblems, commitmentWarnings) := commitmentStep R r ct
  let reference := referenceMs R r rt stamp
  let (before, orderProblems) := orderStep commitment reference
  let (independenceProblems, independenceWarnings) ← independenceStep R H inputs
  return .report {
    problems := (signatureProblems ++ signerStep r ++ criteriaProblems ++ commitmentProblems ++
      orderProblems ++ independenceProblems ++ verdictStep r).eraseDups
    warnings := (commitmentWarnings ++ independenceWarnings).eraseDups
    signatureValid := signatureValid
    criteriaHash := criteriaHash
    receiptTimestamp := stamp
    tsaSignature := tsa
    commitmentMs := commitment
    referenceMs := reference
    committedBefore := before
    independence := r.find (lit "independence")
    verdictRecomputed := recompute (requiredResults r)
    verdictStated := r.find (lit "verdict") }

/-- Where the fields of a report come from. -/
structure Reported (R : Runtime) (H : Host) (inputs : Json) (rep : Report)
    (sig : Bool × List Problem) (rt : TstResult) (stamp : ReceiptTimestamp) (ct : TstResult)
    (ind : List Problem × List Warning) : Prop where
  signature : signatureStep R inputs = .ok sig
  recordToken : tst (inputs.find (lit "receipt_tsr_base64")) = .ok rt
  timestamp : receiptTimestampOf R (receiptOf inputs) rt = .ok stamp
  criteriaToken : tst (inputs.find (lit "criteria_tsr_base64")) = .ok ct
  independence : independenceStep R H inputs = .ok ind
  problems : rep.problems = (sig.2 ++ signerStep (receiptOf inputs) ++ (criteriaStep R H inputs).2 ++
    (commitmentStep R (receiptOf inputs) ct).2.1 ++
    (orderStep (commitmentStep R (receiptOf inputs) ct).1
      (referenceMs R (receiptOf inputs) rt stamp)).2 ++ ind.1 ++
    verdictStep (receiptOf inputs)).eraseDups
  criteriaHash : rep.criteriaHash = (criteriaStep R H inputs).1
  committedBefore : rep.committedBefore = (orderStep (commitmentStep R (receiptOf inputs) ct).1
    (referenceMs R (receiptOf inputs) rt stamp)).1
  independenceStated : rep.independence = (receiptOf inputs).find (lit "independence")
  verdictStated : rep.verdictStated = (receiptOf inputs).find (lit "verdict")

variable {R H} in
theorem check_report {inputs : Json} {rep : Report} (h : check R H inputs = .ok (.report rep)) :
    typesOk inputs = true ∧ ∃ sig rt stamp ct ind, Reported R H inputs rep sig rt stamp ct ind := by
  unfold check at h
  split at h
  next => cases h
  next htypes =>
    rw [Bool.not_eq_true', Bool.not_eq_false] at htypes
    obtain ⟨form, -, h⟩ := bind_ok.mp h
    split at h
    next => cases h
    next =>
      obtain ⟨sig, hsig, h⟩ := bind_ok.mp h
      obtain ⟨rt, hrt, h⟩ := bind_ok.mp h
      obtain ⟨stamp, hstamp, h⟩ := bind_ok.mp h
      obtain ⟨ct, hct, h⟩ := bind_ok.mp h
      obtain ⟨tsa, -, h⟩ := bind_ok.mp h
      obtain ⟨ind, hind, h⟩ := bind_ok.mp h
      have hrep := Outcome.report.inj (Except.ok.inj h)
      exact ⟨htypes, sig, rt, stamp, ct, ind, hsig, hrt, hstamp, hct, hind,
        (congrArg Report.problems hrep).symm, (congrArg Report.criteriaHash hrep).symm,
        (congrArg Report.committedBefore hrep).symm, (congrArg Report.independence hrep).symm,
        (congrArg Report.verdictStated hrep).symm⟩

end Preaction.WarCheck
