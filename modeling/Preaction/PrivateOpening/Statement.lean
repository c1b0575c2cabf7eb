import Preaction.AuthorizationCommitment
import Preaction.PrivateOpening.Log

/-!
# `x402-receipt-private-opening/statement.py` — making and challenging a statement

A verifier assesses a privately opened receipt, writes down what it found with
the head of the chain it read through, and signs that. Once the rater opens in
public, anyone can challenge the statement by assessing again.

`challenge_honest` is the guarantee for an honest verifier: what it signed is
upheld against what it read, or, where it could not read the chain, left open.
The statement holds the rater in lower case, and that is all the second run sees
of it, so the two runs agree because `lower` undoes nothing it did
(`assess_lower`); the signature comes back from base64 as it was
(`unb64u_b64u`), and the body without it is what was signed.

Mirroring notes:
- `result` is one of the texts of `RESULTS`; `Result.text` is its spelling.
- `NotAttempted` is not caught by `assess`, nor is a nonce that is a key of
  `chain["nonces"]` in upper case only.
- `bool` is a subclass of `int`, so `read_at.number` may be `True`.
-/

namespace Preaction.PrivateOpening

open Preaction.Py Preaction.AuthorizationCommitment Preaction.Loop Json

variable (R : Runtime)

/-! ## The finding -/

/-- `RESULTS` -/
inductive Result
  | opensToSettlement
  | noSettlement
  | payerIsNotRater
  | paytoNotBoundToAgent
  | incompleteCheck
  deriving DecidableEq, Repr

def Result.text : Result → Str
  | .opensToSettlement => lit "opens_to_settlement"
  | .noSettlement => lit "no_settlement"
  | .payerIsNotRater => lit "payer_is_not_rater"
  | .paytoNotBoundToAgent => lit "payto_not_bound_to_agent"
  | .incompleteCheck => lit "incomplete_check"

def results : List Result :=
  [.opensToSettlement, .noSettlement, .payerIsNotRater, .paytoNotBoundToAgent, .incompleteCheck]

/-- `chain["nonces"]`, where the chain was read. -/
def noncesOf (chain : Json) : Option (List (Str × Json)) :=
  match chain with
  | .obj kvs =>
    if kvs.lookup (lit "available") = some (.bool false) then none
    else match kvs.lookup (lit "nonces") with
      | some (.obj nonces) => some nonces
      | _ => none
  | _ => none

/-- `any(t["to"].lower() in bound for t in transfers)` -/
def anyBound (bound : List Str) : List Json → Except PyError Bool
  | [] => .ok false
  | t :: ts => do
    if bound.contains (← lowerOf R (← t.item (lit "to"))) then return true
    anyBound bound ts

/-- What `assess` finds of the settlement `s`. -/
def assessSettlement (s agentWallets : Json) : Except PyError Result := do
  if !(← s.get (lit "status")).pyEq (.int 1) then return .noSettlement
  let transfers ← s.get (lit "transfers")
  if transfers = .null then return .incompleteCheck
  let bound ← (← agentWallets.iter).mapM (lowerOf R)
  if !(← anyBound R bound (← transfers.iter)) then return .paytoNotBoundToAgent
  return .opensToSettlement

/-- What `assess` finds once the payer is the rater. -/
def assessPayer (receipt opening : Json) (payer : Str) (agentWallets chain : Json) :
    Except Raised Result :=
  match noncesOf chain with
  | none => .ok .incompleteCheck
  | some nonces => do
    let commitment ← lift (receipt.item (lit "authorizationCommitment"))
    let salt ← lift (opening.item (lit "salt"))
    let method ← lift (receipt.item (lit "authorizationMethod"))
    let asset ← lift (opening.item (lit "asset"))
    match AuthorizationCommitment.link R commitment salt method asset (.str payer) (nonces.map (·.1)).eraseDups with
    | .error (.malformed _) => return .noSettlement
    | .error e => throw e
    | .ok (.linked nonce) =>
      lift do assessSettlement R (← (Json.obj nonces).item nonce) agentWallets
    | .ok _ => return .noSettlement

/-- `assess(receipt, opening, rater, agent_wallets, chain)` -/
def assess (receipt opening rater agentWallets chain : Json) : Except Raised Result := do
  let payer ← lift do lowerOf R (← receipt.item (lit "payer"))
  if payer ≠ (← lift (lowerOf R rater)) then return .payerIsNotRater
  assessPayer R receipt opening payer agentWallets chain

/-! ## The statement -/

/-- `TYPE` -/
def openingType : Str := lit "x402-receipt-private-opening/1"

/-- `_b64u(b)` -/
def b64u (b : Bytes) : Str :=
  ((urlsafeB64encode b).reverse.dropWhile (· == ofChar '=')).reverse

/-- `receipt_sha256(receipt)` -/
def receiptSha256 (receipt : Json) : Str := R.sha256Hex (canon R receipt)

/-- `_read_at_ok(r)` -/
def readAtOk (r : Json) : Bool :=
  match r with
  | .obj kvs =>
    (kvs.all fun kv => kv.1 = lit "number" ∨ kv.1 = lit "hash") &&
    (match kvs.lookup (lit "number") with
      | some (.int n) => 0 ≤ n
      | some (.bool _) => true
      | _ => false) &&
    match kvs.lookup (lit "hash") with
    | some (.str h) => h.length == 66 && (lit "0x").isPrefixOf h &&
        (h.drop 2).all fun c => isDigit c || (0x61 ≤ c.val && c.val ≤ 0x66)
    | _ => false
  | _ => false

/-- The `read_at` a statement holds. -/
def normalReadAt (readAt : Json) : Except PyError Json := do
  let number ← readAt.item (lit "number")
  let hash ← readAt.item (lit "hash")
  return object [("number", number), ("hash", .str (R.lower (R.str hash)))]

/-- The statement before it is signed. -/
def unsigned (receipt : Json) (result : Str) (rater agent asset checkedAt seq prev : Json)
    (secret : Bytes) (readAt : Json) : Except PyError (List (Str × Json)) := do
  let commitment ← lowerOf R (← receipt.item (lit "authorizationCommitment"))
  let method ← receipt.item (lit "authorizationMethod")
  let network ← receipt.item (lit "network")
  let asset ← lowerOf R asset
  let rater ← lowerOf R rater
  let key ← Ed25519Ref.publicKey R secret
  return [(lit "type", .str openingType), (lit "receipt_sha256", .str (receiptSha256 R receipt)),
    (lit "commitment", .str commitment), (lit "method", method), (lit "network", network),
    (lit "asset", .str asset), (lit "rater", .str rater),
    (lit "agent", agent), (lit "result", .str result), (lit "checked_at", checkedAt),
    (lit "read_at", readAt), (lit "seq", seq), (lit "prev", prev),
    (lit "verifier", .str (b64u key))]

/-- `make_statement(receipt, result, rater, agent, asset, checked_at, seq, prev, secret, read_at)` -/
def makeStatement (receipt : Json) (result : Str) (rater agent asset checkedAt seq prev : Json)
    (secret : Bytes) (readAt : Json) : Except PyError Json := do
  if !(results.map Result.text).contains result then throw .valueError
  let readAt ← normalReadAt R readAt
  if !readAtOk readAt then throw .valueError
  let st ← unsigned R receipt result rater agent asset checkedAt seq prev secret readAt
  let signature ← Ed25519Ref.sign R secret (canon R (.obj st))
  return .obj (st ++ [(lit "signature", .str (b64u signature))])

/-! ## The challenge -/

/-- What `challenge` returns. -/
inductive Challenge
  | upheld
  | refuted
  | notBound
  | badSignature
  | unanchored
  | reorged
  | incomplete
  deriving DecidableEq, Repr

/-- The challenger's canonical hash for a block number, null where it has none. -/
def canonicalHash (chain : Json) (number : Str) : Except PyError Json :=
  match chain with
  | .obj kvs => do (← (Json.obj kvs).getD (lit "canonical") (.obj [])).get number
  | _ => .ok .null

/-- `challenge(st, receipt, public_opening, agent_wallets, chain)` -/
def challenge (st receipt publicOpening agentWallets chain : Json) : Except Raised Challenge := do
  if !(← lift (signatureOk R st)) then return .badSignature
  if !(← lift (st.get (lit "receipt_sha256"))).pyEq (.str (receiptSha256 R receipt)) then
    return .notBound
  if !(← lift (st.get (lit "type"))).pyEq (.str openingType) ||
      !readAtOk (← lift (st.get (lit "read_at"))) then return .unanchored
  let readAt ← lift (st.item (lit "read_at"))
  let canonical ← lift (canonicalHash chain (R.str (← lift (readAt.item (lit "number")))))
  if canonical = .null then return .incomplete
  if !(Json.str (← lift (lowerOf R canonical))).pyEq (← lift (readAt.item (lit "hash"))) then
    return .reorged
  let again ← assess R receipt publicOpening (← lift (st.item (lit "rater"))) agentWallets chain
  if again = .incompleteCheck then return .incomplete
  if (Json.str again.text).pyEq (← lift (st.item (lit "result"))) then return .upheld
  return .refuted

/-! ## What a statement holds -/

variable {R}

theorem unb64u_b64u (b : Bytes) : unb64u (.str (b64u b)) = some b := by
  obtain ⟨ds, pads, heq, hds, hpads, hlen⟩ := urlsafeB64encode_eq b
  have hdrop : ∀ l : Str, (∀ c ∈ l, c ≠ ofChar '=') → l.dropWhile (· == ofChar '=') = l := by
    intro l hl
    cases l with
    | nil => rfl
    | cons c cs =>
      have hc : (c == ofChar '=') = false := beq_eq_false_iff_ne.mpr (hl c (by simp))
      rw [List.dropWhile_cons, hc, if_neg Bool.false_ne_true]
  have hstrip : b64u b = ds := by
    unfold b64u
    rw [heq, List.reverse_append, List.reverse_replicate, List.dropWhile_append_of_pos (by simp),
      hdrop _ fun c hc => hds c (List.mem_reverse.mp hc), List.reverse_reverse]
  have hpad : (4 - ds.length % 4) % 4 = pads := by
    omega
  unfold unb64u
  dsimp only
  rw [hstrip, hpad, ← heq, urlsafeB64decode_encode]

/-- What an unsigned statement holds. -/
structure Unsigned (R : Runtime) (receipt : Json) (result : Str) (rater : Json) (secret : Bytes)
    (readAt : Json) (fields : List (Str × Json)) : Prop where
  distinct : fields.lookup (lit "signature") = none
  type : fields.lookup (lit "type") = some (.str openingType)
  receipt : fields.lookup (lit "receipt_sha256") = some (.str (receiptSha256 R receipt))
  rater : ∃ s, rater = .str s ∧ fields.lookup (lit "rater") = some (.str (R.lower s))
  result : fields.lookup (lit "result") = some (.str result)
  readAt : fields.lookup (lit "read_at") = some readAt
  verifier : ∃ key, Ed25519Ref.publicKey R secret = .ok key ∧
    fields.lookup (lit "verifier") = some (.str (b64u key))

theorem unsigned_spec {receipt rater agent asset checkedAt seq prev readAt : Json} {result : Str}
    {secret : Bytes} {fields : List (Str × Json)}
    (h : unsigned R receipt result rater agent asset checkedAt seq prev secret readAt = .ok fields) :
    Unsigned R receipt result rater secret readAt fields := by
  unfold unsigned at h
  obtain ⟨_, -, h⟩ := bind_ok.mp h
  obtain ⟨_, -, h⟩ := bind_ok.mp h
  obtain ⟨_, -, h⟩ := bind_ok.mp h
  obtain ⟨_, -, h⟩ := bind_ok.mp h
  obtain ⟨_, -, h⟩ := bind_ok.mp h
  obtain ⟨r, hr, h⟩ := bind_ok.mp h
  obtain ⟨key, hkey, h⟩ := bind_ok.mp h
  obtain rfl := Except.ok.inj h
  have hrater : ∃ s, rater = .str s ∧ R.lower s = r := by
    cases rater with
    | str s => exact ⟨s, rfl, Except.ok.inj hr⟩
    | _ => cases hr
  obtain ⟨s, rfl, rfl⟩ := hrater
  exact ⟨rfl, rfl, rfl, ⟨s, rfl, rfl⟩, rfl, rfl, key, hkey, rfl⟩

/-- A statement that was made: its fields, and the signature over them. -/
structure Made (R : Runtime) (receipt : Json) (result : Str) (rater : Json) (secret : Bytes)
    (readAt st : Json) (fields : List (Str × Json)) (signature : Bytes) : Prop where
  eq : st = .obj (fields ++ [(lit "signature", .str (b64u signature))])
  readAtOk : readAtOk readAt = true
  holds : Unsigned R receipt result rater secret readAt fields
  signed : Ed25519Ref.sign R secret (canon R (.obj fields)) = .ok signature

theorem makeStatement_spec {receipt rater agent asset checkedAt seq prev readAt st : Json}
    {result : Str} {secret : Bytes}
    (h : makeStatement R receipt result rater agent asset checkedAt seq prev secret readAt = .ok st) :
    ∃ ra fields signature, normalReadAt R readAt = .ok ra ∧
      Made R receipt result rater secret ra st fields signature := by
  unfold makeStatement at h
  split at h
  next => cases h
  next =>
    obtain ⟨ra, hra, h⟩ := bind_ok.mp h
    split at h
    next => cases h
    next hok =>
      obtain ⟨fields, hfields, h⟩ := bind_ok.mp h
      obtain ⟨signature, hsign, h⟩ := bind_ok.mp h
      obtain rfl := Except.ok.inj h
      exact ⟨ra, fields, signature, hra, rfl, by simpa using hok, unsigned_spec hfields, hsign⟩

namespace Made

variable {receipt rater readAt st : Json} {result : Str} {secret : Bytes}
  {fields : List (Str × Json)} {signature : Bytes}

/-- A field of the statement other than its signature. -/
theorem find (h : Made R receipt result rater secret readAt st fields signature) {k : Str} {v : Json}
    (hk : fields.lookup k = some v) : st.find k = v := by
  rw [h.eq, Json.find, List.lookup_append, hk, Option.some_or, Option.getD_some]

theorem item (h : Made R receipt result rater secret readAt st fields signature) {k : Str} {v : Json}
    (hk : fields.lookup k = some v) : st.item k = .ok v := by
  rw [h.eq, Json.item, List.lookup_append, hk, Option.some_or]

theorem get (h : Made R receipt result rater secret readAt st fields signature) {k : Str} {v : Json}
    (hk : fields.lookup k = some v) : st.get k = .ok v := by
  rw [← h.find hk, h.eq]
  rfl

/-- The body of the statement is what was signed. -/
theorem body_eq (h : Made R receipt result rater secret readAt st fields signature) :
    body (fields ++ [(lit "signature", .str (b64u signature))]) = .obj fields := by
  have hkeep : fields.filter (fun kv => kv.1 ≠ lit "signature") = fields := by
    rw [List.filter_eq_self]
    intro kv hkv
    have hne := List.lookup_eq_none_iff.mp h.holds.distinct kv hkv
    rw [decide_eq_true_eq]
    intro heq
    rw [heq, bne_self_eq_false] at hne
    cases hne
  have hdrop : [(lit "signature", Json.str (b64u signature))].filter
      (fun kv => kv.1 ≠ lit "signature") = [] :=
    List.filter_cons_of_neg (by rw [decide_eq_true_eq]; exact fun hne => hne rfl)
  unfold body
  rw [List.filter_append, hkeep, hdrop, List.append_nil]

theorem signatureOk (h : Made R receipt result rater secret readAt st fields signature)
    (hed : Ed25519Ref.SignVerifies R) : signatureOk R st = .ok true := by
  obtain ⟨key, hkey, hverifier⟩ := h.holds.verifier
  have hsig : st.find (lit "signature") = .str (b64u signature) := by
    rw [h.eq, Json.find, List.lookup_append, h.holds.distinct, Option.none_or]
    rfl
  have hver := h.find hverifier
  have hverify := hed secret _ key signature hkey h.signed
  rw [h.eq] at hsig hver ⊢
  unfold PrivateOpening.signatureOk
  dsimp only
  rw [hver, hsig, unb64u_b64u, unb64u_b64u]
  dsimp only
  rw [h.body_eq, hverify]

end Made

/-! ## An honest statement -/

/-- `lower` changes nothing it wrote. -/
def LowerIdempotent (R : Runtime) : Prop := ∀ s, R.lower (R.lower s) = R.lower s

/-- The rater in lower case is the same rater. -/
theorem assess_lower (hlower : LowerIdempotent R) (receipt opening agentWallets chain : Json)
    (rater : Str) : assess R receipt opening (.str (R.lower rater)) agentWallets chain =
      assess R receipt opening (.str rater) agentWallets chain := by
  unfold assess
  simp only [lowerOf, hlower rater]

/-- The challenger's canonical hash for the block read is the hash read, up to case. -/
def CanonicalAt (R : Runtime) (chain readAt : Json) : Prop :=
  ∃ number hash c, readAt.item (lit "number") = .ok number ∧ readAt.item (lit "hash") = .ok hash ∧
    canonicalHash chain (R.str number) = .ok (.str c) ∧ R.lower c = R.lower (R.str hash)

theorem normalReadAt_ok {readAt ra : Json} (h : normalReadAt R readAt = .ok ra) :
    ∃ number hash, readAt.item (lit "number") = .ok number ∧
      readAt.item (lit "hash") = .ok hash ∧ ra.item (lit "number") = .ok number ∧
      ra.item (lit "hash") = .ok (.str (R.lower (R.str hash))) := by
  obtain ⟨number, hnumber, h⟩ := bind_ok.mp h
  obtain ⟨hash, hhash, h⟩ := bind_ok.mp h
  obtain rfl := Except.ok.inj h
  refine ⟨number, hash, hnumber, hhash, item_object_cons .., ?_⟩
  rw [item_object_cons_ne (by decide), item_object_cons]

variable {receipt opening rater agent agentWallets chain asset checkedAt seq prev readAt st : Json}
  {secret : Bytes} {result : Result}

/-- What the challenger does once it has passed the gates an honest statement passes. -/
theorem challenge_eq (hlower : LowerIdempotent R) (hed : Ed25519Ref.SignVerifies R)
    (hassess : assess R receipt opening rater agentWallets chain = .ok result)
    (hst : makeStatement R receipt result.text rater agent asset checkedAt seq prev secret readAt =
      .ok st) {number hash : Json} (hnumber : readAt.item (lit "number") = .ok number)
    (hhash : readAt.item (lit "hash") = .ok hash) :
    challenge R st receipt opening agentWallets chain =
      (do
        let canonical ← lift (canonicalHash chain (R.str number))
        if canonical = .null then return .incomplete
        if !(Json.str (← lift (lowerOf R canonical))).pyEq (.str (R.lower (R.str hash))) then
          return .reorged
        if result = .incompleteCheck then return .incomplete
        return .upheld) := by
  obtain ⟨ra, fields, signature, hra, hmade⟩ := makeStatement_spec hst
  obtain ⟨_, _, hn, hh, hitem, hitem'⟩ := normalReadAt_ok hra
  obtain rfl := Except.ok.inj (hn.symm.trans hnumber)
  obtain rfl := Except.ok.inj (hh.symm.trans hhash)
  have hheld := hmade.holds
  obtain ⟨s, rfl, hrater⟩ := hheld.rater
  have hrec : (Json.str (receiptSha256 R receipt)).pyEq (.str (receiptSha256 R receipt)) = true :=
    (pyEq_str _ _).mpr rfl
  have htype : (Json.str openingType).pyEq (.str openingType) = true := (pyEq_str _ _).mpr rfl
  have hres : (Json.str result.text).pyEq (.str result.text) = true := (pyEq_str _ _).mpr rfl
  unfold challenge
  simp only [hmade.signatureOk hed, hmade.get hheld.receipt, hmade.get hheld.type,
    hmade.get hheld.readAt, hmade.item hheld.readAt, hmade.item hrater, hmade.item hheld.result,
    hitem, hitem', assess_lower hlower, hassess, hmade.readAtOk, hrec, htype, hres, lift,
    bind, Except.bind, Bool.not_true, Bool.or_self, Bool.false_eq_true, if_false, if_true]

/-- **An honest statement stands.** Challenged with what it was made from, on a chain that
still has the block read, it is left open where the chain could not be read and upheld
otherwise; on no chain is it refuted. -/
theorem challenge_honest (hlower : LowerIdempotent R) (hed : Ed25519Ref.SignVerifies R)
    (hassess : assess R receipt opening rater agentWallets chain = .ok result)
    (hst : makeStatement R receipt result.text rater agent asset checkedAt seq prev secret readAt =
      .ok st) :
    (CanonicalAt R chain readAt → challenge R st receipt opening agentWallets chain =
      .ok (if result = .incompleteCheck then .incomplete else .upheld)) ∧
    challenge R st receipt opening agentWallets chain ≠ .ok .refuted := by
  obtain ⟨ra, _, _, hra, -⟩ := makeStatement_spec hst
  obtain ⟨number, hash, hnumber, hhash, -⟩ := normalReadAt_ok hra
  rw [challenge_eq hlower hed hassess hst hnumber hhash]
  constructor
  · intro ⟨n, h, c, hn, hh, hc, heq⟩
    obtain rfl := Except.ok.inj (hn.symm.trans hnumber)
    obtain rfl := Except.ok.inj (hh.symm.trans hhash)
    have hsame : (Json.str (R.lower c)).pyEq (.str (R.lower (R.str h))) = true :=
      (pyEq_str _ _).mpr (congrArg Json.str heq)
    rw [hc]
    simp only [lift, lowerOf, bind, Except.bind, reduceCtorEq, if_false, hsame, Bool.not_true,
      Bool.false_eq_true]
    split
    next => rfl
    next => rfl
  · intro hrefuted
    obtain ⟨canonical, -, hrefuted⟩ := bind_ok.mp hrefuted
    split at hrefuted
    next => cases hrefuted
    next =>
      obtain ⟨_, -, hrefuted⟩ := bind_ok.mp hrefuted
      split at hrefuted
      next => cases hrefuted
      next =>
        split at hrefuted
        next => cases hrefuted
        next => cases hrefuted

/-! ## A statement that is upheld -/

open Ed25519Ref (constantRuntime constantRuntime_signVerifies)

theorem constantRuntime_lower : LowerIdempotent constantRuntime := by
  intro s
  show Runtime.asciiLower (Runtime.asciiLower s) = Runtime.asciiLower s
  unfold Runtime.asciiLower
  rw [List.map_map]
  refine List.map_congr_left fun c _ => ?_
  dsimp only [Function.comp_apply]
  by_cases hc : 0x41 ≤ c.val ∧ c.val ≤ 0x5A
  · have hval : (c + 0x20).val = c.val + 0x20 := by
      rw [Fin.val_add]
      exact Nat.mod_eq_of_lt (by have : ((0x20 : CodePoint)).val = 0x20 := rfl; omega)
    rw [if_pos hc, if_neg (by omega)]
  · rw [if_neg hc, if_neg hc]

/-- `0x` and `n` digits. -/
def prefixedDigits (n : Nat) (digit : Char) : Str := lit "0x" ++ List.replicate n (ofChar digit)

/-- A receipt that commits to the nonce of ones. -/
def openedReceipt : Json :=
  object [("payer", .str (prefixedDigits 40 'B')), ("authorizationMethod", .str eip3009),
    ("authorizationCommitment", .str (lit "0x" ++ hexStr (List.replicate 32 0xb1))),
    ("network", text "eip155:8453")]

def sampleOpening : Json :=
  object [("salt", .str (prefixedDigits 64 '2')), ("asset", .str (prefixedDigits 40 'A'))]

/-- The rater, in another case than the receipt's payer. -/
def sampleRater : Json := .str (prefixedDigits 40 'b')

def sampleWallets : Json := .arr [.str (prefixedDigits 40 'C')]

/-- The head the chain was read through. -/
def sampleReadAt : Json :=
  object [("number", .int 7), ("hash", .str (prefixedDigits 64 'F'))]

/-- A chain with one settlement, and one canonical hash; the sample runtime spells every
number with no digits. -/
def sampleChain : Json :=
  object [("nonces", .obj [(prefixedDigits 64 '1', object [("status", .int 1),
      ("transfers", .arr [object [("to", .str (prefixedDigits 40 'c'))]])])]),
    ("canonical", .obj [([], .str (prefixedDigits 64 'f'))])]

theorem sampleOpening_upheld : ∃ st,
    makeStatement constantRuntime openedReceipt (Result.text .opensToSettlement) sampleRater
      (text "agent") (.str (prefixedDigits 40 'A')) (text "2026-10-01T00:00:00Z") (.int 0)
      (.str zero) (List.replicate 32 0) sampleReadAt = .ok st ∧
    challenge constantRuntime st openedReceipt sampleOpening sampleWallets sampleChain =
      .ok .upheld := by
  have hassess : assess constantRuntime openedReceipt sampleOpening sampleRater sampleWallets
      sampleChain = .ok .opensToSettlement := by decide +kernel
  obtain ⟨st, hst, -⟩ := map_ok.mp (show (makeStatement constantRuntime openedReceipt
      (Result.text .opensToSettlement) sampleRater (text "agent") (.str (prefixedDigits 40 'A'))
      (text "2026-10-01T00:00:00Z") (.int 0) (.str zero) (List.replicate 32 0)
      sampleReadAt).map (fun _ => ()) = .ok () by decide +kernel)
  refine ⟨st, hst, (challenge_honest constantRuntime_lower constantRuntime_signVerifies hassess
    hst).1 ⟨.int 7, .str (prefixedDigits 64 'F'), prefixedDigits 64 'f', ?_, ?_, ?_, ?_⟩⟩
  all_goals decide +kernel

end Preaction.PrivateOpening
