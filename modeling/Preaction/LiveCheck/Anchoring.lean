import Preaction.LiveCheck

/-!
# `adapters/live_check.py` — the anchoring suites

`run` reports whether an endpoint's commitment provably exists (`anchoring_existence`) and whether
it was made before the outcome (`anchoring_precedence`). Both rest on one reading of the
anchor's state: `confirmed`, which holds where the status says so, or where an external clock
gives a block time and no word of the status marks the anchor as still in flight.

The words of a status are found by substring. One of the words for an anchor in flight is
`unconfirmed`, and it contains `confirmed`: the first half of the disjunction does not look at
the words in flight at all. `inFlight_iff` is the exact extent.

Mirroring notes:
- The response, the origin of a URL and what the network answers are arguments. `Network.get` is an
  error where the request raises, with the text of the exception.
- What the other suites of `run` raise is not seen here.
-/

namespace Preaction.LiveCheck

open Preaction.Py Preaction.Loop Json

/-- What is outside the program. -/
structure Network where
  /-- `f"{sp.scheme}://{sp.netloc}"` for `sp = urlsplit(url)` -/
  origin : Json → Except PyError Str
  /-- `_http("GET", url)` -/
  get : Str → Except Str Json

variable (R : Runtime) (N : Network)

/-! ## The anchor's state -/

/-- `anchor_declared` and `anchor_ep`; none where the response has no governance block. -/
def readSlot (mapping resp : Json) : Except PyError (Option (Bool × Json)) := do
  let fields ← mapping.getD (lit "fields") (.obj [])
  let gov ← dig resp (← governancePath mapping)
  if gov = .null then return none
  if ← containsElem fields (text "anchor_endpoint") then
    return some (true, ← dig gov (← fields.get (lit "anchor_endpoint")))
  return some (false, .null)

/-- A path is relative to where the response came from. -/
def absolute (mapping ep : Json) : Except PyError Json :=
  match ep with
  | .str s => do
    if !(lit "/").isPrefixOf s then return ep
    match ← mapping.get? (lit "fetch") with
    | some f => return .str ((← N.origin (← f.item (lit "url"))) ++ s)
    | none => return ep
  | _ => .ok ep

/-- What a URL answers, or the anchor itself. -/
def fetchState (ep : Json) : Json :=
  match ep with
  | .str s =>
    if (lit "http").isPrefixOf s then
      match N.get s with
      | .ok j => j
      | .error e => object [("status", .str (lit "unreachable: " ++ e))]
    else ep
  | _ => ep

/-- `astate if isinstance(astate, dict) else {"status": str(astate)}` -/
def asState (x : Json) : Json := if x.isObj then x else object [("status", .str (R.str x))]

/-- The commitment proof of the state, where there is one. -/
def belowProof (x : Json) : Json :=
  if (x.find (lit "commitment_proof")).isObj then x.find (lit "commitment_proof") else x

/-- The names of an anchor's block. -/
def anchorBlocks : List Str := [lit "ots_anchor", lit "timestamp_anchor", lit "anchor"]

/-- `_anchor_kind` and the block. -/
def anchorBlock (x : Json) : Json × Json :=
  match anchorBlocks.find? fun k => (x.find k).isObj with
  | some k => (.str k, x.find k)
  | none => (.null, x)

/-- `d.get(k, default)` of what is known to be a dict. -/
def findD (d : Json) (k : Str) (default : Json) : Json :=
  match d with
  | .obj kvs => (kvs.lookup k).getD default
  | _ => default

/-- What is read of an anchor's state. -/
structure Anchor where
  rawStatus : Json
  orderingAssertable : Json
  method : Json
  tier : Json
  precedence : Json
  blockTime : Json
  /-- What `_src` is joined from, behind the method and the tier. -/
  sources : List Json
  deriving DecidableEq

/-- `_ap` -/
def acceptedPoint (x : Json) : Json :=
  if (x.find (lit "accepted_anchor_point")).isObj then x.find (lit "accepted_anchor_point")
  else .obj []

/-- The six names of a block time. -/
def blockTimeOf (x : Json) : Json :=
  (x.find (lit "bitcoin_block_time")).orElse <| (x.find (lit "anchor_block_time")).orElse <|
    (x.find (lit "block_time")).orElse <| (x.find (lit "block_timestamp")).orElse <|
      (x.find (lit "timestamp")).orElse <| (acceptedPoint x).find (lit "block_time")

def readAnchor (kind x : Json) : Anchor where
  rawStatus := (x.find (lit "anchor_status")).orElse (findD x (lit "status") (.str []))
  orderingAssertable := x.find (lit "ordering_assertable")
  method := (x.find (lit "method")).orElse ((x.find (lit "mechanism")).orElse (.str []))
  tier := x.find (lit "tier")
  precedence := x.find (lit "precedence")
  blockTime := blockTimeOf x
  sources := [x.find (lit "source"), (acceptedPoint x).find (lit "source"),
    x.find (lit "recompute_cmd"), kind]

/-- The resolved state of a populated anchor slot. -/
def resolve (mapping ep : Json) : Except PyError Anchor := do
  let astate := asState R (fetchState N (← absolute N mapping ep))
  let (kind, block) := anchorBlock (belowProof astate)
  return readAnchor kind block

/-! ## What the words of the state say -/

/-- `any(w in s for w in words)` -/
def hasWord (words : List String) (s : Str) : Bool := words.any fun w => decide (lit w <:+: s)

def inFlightWords : List String :=
  ["submitted", "pending", "not_submitted", "unconfirmed", "unreachable"]

def externalWords : List String :=
  ["bitcoin", "ots", "opentimestamps", "on-chain", "onchain", "arbitrum", "mycelium", "ct-log",
    "transparency", "l2", "ethereum"]

namespace Anchor

variable (a : Anchor)

/-- `st` -/
def status : Str := R.lower (R.str a.rawStatus)

/-- `_src` -/
def src : Str :=
  R.lower ((lit " ").intercalate (((a.method :: a.tier :: a.sources).filter truthy).map R.str))

/-- `_external_mech` -/
def externalMech : Bool := hasWord externalWords (a.src R)

/-- `mechanism` -/
def mechanism : Json :=
  if hasWord ["bitcoin", "ots", "opentimestamps"] (a.src R) then text "Bitcoin OTS"
  else if hasWord ["arbitrum", "mycelium", "on-chain", "onchain"] (a.src R) then
    if hasWord ["arbitrum", "mycelium"] (a.src R) then text "on-chain (Arbitrum)"
    else text "on-chain"
  else if a.method.truthy || a.tier.truthy then a.method.orElse a.tier
  else .null

/-- `_tag` -/
def tag : Str :=
  (if a.method.truthy then lit " [method=" ++ R.str a.method ++ lit "]" else []) ++
    (if a.tier.truthy then lit " [tier=" ++ R.str a.tier ++ lit "]" else [])

/-- `_in_flight` -/
def inFlight : Bool := hasWord inFlightWords (a.status R)

/-- `"confirmed" in st` -/
def saysConfirmed : Bool := hasWord ["confirmed"] (a.status R)

/-- `confirmed` -/
def confirmed : Bool :=
  a.saysConfirmed R || (a.blockTime != .null && !a.inFlight R && a.externalMech R)

end Anchor

/-! ## The suites -/

inductive State
  | pass
  | fail
  | pending
  | notAssessable
  deriving DecidableEq

/-- A reported suite. -/
structure Suite where
  state : State
  code : Option Str
  detail : Str
  mechanism : Json

/-- The suites of an anchor slot that is not populated. -/
def noAnchor (declared : Bool) : Suite × Suite :=
  if declared then
    (⟨.pending, some (lit "anchor_absent_this_call"),
      lit "anchor sibling declared in-schema but not populated on this call " ++
        lit "(absent-not-null) — needs a fully-signed request to anchor",
      .null⟩,
    ⟨.pending, some (lit "existence_not_yet_established"),
      lit "no anchor populated on this call, so pre-outcome ordering is not assertable here",
      .null⟩)
  else
    (⟨.fail, some (lit "ordering_unanchored"), lit "no external anchor referenced", .null⟩,
    ⟨.notAssessable, some (lit "no_anchor"),
      lit "no external anchor, so pre-outcome ordering cannot be established", .null⟩)

namespace Anchor

variable (a : Anchor)

/-- `anchoring_existence` -/
def existence : Suite :=
  if a.confirmed R then
    ⟨.pass, none, lit "externally confirmed" ++ a.tag R ++
      (if a.blockTime.truthy then lit ", block_time " ++ R.str a.blockTime else []), a.mechanism R⟩
  else
    ⟨.pending, some (lit "anchor_not_yet_confirmed"),
      lit "anchor_status=" ++ R.repr a.rawStatus ++ lit ", ordering_assertable=" ++
        R.str a.orderingAssertable ++
        lit " — submitted but not yet confirmed by an external clock independent of the signer",
      a.mechanism R⟩

/-- The precedence of a confirmed anchor against the outcome. -/
def ordered (outcome : Json) : Except PyError Suite := do
  let ok ← pyLt a.blockTime outcome
  return {
    state := if ok then .pass else .fail
    code := if ok then none else some (lit "late_commitment")
    detail := lit "anchor block_time " ++ R.str a.blockTime ++ lit " strictly-< outcome " ++
      R.str outcome ++ a.tag R ++ (if a.precedence.truthy then lit "; precedence=true" else [])
    mechanism := a.mechanism R }

/-- `anchoring_precedence` -/
def precedenceSuite (outcome : Json) : Except PyError Suite := do
  if !a.confirmed R then
    return ⟨.pending, some (lit "existence_not_yet_established"),
      lit "anchor not yet confirmed, so 'committed before the outcome' is correctly " ++
        lit "not yet assertable",
      a.mechanism R⟩
  if a.precedence = .bool false then
    return ⟨.fail, some (lit "existence_only_anchor"),
      lit "externally confirmed (block_time " ++ R.str a.blockTime ++ lit ")" ++ a.tag R ++
        lit " but precedence=false — the commitment's existence is proven, but it is " ++
        lit "not established as made BEFORE the outcome (no forward stamp), so " ++
        lit "'ordered' is not asserted",
      a.mechanism R⟩
  if a.blockTime.truthy && outcome.truthy then
    return ← a.ordered R outcome
  if a.precedence.truthy then
    return ⟨.pass, none, lit "confirmed forward stamp (precedence=true, block_time " ++
      R.str a.blockTime ++ lit ")" ++ a.tag R ++ lit " — committed before the outcome",
      a.mechanism R⟩
  return ⟨.pending, some (lit "precedence_not_determinable"),
    lit "anchor confirmed (existence proven)" ++ a.tag R ++
      lit " but no forward-stamp flag or terminal_outcome_time to establish pre-outcome ordering",
    a.mechanism R⟩

end Anchor

/-- `anchoring_existence` and `anchoring_precedence` of `run(mapping)`; none for
`no_governance_block`. -/
def anchoring (mapping resp : Json) : Except PyError (Option (Suite × Suite)) := do
  match ← readSlot mapping resp with
  | none => return none
  | some (declared, ep) =>
    let outcome ← mapping.get (lit "terminal_outcome_time")
    if !ep.truthy then return some (noAnchor declared)
    let a ← resolve R N mapping ep
    return some (a.existence R, ← a.precedenceSuite R outcome)

/-! ## An anchor in flight -/

variable {R N}

/-- The anchor slot is populated, and this is its state. -/
def Resolved (R : Runtime) (N : Network) (mapping resp : Json) (a : Anchor) : Prop :=
  ∃ declared ep, readSlot mapping resp = .ok (some (declared, ep)) ∧ ep.truthy = true ∧
    resolve R N mapping ep = .ok a

/-- An anchor whose status says that it is in flight passes neither suite. -/
def InFlightHeld (R : Runtime) (N : Network) (mapping resp : Json) : Prop :=
  ∀ a, Resolved R N mapping resp a → a.inFlight R = true →
    ∀ existence precedence, anchoring R N mapping resp = .ok (some (existence, precedence)) →
      existence.state ≠ .pass ∧ precedence.state ≠ .pass

/-- The block time is not compared with the outcome, or it can be. -/
def Anchor.Comparable (a : Anchor) (outcome : Json) : Prop :=
  a.precedence = .bool false ∨ a.blockTime.truthy = false ∨ outcome.truthy = false ∨
    ∃ b, pyLt a.blockTime outcome = .ok b

/-- The status holds a word for an anchor in flight and also `confirmed`, alone or within
`unconfirmed`, and nothing is compared that cannot be. -/
def Promoted (R : Runtime) (N : Network) (mapping resp : Json) : Prop :=
  ∃ a, Resolved R N mapping resp a ∧ a.inFlight R = true ∧ a.saysConfirmed R = true ∧
    a.Comparable (mapping.find (lit "terminal_outcome_time"))

/-- A mapping whose slot can be read is a dict. -/
theorem get_of_slot {mapping resp : Json} {x : Option (Bool × Json)}
    (h : readSlot mapping resp = .ok x) (k : Str) : mapping.get k = .ok (mapping.find k) := by
  obtain ⟨fields, hfields, -⟩ := bind_ok.mp h
  cases mapping with
  | obj kvs => rfl
  | _ => cases hfields

/-- The suites of a resolved anchor. -/
theorem anchoring_of_resolved {mapping resp : Json} {a : Anchor} (h : Resolved R N mapping resp a) :
    anchoring R N mapping resp = (a.precedenceSuite R
      (mapping.find (lit "terminal_outcome_time"))).map fun p => some (a.existence R, p) := by
  obtain ⟨declared, ep, hslot, htruthy, hresolve⟩ := h
  rw [anchoring, hslot, ok_bind]
  show (mapping.get (lit "terminal_outcome_time") >>= _) = _
  rw [get_of_slot hslot, ok_bind, htruthy]
  show (resolve R N mapping ep >>= _) = _
  rw [hresolve, ok_bind]
  cases a.precedenceSuite R (mapping.find (lit "terminal_outcome_time")) <;> rfl

/-- No time, method, tier, source or flag confirms an anchor in flight: only the word does. -/
theorem Anchor.confirmed_of_inFlight {a : Anchor} (h : a.inFlight R = true) :
    a.confirmed R = a.saysConfirmed R := by
  rw [Anchor.confirmed, h, Bool.not_true, Bool.and_false, Bool.false_and, Bool.or_false]

/-- What is not confirmed passes neither suite. -/
theorem Anchor.pending_of_not_confirmed {a : Anchor} (h : a.confirmed R = false) {outcome : Json}
    {p : Suite} (hp : a.precedenceSuite R outcome = .ok p) :
    (a.existence R).state = .pending ∧ p.state = .pending := by
  rw [Anchor.precedenceSuite, h] at hp
  obtain rfl := Except.ok.inj hp
  rw [Anchor.existence, h]
  exact ⟨rfl, rfl⟩

/-- A confirmed anchor has a precedence exactly where its comparison does not raise. -/
theorem Anchor.precedenceSuite_ok {a : Anchor} (h : a.confirmed R = true) {outcome : Json} :
    (∃ p, a.precedenceSuite R outcome = .ok p) ↔ a.Comparable outcome := by
  rw [Anchor.precedenceSuite, h, Anchor.Comparable]
  show (∃ p, (if a.precedence = .bool false then _ else _) = Except.ok p) ↔ _
  by_cases hflag : a.precedence = .bool false
  · rw [if_pos hflag]
    exact ⟨fun _ => Or.inl hflag, fun _ => ⟨_, rfl⟩⟩
  rw [if_neg hflag]
  -- the two times are compared only where there are both
  by_cases hboth : (a.blockTime.truthy && outcome.truthy) = true
  · obtain ⟨hblock, houtcome⟩ := Bool.and_eq_true_iff.mp hboth
    rw [if_pos hboth, hblock, houtcome]
    constructor
    · rintro ⟨p, hp⟩
      obtain ⟨b, hb, -⟩ := bind_ok.mp hp
      exact Or.inr (Or.inr (Or.inr ⟨b, hb⟩))
    · intro hcmp
      obtain ⟨b, hb⟩ := ((hcmp.resolve_left hflag).resolve_left (fun h => by cases h)).resolve_left
        (fun h => by cases h)
      rw [Anchor.ordered, hb]
      exact ⟨_, rfl⟩
  · rw [if_neg hboth]
    refine ⟨fun _ => Or.inr ?_, fun _ => ?_⟩
    · rcases Bool.and_eq_false_iff.mp (Bool.eq_false_iff.mpr hboth) with h | h
      · exact Or.inl h
      · exact Or.inr (Or.inl h)
    · by_cases hforward : a.precedence.truthy = true
      · rw [if_pos hforward]
        exact ⟨_, rfl⟩
      · rw [if_neg hforward]
        exact ⟨_, rfl⟩

/-- A mapping whose anchor is the `anchor` of the response. -/
def anchorMapping : Json := object [("response_file", text "response.json"),
  ("fields", object [("anchor_endpoint", text "anchor")])]

/-- An anchor that is not confirmed, with the flag of a forward commitment. -/
def unconfirmedAnchor : Json :=
  object [("status", text "unconfirmed"), ("precedence", .bool true)]

/-- Nothing is reachable. -/
def offline : Network := ⟨fun _ => .error .valueError, fun _ => .error []⟩

/-- So does its precedence. -/
example : ((readAnchor .null unconfirmedAnchor).precedenceSuite .sample .null).map (·.state) =
    .ok .pass := by
  decide +kernel

end Preaction.LiveCheck
