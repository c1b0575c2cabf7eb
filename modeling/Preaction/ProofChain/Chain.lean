import Preaction.IssuerProfile
import Preaction.ProofChain

/-!
# `tools/proof_chain_check.py` — the chain of a review and its proof

`check_chain` verifies both events, compares the signed reference, checks the label that is derived
from it, and holds the claim of the review against the proof. Nothing in the review names the
content of the proof but the claim, and of the claim it is the event id that settles the rest: two
events that pass with one review have the same signed members, and so the same payload
(`chain_determines_inner`).

Mirroring notes:
- `verify_proof` never raises; a report without `proof_payload` has none.
- `str` of the checks and `repr` of a value are those of the runtime.
-/

namespace Preaction.ProofChain

open Preaction.Py Preaction.Bip340 Preaction.Loop Json
open IssuerProfile (KeepsHex Genuine getD_of_item item_of_present verifyProof_valid_iff)

variable (R : Runtime) (C : Secp)

/-- `str(ov.get("checks"))` -/
def checksText (checks : Checks) : Str :=
  R.str (object [("id_integrity", .bool checks.idIntegrity),
    ("signature_valid", .bool checks.signatureValid),
    ("issued_by_invinoveritas", .bool checks.issuedByInvinoveritas),
    ("is_proof_event", .bool checks.isProofEvent)])

/-- The line of one event. -/
def proofLine (name : String) (report : ProofReport) : Check :=
  if report.valid then ⟨.pass, lit name, []⟩ else ⟨.fail, lit name, checksText R report.checks⟩

/-- The line of the signed reference. -/
def refLine (ref decisionRef : Json) : Except PyError Check := do
  if ref = .null then return ⟨.cannotEstablish, lit "outer carries a related_decision_ref",
    lit "none present: there is no signed reference to chain to"⟩
  let name := lit "outer.related_decision_ref == inner.decision_ref"
  if ref.pyEq decisionRef then return ⟨.pass, name, []⟩
  return ⟨.fail, name, lit "outer references " ++ (← reprOf R ref) ++
    lit ", inner decision_ref is " ++ (← reprOf R decisionRef)⟩

/-- `check_label(payload)` -/
def checkLabel (payload : Json) : Except PyError Check := do
  let label ← payload.get (lit "context_provenance")
  let ref ← payload.get (lit "related_decision_ref")
  let derived := if ref = .null then text "caller_asserted_unverified"
    else text "bound_to_verified_decision_ref"
  let name := lit "outer.context_provenance consistent with the signed related_decision_ref"
  if label.pyEq derived then return ⟨.pass, name, []⟩
  return ⟨.fail, name, lit "label " ++ (← reprOf R label) ++
    lit " is inconsistent with the signed reference (derived " ++ (← reprOf R derived) ++
    lit "); this finds a mismatch, not its cause"⟩

/-- `check_chain(outer_event, inner_event)` -/
def checkChain (outerEvent innerEvent : Json) : Except PyError (List Check) := do
  let ov := verifyProof R C outerEvent publishedPubkey
  let iv := verifyProof R C innerEvent publishedPubkey
  let valid := [proofLine R "outer proof valid (id, schnorr, issuer)" ov,
    proofLine R "inner proof valid (id, schnorr, issuer)" iv]
  match ov.proofPayload, iv.proofPayload with
  | some (.obj op), some (.obj ip) =>
    let ref := (Json.obj op).find (lit "related_decision_ref")
    let refCheck ← refLine R ref ((Json.obj ip).find (lit "decision_ref"))
    let labelCheck ← checkLabel R (.obj op)
    let claims ← if ref = .null then pure []
      else compareClaim R (.obj op) (.obj ip) (innerEvent.find (lit "id"))
    return valid ++ [refCheck, labelCheck] ++ claims
  | _, _ => return valid ++ [⟨.cannotEstablish, lit "payloads readable",
      lit "an event's content is not a JSON object"⟩]

/-- The members of an event that its id is over. -/
def signedOf (event : Json) : Except PyError Json := do
  let pubkey ← event.item (lit "pubkey")
  let createdAt ← (← event.item (lit "created_at")) |> R.int
  let kind ← (← event.item (lit "kind")) |> R.int
  let tags ← event.getD (lit "tags") (.arr [])
  let content ← event.item (lit "content")
  return .arr [.int 0, .str (R.lower (R.str pubkey)), .int createdAt, .int kind,
    tags.orElse (.arr []), .str (R.str content)]

variable {R C}

/-! ## What a report says -/

theorem nostrEventId_ok {event : Json} {eid : Str} (h : nostrEventId R event = .ok eid) :
    ∃ members, signedOf R event = .ok members ∧
      eid = R.sha256Hex (utf8Bytes (print R.dumpsFormat members)) := by
  obtain ⟨pubkey, hpubkey, h⟩ := bind_ok.mp h
  obtain ⟨createdAt, hcreatedAt, h⟩ := bind_ok.mp h
  obtain ⟨createdAt', hcreatedAt', h⟩ := bind_ok.mp h
  obtain ⟨kind, hkind, h⟩ := bind_ok.mp h
  obtain ⟨kind', hkind', h⟩ := bind_ok.mp h
  obtain ⟨tags, htags, h⟩ := bind_ok.mp h
  obtain ⟨content, hcontent, h⟩ := bind_ok.mp h
  obtain ⟨b, hb, h⟩ := bind_ok.mp h
  obtain rfl := Except.ok.inj h
  obtain rfl := utf8_ok hb
  unfold signedOf
  rw [hpubkey, ok_bind, hcreatedAt, ok_bind, hcreatedAt', ok_bind, hkind, ok_bind, hkind', ok_bind,
    htags, ok_bind, hcontent, ok_bind]
  exact ⟨_, rfl, rfl⟩

theorem proofPayload_some {event p : Json} {pin : Str}
    (h : (verifyProof R C event pin).proofPayload = some p) :
    ∃ s, event.find (lit "content") = .str s ∧ R.loads s = some p := by
  unfold verifyProof at h
  cases event with
  | obj kvs =>
    dsimp only at h
    split at h
    next contentText tagList hcontent htags =>
      split at h
      next => cases h
      next =>
        split at h
        next => cases h
        next =>
          split at h
          next => cases h
          next hfields =>
            rw [Bool.not_eq_true] at hfields
            split at h
            next => cases h
            next =>
              refine ⟨contentText, ?_, h⟩
              exact (getD_of_item (item_of_present hfields (by decide)) _).symm.trans hcontent
    next =>
      split at h
      next => cases h
      next => cases h
    next => cases h
  | _ => cases h

/-! ## A chain that passes -/

/-- What a chain without a line that fails, or cannot be established, shows. -/
structure Passed (R : Runtime) (C : Secp) (outerEvent innerEvent : Json) (op ip : List (Str × Json))
    (c : Claim) : Prop where
  outerPayload : (verifyProof R C outerEvent publishedPubkey).proofPayload = some (.obj op)
  innerPayload : (verifyProof R C innerEvent publishedPubkey).proofPayload = some (.obj ip)
  valid : (verifyProof R C innerEvent publishedPubkey).valid = true
  inGrammar : c.InGrammar
  summary : (Json.obj op).find (lit "disclosed_summary") = .str c.sentence
  holds : c.Of R (.obj ip) (innerEvent.find (lit "id"))

theorem compareClaim_pass {op ip : List (Str × Json)} {innerEventId : Json}
    (h : AllPass (compareClaim R (.obj op) (.obj ip) innerEventId)) :
    ∃ c : Claim, c.InGrammar ∧ (Json.obj op).find (lit "disclosed_summary") = .str c.sentence ∧
      c.Of R (.obj ip) innerEventId := by
  cases hparse : parseClaim ((Json.obj op).find (lit "disclosed_summary")) with
  | none =>
    obtain ⟨checks, hchecks, hpass⟩ := h
    have hget : (Json.obj op).get (lit "disclosed_summary") =
        .ok ((Json.obj op).find (lit "disclosed_summary")) := rfl
    unfold compareClaim at hchecks
    rw [hget, ok_bind, hparse] at hchecks
    obtain rfl := Except.ok.inj hchecks
    cases hpass _ List.mem_cons_self
  | some d =>
    obtain ⟨c, hc, hsummary, rfl⟩ := exists_claim hparse
    exact ⟨c, hc, hsummary, (allPass_iff hparse).mp h⟩

theorem passed_of_checkChain {outerEvent innerEvent : Json}
    (h : AllPass (checkChain R C outerEvent innerEvent)) :
    ∃ op ip c, Passed R C outerEvent innerEvent op ip c := by
  obtain ⟨checks, hchecks, hpass⟩ := h
  unfold checkChain at hchecks
  dsimp only at hchecks
  split at hchecks
  next op ip hop hip =>
    obtain ⟨refCheck, href, hchecks⟩ := bind_ok.mp hchecks
    obtain ⟨labelCheck, -, hchecks⟩ := bind_ok.mp hchecks
    have hmem (line : Check) (hline : line ∈ [proofLine R "outer proof valid (id, schnorr, issuer)"
        (verifyProof R C outerEvent publishedPubkey), proofLine R
          "inner proof valid (id, schnorr, issuer)" (verifyProof R C innerEvent publishedPubkey)] ++
          [refCheck, labelCheck]) : line.status = .pass := by
      split at hchecks
      next =>
        obtain ⟨claims, -, hchecks⟩ := bind_ok.mp hchecks
        obtain rfl := Except.ok.inj hchecks
        exact hpass line (List.mem_append_left _ hline)
      next =>
        obtain ⟨claims, -, hchecks⟩ := bind_ok.mp hchecks
        obtain rfl := Except.ok.inj hchecks
        exact hpass line (List.mem_append_left _ hline)
    have hvalid := hmem _ (List.mem_append_left _ (List.mem_cons_of_mem _ (List.mem_cons_self ..)))
    have hrefPass := hmem refCheck (List.mem_append_right _ (List.mem_cons_self ..))
    -- without a reference the line of it would not pass
    have hpresent : (Json.obj op).find (lit "related_decision_ref") ≠ .null := by
      intro hnull
      rw [hnull] at href
      obtain rfl := Except.ok.inj href
      cases hrefPass
    rw [if_neg hpresent] at hchecks
    obtain ⟨claims, hclaims, hchecks⟩ := bind_ok.mp hchecks
    obtain rfl := Except.ok.inj hchecks
    obtain ⟨c, hc, hsummary, hof⟩ := compareClaim_pass ⟨claims, hclaims, fun c hc =>
      hpass c (List.mem_append_right _ hc)⟩
    refine ⟨op, ip, c, hop, hip, ?_, hc, hsummary, hof⟩
    unfold proofLine at hvalid
    split at hvalid
    next hv => exact hv
    next => cases hvalid
  next =>
    obtain rfl := Except.ok.inj hchecks
    cases hpass _ (List.mem_append_right _ (List.mem_singleton_self _))

theorem Passed.id {outerEvent innerEvent : Json} {op ip : List (Str × Json)} {c : Claim}
    (h : Passed R C outerEvent innerEvent op ip c) (hR : KeepsHex R) : ∃ members,
      signedOf R innerEvent = .ok members ∧
        R.sha256Hex (utf8Bytes (print R.dumpsFormat members)) = R.lower c.eventId := by
  obtain ⟨hlower, hstrip⟩ := hR.publishedPubkey
  obtain ⟨⟨kvs, rfl, -, eid, kind, heid, -, hpasses⟩, -⟩ :=
    (verifyProof_valid_iff R C hlower hstrip innerEvent).mp h.valid
  obtain ⟨members, hmembers, rfl⟩ := nostrEventId_ok heid
  refine ⟨members, hmembers, ?_⟩
  have hid := hpasses.1
  rw [h.holds.eventId] at hid
  have hhex : R.lower (R.sha256Hex (utf8Bytes (print R.dumpsFormat members))) =
      R.sha256Hex (utf8Bytes (print R.dumpsFormat members)) := (hR _).1
  exact hhex.symm.trans hid

/-- The content is the last of the signed members. -/
theorem signedOf_content {event event' m : Json} {s s' : Str} (h : signedOf R event = .ok m)
    (h' : signedOf R event' = .ok m) (hs : event.find (lit "content") = .str s)
    (hs' : event'.find (lit "content") = .str s') : s = s' := by
  have hlast {e : Json} {t : Str} (he : signedOf R e = .ok m)
      (ht : e.find (lit "content") = .str t) : ∃ xs, m = .arr (xs ++ [.str t]) := by
    obtain ⟨pubkey, -, he⟩ := bind_ok.mp he
    obtain ⟨_, -, he⟩ := bind_ok.mp he
    obtain ⟨createdAt, -, he⟩ := bind_ok.mp he
    obtain ⟨_, -, he⟩ := bind_ok.mp he
    obtain ⟨kind, -, he⟩ := bind_ok.mp he
    obtain ⟨tags, -, he⟩ := bind_ok.mp he
    obtain ⟨content, hcontent, he⟩ := bind_ok.mp he
    obtain rfl := Except.ok.inj he
    obtain rfl := (item_eq_find hcontent).trans ht
    exact ⟨[.int 0, .str (R.lower (R.str pubkey)), .int createdAt, .int kind,
      tags.orElse (.arr [])], rfl⟩
  obtain ⟨xs, rfl⟩ := hlast h hs
  obtain ⟨ys, heq⟩ := hlast h' hs'
  have hconcat := List.append_inj_right' (Json.arr.inj heq) rfl
  exact Json.str.inj (List.cons.inj hconcat).1

/-- **A review determines the proof it reviews**: the events that pass with it all have the same
signed members, and so the same payload. -/
theorem chain_determines_inner (hR : KeepsHex R) (hf : R.dumpsFormat.Lawful)
    {outerEvent innerEvent innerEvent' : Json}
    (h : AllPass (checkChain R C outerEvent innerEvent))
    (h' : AllPass (checkChain R C outerEvent innerEvent'))
    (hno : ∀ m m', signedOf R innerEvent = .ok m → signedOf R innerEvent' = .ok m' →
      R.sha256 (utf8Bytes (print R.dumpsFormat m)) = R.sha256 (utf8Bytes (print R.dumpsFormat m')) →
        utf8Bytes (print R.dumpsFormat m) = utf8Bytes (print R.dumpsFormat m')) :
    innerEvent.find (lit "id") = innerEvent'.find (lit "id") ∧
    signedOf R innerEvent = signedOf R innerEvent' ∧
    (verifyProof R C innerEvent publishedPubkey).proofPayload =
      (verifyProof R C innerEvent' publishedPubkey).proofPayload := by
  obtain ⟨op, ip, c, hpassed⟩ := passed_of_checkChain h
  obtain ⟨op', ip', c', hpassed'⟩ := passed_of_checkChain h'
  have hpayload := hpassed.outerPayload.symm.trans hpassed'.outerPayload
  obtain rfl := Json.obj.inj (Option.some.inj hpayload)
  -- one summary is the sentence of one claim
  obtain rfl := sentence_injective hpassed.inGrammar hpassed'.inGrammar
    (Json.str.inj (hpassed.summary.symm.trans hpassed'.summary))
  obtain ⟨m, hm, hid⟩ := hpassed.id hR
  obtain ⟨m', hm', hid'⟩ := hpassed'.id hR
  have hbytes := hno m m' hm hm' (hexStr_injective (hid.trans hid'.symm))
  obtain rfl := print_injective hf (utf8Bytes_injective hbytes)
  obtain ⟨s, hs, hload⟩ := proofPayload_some hpassed.innerPayload
  obtain ⟨s', hs', hload'⟩ := proofPayload_some hpassed'.innerPayload
  obtain rfl := signedOf_content hm hm' hs hs'
  refine ⟨hpassed.holds.eventId.trans hpassed'.holds.eventId.symm, hm.trans hm'.symm, ?_⟩
  rw [hpassed.innerPayload, hpassed'.innerPayload, ← hload, hload']

/-! ## A review and its proof -/

open IssuerProfile (flatRuntime keepsHex_flatRuntime)

/-- The key of the issuer in upper case. -/
def upperPubkey : Str := lit "6786E18A864893A900BD9858E650F67CCC3513F248FED374B591E2FF6922FBB7"

/-- An event of the issuer with this payload; the hash is zero. -/
def sampleEvent (pubkey : Str) (payload : Json) : Json := object
  [("id", .str (List.replicate 64 (ofChar '0'))), ("pubkey", .str pubkey),
    ("created_at", .int 1), ("kind", .int proofKind),
    ("content", .str (print flatRuntime.dumpsFormat payload)),
    ("sig", .str (List.replicate 128 (ofChar '0')))]

def sampleClaim : Claim :=
  ⟨lit "sha256:" ++ List.replicate 64 (ofChar '0'), List.replicate 64 (ofChar '0'),
    List.replicate 64 (ofChar 'a'), lit "approve", lit "1", lit "v1.2"⟩

def sampleProof (pubkey : Str) : Json := sampleEvent pubkey (object
  [("schema", text "invinoveritas.verdict"), ("decision_ref", .str sampleClaim.decisionRef),
    ("artifact_hash", .str sampleClaim.artifactHash), ("verdict", .str sampleClaim.verdict),
    ("verified_at", .str sampleClaim.verifiedAt),
    ("policy_version", .str sampleClaim.policyVersion)])

def sampleReview : Json := sampleEvent publishedPubkey (object
  [("schema", text "invinoveritas.review"), ("related_decision_ref", .str sampleClaim.decisionRef),
    ("context_provenance", text "bound_to_verified_decision_ref"),
    ("disclosed_summary", .str sampleClaim.sentence)])

theorem sample_evaluated : (∀ key ∈ [publishedPubkey, upperPubkey],
    (checkChain flatRuntime Secp.onePoint sampleReview (sampleProof key)).map
      (fun checks => checks.all fun c => c.status = .pass) = .ok true) ∧
    signedOf flatRuntime (sampleProof publishedPubkey) =
      signedOf flatRuntime (sampleProof upperPubkey) := by
  decide +kernel

theorem sample_passes {key : Str} (hkey : key ∈ [publishedPubkey, upperPubkey]) :
    AllPass (checkChain flatRuntime Secp.onePoint sampleReview (sampleProof key)) := by
  obtain ⟨checks, hchecks, hall⟩ := map_ok.mp (sample_evaluated.1 key hkey)
  exact ⟨checks, hchecks, fun c hc => of_decide_eq_true (List.all_eq_true.mp hall c hc)⟩

/-- The same event, with the key in another case. -/
theorem chain_determines_inner_upper :
    (sampleProof publishedPubkey).find (lit "id") = (sampleProof upperPubkey).find (lit "id") ∧
    signedOf flatRuntime (sampleProof publishedPubkey) =
      signedOf flatRuntime (sampleProof upperPubkey) ∧
    (verifyProof flatRuntime Secp.onePoint (sampleProof publishedPubkey)
        publishedPubkey).proofPayload =
      (verifyProof flatRuntime Secp.onePoint (sampleProof upperPubkey)
        publishedPubkey).proofPayload := by
  refine chain_determines_inner keepsHex_flatRuntime (Runtime.floatToken_lawful false)
    (sample_passes (List.mem_cons_self ..))
    (sample_passes (List.mem_cons_of_mem _ (List.mem_cons_self ..))) ?_
  intro m m' hm hm' _
  rw [← sample_evaluated.2] at hm'
  obtain rfl := Except.ok.inj (hm.symm.trans hm')
  rfl

end Preaction.ProofChain
