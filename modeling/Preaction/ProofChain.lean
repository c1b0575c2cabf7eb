import Preaction.Lib.Loop
import Preaction.Lib.Pattern
import Preaction.Py.Runtime

/-!
# `tools/proof_chain_check.py` — the claim sentence

A review that refers to another proof restates six fields of it in one fixed sentence.
`parse_claim` reads the fields back with a regular expression over the whole text, and
`compare_claim` holds each of them against the referenced proof.

The slots of the sentence share characters with each other and with the text between
them; what keeps them apart is what follows: three have a fixed length, two end at a
comma, and the last one, which may have dots in it, ends before the first dot with a
blank behind it (`claimSlots_unambiguous`). So the sentence of six values determines
them, and reading is the inverse of writing (`claim_read_back`).

Mirroring notes:
- `str` and `repr` raise on an integer with more digits than
  `sys.get_int_max_str_digits()`, at any depth of a value.
-/

namespace Preaction.ProofChain

open Preaction.Py Preaction.Loop Preaction.Pattern Json

variable (R : Runtime)

/-! ## Reading the sentence -/

/-- `[0-9a-f]` -/
def isLowerHex (c : CodePoint) : Bool := isDigit c || (0x61 ≤ c.val && c.val ≤ 0x66)

/-- `[A-Za-z0-9_\-]` -/
def isTokenChar (c : CodePoint) : Bool :=
  (0x41 ≤ c.val && c.val ≤ 0x5A) || (0x61 ≤ c.val && c.val ≤ 0x7A) || isDigit c ||
    c == ofChar '_' || c == ofChar '-'

/-- `_HEX64` -/
def hex64 : Regex CodePoint := times (.one isLowerHex) 64

/-- `_TOKEN` -/
def token : Regex CodePoint :=
  .seq (plus (.one isTokenChar)) (.star (.seq (literal (lit ".")) (plus (.one isTokenChar))))

/-- The groups of `CLAIM_RE`, each with the text in front of it. -/
def claimSlots : List (Str × Regex CodePoint) :=
  [(lit "CLAIM: the referenced verdict (decision_ref ", .seq (literal (lit "sha256:")) hex64),
    (lit ", nostr event id ", hex64),
    (lit ") recorded artifact_hash ", hex64),
    (lit ", verdict ", token),
    (lit ", verified_at ", plus (.one isDigit)),
    (lit ", policy_version ", token)]

/-- The end of `CLAIM_RE`, behind its groups. -/
def claimEnd : Str :=
  lit ". This review covers ONLY whether the claim restates those fields of the referenced " ++
    lit "proof exactly. It does not assess the correctness of the referenced artifact."

/-- `CLAIM_RE` -/
def claimRe : Regex CodePoint := template claimEnd 1 claimSlots

/-- `CLAIM_FIELDS` -/
def claimFields : List Str :=
  ["decision_ref", "event_id", "artifact_hash", "verdict", "verified_at", "policy_version"].map lit

/-- `m.groups()` -/
def groups (cs : Captures CodePoint) : List Json :=
  [1, 2, 3, 4, 5, 6].map fun k =>
    match cs.group k with
    | some t => .str t
    | none => .null

/-- `parse_claim(summary)` -/
def parseClaim (summary : Json) : Option Json :=
  match summary with
  | .str s => (fullMatch claimRe s).map fun cs => .obj (claimFields.zip (groups cs))
  | _ => none

/-! ## Comparing it -/

mutual

/-- Every integer in the value can be written. -/
def writable : Json → Bool
  | .int n => R.maxStrDigits == 0 || (decimal n.natAbs).length ≤ R.maxStrDigits
  | .arr xs => writableList xs
  | .obj kvs => writableKvs kvs
  | _ => true

def writableList : List Json → Bool
  | [] => true
  | x :: xs => writable x && writableList xs

def writableKvs : List (Str × Json) → Bool
  | [] => true
  | (_, x) :: kvs => writable x && writableKvs kvs

end

/-- `str(x)` -/
def strOf (x : Json) : Except PyError Str :=
  if writable R x then .ok (R.str x) else .error .valueError

/-- `repr(x)` -/
def reprOf (x : Json) : Except PyError Str :=
  if writable R x then .ok (R.repr x) else .error .valueError

inductive Status
  | pass
  | fail
  | cannotEstablish
  deriving DecidableEq, Repr

/-- One line of the report. -/
structure Check where
  status : Status
  name : Str
  detail : Str

/-- The line of one field. -/
def compareField (f : Str) (got want : Json) : Except PyError Check := do
  let name := lit "claim " ++ f ++ lit " == inner " ++ f
  if got.pyEq want then return ⟨.pass, name, []⟩
  return ⟨.fail, name, lit "claim says " ++ (← reprOf R got) ++ lit ", referenced proof has " ++
    (← reprOf R want)⟩

/-- `compare_claim(outer_payload, inner_payload, inner_event_id)` -/
def compareClaim (outerPayload innerPayload innerEventId : Json) : Except PyError (List Check) := do
  match parseClaim (← outerPayload.get (lit "disclosed_summary")) with
  | none =>
    return [⟨.cannotEstablish, lit "claim parses as the recognised CLAIM sentence",
      lit "disclosed_summary is not exactly the fixed claim grammar; no field can be compared"⟩]
  | some claim =>
    let decisionRef ← innerPayload.get (lit "decision_ref")
    let artifactHash ← innerPayload.get (lit "artifact_hash")
    let verdict ← innerPayload.get (lit "verdict")
    let verifiedAt ← strOf R (← innerPayload.get (lit "verified_at"))
    let policyVersion ← innerPayload.get (lit "policy_version")
    let expected := object [("decision_ref", decisionRef), ("event_id", innerEventId),
      ("artifact_hash", artifactHash), ("verdict", verdict), ("verified_at", .str verifiedAt),
      ("policy_version", policyVersion)]
    claimFields.mapM fun f => do compareField R f (← claim.item f) (← expected.item f)

/-! ## The sentence -/

/-- The values of the six fields. -/
structure Claim where
  decisionRef : Str
  eventId : Str
  artifactHash : Str
  verdict : Str
  verifiedAt : Str
  policyVersion : Str
  deriving DecidableEq

/-- 64 hex digits in lower case. -/
def IsHex64 (s : Str) : Prop := s.length = 64 ∧ s.all isLowerHex = true

/-- A word of letters, digits, `_` and `-`. -/
def IsWord (s : Str) : Prop := s ≠ [] ∧ s.all isTokenChar = true

/-- Words with dots between them. -/
def IsToken (s : Str) : Prop :=
  ∃ (w : Str) (ws : List Str), IsWord w ∧ (∀ v ∈ ws, IsWord v) ∧ s = w ++ ws.flatMap fun v => lit "." ++ v

namespace Claim

variable (c : Claim)

def values : List Str :=
  [c.decisionRef, c.eventId, c.artifactHash, c.verdict, c.verifiedAt, c.policyVersion]

/-- What `parse_claim` returns of the values. -/
def dict : Json := .obj (claimFields.zip (c.values.map .str))

/-- The sentence that claims the values. -/
def sentence : Str :=
  lit "CLAIM: the referenced verdict (decision_ref " ++ c.decisionRef ++
    lit ", nostr event id " ++ c.eventId ++ lit ") recorded artifact_hash " ++ c.artifactHash ++
    lit ", verdict " ++ c.verdict ++ lit ", verified_at " ++ c.verifiedAt ++
    lit ", policy_version " ++ c.policyVersion ++ claimEnd

/-- Each value is in the grammar of its slot. -/
structure InGrammar : Prop where
  decisionRef : ∃ h, IsHex64 h ∧ c.decisionRef = lit "sha256:" ++ h
  eventId : IsHex64 c.eventId
  artifactHash : IsHex64 c.artifactHash
  verdict : IsToken c.verdict
  verifiedAt : c.verifiedAt ≠ [] ∧ c.verifiedAt.all isDigit = true
  policyVersion : IsToken c.policyVersion

/-- The values are those of the referenced proof. -/
structure Of (innerPayload innerEventId : Json) : Prop where
  decisionRef : innerPayload.find (lit "decision_ref") = .str c.decisionRef
  eventId : innerEventId = .str c.eventId
  artifactHash : innerPayload.find (lit "artifact_hash") = .str c.artifactHash
  verdict : innerPayload.find (lit "verdict") = .str c.verdict
  verifiedAt : strOf R (innerPayload.find (lit "verified_at")) = .ok c.verifiedAt
  policyVersion : innerPayload.find (lit "policy_version") = .str c.policyVersion

theorem sentence_eq : c.sentence = fill claimEnd claimSlots c.values := by
  simp only [sentence, fill, claimSlots, values, List.append_assoc]

end Claim

/-! ## The slots -/

theorem matches_hex64 {t : Str} {cs : Captures CodePoint} :
    Matches hex64 t cs ↔ IsHex64 t ∧ cs = [] := matches_times_one

theorem matches_decisionRef {t : Str} {cs : Captures CodePoint} :
    Matches (.seq (literal (lit "sha256:")) hex64) t cs ↔
      (∃ h, IsHex64 h ∧ t = lit "sha256:" ++ h) ∧ cs = [] := by
  rw [matches_seq]
  constructor
  · rintro ⟨u, h, ds, es, rfl, rfl, hlead, hhex⟩
    obtain ⟨rfl, rfl⟩ := matches_literal.mp hlead
    obtain ⟨hh, rfl⟩ := matches_hex64.mp hhex
    exact ⟨⟨h, hh, rfl⟩, rfl⟩
  · rintro ⟨⟨h, hh, rfl⟩, rfl⟩
    exact ⟨_, h, [], [], rfl, rfl, matches_literal.mpr ⟨rfl, rfl⟩, matches_hex64.mpr ⟨hh, rfl⟩⟩

theorem matches_dotWord {t : Str} {cs : Captures CodePoint} :
    Matches (.seq (literal (lit ".")) (plus (.one isTokenChar))) t cs ↔
      (∃ w, IsWord w ∧ t = lit "." ++ w) ∧ cs = [] := by
  rw [matches_seq]
  constructor
  · rintro ⟨u, w, ds, es, rfl, rfl, hdot, hword⟩
    obtain ⟨rfl, rfl⟩ := matches_literal.mp hdot
    obtain ⟨hw, rfl⟩ := matches_plus_one.mp hword
    exact ⟨⟨w, hw, rfl⟩, rfl⟩
  · rintro ⟨⟨w, hw, rfl⟩, rfl⟩
    exact ⟨_, w, [], [], rfl, rfl, matches_literal.mpr ⟨rfl, rfl⟩, matches_plus_one.mpr ⟨hw, rfl⟩⟩

theorem matches_dotWords {t : Str} {cs : Captures CodePoint} :
    Matches (.star (.seq (literal (lit ".")) (plus (.one isTokenChar)))) t cs ↔
      (∃ ws : List Str, (∀ v ∈ ws, IsWord v) ∧ t = ws.flatMap fun v => lit "." ++ v) ∧ cs = [] := by
  constructor
  · rw [matches_star]
    rintro ⟨ms, hms, rfl, rfl⟩
    induction ms with
    | nil => exact ⟨⟨[], fun v hv => absurd hv List.not_mem_nil, rfl⟩, rfl⟩
    | cons m ms ih =>
      obtain ⟨⟨-, hm⟩, hms⟩ := List.forall_mem_cons.mp hms
      obtain ⟨⟨w, hw, hmw⟩, hnil⟩ := matches_dotWord.mp hm
      obtain ⟨⟨ws, hws, htext⟩, hcs⟩ := ih hms
      rw [List.flatMap_cons, List.flatMap_cons, hnil, hcs, hmw, htext]
      exact ⟨⟨w :: ws, List.forall_mem_cons.mpr ⟨hw, hws⟩, rfl⟩, rfl⟩
  · rintro ⟨⟨ws, hws, rfl⟩, rfl⟩
    induction ws with
    | nil => exact .starNil
    | cons v ws ih =>
      obtain ⟨hv, hws⟩ := List.forall_mem_cons.mp hws
      exact .starCons (matches_dotWord.mpr ⟨⟨v, hv, rfl⟩, rfl⟩) (List.cons_ne_nil _ _) (ih hws)

theorem matches_token {t : Str} {cs : Captures CodePoint} :
    Matches token t cs ↔ IsToken t ∧ cs = [] := by
  rw [token, matches_seq]
  constructor
  · rintro ⟨w, v, ds, es, rfl, rfl, hword, hrest⟩
    obtain ⟨hw, rfl⟩ := matches_plus_one.mp hword
    obtain ⟨⟨ws, hws, rfl⟩, rfl⟩ := matches_dotWords.mp hrest
    exact ⟨⟨w, ws, hw, hws, rfl⟩, rfl⟩
  · rintro ⟨⟨w, ws, hw, hws, rfl⟩, rfl⟩
    exact ⟨w, _, [], [], rfl, rfl, matches_plus_one.mpr ⟨hw, rfl⟩,
      matches_dotWords.mpr ⟨⟨ws, hws, rfl⟩, rfl⟩⟩

/-- The characters of a token. -/
theorem IsToken.chars {t : Str} (h : IsToken t) :
    ∀ c ∈ t, isTokenChar c = true ∨ c = ofChar '.' := by
  obtain ⟨w, ws, ⟨-, hw⟩, hws, rfl⟩ := h
  intro c hc
  rcases List.mem_append.mp hc with hc | hc
  · exact Or.inl (List.all_eq_true.mp hw c hc)
  · obtain ⟨v, hv, hc⟩ := List.mem_flatMap.mp hc
    rcases List.mem_append.mp hc with hc | hc
    · exact Or.inr (List.mem_singleton.mp hc)
    · exact Or.inl (List.all_eq_true.mp (hws v hv).2 c hc)

/-- What is no character of a token is not in one. -/
theorem IsToken.notMem {t : Str} (h : IsToken t) {c : CodePoint} (hc : isTokenChar c = false)
    (hdot : c ≠ ofChar '.') : c ∉ t := by
  intro hmem
  rcases h.chars c hmem with htoken | hdot'
  · rw [hc] at htoken
    cases htoken
  · exact hdot hdot'

/-- No slot has a group in it. -/
theorem claimSlots_silent : ∀ slot ∈ claimSlots, Silent slot.2 := by
  have hhex : Silent hex64 := fun _ _ h => (matches_hex64.mp h).2
  have htoken : Silent token := fun _ _ h => (matches_token.mp h).2
  unfold claimSlots
  simp only [List.forall_mem_cons]
  exact ⟨fun _ _ h => (matches_decisionRef.mp h).2, hhex, hhex, htoken,
    fun _ _ h => (matches_plus_one.mp h).2, htoken, fun _ h => absurd h List.not_mem_nil⟩

/-- What follows a slot marks its end. -/
theorem claimSlots_unambiguous : Unambiguous claimEnd claimSlots := by
  have hhex (next : Str) : Delimited hex64 next :=
    delimited_of_length (fun v hv => (matches_hex64.mp hv).1.1) next
  have htoken (c : CodePoint) (before after : Str) (hc : isTokenChar c = false)
      (hdot : c ≠ ofChar '.') (hbefore : c ∉ before) :
      Delimited token (before ++ c :: after) :=
    delimited_of_notMem hbefore fun v hv => (matches_token.mp hv).1.notMem hc hdot
  refine ⟨?_, hhex _, hhex _, ?_, ?_, ?_⟩
  · refine delimited_of_length (n := 71) (fun v hv => ?_) _
    obtain ⟨⟨h, hh, rfl⟩, -⟩ := matches_decisionRef.mp hv
    rw [List.length_append, hh.1]
    rfl
  · exact htoken (ofChar ',') [] _ (by decide) (by decide) List.not_mem_nil
  · have hdigits : ∀ v, Matches (plus (.one isDigit)) v [] → ofChar ',' ∉ v := by
      intro v hv hmem
      have hdigit := List.all_eq_true.mp (matches_plus_one.mp hv).1.2 _ hmem
      exact absurd hdigit (by decide)
    exact delimited_of_notMem (List.not_mem_nil (a := ofChar ',')) hdigits
  · have hend : claimEnd = lit "." ++ ofChar ' ' :: claimEnd.drop 2 := by
      have htake : claimEnd.take 2 = lit "." ++ [ofChar ' '] := by decide +kernel
      conv_lhs => rw [← List.take_append_drop 2 claimEnd, htake]
      rfl
    have hdelimited := htoken (ofChar ' ') (lit ".") (claimEnd.drop 2) (by decide) (by decide)
      (by decide)
    rwa [← hend] at hdelimited

/-! ## Reading it back -/

theorem fits_claimSlots {vs : List Str} :
    Fits claimSlots vs ↔ ∃ c : Claim, c.InGrammar ∧ vs = c.values := by
  unfold Fits claimSlots
  constructor
  · rintro (_ | ⟨h₁, _ | ⟨h₂, _ | ⟨h₃, _ | ⟨h₄, _ | ⟨h₅, _ | ⟨h₆, _ | _⟩⟩⟩⟩⟩⟩)
    exact ⟨⟨_, _, _, _, _, _⟩, ⟨(matches_decisionRef.mp h₁).1, (matches_hex64.mp h₂).1,
      (matches_hex64.mp h₃).1, (matches_token.mp h₄).1, (matches_plus_one.mp h₅).1,
      (matches_token.mp h₆).1⟩, rfl⟩
  · rintro ⟨c, hc, rfl⟩
    exact .cons (matches_decisionRef.mpr ⟨hc.decisionRef, rfl⟩)
      (.cons (matches_hex64.mpr ⟨hc.eventId, rfl⟩)
      (.cons (matches_hex64.mpr ⟨hc.artifactHash, rfl⟩)
      (.cons (matches_token.mpr ⟨hc.verdict, rfl⟩)
      (.cons (matches_plus_one.mpr ⟨hc.verifiedAt, rfl⟩)
      (.cons (matches_token.mpr ⟨hc.policyVersion, rfl⟩) .nil)))))

theorem Claim.values_injective {c d : Claim} (h : c.values = d.values) : c = d := by
  obtain ⟨⟩ := c
  obtain ⟨⟩ := d
  simp only [Claim.values, List.cons.injEq, and_true] at h
  simp only [Claim.mk.injEq]
  exact h

/-- The pattern matches the sentences, and its groups take the values. -/
theorem matches_claimRe {s : Str} {cs : Captures CodePoint} :
    Matches claimRe s cs ↔
      ∃ c : Claim, c.InGrammar ∧ s = c.sentence ∧ cs = numbered 1 c.values := by
  rw [claimRe, matches_template claimSlots_silent]
  constructor
  · rintro ⟨vs, hfits, rfl, rfl⟩
    obtain ⟨c, hc, rfl⟩ := fits_claimSlots.mp hfits
    exact ⟨c, hc, c.sentence_eq.symm, rfl⟩
  · rintro ⟨c, hc, rfl, rfl⟩
    exact ⟨c.values, fits_claimSlots.mpr ⟨c, hc, rfl⟩, c.sentence_eq, rfl⟩

/-- One sentence claims one list of values. -/
theorem sentence_injective {c d : Claim} (hc : c.InGrammar) (hd : d.InGrammar)
    (h : c.sentence = d.sentence) : c = d := by
  rw [c.sentence_eq, d.sentence_eq] at h
  exact Claim.values_injective (fill_injective claimSlots_unambiguous
    (fits_claimSlots.mpr ⟨c, hc, rfl⟩) (fits_claimSlots.mpr ⟨d, hd, rfl⟩) h)

theorem groups_values (c : Claim) : groups (numbered 1 c.values) = c.values.map .str := rfl

theorem parseClaim_sentence {c : Claim} (hc : c.InGrammar) :
    parseClaim (.str c.sentence) = some c.dict := by
  have hmatch : fullMatch claimRe c.sentence = some (numbered 1 c.values) := by
    refine (fullMatch_eq_some fun ds hds => ?_).mpr (matches_claimRe.mpr ⟨c, hc, rfl, rfl⟩)
    obtain ⟨d, hd, hsentence, rfl⟩ := matches_claimRe.mp hds
    rw [sentence_injective hc hd hsentence]
  rw [parseClaim, hmatch, Option.map_some, groups_values, Claim.dict]

theorem parseClaim_iff {s : Str} {d : Json} :
    parseClaim (.str s) = some d ↔ ∃ c : Claim, c.InGrammar ∧ s = c.sentence ∧ d = c.dict := by
  constructor
  · intro h
    obtain ⟨cs, hcs, rfl⟩ := Option.map_eq_some_iff.mp h
    obtain ⟨c, hc, rfl, rfl⟩ := matches_claimRe.mp (matches_of_fullMatch hcs)
    exact ⟨c, hc, rfl, by rw [groups_values, Claim.dict]⟩
  · rintro ⟨c, hc, rfl, rfl⟩
    exact parseClaim_sentence hc

/-! ## The comparison -/

/-- There is a report, and every line of it is PASS. -/
def AllPass (report : Except PyError (List Check)) : Prop :=
  ∃ checks, report = .ok checks ∧ ∀ c ∈ checks, c.status = .pass

theorem allPass_mapM {f : Str → Except PyError Check} {fields : List Str} :
    AllPass (fields.mapM f) ↔ ∀ k ∈ fields, ∃ c, f k = .ok c ∧ c.status = .pass := by
  constructor
  · rintro ⟨checks, hchecks, hpass⟩ k hk
    obtain ⟨c, hc, hfk⟩ := mem_mapM_of_mem hchecks hk
    exact ⟨c, hfk, hpass c hc⟩
  · intro h
    obtain ⟨checks, hchecks⟩ := mapM_of_ok fun k hk => (h k hk).imp fun _ hc => hc.1
    refine ⟨checks, hchecks, fun c hc => ?_⟩
    obtain ⟨k, hk, hfk⟩ := (mem_mapM hchecks).mp hc
    obtain ⟨d, hd, hpass⟩ := h k hk
    obtain rfl := Except.ok.inj (hfk.symm.trans hd)
    exact hpass

variable {R}

theorem compareField_pass {f v : Str} {want : Json} :
    (∃ c, compareField R f (.str v) want = .ok c ∧ c.status = .pass) ↔ want = .str v := by
  have heq : (Json.str v).pyEq want = true ↔ want = .str v := by
    rw [pyEq, Bool.and_eq_true, ← pySame_str]
    exact ⟨fun h => pySame_symm h.1, fun h => ⟨pySame_symm h, rfl⟩⟩
  rw [← heq, compareField]
  constructor
  · rintro ⟨c, hc, hpass⟩
    split at hc
    · next h => exact h
    · obtain ⟨_, -, hc⟩ := bind_ok.mp hc
      obtain ⟨_, -, hc⟩ := bind_ok.mp hc
      obtain rfl := Except.ok.inj hc
      cases hpass
  · intro h
    rw [if_pos h]
    exact ⟨_, rfl, rfl⟩

theorem dict_eq (c : Claim) : c.dict = object [("decision_ref", .str c.decisionRef),
    ("event_id", .str c.eventId), ("artifact_hash", .str c.artifactHash),
    ("verdict", .str c.verdict), ("verified_at", .str c.verifiedAt),
    ("policy_version", .str c.policyVersion)] := rfl

/-- A claim passes exactly where its values are those of the referenced proof. -/
theorem allPass_iff {outer inner : List (Str × Json)} {innerEventId : Json} {c : Claim}
    (h : parseClaim ((Json.obj outer).find (lit "disclosed_summary")) = some c.dict) :
    AllPass (compareClaim R (.obj outer) (.obj inner) innerEventId) ↔
      c.Of R (.obj inner) innerEventId := by
  have hget (kvs : List (Str × Json)) (k : Str) :
      (Json.obj kvs).get k = .ok ((Json.obj kvs).find k) := rfl
  unfold compareClaim
  simp only [hget, ok_bind, h]
  cases hverified : strOf R ((Json.obj inner).find (lit "verified_at")) with
  | error e =>
    constructor
    · rintro ⟨checks, hchecks, -⟩
      cases hchecks
    · intro hof
      rw [hof.verifiedAt] at hverified
      cases hverified
  | ok verifiedAt =>
    rw [ok_bind, allPass_mapM, dict_eq]
    simp (disch := decide) only [claimFields, List.map_cons, List.map_nil, List.forall_mem_cons,
      item_object_cons, item_object_cons_ne, ok_bind, compareField_pass]
    constructor
    · rintro ⟨hdecision, hid, hartifact, hverdict, hat, hpolicy, -⟩
      exact ⟨hdecision, hid, hartifact, hverdict, hverified.trans (congrArg _ (Json.str.inj hat)),
        hpolicy⟩
    · intro hof
      have hat : verifiedAt = c.verifiedAt := Except.ok.inj (hverified.symm.trans hof.verifiedAt)
      exact ⟨hof.decisionRef, hof.eventId, hof.artifactHash, hof.verdict, congrArg _ hat,
        hof.policyVersion, fun _ hk => absurd hk List.not_mem_nil⟩

theorem exists_claim {summary d : Json} (h : parseClaim summary = some d) :
    ∃ c : Claim, c.InGrammar ∧ summary = .str c.sentence ∧ d = c.dict := by
  cases summary with
  | str s =>
    obtain ⟨c, hc, rfl, hd⟩ := parseClaim_iff.mp h
    exact ⟨c, hc, rfl, hd⟩
  | _ => cases h

variable (R) in
/-- The claim sentence is read back. A text is read just where it is the sentence of six
values in their grammars, as those values; no two lists of values have one sentence; and
a comparison passes in every line just where the summary is the sentence of the
referenced proof's own values. -/
theorem claim_read_back :
    (∀ (s : Str) (d : Json), parseClaim (.str s) = some d ↔
      ∃ c : Claim, c.InGrammar ∧ s = c.sentence ∧ d = c.dict) ∧
    (∀ c d : Claim, c.InGrammar → d.InGrammar → c.sentence = d.sentence → c = d) ∧
    ∀ (outer inner : List (Str × Json)) (innerEventId : Json),
      AllPass (compareClaim R (.obj outer) (.obj inner) innerEventId) ↔
        ∃ c : Claim, c.InGrammar ∧ c.Of R (.obj inner) innerEventId ∧
          (Json.obj outer).find (lit "disclosed_summary") = .str c.sentence := by
  refine ⟨fun s d => parseClaim_iff, fun c d => sentence_injective, ?_⟩
  intro outer inner innerEventId
  constructor
  · intro h
    cases hparse : parseClaim ((Json.obj outer).find (lit "disclosed_summary")) with
    | none =>
      obtain ⟨checks, hchecks, hpass⟩ := h
      unfold compareClaim at hchecks
      rw [show (Json.obj outer).get (lit "disclosed_summary") =
        .ok ((Json.obj outer).find (lit "disclosed_summary")) from rfl, ok_bind, hparse] at hchecks
      obtain rfl := Except.ok.inj hchecks
      cases hpass _ List.mem_cons_self
    | some d =>
      obtain ⟨c, hc, hsummary, rfl⟩ := exists_claim hparse
      exact ⟨c, hc, (allPass_iff hparse).mp h, hsummary⟩
  · rintro ⟨c, hc, hof, hsummary⟩
    refine (allPass_iff ?_).mpr hof
    rw [hsummary]
    exact parseClaim_sentence hc

end Preaction.ProofChain
