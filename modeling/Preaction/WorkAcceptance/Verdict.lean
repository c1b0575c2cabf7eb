import Preaction.WorkAcceptance.Check

/-!
# What an accepted verdict says of the criteria

A record without problem codes whose stated verdict is `pass` ought to have met
every required criterion of the document its hash is over. Two folds over the
results stand between: `got` keeps the last flag of each id and is compared with
the flags of the document, `req` keeps every result that is itself marked
required. Neither notices an id that is listed twice.

`requiredPass_iff` says when the guarantee holds all the same: unless an entry
that is not marked required and does not pass has the id of one that is, further
down, or the document marks its id both ways.

Mirroring notes:
- A required criterion is an entry of the document's list; the dict `crit` keeps
  one flag of an id the document repeats.
-/

namespace Preaction.WarCheck

open Preaction.Py Preaction.Loop Json

/-! ## Dicts that comprehensions built -/

variable {R : Runtime} {H : Host}

theorem mem_of_lastOf {l : List (Json × Bool)} {s : Str} {b : Bool}
    (h : lastOf l (.str s) = some b) : (.str s, b) ∈ l := by
  obtain ⟨⟨k, c⟩, he, rfl⟩ := Option.map_eq_some_iff.mp h
  have hk := List.find?_some he
  rw [pySame_str] at hk
  obtain rfl : k = .str s := hk
  exact List.mem_reverse.mp (List.mem_of_find?_eq_some he)

theorem exists_lastOf {l : List (Json × Bool)} {k : Json} {b : Bool} (h : (k, b) ∈ l) :
    ∃ c, lastOf l k = some c := by
  unfold lastOf
  cases hf : l.reverse.find? fun e => e.1.pySame k with
  | some e => exact ⟨e.2, rfl⟩
  | none =>
    have hne := List.find?_eq_none.mp hf (k, b) (List.mem_reverse.mpr h)
    exact absurd (pySame_refl k) hne

theorem lastOf_eq_of_sameDict {a b : List (Json × Bool)} (h : sameDict a b = true)
    {e : Json × Bool} (he : e ∈ a ∨ e ∈ b) : lastOf a e.1 = lastOf b e.1 :=
  beq_iff_eq.mp (List.all_eq_true.mp h e (List.mem_append.mpr he))

/-! ## What an accepted report says -/

/-- The criteria of the document whose bytes the input holds. -/
def documentCriteria (H : Host) (inputs : Json) : Option (List (Json × Bool)) :=
  ((b64Canonical (inputs.find (lit "criteria_file_base64"))).bind H.loads).bind criteriaOf

/-- `receipt.results` -/
def resultsOf (inputs : Json) : List Json := elements ((receiptOf inputs).find (lit "results"))

/-- `x.get("required")` counts as true. -/
def marked (x : Json) : Bool := (x.find (lit "required")).truthy

/-- What steps 4 and 7 say of a record that is accepted and passes. -/
structure Passes (H : Host) (inputs : Json) (crit : List (Json × Bool)) : Prop where
  criteria : documentCriteria H inputs = some crit
  flags : sameDict (resultFlags (receiptOf inputs)) crit = true
  ids : ∀ x ∈ resultsOf inputs, ∃ s, x.find (lit "id") = .str s
  required : ∀ x ∈ resultsOf inputs, marked x = true → x.find (lit "result") = text "pass"

theorem results_of_typesOk {inputs : Json} (h : typesOk inputs = true) {x : Json}
    (hx : x ∈ resultsOf inputs) :
    (∃ s, x.find (lit "id") = .str s) ∧ ∃ s, x.find (lit "result") = .str s := by
  unfold typesOk at h
  simp only [Bool.and_eq_true] at h
  obtain ⟨⟨⟨⟨-, hresults⟩, -⟩, -⟩, -⟩ := h
  have hx := List.all_eq_true.mp hresults x hx
  rw [Bool.and_eq_true, Bool.and_eq_true] at hx
  exact ⟨exists_of_isStr hx.1.2, exists_of_isStr hx.2⟩

theorem criteriaStep_matched {inputs : Json} (hmatch : (criteriaStep R H inputs).1 = .matched)
    (hp : (criteriaStep R H inputs).2 = []) :
    ∃ crit, documentCriteria H inputs = some crit ∧
      sameDict (resultFlags (receiptOf inputs)) crit = true := by
  unfold criteriaStep criteriaHashOf at hmatch hp
  unfold documentCriteria
  split at hp
  next h => rw [h] at hmatch; cases hmatch
  next h => rw [h] at hmatch; cases hmatch
  next cb h =>
    have hany : ((H.loads cb).bind criteriaOf).any (sameDict (resultFlags (receiptOf inputs))) =
        true := by
      by_contra hne
      rw [if_neg hne] at hp
      cases hp
    obtain ⟨crit, hcrit, hsame⟩ := Option.any_eq_true _ _ |>.mp hany
    refine ⟨crit, ?_, hsame⟩
    dsimp only at h
    split at h
    next => cases h
    next =>
      split at h
      next b hb =>
        split at h
        next =>
          obtain ⟨-, rfl⟩ := Prod.mk.inj h
          rw [hb, Option.bind_some, hcrit]
        next => cases h
      next => cases h

/-! ## The guarantee -/

/-- Every entry of a required criterion passes, and every required criterion has one. -/
structure RequiredPass (crit : List (Json × Bool)) (results : List Json) : Prop where
  pass : ∀ x ∈ results, (x.find (lit "id"), true) ∈ crit → x.find (lit "result") = text "pass"
  entry : ∀ k, (k, true) ∈ crit → ∃ x ∈ results, x.find (lit "id") = k

/-- The last entry of an id is marked required. -/
def LastMarked (results : List Json) (id : Json) : Prop :=
  ∃ before x after, results = before ++ x :: after ∧ x.find (lit "id") = id ∧
    marked x = true ∧ ∀ y ∈ after, y.find (lit "id") ≠ id

/-- No entry that neither passes nor is marked required has the id of one that is, or one
that the document marks both ways. -/
def NoneHidden (crit : List (Json × Bool)) (results : List Json) : Prop :=
  ∀ x ∈ results, marked x = false → x.find (lit "result") ≠ text "pass" →
    ¬LastMarked results (x.find (lit "id")) ∧
      ¬((x.find (lit "id"), true) ∈ crit ∧ (x.find (lit "id"), false) ∈ crit)

theorem lastOf_true_iff (xs : List Json) (s : Str) :
    lastOf (xs.map fun x => (x.find (lit "id"), marked x)) (.str s) = some true ↔
      LastMarked xs (.str s) := by
  have hsame (y : Json) : (y.find (lit "id")).pySame (.str s) = true ↔
      y.find (lit "id") = .str s := pySame_str _ s
  unfold lastOf LastMarked
  rw [← List.map_reverse, List.find?_map, Option.map_map, Option.map_eq_some_iff]
  constructor
  · intro h
    obtain ⟨x, hx, hflag⟩ := h
    obtain ⟨hid, after, before, hsplit, hnot⟩ := List.find?_eq_some_iff_append.mp hx
    refine ⟨before.reverse, x, after.reverse, ?_, (hsame x).mp hid, hflag, ?_⟩
    · rw [← List.reverse_reverse xs, hsplit, List.reverse_append, List.reverse_cons,
        List.append_assoc, List.singleton_append]
    · intro y hy heq
      have hy := hnot y (List.mem_reverse.mp hy)
      rw [Bool.not_eq_true'] at hy
      exact Bool.false_ne_true (hy.symm.trans ((hsame y).mpr heq))
  · intro h
    obtain ⟨before, x, after, rfl, hid, hflag, hnot⟩ := h
    refine ⟨x, List.find?_eq_some_iff_append.mpr ⟨(hsame x).mpr hid, after.reverse,
      before.reverse, ?_, ?_⟩, hflag⟩
    · rw [List.reverse_append, List.reverse_cons, List.append_assoc, List.singleton_append]
    · intro y hy
      rw [Bool.not_eq_true', ← Bool.not_eq_true]
      exact fun hb => hnot y (List.mem_reverse.mp hy) ((hsame y).mp hb)

theorem recompute_pass {req : List Str} (h : (recompute req).text = lit "pass") :
    ∀ s ∈ req, s = lit "pass" := by
  unfold recompute at h
  split at h
  next => exact absurd h (by decide)
  next =>
    split at h
    next hall => exact fun s hs => beq_iff_eq.mp (List.all_eq_true.mp hall s hs)
    next => exact absurd h (by decide)

theorem verdictStep_nil {r : Json} (h : verdictStep r = []) :
    r.find (lit "verdict") = .str (recompute (requiredResults r)).text := by
  unfold verdictStep at h
  by_contra hne
  rw [if_neg hne] at h
  exact absurd (List.append_eq_nil_iff.mp h).2 (List.cons_ne_nil _ _)

/-- A code the report does not have was reported by no step. -/
theorem nil_of_eraseDups {α : Type} [BEq α] [LawfulBEq α] {l : List α} (h : l.eraseDups = []) :
    l = [] := by
  rw [List.eq_nil_iff_forall_not_mem]
  intro x hx
  have hmem := List.mem_eraseDups.mpr hx
  rw [h] at hmem
  cases hmem

theorem passes_of_check {inputs : Json} {rep : Report} (h : check R H inputs = .ok (.report rep))
    (hp : rep.problems = []) (hmatch : rep.criteriaHash = .matched)
    (hverdict : rep.verdictStated = text "pass") : ∃ crit, Passes H inputs crit := by
  obtain ⟨htypes, sig, rt, stamp, ct, ind, hrep⟩ := check_report h
  have hnil := nil_of_eraseDups (hrep.problems.symm.trans hp)
  simp only [List.append_eq_nil_iff] at hnil
  obtain ⟨⟨⟨⟨⟨-, hcriteria⟩, -⟩, -⟩, -⟩, hstep⟩ := hnil
  obtain ⟨crit, hcrit, hsame⟩ := criteriaStep_matched (hrep.criteriaHash.symm.trans hmatch) hcriteria
  have hpass : (recompute (requiredResults (receiptOf inputs))).text = lit "pass" :=
    Json.str.inj ((verdictStep_nil hstep).symm.trans (hrep.verdictStated.symm.trans hverdict))
  refine ⟨crit, hcrit, hsame, fun x hx => (results_of_typesOk htypes hx).1, fun x hx hm => ?_⟩
  obtain ⟨-, s, hs⟩ := results_of_typesOk htypes hx
  have hreq := recompute_pass hpass s (List.mem_map.mpr
    ⟨x, List.mem_filter.mpr ⟨hx, hm⟩, by rw [hs]; rfl⟩)
  rw [hs, hreq]
  rfl

/-- An accepted record that passes keeps the guarantee unless a failing entry hides. -/
theorem requiredPass_iff {inputs : Json} {rep : Report}
    (h : check R H inputs = .ok (.report rep)) (hp : rep.problems = [])
    (hmatch : rep.criteriaHash = .matched) (hverdict : rep.verdictStated = text "pass") :
    ∃ crit, documentCriteria H inputs = some crit ∧
      (RequiredPass crit (resultsOf inputs) ↔ NoneHidden crit (resultsOf inputs)) := by
  obtain ⟨crit, hpass⟩ := passes_of_check h hp hmatch hverdict
  refine ⟨crit, hpass.criteria, ?_⟩
  have hflags (s : Str) : lastOf (resultFlags (receiptOf inputs)) (.str s) = some true ↔
      LastMarked (resultsOf inputs) (.str s) := lastOf_true_iff _ s
  constructor
  · intro hreq x hx hunmarked hfail
    obtain ⟨s, hid⟩ := hpass.ids x hx
    -- an id that is required by the document would make the entry pass
    refine ⟨fun hlast => ?_, fun hboth => hfail (hreq.pass x hx hboth.1)⟩
    rw [hid] at hlast
    have hgot := (hflags s).mpr hlast
    have hmem : (x.find (lit "id"), marked x) ∈ resultFlags (receiptOf inputs) :=
      List.mem_map.mpr ⟨x, hx, rfl⟩
    have hcrit := lastOf_eq_of_sameDict hpass.flags (.inl hmem)
    rw [hid, hgot] at hcrit
    refine hfail (hreq.pass x hx ?_)
    rw [hid]
    exact mem_of_lastOf hcrit.symm
  · intro hnone
    refine ⟨fun x hx hcrit => ?_, fun k hk => ?_⟩
    · obtain ⟨s, hid⟩ := hpass.ids x hx
      by_contra hfail
      by_cases hmarked : marked x = true
      · exact hfail (hpass.required x hx hmarked)
      · obtain ⟨hlast, hboth⟩ := hnone x hx (Bool.eq_false_iff.mpr hmarked) hfail
        obtain ⟨c, hc⟩ := exists_lastOf hcrit
        have hsame := lastOf_eq_of_sameDict hpass.flags (.inr hcrit)
        rw [hid] at hlast hboth hc hsame
        cases c with
        | true => exact hlast ((hflags s).mp (hsame.trans hc))
        | false =>
          rw [hid] at hcrit
          exact hboth ⟨hcrit, mem_of_lastOf hc⟩
    · obtain ⟨c, hc⟩ := exists_lastOf hk
      have hgot := (lastOf_eq_of_sameDict hpass.flags (.inr hk)).trans hc
      obtain ⟨e, he, -⟩ := Option.map_eq_some_iff.mp hgot
      obtain ⟨x, hx, rfl⟩ := List.mem_map.mp (List.mem_reverse.mp (List.mem_of_find?_eq_some he))
      obtain ⟨s, hid⟩ := hpass.ids x hx
      have hsame : (x.find (lit "id")).pySame k = true :=
        List.find?_some (p := fun e : Json × Bool => e.1.pySame k) he
      rw [hid] at hsame
      exact ⟨x, hx, hid.trans ((pySame_str k s).mp (pySame_symm hsame)).symm⟩

/-! ## Runs over one criterion -/

/-- A host for ASCII documents; a run without tokens evaluates none. -/
def asciiHost : Host where
  loads b := Runtime.sample.loads (b.map fun c => Fin.ofNat _ c.toNat)
  casefold := Runtime.asciiLower
  evaluate _ _ := .ok (lit "not_evaluated")

/-- The criteria document `{"criteria":[{"id":"a","required":true}]}`. -/
def sampleCriteria : Bytes :=
  "\x7b\"criteria\":[\x7b\"id\":\"a\",\"required\":true\x7d]\x7d".toList.map fun c =>
    UInt8.ofNat c.toNat

/-- An entry of `results` about the criterion. -/
def sampleResult (required : Bool) (result : String) : Json :=
  object [("id", text "a"), ("required", .bool required), ("result", text result)]

def sampleReceipt (results : List Json) : Json :=
  object [("schema", text "trilatic.acceptance-receipt/1.2"),
    ("canonicalization", text "JCS-RFC8785"),
    ("suite", object [("digest", text "sha-256"), ("signature", text "Ed25519")]),
    ("key_id", text "k"), ("issued_utc", text "2026-03-02T00:00:00Z"),
    ("parties", object [("checker", object [("key_id", text "k")])]),
    ("criteria", object [("sha256", .str (Ed25519Ref.constantRuntime.sha256Hex sampleCriteria)),
      ("committed_at", text "2026-03-01T00:00:00Z")]),
    ("results", .arr results), ("independence", text "undeclared"), ("verdict", text "pass")]

/-- The record with the results given, under the one signature of a constant hash. -/
def sampleInputs (results : List Json) : Json :=
  object [("receipt", object [("receipt", sampleReceipt results),
      ("signature", object [("key_id", text "k"), ("value", text
        ("xkcxWeGe0YWzc+k1CBd04MEzuUFqvf8xlmcYenHf9T4zPxTGIo4YdflAxUx8" ++
          "T8+flvowjmtVFsIl/Ejo0qJaCg=="))])]),
    ("keys", object [("keys", .arr [object [("key_id", text "k"),
      ("public_key_base64", text "XSFId8gT5dtkPSsZ6wqhzur/njfDpwkUfWtu6OaQVmY=")]])]),
    ("criteria_file_base64", .str (b64encode sampleCriteria))]

/-- A failing entry for the criterion, and after it a passing one. -/
def hiddenResults : List Json := [sampleResult false "fail", sampleResult true "pass"]

/-- The outcome is a report without problem codes, of a matching hash and a stated pass. -/
def passes : Except PyError Outcome → Bool
  | .ok (.report rep) =>
    rep.problems.isEmpty && rep.criteriaHash == .matched && rep.verdictStated == text "pass"
  | _ => false

theorem report_of_passes {o : Except PyError Outcome} (h : passes o = true) :
    ∃ rep, o = .ok (.report rep) ∧ rep.problems = [] ∧ rep.criteriaHash = .matched ∧
      rep.verdictStated = text "pass" := by
  unfold passes at h
  split at h
  next rep =>
    rw [Bool.and_eq_true, Bool.and_eq_true] at h
    exact ⟨rep, rfl, List.isEmpty_iff.mp h.1.1, beq_iff_eq.mp h.1.2, beq_iff_eq.mp h.2⟩
  next => cases h

theorem sampleInputs_criteria :
    documentCriteria asciiHost (sampleInputs hiddenResults) = some [(text "a", true)] := by
  decide +kernel

theorem hiddenResults_pass :
    passes (check Ed25519Ref.constantRuntime asciiHost (sampleInputs hiddenResults)) = true := by
  decide +kernel

/-- The failing entry of the required criterion passes unnoticed. -/
theorem hiddenResult_accepted : ¬∀ (R : Runtime) (H : Host) (inputs : Json) (rep : Report)
    (crit : List (Json × Bool)), check R H inputs = .ok (.report rep) → rep.problems = [] →
      rep.criteriaHash = .matched → rep.verdictStated = text "pass" →
      documentCriteria H inputs = some crit → RequiredPass crit (resultsOf inputs) := by
  intro hall
  obtain ⟨rep, hrep, hp, hmatch, hverdict⟩ := report_of_passes hiddenResults_pass
  have hreq := hall _ _ _ rep _ hrep hp hmatch hverdict sampleInputs_criteria
  have hresults : resultsOf (sampleInputs hiddenResults) = hiddenResults := by decide +kernel
  rw [hresults] at hreq
  have hpass := hreq.pass (sampleResult false "fail") (List.mem_cons_self ..) (by decide +kernel)
  exact absurd hpass (by decide +kernel)

/-- A record with one passing entry, where the condition holds. -/
theorem sampleInputs_requiredPass : ∃ crit,
    documentCriteria asciiHost (sampleInputs [sampleResult true "pass"]) = some crit ∧
      (RequiredPass crit (resultsOf (sampleInputs [sampleResult true "pass"])) ↔
        NoneHidden crit (resultsOf (sampleInputs [sampleResult true "pass"]))) := by
  have hrun : passes (check Ed25519Ref.constantRuntime asciiHost
      (sampleInputs [sampleResult true "pass"])) = true := by decide +kernel
  obtain ⟨rep, hrep, hp, hmatch, hverdict⟩ := report_of_passes hrun
  exact requiredPass_iff hrep hp hmatch hverdict

end Preaction.WarCheck
