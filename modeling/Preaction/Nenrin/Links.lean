import Preaction.Nenrin.SpellingVerdict

/-!
# When `verify` returns

R3 keeps the digests of the observations in sets and asks whether the
`prev_evidence_id` of each hop is in the set one `seq` before it. A list or a
dict has no hash, so the question raises. The loop stops at the first hop that
is not linked, so whether it comes to such a value depends on what stands before
it (`ReachesUnhashable`). Nothing else in the procedure raises, and a report that
is returned names the malformed slots (`verify_tells_iff`).
-/

namespace Preaction.Nenrin

open Preaction.Py Report

variable {R : Runtime}

/-! ## The report -/

/-- The codes a report refuses with. -/
def Report.codes (r : Report) : List Code := r.refusals.map Prod.fst

@[simp] theorem codes_append (a b : Report) : (a ++ b).codes = a.codes ++ b.codes :=
  List.map_append

/-- A slot that holds neither a record nor null or false. -/
def Malformed (v : Json) : Prop := v ≠ .null ∧ v ≠ .bool false ∧ dict? v = none

/-- The report says something, and refuses each malformed slot under the code of its step. -/
structure Report.Tells (bundle : Record) (rep : Report) : Prop where
  something : rep.refusals ≠ [] ∨ rep.findings ≠ []
  taskId : (∀ c cs, getField bundle "task_id" ≠ .str (c :: cs)) → .taskIdMissing ∈ rep.codes
  observations : (∃ v ∈ listAt bundle "observations", dict? v = none) →
    .delegationObservationInvalid ∈ rep.codes
  grant : Malformed (getField bundle "grant") → .executionInvalid ∈ rep.codes
  receipt : Malformed (getField bundle "receipt") → .executionInvalid ∈ rep.codes
  receipts : (∃ v ∈ listAt bundle "receipts", dict? v = none) → .executionInvalid ∈ rep.codes
  intent : Malformed (getField bundle "intent") → .preflightInvalid ∈ rep.codes

theorem identity_missing {t : Json} (h : ∀ c cs, t ≠ .str (c :: cs)) (xs : List Record) :
    .taskIdMissing ∈ (identity t xs).codes := by
  unfold identity
  split
  next c cs => exact absurd rfl (h c cs)
  next => exact List.mem_cons_self

theorem slot_malformed {bundle : Record} {k : String} (h : Malformed (getField bundle k))
    (code : Code) : code ∈ (slot bundle k code).2.codes := by
  obtain ⟨hnull, hfalse, hdict⟩ := h
  unfold slot
  split
  next heq => exact absurd heq hnull
  next heq => exact absurd heq hfalse
  next kvs heq =>
    rw [heq] at hdict
    cases hdict
  next => exact List.mem_cons_self

theorem malformedExecution_slot {bundle : Record}
    (h : Malformed (getField bundle "grant") ∨ Malformed (getField bundle "receipt")) :
    .executionInvalid ∈ (malformedExecution bundle).codes := by
  unfold malformedExecution
  rw [codes_append, codes_append, List.mem_append, List.mem_append]
  exact .inl (h.imp (slot_malformed · _) (slot_malformed · _))

theorem malformedExecution_receipts {bundle : Record}
    (h : ∃ v ∈ listAt bundle "receipts", dict? v = none) :
    .executionInvalid ∈ (malformedExecution bundle).codes := by
  obtain ⟨v, hv, hdict⟩ := h
  unfold malformedExecution
  rw [codes_append, List.mem_append]
  refine .inr (List.mem_map.mpr ⟨(.executionInvalid, some .recordNotObject), ?_, rfl⟩)
  exact List.mem_filterMap.mpr ⟨v, hv, by rw [hdict]; rfl⟩

theorem delegated_malformed {rawObs : List Json} (h : ∃ v ∈ rawObs, dict? v = none)
    (sigs : Bool) : .delegationObservationInvalid ∈ (delegated R sigs rawObs).codes := by
  obtain ⟨v, hv, hdict⟩ := h
  have hne : ¬ rawObs.isEmpty = true := by
    rw [List.isEmpty_iff]
    exact List.ne_nil_of_mem hv
  have hlen : (dicts rawObs).length ≠ rawObs.length := by
    intro heq
    have hsome := List.filterMap_length_eq_length.mp heq v hv
    rw [hdict] at hsome
    cases hsome
  unfold delegated
  rw [if_neg hne, if_neg hlen, codes_append, List.mem_append]
  exact .inl List.mem_cons_self

theorem evidence_something (target : Record) :
    (evidence (some target)).refusals ≠ [] ∨ (evidence (some target)).findings ≠ [] := by
  unfold evidence
  dsimp only
  split
  next => exact .inr (List.cons_ne_nil _ _)
  next =>
    split
    next => exact .inr (List.cons_ne_nil _ _)
    next => exact .inl (List.cons_ne_nil _ _)

/-- Without receipts the execution step says so, and with one the evidence step speaks. -/
theorem execution_something (sigs : Bool) (grant : Option Record) (rset : List Record) :
    let executed := execution R sigs grant rset
    let r := executed.1 ++ evidence (executed.2 <|> rset.head?)
    r.refusals ≠ [] ∨ r.findings ≠ [] := by
  intro executed r
  cases rset with
  | nil =>
    cases grant with
    | none => exact .inr (List.cons_ne_nil _ _)
    | some grant => exact .inl (List.cons_ne_nil _ _)
  | cons x rest =>
    have htarget : ∃ t, (executed.2 <|> (x :: rest).head?) = some t := by
      cases executed.2 with
      | none => exact ⟨x, rfl⟩
      | some y => exact ⟨y, rfl⟩
    obtain ⟨t, ht⟩ := htarget
    show (executed.1 ++ evidence (executed.2 <|> (x :: rest).head?)).refusals ≠ [] ∨
      (executed.1 ++ evidence (executed.2 <|> (x :: rest).head?)).findings ≠ []
    rw [ht]
    rcases evidence_something t with h | h
    · exact .inl (List.append_ne_nil_of_right_ne_nil _ h)
    · exact .inr (List.append_ne_nil_of_right_ne_nil _ h)

theorem otherSteps_tells (bundle : Record) {rep : Report}
    (hcodes : ∀ c ∈ (otherSteps R bundle).codes, c ∈ rep.codes)
    (hfound : ∀ f ∈ (otherSteps R bundle).findings, f ∈ rep.findings) : rep.Tells bundle := by
  unfold otherSteps at hcodes hfound
  dsimp only at hcodes hfound
  simp only [codes_append, findings_append, List.mem_append] at hcodes hfound
  refine {
    something := ?_
    taskId := fun h => hcodes _ ?_
    observations := fun h => hcodes _ ?_
    grant := fun h => hcodes _ ?_
    receipt := fun h => hcodes _ ?_
    receipts := fun h => hcodes _ ?_
    intent := fun h => hcodes _ ?_ }
  · have hsome := execution_something (R := R) (requireSignatures bundle) (grantOf bundle)
      (receiptSet bundle)
    rcases hsome with h | h
    · obtain ⟨p, hp⟩ := List.exists_mem_of_ne_nil _ h
      left
      have hmem : p.1 ∈ rep.codes := by
        refine hcodes _ ?_
        rcases List.mem_append.mp hp with hp | hp
        · have hp := List.mem_map_of_mem (f := Prod.fst) hp
          tauto
        · have hp := List.mem_map_of_mem (f := Prod.fst) hp
          tauto
      intro hnil
      unfold codes at hmem
      rw [hnil] at hmem
      cases hmem
    · obtain ⟨f, hf⟩ := List.exists_mem_of_ne_nil _ h
      right
      refine List.ne_nil_of_mem (hfound f ?_)
      rcases List.mem_append.mp hf with hf | hf
      · tauto
      · tauto
  · have := identity_missing h
    tauto
  · have := delegated_malformed (R := R) h
    tauto
  · have := malformedExecution_slot (.inl h)
    tauto
  · have := malformedExecution_slot (.inr h)
    tauto
  · have := malformedExecution_receipts h
    tauto
  · have := slot_malformed h .preflightInvalid
    tauto

theorem mem_signature_refusals {r : Report} {c : Code} : c ∈ r.signature.refusals ↔ c ∈ r.codes :=
  List.mem_toFinset

theorem mem_signature_findings {r : Report} {f : Finding} :
    f ∈ r.signature.findings ↔ f ∈ r.findings := List.mem_toFinset

/-- A report that is returned holds what the steps say, R3 and R4 last. -/
theorem verify_codes {bundle : Record} {rep : Report} (h : verify R (.obj bundle) = .ok rep) :
    ∃ broken, chainFault R (observationsOf bundle) = .ok broken ∧
      (∀ c, c ∈ rep.codes ↔ c ∈ (otherSteps R bundle).codes ∨
        c ∈ (chainReport R (observationsOf bundle) broken).codes) ∧
      ∀ f, f ∈ rep.findings ↔ f ∈ (otherSteps R bundle).findings ∨
        f ∈ (chainReport R (observationsOf bundle) broken).findings := by
  have hsig := verify_signature (R := R) bundle
  rw [h] at hsig
  cases hchain : chainFault R (observationsOf bundle) with
  | error e =>
    rw [hchain] at hsig
    cases hsig
  | ok broken =>
    rw [hchain] at hsig
    have heq := Except.ok.inj hsig
    refine ⟨broken, rfl, fun c => ?_, fun f => ?_⟩
    · rw [← mem_signature_refusals, heq, mem_signature_refusals, codes_append, List.mem_append]
    · rw [← mem_signature_findings, heq, mem_signature_findings, findings_append, List.mem_append]

theorem verify_ok {bundle : Record} :
    (∃ rep, verify R (.obj bundle) = .ok rep) ↔ ¬ ReachesUnhashable R (observationsOf bundle) := by
  have hsig := verify_signature (R := R) bundle
  rw [← chainFault_error]
  cases hchain : chainFault R (observationsOf bundle) with
  | error e =>
    rw [hchain] at hsig
    cases hrun : verify R (.obj bundle) with
    | error e' => exact ⟨fun ⟨_, h⟩ => (nomatch h), fun h => absurd ⟨e, rfl⟩ h⟩
    | ok rep =>
      rw [hrun] at hsig
      cases hsig
  | ok broken =>
    rw [hchain] at hsig
    cases hrun : verify R (.obj bundle) with
    | error e =>
      rw [hrun] at hsig
      cases hsig
    | ok rep => exact ⟨fun _ ⟨_, h⟩ => (nomatch h), fun _ => ⟨rep, rfl⟩⟩

/-- **When `verify` returns.** It returns a report, which says something and refuses
each malformed slot, exactly when R3 does not come to a `prev_evidence_id` without a
hash. -/
theorem verify_tells_iff (a : Json) :
    (∃ rep, verify R a = .ok rep ∧ rep.Tells (bundleOf a)) ↔
      ¬ ReachesUnhashable R (observationsOf (bundleOf a)) := by
  rw [← verify_ok, show verify R a = verify R (.obj (bundleOf a)) from rfl]
  constructor
  · rintro ⟨rep, hrun, -⟩
    exact ⟨rep, hrun⟩
  · rintro ⟨rep, hrun⟩
    obtain ⟨broken, -, hcodes, hfound⟩ := verify_codes hrun
    exact ⟨rep, hrun, otherSteps_tells _ (fun c hc => (hcodes c).mpr (.inl hc))
      fun f hf => (hfound f).mpr (.inl hf)⟩

/-- Two hops, the second with a list for its `prev_evidence_id`. -/
def listedBundle : Json :=
  object [("task_id", text "t"), ("observations", .arr
    [object [("prev_evidence_id", .null), ("hop", object [("seq", .int 0)])],
      object [("prev_evidence_id", .arr []), ("hop", object [("seq", .int 1)])]])]

theorem listedBundle_raises : verify .sample listedBundle = .error .typeError ∧
    ¬ ∃ rep, verify .sample listedBundle = .ok rep := by
  have hraises : verify .sample listedBundle = .error .typeError := by decide +kernel
  refine ⟨hraises, fun ⟨rep, hrun⟩ => ?_⟩
  rw [hraises] at hrun
  cases hrun

end Preaction.Nenrin
