import Preaction.Nenrin.Execution
import Preaction.Nenrin.Links

/-!
# Step 0: one `task_id` in every record

Step 0 compares the `task_id` of the bundle with that of every record. An
observation and a receipt are records when they are dicts, a dropped duplicate
being answered for by the receipt it repeats; a grant and an intent are records
only when they are not empty, for the list takes them by their truth. An empty
dict in those two slots has no `task_id` and is not asked
(`strays_refused_iff`).
-/

namespace Preaction.Nenrin

open Preaction.Py Report

variable {R : Runtime} {bundle : Record}

/-- A JSON object in a record slot. -/
inductive InSlot (bundle x : Record) : Prop
  | observation (h : .obj x ∈ listAt bundle "observations")
  | grant (h : getField bundle "grant" = .obj x)
  | intent (h : getField bundle "intent" = .obj x)
  | receipt (h : getField bundle "receipt" = .obj x)
  | receipts (h : .obj x ∈ listAt bundle "receipts")

/-- The record has no `task_id`, or another one. -/
def Strays (tid : Str) (x : Record) : Prop := x.lookup (lit "task_id") ≠ some (.str tid)

/-- The object is a record of step 0 wherever it stands: it is not empty, or stands among
the observations or the receipts. -/
def Counted (bundle x : Record) : Prop :=
  InSlot bundle x ∧ (x ≠ [] ∨ .obj x ∈ listAt bundle "observations" ∨
    getField bundle "receipt" = .obj x ∨ .obj x ∈ listAt bundle "receipts")

theorem mem_dicts {xs : List Json} {x : Record} : x ∈ dicts xs ↔ .obj x ∈ xs := by
  unfold dicts
  rw [List.mem_filterMap]
  constructor
  · rintro ⟨v, hv, hx⟩
    cases v with
    | obj kvs => exact Option.some.inj hx ▸ hv
    | _ => cases hx
  · intro h
    exact ⟨.obj x, h, rfl⟩

theorem mem_slot {k : String} {code : Code} {x : Record} :
    x ∈ (slot bundle k code).1.toList ↔ getField bundle k = .obj x := by
  unfold slot
  rw [Option.mem_toList]
  split
  next h => simp [h]
  next h => simp [h]
  next kvs h => simp [h]
  next hobj => exact ⟨nofun, fun h => absurd h (hobj x)⟩

theorem mem_cands {x : Record} :
    x ∈ cands bundle ↔ getField bundle "receipt" = .obj x ∨ .obj x ∈ listAt bundle "receipts" := by
  unfold cands
  rw [List.mem_append, mem_slot, mem_dicts]

/-- The records of step 0. -/
def records (bundle : Record) : List Record :=
  dicts (listAt bundle "observations") ++
    ((grantOf bundle).toList ++ (slot bundle "intent" .preflightInvalid).1.toList).filter
      (!·.isEmpty) ++ receiptSet bundle

theorem mem_records {x : Record} : x ∈ records bundle ↔
    .obj x ∈ listAt bundle "observations" ∨
    ((getField bundle "grant" = .obj x ∨ getField bundle "intent" = .obj x) ∧ x ≠ []) ∨
    x ∈ receiptSet bundle := by
  unfold records grantOf
  rw [List.mem_append, List.mem_append, List.mem_filter, List.mem_append, mem_dicts, mem_slot,
    mem_slot, or_assoc, Bool.not_eq_true', List.isEmpty_eq_false_iff]

theorem Strays.of_same {tid : Str} {x y : Record} (h : Strays tid x)
    (hs : Same (.obj x) (.obj y)) : Strays tid y := fun hy => h (hs.symm.lookup_str hy)

/-- A record strays exactly when an object that is counted does. -/
theorem exists_strays {tid : Str} :
    (∃ x ∈ records bundle, Strays tid x) ↔ ∃ x, Counted bundle x ∧ Strays tid x := by
  constructor
  · rintro ⟨x, hx, hstray⟩
    refine ⟨x, ?_, hstray⟩
    rcases mem_records.mp hx with hobs | ⟨hslot, hne⟩ | hset
    · exact ⟨.observation hobs, .inr (.inl hobs)⟩
    · exact ⟨hslot.elim .grant .intent, .inl hne⟩
    · have hcand := mem_cands.mp (mem_of_mem_dropSeen hset)
      exact ⟨hcand.elim .receipt .receipts, .inr (.inr hcand)⟩
  · rintro ⟨x, ⟨hslot, hcounted⟩, hstray⟩
    -- a receipt that was dropped repeats one that strays as well
    have hreceipt (hx : x ∈ cands bundle) : ∃ x ∈ records bundle, Strays tid x := by
      obtain ⟨y, hy, hs⟩ := exists_same_of_mem_cands hx
      exact ⟨y, mem_records.mpr (.inr (.inr hy)), hstray.of_same hs.symm⟩
    cases hslot with
    | observation h => exact ⟨x, mem_records.mpr (.inl h), hstray⟩
    | receipt h => exact hreceipt (mem_cands.mpr (.inl h))
    | receipts h => exact hreceipt (mem_cands.mpr (.inr h))
    | grant h =>
      rcases hcounted with hne | hobs | hcand
      · exact ⟨x, mem_records.mpr (.inr (.inl ⟨.inl h, hne⟩)), hstray⟩
      · exact ⟨x, mem_records.mpr (.inl hobs), hstray⟩
      · exact hreceipt (mem_cands.mpr hcand)
    | intent h =>
      rcases hcounted with hne | hobs | hcand
      · exact ⟨x, mem_records.mpr (.inr (.inl ⟨.inr h, hne⟩)), hstray⟩
      · exact ⟨x, mem_records.mpr (.inl hobs), hstray⟩
      · exact hreceipt (mem_cands.mpr hcand)

theorem identity_mismatch (c : CodePoint) (cs : Str) (xs : List Record) :
    .taskIdMismatch ∈ (identity (.str (c :: cs)) xs).codes ↔ ∃ x ∈ xs, Strays (c :: cs) x := by
  unfold identity
  dsimp only
  simp only [Strays, ← bne_iff_ne]
  rw [← List.any_eq_true]
  split
  next h => exact ⟨fun _ => h, fun _ => List.mem_cons_self⟩
  next h => exact ⟨nofun, fun h' => absurd h' h⟩

theorem Report.Within.notMem_codes {codes : List Code} {found : List Finding} {r : Report}
    (h : r.Within codes found) {c : Code} (hc : c ∉ codes) : c ∉ r.codes := by
  intro hmem
  obtain ⟨p, hp, rfl⟩ := List.mem_map.mp hmem
  exact hc (h.refusals p hp)

/-- Only step 0 refuses a `task_id`. -/
theorem otherSteps_mismatch : .taskIdMismatch ∈ (otherSteps R bundle).codes ↔
    .taskIdMismatch ∈ (identity (getField bundle "task_id") (records bundle)).codes := by
  have hdelegated (sigs : Bool) (xs : List Json) : .taskIdMismatch ∉ (delegated R sigs xs).codes :=
    (delegated_within sigs xs).notMem_codes (by decide)
  have hmalformed : .taskIdMismatch ∉ (malformedExecution bundle).codes :=
    (malformedExecution_within bundle).notMem_codes (by decide)
  have hexecution (sigs : Bool) (g : Option Record) (xs : List Record) :
      .taskIdMismatch ∉ (execution R sigs g xs).1.codes :=
    (execution_within sigs g xs).notMem_codes (by decide)
  have hslot : .taskIdMismatch ∉ (slot bundle "intent" .preflightInvalid).2.codes :=
    (slot_within bundle _ _).notMem_codes (by decide)
  have hpreflight (sigs : Bool) (g i r : Option Record) :
      .taskIdMismatch ∉ (preflight R sigs g i r).codes :=
    (preflight_within sigs g i r).notMem_codes (by decide)
  have hevidence (a : Option Record) : .taskIdMismatch ∉ (evidence a).codes :=
    (evidence_within a).notMem_codes (by decide)
  have hlinkage (xs : List Json) (r : Option Record) : .taskIdMismatch ∉ (linkage R xs r).codes :=
    (linkage_within xs r).notMem_codes (by decide)
  unfold otherSteps records
  simp only [codes_append, List.mem_append, hdelegated, hmalformed, hexecution, hslot, hpreflight,
    hevidence, hlinkage, or_false]

theorem chainReport_mismatch (obs : List Record) (broken : Option Reason) :
    .taskIdMismatch ∉ (chainReport R obs broken).codes := by
  unfold codes
  rw [chainReport_refusals]
  split
  next => decide
  next => exact nofun

/-- **A record of another task is refused**, the bundle's `task_id` being a text: where
an object in a record slot strays, `verify` answers and refuses the `task_id` exactly
when R3 does not raise and an object that strays is counted. -/
theorem strays_refused_iff {c : CodePoint} {cs : Str}
    (htid : getField bundle "task_id" = .str (c :: cs)) :
    ((∃ x, InSlot bundle x ∧ Strays (c :: cs) x) →
      ∃ rep, verify R (.obj bundle) = .ok rep ∧ .taskIdMismatch ∈ rep.codes) ↔
    (∀ x, InSlot bundle x → ¬ Strays (c :: cs) x) ∨
      (¬ ReachesUnhashable R (observationsOf bundle) ∧
        ∃ x, Counted bundle x ∧ Strays (c :: cs) x) := by
  have hmismatch {rep : Report} (hrun : verify R (.obj bundle) = .ok rep) :
      .taskIdMismatch ∈ rep.codes ↔ ∃ x, Counted bundle x ∧ Strays (c :: cs) x := by
    obtain ⟨broken, -, hcodes, -⟩ := verify_codes hrun
    rw [hcodes, otherSteps_mismatch, htid, identity_mismatch, exists_strays]
    exact or_iff_left (chainReport_mismatch _ _)
  constructor
  · intro h
    by_cases hstray : ∃ x, InSlot bundle x ∧ Strays (c :: cs) x
    · obtain ⟨rep, hrun, hmem⟩ := h hstray
      exact .inr ⟨verify_ok.mp ⟨rep, hrun⟩, (hmismatch hrun).mp hmem⟩
    · exact .inl fun x hx hs => hstray ⟨x, hx, hs⟩
  · rintro (hnone | ⟨hreach, hcounted⟩) ⟨x, hx, hs⟩
    · exact absurd hs (hnone x hx)
    · obtain ⟨rep, hrun⟩ := verify_ok.mpr hreach
      exact ⟨rep, hrun, (hmismatch hrun).mpr hcounted⟩

/-- A bundle with an empty grant. -/
def emptyGrantBundle : Record := [(lit "task_id", text "t"), (lit "grant", .obj [])]

theorem emptyGrantBundle_unrefused : InSlot emptyGrantBundle [] ∧ Strays (lit "t") [] ∧
    ∃ rep, verify .sample (.obj emptyGrantBundle) = .ok rep ∧ .taskIdMismatch ∉ rep.codes := by
  refine ⟨.grant rfl, nofun, ?_⟩
  obtain ⟨rep, hrun, hrep⟩ := Loop.map_ok.mp (show (verify .sample (.obj emptyGrantBundle)).map
    codes = .ok [.executionIncompletePair] by decide +kernel)
  refine ⟨rep, hrun, ?_⟩
  rw [hrep]
  decide


/-- A bundle with a grant of another task. -/
def strangeGrantBundle : Record :=
  [(lit "task_id", text "t"), (lit "grant", object [("task_id", text "u")])]

theorem strangeGrantBundle_refused :
    ∃ rep, verify .sample (.obj strangeGrantBundle) = .ok rep ∧ .taskIdMismatch ∈ rep.codes := by
  have hstrays : Strays (lit "t") [(lit "task_id", text "u")] := by
    unfold Strays
    decide
  have hslot : InSlot strangeGrantBundle [(lit "task_id", text "u")] := .grant rfl
  refine (@strays_refused_iff .sample _ (ofChar 't') [] rfl).mpr (.inr ⟨?_, _,
    ⟨hslot, .inl (List.cons_ne_nil _ _)⟩, hstrays⟩) ⟨_, hslot, hstrays⟩
  rintro ⟨-, pre, o, post, hsplit, -⟩
  exact absurd hsplit.symm (List.append_ne_nil_of_right_ne_nil _ (List.cons_ne_nil _ _))

end Preaction.Nenrin
