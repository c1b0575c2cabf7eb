import Preaction.Nenrin.Verify

/-!
# What each step of `verify` can report

The codes a step refuses with and the codes it finds, step by step. A code that
only one step gives is then traced to that step in a whole report.
-/

namespace Preaction.Nenrin

open Preaction.Py Report

variable {R : Runtime}

/-- The report refuses and finds nothing but these. -/
structure Report.Within (codes : List Code) (found : List Finding) (r : Report) : Prop where
  refusals : ∀ p ∈ r.refusals, p.1 ∈ codes
  findings : ∀ f ∈ r.findings, f ∈ found

namespace Report.Within

variable {codes codes' : List Code} {found found' : List Finding}

theorem empty : Within codes found Report.empty := ⟨nofun, nofun⟩

theorem append {a b : Report} (ha : Within codes found a) (hb : Within codes found b) :
    Within codes found (a ++ b) where
  refusals p hp := (List.mem_append.mp hp).elim (ha.refusals p) (hb.refusals p)
  findings f hf := (List.mem_append.mp hf).elim (ha.findings f) (hb.findings f)

theorem mono {r : Report} (h : Within codes found r) (hcodes : codes ⊆ codes')
    (hfound : found ⊆ found') : Within codes' found' r :=
  ⟨fun p hp => hcodes (h.refusals p hp), fun f hf => hfound (h.findings f hf)⟩

theorem refuse {code : Code} (h : code ∈ codes) (reason : Option Reason) :
    Within codes found (Report.refuse code reason) :=
  ⟨fun p hp => by rwa [List.mem_singleton.mp hp], nofun⟩

theorem refuseIf {code : Code} (h : code ∈ codes) (why : Option Reason) :
    Within codes found (Report.refuseIf code why) := by
  cases why with
  | none => exact empty
  | some why => exact refuse h _

theorem find {code : Finding} (h : code ∈ found) : Within codes found (Report.find code) :=
  ⟨nofun, fun f hf => by rwa [List.mem_singleton.mp hf]⟩

/-- A list of refusals that all give one code. -/
theorem all {code : Code} (h : code ∈ codes) {ps : List (Code × Option Reason)}
    (hps : ∀ p ∈ ps, p.1 = code) : Within codes found ⟨ps, []⟩ :=
  ⟨fun p hp => hps p hp ▸ h, nofun⟩

end Report.Within

theorem identity_within (t : Json) (xs : List Record) :
    (identity t xs).Within [.taskIdMissing, .taskIdMismatch] [] := by
  have hmismatch : Within [.taskIdMissing, .taskIdMismatch] [] (refuse .taskIdMismatch none) :=
    .refuse (by decide) none
  unfold identity
  split
  next =>
    split
    next => exact hmismatch
    next => exact .empty
  next =>
    refine (Within.refuse (by decide) none).append ?_
    split
    next => exact .empty
    next => exact hmismatch

theorem slot_within (x : Record) (k : String) (code : Code) :
    (slot x k code).2.Within [code] [] := by
  unfold slot
  split
  next => exact .empty
  next => exact .empty
  next => exact .empty
  next => exact .refuse (List.mem_singleton_self _) _

theorem malformedExecution_within (x : Record) :
    (malformedExecution x).Within [.executionInvalid] [] := by
  unfold malformedExecution
  refine ((slot_within x _ _).append (slot_within x _ _)).append ?_
  refine .all (List.mem_singleton_self _) fun p hp => ?_
  obtain ⟨v, -, hv⟩ := List.mem_filterMap.mp hp
  split at hv
  next => cases hv
  next => rw [← Option.some.inj hv]

theorem checkAgainstGrant_findings (b : Bound) (binding : Option Reason) (g x : Record) :
    ∀ f ∈ (checkAgainstGrant R b binding g x).2, f ∈ [Finding.openGrant, .selfAuthorized] := by
  have hgrant : ∀ f ∈ grantFindings g, f ∈ [Finding.openGrant, .selfAuthorized] := by
    intro f hf
    unfold grantFindings at hf
    dsimp only at hf
    split at hf
    next => rw [List.mem_singleton.mp hf]; decide
    next =>
      split at hf
      next => rw [List.mem_singleton.mp hf]; decide
      next => cases hf
  unfold checkAgainstGrant
  split
  next => nofun
  next =>
  split
  next => nofun
  next =>
  split
  next => nofun
  next =>
  split
  next => nofun
  next =>
  split
  next => nofun
  next =>
  split
  next => nofun
  next =>
  split
  next => nofun
  next =>
  split
  next => nofun
  next =>
  split
  next => nofun
  next => exact hgrant

theorem findings_within {codes : List Code} {found : List Finding}
    (h : [Finding.openGrant, .selfAuthorized] ⊆ found) (b : Bound) (binding : Option Reason)
    (g x : Record) : Within codes found ⟨[], (checkAgainstGrant R b binding g x).2⟩ :=
  ⟨nofun, fun f hf => h (checkAgainstGrant_findings b binding g x f hf)⟩

theorem reconcile_within (sigs : Bool) (g : Record) (xs : List Record) :
    (reconcile R sigs g xs).1.Within [.executionUnreconciled, .executionEquivocation] [] := by
  unfold reconcile
  dsimp only
  split
  next => exact .refuse (by decide) _
  next =>
    split
    next => exact .refuse (by decide) _
    next => exact .empty
    next => exact .refuse (by decide) _

theorem execution_within (sigs : Bool) (g : Option Record) (xs : List Record) :
    (execution R sigs g xs).1.Within [.executionInvalid, .executionIncompletePair,
      .executionSignatureInvalid, .executionUnreconciled, .executionEquivocation]
      [.noExecutionRecords, .openGrant, .selfAuthorized] := by
  unfold execution
  split
  next => exact .find (by decide)
  next g x rest =>
    unfold executionPair
    dsimp only
    refine ((((Within.refuseIf (by decide) _).append (findings_within (by decide) ..)).append
      ?_).append ?_).append ((reconcile_within ..).mono (by decide) (by decide))
    · split
      next => exact .empty
      next =>
        split
        next => exact .refuse (by decide) _
        next =>
          split
          next => exact .refuse (by decide) _
          next => exact .empty
    · refine @Within.all _ _ .executionInvalid (by decide) _ fun p hp => ?_
      obtain ⟨z, -, hz⟩ := List.mem_filterMap.mp hp
      split at hz
      next => cases hz
      next =>
        obtain ⟨why, -, rfl⟩ := Option.map_eq_some_iff.mp hz
        rfl
  next => exact .refuse (by decide) _

theorem preflight_within (sigs : Bool) (g i r : Option Record) :
    (preflight R sigs g i r).Within
      [.preflightWithoutGrant, .preflightInvalid, .preflightSignatureInvalid]
      [.openGrant, .selfAuthorized, .declaredExecutedDivergence] := by
  unfold preflight
  split
  next => exact .empty
  next => exact .refuse (by decide) _
  next i g =>
    dsimp only
    refine (((findings_within (by decide) ..).append (.refuseIf (by decide) _)).append ?_).append ?_
    · split
      next => exact .refuse (by decide) _
      next => exact .empty
    · split
      next => exact .empty
      next =>
        split
        next => exact .find (by decide)
        next => exact .empty

theorem evidence_within (a : Option Record) :
    (evidence a).Within [.evidenceInvalid] [.noEvidenceBound, .evidenceBoundUnchecked] := by
  unfold evidence
  split
  next => exact .empty
  next =>
    dsimp only
    split
    next => exact .find (by decide)
    next =>
      split
      next => exact .find (by decide)
      next => exact .refuse (by decide) _

theorem linkage_within (xs : List Json) (r : Option Record) :
    (linkage R xs r).Within [.linkageReceiptMismatch] [.noDigestLink] := by
  unfold linkage
  split
  next => exact .empty
  next =>
    split
    next => exact .empty
    next =>
      dsimp only
      split
      next => exact .find (by decide)
      next =>
        split
        next => exact .refuse (by decide) _
        next => exact .empty

end Preaction.Nenrin
