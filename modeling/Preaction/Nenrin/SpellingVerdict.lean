import Mathlib.Data.Finset.Dedup
import Mathlib.Data.Finset.Insert
import Preaction.Nenrin.Codes
import Preaction.Nenrin.LinkCheck
import Preaction.Nenrin.Spelling

/-!
# The verdict on two spellings

Whether the signature of a report depends on how a number is spelled. Every step
gives `Same` bundles the same answer (`otherSteps_same`), but for two questions of
the delegation step. R3 takes a `seq` for one only when it is spelled as an
integer, so a chain whose `seq` is `1.0` is broken (`chainFault_eq`); R4 compares
the texts of `seq` and of the verdicts. `signature_eq_iff` says when that shows.

Mirroring notes:
- `signature()` lists what it holds sorted and without repetitions; here those
  are sets.
-/

namespace Preaction.Nenrin

open Preaction.Py Json Report

/-- `signature()` -/
structure Signature where
  accepted : Bool
  refusals : Finset Code
  findings : Finset Finding
  deriving DecidableEq

def Report.signature (r : Report) : Signature where
  accepted := r.Accepted
  refusals := (r.refusals.map Prod.fst).toFinset
  findings := r.findings.toFinset

variable {R : Runtime}

/-! ## What the other steps do not report -/

/-- The report leaves the chain and the witnesses' agreement to R3 and R4. -/
structure Report.LeavesChain (r : Report) : Prop where
  refusals : ∀ p ∈ r.refusals, p.1 ≠ .delegationChainBroken
  findings : ∀ f ∈ r.findings, f ≠ .witnessDisagreement

namespace Report.LeavesChain

theorem append {a b : Report} (ha : LeavesChain a) (hb : LeavesChain b) : LeavesChain (a ++ b) where
  refusals p hp := (List.mem_append.mp hp).elim (ha.refusals p) (hb.refusals p)
  findings f hf := (List.mem_append.mp hf).elim (ha.findings f) (hb.findings f)

end Report.LeavesChain

theorem Report.Within.leavesChain {codes : List Code} {found : List Finding} {r : Report}
    (h : r.Within codes found) (hcodes : .delegationChainBroken ∉ codes)
    (hfound : .witnessDisagreement ∉ found) : r.LeavesChain where
  refusals p hp := ne_of_mem_of_not_mem (h.refusals p hp) hcodes
  findings f hf := ne_of_mem_of_not_mem (h.findings f hf) hfound

/-- What the delegation step reports of its observations one by one. -/
def delegated (R : Runtime) (sigs : Bool) (rawObs : List Json) : Report :=
  if rawObs.isEmpty then find .noDelegationObservations
  else
    (if (dicts rawObs).length = rawObs.length then empty
      else refuse .delegationObservationInvalid (some .recordNotObject)) ++
    ⟨((dicts rawObs).filterMap (observationFault R sigs)).map fun why =>
      (.delegationObservationInvalid, some why), []⟩

theorem delegated_within (sigs : Bool) (rawObs : List Json) :
    (delegated R sigs rawObs).Within [.delegationObservationInvalid]
      [.noDelegationObservations] := by
  unfold delegated
  split
  next => exact .find (by decide)
  next =>
    refine Within.append ?_ (@Within.all _ _ .delegationObservationInvalid (by decide) _ ?_)
    · split
      next => exact .empty
      next => exact .refuse (by decide) _
    · intro p hp
      obtain ⟨why, -, rfl⟩ := List.mem_map.mp hp
      rfl

/-- The refusals and findings of every step but R3 and R4. -/
def otherSteps (R : Runtime) (bundle : Record) : Report :=
  let sigs := requireSignatures bundle
  let rawObs := listAt bundle "observations"
  let grant := grantOf bundle
  let intent := slot bundle "intent" .preflightInvalid
  let rset := receiptSet bundle
  let executed := execution R sigs grant rset
  identity (getField bundle "task_id")
      (dicts rawObs ++ (grant.toList ++ intent.1.toList).filter (!·.isEmpty) ++ rset) ++
    delegated R sigs rawObs ++ malformedExecution bundle ++ executed.1 ++ intent.2 ++
    preflight R sigs grant intent.1 executed.2 ++ evidence (executed.2 <|> rset.head?) ++
    linkage R rawObs executed.2

theorem otherSteps_leaves (bundle : Record) : (otherSteps R bundle).LeavesChain := by
  have hidentity (t : Json) (xs : List Record) : (identity t xs).LeavesChain :=
    (identity_within t xs).leavesChain (by decide) (by decide)
  have hdelegated (sigs : Bool) (xs : List Json) : (delegated R sigs xs).LeavesChain :=
    (delegated_within sigs xs).leavesChain (by decide) (by decide)
  have hmalformed : (malformedExecution bundle).LeavesChain :=
    (malformedExecution_within bundle).leavesChain (by decide) (by decide)
  have hexecution (sigs : Bool) (g : Option Record) (xs : List Record) :
      (execution R sigs g xs).1.LeavesChain :=
    (execution_within sigs g xs).leavesChain (by decide) (by decide)
  have hslot : (slot bundle "intent" .preflightInvalid).2.LeavesChain :=
    (slot_within bundle _ _).leavesChain (by decide) (by decide)
  have hpreflight (sigs : Bool) (g i r : Option Record) : (preflight R sigs g i r).LeavesChain :=
    (preflight_within sigs g i r).leavesChain (by decide) (by decide)
  have hevidence (a : Option Record) : (evidence a).LeavesChain :=
    (evidence_within a).leavesChain (by decide) (by decide)
  have hlinkage (xs : List Json) (r : Option Record) : (linkage R xs r).LeavesChain :=
    (linkage_within xs r).leavesChain (by decide) (by decide)
  unfold otherSteps
  exact (((((((hidentity ..).append (hdelegated ..)).append hmalformed).append
    (hexecution ..)).append hslot).append (hpreflight ..)).append (hevidence ..)).append
    (hlinkage ..)

/-! ## The other steps see no spelling -/

variable {x y : Record}

theorem Same.isEmpty (h : SameRecord x y) : x.isEmpty = y.isEmpty := by
  have hnorm (z : Record) : (sortKvs (normKvs canonLeaf z)).isEmpty = z.isEmpty := by
    rw [sortKvs_isEmpty, normKvs_eq_map, List.isEmpty_map]
  simp only [SameRecord, Same, normWith, Json.obj.injEq] at h
  rw [← hnorm x, h, hnorm y]

theorem filter_isEmpty_same {xs ys : List Record} (h : SameRecords xs ys) :
    SameRecords (xs.filter (!·.isEmpty)) (ys.filter (!·.isEmpty)) := by
  induction h with
  | nil => exact .nil
  | @cons x y xs ys hxy _ ih =>
    rw [List.filter_cons, List.filter_cons, hxy.isEmpty]
    split
    next => exact .cons hxy ih
    next => exact ih

theorem SameRecord?.orElse_head {a b : Option Record} (h : SameRecord? a b) {xs ys : List Record}
    (hl : SameRecords xs ys) : SameRecord? (a <|> xs.head?) (b <|> ys.head?) := by
  rcases h.cases with ⟨rfl, rfl⟩ | ⟨x, y, rfl, rfl, hxy⟩
  · cases hl with
    | nil => rfl
    | cons hxy _ => exact congrArg some hxy
  · exact congrArg some hxy

theorem Same.requireSignatures (h : SameRecord x y) :
    Nenrin.requireSignatures x = Nenrin.requireSignatures y := by
  unfold Nenrin.requireSignatures
  refine (h.getField _).congr (f := (· != .bool false)) (d := true) (fun a ha => ?_)
    (fun _ => rfl) fun _ => rfl
  rcases exists_of_isNumber ha with ⟨_, rfl⟩ | ⟨_, rfl⟩ <;> rfl

theorem delegated_same {xs ys : List Json} (h : List.Forall₂ Same xs ys) (sigs : Bool) :
    delegated R sigs xs = delegated R sigs ys := by
  have hobs := dicts_same h
  have hfaults : (dicts xs).filterMap (observationFault R sigs) =
      (dicts ys).filterMap (observationFault R sigs) :=
    filterMap_same hobs fun hxy => hxy.observationFault _
  unfold delegated
  rw [hfaults, isEmpty_same h, hobs.length_eq, h.length_eq]

theorem otherSteps_same (h : SameRecord x y) : otherSteps R x = otherSteps R y := by
  have hraw := h.listAt "observations"
  have hobs := dicts_same hraw
  have hgrant : SameRecord? (grantOf x) (grantOf y) := (h.slot _ _).1
  obtain ⟨hintent, hmalformed⟩ := h.slot "intent" .preflightInvalid
  obtain ⟨hexec, hreconciled⟩ :=
    execution_same (R := R) hgrant (Nenrin.requireSignatures y) h.receiptSet
  have hrecords := List.rel_append (List.rel_append hobs
    (filter_isEmpty_same (List.rel_append hgrant.toList hintent.toList))) h.receiptSet
  have hdelegated := delegated_same (R := R) hraw (Nenrin.requireSignatures y)
  unfold otherSteps
  dsimp only
  rw [h.requireSignatures, identity_same (h.getField _) hrecords, hdelegated, h.malformedExecution,
    hexec, hmalformed, preflight_same hgrant hintent hreconciled,
    evidence_same (hreconciled.orElse_head h.receiptSet), linkage_same hraw hreconciled]

/-! ## R3 -/

/-- The observations of a bundle. -/
def observationsOf (bundle : Record) : List Record := dicts (listAt bundle "observations")

/-- Every observation has a `seq` spelled as an integer. -/
def IntSeqs (obs : List Record) : Prop := ∀ o ∈ obs, (seqOf o).isSome = true

instance (obs : List Record) : Decidable (IntSeqs obs) :=
  inferInstanceAs (Decidable (∀ o ∈ obs, _))

theorem Same.seqOf (h : SameRecord x y) (hx : (Nenrin.seqOf x).isSome = true)
    (hy : (Nenrin.seqOf y).isSome = true) : Nenrin.seqOf x = Nenrin.seqOf y := by
  have hseq := (h.getField "hop").dict?.bind_lookup (lit "seq")
  unfold Nenrin.seqOf at hx hy ⊢
  rcases hseq.cases with ⟨hv, hw⟩ | ⟨v, w, hv, hw, hvw⟩
  · rw [hv, hw]
  · rw [hv] at hx ⊢
    rw [hw] at hy ⊢
    cases v with
    | int m =>
      cases w with
      | int n => exact congrArg (fun a => some a) (Json.int.inj hvw)
      | _ => cases hy
    | _ => cases hx

theorem Same.ridValue (h : SameRecord x y) : Nenrin.ridValue R x = Nenrin.ridValue R y := by
  unfold Nenrin.ridValue
  rw [h.rid]

/-- The two lists hold the same `seq`s with records that are one value. -/
abbrev SameLinks (xs ys : List (Record × Int)) : Prop :=
  List.Forall₂ (fun p q => SameRecord p.1 q.1 ∧ p.2 = q.2) xs ys

theorem idsAt_same {xs ys : List (Record × Int)} (h : SameLinks xs ys) (s : Int) :
    idsAt R xs s = idsAt R ys s := by
  induction h with
  | nil => rfl
  | @cons p q xs ys hpq _ ih =>
    unfold idsAt at ih ⊢
    rw [List.filter_cons, List.filter_cons, hpq.2]
    split
    next => rw [List.map_cons, List.map_cons, hpq.1.ridValue, ih]
    next => exact ih

theorem linkFault_same {all all' xs ys : List (Record × Int)} (hall : SameLinks all all')
    (h : SameLinks xs ys) : linkFault R all xs = linkFault R all' ys := by
  induction h with
  | nil => rfl
  | @cons p q xs ys hpq _ ih =>
    obtain ⟨x, s⟩ := p
    obtain ⟨y, t⟩ := q
    obtain ⟨hxy, rfl : s = t⟩ := hpq
    have hprev := hxy.field (lit "prev_evidence_id")
    unfold linkFault
    dsimp only
    rw [ih, idsAt_same hall]
    simp only [hprev.eq_null]
    split
    next => rfl
    next =>
      rcases hprev.cases with ⟨hv, hw⟩ | ⟨v, w, hv, hw, hvw⟩
      · rw [hv, hw]
      · rw [hv, hw]
        have hin := pyIn_same hvw (List.forall₂_same.mpr fun a (_ : a ∈ idsAt R all' (s - 1)) =>
          Same.refl a)
        have hhash : hashable v = hashable w := by
          rcases hvw.cases with rfl | ⟨hv, hw⟩ | ⟨xs, ys, rfl, rfl⟩ | ⟨x, y, rfl, rfl⟩
          · rfl
          · rcases exists_of_isNumber hv with ⟨_, rfl⟩ | ⟨_, rfl⟩ <;>
              rcases exists_of_isNumber hw with ⟨_, rfl⟩ | ⟨_, rfl⟩ <;> rfl
          · rfl
          · rfl
        by_cases hnull : v = .null
        · rw [hnull, hvw.eq_null.mp hnull]
        · have hnull' : w ≠ .null := fun hw => hnull (hvw.eq_null.mpr hw)
          simp only [hin, hhash]

theorem chainFault_same {xs ys : List Record} (h : SameRecords xs ys) (hx : IntSeqs xs)
    (hy : IntSeqs ys) : chainFault R xs = chainFault R ys := by
  have hlinks : SameLinks (xs.filterMap fun o => (seqOf o).map (o, ·))
      (ys.filterMap fun o => (seqOf o).map (o, ·)) ∧
      xs.filterMap seqOf = ys.filterMap seqOf := by
    induction h with
    | nil => exact ⟨.nil, rfl⟩
    | @cons x y xs ys hxy _ ih =>
      obtain ⟨hx, hxs⟩ := List.forall_mem_cons.mp hx
      obtain ⟨hy, hys⟩ := List.forall_mem_cons.mp hy
      obtain ⟨hall, hseqs⟩ := ih hxs hys
      have heq := hxy.seqOf hx hy
      obtain ⟨s, hs⟩ := Option.isSome_iff_exists.mp hy
      simp only [List.filterMap_cons, heq, hs, Option.map_some, hseqs]
      exact ⟨.cons ⟨hxy, rfl⟩ hall, trivial⟩
  have hnone {zs : List Record} (hz : IntSeqs zs) : zs.any (fun o => (seqOf o).isNone) = false := by
    rw [List.any_eq_false]
    intro o ho
    rw [Option.isNone_iff_eq_none]
    exact Option.isSome_iff_ne_none.mp (hz o ho)
  unfold chainFault
  rw [hnone hx, hnone hy, hlinks.2, linkFault_same hlinks.1 hlinks.1]

/-- A record with every number spelled in the canonical form. -/
def byValue (x : Record) : Record := sortKvs (normKvs canonLeaf x)

theorem same_byValue (x : Record) : SameRecord x (byValue x) := by
  refine Eq.symm (normWith_normWith (h := canonLeaf) (fun a ha => ?_) (.obj x))
  cases a with
  | float x => cases hx : x.toInt? <;> simp only [normWith, canonLeaf, hx]
  | arr xs => cases ha
  | obj kvs => cases ha
  | _ => rfl

theorem seqOf_byValue {o : Record} (h : (seqOf o).isSome = true) :
    (seqOf (byValue o)).isSome = true := by
  have hlookup (z : Record) (k : Str) :
      (byValue z).lookup k = (z.lookup k).map (normWith canonLeaf) := by
    rw [byValue, lookup_sortKvs, lookup_normKvs]
  unfold seqOf getField at h ⊢
  rw [hlookup]
  cases hhop : o.lookup (lit "hop") with
  | none =>
    rw [hhop] at h
    cases h
  | some v =>
    rw [hhop] at h
    cases v with
    | obj z =>
      have hseq (z : Record) :
          (dict? (.obj z)).bind (·.lookup (lit "seq")) = z.lookup (lit "seq") := rfl
      have hnorm : normWith canonLeaf (.obj z) = .obj (byValue z) := rfl
      rw [Option.getD_some, hseq] at h
      rw [Option.map_some, Option.getD_some, hnorm, hseq, hlookup]
      split at h
      next n hn => rw [hn]; rfl
      next => cases h
    | _ => cases h

/-- R3 breaks a chain whose `seq`s are not all spelled as integers; any other chain it
reads by value. -/
theorem chainFault_eq (obs : List Record) : chainFault R obs =
    if IntSeqs obs then chainFault R (obs.map byValue) else .ok (some .seqGap) := by
  split
  next hint =>
    refine chainFault_same ?_ hint fun o ho => ?_
    · exact List.forall₂_map_right_iff.mpr (List.forall₂_same.mpr fun o _ => same_byValue o)
    · obtain ⟨p, hp, rfl⟩ := List.mem_map.mp ho
      exact seqOf_byValue (hint p hp)
  next hint =>
    by_contra hne
    exact hint (isSome_of_not_gap fun hgap => hne (chainFault_of_gap hgap))

/-! ## The signature -/

/-- Two witnesses of one `seq`, by its text, give different verdicts. -/
def Disagree (R : Runtime) (obs : List Record) : Prop :=
  ∃ a ∈ obs, ∃ b ∈ obs, groupKey R a = groupKey R b ∧ verdictOf R a ≠ verdictOf R b

theorem witnessDisagreement_iff {obs : List Record} :
    witnessDisagreement R obs = true ↔ Disagree R obs := by
  simp only [witnessDisagreement, Disagree, List.any_eq_true, Bool.and_eq_true, beq_iff_eq,
    bne_iff_ne]

/-- What R3 and R4 add to the report. -/
def chainReport (R : Runtime) (obs : List Record) (broken : Option Reason) : Report :=
  refuseIf .delegationChainBroken broken ++
    if witnessDisagreement R obs then find .witnessDisagreement else empty

theorem chainReport_refusals (obs : List Record) (broken : Option Reason) :
    (chainReport R obs broken).refusals.map Prod.fst =
      if broken.isSome then [.delegationChainBroken] else [] := by
  unfold chainReport
  rw [refusals_append, List.map_append]
  have hfound : (if witnessDisagreement R obs then find .witnessDisagreement else empty).refusals =
      [] := by
    split <;> rfl
  rw [hfound]
  cases broken <;> rfl

theorem chainReport_findings (obs : List Record) (broken : Option Reason) :
    (chainReport R obs broken).findings =
      if witnessDisagreement R obs then [.witnessDisagreement] else [] := by
  unfold chainReport
  rw [findings_append]
  have hbroken : (refuseIf .delegationChainBroken broken).findings = [] := by
    cases broken <;> rfl
  rw [hbroken, List.nil_append]
  split <;> rfl

theorem signature_ext {r r' : Report}
    (hr : ∀ c, c ∈ r.refusals.map Prod.fst ↔ c ∈ r'.refusals.map Prod.fst)
    (hf : ∀ f, f ∈ r.findings ↔ f ∈ r'.findings) : r.signature = r'.signature := by
  have haccepted : r.Accepted ↔ r'.Accepted := by
    unfold Accepted
    rw [← List.map_eq_nil_iff (f := Prod.fst), List.eq_nil_iff_forall_not_mem,
      ← List.map_eq_nil_iff (f := Prod.fst), List.eq_nil_iff_forall_not_mem]
    simp only [hr]
  unfold signature
  congr 1
  · exact decide_eq_decide.mpr haccepted
  · ext code
    rw [List.mem_toFinset, List.mem_toFinset, hr]
  · ext code
    rw [List.mem_toFinset, List.mem_toFinset, hf]

theorem delegation_eq (sigs : Bool) (rawObs : List Json) : delegation R sigs rawObs =
    (chainFault R (dicts rawObs)).map fun broken =>
      delegated R sigs rawObs ++ chainReport R (dicts rawObs) broken := by
  unfold delegation delegated
  by_cases hempty : rawObs.isEmpty = true
  · rw [if_pos hempty, if_pos hempty, List.isEmpty_iff.mp hempty]
    rfl
  · rw [if_neg hempty, if_neg hempty]
    dsimp only
    cases chainFault R (dicts rawObs) with
    | error e => rfl
    | ok broken =>
      refine congrArg Except.ok ?_
      simp only [chainReport, Report.append_assoc]

/-- The report of a bundle, its steps in another order. -/
theorem verify_signature (bundle : Record) :
    (verify R (.obj bundle)).map signature = (chainFault R (observationsOf bundle)).map fun broken =>
      (otherSteps R bundle ++ chainReport R (observationsOf bundle) broken).signature := by
  unfold verify otherSteps observationsOf
  rw [show (dict? (.obj bundle)).getD [] = bundle from rfl]
  dsimp only
  rw [delegation_eq]
  cases chainFault R (dicts (listAt bundle "observations")) with
  | error e => rfl
  | ok broken =>
    refine congrArg Except.ok (signature_ext (fun p => ?_) fun f => ?_)
    · simp only [refusals_append, List.map_append, List.mem_append]
      tauto
    · simp only [findings_append, List.mem_append]
      tauto

theorem chainBroken_mem_signature {r : Report} (hr : r.LeavesChain) (obs : List Record)
    (broken : Option Reason) :
    .delegationChainBroken ∈ (r ++ chainReport R obs broken).signature.refusals ↔
      broken.isSome = true := by
  have hne : ¬ .delegationChainBroken ∈ r.refusals.map Prod.fst := by
    intro hmem
    obtain ⟨c, hc, hcode⟩ := List.mem_map.mp hmem
    exact hr.refusals c hc hcode
  rw [signature, List.mem_toFinset, refusals_append, List.map_append, List.mem_append,
    chainReport_refusals]
  simp [hne]

theorem witnessDisagreement_mem_signature {r : Report} (hr : r.LeavesChain) (obs : List Record)
    (broken : Option Reason) :
    .witnessDisagreement ∈ (r ++ chainReport R obs broken).signature.findings ↔ Disagree R obs := by
  have hne : ¬ .witnessDisagreement ∈ r.findings := fun hmem => hr.findings _ hmem rfl
  rw [signature, List.mem_toFinset, findings_append, List.mem_append, chainReport_findings,
    ← witnessDisagreement_iff]
  simp [hne]

/-- What R3 and R4 add shows in the signature of a report that leaves it to them. -/
theorem signature_chainReport {r : Report} (hr : r.LeavesChain) {xs ys : List Record}
    {p q : Option Reason} : (r ++ chainReport R xs p).signature = (r ++ chainReport R ys q).signature ↔
      (p.isSome = true ↔ q.isSome = true) ∧ (Disagree R xs ↔ Disagree R ys) := by
  constructor
  · intro h
    rw [← chainBroken_mem_signature (R := R) hr xs, h, chainBroken_mem_signature hr,
      ← witnessDisagreement_mem_signature hr xs p, h, witnessDisagreement_mem_signature hr]
    exact ⟨Iff.rfl, Iff.rfl⟩
  · intro ⟨hpq, hd⟩
    have hd' : witnessDisagreement R xs = witnessDisagreement R ys := by
      rw [Bool.eq_iff_iff, witnessDisagreement_iff, witnessDisagreement_iff, hd]
    refine signature_ext (fun c => ?_) fun f => ?_
    · simp only [refusals_append, List.map_append, chainReport_refusals, hpq]
    · simp only [findings_append, chainReport_findings, hd']

/-! ## Two spellings -/

/-- The bundle `verify` reads, empty where the input is no dict. -/
def bundleOf (a : Json) : Record := (dict? a).getD []

/-- The chain is broken, each `seq` read by its value. -/
def BrokenByValue (R : Runtime) (obs : List Record) : Prop :=
  ∃ why, chainFault R (obs.map byValue) = .ok (some why)

/-- The loop over the chain raises, each `seq` read by its value. -/
def RaisesByValue (R : Runtime) (obs : List Record) : Prop :=
  ∃ e, chainFault R (obs.map byValue) = .error e

theorem byValue_same {xs ys : List Record} (h : SameRecords xs ys) :
    xs.map byValue = ys.map byValue := by
  induction h with
  | nil => rfl
  | cons hxy _ ih =>
    rw [List.map_cons, List.map_cons, ih]
    exact congrArg (· :: _) (Json.obj.inj hxy)

/-- **The verdict on two spellings of one bundle** is the same exactly when the
`seq`s are integers in both or in neither, or the chain is broken however they are
read, and the witnesses disagree in both or in neither; the last does not count
where R3 raises in both. -/
theorem signature_eq_iff {a b : Json} (h : Same a b) :
    (verify R a).map signature = (verify R b).map signature ↔
      (BrokenByValue R (observationsOf (bundleOf a)) ∨
        (IntSeqs (observationsOf (bundleOf a)) ↔ IntSeqs (observationsOf (bundleOf b)))) ∧
      (RaisesByValue R (observationsOf (bundleOf a)) ∧ IntSeqs (observationsOf (bundleOf a)) ∨
        (Disagree R (observationsOf (bundleOf a)) ↔ Disagree R (observationsOf (bundleOf b)))) := by
  have hbundle : SameRecord (bundleOf a) (bundleOf b) := by
    unfold bundleOf
    rcases h.dict?.cases with ⟨ha, hb⟩ | ⟨x, y, ha, hb, hxy⟩
    · rw [ha, hb]
      exact Same.refl _
    · rw [ha, hb]
      exact hxy
  have hobs : SameRecords (observationsOf (bundleOf a)) (observationsOf (bundleOf b)) :=
    dicts_same (hbundle.listAt _)
  rw [show verify R a = verify R (.obj (bundleOf a)) from rfl,
    show verify R b = verify R (.obj (bundleOf b)) from rfl, verify_signature, verify_signature,
    otherSteps_same hbundle, chainFault_eq (observationsOf (bundleOf a)),
    chainFault_eq (observationsOf (bundleOf b)), ← byValue_same hobs]
  unfold BrokenByValue RaisesByValue
  have hleaves := otherSteps_leaves (R := R) (bundleOf b)
  generalize otherSteps R (bundleOf b) = r at hleaves ⊢
  generalize observationsOf (bundleOf a) = xs
  generalize observationsOf (bundleOf b) = ys
  by_cases hx : IntSeqs xs
  · by_cases hy : IntSeqs ys
    · rw [if_pos hx, if_pos hy]
      cases chainFault R (xs.map byValue) with
      | error e => simp [hx, hy, Except.map]
      | ok broken => simp [hx, hy, Except.map, signature_chainReport hleaves]
    · rw [if_pos hx, if_neg hy]
      cases chainFault R (xs.map byValue) with
      | error e => simp [hx, hy, Except.map]
      | ok broken =>
        simp [hx, hy, Except.map, signature_chainReport hleaves, Option.isSome_iff_exists]
  · by_cases hy : IntSeqs ys
    · rw [if_neg hx, if_pos hy]
      cases chainFault R (xs.map byValue) with
      | error e => simp [hx, hy, Except.map]
      | ok broken =>
        simp [hx, hy, Except.map, signature_chainReport hleaves, Option.isSome_iff_exists]
    · rw [if_neg hx, if_neg hy]
      cases chainFault R (xs.map byValue) with
      | error e => simp [hx, hy, Except.map, signature_chainReport hleaves]
      | ok broken => simp [hx, hy, Except.map, signature_chainReport hleaves]

/-- A bundle of one unsigned observation with a number in its conduct. -/
def scoredBundle (score : Json) : Json :=
  object [("task_id", text "t"), ("require_signatures", .bool false),
    ("observations", .arr [object [("task_id", text "t"), ("prev_evidence_id", .null),
      ("hop", object [("seq", .int 0)]), ("conduct", object [("score", score)])]])]

/-- `1` and `1.0` in the conduct. -/
theorem scoredBundle_same : (verify .sample (scoredBundle (.int 1))).map signature =
    (verify .sample (scoredBundle (.float (.fin false 1023 0)))).map signature := by
  have hsame : Same (scoredBundle (.int 1)) (scoredBundle (.float (.fin false 1023 0))) := by
    unfold Same
    decide
  refine (signature_eq_iff hsame).mpr ⟨.inr (by decide), .inr ?_⟩
  rw [← witnessDisagreement_iff, ← witnessDisagreement_iff]
  decide

/-- The second hop of the sample bundle with its `seq` spelled `1.0`. -/
def respelledLeaf : Json :=
  .obj (setKey (lit "hop") (object [("seq", .float (.fin false 1023 0)), ("from", sampleCaller),
    ("to", text "agent-b")]) ((dict? sampleLeaf).getD []))

def respelledBundle : Record :=
  setKey (lit "observations") (.arr [sampleRoot, respelledLeaf]) sampleBundle

/-- Every signature still verifies, and the chain is broken. -/
theorem respelledBundle_refused : Same (.obj sampleBundle) (.obj respelledBundle) ∧
    (verify .sample (.obj sampleBundle)).map signature ≠
      (verify .sample (.obj respelledBundle)).map signature := by
  constructor
  · exact rfl
  · intro heq
    obtain ⟨r, hr, hacc⟩ := sampleBundle_accepted
    rw [hr, verify_signature, show chainFault .sample (observationsOf respelledBundle) =
      .ok (some .seqGap) by decide] at heq
    have hleaves := otherSteps_leaves (R := .sample) respelledBundle
    have hmem := (chainBroken_mem_signature (R := .sample) hleaves
      (observationsOf respelledBundle) (some .seqGap)).mpr rfl
    have hsig := Except.ok.inj heq
    dsimp only at hsig
    rw [← hsig, signature, hacc] at hmem
    exact absurd hmem (Finset.notMem_empty _)

end Preaction.Nenrin
