import Preaction.ProcedureManifest.ClaimProofs
import Preaction.ProcedureManifest.Outcome

/-!
# Packages with the same records

Two packages that differ only in the order of their records and in how often
each is there derive slots with the same valid claims (`slotOf_sameRecords`).
Without conflicting claims these are walked alike, so both count a terminal of
one claim or neither counts any. A package that counts none has its outcome from
its records alone (`evaluate_uncounted`); for one that does, `Counted.spec` says
what the terminal and the number of claims still decide.
-/

namespace Preaction.ProcedureManifest

open Preaction.Py Preaction.Bip340 Preaction.Loop

variable (R : Runtime) (C : Secp)

/-! ## Packages with the same records -/

/-- The field is the same, or a list in both that are related. -/
def FieldRel (r : List Json → List Json → Prop) (k : Str) (kvs kvs' : List (Str × Json)) : Prop :=
  kvs.lookup k = kvs'.lookup k ∨
    ∃ xs ys, kvs.lookup k = some (.arr xs) ∧ kvs'.lookup k = some (.arr ys) ∧ r xs ys

theorem FieldRel.mono {r r' : List Json → List Json → Prop} {k : Str}
    {kvs kvs' : List (Str × Json)} (h : FieldRel r k kvs kvs') (hr : ∀ xs ys, r xs ys → r' xs ys) :
    FieldRel r' k kvs kvs' := by
  rcases h with h | ⟨xs, ys, hx, hy, hxy⟩
  · exact Or.inl h
  · exact Or.inr ⟨xs, ys, hx, hy, hr xs ys hxy⟩

/-- `pkg.get(k, [])` -/
def records (k : Str) (kvs : List (Str × Json)) : Json := (kvs.lookup k).getD (.arr [])

theorem FieldRel.sameField {k : Str} {kvs kvs' : List (Str × Json)}
    (h : FieldRel SameElems k kvs kvs') : SameField (records k kvs) (records k kvs') := by
  rcases h with h | ⟨xs, ys, hx, hy, hxy⟩
  · exact Or.inl (congrArg (Option.getD · _) h)
  · refine Or.inr ⟨xs, ys, ?_, ?_, hxy⟩
    · rw [records, hx, Option.getD_some]
    · rw [records, hy, Option.getD_some]

theorem FieldRel.iter_rel {r : List Json → List Json → Prop} (hrefl : ∀ xs, r xs xs) {k : Str}
    {kvs kvs' : List (Str × Json)} (h : FieldRel r k kvs kvs') {xs ys : List Json}
    (hxs : (records k kvs).iter = .ok xs) (hys : (records k kvs').iter = .ok ys) : r xs ys := by
  unfold records at hxs hys
  rcases h with h | ⟨xs', ys', hx, hy, hxy⟩
  · rw [h] at hxs
    rw [Except.ok.inj (hxs.symm.trans hys)]
    exact hrefl ys
  · rw [hx] at hxs
    rw [hy] at hys
    cases hxs
    cases hys
    exact hxy

/-- A field that holds a record is a list. -/
theorem lookup_of_mem {k : Str} {kvs : List (Str × Json)} {xs : List Json}
    (h : (records k kvs).iter = .ok xs) {fields : List (Str × Json)} (hx : .obj fields ∈ xs) :
    kvs.lookup k = some (.arr xs) := by
  unfold records at h
  cases hl : kvs.lookup k with
  | none =>
    rw [hl] at h
    cases h
    cases hx
  | some v =>
    rw [hl, Option.getD_some] at h
    cases v with
    | arr ys => rw [Except.ok.inj h]
    | str t =>
      cases h
      obtain ⟨_, -, hc⟩ := List.mem_map.mp hx
      cases hc
    | obj ms =>
      cases h
      obtain ⟨_, -, hc⟩ := List.mem_map.mp hx
      cases hc
    | _ => cases h

/-- Every field but the lists of records is the same. -/
def SameFrame (kvs kvs' : List (Str × Json)) : Prop :=
  ∀ k, k ≠ lit "claims" → k ≠ lit "terminals" → k ≠ lit "submission_commitments" →
    kvs.lookup k = kvs'.lookup k

/-- The packages hold the same records, in any order and any number of times. -/
structure SameRecords (kvs kvs' : List (Str × Json)) : Prop where
  frame : SameFrame kvs kvs'
  claims : FieldRel SameElems (lit "claims") kvs kvs'
  terminals : FieldRel SameElems (lit "terminals") kvs kvs'
  submissions : FieldRel SameElems (lit "submission_commitments") kvs kvs'

theorem item_congr {kvs kvs' : List (Str × Json)} {k : Str} (h : kvs.lookup k = kvs'.lookup k) :
    (Json.obj kvs).item k = (Json.obj kvs').item k := by
  rw [Json.item, Json.item, h]

theorem get_congr {kvs kvs' : List (Str × Json)} {k : Str} (h : kvs.lookup k = kvs'.lookup k) :
    (Json.obj kvs).get k = (Json.obj kvs').get k := by
  rw [Json.get, Json.get, Json.getD, Json.getD, Json.get?, Json.get?, h]

/-! ## The slot of a package -/

/-- The slot is the frame's, with what the fields of the records hold. -/
theorem slotOf_spec {kvs : List (Str × Json)} {p : Parts} {s : Slot}
    (h : slotOf R C (.obj kvs) p = .ok s) :
    s.claims = records (lit "claims") kvs ∧ s.terminals = records (lit "terminals") kvs ∧
      ∃ (test : Json → Except PyError Bool) (xs valid : List Json),
        s.claims.iter = .ok xs ∧ filterE test xs = .ok valid ∧
        s.validClaims = sortClaims s.attemptIds valid ∧
        (∀ c, test c = .ok true → ∃ fields, c = .obj fields) ∧
        ∀ kvs' ys valid', SameFrame kvs kvs' → (records (lit "claims") kvs').iter = .ok ys →
          filterE test ys = .ok valid' → slotOf R C (.obj kvs') p = .ok
            { s with
              claims := records (lit "claims") kvs'
              terminals := records (lit "terminals") kvs'
              validClaims := sortClaims s.attemptIds valid' } := by
  obtain ⟨allowed, hallowed, h⟩ := bind_ok.mp h
  obtain ⟨manifestHash, hmanifest, h⟩ := bind_ok.mp h
  obtain ⟨ds, hds, h⟩ := bind_ok.mp h
  obtain ⟨contract, hcontract, h⟩ := bind_ok.mp h
  obtain ⟨nonce, hnonce, h⟩ := bind_ok.mp h
  obtain ⟨derived, hderived, h⟩ := bind_ok.mp h
  obtain ⟨claims, hclaims, h⟩ := bind_ok.mp h
  obtain ⟨disputeId, hdispute, h⟩ := bind_ok.mp h
  obtain ⟨requirementId, hrequirement, h⟩ := bind_ok.mp h
  obtain ⟨judgeId, hjudge, h⟩ := bind_ok.mp h
  obtain ⟨runId, hrun, h⟩ := bind_ok.mp h
  obtain ⟨policy, hpolicy, h⟩ := bind_ok.mp h
  obtain ⟨maxAttempts, hmax, h⟩ := bind_ok.mp h
  obtain ⟨maxAtt, hmaxAtt, h⟩ := bind_ok.mp h
  obtain ⟨ids, hids, h⟩ := bind_ok.mp h
  obtain ⟨prov, hprov, h⟩ := bind_ok.mp h
  obtain ⟨xs, hxs, h⟩ := bind_ok.mp h
  obtain ⟨valid, hvalid, h⟩ := bind_ok.mp h
  obtain ⟨terminals, hterminals, h⟩ := bind_ok.mp h
  cases h
  cases hclaims
  cases hterminals
  refine ⟨rfl, rfl, _, xs, valid, hxs, hvalid, rfl, fun c hc => ?_, ?_⟩
  · obtain ⟨id, hid, -⟩ := bind_ok.mp hc
    cases c with
    | obj fields => exact ⟨fields, rfl⟩
    | _ => cases hid
  · intro kvs' ys valid' hframe hys hvalid'
    have hds' := item_congr (hframe (lit "dispute_state") (by decide) (by decide) (by decide))
    have hdispute' := item_congr (hframe (lit "dispute_id") (by decide) (by decide) (by decide))
    rw [hds'] at hds
    rw [hdispute'] at hdispute
    exact bind_ok.mpr ⟨_, hallowed, bind_ok.mpr ⟨_, hmanifest, bind_ok.mpr ⟨_, hds,
      bind_ok.mpr ⟨_, hcontract, bind_ok.mpr ⟨_, hnonce, bind_ok.mpr ⟨_, hderived,
      bind_ok.mpr ⟨_, rfl, bind_ok.mpr ⟨_, hdispute, bind_ok.mpr ⟨_, hrequirement,
      bind_ok.mpr ⟨_, hjudge, bind_ok.mpr ⟨_, hrun, bind_ok.mpr ⟨_, hpolicy,
      bind_ok.mpr ⟨_, hmax, bind_ok.mpr ⟨_, hmaxAtt, bind_ok.mpr ⟨_, hids,
      bind_ok.mpr ⟨_, hprov, bind_ok.mpr ⟨_, hys, bind_ok.mpr ⟨_, hvalid',
      bind_ok.mpr ⟨_, rfl, rfl⟩⟩⟩⟩⟩⟩⟩⟩⟩⟩⟩⟩⟩⟩⟩⟩⟩⟩⟩

/-- One test selects the valid claims of both slots. -/
def SameSelection (s s' : Slot) : Prop :=
  ∃ (q : Json → Bool) (xs ys : List Json), s.claims.iter = .ok xs ∧ s'.claims.iter = .ok ys ∧
    s.validClaims = sortClaims s.attemptIds (xs.filter q) ∧
    s'.validClaims = sortClaims s.attemptIds (ys.filter q)

theorem perm_sortClaims (ids : List Str) (cs : List Json) : (sortClaims ids cs).Perm cs :=
  List.perm_insertionSort _ cs

theorem slotOf_sameRecords {kvs kvs' : List (Str × Json)} (h : SameRecords kvs kvs') {p : Parts}
    {s : Slot} (hs : slotOf R C (.obj kvs) p = .ok s) :
    ∃ s', slotOf R C (.obj kvs') p = .ok s' ∧ SlotAlike s s' ∧ SameSelection s s' := by
  obtain ⟨hclaims, hterms, test, xs, valid, hxs, hvalid, hsort, -, hother⟩ := slotOf_spec R C hs
  have hfield := h.claims.sameField
  obtain ⟨ys, hys, hsame⟩ := hfield.iter (hclaims ▸ hxs)
  obtain ⟨valid', hvalid', hsame'⟩ := filterE_sameElems hsame hvalid
  refine ⟨_, hother kvs' ys valid' h.frame hys hvalid', ?_, holds test, xs, ys, hxs, hys, ?_, ?_⟩
  · refine ⟨rfl, rfl, rfl, rfl, rfl, hclaims ▸ hfield, hterms ▸ h.terminals.sameField, fun c => ?_⟩
    rw [hsort, (perm_sortClaims ..).mem_iff, (perm_sortClaims ..).mem_iff]
    exact hsame' c
  · rw [hsort, filterE_eq_filter hvalid]
  · rw [filterE_eq_filter hvalid']

/-- A package with each claim at least as often has no fewer valid claims. -/
theorem SameSelection.countP_le {s s' : Slot} (h : SameSelection s s')
    (hmore : ∀ xs ys, s.claims.iter = .ok xs → s'.claims.iter = .ok ys → xs.Subperm ys)
    (f : Json → Bool) : s.validClaims.countP f ≤ s'.validClaims.countP f := by
  obtain ⟨q, xs, ys, hxs, hys, hs, hs'⟩ := h
  rw [hs, hs', (perm_sortClaims ..).countP_eq, (perm_sortClaims ..).countP_eq]
  exact ((hmore xs ys hxs hys).filter q).countP_le f

theorem SameSelection.countP_eq {s s' : Slot} (h : SameSelection s s')
    (hperm : ∀ xs ys, s.claims.iter = .ok xs → s'.claims.iter = .ok ys → xs.Perm ys)
    (f : Json → Bool) : s.validClaims.countP f = s'.validClaims.countP f := by
  obtain ⟨q, xs, ys, hxs, hys, hs, hs'⟩ := h
  rw [hs, hs', (perm_sortClaims ..).countP_eq, (perm_sortClaims ..).countP_eq]
  exact ((hperm xs ys hxs hys).filter q).countP_eq f

theorem slotOf_sorted {pkg : Json} {p : Parts} {s : Slot} (h : slotOf R C pkg p = .ok s) :
    Keyed.Sorted s.attempt s.validClaims :=
  (slotOf_validClaims R C h).2

/-! ## The claims of one attempt -/

theorem conflictingClaims_sameElems {cs cs' : List Json} (h : SameElems cs cs') {b : Bool}
    (hb : conflictingClaims R cs = .ok b) : conflictingClaims R cs' = .ok b := by
  obtain ⟨ps, hps, hb⟩ := bind_ok.mp hb
  obtain ⟨ps', hps', hsame⟩ := mapM_sameElems h hps
  refine bind_ok.mpr ⟨ps', hps', ?_⟩
  rw [← hb]
  have hany (f : Str × Str → Bool) : ps'.any f = ps.any f := by
    rw [Bool.eq_iff_iff, List.any_eq_true, List.any_eq_true]
    exact exists_congr fun p => and_congr_left fun _ => (hsame p).symm
  simp only [hany]

variable {R} in
/-- Without conflicting claims, the claims of an attempt are one value. -/
theorem oneClaim_of_not_conflicting (hH : CanonInjective R) {pkg : Json} {p : Parts} {s : Slot}
    (hs : slotOf R C pkg p = .ok s) (h : conflictingClaims R s.validClaims = .ok false) :
    OneClaim s s.validClaims := by
  intro a ha b hb hab
  obtain ⟨hids, -⟩ := slotOf_validClaims R C hs
  obtain ⟨ps, hps, h⟩ := bind_ok.mp h
  obtain ⟨x, hx, hax⟩ := mem_mapM_of_mem hps ha
  obtain ⟨y, hy, hby⟩ := mem_mapM_of_mem hps hb
  obtain ⟨ha', hha, hax⟩ := bind_ok.mp hax
  obtain ⟨hb', hhb, hby⟩ := bind_ok.mp hby
  cases hax
  cases hby
  have hid : attemptId a = attemptId b := (List.idxOf_inj (hids a ha)).mp hab
  have hnone := Except.ok.inj h
  rw [List.any_eq_false] at hnone
  have hx' := hnone _ hx
  rw [Bool.not_eq_true, List.any_eq_false] at hx'
  have hxy := hx' _ hy
  simp only [hid, decide_true, Bool.true_and, bne_iff_ne, ne_eq, not_not] at hxy
  exact hH a b ha' hha (hxy ▸ hhb)

/-! ## Runs that count a terminal -/

/-- `evaluate` goes on to the slot. -/
def Formed (p : Parts) : Prop :=
  ∃ profile allowed, p.acquisition.get (lit "provenance_profile") = .ok profile ∧
    profile.pyEq (.str (lit "invinoveritas-admission-chain-v1")) = false ∧
    allowedAfter p.acquisition = .ok allowed ∧
    (allowed.any fun x => !x.pyEq attestedNoResult) = false

/-- The evaluation walks the claims and counts terminal `t` of claim `c`. -/
structure Counted (pkg : Json) (p : Parts) (s : Slot) (order : Term) (w : WalkResult)
    (c t status : Json) : Prop where
  parts : parts pkg = .ok p
  formed : Formed p
  slot : slotOf R C pkg p = .ok s
  ordering : ∃ why, ordering R C pkg p.acquisition s.disputeState s.validClaims = .ok (order, why)
  conflicting : conflictingClaims R s.validClaims = .ok false
  walk : walk R C s s.validClaims = .ok w
  chosen : w.chosen = some (c, t, status)

/-- The terms other than the scope, of a counted terminal. -/
def othersHold (s : Slot) (order : Term) (w : WalkResult) (bound : Bool) : Bool :=
  s.derivedOk && order == .holds && !w.retryViolation && bound

/-- `authorized_execution` of a counted terminal. -/
def authorizedTerm (s : Slot) (order : Term) (w : WalkResult) : Term :=
  if w.retryViolation then .fails
  else if !s.derivedOk || order == .fails then .fails else order

theorem evaluate_formed {kvs : List (Str × Json)} {p : Parts} {subs : List Json}
    (hp : parts (.obj kvs) = .ok p) (hf : Formed p)
    (hsubs : (records (lit "submission_commitments") kvs).iter = .ok subs) :
    evaluate R C (.obj kvs) = slotOf R C (.obj kvs) p >>= fun s =>
      evaluateSlot R C (.obj kvs) p s (records (lit "submission_commitments") kvs)
        (subs.map (commitmentOk R C)) := by
  obtain ⟨profile, allowed, hprofile, hadm, hallowed, hany⟩ := hf
  unfold evaluate
  rw [hp]
  change ((records (lit "submission_commitments") kvs).iter >>= fun subList => _) = _
  rw [hsubs]
  change (p.acquisition.get (lit "provenance_profile") >>= fun profile => _) = _
  rw [hprofile]
  change (if profile.pyEq _ = true then _ else _) = _
  rw [hadm, if_neg Bool.false_ne_true, hallowed]
  change (if (allowed.any fun x => !x.pyEq attestedNoResult) = true then _ else _) = _
  rw [hany]
  rfl

theorem chosenTerms_eligible (s : Slot) (order : Term) (w : WalkResult) (bound covered : Bool) :
    (chosenTerms (authorizedTerm s order w) bound covered).eligible =
      (othersHold s order w bound && covered) := by
  unfold authorizedTerm othersHold
  cases w.retryViolation <;> cases s.derivedOk <;> cases order <;> cases bound <;>
    cases covered <;> rfl

/-- What is left to evaluate once a terminal is counted. -/
theorem Counted.evaluate_eq {kvs : List (Str × Json)} {p : Parts} {s : Slot} {order : Term}
    {w : WalkResult} {c t status : Json} (h : Counted R C (.obj kvs) p s order w c t status)
    (hH : CanonInjective R) {subs : List Json}
    (hsubs : (records (lit "submission_commitments") kvs).iter = .ok subs) :
    ∃ reasons evidence, evaluate R C (.obj kvs) = evaluateChosen R p.requirement
      (authorizedTerm s order w) reasons evidence c t status := by
  obtain ⟨why, hord⟩ := h.ordering
  have hone := oneClaim_of_not_conflicting C hH h.slot h.conflicting
  obtain ⟨hequiv, hmem, -⟩ := walk_chosen_spec R C (slotOf_sorted R C h.slot) hone h.walk h.chosen
  have hne : s.validClaims.isEmpty = false := by
    rw [List.isEmpty_eq_false_iff]
    exact List.ne_nil_of_mem hmem
  rw [evaluate_formed R C h.parts h.formed hsubs, h.slot]
  refine ⟨(if s.derivedOk then [] else [.disputeIdNotDerived]) ++ why.toList ++ w.reasons,
    subs.map (commitmentOk R C), ?_⟩
  change evaluateSlot R C (.obj kvs) p s _ _ = _
  rw [evaluateSlot, hord]
  change (if s.validClaims.isEmpty = true then _ else _) = _
  rw [hne, if_neg Bool.false_ne_true, h.conflicting]
  change (ProcedureManifest.walk R C s s.validClaims >>= fun w => _) = _
  rw [h.walk]
  dsimp only [bind, Except.bind]
  rw [hequiv, if_neg Bool.false_ne_true, h.chosen]
  rfl

theorem iter_of_evaluate {kvs : List (Str × Json)} {out : Evaluation}
    (h : evaluate R C (.obj kvs) = .ok out) :
    ∃ subs, (records (lit "submission_commitments") kvs).iter = .ok subs := by
  obtain ⟨_, -, h⟩ := bind_ok.mp h
  obtain ⟨subs, hsubs, h⟩ := bind_ok.mp h
  obtain ⟨subList, hiter, -⟩ := bind_ok.mp h
  obtain rfl := Except.ok.inj hsubs
  exact ⟨subList, hiter⟩

section
variable {kvs : List (Str × Json)} {p : Parts} {s : Slot} {order : Term} {w : WalkResult}
  {c t status : Json}

/-- The evaluation of a package that counts a terminal. -/
theorem Counted.spec (h : Counted R C (.obj kvs) p s order w c t status)
    (hH : CanonInjective R) {out : Evaluation} (hout : evaluate R C (.obj kvs) = .ok out) :
    ∃ bound covered reasons evidence, requestBound R p.requirement c = .ok bound ∧
      covers p.requirement t = .ok covered ∧
      out = finish (chosenTerms (authorizedTerm s order w) bound covered) reasons
        (stateOf status) evidence (outputOf t status) := by
  obtain ⟨subs, hsubs⟩ := iter_of_evaluate R C hout
  obtain ⟨reasons, evidence, heq⟩ := h.evaluate_eq R C hH hsubs
  rw [heq] at hout
  obtain ⟨bound, covered, reasons', hb, hc, rfl⟩ := evaluateChosen_spec R hout
  exact ⟨bound, covered, reasons', evidence, hb, hc, rfl⟩

/-- A counted terminal decides the eligibility by its scope. -/
theorem Counted.eligible (h : Counted R C (.obj kvs) p s order w c t status)
    (hH : CanonInjective R) {out : Evaluation} (hout : evaluate R C (.obj kvs) = .ok out)
    {bound : Bool} (hb : requestBound R p.requirement c = .ok bound) :
    (covers p.requirement t).map (othersHold s order w bound && ·) = .ok out.eligible := by
  obtain ⟨bound', covered, reasons, evidence, hb', hc, rfl⟩ := h.spec R C hH hout
  obtain rfl := Except.ok.inj (hb.symm.trans hb')
  rw [hc]
  exact congrArg Except.ok (chosenTerms_eligible s order w bound covered).symm

theorem Counted.evaluates (h : Counted R C (.obj kvs) p s order w c t status)
    (hH : CanonInjective R) {subs : List Json}
    (hsubs : (records (lit "submission_commitments") kvs).iter = .ok subs) {bound covered : Bool}
    (hb : requestBound R p.requirement c = .ok bound)
    (hc : covers p.requirement t = .ok covered) : ∃ out, evaluate R C (.obj kvs) = .ok out := by
  obtain ⟨reasons, evidence, heq⟩ := h.evaluate_eq R C hH hsubs
  rw [heq]
  exact evaluateChosen_of_ok R hb hc _ _ _ _

end

/-! ## Two evaluations of the same records -/

theorem stateOf_pySame {a b : Json} (h : a.pySame b = true) :
    (stateOf a).pySame (stateOf b) = true := by
  have hstr {x y : Json} (hxy : x.pySame y = true) {t : Str} (hx : x = .str t) : y = .str t :=
    (Json.pySame_str y t).mp (Json.pySame_symm (hx ▸ hxy))
  cases a with
  | str t => rw [hstr h rfl]; exact Json.pySame_refl _
  | _ =>
    cases b with
    | str t => cases hstr (Json.pySame_symm h) rfl
    | _ => exact h

theorem outputOf_pySame {t t' status status' : Json} (hs : status.pySame status' = true)
    (ho : (t.find (lit "output_hash")).pySame (t'.find (lit "output_hash")) = true) :
    (outputOf t status).pySame (outputOf t' status') = true := by
  have hu : status.pyEq (.str (lit "UNRESOLVED")) = status'.pyEq (.str (lit "UNRESOLVED")) := by
    rw [Bool.eq_iff_iff, Json.pyEq_str, Json.pyEq_str, ← Json.pySame_str, ← Json.pySame_str]
    exact ⟨Json.pySame_trans (Json.pySame_symm hs), Json.pySame_trans hs⟩
  rw [outputOf, outputOf, hu]
  split
  · exact Json.pySame_refl _
  · exact ho

/-- The log is read from the frame. -/
theorem readLog_sameFrame {kvs kvs' : List (Str × Json)} (h : SameFrame kvs kvs')
    (acq ds : Json) : readLog R C (.obj kvs) acq ds = readLog R C (.obj kvs') acq ds := by
  have hlog := get_congr (h (lit "ordering_log") (by decide) (by decide) (by decide))
  rw [readLog, readLog, hlog]

section
variable {kvs kvs' : List (Str × Json)} {acq : Json} {s s' : Slot}
  (h : SameFrame kvs kvs') (hs : SlotAlike s s') (hsorted' : Keyed.Sorted s.attempt s'.validClaims)
include h hs hsorted'

theorem ordering_alike (hsorted : Keyed.Sorted s.attempt s.validClaims)
    (hone : OneClaim s s.validClaims) {r : Term × Option Reason}
    (hr : ordering R C (.obj kvs) acq s.disputeState s.validClaims = .ok r) :
    ordering R C (.obj kvs') acq s'.disputeState s'.validClaims = .ok r := by
  rw [ordering_eq] at hr ⊢
  rw [← readLog_sameFrame R C h, ← hs.disputeState]
  obtain ⟨read, hread, hr⟩ := bind_ok.mp hr
  refine bind_ok.mpr ⟨read, hread, ?_⟩
  cases read with
  | decided order why => exact hr
  | indexed byHash dseq =>
    obtain ⟨hidx, hd, hne⟩ := readLog_indexed R C hread
    exact orderClaims_alike R hidx hd hne hs.validClaims hsorted hsorted' hone hr

theorem ordering_returns {r : Term × Option Reason}
    (hr : ordering R C (.obj kvs) acq s.disputeState s.validClaims = .ok r)
    (hproofs : ∀ byHash dseq, readLog R C (.obj kvs) acq s.disputeState =
      .ok (.indexed byHash dseq) → ProofsRead R byHash s.attempt s.validClaims) :
    ∃ r', ordering R C (.obj kvs') acq s'.disputeState s'.validClaims = .ok r' := by
  rw [ordering_eq] at hr
  rw [ordering_eq, ← readLog_sameFrame R C h, ← hs.disputeState]
  obtain ⟨read, hread, hr⟩ := bind_ok.mp hr
  rw [hread]
  cases read with
  | decided order why => exact ⟨_, rfl⟩
  | indexed byHash dseq =>
    obtain ⟨hidx, hd, hne⟩ := readLog_indexed R C hread
    exact orderClaims_ok R hidx hd hne hs.validClaims hsorted' (hproofs byHash dseq hread)

end

theorem parts_sameFrame {kvs kvs' : List (Str × Json)} (h : SameFrame kvs kvs') :
    parts (.obj kvs) = parts (.obj kvs') := by
  have hmanifest := item_congr (h (lit "manifest") (by decide) (by decide) (by decide))
  rw [parts, parts, hmanifest]

theorem SlotAlike.sorted {s s' : Slot} (h : SlotAlike s s') {pkg : Json} {p : Parts}
    (hs' : slotOf R C pkg p = .ok s') : Keyed.Sorted s.attempt s'.validClaims :=
  h.attempt ▸ slotOf_sorted R C hs'

/-- A package with the same records counts a terminal of the same claim. -/
theorem Counted.transfer (hH : CanonInjective R) {kvs kvs' : List (Str × Json)}
    (h : SameFrame kvs kvs') {p : Parts} {s s' : Slot} {order : Term} {w : WalkResult}
    {c t status : Json} (hc : Counted R C (.obj kvs) p s order w c t status)
    (hs' : slotOf R C (.obj kvs') p = .ok s') (hs : SlotAlike s s') :
    ∃ w' c' t' status', Counted R C (.obj kvs') p s' order w' c' t' status' ∧
      Json.SameValue c c' ∧ status.pySame status' = true ∧
      (t.find (lit "output_hash")).pySame (t'.find (lit "output_hash")) = true := by
  obtain ⟨why, hord⟩ := hc.ordering
  have hsorted := slotOf_sorted R C hc.slot
  have hsorted' := hs.sorted R C hs'
  have hone := oneClaim_of_not_conflicting C hH hc.slot hc.conflicting
  obtain ⟨w', hw', halike⟩ := walk_alike R C hs hs.validClaims hsorted hsorted' hone hc.walk
  have hchosen := halike.chosen
  rw [hc.chosen] at hchosen
  cases hch : w'.chosen with
  | none =>
    rw [hch] at hchosen
    cases hchosen
  | some chosen =>
    obtain ⟨c', t', status'⟩ := chosen
    rw [hch] at hchosen
    cases hchosen with
    | some hchosen =>
      refine ⟨w', c', t', status', ⟨?_, hc.formed, hs', ⟨why, ?_⟩, ?_, hw', hch⟩, hchosen⟩
      · rw [← parts_sameFrame h]
        exact hc.parts
      · exact ordering_alike R C h hs hsorted' hsorted hone hord
      · exact conflictingClaims_sameElems R hs.validClaims hc.conflicting

/-- `ordering` does not raise. -/
def OrderingReturns (pkg : Json) : Prop :=
  ∀ p s, parts pkg = .ok p → Formed p → slotOf R C pkg p = .ok s →
    ∃ r, ordering R C pkg p.acquisition s.disputeState s.validClaims = .ok r

theorem orderingReturns_of_evaluate {kvs : List (Str × Json)} {out : Evaluation}
    (h : evaluate R C (.obj kvs) = .ok out) : OrderingReturns R C (.obj kvs) := by
  intro p s hp hf hs
  obtain ⟨subs, hsubs⟩ := iter_of_evaluate R C h
  rw [evaluate_formed R C hp hf hsubs, hs] at h
  change evaluateSlot R C (.obj kvs) p s _ _ = _ at h
  obtain ⟨r, hr, -⟩ := bind_ok.mp h
  exact ⟨r, hr⟩

theorem refused_not_eligible (a : Term) : (Terms.refused a).eligible = false := by
  cases a <;> rfl

/-- Two evaluations without result in one state. -/
theorem sameOutcome_of_not_eligible {terms terms' : Terms} (h : terms.eligible = false)
    (h' : terms'.eligible = false) (rs rs' : List Reason) (state : Json) (ev ev' : List Bool) :
    SameOutcome (finish terms rs state ev .null) (finish terms' rs' state ev' .null) :=
  finish_sameOutcome (h.trans h'.symm) (Json.pySame_refl _) fun _ => Json.pySame_refl _

theorem evaluateAdmission_sameFrame {kvs kvs' : List (Str × Json)} (h : SameFrame kvs kvs')
    {req : Json} {ev : List Bool} (ev' : List Bool) {out : Evaluation}
    (hout : evaluateAdmission R (.obj kvs) req ev = .ok out) :
    ∃ out', evaluateAdmission R (.obj kvs') req ev' = .ok out' ∧ SameOutcome out out' := by
  have hget := get_congr (h (lit "admission_receipt") (by decide) (by decide) (by decide))
  rw [evaluateAdmission, hget] at hout
  obtain ⟨receipt, hreceipt, hout⟩ := bind_ok.mp hout
  rw [evaluateAdmission, hreceipt]
  change ∃ out', (if (!receipt.truthy) = true then _ else _) = _ ∧ SameOutcome out out'
  split at hout
  next hr =>
    rw [if_pos hr]
    obtain rfl := Except.ok.inj hout
    refine ⟨_, rfl, ?_⟩
    exact sameOutcome_of_not_eligible rfl rfl _ _ _ _ _
  next hr =>
    rw [if_neg hr]
    obtain ⟨recomputes, hrec, hout⟩ := bind_ok.mp hout
    obtain ⟨requestText, htext, hout⟩ := bind_ok.mp hout
    obtain ⟨want, hwant, hout⟩ := bind_ok.mp hout
    obtain ⟨bound, hbound, hout⟩ := bind_ok.mp hout
    obtain rfl := Except.ok.inj hout
    refine ⟨_, bind_ok.mpr ⟨recomputes, hrec, bind_ok.mpr ⟨requestText, htext,
      bind_ok.mpr ⟨want, hwant, bind_ok.mpr ⟨bound, hbound, rfl⟩⟩⟩⟩, ?_⟩
    exact sameOutcome_of_not_eligible rfl rfl _ _ _ _ _

/-- What is reported of a slot that counts no terminal. -/
theorem evaluateSlot_uncounted (hH : CanonInjective R) {kvs kvs' : List (Str × Json)} {p : Parts}
    {s s' : Slot} {subs : Json} {ev : List Bool}
    (hp : parts (.obj kvs) = .ok p) (hf : Formed p) (hs : slotOf R C (.obj kvs) p = .ok s)
    (hs' : slotOf R C (.obj kvs') p = .ok s') (halike : SlotAlike s s')
    (hno : ∀ order w c t status, ¬ Counted R C (.obj kvs) p s order w c t status)
    {r' : Term × Option Reason}
    (hr' : ordering R C (.obj kvs') p.acquisition s'.disputeState s'.validClaims = .ok r')
    (subs' : Json) (ev' : List Bool) {out : Evaluation}
    (hout : evaluateSlot R C (.obj kvs) p s subs ev = .ok out) :
    ∃ out', evaluateSlot R C (.obj kvs') p s' subs' ev' = .ok out' ∧ SameOutcome out out' := by
  obtain ⟨⟨order, why⟩, hord, hout⟩ := bind_ok.mp hout
  obtain ⟨order', why'⟩ := r'
  have hempty : s'.validClaims.isEmpty = s.validClaims.isEmpty := by
    rw [Bool.eq_iff_iff, List.isEmpty_iff, List.isEmpty_iff]
    exact halike.validClaims.eq_nil_iff.symm
  rw [evaluateSlot, hr']
  dsimp only [bind, Except.bind]
  rw [hempty]
  dsimp only at hout
  split at hout
  next hnil =>
    rw [if_pos hnil]
    obtain rfl := Except.ok.inj hout
    refine ⟨_, rfl, ?_⟩
    exact sameOutcome_of_not_eligible rfl rfl _ _ _ _ _
  next hnil =>
    rw [if_neg hnil]
    obtain ⟨conflict, hconflict, hout⟩ := bind_ok.mp hout
    rw [conflictingClaims_sameElems R halike.validClaims hconflict]
    dsimp only
    cases conflict with
    | true =>
      obtain rfl := Except.ok.inj hout
      refine ⟨_, rfl, ?_⟩
      exact sameOutcome_of_not_eligible rfl rfl _ _ _ _ _
    | false =>
      obtain ⟨w, hw, hout⟩ := bind_ok.mp hout
      have hsorted := slotOf_sorted R C hs
      have hone := oneClaim_of_not_conflicting C hH hs hconflict
      obtain ⟨w', hw', hww'⟩ := walk_alike R C halike halike.validClaims hsorted
        (halike.sorted R C hs') hone hw
      rw [hw']
      dsimp only
      rw [← hww'.equivocation]
      split at hout
      next hequiv =>
        rw [if_pos hequiv]
        obtain rfl := Except.ok.inj hout
        refine ⟨_, rfl, ?_⟩
        refine sameOutcome_of_not_eligible ?_ ?_ _ _ _ _ _
        · simp [Terms.eligible]
        · simp [Terms.eligible]
      next hequiv =>
        rw [if_neg hequiv]
        cases hchosen : w.chosen with
        | some chosen =>
          obtain ⟨c, t, status⟩ := chosen
          exact absurd ⟨hp, hf, hs, ⟨why, hord⟩, hconflict, hw, hchosen⟩ (hno order w c t status)
        | none =>
          have hchosen' : w'.chosen = none := by
            have hrel := hww'.chosen
            rw [hchosen] at hrel
            generalize w'.chosen = o at hrel ⊢
            cases hrel
            rfl
          rw [hchosen] at hout
          rw [hchosen', ← hww'.attestedNoResult]
          obtain rfl := Except.ok.inj hout
          refine ⟨_, rfl, ?_⟩
          refine sameOutcome_of_not_eligible ?_ ?_ _ _ _ _ _
          · exact refused_not_eligible _
          · exact refused_not_eligible _

/-- A package that counts no terminal has the outcome of every package with the
same records. -/
theorem evaluate_uncounted (hH : CanonInjective R) {kvs kvs' : List (Str × Json)}
    (h : SameRecords kvs kvs') {out : Evaluation} (hout : evaluate R C (.obj kvs) = .ok out)
    (hno : ∀ p s order w c t status, ¬ Counted R C (.obj kvs) p s order w c t status)
    (hord : OrderingReturns R C (.obj kvs')) :
    ∃ out', evaluate R C (.obj kvs') = .ok out' ∧ SameOutcome out out' := by
  obtain ⟨p, hp, hout'⟩ := bind_ok.mp hout
  have hp' : parts (.obj kvs') = .ok p := by rw [← parts_sameFrame h.frame, hp]
  obtain ⟨subs, hsubs⟩ := iter_of_evaluate R C hout
  obtain ⟨subs', hsubs', -⟩ := h.submissions.sameField.iter hsubs
  by_cases hf : Formed p
  · rw [evaluate_formed R C hp hf hsubs] at hout
    rw [evaluate_formed R C hp' hf hsubs']
    obtain ⟨s, hs, hout⟩ := bind_ok.mp hout
    obtain ⟨s', hs', halike, -⟩ := slotOf_sameRecords R C h hs
    obtain ⟨r', hr'⟩ := hord p s' hp' hf hs'
    rw [hs']
    exact evaluateSlot_uncounted R C hH hp hf hs hs' halike (hno p s) hr' _ _ hout
  · -- no slot: the admission profile, or a retry predicate that is refused
    obtain ⟨_, hfield, hout'⟩ := bind_ok.mp hout'
    obtain ⟨_, -, hout'⟩ := bind_ok.mp hout'
    obtain ⟨profile, hprofile, hout'⟩ := bind_ok.mp hout'
    rw [evaluate, hp']
    change ∃ out', ((records (lit "submission_commitments") kvs').iter >>= fun _ => _) = _ ∧ _
    rw [hsubs']
    change ∃ out', (p.acquisition.get (lit "provenance_profile") >>= fun _ => _) = _ ∧ _
    rw [hprofile]
    change ∃ out', (if profile.pyEq _ = true then _ else _) = _ ∧ _
    split at hout'
    next hadm =>
      rw [if_pos hadm]
      exact evaluateAdmission_sameFrame R h.frame _ hout'
    next hadm =>
      rw [if_neg hadm]
      obtain ⟨allowed, hallowed, hout'⟩ := bind_ok.mp hout'
      rw [hallowed]
      change ∃ out', (if (allowed.any fun x => !x.pyEq attestedNoResult) = true then _ else _) = _ ∧ _
      split at hout'
      next hany =>
        rw [if_pos hany]
        obtain ⟨shown, hshown, hout'⟩ := bind_ok.mp hout'
        rw [hshown]
        obtain rfl := Except.ok.inj hout'
        refine ⟨_, rfl, ?_⟩
        exact sameOutcome_of_not_eligible rfl rfl _ _ _ _ _
      next hany =>
        have hformed : Formed p := ⟨profile, allowed, hprofile, Bool.eq_false_iff.mpr hadm,
          hallowed, Bool.eq_false_iff.mpr hany⟩
        exact absurd hformed hf

theorem sameOutcome_of_counted (hH : CanonInjective R) {kvs kvs' : List (Str × Json)}
    {p : Parts} {s s' : Slot} {order : Term} {w w' : WalkResult} {c c' t t' status status' : Json}
    (hc : Counted R C (.obj kvs) p s order w c t status)
    (hc' : Counted R C (.obj kvs') p s' order w' c' t' status')
    (hstatus : status.pySame status' = true)
    (houtput : (t.find (lit "output_hash")).pySame (t'.find (lit "output_hash")) = true)
    {out out' : Evaluation} (hout : evaluate R C (.obj kvs) = .ok out)
    (hout' : evaluate R C (.obj kvs') = .ok out') (he : out.eligible = out'.eligible) :
    SameOutcome out out' := by
  obtain ⟨bound, covered, reasons, evidence, -, -, rfl⟩ := hc.spec R C hH hout
  obtain ⟨bound', covered', reasons', evidence', -, -, rfl⟩ := hc'.spec R C hH hout'
  exact finish_sameOutcome he (stateOf_pySame hstatus) fun _ => outputOf_pySame hstatus houtput

/-- A counted terminal leaves a retry violation exactly when more than one valid
claim is not below its attempt. -/
theorem Counted.violation_iff (hH : CanonInjective R) {pkg : Json} {p : Parts} {s : Slot}
    {order : Term} {w : WalkResult} {c t status : Json}
    (hc : Counted R C pkg p s order w c t status) : w.retryViolation = true ↔
      1 < s.validClaims.countP fun x => decide (s.attempt c ≤ s.attempt x) := by
  have hone := oneClaim_of_not_conflicting C hH hc.slot hc.conflicting
  obtain ⟨-, -, -, hviol⟩ :=
    walk_chosen_spec R C (slotOf_sorted R C hc.slot) hone hc.walk hc.chosen
  exact hviol

/-- The counted terminal is the first of those of its claim. -/
theorem Counted.first (hH : CanonInjective R) {pkg : Json} {p : Parts} {s : Slot} {order : Term}
    {w : WalkResult} {c t status : Json} (hc : Counted R C pkg p s order w c t status) :
    c ∈ s.validClaims ∧ ∃ ts, terminalsFor R C s c = .ok ts ∧ ts.head? = some t := by
  have hone := oneClaim_of_not_conflicting C hH hc.slot hc.conflicting
  obtain ⟨-, hmem, hts, -⟩ :=
    walk_chosen_spec R C (slotOf_sorted R C hc.slot) hone hc.walk hc.chosen
  exact ⟨hmem, hts⟩

theorem attemptId_sameValue {c c' : Json} (h : Json.SameValue c c') : attemptId c = attemptId c' := by
  have hfind := h.find (lit "attempt_id")
  unfold attemptId
  cases ha : c.find (lit "attempt_id") with
  | str t =>
    rw [ha] at hfind
    rw [hashable_sameValue hfind rfl]
  | _ =>
    cases hb : c'.find (lit "attempt_id") with
    | str t =>
      rw [ha, hb] at hfind
      cases hfind
    | _ => rfl

theorem requestBound_sameValue {req c c' : Json} (h : Json.SameValue c c') {b : Bool}
    (hb : requestBound R req c = .ok b) : requestBound R req c' = .ok b := by
  obtain ⟨requestHash, hrh, hb⟩ := bind_ok.mp hb
  obtain ⟨request, hreq, hb⟩ := bind_ok.mp hb
  obtain ⟨want, hwant, hb⟩ := bind_ok.mp hb
  obtain ⟨requestHash', hrh', hsame⟩ := h.item hrh
  refine bind_ok.mpr ⟨_, hrh', bind_ok.mpr ⟨_, hreq, bind_ok.mpr ⟨_, hwant, ?_⟩⟩⟩
  rw [← hb]
  refine congrArg Except.ok ?_
  rw [Bool.eq_iff_iff, Json.pyEq_str, Json.pyEq_str, ← Json.pySame_str, ← Json.pySame_str]
  exact ⟨Json.pySame_trans hsame.pySame, Json.pySame_trans (Json.pySame_symm hsame.pySame)⟩

end Preaction.ProcedureManifest
