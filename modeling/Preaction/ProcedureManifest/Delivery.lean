import Preaction.ProcedureManifest.Redelivery

/-!
# Whether order and repetition of the records matter

A package is a bag of attested records, and a relay can deliver them in any
order and more than once. Identical duplicates are meant to be redundant copies
and conflicting records to be refused, so neither should change an outcome.
`evaluate` keeps to that except in two places:

- terminals that agree on status and output are taken for one, and the first of
  them decides on the scope, which they need not agree on
  (`sameOutcome_reordered_iff`);
- a claim after the counted one is taken for a retry, also when it is a copy of
  it (`sameOutcome_repeats_iff`).

Both theorems say exactly which packages this leaves alone. The third part of
their conditions is about exceptions: `ordering` stops at the first claim that
does not resolve, so which claim's ordering proof is read at all can depend on
the order of the claims of one attempt (`ProofsSettled`).
-/

namespace Preaction.ProcedureManifest

open Preaction.Py Preaction.Bip340 Preaction.Loop

variable (R : Runtime) (C : Secp)

/-! ## A record put first -/

theorem lookup_setKey_self (k : Str) (v : Json) (kvs : List (Str × Json)) :
    (setKey k v kvs).lookup k = some v := by
  rw [lookup_setKey, if_pos rfl]

theorem lookup_setKey_ne {j k : Str} (h : j ≠ k) (v : Json) (kvs : List (Str × Json)) :
    (setKey k v kvs).lookup j = kvs.lookup j := by
  rw [lookup_setKey, if_neg h]

/-- A terminal put first is the one that counts. -/
theorem eligible_of_first (hH : CanonInjective R) {kvs kvs' : List (Str × Json)}
    (hframe : SameFrame kvs kvs') (hclaims : kvs.lookup (lit "claims") = kvs'.lookup (lit "claims"))
    {xs ys : List Json} {u : Json} (hxs : kvs.lookup (lit "terminals") = some (.arr xs))
    (hys : kvs'.lookup (lit "terminals") = some (.arr (u :: ys))) (hsame : SameElems xs (u :: ys))
    {p : Parts} {s : Slot} {order : Term} {w : WalkResult} {c t status : Json}
    (hc : Counted R C (.obj kvs) p s order w c t status) {bound : Bool}
    (hb : requestBound R p.requirement c = .ok bound) {ts : List Json}
    (hts : terminalsFor R C s c = .ok ts) (hu : u ∈ ts) {out' : Evaluation}
    (hout' : evaluate R C (.obj kvs') = .ok out') :
    (covers p.requirement u).map (othersHold s order w bound && ·) = .ok out'.eligible := by
  obtain ⟨hcl, hterms, test, cs, valid, hcs, hvalid, hsort, -, hother⟩ := slotOf_spec R C hc.slot
  have hcl' : records (lit "claims") kvs' = s.claims := by rw [hcl, records, records, hclaims]
  have hterms' : records (lit "terminals") kvs' = .arr (u :: ys) := by
    rw [records, hys, Option.getD_some]
  have hs' := hother kvs' cs valid hframe (by rw [hcl', hcs]) hvalid
  rw [hterms', hcl', ← hsort] at hs'
  have halike : SlotAlike s { s with terminals := .arr (u :: ys) } := by
    refine ⟨rfl, rfl, rfl, rfl, rfl, .inl rfl, .inr ⟨xs, u :: ys, ?_, rfl, hsame⟩, SameElems.refl _⟩
    rw [hterms, records, hxs, Option.getD_some]
  obtain ⟨w', c', t', status', hc', hcc', -, -⟩ := hc.transfer R C hH hframe hs' halike
  -- the terminals of the claim begin with this one
  obtain ⟨-, ts', hts', hhead⟩ := hc'.first R C hH
  have hfirst : t' = u := by
    obtain ⟨crh, hcrh, hts⟩ := bind_ok.mp hts
    obtain ⟨all, hall, hts⟩ := bind_ok.mp hts
    obtain ⟨-, htest⟩ := (mem_filterE hts).mp hu
    obtain ⟨crh', hcrh', hts'⟩ := bind_ok.mp hts'
    obtain ⟨all', hall', hts'⟩ := bind_ok.mp hts'
    rw [← H_of_sameValue hcc', hcrh] at hcrh'
    obtain rfl := Except.ok.inj hcrh'
    obtain rfl := Except.ok.inj hall'
    obtain ⟨b, zs, hbu, -, rfl⟩ := filterE_cons hts'
    rw [htest] at hbu
    obtain rfl := Except.ok.inj hbu
    exact (Option.some.inj hhead).symm
  have hviol : w'.retryViolation = w.retryViolation := by
    rw [Bool.eq_iff_iff, hc'.violation_iff R C hH, hc.violation_iff R C hH]
    have hattempt : s.attempt c = s.attempt c' := by
      rw [Slot.attempt, Slot.attempt, attemptId_sameValue hcc']
    rw [hattempt]
    exact Iff.rfl
  have heligible := hc'.eligible R C hH hout' (requestBound_sameValue R hcc' hb)
  rw [hfirst] at heligible
  rw [← heligible]
  unfold othersHold
  rw [hviol]

/-- A claim put first stands where its attempt begins, so its proof is read where
all claims of lower attempts resolve. -/
theorem claimSeq_of_first {kvs kvs' : List (Str × Json)} (hframe : SameFrame kvs kvs')
    {xs ys : List Json} {c : Json} (hxs : kvs.lookup (lit "claims") = some (.arr xs))
    (hys : kvs'.lookup (lit "claims") = some (.arr (c :: ys))) (hsame : SameElems xs (c :: ys))
    {p : Parts} {s : Slot} (hp : parts (.obj kvs) = .ok p) (hf : Formed p)
    (hs : slotOf R C (.obj kvs) p = .ok s) {byHash : List (Str × Json)} {dseq : List Json}
    (hread : readLog R C (.obj kvs) p.acquisition s.disputeState = .ok (.indexed byHash dseq))
    (hc : c ∈ s.validClaims)
    (hlower : ∀ b ∈ s.validClaims, s.attempt b < s.attempt c → Resolves R byHash b)
    (hreturns : OrderingReturns R C (.obj kvs')) : ∃ q, claimSeq R byHash c = .ok q := by
  obtain ⟨hcl, -, test, cs, valid, hcs, hvalid, hsort, -, hother⟩ := slotOf_spec R C hs
  rw [hcl, records, hxs, Option.getD_some] at hcs
  obtain rfl := Except.ok.inj hcs
  have hiter : (records (lit "claims") kvs').iter = .ok (c :: ys) := by
    rw [records, hys, Option.getD_some]
    rfl
  obtain ⟨valid', hvalid', hsame'⟩ := filterE_sameElems hsame hvalid
  have hs' := hother kvs' (c :: ys) valid' hframe hiter hvalid'
  rw [hsort, (perm_sortClaims ..).mem_iff] at hc
  obtain ⟨b, zs, hb, -, rfl⟩ := filterE_cons hvalid'
  rw [((mem_filterE hvalid).mp hc).2] at hb
  obtain rfl := Except.ok.inj hb
  rw [if_pos rfl] at hs' hsame'
  obtain ⟨before, later, hsplit, hbefore⟩ :=
    @Keyed.insertionSort_cons_split Json s.attempt c zs
  have hsorted : sortClaims s.attemptIds (c :: zs) = before ++ c :: later := hsplit
  have hresolves : ∀ b ∈ before, Resolves R byHash b := by
    intro b hb
    refine hlower b ?_ (hbefore b hb)
    have hbz : b ∈ sortClaims s.attemptIds (c :: zs) := by
      rw [hsorted]
      exact List.mem_append_left _ hb
    rw [(perm_sortClaims ..).mem_iff, ← hsame' b] at hbz
    rw [hsort, (perm_sortClaims ..).mem_iff]
    exact hbz
  have hp' : parts (.obj kvs') = .ok p := by rw [← parts_sameFrame hframe, hp]
  obtain ⟨r, hr⟩ := hreturns p _ hp' hf hs'
  cases hq : claimSeq R byHash c with
  | ok q => exact ⟨q, rfl⟩
  | error e =>
    dsimp only at hr
    rw [ordering_eq, ← readLog_sameFrame R C hframe, hread, hsorted] at hr
    change orderClaims R byHash dseq (before ++ c :: later) = _ at hr
    rw [orderClaims_error R hresolves hq] at hr
    cases hr

/-! ## When the records decide alike -/

/-- No claim whose ordering proof is read raises, in whatever order the claims
of an attempt are read. -/
def ProofsSettled (pkg : Json) : Prop :=
  ∀ p s byHash dseq, parts pkg = .ok p → Formed p → slotOf R C pkg p = .ok s →
    readLog R C pkg p.acquisition s.disputeState = .ok (.indexed byHash dseq) →
    ProofsRead R byHash s.attempt s.validClaims

/-- Every terminal of the counted claim gives eligibility `v`. -/
def ScopesGive (p : Parts) (s : Slot) (order : Term) (w : WalkResult) (c : Json) (v : Bool) : Prop :=
  ∀ bound ts, requestBound R p.requirement c = .ok bound → terminalsFor R C s c = .ok ts →
    ∀ u ∈ ts, (covers p.requirement u).map (othersHold s order w bound && ·) = .ok v

theorem orderingReturns_of_proofsSettled {kvs kvs' : List (Str × Json)} (h : SameRecords kvs kvs')
    {out : Evaluation} (hout : evaluate R C (.obj kvs) = .ok out)
    (hproofs : ProofsSettled R C (.obj kvs)) : OrderingReturns R C (.obj kvs') := by
  intro p s' hp' hf hs'
  have hp : parts (.obj kvs) = .ok p := by rw [parts_sameFrame h.frame, hp']
  have hreturns := orderingReturns_of_evaluate R C hout
  obtain ⟨subs, hsubs⟩ := iter_of_evaluate R C hout
  rw [evaluate_formed R C hp hf hsubs] at hout
  obtain ⟨s, hs, -⟩ := bind_ok.mp hout
  obtain ⟨s'', hs'', halike, -⟩ := slotOf_sameRecords R C h hs
  obtain rfl := Except.ok.inj (hs''.symm.trans hs')
  obtain ⟨r, hr⟩ := hreturns p s hp hf hs
  exact ordering_returns R C h.frame halike (halike.sorted R C hs') hr
    fun byHash dseq hread => hproofs p s byHash dseq hp hf hs hread

/-- A package with the same records has the same outcome, when its counted
terminal gives the same eligibility. -/
theorem sameOutcome_of_sameRecords (hH : CanonInjective R) {kvs kvs' : List (Str × Json)}
    (h : SameRecords kvs kvs') {out : Evaluation} (hout : evaluate R C (.obj kvs) = .ok out)
    (hproofs : ProofsSettled R C (.obj kvs))
    (hcounted : ∀ {p s s' order w w' c c' t t' status status' bound covered},
      Counted R C (.obj kvs) p s order w c t status →
      Counted R C (.obj kvs') p s' order w' c' t' status' → SlotAlike s s' →
      SameSelection s s' → Json.SameValue c c' → requestBound R p.requirement c = .ok bound →
      covers p.requirement t = .ok covered → out.eligible = (othersHold s order w bound && covered) →
      (∃ ts, terminalsFor R C s c = .ok ts ∧ t' ∈ ts) →
      (covers p.requirement t').map (othersHold s' order w' bound && ·) = .ok out.eligible) :
    ∃ out', evaluate R C (.obj kvs') = .ok out' ∧ SameOutcome out out' := by
  have hreturns := orderingReturns_of_proofsSettled R C h hout hproofs
  by_cases hno : ∀ p s order w c t status, ¬ Counted R C (.obj kvs) p s order w c t status
  · exact evaluate_uncounted R C hH h hout hno hreturns
  · push Not at hno
    obtain ⟨p, s, order, w, c, t, status, hc⟩ := hno
    obtain ⟨s', hs', halike, hsel⟩ := slotOf_sameRecords R C h hc.slot
    obtain ⟨w', c', t', status', hc', hcc', hstatus, houtput⟩ :=
      hc.transfer R C hH h.frame hs' halike
    obtain ⟨bound, covered, reasons, evidence, hb, hcov, hfin⟩ := hc.spec R C hH hout
    have heligible : out.eligible = (othersHold s order w bound && covered) := by
      rw [hfin]
      exact chosenTerms_eligible s order w bound covered
    -- the terminal that counts there is one of the claim's here
    obtain ⟨-, ts', hts', hhead'⟩ := hc'.first R C hH
    obtain ⟨-, ts, hts, -⟩ := hc.first R C hH
    obtain ⟨ts'', hts'', hsame⟩ := terminalsFor_alike R C halike hcc' hts
    obtain rfl := Except.ok.inj (hts''.symm.trans hts')
    have ht' : t' ∈ ts := (hsame t').mpr (List.mem_of_mem_head? hhead')
    have hgives := hcounted hc hc' halike hsel hcc' hb hcov heligible ⟨ts, hts, ht'⟩
    obtain ⟨covered', hcov', -⟩ := map_ok.mp hgives
    obtain ⟨subs, hsubs⟩ := iter_of_evaluate R C hout
    obtain ⟨subs', hsubs', -⟩ := h.submissions.sameField.iter hsubs
    have hb' := requestBound_sameValue R hcc' hb
    obtain ⟨out', hout'⟩ := hc'.evaluates R C hH hsubs' hb' hcov'
    refine ⟨out', hout', sameOutcome_of_counted R C hH hc hc' hstatus houtput hout hout' ?_⟩
    exact Except.ok.inj (hgives.symm.trans (hc'.eligible R C hH hout' hb'))

/-- Where each claim can be put first without an error, none raises. -/
theorem proofsSettled_of_first {kvs : List (Str × Json)}
    (hfirst : ∀ xs c, kvs.lookup (lit "claims") = some (.arr xs) → c ∈ xs →
      ∃ ys out', SameElems xs (c :: ys) ∧
        evaluate R C (.obj (setKey (lit "claims") (.arr (c :: ys)) kvs)) = .ok out') :
    ProofsSettled R C (.obj kvs) := by
  intro p s byHash dseq hp hf hs hread c hc hlower
  obtain ⟨hcl, -, test, xs, valid, hxs, hvalid, hsort, hobj, -⟩ := slotOf_spec R C hs
  have hcv : c ∈ valid := by rwa [hsort, (perm_sortClaims ..).mem_iff] at hc
  obtain ⟨hmem, htest⟩ := (mem_filterE hvalid).mp hcv
  obtain ⟨fields, rfl⟩ := hobj c htest
  rw [hcl] at hxs
  have hlook := lookup_of_mem hxs hmem
  obtain ⟨ys, out', hsame, hout'⟩ := hfirst xs _ hlook hmem
  have hframe : SameFrame kvs (setKey (lit "claims") (.arr (.obj fields :: ys)) kvs) :=
    fun k hk _ _ => (lookup_setKey_ne hk _ _).symm
  exact claimSeq_of_first R C hframe hlook (lookup_setKey_self _ _ _) hsame hp hf hs hread hc hlower
    (orderingReturns_of_evaluate R C hout')

/-- Where each terminal can be put first without another eligibility, all give it. -/
theorem scopesGive_of_first (hH : CanonInjective R) {kvs : List (Str × Json)} {v : Bool}
    (hfirst : ∀ xs u, kvs.lookup (lit "terminals") = some (.arr xs) → u ∈ xs →
      ∃ ys out', SameElems xs (u :: ys) ∧
        evaluate R C (.obj (setKey (lit "terminals") (.arr (u :: ys)) kvs)) = .ok out' ∧
        out'.eligible = v)
    {p : Parts} {s : Slot} {order : Term} {w : WalkResult} {c t status : Json}
    (hc : Counted R C (.obj kvs) p s order w c t status) : ScopesGive R C p s order w c v := by
  intro bound ts hb hts u hu
  obtain ⟨crh, hcrh, hts'⟩ := bind_ok.mp hts
  obtain ⟨xs, hxs, hts'⟩ := bind_ok.mp hts'
  obtain ⟨hmem, htest⟩ := (mem_filterE hts').mp hu
  obtain ⟨fields, rfl⟩ : ∃ fields, u = .obj fields := by
    obtain ⟨receipt, hreceipt, -⟩ := bind_ok.mp htest
    cases u with
    | obj fields => exact ⟨fields, rfl⟩
    | _ => cases hreceipt
  obtain ⟨-, hterms, -⟩ := slotOf_spec R C hc.slot
  rw [hterms] at hxs
  have hlook := lookup_of_mem hxs hmem
  obtain ⟨ys, out', hsame, hout', rfl⟩ := hfirst xs _ hlook hmem
  have hframe : SameFrame kvs (setKey (lit "terminals") (.arr (.obj fields :: ys)) kvs) :=
    fun k _ hk _ => (lookup_setKey_ne hk _ _).symm
  have hclaims : kvs.lookup (lit "claims") =
      (setKey (lit "terminals") (.arr (.obj fields :: ys)) kvs).lookup (lit "claims") :=
    (lookup_setKey_ne (by decide) _ _).symm
  exact eligible_of_first R C hH hframe hclaims hlook (lookup_setKey_self _ _ _) hsame hc hb hts hu
    hout'

/-! ## Another order -/

/-- The package with its claims, its terminals or both in another order. -/
def Reordered (pkg pkg' : Json) : Prop :=
  ∃ kvs kvs', pkg = .obj kvs ∧ pkg' = .obj kvs' ∧
    (∀ k, k ≠ lit "claims" → k ≠ lit "terminals" → kvs.lookup k = kvs'.lookup k) ∧
    FieldRel List.Perm (lit "claims") kvs kvs' ∧ FieldRel List.Perm (lit "terminals") kvs kvs'

/-- The order of the records does not matter. -/
structure OrderFree (pkg : Json) : Prop where
  proofs : ProofsSettled R C pkg
  scopes : ∀ p s order w c t status, Counted R C pkg p s order w c t status →
    ∃ v, ScopesGive R C p s order w c v

/-- **When the order of the records does not matter.** A package has one outcome
in every order of its claims and terminals exactly when the terminals of the
counted claim give one eligibility, and no ordering proof that can be read
raises. -/
theorem sameOutcome_reordered_iff (hH : CanonInjective R) {pkg : Json} {out : Evaluation}
    (hout : evaluate R C pkg = .ok out) :
    (∀ pkg', Reordered pkg pkg' → ∃ out', evaluate R C pkg' = .ok out' ∧ SameOutcome out out') ↔
      OrderFree R C pkg := by
  constructor
  · intro hall
    obtain ⟨kvs, rfl⟩ : ∃ kvs, pkg = .obj kvs := by
      cases pkg with
      | obj kvs => exact ⟨kvs, rfl⟩
      | _ => cases hout
    refine ⟨proofsSettled_of_first R C fun xs c hxs hc => ?_,
      fun p s order w c t status hc => ⟨out.eligible, ?_⟩⟩
    · have hperm : xs.Perm (c :: xs.erase c) := List.perm_cons_erase hc
      obtain ⟨out', hout', -⟩ := hall _ ⟨kvs, _, rfl, rfl,
        fun k hk _ => (lookup_setKey_ne hk _ _).symm,
        .inr ⟨xs, _, hxs, lookup_setKey_self _ _ _, hperm⟩,
        .inl (lookup_setKey_ne (by decide) _ _).symm⟩
      exact ⟨xs.erase c, out', fun x => hperm.mem_iff, hout'⟩
    · refine scopesGive_of_first R C hH (fun xs u hxs hu => ?_) hc
      have hperm : xs.Perm (u :: xs.erase u) := List.perm_cons_erase hu
      obtain ⟨out', hout', hsame⟩ := hall _ ⟨kvs, _, rfl, rfl,
        fun k _ hk => (lookup_setKey_ne hk _ _).symm,
        .inl (lookup_setKey_ne (by decide) _ _).symm,
        .inr ⟨xs, _, hxs, lookup_setKey_self _ _ _, hperm⟩⟩
      exact ⟨xs.erase u, out', fun x => hperm.mem_iff, hout', hsame.eligible.symm⟩
  · rintro ⟨hproofs, hscopes⟩ pkg' ⟨kvs, kvs', rfl, rfl, hother, hclaims, hterminals⟩
    have hrecords : SameRecords kvs kvs' := by
      refine ⟨fun k hk ht _ => hother k hk ht, hclaims.mono ?_, hterminals.mono ?_,
        .inl (hother _ (by decide) (by decide))⟩
      · exact fun xs ys h x => h.mem_iff
      · exact fun xs ys h x => h.mem_iff
    refine sameOutcome_of_sameRecords R C hH hrecords hout hproofs ?_
    intro p s s' order w w' c c' t t' status status' bound covered hc hc' halike hsel hcc' hb hcov
      heligible ⟨ts, hts, ht'⟩
    obtain ⟨v, hgives⟩ := hscopes p s order w c t status hc
    obtain ⟨-, ts₀, hts₀, hhead⟩ := hc.first R C hH
    obtain rfl := Except.ok.inj (hts₀.symm.trans hts)
    have hv : v = out.eligible := by
      have ht := hgives bound _ hb hts t (List.mem_of_mem_head? hhead)
      rw [hcov] at ht
      exact (Except.ok.inj ht).symm.trans heligible.symm
    -- as many claims are not below the counted attempt, so the other terms agree
    have hcount := hsel.countP_eq (fun xs ys hxs hys => by
      obtain ⟨hcl, -⟩ := slotOf_spec R C hc.slot
      obtain ⟨hcl', -⟩ := slotOf_spec R C hc'.slot
      exact hclaims.iter_rel List.Perm.refl (hcl ▸ hxs) (hcl' ▸ hys))
      fun x => decide (s.attempt c ≤ s.attempt x)
    have hviol : w'.retryViolation = w.retryViolation := by
      rw [Bool.eq_iff_iff, hc'.violation_iff R C hH, hc.violation_iff R C hH, hcount,
        halike.attempt]
      rw [Slot.attempt, Slot.attempt, attemptId_sameValue hcc']
    have hothers : othersHold s' order w' bound = othersHold s order w bound := by
      unfold othersHold
      rw [hviol, halike.derivedOk]
    rw [hothers, ← hv]
    exact hgives bound _ hb hts t' ht'

/-- Packages of which the first alone is eligible do not have one outcome. -/
theorem not_sameOutcome {pkg pkg' : Json} {out : Evaluation} (hout : evaluate R C pkg = .ok out)
    (he : (evaluate R C pkg).map (·.eligible) = .ok true)
    (he' : (evaluate R C pkg').map (·.eligible) = .ok false) :
    ¬ ∃ out', evaluate R C pkg' = .ok out' ∧ SameOutcome out out' := by
  intro hsame
  obtain ⟨out', hout', hsame⟩ := hsame
  rw [hout] at he
  rw [hout'] at he'
  have heq : true = false := calc
    true = out.eligible := (Except.ok.inj he).symm
    _ = out'.eligible := hsame.eligible
    _ = false := Except.ok.inj he'
  cases heq

/-- The package with another value in a field. -/
def withField (k : String) (v : Json) : Json → Json
  | .obj kvs => .obj (setKey (lit k) v kvs)
  | j => j

/-- The manifest that also requires the scope `s`. -/
def scopedManifest : Json := object
  [("acquisition", sampleManifest.find (lit "acquisition")),
    ("requirements", .arr [object
      [("requirement_id", text "q"), ("judge_id", text "j"), ("request", text "r"),
        ("required_scope", .arr [text "s"])]])]

/-- The terminal of the one claim, with an observed scope. -/
def scopedTerminal (scope : List Json) : List (String × Json) :=
  ("observed_scope", .arr scope) :: terminalFields 0 "RESULT"

/-- The package with one claim, and a terminal for each of the scopes. -/
def scopedPackage (scopes : List (List Json)) : Json :=
  withField "terminals" (.arr (scopes.map fun scope => attested (scopedTerminal scope)))
    (withField "manifest" scopedManifest (samplePackage [(0, "RESULT")]))

/-- The sample runtime with a hash that labels what this package hashes. -/
def scopedRuntime : Runtime :=
  { Runtime.sample with
    sha256 := exchange (((scopedManifest, 0) :: (object (scopedTerminal [text "s"]), 40) ::
        (object (scopedTerminal []), 41) :: (labelled [(0, "RESULT")]).tail).map fun t =>
      (utf8Bytes (Runtime.sample.canonText t.1), List.replicate 32 t.2)) }

theorem scopedRuntime_canonInjective : CanonInjective scopedRuntime :=
  canonInjective_of_injective _ (exchange_injective _) (Runtime.floatToken_lawful _)

theorem evaluate_scoped :
    (evaluate scopedRuntime .onePoint (scopedPackage [[text "s"], []])).map (·.eligible) = .ok true ∧
    (evaluate scopedRuntime .onePoint (scopedPackage [[], [text "s"]])).map (·.eligible) =
      .ok false := by
  constructor <;> decide +kernel

theorem reordered_setTerminals (kvs : List (Str × Json)) {xs ys : List Json} (h : xs.Perm ys) :
    Reordered (.obj (setKey (lit "terminals") (.arr xs) kvs))
      (.obj (setKey (lit "terminals") (.arr ys) kvs)) := by
  have hother {k : Str} (hk : k ≠ lit "terminals") :
      (setKey (lit "terminals") (.arr xs) kvs).lookup k =
        (setKey (lit "terminals") (.arr ys) kvs).lookup k := by
    rw [lookup_setKey_ne hk, lookup_setKey_ne hk]
  exact ⟨_, _, rfl, rfl, fun k _ hk => hother hk, .inl (hother (by decide)),
    .inr ⟨xs, ys, lookup_setKey_self _ _ _, lookup_setKey_self _ _ _, h⟩⟩

theorem scopedPackage_reordered :
    Reordered (scopedPackage [[text "s"], []]) (scopedPackage [[], [text "s"]]) :=
  reordered_setTerminals _ (List.Perm.swap _ _ _)

/-- Of two terminals that agree on status and output, the first decides on the scope. -/
theorem sameOutcome_reordered_false :
    ¬ ∀ (R : Runtime) (C : Secp) (pkg pkg' : Json) (out : Evaluation), CanonInjective R →
      evaluate R C pkg = .ok out → Reordered pkg pkg' →
      ∃ out', evaluate R C pkg' = .ok out' ∧ SameOutcome out out' := by
  intro hall
  obtain ⟨hwide, hnarrow⟩ := evaluate_scoped
  obtain ⟨out, hout, -⟩ := map_ok.mp hwide
  have hsame := hall _ _ _ _ out scopedRuntime_canonInjective hout scopedPackage_reordered
  exact not_sameOutcome _ _ hout hwide hnarrow hsame

/-- The condition fails of the package with these two terminals. -/
theorem scopedPackage_not_orderFree :
    ¬ OrderFree scopedRuntime .onePoint (scopedPackage [[text "s"], []]) := by
  intro hfree
  obtain ⟨hwide, hnarrow⟩ := evaluate_scoped
  obtain ⟨out, hout, -⟩ := map_ok.mp hwide
  have hsame := (sameOutcome_reordered_iff _ _ scopedRuntime_canonInjective hout).mpr hfree _
    scopedPackage_reordered
  exact not_sameOutcome _ _ hout hwide hnarrow hsame

/-! ## A record more than once -/

/-- One record of the list stands in it once more. -/
def RepeatsOne (xs ys : List Json) : Prop :=
  ∃ l r x, xs = l ++ r ∧ x ∈ xs ∧ ys = l ++ x :: r

theorem RepeatsOne.sameElems {xs ys : List Json} (h : RepeatsOne xs ys) : SameElems xs ys := by
  obtain ⟨l, r, x, rfl, hx, rfl⟩ := h
  intro y
  rw [List.mem_append, List.mem_append, List.mem_cons]
  constructor
  · rintro (hy | hy)
    · exact Or.inl hy
    · exact Or.inr (Or.inr hy)
  · rintro (hy | rfl | hy)
    · exact Or.inl hy
    · exact List.mem_append.mp hx
    · exact Or.inr hy

theorem RepeatsOne.subperm {xs ys : List Json} (h : RepeatsOne xs ys) : xs.Subperm ys := by
  obtain ⟨l, r, x, rfl, -, rfl⟩ := h
  exact ((List.sublist_cons_self x r).append_left l).subperm

/-- The package with one claim, terminal or submission record delivered once more. -/
def Repeats (pkg pkg' : Json) : Prop :=
  ∃ kvs kvs' k xs ys, pkg = .obj kvs ∧ pkg' = .obj kvs' ∧
    (k = lit "claims" ∨ k = lit "terminals" ∨ k = lit "submission_commitments") ∧
    kvs.lookup k = some (.arr xs) ∧ kvs'.lookup k = some (.arr ys) ∧ RepeatsOne xs ys ∧
    ∀ j, j ≠ k → kvs.lookup j = kvs'.lookup j

/-- Every field is the same, or a list of which one record is there once more. -/
theorem Repeats.fieldRel {pkg pkg' : Json} (h : Repeats pkg pkg') : ∃ kvs kvs',
    pkg = .obj kvs ∧ pkg' = .obj kvs' ∧ SameFrame kvs kvs' ∧ ∀ k, FieldRel RepeatsOne k kvs kvs' := by
  obtain ⟨kvs, kvs', k, xs, ys, rfl, rfl, hk, hxs, hys, hrep, hother⟩ := h
  refine ⟨kvs, kvs', rfl, rfl, fun j hc ht hs => hother j ?_, fun j => ?_⟩
  · rintro rfl
    rcases hk with hk | hk | hk
    · exact hc hk
    · exact ht hk
    · exact hs hk
  · by_cases hj : j = k
    · exact Or.inr ⟨xs, ys, hj ▸ hxs, hj ▸ hys, hrep⟩
    · exact Or.inl (hother j hj)

/-- The repetition of a record does not matter. -/
structure RepetitionFree (pkg : Json) : Prop where
  proofs : ProofsSettled R C pkg
  scopes : ∀ p s order w c t status, Counted R C pkg p s order w c t status →
    ScopesGive R C p s order w c false

/-- The counted claim delivered twice makes the run ineligible: its second copy is
taken for a retry. -/
theorem not_eligible_of_repeated (hH : CanonInjective R) {kvs : List (Str × Json)} {p : Parts}
    {s : Slot} {order : Term} {w : WalkResult} {c t status : Json}
    (hc : Counted R C (.obj kvs) p s order w c t status) {xs : List Json}
    (hxs : kvs.lookup (lit "claims") = some (.arr xs)) (hcx : c ∈ xs) {out' : Evaluation}
    (hout' : evaluate R C (.obj (setKey (lit "claims") (.arr (c :: xs)) kvs)) = .ok out') :
    out'.eligible = false := by
  have hframe : SameFrame kvs (setKey (lit "claims") (.arr (c :: xs)) kvs) :=
    fun k hk _ _ => (lookup_setKey_ne hk _ _).symm
  have hsame : SameElems xs (c :: xs) := RepeatsOne.sameElems ⟨[], xs, c, rfl, hcx, rfl⟩
  have hrecords : SameRecords kvs (setKey (lit "claims") (.arr (c :: xs)) kvs) :=
    ⟨hframe, .inr ⟨xs, _, hxs, lookup_setKey_self _ _ _, hsame⟩,
      .inl (lookup_setKey_ne (by decide) _ _).symm, .inl (lookup_setKey_ne (by decide) _ _).symm⟩
  obtain ⟨s', hs', halike, q, xs', ys', hxs', hys', hsort, hsort'⟩ :=
    slotOf_sameRecords R C hrecords hc.slot
  obtain ⟨w', c', t', status', hc', hcc', -⟩ := hc.transfer R C hH hframe hs' halike
  obtain ⟨hcl, -⟩ := slotOf_spec R C hc.slot
  obtain ⟨hcl', -⟩ := slotOf_spec R C hs'
  rw [hcl, records, hxs, Option.getD_some] at hxs'
  rw [hcl', records, lookup_setKey_self, Option.getD_some] at hys'
  obtain rfl := Except.ok.inj hxs'
  obtain rfl := Except.ok.inj hys'
  -- the claim passes the selection, so it is there twice
  have hmem := (hc.first R C hH).1
  rw [hsort, (perm_sortClaims ..).mem_iff, List.mem_filter] at hmem
  have htwice : 1 < s'.validClaims.countP fun x => decide (s'.attempt c' ≤ s'.attempt x) := by
    have hattempt : s.attempt c' = s.attempt c := by
      rw [Slot.attempt, Slot.attempt, attemptId_sameValue hcc']
    rw [halike.attempt, hattempt, hsort', (perm_sortClaims ..).countP_eq, List.filter_cons,
      if_pos hmem.2, List.countP_cons, if_pos (by simp)]
    refine Nat.succ_lt_succ (List.countP_pos_iff.mpr ⟨c, List.mem_filter.mpr hmem, ?_⟩)
    simp
  have hviol := (hc'.violation_iff R C hH).mpr htwice
  obtain ⟨bound, covered, reasons, evidence, -, -, rfl⟩ := hc'.spec R C hH hout'
  change (chosenTerms _ _ _).eligible = false
  rw [chosenTerms_eligible, othersHold, hviol]
  simp

/-- **When the repetition of a record does not matter.** A package has one outcome
however often one of its records is there exactly when no terminal of the
counted claim makes the run eligible, and no ordering proof that can be read
raises. -/
theorem sameOutcome_repeats_iff (hH : CanonInjective R) {pkg : Json} {out : Evaluation}
    (hout : evaluate R C pkg = .ok out) :
    (∀ pkg', Repeats pkg pkg' → ∃ out', evaluate R C pkg' = .ok out' ∧ SameOutcome out out') ↔
      RepetitionFree R C pkg := by
  constructor
  · intro hall
    obtain ⟨kvs, rfl⟩ : ∃ kvs, pkg = .obj kvs := by
      cases pkg with
      | obj kvs => exact ⟨kvs, rfl⟩
      | _ => cases hout
    have hfirst (k : Str) (hk : k = lit "claims" ∨ k = lit "terminals" ∨
        k = lit "submission_commitments") (xs : List Json) (x : Json)
        (hxs : kvs.lookup k = some (.arr xs)) (hx : x ∈ xs) : ∃ out',
        evaluate R C (.obj (setKey k (.arr (x :: xs)) kvs)) = .ok out' ∧ SameOutcome out out' :=
      hall _ ⟨kvs, _, k, xs, _, rfl, rfl, hk, hxs, lookup_setKey_self _ _ _,
        ⟨[], xs, x, rfl, hx, rfl⟩, fun j hj => (lookup_setKey_ne hj _ _).symm⟩
    have hsame {xs : List Json} {x : Json} (hx : x ∈ xs) : SameElems xs (x :: xs) :=
      RepeatsOne.sameElems ⟨[], xs, x, rfl, hx, rfl⟩
    refine ⟨proofsSettled_of_first R C fun xs c hxs hc => ?_,
      fun p s order w c t status hc => ?_⟩
    · obtain ⟨out', hout', -⟩ := hfirst _ (.inl rfl) xs c hxs hc
      exact ⟨xs, out', hsame hc, hout'⟩
    · have hnot : out.eligible = false := by
        obtain ⟨hcl, -, test, xs, valid, hxs, hvalid, hsort, hobj, -⟩ := slotOf_spec R C hc.slot
        have hmem := (hc.first R C hH).1
        rw [hsort, (perm_sortClaims ..).mem_iff, mem_filterE hvalid] at hmem
        obtain ⟨fields, rfl⟩ := hobj c hmem.2
        have hlook := lookup_of_mem (hcl ▸ hxs) hmem.1
        obtain ⟨out', hout', hoo'⟩ := hfirst _ (.inl rfl) xs _ hlook hmem.1
        rw [hoo'.eligible]
        exact not_eligible_of_repeated R C hH hc hlook hmem.1 hout'
      refine scopesGive_of_first R C hH (fun xs u hxs hu => ?_) hc
      obtain ⟨out', hout', hoo'⟩ := hfirst _ (.inr (.inl rfl)) xs u hxs hu
      exact ⟨xs, out', hsame hu, hout', hoo'.eligible ▸ hnot⟩
  · rintro ⟨hproofs, hscopes⟩ pkg' hrep
    obtain ⟨kvs, kvs', rfl, rfl, hframe, hfield⟩ := hrep.fieldRel
    have hrecords : SameRecords kvs kvs' :=
      ⟨hframe, (hfield _).mono fun _ _ h => h.sameElems, (hfield _).mono fun _ _ h => h.sameElems,
        (hfield _).mono fun _ _ h => h.sameElems⟩
    refine sameOutcome_of_sameRecords R C hH hrecords hout hproofs ?_
    intro p s s' order w w' c c' t t' status status' bound covered hc hc' halike hsel hcc' hb hcov
      heligible ⟨ts, hts, ht'⟩
    have hgives := hscopes p s order w c t status hc bound ts hb hts
    obtain ⟨-, ts₀, hts₀, hhead⟩ := hc.first R C hH
    obtain rfl := Except.ok.inj (hts₀.symm.trans hts)
    have hv : out.eligible = false := by
      have ht := hgives t (List.mem_of_mem_head? hhead)
      rw [hcov] at ht
      exact heligible.trans (Except.ok.inj ht)
    -- no fewer claims are not below the counted attempt, so a violation stays one
    have hcount := hsel.countP_le (fun xs ys hxs hys => by
      obtain ⟨hcl, -⟩ := slotOf_spec R C hc.slot
      obtain ⟨hcl', -⟩ := slotOf_spec R C hc'.slot
      have hsub : FieldRel List.Subperm (lit "claims") kvs kvs' :=
        (hfield _).mono fun _ _ h => h.subperm
      exact hsub.iter_rel List.Subperm.refl (hcl ▸ hxs) (hcl' ▸ hys))
      fun x => decide (s.attempt c ≤ s.attempt x)
    have hviol : w.retryViolation = true → w'.retryViolation = true := by
      rw [hc'.violation_iff R C hH, hc.violation_iff R C hH, halike.attempt]
      have hattempt : s.attempt c' = s.attempt c := by
        rw [Slot.attempt, Slot.attempt, attemptId_sameValue hcc']
      rw [hattempt]
      exact fun h => h.trans_le hcount
    have hothers : othersHold s' order w' bound = true → othersHold s order w bound = true := by
      unfold othersHold
      rw [halike.derivedOk]
      cases hw : w.retryViolation with
      | false => cases w'.retryViolation <;> simp
      | true =>
        rw [hviol hw]
        simp
    obtain ⟨covered', hcov', hfalse⟩ := map_ok.mp (hgives t' ht')
    rw [hcov', hv]
    refine congrArg Except.ok ?_
    cases ho : othersHold s' order w' bound with
    | false => rfl
    | true =>
      rw [hothers ho] at hfalse
      exact hfalse

/-- One attempt with a result. -/
def onceOnly : List (UInt8 × String) := [(0, "RESULT")]

/-- The package with its one claim, once more for each `n`. -/
def repeatedClaim (n : Nat) : Json :=
  withField "claims" (.arr (List.replicate (n + 1) (attested (claimFields 0 0))))
    (samplePackage onceOnly)

theorem evaluate_repeatedClaim :
    (evaluate (labelRuntime onceOnly) .onePoint (repeatedClaim 0)).map (·.eligible) = .ok true ∧
    (evaluate (labelRuntime onceOnly) .onePoint (repeatedClaim 1)).map (·.eligible) =
      .ok false := by
  constructor <;> decide +kernel

theorem repeatedClaim_repeats : Repeats (repeatedClaim 0) (repeatedClaim 1) := by
  refine ⟨_, _, lit "claims", _, _, rfl, rfl, .inl rfl, lookup_setKey_self _ _ _,
    lookup_setKey_self _ _ _, ⟨[], [attested (claimFields 0 0)], attested (claimFields 0 0), rfl,
      List.mem_singleton_self _, rfl⟩, fun j hj => ?_⟩
  rw [lookup_setKey_ne hj, lookup_setKey_ne hj]

/-- A second copy of the counted claim takes the run's eligibility. -/
theorem sameOutcome_repeats_false :
    ¬ ∀ (R : Runtime) (C : Secp) (pkg pkg' : Json) (out : Evaluation), CanonInjective R →
      evaluate R C pkg = .ok out → Repeats pkg pkg' →
      ∃ out', evaluate R C pkg' = .ok out' ∧ SameOutcome out out' := by
  intro hall
  obtain ⟨honce, htwice⟩ := evaluate_repeatedClaim
  obtain ⟨out, hout, -⟩ := map_ok.mp honce
  have hsame := hall _ _ _ _ out (labelRuntime_canonInjective onceOnly) hout repeatedClaim_repeats
  exact not_sameOutcome _ _ hout honce htwice hsame

/-- The condition fails of the package with one claim and a result. -/
theorem repeatedClaim_not_repetitionFree :
    ¬ RepetitionFree (labelRuntime onceOnly) .onePoint (repeatedClaim 0) := by
  intro hfree
  obtain ⟨honce, htwice⟩ := evaluate_repeatedClaim
  obtain ⟨out, hout, -⟩ := map_ok.mp honce
  have hsame := (sameOutcome_repeats_iff _ _ (labelRuntime_canonInjective onceOnly) hout).mpr
    hfree _ repeatedClaim_repeats
  exact not_sameOutcome _ _ hout honce htwice hsame

end Preaction.ProcedureManifest
