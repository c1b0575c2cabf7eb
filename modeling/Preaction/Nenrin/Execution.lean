import Preaction.Nenrin.Verify

/-!
# What an accepted execution pair says

Several receipts may name one grant. The procedure checks the first of them
against the grant in one place, the signed others in a loop, drops those whose
canonical bytes it has seen, and reconciles what is left. `accepted_receipts`
puts the parts together: in an accepted bundle every receipt that the grant's
provider signed for the grant, dropped duplicates included, has the one
`receipt_id`, the granted action and a time inside the window.

The argument for a single receipt is `Execution.pairCheck_of_byProvider`: whichever
loop looked at it, it went through `pair_check`. A dropped duplicate is `Same` as
one that was kept, and everything claimed is a question `Same` records answer alike.
-/

namespace Preaction.Nenrin

open Preaction.Py Report

variable {R : Runtime}

/-! ## Specifications of the loops -/

theorem mem_of_mem_dropSeen {seen : List Bytes} {xs : List Record} {y : Record}
    (h : y ∈ dropSeen seen xs) : y ∈ xs := by
  induction xs generalizing seen with
  | nil => cases h
  | cons x xs ih =>
    simp only [dropSeen] at h
    split at h
    · split at h
      · exact List.mem_cons_of_mem _ (ih h)
      · exact (List.mem_cons.mp h).elim (fun e => e ▸ List.mem_cons_self ..)
          fun h => List.mem_cons_of_mem _ (ih h)
    · exact (List.mem_cons.mp h).elim (fun e => e ▸ List.mem_cons_self ..)
        fun h => List.mem_cons_of_mem _ (ih h)

/-- A receipt is kept, or its canonical bytes were seen before. -/
theorem seen_or_kept {seen : List Bytes} {xs : List Record} {x : Record} (hx : x ∈ xs) :
    (∃ cb ∈ seen, tryCanonical (.obj x) = some cb) ∨
      ∃ y ∈ dropSeen seen xs, Same (.obj y) (.obj x) := by
  induction xs generalizing seen with
  | nil => cases hx
  | cons z xs ih =>
    simp only [dropSeen]
    cases hcb : tryCanonical (.obj z) with
    | none =>
      rcases List.mem_cons.mp hx with rfl | hx
      · exact Or.inr ⟨x, List.mem_cons_self .., rfl⟩
      · exact (ih hx).imp_right fun ⟨y, hy, hs⟩ => ⟨y, List.mem_cons_of_mem _ hy, hs⟩
    | some cb =>
      by_cases hseen : seen.contains cb = true
      · simp only [hseen, if_true]
        rcases List.mem_cons.mp hx with rfl | hx
        · exact Or.inl ⟨cb, List.contains_iff_mem.mp hseen, hcb⟩
        · exact ih hx
      · simp only [hseen, Bool.false_eq_true, if_false]
        rcases List.mem_cons.mp hx with rfl | hx
        · exact Or.inr ⟨x, List.mem_cons_self .., rfl⟩
        · rcases @ih (seen ++ [cb]) hx with ⟨c, hc, hxc⟩ | ⟨y, hy, hs⟩
          · rcases List.mem_append.mp hc with hc | hc
            · exact Or.inl ⟨c, hc, hxc⟩
            · -- the bytes of `z` itself, which is kept
              obtain rfl := List.mem_singleton.mp hc
              exact Or.inr ⟨z, List.mem_cons_self .., same_of_tryCanonical hcb hxc⟩
          · exact Or.inr ⟨y, List.mem_cons_of_mem _ hy, hs⟩

/-- Every receipt object has a record of the receipt set that is the same. -/
theorem exists_same_of_mem_cands {bundle x : Record} (hx : x ∈ cands bundle) :
    ∃ y ∈ receiptSet bundle, Same (.obj y) (.obj x) := by
  rcases @seen_or_kept [] _ x hx with ⟨_, h, _⟩ | h
  · cases h
  · exact h

theorem mem_authorized {sigs : Bool} {grant : Record} {gp : Json} {ids : List Json}
    {xs : List Record} {y : Record} (h : y ∈ authorized R sigs grant gp ids xs) :
    y ∈ xs ∧ counts R sigs grant gp y = true := by
  induction xs generalizing ids with
  | nil => cases h
  | cons x xs ih =>
    simp only [authorized] at h
    split at h
    next hc =>
      rcases List.mem_cons.mp h with rfl | h
      · exact ⟨List.mem_cons_self .., (Bool.and_eq_true _ _ ▸ hc).1⟩
      · exact (ih h).imp_left (List.mem_cons_of_mem _)
    next => exact (ih h).imp_left (List.mem_cons_of_mem _)

/-- A receipt that counts has its id among those already seen, or an authorized
receipt of that id is kept. -/
theorem counted {sigs : Bool} {grant : Record} {gp : Json} {ids : List Json}
    {xs : List Record} {x : Record} (hx : x ∈ xs) (hc : counts R sigs grant gp x = true) :
    Json.pyIn (getField x "receipt_id") ids = true ∨ ∃ y ∈ authorized R sigs grant gp ids xs,
      Json.pySame (getField x "receipt_id") (getField y "receipt_id") = true := by
  induction xs generalizing ids with
  | nil => cases hx
  | cons z xs ih =>
    simp only [authorized]
    rcases List.mem_cons.mp hx with rfl | hx
    · by_cases hin : Json.pyIn (getField x "receipt_id") ids = true
      · exact Or.inl hin
      · rw [if_pos (by simp [hc, hin])]
        exact Or.inr ⟨x, List.mem_cons_self .., Json.pySame_refl _⟩
    · split
      next hz =>
        rcases @ih (ids ++ [getField z "receipt_id"]) hx with h | ⟨y, hy, hs⟩
        · rw [Json.pyIn, List.any_append, Bool.or_eq_true] at h
          refine h.imp_right fun h => ⟨z, List.mem_cons_self .., ?_⟩
          simpa using h
        · exact Or.inr ⟨y, List.mem_cons_of_mem _ hy, hs⟩
      next => exact ih hx

/-! ## What a passed check says -/

/-- The instant lies in the grant's window, each bound null or an instant. -/
structure InGrantWindow (grant : Record) (t : Instant) : Prop where
  start : getField grant "not_before" = .null ∨
    ∃ nb, instant (getField grant "not_before") = some nb ∧ nb.le t = true
  stop : getField grant "not_after" = .null ∨
    ∃ na, instant (getField grant "not_after") = some na ∧ t.le na = true

theorem inWindow_iff {grant : Record} {t : Instant} :
    inWindow grant t = true ↔ InGrantWindow grant t := by
  simp only [inWindow, Bool.and_eq_true, Bool.or_eq_true, beq_iff_eq, Option.any_eq_true]
  exact ⟨fun h => ⟨h.1, h.2⟩, fun h => ⟨h.1, h.2⟩⟩

/-- The pair went through every guard of the check. -/
structure Bound.Passes (R : Runtime) (b : Bound) (grant rec : Record) : Prop where
  grantRef : ∃ gref, rid R grant .grant = some gref ∧
    grant.lookup (lit "grant_ref") = some (.str gref) ∧
    rec.lookup (lit "grant_ref") = some (.str gref)
  recomputed : recomputes R rec b.kind b.idField = true
  time : ∃ t, instant (getField rec b.atField) = some t ∧ InGrantWindow grant t
  provider : providerRefuses grant rec = false
  action : actionsEqual (grant.lookup (lit "action")) (rec.lookup (lit b.actionField)) = true

theorem checkAgainstGrant_none {b : Bound} {binding : Option Reason} {grant rec : Record}
    (h : (checkAgainstGrant R b binding grant rec).1 = none) : b.Passes R grant rec := by
  unfold checkAgainstGrant at h
  split at h
  next => cases h
  next gref hrid =>
  split at h
  next => cases h
  next hg =>
  split at h
  next => cases h
  next hrec =>
  split at h
  next => cases h
  next =>
  split at h
  next => cases h
  next hunbound =>
  split at h
  next => cases h
  next t ht =>
  split at h
  next => cases h
  next =>
  split at h
  next => cases h
  next hprov =>
  split at h
  next => cases h
  next hwin =>
  have hact : actionsEqual (grant.lookup (lit "action")) (rec.lookup (lit b.actionField)) = true := by
    by_contra hne
    rw [if_neg hne] at h
    cases h
  exact {
    grantRef := ⟨gref, hrid, not_not.mp hg, not_not.mp hunbound⟩
    recomputed := by simpa using hrec
    time := ⟨t, ht, inWindow_iff.mp (by simpa using hwin)⟩
    provider := by simpa using hprov
    action := hact }

/-! ## An accepted execution step -/

/-- A receipt of the grant by the grant's provider: it names the grant, its id
recomputes, it names the provider and carries the provider's signature. -/
structure ByProvider (R : Runtime) (grant x : Record) : Prop where
  namesGrant : Json.pyEq? (x.lookup (lit "grant_ref")) (grant.lookup (lit "grant_ref")) = true
  namesProvider :
    Json.pyEq? (x.lookup (lit "provider_id")) (some (getField grant "provider_id")) = true
  recomputed : recomputes R x .receipt "receipt_id" = true
  signed : sigVerifies R (getField grant "provider_id") (getField x "provider_sig")
    (preimage x .receipt) = true

theorem counts_iff {grant x : Record} :
    counts R true grant (getField grant "provider_id") x = true ↔ ByProvider R grant x := by
  simp only [counts, Bool.and_eq_true, Bool.not_true, Bool.false_or]
  exact ⟨fun h => ⟨h.1.1.1, h.1.1.2, h.1.2, h.2⟩, fun h => ⟨⟨⟨h.1, h.2⟩, h.3⟩, h.4⟩⟩

theorem pyEq?_str {a : Option Json} {s : Str} :
    Json.pyEq? a (some (.str s)) = true ↔ a = some (.str s) := by
  cases a with
  | none => simp [Json.pyEq?]
  | some a => rw [Json.pyEq?, Json.pyEq_str, Option.some.injEq]

/-- The provider a signed receipt names is the one that signed it. -/
theorem ByProvider.providerSigned {grant x : Record} (h : ByProvider R grant x) :
    Nenrin.providerSigned R x = true := by
  obtain ⟨⟨s, hs⟩, -⟩ := str_of_sigVerifies h.signed
  have hx := h.namesProvider
  rw [hs, pyEq?_str] at hx
  rw [Nenrin.providerSigned, getField_of_lookup hx, ← hs]
  exact h.signed

/-- A record that is the same as a receipt by the provider is one too. -/
theorem ByProvider.of_same {grant x y : Record} (h : ByProvider R grant x) {gref : Str}
    (hg : grant.lookup (lit "grant_ref") = some (.str gref)) (hs : Same (.obj x) (.obj y)) :
    ByProvider R grant y := by
  obtain ⟨⟨p, hp⟩, -⟩ := str_of_sigVerifies h.signed
  have hgrant := h.namesGrant
  have hprov := h.namesProvider
  rw [hg, pyEq?_str] at hgrant
  rw [hp, pyEq?_str] at hprov
  refine ⟨?_, ?_, hs.recomputes h.recomputed, hs.sigVerifies h.signed⟩
  · rw [hg, pyEq?_str]
    exact hs.lookup_str hgrant
  · rw [hp, pyEq?_str]
    exact hs.lookup_str hprov

/-- An execution step that refuses nothing, with signatures required. -/
structure Execution (R : Runtime) (grant primary : Record) (rest : List Record) : Prop where
  primaryChecked : (pairCheck R grant primary).1 = none
  caller : callerSigned R grant = true
  othersChecked : ∀ x ∈ rest, providerSigned R x = true → (pairCheck R grant x).1 = none
  reconciled : ∃ y, authorized R true grant (getField grant "provider_id") []
    (primary :: rest) = [y]

theorem reconcile_accepted {sigs : Bool} {grant : Record} {rset : List Record}
    (h : (reconcile R sigs grant rset).1.Accepted) :
    ∃ y, authorized R sigs grant (getField grant "provider_id") [] rset = [y] := by
  simp only [reconcile] at h
  split at h
  next => cases h
  next =>
    split at h
    next => cases h
    next y hy => exact ⟨y, hy⟩
    next => cases h

theorem executionPair_accepted {grant primary : Record} {rest : List Record}
    (h : (executionPair R true grant primary rest).1.Accepted) :
    Execution R grant primary rest := by
  simp only [executionPair, accepted_append, accepted_refuseIf] at h
  obtain ⟨⟨⟨⟨hprimary, -⟩, hsigs⟩, hothers⟩, hrec⟩ := h
  have hcaller : callerSigned R grant = true := by
    by_contra hne
    rw [Bool.not_eq_true] at hne
    simp [hne] at hsigs
  refine ⟨hprimary, hcaller, fun x hx hsigned => ?_, reconcile_accepted hrec⟩
  have := List.filterMap_eq_nil_iff.mp hothers x hx
  simpa [hcaller, hsigned] using this

namespace Execution

variable {grant primary : Record} {rest : List Record}

/-- Whichever loop looked at a receipt by the provider, it passed the pair check. -/
theorem pairCheck_of_byProvider (h : Execution R grant primary rest) {x : Record}
    (hx : x ∈ primary :: rest) (hp : ByProvider R grant x) : receiptBound.Passes R grant x := by
  rcases List.mem_cons.mp hx with rfl | hx
  · exact checkAgainstGrant_none h.primaryChecked
  · exact checkAgainstGrant_none (h.othersChecked x hx hp.providerSigned)

/-- All receipts by the provider share one id, and there is one. -/
theorem exists_unique_id (h : Execution R grant primary rest) :
    ∃ y ∈ primary :: rest, ByProvider R grant y ∧ ∀ x ∈ primary :: rest, ByProvider R grant x →
      x.lookup (lit "receipt_id") = y.lookup (lit "receipt_id") := by
  obtain ⟨y, hy⟩ := h.reconciled
  obtain ⟨hmem, hcount⟩ := mem_authorized (hy ▸ List.mem_singleton_self y)
  refine ⟨y, hmem, counts_iff.mp hcount, fun x hx hp => ?_⟩
  rcases counted hx (counts_iff.mpr hp) with hin | ⟨z, hz, hsame⟩
  · exact absurd hin (show ¬ Json.pyIn _ [] = true from Bool.false_ne_true)
  · rw [hy, List.mem_singleton] at hz
    subst hz
    obtain ⟨i, -, hi⟩ := recomputes_iff.mp (counts_iff.mp hcount).recomputed
    rw [getField_of_lookup hi, Json.pySame_str] at hsame
    rw [hi, lookup_of_getField_str hsame]

end Execution

/-! ## An accepted bundle -/

/-- The parts of an accepted report. -/
theorem verify_accepted {bundle : Record} {r : Report} (h : verify R (.obj bundle) = .ok r)
    (hacc : r.Accepted) :
    (∃ d, delegation R (requireSignatures bundle) (listAt bundle "observations") = .ok d ∧
      d.Accepted) ∧
    (execution R (requireSignatures bundle) (grantOf bundle) (receiptSet bundle)).1.Accepted := by
  obtain ⟨d, hd, h⟩ := Loop.bind_ok.mp h
  obtain rfl := Except.ok.inj h
  simp only [accepted_append] at hacc
  exact ⟨⟨d, hd, hacc.1.1.1.1.1.1.2⟩, hacc.1.1.1.1.2⟩

/-- The two fields have one canonical form. -/
def CanonicallyEqual (a b : Option Json) : Prop :=
  ∃ c, a.bind tryCanonical = some c ∧ b.bind tryCanonical = some c

theorem canonicallyEqual_of_actionsEqual {a b : Option Json} (h : actionsEqual a b = true) :
    CanonicallyEqual a b := by
  unfold actionsEqual at h
  split at h
  next => cases h
  next =>
    rw [Bool.and_eq_true, beq_iff_eq] at h
    obtain ⟨c, hc⟩ := Option.isSome_iff_exists.mp h.1
    exact ⟨c, hc, h.2 ▸ hc⟩

/-- **What acceptance says about receipts.** With signatures required, in an
accepted bundle with a grant and a receipt the caller signed the grant, the
provider issued a receipt for it, and all receipts the provider issued for it,
wherever they stand in the bundle, have one id, the granted action and a time in
the window. -/
theorem accepted_receipts {bundle : Record} {r : Report} (h : verify R (.obj bundle) = .ok r)
    (hacc : r.Accepted) (hsigs : requireSignatures bundle = true) {grant : Record}
    (hgrant : getField bundle "grant" = .obj grant) (hreceipt : cands bundle ≠ []) :
    callerSigned R grant = true ∧
    (∃ x ∈ cands bundle, ByProvider R grant x) ∧
    ∃ i, ∀ x ∈ cands bundle, ByProvider R grant x →
      x.lookup (lit "receipt_id") = some (.str i) ∧
      CanonicallyEqual (grant.lookup (lit "action")) (x.lookup (lit "executed_action")) ∧
      ∃ t, instant (getField x "executed_at") = some t ∧ InGrantWindow grant t := by
  obtain ⟨-, hexec⟩ := verify_accepted h hacc
  have hg : grantOf bundle = some grant := by rw [grantOf, slot, hgrant]
  -- the receipt set holds a record for the first receipt of the bundle
  obtain ⟨x₀, hx₀⟩ := List.exists_mem_of_ne_nil _ hreceipt
  obtain ⟨y₀, hy₀, -⟩ := exists_same_of_mem_cands hx₀
  obtain ⟨primary, rest, hset⟩ := List.exists_cons_of_ne_nil (List.ne_nil_of_mem hy₀)
  rw [hsigs, hg, hset] at hexec
  have hex := executionPair_accepted hexec
  obtain ⟨gref, -, hgref, -⟩ := (checkAgainstGrant_none hex.primaryChecked).grantRef
  obtain ⟨y, hy, hyp, hids⟩ := hex.exists_unique_id
  obtain ⟨i, -, hi⟩ := recomputes_iff.mp hyp.recomputed
  refine ⟨hex.caller, ⟨y, mem_of_mem_dropSeen (hset ▸ hy), hyp⟩, i, fun x hx hp => ?_⟩
  obtain ⟨z, hz, hs⟩ := exists_same_of_mem_cands hx
  rw [hset] at hz
  have hzp := hp.of_same hgref hs.symm
  have hpass := hex.pairCheck_of_byProvider hz hzp
  obtain ⟨t, ht, hwin⟩ := hpass.time
  refine ⟨hs.lookup_str ((hids z hz hzp).trans hi), ?_, t, hs.instant ht, hwin⟩
  refine canonicallyEqual_of_actionsEqual ?_
  rw [← hs.actionsEqual]
  exact hpass.action

/-- The receipt of the sample bundle is by its provider. -/
theorem sampleBundle_receipts : callerSigned .sample sampleGrant = true ∧
    ∃ x ∈ cands sampleBundle, ByProvider .sample sampleGrant x ∧
      CanonicallyEqual (sampleGrant.lookup (lit "action")) (x.lookup (lit "executed_action")) := by
  obtain ⟨r, hr, hacc⟩ := sampleBundle_accepted
  have hgrant : getField sampleBundle "grant" = .obj sampleGrant := rfl
  obtain ⟨hcaller, ⟨x, hx, hp⟩, i, hall⟩ :=
    accepted_receipts hr hacc (by decide) hgrant (by decide)
  exact ⟨hcaller, x, hx, hp, (hall x hx hp).2.1⟩

end Preaction.Nenrin
