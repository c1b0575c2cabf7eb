import Preaction.ProcedureManifest.Ordering

/-!
# C20 — which attempts a `RESULT` rests on

A retry is opened only by an attested absence: attempt `k + 1` is authorized
only after a provider-attested `NO_RESULT` for attempt `k`. `walk` enforces
it between *neighbours in the list of claims*, not between attempt indices:
a package that leaves an attempt out has nothing to walk over for it.

`walk_chosen` is what the walk guarantees, by induction on the claims: all
before the chosen one are attested absences, and it is the last.
`result_retries_attested_iff` adds the attempt indices: rule C20 holds
exactly when no attempt below a claimed one is missing, and
`retry_without_first_attempt` is a package with such a gap.
-/

namespace Preaction.ProcedureManifest

open Preaction.Py Preaction.Bip340 Preaction.Loop

variable (R : Runtime) (C : Secp)

/-! ## The valid claims -/

/-- The index of a claim's attempt. -/
def Slot.attempt (s : Slot) (c : Json) : Nat := s.attemptIds.idxOf (attemptId c)

theorem attemptId_mem_of_claimValid {acq prov c : Json} {runId : Str} {ids : List Str}
    (h : claimValid R C acq prov runId ids c = .ok true) : attemptId c ∈ ids := by
  obtain ⟨_, -, h⟩ := bind_ok.mp h
  split at h
  next => cases h
  next =>
    split at h
    next => cases h
    next hin =>
      simp only [Bool.not_eq_true, Bool.not_eq_false', Json.pyIn, List.any_eq_true,
        List.mem_map] at hin
      obtain ⟨_, ⟨s, hs, rfl⟩, hsame⟩ := hin
      rw [Json.pySame_str] at hsame
      rwa [attemptId, hsame]

theorem sortClaims_pairwise (ids : List Str) (cs : List Json) :
    (sortClaims ids cs).Pairwise fun a b => ids.idxOf (attemptId a) ≤ ids.idxOf (attemptId b) :=
  haveI : Std.Total fun a b : Json => ids.idxOf (attemptId a) ≤ ids.idxOf (attemptId b) :=
    ⟨fun _ _ => le_total _ _⟩
  haveI : IsTrans Json fun a b => ids.idxOf (attemptId a) ≤ ids.idxOf (attemptId b) :=
    ⟨fun _ _ _ => le_trans⟩
  List.pairwise_insertionSort _ cs

/-- The valid claims are for enumerated attempts, in attempt order. -/
theorem slotOf_validClaims {pkg : Json} {p : Parts} {s : Slot} (h : slotOf R C pkg p = .ok s) :
    (∀ c ∈ s.validClaims, attemptId c ∈ s.attemptIds) ∧
      s.validClaims.Pairwise fun a b => s.attempt a ≤ s.attempt b := by
  obtain ⟨_, -, h⟩ := bind_ok.mp h
  obtain ⟨_, -, h⟩ := bind_ok.mp h
  obtain ⟨_, -, h⟩ := bind_ok.mp h
  obtain ⟨_, -, h⟩ := bind_ok.mp h
  obtain ⟨_, -, h⟩ := bind_ok.mp h
  obtain ⟨_, -, h⟩ := bind_ok.mp h
  obtain ⟨_, -, h⟩ := bind_ok.mp h
  obtain ⟨_, -, h⟩ := bind_ok.mp h
  obtain ⟨_, -, h⟩ := bind_ok.mp h
  obtain ⟨_, -, h⟩ := bind_ok.mp h
  obtain ⟨_, -, h⟩ := bind_ok.mp h
  obtain ⟨_, -, h⟩ := bind_ok.mp h
  obtain ⟨_, -, h⟩ := bind_ok.mp h
  obtain ⟨_, -, h⟩ := bind_ok.mp h
  obtain ⟨ids, -, h⟩ := bind_ok.mp h
  obtain ⟨_, -, h⟩ := bind_ok.mp h
  obtain ⟨_, -, h⟩ := bind_ok.mp h
  obtain ⟨valid, hvalid, h⟩ := bind_ok.mp h
  obtain ⟨_, -, h⟩ := bind_ok.mp h
  cases h
  refine ⟨fun c hc => ?_, sortClaims_pairwise ids valid⟩
  have hc : c ∈ valid := (List.perm_insertionSort _ valid).mem_iff.mp hc
  exact attemptId_mem_of_claimValid R C ((mem_filterE hvalid).mp hc).2

/-! ## Terminals that agree -/

/-- A provider-attested absence: the claim has an attested terminal, and all of
them are the same `NO_RESULT`. -/
def AttestedAbsence (s : Slot) (c : Json) : Prop :=
  ∃ (ts : List Json) (output : Json), terminalsFor R C s c = .ok ts ∧ ts ≠ [] ∧ ∀ t ∈ ts,
    t.find (lit "terminal_status") = noResult ∧ output.pySame (t.find (lit "output_hash"))

/-- Every pair that was added is the same as one that is kept. -/
theorem mem_foldl_addPair {acc ps : List (Json × Json)} {q : Json × Json}
    (h : q ∈ acc ∨ q ∈ ps) : ∃ r ∈ ps.foldl addPair acc, r.1.pySame q.1 ∧ r.2.pySame q.2 := by
  induction ps generalizing acc q with
  | nil => exact ⟨q, h.resolve_right nofun, Json.pySame_refl _, Json.pySame_refl _⟩
  | cons p ps ih =>
    rw [List.foldl_cons]
    have kept {r : Json × Json} (h : r ∈ acc) : r ∈ addPair acc p := by
      unfold addPair
      split
      · exact h
      · exact List.mem_append_left _ h
    rcases h with h | h
    · exact ih (Or.inl (kept h))
    · rcases List.mem_cons.mp h with rfl | h
      · by_cases hany : acc.any (fun r => r.1.pySame q.1 && r.2.pySame q.2) = true
        · -- the pair was there: what is kept for it is the same as this one
          obtain ⟨r, hr, hrq⟩ := List.any_eq_true.mp hany
          obtain ⟨h1, h2⟩ := Bool.and_eq_true _ _ ▸ hrq
          obtain ⟨r', hr', h1', h2'⟩ := ih (Or.inl (kept hr))
          exact ⟨r', hr', Json.pySame_trans h1' h1, Json.pySame_trans h2' h2⟩
        · refine ih (Or.inl ?_)
          rw [addPair, if_neg hany]
          exact List.mem_append_right _ (List.mem_singleton_self q)
      · exact ih (Or.inr h)

/-- One distinct terminal: there is a terminal, and all have its status and
output. -/
theorem distinctTerminals_singleton {ts : List Json} {p : Json × Json}
    (h : distinctTerminals ts = .ok [p]) : ts ≠ [] ∧ ∀ t ∈ ts,
      p.1.pySame (t.find (lit "terminal_status")) ∧ p.2.pySame (t.find (lit "output_hash")) := by
  obtain ⟨ps, hps, h⟩ := bind_ok.mp h
  have hfold : ps.foldl addPair [] = [p] := Except.ok.inj h
  refine ⟨?_, fun t ht => ?_⟩
  · rintro rfl
    cases hps
    cases hfold
  · obtain ⟨q, hq, htq⟩ := mem_mapM_of_mem hps ht
    obtain ⟨r, hr, h1, h2⟩ := @mem_foldl_addPair [] ps q (Or.inr hq)
    rw [hfold, List.mem_singleton] at hr
    obtain ⟨status, hstatus, htq⟩ := bind_ok.mp htq
    obtain ⟨_, -, htq⟩ := bind_ok.mp htq
    obtain ⟨_, -, htq⟩ := bind_ok.mp htq
    obtain rfl := Except.ok.inj htq
    rw [← hr, ← Json.item_eq_find hstatus]
    exact ⟨h1, h2⟩

/-- A claim whose status is `NO_RESULT` is an attested absence. -/
theorem attestedAbsence_of_distinct {s : Slot} {c : Json} {ts : List Json} {p : Json × Json}
    (hts : terminalsFor R C s c = .ok ts) (hd : distinctTerminals ts = .ok [p])
    (hp : p.1.pyEq noResult = true) : AttestedAbsence R C s c := by
  obtain ⟨hne, hall⟩ := distinctTerminals_singleton hd
  refine ⟨ts, p.2, hts, hne, fun t ht => ⟨?_, (hall t ht).2⟩⟩
  have hsame := Json.pySame_symm (hall t ht).1
  rwa [(Json.pyEq_str _ _).mp hp, Json.pySame_str] at hsame

/-! ## The walk -/

/-- What a walk that chooses a terminal and finds no violation has seen: every
claim before the chosen one is an attested absence, none comes after it, and a
retry was committed if there was one. -/
theorem walk_chosen {s : Slot} {cs : List Json} {w : WalkResult} {c t status : Json}
    (h : walk R C s cs = .ok w) (hc : w.chosen = some (c, t, status))
    (hv : w.retryViolation = false) :
    ∃ before, cs = before ++ [c] ∧ (∀ b ∈ before, AttestedAbsence R C s b) ∧
      (before ≠ [] → s.retryCommitted = true) ∧ ∃ ts, terminalsFor R C s c = .ok ts ∧ t ∈ ts := by
  induction cs with
  | nil =>
    cases h
    cases hc
  | cons x later ih =>
    obtain ⟨ts, hts, h⟩ := bind_ok.mp h
    obtain ⟨distinct, hd, h⟩ := bind_ok.mp h
    split at h
    next => cases h; cases hc
    next hfew =>
      dsimp only at h
      by_cases hno : Json.pyEq ((distinct.head?.map (·.1)).getD .null) noResult = true
      · -- `NO_RESULT`: an attested absence, and the walk goes on or chooses nothing
        rw [if_pos hno] at h
        have habs : AttestedAbsence R C s x := by
          match distinct, hfew with
          | [], _ => exact absurd ((Json.pyEq_str _ _).mp hno) nofun
          | [p], _ => exact attestedAbsence_of_distinct R C hts hd hno
          | p :: q :: r, hfew => exact absurd rfl (hfew p q r)
        split at h
        next => cases h; cases hc
        next =>
          split at h
          next hcommitted =>
            obtain ⟨before, rfl, hbefore, -, hts⟩ := ih h
            exact ⟨x :: before, rfl, List.forall_mem_cons.mpr ⟨habs, hbefore⟩,
              fun _ => hcommitted, hts⟩
          next => cases h; cases hc
      · rw [if_neg hno] at h
        split at h
        next => cases h; cases hc
        next =>
          split at h
          next u us =>
            -- a terminal is chosen: with a claim after it this is a violation
            cases h
            cases hc
            have hlast : later = [] := by simpa using hv
            exact ⟨[], by rw [hlast]; rfl, nofun, fun hne => absurd rfl hne, _, hts,
              List.mem_cons_self ..⟩
          next => cases h

/-! ## The attempts below the chosen one -/

/-- Rule C20 for a result at attempt `k`: each attempt below it has a
provider-attested claim that is an attested absence, and a retry was committed
if there was one. -/
def RetriesAttested (s : Slot) (k : Nat) : Prop :=
  (∀ j < k, ∃ c ∈ s.validClaims, s.attemptIds[j]? = some (attemptId c) ∧
    AttestedAbsence R C s c) ∧ (0 < k → s.retryCommitted = true)

/-- No attempt below a claimed one is without a provider-attested claim. -/
def NoGap (s : Slot) : Prop :=
  ∀ c ∈ s.validClaims, ∀ j < s.attempt c,
    ∃ b ∈ s.validClaims, s.attemptIds[j]? = some (attemptId b)

theorem Slot.attempt_le_of_getElem? {s : Slot} {j : Nat} {c : Json}
    (h : s.attemptIds[j]? = some (attemptId c)) : s.attempt c ≤ j := by
  obtain ⟨hj, he⟩ := List.getElem?_eq_some_iff.mp h
  by_contra hlt
  have := List.not_of_lt_findIdx (not_le.mp hlt)
  rw [he, beq_self_eq_true] at this
  cases this

/-- A `RESULT` is the output of the chosen terminal of a walk without violation. -/
theorem evaluateSlot_result {pkg : Json} {p : Parts} {s : Slot} {subs : Json}
    {evidence : List Bool} {out : Evaluation}
    (h : evaluateSlot R C pkg p s subs evidence = .ok out) (hv : out.runVerdict = .result) :
    ∃ w c t status, walk R C s s.validClaims = .ok w ∧ w.chosen = some (c, t, status) ∧
      w.retryViolation = false ∧ out.outputHash = some (t.find (lit "output_hash")) := by
  obtain ⟨order, why, -, h⟩ := evaluateSlot_cases R C h
  rcases h with ⟨terms, reasons, state, -, hscope, rfl⟩ |
    ⟨w, c, t, status, reasons, hw, -, hchosen, h⟩
  · obtain ⟨he, -⟩ := eligible_of_result hv
    simp [Terms.eligible, hscope] at he
  · obtain ⟨terms, reasons', hterms, rfl | rfl⟩ := evaluateChosen_ok R h
    · exact nomatch (eligible_of_result hv).2.1
    · obtain ⟨he, -, ho⟩ := eligible_of_result hv
      refine ⟨w, c, t, status, hw, hchosen, ?_, ho⟩
      -- a violation would have made `authorized_execution` false
      cases hviol : w.retryViolation with
      | false => rfl
      | true =>
        rw [hviol, if_pos rfl] at hterms
        simp [Terms.eligible, hterms] at he

/-- **When a result respects C20.** The claim whose output is reported as
`RESULT` is known, and the rule holds of its attempt exactly when the claimed
attempts have no gap. -/
theorem result_retries_attested_iff {pkg : Json} {out : Evaluation}
    (h : evaluate R C pkg = .ok out) (hv : out.runVerdict = .result) :
    ∃ s w c t status, slot R C pkg = .ok s ∧ walk R C s s.validClaims = .ok w ∧
      w.chosen = some (c, t, status) ∧ out.outputHash = some (t.find (lit "output_hash")) ∧
      (RetriesAttested R C s (s.attempt c) ↔ NoGap s) := by
  obtain ⟨p, s, subs, evidence, hp, hs, h⟩ := (evaluate_cases R C h).resolve_left
    fun hno => nomatch hno.2.symm.trans hv
  obtain ⟨w, c, t, status, hw, hchosen, hviol, hout⟩ := evaluateSlot_result R C h hv
  refine ⟨s, w, c, t, status, bind_ok.mpr ⟨p, hp, hs⟩, hw, hchosen, hout, ?_⟩
  obtain ⟨before, hcs, hbefore, hcommitted, -⟩ := walk_chosen R C hw hchosen hviol
  obtain ⟨-, hsorted⟩ := slotOf_validClaims R C hs
  -- the chosen claim is the last, so its attempt is the highest
  have hmax : ∀ b ∈ s.validClaims, s.attempt b ≤ s.attempt c := by
    intro b hb
    rw [hcs] at hsorted hb
    rcases List.mem_append.mp hb with hb | hb
    · exact (List.pairwise_append.mp hsorted).2.2 b hb c (List.mem_singleton_self c)
    · rw [List.mem_singleton.mp hb]
  have hbelow {b : Json} (hb : b ∈ s.validClaims) (hlt : s.attempt b < s.attempt c) :
      b ∈ before := by
    rw [hcs] at hb
    refine (List.mem_append.mp hb).resolve_right fun hc => ?_
    rw [List.mem_singleton.mp hc] at hlt
    exact lt_irrefl _ hlt
  constructor
  · intro hret b hb j hj
    obtain ⟨d, hd, hdj, -⟩ := hret.1 j (hj.trans_le (hmax b hb))
    exact ⟨d, hd, hdj⟩
  · intro hgap
    have hc : c ∈ s.validClaims := by rw [hcs]; simp
    have hclaim (j : Nat) (hj : j < s.attempt c) :
        ∃ b ∈ before, b ∈ s.validClaims ∧ s.attemptIds[j]? = some (attemptId b) := by
      obtain ⟨b, hb, hbj⟩ := hgap c hc j hj
      exact ⟨b, hbelow hb ((Slot.attempt_le_of_getElem? hbj).trans_lt hj), hb, hbj⟩
    refine ⟨fun j hj => ?_, fun hpos => ?_⟩
    · obtain ⟨b, hb, hvalid, hbj⟩ := hclaim j hj
      exact ⟨b, hvalid, hbj, hbefore b hb⟩
    · obtain ⟨b, hb, -⟩ := hclaim 0 hpos
      exact hcommitted (List.ne_nil_of_mem hb)

instance (s : Slot) : Decidable (NoGap s) :=
  inferInstanceAs (Decidable (∀ c ∈ s.validClaims, ∀ j < s.attempt c,
    ∃ b ∈ s.validClaims, s.attemptIds[j]? = some (attemptId b)))

/-- The rule at the package with a retry: the chosen claim is for attempt 1. -/
theorem retried_retries_attested : ∃ s w c t status,
    slot (labelRuntime retried) .onePoint (samplePackage retried) = .ok s ∧
    walk (labelRuntime retried) .onePoint s s.validClaims = .ok w ∧
    w.chosen = some (c, t, status) ∧
    RetriesAttested (labelRuntime retried) .onePoint s (s.attempt c) := by
  obtain ⟨out, hout, hpair⟩ := map_ok.mp evaluate_retried
  obtain ⟨s, w, c, t, status, hs, hw, hchosen, -, hiff⟩ :=
    result_retries_attested_iff _ .onePoint hout (congrArg Prod.snd hpair)
  refine ⟨s, w, c, t, status, hs, hw, hchosen, hiff.mpr ?_⟩
  have hgap : (slot (labelRuntime retried) .onePoint (samplePackage retried)).map
      (fun s => decide (NoGap s)) = .ok true := by decide +kernel
  obtain ⟨s', hs', hdec⟩ := map_ok.mp hgap
  rw [hs] at hs'
  cases hs'
  exact of_decide_eq_true hdec

/-- A claim for attempt 1 and none for attempt 0. -/
def retryOnly : List (UInt8 × String) := [(1, "RESULT")]

/-- A retry is accepted although its first attempt is not in the package. -/
theorem result_retry_without_first_attempt :
    ¬ ∀ (R : Runtime) (C : Secp) (pkg : Json) (out : Evaluation),
      evaluate R C pkg = .ok out → out.runVerdict = .result →
      ∃ s w c t status, slot R C pkg = .ok s ∧ walk R C s s.validClaims = .ok w ∧
        w.chosen = some (c, t, status) ∧ RetriesAttested R C s (s.attempt c) := by
  intro hall
  have hrun : (evaluate (labelRuntime retryOnly) .onePoint (samplePackage retryOnly)).map
      (·.runVerdict) = .ok .result := by decide +kernel
  obtain ⟨out, hout, hv⟩ := map_ok.mp hrun
  obtain ⟨s, w, c, t, status, hs, hw, hchosen, hret, -⟩ := hall _ _ _ out hout hv
  -- the chosen claim is for attempt 1, and no claim is for attempt 0
  have hslot : (slot (labelRuntime retryOnly) .onePoint (samplePackage retryOnly) >>= fun s =>
      (walk (labelRuntime retryOnly) .onePoint s s.validClaims).map fun w =>
        (w.chosen.map fun ch => s.attempt ch.1,
          s.validClaims.any fun b => s.attemptIds[0]? == some (attemptId b)))
      = .ok (some 1, false) := by decide +kernel
  obtain ⟨s', hs', hslot⟩ := bind_ok.mp hslot
  obtain rfl := Except.ok.inj (hs.symm.trans hs')
  obtain ⟨w', hw', hslot⟩ := map_ok.mp hslot
  obtain rfl := Except.ok.inj (hw.symm.trans hw')
  rw [hchosen, Prod.mk.injEq, Option.map_some, Option.some.injEq] at hslot
  obtain ⟨b, hb, hb0, -⟩ := hret 0 (by rw [hslot.1]; decide)
  have := List.any_eq_false.mp hslot.2 b hb
  rw [hb0, beq_self_eq_true] at this
  exact this rfl

end Preaction.ProcedureManifest
