import Preaction.Lib.Keyed
import Preaction.ProcedureManifest.Retry

/-!
# What an outcome depends on

The outcome of an evaluation is its verdict, eligibility, state and output.
This file says on what it depends of the records of a package: of the
terminals of a claim only on which there are and, for the scope alone, on the
first of them (`walk_alike`), and of the claims only on their values, in attempt
order. `evaluateChosen_outcome` is the outcome of a chosen terminal.

What the walk sees of a list of terminals is a set of pairs; `distinct_alike` is
what that set has in common for two lists with the same elements.
-/

namespace Preaction.ProcedureManifest

open Preaction.Py Preaction.Bip340 Preaction.Loop

variable (R : Runtime) (C : Secp)

/-! ## Outcomes -/

/-- The evaluations agree on what is reported about the run, under Python's `==`. -/
structure SameOutcome (a b : Evaluation) : Prop where
  runVerdict : a.runVerdict = b.runVerdict
  eligible : a.eligible = b.eligible
  state : a.state.pySame b.state = true
  outputHash : Option.Rel (fun x y : Json => x.pySame y = true) a.outputHash b.outputHash

theorem finish_sameOutcome {t t' : Terms} {rs rs' : List Reason} {state state' : Json}
    {ev ev' : List Bool} {o o' : Json} (ht : t.eligible = t'.eligible)
    (hstate : state.pySame state' = true) (ho : t.eligible = true → o.pySame o' = true) :
    SameOutcome (finish t rs state ev o) (finish t' rs' state' ev' o') := by
  have hresult : (t.eligible && o.truthy) = (t'.eligible && o'.truthy) := by
    rw [← ht]
    cases he : t.eligible with
    | false => rfl
    | true => rw [Json.truthy_of_pySame (ho he)]
  refine ⟨?_, ht, hstate, ?_⟩
  · simp only [finish, hresult]
  · simp only [finish, ← hresult]
    split
    next hr => exact .some (ho (Bool.and_eq_true _ _ ▸ hr).1)
    next => exact .none

/-! ## A chosen terminal -/

/-- The claim binds the committed request. -/
def requestBound (requirement c : Json) : Except PyError Bool := do
  let requestHash ← c.item (lit "request_hash")
  return requestHash.pyEq (.str (← H R (← requirement.item (lit "request"))))

/-- The observed scope of the terminal covers the required one. -/
def covers (requirement t : Json) : Except PyError Bool := do
  let need ← setOf (← requirement.item (lit "required_scope"))
  let got ← setOf ((t.find (lit "observed_scope")).orElse (.arr []))
  let _ ← scopeReasons (need.all (·.pyIn got)) got need
  return need.all (·.pyIn got)

/-- A term that was decided. -/
def termOf (b : Bool) : Term := if b then .holds else .fails

/-- The output that a chosen terminal gives. -/
def outputOf (t status : Json) : Json :=
  if status.pyEq (.str (lit "UNRESOLVED")) then .null else t.find (lit "output_hash")

/-- The terms of a chosen terminal. -/
def chosenTerms (authorized : Term) (bound covered : Bool) : Terms :=
  ⟨authorized, termOf bound, .holds, termOf covered⟩

theorem evaluateChosen_spec {requirement : Json} {authorized : Term} {reasons : List Reason}
    {evidence : List Bool} {c t status : Json} {out : Evaluation}
    (h : evaluateChosen R requirement authorized reasons evidence c t status = .ok out) :
    ∃ bound covered reasons', requestBound R requirement c = .ok bound ∧
      covers requirement t = .ok covered ∧
      out = finish (chosenTerms authorized bound covered) reasons' (stateOf status) evidence
        (outputOf t status) := by
  obtain ⟨requestHash, hrh, h⟩ := bind_ok.mp h
  obtain ⟨request, hreq, h⟩ := bind_ok.mp h
  obtain ⟨want, hwant, h⟩ := bind_ok.mp h
  obtain ⟨scope, hscope, h⟩ := bind_ok.mp h
  obtain ⟨need, hneed, h⟩ := bind_ok.mp h
  obtain ⟨got, hgot, h⟩ := bind_ok.mp h
  obtain ⟨rs, hrs, h⟩ := bind_ok.mp h
  refine ⟨requestHash.pyEq (.str want), need.all (·.pyIn got), ?_⟩
  have hb : requestBound R requirement c = .ok (requestHash.pyEq (.str want)) :=
    bind_ok.mpr ⟨_, hrh, bind_ok.mpr ⟨_, hreq, bind_ok.mpr ⟨_, hwant, rfl⟩⟩⟩
  have hc : covers requirement t = .ok (need.all (·.pyIn got)) :=
    bind_ok.mpr ⟨_, hscope, bind_ok.mpr ⟨_, hneed, bind_ok.mpr ⟨_, hgot,
      bind_ok.mpr ⟨_, hrs, rfl⟩⟩⟩⟩
  dsimp only at h
  by_cases hu : status.pyEq (.str (lit "UNRESOLVED")) = true
  · rw [if_pos hu] at h
    exact ⟨_, hb, hc, by rw [outputOf, if_pos hu]; exact (Except.ok.inj h).symm⟩
  · rw [if_neg hu] at h
    exact ⟨_, hb, hc, by rw [outputOf, if_neg hu]; exact (Except.ok.inj h).symm⟩

/-- A claim and a terminal that can be read give an evaluation. -/
theorem evaluateChosen_of_ok {requirement : Json} {c t : Json} {bound covered : Bool}
    (hb : requestBound R requirement c = .ok bound) (hc : covers requirement t = .ok covered)
    (authorized : Term) (reasons : List Reason) (evidence : List Bool) (status : Json) :
    ∃ out, evaluateChosen R requirement authorized reasons evidence c t status = .ok out := by
  obtain ⟨requestHash, hrh, hb⟩ := bind_ok.mp hb
  obtain ⟨request, hreq, hb⟩ := bind_ok.mp hb
  obtain ⟨want, hwant, -⟩ := bind_ok.mp hb
  obtain ⟨scope, hscope, hc⟩ := bind_ok.mp hc
  obtain ⟨need, hneed, hc⟩ := bind_ok.mp hc
  obtain ⟨got, hgot, hc⟩ := bind_ok.mp hc
  obtain ⟨rs, hrs, -⟩ := bind_ok.mp hc
  by_cases hu : status.pyEq (.str (lit "UNRESOLVED")) = true
  · refine ⟨_, bind_ok.mpr ⟨_, hrh, bind_ok.mpr ⟨_, hreq, bind_ok.mpr ⟨_, hwant,
      bind_ok.mpr ⟨_, hscope, bind_ok.mpr ⟨_, hneed, bind_ok.mpr ⟨_, hgot,
      bind_ok.mpr ⟨_, hrs, if_pos hu⟩⟩⟩⟩⟩⟩⟩⟩
  · refine ⟨_, bind_ok.mpr ⟨_, hrh, bind_ok.mpr ⟨_, hreq, bind_ok.mpr ⟨_, hwant,
      bind_ok.mpr ⟨_, hscope, bind_ok.mpr ⟨_, hneed, bind_ok.mpr ⟨_, hgot,
      bind_ok.mpr ⟨_, hrs, if_neg hu⟩⟩⟩⟩⟩⟩⟩⟩

/-! ## The distinct terminals of a claim -/

/-- One status and one output. -/
def SamePair (p q : Json × Json) : Prop := p.1.pySame q.1 = true ∧ p.2.pySame q.2 = true

theorem SamePair.refl (p : Json × Json) : SamePair p p :=
  ⟨Json.pySame_refl _, Json.pySame_refl _⟩

theorem SamePair.symm {p q : Json × Json} (h : SamePair p q) : SamePair q p :=
  ⟨Json.pySame_symm h.1, Json.pySame_symm h.2⟩

theorem SamePair.trans {p q r : Json × Json} (h : SamePair p q) (h' : SamePair q r) :
    SamePair p r :=
  ⟨Json.pySame_trans h.1 h'.1, Json.pySame_trans h.2 h'.2⟩

/-- The pair that was added first stays first. -/
theorem foldl_addPair_cons (p : Json × Json) (acc ps : List (Json × Json)) :
    ∃ rest, ps.foldl addPair (p :: acc) = p :: rest := by
  induction ps generalizing acc with
  | nil => exact ⟨acc, rfl⟩
  | cons q ps ih =>
    rw [List.foldl_cons, addPair]
    split
    · exact ih acc
    · exact ih (acc ++ [q])

theorem foldl_addPair_same {p : Json × Json} {ps : List (Json × Json)}
    (h : ∀ q ∈ ps, SamePair p q) : ps.foldl addPair [p] = [p] := by
  induction ps with
  | nil => rfl
  | cons q ps ih =>
    obtain ⟨hq, hps⟩ := List.forall_mem_cons.mp h
    have hadd : addPair [p] q = [p] := by
      rw [addPair, if_pos]
      rw [List.any_cons, hq.1, hq.2]
      rfl
    rw [List.foldl_cons, hadd, ih hps]

/-- What a set of pairs has in common with another: none, one and the same, or more. -/
inductive DistinctAlike : List (Json × Json) → List (Json × Json) → Prop
  | none : DistinctAlike [] []
  | one {p q : Json × Json} (h : SamePair p q) : DistinctAlike [p] [q]
  | many (p q : Json × Json) (ps : List (Json × Json)) (p' q' : Json × Json)
      (ps' : List (Json × Json)) : DistinctAlike (p :: q :: ps) (p' :: q' :: ps')

/-- A set has one element exactly when all that was added is the same. -/
theorem foldl_addPair_cases (p : Json × Json) (ps : List (Json × Json)) :
    ((p :: ps).foldl addPair [] = [p] ∧ ∀ q ∈ p :: ps, SamePair p q) ∨
      ∃ q rest, (p :: ps).foldl addPair [] = p :: q :: rest ∧ ∃ r ∈ p :: ps, ¬ SamePair p r := by
  have hfirst : (p :: ps).foldl addPair [] = ps.foldl addPair [p] := rfl
  by_cases hall : ∀ q ∈ ps, SamePair p q
  · refine Or.inl ⟨hfirst.trans (foldl_addPair_same hall), ?_⟩
    exact List.forall_mem_cons.mpr ⟨SamePair.refl p, hall⟩
  · push Not at hall
    obtain ⟨r, hr, hne⟩ := hall
    obtain ⟨rest, hrest⟩ := foldl_addPair_cons p [] ps
    cases rest with
    | cons q rest => exact Or.inr ⟨q, rest, hfirst.trans hrest, r, List.mem_cons_of_mem _ hr, hne⟩
    | nil =>
      obtain ⟨x, hx, hsame⟩ := @mem_foldl_addPair [p] ps r (Or.inr hr)
      rw [hrest, List.mem_singleton] at hx
      exact absurd (hx ▸ hsame) hne

theorem foldl_addPair_alike {ps ps' : List (Json × Json)} (h : SameElems ps ps') :
    DistinctAlike (ps.foldl addPair []) (ps'.foldl addPair []) := by
  cases ps with
  | nil =>
    rw [h.eq_nil_iff.mp rfl]
    exact .none
  | cons p ps =>
    cases ps' with
    | nil => exact absurd (h.eq_nil_iff.mpr rfl) nofun
    | cons p' ps' =>
      have hp' : p' ∈ p :: ps := (h p').mpr (List.mem_cons_self ..)
      rcases foldl_addPair_cases p ps with ⟨hd, hall⟩ | ⟨q, rest, hd, r, hr, hne⟩
      · rcases foldl_addPair_cases p' ps' with ⟨hd', -⟩ | ⟨q', rest', -, r', hr', hne'⟩
        · rw [hd, hd']
          exact .one (hall p' hp')
        · exact absurd ((hall p' hp').symm.trans (hall r' ((h r').mpr hr'))) hne'
      · rcases foldl_addPair_cases p' ps' with ⟨-, hall'⟩ | ⟨q', rest', hd', -⟩
        · have hp := hall' p ((h p).mp (List.mem_cons_self ..))
          exact absurd (hp.symm.trans (hall' r ((h r).mp hr))) hne
        · rw [hd, hd']
          exact .many ..

theorem distinct_alike {ts ts' : List Json} (h : SameElems ts ts') {d : List (Json × Json)}
    (hd : distinctTerminals ts = .ok d) :
    ∃ d', distinctTerminals ts' = .ok d' ∧ DistinctAlike d d' := by
  obtain ⟨ps, hps, hd⟩ := bind_ok.mp hd
  obtain ⟨ps', hps', hsame⟩ := mapM_sameElems h hps
  rw [← Except.ok.inj hd]
  exact ⟨_, bind_ok.mpr ⟨ps', hps', rfl⟩, foldl_addPair_alike hsame⟩

/-! ## One claim of the walk -/

/-- What the walk makes of a claim. -/
inductive ClaimVerdict
  | conflicting
  | absent
  | missing
  | counted (t status : Json)

/-- The verdict on a claim with these terminals. -/
def verdictOf (ts : List Json) : List (Json × Json) → Except PyError ClaimVerdict
  | _ :: _ :: _ => .ok .conflicting
  | distinct =>
    let status := (distinct.head?.map (·.1)).getD .null
    if status.pyEq noResult then .ok .absent
    else if status = .null then .ok .missing
    else match ts with
      | t :: _ => .ok (.counted t status)
      | [] => .error .stopIteration

def readClaim (s : Slot) (c : Json) : Except PyError ClaimVerdict := do
  let ts ← terminalsFor R C s c
  verdictOf ts (← distinctTerminals ts)

/-- How the walk goes on after a claim. -/
def afterClaim (s : Slot) (c : Json) (later : List Json) : ClaimVerdict → Except PyError WalkResult
  | .conflicting => .ok ⟨true, none, false, false, [.conflictingTerminals]⟩
  | .absent =>
    if later.isEmpty then .ok ⟨false, none, false, true, []⟩
    else if s.retryCommitted then walk R C s later
    else .ok ⟨false, none, true, true, [.retryNotCommitted]⟩
  | .missing => .ok ⟨false, none, !later.isEmpty, false,
      if later.isEmpty then [.noAttestedTerminal] else [.retryWithoutNoResult]⟩
  | .counted t status => .ok ⟨false, some (c, t, status), !later.isEmpty, false,
      if later.isEmpty then [] else [.retryWithoutNoResult]⟩

theorem walk_cons (s : Slot) (c : Json) (later : List Json) :
    walk R C s (c :: later) = readClaim R C s c >>= afterClaim R C s c later := by
  rw [walk, readClaim]
  cases terminalsFor R C s c with
  | error e => rfl
  | ok ts =>
    dsimp only [bind, Except.bind]
    cases distinctTerminals ts with
    | error e => rfl
    | ok d =>
      dsimp only
      match d with
      | _ :: _ :: _ => rfl
      | [] => cases later <;> rfl
      | [p] =>
        unfold verdictOf
        dsimp only
        generalize Option.getD (Option.map (·.1) [p].head?) Json.null = status
        by_cases hno : status.pyEq noResult = true
        · rw [if_pos hno, if_pos hno]
          rfl
        · rw [if_neg hno, if_neg hno]
          by_cases hnull : status = .null
          · rw [if_pos hnull, if_pos hnull]
            cases later <;> rfl
          · rw [if_neg hnull, if_neg hnull]
            cases ts with
            | nil => rfl
            | cons t ts => cases later <;> rfl

/-! ## Slots of the same records -/

/-- One value, or lists with the same elements. -/
def SameField (a b : Json) : Prop :=
  a = b ∨ ∃ xs ys, a = .arr xs ∧ b = .arr ys ∧ SameElems xs ys

theorem SameField.iter {a b : Json} {xs : List Json} (h : SameField a b)
    (hx : a.iter = .ok xs) : ∃ ys, b.iter = .ok ys ∧ SameElems xs ys := by
  rcases h with rfl | ⟨xs', ys, rfl, rfl, hsame⟩
  · exact ⟨xs, hx, SameElems.refl xs⟩
  · obtain rfl := Except.ok.inj hx
    exact ⟨ys, rfl, hsame⟩

theorem SameField.truthy {a b : Json} (h : SameField a b) : a.truthy = b.truthy := by
  rcases h with rfl | ⟨xs, ys, rfl, rfl, hsame⟩
  · rfl
  · have hnil := hsame.eq_nil_iff
    cases xs with
    | nil => rw [hnil.mp rfl]
    | cons x xs =>
      cases ys with
      | nil => exact absurd (hnil.mpr rfl) nofun
      | cons y ys => rfl

/-- The slots agree but for the order of their records and how often each is there. -/
structure SlotAlike (s s' : Slot) : Prop where
  disputeState : s.disputeState = s'.disputeState
  derivedOk : s.derivedOk = s'.derivedOk
  attemptIds : s.attemptIds = s'.attemptIds
  provider : s.provider = s'.provider
  retryCommitted : s.retryCommitted = s'.retryCommitted
  claims : SameField s.claims s'.claims
  terminals : SameField s.terminals s'.terminals
  validClaims : SameElems s.validClaims s'.validClaims

theorem SlotAlike.attempt {s s' : Slot} (h : SlotAlike s s') : s'.attempt = s.attempt := by
  funext c
  rw [Slot.attempt, Slot.attempt, h.attemptIds]

theorem terminalsFor_alike {s s' : Slot} (h : SlotAlike s s') {c c' : Json}
    (hc : Json.SameValue c c') {ts : List Json} (hts : terminalsFor R C s c = .ok ts) :
    ∃ ts', terminalsFor R C s' c' = .ok ts' ∧ SameElems ts ts' := by
  obtain ⟨crh, hcrh, hts⟩ := bind_ok.mp hts
  obtain ⟨terms, hterms, hts⟩ := bind_ok.mp hts
  obtain ⟨terms', hterms', hsame⟩ := h.terminals.iter hterms
  obtain ⟨ts', hts', hsame'⟩ := filterE_sameElems hsame hts
  rw [H_of_sameValue hc] at hcrh
  rw [h.provider] at hts'
  exact ⟨ts', bind_ok.mpr ⟨crh, hcrh, bind_ok.mpr ⟨terms', hterms', hts'⟩⟩, hsame'⟩

/-- The verdicts agree but for which of several equal terminals counts. -/
inductive VerdictAlike : ClaimVerdict → ClaimVerdict → Prop
  | conflicting : VerdictAlike .conflicting .conflicting
  | absent : VerdictAlike .absent .absent
  | missing : VerdictAlike .missing .missing
  | counted {t t' status status' : Json} (hstatus : status.pySame status' = true)
      (houtput : (t.find (lit "output_hash")).pySame (t'.find (lit "output_hash")) = true) :
      VerdictAlike (.counted t status) (.counted t' status')

/-- The verdict on one distinct terminal. -/
theorem verdictOf_singleton (ts : List Json) (p : Json × Json) : verdictOf ts [p] =
    if p.1.pyEq noResult then .ok .absent
    else if p.1 = .null then .ok .missing
    else match ts with
      | t :: _ => .ok (.counted t p.1)
      | [] => .error .stopIteration := rfl

theorem verdictOf_alike {ts ts' : List Json} {d d' : List (Json × Json)}
    (hd : distinctTerminals ts = .ok d) (hd' : distinctTerminals ts' = .ok d')
    (h : DistinctAlike d d') {v : ClaimVerdict} (hv : verdictOf ts d = .ok v) :
    ∃ v', verdictOf ts' d' = .ok v' ∧ VerdictAlike v v' := by
  cases h with
  | none =>
    obtain rfl := Except.ok.inj hv
    exact ⟨.missing, rfl, .missing⟩
  | many =>
    obtain rfl := Except.ok.inj hv
    exact ⟨.conflicting, rfl, .conflicting⟩
  | @one p q hpq =>
    obtain ⟨hne, hall⟩ := distinctTerminals_singleton hd
    obtain ⟨hne', hall'⟩ := distinctTerminals_singleton hd'
    rw [verdictOf_singleton] at hv ⊢
    have hno : p.1.pyEq noResult = q.1.pyEq noResult := by
      rw [Bool.eq_iff_iff, noResult, Json.pyEq_str, Json.pyEq_str, ← Json.pySame_str p.1,
        ← Json.pySame_str q.1]
      exact ⟨Json.pySame_trans (Json.pySame_symm hpq.1), Json.pySame_trans hpq.1⟩
    have hnull : p.1 = .null ↔ q.1 = .null := by
      rw [← Json.pySame_null, ← Json.pySame_null]
      exact ⟨Json.pySame_trans (Json.pySame_symm hpq.1), Json.pySame_trans hpq.1⟩
    rw [← hno]
    by_cases hp : p.1.pyEq noResult = true
    · rw [if_pos hp] at hv ⊢
      exact ⟨.absent, rfl, Except.ok.inj hv ▸ .absent⟩
    · rw [if_neg hp] at hv ⊢
      by_cases hn : p.1 = .null
      · rw [if_pos hn] at hv
        rw [if_pos (hnull.mp hn)]
        exact ⟨.missing, rfl, Except.ok.inj hv ▸ .missing⟩
      · rw [if_neg hn] at hv
        rw [if_neg fun hq => hn (hnull.mpr hq)]
        obtain ⟨t, rest, rfl⟩ := List.exists_cons_of_ne_nil hne
        obtain ⟨t', rest', rfl⟩ := List.exists_cons_of_ne_nil hne'
        obtain rfl := Except.ok.inj hv
        refine ⟨.counted t' q.1, rfl, .counted hpq.1 ?_⟩
        have ht := (hall t (List.mem_cons_self ..)).2
        have ht' := (hall' t' (List.mem_cons_self ..)).2
        exact Json.pySame_trans (Json.pySame_symm ht) (Json.pySame_trans hpq.2 ht')

theorem readClaim_alike {s s' : Slot} (h : SlotAlike s s') {c c' : Json}
    (hc : Json.SameValue c c') {v : ClaimVerdict} (hv : readClaim R C s c = .ok v) :
    ∃ v', readClaim R C s' c' = .ok v' ∧ VerdictAlike v v' := by
  obtain ⟨ts, hts, hv⟩ := bind_ok.mp hv
  obtain ⟨d, hd, hv⟩ := bind_ok.mp hv
  obtain ⟨ts', hts', hsame⟩ := terminalsFor_alike R C h hc hts
  obtain ⟨d', hd', halike⟩ := distinct_alike hsame hd
  obtain ⟨v', hv', hvv'⟩ := verdictOf_alike hd hd' halike hv
  exact ⟨v', bind_ok.mpr ⟨ts', hts', bind_ok.mpr ⟨d', hd', hv'⟩⟩, hvv'⟩

/-! ## Two walks over the same claims -/

/-- The walk goes on after the claim: it is an attested absence, and a retry was
committed. -/
def GoesOn (s : Slot) (c : Json) : Prop :=
  readClaim R C s c = .ok .absent ∧ s.retryCommitted = true

/-- The walk over claims it goes on after. -/
theorem walk_append {s : Slot} {before : List Json} (h : ∀ b ∈ before, GoesOn R C s b)
    (c : Json) (later : List Json) :
    walk R C s (before ++ c :: later) = walk R C s (c :: later) := by
  induction before with
  | nil => rfl
  | cons b before ih =>
    obtain ⟨⟨habsent, hcommitted⟩, hbefore⟩ := List.forall_mem_cons.mp h
    have hmore : (before ++ c :: later).isEmpty = false := by cases before <;> rfl
    rw [List.cons_append, walk_cons, habsent]
    change afterClaim R C s b (before ++ c :: later) .absent = _
    rw [afterClaim, hmore, hcommitted]
    exact ih hbefore

/-- The walk that goes on to the end. -/
theorem walk_goesOn {s : Slot} {cs : List Json} (hne : cs ≠ []) (h : ∀ c ∈ cs, GoesOn R C s c) :
    walk R C s cs = .ok ⟨false, none, false, true, []⟩ := by
  obtain ⟨before, c, rfl⟩ := (List.eq_nil_or_concat cs).resolve_left hne
  rw [List.concat_eq_append] at h ⊢
  obtain ⟨hbefore, hc⟩ := List.forall_mem_append.mp h
  obtain ⟨habsent, -⟩ := hc c (List.mem_singleton_self c)
  rw [walk_append R C hbefore, walk_cons, habsent]
  rfl

/-- What two walks agree on: whether they stopped at conflicting terminals, and
what they chose. -/
structure WalkAlike (w w' : WalkResult) : Prop where
  equivocation : w.equivocation = w'.equivocation
  attestedNoResult : w.attestedNoResult = w'.attestedNoResult
  chosen : Option.Rel (fun x y => Json.SameValue x.1 y.1 ∧ x.2.2.pySame y.2.2 = true ∧
    (x.2.1.find (lit "output_hash")).pySame (y.2.1.find (lit "output_hash")) = true)
    w.chosen w'.chosen

theorem afterClaim_alike {s s' : Slot} (h : SlotAlike s s') {c c' : Json}
    (hc : Json.SameValue c c') {v v' : ClaimVerdict} (hv : VerdictAlike v v')
    (hstops : v = .absent → s.retryCommitted = false) {later : List Json} (later' : List Json)
    {w : WalkResult} (hw : afterClaim R C s c later v = .ok w) :
    ∃ w', afterClaim R C s' c' later' v' = .ok w' ∧ WalkAlike w w' := by
  cases hv with
  | conflicting =>
    obtain rfl := Except.ok.inj hw
    exact ⟨_, rfl, rfl, rfl, .none⟩
  | absent =>
    have hcommitted := hstops rfl
    have hcommitted' := h.retryCommitted ▸ hcommitted
    rw [afterClaim, hcommitted] at hw
    rw [afterClaim, hcommitted']
    cases later <;> cases later' <;> obtain rfl := Except.ok.inj hw <;>
      exact ⟨_, rfl, rfl, rfl, .none⟩
  | missing =>
    obtain rfl := Except.ok.inj hw
    exact ⟨_, rfl, rfl, rfl, .none⟩
  | counted hstatus houtput =>
    obtain rfl := Except.ok.inj hw
    exact ⟨_, rfl, rfl, rfl, .some ⟨hc, hstatus, houtput⟩⟩

/-- Claims of one attempt are one value. -/
def OneClaim (s : Slot) (cs : List Json) : Prop :=
  ∀ a ∈ cs, ∀ b ∈ cs, s.attempt a = s.attempt b → Json.SameValue a b

/-- Where the walk stops, no claim before it is of the same attempt. -/
theorem attempt_lt_of_goesOn {s : Slot} {before later : List Json} {c : Json}
    (hsorted : Keyed.Sorted s.attempt (before ++ c :: later))
    (hone : OneClaim s (before ++ c :: later)) (hbefore : ∀ b ∈ before, GoesOn R C s b)
    (hc : ¬ GoesOn R C s c) : ∀ b ∈ before, s.attempt b < s.attempt c := by
  intro b hb
  have hcmem : c ∈ before ++ c :: later := List.mem_append_right _ (List.mem_cons_self ..)
  have hbmem : b ∈ before ++ c :: later := List.mem_append_left _ hb
  refine lt_of_le_of_ne ?_ fun heq => hc ?_
  · exact (List.pairwise_append.mp hsorted).2.2 b hb c (List.mem_cons_self ..)
  · have hself : SlotAlike s s := ⟨rfl, rfl, rfl, rfl, rfl, .inl rfl, .inl rfl, SameElems.refl _⟩
    obtain ⟨v, hv, halike⟩ := readClaim_alike R C hself (hone b hbmem c hcmem heq) (hbefore b hb).1
    cases halike
    exact ⟨hv, (hbefore b hb).2⟩

/-- **The walk depends on the claims and terminals only as values.** Two sorted
lists of the same claims, one value for each attempt, are walked alike. -/
theorem walk_alike {s s' : Slot} (h : SlotAlike s s') {cs cs' : List Json}
    (hsame : SameElems cs cs') (hcs : Keyed.Sorted s.attempt cs)
    (hcs' : Keyed.Sorted s.attempt cs') (hone : OneClaim s cs) {w : WalkResult}
    (hw : walk R C s cs = .ok w) : ∃ w', walk R C s' cs' = .ok w' ∧ WalkAlike w w' := by
  have hgoesOn {c : Json} (hc : GoesOn R C s c) : GoesOn R C s' c := by
    obtain ⟨v, hv, halike⟩ := readClaim_alike R C h rfl hc.1
    cases halike
    exact ⟨hv, h.retryCommitted ▸ hc.2⟩
  rcases Keyed.forall_or_exists_first (GoesOn R C s) cs with hall | ⟨before, c, later, rfl, hb, hc⟩
  · by_cases hnil : cs = []
    · rw [hsame.eq_nil_iff.mp hnil]
      rw [hnil] at hw
      obtain rfl := Except.ok.inj hw
      exact ⟨_, rfl, rfl, rfl, .none⟩
    · rw [walk_goesOn R C hnil hall] at hw
      obtain rfl := Except.ok.inj hw
      have hnil' : cs' ≠ [] := fun hnil' => hnil (hsame.eq_nil_iff.mpr hnil')
      refine ⟨_, walk_goesOn R C hnil' fun c hc => ?_, rfl, rfl, .none⟩
      exact hgoesOn (hall c ((hsame c).mpr hc))
  · -- the other walk stops where the attempt of this claim begins
    have hcmem : c ∈ before ++ c :: later := List.mem_append_right _ (List.mem_cons_self ..)
    obtain ⟨before', c', later', rfl, hlt, hkey⟩ :=
      Keyed.exists_split_key hcs' ((hsame c).mp hcmem)
    have hb' : ∀ b ∈ before', GoesOn R C s' b := by
      intro b hbm
      have hbcs := (hsame b).mpr (List.mem_append_left _ hbm)
      exact hgoesOn (hb b (Keyed.mem_before_of_key_lt hcs hbcs (hlt b hbm)))
    have hc'mem : c' ∈ before ++ c :: later :=
      (hsame c').mpr (List.mem_append_right _ (List.mem_cons_self ..))
    have hvalue : Json.SameValue c c' := hone c hcmem c' hc'mem hkey.symm
    rw [walk_append R C hb, walk_cons] at hw
    obtain ⟨v, hv, hw⟩ := bind_ok.mp hw
    obtain ⟨v', hv', halike⟩ := readClaim_alike R C h hvalue hv
    have hstops : v = .absent → s.retryCommitted = false := by
      rintro rfl
      exact Bool.eq_false_iff.mpr fun hcommitted => hc ⟨hv, hcommitted⟩
    obtain ⟨w', hw', hww'⟩ := afterClaim_alike R C h hvalue halike hstops later' hw
    refine ⟨w', ?_, hww'⟩
    rw [walk_append R C hb', walk_cons]
    exact bind_ok.mpr ⟨v', hv', hw'⟩

/-- A claim that is counted, by the first of its terminals. -/
theorem readClaim_counted {s : Slot} {c t status : Json}
    (h : readClaim R C s c = .ok (.counted t status)) :
    ∃ ts, terminalsFor R C s c = .ok ts ∧ ts.head? = some t := by
  obtain ⟨ts, hts, h⟩ := bind_ok.mp h
  obtain ⟨d, hd, h⟩ := bind_ok.mp h
  refine ⟨ts, hts, ?_⟩
  match d, h with
  | [], h => cases h
  | _ :: _ :: _, h => cases h
  | [p], h =>
    rw [verdictOf_singleton] at h
    split at h
    next => cases h
    next =>
      split at h
      next => cases h
      next =>
        cases ts with
        | nil => cases h
        | cons u us => cases h; rfl

/-- What a walk chooses: the first terminal of a claim. It finds a violation
exactly when more than one claim is not below the attempt of the chosen one. -/
theorem walk_chosen_spec {s : Slot} {cs : List Json} (hcs : Keyed.Sorted s.attempt cs)
    (hone : OneClaim s cs) {w : WalkResult} {c t status : Json} (hw : walk R C s cs = .ok w)
    (hchosen : w.chosen = some (c, t, status)) :
    w.equivocation = false ∧ c ∈ cs ∧
      (∃ ts, terminalsFor R C s c = .ok ts ∧ ts.head? = some t) ∧
      (w.retryViolation = true ↔ 1 < cs.countP fun x => decide (s.attempt c ≤ s.attempt x)) := by
  rcases Keyed.forall_or_exists_first (GoesOn R C s) cs with hall | ⟨before, d, later, rfl, hb, hd⟩
  · by_cases hnil : cs = []
    · rw [hnil] at hw
      obtain rfl := Except.ok.inj hw
      cases hchosen
    · rw [walk_goesOn R C hnil hall] at hw
      obtain rfl := Except.ok.inj hw
      cases hchosen
  · have hlt := attempt_lt_of_goesOn R C hcs hone hb hd
    rw [walk_append R C hb, walk_cons] at hw
    obtain ⟨v, hv, hw⟩ := bind_ok.mp hw
    cases v with
    | conflicting => obtain rfl := Except.ok.inj hw; cases hchosen
    | missing => obtain rfl := Except.ok.inj hw; cases hchosen
    | absent =>
      have hcommitted : s.retryCommitted = false :=
        Bool.eq_false_iff.mpr fun hcommitted => hd ⟨hv, hcommitted⟩
      rw [afterClaim, hcommitted] at hw
      cases later <;> obtain rfl := Except.ok.inj hw <;> cases hchosen
    | counted t' status' =>
      obtain rfl := Except.ok.inj hw
      cases hchosen
      refine ⟨rfl, List.mem_append_right _ (List.mem_cons_self ..), readClaim_counted R C hv, ?_⟩
      rw [Keyed.countP_key_le hcs hlt]
      cases later <;> simp

end Preaction.ProcedureManifest
