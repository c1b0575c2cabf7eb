import Preaction.Lib.Chain
import Preaction.Nenrin.Execution
import Preaction.Nenrin.LinkCheck

/-!
# The chain below an observation

Step 1 looks at observations one at a time: each is signed by a witness that is
not a party of the hop and by the party the hop starts from, and each link is
looked up in the set of ids one `seq` below. Several witnesses may observe one
hop and the list is in no order, so no loop of the source ever walks a chain.

`accepted_chains` says that the chain is there all the same. The induction is on
`seq`: the id an observation names was computed from some observation one below,
which is the end of a chain by hypothesis (`Delegation.exists_chain`). The gap
check is needed for one thing only, that no `seq` is negative.
-/

namespace Preaction.Nenrin

open Preaction.Py Report

variable {R : Runtime}

/-! ## What the loops check -/

/-- An observation signed by its witness, who is neither party of the hop, and by
the party the hop starts from. -/
structure Attested (R : Runtime) (o : Record) (witness sender : Str) : Prop where
  witnessId : o.lookup (lit "witness_id") = some (.str witness)
  senderId : (hopOf o).lookup (lit "from") = some (.str sender)
  notSender : witness ≠ sender
  notReceiver : (hopOf o).lookup (lit "to") ≠ some (.str witness)
  recomputed : recomputes R o .obs "evidence_id" = true
  witnessSigned :
    sigVerifies R (.str witness) (getField o "witness_sig") (preimage o .obs) = true
  edgeSigned : ∃ taskId hop, o.lookup (lit "task_id") = some taskId ∧
    o.lookup (lit "hop") = some hop ∧
    sigVerifies R (.str sender) (getField o "edge_sig") (edgePreimage taskId hop) = true

/-- The body of the loop over the observations. -/
theorem attested_of_observationFault {o : Record} (h : observationFault R true o = none) :
    ∃ witness sender, Attested R o witness sender := by
  simp only [observationFault] at h
  split at h
  next => cases h
  next hind =>
  split at h
  next => cases h
  next hrec =>
  split at h
  next htrue => cases htrue
  next =>
  split at h
  next => cases h
  next hwit =>
  split at h
  next taskId hop htask hhop =>
    have hedge : sigVerifies R (getField (hopOf o) "from") (getField o "edge_sig")
        (edgePreimage taskId hop) = true := by
      by_contra hne
      rw [if_neg hne] at h
      cases h
    rw [Bool.not_eq_true, Bool.not_eq_false'] at hwit
    obtain ⟨⟨w, hw⟩, -⟩ := str_of_sigVerifies hwit
    obtain ⟨⟨f, hf⟩, -⟩ := str_of_sigVerifies hedge
    have hw' := lookup_of_getField_str hw
    have hf' := lookup_of_getField_str hf
    rw [hw', hf', Bool.or_eq_true, not_or] at hind
    refine ⟨w, f, ⟨hw', hf', ?_, ?_, by simpa using hrec, hw ▸ hwit, taskId, hop, htask, hhop,
      hf ▸ hedge⟩⟩
    · rintro rfl
      exact hind.1 (pyEq?_str.mpr rfl)
    · intro hto
      rw [hto] at hind
      exact hind.2 (pyEq?_str.mpr rfl)
  next => cases h

/-- `prev_evidence_id` -/
def prevOf (o : Record) : Option Json := o.lookup (lit "prev_evidence_id")

/-- What the next observation has to name: the recomputed id. -/
def linkValue (R : Runtime) (o : Record) : Option Json := (rid R o .obs).map .str

/-- No `seq` of a gapless list is negative. -/
theorem exists_nat_of_gapless {seqs : List Int} (h : gapless seqs = true) {s : Int}
    (hs : s ∈ seqs) : ∃ n : Nat, s = n := by
  rw [gapless, beq_iff_eq] at h
  have hmem : s ∈ seqs.eraseDups.insertionSort (· ≤ ·) :=
    (List.perm_insertionSort _ _).mem_iff.mpr (List.mem_eraseDups.mpr hs)
  rw [h] at hmem
  obtain ⟨n, -, hn⟩ := List.mem_map.mp hmem
  exact ⟨n, hn.symm⟩

/-! ## An accepted delegation step -/

/-- A delegation step that refuses nothing, with signatures required. -/
structure Delegation (R : Runtime) (obs : List Record) : Prop where
  attested : ∀ o ∈ obs, ∃ witness sender, Attested R o witness sender
  seq : ∀ o ∈ obs, ∃ n : Nat, seqOf o = some (n : Int)
  root : ∀ o ∈ obs, seqOf o = some 0 → prevOf o = some .null
  link : ∀ o ∈ obs, ∀ n : Nat, seqOf o = some ((n + 1 : Nat) : Int) →
    ∃ p ∈ obs, seqOf p = some (n : Int) ∧ prevOf o = linkValue R p

/-- Where there is no gap, no `seq` is negative. -/
theorem exists_nat_of_not_gap {obs : List Record} (h : ¬ Gap obs) {o : Record} (ho : o ∈ obs) :
    ∃ n : Nat, seqOf o = some (n : Int) := by
  obtain ⟨s, hs⟩ := Option.isSome_iff_exists.mp (isSome_of_not_gap h o ho)
  obtain ⟨n, rfl⟩ := exists_nat_of_gapless (gapless_of_not_gap h)
    (List.mem_filterMap.mpr ⟨o, ho, hs⟩)
  exact ⟨n, hs⟩

/-- No element of the list was left out as malformed. -/
theorem exists_dict_of_length {xs : List Json} (h : (dicts xs).length = xs.length) {x : Json}
    (hx : x ∈ xs) : ∃ o ∈ dicts xs, x = .obj o := by
  obtain ⟨o, ho⟩ := Option.isSome_iff_exists.mp (List.filterMap_length_eq_length.mp h x hx)
  refine ⟨o, List.mem_filterMap.mpr ⟨x, hx, ho⟩, ?_⟩
  cases x with
  | obj kvs => rw [← Option.some.inj ho]
  | _ => cases ho

theorem delegation_accepted {rawObs : List Json} {d : Report}
    (h : delegation R true rawObs = .ok d) (hacc : d.Accepted) :
    (∀ x ∈ rawObs, ∃ o ∈ dicts rawObs, x = .obj o) ∧ Delegation R (dicts rawObs) := by
  unfold delegation at h
  split at h
  next hempty =>
    rw [List.isEmpty_iff.mp hempty]
    exact ⟨nofun, nofun, nofun, nofun, nofun⟩
  next =>
    obtain ⟨broken, hchain, h⟩ := Loop.bind_ok.mp h
    obtain rfl := Except.ok.inj h
    simp only [accepted_append, accepted_refuseIf] at hacc
    obtain ⟨⟨⟨hlen, hfaults⟩, rfl⟩, -⟩ := hacc
    have hattested : ∀ o ∈ dicts rawObs, ∃ witness sender, Attested R o witness sender := by
      intro o ho
      rw [Report.Accepted, List.map_eq_nil_iff] at hfaults
      exact attested_of_observationFault (List.filterMap_eq_nil_iff.mp hfaults o ho)
    obtain ⟨hgap, hlinked⟩ := chainFault_ok_none_iff.mp hchain
    refine ⟨fun x hx => exists_dict_of_length ?_ hx, hattested,
      fun o ho => exists_nat_of_not_gap hgap ho, fun o ho h0 => ?_, fun o ho n hn => ?_⟩
    · by_contra hne
      rw [if_neg hne] at hlen
      cases hlen
    · cases hlinked o ho with
      | root hseq hprev => exact hprev
      | hop hseq hs hprev hp hpred hrid => exact absurd (Option.some.inj (hseq.symm.trans h0)) hs
    · cases hlinked o ho with
      | root hseq hprev => exact absurd (Option.some.inj (hseq.symm.trans hn)) (by omega)
      | hop hseq hs hprev hp hpred hrid =>
        obtain rfl := Option.some.inj (hn.symm.trans hseq)
        refine ⟨_, hp, hpred.trans ?_, hprev.trans ?_⟩
        · rw [Nat.cast_succ, add_sub_cancel_right]
        · rw [linkValue, hrid, Option.map_some]

namespace Delegation

variable {obs : List Record}

/-- A chain of observations at `seq` 0 to `n` that ends in `o`. -/
structure ChainTo (R : Runtime) (obs : List Record) (o : Record) (n : Nat) (chain : List Record) :
    Prop where
  mem : ∀ e ∈ chain, e ∈ obs
  seqs : chain.map seqOf = (List.range (n + 1)).map fun i : Nat => some (i : Int)
  last : chain.getLast? = some o
  linked : Chain.Linked prevOf (linkValue R) (some .null) chain

/-- An observation at `n` is the end of a chain. -/
theorem exists_chain (h : Delegation R obs) {o : Record} (ho : o ∈ obs) {n : Nat}
    (hn : seqOf o = some (n : Int)) : ∃ chain, ChainTo R obs o n chain := by
  induction n generalizing o with
  | zero =>
    exact ⟨[o], by simpa using ho, by simp [hn], rfl, h.root o ho hn, trivial⟩
  | succ n ih =>
    obtain ⟨p, hp, hpn, hprev⟩ := h.link o ho n hn
    obtain ⟨chain, hc⟩ := ih hp hpn
    obtain ⟨init, rfl⟩ := List.getLast?_eq_some_iff.mp hc.last
    refine ⟨init ++ [p] ++ [o], ?_, ?_, by simp, ?_⟩
    · intro e he
      rcases List.mem_append.mp he with he | he
      · exact hc.mem e he
      · rwa [List.mem_singleton.mp he]
    · rw [List.map_append, hc.seqs, List.range_succ (n := n + 1), List.map_append, List.map_singleton,
        List.map_singleton, hn]
    · refine Chain.linked_concat.mpr ⟨hc.linked, ?_⟩
      rw [Chain.head_concat, hprev]

end Delegation

/-- **What acceptance says about observations.** With signatures required, in an
accepted bundle every observation is at some `seq` and ends a chain of observations
of the bundle at 0, 1, …, that `seq`: the first names null, each later one the
recomputed id of the one before, and each is attested. -/
theorem accepted_chains {bundle : Record} {r : Report} (h : verify R (.obj bundle) = .ok r)
    (hacc : r.Accepted) (hsigs : requireSignatures bundle = true) {xs : List Json}
    (hobs : getField bundle "observations" = .arr xs) {x : Json} (hx : x ∈ xs) :
    ∃ o n chain, x = .obj o ∧ seqOf o = some (n : Nat) ∧
      Delegation.ChainTo R (dicts xs) o n chain ∧
      ∀ e ∈ chain, ∃ witness sender, Attested R e witness sender := by
  obtain ⟨⟨d, hd, hdacc⟩, -⟩ := verify_accepted h hacc
  have hlist : listAt bundle "observations" = xs := by rw [listAt, hobs]
  rw [hsigs, hlist] at hd
  obtain ⟨hdicts, hdel⟩ := delegation_accepted hd hdacc
  obtain ⟨o, ho, rfl⟩ := hdicts x hx
  obtain ⟨n, hn⟩ := hdel.seq o ho
  obtain ⟨chain, hc⟩ := hdel.exists_chain ho hn
  exact ⟨o, n, chain, rfl, hn, hc, fun e he => hdel.attested e (hc.mem e he)⟩

/-- The second hop of the sample bundle ends a chain of attested observations. -/
theorem sampleBundle_chains : ∃ o n chain, sampleLeaf = .obj o ∧ seqOf o = some (n : Nat) ∧
    Delegation.ChainTo .sample (dicts [sampleRoot, sampleLeaf]) o n chain ∧
    ∀ e ∈ chain, ∃ witness sender, Attested .sample e witness sender := by
  obtain ⟨r, hr, hacc⟩ := sampleBundle_accepted
  have hobs : getField sampleBundle "observations" = .arr [sampleRoot, sampleLeaf] := rfl
  exact accepted_chains hr hacc (by decide) hobs (by simp)

end Preaction.Nenrin
