import Preaction.Lib.Keyed
import Preaction.ProcedureManifest.Ordering

/-!
# How `ordering` reads the claims

`ordering` first reads the log, which has nothing to do with the claims, and
then goes through the claims until one does not resolve to its own entry. This
file separates the two (`ordering_eq`) and says on what the second depends: on
the claims as values, in attempt order (`orderClaims_alike`). The loop stops at
the first claim that does not resolve, so a claim whose proof cannot be read
raises only where all claims of lower attempts resolve (`ProofsRead`).
-/

namespace Preaction.ProcedureManifest

open Preaction.Py Preaction.Bip340 Preaction.Loop

variable (R : Runtime) (C : Secp)

/-! ## The log and the claims -/

/-- What the log alone decides. -/
inductive LogRead
  | decided (order : Term) (why : Reason)
  | indexed (byHash : List (Str × Json)) (dseq : List Json)

/-- `ordering`, up to the loop over the claims. -/
def readLog (pkg acq ds : Json) : Except PyError LogRead := do
  let log ← pkg.get (lit "ordering_log")
  let anchor ← acq.get (lit "ordering_anchor_pubkey")
  if !log.truthy || !anchor.truthy then return .decided .cannotEstablish .noOrderingMechanism
  let entries ← (← log.getD (lit "entries") (.arr [])).iter
  match ← chainEntries R 0 zero [] entries with
  | .broken i => return .decided .cannotEstablish (.entryDoesNotChain i)
  | .upTo prev byHash =>
    let cp := (← log.get (lit "checkpoint")).orElse (.obj [])
    if !(← checkpointOk R C cp anchor prev entries.length) then
      return .decided .cannotEstablish .checkpointNotAttested
    let disputes ← filterE (refersTo R (lit "dispute_commitment") ds) (byHash.map (·.2))
    let dseq ← disputes.mapM (·.item (lit "seq"))
    if dseq.isEmpty then return .decided .cannotEstablish .disputeNotInLog
    return .indexed byHash dseq

/-- `ordering`, from the loop over the claims on. -/
def orderClaims (byHash : List (Str × Json)) (dseq claims : List Json) :
    Except PyError (Term × Option Reason) := do
  match ← claimSeqs R byHash claims with
  | none => return (.cannotEstablish, some .orderingProofUnresolved)
  | some cseq =>
    if ← disputeAfter dseq cseq then return (.fails, some .disputeAfterClaim)
    return (.holds, none)

def afterLog (claims : List Json) : LogRead → Except PyError (Term × Option Reason)
  | .decided order why => .ok (order, some why)
  | .indexed byHash dseq => orderClaims R byHash dseq claims

theorem ordering_eq (pkg acq ds : Json) (claims : List Json) :
    ordering R C pkg acq ds claims = readLog R C pkg acq ds >>= afterLog R claims := by
  unfold ordering readLog
  cases pkg.get (lit "ordering_log") with
  | error e => rfl
  | ok log =>
    cases acq.get (lit "ordering_anchor_pubkey") with
    | error e => rfl
    | ok anchor =>
      dsimp only [bind, Except.bind]
      cases !log.truthy || !anchor.truthy with
      | true => rfl
      | false =>
        cases log.getD (lit "entries") (.arr []) with
        | error e => rfl
        | ok field =>
          dsimp only
          cases field.iter with
          | error e => rfl
          | ok entries =>
            dsimp only
            cases chainEntries R 0 zero [] entries with
            | error e => rfl
            | ok chained =>
              cases chained with
              | broken i => rfl
              | upTo prev byHash =>
                cases log.get (lit "checkpoint") with
                | error e => rfl
                | ok cp =>
                  dsimp only
                  cases checkpointOk R C (cp.orElse (.obj [])) anchor prev entries.length with
                  | error e => rfl
                  | ok attested =>
                    cases attested with
                    | false => rfl
                    | true =>
                      dsimp only
                      cases filterE (refersTo R (lit "dispute_commitment") ds)
                        (byHash.map (·.2)) with
                      | error e => rfl
                      | ok disputes =>
                        dsimp only
                        cases disputes.mapM (·.item (lit "seq")) with
                        | error e => rfl
                        | ok dseq =>
                          dsimp only
                          cases dseq with
                          | nil => rfl
                          | cons x xs => rfl

/-- The values are positions in a log. -/
def Positions (xs : List Json) : Prop := ∀ x ∈ xs, ∃ n, Json.pyLeaf x = .int n

/-- Every entry of the index stands at the position it writes, and some of them
commit the dispute. -/
theorem readLog_indexed {pkg acq ds : Json} {byHash : List (Str × Json)} {dseq : List Json}
    (h : readLog R C pkg acq ds = .ok (.indexed byHash dseq)) :
    Positions (byHash.map fun b => b.2.find (lit "seq")) ∧ Positions dseq ∧ dseq ≠ [] := by
  obtain ⟨log, -, h⟩ := bind_ok.mp h
  obtain ⟨anchor, -, h⟩ := bind_ok.mp h
  split at h
  next => cases h
  obtain ⟨field, -, h⟩ := bind_ok.mp h
  obtain ⟨entries, -, h⟩ := bind_ok.mp h
  obtain ⟨chained, hch, h⟩ := bind_ok.mp h
  cases chained with
  | broken i => cases h
  | upTo prev idx =>
    obtain ⟨cp, -, h⟩ := bind_ok.mp h
    obtain ⟨attested, -, h⟩ := bind_ok.mp h
    cases attested with
    | false => cases h
    | true =>
      obtain ⟨disputes, hdis, h⟩ := bind_ok.mp h
      obtain ⟨seqs, hseqs, h⟩ := bind_ok.mp h
      split at h
      next => cases h
      next hne =>
        cases h
        obtain ⟨-, -, hat, hidx⟩ := chainEntries_upTo R hch
        have hpos : ∀ b ∈ byHash, ∃ n, Json.pyLeaf (b.2.find (lit "seq")) = .int n := by
          intro b hb
          obtain ⟨hmem, -⟩ := (hidx b hb).resolve_left nofun
          obtain ⟨j, hj⟩ := List.mem_iff_getElem?.mp hmem
          exact ⟨_, (hat j _ hj).1⟩
        refine ⟨List.forall_mem_map.mpr hpos, fun x hx => ?_, by simpa using hne⟩
        obtain ⟨e, he, hex⟩ := exists_of_mem_mapM hseqs hx
        obtain ⟨b, hb, rfl⟩ := List.mem_map.mp ((mem_filterE hdis).mp he).1
        rw [Json.item_eq_find hex]
        exact hpos b hb

/-! ## One claim of the loop -/

/-- The position that a claim's ordering proof resolves to, none where it does not. -/
def claimSeq (byHash : List (Str × Json)) (c : Json) : Except PyError (Option Json) := do
  match ← byHashGet byHash (← c.get (lit "ordering_proof")) with
  | none => return none
  | some e =>
    if !(← refersTo R (lit "claim") (claimCore c) e) then return none
    return some (← e.item (lit "seq"))

theorem claimSeqs_cons (byHash : List (Str × Json)) (c : Json) (cs : List Json) :
    claimSeqs R byHash (c :: cs) = claimSeq R byHash c >>= fun
      | none => .ok none
      | some seq => (claimSeqs R byHash cs).map (·.map (seq :: ·)) := by
  rw [claimSeqs, claimSeq]
  cases c.get (lit "ordering_proof") with
  | error e => rfl
  | ok proof =>
    dsimp only [bind, Except.bind]
    cases byHashGet byHash proof with
    | error e => rfl
    | ok found =>
      cases found with
      | none => rfl
      | some e =>
        dsimp only
        cases refersTo R (lit "claim") (claimCore c) e with
        | error e => rfl
        | ok own =>
          cases own with
          | false => rfl
          | true =>
            dsimp only
            cases e.item (lit "seq") with
            | error e => rfl
            | ok seq =>
              dsimp only
              cases claimSeqs R byHash cs <;> rfl

theorem hashable_sameValue {a b : Json} (h : Json.SameValue a b) (ha : a.hashable = .ok ()) :
    b = a := by
  cases a with
  | arr xs => cases ha
  | obj kvs => cases ha
  | _ => cases b <;> first | exact h.symm | cases h

theorem claimCore_sameValue {c c' : Json} (h : Json.SameValue c c') :
    Json.SameValue (claimCore c) (claimCore c') := by
  have hrun := h.find (lit "run_id")
  have hattempt := h.find (lit "attempt_id")
  have hrequest := h.find (lit "request_hash")
  unfold Json.SameValue at *
  simp only [claimCore, Json.normWith, Json.normKvs, hrun, hattempt, hrequest]

theorem claimSeq_sameValue {byHash : List (Str × Json)} {c c' : Json}
    (h : Json.SameValue c c') {q : Option Json} (hq : claimSeq R byHash c = .ok q) :
    claimSeq R byHash c' = .ok q := by
  obtain ⟨proof, hproof, hq⟩ := bind_ok.mp hq
  obtain ⟨found, hfound, hq⟩ := bind_ok.mp hq
  have hhash : proof.hashable = .ok () := by
    obtain ⟨_, hhash, _⟩ := bind_ok.mp hfound
    exact hhash
  have hproof' : c'.get (lit "ordering_proof") = .ok proof := by
    have hobj : ∃ kvs, c' = .obj kvs := by
      cases c with
      | obj kvs => exact Json.obj_of_pySame (Json.pySame_symm h.pySame)
      | _ => cases hproof
    obtain ⟨kvs, rfl⟩ := hobj
    have hfind := h.find (lit "ordering_proof")
    rw [← Json.get_eq_find hproof] at hfind
    rw [← hashable_sameValue hfind hhash]
    rfl
  refine bind_ok.mpr ⟨proof, hproof', bind_ok.mpr ⟨found, hfound, ?_⟩⟩
  cases found with
  | none => exact hq
  | some e =>
    have hrefers : refersTo R (lit "claim") (claimCore c') e =
        refersTo R (lit "claim") (claimCore c) e := by
      rw [refersTo, refersTo, H_of_sameValue (claimCore_sameValue h)]
    dsimp only at hq ⊢
    rw [hrefers]
    exact hq

/-! ## The loop over the claims -/

/-- The claim's ordering proof resolves to its own entry. -/
def Resolves (byHash : List (Str × Json)) (c : Json) : Prop :=
  ∃ seq, claimSeq R byHash c = .ok (some seq)

theorem claimSeqs_resolves {byHash : List (Str × Json)} {cs : List Json}
    (h : ∀ c ∈ cs, Resolves R byHash c) : ∃ cseq, claimSeqs R byHash cs = .ok (some cseq) ∧
      ∀ q, q ∈ cseq ↔ ∃ c ∈ cs, claimSeq R byHash c = .ok (some q) := by
  induction cs with
  | nil => exact ⟨[], rfl, by simp⟩
  | cons c cs ih =>
    obtain ⟨⟨seq, hseq⟩, hcs⟩ := List.forall_mem_cons.mp h
    obtain ⟨cseq, hcseq, hmem⟩ := ih hcs
    refine ⟨seq :: cseq, ?_, fun q => ?_⟩
    · rw [claimSeqs_cons, hseq, hcseq]
      rfl
    · rw [List.mem_cons, hmem, List.exists_mem_cons_iff, hseq, Except.ok.injEq,
        Option.some.injEq, eq_comm]

/-- The loop stops at the first claim that does not resolve. -/
theorem claimSeqs_stops {byHash : List (Str × Json)} {before : List Json} {c : Json}
    (hb : ∀ b ∈ before, Resolves R byHash b) (hc : ¬ Resolves R byHash c) (later : List Json) :
    claimSeqs R byHash (before ++ c :: later) = (claimSeq R byHash c).map fun _ => none := by
  induction before with
  | nil =>
    rw [List.nil_append, claimSeqs_cons]
    cases hq : claimSeq R byHash c with
    | error e => rfl
    | ok q =>
      cases q with
      | none => rfl
      | some seq => exact absurd ⟨seq, hq⟩ hc
  | cons b before ih =>
    obtain ⟨⟨seq, hseq⟩, hbefore⟩ := List.forall_mem_cons.mp hb
    rw [List.cons_append, claimSeqs_cons, hseq]
    change (claimSeqs R byHash (before ++ c :: later)).map _ = _
    rw [ih hbefore]
    cases claimSeq R byHash c <;> rfl

/-! ## The minima -/

/-- The comparison of two minima does not depend on order and repetition. -/
theorem disputeAfter_sameElems {dseq cseq cseq' : List Json} (hd : Positions dseq)
    (hne : dseq ≠ []) (hc : Positions cseq) (h : SameElems cseq cseq') :
    ∃ b, disputeAfter dseq cseq = .ok b ∧ disputeAfter dseq cseq' = .ok b := by
  by_cases hnil : cseq = []
  · rw [h.eq_nil_iff.mp hnil, hnil]
    exact ⟨false, rfl, rfl⟩
  · have hnil' : cseq' ≠ [] := fun hnil' => hnil (h.eq_nil_iff.mpr hnil')
    have hc' : Positions cseq' := fun x hx => hc x ((h x).mpr hx)
    obtain ⟨d, k, hdmin, -, hk, -⟩ := Json.pyMin_spec hd hne
    obtain ⟨x, m, hx, hxmem, hm, hxleast⟩ := Json.pyMin_spec hc hnil
    obtain ⟨y, n, hy, hymem, hn, hyleast⟩ := Json.pyMin_spec hc' hnil'
    have hmn : m = n := by
      have hle := hxleast y ((h y).mpr hymem) n hn
      have hge := hyleast x ((h x).mp hxmem) m hm
      omega
    refine ⟨decide (m < k), ?_, ?_⟩
    · rw [disputeAfter, if_neg (by simpa using hnil), hx, hdmin]
      exact Json.pyLt_int hm hk
    · rw [disputeAfter, if_neg (by simpa using hnil'), hy, hdmin, hmn]
      exact Json.pyLt_int hn hk

/-! ## Two lists of the same claims -/

section
variable {byHash : List (Str × Json)} {dseq cs cs' : List Json} {key : Json → Nat}
  (hidx : Positions (byHash.map fun b => b.2.find (lit "seq"))) (hd : Positions dseq)
  (hne : dseq ≠ [])
include hidx hd hne

/-- Claims that all resolve are ordered alike. -/
theorem orderClaims_resolves (h : SameElems cs cs') (hall : ∀ c ∈ cs, Resolves R byHash c) :
    ∃ r, orderClaims R byHash dseq cs = .ok r ∧ orderClaims R byHash dseq cs' = .ok r := by
  obtain ⟨cseq, hcseq, hmem⟩ := claimSeqs_resolves R hall
  obtain ⟨cseq', hcseq', hmem'⟩ := claimSeqs_resolves R fun c hc => hall c ((h c).mpr hc)
  have hpos : Positions cseq := by
    intro x hx
    obtain ⟨b, hb, rfl⟩ := (claimSeqs_ok R hcseq).2 x hx
    exact hidx _ (List.mem_map_of_mem hb)
  have hsame : SameElems cseq cseq' := by
    intro q
    rw [hmem, hmem']
    exact exists_congr fun c => and_congr_left fun _ => h c
  obtain ⟨after, hafter, hafter'⟩ := disputeAfter_sameElems hd hne hpos hsame
  rw [orderClaims, orderClaims, hcseq, hcseq']
  change ∃ r, (disputeAfter dseq cseq >>= _) = _ ∧ (disputeAfter dseq cseq' >>= _) = _
  rw [hafter, hafter']
  cases after <;> exact ⟨_, rfl, rfl⟩

/-- Two sorted lists of the same claims, one value for each key, are ordered alike. -/
theorem orderClaims_alike (h : SameElems cs cs') (hcs : Keyed.Sorted key cs)
    (hcs' : Keyed.Sorted key cs')
    (hone : ∀ a ∈ cs, ∀ b ∈ cs, key a = key b → Json.SameValue a b) {r : Term × Option Reason}
    (hr : orderClaims R byHash dseq cs = .ok r) : orderClaims R byHash dseq cs' = .ok r := by
  rcases Keyed.forall_or_exists_first (Resolves R byHash) cs with
    hall | ⟨before, c, later, rfl, hb, hc⟩
  · obtain ⟨r', hr', hr''⟩ := orderClaims_resolves R hidx hd hne h hall
    rw [hr] at hr'
    rwa [Except.ok.inj hr']
  · have hcmem : c ∈ before ++ c :: later := List.mem_append_right _ (List.mem_cons_self ..)
    obtain ⟨before', c', later', rfl, hlt, hkey⟩ := Keyed.exists_split_key hcs' ((h c).mp hcmem)
    have hb' : ∀ b ∈ before', Resolves R byHash b := by
      intro b hbm
      have hbcs := (h b).mpr (List.mem_append_left _ hbm)
      exact hb b (Keyed.mem_before_of_key_lt hcs hbcs (hlt b hbm))
    have hc'mem : c' ∈ before ++ c :: later :=
      (h c').mpr (List.mem_append_right _ (List.mem_cons_self ..))
    rw [orderClaims, claimSeqs_stops R hb hc] at hr
    cases hq : claimSeq R byHash c with
    | error e =>
      rw [hq] at hr
      cases hr
    | ok q =>
      -- the claim of the other list is the same value, and does not resolve either
      have hq' := claimSeq_sameValue R (hone c hcmem c' hc'mem hkey.symm) hq
      have hc' : ¬ Resolves R byHash c' := by
        rintro ⟨seq, hseq⟩
        rw [hq'] at hseq
        exact hc ⟨seq, hq.trans hseq⟩
      rw [hq] at hr
      rw [orderClaims, claimSeqs_stops R hb' hc', hq']
      exact hr

/-- No claim that the loop can reach raises. -/
def ProofsRead (byHash : List (Str × Json)) (key : Json → Nat) (cs : List Json) : Prop :=
  ∀ c ∈ cs, (∀ b ∈ cs, key b < key c → Resolves R byHash b) → ∃ q, claimSeq R byHash c = .ok q

theorem orderClaims_ok (h : SameElems cs cs') (hcs' : Keyed.Sorted key cs')
    (hread : ProofsRead R byHash key cs) : ∃ r, orderClaims R byHash dseq cs' = .ok r := by
  rcases Keyed.forall_or_exists_first (Resolves R byHash) cs' with
    hall | ⟨before, c, later, rfl, hb, hc⟩
  · obtain ⟨r, hr, -⟩ := orderClaims_resolves R hidx hd hne (SameElems.refl cs') hall
    exact ⟨r, hr⟩
  · have hcmem : c ∈ before ++ c :: later := List.mem_append_right _ (List.mem_cons_self ..)
    have hlower : ∀ b ∈ cs, key b < key c → Resolves R byHash b := by
      intro b hbm hlt
      exact hb b (Keyed.mem_before_of_key_lt hcs' ((h b).mp hbm) hlt)
    obtain ⟨q, hq⟩ := hread c ((h c).mpr hcmem) hlower
    rw [orderClaims, claimSeqs_stops R hb hc, hq]
    exact ⟨_, rfl⟩

end

/-- A claim that raises where its key begins makes `ordering` raise. -/
theorem orderClaims_error {byHash : List (Str × Json)} {dseq before later : List Json} {c : Json}
    {e : PyError} (hb : ∀ b ∈ before, Resolves R byHash b) (hc : claimSeq R byHash c = .error e) :
    orderClaims R byHash dseq (before ++ c :: later) = .error e := by
  have hstops : ¬ Resolves R byHash c := by
    rintro ⟨seq, hseq⟩
    rw [hc] at hseq
    cases hseq
  rw [orderClaims, claimSeqs_stops R hb hstops, hc]
  rfl

end Preaction.ProcedureManifest
