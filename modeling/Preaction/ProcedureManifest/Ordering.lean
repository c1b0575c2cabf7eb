import Mathlib.Logic.Equiv.Basic
import Preaction.Lib.Chain
import Preaction.ProcedureManifest.Model

/-!
# C16 — what an attested ordering log establishes

`authorized_execution` can only be true when `ordering` is. This file says
what that gives: a linked log (`Chain.Linked` under `prev` and `entry_hash`)
in which the dispute commitment stands strictly before the entry of every
provider-attested claim, and of which the attested head is a commitment to
every entry.

The order of the proof is the order of the code. `chainEntries_upTo` is the
invariant of the loop over the entries; `ordering_holds` adds the dispute
commitment, the claims and the two minima; `evaluate_authorized` goes from
the reported term back to `ordering`. The agreement of two logs with one
head is then `Chain.Linked.forall₂_of_head_eq`.
-/

namespace Preaction.ProcedureManifest

open Preaction.Py Preaction.Bip340 Preaction.Loop

variable (R : Runtime) (C : Secp)

/-- SHA-256 over canonical JSON is injective: one hash, one canonical value. -/
def CanonInjective : Prop :=
  ∀ a b h, H R a = .ok h → H R b = .ok h → Json.normWith id a = Json.normWith id b

/-- It is when SHA-256 is and doubles print injectively. -/
theorem canonInjective_of_injective (hsha : Function.Injective R.sha256)
    (hf : R.dumpsFormat.Lawful) : CanonInjective R := by
  intro a b h ha hb
  obtain ⟨x, hx, hxh⟩ := bind_ok.mp ha
  obtain ⟨y, hy, hyh⟩ := bind_ok.mp hb
  have hxy : R.sha256Hex y = R.sha256Hex x := Except.ok.inj (hyh.trans hxh.symm)
  obtain rfl := hsha (hexStr_injective hxy)
  exact R.normWith_eq_of_canonText_eq hf (utf8_injective hx hy)

variable {R} in
/-- One value has one hash. -/
theorem H_of_sameValue {a b : Json} (h : Json.SameValue a b) : H R a = H R b := by
  unfold Json.SameValue at h
  rw [H, H, canon, canon, Runtime.canonText, Runtime.canonText, h]

/-! ## The loop over the entries -/

/-- `e["prev"]` -/
def prevOf (e : Json) : Json := e.find (lit "prev")

/-- `e["entry_hash"]` -/
def linkOf (e : Json) : Json := e.find (lit "entry_hash")

/-- Entry `e` stands at position `i`, under its own hash. -/
def EntryAt (i : Nat) (e : Json) : Prop :=
  Json.pyLeaf (e.find (lit "seq")) = .int i ∧ ∃ h, H R (entryCore e) = .ok h ∧ linkOf e = .str h

/-- One turn of the loop that goes on. -/
theorem chainEntries_cons {i : Nat} {prev head : Str} {byHash byHash' : List (Str × Json)}
    {e : Json} {es : List Json}
    (h : chainEntries R i prev byHash (e :: es) = .ok (.upTo head byHash')) :
    EntryAt R i e ∧ prevOf e = .str prev ∧ ∃ link, linkOf e = .str link ∧
      chainEntries R (i + 1) link (setKey link e byHash) es = .ok (.upTo head byHash') := by
  obtain ⟨seq, hseq, h⟩ := bind_ok.mp h
  split at h
  next => cases h
  next hs =>
    split at h
    next => cases h
    next hp =>
      obtain ⟨link, hlink, h⟩ := bind_ok.mp h
      split at h
      next => cases h
      next hl =>
        simp only [Bool.not_eq_true, Bool.not_eq_false'] at hs hp hl
        rw [Json.get_eq_find hseq, Json.pyEq_int] at hs
        rw [Json.pyEq_str] at hp hl
        exact ⟨⟨hs, link, hlink, hl⟩, hp, link, hl, h⟩

/-- What a loop that reaches the end has checked: the entries are linked, each
stands at its position under its own hash, and every entry of the index is one
of them under its hash. -/
theorem chainEntries_upTo {i : Nat} {prev head : Str} {byHash byHash' : List (Str × Json)}
    {es : List Json} (h : chainEntries R i prev byHash es = .ok (.upTo head byHash')) :
    Chain.Linked prevOf linkOf (.str prev) es ∧ Chain.head linkOf (.str prev) es = .str head ∧
      (∀ j e, es[j]? = some e → EntryAt R (i + j) e) ∧
      ∀ b ∈ byHash', b ∈ byHash ∨ b.2 ∈ es ∧ linkOf b.2 = .str b.1 := by
  induction es generalizing i prev byHash with
  | nil =>
    cases h
    exact ⟨trivial, rfl, nofun, fun b hb => Or.inl hb⟩
  | cons e es ih =>
    obtain ⟨hat, hprev, link, hlink, hrest⟩ := chainEntries_cons R h
    obtain ⟨hlinked, hhead, hents, hidx⟩ := ih hrest
    refine ⟨⟨hprev, hlink ▸ hlinked⟩, ?_, fun j e' he' => ?_, fun b hb => ?_⟩
    · rw [Chain.head, hlink, hhead]
    · cases j with
      | zero =>
        obtain rfl := Option.some.inj he'
        exact hat
      | succ j =>
        have := hents j e' he'
        rwa [Nat.add_assoc, Nat.add_comm 1 j] at this
    · rcases hidx b hb with hb | ⟨hb, hbl⟩
      · rcases mem_of_mem_setKey hb with rfl | hb
        · exact Or.inr ⟨List.mem_cons_self .., hlink⟩
        · exact Or.inl hb
      · exact Or.inr ⟨List.mem_cons_of_mem _ hb, hbl⟩

/-- `e["kind"] == kind and e["ref"] == H(x)`, as a fact about the entry. -/
def RefersTo (kind : Str) (x e : Json) : Prop :=
  e.find (lit "kind") = .str kind ∧ ∃ h, H R x = .ok h ∧ e.find (lit "ref") = .str h

theorem refersTo_ok {kind : Str} {x e : Json} (h : refersTo R kind x e = .ok true) :
    RefersTo R kind x e := by
  obtain ⟨k, hk, h⟩ := bind_ok.mp h
  split at h
  next => cases h
  next hkind =>
    obtain ⟨r, hr, h⟩ := bind_ok.mp h
    obtain ⟨hx, hhx, h⟩ := bind_ok.mp h
    simp only [Bool.not_eq_true, Bool.not_eq_false'] at hkind
    have hr' := Except.ok.inj h
    rw [Json.pyEq_str] at hkind hr'
    exact ⟨Json.item_eq_find hk ▸ hkind, hx, hhx, Json.item_eq_find hr ▸ hr'⟩

/-- The loop over the claims: each resolves to an entry of the index that is
its own, and `cseq` holds that entry's position. -/
theorem claimSeqs_ok {byHash : List (Str × Json)} {cs cseq : List Json}
    (h : claimSeqs R byHash cs = .ok (some cseq)) :
    (∀ c ∈ cs, ∃ link e, c.find (lit "ordering_proof") = .str link ∧ (link, e) ∈ byHash ∧
      RefersTo R (lit "claim") (claimCore c) e ∧ e.find (lit "seq") ∈ cseq) ∧
    ∀ x ∈ cseq, ∃ b ∈ byHash, x = b.2.find (lit "seq") := by
  induction cs generalizing cseq with
  | nil =>
    cases h
    exact ⟨nofun, nofun⟩
  | cons c cs ih =>
    obtain ⟨proof, hproof, h⟩ := bind_ok.mp h
    obtain ⟨found, hfound, h⟩ := bind_ok.mp h
    cases found with
    | none => cases h
    | some e =>
      obtain ⟨own, hown, h⟩ := bind_ok.mp h
      cases own with
      | false => cases h
      | true =>
        obtain ⟨seq, hseq, h⟩ := bind_ok.mp h
        obtain ⟨rest, hrest, h⟩ := bind_ok.mp h
        cases rest with
        | none => cases h
        | some rest =>
          obtain rfl := Option.some.inj (Except.ok.inj h)
          obtain ⟨hcs, hmem⟩ := ih hrest
          obtain ⟨link, hlink, hlook⟩ : ∃ link, proof = .str link ∧ byHash.lookup link = some e := by
            obtain ⟨-, -, hf⟩ := bind_ok.mp hfound
            cases proof with
            | str s => exact ⟨s, rfl, Except.ok.inj hf⟩
            | _ => cases hf
          have hbyHash := mem_of_lookup hlook
          refine ⟨fun c' hc' => ?_, fun x hx => ?_⟩
          · rcases List.mem_cons.mp hc' with rfl | hc'
            · exact ⟨link, e, Json.get_eq_find hproof ▸ hlink, hbyHash, refersTo_ok R hown,
                Json.item_eq_find hseq ▸ List.mem_cons_self ..⟩
            · obtain ⟨l, e', h1, h2, h3, h4⟩ := hcs c' hc'
              exact ⟨l, e', h1, h2, h3, List.mem_cons_of_mem _ h4⟩
          · rcases List.mem_cons.mp hx with rfl | hx
            · exact ⟨_, hbyHash, Json.item_eq_find hseq⟩
            · exact hmem x hx

/-- On positions, `cseq and min(dseq) > min(cseq)` being false says that some
dispute position is not above any claim position. -/
theorem disputeAfter_false {dseq cseq : List Json} (hne : dseq ≠ [])
    (hd : ∀ x ∈ dseq, ∃ n, Json.pyLeaf x = .int n) (hc : ∀ x ∈ cseq, ∃ n, Json.pyLeaf x = .int n)
    (h : disputeAfter dseq cseq = .ok false) : ∃ x ∈ dseq, ∃ n, Json.pyLeaf x = .int n ∧
      ∀ y ∈ cseq, ∀ k, Json.pyLeaf y = .int k → n ≤ k := by
  obtain ⟨x, n, hx, hxmem, hxn, -⟩ := Json.pyMin_spec hd hne
  refine ⟨x, hxmem, n, hxn, fun y hy k hk => ?_⟩
  have hcne : cseq ≠ [] := List.ne_nil_of_mem hy
  obtain ⟨z, m, hz, -, hzm, hleast⟩ := Json.pyMin_spec hc hcne
  rw [disputeAfter, if_neg (by simpa using hcne), hx, hz] at h
  have hlt := (Json.pyLt_int hzm hxn).symm.trans h
  simp only [Except.ok.injEq, decide_eq_false_iff_not, not_lt] at hlt
  exact hlt.trans (hleast y hy k hk)

/-! ## The log of a package -/

/-- The entries of the ordering log. -/
def logEntries (pkg : Json) : Except PyError (List Json) := do
  (← (← pkg.get (lit "ordering_log")).getD (lit "entries") (.arr [])).iter

/-- The head that the log's checkpoint carries. -/
def checkpointHead (pkg : Json) : Json :=
  ((pkg.find (lit "ordering_log")).find (lit "checkpoint")).find (lit "head")

/-- The dispute state is committed at position `d`. -/
def DisputeAt (ds : Json) (entries : List Json) (d : Nat) : Prop :=
  ∃ e, entries[d]? = some e ∧ RefersTo R (lit "dispute_commitment") ds e

/-- The claim has its own entry at position `p`, the one its ordering proof names. -/
def ClaimAt (c : Json) (entries : List Json) (p : Nat) : Prop :=
  ∃ e, entries[p]? = some e ∧ linkOf e = c.find (lit "ordering_proof") ∧
    RefersTo R (lit "claim") (claimCore c) e

/-- A log that the loop went through to the end. -/
structure Chains (entries : List Json) (head : Str) : Prop where
  linked : Chain.Linked prevOf linkOf (.str zero) entries
  head_eq : Chain.head linkOf (.str zero) entries = .str head
  entryAt : ∀ j e, entries[j]? = some e → EntryAt R j e

theorem checkpointOk_head {cp anchor : Json} {prev : Str} {n : Nat}
    (h : checkpointOk R C cp anchor prev n = .ok true) : cp.find (lit "head") = .str prev := by
  obtain ⟨hd, hhd, h⟩ := bind_ok.mp h
  split at h
  next => cases h
  next hp =>
    simp only [Bool.not_eq_true, Bool.not_eq_false'] at hp
    exact Json.get_eq_find hhd ▸ (Json.pyEq_str _ _).mp hp

theorem find_of_find_orElse {x : Json} {k t : Str} (h : (x.orElse (.obj [])).find k = .str t) :
    x.find k = .str t := by
  unfold Json.orElse at h
  split at h
  · exact h
  · cases h

/-- **`ordering` is `"true"`.** The log chains up to the head of its checkpoint,
the dispute state is committed in it, and each claim has its own entry behind
that commitment. -/
theorem ordering_holds {pkg acq ds : Json} {claims : List Json} {why : Option Reason}
    (h : ordering R C pkg acq ds claims = .ok (.holds, why)) :
    ∃ entries head, logEntries pkg = .ok entries ∧ checkpointHead pkg = .str head ∧
      Chains R entries head ∧ ∃ d, DisputeAt R ds entries d ∧
      ∀ c ∈ claims, ∃ p, ClaimAt R c entries p ∧ d < p := by
  obtain ⟨log, hlog, h⟩ := bind_ok.mp h
  obtain ⟨anchor, -, h⟩ := bind_ok.mp h
  split at h
  next => cases h
  obtain ⟨ents, hents, h⟩ := bind_ok.mp h
  obtain ⟨entries, hentries, h⟩ := bind_ok.mp h
  obtain ⟨ch, hch, h⟩ := bind_ok.mp h
  cases ch with
  | broken i => cases h
  | upTo prev byHash =>
    obtain ⟨cp, hcp, h⟩ := bind_ok.mp h
    obtain ⟨okCp, hok, h⟩ := bind_ok.mp h
    cases okCp with
    | false => cases h
    | true =>
      obtain ⟨disputes, hdis, h⟩ := bind_ok.mp h
      obtain ⟨dseq, hdseq, h⟩ := bind_ok.mp h
      split at h
      next => cases h
      next hne =>
        obtain ⟨cseq, hcseq, h⟩ := bind_ok.mp h
        cases cseq with
        | none => cases h
        | some cseq =>
          obtain ⟨after, hafter, h⟩ := bind_ok.mp h
          cases after with
          | true => cases h
          | false =>
            obtain ⟨hlinked, hhead, hat, hidx⟩ := chainEntries_upTo R hch
            -- every entry of the index stands at the position it writes
            have hpos : ∀ b ∈ byHash, linkOf b.2 = .str b.1 ∧
                ∃ j, entries[j]? = some b.2 ∧ Json.pyLeaf (b.2.find (lit "seq")) = .int (j : Nat) := by
              intro b hb
              obtain ⟨hmem, hlink⟩ := (hidx b hb).resolve_left nofun
              obtain ⟨j, hj⟩ := List.mem_iff_getElem?.mp hmem
              exact ⟨hlink, j, hj, by simpa using (hat j _ hj).1⟩
            obtain ⟨hclaims, hcmem⟩ := claimSeqs_ok R hcseq
            have hdmem : ∀ x ∈ dseq, ∃ b ∈ byHash, x = b.2.find (lit "seq") ∧
                RefersTo R (lit "dispute_commitment") ds b.2 := by
              intro x hx
              obtain ⟨e, he, hex⟩ := exists_of_mem_mapM hdseq hx
              obtain ⟨hemem, href⟩ := (mem_filterE hdis).mp he
              obtain ⟨b, hb, rfl⟩ := List.mem_map.mp hemem
              exact ⟨b, hb, Json.item_eq_find hex, refersTo_ok R href⟩
            obtain ⟨x, hx, n, hn, hleast⟩ := disputeAfter_false (by simpa using hne)
              (fun x hx => by
                obtain ⟨b, hb, rfl, -⟩ := hdmem x hx
                obtain ⟨-, j, -, hj⟩ := hpos b hb
                exact ⟨j, hj⟩)
              (fun x hx => by
                obtain ⟨b, hb, rfl⟩ := hcmem x hx
                obtain ⟨-, j, -, hj⟩ := hpos b hb
                exact ⟨j, hj⟩) hafter
            obtain ⟨b, hb, rfl, href⟩ := hdmem x hx
            obtain ⟨-, d, hd, hdn⟩ := hpos b hb
            obtain rfl : n = (d : Int) := by rw [hdn] at hn; exact (Json.int.inj hn).symm
            obtain rfl := Json.get_eq_find hlog
            obtain rfl := Json.get_eq_find hcp
            refine ⟨entries, prev, ?_, find_of_find_orElse (checkpointOk_head R C hok),
              ⟨hlinked, hhead, fun j e he => by simpa using hat j e he⟩, d, ⟨b.2, hd, href⟩, ?_⟩
            · exact bind_ok.mpr ⟨_, hlog, bind_ok.mpr ⟨_, hents, hentries⟩⟩
            · intro c hc
              obtain ⟨link, e, hproof, he, hrefe, hseq⟩ := hclaims c hc
              obtain ⟨hlink, p, hp, hpn⟩ := hpos (link, e) he
              refine ⟨p, ⟨e, hp, hlink.trans hproof.symm, hrefe⟩, ?_⟩
              have hle : (d : Int) ≤ p := hleast _ hseq _ hpn
              refine lt_of_le_of_ne (by omega) ?_
              -- the two entries are of different kinds
              rintro rfl
              rw [hd] at hp
              obtain rfl := Option.some.inj hp
              have := href.1.symm.trans hrefe.1
              revert this
              decide

/-! ## Two logs with one head -/

/-- The two entries have the same `seq`, `kind`, `ref` and `prev`, as canonical
JSON tells values apart. -/
def SameEntry (a b : Json) : Prop :=
  Json.normWith id (entryCore a) = Json.normWith id (entryCore b)

theorem SameEntry.seq {a b : Json} (h : SameEntry a b) :
    Json.normWith id (a.find (lit "seq")) = Json.normWith id (b.find (lit "seq")) :=
  Option.some.inj (Json.lookup_of_normWith_obj_eq h (lit "seq"))

theorem SameEntry.prev {a b : Json} (h : SameEntry a b) :
    Json.normWith id (prevOf a) = Json.normWith id (prevOf b) :=
  Option.some.inj (Json.lookup_of_normWith_obj_eq h (lit "prev"))

variable {R} in
/-- Under an injective hash, entries of equal links are the same. -/
theorem EntryAt.same_of_link_eq (hH : CanonInjective R) {i j : Nat} {a b : Json}
    (ha : EntryAt R i a) (hb : EntryAt R j b) (h : linkOf a = linkOf b) : SameEntry a b := by
  obtain ⟨-, x, hx, hax⟩ := ha
  obtain ⟨-, y, hy, hby⟩ := hb
  rw [hax, hby, Json.str.injEq] at h
  exact hH _ _ _ hx (h ▸ hy)

variable {R} in
/-- They stand at the same position. -/
theorem EntryAt.position_eq {i j : Nat} {a b : Json} (ha : EntryAt R i a) (hb : EntryAt R j b)
    (h : SameEntry a b) : i = j := by
  have hseq := h.seq
  rw [Json.normWith_of_pyLeaf ha.1, Json.normWith_of_pyLeaf hb.1] at hseq
  have := hb.1
  rw [← hseq, ha.1, Json.int.injEq] at this
  omega

variable {R} in
/-- Every `prev` of a linked log is a text. -/
theorem Chains.prev_str {entries : List Json} {head : Str} (h : Chains R entries head) :
    ∀ e ∈ entries, ∃ t, prevOf e = .str t := by
  have key : ∀ (es : List Json) (root : Str), Chain.Linked prevOf linkOf (.str root) es →
      (∀ e ∈ es, ∃ t, linkOf e = .str t) → ∀ e ∈ es, ∃ t, prevOf e = .str t := by
    intro es
    induction es with
    | nil => exact fun _ _ _ => nofun
    | cons e es ih =>
      intro root hl hlinks
      obtain ⟨⟨t, ht⟩, hrest⟩ := List.forall_mem_cons.mp hlinks
      refine List.forall_mem_cons.mpr ⟨⟨root, hl.1⟩, ih t ?_ hrest⟩
      rw [← ht]
      exact hl.2
  refine key entries zero h.linked fun e he => ?_
  obtain ⟨j, hj⟩ := List.mem_iff_getElem?.mp he
  obtain ⟨-, t, -, ht⟩ := h.entryAt j e hj
  exact ⟨t, ht⟩

variable {R} in
/-- **One head, one log.** Two non-empty logs that chain up to the same head
hold the same entries in the same order. -/
theorem Chains.forall₂_sameEntry (hH : CanonInjective R) {xs ys : List Json} {head : Str}
    (hx : Chains R xs head) (hy : Chains R ys head) (hxne : xs ≠ []) (hyne : ys ≠ []) :
    List.Forall₂ SameEntry xs ys := by
  have hlink : ∀ a ∈ xs, ∀ b ∈ ys, linkOf a = linkOf b → SameEntry a b ∧ prevOf a = prevOf b := by
    intro a ha b hb hab
    obtain ⟨i, hi⟩ := List.mem_iff_getElem?.mp ha
    obtain ⟨j, hj⟩ := List.mem_iff_getElem?.mp hb
    have hsame := (hx.entryAt i a hi).same_of_link_eq hH (hy.entryAt j b hj) hab
    obtain ⟨t, ht⟩ := hx.prev_str a ha
    obtain ⟨u, hu⟩ := hy.prev_str b hb
    refine ⟨hsame, ?_⟩
    have := hsame.prev
    rwa [ht, hu] at this ⊢
  -- the two last entries have one link, so they stand at one position
  have hlen : xs.length = ys.length := by
    obtain ⟨xs', a, rfl⟩ := (List.eq_nil_or_concat xs).resolve_left hxne
    obtain ⟨ys', b, rfl⟩ := (List.eq_nil_or_concat ys).resolve_left hyne
    rw [List.concat_eq_append] at *
    have ha := hx.entryAt xs'.length a (by simp)
    have hb := hy.entryAt ys'.length b (by simp)
    have hab : linkOf a = linkOf b := by
      rw [← @Chain.head_concat _ _ linkOf (.str zero) xs' a, hx.head_eq, ← hy.head_eq,
        Chain.head_concat]
    simp [ha.position_eq hb (ha.same_of_link_eq hH hb hab)]
  exact Chain.Linked.forall₂_of_head_eq hlink hx.linked hy.linked hlen
    (hx.head_eq.trans hy.head_eq.symm)

/-! ## Authorized executions -/

/-- `evaluate` reports `authorized_execution` true. -/
def Authorized (pkg : Json) : Prop :=
  ∃ out, evaluate R C pkg = .ok out ∧ out.terms.authorizedExecution = .holds

/-- Only an `ordering` that is true authorizes. -/
theorem Authorized.ordering {pkg : Json} (h : Authorized R C pkg) :
    ∃ (p : Parts) (s : Slot) (why : _), slot R C pkg = .ok s ∧
      ordering R C pkg p.acquisition s.disputeState s.validClaims = .ok (.holds, why) := by
  obtain ⟨out, hout, ha⟩ := h
  obtain ⟨p, s, subs, evidence, hp, hs, h⟩ := (evaluate_cases R C hout).resolve_left
    fun hno => hno.1 ha
  obtain ⟨order, why, hord, h⟩ := evaluateSlot_cases R C h
  have hholds (h : (if !s.derivedOk || order == .fails then Term.fails else order) = .holds) :
      order = .holds := by
    split at h
    · cases h
    · exact h
  have horder : order = .holds := by
    rcases h with ⟨terms, reasons, state, hterms, -, rfl⟩ | ⟨w, c, t, status, reasons, -, -, -, h⟩
    · rcases hterms with hf | hf
      · exact absurd (hf.symm.trans ha) nofun
      · exact hholds (hf.symm.trans ha)
    · obtain ⟨terms, reasons', hterms, hout⟩ := evaluateChosen_ok R h
      have : terms.authorizedExecution = .holds := by
        rcases hout with rfl | rfl <;> exact ha
      rw [hterms] at this
      split at this
      · cases this
      · exact hholds this
  exact ⟨p, s, why, bind_ok.mpr ⟨p, hp, hs⟩, horder ▸ hord⟩

/-- **C16.** In an authorized execution the dispute state is committed in the
ordering log strictly before the entry of every provider-attested claim, and
the head of the attested checkpoint fixes the whole log. -/
theorem authorized_ordering (hH : CanonInjective R) {pkg : Json} (h : Authorized R C pkg) :
    ∃ s entries head, slot R C pkg = .ok s ∧ logEntries pkg = .ok entries ∧
      checkpointHead pkg = .str head ∧
      (∃ d, DisputeAt R s.disputeState entries d ∧ ∀ c ∈ s.validClaims,
        (∃ p, ClaimAt R c entries p) ∧ ∀ p, ClaimAt R c entries p → d < p) ∧
      ∀ pkg' entries', Authorized R C pkg' → checkpointHead pkg' = .str head →
        logEntries pkg' = .ok entries' → List.Forall₂ SameEntry entries entries' := by
  obtain ⟨p, s, why, hs, hord⟩ := h.ordering
  obtain ⟨entries, head, hents, hhead, hch, d, hd, hclaims⟩ := ordering_holds R C hord
  refine ⟨s, entries, head, hs, hents, hhead, ⟨d, hd, fun c hc => ?_⟩, ?_⟩
  · obtain ⟨p, hp, hdp⟩ := hclaims c hc
    refine ⟨⟨p, hp⟩, fun q ⟨e, he, hlink, _⟩ => ?_⟩
    -- the claim's entry is the only one under its hash
    obtain ⟨e', he', hlink', -⟩ := hp
    have hq := hch.entryAt q e he
    have hp := hch.entryAt p e' he'
    rw [hq.position_eq hp (hq.same_of_link_eq hH hp (hlink.trans hlink'.symm))]
    exact hdp
  · intro pkg' entries' h' hhead' hents'
    obtain ⟨p', s', why', -, hord'⟩ := h'.ordering
    obtain ⟨ys, head', hys, hhead'', hch', d', ⟨e', hd', -⟩, -⟩ := ordering_holds R C hord'
    obtain rfl := Except.ok.inj (hys.symm.trans hents')
    obtain rfl := Json.str.inj (hhead''.symm.trans hhead')
    obtain ⟨e, hd, -⟩ := hd
    refine hch.forall₂_sameEntry hH hch' ?_ ?_
    · exact List.ne_nil_of_mem (List.mem_of_getElem? hd)
    · exact List.ne_nil_of_mem (List.mem_of_getElem? hd')

/-! ## A package to run

A hash that is injective and yet gives the 32 bytes a signature needs: the
identity, except that it exchanges each text the package hashes with a label
of 32 equal bytes. -/

/-- Exchange the two sides of every pair. -/
def exchange : List (Bytes × Bytes) → Bytes → Bytes
  | [], b => b
  | p :: ps, b => Equiv.swap p.1 p.2 (exchange ps b)

theorem exchange_injective (ps : List (Bytes × Bytes)) : Function.Injective (exchange ps) := by
  induction ps with
  | nil => exact fun _ _ h => h
  | cons p ps ih => exact fun _ _ h => ih ((Equiv.swap p.1 p.2).injective h)

/-- The label `n` in hex. -/
def label (n : UInt8) : Json := .str (hexStr (List.replicate 32 n))

/-- A signature the one-point group accepts under any key. -/
def zeroSig : Json := .str (List.replicate 128 (ofChar '0'))

/-- A manifest that commits two attempts and the retry predicate. -/
def sampleManifest : Json := object
  [("acquisition", object
    [("provenance_profile", text "p"), ("provider_pubkey", label 170),
      ("ordering_anchor_pubkey", label 187),
      ("retry_policy", object
        [("max_attempts", .int 2), ("allowed_after", .arr [text "ATTESTED_NO_RESULT"])])]),
    ("requirements", .arr [object
      [("requirement_id", text "q"), ("judge_id", text "j"), ("request", text "r"),
        ("required_scope", .arr [])]])]

def sampleDispute : Json := object [("contract_id", text "c"), ("dispute_nonce", text "n")]

/-- An object with its attestation. -/
def attested (kvs : List (String × Json)) : Json := object (("attestation", zeroSig) :: kvs)

/-- The claim for attempt `k`, the `i`-th of the package. -/
def claimFields (k i : UInt8) : List (String × Json) :=
  [("run_id", label 2), ("attempt_id", label (3 + k)), ("request_hash", label 5),
    ("provenance_profile", text "p"), ("ordering_proof", label (21 + i))]

/-- The terminal of the `i`-th claim; its output is its status. -/
def terminalFields (i : UInt8) (status : String) : List (String × Json) :=
  [("claim_receipt_hash", label (14 + i)), ("terminal_status", text status),
    ("output_hash", text status)]

/-- The log's first entry, the dispute commitment. -/
def disputeEntry : List (String × Json) :=
  [("seq", .int 0), ("kind", text "dispute_commitment"), ("ref", label 6), ("prev", .str zero)]

/-- The log's entry for the `i`-th claim. -/
def claimEntry (i : UInt8) : List (String × Json) :=
  [("seq", .int (i.toNat + 1)), ("kind", text "claim"), ("ref", label (10 + i)),
    ("prev", label (20 + i))]

def checkpointFields (n : Nat) : List (String × Json) :=
  [("head", label (20 + .ofNat n)), ("seq", .int n)]

/-- The texts that are hashed, with their labels, for the given attempts and the
statuses of their terminals. -/
def labelled (attempts : List (UInt8 × String)) : List (Json × UInt8) :=
  let run := object [("manifest_hash", label 0), ("dispute_id", label 1),
    ("requirement_id", text "q"), ("judge_id", text "j"), ("run_index", .int 0)]
  let attempt (k : Int) := object [("run_id", label 2), ("attempt_index", .int k)]
  [(sampleManifest, 0),
    (object [("manifest_hash", label 0), ("contract_id", text "c"), ("dispute_nonce", text "n")], 1),
    (run, 2), (attempt 0, 3), (attempt 1, 4), (text "r", 5), (sampleDispute, 6),
    (object disputeEntry, 20), (object (checkpointFields attempts.length), 30)] ++
  attempts.zipIdx.flatMap fun ((k, status), i) =>
    let i := UInt8.ofNat i
    [(claimCore (object (claimFields k i)), 10 + i), (object (claimFields k i), 12 + i),
      (attested (claimFields k i), 14 + i), (object (terminalFields i status), 16 + i),
      (object (claimEntry i), 21 + i)]

/-- The sample runtime with that hash. -/
def labelRuntime (attempts : List (UInt8 × String)) : Runtime :=
  { Runtime.sample with
    sha256 := exchange ((labelled attempts).map fun t =>
      (utf8Bytes (Runtime.sample.canonText t.1), List.replicate 32 t.2)) }

theorem labelRuntime_canonInjective (attempts : List (UInt8 × String)) :
    CanonInjective (labelRuntime attempts) :=
  canonInjective_of_injective _ (exchange_injective _) (Runtime.floatToken_lawful _)

/-- The package with a claim and a terminal for each of the attempts. -/
def samplePackage (attempts : List (UInt8 × String)) : Json :=
  let entry (kvs : List (String × Json)) (link : UInt8) := object (("entry_hash", label link) :: kvs)
  object
    [("manifest", sampleManifest), ("dispute_state", sampleDispute), ("dispute_id", label 1),
      ("ordering_log", object
        [("entries", .arr (entry disputeEntry 20 :: (List.range attempts.length).map fun i =>
            entry (claimEntry (.ofNat i)) (21 + .ofNat i))),
          ("checkpoint", attested (checkpointFields attempts.length))]),
      ("claims", .arr (attempts.zipIdx.map fun a => attested (claimFields a.1.1 (.ofNat a.2)))),
      ("terminals", .arr (attempts.zipIdx.map fun a =>
        attested (terminalFields (.ofNat a.2) a.1.2)))]

/-- A first attempt without result, and a retry with one. -/
def retried : List (UInt8 × String) := [(0, "NO_RESULT"), (1, "RESULT")]

theorem evaluate_retried : (evaluate (labelRuntime retried) .onePoint (samplePackage retried)).map
    (fun out => (out.terms.authorizedExecution, out.runVerdict)) = .ok (.holds, .result) := by
  decide +kernel

/-- C16 at the package with a retry. -/
theorem retried_ordering : ∃ s entries,
    slot (labelRuntime retried) .onePoint (samplePackage retried) = .ok s ∧
    logEntries (samplePackage retried) = .ok entries ∧
    ∃ d, DisputeAt (labelRuntime retried) s.disputeState entries d ∧
      ∀ c ∈ s.validClaims, ∀ p, ClaimAt (labelRuntime retried) c entries p → d < p := by
  obtain ⟨out, hout, hpair⟩ := map_ok.mp evaluate_retried
  obtain ⟨s, entries, -, hs, hents, -, ⟨d, hd, hclaims⟩, -⟩ :=
    authorized_ordering _ .onePoint (labelRuntime_canonInjective retried)
      ⟨out, hout, congrArg Prod.fst hpair⟩
  exact ⟨s, entries, hs, hents, d, hd, fun c hc => (hclaims c hc).2⟩

end Preaction.ProcedureManifest
