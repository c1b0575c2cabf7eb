import Mathlib.Data.List.Lex
import Preaction.Lib.FirstWins
import Preaction.Lib.Loop
import Preaction.Py.Runtime

/-!
# `erc-8337-attestation-refs/check_attestation_refs.py` — `canonicalize`

The attestation refs of a transition are an unordered set: the canonical form keeps the
first ref of every identity `(event_id, pubkey)` and sorts by `decision_ref`, without the
prefix that one implementation or the other writes.

The identity is two of the four members and the sort key a third. Two refs of one identity
that differ elsewhere give the one that comes first, and two refs of
different events with one decision stay in the order they came in.
`canonicalize_stable_iff` is the exact extent.

Mirroring notes:
- A ref is any JSON value, and a missing member raises; `verify_url` is not read.
- `sorted` takes the key of every entry first, which raises where `decision_ref` is no
  text.
-/

namespace Preaction.AttestationRefs

open Preaction.Py Preaction.Loop Json

variable (R : Runtime)

/-- An entry of the canonical form. -/
structure Entry where
  scheme : Json
  decisionRef : Json
  eventId : Json
  pubkey : Json
  deriving DecidableEq

/-- `s[len(prefix):]` where the text starts with the prefix. -/
def withoutPrefix (pre s : Str) : Str := (stripPrefix pre s).getD s

/-- `_hex_only(decision_ref)` of a text. -/
def hexText (s : Str) : Str := withoutPrefix (lit "sha256:") (withoutPrefix (lit "0x") (R.lower s))

/-- `_hex_only(decision_ref)` -/
def hexOnly : Json → Except PyError Str
  | .str s => .ok (hexText R s)
  | _ => .error .attributeError

/-- `key`, once it is hashed. -/
def readKey (ref : Json) : Except PyError (Json × Json) := do
  let eventId ← ref.item (lit "event_id")
  let pubkey ← ref.item (lit "pubkey")
  hashable eventId
  hashable pubkey
  return (eventId, pubkey)

/-- What is stored for a ref. -/
def readEntry (ref : Json) : Except PyError Entry := do
  let scheme ← ref.item (lit "scheme")
  let decisionRef ← ref.item (lit "decision_ref")
  return ⟨scheme, decisionRef, ← ref.item (lit "event_id"), ← ref.item (lit "pubkey")⟩

/-- The entry is stored under this key. -/
def Entry.hasKey (key : Json × Json) (e : Entry) : Bool :=
  pySame key.1 e.eventId && pySame key.2 e.pubkey

/-- The body of the loop of `canonicalize`. -/
def step (seen : List Entry) (ref : Json) : Except PyError (List Entry) := do
  let key ← readKey ref
  if seen.any (Entry.hasKey key) then return seen
  return seen ++ [← readEntry ref]

/-- The sort key of an entry, where there is one. -/
def sortKey (e : Entry) : Str :=
  match e.decisionRef with
  | .str s => hexText R s
  | _ => []

/-- `canonicalize(raw_refs)` -/
def canonicalize (raw : List Json) : Except PyError (List Entry) := do
  let seen ← raw.foldlM step []
  let _ ← seen.mapM fun e => hexOnly R e.decisionRef
  return seen.insertionSort fun a b => sortKey R a ≤ sortKey R b

/-! ## One list or another -/

/-- `==` of two entries. -/
def Entry.Equal (a b : Entry) : Prop :=
  pySame a.scheme b.scheme = true ∧ pySame a.decisionRef b.decisionRef = true ∧
    pySame a.eventId b.eventId = true ∧ pySame a.pubkey b.pubkey = true

/-- The entries have one identity. -/
def Entry.same (a b : Entry) : Bool := b.hasKey (a.eventId, a.pubkey)

/-- The canonical form of the refs is there, and it is the same after every reordering, with any
of them repeated. -/
def Stable (raw : List Json) : Prop :=
  ∃ refs, canonicalize R raw = .ok refs ∧
    ∀ raw' extra, (∀ r ∈ extra, r ∈ raw) → raw'.Perm (raw ++ extra) →
      ∃ refs', canonicalize R raw' = .ok refs' ∧ List.Forall₂ Entry.Equal refs refs'

/-- The ref has all members that are read, with an identity that can be a key and a text for
its decision. -/
def Complete (ref : Json) (e : Entry) : Prop :=
  readEntry ref = .ok e ∧ hashable e.eventId = .ok () ∧ hashable e.pubkey = .ok () ∧
    e.decisionRef.isStr = true

variable {R}

theorem readEntry_ok {ref : Json} {e : Entry} : readEntry ref = .ok e ↔
    ref.item (lit "scheme") = .ok e.scheme ∧ ref.item (lit "decision_ref") = .ok e.decisionRef ∧
      ref.item (lit "event_id") = .ok e.eventId ∧ ref.item (lit "pubkey") = .ok e.pubkey := by
  constructor
  · intro h
    obtain ⟨scheme, hs, h⟩ := bind_ok.mp h
    obtain ⟨dr, hd, h⟩ := bind_ok.mp h
    obtain ⟨eventId, he, h⟩ := bind_ok.mp h
    obtain ⟨pubkey, hp, h⟩ := bind_ok.mp h
    obtain rfl := Except.ok.inj h
    exact ⟨hs, hd, he, hp⟩
  · rintro ⟨hs, hd, he, hp⟩
    rw [readEntry, hs, ok_bind, hd, ok_bind, he, ok_bind, hp, ok_bind]
    rfl

theorem readKey_ok {ref : Json} {key : Json × Json} : readKey ref = .ok key ↔
    ref.item (lit "event_id") = .ok key.1 ∧ ref.item (lit "pubkey") = .ok key.2 ∧
      hashable key.1 = .ok () ∧ hashable key.2 = .ok () := by
  constructor
  · intro h
    obtain ⟨eventId, he, h⟩ := bind_ok.mp h
    obtain ⟨pubkey, hp, h⟩ := bind_ok.mp h
    obtain ⟨⟨⟩, h1, h⟩ := bind_ok.mp h
    obtain ⟨⟨⟩, h2, h⟩ := bind_ok.mp h
    obtain rfl := Except.ok.inj h
    exact ⟨he, hp, h1, h2⟩
  · rintro ⟨he, hp, h1, h2⟩
    rw [readKey, he, ok_bind, hp, ok_bind, h1, ok_bind, h2, ok_bind]
    rfl

/-- A round over a complete ref keeps its entry, or drops it for one with its identity. -/
theorem step_of_complete {ref : Json} {e : Entry} (h : Complete ref e) (seen : List Entry) :
    step seen ref = .ok (if seen.any e.same then seen else seen ++ [e]) := by
  obtain ⟨hread, h1, h2, -⟩ := h
  obtain ⟨-, -, he, hp⟩ := readEntry_ok.mp hread
  have hkey : readKey ref = .ok (e.eventId, e.pubkey) := readKey_ok.mpr ⟨he, hp, h1, h2⟩
  rw [step, hkey, ok_bind, hread]
  show (if seen.any e.same = true then _ else _) = _
  by_cases hany : seen.any e.same = true
  · rw [if_pos hany, if_pos hany]
    rfl
  · rw [if_neg hany, if_neg hany]
    rfl

/-- The loop over complete refs. -/
theorem foldlM_step {raw : List Json} {es : List Entry} (h : List.Forall₂ Complete raw es)
    (seen : List Entry) : raw.foldlM step seen = .ok (FirstWins.keep Entry.same seen es) := by
  induction h generalizing seen with
  | nil => rfl
  | cons hre _ ih =>
    rw [List.foldlM_cons, step_of_complete hre, ok_bind, ih]
    rfl

/-- What was stored stays stored. -/
theorem mem_of_foldlM {raw : List Json} {seen seen' : List Entry}
    (h : raw.foldlM step seen = .ok seen') {e : Entry} (he : e ∈ seen) : e ∈ seen' := by
  induction raw generalizing seen with
  | nil =>
    obtain rfl := Except.ok.inj h
    exact he
  | cons r raw ih =>
    rw [List.foldlM_cons] at h
    obtain ⟨next, hnext, h⟩ := bind_ok.mp h
    refine ih h ?_
    obtain ⟨key, -, hnext⟩ := bind_ok.mp hnext
    split at hnext
    next =>
      obtain rfl := Except.ok.inj hnext
      exact he
    next =>
      obtain ⟨e', -, hnext⟩ := bind_ok.mp hnext
      obtain rfl := Except.ok.inj hnext
      exact List.mem_append_left _ he

/-! ## The entries as records -/

theorem lawful (R : Runtime) : FirstWins.Lawful Entry.same (sortKey R) Entry.Equal where
  same_refl a := by
    rw [Entry.same, Entry.hasKey, pySame_refl, pySame_refl]
    rfl
  same_symm a b h := by
    obtain ⟨h1, h2⟩ := Bool.and_eq_true_iff.mp h
    exact Bool.and_eq_true_iff.mpr ⟨pySame_symm h1, pySame_symm h2⟩
  same_trans a b c h h' := by
    obtain ⟨h1, h2⟩ := Bool.and_eq_true_iff.mp h
    obtain ⟨h1', h2'⟩ := Bool.and_eq_true_iff.mp h'
    exact Bool.and_eq_true_iff.mpr ⟨pySame_trans h1 h1', pySame_trans h2 h2'⟩
  eqv_refl a := ⟨pySame_refl _, pySame_refl _, pySame_refl _, pySame_refl _⟩
  eqv_symm a b h := by
    obtain ⟨h1, h2, h3, h4⟩ := h
    exact ⟨pySame_symm h1, pySame_symm h2, pySame_symm h3, pySame_symm h4⟩
  eqv_trans a b c h h' := by
    obtain ⟨h1, h2, h3, h4⟩ := h
    obtain ⟨h1', h2', h3', h4'⟩ := h'
    exact ⟨pySame_trans h1 h1', pySame_trans h2 h2', pySame_trans h3 h3', pySame_trans h4 h4'⟩
  same_of_eqv a b h := Bool.and_eq_true_iff.mpr ⟨h.2.2.1, h.2.2.2⟩
  key_of_eqv a b h := by
    have hdecision := h.2.1
    unfold sortKey
    cases ha : a.decisionRef with
    | str s =>
      rw [ha] at hdecision
      rw [(pySame_str _ s).mp (pySame_symm hdecision)]
    | _ =>
      cases hb : b.decisionRef with
      | str t =>
        rw [hb] at hdecision
        rw [(pySame_str _ t).mp hdecision] at ha
        cases ha
      | _ => rfl

/-- The canonical form of complete refs. -/
theorem canonicalize_of_complete {raw : List Json} {es : List Entry}
    (h : List.Forall₂ Complete raw es) :
    canonicalize R raw = .ok (FirstWins.canon Entry.same (sortKey R) es) := by
  obtain ⟨keys, hkeys⟩ : ∃ keys, (FirstWins.keep Entry.same [] es).mapM
      (fun e => hexOnly R e.decisionRef) = .ok keys := by
    refine mapM_of_ok fun e he => ?_
    have hmem := (FirstWins.mem_keep he).resolve_left List.not_mem_nil
    obtain ⟨r, -, -, -, -, hstr⟩ := exists_left h hmem
    cases hd : e.decisionRef with
    | str s => exact ⟨_, rfl⟩
    | _ =>
      rw [hd] at hstr
      cases hstr
  rw [canonicalize, foldlM_step h, ok_bind, hkeys]
  rfl

/-- A ref in front of refs that have a canonical form is complete, as its identity is not seen
yet. -/
theorem complete_of_front {r : Json} {raw : List Json} {refs : List Entry}
    (h : canonicalize R (r :: raw) = .ok refs) : ∃ e, Complete r e := by
  obtain ⟨seen, hseen, h⟩ := bind_ok.mp h
  rw [List.foldlM_cons] at hseen
  obtain ⟨first, hfirst, hseen⟩ := bind_ok.mp hseen
  obtain ⟨key, hkey, hfirst⟩ := bind_ok.mp hfirst
  rw [List.any_nil, if_neg Bool.false_ne_true] at hfirst
  obtain ⟨e, he, hfirst⟩ := bind_ok.mp hfirst
  obtain rfl := Except.ok.inj hfirst
  obtain ⟨hid, hpk, h1, h2⟩ := readKey_ok.mp hkey
  obtain ⟨-, -, hid', hpk'⟩ := readEntry_ok.mp he
  have hmem : e ∈ seen := mem_of_foldlM hseen (List.mem_singleton_self e)
  obtain ⟨keys, hkeys, -⟩ := bind_ok.mp h
  obtain ⟨s, -, hs⟩ := mem_mapM_of_mem hkeys hmem
  refine ⟨e, he, ?_, ?_, ?_⟩
  · rw [← Except.ok.inj (hid.symm.trans hid'), h1]
  · rw [← Except.ok.inj (hpk.symm.trans hpk'), h2]
  · cases hd : e.decisionRef with
    | str s => rfl
    | _ =>
      rw [hd] at hs
      cases hs

/-! ## When the canonical form is one -/

/-- Refs that are the same in identity, or in decision without its prefix, are equal in all
members that are read. -/
def Agreeing (R : Runtime) (raw : List Json) : Prop :=
  ∀ r ∈ raw, ∀ r' ∈ raw, ∀ e e', Complete r e → Complete r' e' →
    e.same e' = true ∨ sortKey R e = sortKey R e' → e.Equal e'

theorem Complete.unique {r : Json} {e e' : Entry} (h : Complete r e) (h' : Complete r e') :
    e = e' :=
  Except.ok.inj (h.1.symm.trans h'.1)

theorem mem_entries {raw : List Json} {es : List Entry} (h : List.Forall₂ Complete raw es)
    {r : Json} (hr : r ∈ raw) {e : Entry} (hre : Complete r e) : e ∈ es := by
  obtain ⟨e', he', hre'⟩ := exists_right h hr
  exact hre.unique hre' ▸ he'

theorem agreeing_iff {raw : List Json} {es : List Entry} (h : List.Forall₂ Complete raw es) :
    Agreeing R raw ↔ FirstWins.Agree Entry.same (sortKey R) Entry.Equal es := by
  constructor
  · intro hagree e he e' he' hee
    obtain ⟨r, hr, hre⟩ := exists_left h he
    obtain ⟨r', hr', hre'⟩ := exists_left h he'
    exact hagree r hr r' hr' e e' hre hre' hee
  · intro hagree r hr r' hr' e e' hre hre'
    exact hagree e (mem_entries h hr hre) e' (mem_entries h hr' hre')

/-- Complete refs are stable where their entries are, as records. -/
theorem stable_iff_entries {raw : List Json} {es : List Entry}
    (h : List.Forall₂ Complete raw es) :
    Stable R raw ↔ ∀ ys extra, (∀ e ∈ extra, e ∈ es) → ys.Perm (es ++ extra) →
      List.Forall₂ Entry.Equal (FirstWins.canon Entry.same (sortKey R) es)
        (FirstWins.canon Entry.same (sortKey R) ys) := by
  constructor
  · intro hstable ys extra hextra hperm
    obtain ⟨refs, hrefs, hall⟩ := hstable
    rw [canonicalize_of_complete h] at hrefs
    obtain rfl := Except.ok.inj hrefs
    -- the records in the new order are those of refs in that order
    have hsource : ∀ e ∈ extra, ∃ r, r ∈ raw ∧ Complete r e := by
      intro e he
      obtain ⟨r, hr, hre⟩ := exists_left h (hextra e he)
      exact ⟨r, hr, hre⟩
    obtain ⟨more, hmore⟩ := exists_forall₂ hsource
    have hmem : ∀ r ∈ more, r ∈ raw := by
      intro r hr
      obtain ⟨e, -, hin, -⟩ := exists_left hmore hr
      exact hin
    have hflip : List.Forall₂ (flip Complete) (es ++ extra) (raw ++ more) :=
      List.rel_append h.flip (hmore.imp fun _ _ hr => hr.2)
    obtain ⟨raw', hraw', hperm'⟩ := List.perm_comp_forall₂ hperm hflip
    obtain ⟨refs', hrefs', hsame⟩ := hall raw' more hmem hperm'
    rw [canonicalize_of_complete hraw'.flip] at hrefs'
    exact Except.ok.inj hrefs' ▸ hsame
  · intro hall
    refine ⟨_, canonicalize_of_complete h, fun raw' extra hextra hperm => ?_⟩
    obtain ⟨more, hmore⟩ := exists_forall₂ fun r hr => by
      obtain ⟨e, -, hre⟩ := exists_right h (hextra r hr)
      exact ⟨e, hre⟩
    have hmem : ∀ e ∈ more, e ∈ es := by
      intro e he
      obtain ⟨r, hr, hre⟩ := exists_left hmore he
      exact mem_entries h (hextra r hr) hre
    obtain ⟨ys, hys, hperm'⟩ := List.perm_comp_forall₂ hperm (List.rel_append h hmore)
    exact ⟨_, canonicalize_of_complete hys, hall ys more hmem hperm'⟩

/-- Refs with a canonical form in every order are complete, each as the one in front. -/
theorem Stable.complete {raw : List Json} (h : Stable R raw) : ∀ r ∈ raw, ∃ e, Complete r e := by
  obtain ⟨refs, -, hall⟩ := h
  intro r hr
  obtain ⟨before, after, rfl⟩ := List.append_of_mem hr
  have hperm : (r :: (before ++ after)).Perm (before ++ r :: after ++ []) := by
    rw [List.append_nil]
    exact List.perm_middle.symm
  obtain ⟨refs', hrefs', -⟩ := hall _ [] (fun x hx => absurd hx List.not_mem_nil) hperm
  exact complete_of_front hrefs'

/-- **When attestation refs are an unordered set to `canonicalize`.** It gives one list for every
order and repetition of the refs exactly when each ref is complete and any two
that share the identity or the decision without its prefix are equal. -/
theorem canonicalize_stable_iff (R : Runtime) (raw : List Json) :
    Stable R raw ↔ (∀ r ∈ raw, ∃ e, Complete r e) ∧ Agreeing R raw := by
  have hiff (hcomplete : ∀ r ∈ raw, ∃ e, Complete r e) : Stable R raw ↔ Agreeing R raw := by
    obtain ⟨es, hes⟩ := exists_forall₂ hcomplete
    rw [stable_iff_entries hes, FirstWins.canon_stable_iff (lawful R), agreeing_iff hes]
  constructor
  · intro h
    exact ⟨h.complete, (hiff h.complete).mp h⟩
  · intro h
    exact (hiff h.1).mpr h.2

/-- A ref of an event. -/
def sampleRef (eventId decisionRef : String) : Json :=
  object [("scheme", text "nip-01"), ("decision_ref", text decisionRef), ("event_id", text eventId),
    ("pubkey", text "k"), ("verify_url", text "u")]

/-- What is stored for it. -/
def sampleEntry (eventId decisionRef : String) : Entry :=
  ⟨text "nip-01", text decisionRef, text eventId, text "k"⟩

theorem complete_sampleRef (eventId decisionRef : String) :
    Complete (sampleRef eventId decisionRef) (sampleEntry eventId decisionRef) :=
  ⟨readEntry_ok.mpr (by
    rw [sampleRef]
    simp (disch := decide) only [item_object_cons, item_object_cons_ne]
    exact ⟨rfl, rfl, rfl, rfl⟩), rfl, rfl, rfl⟩

/-- Two events with one decision come in the order of the input, each ref being complete. -/
theorem oneDecision_reordered : ¬ ∀ (R : Runtime) (raw : List Json),
    (∀ r ∈ raw, ∃ e, Complete r e) → Stable R raw := by
  intro hall
  have h1 := complete_sampleRef "1" "0xa"
  have h2 := complete_sampleRef "2" "sha256:a"
  obtain ⟨refs, hrefs, hstable⟩ := hall .sample [sampleRef "1" "0xa", sampleRef "2" "sha256:a"]
    (List.forall_mem_cons.mpr ⟨⟨_, h1⟩, List.forall_mem_singleton.mpr ⟨_, h2⟩⟩)
  obtain ⟨refs', hrefs', hsame⟩ := hstable [sampleRef "2" "sha256:a", sampleRef "1" "0xa"] []
    (fun r hr => absurd hr List.not_mem_nil) (List.Perm.swap ..)
  rw [canonicalize_of_complete (.cons h1 (.cons h2 .nil))] at hrefs
  rw [canonicalize_of_complete (.cons h2 (.cons h1 .nil))] at hrefs'
  have hfirst : refs = [sampleEntry "1" "0xa", sampleEntry "2" "sha256:a"] :=
    (Except.ok.inj hrefs).symm.trans (by decide +kernel)
  have hsecond : refs' = [sampleEntry "2" "sha256:a", sampleEntry "1" "0xa"] :=
    (Except.ok.inj hrefs').symm.trans (by decide +kernel)
  rw [hfirst, hsecond] at hsame
  obtain ⟨hhead, -⟩ := List.forall₂_cons.mp hsame
  exact absurd hhead.2.2.1 (by decide +kernel)

end Preaction.AttestationRefs
