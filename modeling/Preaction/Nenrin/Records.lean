import Preaction.Nenrin.Canonical
import Preaction.Nenrin.Ed25519
import Preaction.Py.Base64
import Preaction.Py.Date

/-!
# `nenrin_cleanroom.py` — signatures, preimages, timestamps, action bindings

What `verify` asks of one record. Every answer is about fields with a text in
them and about canonical bytes, so two records that are `Same` get the same
answers; the lemmas that say so stand after the definitions.

Mirroring notes:
- `rec.get(k, MISSING)` is `rec.lookup k`, an absent field being none, and
  `rec.get(k)` reads none as null.
- `==` against a text is equality of values: nothing else equals a text.
- `in_window` is called behind `bound_ok` of both bounds, so its comparison of
  an instant with `None` is never reached.
-/

namespace Preaction.Nenrin

open Preaction.Py

/-- `isinstance(x, dict)`, with the dict. -/
def dict? : Json → Option Record
  | .obj kvs => some kvs
  | _ => none

/-- `rec.get(k)` -/
def getField (rec : Record) (k : String) : Json := (rec.lookup (lit k)).getD .null

/-- The second component of each `r.refuse`. -/
inductive Reason
  | recordNotObject
  | witnessNotIndependent
  | recomputeMismatch
  | witnessSigInvalid
  | edgeSigInvalid
  | seqGap
  | rootPrevNotNull
  | brokenLink
  | grantRecomputeMismatch
  | receiptRecomputeMismatch
  | intentRecomputeMismatch
  | actionBindingMalformed
  | actionBindingUnknownProfile
  | actionBindingMismatch
  | receiptUnbound
  | intentUnbound
  | invalidTimestamp
  | providerNotAuthorized
  | outsideAuthorizationWindow
  | actionDiverged
  | callerSig
  | providerSig
  | openGrant
  deriving DecidableEq, Repr

variable (R : Runtime)

/-- `sig_verifies(signer, sig_b64, preimage)` -/
def sigVerifies (signer sigB64 preimage : Json) : Bool :=
  match didKey signer with
  | none => false
  | some k => match b64Canonical sigB64 with
    | none => false
    | some sig =>
      if sig.length ≠ 64 then false
      else match tryCanonical preimage with
        | none => false
        | some msg => ed25519Verify R k.1 k.2 sig msg

/-- The kinds of records, the keys of `DERIVED`. -/
inductive Kind
  | obs
  | grant
  | receipt
  | intent

/-- `DERIVED[kind]` -/
def Kind.derived : Kind → List Str
  | .obs => [lit "evidence_id", lit "witness_sig", lit "edge_sig", lit "consent"]
  | .grant => [lit "grant_ref", lit "caller_sig", lit "action_binding"]
  | .receipt => [lit "receipt_id", lit "provider_sig", lit "action_binding"]
  | .intent => [lit "intent_id", lit "intent_sig", lit "action_binding"]

/-- `preimage(rec, kind)` -/
def preimage (rec : Record) (kind : Kind) : Json :=
  .obj (rec.filter fun kv => !kind.derived.contains kv.1)

/-- `rid(rec, kind)` -/
def rid (rec : Record) (kind : Kind) : Option Str := sha256c R (preimage rec kind)

/-- `recomputes(rec, kind, field)` -/
def recomputes (rec : Record) (kind : Kind) (field : String) : Bool :=
  match rid R rec kind with
  | none => false
  | some h => rec.lookup (lit field) == some (.str h)

/-! ## Timestamps -/

/-- The text starts as the pattern does, a `0` of the pattern being any digit. -/
def fitsPattern : Str → Str → Bool
  | [], _ => true
  | _ :: _, [] => false
  | p :: ps, c :: cs => (if p = ofChar '0' then isDigit c else c == p) && fitsPattern ps cs

/-- `TS.fullmatch(t)` -/
def isTimestamp (t : Str) : Bool :=
  let tail := t.drop 19
  let fraction := (tail.drop 1).dropLast
  fitsPattern (lit "0000-00-00T00:00:00") t &&
    (tail == lit "Z" || (tail.head? == some (ofChar '.') && tail.getLast? == some (ofChar 'Z') &&
      !fraction.isEmpty && fraction.all isDigit))

/-- A date ordinal, a second of the day and a millisecond. -/
structure Instant where
  ordinal : Nat
  second : Nat
  ms : Nat
  deriving DecidableEq, Repr

/-- `a <= b` of two instants, as tuples compare. -/
def Instant.le (a b : Instant) : Bool :=
  a.ordinal < b.ordinal || (a.ordinal == b.ordinal &&
    (a.second < b.second || (a.second == b.second && a.ms ≤ b.ms)))

/-- `instant(t)` -/
def instant (t : Json) : Option Instant :=
  match t with
  | .str t =>
    if !isTimestamp t then none
    else match toOrdinal (intOf (slice t 0 4)) (intOf (slice t 5 7)) (intOf (slice t 8 10)) with
      | none => none
      | some day =>
        let h := intOf (slice t 11 13)
        let mi := intOf (slice t 14 16)
        let se := intOf (slice t 17 19)
        if 23 < h ∨ 59 < mi ∨ 59 < se then none
        else
          let ms := if t[19]? = some (ofChar '.') then
            intOf (((t.drop 20).dropLast ++ lit "000").take 3) else 0
          some ⟨day, h * 3600 + mi * 60 + se, ms⟩
  | _ => none

/-- `bound_ok(rec, key)` -/
def boundOk (rec : Record) (key : String) : Bool :=
  getField rec key == .null || (instant (getField rec key)).isSome

/-- `in_window(rec, t)` -/
def inWindow (rec : Record) (t : Instant) : Bool :=
  (getField rec "not_before" == .null || (instant (getField rec "not_before")).any (·.le t)) &&
    (getField rec "not_after" == .null || (instant (getField rec "not_after")).any (t.le ·))

/-! ## Actions -/

/-- `action_binding(rec, action_field)` -/
def actionBinding (rec : Record) (actionField : String) : Option Reason :=
  match rec.lookup (lit "action_binding") with
  | none => none
  | some ab => match dict? ab with
    | none => some .actionBindingMalformed
    | some ab =>
      if getField ab "type" ≠ text "canonical_request_digest" then some .actionBindingMalformed
      else match dict? (getField ab "digest") with
        | none => some .actionBindingMalformed
        | some dg =>
          if getField dg "alg" ≠ text "sha-256" then some .actionBindingMalformed
          else match getField dg "value" with
            | .str value =>
              if getField ab "canonicalization" ≠ text "musubi-canonical-v0" ∨
                  getField ab "preimage_profile" ≠ text "task-execution-bind-v0/action" then
                some .actionBindingUnknownProfile
              else
                let act := getField rec actionField
                if act = .null ∨ some value ≠ sha256c R act then some .actionBindingMismatch
                else none
            | _ => some .actionBindingMalformed

/-- `falsy_action(v)`; `none` is `MISSING`. -/
def falsyAction : Option Json → Bool
  | none => true
  | some .null => true
  | some (.bool b) => !b
  | some (.str s) => s.isEmpty
  | some (.int n) => n == 0
  | some (.float x) => x.isZero
  | some _ => false

/-- `actions_equal(a, b)` -/
def actionsEqual (a b : Option Json) : Bool :=
  if falsyAction a || falsyAction b then false
  else
    let ca := a.bind tryCanonical
    ca.isSome && ca == b.bind tryCanonical

/-! ## Records that are one record -/

variable {R} {x y : Record}

theorem Same.preimage (h : Same (.obj x) (.obj y)) (kind : Kind) :
    Same (Nenrin.preimage x kind) (Nenrin.preimage y kind) :=
  h.filter fun k => !kind.derived.contains k

theorem Same.rid (h : Same (.obj x) (.obj y)) (kind : Kind) :
    Nenrin.rid R x kind = Nenrin.rid R y kind := by
  rw [Nenrin.rid, Nenrin.rid, sha256c, sha256c, (h.preimage kind).tryCanonical_eq]

theorem recomputes_iff {kind : Kind} {field : String} : recomputes R x kind field = true ↔
    ∃ h, rid R x kind = some h ∧ x.lookup (lit field) = some (.str h) := by
  unfold recomputes
  cases rid R x kind with
  | none => simp
  | some h => simp

theorem Same.recomputes (h : Same (.obj x) (.obj y)) {kind : Kind} {field : String}
    (hx : Nenrin.recomputes R x kind field = true) : Nenrin.recomputes R y kind field = true := by
  obtain ⟨i, hi, hfield⟩ := recomputes_iff.mp hx
  exact recomputes_iff.mpr ⟨i, h.rid kind ▸ hi, h.lookup_str hfield⟩

/-- Only a text is a key or a signature. -/
theorem str_of_sigVerifies {signer sig pre : Json} (h : sigVerifies R signer sig pre = true) :
    (∃ s, signer = .str s) ∧ ∃ s, sig = .str s := by
  unfold sigVerifies at h
  constructor
  · cases signer with
    | str s => exact ⟨s, rfl⟩
    | _ => cases h
  · cases sig with
    | str s => exact ⟨s, rfl⟩
    | _ => split at h <;> cases h

theorem sigVerifies_congr {signer sig p q : Json} (h : Same p q) :
    sigVerifies R signer sig p = sigVerifies R signer sig q := by
  unfold sigVerifies
  rw [h.tryCanonical_eq]

/-- A text read with `rec.get(k)` is the field. -/
theorem lookup_of_getField_str {k : String} {s : Str} (h : getField x k = .str s) :
    x.lookup (lit k) = some (.str s) := by
  unfold getField at h
  cases hk : x.lookup (lit k) with
  | none => rw [hk] at h; cases h
  | some v => rw [hk] at h; exact congrArg some h

theorem getField_of_lookup {k : String} {v : Json} (h : x.lookup (lit k) = some v) :
    getField x k = v := by
  rw [getField, h, Option.getD_some]

/-- A signature over a record, read from one of its fields, is the same
signature over any record that is the same. -/
theorem Same.sigVerifies (h : Same (.obj x) (.obj y)) {kind : Kind} {field : String} {signer : Json}
    (hx : Nenrin.sigVerifies R signer (getField x field) (Nenrin.preimage x kind) = true) :
    Nenrin.sigVerifies R signer (getField y field) (Nenrin.preimage y kind) = true := by
  obtain ⟨-, s, hs⟩ := str_of_sigVerifies hx
  rw [getField_of_lookup (h.lookup_str (lookup_of_getField_str hs)), ← hs,
    ← sigVerifies_congr (h.preimage kind)]
  exact hx

/-- Only a text is an instant. -/
theorem str_of_instant {v : Json} {t : Instant} (h : instant v = some t) : ∃ s, v = .str s := by
  cases v with
  | str s => exact ⟨s, rfl⟩
  | _ => cases h

theorem Same.instant (h : Same (.obj x) (.obj y)) {field : String} {t : Instant}
    (hx : Nenrin.instant (getField x field) = some t) :
    Nenrin.instant (getField y field) = some t := by
  obtain ⟨s, hs⟩ := str_of_instant hx
  rw [getField_of_lookup (h.lookup_str (lookup_of_getField_str hs)), ← hs, hx]

/-- An action is falsy as its normal form is. -/
theorem falsyAction_normWith (a : Option Json) :
    falsyAction (a.map (Json.normWith canonLeaf)) = falsyAction a := by
  cases a with
  | none => rfl
  | some v =>
    cases v with
    | float x =>
      cases hx : x.toInt? with
      | none => simp only [Option.map_some, Json.normWith, canonLeaf, hx]
      | some n =>
        simp only [Option.map_some, Json.normWith, canonLeaf, hx, falsyAction, PyFloat.isZero]
        rfl
    | _ => rfl

theorem bind_tryCanonical_normWith {a b : Option Json}
    (h : a.map (Json.normWith canonLeaf) = b.map (Json.normWith canonLeaf)) :
    a.bind tryCanonical = b.bind tryCanonical := by
  cases a with
  | none => rw [Option.map_eq_none_iff.mp h.symm]
  | some v =>
    rw [Option.map_some, eq_comm, Option.map_eq_some_iff] at h
    obtain ⟨w, rfl, hw⟩ := h
    exact (Same.tryCanonical_eq hw).symm

theorem Same.actionsEqual (h : Same (.obj x) (.obj y)) (a : Option Json) (k : Str) :
    Nenrin.actionsEqual a (x.lookup k) = Nenrin.actionsEqual a (y.lookup k) := by
  unfold Nenrin.actionsEqual
  rw [← falsyAction_normWith (x.lookup k), h.lookup, falsyAction_normWith,
    bind_tryCanonical_normWith (h.lookup k)]

end Preaction.Nenrin
