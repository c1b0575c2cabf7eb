import Preaction.Nenrin.Verify

/-!
# Two spellings of one bundle

What a step answers of two records that are `Same`: one JSON value, objects by
key, numbers by value, `1` and `1.0` one number, `0` and `-0` one. A step reads
texts, compares with Python's `==`, or hashes a canonical form, and none of these
sees a spelling; here that is said of each function of the procedure, from the
leaves up. The exceptions, R3 and R4 of the delegation step, are not here.

Mirroring notes:
- A record that may be absent is compared by `SameRecord?`, a list of records
  by `SameRecords`, place by place.
-/

namespace Preaction.Nenrin

open Preaction.Py Json

/-! ## Values -/

/-- An `int` or a `float`, `bool` apart. -/
def isNumber : Json → Bool
  | .int _ => true
  | .float _ => true
  | _ => false

theorem exists_of_isNumber {a : Json} (h : isNumber a = true) :
    (∃ n, a = .int n) ∨ ∃ x, a = .float x := by
  cases a with
  | int n => exact .inl ⟨n, rfl⟩
  | float x => exact .inr ⟨x, rfl⟩
  | _ => cases h

theorem isNumber_normWith (a : Json) : isNumber (normWith canonLeaf a) = isNumber a := by
  cases a with
  | float x =>
    show isNumber (canonLeaf (.float x)) = true
    cases hx : x.toInt? <;> simp only [canonLeaf, hx, isNumber]
  | _ => rfl

/-- Values that are one value are equal, or two spellings of a number, or lists or dicts
of such values. -/
theorem Same.cases {a b : Json} (h : Same a b) :
    a = b ∨ (isNumber a = true ∧ isNumber b = true) ∨
      (∃ xs ys, a = .arr xs ∧ b = .arr ys) ∨ ∃ x y, a = .obj x ∧ b = .obj y := by
  have hnum : isNumber a = isNumber b := by
    rw [← isNumber_normWith a, ← isNumber_normWith b, h]
  cases ha : isNumber a with
  | true => exact .inr (.inl ⟨rfl, hnum ▸ ha⟩)
  | false =>
    have hb : isNumber b = false := hnum ▸ ha
    cases a with
    | int n => cases ha
    | float x => cases ha
    | null => cases b <;> first | exact .inl rfl | cases h | cases hb
    | bool p => cases b <;> first | exact .inl h | cases h | cases hb
    | str s => cases b <;> first | exact .inl h | cases h | cases hb
    | arr xs =>
      cases b with
      | arr ys => exact .inr (.inr (.inl ⟨xs, ys, rfl, rfl⟩))
      | _ => first | cases h | cases hb
    | obj x =>
      cases b with
      | obj y => exact .inr (.inr (.inr ⟨x, y, rfl, rfl⟩))
      | _ => first | cases h | cases hb

theorem Same.refl (a : Json) : Same a a := rfl

theorem Same.list {xs ys : List Json} (h : Same (.arr xs) (.arr ys)) : List.Forall₂ Same xs ys := by
  simp only [Same, normWith, Json.arr.injEq, normList_eq_map] at h
  rw [← List.forall₂_eq_eq_eq, List.forall₂_map_left_iff, List.forall₂_map_right_iff] at h
  exact h

/-- A function of texts, truth values and `null` does not see the spelling of a number. -/
theorem Same.congr {β : Type} {f : Json → β} {d : β} (hnum : ∀ a, isNumber a = true → f a = d)
    (harr : ∀ xs, f (.arr xs) = d) (hobj : ∀ x, f (.obj x) = d) {a b : Json} (h : Same a b) :
    f a = f b := by
  rcases h.cases with rfl | ⟨ha, hb⟩ | ⟨xs, ys, rfl, rfl⟩ | ⟨x, y, rfl, rfl⟩
  · rfl
  · rw [hnum a ha, hnum b hb]
  · rw [harr, harr]
  · rw [hobj, hobj]

/-- A question about a text, which nothing else answers. -/
theorem Same.onText {β : Type} {a b : Json} (f : Str → β) (d : β) : Same a b →
    (match a with | .str s => f s | _ => d) = match b with | .str s => f s | _ => d := by
  intro h
  refine h.congr (f := fun v => match v with | .str s => f s | _ => d) (fun a ha => ?_)
    (fun _ => rfl) fun _ => rfl
  rcases exists_of_isNumber ha with ⟨_, rfl⟩ | ⟨_, rfl⟩ <;> rfl

theorem Same.didKey {a b : Json} (h : Same a b) : Nenrin.didKey a = Nenrin.didKey b := by
  refine h.congr (d := none) (fun a ha => ?_) (fun _ => rfl) fun _ => rfl
  cases a <;> first | rfl | cases ha

theorem Same.b64Canonical {a b : Json} (h : Same a b) : Py.b64Canonical a = Py.b64Canonical b := by
  refine h.congr (d := none) (fun a ha => ?_) (fun _ => rfl) fun _ => rfl
  cases a <;> first | rfl | cases ha

theorem Same.instant' {a b : Json} (h : Same a b) : Nenrin.instant a = Nenrin.instant b := by
  refine h.congr (d := none) (fun a ha => ?_) (fun _ => rfl) fun _ => rfl
  cases a <;> first | rfl | cases ha

theorem Same.eq_null {a b : Json} (h : Same a b) : a = .null ↔ b = .null := by
  rcases h.cases with rfl | ⟨ha, hb⟩ | ⟨xs, ys, rfl, rfl⟩ | ⟨x, y, rfl, rfl⟩
  · rfl
  · constructor
    · rintro rfl
      cases ha
    · rintro rfl
      cases hb
  · simp
  · simp

theorem Same.eq_str {a b : Json} (h : Same a b) (s : Str) : a = .str s ↔ b = .str s := by
  rw [← normWith_canonLeaf_str (a := a), ← normWith_canonLeaf_str (a := b), h]

/-- Python's `==` compares numbers by value. -/
theorem Same.pyLeaf {a b : Json} (h : Same a b) :
    normWith Json.pyLeaf a = normWith Json.pyLeaf b := by
  have hcanon (v : Json) : normWith Json.pyLeaf (normWith canonLeaf v) = normWith Json.pyLeaf v := by
    refine normWith_normWith (fun a ha => ?_) v
    cases a with
    | float x => cases hx : x.toInt? <;> simp only [normWith, canonLeaf, Json.pyLeaf, hx]
    | arr xs => cases ha
    | obj kvs => cases ha
    | _ => rfl
  rw [← hcanon a, h, hcanon b]

theorem Same.pySame {a a' b b' : Json} (ha : Same a a') (hb : Same b b') :
    Json.pySame a b = Json.pySame a' b' := by
  unfold Json.pySame
  rw [ha.pyLeaf, hb.pyLeaf]

theorem Same.eq_nan {a b : Json} (h : Same a b) : a = .float .nan ↔ b = .float .nan := by
  have hnan (v : Json) : v = .float .nan ↔ normWith canonLeaf v = .float .nan := by
    cases v with
    | float x =>
      cases hx : x.toInt? with
      | none => simp only [normWith, canonLeaf, hx]
      | some n =>
        simp only [normWith, canonLeaf, hx]
        constructor
        · intro hv
          obtain rfl := Json.float.inj hv
          cases hx
        · intro hv
          cases hv
    | _ => simp [normWith, canonLeaf]
  rw [hnan a, hnan b, h]

/-- The two fields are both absent, or are one value. -/
def SameField (a b : Option Json) : Prop :=
  a.map (normWith canonLeaf) = b.map (normWith canonLeaf)

theorem Same.present {a b : Json} (h : Same a b) : SameField (some a) (some b) := congrArg some h

theorem SameField.cases {a b : Option Json} (h : SameField a b) :
    (a = none ∧ b = none) ∨ ∃ v w, a = some v ∧ b = some w ∧ Same v w := by
  cases a with
  | none => exact .inl ⟨rfl, Option.map_eq_none_iff.mp h.symm⟩
  | some v =>
    cases b with
    | none => cases h
    | some w => exact .inr ⟨v, w, rfl, rfl, Option.some.inj h⟩

theorem SameField.pyEq? {a a' b b' : Option Json} (ha : SameField a a') (hb : SameField b b') :
    Json.pyEq? a b = Json.pyEq? a' b' := by
  rcases ha.cases with ⟨rfl, rfl⟩ | ⟨v, v', rfl, rfl, hv⟩
  · rcases hb.cases with ⟨rfl, rfl⟩ | ⟨w, w', rfl, rfl, hw⟩
    · rfl
    · rfl
  · rcases hb.cases with ⟨rfl, rfl⟩ | ⟨w, w', rfl, rfl, hw⟩
    · rfl
    · have hnan : (v != .float .nan) = (v' != .float .nan) := by
        rw [Bool.eq_iff_iff, bne_iff_ne, bne_iff_ne, ne_eq, ne_eq, hv.eq_nan]
      simp only [Json.pyEq?, Json.pyEq, hv.pySame hw, hnan]

theorem SameField.eq_str {a b : Option Json} (h : SameField a b) (s : Str) :
    a = some (.str s) ↔ b = some (.str s) := by
  rcases h.cases with ⟨rfl, rfl⟩ | ⟨v, w, rfl, rfl, hv⟩
  · rfl
  · rw [Option.some.injEq, Option.some.injEq, hv.eq_str]

theorem SameField.eq_null {a b : Option Json} (h : SameField a b) :
    a = some .null ↔ b = some .null := by
  rcases h.cases with ⟨rfl, rfl⟩ | ⟨v, w, rfl, rfl, hv⟩
  · rfl
  · rw [Option.some.injEq, Option.some.injEq, hv.eq_null]

theorem SameField.falsyAction {a b : Option Json} (h : SameField a b) :
    Nenrin.falsyAction a = Nenrin.falsyAction b := by
  rw [← falsyAction_normWith a, h, falsyAction_normWith b]

theorem SameField.tryCanonical {a b : Option Json} (h : SameField a b) :
    a.bind Nenrin.tryCanonical = b.bind Nenrin.tryCanonical := bind_tryCanonical_normWith h

theorem SameField.actionsEqual {a a' b b' : Option Json} (ha : SameField a a')
    (hb : SameField b b') : Nenrin.actionsEqual a b = Nenrin.actionsEqual a' b' := by
  unfold Nenrin.actionsEqual
  rw [ha.falsyAction, hb.falsyAction, ha.tryCanonical, hb.tryCanonical]

/-! ## Records -/

/-- The two records are one value. -/
abbrev SameRecord (x y : Record) : Prop := Same (.obj x) (.obj y)

/-- Both are there and one value, or neither is. -/
def SameRecord? (a b : Option Record) : Prop :=
  a.map (fun x => normWith canonLeaf (.obj x)) = b.map fun x => normWith canonLeaf (.obj x)

theorem SameRecord?.cases {a b : Option Record} (h : SameRecord? a b) :
    (a = none ∧ b = none) ∨ ∃ x y, a = some x ∧ b = some y ∧ SameRecord x y := by
  cases a with
  | none => exact .inl ⟨rfl, Option.map_eq_none_iff.mp h.symm⟩
  | some x =>
    cases b with
    | none => cases h
    | some y => exact .inr ⟨x, y, rfl, rfl, Option.some.inj h⟩

theorem Same.dict? {a b : Json} (h : Same a b) : SameRecord? (Nenrin.dict? a) (Nenrin.dict? b) := by
  have hnone (v : Json) (hv : isNumber v = true) : Nenrin.dict? v = none := by
    cases v <;> first | rfl | cases hv
  rcases h.cases with rfl | ⟨ha, hb⟩ | ⟨xs, ys, rfl, rfl⟩ | ⟨x, y, rfl, rfl⟩
  · rfl
  · rw [hnone a ha, hnone b hb]
    rfl
  · rfl
  · exact congrArg some h

variable {x y : Record}

theorem Same.field (h : SameRecord x y) (k : Str) : SameField (x.lookup k) (y.lookup k) :=
  h.lookup k

theorem Same.getField (h : SameRecord x y) (k : String) :
    Same (Nenrin.getField x k) (Nenrin.getField y k) := by
  unfold Nenrin.getField
  rcases (h.field (lit k)).cases with ⟨hx, hy⟩ | ⟨v, w, hx, hy, hv⟩
  · rw [hx, hy]
    exact Same.refl _
  · rw [hx, hy]
    exact hv

/-- A member of a dict that may be absent. -/
theorem SameRecord?.bind_lookup {a b : Option Record} (h : SameRecord? a b) (k : Str) :
    SameField (a.bind (·.lookup k)) (b.bind (·.lookup k)) := by
  rcases h.cases with ⟨rfl, rfl⟩ | ⟨x, y, rfl, rfl, hxy⟩
  · rfl
  · exact hxy.field k

variable {R : Runtime}

theorem Same.sigVerifies_eq {a a' b b' c c' : Json} (ha : Same a a') (hb : Same b b')
    (hc : Same c c') : Nenrin.sigVerifies R a b c = Nenrin.sigVerifies R a' b' c' := by
  unfold Nenrin.sigVerifies
  rw [ha.didKey, hb.b64Canonical, hc.tryCanonical_eq]

theorem Same.recomputes_eq (h : SameRecord x y) (kind : Kind) (field : String) :
    Nenrin.recomputes R x kind field = Nenrin.recomputes R y kind field := by
  rw [Bool.eq_iff_iff]
  exact ⟨h.recomputes, h.symm.recomputes⟩

theorem Same.boundOk (h : SameRecord x y) (k : String) :
    Nenrin.boundOk x k = Nenrin.boundOk y k := by
  have hnull : (Nenrin.getField x k == .null) = (Nenrin.getField y k == .null) := by
    rw [Bool.eq_iff_iff, beq_iff_eq, beq_iff_eq, (h.getField k).eq_null]
  unfold Nenrin.boundOk
  rw [hnull, (h.getField k).instant']

theorem Same.inWindow (h : SameRecord x y) (t : Instant) :
    Nenrin.inWindow x t = Nenrin.inWindow y t := by
  have hnull (k : String) : (Nenrin.getField x k == .null) = (Nenrin.getField y k == .null) := by
    rw [Bool.eq_iff_iff, beq_iff_eq, beq_iff_eq, (h.getField k).eq_null]
  unfold Nenrin.inWindow
  rw [hnull, hnull, (h.getField _).instant', (h.getField _).instant']

/-- `rec.get(k) != "text"` -/
theorem Same.getField_ne_text (h : SameRecord x y) (k t : String) :
    (Nenrin.getField x k ≠ text t) ↔ (Nenrin.getField y k ≠ text t) :=
  not_congr ((h.getField k).eq_str _)

theorem Same.sha256c {a b : Json} (h : Same a b) : Nenrin.sha256c R a = Nenrin.sha256c R b := by
  unfold Nenrin.sha256c
  rw [h.tryCanonical_eq]

theorem Same.actionBinding (h : SameRecord x y) (k : String) :
    Nenrin.actionBinding R x k = Nenrin.actionBinding R y k := by
  unfold Nenrin.actionBinding
  rcases (h.field (lit "action_binding")).cases with ⟨hx, hy⟩ | ⟨v, w, hx, hy, hv⟩
  · rw [hx, hy]
  · rw [hx, hy]
    rcases hv.dict?.cases with ⟨hv, hw⟩ | ⟨ab, ab', hv, hw, hab⟩
    · simp only [hv, hw]
    · simp only [hv, hw, hab.getField_ne_text, (h.getField k).sha256c, (h.getField k).eq_null]
      rcases (hab.getField "digest").dict?.cases with ⟨hv, hw⟩ | ⟨dg, dg', hv, hw, hdg⟩
      · simp only [hv, hw]
      · simp only [hv, hw, hdg.getField_ne_text]
        congr 2
        exact (hdg.getField "value").onText _ _

theorem Same.observationFault (h : SameRecord x y) (sigs : Bool) :
    Nenrin.observationFault R sigs x = Nenrin.observationFault R sigs y := by
  have hhop : SameRecord (hopOf x) (hopOf y) := by
    unfold hopOf
    rcases (h.getField "hop").dict?.cases with ⟨hx, hy⟩ | ⟨v, w, hx, hy, hv⟩
    · rw [hx, hy]
      exact Same.refl _
    · rw [hx, hy]
      exact hv
  unfold Nenrin.observationFault
  dsimp only
  rw [(h.field _).pyEq? (hhop.field (lit "from")), (h.field _).pyEq? (hhop.field (lit "to")),
    h.recomputes_eq, (h.getField "witness_id").sigVerifies_eq (h.getField "witness_sig")
      (h.preimage .obs)]
  have hedge {t t' p p' : Json} (ht : Same t t') (hp : Same p p') :
      Same (edgePreimage t p) (edgePreimage t' p') := by
    unfold edgePreimage
    simp only [Same, normWith, normKvs, Json.obj.injEq] at ht hp ⊢
    rw [ht, hp]
  rcases (h.field (lit "task_id")).cases with ⟨ht, ht'⟩ | ⟨t, t', ht, ht', htt⟩
  · rw [ht, ht']
  · rcases (h.field (lit "hop")).cases with ⟨hp, hp'⟩ | ⟨p, p', hp, hp', hpp⟩
    · rw [ht, ht', hp, hp']
    · rw [ht, ht', hp, hp']
      simp only [(hhop.getField "from").sigVerifies_eq (h.getField "edge_sig") (hedge htt hpp)]

theorem Same.providerRefuses {g g' : Record} (hg : SameRecord g g') (h : SameRecord x y) :
    Nenrin.providerRefuses g x = Nenrin.providerRefuses g' y := by
  have hgp := hg.getField "provider_id"
  have hnull : (Nenrin.getField g "provider_id" != .null) =
      (Nenrin.getField g' "provider_id" != .null) := by
    rw [Bool.eq_iff_iff, bne_iff_ne, bne_iff_ne, ne_eq, ne_eq, hgp.eq_null]
  have heq := hgp.present.pyEq? (h.field (lit "provider_id"))
  unfold Nenrin.providerRefuses
  dsimp only
  rw [hnull, heq]

theorem Same.grantFindings {g g' : Record} (hg : SameRecord g g') :
    Nenrin.grantFindings g = Nenrin.grantFindings g' := by
  have hgp := hg.getField "provider_id"
  have heq := hgp.present.pyEq? (hg.field (lit "caller_id"))
  unfold Nenrin.grantFindings
  dsimp only
  rw [heq]
  simp only [hgp.eq_null]

theorem Same.checkAgainstGrant {g g' : Record} (hg : SameRecord g g') (h : SameRecord x y)
    (b : Bound) (binding : Option Reason) :
    Nenrin.checkAgainstGrant R b binding g x = Nenrin.checkAgainstGrant R b binding g' y := by
  unfold Nenrin.checkAgainstGrant
  rw [hg.rid]
  cases Nenrin.rid R g' .grant with
  | none => rfl
  | some gref =>
    simp only [ne_eq, (hg.field (lit "grant_ref")).eq_str, (h.field (lit "grant_ref")).eq_str,
      h.recomputes_eq, (h.getField b.atField).instant', hg.boundOk, hg.providerRefuses h,
      hg.inWindow, (hg.field (lit "action")).actionsEqual (h.field (lit b.actionField)),
      hg.grantFindings]

/-! ## Lists of records -/

/-- The two lists hold, place by place, records that are one value. -/
abbrev SameRecords (xs ys : List Record) : Prop := List.Forall₂ SameRecord xs ys

theorem isEmpty_same {α : Type} {P : α → α → Prop} {xs ys : List α} (h : List.Forall₂ P xs ys) :
    xs.isEmpty = ys.isEmpty := by
  cases h with
  | nil => rfl
  | cons _ _ => rfl

theorem dicts_same {xs ys : List Json} (h : List.Forall₂ Same xs ys) :
    SameRecords (dicts xs) (dicts ys) := by
  induction h with
  | nil => exact .nil
  | @cons a b xs ys hab _ ih =>
    unfold dicts
    rcases hab.dict?.cases with ⟨ha, hb⟩ | ⟨x, y, ha, hb, hxy⟩
    · rw [List.filterMap_cons_none ha, List.filterMap_cons_none hb]
      exact ih
    · rw [List.filterMap_cons_some ha, List.filterMap_cons_some hb]
      exact .cons hxy ih

theorem Same.listAt (h : SameRecord x y) (k : String) :
    List.Forall₂ Same (Nenrin.listAt x k) (Nenrin.listAt y k) := by
  unfold Nenrin.listAt
  have hk := h.getField k
  generalize Nenrin.getField x k = v at hk ⊢
  generalize Nenrin.getField y k = w at hk ⊢
  rcases hk.cases with rfl | ⟨hv, hw⟩ | ⟨xs, ys, rfl, rfl⟩ | ⟨x, y, rfl, rfl⟩
  · exact List.forall₂_same.mpr fun a _ => Same.refl a
  · rcases exists_of_isNumber hv with ⟨_, rfl⟩ | ⟨_, rfl⟩ <;>
      rcases exists_of_isNumber hw with ⟨_, rfl⟩ | ⟨_, rfl⟩ <;> exact .nil
  · exact hk.list
  · exact .nil

theorem Same.slot (h : SameRecord x y) (k : String) (code : Code) :
    SameRecord? (Nenrin.slot x k code).1 (Nenrin.slot y k code).1 ∧
      (Nenrin.slot x k code).2 = (Nenrin.slot y k code).2 := by
  unfold Nenrin.slot
  have hk := h.getField k
  generalize Nenrin.getField x k = v at hk ⊢
  generalize Nenrin.getField y k = w at hk ⊢
  rcases hk.cases with rfl | ⟨hv, hw⟩ | ⟨xs, ys, rfl, rfl⟩ | ⟨x, y, rfl, rfl⟩
  · exact ⟨rfl, rfl⟩
  · rcases exists_of_isNumber hv with ⟨_, rfl⟩ | ⟨_, rfl⟩ <;>
      rcases exists_of_isNumber hw with ⟨_, rfl⟩ | ⟨_, rfl⟩ <;> exact ⟨rfl, rfl⟩
  · exact ⟨rfl, rfl⟩
  · exact ⟨congrArg some hk, rfl⟩

theorem SameRecord?.toList {a b : Option Record} (h : SameRecord? a b) :
    SameRecords a.toList b.toList := by
  rcases h.cases with ⟨rfl, rfl⟩ | ⟨x, y, rfl, rfl, hxy⟩
  · exact .nil
  · exact .cons hxy .nil

theorem Same.cands (h : SameRecord x y) : SameRecords (Nenrin.cands x) (Nenrin.cands y) := by
  unfold Nenrin.cands
  exact List.rel_append (h.slot "receipt" .executionInvalid).1.toList
    (dicts_same (h.listAt "receipts"))

theorem dropSeen_same {xs ys : List Record} (h : SameRecords xs ys) (seen : List Bytes) :
    SameRecords (dropSeen seen xs) (dropSeen seen ys) := by
  induction h generalizing seen with
  | nil => exact .nil
  | @cons x y xs ys hxy _ ih =>
    unfold dropSeen
    rw [hxy.tryCanonical_eq]
    cases tryCanonical (.obj y) with
    | none => exact .cons hxy (ih seen)
    | some cb =>
      dsimp only
      split
      next => exact ih seen
      next => exact .cons hxy (ih _)

theorem Same.receiptSet (h : SameRecord x y) :
    SameRecords (Nenrin.receiptSet x) (Nenrin.receiptSet y) := dropSeen_same h.cands []

/-- A test that sees no spelling answers alike along the two lists. -/
theorem any_same {xs ys : List Record} (h : SameRecords xs ys) {f : Record → Bool}
    (hf : ∀ {x y}, SameRecord x y → f x = f y) : xs.any f = ys.any f := by
  induction h with
  | nil => rfl
  | cons hxy _ ih => rw [List.any_cons, List.any_cons, hf hxy, ih]

theorem filterMap_same {β : Type} {xs ys : List Record} (h : SameRecords xs ys)
    {f f' : Record → Option β} (hf : ∀ {x y}, SameRecord x y → f x = f' y) :
    xs.filterMap f = ys.filterMap f' := by
  induction h with
  | nil => rfl
  | cons hxy _ ih => rw [List.filterMap_cons, List.filterMap_cons, hf hxy, ih]

/-! ## The other steps -/

theorem identity_same {t t' : Json} (ht : Same t t') {xs ys : List Record}
    (h : SameRecords xs ys) : identity t xs = identity t' ys := by
  have hempty := isEmpty_same h
  have hany (s : Str) : (xs.any fun x => x.lookup (lit "task_id") != some (.str s)) =
      ys.any fun x => x.lookup (lit "task_id") != some (.str s) := by
    refine any_same h fun {x y} hxy => ?_
    rw [Bool.eq_iff_iff, bne_iff_ne, bne_iff_ne, ne_eq, ne_eq, (hxy.field _).eq_str]
  rcases ht.cases with rfl | ⟨hv, hw⟩ | ⟨_, _, rfl, rfl⟩ | ⟨_, _, rfl, rfl⟩
  · unfold identity
    split
    next c cs => rw [hany]
    next => rw [hempty]
  · rcases exists_of_isNumber hv with ⟨_, rfl⟩ | ⟨_, rfl⟩ <;>
      rcases exists_of_isNumber hw with ⟨_, rfl⟩ | ⟨_, rfl⟩ <;> simp only [identity, hempty]
  · simp only [identity, hempty]
  · simp only [identity, hempty]

/-- What a list says of its members that are no dicts. -/
theorem filterMap_dict_same {β : Type} {xs ys : List Json} (h : List.Forall₂ Same xs ys)
    (d : Option β) : (xs.filterMap fun v => if (Nenrin.dict? v).isSome then none else d) =
      ys.filterMap fun v => if (Nenrin.dict? v).isSome then none else d := by
  induction h with
  | nil => rfl
  | @cons v w vs ws hvw _ ih =>
    have hsome : (Nenrin.dict? v).isSome = (Nenrin.dict? w).isSome := by
      rcases hvw.dict?.cases with ⟨hv, hw⟩ | ⟨_, _, hv, hw, _⟩
      · rw [hv, hw]
      · rw [hv, hw]
        rfl
    rw [List.filterMap_cons, List.filterMap_cons, hsome, ih]

theorem Same.malformedExecution (h : SameRecord x y) :
    Nenrin.malformedExecution x = Nenrin.malformedExecution y := by
  have hlist := filterMap_dict_same (h.listAt "receipts")
    (some (Code.executionInvalid, some Reason.recordNotObject))
  unfold Nenrin.malformedExecution
  rw [(h.slot "grant" .executionInvalid).2, (h.slot "receipt" .executionInvalid).2, hlist]

theorem Same.pairCheck {g g' : Record} (hg : SameRecord g g') (h : SameRecord x y) :
    Nenrin.pairCheck R g x = Nenrin.pairCheck R g' y := by
  unfold Nenrin.pairCheck
  rw [hg.actionBinding, h.actionBinding, hg.checkAgainstGrant h]

theorem Same.callerSigned (h : SameRecord x y) :
    Nenrin.callerSigned R x = Nenrin.callerSigned R y :=
  (h.getField _).sigVerifies_eq (h.getField _) (h.preimage _)

theorem Same.providerSigned (h : SameRecord x y) :
    Nenrin.providerSigned R x = Nenrin.providerSigned R y :=
  (h.getField _).sigVerifies_eq (h.getField _) (h.preimage _)

theorem Same.counts {g g' : Record} (hg : SameRecord g g') {gp gp' : Json} (hgp : Same gp gp')
    (h : SameRecord x y) (sigs : Bool) :
    Nenrin.counts R sigs g gp x = Nenrin.counts R sigs g' gp' y := by
  unfold Nenrin.counts
  rw [(h.field _).pyEq? (hg.field _), (h.field _).pyEq? hgp.present, h.recomputes_eq,
    hgp.sigVerifies_eq (h.getField "provider_sig") (h.preimage .receipt)]

theorem pyIn_same {v w : Json} (h : Same v w) {ids ids' : List Json}
    (hids : List.Forall₂ Same ids ids') : Json.pyIn v ids = Json.pyIn w ids' := by
  unfold Json.pyIn
  induction hids with
  | nil => rfl
  | cons hab _ ih => rw [List.any_cons, List.any_cons, h.pySame hab, ih]

theorem authorized_same {g g' : Record} (hg : SameRecord g g') {gp gp' : Json} (hgp : Same gp gp')
    (sigs : Bool) {xs ys : List Record} (h : SameRecords xs ys) {ids ids' : List Json}
    (hids : List.Forall₂ Same ids ids') :
    SameRecords (authorized R sigs g gp ids xs) (authorized R sigs g' gp' ids' ys) := by
  induction h generalizing ids ids' with
  | nil => exact .nil
  | @cons x y xs ys hxy _ ih =>
    have hi := hxy.getField "receipt_id"
    unfold authorized
    dsimp only
    rw [hg.counts hgp hxy, pyIn_same hi hids]
    split
    next => exact .cons hxy (ih (List.rel_append hids (.cons hi .nil)))
    next => exact ih hids

theorem Same.reconcile {g g' : Record} (hg : SameRecord g g') (sigs : Bool) {xs ys : List Record}
    (h : SameRecords xs ys) :
    (Nenrin.reconcile R sigs g xs).1 = (Nenrin.reconcile R sigs g' ys).1 ∧
      SameRecord? (Nenrin.reconcile R sigs g xs).2 (Nenrin.reconcile R sigs g' ys).2 := by
  have hgp := hg.getField "provider_id"
  have hauth := authorized_same (R := R) hg hgp sigs h (@List.Forall₂.nil _ _ Same)
  unfold Nenrin.reconcile
  simp only [hgp.eq_null]
  split
  next => exact ⟨rfl, rfl⟩
  next =>
    generalize authorized R sigs g _ [] xs = l at hauth ⊢
    generalize authorized R sigs g' _ [] ys = l' at hauth ⊢
    match hauth with
    | .nil => exact ⟨rfl, rfl⟩
    | .cons hxy .nil => exact ⟨rfl, congrArg some hxy⟩
    | .cons _ (.cons _ _) => exact ⟨rfl, rfl⟩

theorem execution_same {g g' : Option Record} (hg : SameRecord? g g') (sigs : Bool)
    {xs ys : List Record} (h : SameRecords xs ys) :
    (execution R sigs g xs).1 = (execution R sigs g' ys).1 ∧
      SameRecord? (execution R sigs g xs).2 (execution R sigs g' ys).2 := by
  rcases hg.cases with ⟨rfl, rfl⟩ | ⟨g, g', rfl, rfl, hgg⟩
  · cases h with
    | nil => exact ⟨rfl, rfl⟩
    | cons _ _ => exact ⟨rfl, rfl⟩
  · cases h with
    | nil => exact ⟨rfl, rfl⟩
    | @cons x y xs ys hxy hrest =>
      have hothers : (xs.filterMap fun z =>
          if sigs && !(callerSigned R g && providerSigned R z) then none
          else (pairCheck R g z).1.map fun why => (Code.executionInvalid, some why)) =
          ys.filterMap fun z =>
            if sigs && !(callerSigned R g' && providerSigned R z) then none
            else (pairCheck R g' z).1.map fun why => (Code.executionInvalid, some why) := by
        refine filterMap_same hrest fun {a b} hab => ?_
        rw [hgg.callerSigned, hab.providerSigned, hgg.pairCheck hab]
      obtain ⟨hreport, hreconciled⟩ := hgg.reconcile (R := R) sigs (.cons hxy hrest)
      refine ⟨?_, hreconciled⟩
      unfold execution executionPair
      dsimp only
      rw [hothers, hgg.pairCheck hxy, hgg.callerSigned, hxy.providerSigned, hreport]

theorem preflight_same {g g' i i' r r' : Option Record} (hg : SameRecord? g g')
    (hi : SameRecord? i i') (hr : SameRecord? r r') (sigs : Bool) :
    preflight R sigs g i r = preflight R sigs g' i' r' := by
  rcases hi.cases with ⟨rfl, rfl⟩ | ⟨x, y, rfl, rfl, hxy⟩
  · rfl
  · rcases hg.cases with ⟨rfl, rfl⟩ | ⟨g, g', rfl, rfl, hgg⟩
    · rfl
    · have hsig : sigVerifies R (getField x "provider_id") (getField x "intent_sig")
          (preimage x .intent) = sigVerifies R (getField y "provider_id") (getField y "intent_sig")
          (preimage y .intent) :=
        (hxy.getField _).sigVerifies_eq (hxy.getField _) (hxy.preimage _)
      unfold preflight
      dsimp only
      rw [hxy.actionBinding, hgg.checkAgainstGrant hxy, hsig,
        (hxy.getField "proposed_action").tryCanonical_eq]
      rcases hr.cases with ⟨rfl, rfl⟩ | ⟨u, v, rfl, rfl, huv⟩
      · rfl
      · dsimp only
        rw [(huv.getField "executed_action").tryCanonical_eq]

theorem Same.evidenceBound (h : SameRecord x y) :
    Nenrin.evidenceBound x = Nenrin.evidenceBound y := by
  unfold Nenrin.evidenceBound
  exact congrArg₂ _ (congrArg₂ _ ((h.getField _).onText _ _) ((h.getField _).onText _ _))
    ((h.getField _).onText _ _)

/-- Of the receipt, R7 reads the outcome only. -/
theorem evidence_of_outcome (h : Same (getField x "outcome") (getField y "outcome")) :
    evidence (some x) = evidence (some y) := by
  have he := h.dict?.bind_lookup (lit "evidence")
  unfold evidence
  dsimp only
  rw [he.falsyAction]
  rcases he.cases with ⟨hx, hy⟩ | ⟨v, w, hx, hy, hvw⟩
  · rw [hx, hy]
  · rw [hx, hy, Option.bind_some, Option.bind_some]
    rcases hvw.dict?.cases with ⟨hv, hw⟩ | ⟨e, e', hv, hw, hee⟩
    · rw [hv, hw]
    · rw [hv, hw, Option.any_some, Option.any_some, hee.evidenceBound]

theorem evidence_same {a b : Option Record} (h : SameRecord? a b) : evidence a = evidence b := by
  rcases h.cases with ⟨rfl, rfl⟩ | ⟨x, y, rfl, rfl, hxy⟩
  · rfl
  · exact evidence_of_outcome (hxy.getField "outcome")

theorem Same.linkOf (h : SameRecord x y) : Nenrin.linkOf x = Nenrin.linkOf y := by
  unfold Nenrin.linkOf
  rcases ((h.getField "conduct").dict?.bind_lookup (lit "detail_ref")).cases with
    ⟨hx, hy⟩ | ⟨v, w, hx, hy, hvw⟩
  · rw [hx, hy]
  · rw [hx, hy]
    rcases hvw.cases with rfl | ⟨hv, hw⟩ | ⟨xs, ys, rfl, rfl⟩ | ⟨a, b, rfl, rfl⟩
    · rfl
    · -- no number is a reference
      rcases exists_of_isNumber hv with ⟨_, rfl⟩ | ⟨_, rfl⟩ <;>
        rcases exists_of_isNumber hw with ⟨_, rfl⟩ | ⟨_, rfl⟩ <;> rfl
    · rfl
    · rfl

theorem linkage_same {xs ys : List Json} (h : List.Forall₂ Same xs ys) {r r' : Option Record}
    (hr : SameRecord? r r') : linkage R xs r = linkage R ys r' := by
  have hempty := isEmpty_same h
  have hlinks : (dicts xs).filterMap Nenrin.linkOf = (dicts ys).filterMap Nenrin.linkOf :=
    filterMap_same (dicts_same h) Same.linkOf
  rcases hr.cases with ⟨rfl, rfl⟩ | ⟨x, y, rfl, rfl, hxy⟩
  · rfl
  · unfold linkage
    dsimp only
    rw [hempty, hlinks, hxy.rid]

end Preaction.Nenrin
