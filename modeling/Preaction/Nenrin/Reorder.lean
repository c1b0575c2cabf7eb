import Preaction.Nenrin.Identity

/-!
# The order of observations and receipts

The signature of a report as a function of the order in which a bundle lists its
observations and receipts. The steps ask of a list which values are in it, not
where: R3 stops at the first observation that is not linked, but only to say that
there is one, and a receipt that is dropped or passed over repeats one that is
kept. One receipt may stand for another with the same `receipt_id`, and then they
have one preimage, unless two preimages of the bundle collide
(`CollisionFree`).

What order does decide is whether R3 comes to a `prev_evidence_id` without a hash
(`signature_reordered_iff`).
-/

namespace Preaction.Nenrin

open Preaction.Py Report

variable {R : Runtime}

/-! ## R3 -/

theorem gapless_perm {xs ys : List Int} (h : xs.Perm ys) : gapless xs = gapless ys := by
  have hdups : xs.eraseDups.Perm ys.eraseDups := by
    rw [List.perm_ext_iff_of_nodup (Loop.nodup_eraseDups xs) (Loop.nodup_eraseDups ys)]
    intro n
    rw [List.mem_eraseDups, List.mem_eraseDups, h.mem_iff]
  have hsort : xs.eraseDups.insertionSort (· ≤ ·) = ys.eraseDups.insertionSort (· ≤ ·) :=
    (((List.perm_insertionSort _ _).trans hdups).trans
      (List.perm_insertionSort _ _).symm).eq_of_pairwise' (List.pairwise_insertionSort _ _)
      (List.pairwise_insertionSort _ _)
  unfold gapless
  dsimp only
  rw [hsort, hdups.length_eq]

variable {xs ys : List Record}

theorem gap_perm (h : xs.Perm ys) : Gap xs ↔ Gap ys := by
  have hany : xs.any (fun o => (seqOf o).isNone) = ys.any fun o => (seqOf o).isNone := by
    rw [Bool.eq_iff_iff, List.any_eq_true, List.any_eq_true]
    simp only [h.mem_iff]
  unfold Gap
  rw [hany, gapless_perm (h.filterMap seqOf)]

theorem Linked.perm {o : Record} (h : xs.Perm ys) (hl : Linked R xs o) : Linked R ys o := by
  cases hl with
  | root hseq hprev => exact .root hseq hprev
  | hop hseq hs hprev hp hpred hrid => exact .hop hseq hs hprev (h.mem_iff.mp hp) hpred hrid

/-- R3 does not come to a value without a hash, in whatever order it reads. -/
def Hashable (obs : List Record) : Prop := Gap obs ∨ ∀ o ∈ obs, ¬ Unhashable o

theorem Hashable.perm (h : xs.Perm ys) (hx : Hashable xs) : Hashable ys :=
  hx.imp (gap_perm h).mp fun hall o ho => hall o (h.mem_iff.mpr ho)

theorem Hashable.chainFault (h : Hashable xs) : ∃ broken, Nenrin.chainFault R xs = .ok broken := by
  cases hrun : Nenrin.chainFault R xs with
  | ok broken => exact ⟨broken, rfl⟩
  | error e =>
    obtain ⟨hgap, pre, o, post, rfl, -, ho⟩ := chainFault_error.mp ⟨e, hrun⟩
    rcases h with h | h
    · exact absurd h hgap
    · exact absurd ho (h o (List.mem_append_right _ List.mem_cons_self))

/-- Where it reads them all, R3 breaks a chain in one order as in another. -/
theorem chainFault_perm (h : xs.Perm ys) (hx : Hashable xs) : ∃ p q,
    chainFault R xs = .ok p ∧ chainFault R ys = .ok q ∧ (p.isSome = true ↔ q.isSome = true) := by
  obtain ⟨p, hp⟩ := hx.chainFault (R := R)
  obtain ⟨q, hq⟩ := (hx.perm h).chainFault (R := R)
  refine ⟨p, q, hp, hq, ?_⟩
  have hnone : chainFault R xs = .ok none ↔ chainFault R ys = .ok none := by
    rw [chainFault_ok_none_iff, chainFault_ok_none_iff, gap_perm h]
    refine and_congr_right fun _ => ⟨fun hl o ho => ?_, fun hl o ho => ?_⟩
    · exact (hl o (h.mem_iff.mpr ho)).perm h
    · exact (hl o (h.mem_iff.mp ho)).perm h.symm
  rw [hp, hq, Except.ok.injEq, Except.ok.injEq] at hnone
  rw [Option.isSome_iff_ne_none, Option.isSome_iff_ne_none]
  exact not_congr hnone

theorem disagree_perm (h : xs.Perm ys) : Disagree R xs ↔ Disagree R ys := by
  unfold Disagree
  simp only [h.mem_iff]

/-! ## Lists that hold the same records -/

/-- Each record of the one list is, as a value, in the other. -/
structure SameMembers (xs ys : List Record) : Prop where
  left : ∀ x ∈ xs, ∃ y ∈ ys, SameRecord x y
  right : ∀ y ∈ ys, ∃ x ∈ xs, SameRecord x y

namespace SameMembers

theorem symm (h : SameMembers xs ys) : SameMembers ys xs where
  left y hy := (h.right y hy).imp fun _ => And.imp_right Same.symm
  right x hx := (h.left x hx).imp fun _ => And.imp_right Same.symm

theorem of_perm (h : xs.Perm ys) : SameMembers xs ys where
  left x hx := ⟨x, h.mem_iff.mp hx, Same.refl _⟩
  right y hy := ⟨y, h.mem_iff.mpr hy, Same.refl _⟩

theorem append {xs' ys' : List Record} (h : SameMembers xs ys) (h' : SameMembers xs' ys') :
    SameMembers (xs ++ xs') (ys ++ ys') where
  left x hx := (List.mem_append.mp hx).elim
    (fun hx => (h.left x hx).imp fun _ => And.imp_left (List.mem_append_left _))
    fun hx => (h'.left x hx).imp fun _ => And.imp_left (List.mem_append_right _)
  right y hy := (List.mem_append.mp hy).elim
    (fun hy => (h.right y hy).imp fun _ => And.imp_left (List.mem_append_left _))
    fun hy => (h'.right y hy).imp fun _ => And.imp_left (List.mem_append_right _)

/-- A question that sees no spelling is answered yes in both or in neither. -/
theorem exists_iff {P : Record → Prop} (h : SameMembers xs ys)
    (hP : ∀ {x y}, SameRecord x y → P x → P y) : (∃ x ∈ xs, P x) ↔ ∃ y ∈ ys, P y := by
  constructor
  · rintro ⟨x, hx, hPx⟩
    obtain ⟨y, hy, hs⟩ := h.left x hx
    exact ⟨y, hy, hP hs hPx⟩
  · rintro ⟨y, hy, hPy⟩
    obtain ⟨x, hx, hs⟩ := h.right y hy
    exact ⟨x, hx, hP hs.symm hPy⟩

theorem isEmpty (h : SameMembers xs ys) : xs.isEmpty = ys.isEmpty := by
  have hex : (∃ x ∈ xs, True) ↔ ∃ y ∈ ys, True := h.exists_iff fun _ => id
  cases xs with
  | nil =>
    cases ys with
    | nil => rfl
    | cons y ys => exact absurd (hex.mpr ⟨y, List.mem_cons_self, trivial⟩) (by simp)
  | cons x xs =>
    cases ys with
    | nil => exact absurd (hex.mp ⟨x, List.mem_cons_self, trivial⟩) (by simp)
    | cons y ys => rfl

end SameMembers

theorem identity_members (h : SameMembers xs ys) (t : Json) : identity t xs = identity t ys := by
  have hany (s : Str) : (xs.any fun x => x.lookup (lit "task_id") != some (.str s)) =
      ys.any fun x => x.lookup (lit "task_id") != some (.str s) := by
    rw [Bool.eq_iff_iff, List.any_eq_true, List.any_eq_true]
    refine h.exists_iff fun {x y} hs hx => ?_
    rw [bne_iff_ne] at hx ⊢
    exact Strays.of_same hx hs
  unfold identity
  split
  next => rw [hany]
  next => rw [h.isEmpty]

/-! ## Receipts with one preimage -/

/-- The receipts say the same under their `receipt_id`. -/
abbrev SameReceipt (x y : Record) : Prop :=
  Same (preimage x .receipt) (preimage y .receipt)

/-- Both are there and say the same, or neither is. -/
def SameReceipt? (a b : Option Record) : Prop :=
  (a = none ∧ b = none) ∨ ∃ x y, a = some x ∧ b = some y ∧ SameReceipt x y

/-- No two preimages of the bundle's receipts have one digest and differ. -/
def CollisionFree (R : Runtime) (bundle : Record) : Prop :=
  ∀ x ∈ cands bundle, ∀ y ∈ cands bundle, ∀ m m',
    tryCanonical (preimage x .receipt) = some m → tryCanonical (preimage y .receipt) = some m' →
    R.sha256 m = R.sha256 m' → m = m'

theorem CollisionFree.sameReceipt {bundle : Record} (h : CollisionFree R bundle) {x y : Record}
    (hx : x ∈ cands bundle) (hy : y ∈ cands bundle) {i : Str} (hxi : rid R x .receipt = some i)
    (hyi : rid R y .receipt = some i) : SameReceipt x y := by
  unfold rid sha256c at hxi hyi
  obtain ⟨m, hm, hmi⟩ := Option.map_eq_some_iff.mp hxi
  obtain ⟨m', hm', hmi'⟩ := Option.map_eq_some_iff.mp hyi
  have hsha : R.sha256 m = R.sha256 m' := hexStr_injective (hmi.trans hmi'.symm)
  obtain rfl := h x hx y hy m m' hm hm' hsha
  exact same_of_tryCanonical hm hm'

/-- A field outside the derived ones is the preimage's. -/
theorem SameReceipt.getField {x y : Record} (h : SameReceipt x y) {k : String}
    (hk : Kind.receipt.derived.contains (lit k) = false) :
    Same (Nenrin.getField x k) (Nenrin.getField y k) := by
  have hpre (z : Record) : Nenrin.getField (z.filter fun kv =>
      !Kind.receipt.derived.contains kv.1) k = Nenrin.getField z k := by
    unfold Nenrin.getField
    rw [lookup_filter (fun k => !Kind.receipt.derived.contains k), hk]
    rfl
  rw [← hpre x, ← hpre y]
  exact Same.getField h k

/-! ## Reconciliation -/

section

variable {sigs : Bool} {grant : Record}

/-- The receipts that count have one `receipt_id`. -/
def OneId (R : Runtime) (sigs : Bool) (grant : Record) (xs : List Record) : Prop :=
  ∀ x ∈ xs, ∀ y ∈ xs, counts R sigs grant (getField grant "provider_id") x = true →
    counts R sigs grant (getField grant "provider_id") y = true →
    getField x "receipt_id" = getField y "receipt_id"

/-- What reconciliation answers: no receipt counts, those that count have one id, or
they do not. -/
inductive Reconciled (R : Runtime) (sigs : Bool) (grant : Record) (xs : List Record) :
    Report × Option Record → Prop
  | unreconciled (h : ∀ x ∈ xs, counts R sigs grant (getField grant "provider_id") x = false) :
      Reconciled R sigs grant xs (refuse .executionUnreconciled none, none)
  | one {y : Record} (hy : y ∈ xs)
      (hc : counts R sigs grant (getField grant "provider_id") y = true)
      (hone : OneId R sigs grant xs) : Reconciled R sigs grant xs (empty, some y)
  | equivocation (h : ¬ OneId R sigs grant xs) :
      Reconciled R sigs grant xs (refuse .executionEquivocation none, none)

/-- A receipt that counts has its digest for its `receipt_id`. -/
theorem rid_of_counts {gp : Json} {x : Record} (h : counts R sigs grant gp x = true) :
    ∃ i, rid R x .receipt = some i ∧ x.lookup (lit "receipt_id") = some (.str i) := by
  unfold counts at h
  rw [Bool.and_eq_true, Bool.and_eq_true] at h
  exact recomputes_iff.mp h.1.2

theorem authorized_fresh {gp : Json} {ids : List Json} {xs : List Record} {y : Record}
    (h : y ∈ authorized R sigs grant gp ids xs) :
    Json.pyIn (getField y "receipt_id") ids = false := by
  induction xs generalizing ids with
  | nil => cases h
  | cons x xs ih =>
    simp only [authorized] at h
    split at h
    next hc =>
      rw [Bool.and_eq_true, Bool.not_eq_true'] at hc
      rcases List.mem_cons.mp h with rfl | h
      · exact hc.2
      · have hin := ih h
        rw [Json.pyIn, List.any_append, Bool.or_eq_false_iff] at hin
        exact hin.1
    next => exact ih h

theorem authorized_pairwise (sigs : Bool) (grant : Record) (gp : Json) (ids : List Json)
    (xs : List Record) :
    (authorized R sigs grant gp ids xs).Pairwise fun x y =>
      getField x "receipt_id" ≠ getField y "receipt_id" := by
  induction xs generalizing ids with
  | nil => exact List.Pairwise.nil
  | cons x xs ih =>
    simp only [authorized]
    split
    next =>
      refine List.pairwise_cons.mpr ⟨fun y hy heq => ?_, ih _⟩
      have hfresh := authorized_fresh hy
      rw [Json.pyIn, List.any_append, Bool.or_eq_false_iff, ← heq] at hfresh
      have hsame := hfresh.2
      rw [List.any_cons, Json.pySame_refl] at hsame
      cases hsame
    next => exact ih _

theorem reconcile_spec (sigs : Bool) {grant : Record}
    (hgp : getField grant "provider_id" ≠ .null) (xs : List Record) :
    Reconciled R sigs grant xs (reconcile R sigs grant xs) := by
  -- a receipt that counts has its id among the authorized ones
  have hkept {x : Record} (hx : x ∈ xs)
      (hc : counts R sigs grant (getField grant "provider_id") x = true) :
      ∃ y ∈ authorized R sigs grant (getField grant "provider_id") [] xs,
        getField x "receipt_id" = getField y "receipt_id" := by
    rcases counted hx hc with hin | ⟨y, hy, hs⟩
    · exact absurd hin (show ¬ Json.pyIn _ [] = true from Bool.false_ne_true)
    · obtain ⟨i, -, hi⟩ := rid_of_counts (mem_authorized hy).2
      rw [getField_of_lookup hi, Json.pySame_str] at hs
      exact ⟨y, hy, by rw [hs, getField_of_lookup hi]⟩
  have hpair := authorized_pairwise (R := R) sigs grant
    (getField grant "provider_id") [] xs
  have hmem {y : Record}
      (hy : y ∈ authorized R sigs grant (getField grant "provider_id") [] xs) :=
    mem_authorized hy
  unfold reconcile
  dsimp only
  rw [if_neg hgp]
  generalize authorized R sigs grant _ [] xs = auth at hkept hpair hmem
  match auth with
  | [] =>
    refine .unreconciled fun x hx => ?_
    by_contra hc
    obtain ⟨y, hy, -⟩ := hkept hx (Bool.not_eq_false _ ▸ hc)
    cases hy
  | [y] =>
    obtain ⟨hy, hc⟩ := hmem List.mem_cons_self
    refine .one hy hc fun x hx z hz hcx hcz => ?_
    obtain ⟨y₁, hy₁, h₁⟩ := hkept hx hcx
    obtain ⟨y₂, hy₂, h₂⟩ := hkept hz hcz
    rw [h₁, h₂, List.mem_singleton.mp hy₁, List.mem_singleton.mp hy₂]
  | x :: y :: rest =>
    obtain ⟨hx, hcx⟩ := hmem List.mem_cons_self
    obtain ⟨hy, hcy⟩ := hmem (List.mem_cons_of_mem _ List.mem_cons_self)
    refine .equivocation fun hone => ?_
    exact (List.pairwise_cons.mp hpair).1 y List.mem_cons_self (hone x hx y hy hcx hcy)

/-- A receipt that counts is, as a value, in the other list, and counts there under its id. -/
theorem SameMembers.counts (h : SameMembers xs ys) {x : Record} (hx : x ∈ xs)
    (hc : Nenrin.counts R sigs grant (Nenrin.getField grant "provider_id") x = true) :
    ∃ y ∈ ys, SameRecord x y ∧
      Nenrin.counts R sigs grant (Nenrin.getField grant "provider_id") y = true ∧
      Nenrin.getField x "receipt_id" = Nenrin.getField y "receipt_id" := by
  obtain ⟨y, hy, hs⟩ := h.left x hx
  obtain ⟨i, -, hi⟩ := rid_of_counts hc
  refine ⟨y, hy, hs, ?_, ?_⟩
  · rw [← Same.counts (Same.refl (.obj grant)) (Same.refl _) hs]
    exact hc
  · rw [getField_of_lookup hi, getField_of_lookup (hs.lookup_str hi)]

theorem SameMembers.oneId (h : SameMembers xs ys) (hone : OneId R sigs grant xs) :
    OneId R sigs grant ys := by
  intro y hy y' hy' hc hc'
  obtain ⟨x, hx, -, hcx, hid⟩ := h.symm.counts hy hc
  obtain ⟨x', hx', -, hcx', hid'⟩ := h.symm.counts hy' hc'
  rw [hid, hid', hone x hx x' hx' hcx hcx']

/-- Reconciliation answers alike on lists that hold the same receipts. -/
theorem reconcile_members (sigs : Bool) (grant : Record) (h : SameMembers xs ys)
    (hfree : ∀ x ∈ xs, ∀ y ∈ xs, ∀ i, rid R x .receipt = some i → rid R y .receipt = some i →
      SameReceipt x y) :
    (reconcile R sigs grant xs).1 = (reconcile R sigs grant ys).1 ∧
      SameReceipt? (reconcile R sigs grant xs).2 (reconcile R sigs grant ys).2 := by
  by_cases hgp : getField grant "provider_id" = .null
  · unfold reconcile
    dsimp only
    rw [if_pos hgp, if_pos hgp]
    exact ⟨rfl, .inl ⟨rfl, rfl⟩⟩
  · have hxs := reconcile_spec (R := R) sigs hgp xs
    have hys := reconcile_spec (R := R) sigs hgp ys
    generalize reconcile R sigs grant xs = p at hxs
    generalize reconcile R sigs grant ys = q at hys
    cases hxs with
    | unreconciled hx =>
      have hy : ∀ y ∈ ys, counts R sigs grant (getField grant "provider_id") y = false := by
        intro y hy
        by_contra hc
        obtain ⟨x, hxm, -, hcx, -⟩ := h.symm.counts hy (Bool.not_eq_false _ ▸ hc)
        rw [hx x hxm] at hcx
        cases hcx
      cases hys with
      | unreconciled _ => exact ⟨rfl, .inl ⟨rfl, rfl⟩⟩
      | one hm hc _ =>
        rw [hy _ hm] at hc
        cases hc
      | equivocation hne =>
        refine absurd (fun y hym z _ hcy _ => ?_) hne
        rw [hy y hym] at hcy
        cases hcy
    | @one x hx hc hone =>
      obtain ⟨z, hz, hsz, hcz, -⟩ := h.counts hx hc
      cases hys with
      | unreconciled hy =>
        rw [hy z hz] at hcz
        cases hcz
      | @one y hy hcy _ =>
        -- the two count under one id, and a record that is `y` is among `xs`
        obtain ⟨x', hx', hs', hcx', -⟩ := h.symm.counts hy hcy
        obtain ⟨i, hri, hi⟩ := rid_of_counts hc
        obtain ⟨j, hrj, hj⟩ := rid_of_counts hcx'
        have hid := hone x hx x' hx' hc hcx'
        rw [getField_of_lookup hi, getField_of_lookup hj, Json.str.injEq] at hid
        have hsame := hfree x hx x' hx' i hri (hid ▸ hrj)
        exact ⟨rfl, .inr ⟨x, y, rfl, rfl, hsame.trans (hs'.symm.preimage .receipt)⟩⟩
      | equivocation hne => exact absurd (h.oneId hone) hne
    | equivocation hne =>
      cases hys with
      | unreconciled hy =>
        refine absurd (fun x hx z _ hcx _ => ?_) hne
        obtain ⟨y, hym, -, hcy, -⟩ := h.counts hx hcx
        rw [hy y hym] at hcy
        cases hcy
      | one _ _ hone => exact absurd (h.symm.oneId hone) hne
      | equivocation _ => exact ⟨rfl, .inl ⟨rfl, rfl⟩⟩

end

/-! ## The steps on receipts -/

section

variable {sigs : Bool} {grant primary : Record} {rest rest' : List Record}

/-- A receipt that is signed, where that is asked, and fails the check against the grant. -/
def FailsCheck (R : Runtime) (sigs : Bool) (grant x : Record) : Prop :=
  (sigs && !(callerSigned R grant && providerSigned R x)) = false ∧
    (pairCheck R grant x).1.isSome = true

theorem FailsCheck.of_same {x y : Record} (hs : SameRecord x y) (h : FailsCheck R sigs grant x) :
    FailsCheck R sigs grant y := by
  unfold FailsCheck at h ⊢
  rw [← hs.providerSigned, ← Same.pairCheck (Same.refl (.obj grant)) hs]
  exact h

theorem mem_codes_refuseIf {c code : Code} {why : Option Reason} :
    c ∈ (refuseIf code why).codes ↔ c = code ∧ why.isSome = true := by
  cases why with
  | none => exact ⟨nofun, nofun⟩
  | some why =>
    show c ∈ [code] ↔ _
    rw [List.mem_singleton]
    exact ⟨fun h => ⟨h, rfl⟩, fun h => h.1⟩

theorem mem_codes_others {c : Code} {xs : List Record} :
    c ∈ (Report.mk (xs.filterMap fun x =>
      if sigs && !(callerSigned R grant && providerSigned R x) then none
      else (pairCheck R grant x).1.map fun why => (Code.executionInvalid, some why)) []).codes ↔
      c = .executionInvalid ∧ ∃ x ∈ xs, FailsCheck R sigs grant x := by
  unfold codes FailsCheck
  simp only [List.mem_map, List.mem_filterMap]
  constructor
  · rintro ⟨p, ⟨x, hx, hp⟩, rfl⟩
    split at hp
    next => cases hp
    next hsigned =>
      obtain ⟨why, hwhy, rfl⟩ := Option.map_eq_some_iff.mp hp
      exact ⟨rfl, x, hx, Bool.not_eq_true _ ▸ hsigned, by rw [hwhy]; rfl⟩
  · rintro ⟨rfl, x, hx, hsigned, hfails⟩
    obtain ⟨why, hwhy⟩ := Option.isSome_iff_exists.mp hfails
    refine ⟨(.executionInvalid, some why), ⟨x, hx, ?_⟩, rfl⟩
    rw [if_neg (by rw [hsigned]; exact Bool.false_ne_true), hwhy]
    rfl

/-- The receipts behind the first are refused under the code of the first, so they may be
asked together with it. -/
theorem invalid_iff (sigs : Bool) (grant primary : Record) (rest : List Record) (c : Code) :
    c ∈ (refuseIf .executionInvalid (pairCheck R grant primary).1).codes ∨
      (c = .executionInvalid ∧ ∃ x ∈ rest, FailsCheck R sigs grant x) ↔
    c = .executionInvalid ∧ ((pairCheck R grant primary).1.isSome = true ∨
      ∃ x ∈ primary :: rest, FailsCheck R sigs grant x) := by
  rw [mem_codes_refuseIf]
  constructor
  · rintro (⟨rfl, h⟩ | ⟨rfl, x, hx, hf⟩)
    · exact ⟨rfl, .inl h⟩
    · exact ⟨rfl, .inr ⟨x, List.mem_cons_of_mem _ hx, hf⟩⟩
  · rintro ⟨rfl, h | ⟨x, hx, hf⟩⟩
    · exact .inl ⟨rfl, h⟩
    · rcases List.mem_cons.mp hx with rfl | hx
      · exact .inl ⟨rfl, hf.2⟩
      · exact .inr ⟨rfl, x, hx, hf⟩

/-- Two codes asked together, the second behind others. -/
theorem or_right_congr_of_or {a b b' f s : Prop} (h : a ∨ b ↔ a ∨ b') :
    ((a ∨ f) ∨ s) ∨ b ↔ ((a ∨ f) ∨ s) ∨ b' := by
  tauto

/-- The execution step reports the same codes and reconciles the same receipt, given the
same first receipt and the same others. -/
theorem executionPair_members (h : SameMembers (primary :: rest) (primary :: rest'))
    (hfree : ∀ x ∈ primary :: rest, ∀ y ∈ primary :: rest, ∀ i, rid R x .receipt = some i →
      rid R y .receipt = some i → SameReceipt x y) :
    (∀ c, c ∈ (executionPair R sigs grant primary rest).1.codes ↔
      c ∈ (executionPair R sigs grant primary rest').1.codes) ∧
    (executionPair R sigs grant primary rest).1.findings =
      (executionPair R sigs grant primary rest').1.findings ∧
    SameReceipt? (executionPair R sigs grant primary rest).2
      (executionPair R sigs grant primary rest').2 := by
  obtain ⟨hreport, hreconciled⟩ := reconcile_members sigs grant h hfree
  have hfails := h.exists_iff (P := FailsCheck R sigs grant) FailsCheck.of_same
  refine ⟨fun c => ?_, ?_, hreconciled⟩
  · have hiff := invalid_iff (R := R) sigs grant primary rest c
    have hiff' := invalid_iff (R := R) sigs grant primary rest' c
    rw [hfails, ← hiff'] at hiff
    unfold executionPair
    dsimp only
    simp only [codes_append, List.mem_append, mem_codes_others, hreport]
    exact or_congr_left (or_right_congr_of_or hiff)
  · unfold executionPair
    dsimp only
    rw [findings_append, findings_append, findings_append, findings_append, hreport]
    rfl

theorem execution_members (sigs : Bool) {rset rset' : List Record} (h : SameMembers rset rset')
    (hhead : rset.head? = rset'.head?) (g : Option Record)
    (hfree : ∀ x ∈ rset, ∀ y ∈ rset, ∀ i, rid R x .receipt = some i →
      rid R y .receipt = some i → SameReceipt x y) :
    (∀ c, c ∈ (execution R sigs g rset).1.codes ↔ c ∈ (execution R sigs g rset').1.codes) ∧
    (execution R sigs g rset).1.findings = (execution R sigs g rset').1.findings ∧
    SameReceipt? (execution R sigs g rset).2 (execution R sigs g rset').2 := by
  cases rset with
  | nil =>
    cases rset' with
    | nil => exact ⟨fun _ => Iff.rfl, rfl, .inl (by cases g <;> exact ⟨rfl, rfl⟩)⟩
    | cons x' rest' => cases hhead
  | cons x rest =>
    cases rset' with
    | nil => cases hhead
    | cons x' rest' =>
      obtain rfl := Option.some.inj hhead
      cases g with
      | none => exact ⟨fun _ => Iff.rfl, rfl, .inl ⟨rfl, rfl⟩⟩
      | some g => exact executionPair_members h hfree

theorem preflight_sameReceipt {r r' : Option Record} (h : SameReceipt? r r')
    (g i : Option Record) : preflight R sigs g i r = preflight R sigs g i r' := by
  rcases h with ⟨rfl, rfl⟩ | ⟨x, y, rfl, rfl, hxy⟩
  · rfl
  · have haction := (hxy.getField (k := "executed_action") (by decide)).tryCanonical_eq
    unfold preflight
    simp only [haction]

theorem evidence_sameReceipt {r r' : Option Record} (h : SameReceipt? r r')
    (primary : Option Record) : evidence (r <|> primary) = evidence (r' <|> primary) := by
  rcases h with ⟨rfl, rfl⟩ | ⟨x, y, rfl, rfl, hxy⟩
  · rfl
  · exact evidence_of_outcome (hxy.getField (by decide))

theorem linkage_reordered {rawObs rawObs' : List Json} (hobs : rawObs.Perm rawObs')
    {r r' : Option Record} (h : SameReceipt? r r') :
    linkage R rawObs r = linkage R rawObs' r' := by
  rcases h with ⟨rfl, rfl⟩ | ⟨x, y, rfl, rfl, hxy⟩
  · rfl
  · have hlinks : ((dicts rawObs).filterMap linkOf).Perm ((dicts rawObs').filterMap linkOf) :=
      (hobs.filterMap dict?).filterMap linkOf
    have hrid : rid R x .receipt = rid R y .receipt := by
      unfold rid sha256c
      rw [hxy.tryCanonical_eq]
    have hany : ((dicts rawObs).filterMap linkOf).any (fun l => some l != rid R y .receipt) =
        ((dicts rawObs').filterMap linkOf).any fun l => some l != rid R y .receipt := by
      rw [Bool.eq_iff_iff, List.any_eq_true, List.any_eq_true]
      simp only [hlinks.mem_iff]
    unfold linkage
    dsimp only
    rw [hrid, hany, hobs.isEmpty_eq, hlinks.isEmpty_eq]

end

/-! ## Bundles in another order -/

/-- The field is the same, or a list of the same values in another order. -/
def PermField (a b : Option Json) : Prop :=
  a = b ∨ ∃ xs ys, a = some (.arr xs) ∧ b = some (.arr ys) ∧ xs.Perm ys

/-- The second bundle lists the observations in another order and, where the `receipt` is
an object, the `receipts` too; everything else is as in the first. -/
structure Reordered (b b' : Record) : Prop where
  observations : PermField (b.lookup (lit "observations")) (b'.lookup (lit "observations"))
  receipts : b.lookup (lit "receipts") = b'.lookup (lit "receipts") ∨
    (∃ x, getField b "receipt" = .obj x) ∧
      PermField (b.lookup (lit "receipts")) (b'.lookup (lit "receipts"))
  other : ∀ k, k ≠ lit "observations" → k ≠ lit "receipts" → b.lookup k = b'.lookup k

theorem PermField.listAt {b b' : Record} {k : String}
    (h : PermField (b.lookup (lit k)) (b'.lookup (lit k))) :
    (Nenrin.listAt b k).Perm (Nenrin.listAt b' k) := by
  unfold Nenrin.listAt getField
  rcases h with h | ⟨xs, ys, hx, hy, hperm⟩
  · rw [h]
  · rw [hx, hy]
    exact hperm

theorem head?_dropSeen (xs : List Record) : (dropSeen [] xs).head? = xs.head? := by
  cases xs with
  | nil => rfl
  | cons x xs =>
    unfold dropSeen
    split
    next => rfl
    next => rfl

namespace Reordered

variable {b b' : Record}

theorem getField (h : Reordered b b') {k : String} (ho : lit k ≠ lit "observations")
    (hr : lit k ≠ lit "receipts") : Nenrin.getField b k = Nenrin.getField b' k := by
  unfold Nenrin.getField
  rw [h.other _ ho hr]

theorem slot (h : Reordered b b') {k : String} (ho : lit k ≠ lit "observations")
    (hr : lit k ≠ lit "receipts") (code : Code) : Nenrin.slot b k code = Nenrin.slot b' k code := by
  unfold Nenrin.slot
  rw [h.getField ho hr]

theorem observationsOf (h : Reordered b b') :
    (Nenrin.observationsOf b).Perm (Nenrin.observationsOf b') :=
  h.observations.listAt.filterMap dict?

theorem receiptsAt (h : Reordered b b') :
    (Nenrin.listAt b "receipts").Perm (Nenrin.listAt b' "receipts") := by
  rcases h.receipts with heq | ⟨-, hperm⟩
  · exact PermField.listAt (.inl heq)
  · exact hperm.listAt

theorem cands (h : Reordered b b') : (Nenrin.cands b).Perm (Nenrin.cands b') := by
  unfold Nenrin.cands
  rw [h.slot (by decide) (by decide)]
  exact List.Perm.append_left _ (h.receiptsAt.filterMap dict?)

/-- The first receipt stays first. -/
theorem head?_cands (h : Reordered b b') : (Nenrin.cands b).head? = (Nenrin.cands b').head? := by
  have hslot := h.slot (k := "receipt") (by decide) (by decide) .executionInvalid
  unfold Nenrin.cands
  rw [← hslot]
  rcases h.receipts with heq | ⟨⟨x, hx⟩, -⟩
  · unfold Nenrin.listAt Nenrin.getField
    rw [heq]
  · have hobj : (Nenrin.slot b "receipt" .executionInvalid).1 = some x := by
      unfold Nenrin.slot
      rw [hx]
    rw [hobj]
    rfl

theorem receiptSet (h : Reordered b b') :
    SameMembers (Nenrin.receiptSet b) (Nenrin.receiptSet b') where
  left x hx := by
    obtain ⟨y, hy, hs⟩ := exists_same_of_mem_cands (h.cands.mem_iff.mp (mem_of_mem_dropSeen hx))
    exact ⟨y, hy, hs.symm⟩
  right y hy := exists_same_of_mem_cands (h.cands.mem_iff.mpr (mem_of_mem_dropSeen hy))

theorem head?_receiptSet (h : Reordered b b') :
    (Nenrin.receiptSet b).head? = (Nenrin.receiptSet b').head? := by
  unfold Nenrin.receiptSet
  rw [head?_dropSeen, head?_dropSeen, h.head?_cands]

theorem delegated (h : Reordered b b') (sigs : Bool) :
    (∀ c, c ∈ (Nenrin.delegated R sigs (listAt b "observations")).codes ↔
      c ∈ (Nenrin.delegated R sigs (listAt b' "observations")).codes) ∧
    (Nenrin.delegated R sigs (listAt b "observations")).findings =
      (Nenrin.delegated R sigs (listAt b' "observations")).findings := by
  have hraw := h.observations.listAt
  have hobs : (dicts (listAt b "observations")).Perm (dicts (listAt b' "observations")) :=
    hraw.filterMap dict?
  have hfaults := hobs.filterMap (observationFault R sigs)
  unfold Nenrin.delegated
  rw [hraw.isEmpty_eq, hobs.length_eq, hraw.length_eq]
  split
  next => exact ⟨fun _ => Iff.rfl, rfl⟩
  next =>
    refine ⟨fun c => ?_, rfl⟩
    rw [codes_append, codes_append, List.mem_append, List.mem_append]
    refine or_congr_right ?_
    unfold codes
    exact ((hfaults.map _).map Prod.fst).mem_iff

theorem malformedExecution (h : Reordered b b') :
    (∀ c, c ∈ (Nenrin.malformedExecution b).codes ↔ c ∈ (Nenrin.malformedExecution b').codes) ∧
    (Nenrin.malformedExecution b).findings = (Nenrin.malformedExecution b').findings := by
  have hmembers := h.receiptsAt.filterMap fun x => if (dict? x).isSome then none
    else some (Code.executionInvalid, some Reason.recordNotObject)
  unfold Nenrin.malformedExecution
  rw [h.slot (k := "grant") (by decide) (by decide), h.slot (k := "receipt") (by decide) (by decide)]
  refine ⟨fun c => ?_, rfl⟩
  simp only [codes_append, List.mem_append]
  refine or_congr_right ?_
  unfold codes
  exact (hmembers.map Prod.fst).mem_iff

/-- Every step but R3 and R4 reports the same of the two bundles. -/
theorem otherSteps (h : Reordered b b') (hfree : CollisionFree R b) :
    (∀ c, c ∈ (Nenrin.otherSteps R b).codes ↔ c ∈ (Nenrin.otherSteps R b').codes) ∧
    ∀ f, f ∈ (Nenrin.otherSteps R b).findings ↔ f ∈ (Nenrin.otherSteps R b').findings := by
  have hsigs : requireSignatures b = requireSignatures b' := by
    unfold requireSignatures
    rw [h.getField (by decide) (by decide)]
  have hgrant : grantOf b = grantOf b' := by
    unfold grantOf
    rw [h.slot (by decide) (by decide)]
  have hintent := h.slot (k := "intent") (by decide) (by decide) .preflightInvalid
  have htid := h.getField (k := "task_id") (by decide) (by decide)
  obtain ⟨hexec, hfound, hreconciled⟩ := execution_members (R := R)
    (requireSignatures b') h.receiptSet h.head?_receiptSet (grantOf b')
    fun x hx y hy i => hfree.sameReceipt (mem_of_mem_dropSeen hx) (mem_of_mem_dropSeen hy)
  obtain ⟨hdelegated, hdfound⟩ := h.delegated (R := R) (requireSignatures b')
  obtain ⟨hmalformed, hmfound⟩ := h.malformedExecution
  have hidentity := identity_members ((SameMembers.append (SameMembers.of_perm h.observationsOf)
    (SameMembers.of_perm (List.Perm.refl (((grantOf b').toList ++
      (Nenrin.slot b' "intent" .preflightInvalid).1.toList).filter (!·.isEmpty))))).append
    h.receiptSet) (Nenrin.getField b' "task_id")
  unfold Nenrin.observationsOf at hidentity
  unfold Nenrin.otherSteps
  dsimp only
  rw [hsigs, hgrant, hintent, htid, hidentity, preflight_sameReceipt hreconciled,
    evidence_sameReceipt hreconciled, h.head?_receiptSet,
    linkage_reordered h.observations.listAt hreconciled]
  refine ⟨fun c => ?_, fun f => ?_⟩
  · simp only [codes_append, List.mem_append, hdelegated, hmalformed, hexec]
  · simp only [findings_append, List.mem_append, hdfound, hmfound, hfound]

end Reordered

/-- The bundle with its observations in another order. -/
theorem reordered_setKey {b : Record} {xs ys : List Json}
    (hxs : b.lookup (lit "observations") = some (.arr xs)) (h : xs.Perm ys) :
    Reordered b (setKey (lit "observations") (.arr ys) b) where
  observations := .inr ⟨xs, ys, hxs, by rw [lookup_setKey, if_pos rfl], h⟩
  receipts := .inl (by rw [lookup_setKey, if_neg (by decide)])
  other k ho _ := by rw [lookup_setKey, if_neg ho]

theorem dicts_split {xs : List Json} {o : Record} (h : o ∈ dicts xs) :
    ∃ ys, xs.Perm (.obj o :: ys) := by
  obtain ⟨pre, post, rfl⟩ := List.append_of_mem (mem_dicts.mp h)
  exact ⟨pre ++ post, List.perm_middle⟩

/-- An unhashable `prev_evidence_id` listed first is reached. -/
theorem reaches_of_head {o : Record} {obs : List Record} (hgap : ¬ Gap (o :: obs))
    (ho : Unhashable o) : ReachesUnhashable R (o :: obs) :=
  ⟨hgap, [], o, obs, rfl, nofun, ho⟩

/-- **The order of observations and receipts** does not show in the signature, whatever
the two orders, exactly when there is a gap in the `seq`s or no hop behind the first has
a list or a dict for its `prev_evidence_id`. -/
theorem signature_reordered_iff {a : Json} {rep : Report} (hrun : verify R a = .ok rep)
    (hfree : CollisionFree R (bundleOf a)) :
    (∀ b', Reordered (bundleOf a) b' → (verify R (.obj b')).map signature = .ok rep.signature) ↔
      Gap (observationsOf (bundleOf a)) ∨ ∀ o ∈ observationsOf (bundleOf a), ¬ Unhashable o := by
  have hbundle : verify R a = verify R (.obj (bundleOf a)) := rfl
  rw [hbundle] at hrun
  generalize bundleOf a = b at hrun hfree
  constructor
  · intro h
    by_contra hne
    rw [not_or] at hne
    obtain ⟨hgap, hun⟩ := hne
    push Not at hun
    obtain ⟨o, ho, hou⟩ := hun
    -- the observations are a list, and the order that puts `o` first raises
    have hlist : ∃ xs, b.lookup (lit "observations") = some (.arr xs) := by
      unfold observationsOf listAt getField at ho
      cases hlook : b.lookup (lit "observations") with
      | none =>
        rw [hlook] at ho
        cases ho
      | some v =>
        rw [hlook] at ho
        cases v with
        | arr xs => exact ⟨xs, rfl⟩
        | _ => cases ho
    obtain ⟨xs, hxs⟩ := hlist
    have hat : listAt b "observations" = xs := by
      unfold listAt
      rw [getField_of_lookup hxs]
    unfold observationsOf at ho
    rw [hat] at ho
    obtain ⟨ys, hperm⟩ := dicts_split ho
    have hre := reordered_setKey hxs hperm
    have hobs : observationsOf (setKey (lit "observations") (.arr (.obj o :: ys)) b) =
        o :: dicts ys := by
      have hlookup : (setKey (lit "observations") (.arr (.obj o :: ys)) b).lookup
          (lit "observations") = some (.arr (.obj o :: ys)) := by rw [lookup_setKey, if_pos rfl]
      unfold observationsOf listAt
      rw [getField_of_lookup hlookup]
      rfl
    have hgap' := hgap
    rw [gap_perm hre.observationsOf, hobs] at hgap'
    obtain ⟨rep', hrun', -⟩ := Loop.map_ok.mp (h _ hre)
    refine verify_ok.mp ⟨rep', hrun'⟩ ?_
    rw [hobs]
    exact reaches_of_head hgap' hou
  · intro hhash b' hre
    obtain ⟨p, q, hp, hq, hpq⟩ := chainFault_perm (R := R) hre.observationsOf hhash
    obtain ⟨hcodes, hfound⟩ := hre.otherSteps hfree
    have hsig := verify_signature (R := R) b
    rw [hrun, hp] at hsig
    rw [verify_signature, hq]
    refine congrArg Except.ok (Eq.trans ?_ (Except.ok.inj hsig).symm)
    have hdis : witnessDisagreement R (observationsOf b) =
        witnessDisagreement R (observationsOf b') := by
      rw [Bool.eq_iff_iff, witnessDisagreement_iff, witnessDisagreement_iff,
        disagree_perm hre.observationsOf]
    refine signature_ext (fun c => ?_) fun f => ?_
    · show c ∈ (_ ++ _ : Report).codes ↔ c ∈ (_ ++ _ : Report).codes
      rw [codes_append, codes_append, List.mem_append, List.mem_append, hcodes]
      unfold codes
      rw [chainReport_refusals, chainReport_refusals]
      simp only [hpq]
    · rw [findings_append, findings_append, List.mem_append, List.mem_append, hfound,
        chainReport_findings, chainReport_findings, hdis]

theorem not_unhashable {o : Record} {v : Json} (hv : o.lookup (lit "prev_evidence_id") = some v)
    (hhash : Json.hashable v = .ok ()) : ¬ Unhashable o := by
  rintro ⟨-, w, hw, hbad⟩
  rw [hv] at hw
  exact hbad (Option.some.inj hw ▸ hhash)

/-- The sample bundle in any order. -/
theorem sampleBundle_reordered : ∃ rep, verify .sample (.obj sampleBundle) = .ok rep ∧
    ∀ b', Reordered sampleBundle b' → (verify .sample (.obj b')).map signature =
      .ok rep.signature := by
  obtain ⟨rep, hrun, -⟩ := sampleBundle_accepted
  have hfree : CollisionFree .sample sampleBundle := by
    intro x hx y hy m m' hm hm' _
    -- there is one receipt
    obtain rfl := List.mem_singleton.mp hx
    obtain rfl := List.mem_singleton.mp hy
    exact Option.some.inj (hm.symm.trans hm')
  refine ⟨rep, hrun, (signature_reordered_iff hrun hfree).mpr (.inr fun o ho => ?_)⟩
  rcases List.mem_cons.mp ho with rfl | ho
  · exact not_unhashable rfl rfl
  · obtain rfl := List.mem_singleton.mp ho
    exact not_unhashable rfl rfl

/-- A root, and two more observations. -/
def listedHops (second third : Json) : Record :=
  [(lit "task_id", text "t"), (lit "observations", .arr
    [object [("prev_evidence_id", .null), ("hop", object [("seq", .int 0)])], second, third])]

def unlinkedHop : Json := object [("prev_evidence_id", text "x"), ("hop", object [("seq", .int 1)])]

def listedHop : Json := object [("prev_evidence_id", .arr []), ("hop", object [("seq", .int 1)])]

/-- The verifier answers in the one order and raises in the other. -/
theorem listedHops_order : Reordered (listedHops unlinkedHop listedHop)
      (listedHops listedHop unlinkedHop) ∧
    (∃ rep, verify .sample (.obj (listedHops unlinkedHop listedHop)) = .ok rep) ∧
    verify .sample (.obj (listedHops listedHop unlinkedHop)) = .error .typeError := by
  refine ⟨?_, ?_, by decide +kernel⟩
  · exact reordered_setKey rfl ((List.Perm.swap _ _ _).cons _)
  · obtain ⟨rep, hrun, -⟩ := Loop.map_ok.mp (show (verify .sample (.obj (listedHops unlinkedHop
      listedHop))).map codes = .ok [.taskIdMismatch, .delegationObservationInvalid,
        .delegationObservationInvalid, .delegationObservationInvalid, .delegationChainBroken] by
      decide +kernel)
    exact ⟨rep, hrun⟩

end Preaction.Nenrin
