import Mathlib.Data.List.Dedup
import Preaction.EvidenceSet.Resolve

/-!
# The order of the sources

`validate` and `resolve` look at the sources one by one, in pairs, by count, by least
time and by a root over the sorted pinned ones; none of these depends on the order in
which the set lists them. The duplicate test runs over ordered pairs only, but it is
symmetric (`sameRetrieval_comm`); the keys that the root is computed from are sorted, and
a key determines its leaf.
-/

namespace Preaction.EvidenceSet

open Preaction.Py Preaction.Loop Json

variable {R : Runtime}

/-- The two sets list the same sources, each in its order, and agree in every other
member. -/
structure Reordered (es es' : Json) : Prop where
  dicts : ∃ kvs kvs' sources sources', es = .obj kvs ∧ es' = .obj kvs' ∧
    kvs.lookup (lit "sources") = some (.arr sources) ∧
    kvs'.lookup (lit "sources") = some (.arr sources') ∧ sources.Perm sources' ∧
    ∀ k, k ≠ lit "sources" → kvs.lookup k = kvs'.lookup k

/-- One verdict, whatever the order of the conditions. -/
structure SameVerdict (v v' : Verdict) : Prop where
  conditions : SameElems v.conditions v'.conditions
  derived : v.derived = v'.derived
  unsupported : v.unsupported = v'.unsupported

/-- One report but for the order of the items. -/
structure SameReport (report report' : Report) : Prop where
  members : report' = { report with items := report'.items }
  listed : report.items.isSome = report'.items.isSome
  items : (report.items.getD []).Perm (report'.items.getD [])

/-! ## The duplicate test -/

theorem pyEq_comm (a b : Json) : a.pyEq b = b.pyEq a := by
  have hnan {x : Json} (h : pySame (.float .nan) x = true) : x = .float .nan := by
    have hnorm : .float .nan = normWith pyLeaf x := pySame_iff.mp h
    cases x with
    | float x =>
      have hnorm : .float .nan = pyLeaf (.float x) := hnorm
      rw [pyLeaf] at hnorm
      cases hx : x.toInt? with
      | some n =>
        rw [hx] at hnorm
        cases hnorm
      | none =>
        rw [hx] at hnorm
        exact hnorm.symm
    | _ => cases hnorm
  have himp {a b : Json} (h : a.pyEq b = true) : b.pyEq a = true := by
    rw [pyEq, Bool.and_eq_true, bne_iff_ne] at h ⊢
    exact ⟨pySame_symm h.1, fun hb => h.2 (hnan (hb ▸ pySame_symm h.1))⟩
  exact Bool.eq_iff_iff.mpr ⟨himp, himp⟩

theorem sameRetrieval_comm (a b : Json) : sameRetrieval a b = sameRetrieval b a := by
  unfold sameRetrieval
  simp only [pyEq_comm (a.find _) (b.find _), Bool.and_comm (isPinned a) (isPinned b)]

theorem anyPair_perm {xs ys : List Json} (h : xs.Perm ys) :
    anyPair sameRetrieval xs = anyPair sameRetrieval ys := by
  have hsymm : ∀ {a b : Json}, sameRetrieval a b = false → sameRetrieval b a = false :=
    fun hab => (sameRetrieval_comm _ _).trans hab
  rw [Bool.eq_iff_iff, ← not_iff_not, Bool.not_eq_true, Bool.not_eq_true, anyPair_eq_false,
    anyPair_eq_false]
  exact h.pairwise_iff hsymm

/-! ## The least time and the root -/

theorem least_perm {xs ys : List Bytes} (h : xs.Perm ys) : least xs = least ys := by
  by_cases hne : xs = []
  · obtain rfl := hne
    rw [h.nil_eq]
  · have hne' : ys ≠ [] := fun heq => hne (by rw [heq] at h; exact h.eq_nil)
    obtain ⟨hmem, hle⟩ := least_spec hne
    obtain ⟨hmem', hle'⟩ := least_spec hne'
    exact List.le_antisymm (hle _ (h.mem_iff.mpr hmem')) (hle' _ (h.mem_iff.mp hmem))

theorem evidenceRoot_perm {xs ys : List Json} {want : Option Str} (h : xs.Perm ys)
    (hx : evidenceRoot R xs = .ok want) : evidenceRoot R ys = .ok want := by
  obtain ⟨keys, hkeys, hwant⟩ := bind_ok.mp hx
  obtain ⟨ks, hks, hsort⟩ := bind_ok.mp hkeys
  obtain rfl := Except.ok.inj hsort
  obtain ⟨ks', hks', hperm⟩ := mapM_perm (h.filter isPinned) hks
  have hsorted : ks.insertionSort (· ≤ ·) = ks'.insertionSort (· ≤ ·) :=
    List.Perm.eq_of_pairwise' (List.pairwise_insertionSort (· ≤ ·) ks)
      (List.pairwise_insertionSort (· ≤ ·) ks')
      ((List.perm_insertionSort _ ks).trans (hperm.trans (List.perm_insertionSort _ ks').symm))
  refine bind_ok.mpr ⟨_, bind_ok.mpr ⟨ks', hks', rfl⟩, ?_⟩
  rw [← hsorted]
  exact hwant

/-! ## The parts of `validate` -/

theorem countPinned_perm {xs ys : List Json} (h : xs.Perm ys) :
    countPinned xs ((checkedOf R xs).map (·.2)) = countPinned ys ((checkedOf R ys).map (·.2)) := by
  have hbads : ((checkedOf R xs).map (·.2)).Perm ((checkedOf R ys).map (·.2)) :=
    (h.map _).map _
  unfold countPinned
  rw [hbads.all_eq, h.countP_eq]

theorem setConds_perm {es es' : Json} {xs ys : List Json} {tsOk : Bool} {sc : List Condition}
    (h : xs.Perm ys) (hmem : member es "retrieved_at" = member es' "retrieved_at")
    (hx : setConds es tsOk (checkedOf R xs) = .ok sc) :
    setConds es' tsOk (checkedOf R ys) = .ok sc := by
  unfold setConds at hx ⊢
  split at hx
  · next hts => rw [if_pos hts]; exact hx
  · next hts =>
    rw [if_neg hts]
    obtain ⟨times, htimes, hx⟩ := bind_ok.mp hx
    have hchecked : (checkedOf R xs).Perm (checkedOf R ys) := h.map _
    obtain ⟨times', htimes', hperm⟩ := mapM_perm hchecked htimes
    have hpairs := anyPair_perm ((hchecked.filter fun c => !c.2.any dupIn.contains).map (·.1))
    rw [htimes', ← hmem]
    dsimp only at hx
    rw [least_perm hperm, hpairs] at hx
    exact hx

theorem countConds_congr {es es' : Json}
    (h : ∀ k : String, k ≠ "sources" → member es k = member es' k ∧ es.find (lit k) = es'.find (lit k))
    (n : Nat) (p : Option Nat) : countConds es n p = countConds es' n p := by
  have hsc := (h "source_count" (by decide)).1
  have hpc := (h "pinned_count" (by decide)).1
  have hfp := (h "fully_pinned" (by decide)).1
  have hroot := (h "evidence_root" (by decide)).2
  unfold countConds fullyPinnedConds
  rw [hsc, hpc, hfp, hroot]

theorem conditionsOf_perm {es es' : Json} {xs ys : List Json} (h : xs.Perm ys)
    (hmem : ∀ k : String, k ≠ "sources" →
      member es k = member es' k ∧ es.find (lit k) = es'.find (lit k)) (sc : List Condition) :
    (conditionsOf R es xs sc).Perm (conditionsOf R es' ys sc) := by
  unfold conditionsOf
  rw [countPinned_perm h, h.length_eq, countConds_congr hmem]
  exact ((h.flatMap_right _).append_right _).append_right _

theorem checkRoot_perm {es es' : Json} {xs ys : List Json} {p : Option Nat} {v : Verdict}
    (h : xs.Perm ys) (hroot : es.find (lit "evidence_root") = es'.find (lit "evidence_root"))
    (hx : checkRoot R es xs p = .ok v) : checkRoot R es' ys p = .ok v := by
  obtain ⟨want, hwant, hx⟩ := bind_ok.mp hx
  refine bind_ok.mpr ⟨want, evidenceRoot_perm h hwant, ?_⟩
  dsimp only at hx ⊢
  rw [← hroot, ← h.length_eq]
  exact hx

/-- The verdict on a list of sources. -/
theorem validateSources_perm {es es' : Json} {xs ys : List Json} {v : Verdict} (h : xs.Perm ys)
    (hmem : ∀ k : String, k ≠ "sources" →
      member es k = member es' k ∧ es.find (lit k) = es'.find (lit k))
    (hx : validateSources R es xs = .ok v) :
    ∃ v', validateSources R es' ys = .ok v' ∧ SameVerdict v v' := by
  rw [validateSources_eq] at hx
  obtain ⟨sc, hsc, hx⟩ := bind_ok.mp hx
  rw [h.all_eq] at hsc
  have hsc' := setConds_perm h (hmem "retrieved_at" (by decide)).1 hsc
  have hconds := conditionsOf_perm (R := R) h hmem sc
  rw [validateSources_eq, hsc', ok_bind]
  split at hx
  · next hne =>
    obtain rfl := Except.ok.inj hx
    rw [if_pos (by rwa [← hconds.isEmpty_eq])]
    exact ⟨_, rfl, fun _ => hconds.mem_iff, rfl, rfl⟩
  · next hempty =>
    rw [if_neg (by rwa [← hconds.isEmpty_eq]), ← countPinned_perm h]
    exact ⟨v, checkRoot_perm h (hmem "evidence_root" (by decide)).2 hx, fun _ => Iff.rfl, rfl, rfl⟩

/-! ## Whole sets -/

theorem Reordered.members {es es' : Json} (h : Reordered es es') (k : String) (hk : k ≠ "sources") :
    member es k = member es' k ∧ es.find (lit k) = es'.find (lit k) := by
  obtain ⟨kvs, kvs', -, -, rfl, rfl, -, -, -, hlookup⟩ := h.dicts
  have heq := hlookup (lit k) (lit_injective.ne hk)
  rw [member, member, find, find, heq]
  exact ⟨rfl, rfl⟩

/-- `validate` returns one verdict for both orders: the same set of conditions, the same
derived values. -/
theorem validate_reordered {es es' : Json} {v : Verdict} (h : Reordered es es')
    (hv : validate R es = .ok v) : ∃ v', validate R es' = .ok v' ∧ SameVerdict v v' := by
  have hmem := h.members
  obtain ⟨kvs, kvs', sources, sources', rfl, rfl, hsrc, hsrc', hperm, hlookup⟩ := h.dicts
  have hversion := hlookup (lit "evidence_set_version") (by decide)
  unfold validate at hv ⊢
  dsimp only at hv ⊢
  rw [← hversion, hsrc']
  rw [hsrc] at hv
  split at hv
  next u _ =>
    split at hv
    · next hne => exact ⟨v, by rw [if_pos hne]; exact hv, fun _ => Iff.rfl, rfl, rfl⟩
    · next heq =>
      rw [if_neg heq]
      dsimp only [Option.getD_some] at hv ⊢
      cases sources with
      | nil =>
        obtain rfl := hperm.nil_eq
        exact ⟨v, hv, fun _ => Iff.rfl, rfl, rfl⟩
      | cons e es =>
        cases sources' with
        | nil => exact absurd hperm.eq_nil (List.cons_ne_nil _ _)
        | cons e' es' => exact validateSources_perm hperm hmem hv
  next => exact ⟨v, hv, fun _ => Iff.rfl, rfl, rfl⟩

theorem sortedNames_congr {cs cs' : List Condition} (h : SameElems cs cs') :
    sortedNames cs = sortedNames cs' := by
  have hdedup : cs.dedup.Perm cs'.dedup := by
    refine (List.perm_ext_iff_of_nodup (List.nodup_dedup _) (List.nodup_dedup _)).mpr fun c => ?_
    rw [List.mem_dedup, List.mem_dedup, h c]
  refine List.Perm.eq_of_pairwise' (r := fun a b : Str => a ≤ b)
    (List.pairwise_insertionSort _ _) (List.pairwise_insertionSort _ _) ?_
  exact (List.perm_insertionSort _ _).trans
    ((hdedup.map _).trans (List.perm_insertionSort _ _).symm)

theorem reportOn_perm {d : Derived} {items items' : List Item} (h : items.Perm items') :
    (reportOn d items').1 = (reportOn d items).1 ∧
      SameReport (reportOn d items).2 (reportOn d items').2 := by
  unfold reportOn
  rw [h.all_eq]
  exact ⟨rfl, rfl, rfl, h⟩

/-- `resolve` returns one token for both orders, and the same items with their reasons. -/
theorem resolve_reordered {es es' : Json} (h : Reordered es es') {held : Held}
    {payload payload' : List (Str × Json)} (hp : payload.lookup (lit "evidence_set") = some es)
    (hp' : payload'.lookup (lit "evidence_set") = some es') {token : Token} {report : Report}
    (hr : resolve R payload held = .ok (token, report)) :
    ∃ report', resolve R payload' held = .ok (token, report') ∧ SameReport report report' := by
  unfold resolve at hr ⊢
  rw [hp] at hr
  rw [hp']
  dsimp only at hr ⊢
  obtain ⟨v, hv, hr⟩ := bind_ok.mp hr
  obtain ⟨v', hv', hconds, hderived, hunsupported⟩ := validate_reordered h hv
  have hempty : v.conditions.isEmpty = v'.conditions.isEmpty := by
    rw [Bool.eq_iff_iff, List.isEmpty_iff, List.isEmpty_iff]
    exact hconds.eq_nil_iff
  rw [hv', ok_bind, ← hempty, ← hunsupported, ← hderived, ← sortedNames_congr hconds]
  split at hr
  · next hne =>
    obtain ⟨rfl, rfl⟩ := Prod.mk.inj (Except.ok.inj hr)
    exact ⟨_, by rw [if_pos hne]; rfl, rfl, rfl, .refl _⟩
  · next hclean =>
    rw [if_neg hclean]
    split at hr
    · next hun =>
      obtain ⟨rfl, rfl⟩ := Prod.mk.inj (Except.ok.inj hr)
      exact ⟨_, by rw [if_pos hun]; rfl, rfl, rfl, .refl _⟩
    · next hsupported =>
      rw [if_neg hsupported]
      obtain ⟨kvs, kvs', sources, sources', rfl, rfl, hsrc, hsrc', hperm, -⟩ := h.dicts
      rw [item, hsrc] at hr
      rw [item, hsrc']
      dsimp only [ok_bind, iter] at hr ⊢
      obtain ⟨items, hitems, hr⟩ := bind_ok.mp hr
      obtain ⟨items', hitems', hitemsPerm⟩ := mapM_perm hperm hitems
      rw [hitems', ok_bind]
      split at hr
      next d hd =>
        obtain ⟨htoken, hsame⟩ := reportOn_perm (d := d) hitemsPerm
        have hpair : reportOn d items = (token, report) := Except.ok.inj hr
        rw [hpair] at htoken hsame
        have hpair' : reportOn d items' = (token, (reportOn d items').2) := Prod.ext htoken rfl
        exact ⟨_, congrArg Except.ok hpair', hsame⟩
      next => cases hr

/-- Every order of the sources is judged alike: the same set of conditions, the same
derived values, and the same token with the same items. -/
theorem reordered_agree {es es' : Json} (h : Reordered es es') :
    (∀ v, validate R es = .ok v → ∃ v', validate R es' = .ok v' ∧ SameVerdict v v') ∧
    ∀ held payload payload' token report, payload.lookup (lit "evidence_set") = some es →
      payload'.lookup (lit "evidence_set") = some es' →
      resolve R payload held = .ok (token, report) →
      ∃ report', resolve R payload' held = .ok (token, report') ∧ SameReport report report' :=
  ⟨fun _ => validate_reordered h, fun _ _ _ _ _ hp hp' => resolve_reordered h hp hp'⟩

/-- A set with the root of two of the sample entries. -/
def rootedSet (sources : List Json) : Json := object
  [("evidence_set_version", .str version),
    ("evidence_root", sampleSet [sampleA, sampleB] |>.find (lit "evidence_root")),
    ("sources", .arr sources)]

theorem rootedSet_reordered : ∃ v v', validate .sample (rootedSet [sampleA, sampleB]) = .ok v ∧
    validate .sample (rootedSet [sampleB, sampleA]) = .ok v' ∧ v.conditions = [] ∧
    SameVerdict v v' := by
  have horder : Reordered (rootedSet [sampleA, sampleB]) (rootedSet [sampleB, sampleA]) := by
    refine ⟨_, _, [sampleA, sampleB], [sampleB, sampleA], rfl, rfl, rfl, rfl, .swap _ _ _, ?_⟩
    intro k hk
    simp [lookup_cons_if, hk]
  obtain ⟨v, hv, hclean⟩ := map_ok.mp (show (validate .sample (rootedSet [sampleA, sampleB])).map
    (·.conditions) = .ok [] by decide +kernel)
  obtain ⟨v', hv', hsame⟩ := (reordered_agree horder).1 v hv
  exact ⟨v, v', hv, hv', hclean, hsame⟩

end Preaction.EvidenceSet
