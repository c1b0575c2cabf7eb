import Preaction.EvidenceSet.Times

/-!
# When `validate` reports nothing

`validate` collects its conditions in three parts: of each entry, of the declared
counts, and of the set as a whole. It reports none exactly when the set is
`Consistent`, which says what the declared members must be. The whole-set rules run
only over times that are well formed, so the one member that can raise there is the
set-level `retrieved_at` (`setConds_ok`); the root is computed only of a consistent set,
where the one text without a check of its characters is the URL (`evidenceRoot_ok`).
-/

namespace Preaction.EvidenceSet

open Preaction.Py Preaction.Loop Json

variable (R : Runtime)

/-- What an entry without conditions is. -/
structure CleanEntry (e : Json) : Prop where
  time : validTs R (e.find (lit "retrieved_at")) = true
  pinned : e.find (lit "pinned") = .bool true ∨ e.find (lit "pinned") = .bool false
  url : ∃ u, e.find (lit "url") = .str u
  snippet : isPinned e = true → isHex64 (e.find (lit "snippet_sha256")) = true
  kind : isPinned e = true → pyIn (e.find (lit "content_kind")) contentKinds = true

/-- The time of an entry, encoded. -/
def timeOf (e : Json) : Bytes :=
  match e.find (lit "retrieved_at") with
  | .str s => utf8Bytes s
  | _ => []

/-- What a set is of which `validate` reports nothing before it computes the root. -/
structure Consistent (es : Json) (sources : List Json) : Prop where
  entries : ∀ e ∈ sources, (checkEntry R e).1 = []
  sourceCount : ∀ v ∈ member es "source_count", v = .int sources.length
  pinnedCount : ∀ v ∈ member es "pinned_count", v = .int (sources.countP isPinned)
  root : es.find (lit "evidence_root") = .null ↔ sources.countP isPinned = 0
  fullyPinned : ∀ v ∈ member es "fully_pinned",
    v = .bool (sources.countP isPinned == sources.length && 0 < sources.length)
  time : ∀ v ∈ member es "retrieved_at", ∃ s, v = .str s ∧ s.any isSurrogate = false ∧
    utf8Bytes s = least (sources.map timeOf)
  distinct : sources.Pairwise fun a b => sameRetrieval a b = false

variable {R}

/-! ## The entries -/

/-- An entry without conditions is clean, and no member of it failed its check. -/
theorem cleanEntry {e : Json} (h : (checkEntry R e).1 = []) :
    CleanEntry R e ∧ (checkEntry R e).2 = [] := by
  unfold checkEntry at h ⊢
  split at h
  next kvs =>
    dsimp only at h ⊢
    split at h
    · next hpinned =>
      simp only [List.append_eq_nil_iff, report_nil] at h
      rw [h.1.1.1.1.1.2] at hpinned
      cases hpinned
    · next hok =>
      rw [if_neg hok]
      split at h
      · next htrue =>
        simp only [List.append_eq_nil_iff, report_nil] at h
        obtain ⟨⟨⟨⟨⟨⟨⟨⟨htime, hpinned⟩, hurl⟩, -⟩, hs⟩, hrs⟩, -⟩, hsome⟩, hkind⟩ := h
        refine ⟨⟨htime, Or.inl (eq_of_beq htrue), exists_of_isStr hurl, fun _ => ?_, fun _ => hkind⟩, ?_⟩
        · simpa [bne_iff_ne.mp hsome] using hs
        · rw [if_pos htrue]
          simp only [htime, hpinned, hurl, hs, hrs, hkind, if_true, List.append_nil]
      · next hfalse =>
        simp only [List.append_eq_nil_iff, report_nil] at h
        obtain ⟨⟨⟨⟨⟨⟨⟨⟨⟨htime, hpinned⟩, hurl⟩, -⟩, hs⟩, hrs⟩, -⟩, hpresent⟩, hkind⟩, -⟩ := h
        have hunpinned : find (.obj kvs) (lit "pinned") = .bool false :=
          eq_of_beq ((Bool.or_eq_true _ _).mp hpinned |>.resolve_left hfalse)
        refine ⟨⟨htime, Or.inr hunpinned, exists_of_isStr hurl, fun hp => (hfalse hp).elim,
          fun hp => (hfalse hp).elim⟩, ?_⟩
        rw [if_neg hfalse]
        split at hpresent
        · cases hpresent
        · next hin =>
          simp only [htime, hpinned, hurl, hs, hrs, hin, Bool.false_eq_true, if_true, if_false,
            List.append_nil]
  next => cases h

/-- The time of an entry failed no check exactly when the test accepts it. -/
theorem timeOk_eq (e : Json) : (!(checkEntry R e).2.contains .retrievedAt &&
    !(checkEntry R e).2.contains .all) = validTs R (e.find (lit "retrieved_at")) := by
  unfold checkEntry
  split
  next kvs =>
    dsimp only
    split
    · simp
    · split
      · simp
      · simp
  next hobj =>
    have hfind : e.find (lit "retrieved_at") = .null := by
      unfold find
      split
      next => exact absurd rfl (hobj _)
      next => rfl
    rw [hfind]
    rfl

/-! ## The counts -/

theorem countOk_iff {declared : Option Json} {n : Nat} :
    countOk declared n = true ↔ ∀ v ∈ declared, v = .int n := by
  cases declared with
  | none => simp [countOk]
  | some v => cases v <;> simp [countOk]

theorem countOperand_of_ok {declared : Option Json} {n : Nat} (h : countOk declared n = true) :
    countOperand declared (some n) = some (n : Int) := by
  cases declared with
  | none => rfl
  | some v =>
    obtain rfl := countOk_iff.mp h v rfl
    rfl

/-- The declared counts, the presence of the root and `fully_pinned`, where every entry
says whether it is pinned. -/
theorem countConds_nil {es : Json} {n p : Nat} : countConds es n (some p) = [] ↔
    (∀ v ∈ member es "source_count", v = .int n) ∧ (∀ v ∈ member es "pinned_count", v = .int p) ∧
    (es.find (lit "evidence_root") = .null ↔ p = 0) ∧
    ∀ v ∈ member es "fully_pinned", v = .bool (p == n && 0 < n) := by
  have hfully (hsc : countOk (member es "source_count") n = true)
      (hpc : countOk (member es "pinned_count") p = true) : fullyPinnedConds es n (some p) = [] ↔
        ∀ v ∈ member es "fully_pinned", v = .bool (p == n && 0 < n) := by
    have hwant : (decide ((p : Int) = n) && decide ((0 : Int) < n)) = (p == n && decide (0 < n)) := by
      simp [beq_eq_decide]
    unfold fullyPinnedConds
    rw [countOperand_of_ok hsc, countOperand_of_ok hpc]
    dsimp only
    rw [report_nil, hwant, beq_iff_eq]
    cases member es "fully_pinned" with
    | none => simp
    | some v => simp
  have hroot : (¬ (p = 0 ∧ es.find (lit "evidence_root") ≠ .null)) ∧
      (¬ (0 < p ∧ es.find (lit "evidence_root") = .null)) ↔
      (es.find (lit "evidence_root") = .null ↔ p = 0) := by
    by_cases hz : p = 0
    · simp [hz]
    · simp [hz, Nat.pos_of_ne_zero hz]
  unfold countConds
  dsimp only
  simp only [List.append_eq_nil_iff, report_nil, Bool.not_eq_true', Bool.and_eq_false_imp,
    beq_iff_eq, decide_eq_true_eq, bne_eq_false_iff_eq, beq_eq_false_iff_ne]
  rw [← hroot, ← countOk_iff, ← countOk_iff]
  constructor
  · rintro ⟨⟨hsc, ⟨hpc, hpresent⟩, habsent⟩, hfp⟩
    exact ⟨hsc, hpc, ⟨fun h => h.2 (hpresent h.1), fun h => habsent h.1 h.2⟩, (hfully hsc hpc).mp hfp⟩
  · rintro ⟨hsc, hpc, ⟨hpresent, habsent⟩, hfp⟩
    exact ⟨⟨hsc, ⟨hpc, fun hz => not_not.mp fun h => hpresent ⟨hz, h⟩⟩, fun hp h => habsent ⟨hp, h⟩⟩,
      (hfully hsc hpc).mpr hfp⟩

/-! ## The rules over the whole set -/

/-- The set-level time, where it has an encoding. -/
def setTimeOk (es : Json) (sources : List Json) : Bool :=
  match member es "retrieved_at" with
  | some (.str s) => utf8Bytes s == least (sources.map timeOf)
  | some _ => false
  | none => true

/-- The set-level time is a text with a lone surrogate. -/
def SetTimeSurrogate (es : Json) : Prop :=
  ∃ s, member es "retrieved_at" = some (.str s) ∧ s.any isSurrogate = true

/-- The entries whose members for the duplicate test passed. -/
def testable (R : Runtime) (sources : List Json) : List Json :=
  sources.filter fun e => !(checkEntry R e).2.any dupIn.contains

/-- The entries with what failed of each, as `validate` lists them. -/
def checkedOf (R : Runtime) (sources : List Json) : List (Json × List Member) :=
  sources.map fun e => (e, (checkEntry R e).2)

theorem encode_timeOf (hsurr : ∀ c, isSurrogate c = true → R.digitVal c = none) {e : Json}
    (h : validTs R (e.find (lit "retrieved_at")) = true) :
    encode (e.find (lit "retrieved_at")) = .ok (timeOf e) := by
  unfold timeOf
  cases hfind : e.find (lit "retrieved_at") with
  | str s =>
    rw [hfind] at h
    exact utf8_of_validTs hsurr h
  | _ =>
    rw [hfind] at h
    cases h

theorem mapM_timeOf (hsurr : ∀ c, isSurrogate c = true → R.digitVal c = none)
    {sources : List Json} (h : ∀ e ∈ sources, validTs R (e.find (lit "retrieved_at")) = true) :
    ((checkedOf R sources).mapM fun c => encode (c.1.find (lit "retrieved_at"))) =
      .ok (sources.map timeOf) := by
  rw [mapM_ok, checkedOf, List.forall₂_map_left_iff, List.forall₂_map_right_iff, List.forall₂_same]
  exact fun e he => encode_timeOf hsurr (h e he)

/-- Over well-formed times only the set-level one can raise. -/
theorem setConds_ok (hsurr : ∀ c, isSurrogate c = true → R.digitVal c = none) {es : Json}
    {sources : List Json} (h : ∀ e ∈ sources, validTs R (e.find (lit "retrieved_at")) = true)
    (hset : ¬ SetTimeSurrogate es) : setConds es true (checkedOf R sources) =
      .ok (report (setTimeOk es sources) .setRetrievedAtNotBytewiseLeast ++
        report (!anyPair sameRetrieval (testable R sources)) .duplicateBoundTuple) := by
  have hok : ((checkedOf R sources).filter fun c => !c.2.any dupIn.contains).map (·.1) =
      testable R sources := by
    rw [checkedOf, List.filter_map, List.map_map]
    exact List.map_id' _
  unfold setConds setTimeOk
  rw [mapM_timeOf hsurr h, hok]
  cases hmem : member es "retrieved_at" with
  | none => rfl
  | some v =>
    cases v with
    | str s =>
      have hutf : utf8 s = .ok (utf8Bytes s) := by
        rw [utf8, if_neg fun hs => hset ⟨s, hmem, hs⟩]
      dsimp only
      rw [hutf]
      rfl
    | _ => rfl

theorem setConds_error (hsurr : ∀ c, isSurrogate c = true → R.digitVal c = none) {es : Json}
    {sources : List Json} (h : ∀ e ∈ sources, validTs R (e.find (lit "retrieved_at")) = true)
    (hset : SetTimeSurrogate es) :
    setConds es true (checkedOf R sources) = .error .unicodeEncodeError := by
  obtain ⟨s, hmem, hs⟩ := hset
  have hutf : utf8 s = .error .unicodeEncodeError := by rw [utf8, if_pos hs]
  unfold setConds
  rw [mapM_timeOf hsurr h, hmem]
  dsimp only
  rw [hutf]
  rfl

theorem anyPair_eq_false {p : Json → Json → Bool} {xs : List Json} :
    anyPair p xs = false ↔ xs.Pairwise fun a b => p a b = false := by
  induction xs with
  | nil => simp [anyPair]
  | cons x xs ih =>
    rw [anyPair, Bool.or_eq_false_iff, ih, List.pairwise_cons, List.any_eq_false]
    simp only [Bool.not_eq_true]

theorem countPinned_clean {sources : List Json} (h : ∀ e ∈ sources, (checkEntry R e).1 = []) :
    countPinned sources ((checkedOf R sources).map (·.2)) = some (sources.countP isPinned) := by
  rw [countPinned, if_pos]
  rw [checkedOf, List.map_map, List.all_map, List.all_eq_true]
  intro e he
  simp [(cleanEntry (h e he)).2]

/-- All that `validate` collects, with the conditions on the whole set. -/
def conditionsOf (R : Runtime) (es : Json) (sources : List Json) (sc : List Condition) :
    List Condition :=
  (sources.flatMap fun e => (checkEntry R e).1) ++
    countConds es sources.length (countPinned sources ((checkedOf R sources).map (·.2))) ++ sc

/-- No conditions, in terms of what the set declares. -/
theorem conds_nil (hsurr : ∀ c, isSurrogate c = true → R.digitVal c = none) {es : Json}
    {sources : List Json} {sc : List Condition}
    (hsc : setConds es (sources.all fun e => validTs R (e.find (lit "retrieved_at")))
      (checkedOf R sources) = .ok sc) :
    conditionsOf R es sources sc = [] ↔ Consistent R es sources := by
  unfold conditionsOf
  have hentries : (sources.flatMap fun e => (checkEntry R e).1) = [] ↔
      ∀ e ∈ sources, (checkEntry R e).1 = [] := List.flatMap_eq_nil_iff
  by_cases hclean : ∀ e ∈ sources, (checkEntry R e).1 = []
  · have hbad : ∀ e ∈ sources, (checkEntry R e).2 = [] := fun e he => (cleanEntry (hclean e he)).2
    have htimes : ∀ e ∈ sources, validTs R (e.find (lit "retrieved_at")) = true :=
      fun e he => (cleanEntry (hclean e he)).1.time
    have hpinned := countPinned_clean hclean
    have htest : testable R sources = sources :=
      List.filter_eq_self.mpr fun e he => by simp [hbad e he]
    rw [List.all_eq_true.mpr htimes] at hsc
    have hset : ¬ SetTimeSurrogate es := by
      intro hset
      rw [setConds_error hsurr htimes hset] at hsc
      cases hsc
    rw [setConds_ok hsurr htimes hset, htest] at hsc
    obtain rfl := Except.ok.inj hsc
    rw [hentries.mpr hclean, hpinned, List.nil_append, List.append_eq_nil_iff, countConds_nil,
      List.append_eq_nil_iff, report_nil, report_nil, Bool.not_eq_true', anyPair_eq_false]
    have htime : setTimeOk es sources = true ↔ ∀ v ∈ member es "retrieved_at", ∃ s, v = .str s ∧
        s.any isSurrogate = false ∧ utf8Bytes s = least (sources.map timeOf) := by
      unfold setTimeOk
      cases hmem : member es "retrieved_at" with
      | none => simp
      | some v =>
        cases v with
        | str s =>
          have hs : s.any isSurrogate = false := by
            rw [← Bool.not_eq_true]
            exact fun hs => hset ⟨s, hmem, hs⟩
          simp [-List.any_eq_false, hs]
        | _ => simp
    rw [htime]
    constructor
    · rintro ⟨⟨hn, hp, hroot, hfp⟩, ht, hd⟩
      exact ⟨hclean, hn, hp, hroot, hfp, ht, hd⟩
    · intro h
      exact ⟨⟨h.sourceCount, h.pinnedCount, h.root, h.fullyPinned⟩, h.time, h.distinct⟩
  · refine iff_of_false (fun hnil => hclean ?_) fun h => hclean h.entries
    rw [List.append_eq_nil_iff, List.append_eq_nil_iff] at hnil
    exact hentries.mp hnil.1.1

/-! ## The root -/

/-- The URL of a pinned entry has a lone surrogate. -/
def UrlSurrogate (sources : List Json) : Prop :=
  ∃ e ∈ sources, isPinned e = true ∧ ∃ u, e.find (lit "url") = .str u ∧ u.any isSurrogate = true

/-- A hex digest and a kind of content have an encoding. -/
theorem utf8_of_isHex64 {v : Json} (h : isHex64 v = true) :
    ∃ s, v = .str s ∧ utf8 s = .ok (utf8Bytes s) := by
  cases v with
  | str s =>
    refine ⟨s, rfl, ?_⟩
    have hclean : s.any isSurrogate = false := by
      rw [List.any_eq_false]
      intro c hc hs
      have hdigit := List.all_eq_true.mp ((Bool.and_eq_true _ _).mp h).2 c hc
      simp only [isSurrogate, isDigit, Bool.and_eq_true, Bool.or_eq_true, decide_eq_true_eq] at hs hdigit
      omega
    rw [utf8, hclean, if_neg Bool.false_ne_true]
  | _ => cases h

theorem utf8_of_kind {v : Json} (h : pyIn v contentKinds = true) :
    ∃ s, v = .str s ∧ utf8 s = .ok (utf8Bytes s) := by
  obtain ⟨w, hw, hsame⟩ := List.any_eq_true.mp h
  have hkind : ∀ s, utf8 s = .ok (utf8Bytes s) → w = .str s →
      ∃ s, v = .str s ∧ utf8 s = .ok (utf8Bytes s) := by
    rintro s hs rfl
    exact ⟨s, (pySame_str _ _).mp hsame, hs⟩
  simp only [contentKinds, List.mem_cons, List.not_mem_nil, or_false] at hw
  obtain rfl | rfl | rfl := hw
  · exact hkind _ (by decide) rfl
  · exact hkind _ (by decide) rfl
  · exact hkind _ (by decide) rfl

/-- The key of a pinned entry without conditions can be built exactly when its URL has
an encoding. -/
theorem returns_sortKey (hsurr : ∀ c, isSurrogate c = true → R.digitVal c = none) {e : Json}
    (hclean : (checkEntry R e).1 = []) (hp : isPinned e = true) : Returns (sortKey e) ↔
      ∀ u, e.find (lit "url") = .str u → u.any isSurrogate = false := by
  obtain ⟨hentry, -⟩ := cleanEntry hclean
  obtain ⟨u, hu⟩ := hentry.url
  have hurl : Returns (do encode (← e.item (lit "url"))) ↔ u.any isSurrogate = false := by
    rw [item_of_find hu Json.noConfusion]
    change Returns (utf8 u) ↔ _
    rw [utf8]
    cases u.any isSurrogate with
    | true => simp
    | false => simp
  have hother {k : Str} (h : ∃ s, e.find k = .str s ∧ utf8 s = .ok (utf8Bytes s)) :
      Returns (do encode (← e.item k)) := by
    obtain ⟨s, hs, hutf⟩ := h
    rw [item_of_find hs Json.noConfusion]
    exact ⟨_, hutf⟩
  have htime : ∃ s, e.find (lit "retrieved_at") = .str s ∧ utf8 s = .ok (utf8Bytes s) := by
    have ht := hentry.time
    cases hfind : e.find (lit "retrieved_at") with
    | str s =>
      rw [hfind] at ht
      exact ⟨s, rfl, utf8_of_validTs hsurr ht⟩
    | _ =>
      rw [hfind] at ht
      cases ht
  unfold sortKey
  rw [returns_mapM]
  simp only [boundKeys, List.forall_mem_cons, List.not_mem_nil, false_imp_iff, implies_true,
    hother (utf8_of_isHex64 (hentry.snippet hp)), hother (utf8_of_kind (hentry.kind hp)),
    hother htime, and_true]
  rw [hurl]
  simp only [hu, Json.str.injEq, forall_eq']

theorem returns_evidenceRoot (hsurr : ∀ c, isSurrogate c = true → R.digitVal c = none)
    {sources : List Json} (hclean : ∀ e ∈ sources, (checkEntry R e).1 = []) :
    Returns (evidenceRoot R sources) ↔ ¬ UrlSurrogate sources := by
  have hkeys : Returns (evidenceRoot R sources) ↔
      Returns ((sources.filter isPinned).mapM sortKey) := by
    unfold evidenceRoot pinnedKeys
    simp only [returns_bind, bind_ok]
    constructor
    · rintro ⟨-, ⟨keys, hkeys, -⟩, -⟩
      exact ⟨keys, hkeys⟩
    · rintro ⟨keys, hkeys⟩
      exact ⟨_, ⟨keys, hkeys, rfl⟩, _, rfl⟩
  rw [hkeys, returns_mapM, UrlSurrogate]
  simp only [List.mem_filter, not_exists, not_and, Bool.not_eq_true]
  refine forall_congr' fun e => ?_
  constructor
  · intro h he hp
    exact (returns_sortKey hsurr (hclean e he) hp).mp (h ⟨he, hp⟩)
  · rintro h ⟨he, hp⟩
    exact (returns_sortKey hsurr (hclean e he) hp).mpr (h he hp)

/-! ## The verdict on a list of sources -/

theorem bads_times (sources : List Json) :
    (((checkedOf R sources).map (·.2)).all fun b => !b.contains .retrievedAt && !b.contains .all) =
      sources.all fun e => validTs R (e.find (lit "retrieved_at")) := by
  rw [checkedOf, List.map_map, List.all_map]
  exact congrArg sources.all (funext timeOk_eq)

theorem returns_setConds (hsurr : ∀ c, isSurrogate c = true → R.digitVal c = none) (es : Json)
    (sources : List Json) :
    Returns (setConds es (sources.all fun e => validTs R (e.find (lit "retrieved_at")))
      (checkedOf R sources)) ↔
      ¬ ((∀ e ∈ sources, validTs R (e.find (lit "retrieved_at")) = true) ∧ SetTimeSurrogate es) := by
  by_cases htimes : ∀ e ∈ sources, validTs R (e.find (lit "retrieved_at")) = true
  · rw [List.all_eq_true.mpr htimes]
    by_cases hset : SetTimeSurrogate es
    · rw [setConds_error hsurr htimes hset]
      exact iff_of_false (not_returns_error _) fun h => h ⟨htimes, hset⟩
    · rw [setConds_ok hsurr htimes hset]
      simp [hset]
  · rw [Bool.eq_false_iff.mpr fun h => htimes (List.all_eq_true.mp h)]
    exact iff_of_true ⟨[], rfl⟩ fun h => htimes h.1

theorem validateSources_eq (es : Json) (sources : List Json) : validateSources R es sources =
    (setConds es (sources.all fun e => validTs R (e.find (lit "retrieved_at")))
      (checkedOf R sources) >>= fun sc =>
        if !(conditionsOf R es sources sc).isEmpty then .ok (.malformed (conditionsOf R es sources sc))
        else checkRoot R es sources
          (countPinned sources ((checkedOf R sources).map (·.2)))) := by
  rw [← bads_times]
  rfl

/-- What `validate` answers for a list of sources, once the whole-set rules returned: the
conditions, or the check of the root for a consistent set. -/
theorem validateSources_of_setConds (hsurr : ∀ c, isSurrogate c = true → R.digitVal c = none)
    {es : Json} {sources : List Json} {sc : List Condition}
    (hsc : setConds es (sources.all fun e => validTs R (e.find (lit "retrieved_at")))
      (checkedOf R sources) = .ok sc) :
    (¬ Consistent R es sources ∧ conditionsOf R es sources sc ≠ [] ∧
      validateSources R es sources = .ok (.malformed (conditionsOf R es sources sc))) ∨
    Consistent R es sources ∧
      validateSources R es sources = checkRoot R es sources (some (sources.countP isPinned)) := by
  have hiff := conds_nil hsurr hsc
  have heq : validateSources R es sources =
      if !(conditionsOf R es sources sc).isEmpty then
        .ok (.malformed (conditionsOf R es sources sc))
      else checkRoot R es sources (countPinned sources ((checkedOf R sources).map (·.2))) := by
    rw [validateSources_eq, hsc]
    rfl
  by_cases hcons : Consistent R es sources
  · refine Or.inr ⟨hcons, ?_⟩
    rw [heq, hiff.mpr hcons, countPinned_clean hcons.entries]
    rfl
  · have hne := mt hiff.mp hcons
    refine Or.inl ⟨hcons, hne, ?_⟩
    rw [heq, if_pos (by simpa using hne)]

end Preaction.EvidenceSet
