import Mathlib.Data.List.Lex
import Preaction.EvidenceSet.Returns

/-!
# `evidence_set_check.py` — `resolve` and `build`

`build` is the issuer's side: it writes the counts, the least time, `fully_pinned` and
the root over finished entries, and asks `validate`. `resolve` is the verifier's: it
compares the pinned entries of an accepted set with the content that is held.

What `build` writes is what `validate` derives (`build_accepted`): for entries that
violate nothing, of which no two are one retrieval, the set is consistent and its root
recomputes; and the set is resolved exactly when every entry is pinned to content that
is held.

Mirroring notes:
- A report has the members of the dict that are there; `step` is always `evidence_set`.
- `held` is its two members: the set of hashes, and the map of URLs, whose values
  nothing reads.
- `copy.deepcopy` of JSON values is no step of the model.
-/

namespace Preaction.EvidenceSet

open Preaction.Py Preaction.Loop Json

variable (R : Runtime)

/-- The name of a condition. -/
def Condition.name : Condition → Str
  | .evidenceSetNotObject => lit "evidence_set_not_object"
  | .evidenceSetVersionAbsentOrNotString => lit "evidence_set_version_absent_or_not_string"
  | .evidenceSetNamesNoSources => lit "evidence_set_names_no_sources"
  | .sourcesNotArray => lit "sources_not_array"
  | .sourceEntryNotObject => lit "source_entry_not_object"
  | .retrievedAtNotCanonicalForm => lit "retrieved_at_not_canonical_form"
  | .pinnedAbsentOrNotBoolean => lit "pinned_absent_or_not_boolean"
  | .urlAbsentOrNotString => lit "url_absent_or_not_string"
  | .memberContainsNul => lit "member_contains_nul"
  | .snippetSha256NotLowercaseHex64 => lit "snippet_sha256_not_lowercase_hex64"
  | .resourceSha256NotLowercaseHex64 => lit "resource_sha256_not_lowercase_hex64"
  | .resourceSha256PresentForFullResource => lit "resource_sha256_present_for_full_resource"
  | .snippetSha256AbsentWhenPinned => lit "snippet_sha256_absent_when_pinned"
  | .contentKindAbsentOrInvalidWhenPinned => lit "content_kind_absent_or_invalid_when_pinned"
  | .snippetSha256MemberAbsent => lit "snippet_sha256_member_absent"
  | .snippetSha256PresentWhenUnpinned => lit "snippet_sha256_present_when_unpinned"
  | .contentKindPresentWhenUnpinned => lit "content_kind_present_when_unpinned"
  | .unpinnedReasonAbsentOrInvalid => lit "unpinned_reason_absent_or_invalid"
  | .sourceCountMismatch => lit "source_count_mismatch"
  | .pinnedCountMismatch => lit "pinned_count_mismatch"
  | .evidenceRootPresentWithNoPinnedItems => lit "evidence_root_present_with_no_pinned_items"
  | .evidenceRootAbsentWithPinnedItems => lit "evidence_root_absent_with_pinned_items"
  | .fullyPinnedMismatch => lit "fully_pinned_mismatch"
  | .setRetrievedAtNotBytewiseLeast => lit "set_retrieved_at_not_bytewise_least"
  | .duplicateBoundTuple => lit "duplicate_bound_tuple"
  | .rootNotRecomputableFromSources => lit "root_not_recomputable_from_sources"

/-- `sorted(conds)` -/
def sortedNames (conds : List Condition) : List Str :=
  (conds.dedup.map Condition.name).insertionSort (· ≤ ·)

/-! ## `resolve` -/

/-- `RESOLVED`, `UNKNOWN`, `HALT` -/
inductive Token
  | resolved
  | unknown
  | halt
  deriving DecidableEq, Repr

/-- The `reason` of an item. -/
inductive Reason
  | contentMatches
  | contentDiffers
  | contentNotHeld
  deriving DecidableEq, Repr

/-- An element of `items`. -/
structure Item where
  url : Json
  reason : Reason

/-- `held` -/
structure Held where
  hashes : List Str := []
  byUrl : List (Str × Str) := []

/-- The report of the step. -/
structure Report where
  resolution : Token
  gate : Option Str := none
  conditions : Option (List Str) := none
  reason : Option Str := none
  derived : Option Derived := none
  items : Option (List Item) := none
  offlineRecomputation : Option Str := none
  why : Option Str := none

/-- `x in keys` for a set or the keys of a dict; an unhashable value raises. -/
def isIn (keys : List Str) : Json → Except PyError Bool
  | .str s => .ok (keys.contains s)
  | .arr _ => .error .typeError
  | .obj _ => .error .typeError
  | _ => .ok false

/-- The body of the loop over the sources. -/
def itemOf (held : Held) (e : Json) : Except PyError Item := do
  let pinned := (← e.item (lit "pinned")).truthy
  let matched ← if pinned then isIn held.hashes (← e.item (lit "snippet_sha256")) else pure false
  if matched then return ⟨← e.item (lit "url"), .contentMatches⟩
  let differs ←
    if pinned then isIn (held.byUrl.map (·.1)) (← e.item (lit "url")) else pure false
  return ⟨← e.item (lit "url"), if differs then .contentDiffers else .contentNotHeld⟩

/-- The report on a set that `validate` accepted. -/
def reportOn (d : Derived) (items : List Item) : Token × Report :=
  let token :=
    if d.fullyPinned && items.all (·.reason == .contentMatches) then Token.resolved else .unknown
  (token, {
    resolution := token
    derived := some d
    items := some items
    offlineRecomputation :=
      some (if token = .resolved then lit "performed" else lit "not established")
    why := if d.fullyPinned then none else some (lit ("partial evidence set (5.4.1 c): valid, but" ++
      " MUST NOT be presented as satisfying offline recomputation")) })

/-- `resolve(payload, held)` -/
def resolve (payload : List (Str × Json)) (held : Held) : Except PyError (Token × Report) :=
  match payload.lookup (lit "evidence_set") with
  | none => .ok (.unknown, {
      resolution := .unknown
      why := some (lit "no evidence_set (5.4.1 e); not a failure") })
  | some es => do
    let v ← validate R es
    if !v.conditions.isEmpty then
      return (.halt, {
        resolution := .halt
        gate := some (lit "halt")
        conditions := some (sortedNames v.conditions) })
    if v.unsupported then
      return (.unknown, {
        resolution := .unknown
        reason := some (lit "evidence_set_version_unsupported") })
    let items ← (← (← es.item (lit "sources")).iter).mapM (itemOf held)
    match v.derived with
    | some d => return reportOn d items
    | none => .error .typeError

/-! ## `build` -/

/-- `min(xs, key=key)`: the first element with the least key. -/
def minBy (key : Json → Except PyError Bytes) : List Json → Except PyError Json
  | [] => .error .valueError
  | x :: xs => do
    let least ← xs.foldlM (fun (m : Json × Bytes) y => do
      let k ← key y
      return if k < m.2 then (y, k) else m) (x, ← key x)
    return least.1

/-- `build(entries)` -/
def build (entries : List Json) : Except PyError Json := do
  let first ← minBy (fun e => do encode (← e.item (lit "retrieved_at"))) entries
  let retrievedAt ← first.item (lit "retrieved_at")
  let pinned ← entries.mapM fun e => do return (← e.item (lit "pinned")).truthy
  let root ← evidenceRoot R entries
  let es := object [("evidence_set_version", .str version), ("retrieved_at", retrievedAt),
    ("source_count", .int entries.length), ("pinned_count", .int (pinned.count true)),
    ("fully_pinned", .bool (pinned.all id && 0 < entries.length)),
    ("evidence_root", (root.map Json.str).getD .null), ("sources", .arr entries)]
  let v ← validate R es
  if !v.conditions.isEmpty then .error .valueError
  return es

variable {R}

/-! ## The least time -/

theorem foldl_least (xs : List Bytes) (m : Bytes) :
    let r := xs.foldl (fun m y => if y < m then y else m) m
    r ∈ m :: xs ∧ ∀ y ∈ m :: xs, r ≤ y := by
  induction xs generalizing m with
  | nil => simp
  | cons x xs ih =>
    rw [List.foldl_cons]
    by_cases hlt : x < m
    · rw [if_pos hlt]
      obtain ⟨hmem, hle⟩ := ih x
      refine ⟨List.mem_cons_of_mem _ hmem, List.forall_mem_cons.mpr ⟨?_, hle⟩⟩
      exact List.le_trans (hle x List.mem_cons_self) (List.le_of_lt hlt)
    · rw [if_neg hlt]
      obtain ⟨hmem, hle⟩ := ih m
      obtain ⟨hm, hxs⟩ := List.forall_mem_cons.mp hle
      refine ⟨?_, List.forall_mem_cons.mpr ⟨hm, List.forall_mem_cons.mpr ⟨?_, hxs⟩⟩⟩
      · rcases List.mem_cons.mp hmem with h | h
        · exact List.mem_cons.mpr (Or.inl h)
        · exact List.mem_cons_of_mem _ (List.mem_cons_of_mem _ h)
      · exact List.le_trans hm (List.not_lt.mp hlt)

/-- `least` is the least element. -/
theorem least_spec {xs : List Bytes} (h : xs ≠ []) : least xs ∈ xs ∧ ∀ y ∈ xs, least xs ≤ y := by
  cases xs with
  | nil => exact absurd rfl h
  | cons x xs => exact foldl_least xs x

/-- `min` over keys that can be computed is an element with the least of them. -/
theorem minBy_ok {key : Json → Except PyError Bytes} {k : Json → Bytes} {xs : List Json}
    (hne : xs ≠ []) (hkey : ∀ x ∈ xs, key x = .ok (k x)) :
    ∃ m ∈ xs, minBy key xs = .ok m ∧ k m = least (xs.map k) := by
  have hfold : ∀ (ys : List Json) (m : Json), (∀ y ∈ ys, key y = .ok (k y)) →
      ∃ m' ∈ m :: ys, (ys.foldlM (fun (m : Json × Bytes) y => do
          let l ← key y
          return if l < m.2 then (y, l) else m) (m, k m)) = .ok (m', k m') ∧
        k m' = (ys.map k).foldl (fun m y => if y < m then y else m) (k m) := by
    intro ys
    induction ys with
    | nil => exact fun m _ => ⟨m, List.mem_cons_self, rfl, rfl⟩
    | cons y ys ih =>
      intro m hys
      obtain ⟨hy, hys⟩ := List.forall_mem_cons.mp hys
      obtain ⟨m', hm', hrun, hleast⟩ := ih (if k y < k m then y else m) hys
      have hstep : (if k y < k m then (y, k y) else (m, k m)) =
          ((if k y < k m then y else m), k (if k y < k m then y else m)) := by
        split <;> rfl
      refine ⟨m', ?_, ?_, ?_⟩
      · split at hm'
        · exact List.mem_cons_of_mem _ hm'
        · rcases List.mem_cons.mp hm' with h | h
          · exact h ▸ List.mem_cons_self
          · exact List.mem_cons_of_mem _ (List.mem_cons_of_mem _ h)
      · rw [List.foldlM_cons, hy]
        change ys.foldlM _ (if k y < k m then (y, k y) else (m, k m)) = _
        rw [hstep]
        exact hrun
      · rw [hleast, List.map_cons, List.foldl_cons, apply_ite k]
  cases xs with
  | nil => exact absurd rfl hne
  | cons x xs =>
    obtain ⟨hx, hxs⟩ := List.forall_mem_cons.mp hkey
    obtain ⟨m, hm, hrun, hleast⟩ := hfold xs x hxs
    refine ⟨m, hm, ?_, hleast⟩
    unfold minBy
    dsimp only
    rw [hx]
    change (xs.foldlM _ (x, k x) >>= fun least => Except.ok least.1) = _
    rw [hrun]
    rfl

/-! ## What `build` writes -/

/-- There is no root exactly where nothing is pinned. -/
theorem evidenceRoot_eq_none {sources : List Json} {want : Option Str}
    (h : evidenceRoot R sources = .ok want) : want = none ↔ sources.countP isPinned = 0 := by
  obtain ⟨keys, hkeys, h⟩ := bind_ok.mp h
  obtain ⟨ks, hks, hsort⟩ := bind_ok.mp hkeys
  obtain rfl := Except.ok.inj hsort
  obtain rfl := Except.ok.inj h
  have hlen := (mapM_ok.mp hks).length_eq
  rw [List.countP_eq_length_filter, hlen, Option.map_eq_none_iff]
  rw [← List.length_insertionSort (· ≤ ·) ks, ← List.length_map (leaf R)]
  exact Merkle.root_eq_none

/-- An item of an entry without conditions: its content matches exactly when it is
pinned to a digest that is held. -/
theorem itemOf_clean (held : Held) {e : Json} (h : CleanEntry R e) :
    ∃ reason, itemOf held e = .ok ⟨e.find (lit "url"), reason⟩ ∧
      (reason = .contentMatches ↔ isPinned e = true ∧
        ∃ s, e.find (lit "snippet_sha256") = .str s ∧ s ∈ held.hashes) := by
  obtain ⟨u, hu⟩ := h.url
  have hurl := item_of_find hu Json.noConfusion
  unfold itemOf
  rw [hurl]
  rcases h.pinned with hp | hp
  · have hpinned : isPinned e = true := by rw [isPinned, hp]; rfl
    obtain ⟨s, hs, -⟩ := utf8_of_isHex64 (h.snippet hpinned)
    rw [item_of_find hp Json.noConfusion, item_of_find hs Json.noConfusion, hs, hu]
    simp only [hpinned, Json.str.injEq, true_and, exists_eq_left']
    by_cases hheld : s ∈ held.hashes
    · have hin : isIn held.hashes (.str s) = .ok true := by simp [isIn, hheld]
      refine ⟨.contentMatches, ?_, iff_of_true rfl hheld⟩
      simp only [ok_bind, truthy, if_true, hin]
      rfl
    · have hin : isIn held.hashes (.str s) = .ok false := by simp [isIn, hheld]
      have hby : isIn (held.byUrl.map (·.1)) (.str u) =
          .ok ((held.byUrl.map (·.1)).contains u) := rfl
      refine ⟨if (held.byUrl.map (·.1)).contains u then .contentDiffers else .contentNotHeld, ?_,
        iff_of_false (by split <;> exact Reason.noConfusion) hheld⟩
      simp only [ok_bind, truthy, if_true, hin, Bool.false_eq_true, if_false, hby]
      rfl
  · have hpinned : ¬ isPinned e = true := by rw [isPinned, hp]; decide
    rw [item_of_find hp Json.noConfusion, hu]
    exact ⟨.contentNotHeld, rfl, by simp [hpinned]⟩

/-- The set that `build` writes around entries with these values. -/
def builtSet (retrievedAt : Json) (root : Option Str) (entries : List Json) : Json := object
  [("evidence_set_version", .str version), ("retrieved_at", retrievedAt),
    ("source_count", .int entries.length), ("pinned_count", .int (entries.countP isPinned)),
    ("fully_pinned", .bool (entries.countP isPinned == entries.length && 0 < entries.length)),
    ("evidence_root", (root.map Json.str).getD .null), ("sources", .arr entries)]

theorem member_object_cons (k : String) (v : Json) (kvs : List (String × Json)) :
    member (object ((k, v) :: kvs)) k = some v := by
  rw [object, List.map_cons, member, lookup_cons_if, if_pos rfl]

theorem member_object_cons_ne {j k : String} (h : j ≠ k) (v : Json) (kvs : List (String × Json)) :
    member (object ((k, v) :: kvs)) j = member (object kvs) j := by
  rw [object, List.map_cons, member, lookup_cons_if, if_neg (lit_injective.ne h)]
  rfl

/-- The derived values are those that the set declares. -/
structure Declares (es : Json) (d : Derived) : Prop where
  sourceCount : member es "source_count" = some (.int d.sourceCount)
  pinnedCount : ∃ p, d.pinnedCount = some p ∧ member es "pinned_count" = some (.int p)
  fullyPinned : member es "fully_pinned" = some (.bool d.fullyPinned)
  evidenceRoot : member es "evidence_root" = some ((d.evidenceRoot.map Json.str).getD .null)

/-- What `validate` derives from a set that `build` wrote. -/
def builtDerived (root : Option Str) (entries : List Json) : Derived :=
  ⟨entries.length, some (entries.countP isPinned),
    entries.countP isPinned == entries.length && 0 < entries.length, root⟩

theorem declares_builtSet (retrievedAt : Json) (root : Option Str) (entries : List Json) :
    Declares (builtSet retrievedAt root entries) (builtDerived root entries) := by
  unfold builtSet builtDerived
  constructor
  · simp (disch := decide) only [member_object_cons, member_object_cons_ne]
  · refine ⟨_, rfl, ?_⟩
    simp (disch := decide) only [member_object_cons, member_object_cons_ne]
  · simp (disch := decide) only [member_object_cons, member_object_cons_ne]
  · simp (disch := decide) only [member_object_cons, member_object_cons_ne]

theorem find_builtSet (retrievedAt : Json) (root : Option Str) (entries : List Json) :
    find (builtSet retrievedAt root entries) (lit "evidence_set_version") = .str version ∧
    member (builtSet retrievedAt root entries) "retrieved_at" = some retrievedAt ∧
    find (builtSet retrievedAt root entries) (lit "evidence_root") =
      (root.map Json.str).getD .null ∧
    find (builtSet retrievedAt root entries) (lit "sources") = .arr entries := by
  unfold builtSet
  simp (disch := decide) only [member_object_cons, member_object_cons_ne, find_object_cons,
    find_object_cons_ne, and_self]

/-- The set around entries that violate nothing, with the least of their times, is
consistent. -/
theorem consistent_builtSet {entries : List Json} {s : Str} {root : Option Str}
    (hclean : ∀ e ∈ entries, (checkEntry R e).1 = [])
    (hdistinct : entries.Pairwise fun a b => sameRetrieval a b = false)
    (hs : utf8 s = .ok (least (entries.map timeOf))) (hroot : evidenceRoot R entries = .ok root) :
    Consistent R (builtSet (.str s) root entries) entries := by
  have hdecl := declares_builtSet (.str s) root entries
  obtain ⟨-, htime, hfind, -⟩ := find_builtSet (.str s) root entries
  obtain ⟨p, hp, hpinned⟩ := hdecl.pinnedCount
  obtain rfl := Option.some.inj hp
  refine ⟨hclean, fun v hv => ?_, fun v hv => ?_, ?_, fun v hv => ?_, fun v hv => ?_, hdistinct⟩
  · exact (Option.some.inj (hdecl.sourceCount.symm.trans hv)).symm
  · exact (Option.some.inj (hpinned.symm.trans hv)).symm
  · rw [hfind, ← evidenceRoot_eq_none hroot]
    cases root <;> simp
  · exact (Option.some.inj (hdecl.fullyPinned.symm.trans hv)).symm
  · obtain rfl := Option.some.inj (htime.symm.trans hv)
    refine ⟨s, rfl, ?_, (utf8_ok hs).symm⟩
    unfold utf8 at hs
    split at hs
    · cases hs
    · next h => exact Bool.eq_false_iff.mpr h

/-- The root that is declared is the one that recomputes. -/
theorem validate_builtSet (hsurr : ∀ c, isSurrogate c = true → R.digitVal c = none)
    {entries : List Json} {s : Str} {root : Option Str} (hne : entries ≠ [])
    (hcons : Consistent R (builtSet (.str s) root entries) entries)
    (hroot : evidenceRoot R entries = .ok root) :
    validate R (builtSet (.str s) root entries) = .ok ⟨[], some (builtDerived root entries), false⟩ := by
  obtain ⟨hversion, htime, hfind, hsrc⟩ := find_builtSet (.str s) root entries
  have hsources : sourcesOf (builtSet (.str s) root entries) = entries := by rw [sourcesOf, hsrc]
  have hset : ¬ SetTimeSurrogate (builtSet (.str s) root entries) := by
    rintro ⟨t, ht, hsurrogate⟩
    obtain ⟨u, hu, hclean, -⟩ := hcons.time _ ht
    obtain rfl := Json.str.inj hu
    rw [hclean] at hsurrogate
    cases hsurrogate
  obtain ⟨sc, hsc⟩ := (returns_setConds hsurr (builtSet (.str s) root entries) entries).mpr
    fun h => hset h.2
  obtain ⟨hnot, -⟩ | ⟨-, heq⟩ := validateSources_of_setConds hsurr hsc
  · exact absurd hcons hnot
  · have hsame : ((root.map Json.str).getD .null != .null &&
        !((root.map Json.str).getD .null).pyEq ((root.map Json.str).getD .null)) = false := by
      cases root with
      | none => rfl
      | some r => simp [(pyEq_str (.str r) r).mpr rfl]
    rw [validate_supported hversion (by rwa [hsources]), hsources, heq, checkRoot, hroot]
    change (if (find _ _ != _ && !(find _ _).pyEq _) = true then _ else _) = _
    rw [hfind, hsame]
    rfl

/-- The items of entries without conditions: all contents match exactly when every entry
is pinned to a digest that is held. -/
theorem items_clean (held : Held) {entries : List Json} (h : ∀ e ∈ entries, CleanEntry R e) :
    ∃ items, entries.mapM (itemOf held) = .ok items ∧
      (items.all (·.reason == .contentMatches) = true ↔ ∀ e ∈ entries, isPinned e = true ∧
        ∃ s, e.find (lit "snippet_sha256") = .str s ∧ s ∈ held.hashes) := by
  induction entries with
  | nil => exact ⟨[], List.mapM_nil, by simp⟩
  | cons e entries ih =>
    obtain ⟨he, hentries⟩ := List.forall_mem_cons.mp h
    obtain ⟨items, hitems, hall⟩ := ih hentries
    obtain ⟨reason, hitem, hreason⟩ := itemOf_clean held he
    refine ⟨⟨e.find (lit "url"), reason⟩ :: items, mapM_ok.mpr (.cons hitem (mapM_ok.mp hitems)), ?_⟩
    rw [List.all_cons, Bool.and_eq_true, hall, List.forall_mem_cons, ← hreason, beq_iff_eq]

theorem resolved_iff {d : Derived} {items : List Item} : (reportOn d items).1 = .resolved ↔
    d.fullyPinned = true ∧ items.all (·.reason == .contentMatches) = true := by
  rw [← Bool.and_eq_true]
  unfold reportOn
  dsimp only
  split
  · next h => simp [h]
  · next h => simp [h]

/-- The entries as `build` takes them: it writes a set around them, from their least time
and their root. -/
theorem build_eq (hsurr : ∀ c, isSurrogate c = true → R.digitVal c = none) {entries : List Json}
    (hne : entries ≠ []) (hclean : ∀ e ∈ entries, (checkEntry R e).1 = [])
    (hurl : ¬ UrlSurrogate entries)
    (hdistinct : entries.Pairwise fun a b => sameRetrieval a b = false) :
    ∃ s root, build R entries = .ok (builtSet (.str s) root entries) ∧
      evidenceRoot R entries = .ok root ∧
      Consistent R (builtSet (.str s) root entries) entries := by
  have hkey : ∀ e ∈ entries, (do encode (← e.item (lit "retrieved_at"))) = .ok (timeOf e) := by
    intro e he
    have htime := (cleanEntry (hclean e he)).1.time
    rw [← encode_timeOf hsurr htime]
    cases hfind : e.find (lit "retrieved_at") with
    | str s => rw [item_of_find hfind Json.noConfusion]; rfl
    | _ => rw [hfind] at htime; cases htime
  obtain ⟨m, hm, hmin, hleast⟩ := minBy_ok hne hkey
  obtain ⟨s, hs, hutf⟩ : ∃ s, m.item (lit "retrieved_at") = .ok (.str s) ∧
      utf8 s = .ok (least (entries.map timeOf)) := by
    have htime := (cleanEntry (hclean m hm)).1.time
    have hencode := encode_timeOf hsurr htime
    cases hfind : m.find (lit "retrieved_at") with
    | str s =>
      rw [hfind] at hencode
      exact ⟨s, item_of_find hfind Json.noConfusion, hleast ▸ hencode⟩
    | _ => rw [hfind] at htime; cases htime
  have hpinned : (entries.mapM fun e => do return (← e.item (lit "pinned")).truthy) =
      (.ok (entries.map isPinned) : Except PyError _) := by
    refine mapM_eq_map fun e he => ?_
    rcases (cleanEntry (hclean e he)).1.pinned with hp | hp
    · rw [item_of_find hp Json.noConfusion, isPinned, hp]; rfl
    · rw [item_of_find hp Json.noConfusion, isPinned, hp]; rfl
  obtain ⟨root, hroot⟩ := (returns_evidenceRoot hsurr hclean).mpr hurl
  have hcons := consistent_builtSet hclean hdistinct hutf hroot
  refine ⟨s, root, ?_, hroot, hcons⟩
  have hvalid := validate_builtSet hsurr hne hcons hroot
  have hcount : (entries.map isPinned).count true = entries.countP isPinned := by
    rw [List.count, List.countP_map]
    exact List.countP_congr fun e _ => by simp
  have hall : ((entries.map isPinned).all id && decide (0 < entries.length)) =
      (entries.countP isPinned == entries.length && decide (0 < entries.length)) := by
    have hiff : ((entries.map isPinned).all id = true) ↔
        (entries.countP isPinned == entries.length) = true := by
      rw [beq_iff_eq, List.countP_eq_length, List.all_map, List.all_eq_true]
      rfl
    rw [Bool.eq_iff_iff.mpr hiff]
  unfold build
  rw [hmin]
  change (m.item (lit "retrieved_at") >>= _) = _
  rw [hs]
  change ((entries.mapM fun e => do return (← e.item (lit "pinned")).truthy) >>= _) = _
  rw [hpinned]
  change (evidenceRoot R entries >>= _) = _
  rw [hroot]
  change (validate R (object _) >>= _) = _
  rw [hcount, hall]
  change (validate R (builtSet (.str s) root entries) >>= _) = _
  rw [hvalid]
  rfl

/-- The issuer and the verifier agree: what `build` makes of entries that violate
nothing, without lone surrogates, of which no two are one retrieval, is accepted with the
values that it declares; and it is resolved exactly when every entry is pinned to content
that is held. -/
theorem build_accepted (hsurr : ∀ c, isSurrogate c = true → R.digitVal c = none)
    {entries : List Json} (hne : entries ≠ []) (hclean : ∀ e ∈ entries, (checkEntry R e).1 = [])
    (hurl : ¬ UrlSurrogate entries)
    (hdistinct : entries.Pairwise fun a b => sameRetrieval a b = false) :
    ∃ es d, build R entries = .ok es ∧ es.find (lit "sources") = .arr entries ∧
      validate R es = .ok ⟨[], some d, false⟩ ∧ Declares es d ∧
      ∀ payload held, payload.lookup (lit "evidence_set") = some es →
        ∃ token report, resolve R payload held = .ok (token, report) ∧
          (token = .resolved ↔ ∀ e ∈ entries, isPinned e = true ∧
            ∃ s, e.find (lit "snippet_sha256") = .str s ∧ s ∈ held.hashes) := by
  obtain ⟨s, root, hbuild, hroot, hcons⟩ := build_eq hsurr hne hclean hurl hdistinct
  have hvalid := validate_builtSet hsurr hne hcons hroot
  obtain ⟨-, -, -, hsrc⟩ := find_builtSet (.str s) root entries
  refine ⟨_, builtDerived root entries, hbuild, hsrc, hvalid, declares_builtSet _ _ _,
    fun payload held hpayload => ?_⟩
  obtain ⟨items, hitems, hall⟩ := items_clean held fun e he => (cleanEntry (hclean e he)).1
  refine ⟨(reportOn (builtDerived root entries) items).1, (reportOn (builtDerived root entries) items).2,
    ?_, ?_⟩
  · unfold resolve
    rw [hpayload]
    dsimp only
    rw [hvalid]
    change ((builtSet (.str s) root entries).item (lit "sources") >>= _) = _
    rw [item_of_find hsrc Json.noConfusion]
    change (entries.mapM (itemOf held) >>= _) = _
    rw [hitems]
    rfl
  · rw [resolved_iff, hall]
    refine ⟨And.right, fun h => ⟨?_, h⟩⟩
    simp only [builtDerived, Bool.and_eq_true, beq_iff_eq, decide_eq_true_eq]
    exact ⟨List.countP_eq_length.mpr fun e he => (h e he).1, List.length_pos_of_ne_nil hne⟩

/-- Two pinned entries and one that is not. -/
theorem build_sample : ∃ es d, build .sample [sampleB, sampleUnpinned, sampleA] = .ok es ∧
    validate .sample es = .ok ⟨[], some d, false⟩ ∧ Declares es d := by
  have hclean : ∀ e ∈ [sampleB, sampleUnpinned, sampleA], (checkEntry .sample e).1 = [] := by
    decide +kernel
  have hurl : ¬ UrlSurrogate [sampleB, sampleUnpinned, sampleA] := by
    rintro ⟨e, he, -, u, hu, hsurr⟩
    have hall : [sampleB, sampleUnpinned, sampleA].all (fun e =>
        e.find (lit "url") == text "https://b.example/y" ||
        e.find (lit "url") == text "https://d.example/" ||
        e.find (lit "url") == text "https://a.example/x") = true := by decide +kernel
    have hone := List.all_eq_true.mp hall e he
    simp only [hu, text, Bool.or_eq_true, beq_iff_eq, Json.str.injEq] at hone
    obtain (rfl | rfl) | rfl := hone
    · exact absurd hsurr (by decide)
    · exact absurd hsurr (by decide)
    · exact absurd hsurr (by decide)
  obtain ⟨es, d, hbuild, -, hvalid, hdecl, -⟩ := build_accepted sample_surrogate
    (List.cons_ne_nil _ _) hclean hurl (by decide +kernel)
  exact ⟨es, d, hbuild, hvalid, hdecl⟩

end Preaction.EvidenceSet
