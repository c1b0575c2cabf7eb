import Mathlib.Data.List.Perm.Basic
import Mathlib.Data.List.Sort
import Preaction.Lib.Loop
import Preaction.Lib.Merkle
import Preaction.Py.Date
import Preaction.Py.Runtime

/-!
# `evidence_set_check.py` — evidence pinning

An evidence set lists the sources behind a statement. A pinned source is bound
by its URL, the digest of its content, the kind of content and the time of the
retrieval; the set's `evidence_root` is a Merkle root over these, in canonical
order, with the odd node of a level promoted.

`validate` reports every condition that the set violates. When it reports none,
the root it derives binds the pinned sources (`root_binds_pinned`): two accepted
sets with one root pin the same sources, as often. The proof needs what
`validate` checks: without a NUL in the four members, the text that a leaf
hashes has one reading.

Mirroring notes:
- The set of conditions is the list of them, in the order in which the source
  adds them; a condition can occur twice.
- `bad` is the list of the members that failed their own check.
- `e[k]` of a member that was checked is `find`.
-/

namespace Preaction.EvidenceSet

open Preaction.Py Preaction.Loop Json

variable (R : Runtime)

/-- The conditions of 5.4.1. -/
inductive Condition
  | evidenceSetNotObject
  | evidenceSetVersionAbsentOrNotString
  | evidenceSetNamesNoSources
  | sourcesNotArray
  | sourceEntryNotObject
  | retrievedAtNotCanonicalForm
  | pinnedAbsentOrNotBoolean
  | urlAbsentOrNotString
  | memberContainsNul
  | snippetSha256NotLowercaseHex64
  | resourceSha256NotLowercaseHex64
  | resourceSha256PresentForFullResource
  | snippetSha256AbsentWhenPinned
  | contentKindAbsentOrInvalidWhenPinned
  | snippetSha256MemberAbsent
  | snippetSha256PresentWhenUnpinned
  | contentKindPresentWhenUnpinned
  | unpinnedReasonAbsentOrInvalid
  | sourceCountMismatch
  | pinnedCountMismatch
  | evidenceRootPresentWithNoPinnedItems
  | evidenceRootAbsentWithPinnedItems
  | fullyPinnedMismatch
  | setRetrievedAtNotBytewiseLeast
  | duplicateBoundTuple
  | rootNotRecomputableFromSources
  deriving DecidableEq, Repr

/-- A member of an entry that failed its own check; `all` is the entry itself. -/
inductive Member
  | all
  | retrievedAt
  | pinned
  | url
  | snippetSha256
  | resourceSha256
  | contentKind
  deriving DecidableEq, Repr

/-- `VERSION` -/
def version : Str := lit "ao-evidence-set-v1"

/-- `LEAF_PREFIX` -/
def leafPrefix : Bytes := utf8Bytes (lit "ao-evidence-leaf-v2")

/-- `NODE_PREFIX` -/
def nodePrefix : Bytes := utf8Bytes (lit "ao-evidence-node-v1")

/-- `CONTENT_KINDS` -/
def contentKinds : List Json := [text "snippet", text "excerpt", text "full_resource"]

/-- `UNPINNED_REASONS` -/
def unpinnedReasons : List Json := [text "no_content_returned", text "provider_metadata_only"]

/-- The groups of `TS_RE`, without the fraction. -/
def readTs (s : Str) : Option DateTime := do
  let (year, s) ← readDigits R.digitVal 4 s
  let (month, s) ← readDigits R.digitVal 2 (← readChar '-' s)
  let (day, s) ← readDigits R.digitVal 2 (← readChar '-' s)
  let (hour, s) ← readDigits R.digitVal 2 (← readChar 'T' s)
  let (minute, s) ← readDigits R.digitVal 2 (← readChar ':' s)
  let (second, s) ← readDigits R.digitVal 2 (← readChar ':' s)
  let (_, s) ← readDigits R.digitVal 3 (← readChar '.' s)
  if ← (readChar 'Z' s).map (·.isEmpty) then some ⟨year, month, day, hour, minute, second⟩ else none

/-- `_valid_ts(s)` -/
def validTs : Json → Bool
  | .str s => match readTs R s with
    | some t =>
      1 ≤ t.month && t.month ≤ 12 && t.hour ≤ 23 && t.minute ≤ 59 && t.second ≤ 59 &&
        1 ≤ t.day && t.day ≤ (daysInMonth t.year).getD (t.month - 1) 0
    | none => false
  | _ => false

/-- `HEX64` matches. -/
def isHex64 : Json → Bool
  | .str s => s.length == 64 &&
    s.all fun c => isDigit c || (0x61 ≤ c.val && c.val ≤ 0x66)
  | _ => false

/-- The members that a leaf binds, in order. -/
def boundKeys : List Str :=
  [lit "url", lit "snippet_sha256", lit "content_kind", lit "retrieved_at"]

/-! ## The root -/

/-- `_b(s)` -/
def encode : Json → Except PyError Bytes
  | .str s => utf8 s
  | _ => .error .attributeError

/-- `sort_key(e)` -/
def sortKey (e : Json) : Except PyError (List Bytes) :=
  boundKeys.mapM fun k => do encode (← e.item k)

/-- What `leaf` hashes, from the four members of the key. -/
def leafInput (key : List Bytes) : Bytes := leafPrefix ++ key.flatMap (0 :: ·)

/-- What `node` hashes. -/
def nodeInput (left right : Bytes) : Bytes := nodePrefix ++ 0 :: (left ++ 0 :: right)

/-- `leaf(e)` of an entry with this key. -/
def leaf (key : List Bytes) : Bytes := R.sha256 (leafInput key)

/-- `node(left, right)` -/
def node (left right : Bytes) : Bytes := R.sha256 (nodeInput left right)

def isPinned (e : Json) : Bool := e.find (lit "pinned") == .bool true

/-- The keys of the pinned entries, sorted. -/
def pinnedKeys (sources : List Json) : Except PyError (List (List Bytes)) :=
  return (← (sources.filter isPinned).mapM sortKey).insertionSort (· ≤ ·)

/-- `evidence_root(sources)` -/
def evidenceRoot (sources : List Json) : Except PyError (Option Str) :=
  return (Merkle.root (node R) id ((← pinnedKeys sources).map (leaf R))).map hexStr

/-! ## The entries -/

/-- `isinstance(e.get(k), str) and "\x00" in e[k]` -/
def containsNul : Json → Bool
  | .str s => s.contains 0
  | _ => false

/-- `[c]` where the test fails. -/
def report (ok : Bool) (c : Condition) : List Condition := if ok then [] else [c]

/-- `_check_entry(e)`: what it adds to `conds`, and what it returns. -/
def checkEntry (e : Json) : List Condition × List Member :=
  match e with
  | .obj kvs =>
    let s := e.find (lit "snippet_sha256")
    let ck := e.find (lit "content_kind")
    let rs := e.find (lit "resource_sha256")
    let pinned := e.find (lit "pinned")
    let tsOk := validTs R (e.find (lit "retrieved_at"))
    let pinnedOk := pinned == .bool true || pinned == .bool false
    let urlOk := (e.find (lit "url")).isStr
    let sOk := s == .null || isHex64 s
    let rsOk := rs == .null || isHex64 rs
    let bad := (if tsOk then [] else [Member.retrievedAt]) ++ (if pinnedOk then [] else [.pinned]) ++
      (if urlOk then [] else [.url]) ++ (if sOk then [] else [.snippetSha256]) ++
      (if rsOk then [] else [.resourceSha256])
    let conds := report tsOk .retrievedAtNotCanonicalForm ++
      report pinnedOk .pinnedAbsentOrNotBoolean ++ report urlOk .urlAbsentOrNotString ++
      report (!boundKeys.any fun k => containsNul (e.find k)) .memberContainsNul ++
      report sOk .snippetSha256NotLowercaseHex64 ++ report rsOk .resourceSha256NotLowercaseHex64 ++
      report (!(ck == text "full_resource" && rs != .null)) .resourceSha256PresentForFullResource
    if !pinnedOk then (conds, bad ++ [.snippetSha256, .contentKind])
    else if pinned == .bool true then
      let ckOk := ck.pyIn contentKinds
      (conds ++ report (s != .null) .snippetSha256AbsentWhenPinned ++
        report ckOk .contentKindAbsentOrInvalidWhenPinned,
        bad ++ if ckOk then [] else [.contentKind])
    else
      let present := (kvs.lookup (lit "snippet_sha256")).isSome
      (conds ++
        (if !present then [.snippetSha256MemberAbsent]
          else report (s == .null) .snippetSha256PresentWhenUnpinned) ++
        report (ck == .null) .contentKindPresentWhenUnpinned ++
        report ((e.find (lit "unpinned_reason")).pyIn unpinnedReasons) .unpinnedReasonAbsentOrInvalid,
        bad ++ if !present then [.snippetSha256] else [])
  | _ => ([.sourceEntryNotObject], [.all])

/-- `_same_retrieval(a, b)` -/
def sameRetrieval (a b : Json) : Bool :=
  let same (k : String) := (a.find (lit k)).pyEq (b.find (lit k))
  if !same "url" || !same "retrieved_at" then false
  else if isPinned a && isPinned b then same "snippet_sha256" && same "content_kind"
  else true

/-- Some two elements of the list, the one before the other, are related. -/
def anyPair (p : Json → Json → Bool) : List Json → Bool
  | [] => false
  | x :: xs => xs.any (p x) || anyPair p xs

/-! ## The set -/

/-- What an accepted set is found to say. -/
structure Derived where
  sourceCount : Nat
  pinnedCount : Option Nat
  fullyPinned : Bool
  evidenceRoot : Option Str
  deriving DecidableEq, Repr

/-- What `validate` returns. -/
structure Verdict where
  conditions : List Condition
  derived : Option Derived
  unsupported : Bool
  deriving DecidableEq, Repr

/-- The verdict of a set that violates conditions. -/
def Verdict.malformed (conditions : List Condition) : Verdict := ⟨conditions, none, false⟩

/-- A member of what is known to be a dict. -/
def member (es : Json) (k : String) : Option Json :=
  match es with
  | .obj kvs => kvs.lookup (lit k)
  | _ => none

/-- `_int(v) and v == n` of a declared count, or of the derived one. -/
def countOk (declared : Option Json) (n : Nat) : Bool :=
  match declared with
  | some (.int m) => m == n
  | some _ => false
  | none => true

/-- The count that `fully_pinned` is compared by: the declared one, or else the
derived one. -/
def countOperand (declared : Option Json) (derived : Option Nat) : Option Int :=
  match declared with
  | some (.int m) => some m
  | some _ => none
  | none => derived.map (↑)

/-- The condition on `fully_pinned`. -/
def fullyPinnedConds (es : Json) (n : Nat) (p : Option Nat) : List Condition :=
  match countOperand (member es "source_count") (some n), countOperand (member es "pinned_count") p with
  | some sc, some pc =>
    let want := Json.bool (pc = sc && 0 < sc)
    report ((member es "fully_pinned").getD want == want) .fullyPinnedMismatch
  | _, _ => []

/-- The conditions on the counts and on the presence of the root. -/
def countConds (es : Json) (n : Nat) (p : Option Nat) : List Condition :=
  let root := es.find (lit "evidence_root")
  report (countOk (member es "source_count") n) .sourceCountMismatch ++
  (match p with
    | some p => report (countOk (member es "pinned_count") p) .pinnedCountMismatch ++
      report (!(p == 0 && root != .null)) .evidenceRootPresentWithNoPinnedItems ++
      report (!(0 < p && root == .null)) .evidenceRootAbsentWithPinnedItems
    | none => []) ++
  fullyPinnedConds es n p

/-- `min(xs)` of a non-empty list of `bytes`. -/
def least : List Bytes → Bytes
  | [] => []
  | x :: xs => xs.foldl (fun m y => if y < m then y else m) x

/-- The members that a duplicate is decided by. -/
def dupIn : List Member := [.url, .pinned, .snippetSha256, .contentKind, .all]

/-- The rules over the whole set that take `retrieved_at` as input; one malformed
time suppresses them. -/
def setConds (es : Json) (tsOk : Bool) (checked : List (Json × List Member)) :
    Except PyError (List Condition) := do
  if !tsOk then return []
  let times ← checked.mapM fun c => encode (c.1.find (lit "retrieved_at"))
  let setTime ← match member es "retrieved_at" with
    | none => pure true
    | some (.str s) => pure ((← utf8 s) == least times)
    | some _ => pure false
  let ok := (checked.filter fun c => !c.2.any dupIn.contains).map (·.1)
  return report setTime .setRetrievedAtNotBytewiseLeast ++
    report (!anyPair sameRetrieval ok) .duplicateBoundTuple

/-- (b): the root recomputes. -/
def checkRoot (es : Json) (sources : List Json) (p : Option Nat) : Except PyError Verdict := do
  let want ← evidenceRoot R sources
  let n := sources.length
  let declared := es.find (lit "evidence_root")
  if declared != .null && !declared.pyEq ((want.map .str).getD .null) then
    return .malformed [.rootNotRecomputableFromSources]
  return ⟨[], some ⟨n, p, p == some n && 0 < n, want⟩, false⟩

/-- `p`: the number of pinned entries, where every entry says whether it is. -/
def countPinned (sources : List Json) (bads : List (List Member)) : Option Nat :=
  if bads.all fun b => !b.contains .pinned && !b.contains .all then
    some (sources.countP isPinned)
  else none

/-- (a) and (b), for a set that lists sources. -/
def validateSources (es : Json) (sources : List Json) : Except PyError Verdict := do
  let checked := sources.map fun e => (e, (checkEntry R e).2)
  let bads := checked.map (·.2)
  let conds := sources.flatMap fun e => (checkEntry R e).1
  let p := countPinned sources bads
  let tsOk := bads.all fun b => !b.contains .retrievedAt && !b.contains .all
  let setConds ← setConds es tsOk checked
  let conds := conds ++ countConds es sources.length p ++ setConds
  if !conds.isEmpty then return .malformed conds
  checkRoot R es sources p

/-- `validate(es)` -/
def validate (es : Json) : Except PyError Verdict :=
  match es with
  | .obj kvs =>
    match kvs.lookup (lit "evidence_set_version") with
    | some (.str v) =>
      if v ≠ version then .ok ⟨[], none, true⟩
      else match (kvs.lookup (lit "sources")).getD .null with
        | .null => .ok (.malformed [.evidenceSetNamesNoSources])
        | .arr [] => .ok (.malformed [.evidenceSetNamesNoSources])
        | .arr sources => validateSources R es sources
        | _ => .ok (.malformed [.sourcesNotArray])
    | _ => .ok (.malformed [.evidenceSetVersionAbsentOrNotString])
  | _ => .ok (.malformed [.evidenceSetNotObject])

/-! ## What acceptance says about the entries -/

/-- The sources of a set. -/
def sourcesOf (es : Json) : List Json :=
  match es.find (lit "sources") with
  | .arr sources => sources
  | _ => []

/-- The values that a leaf binds. -/
def boundTuple (e : Json) : List Json := boundKeys.map e.find

/-- The bound values of the pinned entries, in the order of the set. -/
def pinnedTuples (es : Json) : List (List Json) := ((sourcesOf es).filter isPinned).map boundTuple

variable {R}

theorem report_nil {ok : Bool} {c : Condition} : report ok c = [] ↔ ok = true := by
  cases ok <;> simp [report]

/-- The root that (b) accepts is the one it derives. -/
theorem checkRoot_accepted {es : Json} {sources : List Json} {p : Option Nat} {v : Verdict}
    {d : Derived} (h : checkRoot R es sources p = .ok v) (hd : v.derived = some d) :
    evidenceRoot R sources = .ok d.evidenceRoot := by
  obtain ⟨want, hwant, h⟩ := bind_ok.mp h
  dsimp only at h
  split at h
  next =>
    obtain rfl := Except.ok.inj h
    cases hd
  next =>
    obtain rfl := Except.ok.inj h
    obtain rfl := Option.some.inj hd
    exact hwant

/-- An accepted list of sources: no entry violates a condition, and the root is the
one derived. -/
theorem validateSources_accepted {es : Json} {sources : List Json} {v : Verdict} {d : Derived}
    (h : validateSources R es sources = .ok v) (hd : v.derived = some d) :
    (∀ e ∈ sources, (checkEntry R e).1 = []) ∧
      evidenceRoot R sources = .ok d.evidenceRoot := by
  obtain ⟨setConds, -, h⟩ := bind_ok.mp h
  dsimp only at h
  split at h
  next =>
    obtain rfl := Except.ok.inj h
    cases hd
  next hempty =>
    refine ⟨fun e he => ?_, checkRoot_accepted h hd⟩
    rw [Bool.not_eq_true, Bool.not_eq_false', List.isEmpty_iff] at hempty
    simp only [List.append_eq_nil_iff, List.flatMap_eq_nil_iff] at hempty
    exact hempty.1.1 e he

theorem validate_accepted {es : Json} {v : Verdict} {d : Derived} (h : validate R es = .ok v)
    (hd : v.derived = some d) :
    (∀ e ∈ sourcesOf es, (checkEntry R e).1 = []) ∧
      evidenceRoot R (sourcesOf es) = .ok d.evidenceRoot := by
  -- every other branch ends without a derivation
  have hend {u : Verdict} (h : Except.ok u = (Except.ok v : Except PyError Verdict))
      (hu : u.derived = none) : False := by
    rw [← Except.ok.inj h, hu] at hd
    cases hd
  unfold validate at h
  split at h
  next kvs =>
    split at h
    next =>
      split at h
      next => exact (hend h rfl).elim
      next =>
        split at h
        next => exact (hend h rfl).elim
        next => exact (hend h rfl).elim
        next sources _ hsrc =>
          have hsources : sourcesOf (.obj kvs) = sources := by
            dsimp only [sourcesOf, find]
            rw [hsrc]
          rw [hsources]
          exact validateSources_accepted h hd
        next => exact (hend h rfl).elim
    next => exact (hend h rfl).elim
  next => exact (hend h rfl).elim

/-- An entry that violates nothing has no NUL in the members that a leaf binds. -/
theorem noNul_of_checkEntry {e : Json} (h : (checkEntry R e).1 = []) {k s : Str}
    (hk : k ∈ boundKeys) (hs : e.find k = .str s) : (0 : CodePoint) ∉ s := by
  unfold checkEntry at h
  split at h
  next kvs =>
    have hnul : report (!boundKeys.any fun k => containsNul (Json.obj kvs |>.find k))
        .memberContainsNul = [] := by
      dsimp only at h
      split at h
      · simp only [List.append_eq_nil_iff] at h
        exact h.1.1.1.2
      split at h
      · simp only [List.append_eq_nil_iff] at h
        exact h.1.1.1.1.1.2
      · simp only [List.append_eq_nil_iff] at h
        exact h.1.1.1.1.1.1.2
    rw [report_nil, Bool.not_eq_true', List.any_eq_false] at hnul
    have := hnul k hk
    rw [hs] at this
    simpa [containsNul] using this
  next => cases h

/-- The key of an entry is its four texts, encoded. -/
theorem sortKey_ok {e : Json} {key : List Bytes} (h : sortKey e = .ok key) :
    ∃ texts : List Str, boundTuple e = texts.map .str ∧ key = texts.map utf8Bytes ∧
      texts.length = 4 := by
  have hall := mapM_ok.mp h
  have hitem {k : Str} {b : Bytes} (hk : (do encode (← e.item k)) = Except.ok b) :
      ∃ s, e.find k = .str s ∧ b = utf8Bytes s := by
    obtain ⟨v, hv, hb⟩ := bind_ok.mp hk
    have hfind := item_eq_find hv
    cases v with
    | str s =>
      exact ⟨s, hfind.symm, utf8_ok hb⟩
    | _ => cases hb
  have hlist : ∀ (ks : List Str) (bs : List Bytes),
      List.Forall₂ (fun k b => (do encode (← e.item k)) = Except.ok b) ks bs →
      ∃ texts : List Str, ks.map e.find = texts.map .str ∧ bs = texts.map utf8Bytes ∧
        texts.length = ks.length := by
    intro ks bs hks
    induction hks with
    | nil => exact ⟨[], rfl, rfl, rfl⟩
    | cons hk _ ih =>
      obtain ⟨s, hs, rfl⟩ := hitem hk
      obtain ⟨texts, h1, rfl, h3⟩ := ih
      exact ⟨s :: texts, by rw [List.map_cons, hs, h1, List.map_cons], rfl, by simp [h3]⟩
  obtain ⟨texts, h1, h2, h3⟩ := hlist boundKeys key hall
  exact ⟨texts, h1, h2, h3⟩

/-! ## Binding -/

/-- Texts without NUL can be told apart where a NUL starts each. -/
theorem flatMap_zero_inj {xs ys : List Bytes} (hlen : xs.length = ys.length)
    (hx : ∀ x ∈ xs, 0 ∉ x) (hy : ∀ y ∈ ys, 0 ∉ y)
    (h : xs.flatMap (0 :: ·) = ys.flatMap (0 :: ·)) : xs = ys := by
  induction xs generalizing ys with
  | nil => exact (List.length_eq_zero_iff.mp hlen.symm).symm
  | cons x xs ih =>
    cases ys with
    | nil => cases hlen
    | cons y ys =>
      obtain ⟨hx0, hxs⟩ := List.forall_mem_cons.mp hx
      obtain ⟨hy0, hys⟩ := List.forall_mem_cons.mp hy
      rw [List.flatMap_cons, List.flatMap_cons, List.cons_append, List.cons_append,
        List.cons.injEq] at h
      have hlen' : xs.length = ys.length := by simpa using hlen
      have hxy : x = y ∧ xs.flatMap (0 :: ·) = ys.flatMap (0 :: ·) := by
        cases xs with
        | nil =>
          obtain rfl := List.length_eq_zero_iff.mp hlen'.symm
          simpa using h.2
        | cons z zs =>
          cases ys with
          | nil => cases hlen'
          | cons w ws =>
            have hsplit := h.2
            rw [List.flatMap_cons, List.flatMap_cons, List.cons_append, List.cons_append] at hsplit
            obtain ⟨hxy, hrest⟩ := append_cons_inj hx0 hy0 hsplit
            refine ⟨hxy, ?_⟩
            rw [List.flatMap_cons, List.flatMap_cons, List.cons_append, List.cons_append, hrest]
      rw [hxy.1, ih hlen' hxs hys hxy.2]

/-- A function that tells the elements of two lists apart tells the lists apart. -/
theorem eq_of_map_eq {α β : Type} {f : α → β} {xs ys : List α}
    (hf : ∀ x ∈ xs, ∀ y ∈ ys, f x = f y → x = y) (h : xs.map f = ys.map f) : xs = ys := by
  induction xs generalizing ys with
  | nil => exact (List.map_eq_nil_iff.mp h.symm).symm
  | cons x xs ih =>
    cases ys with
    | nil => cases h
    | cons y ys =>
      rw [List.map_cons, List.map_cons, List.cons.injEq] at h
      obtain rfl := hf x (List.mem_cons_self ..) y (List.mem_cons_self ..) h.1
      rw [ih (fun a ha b hb => hf a (List.mem_cons_of_mem _ ha) b (List.mem_cons_of_mem _ hb)) h.2]

/-- What `evidence_root` hashes over the sources of a set. -/
def hashed (R : Runtime) (es : Json) : List Bytes :=
  match pinnedKeys (sourcesOf es) with
  | .ok keys => Merkle.inputs leafInput nodeInput R.sha256 id keys
  | .error _ => []

/-- The keys of an accepted set: the encoded tuples of its pinned entries in some
order, each of four texts without NUL. -/
theorem pinnedKeys_accepted {es : Json} {keys : List (List Bytes)}
    (hc : ∀ e ∈ sourcesOf es, (checkEntry R e).1 = [])
    (h : pinnedKeys (sourcesOf es) = .ok keys) :
    (∃ texts : List (List Str), pinnedTuples es = texts.map (·.map .str) ∧
      keys.Perm (texts.map (·.map utf8Bytes))) ∧
    ∀ key ∈ keys, key.length = 4 ∧ ∀ b ∈ key, 0 ∉ b := by
  obtain ⟨ks, hks, h⟩ := bind_ok.mp h
  obtain rfl := Except.ok.inj h
  have hperm := List.perm_insertionSort (· ≤ ·) ks
  have hmem : ∀ e ∈ (sourcesOf es).filter isPinned, (checkEntry R e).1 = [] :=
    fun e he => hc e (List.mem_filter.mp he).1
  have hlist : ∀ (xs : List Json) (ks : List (List Bytes)),
      (∀ e ∈ xs, (checkEntry R e).1 = []) → List.Forall₂ (fun e k => sortKey e = .ok k) xs ks →
      (∃ texts : List (List Str), xs.map boundTuple = texts.map (·.map .str) ∧
        ks = texts.map (·.map utf8Bytes)) ∧ ∀ key ∈ ks, key.length = 4 ∧ ∀ b ∈ key, 0 ∉ b := by
    intro xs ks hxs hall
    induction hall with
    | nil => exact ⟨⟨[], rfl, rfl⟩, nofun⟩
    | @cons e k xs ks hk _ ih =>
      obtain ⟨hclean, hrest⟩ := List.forall_mem_cons.mp hxs
      obtain ⟨texts, htuple, rfl, hlen⟩ := sortKey_ok hk
      obtain ⟨⟨rest, h1, rfl⟩, hkeys⟩ := ih hrest
      refine ⟨⟨texts :: rest, by rw [List.map_cons, htuple, h1, List.map_cons], rfl⟩, ?_⟩
      refine List.forall_mem_cons.mpr ⟨⟨by rw [List.length_map, hlen], ?_⟩, hkeys⟩
      intro b hb
      obtain ⟨s, hs, rfl⟩ := List.mem_map.mp hb
      have hstr : Json.str s ∈ boundTuple e := htuple ▸ List.mem_map_of_mem hs
      obtain ⟨k, hk, hfind⟩ := List.mem_map.mp hstr
      exact zero_notMem_utf8Bytes (noNul_of_checkEntry hclean hk hfind)
  obtain ⟨⟨texts, h1, h2⟩, h3⟩ := hlist _ _ hmem (mapM_ok.mp hks)
  exact ⟨⟨texts, h1, h2 ▸ hperm⟩, fun key hkey => h3 key (hperm.mem_iff.mp hkey)⟩

/-- A leaf never hashes what a node hashes. -/
theorem leafInput_ne_nodeInput (key : List Bytes) (left right : Bytes) :
    leafInput key ≠ nodeInput left right := by
  intro h
  have hlen : leafPrefix.length = nodePrefix.length := by decide
  exact absurd (List.append_inj_left h hlen) (by decide)

/-- Two accepted sets with one root pin the same sources, as often, whatever else
they list and in what order. A root is derived for accepted sets only. -/
theorem root_binds_pinned {es fs : Json} {v w : Verdict} {root : Str}
    (hv : validate R es = .ok v)
    (hvr : v.derived.bind (·.evidenceRoot) = some root)
    (hw : validate R fs = .ok w)
    (hwr : w.derived.bind (·.evidenceRoot) = some root)
    (hlen : ∀ b, (R.sha256 b).length = 32)
    (hinj : ∀ a ∈ hashed R es, ∀ b ∈ hashed R fs, R.sha256 a = R.sha256 b → a = b) :
    (pinnedTuples es).Perm (pinnedTuples fs) := by
  obtain ⟨d, hd, hdr⟩ := Option.bind_eq_some_iff.mp hvr
  obtain ⟨d', hd', hdr'⟩ := Option.bind_eq_some_iff.mp hwr
  obtain ⟨hce, hre⟩ := validate_accepted hv hd
  obtain ⟨hcf, hrf⟩ := validate_accepted hw hd'
  obtain ⟨keys, hkeys, hre⟩ := bind_ok.mp hre
  obtain ⟨keys', hkeys', hrf⟩ := bind_ok.mp hrf
  have hre := (Except.ok.inj hre).trans hdr
  have hrf := (Except.ok.inj hrf).trans hdr'
  obtain ⟨r, hroot, hr⟩ := Option.map_eq_some_iff.mp hre
  obtain ⟨r', hroot', hr'⟩ := Option.map_eq_some_iff.mp hrf
  obtain rfl := hexStr_injective (hr.trans hr'.symm)
  simp only [hashed, hkeys, hkeys'] at hinj
  obtain ⟨t, u, ht, hu, hleaves⟩ := Merkle.leafInputs_eq_of_root_eq leafInput nodeInput R.sha256 id id
    (D := fun b => b.length = 32) (fun _ => rfl) hlen
    (by
      intro x y x' y' hx hx' h
      have hcons := (List.cons.inj (List.append_cancel_left h)).2
      obtain ⟨hleft, hright⟩ := List.append_inj hcons (hx.trans hx'.symm)
      exact ⟨hleft, (List.cons.inj hright).2⟩)
    (fun _ _ _ _ a _ x y _ => leafInput_ne_nodeInput a x y) hinj hroot hroot'
  rw [Merkle.leaves_promote ht, Merkle.leaves_promote hu] at hleaves
  obtain ⟨⟨texts, htexts, hperm⟩, hkey⟩ := pinnedKeys_accepted hce hkeys
  obtain ⟨⟨texts', htexts', hperm'⟩, hkey'⟩ := pinnedKeys_accepted hcf hkeys'
  -- texts without NUL have one reading as a leaf
  have hkk : keys = keys' := by
    refine eq_of_map_eq (fun k hk k' hk' h => ?_) hleaves
    obtain ⟨hk4, hk0⟩ := hkey k hk
    obtain ⟨hk4', hk0'⟩ := hkey' k' hk'
    exact flatMap_zero_inj (hk4.trans hk4'.symm) hk0 hk0' (List.append_cancel_left h)
  have hinjective : Function.Injective (List.map utf8Bytes) :=
    List.map_injective_iff.mpr utf8Bytes_injective
  have htt : texts.Perm texts' :=
    (List.map_perm_map_iff hinjective).mp (hperm.symm.trans (hkk ▸ hperm'))
  rw [htexts, htexts']
  exact htt.map _

/-! ## Two sets to run -/

def samplePinned (url : String) (digit : Char) : Json := object
  [("url", text url), ("snippet_sha256", .str (List.replicate 64 (ofChar digit))),
    ("retrieved_at", text "2026-09-24T12:00:00.000Z"), ("pinned", .bool true),
    ("content_kind", text "snippet")]

def sampleUnpinned : Json := object
  [("url", text "https://d.example/"), ("snippet_sha256", .null),
    ("retrieved_at", text "2026-09-24T12:00:05.000Z"), ("pinned", .bool false),
    ("unpinned_reason", text "no_content_returned")]

def sampleSet (sources : List Json) : Json := object
  [("evidence_set_version", .str version), ("sources", .arr sources)
    , ("evidence_root", match evidenceRoot .sample sources with
      | .ok (some root) => .str root
      | _ => .null)]

def sampleA : Json := samplePinned "https://a.example/x" 'a'

def sampleB : Json := samplePinned "https://b.example/y" 'b'

/-- The order of the sources and an unpinned one do not change what is bound. -/
theorem sampleSet_binds : (pinnedTuples (sampleSet [sampleA, sampleB])).Perm
    (pinnedTuples (sampleSet [sampleB, sampleUnpinned, sampleA])) := by
  obtain ⟨root, hroot⟩ : ∃ root, evidenceRoot .sample [sampleA, sampleB] = .ok (some root) :=
    ⟨_, rfl⟩
  obtain ⟨v, hv, hvr⟩ := map_ok.mp (show (validate .sample (sampleSet [sampleA, sampleB])).map
    (fun v => .ok (v.derived.bind (·.evidenceRoot))) =
      .ok (evidenceRoot .sample [sampleA, sampleB]) by decide +kernel)
  obtain ⟨w, hw, hwr⟩ := map_ok.mp (show
    (validate .sample (sampleSet [sampleB, sampleUnpinned, sampleA])).map
    (fun v => .ok (v.derived.bind (·.evidenceRoot))) =
      .ok (evidenceRoot .sample [sampleA, sampleB]) by decide +kernel)
  exact root_binds_pinned hv (Except.ok.inj (hvr.trans hroot)) hw
    (Except.ok.inj (hwr.trans hroot)) (fun _ => List.length_replicate) (by decide +kernel)

end Preaction.EvidenceSet
