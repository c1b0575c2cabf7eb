import Preaction.Lib.Cursor
import Preaction.Lib.Loop
import Preaction.LiveCheck

/-!
# `erc8309-mesh-sync/check_mesh_sync.py` — enumeration and convergence

A node serves the records of a namespace in pages, linked by cursors. `enumerate_pages`
reads them to the end, and `per_origin` asks of every node whether it serves what every
origin has produced.

The pages and the token of the first one are members of one object, so a cursor can name
the member `start`, which is no page. Whatever else a peer may serve as its cursors, the
loop ends, as each turn takes one of the object's keys (`unseen_lt`), and it ends as it
should (`enumerateFrom_outcome`); at `start` it raises.

Mirroring notes:
- The elements of a set are in the order of their first occurrence; only their number
  is read.
- The objects of `v` are dicts, so that no key is in one of them twice.
-/

namespace Preaction.MeshSync

open Preaction.Py Preaction.Loop Preaction.Cursor Json

/-! ## Enumerating pages -/

inductive Status
  | complete
  | error
  deriving DecidableEq, Repr

def Status.text : Status → Str
  | .complete => lit "COMPLETE"
  | .error => lit "ERROR"

/-- `pages.get(tok)`, none also where that is `None`. -/
def pageAt (pages : List (Str × Json)) (tok : Json) : Option Json :=
  match tok with
  | .str k =>
    match pages.lookup k with
    | some .null => none
    | page => page
  | _ => none

/-- The keys of the object that are not among the tokens seen. -/
def unseen (pages : List (Str × Json)) (seen : List Json) : Nat :=
  pages.countP fun kv => !(Json.str kv.1).pyIn seen

theorem exists_of_pageAt {pages : List (Str × Json)} {tok page : Json}
    (h : pageAt pages tok = some page) : ∃ k, tok = .str k ∧ pages.lookup k = some page := by
  unfold pageAt at h
  split at h
  · next k =>
    split at h
    · cases h
    · exact ⟨k, rfl, h⟩
  · cases h

theorem unseen_lt {pages : List (Str × Json)} {seen : List Json} {tok page : Json}
    (hpage : pageAt pages tok = some page) (hnew : tok.pyIn seen = false) :
    unseen pages (tok :: seen) < unseen pages seen := by
  obtain ⟨k, rfl, hx⟩ := exists_of_pageAt hpage
  obtain ⟨front, back, rfl⟩ := List.append_of_mem (mem_of_lookup hx)
  have hmono (l : List (Str × Json)) : (l.countP fun kv => !(Json.str kv.1).pyIn (.str k :: seen)) ≤
      l.countP fun kv => !(Json.str kv.1).pyIn seen := by
    refine List.countP_mono_left fun kv _ hkv => ?_
    rw [pyIn, List.any_cons, Bool.not_or, Bool.and_eq_true] at hkv
    exact hkv.2
  have hfront := hmono front
  have hback := hmono back
  have hself : (Json.str k).pyIn (.str k :: seen) = true := by
    rw [pyIn, List.any_cons, pySame_refl, Bool.true_or]
  unfold unseen
  rw [List.countP_append, List.countP_append, List.countP_cons, List.countP_cons, hself, hnew]
  simp only [Bool.not_true, Bool.not_false, Bool.false_eq_true, if_true, if_false]
  omega

/-- The loop of `enumerate_pages`. -/
def enumerateFrom (pages : List (Str × Json)) (seen out : List Json) (tok : Json) :
    Except PyError (Status × List Json) := do
  tok.hashable
  if _ : tok.pyIn seen = true then return (.error, out)
  match _ : pageAt pages tok with
  | none => return (.error, out)
  | some page =>
    let records ← (← page.item (lit "records")).iter
    let next ← page.get (lit "cursor")
    if next = .null then return (.complete, out ++ records)
    enumerateFrom pages (tok :: seen) (out ++ records) next
termination_by unseen pages seen
decreasing_by exact unseen_lt ‹_› (Bool.eq_false_iff.mpr ‹_›)

/-- `enumerate_pages(pages)` -/
def enumeratePages (pages : Json) : Except PyError (Status × List Json) := do
  let tok ← pages.item (lit "start")
  match pages with
  | .obj kvs => enumerateFrom kvs [] [] tok
  | _ => throw .attributeError

/-! ## Convergence -/

/-- `set(xs)` -/
def toSet : List Json → Except PyError (List Json)
  | [] => .ok []
  | x :: xs => do
    x.hashable
    let s ← toSet xs
    return if x.pyIn s then s else x :: s

/-- `sorted(set(produced) - set(recs))` -/
def lacking (produced recs : List Json) : Except PyError (List Json) := do
  let produced ← toSet produced
  let recs ← toSet recs
  pySorted (produced.filter fun x => !x.pyIn recs)

/-- `d.items()` -/
def items : Json → Except PyError (List (Str × Json))
  | .obj kvs => .ok kvs
  | _ => .error .attributeError

/-- What a node is missing of what was produced in a namespace. -/
def missingAt (ns : Str) (produced served : Json) : Except PyError (Option Json) := do
  if !(← LiveCheck.containsElem served (.str ns)) then return some (text "namespace_absent")
  let (st, recs) ← enumeratePages (← served.item ns)
  if st ≠ .complete then return some (.str st.text)
  let lack ← lacking (← produced.iter) recs
  return if lack.isEmpty then none else some (.int lack.length)

/-- `missing`, behind the loop over the nodes. -/
def missing (ns : Str) (produced : Json) : List (Str × Json) → Except PyError (List (Str × Json))
  | [] => .ok []
  | (node, served) :: nodes => do
    let here ← missingAt ns produced served
    let rest ← missing ns produced nodes
    return match here with
      | some m => (node, m) :: rest
      | none => rest

/-- One namespace of an origin: the detail and the verdict so far, and what they become. -/
def checkNamespace (v : Json) (o : Str) (acc : List (Str × Json) × Bool) (kv : Str × Json) :
    Except PyError (List (Str × Json) × Bool) := do
  let missing ← missing kv.1 kv.2 (← items (← v.item (lit "nodes")))
  let verdict := if missing.isEmpty then text "CONVERGED" else object [("MISSING", .obj missing)]
  return (setKey (o ++ lit "/" ++ kv.1) verdict acc.1, acc.2 && missing.isEmpty)

/-- `per_origin(v)` -/
def perOrigin (v : Json) : Except PyError (Str × Json) := do
  let (detail, ok) ← (← items (← v.item (lit "origins"))).foldlM
    (fun acc kv => do (← items kv.2).foldlM (checkNamespace v kv.1) acc) ([], true)
  return (if ok then lit "CONVERGED" else lit "NOT_CONVERGED", .obj detail)

/-! ## The documented inputs -/

/-- The object is the page. -/
structure IsPage (x : Json) (p : List Json × Option Str) : Prop where
  records : x.item (lit "records") = .ok (.arr p.1)
  cursor : x.get (lit "cursor") = .ok (match p.2 with
    | none => .null
    | some tok => .str tok)

/-- The object holds the pages of the feed, and the token of the first one. -/
structure IsFeed (f : Feed Str Json) (pages : Json) : Prop where
  start : pages.item (lit "start") = .ok (.str f.start)
  noPage : f.page (lit "start") = none
  page : ∀ k ≠ lit "start", match pages.item k with
    | .ok x => ∃ p, f.page k = some p ∧ IsPage x p
    | .error _ => f.page k = none

/-- Origins with what they have produced in their namespaces, and nodes with the feeds
they serve. -/
structure Mesh where
  origins : List (Str × List (Str × List Json))
  nodes : List (Str × List (Str × Feed Str Json))

/-- The object has these keys, each with a value that `P` relates to its item. -/
def IsDict {α : Type} (P : Json → α → Prop) (x : Json) (xs : List (Str × α)) : Prop :=
  ∃ kvs, x = .obj kvs ∧ List.Forall₂ (fun kv y => kv.1 = y.1 ∧ P kv.2 y.2) kvs xs

/-- The object describes the mesh. -/
structure IsMesh (w : Mesh) (v : Json) : Prop where
  origins : ∃ x, v.item (lit "origins") = .ok x ∧
    IsDict (IsDict fun y produced => y = .arr produced) x w.origins
  nodes : ∃ x, v.item (lit "nodes") = .ok x ∧
    IsDict (IsDict fun pages f => IsFeed f pages) x w.nodes

/-! ## What the loop returns -/

/-- What an enumeration of the feed comes to. -/
inductive Outcome (f : Feed Str Json) : Except PyError (Status × List Json) → Prop
  | complete {records : List Json} (h : Completes f records) (hstart : ¬ Reached f (lit "start")) :
      Outcome f (.ok (.complete, records))
  | error {out : List Json} (h : ¬ ∃ records, Completes f records)
      (hstart : ¬ Reached f (lit "start")) : Outcome f (.ok (.error, out))
  | raises (hstart : Reached f (lit "start")) : Outcome f (.error .typeError)

theorem pyIn_map_str {k : Str} {ks : List Str} :
    (Json.str k).pyIn (ks.map .str) = true ↔ k ∈ ks := by
  rw [pyIn, List.any_map, List.any_eq_true]
  constructor
  · rintro ⟨j, hj, hsame⟩
    obtain rfl := Json.str.inj ((pySame_str _ _).mp hsame)
    exact hj
  · intro hk
    exact ⟨k, hk, pySame_refl _⟩

section Enumerate

variable {f : Feed Str Json} {kvs : List (Str × Json)} (hf : IsFeed f (.obj kvs))

include hf

theorem lookup_start : kvs.lookup (lit "start") = some (.str f.start) := by
  have h := hf.start
  rw [Json.item] at h
  split at h
  · next x hx => rw [hx, Except.ok.inj h]
  · cases h

/-- A token other than `start` has the page that the object has under it. -/
theorem isPage_of_lookup {k : Str} (hk : k ≠ lit "start") {x : Json} (hx : kvs.lookup k = some x) :
    ∃ p, f.page k = some p ∧ IsPage x p := by
  have h := hf.page k hk
  rw [Json.item, hx] at h
  exact h

theorem page_eq_none {k : Str} (hx : pageAt kvs (.str k) = none) :
    k ≠ lit "start" ∧ f.page k = none := by
  have hne : k ≠ lit "start" := by
    rintro rfl
    rw [pageAt, lookup_start hf] at hx
    cases hx
  refine ⟨hne, ?_⟩
  unfold pageAt at hx
  dsimp only at hx
  split at hx
  · next hnull =>
    obtain ⟨p, -, hpage⟩ := isPage_of_lookup hf hne hnull
    cases hpage.records
  · have h := hf.page k hne
    rwa [Json.item, hx] at h

/-- A reader that stops has not come to `start`, unless it stops there. -/
theorem not_reached_start {seen : List Str} {out : List Json} {tok : Str}
    (hv : Visits f seen out tok) (htok : tok ≠ lit "start")
    (hstop : tok ∈ seen ∨ ∀ records u, f.page tok ≠ some (records, some u)) :
    ¬ Reached f (lit "start") := by
  intro hstart
  rcases List.mem_cons.mp (hv.mem_of_reached hstop hstart) with heq | hmem
  · exact htok heq.symm
  · obtain ⟨records, u, hpage, -⟩ := hv.next_of_mem hmem
    rw [hf.noPage] at hpage
    cases hpage

/-- From every state of a reader the loop ends, with what there is to say of the feed. -/
theorem enumerateFrom_outcome {seen : List Str} {out : List Json} {tok : Str}
    (hv : Visits f seen out tok) :
    Outcome f (enumerateFrom kvs (seen.map .str) out (.str tok)) := by
  induction hn : unseen kvs (seen.map .str) using Nat.strongRecOn generalizing seen out tok with
  | ind n ih =>
    rw [enumerateFrom]
    simp only [hashable, ok_bind]
    split
    · next hseen =>
      -- the cursor has been here
      have hmem := pyIn_map_str.mp hseen
      have htok : tok ≠ lit "start" := by
        rintro rfl
        obtain ⟨records, u, hpage, -⟩ := hv.next_of_mem hmem
        rw [hf.noPage] at hpage
        cases hpage
      exact .error (hv.not_completes (Or.inl hmem)) (not_reached_start hf hv htok (Or.inl hmem))
    · next hseen =>
      have hnew : tok ∉ seen := fun hmem => hseen (pyIn_map_str.mpr hmem)
      split
      · next hpage =>
        obtain ⟨htok, hnone⟩ := page_eq_none hf hpage
        refine .error (hv.not_completes (Or.inr hnone)) (not_reached_start hf hv htok (Or.inr ?_))
        intro records u hsome
        rw [hnone] at hsome
        cases hsome
      · next x hpage =>
        obtain ⟨_, hk, hx⟩ := exists_of_pageAt hpage
        obtain rfl := Json.str.inj hk
        -- the member `start` is no page, though it is looked up as one
        by_cases htok : tok = lit "start"
        · subst htok
          obtain rfl := Option.some.inj ((lookup_start hf).symm.trans hx)
          exact .raises hv.reached
        · obtain ⟨⟨records, next⟩, hsome, hrecords, hcursor⟩ := isPage_of_lookup hf htok hx
          rw [hrecords, ok_bind, Json.iter, ok_bind, hcursor, ok_bind]
          cases next with
          | none =>
            refine .complete (hv.completes hnew hsome) (not_reached_start hf hv htok (Or.inr ?_))
            intro records' u hsome'
            rw [hsome] at hsome'
            cases hsome'
          | some next =>
            rw [if_neg Json.noConfusion]
            exact ih _ (hn ▸ unseen_lt hpage (Bool.eq_false_iff.mpr hseen)) (hv.next hnew hsome) rfl

end Enumerate

theorem enumeratePages_outcome {f : Feed Str Json} {pages : Json} (hf : IsFeed f pages) :
    Outcome f (enumeratePages pages) := by
  have hstart := hf.start
  unfold enumeratePages
  rw [hstart, ok_bind]
  cases pages with
  | obj kvs => exact enumerateFrom_outcome hf .start
  | _ => cases hstart

/-- The answer that is due: the records along the chain of cursors where it comes to a
last page, and an error otherwise. -/
structure Enumerated (f : Feed Str Json) (answer : Except PyError (Status × List Json)) :
    Prop where
  complete : ∀ records, Completes f records → answer = .ok (.complete, records)
  error : (¬ ∃ records, Completes f records) → ∃ out, answer = .ok (.error, out)

theorem enumerated_iff {f : Feed Str Json} {pages : Json} (hf : IsFeed f pages) :
    Enumerated f (enumeratePages pages) ↔ ¬ Reached f (lit "start") := by
  have houtcome := enumeratePages_outcome hf
  generalize enumeratePages pages = answer at houtcome
  cases houtcome with
  | complete h hstart =>
    refine iff_of_true ⟨fun records hrecords => ?_, fun hno => absurd ⟨_, h⟩ hno⟩ hstart
    rw [h.unique hrecords]
  | error h hstart =>
    exact iff_of_true ⟨fun records hrecords => absurd ⟨_, hrecords⟩ h, fun _ => ⟨_, rfl⟩⟩ hstart
  | raises hstart =>
    refine iff_of_false (fun hanswer => ?_) (not_not.mpr hstart)
    by_cases hcompletes : ∃ records, Completes f records
    · obtain ⟨records, hrecords⟩ := hcompletes
      cases hanswer.complete records hrecords
    · obtain ⟨out, hout⟩ := hanswer.error hcompletes
      cases hout

theorem complete_iff {f : Feed Str Json} {pages : Json} (hf : IsFeed f pages)
    {records : List Json} :
    enumeratePages pages = .ok (.complete, records) ↔ Completes f records := by
  have houtcome := enumeratePages_outcome hf
  generalize enumeratePages pages = answer at houtcome
  constructor
  · rintro rfl
    cases houtcome with
    | complete h _ => exact h
  · intro hrecords
    cases houtcome with
    | complete h _ => rw [h.unique hrecords]
    | error h _ => exact absurd ⟨_, hrecords⟩ h
    | raises hstart =>
      obtain ⟨p, hp⟩ := hrecords.page hstart
      rw [hf.noPage] at hp
      cases hp

/-! ## What a node is missing -/

/-- A set has the elements it was made of, and they can be hashed. -/
theorem toSet_spec {xs s : List Json} (h : toSet xs = .ok s) :
    (∀ x ∈ xs, x.hashable = .ok ()) ∧ (∀ x ∈ xs, x.pyIn s = true) ∧ ∀ x ∈ s, x ∈ xs := by
  induction xs generalizing s with
  | nil =>
    obtain rfl := Except.ok.inj h
    exact ⟨fun x hx => absurd hx List.not_mem_nil, fun x hx => absurd hx List.not_mem_nil,
      fun x hx => absurd hx List.not_mem_nil⟩
  | cons y xs ih =>
    obtain ⟨⟨⟩, hy, h⟩ := bind_ok.mp h
    obtain ⟨s, hs, h⟩ := bind_ok.mp h
    obtain ⟨hhash, hin, hsub⟩ := ih hs
    obtain rfl := Except.ok.inj h
    refine ⟨List.forall_mem_cons.mpr ⟨hy, hhash⟩, ?_, ?_⟩
    · refine List.forall_mem_cons.mpr ⟨?_, fun x hx => ?_⟩
      · split
        · next hmem => exact hmem
        · rw [pyIn, List.any_cons, pySame_refl, Bool.true_or]
      · split
        · exact hin x hx
        · rw [pyIn, List.any_cons, Bool.or_eq_true]
          exact Or.inr (hin x hx)
    · intro x hx
      split at hx
      · exact List.mem_cons_of_mem _ (hsub x hx)
      · rcases List.mem_cons.mp hx with rfl | hx
        · exact List.mem_cons_self
        · exact List.mem_cons_of_mem _ (hsub x hx)

theorem toSet_ok {xs : List Json} (h : ∀ x ∈ xs, x.hashable = .ok ()) :
    ∃ s, toSet xs = .ok s := by
  induction xs with
  | nil => exact ⟨[], rfl⟩
  | cons x xs ih =>
    obtain ⟨hx, hxs⟩ := List.forall_mem_cons.mp h
    obtain ⟨s, hs⟩ := ih hxs
    rw [toSet, hx, ok_bind, hs]
    exact ⟨_, rfl⟩

theorem hashable_normWith (a : Json) : (normWith pyLeaf a).hashable = a.hashable := by
  cases a with
  | float x =>
    change (pyLeaf (.float x)).hashable = .ok ()
    rw [pyLeaf]
    cases x.toInt? <;> rfl
  | _ => rfl

/-- Equal values are hashed alike. -/
theorem hashable_of_pySame {a b : Json} (h : pySame a b = true) : a.hashable = b.hashable := by
  rw [← hashable_normWith a, pySame_iff.mp h, hashable_normWith]

/-- What is in a set made of some elements is in the elements. -/
theorem pyIn_of_toSet {xs s : List Json} (h : toSet xs = .ok s) {a : Json} :
    a.pyIn s = true ↔ a.pyIn xs = true := by
  obtain ⟨-, hin, hsub⟩ := toSet_spec h
  rw [pyIn, pyIn, List.any_eq_true, List.any_eq_true]
  constructor
  · rintro ⟨x, hx, hsame⟩
    exact ⟨x, hsub x hx, hsame⟩
  · rintro ⟨x, hx, hsame⟩
    obtain ⟨y, hy, hsame'⟩ := List.any_eq_true.mp (hin x hx)
    exact ⟨y, hy, pySame_trans hsame hsame'⟩

theorem pyInsert_ne_nil {x : Json} {xs ys : List Json} (h : pyInsert x xs = .ok ys) : ys ≠ [] := by
  cases xs with
  | nil =>
    obtain rfl := Except.ok.inj h
    exact List.cons_ne_nil _ _
  | cons z zs =>
    obtain ⟨b, -, h⟩ := bind_ok.mp h
    split at h
    · obtain rfl := Except.ok.inj h
      exact List.cons_ne_nil _ _
    · obtain ⟨_, -, h⟩ := bind_ok.mp h
      obtain rfl := Except.ok.inj h
      exact List.cons_ne_nil _ _

/-- Only nothing is sorted into nothing. -/
theorem pySorted_eq_nil {xs : List Json} : pySorted xs = .ok [] ↔ xs = [] := by
  constructor
  · intro h
    cases hxs : xs.reverse with
    | nil => exact List.reverse_eq_nil_iff.mp hxs
    | cons x rest =>
      rw [List.reverse_eq_iff, List.reverse_cons] at hxs
      rw [hxs, pySorted, List.foldlM_append] at h
      obtain ⟨ys, -, h⟩ := bind_ok.mp h
      obtain ⟨zs, hzs, h⟩ := bind_ok.mp h
      obtain rfl := Except.ok.inj h
      exact absurd rfl (pyInsert_ne_nil hzs)
  · rintro rfl
    rfl

/-- Nothing is lacking just where every id is in the records, and those can be hashed. -/
theorem lacking_eq_nil {produced recs : List Json} :
    lacking produced recs = .ok [] ↔
      (∀ id ∈ produced, id.pyIn recs = true) ∧ ∀ r ∈ recs, r.hashable = .ok () := by
  constructor
  · intro h
    obtain ⟨p, hp, h⟩ := bind_ok.mp h
    obtain ⟨s, hs, h⟩ := bind_ok.mp h
    have hnil := pySorted_eq_nil.mp h
    refine ⟨fun id hid => ?_, (toSet_spec hs).1⟩
    obtain ⟨x, hx, hsame⟩ := List.any_eq_true.mp ((toSet_spec hp).2.1 id hid)
    have hin : x.pyIn s = true := by
      have := List.filter_eq_nil_iff.mp hnil x hx
      simpa using this
    obtain ⟨y, hy, hsame'⟩ := List.any_eq_true.mp ((pyIn_of_toSet hs).mp hin)
    exact List.any_eq_true.mpr ⟨y, hy, pySame_trans hsame hsame'⟩
  · rintro ⟨hin, hhash⟩
    have hproduced : ∀ id ∈ produced, id.hashable = .ok () := by
      intro id hid
      obtain ⟨x, hx, hsame⟩ := List.any_eq_true.mp (hin id hid)
      rw [hashable_of_pySame hsame, hhash x hx]
    obtain ⟨p, hp⟩ := toSet_ok hproduced
    obtain ⟨s, hs⟩ := toSet_ok hhash
    rw [lacking, hp, ok_bind, hs, ok_bind, pySorted_eq_nil, List.filter_eq_nil_iff]
    intro x hx
    rw [(pyIn_of_toSet hs).mpr (hin x ((toSet_spec hp).2.2 x hx))]
    exact Bool.false_ne_true

/-! ## Convergence -/

/-- The dict has the items of the list under its keys. -/
theorem IsDict.lookup {α : Type} {P : Json → α → Prop} {kvs : List (Str × Json)}
    {xs : List (Str × α)} (h : IsDict P (.obj kvs) xs) (k : Str) :
    (kvs.lookup k = none ∧ xs.lookup k = none) ∨
      ∃ x y, kvs.lookup k = some x ∧ xs.lookup k = some y ∧ P x y := by
  obtain ⟨_, hkvs, hall⟩ := h
  obtain rfl := Json.obj.inj hkvs
  exact lookup_forall₂ hall k

/-- The node serves the namespace to its end, with all that was produced in it. -/
def Holds (feeds : List (Str × Feed Str Json)) (ns : Str) (produced : List Json) : Prop :=
  ∃ f records, feeds.lookup ns = some f ∧ Completes f records ∧
    ∀ id ∈ produced, id.pyIn records = true

/-- The records that the node serves of the namespace can be hashed. -/
def Hashable (feeds : List (Str × Feed Str Json)) (ns : Str) : Prop :=
  ∀ f records, feeds.lookup ns = some f → Completes f records →
    ∀ r ∈ records, r.hashable = .ok ()

theorem containsElem_obj (kvs : List (Str × Json)) (k : Str) :
    LiveCheck.containsElem (.obj kvs) (.str k) = .ok (kvs.lookup k).isSome := rfl

/-- Nothing is missing at a node that holds what was produced and serves what can be
hashed. -/
theorem missingAt_eq_none {ns : Str} {produced : List Json} {served : Json}
    {feeds : List (Str × Feed Str Json)} (h : IsDict (fun pages f => IsFeed f pages) served feeds) :
    missingAt ns (.arr produced) served = .ok none ↔
      Holds feeds ns produced ∧ Hashable feeds ns := by
  obtain ⟨kvs, rfl, -⟩ := id h
  unfold missingAt
  rcases h.lookup ns with ⟨hkvs, hfeeds⟩ | ⟨pages, f, hkvs, hfeeds, hf⟩
  · rw [containsElem_obj, hkvs, Option.isSome_none, ok_bind]
    refine iff_of_false (fun hnone => by cases hnone) ?_
    rintro ⟨⟨f, records, hf, -⟩, -⟩
    rw [hfeeds] at hf
    cases hf
  · rw [containsElem_obj, hkvs, Option.isSome_some, ok_bind, if_neg (by decide), Json.item, hkvs,
      ok_bind]
    constructor
    · intro hnone
      obtain ⟨⟨st, records⟩, henum, hnone⟩ := bind_ok.mp hnone
      dsimp only at hnone
      cases st with
      | error => cases hnone
      | complete =>
        have hcompletes := (complete_iff hf).mp henum
        rw [if_neg (by decide), Json.iter, ok_bind] at hnone
        obtain ⟨lack, hlack, hnone⟩ := bind_ok.mp hnone
        cases lack with
        | cons x lack => cases hnone
        | nil =>
          obtain ⟨hin, hhash⟩ := lacking_eq_nil.mp hlack
          refine ⟨⟨f, records, hfeeds, hcompletes, hin⟩, fun g records' hg hrecords' => ?_⟩
          obtain rfl := Option.some.inj (hfeeds.symm.trans hg)
          rwa [← hcompletes.unique hrecords']
    · rintro ⟨⟨g, records, hg, hcompletes, hin⟩, hhash⟩
      obtain rfl := Option.some.inj (hfeeds.symm.trans hg)
      rw [(complete_iff hf).mpr hcompletes, ok_bind]
      dsimp only
      rw [if_neg (by decide), Json.iter, ok_bind,
        lacking_eq_nil.mpr ⟨hin, hhash f records hfeeds hcompletes⟩]
      rfl

theorem missing_eq_nil {ns : Str} {produced : Json} {nodes : List (Str × Json)} :
    missing ns produced nodes = .ok [] ↔
      ∀ node ∈ nodes, missingAt ns produced node.2 = .ok none := by
  induction nodes with
  | nil => exact iff_of_true rfl fun node hnode => absurd hnode List.not_mem_nil
  | cons node nodes ih =>
    rw [List.forall_mem_cons, ← ih, missing]
    constructor
    · intro h
      obtain ⟨here, hhere, h⟩ := bind_ok.mp h
      obtain ⟨rest, hrest, h⟩ := bind_ok.mp h
      cases here with
      | some m => cases h
      | none =>
        obtain rfl := Except.ok.inj h
        exact ⟨hhere, hrest⟩
    · rintro ⟨hhere, hrest⟩
      rw [hhere, ok_bind, hrest]
      rfl

/-- Every node holds what every origin has produced. -/
def Mesh.Converged (w : Mesh) : Prop :=
  ∀ o ∈ w.origins, ∀ n ∈ o.2, ∀ node ∈ w.nodes, Holds node.2 n.1 n.2

/-- What the nodes serve of the namespaces of the origins can be hashed. -/
def Mesh.AllHashable (w : Mesh) : Prop :=
  ∀ o ∈ w.origins, ∀ n ∈ o.2, ∀ node ∈ w.nodes, Hashable node.2 n.1

/-- The verdict is CONVERGED. -/
def SaysConverged (answer : Except PyError (Str × Json)) : Prop :=
  ∃ detail, answer = .ok (lit "CONVERGED", detail)

theorem forall₂_mem_iff {α β : Type} {r : α → β → Prop} {xs : List α} {ys : List β}
    (h : List.Forall₂ r xs ys) {P : α → Prop} {Q : β → Prop} (hPQ : ∀ x y, r x y → (P x ↔ Q y)) :
    (∀ x ∈ xs, P x) ↔ ∀ y ∈ ys, Q y := by
  induction h with
  | nil =>
    exact iff_of_true (fun x hx => absurd hx List.not_mem_nil)
      (fun y hy => absurd hy List.not_mem_nil)
  | cons hxy _ ih => rw [List.forall_mem_cons, List.forall_mem_cons, hPQ _ _ hxy, ih]

section Loops

variable {v : Json} {nodes : List (Str × Json)} (hv : v.item (lit "nodes") = .ok (.obj nodes))

include hv

theorem checkNamespace_iff {o : Str} (acc : List (Str × Json) × Bool) (kv : Str × Json) :
    (∃ acc', checkNamespace v o acc kv = .ok acc' ∧ acc'.2 = true) ↔
      acc.2 = true ∧ missing kv.1 kv.2 nodes = .ok [] := by
  unfold checkNamespace
  rw [hv, ok_bind, items, ok_bind]
  constructor
  · rintro ⟨acc', h, hok⟩
    obtain ⟨m, hm, h⟩ := bind_ok.mp h
    obtain rfl := Except.ok.inj h
    obtain ⟨hacc, hempty⟩ := (Bool.and_eq_true _ _).mp hok
    rw [hm, List.isEmpty_iff.mp hempty]
    exact ⟨hacc, rfl⟩
  · rintro ⟨hacc, hm⟩
    rw [hm, ok_bind]
    exact ⟨_, rfl, by rw [hacc]; rfl⟩

theorem origin_iff (acc : List (Str × Json) × Bool) (kv : Str × Json) :
    (∃ acc', (do (← items kv.2).foldlM (checkNamespace v kv.1) acc) = Except.ok acc' ∧
      acc'.2 = true) ↔
      acc.2 = true ∧ ∃ byNs, kv.2 = .obj byNs ∧ ∀ n ∈ byNs, missing n.1 n.2 nodes = .ok [] := by
  have hloop (byNs : List (Str × Json)) :
      (∃ acc', byNs.foldlM (checkNamespace v kv.1) acc = .ok acc' ∧ acc'.2 = true) ↔
        acc.2 = true ∧ ∀ n ∈ byNs, missing n.1 n.2 nodes = .ok [] :=
    foldlM_iff (checkNamespace_iff hv)
  constructor
  · rintro ⟨acc', h, hok⟩
    obtain ⟨byNs, hitems, h⟩ := bind_ok.mp h
    obtain ⟨hacc, hall⟩ := (hloop byNs).mp ⟨acc', h, hok⟩
    refine ⟨hacc, byNs, ?_, hall⟩
    unfold items at hitems
    split at hitems
    · next heq => rw [heq, Except.ok.inj hitems]
    · cases hitems
  · rintro ⟨hacc, byNs, hobj, hall⟩
    rw [hobj, items, ok_bind]
    exact (hloop byNs).mpr ⟨hacc, hall⟩

theorem saysConverged_loops {origins : List (Str × Json)}
    (ho : v.item (lit "origins") = .ok (.obj origins)) :
    SaysConverged (perOrigin v) ↔ ∀ kv ∈ origins, ∃ byNs, kv.2 = .obj byNs ∧
      ∀ n ∈ byNs, missing n.1 n.2 nodes = .ok [] := by
  have hverdict : SaysConverged (perOrigin v) ↔ ∃ acc, origins.foldlM
      (fun acc kv => do (← items kv.2).foldlM (checkNamespace v kv.1) acc) ([], true) =
        Except.ok acc ∧ acc.2 = true := by
    unfold SaysConverged perOrigin
    rw [ho, ok_bind, items, ok_bind]
    constructor
    · rintro ⟨detail, h⟩
      obtain ⟨⟨d, ok⟩, hacc, h⟩ := bind_ok.mp h
      refine ⟨(d, ok), hacc, ?_⟩
      cases ok with
      | true => rfl
      | false =>
        have hlit := (Prod.mk.inj (Except.ok.inj h)).1
        exact absurd (lit_injective hlit) (by decide)
    · rintro ⟨⟨d, ok⟩, hacc, hok⟩
      obtain rfl : ok = true := hok
      rw [hacc, ok_bind]
      exact ⟨_, rfl⟩
  rw [hverdict, foldlM_iff (origin_iff hv)]
  exact and_iff_right rfl

end Loops

/-- The verdict is CONVERGED where every node holds what was produced, and nothing that
it serves raises. -/
theorem saysConverged_iff {w : Mesh} {v : Json} (hw : IsMesh w v) :
    SaysConverged (perOrigin v) ↔ w.Converged ∧ w.AllHashable := by
  obtain ⟨_, ho, origins, rfl, horigins⟩ := hw.origins
  obtain ⟨_, hn, nodes, rfl, hnodes⟩ := hw.nodes
  have hall (ns : Str) (produced : List Json) : missing ns (.arr produced) nodes = .ok [] ↔
      ∀ node ∈ w.nodes, Holds node.2 ns produced ∧ Hashable node.2 ns := by
    rw [missing_eq_nil]
    exact forall₂_mem_iff hnodes fun kv node h => missingAt_eq_none h.2
  -- the verdict asks by origin and namespace, convergence by node
  have horigin : (∀ kv ∈ origins, ∃ byNs, kv.2 = .obj byNs ∧
      ∀ n ∈ byNs, missing n.1 n.2 nodes = .ok []) ↔
      ∀ o ∈ w.origins, ∀ n ∈ o.2, ∀ node ∈ w.nodes, Holds node.2 n.1 n.2 ∧ Hashable node.2 n.1 := by
    refine forall₂_mem_iff horigins fun kv o h => ?_
    obtain ⟨-, byNs, hobj, hbyNs⟩ := h
    have hns : (∀ n ∈ byNs, missing n.1 n.2 nodes = .ok []) ↔
        ∀ n ∈ o.2, ∀ node ∈ w.nodes, Holds node.2 n.1 n.2 ∧ Hashable node.2 n.1 := by
      refine forall₂_mem_iff hbyNs fun n m hnm => ?_
      rw [hnm.1, hnm.2]
      exact hall m.1 m.2
    rw [← hns]
    constructor
    · rintro ⟨byNs', hobj', hmissing⟩
      obtain rfl := Json.obj.inj (hobj.symm.trans hobj')
      exact hmissing
    · intro hmissing
      exact ⟨byNs, hobj, hmissing⟩
  rw [saysConverged_loops hn ho, horigin]
  constructor
  · intro h
    exact ⟨fun o ho n hn node hnode => (h o ho n hn node hnode).1,
      fun o ho n hn node hnode => (h o ho n hn node hnode).2⟩
  · rintro ⟨hconverged, hhashable⟩ o ho n hn node hnode
    exact ⟨hconverged o ho n hn node hnode, hhashable o ho n hn node hnode⟩

/-- Pages are enumerated as they should be exactly where no cursor on the way names the
member `start`; and the verdict is CONVERGED exactly for what has converged, but for what
has converged and serves a record that cannot be hashed. -/
theorem meshSync_iff {f : Feed Str Json} {pages : Json} (hf : IsFeed f pages) {w : Mesh} {v : Json}
    (hw : IsMesh w v) :
    (Enumerated f (enumeratePages pages) ↔ ¬ Reached f (lit "start")) ∧
    ((SaysConverged (perOrigin v) ↔ w.Converged) ↔ (w.Converged → w.AllHashable)) := by
  refine ⟨enumerated_iff hf, ?_⟩
  rw [saysConverged_iff hw]
  constructor
  · intro h hconverged
    exact (h.mpr hconverged).2
  · intro h
    exact ⟨fun hboth => hboth.1, fun hconverged => ⟨hconverged, h hconverged⟩⟩

/-! ## One page, and none -/

/-- A feed of one page. -/
def onePageFeed (records : List Json) : Feed Str Json where
  start := lit "p"
  page k := if k = lit "p" then some (records, none) else none

def onePage (records : List Json) : Json :=
  object [("start", text "p"), ("p", object [("records", .arr records), ("cursor", .null)])]

theorem onePage_isFeed (records : List Json) : IsFeed (onePageFeed records) (onePage records) := by
  have hlookup (k : Str) (hk : k ≠ lit "start") : (onePage records).item k =
      if k = lit "p" then .ok (object [("records", .arr records), ("cursor", .null)])
      else .error .keyError := by
    unfold onePage object
    rw [List.map_cons, List.map_singleton, Json.item, lookup_cons_if, if_neg hk, lookup_cons_if]
    by_cases hp : k = lit "p"
    · rw [if_pos hp, if_pos hp]
    · rw [if_neg hp, if_neg hp]
      rfl
  have hpage (k : Str) : (onePageFeed records).page k =
      if k = lit "p" then some (records, none) else none := rfl
  refine ⟨item_object_cons .., (hpage _).trans (if_neg (by decide)), fun k hk => ?_⟩
  rw [hlookup k hk, hpage]
  by_cases hp : k = lit "p"
  · rw [if_pos hp, if_pos hp]
    refine ⟨_, rfl, item_object_cons .., get_of_item ?_⟩
    rw [item_object_cons_ne (by decide), item_object_cons]
  · rw [if_neg hp, if_neg hp]

theorem onePage_completes (records : List Json) : Completes (onePageFeed records) records := by
  have hpage : (onePageFeed records).page (lit "p") = some (records, none) := rfl
  exact ⟨[lit "p"], .last hpage, List.nodup_singleton _⟩

/-- One origin, and one node with one page. -/
def oneMesh (records : List Json) : Mesh where
  origins := [(lit "o", [(lit "ns", [text "a"])])]
  nodes := [(lit "n", [(lit "ns", onePageFeed records)])]

def oneVector (records : List Json) : Json :=
  object [("origins", object [("o", object [("ns", .arr [text "a"])])]),
    ("nodes", object [("n", object [("ns", onePage records)])])]

theorem oneVector_isMesh (records : List Json) : IsMesh (oneMesh records) (oneVector records) := by
  unfold oneVector
  constructor
  · exact ⟨_, item_object_cons .., _, rfl, .cons ⟨rfl, _, rfl, .cons ⟨rfl, rfl⟩ .nil⟩ .nil⟩
  · refine ⟨object [("n", object [("ns", onePage records)])], ?_, _, rfl,
      .cons ⟨rfl, _, rfl, .cons ⟨rfl, onePage_isFeed records⟩ .nil⟩ .nil⟩
    rw [item_object_cons_ne (by decide), item_object_cons]

/-- A feed without pages, whose start token is `start`. -/
def startFeed : Feed Str Json := ⟨lit "start", fun _ => none⟩

def startPages : Json := object [("start", text "start")]

theorem startPages_isFeed : IsFeed startFeed startPages := by
  unfold startPages
  refine ⟨item_object_cons .., rfl, fun k hk => ?_⟩
  have herror : (object [("start", text "start")]).item k = .error .keyError := by
    unfold object
    rw [List.map_singleton, Json.item, lookup_cons_if, if_neg hk]
    rfl
  rw [herror]
  rfl

/-- A mesh of one page that has converged. -/
theorem onePage_converged :
    Enumerated (onePageFeed [text "a"]) (enumeratePages (onePage [text "a"])) ∧
    (SaysConverged (perOrigin (oneVector [text "a"])) ↔ (oneMesh [text "a"]).Converged) := by
  obtain ⟨henum, hverdict⟩ := meshSync_iff (onePage_isFeed [text "a"]) (oneVector_isMesh [text "a"])
  have hlast {k u : Str} {r : List Json} :
      (onePageFeed [text "a"]).page k ≠ some (r, some u) := by
    intro h
    dsimp only [onePageFeed] at h
    split at h
    · cases h
    · cases h
  refine ⟨henum.mpr fun hstart => ?_, hverdict.mpr fun _ o ho n hn node hnode f records hf
    hrecords => ?_⟩
  · cases hstart with
    | next _ h => exact hlast h
  · obtain rfl := List.mem_singleton.mp ho
    obtain rfl := List.mem_singleton.mp hn
    obtain rfl := List.mem_singleton.mp hnode
    dsimp only at hf
    rw [lookup_cons_if, if_pos rfl] at hf
    obtain rfl := Option.some.inj hf
    obtain rfl := hrecords.unique (onePage_completes _)
    intro r hr
    obtain rfl := List.mem_singleton.mp hr
    rfl

/-- A feed whose start token names the member `start` raises, and so does a mesh that has
converged with an object among its records. -/
theorem startPages_raises :
    (IsFeed startFeed startPages ∧ ¬ Enumerated startFeed (enumeratePages startPages) ∧
      enumeratePages startPages = .error .typeError) ∧
    IsMesh (oneMesh [.obj [], text "a"]) (oneVector [.obj [], text "a"]) ∧
      (oneMesh [.obj [], text "a"]).Converged ∧
      perOrigin (oneVector [.obj [], text "a"]) = .error .typeError := by
  have hraises : enumeratePages startPages = .error .typeError := by decide +kernel
  refine ⟨⟨startPages_isFeed, fun h => ?_, hraises⟩, oneVector_isMesh _, ?_, by decide +kernel⟩
  · exact (enumerated_iff startPages_isFeed).mp h .start
  · intro o ho n hn node hnode
    obtain rfl := List.mem_singleton.mp ho
    obtain rfl := List.mem_singleton.mp hn
    obtain rfl := List.mem_singleton.mp hnode
    refine ⟨_, _, ?_, onePage_completes [.obj [], text "a"], fun id hid => ?_⟩
    · dsimp only
      rw [lookup_cons_if, if_pos rfl]
    · obtain rfl := List.mem_singleton.mp hid
      decide

end Preaction.MeshSync
