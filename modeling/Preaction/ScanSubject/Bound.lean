import Mathlib.Data.List.Infix
import Mathlib.Data.List.Sort
import Preaction.Lib.Loop
import Preaction.ScanSubject

/-!
# `scan-subject-binding/check.py` — what a clean scan says of the consumed documents

`subject_bound` says `NO_FINDING` when a clean scan is bound to what the decision
consumed: it names the consumed documents themselves, or the corpus they come from, of
which every one has to be proved to be a part. Where the scanner is the published one it is run again.

Over the corpus that run is carried to the consumed documents by their leaf hashes. A
proof comes with an index, a size and a path of the prover's choice; none of them matters,
since whatever the loop joins on its way to the root is a value of the tree
(`part_of_loop`). So a proved leaf hash is that of a corpus document. What it says of the document is one
text of bytes, `id`, NUL and `content`, and a NUL in the `id` leaves open where the content
starts: `subjectBound_iff` is the exact extent.

Mirroring notes:
- An index and a size are any JSON values; `verify_inclusion` raises what Python's
  operators raise on them.
- `mth` of an empty list recurses without end, and Python raises `RecursionError`.
- The scanner is the `toy_scan` of the file of vectors.
-/

namespace Preaction.ScanSubject

open Preaction.Py Preaction.Loop Json Merkle

/-- What the checker raises. -/
inductive Raised
  | py (e : PyError)
  | recursion
  deriving DecidableEq, Repr

/-- What Python itself raises. -/
def lift {α : Type} : Except PyError α → Except Raised α
  | .ok a => .ok a
  | .error e => .error (.py e)

/-- `TOY`: the pattern of the published scanner and its version. -/
structure Toy where
  pattern : Str
  scannerVersion : Json

section Model

variable (R : Runtime) (toy : Toy)

/-! ## Documents -/

/-- `x.encode()` -/
def encode : Json → Except PyError Bytes
  | .str s => utf8 s
  | _ => .error .attributeError

/-- What `leaf` hashes. -/
def docInput (d : Json) : Except PyError Bytes := do
  let id ← encode (← d.item (lit "id"))
  let content ← encode (← d.item (lit "content"))
  return 0 :: (id ++ 0 :: content)

/-- `leaf(d)` -/
def leaf (d : Json) : Except PyError Bytes := return R.sha256 (← docInput d)

/-- `root(docs)` -/
def root (docs : Json) : Except Raised Str := do
  let leaves ← lift (do (← docs.iter).mapM (leaf R))
  match mth R (leaves.insertionSort (· ≤ ·)) with
  | none => .error .recursion
  | some r => return digestText r

/-- `TOY["pattern"] in d["content"].lower()` -/
def finds (d : Json) : Except PyError Bool := do
  match ← d.item (lit "content") with
  | .str s => return decide (toy.pattern <:+: R.lower s)
  | _ => .error .attributeError

/-- The loop of `toy_scan`. -/
def toyScanAux : List Json → Except PyError (List Json)
  | [] => .ok []
  | d :: ds => do
    if ← finds R toy d then
      let id ← d.item (lit "id")
      return id :: (← toyScanAux ds)
    else toyScanAux ds

/-- `toy_scan(docs)` -/
def toyScan (docs : Json) : Except PyError (List Json) := do toyScanAux R toy (← docs.iter)

/-! ## Inclusion proofs -/

/-- `while fn & 1 == 0 and fn != 0: fn >>= 1; sn >>= 1` -/
def dropZerosInt (fn sn : Int) : Int × Int :=
  if fn % 2 = 0 ∧ fn ≠ 0 then dropZerosInt (fn / 2) (sn / 2) else (fn, sn)
termination_by fn.natAbs

/-- What the body of the loop hashes. -/
def stepInputInt (fn sn : Int) (r p : Bytes) : Bytes :=
  if fn % 2 = 1 ∨ fn = sn then nodeInput p r else nodeInput r p

/-- The two counters after the body of the loop. -/
def stepIndexInt (fn sn : Int) : Int × Int :=
  let shifted := if fn % 2 = 0 ∧ fn = sn then dropZerosInt fn sn else (fn, sn)
  (shifted.1 / 2, shifted.2 / 2)

/-- The loop over the path, with `sn` and `r` after it; none where it returns `False`. -/
def inclusionLoopInt (fn sn : Int) (r : Bytes) : List Bytes → Option (Int × Bytes)
  | [] => some (sn, r)
  | p :: ps =>
    if sn = 0 then none
    else inclusionLoopInt (stepIndexInt fn sn).1 (stepIndexInt fn sn).2
      (R.sha256 (stepInputInt fn sn r p)) ps

/-- Everything that the loop hashes. -/
def loopInputsInt (fn sn : Int) (r : Bytes) : List Bytes → List Bytes
  | [] => []
  | p :: ps => stepInputInt fn sn r p ::
      loopInputsInt (stepIndexInt fn sn).1 (stepIndexInt fn sn).2
        (R.sha256 (stepInputInt fn sn r p)) ps

/-- The integer of an `int`, of which `bool` is a kind. -/
def asInt? : Json → Option Int
  | .int n => some n
  | .bool b => some (if b then 1 else 0)
  | _ => none

/-- The number is 1. -/
def isOne (x : Json) : Bool := x.pyEq (.int 1)

/-- `verify_inclusion(lf, index, size, path, want_root)`. A `float` goes through as long as
no element of the path is reached. -/
def verifyInclusionAny (lf : Bytes) (index size : Json) (path : List Bytes) (wantRoot : Str) :
    Except PyError Bool := do
  if ← pyGe index size then return false
  match asInt? index, asInt? size with
  | some i, some n =>
    match inclusionLoopInt R i (n - 1) lf path with
    | none => return false
    | some (sn, r) => return sn == 0 && digestText r == wantRoot
  | _, _ =>
    if (num? size).isNone then .error .typeError
    else if path.isEmpty then return isOne size && digestText lf == wantRoot
    else if isOne size then return false
    else .error .typeError

/-- What is read of an element of `inclusion_proofs`. -/
structure Inclusion where
  leaf : Str
  leafBytes : Bytes
  index : Json
  treeSize : Json
  path : List Bytes

/-- The arguments of `verify_inclusion`, in the order they are read. -/
def readInclusion (p : Json) : Except PyError Inclusion := do
  let lf ← p.item (lit "leaf")
  let leafBytes ← bytesFromHex lf
  let index ← p.item (lit "index")
  let treeSize ← p.item (lit "tree_size")
  let path ← (← (← p.item (lit "path")).iter).mapM bytesFromHex
  match lf with
  | .str s => return ⟨s, leafBytes, index, treeSize, path⟩
  | _ => .error .typeError

/-- `proved`, for the proofs that are left. -/
def provedAux (subj : Str) : List Json → Except PyError (List Str)
  | [] => .ok []
  | p :: ps => do
    let q ← readInclusion p
    let good ← verifyInclusionAny R q.leafBytes q.index q.treeSize q.path subj
    let rest ← provedAux subj ps
    return if good then q.leaf :: rest else rest

/-- `proved` -/
def proved (dec : Json) (subj : Str) : Except PyError (List Str) := do
  provedAux R subj (← (← dec.item (lit "inclusion_proofs")).iter)

/-- `cons` -/
def consumed (dec : Json) : Except PyError (List Str) := do
  (← (← dec.item (lit "retrieved")).iter).mapM fun d => return hexStr (← leaf R d)

/-! ## The verdict -/

inductive Verdict
  | noFinding
  | cannotEstablish
  | contradicted
  | notValid
  deriving DecidableEq, Repr

inductive Grade
  | authenticatedReport
  | reproduced
  deriving DecidableEq, Repr

/-- `len(x)` -/
def len : Json → Except PyError Nat
  | .str s => .ok s.length
  | .arr xs => .ok xs.length
  | .obj kvs => .ok (kvs.map (·.1)).eraseDups.length
  | _ => .error .typeError

/-- `man["body"]["rag_corpus"]["poisoning_scan"]` -/
def scanOf (man : Json) : Except PyError Json := do
  (← (← man.item (lit "body")).item (lit "rag_corpus")).item (lit "poisoning_scan")

/-- `dec.get("k", 1) != 1 or len(dec["retrieved"]) != 1` -/
def notSingle (dec : Json) : Except PyError Bool := do
  if !(← dec.getD (lit "k") (.int 1)).pyEq (.int 1) then return true
  return (← len (← dec.item (lit "retrieved"))) != 1

/-- The end of `subject_bound`, for these `subject_docs`. -/
def rescan (s docs : Json) : Except PyError (Verdict × Option Grade) := do
  if (← s.get (lit "scanner_version")).pyEq toy.scannerVersion then
    let found ← toyScan R toy docs
    return (if found = [] then .noFinding else .contradicted, some .reproduced)
  else return (.noFinding, some .authenticatedReport)

/-- What `subject_bound` does with a scan that names the corpus root `r`. -/
def corpusBound (s corpus dec : Json) (r : Str) : Except PyError (Verdict × Option Grade) := do
  if !(Json.str r).pyEq (← dec.item (lit "corpus_root")) then return (.cannotEstablish, none)
  if !(← s.get (lit "semantics")).pyEq (.str (lit "recordwise")) then
    return (.cannotEstablish, none)
  let cons ← consumed R dec
  let shown ← proved R dec r
  if cons.isEmpty || !cons.all shown.contains then return (.cannotEstablish, none)
  rescan R toy s corpus

/-- `subject_bound(corpus, man, dec)` -/
def subjectBound (corpus man dec : Json) : Except Raised (Verdict × Option Grade) := do
  let s ← lift (scanOf man)
  if !(← lift (s.get (lit "result"))).pyEq (.str (lit "clean")) then return (.notValid, none)
  let subj ← lift (s.get (lit "subject_digest"))
  if subj = .null then return (.cannotEstablish, none)
  if ← lift (notSingle dec) then return (.cannotEstablish, none)
  if subj.pyEq (← lift (dec.item (lit "effective_dataset_digest"))) then
    let docs ← lift (dec.item (lit "retrieved"))
    lift (rescan R toy s docs)
  else
    let r ← root R corpus
    if subj.pyEq (.str r) then lift (corpusBound R toy s corpus dec r)
    else return (.cannotEstablish, none)

/-! ## What is hashed -/

/-- The list a computation gives, if it gives one. -/
def okList {α : Type} : Except PyError (List α) → List α
  | .ok xs => xs
  | .error _ => []

/-- What the leaves of the documents hash. -/
def docInputs (docs : Json) : List Bytes := okList do (← docs.iter).mapM docInput

/-- What the tree over the documents hashes. -/
def treeInputs (docs : Json) : List Bytes :=
  mthInputs R (((docInputs docs).map R.sha256).insertionSort (· ≤ ·))

/-- What the run of a proof hashes. -/
def inclusionInputs (q : Inclusion) : List Bytes :=
  match asInt? q.index, asInt? q.treeSize with
  | some i, some n => loopInputsInt R i (n - 1) q.leafBytes q.path
  | _, _ => []

/-- What the runs of the proofs of a decision hash. -/
def proofInputs (dec : Json) : List Bytes :=
  (okList do (← (← dec.item (lit "inclusion_proofs")).iter).mapM readInclusion).flatMap
    (inclusionInputs R)

/-- Everything that is hashed over the corpus, the consumed documents and the proofs. -/
def hashed (corpus dec : Json) : List Bytes :=
  docInputs corpus ++ treeInputs R corpus ++ docInputs (dec.find (lit "retrieved")) ++
    proofInputs R dec

/-- No two of these have one hash. -/
def NoCollision (corpus dec : Json) : Prop :=
  ∀ a ∈ hashed R corpus dec, ∀ b ∈ hashed R corpus dec, R.sha256 a = R.sha256 b → a = b

/-! ## When the rerun is carried to the wrong document -/

/-- The inputs lead through the branch of the corpus to its end: a clean scan of the published
scanner names the corpus, every consumed leaf is proved, and the rerun finds nothing. -/
structure CorpusScanned (corpus man dec s : Json) (r : Str) : Prop where
  scan : scanOf man = .ok s
  clean : s.get (lit "result") = .ok (.str (lit "clean"))
  names : s.get (lit "subject_digest") = .ok (.str r)
  single : notSingle dec = .ok false
  other : ∃ e, dec.item (lit "effective_dataset_digest") = .ok e ∧ (Json.str r).pyEq e = false
  isRoot : root R corpus = .ok r
  sameRoot : dec.item (lit "corpus_root") = .ok (.str r)
  recordwise : s.get (lit "semantics") = .ok (.str (lit "recordwise"))
  covered : ∃ cons shown, consumed R dec = .ok cons ∧ proved R dec r = .ok shown ∧
    cons ≠ [] ∧ ∀ c ∈ cons, c ∈ shown
  published : ∃ v, s.get (lit "scanner_version") = .ok v ∧ v.pyEq toy.scannerVersion = true
  rerun : toyScan R toy corpus = .ok []

/-- A consumed document and one of the corpus are one text `id`, NUL, `content`, cut
at another NUL: the pattern is in the content of the consumed one only. -/
def Recut (corpus dec : Json) : Prop :=
  ∃ docs used doc d b, corpus.iter = .ok docs ∧
    (dec.item (lit "retrieved") >>= Json.iter) = .ok used ∧
    doc ∈ docs ∧ d ∈ used ∧ docInput doc = .ok b ∧ docInput d = .ok b ∧
    finds R toy doc = .ok false ∧ finds R toy d = .ok true

end Model

variable {R : Runtime} {toy : Toy}

/-! ## Documents and their leaves -/

theorem docInput_ok {d : Json} {b : Bytes} : docInput d = .ok b ↔
    ∃ id content i c, d.item (lit "id") = .ok (.str id) ∧ d.item (lit "content") = .ok (.str content) ∧
      utf8 id = .ok i ∧ utf8 content = .ok c ∧ b = 0 :: (i ++ 0 :: c) := by
  have hencode {x : Json} {c : Bytes} : encode x = .ok c ↔ ∃ t, x = .str t ∧ utf8 t = .ok c := by
    cases x <;> simp [encode]
  constructor
  · intro h
    obtain ⟨x, hx, h⟩ := bind_ok.mp h
    obtain ⟨i, hi, h⟩ := bind_ok.mp h
    obtain ⟨y, hy, h⟩ := bind_ok.mp h
    obtain ⟨c, hc, hb⟩ := bind_ok.mp h
    obtain ⟨id, rfl, hid⟩ := hencode.mp hi
    obtain ⟨content, rfl, hcontent⟩ := hencode.mp hc
    exact ⟨id, content, i, c, hx, hy, hid, hcontent, (Except.ok.inj hb).symm⟩
  · rintro ⟨id, content, i, c, hid, hcontent, hi, hc, rfl⟩
    rw [docInput, hid, ok_bind, encode, hi, ok_bind, hcontent, ok_bind, encode, hc, ok_bind]
    rfl

/-- A leaf input begins with a zero byte, that of a node with a one. -/
theorem docInput_ne {d : Json} {b l r : Bytes} (h : docInput d = .ok b) : b ≠ nodeInput l r := by
  obtain ⟨id, content, i, c, -, -, -, -, rfl⟩ := docInput_ok.mp h
  intro heq
  exact absurd (List.cons.inj heq).1 (by decide)

theorem leaf_ok {d : Json} {l : Bytes} :
    leaf R d = .ok l ↔ ∃ b, docInput d = .ok b ∧ l = R.sha256 b := by
  rw [leaf, bind_ok]
  refine exists_congr fun b => and_congr_right fun _ => ?_
  exact ⟨fun h => (Except.ok.inj h).symm, fun h => h ▸ rfl⟩

theorem lift_ok {α : Type} {x : Except PyError α} {a : α} : lift x = .ok a ↔ x = .ok a := by
  cases x <;> simp [lift]

/-- The documents of a corpus, what they hash, and the root over it. -/
theorem root_ok {docs : Json} {t : Str} (h : root R docs = .ok t) :
    ∃ ds r, docs.iter = .ok ds ∧ ds.mapM docInput = .ok (docInputs docs) ∧
      mth R (((docInputs docs).map R.sha256).insertionSort (· ≤ ·)) = some r ∧
      t = digestText r := by
  obtain ⟨leaves, hleaves, h⟩ := bind_ok.mp h
  obtain ⟨ds, hds, hleaves⟩ := bind_ok.mp (lift_ok.mp hleaves)
  unfold leaf at hleaves
  rw [mapM_return, map_ok] at hleaves
  obtain ⟨ins, hins, rfl⟩ := hleaves
  have hdocs : docInputs docs = ins := by
    rw [docInputs, hds, ok_bind, hins]
    rfl
  split at h
  next => cases h
  next r hr =>
    refine ⟨ds, r, hds, ?_, ?_, (Except.ok.inj h).symm⟩
    · rw [hins, hdocs]
    · rw [hdocs, hr]

/-- What the scanner finds in a list of documents, each of which has a leaf. -/
theorem toyScanAux_nil {ds : List Json} :
    toyScanAux R toy ds = .ok [] ↔ ∀ d ∈ ds, finds R toy d = .ok false := by
  induction ds with
  | nil => exact ⟨fun _ d hd => absurd hd List.not_mem_nil, fun _ => rfl⟩
  | cons d ds ih =>
    rw [toyScanAux, List.forall_mem_cons, ← ih]
    cases hd : finds R toy d with
    | error e =>
      refine iff_of_false (fun h => ?_) (fun h => ?_)
      · cases h
      · cases h.1
    | ok b =>
      rw [ok_bind]
      cases b with
      | false => simp
      | true =>
        refine iff_of_false (fun h => ?_) (fun h => ?_)
        · rw [if_pos rfl] at h
          obtain ⟨id, -, h⟩ := bind_ok.mp h
          obtain ⟨rest, -, h⟩ := bind_ok.mp h
          cases h
        · cases h.1

theorem toyScan_nil {docs : Json} {ds : List Json} (hds : docs.iter = .ok ds) :
    toyScan R toy docs = .ok [] ↔ ∀ d ∈ ds, finds R toy d = .ok false := by
  rw [toyScan, hds, ok_bind, toyScanAux_nil]

/-- A document with a leaf can be scanned. -/
theorem finds_of_docInput {d : Json} {b : Bytes} (h : docInput d = .ok b) :
    finds R toy d = .ok true ∨ finds R toy d = .ok false := by
  obtain ⟨id, content, i, c, -, hcontent, -, -, -⟩ := docInput_ok.mp h
  rw [finds, hcontent, ok_bind]
  show Except.ok (decide _) = _ ∨ Except.ok (decide _) = _
  cases decide (toy.pattern <:+: R.lower content) with
  | true => exact Or.inl rfl
  | false => exact Or.inr rfl

/-! ## The proofs -/

/-- Every value of the tree over hashes is 32 bytes long. -/
theorem length_of_part (hsha : ∀ b, (R.sha256 b).length = 32) {ls : List Bytes}
    (hls : ∀ l ∈ ls, l.length = 32) {v : Bytes} (h : Part (node R) nodeInput ls v) :
    v.length = 32 := by
  cases h with
  | leaf h => exact hls v h
  | joined => exact hsha _

/-- **Whatever the loop climbs from is a value of the tree**, at any index, size and path: each
joined value is one of the tree, hence so are the two it is joined of. -/
theorem part_of_loop (hsha : ∀ b, (R.sha256 b).length = 32) {ls inputs : List Bytes}
    (hcoll : ∀ a ∈ inputs, ∀ b ∈ inputs, R.sha256 a = R.sha256 b → a = b)
    (hls : ∀ l ∈ ls, ∃ i ∈ inputs, l = R.sha256 i ∧ ∀ x y, i ≠ nodeInput x y)
    (htree : ∀ i ∈ mthInputs R ls, i ∈ inputs) {path : List Bytes} {fn sn sn' : Int} {r v : Bytes}
    (h : inclusionLoopInt R fn sn r path = some (sn', v))
    (hloop : ∀ i ∈ loopInputsInt R fn sn r path, i ∈ inputs) (hr : r.length = 32)
    (hv : Part (node R) nodeInput ls v) : Part (node R) nodeInput ls r := by
  have hlen (l : Bytes) (hl : l ∈ ls) : l.length = 32 := by
    obtain ⟨i, -, rfl, -⟩ := hls l hl
    exact hsha i
  induction path generalizing fn sn r with
  | nil =>
    obtain ⟨-, rfl⟩ := Prod.mk.inj (Option.some.inj h)
    exact hv
  | cons p ps ih =>
    rw [inclusionLoopInt] at h
    by_cases hsn : sn = 0
    · rw [if_pos hsn] at h
      cases h
    rw [if_neg hsn] at h
    rw [loopInputsInt, List.forall_mem_cons] at hloop
    obtain ⟨hin, hrest⟩ := hloop
    have hpart := ih h hrest (hsha _)
    -- the hash of the step is a leaf of the tree, or joined of two of its values
    generalize hjoined : R.sha256 (stepInputInt fn sn r p) = joined at hpart
    cases hpart with
    | leaf hmem =>
      obtain ⟨i, hi, heq, hne⟩ := hls _ hmem
      have hsame := hcoll _ hin _ hi (hjoined.trans heq)
      unfold stepInputInt at hsame
      split at hsame
      · exact absurd hsame.symm (hne _ _)
      · exact absurd hsame.symm (hne _ _)
    | @joined left right hmem hleft hright =>
      have hsame := hcoll _ hin _ (htree _ hmem) hjoined
      have hl := length_of_part hsha hlen hleft
      have hrl := length_of_part hsha hlen hright
      have htotal := congrArg List.length hsame
      unfold stepInputInt at hsame htotal
      split at hsame
      next hside =>
        rw [if_pos hside] at htotal
        simp only [nodeInput, List.length_cons, List.length_append] at htotal
        obtain ⟨-, rfl⟩ := nodeInput_inj (by omega) hsame
        exact hright
      next hside =>
        obtain ⟨rfl, -⟩ := nodeInput_inj (by omega) hsame
        exact hleft

/-- Accepted is a run of the loop that ends in the wanted root. -/
theorem loop_of_verify {q : Inclusion} {want : Str}
    (h : verifyInclusionAny R q.leafBytes q.index q.treeSize q.path want = .ok true) :
    ∃ fn sn sn' v, inclusionLoopInt R fn sn q.leafBytes q.path = some (sn', v) ∧
      digestText v = want ∧ ∀ i ∈ loopInputsInt R fn sn q.leafBytes q.path,
        i ∈ inclusionInputs R q := by
  obtain ⟨ge, -, h⟩ := bind_ok.mp h
  cases ge with
  | true => cases h
  | false =>
    rw [if_neg Bool.false_ne_true] at h
    split at h
    next i n hi hn =>
      have hinputs : inclusionInputs R q = loopInputsInt R i (n - 1) q.leafBytes q.path := by
        rw [inclusionInputs, hi, hn]
      split at h
      next => cases h
      next sn' v hrun =>
        have hroot := Except.ok.inj h
        rw [Bool.and_eq_true, beq_iff_eq, beq_iff_eq] at hroot
        exact ⟨i, n - 1, sn', v, hrun, hroot.2, fun i hi => hinputs ▸ hi⟩
    next =>
      split at h
      next => cases h
      next =>
        split at h
        next hempty =>
          -- no element of the path is reached: the leaf is the root
          have hroot := Except.ok.inj h
          rw [Bool.and_eq_true, beq_iff_eq] at hroot
          rw [List.isEmpty_iff.mp hempty]
          exact ⟨0, 0, 0, q.leafBytes, rfl, hroot.2, fun i hi => absurd hi List.not_mem_nil⟩
        next =>
          split at h
          next => cases h
          next => cases h

theorem fromHex_of_readInclusion {p : Json} {q : Inclusion} (h : readInclusion p = .ok q) :
    fromHex q.leaf = some q.leafBytes := by
  obtain ⟨lf, -, h⟩ := bind_ok.mp h
  obtain ⟨b, hb, h⟩ := bind_ok.mp h
  obtain ⟨index, -, h⟩ := bind_ok.mp h
  obtain ⟨size, -, h⟩ := bind_ok.mp h
  obtain ⟨x, -, h⟩ := bind_ok.mp h
  obtain ⟨xs, -, h⟩ := bind_ok.mp h
  obtain ⟨path, -, hq⟩ := bind_ok.mp h
  cases lf with
  | str s =>
    obtain rfl := Except.ok.inj hq
    show fromHex s = some b
    rw [bytesFromHex] at hb
    cases hs : fromHex s with
    | none =>
      rw [hs] at hb
      cases hb
    | some c =>
      rw [hs] at hb
      rw [Except.ok.inj hb]
  | _ => cases hq

/-- What is shown was accepted, and all proofs were read. -/
theorem provedAux_ok {subj : Str} {ps : List Json} {shown : List Str}
    (h : provedAux R subj ps = .ok shown) : ∃ qs, ps.mapM readInclusion = .ok qs ∧
      ∀ t ∈ shown, ∃ q ∈ qs, q.leaf = t ∧
        verifyInclusionAny R q.leafBytes q.index q.treeSize q.path subj = .ok true := by
  induction ps generalizing shown with
  | nil =>
    obtain rfl := Except.ok.inj h
    exact ⟨[], rfl, fun t ht => absurd ht List.not_mem_nil⟩
  | cons p ps ih =>
    obtain ⟨q, hq, h⟩ := bind_ok.mp h
    obtain ⟨good, hgood, h⟩ := bind_ok.mp h
    obtain ⟨rest, hrest, h⟩ := bind_ok.mp h
    obtain ⟨qs, hqs, hall⟩ := ih hrest
    refine ⟨q :: qs, mapM_ok.mpr (.cons hq (mapM_ok.mp hqs)), fun t ht => ?_⟩
    have hcons (htail : t ∈ rest) := hall t htail
    obtain rfl := Except.ok.inj h
    cases good with
    | false =>
      obtain ⟨q', hq', hleaf⟩ := hcons ht
      exact ⟨q', List.mem_cons_of_mem _ hq', hleaf⟩
    | true =>
      rcases List.mem_cons.mp ht with rfl | ht
      · exact ⟨q, List.mem_cons_self .., rfl, hgood⟩
      · obtain ⟨q', hq', hleaf⟩ := hcons ht
        exact ⟨q', List.mem_cons_of_mem _ hq', hleaf⟩

/-- **A proved leaf is that of a corpus document**, which hashes the same. -/
theorem doc_of_proved (hsha : ∀ b, (R.sha256 b).length = 32) {corpus dec : Json}
    (hcoll : NoCollision R corpus dec) {t : Str} (hroot : root R corpus = .ok t)
    {shown : List Str} (hproved : proved R dec t = .ok shown) {b : Bytes}
    (hb : b ∈ docInputs (dec.find (lit "retrieved"))) (hshown : hexStr (R.sha256 b) ∈ shown)
    (hleaf : ∀ x y, b ≠ nodeInput x y) : b ∈ docInputs corpus := by
  obtain ⟨ds, v, -, hins, hmth, rfl⟩ := root_ok hroot
  obtain ⟨x, hx, hproved⟩ := bind_ok.mp hproved
  obtain ⟨ps, hps, hproved⟩ := bind_ok.mp hproved
  obtain ⟨qs, hqs, hall⟩ := provedAux_ok hproved
  obtain ⟨q, hq, hqleaf, hverify⟩ := hall _ hshown
  obtain ⟨fn, sn, sn', v', hrun, hv, hloop⟩ := loop_of_verify hverify
  obtain rfl := digestText_injective hv
  have hbytes : q.leafBytes = R.sha256 b := by
    obtain ⟨p, -, hp⟩ := exists_of_mem_mapM hqs hq
    have hhex := fromHex_of_readInclusion hp
    rw [hqleaf, fromHex_hexStr] at hhex
    exact (Option.some.inj hhex).symm
  have hproofs : ∀ i ∈ inclusionInputs R q, i ∈ hashed R corpus dec := by
    intro i hi
    refine List.mem_append_right _ (List.mem_flatMap.mpr ⟨q, ?_, hi⟩)
    rw [hx, ok_bind, hps, ok_bind, hqs]
    exact hq
  have hdoc (i : Bytes) (hi : i ∈ docInputs corpus) : i ∈ hashed R corpus dec :=
    List.mem_append_left _ (List.mem_append_left _ (List.mem_append_left _ hi))
  have hused : b ∈ hashed R corpus dec :=
    List.mem_append_left _ (List.mem_append_right _ hb)
  have htree : ∀ i ∈ mthInputs R (((docInputs corpus).map R.sha256).insertionSort (· ≤ ·)),
      i ∈ hashed R corpus dec := fun i hi =>
    List.mem_append_left _ (List.mem_append_left _ (List.mem_append_right _ hi))
  have hls : ∀ l ∈ ((docInputs corpus).map R.sha256).insertionSort (· ≤ ·),
      ∃ i ∈ hashed R corpus dec, l = R.sha256 i ∧ ∀ x y, i ≠ nodeInput x y := by
    intro l hl
    obtain ⟨i, hi, rfl⟩ := List.mem_map.mp ((List.perm_insertionSort _ _).mem_iff.mp hl)
    obtain ⟨d, -, hd⟩ := exists_of_mem_mapM hins hi
    exact ⟨i, hdoc i hi, rfl, fun x y => docInput_ne hd⟩
  have hpart := part_of_loop hsha hcoll hls htree hrun (fun i hi => hproofs i (hloop i hi))
    (hbytes ▸ hsha b) (part_mth nodeInput hmth)
  rw [hbytes] at hpart
  generalize hjoined : R.sha256 b = joined at hpart
  cases hpart with
  | leaf hmem =>
    obtain ⟨i, hi, rfl⟩ := List.mem_map.mp ((List.perm_insertionSort _ _).mem_iff.mp hmem)
    rwa [hcoll b hused i (hdoc i hi) hjoined]
  | joined hmem => exact absurd (hcoll b hused _ (htree _ hmem) hjoined) (hleaf _ _)

/-! ## The branches of `subject_bound` -/

theorem rescan_reproduced {s docs : Json} :
    rescan R toy s docs = .ok (.noFinding, some .reproduced) ↔
      (∃ v, s.get (lit "scanner_version") = .ok v ∧ v.pyEq toy.scannerVersion = true) ∧
        toyScan R toy docs = .ok [] := by
  rw [rescan, bind_ok]
  constructor
  · rintro ⟨v, hv, h⟩
    split at h
    next hversion =>
      obtain ⟨found, hfound, h⟩ := bind_ok.mp h
      have hempty : found = [] := by
        by_contra hne
        rw [if_neg hne] at h
        cases h
      exact ⟨⟨v, hv, hversion⟩, hempty ▸ hfound⟩
    next => cases h
  · rintro ⟨⟨v, hv, hversion⟩, hfound⟩
    refine ⟨v, hv, ?_⟩
    rw [if_pos hversion, hfound, ok_bind, if_pos rfl]
    rfl

theorem pyEq_str_left {s : Str} {x : Json} : (Json.str s).pyEq x = true ↔ x = .str s := by
  constructor
  · intro h
    exact (pySame_str x s).mp (pySame_symm (pySame_of_pyEq h))
  · rintro rfl
    exact (pyEq_str _ s).mpr rfl

theorem corpusBound_reproduced {s corpus dec : Json} {r : Str} :
    corpusBound R toy s corpus dec r = .ok (.noFinding, some .reproduced) ↔
      dec.item (lit "corpus_root") = .ok (.str r) ∧
      s.get (lit "semantics") = .ok (.str (lit "recordwise")) ∧
      (∃ cons shown, consumed R dec = .ok cons ∧ proved R dec r = .ok shown ∧ cons ≠ [] ∧
        ∀ c ∈ cons, c ∈ shown) ∧
      (∃ v, s.get (lit "scanner_version") = .ok v ∧ v.pyEq toy.scannerVersion = true) ∧
      toyScan R toy corpus = .ok [] := by
  rw [← rescan_reproduced]
  constructor
  · intro h
    obtain ⟨croot, hcroot, h⟩ := bind_ok.mp h
    split at h
    next => cases h
    next hsame =>
      rw [Bool.not_eq_true', Bool.not_eq_false, pyEq_str_left] at hsame
      subst hsame
      obtain ⟨sem, hsem, h⟩ := bind_ok.mp h
      split at h
      next => cases h
      next hrecord =>
        rw [Bool.not_eq_true', Bool.not_eq_false, pyEq_str] at hrecord
        subst hrecord
        obtain ⟨cons, hcons, h⟩ := bind_ok.mp h
        obtain ⟨shown, hshown, h⟩ := bind_ok.mp h
        split at h
        next => cases h
        next hcovered =>
          rw [Bool.or_eq_true, not_or, Bool.not_eq_true, List.isEmpty_eq_false_iff,
            Bool.not_eq_true', Bool.not_eq_false, List.all_eq_true] at hcovered
          exact ⟨hcroot, hsem, ⟨cons, shown, hcons, hshown, hcovered.1,
            fun c hc => List.contains_iff_mem.mp (hcovered.2 c hc)⟩, h⟩
  · rintro ⟨hcroot, hsem, ⟨cons, shown, hcons, hshown, hne, hall⟩, h⟩
    have hcovered : (cons.isEmpty || !cons.all shown.contains) = false := by
      rw [Bool.or_eq_false_iff, List.isEmpty_eq_false_iff, Bool.not_eq_false', List.all_eq_true]
      exact ⟨hne, fun c hc => List.contains_iff_mem.mpr (hall c hc)⟩
    rw [corpusBound, hcroot, ok_bind, pyEq_str_left.mpr rfl]
    show (s.get (lit "semantics") >>= _) = _
    rw [hsem, ok_bind, (pyEq_str _ _).mpr rfl]
    show (consumed R dec >>= _) = _
    rw [hcons, ok_bind, hshown, ok_bind, hcovered]
    exact h

theorem subjectBound_of_corpus {corpus man dec s : Json} {r : Str}
    (h : CorpusScanned R toy corpus man dec s r) :
    subjectBound R toy corpus man dec = .ok (.noFinding, some .reproduced) := by
  obtain ⟨e, he, hne⟩ := h.other
  have hbound := corpusBound_reproduced.mpr
    ⟨h.sameRoot, h.recordwise, h.covered, h.published, h.rerun⟩
  rw [subjectBound, lift_ok.mpr h.scan, ok_bind, lift_ok.mpr h.clean, ok_bind,
    (pyEq_str _ _).mpr rfl]
  show (lift (s.get (lit "subject_digest")) >>= _) = _
  rw [lift_ok.mpr h.names, ok_bind, if_neg nofun, lift_ok.mpr h.single, ok_bind,
    if_neg Bool.false_ne_true, lift_ok.mpr he, ok_bind, hne, if_neg Bool.false_ne_true, h.isRoot,
    ok_bind, (pyEq_str _ _).mpr rfl, if_pos rfl]
  exact lift_ok.mpr hbound

/-- A reproduced clean answer is a clean rerun over the consumed documents, or comes from the
branch of the corpus. -/
theorem dataset_or_corpus {corpus man dec : Json}
    (h : subjectBound R toy corpus man dec = .ok (.noFinding, some .reproduced)) :
    (∃ docs, dec.item (lit "retrieved") = .ok docs ∧ toyScan R toy docs = .ok []) ∨
      ∃ s r, CorpusScanned R toy corpus man dec s r := by
  obtain ⟨s, hs, h⟩ := bind_ok.mp h
  obtain ⟨result, hresult, h⟩ := bind_ok.mp h
  split at h
  next => cases h
  next hclean =>
    rw [Bool.not_eq_true', Bool.not_eq_false, pyEq_str] at hclean
    obtain ⟨subj, hsubj, h⟩ := bind_ok.mp h
    split at h
    next => cases h
    obtain ⟨more, hmore, h⟩ := bind_ok.mp h
    cases more with
    | true => cases h
    | false =>
      rw [if_neg Bool.false_ne_true] at h
      obtain ⟨e, he, h⟩ := bind_ok.mp h
      split at h
      next =>
        obtain ⟨docs, hdocs, h⟩ := bind_ok.mp h
        exact Or.inl ⟨docs, lift_ok.mp hdocs, (rescan_reproduced.mp (lift_ok.mp h)).2⟩
      next hother =>
        obtain ⟨r, hr, hbound⟩ := bind_ok.mp h
        split at hbound
        next hnames =>
          rw [pyEq_str] at hnames
          subst hclean hnames
          obtain ⟨hsame, hrecord, hcovered, hpublished, hrerun⟩ :=
            corpusBound_reproduced.mp (lift_ok.mp hbound)
          exact Or.inr ⟨s, r, lift_ok.mp hs, lift_ok.mp hresult, lift_ok.mp hsubj,
            lift_ok.mp hmore, ⟨e, lift_ok.mp he, by simpa using hother⟩, hr, hsame, hrecord,
            hcovered, hpublished, hrerun⟩
        next => cases hbound

/-! ## What the answer says of the consumed documents -/

/-- **When a reproduced clean answer covers what was consumed.** With no collision among what is
hashed, a rerun that finds nothing says that the scanner finds nothing in the consumed
documents, unless the branch of the corpus takes a document for another one, which is
the same text of bytes cut at another NUL. -/
theorem subjectBound_iff (hsha : ∀ b, (R.sha256 b).length = 32) {corpus man dec : Json}
    (hcoll : NoCollision R corpus dec) :
    (subjectBound R toy corpus man dec = .ok (.noFinding, some .reproduced) →
        (dec.item (lit "retrieved") >>= toyScan R toy) = .ok []) ↔
      ¬ ((∃ s r, CorpusScanned R toy corpus man dec s r) ∧ Recut R toy corpus dec) := by
  constructor
  · rintro hclean ⟨⟨s, r, hscanned⟩, docs, used, doc, d, b, -, hused, -, hd, -, -, -, hfinds⟩
    obtain ⟨retrieved, hretrieved, hused⟩ := bind_ok.mp hused
    have hscan := hclean (subjectBound_of_corpus hscanned)
    rw [hretrieved, ok_bind, toyScan_nil hused] at hscan
    rw [hscan d hd] at hfinds
    cases hfinds
  · intro hnot h
    rcases dataset_or_corpus h with ⟨docs, hdocs, hscan⟩ | ⟨s, r, hscanned⟩
    · rw [hdocs, ok_bind, hscan]
    · obtain ⟨cons, shown, hcons, hshown, -, hall⟩ := hscanned.covered
      obtain ⟨retrieved, hretrieved, hcons⟩ := bind_ok.mp hcons
      obtain ⟨used, hused, hcons⟩ := bind_ok.mp hcons
      obtain ⟨ds, v, hds, hins, -, -⟩ := root_ok hscanned.isRoot
      rw [hretrieved, ok_bind, toyScan_nil hused]
      intro d hd
      obtain ⟨t, ht, hdleaf⟩ := mem_mapM_of_mem hcons hd
      obtain ⟨l, hl, htext⟩ := bind_ok.mp hdleaf
      obtain ⟨b, hb, rfl⟩ := leaf_ok.mp hl
      obtain rfl := Except.ok.inj htext
      refine (finds_of_docInput hb).resolve_left fun hfinds => hnot ⟨⟨s, r, hscanned⟩, ?_⟩
      -- the corpus document behind the proof is the same text of bytes
      have hmem : b ∈ docInputs (dec.find (lit "retrieved")) := by
        obtain ⟨ins, hins⟩ : ∃ ins, used.mapM docInput = .ok ins := by
          refine mapM_of_ok fun d' hd' => ?_
          obtain ⟨t', -, hd'leaf⟩ := mem_mapM_of_mem hcons hd'
          obtain ⟨l', hl', -⟩ := bind_ok.mp hd'leaf
          obtain ⟨b', hb', -⟩ := leaf_ok.mp hl'
          exact ⟨b', hb'⟩
        obtain ⟨b', hmem', hb'⟩ := mem_mapM_of_mem hins hd
        rw [docInputs, ← item_eq_find hretrieved, hused, ok_bind, hins]
        rwa [Except.ok.inj (hb.symm.trans hb')]
      have hcorpus := doc_of_proved hsha hcoll hscanned.isRoot hshown hmem (hall _ ht)
        (fun x y => docInput_ne hb)
      obtain ⟨doc, hdoc, hdocb⟩ := exists_of_mem_mapM hins hcorpus
      refine ⟨ds, used, doc, d, b, hds, ?_, hdoc, hd, hdocb, hb,
        (toyScan_nil hds).mp hscanned.rerun doc hdoc, hfinds⟩
      rw [hretrieved, ok_bind, hused]

/-- Documents without a NUL in their ids are never cut otherwise. -/
theorem not_recut_of_no_nul {corpus dec docs : Json} {ds used : List Json}
    (hdocs : corpus.iter = .ok ds) (hretrieved : dec.item (lit "retrieved") = .ok docs)
    (hused : docs.iter = .ok used)
    (hnul : ∀ d ∈ ds ++ used, ∀ id, d.item (lit "id") = .ok (.str id) → 0 ∉ id) :
    ¬ Recut R toy corpus dec := by
  rintro ⟨ds', used', doc, d, b, hds', hused', hdoc, hd, hdocb, hb, hclean, hfinds⟩
  obtain rfl := Except.ok.inj (hds'.symm.trans hdocs)
  rw [hretrieved, ok_bind] at hused'
  obtain rfl := Except.ok.inj (hused'.symm.trans hused)
  obtain ⟨id, content, i, c, hid, hcontent, hi, hc, rfl⟩ := docInput_ok.mp hdocb
  obtain ⟨id', content', i', c', hid', hcontent', hi', hc', heq⟩ := docInput_ok.mp hb
  have hzero {s : Str} {u : Bytes} (hs : 0 ∉ s) (hu : utf8 s = .ok u) : (0 : UInt8) ∉ u := by
    rw [utf8_ok hu]
    exact zero_notMem_utf8Bytes hs
  have hi0 := hzero (hnul doc (List.mem_append_left _ hdoc) id hid) hi
  have hi0' := hzero (hnul d (List.mem_append_right _ hd) id' hid') hi'
  obtain ⟨-, rfl⟩ := append_cons_inj hi0 hi0' (List.cons.inj heq).2
  obtain rfl := utf8_injective hc hc'
  rw [finds, hcontent] at hclean
  rw [finds, hcontent'] at hfinds
  cases hclean.symm.trans hfinds

/-! ## Two runs -/

def sampleDoc (id content : String) : Json := object [("id", text id), ("content", text content)]

/-- The hash of the leaf of a document. -/
def sampleHash (d : Json) : Bytes :=
  match leaf sampleRuntime d with
  | .ok l => l
  | .error _ => []

def sampleRoot (docs : List Json) : Json :=
  match root sampleRuntime (.arr docs) with
  | .ok t => .str t
  | .error _ => .null

/-- A scanner that looks for one letter. -/
def sampleToy : Toy := ⟨lit "x", text "toy"⟩

/-- A clean scan of the published scanner over a corpus. -/
def sampleManifest (corpus : List Json) : Json :=
  object [("body", object [("rag_corpus", object [("poisoning_scan", object
    [("result", text "clean"), ("subject_digest", sampleRoot corpus),
     ("semantics", text "recordwise"), ("scanner_version", text "toy")])])])]

/-- A decision that consumed one document of two, with its proof. -/
def sampleDecision (corpus : List Json) (used other : Json) : Json :=
  object [("k", .int 1), ("retrieved", .arr [used]),
    ("effective_dataset_digest", sampleRoot [used]), ("corpus_root", sampleRoot corpus),
    ("inclusion_proofs", .arr [object [("leaf", .str (hexStr (sampleHash used))),
      ("index", .int 0), ("tree_size", .int 2), ("path", .arr [.str (hexStr (sampleHash other))])]])]

def sampleUsed : Json := sampleDoc "a" "y"
def sampleOther : Json := sampleDoc "b" "z"

/-- The consumed document with its NUL, and the text of it that stands in the corpus. -/
def cutUsed : Json := sampleDoc "a" "x\u0000y"
def cutDoc : Json := sampleDoc "a\u0000x" "y"

theorem length_sampleRuntime (b : Bytes) : (sampleRuntime.sha256 b).length = 32 := by
  rw [sampleRuntime, List.length_append, List.length_replicate, List.length_singleton]

/-- Over ids without a NUL the clean answer stands for the consumed document. -/
theorem sampleUsed_covered :
    subjectBound sampleRuntime sampleToy (.arr [sampleUsed, sampleOther])
      (sampleManifest [sampleUsed, sampleOther])
      (sampleDecision [sampleUsed, sampleOther] sampleUsed sampleOther) =
        .ok (.noFinding, some .reproduced) ∧
    ((sampleDecision [sampleUsed, sampleOther] sampleUsed sampleOther).item (lit "retrieved") >>=
      toyScan sampleRuntime sampleToy) = .ok [] := by
  have hrun : subjectBound sampleRuntime sampleToy (.arr [sampleUsed, sampleOther])
      (sampleManifest [sampleUsed, sampleOther])
      (sampleDecision [sampleUsed, sampleOther] sampleUsed sampleOther) =
        .ok (.noFinding, some .reproduced) := by decide +kernel
  refine ⟨hrun, (subjectBound_iff length_sampleRuntime ?_).mpr ?_ hrun⟩
  · unfold NoCollision
    decide +kernel
  · have hcorpus : (Json.arr [sampleUsed, sampleOther]).iter = .ok [sampleUsed, sampleOther] := rfl
    have hused : (Json.arr [sampleUsed]).iter = .ok [sampleUsed] := rfl
    refine fun h => not_recut_of_no_nul hcorpus (by decide +kernel) hused ?_ h.2
    intro d hd id hid
    have hids : ∀ x ∈ [sampleUsed, sampleOther] ++ [sampleUsed],
        x.item (lit "id") = .ok (text "a") ∨ x.item (lit "id") = .ok (text "b") := by
      decide +kernel
    rcases hids d hd with h | h
    · obtain rfl := Json.str.inj (Except.ok.inj (h.symm.trans hid))
      decide
    · obtain rfl := Json.str.inj (Except.ok.inj (h.symm.trans hid))
      decide

/-- Cut at its first NUL the text is a document with the pattern, which was consumed; cut at
its second one it is the clean document of the corpus. -/
theorem cutUsed_not_covered : ¬ ∀ (R : Runtime) (toy : Toy) (corpus man dec : Json),
    (∀ b, (R.sha256 b).length = 32) → NoCollision R corpus dec →
    (∃ docs e, dec.item (lit "retrieved") = .ok docs ∧ root R docs = .ok e ∧
      dec.item (lit "effective_dataset_digest") = .ok (.str e)) →
    subjectBound R toy corpus man dec = .ok (.noFinding, some .reproduced) →
    (dec.item (lit "retrieved") >>= toyScan R toy) = .ok [] := by
  intro hall
  have hclean := hall sampleRuntime sampleToy (.arr [cutDoc, sampleOther])
    (sampleManifest [cutDoc, sampleOther]) (sampleDecision [cutDoc, sampleOther] cutUsed sampleOther)
    length_sampleRuntime (by unfold NoCollision; decide +kernel)
    ⟨.arr [cutUsed], digestText (sampleHash cutUsed), by decide +kernel, by decide +kernel,
      by decide +kernel⟩ (by decide +kernel)
  have hfound : ((sampleDecision [cutDoc, sampleOther] cutUsed sampleOther).item
      (lit "retrieved") >>= toyScan sampleRuntime sampleToy) = .ok [text "a"] := by decide +kernel
  rw [hfound] at hclean
  cases hclean

end Preaction.ScanSubject
