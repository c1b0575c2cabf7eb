import Mathlib.Data.List.Basic
import Preaction.Lib.Loop
import Preaction.Lib.Merkle
import Preaction.Py.Date
import Preaction.Py.Runtime

/-!
# `pattern-statement-v0/check.py` — a statement against daily log files

A log file of a day is a header line and one line for each record and each
enrollment. `compute` verifies every file by itself, joins the files of
consecutive days by `prev_root`, and derives what a statement for a producer
key may say; `check` compares that with the statement.

Two results. The hash of a header binds the record and enrollment lines of its
file and their order (`loggedLines_eq`), although `merkle` duplicates the odd
last node of a level: the duplicated leaves stand at the end, where the two
counts in the header see them. And the counts of a consistent statement come
from the file of the period's last day alone (`consistent_counts`): a record of
an earlier file is not looked for in it.

Mirroring notes:
- `files` is a dict, the list of its bindings; `sortKvs` is the order of the loop.
- `merkle` runs over hex digests, which `encode` accepts.
- A tally counts under `==` of its keys; as a value it is an object, which has
  texts as keys.
- `round(x, 6)` is the double nearest to the decimal that is nearest to `x`.
-/

namespace Preaction.PatternStatement

open Preaction.Py Preaction.Loop Json

variable (R : Runtime)

/-- `SCHEMA_LOG` -/
def schemaLog : Str := lit "invinoveritas.work-acceptance.record_log.v1"

/-- What `EMPTY` is the digest of. -/
def emptyInput : Bytes := utf8Bytes (schemaLog ++ lit "|empty")

/-- `EMPTY` -/
def empty : Str := R.sha256Hex emptyInput

/-- `DAY` -/
def daySeconds : Int := 86400

/-- `jcs(o)` -/
def jcs (o : Json) : Except PyError Bytes := utf8 (R.canonText o)

/-- What `merkle` hashes for a pair. -/
def nodeInput (left right : Str) : Bytes := utf8Bytes (left ++ right)

/-- `merkle(leaves)` -/
def merkle (leaves : List Str) : Str :=
  (Merkle.root (fun left right => R.sha256Hex (nodeInput left right))
    (fun last => R.sha256Hex (nodeInput last last)) leaves).getD (empty R)

/-- `day0(d)` -/
def day0 (d : Str) : Except PyError Int := (Date.strptime R.digitVal d).map (·.timestamp)

/-- The lines of a text that are not empty. -/
def rows (text : Str) : List Str := (text.splitOn (ofChar '\n')).filter (!·.isEmpty)

/-- `json.loads(x)` -/
def loads (x : Str) : Except PyError Json :=
  match R.loads x with
  | some v => .ok v
  | none => .error .valueError

/-- `parse(text)` -/
def parse (text : Str) : Except PyError (Json × List Str) :=
  match rows text with
  | [] => .error .indexError
  | header :: lines => (loads R header).map (·, lines)

/-! ## One file -/

/-- `e.get("type") == t` -/
def hasType (t : String) (e : Json) : Except PyError Bool :=
  (e.get (lit "type")).map (·.pyEq (text t))

/-- `sum(1 for e in ents if e.get("type") == t)` -/
def countType (t : String) (ents : List Json) : Except PyError Nat :=
  (filterE (hasType t) ents).map (·.length)

/-- `jcs(e).decode() == x` -/
def isCanonicalLine (e : Json) (x : Str) : Except PyError Bool :=
  (jcs R e).map fun _ => R.canonText e == x

/-- `all(jcs(e).decode() == x for e, x in zip(ents, lines))` -/
def allCanonical : List Json → List Str → Except PyError Bool
  | e :: ents, x :: lines => do
    if !(← isCanonicalLine R e x) then return false
    allCanonical ents lines
  | _, _ => .ok true

/-- `ok` of the file of the day `d`. -/
def fileOk (d : Str) (h : Json) (lines : List Str) (ents : List Json) : Except PyError Bool := do
  if !(← h.get (lit "schema")).pyEq (.str schemaLog) then return false
  if !(h.find (lit "date")).pyEq (.str d) then return false
  if !(h.find (lit "cutoff")).pyEq (.int ((← day0 R d) + daySeconds)) then return false
  let leaves ← lines.mapM R.sha256Text
  if !(h.find (lit "merkle_root")).pyEq (.str (merkle R leaves)) then return false
  if !(h.find (lit "n_records")).pyEq (.int (← countType "record" ents)) then return false
  if !(h.find (lit "n_enrollments")).pyEq (.int (← countType "enrollment" ents)) then return false
  allCanonical R ents lines

/-- What the first loop keeps of a file. -/
structure LogFile where
  date : Str
  header : Json
  entries : List Json
  ok : Bool
  root : Str

def loadFile (d text : Str) : Except PyError LogFile := do
  let (h, lines) ← parse R text
  let ents ← lines.mapM (loads R)
  let ok ← fileOk R d h lines ents
  let root := R.sha256Hex (← jcs R h)
  return ⟨d, h, ents, ok, root⟩

/-- `LOG_ROOT_MISMATCH` for the day `d`. -/
def rootMismatch (d : Str) : Str := lit "LOG_ROOT_MISMATCH " ++ d

/-- `parsed.get(d)` -/
def fileOf (parsed : List LogFile) (d : Str) : Option LogFile := parsed.find? (·.date = d)

/-- The problem of a file that does not name the root of the day before. -/
def chainProblem (parsed : List LogFile) (f : LogFile) : Except PyError (List Str) := do
  let prev := (← (← Date.fromisoformat f.date).addDays (-1)).isoformat
  match fileOf parsed prev with
  | some p =>
    if (← f.header.get (lit "prev_root")).pyEq (.str p.root) then return []
    return [lit "LOG_CHAIN_BROKEN " ++ f.date]
  | none => return []

/-! ## The period -/

/-- The loop over the days; `n` of them are left. -/
def daysFrom : Nat → Date → Except PyError (List Str)
  | 0, _ => .ok []
  | n + 1, x => do
    let days ← daysFrom n (← x.addDays 1)
    return x.isoformat :: days

def days (frm upTo : Str) : Except PyError (List Str) := do
  let x ← Date.fromisoformat frm
  let y ← Date.fromisoformat upTo
  daysFrom (y.ordinal + 1 - x.ordinal) x

/-- The first element of which the test is true. -/
def findE (p : Json → Except PyError Bool) : List Json → Except PyError (Option Json)
  | [] => .ok none
  | e :: es => do
    if ← p e then return some e
    findE p es

/-- The subject's enrollment line. -/
def isEnrollmentOf (subject e : Json) : Except PyError Bool := do
  if !(← hasType "enrollment" e) then return false
  return (e.find (lit "key")).pyEq subject

/-- `a <= b` of a number `a`. -/
def numLe (a b : Json) : Except PyError Bool := do return (← pyLt a b) || a.pyEq b

/-- `enr["enrolled_at"] if enr else None` -/
def enrolledAtOf : Option Json → Except PyError Json
  | some e => e.item (lit "enrolled_at")
  | none => .ok .null

/-- The day is not measured. -/
def notMeasured (parsed : List LogFile) (enrolledAt : Json) (d : Str) : Except PyError Bool := do
  if (fileOf parsed d).isNone then return true
  if enrolledAt = .null then return true
  numLe (.int ((← day0 R d) + daySeconds)) enrolledAt

/-- A record line of the subject with `created_at` inside the period. -/
def inScope (subject : Json) (lo hi : Int) (e : Json) : Except PyError Bool := do
  if !(← hasType "record" e) then return false
  if !(e.find (lit "producer_key")).pyEq subject then return false
  let created ← e.getD (lit "created_at") (.int (-1))
  if !(← numLe (.int lo) created) then return false
  pyLt created (.int hi)

/-- A dict of counts. -/
abbrev Tally := List (Json × Nat)

/-- `t[k] = t.get(k, 0) + 1` -/
def Tally.add (k : Json) : Tally → Tally
  | [] => [(k, 1)]
  | (j, n) :: t => if j.pySame k then (j, n + 1) :: t else (j, n) :: Tally.add k t

/-- Count `e[k]`. -/
def Tally.count (t : Tally) (k : String) (e : Json) : Except PyError Tally := do
  let v ← e.item (lit k)
  v.hashable
  return t.add v

/-- The loop over the records, on `verdict` and `sig`. -/
def countRecords : Tally → Tally → List Json → Except PyError (Tally × Tally)
  | verdict, sig, [] => .ok (verdict, sig)
  | verdict, sig, e :: es => do
    let verdict ← verdict.count "verdict" e
    countRecords verdict (← sig.count "producer_signature" e) es

/-- `t[k]` -/
def Tally.get (t : Tally) (k : String) : Nat :=
  ((t.find? fun b => b.1 == text k).map (·.2)).getD 0

/-- A count with its key, where that is a text. -/
def Tally.binding (b : Json × Nat) : Option (Str × Json) :=
  match b.1 with
  | .str k => some (k, .int b.2)
  | _ => none

/-- The tally as an object; none where a key is no text. -/
def Tally.toJson (t : Tally) : Option Json := (t.mapM Tally.binding).map .obj

/-- `round(n / d, 6)` -/
def roundedRate (n d : Nat) : Json :=
  match (roundToDouble false n d).toRat? with
  | some q => .float (roundToDouble false (roundHalfEven (q.num.toNat * 10 ^ 6) q.den) (10 ^ 6))
  | none => .null

/-- What `compute` returns for a statement. -/
structure Fields where
  firstRoot : Option Str
  lastRoot : Option Str
  measured : Str
  notMeasuredDays : List Str
  enrolledAt : Json
  records : List Json
  verdict : Tally
  producerSignature : Tally
  declineRate : Json

/-- The fields that come from the period and the file of its last day. -/
def periodFields (subject : Json) (frm upTo : Str) (parsed : List LogFile) : Except PyError Fields := do
  let days ← days frm upTo
  let last := ((fileOf parsed upTo).map (·.entries)).getD []
  let enr ← findE (isEnrollmentOf subject) last
  let enrolledAt ← enrolledAtOf enr
  let nm ← filterE (notMeasured R parsed enrolledAt) days
  let lo ← day0 R frm
  let hi ← day0 R upTo
  let recs ← filterE (inScope subject lo (hi + daySeconds)) last
  let (verdict, sig) ← countRecords []
    [(text "present", 0), (text "absent", 0), (text "declined", 0)] recs
  let rated := sig.get "present" + sig.get "declined"
  return {
    firstRoot := (fileOf parsed frm).map (·.root)
    lastRoot := (fileOf parsed upTo).map (·.root)
    measured := if enr.isNone || nm.length == days.length then lit "NOT_MEASURED"
      else lit "measured"
    notMeasuredDays := nm
    enrolledAt := enrolledAt
    records := recs
    verdict := verdict
    producerSignature := sig
    declineRate := if rated = 0 then .null else roundedRate (sig.get "declined") rated }

/-- `compute(subject, frm, to, files)` -/
def compute (subject frm upTo : Json) (files : List (Str × Str)) :
    Except PyError (Fields × List Str) := do
  let parsed ← (sortKvs files).mapM fun f => loadFile R f.1 f.2
  let broken ← parsed.mapM (chainProblem parsed)
  let problems := (parsed.filter (!·.ok)).map (rootMismatch ·.date) ++ broken.flatten
  match frm, upTo with
  | .str frm, .str upTo => return (← periodFields R subject frm upTo parsed, problems)
  | _, _ => throw .typeError

/-! ## The statement -/

inductive Result
  | invalid
  | consistent
  | inconsistent
  deriving DecidableEq, Repr

/-- What `check` returns. -/
structure Outcome where
  result : Result
  problems : List Str
  recomputed : Option Fields

/-- `fields["log"]` -/
def Fields.log (f : Fields) : Json :=
  object [("first_root", (f.firstRoot.map .str).getD .null),
    ("last_root", (f.lastRoot.map .str).getD .null)]

/-- `fields["counts"]`; none where a tally has a key that is no text. -/
def Fields.counts (f : Fields) : Option Json := do
  return object [("records", .int f.records.length), ("verdict", ← f.verdict.toJson),
    ("producer_signature", ← f.producerSignature.toJson)]

/-- The fields that are compared one by one. -/
def Fields.compared (f : Fields) : List (String × Option Json) :=
  [("measured", some (.str f.measured)),
    ("not_measured_days", some (.arr (f.notMeasuredDays.map .str))),
    ("enrolled_at", some f.enrolledAt), ("counts", f.counts), ("decline_rate", some f.declineRate)]

/-- The problem of a field that differs. -/
def fieldProblem (statement : Json) (field : String × Option Json) : List Str :=
  if field.2.any (statement.find (lit field.1)).pyEq then []
  else [lit "STATEMENT_MISMATCH " ++ lit field.1]

/-- `check(statement, files)` -/
def check (statement : Json) (files : List (Str × Str)) : Except PyError Outcome := do
  let schema ← statement.get (lit "schema")
  if !schema.pyEq (text "invinoveritas.work-acceptance.pattern_statement.v0") then
    return ⟨.invalid, [lit "SCHEMA"], none⟩
  let p := (statement.find (lit "period")).orElse (.obj [])
  let frm ← p.get (lit "from")
  let (fields, problems) ←
    compute R (statement.find (lit "subject_key")) frm (p.find (lit "to")) files
  let reference := ((statement.find (lit "log")).orElse (.obj [])).pyEq fields.log
  let problems := problems ++ (if reference then [] else [lit "LOG_REFERENCE_MISMATCH"]) ++
    fields.compared.flatMap (fieldProblem statement)
  return ⟨if problems.isEmpty then .consistent else .inconsistent, problems, some fields⟩

/-! ## Files to run -/

/-- A record line for the producer `k`. -/
def sampleRecord (created : Int) : Json := object
  [("created_at", .int created), ("producer_key", text "k"), ("producer_signature", text "present"),
    ("type", text "record"), ("verdict", text "pass")]

def sampleEnrollment : Json := object
  [("enrolled_at", .int 0), ("key", text "k"), ("type", text "enrollment")]

/-- The file of a day with these entries, as the writer of the log makes it. -/
def sampleFile (R : Runtime) (d : Str) (cutoff : Int) (prevRoot : Json) (entries : List Json)
    (nRecords : Int) : Str :=
  let lines := entries.map R.canonText
  let header := object
    [("cutoff", .int cutoff), ("date", .str d),
      ("merkle_root", .str (merkle R (lines.map fun x => R.sha256Hex (utf8Bytes x)))),
      ("n_enrollments", .int (entries.length - nRecords)), ("n_records", .int nRecords),
      ("prev_root", prevRoot), ("schema", .str schemaLog)]
  (R.canonText header :: lines).flatMap (· ++ [ofChar '\n'])

/-- The first day of a sample period. -/
def firstDay : Str := lit "2026-11-01"

def lastDay : Str := lit "2026-11-02"

/-- A producer enrolls and is named by a record, on one day. -/
def firstFile : Str :=
  sampleFile .sample firstDay 1793577600 .null [sampleEnrollment, sampleRecord 1793500000] 1

/-- The same file with an empty line behind the last. -/
def spacedFile : Str := firstFile ++ [ofChar '\n']

/-! ## What a file without a mismatch says -/

variable {R}

theorem loads_ok {x : Str} {v : Json} (h : loads R x = .ok v) : R.loads x = some v := by
  unfold loads at h
  split at h
  next w hw => rw [hw, Except.ok.inj h]
  next => cases h

/-- The value of a line has this type. -/
def lineHasType (R : Runtime) (t : String) (x : Str) : Bool :=
  match R.loads x with
  | some e => (e.find (lit "type")).pyEq (text t)
  | none => false

/-- The record and enrollment lines of a file, in order. -/
def loggedLines (R : Runtime) (text : Str) : List Str :=
  match parse R text with
  | .ok (_, lines) => lines.filter fun x => lineHasType R "record" x || lineHasType R "enrollment" x
  | .error _ => []

theorem hasType_ok {t : String} {e : Json} {b : Bool} (h : hasType t e = .ok b) :
    (∃ kvs, e = .obj kvs) ∧ b = (e.find (lit "type")).pyEq (text t) := by
  obtain ⟨v, hv, rfl⟩ := map_ok.mp h
  refine ⟨?_, by rw [get_eq_find hv]⟩
  cases e with
  | obj kvs => exact ⟨kvs, rfl⟩
  | _ => cases hv

/-- The count over the values of the lines is one over the lines. -/
theorem countType_ok {t : String} {lines : List Str} {ents : List Json} {n : Nat}
    (hents : lines.mapM (loads R) = .ok ents) (h : countType t ents = .ok n) :
    n = lines.countP (lineHasType R t) := by
  obtain ⟨es, hes, rfl⟩ := map_ok.mp h
  have hall := mapM_ok.mp hents
  clear h hents
  induction hall generalizing es with
  | nil =>
    obtain rfl := Except.ok.inj hes
    rfl
  | @cons x e lines ents hx _ ih =>
    obtain ⟨b, rest, hb, hrest, rfl⟩ := filterE_cons hes
    obtain ⟨-, hb⟩ := hasType_ok hb
    have hline : lineHasType R t x = b := by
      unfold lineHasType
      rw [loads_ok hx, hb]
    rw [List.countP_cons, ← ih rest hrest, hline]
    cases b <;> rfl

/-- A line that is the canonical text of an object starts with its brace. -/
theorem head_of_isCanonicalLine {e : Json} {x : Str} (hobj : ∃ kvs, e = .obj kvs)
    (h : isCanonicalLine R e x = .ok true) : x.head? = some (ofChar '{') := by
  obtain ⟨kvs, rfl⟩ := hobj
  obtain ⟨_, -, heq⟩ := map_ok.mp h
  rw [← eq_of_beq heq]
  unfold Runtime.canonText
  rw [normWith]
  cases sortKvs (normKvs id kvs) with
  | nil => rfl
  | cons kv kvs => rfl

theorem head_of_allCanonical {ents : List Json} {lines : List Str}
    (hall : List.Forall₂ (fun x e => loads R x = .ok e) lines ents)
    (hobj : ∀ e ∈ ents, ∃ kvs, e = .obj kvs) (h : allCanonical R ents lines = .ok true) :
    ∀ x ∈ lines, x.head? = some (ofChar '{') := by
  induction hall with
  | nil => exact nofun
  | @cons x e lines ents _ _ ih =>
    obtain ⟨hobj, hrest⟩ := List.forall_mem_cons.mp hobj
    obtain ⟨b, hb, h⟩ := bind_ok.mp h
    cases b with
    | false => cases h
    | true =>
      exact List.forall_mem_cons.mpr ⟨head_of_isCanonicalLine hobj hb, ih hrest h⟩

/-- The digest of a line, a leaf of `merkle`. -/
def leaf (R : Runtime) (x : Str) : Str := R.sha256Hex (utf8Bytes x)

theorem leaf_of_sha256Text {x d : Str} (h : R.sha256Text x = .ok d) : d = leaf R x := by
  obtain ⟨b, hb, rfl⟩ := Runtime.sha256Text_ok h
  rw [leaf, utf8_ok hb]

theorem leaves_of_mapM {lines leaves : List Str} (h : lines.mapM R.sha256Text = .ok leaves) :
    leaves = lines.map (leaf R) := by
  have hall := mapM_ok.mp h
  clear h
  induction hall with
  | nil => rfl
  | cons hx _ ih => rw [leaf_of_sha256Text hx, ih, List.map_cons]

/-- What the header of a file says about its lines, when the file has no mismatch. -/
structure Agrees (R : Runtime) (h : Json) (lines : List Str) : Prop where
  root : h.find (lit "merkle_root") = .str (merkle R (lines.map (leaf R)))
  records : (h.find (lit "n_records")).pyEq (.int (lines.countP (lineHasType R "record"))) = true
  enrollments : (h.find (lit "n_enrollments")).pyEq
    (.int (lines.countP (lineHasType R "enrollment"))) = true
  brace : ∀ x ∈ lines, x.head? = some (ofChar '{')

theorem agrees_of_fileOk {d : Str} {h : Json} {lines : List Str} {ents : List Json}
    (hents : lines.mapM (loads R) = .ok ents) (hok : fileOk R d h lines ents = .ok true) :
    Agrees R h lines := by
  have hcheck {b : Bool} {m : Except PyError Bool}
      (h : (if (!b) = true then pure false else m) = Except.ok true) : b = true ∧ m = .ok true := by
    cases b with
    | false => cases h
    | true => exact ⟨rfl, h⟩
  obtain ⟨schema, -, hok⟩ := bind_ok.mp hok
  obtain ⟨-, hok⟩ := hcheck hok
  obtain ⟨-, hok⟩ := hcheck hok
  obtain ⟨cutoff, -, hok⟩ := bind_ok.mp hok
  obtain ⟨-, hok⟩ := hcheck hok
  obtain ⟨leaves, hleaves, hok⟩ := bind_ok.mp hok
  obtain ⟨hroot, hok⟩ := hcheck hok
  obtain ⟨n, hn, hok⟩ := bind_ok.mp hok
  obtain ⟨hrec, hok⟩ := hcheck hok
  obtain ⟨m, hm, hok⟩ := bind_ok.mp hok
  obtain ⟨henr, hok⟩ := hcheck hok
  have hmap := leaves_of_mapM hleaves
  have hobj : ∀ e ∈ ents, ∃ kvs, e = .obj kvs := by
    obtain ⟨es, hes, -⟩ := map_ok.mp hn
    intro e he
    obtain ⟨b, hb⟩ := ok_of_filterE hes e he
    exact (hasType_ok hb).1
  exact {
    root := by rw [← hmap, (pyEq_str _ _).mp hroot]
    records := by rw [← countType_ok hents hn]; exact hrec
    enrollments := by rw [← countType_ok hents hm]; exact henr
    brace := head_of_allCanonical (mapM_ok.mp hents) hobj hok }

/-! ## The header hash binds the lines -/

/-- `roots[d]` of a file with this text. -/
def headerHash (R : Runtime) (text : Str) : Except PyError Str := do
  let (h, _) ← parse R text
  return R.sha256Hex (← jcs R h)

/-- What `merkle` hashes over lines, the lines themselves included. -/
def merkleInputs (R : Runtime) (lines : List Str) : List Bytes :=
  Merkle.inputs utf8Bytes nodeInput R.sha256Hex Merkle.Tree.duplicate lines

/-- What is hashed for a file. -/
def hashed (R : Runtime) (text : Str) : List Bytes :=
  match parse R text with
  | .ok (h, lines) => utf8Bytes (R.canonText h) :: merkleInputs R lines
  | .error _ => []

/-- What every digest is. -/
def IsDigest (d : Str) : Prop := ∃ b : Bytes, b.length = 32 ∧ d = hexStr b

theorem nodeInput_inj {x y x' y' : Str} (hx : IsDigest x) (hx' : IsDigest x')
    (h : nodeInput x y = nodeInput x' y') : x = x' ∧ y = y' := by
  obtain ⟨b, hb, rfl⟩ := hx
  obtain ⟨b', hb', rfl⟩ := hx'
  refine List.append_inj (utf8Bytes_injective h) ?_
  rw [hexStr_length, hexStr_length, hb, hb']

/-- What is hashed for a pair starts with a hex digit. -/
theorem head_nodeInput {x y : Str} (hx : IsDigest x) : ∃ n < 16, ∃ s,
    x ++ y = hexDigit n :: s := by
  obtain ⟨b, hb, rfl⟩ := hx
  cases b with
  | nil => cases hb
  | cons z zs =>
    have hz : z.toNat < 256 := z.toNat_lt
    exact ⟨_, by omega, _, rfl⟩

/-- A text that starts with another character is not hashed for a pair. -/
theorem utf8Bytes_ne_nodeInput {c : CodePoint} {s x y : Str} (hc : ∀ n < 16, c ≠ hexDigit n)
    (hs : s.head? = some c) (hx : IsDigest x) : utf8Bytes s ≠ nodeInput x y := by
  intro h
  obtain ⟨n, hn, r, hr⟩ := head_nodeInput (y := y) hx
  have hxy : s = x ++ y := utf8Bytes_injective h
  rw [hxy, hr] at hs
  exact hc n hn (Option.some.inj hs).symm

/-- The root over lines is the digest of their tree. -/
theorem root_leaves {xs : List Str} (h : xs ≠ []) :
    Merkle.root (fun left right => R.sha256Hex (nodeInput left right))
      (fun last => R.sha256Hex (nodeInput last last)) (xs.map (leaf R)) =
      some (merkle R (xs.map (leaf R))) := by
  obtain ⟨t, ht⟩ : ∃ t, Merkle.tree Merkle.Tree.duplicate xs = some t := Merkle.exists_tree h
  have hroot : Merkle.root (fun left right => R.sha256Hex (nodeInput left right))
      (fun last => R.sha256Hex (nodeInput last last)) (xs.map (leaf R)) =
      some (t.digest utf8Bytes nodeInput R.sha256Hex) := by
    have hdigest := Merkle.root_eq_digest utf8Bytes nodeInput R.sha256Hex Merkle.Tree.duplicate
      (fun last => R.sha256Hex (nodeInput last last)) (fun _ => rfl) xs
    rwa [ht] at hdigest
  rw [merkle, hroot, Option.getD_some]

/-- Of two lists of lines with one root, one starts with the other. -/
theorem prefix_of_merkle_eq {xs ys : List Str} (hlen : ∀ b, (R.sha256 b).length = 32)
    (hinj : ∀ a ∈ merkleInputs R xs, ∀ b ∈ merkleInputs R ys, R.sha256 a = R.sha256 b → a = b)
    (hx : ∀ x ∈ xs, x.head? = some (ofChar '{')) (hy : ∀ y ∈ ys, y.head? = some (ofChar '{'))
    (h : merkle R (xs.map (leaf R)) = merkle R (ys.map (leaf R))) : xs <+: ys ∨ ys <+: xs := by
  by_cases hxs : xs = []
  · exact Or.inl (hxs ▸ List.nil_prefix)
  by_cases hys : ys = []
  · exact Or.inr (hys ▸ List.nil_prefix)
  have hdigest (b : Bytes) : IsDigest (R.sha256Hex b) := ⟨_, hlen b, rfl⟩
  -- a line starts with a brace, what is hashed for a pair with a hex digit
  have hsep : ∀ t ∈ Merkle.tree Merkle.Tree.duplicate xs,
      ∀ u ∈ Merkle.tree Merkle.Tree.duplicate ys, ∀ a ∈ t.leaves ++ u.leaves, ∀ l r, IsDigest l →
        utf8Bytes a ≠ nodeInput l r := by
    intro t ht u hu a ha l r hl
    have hbrace : a.head? = some (ofChar '{') := by
      rcases List.mem_append.mp ha with ha | ha
      · exact hx a (Merkle.mem_of_mem_leaves_duplicate ht ha)
      · exact hy a (Merkle.mem_of_mem_leaves_duplicate hu ha)
    exact utf8Bytes_ne_nodeInput (by decide) hbrace hl
  have hys := root_leaves (R := R) hys
  rw [← h] at hys
  obtain ⟨t, u, ht, hu, hleaves⟩ := Merkle.leafInputs_eq_of_root_eq utf8Bytes nodeInput
    R.sha256Hex Merkle.Tree.duplicate (fun last => R.sha256Hex (nodeInput last last))
    (fun _ => rfl) hdigest (fun _ _ _ _ => nodeInput_inj) hsep
    (fun a ha b hb hab => hinj a ha b hb (hexStr_injective hab)) (root_leaves hxs) hys
  have htu : t.leaves = u.leaves := List.map_injective_iff.mpr utf8Bytes_injective hleaves
  -- both lists start the leaves of one tree
  have hpx := Merkle.prefix_leaves_duplicate ht
  have hpy := Merkle.prefix_leaves_duplicate hu
  rw [htu] at hpx
  exact List.prefix_or_prefix_of_prefix hpx hpy

/-- Lines that others start with, as many of each of two kinds: the same lines of these
kinds. -/
theorem filter_eq_of_initial {p q : Str → Bool} {xs ys : List Str} (h : xs <+: ys)
    (hp : xs.countP p = ys.countP p) (hq : xs.countP q = ys.countP q) :
    xs.filter (fun x => p x || q x) = ys.filter fun x => p x || q x := by
  obtain ⟨zs, rfl⟩ := h
  rw [List.countP_append] at hp hq
  have hp0 : zs.countP p = 0 := by omega
  have hq0 : zs.countP q = 0 := by omega
  rw [List.countP_eq_zero] at hp0 hq0
  have hzs : zs.filter (fun x => p x || q x) = [] := by
    rw [List.filter_eq_nil_iff]
    intro z hz
    simp only [Bool.or_eq_true, not_or]
    exact ⟨hp0 z hz, hq0 z hz⟩
  rw [List.filter_append, hzs, List.append_nil]

/-- What the first loop reads of a file. -/
theorem loadFile_ok {d text : Str} {f : LogFile} (h : loadFile R d text = .ok f) :
    f.date = d ∧ ∃ header lines, parse R text = .ok (header, lines) ∧
      lines.mapM (loads R) = .ok f.entries ∧
      fileOk R d header lines f.entries = .ok f.ok ∧
      ∃ b, jcs R header = .ok b := by
  obtain ⟨⟨header, lines⟩, hparse, h⟩ := bind_ok.mp h
  obtain ⟨ents, hents, h⟩ := bind_ok.mp h
  obtain ⟨ok, hok, h⟩ := bind_ok.mp h
  obtain ⟨b, hb, h⟩ := bind_ok.mp h
  obtain rfl := Except.ok.inj h
  exact ⟨rfl, header, lines, hparse, hents, hok, b, hb⟩

/-- The files of a run that reports no mismatch for `d` include the one of `d`, and
its header agrees with its lines. -/
theorem compute_agrees {subject frm upTo : Json} {files : List (Str × Str)}
    {out : Fields × List Str} {d text : Str} (h : compute R subject frm upTo files = .ok out)
    (hd : files.lookup d = some text) (hok : rootMismatch d ∉ out.2) :
    ∃ header lines, parse R text = .ok (header, lines) ∧ Agrees R header lines ∧
      ∃ b, jcs R header = .ok b := by
  obtain ⟨parsed, hparsed, h⟩ := bind_ok.mp h
  obtain ⟨broken, -, h⟩ := bind_ok.mp h
  have hmem : (d, text) ∈ sortKvs files := mem_of_lookup (by rw [lookup_sortKvs, hd])
  obtain ⟨f, hf, hload⟩ := mem_mapM_of_mem hparsed hmem
  obtain ⟨hdate, header, lines, hparse, hents, hfile, hb⟩ := loadFile_ok hload
  have hproblems : f.ok = false → rootMismatch d ∈ out.2 := by
    intro hbad
    have hin : rootMismatch d ∈
        (parsed.filter (!·.ok)).map (rootMismatch ·.date) ++ broken.flatten := by
      refine List.mem_append_left _ (List.mem_map.mpr ⟨f, List.mem_filter.mpr ⟨hf, ?_⟩, ?_⟩)
      · rw [hbad]
        rfl
      · rw [hdate]
    dsimp only at h
    split at h
    · obtain ⟨fields, -, h⟩ := bind_ok.mp h
      rw [← Except.ok.inj h]
      exact hin
    · cases h
  cases hfok : f.ok with
  | false => exact absurd (hproblems hfok) hok
  | true =>
    rw [hfok] at hfile
    exact ⟨header, lines, hparse, agrees_of_fileOk hents hfile, hb⟩

/-- A number is the same number up to key order. -/
theorem int_eq_of_sameValue {a b : Json} {m n : Int} (h : SameValue a b)
    (ha : a.pyEq (.int m) = true) (hb : b.pyEq (.int n) = true) : m = n := by
  rw [pyEq_int] at ha hb
  have hab := h.normWith id
  rw [normWith_of_pyLeaf ha, normWith_of_pyLeaf hb] at hab
  rw [hab, hb] at ha
  exact (Json.int.inj ha).symm

/-- Two files of one day whose headers have one hash hold the same record and
enrollment lines in the same order, when neither run reports a mismatch for the
day. -/
theorem loggedLines_eq {subject frm upTo subject' frm' upTo' : Json}
    {files files' : List (Str × Str)} {out out' : Fields × List Str} {d text text' : Str}
    (h : compute R subject frm upTo files = .ok out) (hd : files.lookup d = some text)
    (hok : rootMismatch d ∉ out.2)
    (h' : compute R subject' frm' upTo' files' = .ok out') (hd' : files'.lookup d = some text')
    (hok' : rootMismatch d ∉ out'.2) (hroot : headerHash R text = headerHash R text')
    (hf : R.dumpsFormat.Lawful) (hlen : ∀ b, (R.sha256 b).length = 32)
    (hinj : ∀ a ∈ hashed R text, ∀ b ∈ hashed R text', R.sha256 a = R.sha256 b → a = b) :
    loggedLines R text = loggedLines R text' := by
  obtain ⟨header, xs, hparse, hagree, b, hb⟩ := compute_agrees h hd hok
  obtain ⟨header', ys, hparse', hagree', b', hb'⟩ := compute_agrees h' hd' hok'
  simp only [hashed, hparse, hparse', List.mem_cons, forall_eq_or_imp] at hinj
  -- the headers are one value
  have hsame : SameValue header header' := by
    have hr : headerHash R text = .ok (R.sha256Hex b) :=
      bind_ok.mpr ⟨_, hparse, bind_ok.mpr ⟨b, hb, rfl⟩⟩
    have hr' : headerHash R text' = .ok (R.sha256Hex b') :=
      bind_ok.mpr ⟨_, hparse', bind_ok.mpr ⟨b', hb', rfl⟩⟩
    rw [hr, hr'] at hroot
    have hsha := hexStr_injective (Except.ok.inj hroot)
    rw [utf8_ok hb, utf8_ok hb'] at hsha
    exact R.normWith_eq_of_canonText_eq hf (utf8Bytes_injective (hinj.1.1 hsha))
  have hmerkle : merkle R (xs.map (leaf R)) = merkle R (ys.map (leaf R)) := by
    have hfind := hsame.find (lit "merkle_root")
    rw [hagree.root, hagree'.root] at hfind
    exact Json.str.inj hfind
  have hrec := int_eq_of_sameValue (hsame.find _) hagree.records hagree'.records
  have henr := int_eq_of_sameValue (hsame.find _) hagree.enrollments hagree'.enrollments
  rw [Int.natCast_inj] at hrec henr
  simp only [loggedLines, hparse, hparse']
  -- a line that one file has more would be counted by its header
  rcases prefix_of_merkle_eq hlen (fun a ha b hb => (hinj.2 a ha).2 b hb) hagree.brace
    hagree'.brace hmerkle with hp | hp
  · exact filter_eq_of_initial hp hrec henr
  · exact (filter_eq_of_initial hp hrec.symm henr.symm).symm

theorem firstFile_loggedLines : loggedLines .sample firstFile = loggedLines .sample spacedFile := by
  obtain ⟨out, h, hok⟩ := map_ok.mp (show (compute .sample (text "k") (.str firstDay) (.str firstDay)
    [(firstDay, firstFile)]).map (·.2) = .ok [] by decide +kernel)
  obtain ⟨out', h', hok'⟩ := map_ok.mp (show (compute .sample (text "k") (.str firstDay)
    (.str firstDay) [(firstDay, spacedFile)]).map (·.2) = .ok [] by decide +kernel)
  refine loggedLines_eq (d := firstDay) h (by decide +kernel) ?_ h' (by decide +kernel) ?_
    (by decide +kernel) (Runtime.floatToken_lawful false) (fun _ => List.length_replicate)
    (by decide +kernel)
  · rw [hok]
    exact List.not_mem_nil
  · rw [hok']
    exact List.not_mem_nil

/-! ## The counts are those of the last day -/

/-- The values of the lines of the file of the day `d`; none where no file is supplied. -/
def entriesOf (R : Runtime) (files : List (Str × Str)) (d : Str) : Except PyError (List Json) :=
  match files.lookup d with
  | some text => do (← parse R text).2.mapM (loads R)
  | none => .ok []

/-- What is kept of the day `d` is read from its file. -/
theorem fileOf_of_mapM {files : List (Str × Str)} {parsed : List LogFile}
    (h : files.mapM (fun f => loadFile R f.1 f.2) = .ok parsed) (d : Str) :
    match files.lookup d with
    | some text => ∃ f, fileOf parsed d = some f ∧ loadFile R d text = .ok f
    | none => fileOf parsed d = none := by
  have hall := mapM_ok.mp h
  clear h
  induction hall with
  | nil => rfl
  | @cons b f files parsed hload _ ih =>
    obtain ⟨k, text⟩ := b
    obtain ⟨hdate, -⟩ := loadFile_ok hload
    dsimp only at hdate hload
    rw [lookup_cons_if]
    by_cases hd : d = k
    · subst hd
      rw [if_pos rfl]
      refine ⟨f, ?_, hload⟩
      rw [fileOf, List.find?_cons_of_pos]
      simpa using hdate
    · rw [if_neg hd]
      have hne : f.date ≠ d := hdate ▸ Ne.symm hd
      have hskip : fileOf (f :: parsed) d = fileOf parsed d := by
        rw [fileOf, List.find?_cons_of_neg (by simpa using hne), fileOf]
      rw [hskip]
      exact ih

theorem entriesOf_eq {files : List (Str × Str)} {parsed : List LogFile}
    (h : (sortKvs files).mapM (fun f => loadFile R f.1 f.2) = .ok parsed) (d : Str) :
    entriesOf R files d = .ok (((fileOf parsed d).map (·.entries)).getD []) := by
  have hfile := fileOf_of_mapM h d
  rw [lookup_sortKvs] at hfile
  unfold entriesOf
  cases hlook : files.lookup d with
  | some text =>
    rw [hlook] at hfile
    obtain ⟨f, hf, hload⟩ := hfile
    obtain ⟨-, header, lines, hparse, hents, -⟩ := loadFile_ok hload
    rw [hf]
    exact bind_ok.mpr ⟨_, hparse, hents⟩
  | none =>
    rw [hlook] at hfile
    rw [hfile]
    rfl

theorem periodFields_records {subject : Json} {frm upTo : Str} {parsed : List LogFile}
    {fields : Fields} (h : periodFields R subject frm upTo parsed = .ok fields) :
    ∃ lo hi, day0 R frm = .ok lo ∧ day0 R upTo = .ok hi ∧
      filterE (inScope subject lo (hi + daySeconds))
        (((fileOf parsed upTo).map (·.entries)).getD []) = .ok fields.records := by
  obtain ⟨days, -, h⟩ := bind_ok.mp h
  obtain ⟨enr, -, h⟩ := bind_ok.mp h
  obtain ⟨enrolledAt, -, h⟩ := bind_ok.mp h
  obtain ⟨nm, -, h⟩ := bind_ok.mp h
  obtain ⟨lo, hlo, h⟩ := bind_ok.mp h
  obtain ⟨hi, hhi, h⟩ := bind_ok.mp h
  obtain ⟨recs, hrecs, h⟩ := bind_ok.mp h
  obtain ⟨⟨verdict, sig⟩, -, h⟩ := bind_ok.mp h
  rw [← Except.ok.inj h]
  exact ⟨lo, hi, hlo, hhi, hrecs⟩

/-- The records of a result are the lines in scope of the file of the last day. -/
theorem compute_records {subject frm upTo : Json} {files : List (Str × Str)}
    {out : Fields × List Str} (h : compute R subject frm upTo files = .ok out) :
    ∃ a b lo hi ents, frm = .str a ∧ upTo = .str b ∧ day0 R a = .ok lo ∧ day0 R b = .ok hi ∧
      entriesOf R files b = .ok ents ∧
      filterE (inScope subject lo (hi + daySeconds)) ents = .ok out.1.records := by
  obtain ⟨parsed, hparsed, h⟩ := bind_ok.mp h
  obtain ⟨broken, -, h⟩ := bind_ok.mp h
  dsimp only at h
  cases frm with
  | str a =>
    cases upTo with
    | str b =>
      obtain ⟨fields, hfields, h⟩ := bind_ok.mp h
      rw [← Except.ok.inj h]
      obtain ⟨lo, hi, hlo, hhi, hrecs⟩ := periodFields_records hfields
      exact ⟨a, b, lo, hi, _, rfl, rfl, hlo, hhi, entriesOf_eq hparsed b, hrecs⟩
    | _ => cases h
  | _ => cases h

theorem find_of_orElse {x : Json} {k s : Str} (h : (x.orElse (.obj [])).find k = .str s) :
    x.find k = .str s := by
  unfold orElse at h
  split at h
  · exact h
  · cases h

/-- The number of records of the counts that a statement without a mismatch names. -/
theorem counts_records {statement : Json} {fields : Fields}
    (h : fieldProblem statement ("counts", fields.counts) = []) :
    ((statement.find (lit "counts")).find (lit "records")).pyEq
      (.int fields.records.length) = true := by
  unfold fieldProblem at h
  split at h
  next heq =>
    rw [Option.any_eq_true] at heq
    obtain ⟨j, hj, heq⟩ := heq
    obtain ⟨verdict, -, hj⟩ := Option.bind_eq_some_iff.mp hj
    obtain ⟨sig, -, hj⟩ := Option.bind_eq_some_iff.mp hj
    rw [← Option.some.inj hj] at heq
    have hfind := pySame_find (pySame_of_pyEq heq) (lit "records")
    rw [find_object_cons, pySame_int] at hfind
    exact (pyEq_int _ _).mpr hfind
  next => cases h

/-! ## The two days of a sample statement -/

/-- `log_root` of a file, as a value. -/
def logRoot (text : Str) : Json :=
  match headerHash .sample text with
  | .ok root => .str root
  | .error _ => .null

/-- The file of the day after `firstFile`, chained to it, without its record. -/
def forgetfulFile : Str :=
  sampleFile .sample lastDay 1793664000 (logRoot firstFile) [sampleEnrollment] 0

/-- The same day as a cumulative log has it. -/
def cumulativeFile : Str :=
  sampleFile .sample lastDay 1793664000 (logRoot firstFile)
    [sampleEnrollment, sampleRecord 1793500000] 1

/-- A statement on the two days, with `n` records that are all signed and pass. -/
def sampleStatement (lastFile : Str) (n : Int) (verdict : Json) (rate : Json) : Json := object
  [("schema", text "invinoveritas.work-acceptance.pattern_statement.v0"),
    ("subject_key", text "k"),
    ("period", object [("from", .str firstDay), ("to", .str lastDay)]),
    ("log", object [("first_root", logRoot firstFile), ("last_root", logRoot lastFile)]),
    ("measured", text "measured"), ("not_measured_days", .arr []), ("enrolled_at", .int 0),
    ("counts", object [("records", .int n), ("verdict", verdict),
      ("producer_signature",
        object [("present", .int n), ("absent", .int 0), ("declined", .int 0)])]),
    ("decline_rate", rate)]

def cumulativeStatement : Json :=
  sampleStatement cumulativeFile 1 (object [("pass", .int 1)]) (.int 0)

def forgetfulStatement : Json := sampleStatement forgetfulFile 0 (.obj []) .null

/-- The records that a consistent statement counts are those of the file of the
period's last day: the lines in scope of that file, each of them, and of no
other. -/
theorem consistent_counts {statement : Json} {files : List (Str × Str)} {out : Outcome}
    (h : check R statement files = .ok out) (hc : out.result = .consistent) :
    ∃ frm upTo lo hi ents recs,
      (statement.find (lit "period")).find (lit "from") = .str frm ∧
      (statement.find (lit "period")).find (lit "to") = .str upTo ∧
      day0 R frm = .ok lo ∧ day0 R upTo = .ok hi ∧ entriesOf R files upTo = .ok ents ∧
      filterE (inScope (statement.find (lit "subject_key")) lo (hi + daySeconds)) ents = .ok recs ∧
      ((statement.find (lit "counts")).find (lit "records")).pyEq (.int recs.length) = true := by
  obtain ⟨schema, -, h⟩ := bind_ok.mp h
  split at h
  · rw [← Except.ok.inj h] at hc
    cases hc
  dsimp only at h
  obtain ⟨frm, hfrm, h⟩ := bind_ok.mp h
  obtain ⟨⟨fields, problems⟩, hcompute, hout⟩ := bind_ok.mp h
  obtain ⟨a, b, lo, hi, ents, ha, hb, hlo, hhi, hents, hrecs⟩ := compute_records hcompute
  rw [← Except.ok.inj hout] at hc
  have hempty : (problems ++ (if ((statement.find (lit "log")).orElse (.obj [])).pyEq fields.log
      then [] else [lit "LOG_REFERENCE_MISMATCH"]) ++
      fields.compared.flatMap (fieldProblem statement)).isEmpty = true := by
    by_contra hne
    have hbad := hc.symm.trans (if_neg hne)
    cases hbad
  rw [List.isEmpty_iff, List.append_eq_nil_iff, List.flatMap_eq_nil_iff] at hempty
  have hmem : ("counts", fields.counts) ∈ fields.compared := by simp [Fields.compared]
  exact ⟨a, b, lo, hi, ents, fields.records, find_of_orElse (get_eq_find hfrm ▸ ha),
    find_of_orElse hb, hlo, hhi, hents, hrecs, counts_records (hempty.2 _ hmem)⟩

theorem cumulative_record :
    ∃ frm upTo lo hi ents recs,
      (cumulativeStatement.find (lit "period")).find (lit "from") = .str frm ∧
      (cumulativeStatement.find (lit "period")).find (lit "to") = .str upTo ∧
      day0 .sample frm = .ok lo ∧ day0 .sample upTo = .ok hi ∧
      entriesOf .sample [(firstDay, firstFile), (lastDay, cumulativeFile)] upTo = .ok ents ∧
      filterE (inScope (cumulativeStatement.find (lit "subject_key")) lo (hi + daySeconds)) ents
        = .ok recs ∧
      ((cumulativeStatement.find (lit "counts")).find (lit "records")).pyEq
        (.int recs.length) = true := by
  obtain ⟨out, h, hc⟩ := map_ok.mp (show (check .sample cumulativeStatement
    [(firstDay, firstFile), (lastDay, cumulativeFile)]).map (·.result) = .ok .consistent
    by decide +kernel)
  exact consistent_counts h hc

/-- A record of the first file, inside the period, that a consistent statement does
not count. -/
theorem forgotten_record :
    (check .sample forgetfulStatement
      [(firstDay, firstFile), (lastDay, forgetfulFile)]).map (·.result) = .ok .consistent ∧
    (forgetfulStatement.find (lit "counts")).find (lit "records")
      = .int 0 ∧
    entriesOf .sample [(firstDay, firstFile), (lastDay, forgetfulFile)] firstDay =
      .ok [sampleEnrollment, sampleRecord 1793500000] ∧
    day0 .sample firstDay = .ok 1793491200 ∧ day0 .sample lastDay = .ok 1793577600 ∧
    inScope (text "k") 1793491200 (1793577600 + daySeconds) (sampleRecord 1793500000) =
      .ok true := by
  decide +kernel

end Preaction.PatternStatement
