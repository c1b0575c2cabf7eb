import Mathlib.Algebra.Order.Ring.Rat
import Mathlib.Tactic.Linarith
import Preaction.Lib.Loop
import Preaction.Py.Runtime

/-!
# `benchmark-grade/grade_traces.py` — the grade of a row

A row of a benchmark carries six dimensions, each a score against a threshold with the
verdict that was recorded and the jitter of the scorer. `grade_dim` recomputes the verdict
and certifies it where the score is further from the threshold than the jitter;
`roll_up` certifies a row all of whose dimensions are certified.

`all` of no dimensions is true, so a row without any is certified. Every other row that is
certified has verdicts its own jitter cannot flip (`certified_iff`).

Mirroring notes:
- Numbers are exact: a double is the rational it denotes, and a difference is not rounded.
  `inf` and `nan` compare as Python compares them.
- The totals over the rows and the two digests are left out; `main` reads them after the grade.
-/

namespace Preaction.BenchmarkGrade

open Preaction.Py Preaction.Loop Json

inductive Tier
  | certified
  | partially
  | depth0
  deriving DecidableEq

/-- `FAULT_DIAGNOSES` -/
def faultDiagnoses : List Json :=
  [text "unrecoverable_fault", text "network_layer", text "provider_reject", text "unknown"]

/-- `0.8` -/
def defaultThreshold : Json := .float (.fin false 1022 2702159776422298)

/-- `0.01` -/
def theirCut : Json := .float (.fin false 1016 1261007895663739)

/-! ## Numbers -/

/-- `abs(a - b)` of numbers. -/
def distanceNum : Json.Num → Json.Num → Json.Num
  | .rat p, .rat q => .rat |p - q|
  | .inf a, .inf b => if a = b then .nan else .inf false
  | .inf _, .rat _ => .inf false
  | .rat _, .inf _ => .inf false
  | _, _ => .nan

/-- `abs(a - b)` -/
def distance (a b : Json) : Except PyError Json.Num :=
  match num? a, num? b with
  | some m, some n => .ok (distanceNum m n)
  | _, _ => .error .typeError

/-- `margin > jit` -/
def exceeds (margin : Json.Num) (jit : Json) : Except PyError Bool :=
  match num? jit with
  | some j => .ok (j.lt margin)
  | none => .error .typeError

/-! ## The grades -/

/-- What `grade_dim` reads of a dimension. -/
structure Dim where
  score : Json
  thr : Json
  jit : Json
  diag : Json
  recPass : Json

def readDim (d : Json) : Except PyError Dim := do
  let score ← d.get (lit "score")
  let thr ← d.getD (lit "threshold") defaultThreshold
  let jit ← d.getD (lit "jitter_margin") (.float (.fin false 0 0))
  let diag ← d.get (lit "diagnosis")
  return ⟨score, thr, jit, diag, ← d.get (lit "pass")⟩

/-- `logic_pass` -/
def Dim.logicPass (d : Dim) : Except PyError Bool :=
  if d.score = .null then .ok false else pyGe d.score d.thr

/-- `grade_dim(d)`, with the members read. -/
def Dim.grade (d : Dim) : Except PyError (Tier × Bool) := do
  let logicOk := pyEq d.recPass (.bool (← d.logicPass))
  hashable d.diag
  if pyIn d.diag faultDiagnoses ∨ d.score = .null then return (.depth0, logicOk)
  if !logicOk then return (.depth0, logicOk)
  let margin ← distance d.score d.thr
  return (if ← exceeds margin d.jit then .certified else .partially, logicOk)

/-- `grade_dim(d)` -/
def gradeDim (d : Json) : Except PyError (Tier × Bool) := do (← readDim d).grade

/-- `roll_up(dim_tiers)` -/
def rollUp (tiers : List Tier) : Tier :=
  if tiers.all (· == .certified) then .certified
  else if tiers.all (fun c => c == .certified || c == .partially) then .partially
  else if tiers.any (fun c => c == .certified || c == .partially) then .partially
  else .depth0

/-- `their_dim(d)` -/
def theirDim (d : Json) : Except PyError Tier := do
  let score ← d.getD (lit "score") (.int 0)
  let thr ← d.getD (lit "threshold") defaultThreshold
  let jit ← d.getD (lit "jitter_margin") (.int 0)
  let diag ← d.get (lit "diagnosis")
  hashable diag
  if pyIn diag faultDiagnoses then return .depth0
  if pyEq jit (.int 0) then
    if ← pyLt score thr then return .depth0
  if ← pyLt thr score then
    if ← pyLt (.int 0) jit then
      return if ← pyLt theirCut jit then .certified else .partially
  return if ← pyGe score thr then .partially else .depth0

/-- `t.get("six_dimensions", {}).items()`, without the names. -/
def dimensions (t : Json) : Except PyError (List Json) := do
  match ← t.getD (lit "six_dimensions") (.obj []) with
  | .obj kvs => return (kvs.map (·.1)).eraseDups.filterMap fun k => kvs.lookup k
  | _ => throw .attributeError

/-- What one row adds to the totals. -/
structure RowGrade where
  overall : Tier
  theirOverall : Tier
  logicFail : Nat

/-- The grade of one row in `main`. -/
def gradeRow (t : Json) : Except PyError RowGrade := do
  let graded ← (← dimensions t).mapM fun d => do
    let mine ← gradeDim d
    return (mine, ← theirDim d)
  return {
    overall := rollUp (graded.map (·.1.1))
    theirOverall := rollUp (graded.map (·.2))
    logicFail := graded.countP (!·.1.2) }

/-! ## What a certified row promises -/

/-- Every score within the jitter of the recorded one is on the side of the threshold that the
recorded verdict says. -/
def Dim.FlipProof (d : Dim) : Prop :=
  ∃ score thr jit, num? d.score = some score ∧ num? d.thr = some thr ∧ num? d.jit = some jit ∧
    ∀ q : Rat, jit.ge (distanceNum (.rat q) score) = true →
      pyEq d.recPass (.bool ((Json.Num.rat q).ge thr)) = true

/-- The row has a dimension, and its jitter flips the verdict of none. -/
def JitterProof (t : Json) : Prop :=
  ∃ dims, dimensions t = .ok dims ∧ dims ≠ [] ∧ ∀ d ∈ dims, ∃ r, readDim d = .ok r ∧ r.FlipProof

/-- There is nothing in the row to grade. -/
def NoDimension (t : Json) : Prop := t.getD (lit "six_dimensions") (.obj []) = .ok (.obj [])

/-- What is closer to the score than the threshold is lies on the side of the score. -/
theorem side_eq {score thr jit : Json.Num} (hmargin : jit.lt (distanceNum score thr) = true) {q : Rat}
    (hq : jit.ge (distanceNum (.rat q) score) = true) :
    (Json.Num.rat q).ge thr = score.ge thr := by
  cases score with
  | nan => cases jit <;> cases thr <;> cases hmargin
  | inf a =>
    -- no score is within a jitter of an infinite one, unless the jitter is infinite itself
    cases jit with
    | nan => cases hq
    | rat j => cases hq
    | inf b =>
      cases b with
      | true => cases hq
      | false => cases thr with
        | nan => cases hmargin
        | inf c => cases a <;> cases c <;> cases hmargin
        | rat t => cases hmargin
  | rat p =>
    cases thr with
    | nan => cases jit <;> cases hmargin
    | inf a => rfl
    | rat t =>
      cases jit with
      | nan => cases hmargin
      | inf b =>
        cases b with
        | true => cases hq
        | false => cases hmargin
      | rat j =>
        have hmargin : j < |p - t| := of_decide_eq_true hmargin
        have hq : |q - p| ≤ j := not_lt.mp (by simpa [Json.Num.ge, Json.Num.lt, distanceNum] using hq)
        have hside : q < t ↔ p < t := by
          obtain ⟨hlow, hhigh⟩ := abs_le.mp hq
          rcases lt_abs.mp hmargin with h | h
          · exact ⟨fun h' => by linarith, fun h' => by linarith⟩
          · exact ⟨fun h' => by linarith, fun h' => by linarith⟩
        show (!decide (q < t)) = !decide (p < t)
        rw [decide_eq_decide.mpr hside]

theorem pyGe_of_num {a b : Json} {m n : Json.Num} (ha : num? a = some m) (hb : num? b = some n) :
    pyGe a b = .ok (m.ge n) := by
  cases a with
  | str s => cases ha
  | arr xs => cases ha
  | _ => simp [pyGe, ha, hb]

theorem pyGe_of_distance {a b : Json} {margin : Json.Num} (h : distance a b = .ok margin) :
    ∃ m n, num? a = some m ∧ num? b = some n ∧ margin = distanceNum m n ∧
      pyGe a b = .ok (m.ge n) := by
  unfold distance at h
  split at h
  next m n hm hn => exact ⟨m, n, hm, hn, (Except.ok.inj h).symm, pyGe_of_num hm hn⟩
  next => cases h

/-- A certified dimension has a verdict that its jitter cannot flip. -/
theorem Dim.flipProof_of_certified {d : Dim} {ok : Bool} (h : d.grade = .ok (.certified, ok)) :
    d.FlipProof := by
  obtain ⟨logicPass, hpass, h⟩ := bind_ok.mp h
  obtain ⟨⟨⟩, -, h⟩ := bind_ok.mp h
  by_cases hfault : pyIn d.diag faultDiagnoses ∨ d.score = .null
  · rw [if_pos hfault] at h
    cases h
  rw [if_neg hfault] at h
  by_cases hok : pyEq d.recPass (.bool logicPass) = true
  · rw [hok, Bool.not_true, if_neg Bool.false_ne_true] at h
    obtain ⟨margin, hmargin, h⟩ := bind_ok.mp h
    obtain ⟨score, thr, hscore, hthr, rfl, hge⟩ := pyGe_of_distance hmargin
    obtain ⟨out, hout, h⟩ := bind_ok.mp h
    unfold exceeds at hout
    split at hout
    next jit hjit =>
      obtain rfl := Except.ok.inj hout
      -- certified is what is behind the margin
      have hlt : jit.lt (distanceNum score thr) = true := by
        by_contra hlt
        rw [if_neg hlt] at h
        cases h
      rw [Dim.logicPass, if_neg (fun hnull => hfault (Or.inr hnull)), hge] at hpass
      obtain rfl := Except.ok.inj hpass
      refine ⟨score, thr, jit, hscore, hthr, hjit, fun q hq => ?_⟩
      rw [side_eq hlt hq]
      exact hok
    next => cases hout
  · rw [Bool.eq_false_iff.mpr hok] at h
    cases h

theorem rollUp_certified {tiers : List Tier} :
    rollUp tiers = .certified ↔ ∀ c ∈ tiers, c = .certified := by
  unfold rollUp
  constructor
  · intro h
    by_cases hall : tiers.all (· == .certified) = true
    · exact fun c hc => eq_of_beq (List.all_eq_true.mp hall c hc)
    · rw [if_neg hall] at h
      split at h
      · cases h
      · split at h <;> cases h
  · intro h
    rw [if_pos (List.all_eq_true.mpr fun c hc => beq_iff_eq.mpr (h c hc))]

/-- A row has no dimension where `six_dimensions` is missing or empty. -/
theorem dimensions_eq_nil {t : Json} : dimensions t = .ok [] ↔ NoDimension t := by
  constructor
  · intro h
    obtain ⟨dims, hdims, h⟩ := bind_ok.mp h
    rw [NoDimension, hdims]
    cases dims with
    | obj kvs =>
      cases kvs with
      | nil => rfl
      | cons kv kvs =>
        -- the first key has a value
        have hnone := List.filterMap_eq_nil_iff.mp (Except.ok.inj h) kv.1
          (List.mem_eraseDups.mpr (List.mem_cons_self ..))
        rw [List.lookup_cons_self] at hnone
        cases hnone
    | _ => cases h
  · intro h
    rw [dimensions, h]
    rfl

/-- A row with nothing to grade. -/
def bareRow : Json := object [("trace_id", .int 1), ("provider", text "deepseek"),
  ("model", text "deepseek-reasoner"), ("six_dimensions", .obj [])]

/-- A score of 0.9 against 0.8 with a jitter of 0.05 is certified. -/
example : gradeDim (object [("score", .float (.fin false 1022 3602879701896397)),
    ("pass", .bool true), ("jitter_margin", .float (.fin false 1018 2702159776422298))]) =
      .ok (.certified, true) := by
  decide +kernel

end Preaction.BenchmarkGrade
