import Preaction.Ed25519Ref
import Preaction.Lib.Chain
import Preaction.Lib.Loop
import Preaction.Py.Base64
import Preaction.Py.JsonAscii

/-!
# `x402-receipt-private-opening/statement.py` — the statement log

A verifier's statements sit in a log: `seq` counts from 0, `prev` is the digest
of the statement before, and each statement is signed. `log_ok` reads it from
the front and stops at the first statement that does not fit.

The last statement of an accepted log binds the whole log (`log_bound_by_last`):
`seq` fixes the length, and going down, `prev` fixes the statement before up to
key order, since the canonical text of what was parsed has one value.

Mirroring notes:
- Equality of statements is Python's `==`, where `True` and `1.0` are `1`; so is
  the comparison of `seq`.
- Whatever `signature_ok` raises inside its `try` is `False`.
-/

namespace Preaction.PrivateOpening

open Preaction.Py Preaction.Chain Preaction.Loop Json

variable (R : Runtime)

/-- `ZERO` -/
def zero : Str := List.replicate 64 (ofChar '0')

/-- `canon(obj)` -/
def canon (o : Json) : Bytes := utf8Bytes (R.asciiText o)

/-- `_unb64u(s)`; none where it raises. -/
def unb64u (x : Json) : Option Bytes :=
  match x with
  | .str s => urlsafeB64decode (s ++ List.replicate ((4 - s.length % 4) % 4) (ofChar '='))
  | _ => none

/-- `{k: v for k, v in st.items() if k != "signature"}` -/
def body (kvs : List (Str × Json)) : Json := .obj (kvs.filter fun kv => kv.1 ≠ lit "signature")

/-- `signature_ok(st)` -/
def signatureOk : Json → Except PyError Bool
  | .obj kvs =>
    match unb64u ((Json.obj kvs).find (lit "verifier")),
        unb64u ((Json.obj kvs).find (lit "signature")) with
    | some key, some signature => .ok (Ed25519Ref.verify R key (canon R (body kvs)) signature)
    | _, _ => .ok false
  | _ => .error .attributeError

/-- The digest the next statement names. -/
def statementHash (st : Json) : Str := R.sha256Hex (canon R st)

/-- One statement, behind `i` others. -/
def statementOk (prev : Str) (i : Nat) (st : Json) : Except PyError Bool := do
  if !(← st.get (lit "seq")).pyEq (.int i) then return false
  if !(st.find (lit "prev")).pyEq (.str prev) then return false
  signatureOk R st

/-- The loop of `log_ok`, behind `i` statements. -/
def logFrom : Str → Nat → List Json → Except PyError Bool
  | _, _, [] => .ok true
  | prev, i, st :: rest => do
    if !(← statementOk R prev i st) then return false
    logFrom (statementHash R st) (i + 1) rest

/-- `log_ok(statements)` -/
def logOk (statements : List Json) : Except PyError Bool := logFrom R zero 0 statements

/-- The log is the value of a text of Unicode scalar values. -/
def ParsedLog (statements : List Json) : Prop :=
  ∃ t, Scalar t ∧ R.loads t = some (.arr statements)

/-! ## An accepted log -/

variable {R}

/-- `prev` of a statement. -/
def prevOf (st : Json) : Json := st.find (lit "prev")

/-- The digest of a statement, as a value. -/
def link (R : Runtime) (st : Json) : Json := .str (statementHash R st)

theorem statementOk_true {prev : Str} {i : Nat} {st : Json}
    (h : statementOk R prev i st = .ok true) :
    (st.find (lit "seq")).pyEq (.int i) = true ∧ prevOf st = .str prev := by
  obtain ⟨seq, hseq, h⟩ := bind_ok.mp h
  rw [get_eq_find hseq] at h
  split at h
  · cases h
  next hs =>
    split at h
    · cases h
    next hp =>
      rw [Bool.not_eq_true', Bool.not_eq_false] at hs hp
      exact ⟨hs, (pyEq_str _ _).mp hp⟩

theorem logFrom_cons {prev : Str} {i : Nat} {st : Json} {rest : List Json} :
    logFrom R prev i (st :: rest) = .ok true ↔
      statementOk R prev i st = .ok true ∧ logFrom R (statementHash R st) (i + 1) rest = .ok true := by
  constructor
  · intro h
    obtain ⟨b, hb, h⟩ := bind_ok.mp h
    cases b with
    | false => cases h
    | true => exact ⟨hb, h⟩
  · rintro ⟨hst, hrest⟩
    exact bind_ok.mpr ⟨true, hst, hrest⟩

/-- What comes first in an accepted log is an accepted log. -/
theorem logFrom_append {prev : Str} {i : Nat} {xs ys : List Json}
    (h : logFrom R prev i (xs ++ ys) = .ok true) : logFrom R prev i xs = .ok true := by
  induction xs generalizing prev i with
  | nil => rfl
  | cons x xs ih =>
    rw [List.cons_append, logFrom_cons] at h
    exact logFrom_cons.mpr ⟨h.1, ih h.2⟩

theorem linked_of_logFrom {prev : Str} {i : Nat} {xs : List Json}
    (h : logFrom R prev i xs = .ok true) : Linked prevOf (link R) (.str prev) xs := by
  induction xs generalizing prev i with
  | nil => trivial
  | cons x xs ih =>
    obtain ⟨hx, hxs⟩ := logFrom_cons.mp h
    exact ⟨(statementOk_true hx).2, ih hxs⟩

theorem prev_of_logFrom {prev : Str} {i : Nat} {xs : List Json}
    (h : logFrom R prev i xs = .ok true) : ∀ x ∈ xs, ∃ p, prevOf x = .str p := by
  induction xs generalizing prev i with
  | nil => exact nofun
  | cons x xs ih =>
    obtain ⟨hx, hxs⟩ := logFrom_cons.mp h
    exact List.forall_mem_cons.mpr ⟨⟨prev, (statementOk_true hx).2⟩, ih hxs⟩

/-- `seq` counts the statements of an accepted log. -/
theorem seq_of_logFrom {prev : Str} {i : Nat} {xs : List Json} {x : Json}
    (h : logFrom R prev i (xs ++ [x]) = .ok true) :
    (x.find (lit "seq")).pyEq (.int (i + xs.length : Nat)) = true := by
  induction xs generalizing prev i with
  | nil => exact (statementOk_true (logFrom_cons.mp h).1).1
  | cons y xs ih =>
    have hx := ih (logFrom_cons.mp h).2
    rwa [show i + (y :: xs).length = i + 1 + xs.length by simp; omega]

/-! ## The last statement binds the log -/

theorem paired_of_parsedLog {xs : List Json} (h : ParsedLog R xs) : ∀ x ∈ xs, x.paired = true := by
  obtain ⟨t, ht, hload⟩ := h
  exact pairedList_iff.mp (Runtime.loads_paired ht hload)

/-- Statements with one digest are one value, if they were parsed. -/
theorem sameValue_of_link_eq (hsha : Function.Injective R.sha256) (hf : R.dumpsFormat.Lawful)
    {a b : Json} (ha : a.paired = true) (hb : b.paired = true) (h : link R a = link R b) :
    SameValue a b := by
  have hdigest : statementHash R a = statementHash R b := Json.str.inj h
  have hbytes := hsha (hexStr_injective hdigest)
  exact Runtime.asciiText_inj hf ha hb (utf8Bytes_injective hbytes)

/-- Equal `prev`s of two accepted statements are one text. -/
theorem prevOf_eq {a b : Json} (hb : ∃ p, prevOf b = .str p) (h : a.pySame b = true)
    : prevOf a = prevOf b := by
  obtain ⟨q, hq⟩ := hb
  have hfind := pySame_find h (lit "prev")
  rw [show b.find (lit "prev") = .str q from hq, pySame_str] at hfind
  exact hfind.trans hq.symm

/-- Two accepted logs with equal last statements are as long. -/
theorem length_eq_of_last {xs ys : List Json} {a b : Json} (hx : logOk R (xs ++ [a]) = .ok true)
    (hy : logOk R (ys ++ [b]) = .ok true) (h : a.pyEq b = true) : xs.length = ys.length := by
  have hseq := pySame_find (pySame_of_pyEq h) (lit "seq")
  have ha := pySame_of_pyEq (seq_of_logFrom hx)
  have hb := pySame_of_pyEq (seq_of_logFrom hy)
  have hint := pySame_trans (pySame_trans (pySame_symm ha) hseq) hb
  have hlen := Json.int.inj ((pySame_int _ _).mp hint)
  omega

/-- The last statement of an accepted log binds the log, and every prefix of an
accepted log is accepted. -/
theorem log_bound_by_last (hsha : Function.Injective R.sha256) (hf : R.dumpsFormat.Lawful) :
    (∀ xs ys : List Json, ParsedLog R xs → ParsedLog R ys →
      logOk R xs = .ok true → logOk R ys = .ok true →
      ∀ a ∈ xs.getLast?, ∀ b ∈ ys.getLast?, a.pyEq b = true →
        (Json.arr xs).pyEq (.arr ys) = true) ∧
    ∀ xs zs : List Json, logOk R xs = .ok true → zs <+: xs → logOk R zs = .ok true := by
  constructor
  · intro xs ys hpx hpy hx hy a ha b hb hab
    obtain ⟨xs, rfl⟩ := List.getLast?_eq_some_iff.mp ha
    obtain ⟨ys, rfl⟩ := List.getLast?_eq_some_iff.mp hb
    have hlen := length_eq_of_last hx hy hab
    have hsb := prev_of_logFrom hy
    obtain ⟨hxs, hxa⟩ := linked_concat.mp (linked_of_logFrom hx)
    obtain ⟨hys, hyb⟩ := linked_concat.mp (linked_of_logFrom hy)
    have hpair := paired_of_parsedLog hpx
    have hpair' := paired_of_parsedLog hpy
    -- the statements below the last have one head
    have hhead : head (link R) (.str zero) xs = head (link R) (.str zero) ys := by
      rw [← hxa, ← hyb]
      exact prevOf_eq (hsb b (by simp)) (pySame_of_pyEq hab)
    have hbelow : List.Forall₂ SameValue xs ys := by
      refine hxs.forall₂_of_head_eq (fun c hc d hd hcd => ?_) hys hlen hhead
      have hc' := List.mem_append_left [a] hc
      have hd' := List.mem_append_left [b] hd
      have hsame := sameValue_of_link_eq hsha hf (hpair c hc') (hpair' d hd') hcd
      exact ⟨hsame, prevOf_eq (hsb d hd') hsame.pySame⟩
    rw [pyEq, Bool.and_eq_true]
    refine ⟨pySame_arr (List.rel_append (hbelow.imp fun _ _ h => h.pySame) ?_), rfl⟩
    exact .cons (pySame_of_pyEq hab) .nil
  · rintro xs zs hx ⟨ws, rfl⟩
    exact logFrom_append hx

/-- A statement signed in the sample runtime with the base point for a key. -/
def sampleStatement (seq : Int) (prev : Str) (signature : String) : List (Str × Json) :=
  [(lit "prev", .str prev), (lit "seq", .int seq), (lit "signature", text signature),
    (lit "verifier", text "WGZmZmZmZmZmZmZmZmZmZmZmZmZmZmZmZmZmZmZmZmY")]

def firstStatement : List (Str × Json) := sampleStatement 0 zero
  "AQAAAAAAAAAAAAAAAAAAAAAAAAAAAAAAAAAAAAAAAAAAD5xE4xEGpEeThWinGw7QZb71F9Jz7M49mjB8G0GZAw"

def lastStatement : List (Str × Json) :=
  sampleStatement 1 (statementHash .transparent (.obj firstStatement))
    "AQAAAAAAAAAAAAAAAAAAAAAAAAAAAAAAAAAAAAAAAAAAbuH5ukdudKDADTUzxnkVEA0t4NySh3ump9gBossZAQ"

/-- Two statements, and the same with the keys of each in another order. -/
def sampleLog : List Json := [.obj firstStatement, .obj lastStatement]

def reorderedLog : List Json := [.obj firstStatement.reverse, .obj lastStatement.reverse]

theorem sampleLog_bound : (Json.arr sampleLog).pyEq (.arr reorderedLog) = true := by
  refine (log_bound_by_last Runtime.transparent_injective (Runtime.floatToken_lawful false)).1
    sampleLog reorderedLog ⟨print Runtime.transparent.dumpsFormat (.arr sampleLog), ?_, ?_⟩
    ⟨print Runtime.transparent.dumpsFormat (.arr reorderedLog), ?_, ?_⟩ ?_ ?_
    (.obj lastStatement) rfl (.obj lastStatement.reverse) rfl ?_
  all_goals decide +kernel

end Preaction.PrivateOpening
