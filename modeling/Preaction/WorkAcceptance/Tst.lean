import Preaction.Lib.Search
import Preaction.Py.Base64
import Preaction.Py.Runtime

/-!
# `war_check.py` — reading a time-stamp token by search

`tst` takes a time-stamp token apart without following its CMS structure: it
looks depth first, with a stack, for the content-type OID of a TSTInfo followed
by an explicit `[0]`, and reads hash, time and accuracy from what stands there.

Mirroring notes:
- `_tlv(b, i)` and `_children(b)` are functions of what is left to read, and
  `fuel` of `childrenAux` bounds the number of elements; each takes two bytes,
  so the length of the text is enough (`children_eq`).
- A slice past the end is cut short, as in Python; only an index raises.
- The stack is a list with its top in front.
-/

namespace Preaction.WarCheck

open Preaction.Py Preaction.Search

/-- `OID_TSTINFO` -/
def oidTstInfo : Str := lit "1.2.840.113549.1.9.16.1.4"

/-- `_tlv(b, i)`: the tag, the value, and what follows the element. -/
def tlv : Bytes → Except PyError (UInt8 × Bytes × Bytes)
  | tag :: ln :: rest =>
    if ln.toNat < 0x80 then .ok (tag, rest.take ln.toNat, rest.drop ln.toNat)
    else
      let n := ln.toNat - 0x80
      let len := fromBytesBig (rest.take n)
      .ok (tag, (rest.drop n).take len, (rest.drop n).drop len)
  | _ => .error .indexError

/-- The loop of `_children`. -/
def childrenAux : Nat → Bytes → Except PyError (List (UInt8 × Bytes))
  | 0, _ => .ok []
  | fuel + 1, b =>
    if b.isEmpty then .ok []
    else do
      let (t, v, rest) ← tlv b
      return (t, v) :: (← childrenAux fuel rest)

/-- `_children(b)` -/
def children (b : Bytes) : Except PyError (List (UInt8 × Bytes)) := childrenAux b.length b

/-- Base 128 numbers, `n` being the one in progress; an unfinished one is dropped. -/
def base128 : Nat → Bytes → List Nat
  | _, [] => []
  | n, x :: v =>
    let n := n * 128 + x.toNat % 128
    if x.toNat < 128 then n :: base128 0 v else base128 n v

/-- `".".join(map(str, parts))` -/
def dotted : List Nat → Str
  | [] => []
  | [n] => decimal n
  | n :: parts => decimal n ++ lit "." ++ dotted parts

/-- The text of an OID from its first number, which holds two, and the rest. -/
def oidText (first : Nat) (parts : List Nat) : Str :=
  let top := min (first / 40) 2
  dotted (top :: (first - 40 * top) :: parts)

/-- `_oid(v)` -/
def oid (v : Bytes) : Except PyError Str :=
  match base128 0 v with
  | [] => .error .indexError
  | first :: parts => .ok (oidText first parts)

/-- What the body of the loop over `kids` returns at an element, `next` being what
follows it: the content behind a TSTInfo OID. -/
def contentAt (t : UInt8) (v : Bytes) (next : List (UInt8 × Bytes)) :
    Except PyError (Option Bytes) :=
  if t ≠ 0x06 then .ok none
  else do
    let name ← oid v
    match next with
    | (0xA0, content) :: _ =>
      if name = oidTstInfo then
        match ← children content with
        | (_, info) :: _ => return some info
        | [] => .error .indexError
      else return none
    | _ => return none

/-- The search looks into the element. -/
def isContainer (t : UInt8) (v : Bytes) : Bool :=
  [0x30, 0x31, 0xA0, 0xA1, 0xA2, 0xA3].contains t || (t == 0x04 && v.head? == some 0x30)

/-- The loop over `kids`: the content found, or what to push. -/
def scan : List (UInt8 × Bytes) → Except PyError (Visit Bytes Bytes)
  | [] => .ok (.push [])
  | (t, v) :: kids => do
    match ← contentAt t v kids with
    | some info => return .found info
    | none =>
      match ← scan kids with
      | .found info => return .found info
      | .push vs => return .push (if isContainer t v then v :: vs else vs)

/-- One round of the loop of `_find_tstinfo`. Nothing but an `IndexError` is raised
by `_children`, and it is skipped. -/
def visit (b : Bytes) : Except PyError (Visit Bytes Bytes) :=
  match children b with
  | .error _ => .ok (.push [])
  | .ok kids => scan kids

/-- `_find_tstinfo(b)` -/
def findTstinfo (b : Bytes) : Except PyError (Option Bytes) := search visit (b.length + 1) [b]

/-- The tuple `tst` returns. -/
structure Tst where
  alg : Str
  imprint : Str
  gen : Str
  acc : Rat
  deriving DecidableEq

/-- `f[i]` -/
def elem (f : List (UInt8 × Bytes)) (i : Nat) : Except PyError (UInt8 × Bytes) :=
  match f[i]? with
  | some x => .ok x
  | none => .error .indexError

/-- The seconds one unit of a field of `Accuracy` is. -/
def accuracyUnit (t : UInt8) : Rat :=
  if t = 0x02 then 1 else if t = 0x80 then mkRat 1 1000 else if t = 0x81 then mkRat 1 (10 ^ 6) else 0

/-- The fields of a TSTInfo. -/
def tstFields (info : Bytes) : Except PyError (List (UInt8 × Bytes)) := do
  let f ← children info
  match f with
  | [(0x30, v)] => children v
  | _ => return f

/-- `acc` -/
def accuracy (next : Option (UInt8 × Bytes)) : Except PyError Rat := do
  match next with
  | some (0x30, v) =>
    return ((← children v).map fun tv => accuracyUnit tv.1 * fromBytesBig tv.2).sum
  | _ => return 0

/-- What `tst` reads from the content it has found. -/
def readTstInfo (info : Bytes) : Except PyError Tst := do
  let f ← tstFields info
  let mi ← children (← elem f 2).2
  let alg ← oid (← elem (← children (← elem mi 0).2) 0).2
  match f.findIdx? (·.1 == 0x18) with
  | none => .error .stopIteration
  | some gi =>
    let gen := (← elem f gi).2.map fun x => (Fin.ofNat _ x.toNat : CodePoint)
    let acc ← accuracy f[gi + 1]?
    return ⟨alg, hexStr (← elem mi 1).2, gen, acc⟩

/-- What `tst` returns: `None`, `"noncanonical"` or the tuple. -/
inductive TstResult
  | none
  | noncanonical
  | info (t : Tst)
  deriving DecidableEq

/-- `tst(token_b64)` -/
def tst (token : Json) : Except PyError TstResult :=
  if !token.truthy then .ok .none
  else match b64Canonical token with
    | Option.none => .ok .noncanonical
    | some raw => do
      match ← findTstinfo raw with
      | Option.none => return .none
      | some info => return .info (← readTstInfo info)

/-! ## The search terminates -/

theorem length_of_tlv {b v rest : Bytes} {t : UInt8} (h : tlv b = .ok (t, v, rest)) :
    v.length + rest.length + 2 ≤ b.length := by
  match b with
  | [] => cases h
  | [_] => cases h
  | _ :: ln :: r =>
    simp only [tlv] at h
    split at h
    · simp only [Except.ok.injEq, Prod.mk.injEq] at h
      obtain ⟨-, rfl, rfl⟩ := h
      simp only [List.length_take, List.length_drop, List.length_cons]
      omega
    · simp only [Except.ok.injEq, Prod.mk.injEq] at h
      obtain ⟨-, rfl, rfl⟩ := h
      simp only [List.length_take, List.length_drop, List.length_cons]
      omega

/-- More fuel than bytes changes nothing. -/
theorem childrenAux_eq {m n : Nat} {b : Bytes} (hm : b.length ≤ m) (hn : b.length ≤ n) :
    childrenAux m b = childrenAux n b := by
  induction m generalizing n b with
  | zero =>
    obtain rfl := List.length_eq_zero_iff.mp (Nat.le_zero.mp hm)
    cases n <;> rfl
  | succ m ih =>
    cases n with
    | zero =>
      obtain rfl := List.length_eq_zero_iff.mp (Nat.le_zero.mp hn)
      rfl
    | succ n =>
      simp only [childrenAux]
      cases ht : tlv b with
      | error e => rfl
      | ok r =>
        obtain ⟨t, v, rest⟩ := r
        have := length_of_tlv ht
        have hrest : childrenAux m rest = childrenAux n rest := ih (by omega) (by omega)
        split
        · rfl
        · change (childrenAux m rest >>= _) = (childrenAux n rest >>= _)
          rw [hrest]

/-- `_children` reads one element and goes on behind it. -/
theorem children_eq {b : Bytes} (hb : b ≠ []) : children b = (do
    let (t, v, rest) ← tlv b
    return (t, v) :: (← children rest)) := by
  obtain ⟨x, b, rfl⟩ := List.exists_cons_of_ne_nil hb
  rw [children, List.length_cons, childrenAux, if_neg (by simp)]
  cases ht : tlv (x :: b) with
  | error e => rfl
  | ok r =>
    obtain ⟨t, v, rest⟩ := r
    have := length_of_tlv ht
    rw [List.length_cons] at this
    have hrest : childrenAux b.length rest = children rest := childrenAux_eq (by omega) le_rfl
    change (childrenAux b.length rest >>= _) = (children rest >>= _)
    rw [hrest]

end Preaction.WarCheck
