import Preaction.Py.Runtime

/-!
# `x402-receipt-authorization-commitment/commitment.py`

A salted commitment to the identifier of a payment authorization, and the
holder's check which of the consumed nonces it names. The private-opening kit
loads this file by path.

Mirroring notes:
- `Malformed` and `NotAttempted` are both `ValueError`, and neither is the
  other; `Raised` keeps them apart from each other and from what Python raises.
- Both regular expressions end in `\Z`, so `match` matches the whole text.
-/

namespace Preaction.AuthorizationCommitment

open Preaction.Py

/-- What these functions raise. -/
inductive Raised
  | py (e : PyError)
  | malformed (condition : Str)
  | notAttempted (condition : Str)
  deriving DecidableEq, Repr

/-- What Python itself raises. -/
def lift {α : Type} : Except PyError α → Except Raised α
  | .ok a => .ok a
  | .error e => .error (.py e)

variable (R : Runtime)

/-- `x.lower()` of any value. -/
def lowerOf (x : Json) : Except PyError Str :=
  match x with
  | .str s => .ok (R.lower s)
  | _ => .error .attributeError

/-- `TAG` -/
def tag : Bytes := utf8Bytes (lit "x402-receipt-authorization/0")

/-- The only element of `METHODS`. -/
def eip3009 : Str := lit "eip3009"

/-- `0x[0-9a-fA-F]{n}\Z` matches. -/
def isPrefixedHex (n : Nat) (s : Str) : Bool :=
  s.length == 2 + n && s.take 2 == lit "0x" && (s.drop 2).all fun c => (hexVal c).isSome

/-- What `_addr` and `_b32` have in common: the bytes of `n` digits. -/
def hexField (n : Nat) (condition : String) (v : Json) : Except Raised Bytes :=
  match v with
  | .str s =>
    if isPrefixedHex n s then lift (bytesFromHex (.str (R.lower (s.drop 2))))
    else .error (.malformed (lit condition))
  | _ => .error (.malformed (lit condition))

/-- `_addr(v, name)` -/
def addr (v : Json) (name : String) : Except Raised Bytes :=
  hexField R 40 (name ++ "_not_address") v

/-- `_b32(v, name)` -/
def b32 (v : Json) (name : String) : Except Raised Bytes :=
  hexField R 64 (name ++ "_not_bytes32") v

/-- `commit(method, asset, authorizer, nonce, salt)` -/
def commit (method asset authorizer nonce salt : Json) : Except Raised Str := do
  if method ≠ .str eip3009 then throw (.notAttempted (lit "unsupported_method"))
  let pre := tag ++ [0] ++ utf8Bytes eip3009 ++ [0] ++ (← addr R asset "asset") ++
    (← addr R authorizer "authorizer") ++ (← b32 R nonce "nonce") ++ (← b32 R salt "salt")
  return lit "0x" ++ R.sha256Hex pre

/-- What `link` returns. -/
inductive LinkResult
  | linked (nonce : Str)
  | noMatch
  | ambiguous (nonces : List Str)
  deriving DecidableEq, Repr

/-- The candidates whose commitment is the one given, in lower case. -/
def hits (commitment : Str) (salt method asset authorizer : Json) :
    List Str → Except Raised (List Str)
  | [] => .ok []
  | n :: ns => do
    let c ← commit R method asset authorizer (.str n) salt
    let rest ← hits commitment salt method asset authorizer ns
    return if c = commitment then n :: rest else rest

/-- `link(commitment, salt, method, asset, authorizer, candidates)` -/
def link (commitment salt method asset authorizer : Json) (candidates : List Str) :
    Except Raised LinkResult := do
  let _ ← b32 R commitment "commitment"
  match ← hits R (← lift (lowerOf R commitment)) salt method asset authorizer candidates with
  | [] => return .noMatch
  | [n] => return .linked (R.lower n)
  | ns => return .ambiguous ns

end Preaction.AuthorizationCommitment
