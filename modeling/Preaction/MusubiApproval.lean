import Mathlib.Data.List.Infix
import Preaction.Ed25519Tools
import Preaction.Lib.Loop
import Preaction.Py.Base64
import Preaction.Py.Runtime

/-!
# `musubi-approver-v2/verify_approval_v2.py` — a third party's approval

A contract pins its approvers with their keys. An approval is signed by a pinned
key over a context and the canonical JSON of six members, one of which is the
digest of the whole contract without its signatures.

So the bytes that are signed determine the terms of the contract, the approved
action and the key (`approvalV2Bytes_inj`), and an approval that verifies for one
contract verifies under that key for no other terms and no other action
(`approved_same_terms`).

Mirroring notes:
- Objects are compared as values: `Json.SameValue` looks at no key order.
- `b64decode(s, validate=True)` and the comparison with the re-encoded text
  accept what `b64Canonical` does.
-/

namespace Preaction.MusubiApproval

open Preaction.Py Preaction.Loop

variable (R : Runtime)

/-- `CONTRACT_CONTEXT` -/
def contractContext : Bytes := utf8Bytes (lit "a2a-contract-v0\n")

/-- `APPROVAL_V2_CONTEXT` -/
def approvalV2Context : Bytes := utf8Bytes (lit "a2a-approval-v2\n")

/-- `HEX32` -/
def isHex32 (s : Str) : Bool :=
  s.length == 32 && s.all fun c => isDigit c || (0x61 ≤ c.val && c.val ≤ 0x66)

/-- `{k: v for k, v in contract.items() if k != "signatures"}` -/
def terms : Json → Except PyError Json
  | .obj kvs => .ok (.obj (kvs.filter fun kv => kv.1 != lit "signatures"))
  | _ => .error .attributeError

/-- `contract_sha256(contract)` -/
def contractSha256 (contract : Json) : Except PyError Str := do
  let body ← terms contract
  return R.sha256Hex (contractContext ++ (← utf8 (R.canonText body)))

/-- `b64_raw(s, n)` -/
def b64Raw (s : Json) (n : Nat) : Option Bytes :=
  if s = .str [] then none else (b64Canonical s).filter (·.length = n)

/-- The members of an approval that are signed as they are. -/
def approvalMembers (sha : Str) (e key : Json) : Json :=
  object [("contract_sha256", .str sha), ("action", e.find (lit "action")), ("approver_key", key),
    ("valid_until_height", e.find (lit "valid_until_height")), ("nonce", e.find (lit "nonce")),
    ("single_use", e.find (lit "single_use"))]

/-- `approval_v2_bytes(contract, e, approver_key_b64)` -/
def approvalV2Bytes (contract e key : Json) : Except PyError Bytes := do
  let sha ← contractSha256 R contract
  if !e.isObj then .error .attributeError
  else return approvalV2Context ++ (← utf8 (R.canonText (approvalMembers sha e key)))

/-- `approvers(contract)` -/
def approvers (contract : Json) : Except PyError (List Json) := do
  let grant := (← contract.get (lit "grant")).orElse (.obj [])
  let ap := (← grant.get (lit "approval_policy")).orElse (.obj [])
  match ap.find (lit "approvers") with
  | .arr a => return a
  | _ => return []

/-- What `policy_reading` returns. -/
inductive Policy
  | pinned
  | approvalSelfAsserted
  deriving DecidableEq, Repr

/-- `policy_reading(contract)` -/
def policyReading (contract : Json) : Except PyError Policy := do
  return if (← approvers contract).isEmpty then .approvalSelfAsserted else .pinned

inductive Reason
  | notAnApproverApproval
  | malformed
  | approverNotPinned
  | actionNotPermittedForApprover
  | malformedKeyOrSignature
  | badSignature
  deriving DecidableEq, Repr

/-- What `verify_approval_v2` returns. -/
inductive Verdict
  | approved
  | approvalUnverified (reason : Reason)
  deriving DecidableEq, Repr

/-- The types that an approval has to have. -/
def wellFormed (e : Json) : Bool :=
  let isAction := match e.find (lit "action") with | .str _ => true | _ => false
  let isHeight := match e.find (lit "valid_until_height") with | .int n => decide (0 ≤ n) | _ => false
  let isNonce := match e.find (lit "nonce") with | .str s => isHex32 s | _ => false
  let isFlag := match e.find (lit "single_use") with | .bool _ => true | _ => false
  isAction && isHeight && isNonce && isFlag

/-- `pin`: the first approver of that name. -/
def pinOf (approvers : List Json) (e : Json) : Option Json :=
  approvers.find? fun a => a.isObj && (a.find (lit "name")).pyEq (e.find (lit "approver"))

/-- `action in xs` of a `str` and any value. -/
def actionIn (action : Json) : Json → Except PyError Bool
  | .arr xs => .ok (action.pyIn xs)
  | .str s => match action with
    | .str a => .ok (decide (a <:+: s))
    | _ => .error .typeError
  | .obj kvs => match action with
    | .str a => .ok (kvs.lookup a).isSome
    | _ => .error .typeError
  | _ => .error .typeError

/-- The text of the pinned key. -/
def pinKey (pin : Json) : Json := pin.find (lit "public_key_ed25519_b64")

/-- `verify_approval_v2(contract, e)` -/
def verifyApprovalV2 (contract e : Json) : Except PyError Verdict := do
  if !e.isObj || !(e.find (lit "by")).pyEq (text "approver") then
    return .approvalUnverified .notAnApproverApproval
  else if !wellFormed e then return .approvalUnverified .malformed
  else
    let pinned ← approvers contract
    match pinOf pinned e with
    | none => return .approvalUnverified .approverNotPinned
    | some pin =>
      let permitted ← actionIn (e.find (lit "action"))
        ((pin.find (lit "actions")).orElse (.arr []))
      if !permitted then return .approvalUnverified .actionNotPermittedForApprover
      else match b64Raw (pinKey pin) 32, b64Raw (e.find (lit "sig_b64")) 64 with
        | some pk, some sig =>
          let message ← approvalV2Bytes R contract e (pinKey pin)
          if !Ed25519Tools.verify R pk message sig then return .approvalUnverified .badSignature
          else return .approved
        | _, _ => return .approvalUnverified .malformedKeyOrSignature

/-! ## What is signed -/

/-- The members of an approval that are signed. -/
def signedMembers : List Str :=
  [lit "action", lit "valid_until_height", lit "nonce", lit "single_use"]

/-- Two contracts are equal after their signatures are removed. -/
def SameTerms (c c' : Json) : Prop :=
  ∃ t t', terms c = .ok t ∧ terms c' = .ok t' ∧ t.SameValue t'

/-- The approver policy of a contract. -/
def approvalPolicy (c : Json) : Json := (c.find (lit "grant")).find (lit "approval_policy")

variable {R}

/-- Removing the signatures leaves the other members. -/
theorem find_terms {c t : Json} (h : terms c = .ok t) {k : Str} (hk : k ≠ lit "signatures") :
    t.find k = c.find k := by
  cases c with
  | obj kvs =>
    obtain rfl := Except.ok.inj h
    unfold Json.find
    dsimp only
    rw [lookup_filter (fun k => k != lit "signatures")]
    rw [if_pos (by simpa using hk)]
  | _ => cases h

theorem SameTerms.policy {c c' : Json} (h : SameTerms c c') :
    (approvalPolicy c).SameValue (approvalPolicy c') := by
  obtain ⟨t, t', ht, ht', hsame⟩ := h
  have hne : lit "grant" ≠ lit "signatures" := by decide
  unfold approvalPolicy
  rw [← find_terms ht hne, ← find_terms ht' hne]
  exact (hsame.find _).find _

/-- Contracts with one digest have the same terms. -/
theorem sameTerms_of_contractSha256 (hsha : Function.Injective R.sha256)
    (hf : R.dumpsFormat.Lawful) {c c' : Json} {d : Str} (h : contractSha256 R c = .ok d)
    (h' : contractSha256 R c' = .ok d) : SameTerms c c' := by
  obtain ⟨t, ht, h⟩ := bind_ok.mp h
  obtain ⟨b, hb, h⟩ := bind_ok.mp h
  obtain ⟨t', ht', h'⟩ := bind_ok.mp h'
  obtain ⟨b', hb', h'⟩ := bind_ok.mp h'
  have hd : R.sha256Hex (contractContext ++ b) = R.sha256Hex (contractContext ++ b') :=
    (Except.ok.inj h).trans (Except.ok.inj h').symm
  obtain rfl : b = b' := List.append_cancel_left (hsha (hexStr_injective hd))
  exact ⟨t, t', ht, ht', R.normWith_eq_of_canonText_eq hf (utf8_injective hb hb')⟩

/-- The signed bytes determine the terms, the signed members and the key. -/
theorem approvalV2Bytes_inj (hsha : Function.Injective R.sha256) (hf : R.dumpsFormat.Lawful)
    {c e k c' e' k' : Json} {b : Bytes} (h : approvalV2Bytes R c e k = .ok b)
    (h' : approvalV2Bytes R c' e' k' = .ok b) :
    SameTerms c c' ∧ (∀ m ∈ signedMembers, (e.find m).SameValue (e'.find m)) ∧ k.SameValue k' := by
  obtain ⟨d, hd, h⟩ := bind_ok.mp h
  obtain ⟨d', hd', h'⟩ := bind_ok.mp h'
  split at h
  · cases h
  split at h'
  · cases h'
  obtain ⟨x, hx, h⟩ := bind_ok.mp h
  obtain ⟨x', hx', h'⟩ := bind_ok.mp h'
  have happ : approvalV2Context ++ x = approvalV2Context ++ x' :=
    (Except.ok.inj h).trans (Except.ok.inj h').symm
  obtain rfl := List.append_cancel_left happ
  have hsame : (approvalMembers d e k).SameValue (approvalMembers d' e' k') :=
    R.normWith_eq_of_canonText_eq hf (utf8_injective hx hx')
  have hfind (m : String) := hsame.find (lit m)
  have hsha256 : (Json.str d).SameValue (.str d') := by
    simpa [approvalMembers, find_object_cons] using hfind "contract_sha256"
  obtain rfl : d = d' := Json.str.inj hsha256
  have hkey : k.SameValue k' := by
    simpa [approvalMembers, find_object_cons, find_object_cons_ne] using hfind "approver_key"
  refine ⟨sameTerms_of_contractSha256 hsha hf hd hd', ?_, hkey⟩
  have haction : (e.find (lit "action")).SameValue (e'.find (lit "action")) := by
    simpa [approvalMembers, find_object_cons, find_object_cons_ne] using hfind "action"
  have hheight : (e.find (lit "valid_until_height")).SameValue
      (e'.find (lit "valid_until_height")) := by
    simpa [approvalMembers, find_object_cons, find_object_cons_ne] using
      hfind "valid_until_height"
  have hnonce : (e.find (lit "nonce")).SameValue (e'.find (lit "nonce")) := by
    simpa [approvalMembers, find_object_cons, find_object_cons_ne] using hfind "nonce"
  have hsingle : (e.find (lit "single_use")).SameValue (e'.find (lit "single_use")) := by
    simpa [approvalMembers, find_object_cons, find_object_cons_ne] using hfind "single_use"
  intro m hm
  simp only [signedMembers, List.mem_cons, List.not_mem_nil, or_false] at hm
  rcases hm with rfl | rfl | rfl | rfl
  · exact haction
  · exact hheight
  · exact hnonce
  · exact hsingle

/-! ## What verifies -/

/-- The key of the pin that an approval names, read from its text. -/
def pinnedKey (contract e : Json) : Except PyError (Option Bytes) := do
  return (pinOf (← approvers contract) e).bind fun pin => b64Raw (pinKey pin) 32

/-- The signature of an approval, read from its text. -/
def signature (e : Json) : Option Bytes := b64Raw (e.find (lit "sig_b64")) 64

/-- A text that is read is the one that its bytes are written as. -/
theorem b64Raw_some {s : Json} {n : Nat} {b : Bytes} (h : b64Raw s n = some b) :
    s = .str (b64encode b) := by
  unfold b64Raw at h
  split at h
  · cases h
  obtain ⟨h, -⟩ := Option.filter_eq_some_iff.mp h
  cases s with
  | str t =>
    unfold b64Canonical at h
    dsimp only at h
    split at h
    · split at h
      · split at h
        · next henc =>
          obtain rfl := Option.some.inj h
          rw [henc]
        · cases h
      · cases h
    · cases h
  | _ => cases h

/-- What an approved approval was checked to be. -/
structure Checked (R : Runtime) (c e : Json) (pk sig m : Bytes) : Prop where
  formed : wellFormed e = true
  key : pinnedKey c e = .ok (some pk)
  signature : signature e = some sig
  message : approvalV2Bytes R c e (.str (b64encode pk)) = .ok m
  verifies : Ed25519Tools.verify R pk m sig = true

theorem checked_of_approved {c e : Json} (h : verifyApprovalV2 R c e = .ok .approved) :
    ∃ pk sig m, Checked R c e pk sig m := by
  unfold verifyApprovalV2 at h
  split at h
  · cases h
  split at h
  · cases h
  next hformed =>
  obtain ⟨pinned, hpinned, h⟩ := bind_ok.mp h
  cases hpin : pinOf pinned e with
  | none => rw [hpin] at h; cases h
  | some pin =>
    rw [hpin] at h
    obtain ⟨permitted, -, h⟩ := bind_ok.mp h
    split at h
    · cases h
    cases hpk : b64Raw (pinKey pin) 32 with
    | none => rw [hpk] at h; cases h
    | some pk =>
      cases hsig : b64Raw (e.find (lit "sig_b64")) 64 with
      | none => rw [hpk, hsig] at h; cases h
      | some sig =>
        rw [hpk, hsig] at h
        obtain ⟨m, hm, h⟩ := bind_ok.mp h
        split at h
        · cases h
        next hver =>
        refine ⟨pk, sig, m, by simpa using hformed, ?_, hsig, ?_, by simpa using hver⟩
        · unfold pinnedKey
          rw [hpinned]
          show Except.ok ((pinOf pinned e).bind _) = _
          rw [hpin, Option.bind_some, hpk]
        · rw [← b64Raw_some hpk]
          exact hm

/-- The signed members of a well-formed approval are no lists and no objects, so one
value is one representation. -/
theorem find_eq_of_wellFormed {e e' : Json} (h : wellFormed e = true) (h' : wellFormed e' = true)
    (hsame : ∀ m ∈ signedMembers, (e.find m).SameValue (e'.find m)) :
    ∀ m ∈ signedMembers, e.find m = e'.find m := by
  have hleaf {x y : Json} (hx : (∃ s, x = .str s) ∨ (∃ n, x = .int n) ∨ ∃ b, x = .bool b)
      (hy : (∃ s, y = .str s) ∨ (∃ n, y = .int n) ∨ ∃ b, y = .bool b)
      (hxy : x.SameValue y) : x = y := by
    rcases hx with ⟨s, rfl⟩ | ⟨n, rfl⟩ | ⟨b, rfl⟩ <;> rcases hy with ⟨t, rfl⟩ | ⟨n', rfl⟩ | ⟨b', rfl⟩ <;>
      exact hxy
  have hkind {e : Json} (h : wellFormed e = true) : ∀ m ∈ signedMembers,
      (∃ s, e.find m = .str s) ∨ (∃ n, e.find m = .int n) ∨ ∃ b, e.find m = .bool b := by
    simp only [wellFormed, Bool.and_eq_true] at h
    obtain ⟨⟨⟨haction, hheight⟩, hnonce⟩, hflag⟩ := h
    intro m hm
    simp only [signedMembers, List.mem_cons, List.not_mem_nil, or_false] at hm
    rcases hm with rfl | rfl | rfl | rfl
    · split at haction
      · next s hs => exact Or.inl ⟨s, hs⟩
      · cases haction
    · split at hheight
      · next n hn => exact Or.inr (Or.inl ⟨n, hn⟩)
      · cases hheight
    · split at hnonce
      · next s hs => exact Or.inl ⟨s, hs⟩
      · cases hnonce
    · split at hflag
      · next b hb => exact Or.inr (Or.inr ⟨b, hb⟩)
      · cases hflag
  intro m hm
  exact hleaf (hkind h m hm) (hkind h' m hm) (hsame m hm)

/-- The bytes that an approval signs determine what it approves; so a signature that
verifies for one contract verifies, under one pinned key, for no other terms, no other
approver policy and no other action. -/
theorem approval_binds (hsha : Function.Injective R.sha256) (hf : R.dumpsFormat.Lawful) :
    (∀ (c e k c' e' k' : Json) (b : Bytes), approvalV2Bytes R c e k = .ok b →
      approvalV2Bytes R c' e' k' = .ok b →
        SameTerms c c' ∧ (∀ m ∈ signedMembers, (e.find m).SameValue (e'.find m)) ∧
          k.SameValue k') ∧
    ∀ (c e c' e' : Json) (pk sig : Bytes), Ed25519Tools.MessageBound R pk sig →
      verifyApprovalV2 R c e = .ok .approved → verifyApprovalV2 R c' e' = .ok .approved →
      pinnedKey c e = .ok (some pk) → pinnedKey c' e' = .ok (some pk) →
      signature e = some sig → signature e' = some sig →
        SameTerms c c' ∧ (approvalPolicy c).SameValue (approvalPolicy c') ∧
          ∀ m ∈ signedMembers, e.find m = e'.find m := by
  refine ⟨fun c e k c' e' k' b h h' => approvalV2Bytes_inj hsha hf h h', ?_⟩
  intro c e c' e' pk sig hbound h h' hkey hkey' hsig hsig'
  obtain ⟨pk₁, sig₁, m, hc⟩ := checked_of_approved h
  obtain ⟨pk₂, sig₂, m', hc'⟩ := checked_of_approved h'
  obtain rfl : pk₁ = pk := Option.some.inj (Except.ok.inj (hc.key.symm.trans hkey))
  obtain rfl : pk₂ = pk₁ := Option.some.inj (Except.ok.inj (hc'.key.symm.trans hkey'))
  obtain rfl : sig₁ = sig := Option.some.inj (hc.signature.symm.trans hsig)
  obtain rfl : sig₂ = sig₁ := Option.some.inj (hc'.signature.symm.trans hsig')
  obtain rfl := hbound m m' hc.verifies hc'.verifies
  obtain ⟨hterms, hmembers, -⟩ := approvalV2Bytes_inj hsha hf hc.message hc'.message
  exact ⟨hterms, hterms.policy, find_eq_of_wellFormed hc.formed hc'.formed hmembers⟩

/-! ## An approval to run -/

/-- The base point as a key. -/
def samplePk : Bytes := Edwards.encode Ed25519Tools.B

/-- The base point as `R`, and two as `S`. -/
def sampleSig : Bytes := samplePk ++ Edwards.toBytesLittle 32 2

/-- A contract that pins the key, with any signatures. -/
def sampleContract (signatures : String) : Json :=
  let pin := object [("name", text "a"), ("public_key_ed25519_b64", .str (b64encode samplePk)),
    ("actions", .arr [text "emit"])]
  object [("grant", object [("approval_policy", object [("approvers", .arr [pin])])]),
    ("signatures", text signatures)]

def sampleApproval : Json :=
  object [("action", text "emit"), ("by", text "approver"), ("approver", text "a"),
    ("valid_until_height", .int 9), ("nonce", text "00000000000000000000000000000000"),
    ("single_use", .bool true), ("sig_b64", .str (b64encode sampleSig))]

/-- What the approval signs. -/
def sampleMessage : Bytes :=
  match approvalV2Bytes .transparent (sampleContract "") sampleApproval
    (.str (b64encode samplePk)) with
  | .ok m => m
  | .error _ => []

/-- A runtime whose SHA-512 gives the challenge one for that message and two for any other. -/
def sampleRuntime : Runtime :=
  { Runtime.transparent with
    sha512 := fun b => if b = samplePk ++ samplePk ++ sampleMessage then [1] else [2] }

theorem sampleRuntime_sha512 (b : Bytes) : sampleRuntime.sha512 b =
    if b = samplePk ++ samplePk ++ sampleMessage then [1] else [2] := rfl

/-- A runtime that always gives the challenge two. -/
def otherRuntime : Runtime := { Runtime.transparent with sha512 := fun _ => [2] }

theorem otherRuntime_sha512 (b : Bytes) : otherRuntime.sha512 b = [2] := rfl

/-- With the challenge two the signature does not verify. -/
theorem sampleSig_other : Ed25519Tools.verify otherRuntime samplePk [] sampleSig = false := by
  decide +kernel

theorem take_sampleSig : sampleSig.take 32 = samplePk := by decide +kernel

theorem sampleSig_bound : Ed25519Tools.MessageBound sampleRuntime samplePk sampleSig := by
  have honly (m : Bytes) (h : Ed25519Tools.verify sampleRuntime samplePk m sampleSig = true) :
      m = sampleMessage := by
    by_contra hne
    have hchallenge : sampleRuntime.sha512 (sampleSig.take 32 ++ samplePk ++ m) =
        otherRuntime.sha512 (sampleSig.take 32 ++ samplePk ++ []) := by
      rw [sampleRuntime_sha512, otherRuntime_sha512, take_sampleSig,
        if_neg fun heq => hne (List.append_cancel_left heq)]
    rw [Ed25519Tools.verify_congr hchallenge, sampleSig_other] at h
    cases h
  intro m m' h h'
  rw [honly m h, honly m' h']

/-- The approval verifies for the contract with other signatures, which has the same terms. -/
theorem sampleApproval_binds : SameTerms (sampleContract "") (sampleContract "later") ∧
    (approvalPolicy (sampleContract "")).SameValue (approvalPolicy (sampleContract "later")) ∧
      ∀ m ∈ signedMembers, sampleApproval.find m = sampleApproval.find m :=
  (approval_binds (R := sampleRuntime) Runtime.transparent_injective
    (Runtime.floatToken_lawful false)).2 _ sampleApproval _ sampleApproval samplePk sampleSig
    sampleSig_bound (by decide +kernel) (by decide +kernel) (by decide +kernel) (by decide +kernel)
    (by decide +kernel) (by decide +kernel)

end Preaction.MusubiApproval
