import Preaction.PrivateOpening.Statement
import Preaction.ReceiptCheck.Link

/-!
# `x402-receipt-private-opening/statement.py` — the case of hex digits

Addresses, salts, commitments and nonces are hex, and may be written in either
case. `assess` lowers every one of them before it compares, and hands the rest to
`link`, which reads digits by their value (`link_variant`). So the finding cannot
depend on the case, but for the last step: the nonce that `link` returns is in lower
case, and is looked up among the keys as the caller wrote them.

`assess_steady_iff` says where that goes well. Two kinds of input end in an
exception: a method that `link` does not implement, and a nonce with a letter in it,
which some spelling of its key does not survive.

Mirroring notes:
- A settlement's `tx` and its amounts are not read.
- The keys of a Python dict are distinct, so `Documented` says so of the nonces.
-/

namespace Preaction.PrivateOpening

open Preaction.Py Preaction.AuthorizationCommitment Preaction.Loop Json

variable (R : Runtime)

/-! ## What the members hold -/

/-- A settlement, as the verifier read it. -/
structure Settlement where
  status : Json
  transfers : Option (List Str)

/-- What `assess` reads, in the types of its documentation. -/
structure Inputs where
  payer : Str
  commitment : Str
  method : Str
  salt : Str
  asset : Str
  rater : Str
  wallets : List Str
  nonces : Option (List (Str × Settlement))

/-- The object is the settlement. -/
structure SettlementIs (s : Settlement) (x : Json) : Prop where
  status : x.get (lit "status") = .ok s.status
  transfers : match s.transfers with
    | none => x.get (lit "transfers") = .ok .null
    | some dests => ∃ ts, x.get (lit "transfers") = .ok (.arr ts) ∧
        List.Forall₂ (fun t dest => t.item (lit "to") = .ok (.str dest)) ts dests

/-- The entry of the map is the nonce with its settlement. -/
def EntryIs (kv : Str × Json) (s : Str × Settlement) : Prop := kv.1 = s.1 ∧ SettlementIs s.2 kv.2

/-- The objects hold the inputs. -/
structure Documented (i : Inputs) (receipt opening rater agentWallets chain : Json) : Prop where
  payer : receipt.item (lit "payer") = .ok (.str i.payer)
  commitment : receipt.item (lit "authorizationCommitment") = .ok (.str i.commitment)
  method : receipt.item (lit "authorizationMethod") = .ok (.str i.method)
  salt : opening.item (lit "salt") = .ok (.str i.salt)
  asset : opening.item (lit "asset") = .ok (.str i.asset)
  rater : rater = .str i.rater
  wallets : agentWallets = .arr (i.wallets.map .str)
  chain : match i.nonces with
    | none => noncesOf chain = none
    | some ns => ∃ nonces, noncesOf chain = some nonces ∧ List.Forall₂ EntryIs nonces ns ∧
        (ns.map (·.1)).Nodup

namespace Inputs

variable (i : Inputs)

/-- The keys of the map are distinct, as in every dict. -/
def Distinct : Prop := ∀ ns, i.nonces = some ns → (ns.map (·.1)).Nodup

def receipt : Json :=
  object [("payer", .str i.payer), ("authorizationCommitment", .str i.commitment),
    ("authorizationMethod", .str i.method)]

def opening : Json := object [("salt", .str i.salt), ("asset", .str i.asset)]

def agentWallets : Json := .arr (i.wallets.map .str)

def settlement (s : Settlement) : Json :=
  object [("status", s.status),
    ("transfers", match s.transfers with
      | none => .null
      | some dests => .arr (dests.map fun dest => object [("to", .str dest)]))]

def chain : Json :=
  match i.nonces with
  | none => .null
  | some ns => object [("nonces", .obj (ns.map fun n => (n.1, settlement n.2)))]

variable {i}

theorem settlementIs (s : Settlement) : SettlementIs s (settlement s) := by
  unfold settlement
  constructor
  · exact get_of_item (item_object_cons ..)
  · cases s.transfers with
    | none => exact get_of_item (by rw [item_object_cons_ne (by decide), item_object_cons])
    | some dests =>
      refine ⟨_, get_of_item (by rw [item_object_cons_ne (by decide), item_object_cons]), ?_⟩
      rw [List.forall₂_map_left_iff]
      exact List.forall₂_same.mpr fun dest _ => item_object_cons ..

theorem noncesOf_object (nonces : List (Str × Json)) :
    noncesOf (object [("nonces", .obj nonces)]) = some nonces := by
  have havailable : [(lit "nonces", Json.obj nonces)].lookup (lit "available") = none := by
    rw [lookup_cons_if, if_neg (by decide), List.lookup_nil]
  have hnonces : [(lit "nonces", Json.obj nonces)].lookup (lit "nonces") = some (.obj nonces) := by
    rw [lookup_cons_if, if_pos rfl]
  rw [object, List.map_singleton, noncesOf, if_neg, hnonces]
  rw [havailable]
  simp

/-- What `assess` answers on these objects. -/
def answer (R : Runtime) (i : Inputs) : Except Raised Result :=
  assess R i.receipt i.opening (.str i.rater) i.agentWallets i.chain

/-- All inputs are held by some objects. -/
theorem documented (hi : i.Distinct) :
    Documented i i.receipt i.opening (.str i.rater) i.agentWallets i.chain := by
  unfold receipt opening
  constructor
  case rater => rfl
  case wallets => rfl
  case chain =>
    cases hns : i.nonces with
    | none =>
      dsimp only
      rw [chain, hns]
      rfl
    | some ns =>
      dsimp only
      rw [chain, hns]
      refine ⟨_, noncesOf_object _, ?_, hi ns hns⟩
      rw [List.forall₂_map_left_iff]
      exact List.forall₂_same.mpr fun n _ => ⟨rfl, settlementIs n.2⟩
  all_goals simp (disch := decide) only [item_object_cons, item_object_cons_ne]

end Inputs

/-! ## The finding in these types -/

/-- What is found of the settlement. -/
def Settlement.finding (wallets : List Str) (s : Settlement) : Result :=
  if !s.status.pyEq (.int 1) then .noSettlement
  else match s.transfers with
    | none => .incompleteCheck
    | some dests =>
      if dests.any fun dest => (wallets.map R.lower).contains (R.lower dest) then .opensToSettlement
      else .paytoNotBoundToAgent

/-- The call of `link`. -/
def Inputs.link (i : Inputs) (ns : List (Str × Settlement)) : Except Raised LinkResult :=
  AuthorizationCommitment.link R (.str i.commitment) (.str i.salt) (.str i.method) (.str i.asset)
    (.str (R.lower i.payer)) (ns.map (·.1))

/-- What `assess` makes of the result of `link`. -/
def settle (wallets : List Str) (ns : List (Str × Settlement)) :
    Except Raised LinkResult → Except Raised Result
  | .error (.malformed _) => .ok .noSettlement
  | .error e => .error e
  | .ok (.linked nonce) =>
    match ns.lookup nonce with
    | none => .error (.py .keyError)
    | some s => .ok (s.finding R wallets)
  | .ok _ => .ok .noSettlement

/-- What `assess` finds. -/
def Inputs.outcome (i : Inputs) : Except Raised Result :=
  if R.lower i.payer ≠ R.lower i.rater then .ok .payerIsNotRater
  else match i.nonces with
    | none => .ok .incompleteCheck
    | some ns => settle R i.wallets ns (i.link R ns)

variable {R}

theorem anyBound_eq {bound : List Str} {ts : List Json} {dests : List Str}
    (h : List.Forall₂ (fun t dest => t.item (lit "to") = .ok (.str dest)) ts dests) :
    anyBound R bound ts = .ok (dests.any fun dest => bound.contains (R.lower dest)) := by
  induction h with
  | nil => rfl
  | @cons t dest ts dests ht hts ih =>
    rw [anyBound, ht, ok_bind, lowerOf, ok_bind, ih, List.any_cons]
    cases bound.contains (R.lower dest) <;> rfl

theorem assessSettlement_eq {s : Settlement} {x : Json} (h : SettlementIs s x)
    (wallets : List Str) :
    assessSettlement R x (.arr (wallets.map .str)) = .ok (s.finding R wallets) := by
  have hbound : (wallets.map Json.str).mapM (lowerOf R) = .ok (wallets.map R.lower) := by
    rw [mapM_ok, List.forall₂_map_left_iff, List.forall₂_map_right_iff]
    exact List.forall₂_same.mpr fun _ _ => rfl
  have htransfers := h.transfers
  unfold assessSettlement Settlement.finding
  rw [h.status, ok_bind]
  cases hstatus : s.status.pyEq (.int 1) with
  | false => rfl
  | true =>
    cases hs : s.transfers with
    | none =>
      rw [hs] at htransfers
      dsimp only at htransfers
      rw [htransfers]
      rfl
    | some dests =>
      rw [hs] at htransfers
      obtain ⟨ts, hts, hall⟩ := htransfers
      rw [hts]
      dsimp only [Json.iter]
      simp only [ok_bind, hbound, anyBound_eq hall, Bool.not_true, Bool.false_eq_true, if_false,
        reduceCtorEq]
      cases dests.any fun dest => (wallets.map R.lower).contains (R.lower dest) <;> rfl

theorem keys_entries {nonces : List (Str × Json)} {ns : List (Str × Settlement)}
    (h : List.Forall₂ EntryIs nonces ns) : nonces.map (·.1) = ns.map (·.1) := by
  induction h with
  | nil => rfl
  | cons hentry _ ih => rw [List.map_cons, List.map_cons, ih, hentry.1]

/-- On objects that hold the inputs, `assess` is the outcome. -/
theorem assess_eq {i : Inputs} {receipt opening rater agentWallets chain : Json}
    (h : Documented i receipt opening rater agentWallets chain) :
    assess R receipt opening rater agentWallets chain = i.outcome R := by
  have hchain := h.chain
  unfold assess Inputs.outcome
  rw [h.payer, h.rater]
  by_cases hsame : R.lower i.payer = R.lower i.rater
  · simp only [ok_bind, lowerOf, lift, hsame, ne_eq, not_true, if_false]
    unfold assessPayer
    cases hn : i.nonces with
    | none =>
      rw [hn] at hchain
      dsimp only at hchain
      rw [hchain]
    | some ns =>
      rw [hn] at hchain
      obtain ⟨nonces, hnonces, hentries, hdistinct⟩ := hchain
      rw [hnonces, h.commitment, h.salt, h.method, h.asset]
      simp only [ok_bind, lift]
      rw [keys_entries hentries, eraseDups_of_nodup hdistinct, ← hsame]
      change _ = settle R i.wallets ns (i.link R ns)
      cases hlink : i.link R ns with
      | error e =>
        rw [Inputs.link] at hlink
        rw [hlink]
        cases e <;> rfl
      | ok r =>
        rw [Inputs.link] at hlink
        rw [hlink]
        cases r with
        | linked nonce =>
          dsimp only [settle]
          rw [h.wallets, Json.item]
          have hlookup := lookup_forall₂ (P := fun x s => SettlementIs s x) hentries nonce
          rcases hlookup with ⟨hx, hs⟩ | ⟨x, s, hx, hs, hfound⟩
          · rw [hx, hs]
            rfl
          · rw [hx, hs]
            dsimp only
            rw [ok_bind, assessSettlement_eq hfound]
        | noMatch => rfl
        | ambiguous => rfl
  · simp only [ok_bind, lowerOf, lift, ne_eq, hsame, not_false_eq_true, if_true]
    rfl

/-! ## Other spellings -/

/-- The same text but for the case of hex digits. -/
def SameHex (s t : Str) : Prop :=
  List.Forall₂ (fun c d => c = d ∨ ∃ v, hexVal c = some v ∧ hexVal d = some v) s t

/-- The settlement with the same status, paid to the same addresses. -/
structure Settlement.HexVariant (s s' : Settlement) : Prop where
  status : s.status = s'.status
  transfers : Option.Rel (List.Forall₂ SameHex) s.transfers s'.transfers

/-- The same inputs but for the case of hex digits. -/
structure Inputs.HexVariant (i i' : Inputs) : Prop where
  payer : SameHex i.payer i'.payer
  commitment : SameHex i.commitment i'.commitment
  method : i.method = i'.method
  salt : SameHex i.salt i'.salt
  asset : SameHex i.asset i'.asset
  rater : SameHex i.rater i'.rater
  wallets : List.Forall₂ SameHex i.wallets i'.wallets
  nonces : Option.Rel (List.Forall₂ fun n n' => SameHex n.1 n'.1 ∧ n.2.HexVariant n'.2)
    i.nonces i'.nonces

theorem SameHex.refl (s : Str) : SameHex s s := List.forall₂_same.mpr fun _ _ => Or.inl rfl

theorem Settlement.HexVariant.refl (s : Settlement) : s.HexVariant s := by
  refine ⟨rfl, ?_⟩
  cases s.transfers with
  | none => exact .none
  | some dests => exact .some (List.forall₂_same.mpr fun _ _ => SameHex.refl _)

/-- The character is a hex digit that is a letter. -/
def isHexLetter (c : CodePoint) : Bool := (hexVal c).any fun v => 10 ≤ v

/-- A hex digit of the text is a letter. -/
def HasLetter (s : Str) : Prop := ∃ c ∈ s, isHexLetter c = true

/-- A digit below ten has one spelling. -/
theorem val_of_hexVal {c : CodePoint} {v : Nat} (h : hexVal c = some v) (hv : v < 10) :
    c.val = 0x30 + v := by
  unfold hexVal at h
  split at h
  · have := Option.some.inj h
    omega
  · split at h
    · have := Option.some.inj h
      omega
    · split at h
      · have := Option.some.inj h
        omega
      · cases h

section Chars

variable {c d : CodePoint} (h : c = d ∨ ∃ v, hexVal c = some v ∧ hexVal d = some v)

include h

/-- Only a letter has two spellings. -/
theorem eq_of_sameChar (hc : isHexLetter c = false) : c = d := by
  rcases h with h | ⟨v, hv, hd⟩
  · exact h
  · have hlt : v < 10 := by
      rw [isHexLetter, hv, Option.any_some, decide_eq_false_iff_not] at hc
      omega
    exact Fin.ext ((val_of_hexVal hv hlt).trans (val_of_hexVal hd hlt).symm)

theorem isSome_of_sameChar : (hexVal c).isSome = (hexVal d).isSome := by
  rcases h with rfl | ⟨v, hv, hd⟩
  · rfl
  · rw [hv, hd]

end Chars

theorem SameHex.symm {s t : Str} (h : SameHex s t) : SameHex t s := by
  refine List.Forall₂.flip (h.imp fun c d hcd => ?_)
  rcases hcd with rfl | ⟨v, hc, hd⟩
  · exact Or.inl rfl
  · exact Or.inr ⟨v, hd, hc⟩

theorem SameHex.eq {s t : Str} (h : SameHex s t) (hs : ¬ HasLetter s) : s = t := by
  induction h with
  | nil => rfl
  | @cons c d s t hcd _ ih =>
    have hc : isHexLetter c = false := by
      rw [Bool.eq_false_iff]
      exact fun hc => hs ⟨c, List.mem_cons_self, hc⟩
    rw [eq_of_sameChar hcd hc, ih fun ⟨e, he, hl⟩ => hs ⟨e, List.mem_cons_of_mem _ he, hl⟩]

/-- The prefix has one spelling. -/
theorem SameHex.take_two {s t : Str} (h : SameHex s t) (hs : s.take 2 = lit "0x") :
    t.take 2 = lit "0x" := by
  have hnone : ¬ HasLetter (s.take 2) := by
    rw [hs]
    rintro ⟨c, hc, hl⟩
    have hall : (lit "0x").all (fun c => !isHexLetter c) = true := by decide
    have := List.all_eq_true.mp hall c hc
    rw [hl] at this
    cases this
  have hsame : SameHex (s.take 2) (t.take 2) := List.forall₂_take 2 h
  rw [← hsame.eq hnone, hs]

theorem SameHex.all {s t : Str} (h : SameHex s t) (hs : s.all (fun c => (hexVal c).isSome) = true) :
    t.all (fun c => (hexVal c).isSome) = true := by
  induction h with
  | nil => rfl
  | cons hcd _ ih =>
    rw [List.all_cons, Bool.and_eq_true] at hs ⊢
    exact ⟨isSome_of_sameChar hcd ▸ hs.1, ih hs.2⟩

theorem SameHex.isPrefixedHex {n : Nat} {s t : Str} (h : SameHex s t)
    (hs : isPrefixedHex n s = true) : isPrefixedHex n t = true := by
  simp only [AuthorizationCommitment.isPrefixedHex, Bool.and_eq_true, beq_iff_eq] at hs ⊢
  obtain ⟨⟨hlen, hprefix⟩, hdigits⟩ := hs
  have hrest : SameHex (s.drop 2) (t.drop 2) := List.forall₂_drop 2 h
  exact ⟨⟨by rw [← h.length_eq, hlen], h.take_two hprefix⟩, hrest.all hdigits⟩

/-- The spelling with its letters in upper case. -/
def upperPoint (c : CodePoint) : CodePoint :=
  if h : 0x61 ≤ c.val ∧ c.val ≤ 0x66 then ⟨c.val - 0x20, by omega⟩ else c

def upperHex (s : Str) : Str := s.map upperPoint

theorem sameHex_upperHex (s : Str) : SameHex s (upperHex s) := by
  refine List.forall₂_map_right_iff.mpr (List.forall₂_same.mpr fun c _ => ?_)
  unfold upperPoint
  split
  · refine Or.inr ⟨c.val - 0x57, ?_, ?_⟩
    · rw [hexVal, if_neg (by omega), if_pos (by omega)]
    · rw [hexVal]
      dsimp only
      rw [if_neg (by omega), if_neg (by omega), if_pos (by omega)]
      congr 1
  · exact Or.inl rfl

theorem sameHex_asciiLower {n : Nat} {s : Str} (h : isPrefixedHex n s = true) :
    SameHex s (Runtime.asciiLower s) := by
  simp only [AuthorizationCommitment.isPrefixedHex, Bool.and_eq_true, beq_iff_eq] at h
  obtain ⟨⟨-, hprefix⟩, hdigits⟩ := h
  rw [asciiLower_eq_map]
  refine List.forall₂_map_right_iff.mpr (List.forall₂_same.mpr fun c hc => ?_)
  rw [← List.take_append_drop 2 s, hprefix, List.mem_append] at hc
  rcases hc with hc | hc
  · have hall : (lit "0x").all (fun c => c = lowerPoint c) = true := by decide
    exact Or.inl (of_decide_eq_true (List.all_eq_true.mp hall c hc))
  · obtain ⟨v, hv⟩ := Option.isSome_iff_exists.mp (List.all_eq_true.mp hdigits c hc)
    obtain ⟨hlt, hlow⟩ := lowerPoint_of_hexVal hv
    exact Or.inr ⟨v, hv, hlow ▸ hexVal_hexDigit v hlt⟩

/-- A letter in upper case is not in a text in lower case. -/
theorem upperHex_ne {s : Str} (hs : HasLetter s) (t : Str) : upperHex s ≠ Runtime.asciiLower t := by
  obtain ⟨c, hc, hletter⟩ := hs
  intro heq
  have hmem : upperPoint c ∈ Runtime.asciiLower t := heq ▸ List.mem_map_of_mem hc
  have hupper : 0x41 ≤ (upperPoint c).val ∧ (upperPoint c).val ≤ 0x46 := by
    obtain ⟨v, hv, hten⟩ := (Option.any_eq_true _ _).mp hletter
    have hten := of_decide_eq_true hten
    unfold hexVal at hv
    split at hv
    · have := Option.some.inj hv
      omega
    · unfold upperPoint
      split at hv
      · next h =>
        rw [dif_pos h]
        dsimp only
        omega
      · next h =>
        rw [dif_neg h]
        split at hv
        · next h => exact h
        · cases hv
  obtain ⟨d, -, hd⟩ := List.mem_map.mp (asciiLower_eq_map t ▸ hmem)
  unfold lowerPoint at hd
  split at hd
  · next h =>
    have hval : (d + 0x20).val = d.val + 0x20 := by
      rw [Fin.val_add]
      exact Nat.mod_eq_of_lt (by have : ((0x20 : CodePoint)).val = 0x20 := rfl; omega)
    rw [← hd, hval] at hupper
    omega
  · rw [← hd] at hupper
    omega

theorem asciiLower_of_sameHex {s t : Str} (h : SameHex s t) :
    Runtime.asciiLower s = Runtime.asciiLower t := by
  rw [asciiLower_eq_map, asciiLower_eq_map]
  induction h with
  | nil => rfl
  | cons hcd _ ih =>
    rw [List.map_cons, List.map_cons, ih]
    rcases hcd with rfl | ⟨v, hc, hd⟩
    · rfl
    · rw [(lowerPoint_of_hexVal hc).2, (lowerPoint_of_hexVal hd).2]

/-! ## What a spelling changes -/

/-- The nonce that was linked. -/
def linkedNonce : LinkResult → Option Str
  | .linked nonce => some nonce
  | _ => none

/-- Only the nonce counts of what `link` returns. -/
theorem settle_congr {x y : Except Raised LinkResult} (h : x.map linkedNonce = y.map linkedNonce)
    (wallets : List Str) (ns : List (Str × Settlement)) :
    settle R wallets ns x = settle R wallets ns y := by
  cases x with
  | error e =>
    cases y with
    | error e' => rw [Except.error.inj h]
    | ok r => cases h
  | ok r =>
    cases y with
    | error e => cases h
    | ok r' =>
      have hr := Except.ok.inj h
      cases r with
      | linked n =>
        cases r' with
        | linked n' => rw [Option.some.inj hr]
        | noMatch => cases hr
        | ambiguous => cases hr
      | noMatch =>
        cases r' with
        | linked n' => cases hr
        | noMatch => rfl
        | ambiguous => rfl
      | ambiguous =>
        cases r' with
        | linked n' => cases hr
        | noMatch => rfl
        | ambiguous => rfl

section Case

variable (hcase : ∀ s t, SameHex s t → R.lower s = R.lower t)

include hcase

theorem hexField_variant {n : Nat} {condition : String} {s t : Str} (h : SameHex s t) :
    hexField R n condition (.str s) = hexField R n condition (.str t) := by
  unfold hexField
  dsimp only
  by_cases hs : isPrefixedHex n s = true
  · rw [if_pos hs, if_pos (h.isPrefixedHex hs), hcase _ _ (List.forall₂_drop 2 h)]
  · rw [if_neg hs, if_neg fun ht => hs (h.symm.isPrefixedHex ht)]

theorem commit_variant {asset asset' nonce nonce' salt salt' : Str} (ha : SameHex asset asset')
    (hn : SameHex nonce nonce') (hs : SameHex salt salt') (method authorizer : Json) :
    commit R method (.str asset) authorizer (.str nonce) (.str salt) =
      commit R method (.str asset') authorizer (.str nonce') (.str salt') := by
  unfold commit addr b32
  rw [hexField_variant hcase ha, hexField_variant hcase hn, hexField_variant hcase hs]

/-- Nonces in another spelling match where the nonces do. -/
theorem hits_variant {asset asset' salt salt' : Str} (ha : SameHex asset asset')
    (hs : SameHex salt salt') {ns ns' : List Str} (h : List.Forall₂ SameHex ns ns') (target : Str)
    (method authorizer : Json) :
    (∃ e, hits R target (.str salt) method (.str asset) authorizer ns = .error e ∧
        hits R target (.str salt') method (.str asset') authorizer ns' = .error e) ∨
      ∃ found found', hits R target (.str salt) method (.str asset) authorizer ns = .ok found ∧
        hits R target (.str salt') method (.str asset') authorizer ns' = .ok found' ∧
        List.Forall₂ SameHex found found' := by
  induction h with
  | nil => exact Or.inr ⟨[], [], rfl, rfl, .nil⟩
  | @cons n n' ns ns' hn _ ih =>
    rw [hits, hits, commit_variant hcase ha hn hs]
    cases commit R method (.str asset') authorizer (.str n') (.str salt') with
    | error e => exact Or.inl ⟨e, rfl, rfl⟩
    | ok c =>
      rw [ok_bind, ok_bind]
      rcases ih with ⟨e, hns, hns'⟩ | ⟨found, found', hns, hns', hfound⟩
      · rw [hns, hns']
        exact Or.inl ⟨e, rfl, rfl⟩
      · rw [hns, hns', ok_bind, ok_bind]
        refine Or.inr ⟨_, _, rfl, rfl, ?_⟩
        by_cases hc : c = target
        · rw [if_pos hc, if_pos hc]
          exact .cons hn hfound
        · rw [if_neg hc, if_neg hc]
          exact hfound

/-- `link` finds the same nonce in every spelling. -/
theorem link_variant {i i' : Inputs} (hi : i.HexVariant i') {ns ns' : List (Str × Settlement)}
    (hns : List.Forall₂ (fun n n' => SameHex n.1 n'.1 ∧ n.2.HexVariant n'.2) ns ns') :
    (i.link R ns).map linkedNonce = (i'.link R ns').map linkedNonce := by
  have hkeys : List.Forall₂ SameHex (ns.map (·.1)) (ns'.map (·.1)) := by
    rw [List.forall₂_map_left_iff, List.forall₂_map_right_iff]
    exact hns.imp fun _ _ h => h.1
  unfold Inputs.link AuthorizationCommitment.link b32
  rw [hexField_variant hcase hi.commitment, hcase _ _ hi.payer, hi.method]
  cases hexField R 64 ("commitment" ++ "_not_bytes32") (.str i'.commitment) with
  | error e => rfl
  | ok b =>
    simp only [ok_bind, lowerOf, lift, hcase _ _ hi.commitment]
    rcases hits_variant hcase hi.asset hi.salt hkeys (R.lower i'.commitment) (.str i'.method)
      (.str (R.lower i'.payer)) with ⟨e, h, h'⟩ | ⟨found, found', h, h', hfound⟩
    · rw [h, h']
    · rw [h, h', ok_bind, ok_bind]
      cases hfound with
      | nil => rfl
      | cons hn hrest =>
        cases hrest with
        | nil =>
          dsimp only
          rw [hcase _ _ hn]
        | cons _ _ => rfl

theorem map_lower_variant {xs ys : List Str} (h : List.Forall₂ SameHex xs ys) :
    xs.map R.lower = ys.map R.lower := by
  induction h with
  | nil => rfl
  | cons hxy _ ih => rw [List.map_cons, List.map_cons, hcase _ _ hxy, ih]

theorem finding_variant {s s' : Settlement} (hs : s.HexVariant s') {wallets wallets' : List Str}
    (hw : List.Forall₂ SameHex wallets wallets') : s.finding R wallets = s'.finding R wallets' := by
  have htransfers := hs.transfers
  unfold Settlement.finding
  rw [hs.status, map_lower_variant hcase hw]
  generalize s.transfers = transfers at htransfers ⊢
  generalize s'.transfers = transfers' at htransfers ⊢
  cases htransfers with
  | none => rfl
  | @some dests dests' h =>
    have hany : (dests.any fun dest => (wallets'.map R.lower).contains (R.lower dest)) =
        dests'.any fun dest => (wallets'.map R.lower).contains (R.lower dest) := by
      have hmap (ds : List Str) : (ds.any fun dest =>
          (wallets'.map R.lower).contains (R.lower dest)) =
          (ds.map R.lower).any (wallets'.map R.lower).contains := by
        rw [List.any_map]
        rfl
      rw [hmap, hmap, map_lower_variant hcase h]
    dsimp only
    rw [hany]

end Case

/-! ## Where the finding is steady -/

/-- The check comes to the nonces. -/
structure Inputs.Reads (R : Runtime) (i : Inputs) (ns : List (Str × Settlement)) : Prop where
  rater : R.lower i.payer = R.lower i.rater
  nonces : i.nonces = some ns
  commitment : isPrefixedHex 64 i.commitment = true

/-- The commitment of the receipt is the one to this nonce. -/
def Inputs.Names (R : Runtime) (i : Inputs) (n : Str) : Prop :=
  commit R (.str i.method) (.str i.asset) (.str (R.lower i.payer)) (.str n) (.str i.salt) =
    .ok (R.lower i.commitment)

/-- Of well-formed nonces, the commitment names this one and no other. -/
structure Inputs.NamesOnly (R : Runtime) (i : Inputs) (ns : List (Str × Settlement)) (n : Str) :
    Prop where
  mem : n ∈ ns.map (·.1)
  names : i.Names R n
  only : ∀ m ∈ ns.map (·.1), i.Names R m → m = n
  formed : ∀ m ∈ ns.map (·.1), isPrefixedHex 64 m = true

/-- There are nonces to try, and the method is not the one implemented. -/
def Inputs.Unimplemented (R : Runtime) (i : Inputs) : Prop :=
  ∃ ns, i.Reads R ns ∧ ns ≠ [] ∧ i.method ≠ eip3009

/-- The nonce that the commitment names has a letter in it. -/
def Inputs.Lettered (R : Runtime) (i : Inputs) : Prop :=
  ∃ ns n, i.Reads R ns ∧ i.NamesOnly R ns n ∧ HasLetter n

/-- `assess` answers on these objects, and gives that answer for every spelling of
the inputs that keeps the nonces apart. -/
def Steady (R : Runtime) (i : Inputs) : Prop :=
  ∃ r : Result, ∀ (i' : Inputs) (receipt opening rater agentWallets chain : Json),
    i.HexVariant i' → Documented i' receipt opening rater agentWallets chain →
    assess R receipt opening rater agentWallets chain = .ok r

theorem hits_ok {target : Str} {salt method asset authorizer : Json} {ns found : List Str}
    (h : hits R target salt method asset authorizer ns = .ok found) :
    ∀ n ∈ ns, ∃ c, commit R method asset authorizer (.str n) salt = .ok c ∧
      (c = target → n ∈ found) := by
  induction ns generalizing found with
  | nil => exact fun n hn => absurd hn List.not_mem_nil
  | cons m ns ih =>
    obtain ⟨c, hc, h⟩ := bind_ok.mp h
    obtain ⟨rest, hrest, h⟩ := bind_ok.mp h
    have hmem := ih hrest
    obtain rfl := Except.ok.inj h
    intro n hn
    rcases List.mem_cons.mp hn with rfl | hn
    · refine ⟨c, hc, fun heq => ?_⟩
      rw [if_pos heq]
      exact List.mem_cons_self
    · obtain ⟨d, hd, hfound⟩ := hmem n hn
      refine ⟨d, hd, fun heq => ?_⟩
      split
      · exact List.mem_cons_of_mem _ (hfound heq)
      · exact hfound heq

theorem isPrefixedHex_of_hexField {n : Nat} {condition : String} {s : Str} {b : Bytes}
    (h : hexField R n condition (.str s) = .ok b) : isPrefixedHex n s = true := by
  by_contra hno
  rw [hexField, if_neg hno] at h
  cases h

theorem ascii_of_isPrefixedHex {n : Nat} {s : Str} (h : isPrefixedHex n s = true) :
    ∀ c ∈ s, c.val < 0x80 := by
  simp only [isPrefixedHex, Bool.and_eq_true, beq_iff_eq] at h
  obtain ⟨⟨-, hprefix⟩, hdigits⟩ := h
  intro c hc
  rw [← List.take_append_drop 2 s, hprefix, List.mem_append] at hc
  rcases hc with hc | hc
  · have hall : (lit "0x").all (·.val < 0x80) = true := by decide
    exact of_decide_eq_true (List.all_eq_true.mp hall c hc)
  · exact ReceiptCheck.val_of_isHexDigit (List.all_eq_true.mp hdigits c hc)

theorem hits_error {target : Str} {salt method asset authorizer : Json} {ns : List Str}
    {e : Raised} (h : hits R target salt method asset authorizer ns = .error e) :
    ∃ n ∈ ns, commit R method asset authorizer (.str n) salt = .error e := by
  induction ns with
  | nil => cases h
  | cons n ns ih =>
    rcases bind_error.mp h with h | ⟨c, -, h⟩
    · exact ⟨n, List.mem_cons_self, h⟩
    · rcases bind_error.mp h with h | ⟨_, -, h⟩
      · obtain ⟨m, hm, he⟩ := ih h
        exact ⟨m, List.mem_cons_of_mem _ hm, he⟩
      · cases h

section Lower

variable (hlower : ∀ s, (∀ c ∈ s, c.val < 0x80) → R.lower s = Runtime.asciiLower s)

include hlower

theorem hexField_error {n : Nat} {condition : String} {v : Json} {e : Raised}
    (h : hexField R (2 * n) condition v = .error e) : ∃ c, e = .malformed c := by
  unfold hexField at h
  split at h
  · next s =>
    by_cases hs : isPrefixedHex (2 * n) s = true
    · obtain ⟨b, -, -, hok⟩ := ReceiptCheck.hexField_digits hlower condition hs
      rw [hexField] at hok
      rw [hok] at h
      cases h
    · rw [if_neg hs] at h
      exact ⟨_, (Except.error.inj h).symm⟩
  · exact ⟨_, (Except.error.inj h).symm⟩

theorem commit_error {asset authorizer nonce salt : Json} {e : Raised}
    (h : commit R (.str eip3009) asset authorizer nonce salt = .error e) :
    ∃ c, e = .malformed c := by
  unfold commit at h
  rw [if_neg (not_not.mpr rfl)] at h
  rcases bind_error.mp h with h | ⟨_, -, h⟩
  · exact hexField_error (n := 20) hlower h
  rcases bind_error.mp h with h | ⟨_, -, h⟩
  · exact hexField_error (n := 20) hlower h
  rcases bind_error.mp h with h | ⟨_, -, h⟩
  · exact hexField_error (n := 32) hlower h
  rcases bind_error.mp h with h | ⟨_, -, h⟩
  · exact hexField_error (n := 32) hlower h
  · cases h

/-- `link` refuses what is malformed, and methods it does not implement. -/
theorem link_error {i : Inputs} {ns : List (Str × Settlement)} {e : Raised}
    (h : i.link R ns = .error e) :
    (∃ c, e = .malformed c) ∨
      isPrefixedHex 64 i.commitment = true ∧ ns ≠ [] ∧ i.method ≠ eip3009 := by
  unfold Inputs.link AuthorizationCommitment.link at h
  rcases bind_error.mp h with h | ⟨b, hb, h⟩
  · exact Or.inl (hexField_error (n := 32) hlower h)
  rcases bind_error.mp h with h | ⟨c, -, h⟩
  · cases h
  rcases bind_error.mp h with h | ⟨found, -, h⟩
  · obtain ⟨n, hn, hcommit⟩ := hits_error h
    by_cases hm : i.method = eip3009
    · rw [hm] at hcommit
      exact Or.inl (commit_error hlower hcommit)
    · refine Or.inr ⟨isPrefixedHex_of_hexField hb, ?_, hm⟩
      rintro rfl
      cases hn
  · split at h <;> cases h

omit hlower in
theorem method_of_commit {method : Str} {asset authorizer nonce salt : Json} {c : Str}
    (h : commit R (.str method) asset authorizer nonce salt = .ok c) : method = eip3009 := by
  by_contra hne
  rw [commit, if_pos fun heq => hne (Json.str.inj heq)] at h
  cases h

omit hlower in
theorem filter_eq_singleton {n : Str} {keys : List Str} (hdistinct : keys.Nodup) (hn : n ∈ keys)
    {p : Str → Bool} (hp : p n = true) (honly : ∀ m ∈ keys, p m = true → m = n) :
    keys.filter p = [n] := by
  have hall : keys.filter p = List.replicate (keys.filter p).length n :=
    List.eq_replicate_of_mem fun m hm => honly m (List.mem_of_mem_filter hm) (List.mem_filter.mp hm).2
  have hle := List.nodup_replicate.mp (hall ▸ hdistinct.filter p)
  have hpos := List.length_pos_of_mem (List.mem_filter.mpr ⟨hn, hp⟩)
  rw [hall, show (keys.filter p).length = 1 by omega, List.replicate_one]

/-- What `link` finds is the one nonce that the commitment names. -/
theorem link_linked {i : Inputs} {ns : List (Str × Settlement)} (hdistinct : (ns.map (·.1)).Nodup)
    {nonce : Str} :
    i.link R ns = .ok (.linked nonce) ↔
      isPrefixedHex 64 i.commitment = true ∧ ∃ n, i.NamesOnly R ns n ∧ R.lower n = nonce := by
  unfold Inputs.link
  rw [ReceiptCheck.link_commitment_linked]
  constructor
  · rintro ⟨b, c, n, hb, hc, hhits, rfl⟩
    obtain rfl := Except.ok.inj hc
    obtain ⟨hn, hnames⟩ := ReceiptCheck.mem_hits hhits n List.mem_cons_self
    refine ⟨isPrefixedHex_of_hexField hb, n, ⟨hn, hnames, fun m hm hnamed => ?_, fun m hm => ?_⟩,
      rfl⟩
    · obtain ⟨d, hd, hfound⟩ := hits_ok hhits m hm
      exact List.mem_singleton.mp (hfound (Except.ok.inj (hd.symm.trans hnamed)))
    · obtain ⟨d, hd, -⟩ := hits_ok hhits m hm
      rw [method_of_commit hd] at hd
      obtain ⟨_, _, _, _, -, -, hfield, -⟩ := ReceiptCheck.commit_ok hd
      exact isPrefixedHex_of_hexField hfield
  · rintro ⟨hcommitment, n, hn, rfl⟩
    obtain ⟨b, -, -, hb⟩ := ReceiptCheck.hexField_digits (n := 32) hlower
      ("commitment" ++ "_not_bytes32") hcommitment
    have hmethod := method_of_commit hn.names
    have hnames := hn.names
    rw [Inputs.Names, hmethod] at hnames
    obtain ⟨a, p, _, s, ha, hp, -, hs, -⟩ := ReceiptCheck.commit_ok hnames
    let f (m : Str) : Str := (commit R (.str i.method) (.str i.asset) (.str (R.lower i.payer))
      (.str m) (.str i.salt)).toOption.getD []
    have hf : ∀ m ∈ ns.map (·.1), commit R (.str i.method) (.str i.asset)
        (.str (R.lower i.payer)) (.str m) (.str i.salt) = .ok (f m) := by
      intro m hm
      obtain ⟨mb, -, -, hmb⟩ := ReceiptCheck.hexField_digits (n := 32) hlower
        ("nonce" ++ "_not_bytes32") (hn.formed m hm)
      have hok := ReceiptCheck.commit_eq ha hp hmb hs
      simp only [f, hmethod, hok, Except.toOption, Option.getD_some]
    have hfn : f n = R.lower i.commitment :=
      Except.ok.inj ((hf n hn.mem).symm.trans hn.names)
    refine ⟨b, R.lower i.commitment, n, hb, rfl, ?_, rfl⟩
    rw [ReceiptCheck.hits_eq hf, filter_eq_singleton hdistinct hn.mem (decide_eq_true hfn)]
    intro m hm hfm
    refine hn.only m hm ?_
    rw [Inputs.Names, hf m hm, of_decide_eq_true hfm]

/-- With nonces to try, a method that is not implemented ends in `NotAttempted`. -/
theorem link_unimplemented {i : Inputs} {ns : List (Str × Settlement)}
    (hcommitment : isPrefixedHex 64 i.commitment = true) (hne : ns ≠ [])
    (hmethod : i.method ≠ eip3009) :
    i.link R ns = .error (.notAttempted (lit "unsupported_method")) := by
  obtain ⟨b, -, -, hb⟩ := ReceiptCheck.hexField_digits (n := 32) hlower
    ("commitment" ++ "_not_bytes32") hcommitment
  obtain ⟨s, rest, rfl⟩ := List.exists_cons_of_ne_nil hne
  unfold Inputs.link AuthorizationCommitment.link
  rw [show b32 R (.str i.commitment) "commitment" = .ok b from hb, ok_bind, lowerOf, lift, ok_bind,
    List.map_cons, hits, commit, if_pos fun heq => hmethod (Json.str.inj heq)]
  rfl

/-- The digits of a well-formed text without letters are in lower case already. -/
theorem lower_of_not_letter {n : Nat} {s : Str} (h : isPrefixedHex n s = true)
    (hs : ¬ HasLetter s) : R.lower s = s := by
  rw [hlower s (ascii_of_isPrefixedHex h), ← (sameHex_asciiLower h).eq hs]

end Lower

theorem outcome_reads {i : Inputs} {ns : List (Str × Settlement)}
    (hrater : R.lower i.payer = R.lower i.rater) (hnonces : i.nonces = some ns) :
    i.outcome R = settle R i.wallets ns (i.link R ns) := by
  rw [Inputs.outcome, if_neg (not_not.mpr hrater), hnonces]

/-- A nonce without letters is a key in every spelling. -/
theorem mem_variant {ns ns' : List (Str × Settlement)}
    (h : List.Forall₂ (fun n n' => SameHex n.1 n'.1 ∧ n.2.HexVariant n'.2) ns ns') {n : Str}
    {s : Settlement} (hn : ¬ HasLetter n) (hmem : (n, s) ∈ ns) :
    ∃ s', (n, s') ∈ ns' ∧ s.HexVariant s' := by
  induction h with
  | nil => cases hmem
  | @cons m m' ns ns' hm _ ih =>
    rcases List.mem_cons.mp hmem with rfl | hmem
    · obtain ⟨hkey, hs⟩ := hm
      have heq : (n, m'.2) = m' := Prod.ext (hkey.eq hn) rfl
      exact ⟨m'.2, List.mem_cons.mpr (Or.inl heq), hs⟩
    · obtain ⟨s', hs', hvariant⟩ := ih hmem
      exact ⟨s', List.mem_cons_of_mem _ hs', hvariant⟩

theorem Inputs.HexVariant.refl (i : Inputs) : i.HexVariant i := by
  refine ⟨.refl _, .refl _, rfl, .refl _, .refl _, .refl _,
    List.forall₂_same.mpr fun _ _ => .refl _, ?_⟩
  cases i.nonces with
  | none => exact .none
  | some ns => exact .some (List.forall₂_same.mpr fun _ _ => ⟨.refl _, .refl _⟩)

theorem Documented.distinct {i : Inputs} {receipt opening rater agentWallets chain : Json}
    (h : Documented i receipt opening rater agentWallets chain) : i.Distinct := by
  intro ns hns
  have hchain := h.chain
  rw [hns] at hchain
  obtain ⟨_, -, -, hdistinct⟩ := hchain
  exact hdistinct

/-- The nonce in upper case, and every other one as it is. -/
def respell (n k : Str) : Str := if k = n then upperHex n else k

def Inputs.respelled (i : Inputs) (n : Str) (ns : List (Str × Settlement)) : Inputs :=
  { i with nonces := some (ns.map fun s => (respell n s.1, s.2)) }

theorem sameHex_respell (n k : Str) : SameHex k (respell n k) := by
  unfold respell
  split
  · next h => exact h ▸ sameHex_upperHex k
  · exact .refl k

theorem variant_respelled (n : Str) (ns : List (Str × Settlement)) :
    List.Forall₂ (fun n n' => SameHex n.1 n'.1 ∧ n.2.HexVariant n'.2) ns
      (ns.map fun s => (respell n s.1, s.2)) :=
  List.forall₂_map_right_iff.mpr
    (List.forall₂_same.mpr fun s _ => ⟨sameHex_respell n s.1, .refl s.2⟩)

theorem hexVariant_respelled {i : Inputs} {ns : List (Str × Settlement)} (hns : i.nonces = some ns)
    (n : Str) : i.HexVariant (i.respelled n ns) := by
  have hi := Inputs.HexVariant.refl i
  refine ⟨hi.payer, hi.commitment, hi.method, hi.salt, hi.asset, hi.rater, hi.wallets, ?_⟩
  rw [hns]
  exact .some (variant_respelled n ns)

section Steady

variable (hlower : ∀ s, (∀ c ∈ s, c.val < 0x80) → R.lower s = Runtime.asciiLower s)
  (hcase : ∀ s t, SameHex s t → R.lower s = R.lower t)

include hlower hcase

/-- Where the method is implemented and the nonce has no letter, one finding holds of
every spelling. -/
theorem outcome_steady {i : Inputs} (hdistinct : i.Distinct) (himplemented : ¬ i.Unimplemented R)
    (hletter : ¬ i.Lettered R) :
    ∃ r, ∀ i' : Inputs, i.HexVariant i' → i'.Distinct → i'.outcome R = .ok r := by
  by_cases hrater : R.lower i.payer = R.lower i.rater
  swap
  · refine ⟨.payerIsNotRater, fun i' hi _ => ?_⟩
    rw [Inputs.outcome, if_pos]
    rwa [← hcase _ _ hi.payer, ← hcase _ _ hi.rater]
  have hrater' {i' : Inputs} (hi : i.HexVariant i') : R.lower i'.payer = R.lower i'.rater := by
    rw [← hcase _ _ hi.payer, ← hcase _ _ hi.rater, hrater]
  cases hns : i.nonces with
  | none =>
    refine ⟨.incompleteCheck, fun i' hi _ => ?_⟩
    have hnonces := hi.nonces
    rw [hns] at hnonces
    cases hns' : i'.nonces with
    | none => rw [Inputs.outcome, if_neg (not_not.mpr (hrater' hi)), hns']
    | some ns' =>
      rw [hns'] at hnonces
      cases hnonces
  | some ns =>
    have hkeys := hdistinct ns hns
    -- in every spelling, what is settled is what `link` finds for these inputs
    have hsettle {i' : Inputs} (hi : i.HexVariant i') : ∃ ns', i'.nonces = some ns' ∧
        List.Forall₂ (fun n n' => SameHex n.1 n'.1 ∧ n.2.HexVariant n'.2) ns ns' ∧
        i'.outcome R = settle R i'.wallets ns' (i.link R ns) := by
      have hnonces := hi.nonces
      rw [hns] at hnonces
      cases hns' : i'.nonces with
      | none =>
        rw [hns'] at hnonces
        cases hnonces
      | some ns' =>
        rw [hns'] at hnonces
        cases hnonces with
        | some hall =>
          refine ⟨ns', rfl, hall, ?_⟩
          rw [outcome_reads (hrater' hi) hns', settle_congr (link_variant hcase hi hall)]
    cases hlink : i.link R ns with
    | error e =>
      refine ⟨.noSettlement, fun i' hi _ => ?_⟩
      obtain ⟨ns', -, -, houtcome⟩ := hsettle hi
      rcases link_error hlower hlink with ⟨c, rfl⟩ | ⟨hcommitment, hne, hmethod⟩
      · rw [houtcome, hlink]
        rfl
      · exact absurd ⟨ns, ⟨hrater, hns, hcommitment⟩, hne, hmethod⟩ himplemented
    | ok result =>
      cases result with
      | linked nonce =>
        obtain ⟨hcommitment, n, hn, rfl⟩ := (link_linked hlower hkeys).mp hlink
        have hno : ¬ HasLetter n := fun h =>
          hletter ⟨ns, n, ⟨hrater, hns, hcommitment⟩, hn, h⟩
        rw [lower_of_not_letter hlower (hn.formed n hn.mem) hno] at hlink
        obtain ⟨⟨_, s⟩, hmem, rfl⟩ := List.mem_map.mp hn.mem
        refine ⟨s.finding R i.wallets, fun i' hi hdistinct' => ?_⟩
        obtain ⟨ns', hns', hall, houtcome⟩ := hsettle hi
        obtain ⟨s', hmem', hs⟩ := mem_variant hall hno hmem
        rw [houtcome, hlink]
        dsimp only [settle]
        rw [(lookup_eq_some_iff (hdistinct' ns' hns')).mpr hmem']
        dsimp only
        rw [finding_variant hcase hs hi.wallets]
      | noMatch =>
        refine ⟨.noSettlement, fun i' hi _ => ?_⟩
        obtain ⟨ns', -, -, houtcome⟩ := hsettle hi
        rw [houtcome, hlink]
        rfl
      | ambiguous found =>
        refine ⟨.noSettlement, fun i' hi _ => ?_⟩
        obtain ⟨ns', -, -, houtcome⟩ := hsettle hi
        rw [houtcome, hlink]
        rfl

omit hlower in
/-- A nonce in another spelling of it is the nonce itself. -/
theorem Inputs.NamesOnly.eq {i : Inputs} {ns : List (Str × Settlement)} {n m : Str}
    (h : i.NamesOnly R ns n) (hm : m ∈ ns.map (·.1)) (hsame : SameHex n m) : m = n := by
  refine h.only m hm ?_
  rw [Inputs.Names, ← commit_variant hcase (.refl _) hsame (.refl _)]
  exact h.names

/-- With its letters in upper case, the nonce is found and not looked up. -/
theorem outcome_respelled {i : Inputs} {ns : List (Str × Settlement)} {n : Str}
    (hreads : i.Reads R ns) (hn : i.NamesOnly R ns n) (hletter : HasLetter n)
    (hkeys : (ns.map (·.1)).Nodup) :
    ((ns.map fun s => (respell n s.1, s.2)).map (·.1)).Nodup ∧
      (i.respelled n ns).outcome R = .error (.py .keyError) := by
  have hformed := hn.formed n hn.mem
  have hlow : R.lower n = Runtime.asciiLower n := hlower n (ascii_of_isPrefixedHex hformed)
  constructor
  · have hcomm : (ns.map fun s => (respell n s.1, s.2)).map (·.1) =
        (ns.map (·.1)).map (respell n) := by
      rw [List.map_map, List.map_map]
      rfl
    rw [hcomm]
    refine hkeys.map_on fun k hk m hm heq => ?_
    unfold respell at heq
    split at heq
    · next hkn =>
      split at heq
      · next hmn => rw [hkn, hmn]
      · next hmn => exact absurd (hn.eq hcase hm (heq ▸ sameHex_upperHex n)) hmn
    · next hkn =>
      split at heq
      · next hmn => exact absurd (hn.eq hcase hk (heq ▸ sameHex_upperHex n)) hkn
      · exact heq
  · have hlink := (link_linked hlower hkeys).mpr ⟨hreads.commitment, n, hn, rfl⟩
    have hnone : (ns.map fun s => (respell n s.1, s.2)).lookup (R.lower n) = none := by
      rw [List.lookup_eq_none_iff]
      intro kv hkv
      obtain ⟨s, hs, rfl⟩ := List.mem_map.mp hkv
      rw [bne_iff_ne, hlow]
      dsimp only [respell]
      intro heq
      split at heq
      · exact upperHex_ne hletter n heq.symm
      · next hsn =>
        exact hsn (hn.eq hcase (List.mem_map_of_mem hs) (heq ▸ sameHex_asciiLower hformed))
    have houtcome : (i.respelled n ns).outcome R = settle R i.wallets
        (ns.map fun s => (respell n s.1, s.2)) ((i.respelled n ns).link R
          (ns.map fun s => (respell n s.1, s.2))) := outcome_reads hreads.rater rfl
    rw [houtcome, settle_congr (link_variant hcase (hexVariant_respelled hreads.nonces n)
      (variant_respelled n ns)).symm, hlink]
    dsimp only [settle]
    rw [hnone]

end Steady

/-- `assess` answers, and the same for every spelling, exactly when it does not come to
the nonces with a method that is not implemented, and finds no nonce with a letter. -/
theorem assess_steady_iff
    (hlower : ∀ s, (∀ c ∈ s, c.val < 0x80) → R.lower s = Runtime.asciiLower s)
    (hcase : ∀ s t, SameHex s t → R.lower s = R.lower t) {i : Inputs}
    {receipt opening rater agentWallets chain : Json}
    (h : Documented i receipt opening rater agentWallets chain) :
    Steady R i ↔ ¬ i.Unimplemented R ∧ ¬ i.Lettered R := by
  constructor
  · rintro ⟨r, hr⟩
    constructor
    · rintro ⟨ns, hreads, hne, hmethod⟩
      have hself := hr i _ _ _ _ _ (.refl i) h
      rw [assess_eq h, outcome_reads hreads.rater hreads.nonces,
        link_unimplemented hlower hreads.commitment hne hmethod] at hself
      cases hself
    · rintro ⟨ns, n, hreads, hn, hletter⟩
      obtain ⟨hdistinct, herror⟩ := outcome_respelled hlower hcase hreads hn hletter
        (h.distinct ns hreads.nonces)
      have h' : Documented (i.respelled n ns) _ _ _ _ _ :=
        Inputs.documented fun ns' hns' => Option.some.inj hns' ▸ hdistinct
      have hother := hr _ _ _ _ _ _ (hexVariant_respelled hreads.nonces n) h'
      rw [assess_eq h', herror] at hother
      cases hother
  · rintro ⟨himplemented, hletter⟩
    obtain ⟨r, hr⟩ := outcome_steady hlower hcase h.distinct himplemented hletter
    refine ⟨r, fun i' receipt' opening' rater' agentWallets' chain' hi h' => ?_⟩
    rw [assess_eq h', hr i' hi h'.distinct]

/-! ## Inputs in two spellings -/

open Ed25519Ref (constantRuntime)

/-- Inputs with one nonce, which the commitment names. -/
def sampleInputs (method : Str) (digit : Char) : Inputs where
  payer := prefixedDigits 40 'B'
  commitment := lit "0x" ++ hexStr (List.replicate 32 0xb1)
  method := method
  salt := prefixedDigits 64 '2'
  asset := prefixedDigits 40 'A'
  rater := prefixedDigits 40 'b'
  wallets := [prefixedDigits 40 'C']
  nonces := some [(prefixedDigits 64 digit, ⟨.int 1, some [prefixedDigits 40 'c']⟩)]

theorem sampleInputs_distinct (method : Str) (digit : Char) :
    (sampleInputs method digit).Distinct := by
  intro ns hns
  obtain rfl := Option.some.inj hns
  exact List.nodup_singleton _

/-- A nonce of ones has one spelling. -/
theorem sampleInputs_steady : Steady constantRuntime (sampleInputs eip3009 '1') := by
  have hdocumented := Inputs.documented (sampleInputs_distinct eip3009 '1')
  refine (assess_steady_iff (fun _ _ => rfl) (fun _ _ => asciiLower_of_sameHex) hdocumented).mpr
    ⟨?_, ?_⟩
  · rintro ⟨ns, -, -, hmethod⟩
    exact hmethod rfl
  · rintro ⟨ns, n, hreads, hn, c, hc, hletter⟩
    obtain rfl := Option.some.inj hreads.nonces
    obtain rfl := List.mem_singleton.mp hn.mem
    have hall : (prefixedDigits 64 '1').all (fun c => !isHexLetter c) = true := by decide
    have := List.all_eq_true.mp hall c hc
    rw [hletter] at this
    cases this

/-- A nonce of `c`s is found, and raises `KeyError` as one of `C`s; a method that is not
implemented raises too. -/
theorem sampleInputs_raise :
    (sampleInputs eip3009 'c').HexVariant (sampleInputs eip3009 'C') ∧
    (sampleInputs eip3009 'c').answer constantRuntime = .ok .opensToSettlement ∧
    (sampleInputs eip3009 'C').answer constantRuntime = .error (.py .keyError) ∧
    (sampleInputs (lit "permit2") '1').answer constantRuntime =
      .error (.notAttempted (lit "unsupported_method")) := by
  refine ⟨?_, by decide +kernel, by decide +kernel, by decide +kernel⟩
  have hupper : upperHex (prefixedDigits 64 'c') = prefixedDigits 64 'C' := by decide
  have hi := Inputs.HexVariant.refl (sampleInputs eip3009 'c')
  exact ⟨hi.payer, hi.commitment, rfl, hi.salt, hi.asset, hi.rater, hi.wallets,
    .some (.cons ⟨hupper ▸ sameHex_upperHex _, .refl _⟩ .nil)⟩

end Preaction.PrivateOpening
