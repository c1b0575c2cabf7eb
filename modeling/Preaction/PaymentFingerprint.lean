import Preaction.Lib.Loop
import Preaction.Py.Digits
import Preaction.Rfc8785

/-!
# `x402-payment-fingerprint/fingerprint.py` — one digest for one payment

Buyer and seller each derive a digest from the payment that they hold, and
their records join on it. What the digest is over is written canonically: the
network as a CAIP-2 id, addresses and the nonce in lower case, the value as a
decimal without leading zeros.

A payment that is not refused denotes a `Transfer`, and the digests of two
payments are equal exactly when the two transfers are (`fingerprint_iff`).

Mirroring notes:
- `.lower()` and `int(val)` are applied to texts that the patterns have let
  through, which are ASCII; here they are `asciiLower` and `decimalValue`.
- A condition is the text that the source returns with `malformed`.
-/

namespace Preaction.PaymentFingerprint

open Preaction.Py Preaction.Loop Preaction.Rfc8785

variable (R : Runtime)

/-- `RECIPE` -/
def recipe : Str := lit "x402-payment-fingerprint/0"

/-- `UINT256_MAX` -/
def uint256Max : Nat := 2 ^ 256 - 1

/-- `NETWORK_ALIASES` -/
def networkAliases : List (Str × Str) :=
  [("abstract", "eip155:2741"), ("abstract-testnet", "eip155:11124"),
   ("base-sepolia", "eip155:84532"), ("base", "eip155:8453"), ("avalanche-fuji", "eip155:43113"),
   ("avalanche", "eip155:43114"), ("iotex", "eip155:4689"), ("sei", "eip155:1329"),
   ("sei-testnet", "eip155:1328"), ("polygon", "eip155:137"), ("polygon-amoy", "eip155:80002"),
   ("peaq", "eip155:3338"), ("story", "eip155:1514"), ("educhain", "eip155:41923"),
   ("skale-base-sepolia", "eip155:324705682"), ("ethereum", "eip155:1"),
   ("sepolia", "eip155:11155111"), ("megaeth", "eip155:4326"), ("monad", "eip155:143"),
   ("monad-testnet", "eip155:10143"), ("stable", "eip155:988"), ("stable-testnet", "eip155:2201"),
   ("celo", "eip155:42220"), ("flare", "eip155:14")].map fun kv => (lit kv.1, lit kv.2)

/-- `ADDR` and `NONCE`: `0x` and `n` hex digits. -/
def isHexText (n : Nat) (s : Str) : Bool :=
  s.take 2 == lit "0x" && (s.drop 2).length == n && (s.drop 2).all isHexDigit

/-- `[1-9][0-9]*` -/
def isPositiveDecimal : Str → Bool
  | [] => false
  | c :: cs => isDigit c && c != ofChar '0' && cs.all isDigit

/-- `CAIP2` -/
def isCaip2 (s : Str) : Bool :=
  s.take 7 == lit "eip155:" && isPositiveDecimal (s.drop 7) && (s.drop 7).length ≤ 32

/-- `DEC` -/
def isDec (s : Str) : Bool := s == lit "0" || isPositiveDecimal s

/-- `_network(n)` -/
def network : Json → Option Str
  | .str n =>
    let n := (networkAliases.lookup n).getD n
    if isCaip2 n then some n else none
  | _ => none

/-- The check on an address in the member `k`. -/
def address (k : String) : Json → Except Str Str
  | .str s => if isHexText 40 s then .ok s else .error (lit k ++ lit "_not_evm_address")
  | _ => .error (lit k ++ lit "_not_evm_address")

/-- The check on the nonce. -/
def nonceOf : Json → Except Str Str
  | .str s => if isHexText 64 s then .ok s else .error (lit "nonce_not_bytes32_hex")
  | _ => .error (lit "nonce_not_bytes32_hex")

/-- The check on the value. -/
def valueOf : Json → Except Str Str
  | .str s =>
    if !isDec s then .error (lit "value_not_canonical_decimal_string")
    else if s.length > 78 ∨ s.length = 78 ∧ decimalValue s > uint256Max then
      .error (lit "value_exceeds_uint256")
    else .ok s
  | _ => .error (lit "value_not_canonical_decimal_string")

/-- The object that is hashed. -/
def members (net asset from_ to_ val nonce : Str) : Json :=
  object [("v", .str recipe), ("network", .str net), ("asset", .str (Runtime.asciiLower asset)),
    ("from", .str (Runtime.asciiLower from_)), ("to", .str (Runtime.asciiLower to_)),
    ("value", .str val), ("nonce", .str (Runtime.asciiLower nonce))]

/-- `preimage(payment)`, or the condition that it returns. -/
def preimage (payment : Json) : Except Str Json := do
  let a := payment.find (lit "authorization")
  if !a.isObj then .error (lit "authorization_missing")
  else if payment.find (lit "scheme") ≠ text "exact" then .error (lit "scheme_not_exact")
  else
    let net ← (network (payment.find (lit "network"))).elim
      (.error (lit "network_not_caip2_mappable")) .ok
    let asset ← address "asset" (payment.find (lit "asset"))
    let from_ ← address "from" (a.find (lit "from"))
    let to_ ← address "to" (a.find (lit "to"))
    let nonce ← nonceOf (a.find (lit "nonce"))
    let val ← valueOf (a.find (lit "value"))
    return members net asset from_ to_ val nonce

/-- What `fingerprint` returns. -/
inductive Outcome
  | ok (fp : Str)
  | malformed (condition : Str)
  deriving DecidableEq, Repr

/-- `fingerprint(payment)` -/
def fingerprint (payment : Json) : Except PyError Outcome :=
  match preimage payment with
  | .error condition => .ok (.malformed condition)
  | .ok pre => do return .ok (lit "sha256:" ++ R.sha256Hex (← utf8 (← jcs R pre)))

/-! ## What a payment denotes -/

/-- A transfer on an EVM chain: what the digest identifies. -/
structure Transfer where
  network : Str
  asset : Bytes
  payer : Bytes
  payee : Bytes
  nonce : Bytes
  value : Nat
  network_caip2 : isCaip2 network = true
  asset_length : asset.length = 20
  payer_length : payer.length = 20
  payee_length : payee.length = 20
  nonce_length : nonce.length = 32
  value_lt : value < 2 ^ 256

/-- The bytes that a `0x` text denotes. -/
def bytesOf : Json → Option Bytes
  | .str s => fromHex (s.drop 2)
  | _ => none

/-- The number that a decimal text denotes. -/
def numberOf : Json → Option Nat
  | .str s => some (decimalValue s)
  | _ => none

/-- The transfer that a payment denotes; no other member has a part in it. -/
structure Denotes (payment : Json) (t : Transfer) : Prop where
  network : network (payment.find (lit "network")) = some t.network
  asset : bytesOf (payment.find (lit "asset")) = some t.asset
  payer : bytesOf ((payment.find (lit "authorization")).find (lit "from")) = some t.payer
  payee : bytesOf ((payment.find (lit "authorization")).find (lit "to")) = some t.payee
  nonce : bytesOf ((payment.find (lit "authorization")).find (lit "nonce")) = some t.nonce
  value : numberOf ((payment.find (lit "authorization")).find (lit "value")) = some t.value

/-- Two transfers with the same members are one. -/
theorem Transfer.ext_members {s t : Transfer} (hnet : s.network = t.network)
    (hasset : s.asset = t.asset) (hpayer : s.payer = t.payer) (hpayee : s.payee = t.payee)
    (hnonce : s.nonce = t.nonce) (hvalue : s.value = t.value) : s = t := by
  cases s
  cases t
  simp_all

/-! ## The text that is hashed -/

/-- A member of the object. -/
def memberText (k : String) (v : Str) : Str := jsString (lit k) ++ lit ":" ++ jsString v

theorem memberText_append_inj {k : String} {v w r u : Str}
    (h : memberText k v ++ r = memberText k w ++ u) : v = w ∧ r = u := by
  simp only [memberText, List.append_assoc] at h
  exact quote_append_inj (List.append_cancel_left (List.append_cancel_left h))

/-- The keys in the order of the source, and in the order in which `jcs` writes them. -/
def keys : List Str :=
  [lit "v", lit "network", lit "asset", lit "from", lit "to", lit "value", lit "nonce"]

def sortedKeys : List Str :=
  [lit "asset", lit "from", lit "network", lit "nonce", lit "to", lit "v", lit "value"]

theorem utf16_keys : (keys.eraseDups.mapM fun k => do return (← utf16 k, k)) =
    (.ok (keys.map fun k => (k.map (·.val), k)) : Except PyError (List (List Nat × Str))) := by
  decide +kernel

theorem sort_keys : ((keys.map fun k => (k.map (·.val), k)).insertionSort
    fun a b => unitsLt b.1 a.1 = false) = sortedKeys.map fun k => (k.map (·.val), k) := by
  decide +kernel

/-- `jcs` of the object: its members by key. -/
theorem jcs_members (net asset from_ to_ val nonce : Str) :
    jcs R (members net asset from_ to_ val nonce) = .ok (lit "\x7b" ++ joinComma
      [memberText "asset" (Runtime.asciiLower asset), memberText "from" (Runtime.asciiLower from_),
        memberText "network" net, memberText "nonce" (Runtime.asciiLower nonce),
        memberText "to" (Runtime.asciiLower to_), memberText "v" recipe, memberText "value" val] ++
      lit "\x7d") := by
  have hutf16 := utf16_keys
  have hsort := sort_keys
  simp only [keys, sortedKeys, List.map_cons, List.map_nil] at hutf16 hsort
  simp only [members, object, jcs, jcsKvs, List.map_cons, List.map_nil, jcsMembers]
  rw [hutf16]
  dsimp only [bind, Except.bind]
  rw [hsort]
  rfl

/-- Equal texts have equal members. -/
theorem jcs_members_inj {net asset from_ to_ val nonce net' asset' from_' to_' val' nonce' : Str}
    (h : jcs R (members net asset from_ to_ val nonce) =
      jcs R (members net' asset' from_' to_' val' nonce')) :
    net = net' ∧ Runtime.asciiLower asset = Runtime.asciiLower asset' ∧
      Runtime.asciiLower from_ = Runtime.asciiLower from_' ∧
      Runtime.asciiLower to_ = Runtime.asciiLower to_' ∧ val = val' ∧
      Runtime.asciiLower nonce = Runtime.asciiLower nonce' := by
  rw [jcs_members, jcs_members] at h
  have h := Except.ok.inj h
  simp only [joinComma, List.append_assoc] at h
  obtain ⟨hasset, h⟩ := memberText_append_inj (List.append_cancel_left h)
  obtain ⟨hfrom, h⟩ := memberText_append_inj (List.append_cancel_left h)
  obtain ⟨hnet, h⟩ := memberText_append_inj (List.append_cancel_left h)
  obtain ⟨hnonce, h⟩ := memberText_append_inj (List.append_cancel_left h)
  obtain ⟨hto, h⟩ := memberText_append_inj (List.append_cancel_left h)
  obtain ⟨-, h⟩ := memberText_append_inj (List.append_cancel_left h)
  obtain ⟨hval, -⟩ := memberText_append_inj (List.append_cancel_left h)
  exact ⟨hnet, hasset, hfrom, hto, hval, hnonce⟩

/-! ## What the checks establish -/

/-- A `0x` text that passes denotes bytes, and is their hex up to case. -/
theorem exists_bytes {n : Nat} {s : Str} (h : isHexText (2 * n) s = true) :
    ∃ b, fromHex (s.drop 2) = some b ∧ b.length = n ∧
      Runtime.asciiLower s = lit "0x" ++ hexStr b := by
  simp only [isHexText, Bool.and_eq_true, beq_iff_eq] at h
  obtain ⟨⟨hhead, hlen⟩, hhex⟩ := h
  obtain ⟨b, hb, hblen, hlow⟩ := lower_hexDigits hlen hhex
  refine ⟨b, hb, hblen, ?_⟩
  have hlower : Runtime.asciiLower (lit "0x") = lit "0x" := by decide
  rw [← List.take_append_drop 2 s, asciiLower_eq_map, List.map_append, ← asciiLower_eq_map,
    ← asciiLower_eq_map, hhead, hlow, hlower]

/-- A value that passes has no leading zero, unless it is zero. -/
theorem isDec_iff {s : Str} (h : isDec s = true) :
    s = lit "0" ∨ s.all isDigit = true ∧ NoLeadingZero s ∧ s ≠ [] := by
  simp only [isDec, Bool.or_eq_true, beq_iff_eq] at h
  refine h.imp_right fun h => ?_
  cases s with
  | nil => cases h
  | cons c cs =>
    simp only [isPositiveDecimal, Bool.and_eq_true, bne_iff_ne] at h
    obtain ⟨⟨hc, hne⟩, hcs⟩ := h
    refine ⟨by rw [List.all_cons, hc, hcs]; rfl, ?_, List.cons_ne_nil c cs⟩
    intro d hd
    obtain rfl := Option.some.inj hd
    intro hzero
    exact hne (Fin.ext hzero)

theorem isDigit_of_isDec {s : Str} (h : isDec s = true) : s.all isDigit = true := by
  rcases isDec_iff h with rfl | ⟨h, -, -⟩
  · decide
  · exact h

/-- Values that pass are equal as texts when they are equal as numbers. -/
theorem isDec_inj {s t : Str} (hs : isDec s = true) (ht : isDec t = true)
    (h : decimalValue s = decimalValue t) : s = t := by
  have hzero : decimalValue (lit "0") = 0 := by decide
  rcases isDec_iff hs with rfl | ⟨hs, hsz, hsne⟩
  · rcases isDec_iff ht with rfl | ⟨ht, htz, htne⟩
    · rfl
    · have := decimalValue_pos ht htz htne
      omega
  · rcases isDec_iff ht with rfl | ⟨ht, htz, htne⟩
    · have := decimalValue_pos hs hsz hsne
      omega
    · exact decimalValue_inj hs ht hsz htz h

theorem network_caip2 {j : Json} {net : Str} (h : network j = some net) : isCaip2 net = true := by
  cases j with
  | str n =>
    unfold network at h
    dsimp only at h
    split at h
    · next hn => exact Option.some.inj h ▸ hn
    · cases h
  | _ => cases h

theorem address_ok {k : String} {j : Json} {s : Str} (h : address k j = .ok s) :
    j = .str s ∧ isHexText (2 * 20) s = true := by
  cases j with
  | str s' =>
    unfold address at h
    dsimp only at h
    split at h
    · next hs => exact Except.ok.inj h ▸ ⟨rfl, hs⟩
    · cases h
  | _ => cases h

theorem nonceOf_ok {j : Json} {s : Str} (h : nonceOf j = .ok s) :
    j = .str s ∧ isHexText (2 * 32) s = true := by
  cases j with
  | str s' =>
    unfold nonceOf at h
    dsimp only at h
    split at h
    · next hs => exact Except.ok.inj h ▸ ⟨rfl, hs⟩
    · cases h
  | _ => cases h

theorem valueOf_ok {j : Json} {s : Str} (h : valueOf j = .ok s) :
    j = .str s ∧ isDec s = true ∧ decimalValue s < 2 ^ 256 := by
  cases j with
  | str s' =>
    unfold valueOf at h
    dsimp only at h
    split at h
    · cases h
    · next hdec =>
      rw [Bool.not_eq_true, Bool.not_eq_false'] at hdec
      split at h
      · cases h
      · next hbound =>
        obtain rfl := Except.ok.inj h
        refine ⟨rfl, hdec, ?_⟩
        have hlt := decimalValue_lt (isDigit_of_isDec hdec)
        by_cases hlen : s'.length = 78
        · have : ¬ decimalValue s' > uint256Max := fun hgt => hbound (Or.inr ⟨hlen, hgt⟩)
          unfold uint256Max at this
          omega
        · have hpow : 10 ^ s'.length ≤ 10 ^ 77 := Nat.pow_le_pow_right (by decide) (by omega)
          have : (10 : Nat) ^ 77 < 2 ^ 256 := by decide
          omega
  | _ => cases h

/-- The preimage of a payment that is not refused: the transfer that the payment denotes,
written canonically. -/
theorem preimage_ok {payment pre : Json} (h : preimage payment = .ok pre) :
    ∃ t net asset from_ to_ val nonce, Denotes payment t ∧
      pre = members net asset from_ to_ val nonce ∧ net = t.network ∧
      Runtime.asciiLower asset = lit "0x" ++ hexStr t.asset ∧
      Runtime.asciiLower from_ = lit "0x" ++ hexStr t.payer ∧
      Runtime.asciiLower to_ = lit "0x" ++ hexStr t.payee ∧
      Runtime.asciiLower nonce = lit "0x" ++ hexStr t.nonce ∧
      isDec val = true ∧ decimalValue val = t.value := by
  unfold preimage at h
  dsimp only at h
  split at h
  · cases h
  split at h
  · cases h
  obtain ⟨net, hnet, h⟩ := bind_ok.mp h
  obtain ⟨asset, hasset, h⟩ := bind_ok.mp h
  obtain ⟨from_, hfrom, h⟩ := bind_ok.mp h
  obtain ⟨to_, hto, h⟩ := bind_ok.mp h
  obtain ⟨nonce, hnonce, h⟩ := bind_ok.mp h
  obtain ⟨val, hval, h⟩ := bind_ok.mp h
  have hnet : network (payment.find (lit "network")) = some net := by
    cases hn : network (payment.find (lit "network")) with
    | none => rw [hn] at hnet; cases hnet
    | some n => rw [hn] at hnet; rw [Except.ok.inj hnet]
  obtain ⟨hasset, hassetHex⟩ := address_ok hasset
  obtain ⟨hfrom, hfromHex⟩ := address_ok hfrom
  obtain ⟨hto, htoHex⟩ := address_ok hto
  obtain ⟨hnonce, hnonceHex⟩ := nonceOf_ok hnonce
  obtain ⟨hval, hdec, hlt⟩ := valueOf_ok hval
  obtain ⟨a, ha, halen, halow⟩ := exists_bytes hassetHex
  obtain ⟨b, hb, hblen, hblow⟩ := exists_bytes hfromHex
  obtain ⟨c, hc, hclen, hclow⟩ := exists_bytes htoHex
  obtain ⟨d, hd, hdlen, hdlow⟩ := exists_bytes hnonceHex
  refine ⟨⟨net, a, b, c, d, decimalValue val, network_caip2 hnet, halen, hblen, hclen, hdlen,
    hlt⟩, net, asset, from_, to_, val, nonce, ⟨hnet, ?_, ?_, ?_, ?_, ?_⟩,
    (Except.ok.inj h).symm, rfl, halow, hblow, hclow, hdlow, hdec, rfl⟩
  · rw [hasset]; exact ha
  · rw [hfrom]; exact hb
  · rw [hto]; exact hc
  · rw [hnonce]; exact hd
  · rw [hval]; rfl

/-! ## One digest for one transfer -/

variable {R}

/-- A payment denotes one transfer at most. -/
theorem Denotes.unique {payment : Json} {s t : Transfer} (hs : Denotes payment s)
    (ht : Denotes payment t) : s = t :=
  Transfer.ext_members (Option.some.inj (hs.network.symm.trans ht.network))
    (Option.some.inj (hs.asset.symm.trans ht.asset)) (Option.some.inj (hs.payer.symm.trans ht.payer))
    (Option.some.inj (hs.payee.symm.trans ht.payee)) (Option.some.inj (hs.nonce.symm.trans ht.nonce))
    (Option.some.inj (hs.value.symm.trans ht.value))

/-- Two payments hold the same members that `fingerprint` reads. -/
structure SameMembers (p q : Json) : Prop where
  authorization : (p.find (lit "authorization")).isObj = (q.find (lit "authorization")).isObj
  scheme : p.find (lit "scheme") = q.find (lit "scheme")
  network : p.find (lit "network") = q.find (lit "network")
  asset : p.find (lit "asset") = q.find (lit "asset")
  signed : ∀ k ∈ [lit "from", lit "to", lit "value", lit "nonce"],
    (p.find (lit "authorization")).find k = (q.find (lit "authorization")).find k

theorem preimage_congr {p q : Json} (h : SameMembers p q) : preimage p = preimage q := by
  have hfrom := h.signed (lit "from") (by simp)
  have hto := h.signed (lit "to") (by simp)
  have hvalue := h.signed (lit "value") (by simp)
  have hnonce := h.signed (lit "nonce") (by simp)
  unfold preimage
  dsimp only
  rw [h.authorization, h.scheme, h.network, h.asset, hfrom, hto, hvalue, hnonce]

/-- A digest is over the text of a preimage. -/
theorem fingerprint_ok {payment : Json} {d : Str} (h : fingerprint R payment = .ok (.ok d)) :
    ∃ pre t b, preimage payment = .ok pre ∧ jcs R pre = .ok t ∧ utf8 t = .ok b ∧
      d = lit "sha256:" ++ R.sha256Hex b := by
  unfold fingerprint at h
  cases hpre : preimage payment with
  | error c => rw [hpre] at h; cases h
  | ok pre =>
    rw [hpre] at h
    obtain ⟨t, ht, h⟩ := bind_ok.mp h
    obtain ⟨b, hb, h⟩ := bind_ok.mp h
    exact ⟨pre, t, b, rfl, ht, hb, (Outcome.ok.inj (Except.ok.inj h)).symm⟩

/-- The digests of two payments are equal exactly when the payments denote one transfer;
and what `fingerprint` does depends on the members of that transfer and the scheme only. -/
theorem fingerprint_iff (hsha : Function.Injective R.sha256) :
    (∀ (p q : Json) (d e : Str), fingerprint R p = .ok (.ok d) → fingerprint R q = .ok (.ok e) →
      ∃ s t, Denotes p s ∧ Denotes q t ∧ (d = e ↔ s = t)) ∧
    ∀ p q : Json, SameMembers p q → fingerprint R p = fingerprint R q := by
  constructor
  · intro p q d e hp hq
    obtain ⟨pre, x, b, hpre, hx, hb, rfl⟩ := fingerprint_ok hp
    obtain ⟨pre', y, b', hpre', hy, hb', rfl⟩ := fingerprint_ok hq
    obtain ⟨s, net, asset, from_, to_, val, nonce, hs, rfl, hnet, hasset, hfrom, hto, hnonce, hdec,
      hval⟩ := preimage_ok hpre
    obtain ⟨t, net', asset', from_', to_', val', nonce', ht, rfl, hnet', hasset', hfrom', hto',
      hnonce', hdec', hval'⟩ := preimage_ok hpre'
    refine ⟨s, t, hs, ht, ?_, ?_⟩
    · intro h
      obtain rfl : b = b' := hsha (hexStr_injective (List.append_cancel_left h))
      obtain rfl : x = y := utf8_injective hb hb'
      obtain ⟨h1, h2, h3, h4, h5, h6⟩ := jcs_members_inj R (hx.trans hy.symm)
      refine Transfer.ext_members ?_ ?_ ?_ ?_ ?_ ?_
      · rw [← hnet, ← hnet', h1]
      · exact hexStr_injective (List.append_cancel_left (hasset.symm.trans (h2.trans hasset')))
      · exact hexStr_injective (List.append_cancel_left (hfrom.symm.trans (h3.trans hfrom')))
      · exact hexStr_injective (List.append_cancel_left (hto.symm.trans (h4.trans hto')))
      · exact hexStr_injective (List.append_cancel_left (hnonce.symm.trans (h6.trans hnonce')))
      · rw [← hval, ← hval', h5]
    · rintro rfl
      -- one transfer is written in one way
      obtain rfl : val = val' := isDec_inj hdec hdec' (hval.trans hval'.symm)
      have hmembers : members net asset from_ to_ val nonce =
          members net' asset' from_' to_' val nonce' := by
        unfold members
        rw [hnet, hnet', hasset, hasset', hfrom, hfrom', hto, hto', hnonce, hnonce']
      rw [hmembers] at hx
      obtain rfl : x = y := Except.ok.inj (hx.symm.trans hy)
      rw [Except.ok.inj (hb.symm.trans hb')]
  · intro p q h
    unfold fingerprint
    rw [preimage_congr h]

/-- The record of a buyer or a seller: the network and the hex texts as either writes them. -/
def samplePayment (network_ : String) (digit : Char) : Json :=
  let hex (n : Nat) : Json := .str (lit "0x" ++ List.replicate n (ofChar digit))
  object [("network", text network_), ("asset", hex 40), ("scheme", text "exact"),
    ("authorization", object [("from", hex 40), ("to", hex 40), ("value", text "1000000"),
      ("nonce", hex 64)])]

/-- A buyer with an alias in upper case and a seller with a CAIP-2 id in lower case hold one
transfer. -/
theorem samplePayment_joins : ∃ s t, Denotes (samplePayment "base" 'A') s ∧
    Denotes (samplePayment "eip155:8453" 'a') t ∧ s = t := by
  have hsame : fingerprint .transparent (samplePayment "base" 'A') =
      fingerprint .transparent (samplePayment "eip155:8453" 'a') := by decide +kernel
  obtain ⟨out, hout, hok⟩ := map_ok.mp (show (fingerprint .transparent
    (samplePayment "base" 'A')).map (fun out => out matches .ok _) = .ok true by decide +kernel)
  cases out with
  | malformed c => cases hok
  | ok d =>
    obtain ⟨s, t, hs, ht, hiff⟩ := (fingerprint_iff Runtime.transparent_injective).1 _ _ d d hout
      (hsame ▸ hout)
    exact ⟨s, t, hs, ht, hiff.mp rfl⟩

end Preaction.PaymentFingerprint
