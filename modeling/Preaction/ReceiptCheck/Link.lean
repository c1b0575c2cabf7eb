import Preaction.AuthorizationCommitment
import Preaction.Lib.Loop
import Preaction.Py.Digits

/-!
# `x402-receipt-authorization-commitment/receipt_check.py` — `link`

The second implementation of the holder's check which of the consumed nonces a
commitment names, written from the specification without a look at `commitment.py`. The
two take hex through different gates: `commitment.py` by a pattern that asks for `0x`,
this one by a prefix `0x` or `0X`, a length and `bytes.fromhex`. On texts without blanks
the second gate is the first one but for the case of the prefix (`hexBytes_eq`), so the
two link the same nonce when the prefixes are written in one case (`link_agrees`).

Mirroring notes:
- `candidates` is none where they could not be obtained.
-/

namespace Preaction.ReceiptCheck

open Preaction.Py Preaction.Loop Json AuthorizationCommitment

variable (R : Runtime)

/-- `DOMAIN_TAG` -/
def domainTag : Bytes := utf8Bytes (lit "x402-receipt-authorization/0")

/-- The element of `IMPLEMENTED_METHODS`. -/
def implementedMethod : Str := lit "eip3009"

/-- `_hex_bytes(v, n)` -/
def hexBytes (v : Json) (n : Nat) : Option Bytes :=
  match v with
  | .str s =>
    if (s.take 2 = lit "0x" ∨ s.take 2 = lit "0X") ∧ s.length = 2 + 2 * n then fromHex (s.drop 2)
    else none
  | _ => none

/-- `commitment(method, asset, authorizer, identifier, salt)` for an ASCII method. -/
def commitment (method : Str) (asset authorizer identifier salt : Bytes) : Str :=
  lit "0x" ++ R.sha256Hex (domainTag ++ [0] ++ utf8Bytes method ++ [0] ++ asset ++ authorizer ++
    identifier ++ salt)

/-- What `link` returns: the result with its detail, or with the candidate. -/
inductive LinkResult
  | notAttempted (detail : Str)
  | malformed (detail : Str)
  | incomplete (detail : Str)
  | noMatch (detail : Str)
  | inconsistent (nonce transaction : Json)
  | linked (nonce transaction : Json)
  deriving DecidableEq

/-- The candidates whose commitment is the one given. -/
def matching (asset authorizer salt : Bytes) (commit : Str) :
    List Json → Except PyError (List Json)
  | [] => .ok []
  | c :: cs => do
    let nonce ← c.get (lit "nonce")
    let rest ← matching asset authorizer salt commit cs
    match hexBytes nonce 32 with
    | some nonce =>
      return if commitment R implementedMethod asset authorizer nonce salt = commit then c :: rest
        else rest
    | none => return rest

/-- The last step of `link`: the one match, beside the transaction of the payload. -/
def linkMatches (payload : Json) (cs : List Json) : Except PyError LinkResult :=
  match cs with
  | [m] => do
    let tx := (← payload.getD (lit "transaction") (.str [])).orElse (.str [])
    if tx.truthy then
      let signed ← lowerOf R tx
      let settled ← lowerOf R (← m.item (lit "tx"))
      if signed ≠ settled then
        return .inconsistent (← m.item (lit "nonce")) (← m.item (lit "tx"))
    return .linked (← m.item (lit "nonce")) (← m.item (lit "tx"))
  | cs => .ok (.noMatch (lit "matches=" ++ decimal cs.length))

/-- `link(payload, salt, asset, candidates)` -/
def link (payload salt asset : Json) (candidates : Option (List Json)) :
    Except PyError LinkResult := do
  if !(← payload.get (lit "version")).pyEq (.int 2) then
    return .notAttempted (lit "no_commitment")
  let method := (← payload.getD (lit "authorizationMethod") (.str [])).orElse (.str [])
  let commit := (← payload.getD (lit "authorizationCommitment") (.str [])).orElse (.str [])
  if method.pyEq (.str []) != commit.pyEq (.str []) then
    return .malformed (lit "one_of_method_and_commitment")
  if method.pyEq (.str []) then return .notAttempted (lit "no_commitment")
  hashable method
  if !method.pyEq (.str implementedMethod) then return .notAttempted (lit "unsupported_method")
  if (hexBytes commit 32).isNone then return .malformed (lit "commitment_encoding")
  match hexBytes salt 32, hexBytes asset 20 with
  | none, _ => return .notAttempted (lit "salt_not_held")
  | _, none => return .notAttempted (lit "asset_not_held")
  | some salt, some asset =>
    match hexBytes (← payload.get (lit "payer")) 20, candidates with
    | none, _ => return .notAttempted (lit "payer_not_an_eip3009_authorizer")
    | _, none => return .incomplete (lit "candidate_set_unobtainable")
    | some authorizer, some cs =>
      linkMatches R payload (← matching R asset authorizer salt (← lowerOf R commit) cs)

/-! ## The two gates for hex -/

/-- The text with its prefix in lower case. -/
def lowerPrefix (s : Str) : Str := if s.take 2 = lit "0X" then lit "0x" ++ s.drop 2 else s

/-- No blank in the text. -/
def NoBlank (s : Str) : Prop := ∀ c ∈ s, isSpace c = false

/-- What `bytes.fromhex` takes. -/
theorem mem_of_fromHex {s : Str} {b : Bytes} (h : fromHex s = some b) :
    ∀ c ∈ s, isHexDigit c = true ∨ isSpace c = true := by
  induction s using fromHex.induct generalizing b with
  | case1 => exact fun c hc => absurd hc List.not_mem_nil
  | case2 c cs hspace ih =>
    rw [fromHex.eq_def] at h
    dsimp only at h
    rw [if_pos hspace] at h
    exact List.forall_mem_cons.mpr ⟨Or.inr hspace, ih h⟩
  | case3 c hspace =>
    rw [fromHex, if_neg hspace] at h
    cases h
  | case4 c hspace d ds x y hd hc ih =>
    rw [fromHex, if_neg hspace, hc, hd] at h
    obtain ⟨b', hb', -⟩ := Option.map_eq_some_iff.mp h
    refine List.forall_mem_cons.mpr ⟨Or.inl ?_, List.forall_mem_cons.mpr ⟨Or.inl ?_, ih hb'⟩⟩
    · rw [isHexDigit, hc]; rfl
    · rw [isHexDigit, hd]; rfl
  | case5 c hspace d ds hno =>
    rw [fromHex.eq_def] at h
    dsimp only at h
    rw [if_neg hspace] at h
    split at h
    next hx hy => exact absurd hy (hno _ _ hx)
    next => cases h

theorem lowerPrefix_eq {s : Str} :
    (s.take 2 = lit "0x" ∨ s.take 2 = lit "0X") ↔ (lowerPrefix s).take 2 = lit "0x" := by
  unfold lowerPrefix
  split
  · next h => simp only [h, or_true, true_iff]; rfl
  · next h => simp only [h, or_false]

theorem lowerPrefix_drop (s : Str) : (lowerPrefix s).drop 2 = s.drop 2 ∧
    ((lowerPrefix s).take 2 = lit "0x" → (lowerPrefix s).length = s.length) := by
  unfold lowerPrefix
  split
  · next h =>
    refine ⟨rfl, fun _ => ?_⟩
    have hsplit := congrArg List.length (List.take_append_drop 2 s)
    rw [h] at hsplit
    rw [← hsplit, List.length_append, List.length_append]
    rfl
  · exact ⟨rfl, fun _ => rfl⟩

section Lower

variable {R : Runtime} (hlower : ∀ s, (∀ c ∈ s, c.val < 0x80) → R.lower s = Runtime.asciiLower s)

theorem val_of_isHexDigit {c : CodePoint} (h : isHexDigit c = true) : c.val < 0x80 := by
  obtain ⟨v, hv⟩ := Option.isSome_iff_exists.mp h
  unfold hexVal at hv
  split at hv
  · omega
  split at hv
  · omega
  split at hv
  · omega
  · cases hv

include hlower

/-- The pattern's gate over hex digits behind `0x`. -/
theorem hexField_digits {n : Nat} {s : Str} (condition : String)
    (h : isPrefixedHex (2 * n) s = true) : ∃ b, fromHex (s.drop 2) = some b ∧ b.length = n ∧
      hexField R (2 * n) condition (.str s) = .ok b := by
  have hform := h
  simp only [isPrefixedHex, Bool.and_eq_true, beq_iff_eq] at hform
  obtain ⟨⟨hlen, -⟩, hdigits⟩ := hform
  obtain ⟨b, hb, hblen, hlow⟩ := lower_hexDigits (n := n) (s := s.drop 2)
    (by rw [List.length_drop]; omega) hdigits
  have hascii : ∀ c ∈ s.drop 2, c.val < 0x80 :=
    fun c hc => val_of_isHexDigit (List.all_eq_true.mp hdigits c hc)
  refine ⟨b, hb, hblen, ?_⟩
  rw [hexField, if_pos h, hlower _ hascii, hlow, bytesFromHex, fromHex_hexStr]
  rfl

/-- Hex digits behind a prefix pass both gates, to the same bytes. -/
theorem gates_digits {n : Nat} {s : Str} (h : isPrefixedHex (2 * n) (lowerPrefix s) = true)
    (condition : String) : ∃ b, hexBytes (.str s) n = some b ∧
      hexField R (2 * n) condition (.str (lowerPrefix s)) = .ok b := by
  obtain ⟨hdrop, hlen⟩ := lowerPrefix_drop s
  obtain ⟨b, hb, -, hfield⟩ := hexField_digits hlower condition h
  simp only [isPrefixedHex, Bool.and_eq_true, beq_iff_eq] at h
  refine ⟨b, ?_, hfield⟩
  rw [hexBytes, if_pos ⟨lowerPrefix_eq.mpr h.1.2, by rw [← hlen h.1.2, h.1.1]⟩, ← hdrop, hb]

/-- A text without blanks passes one gate exactly where it passes the other. -/
theorem gates {n : Nat} {s : Str} (hs : NoBlank s) (condition : String) (b : Bytes) :
    hexBytes (.str s) n = some b ↔
      hexField R (2 * n) condition (.str (lowerPrefix s)) = .ok b := by
  by_cases h : isPrefixedHex (2 * n) (lowerPrefix s) = true
  · obtain ⟨b', hb', hfield⟩ := gates_digits hlower h condition
    rw [hb', hfield, Option.some.injEq, Except.ok.injEq]
  · obtain ⟨hdrop, hlen⟩ := lowerPrefix_drop s
    rw [hexField, if_neg h]
    refine iff_of_false (fun hb => h ?_) (fun hb => by cases hb)
    unfold hexBytes at hb
    dsimp only at hb
    split at hb
    · next hform =>
      have hprefix := lowerPrefix_eq.mp hform.1
      simp only [isPrefixedHex, Bool.and_eq_true, beq_iff_eq, hdrop, hlen hprefix]
      refine ⟨⟨hform.2, hprefix⟩, List.all_eq_true.mpr fun c hc => ?_⟩
      refine (mem_of_fromHex hb c hc).resolve_right fun hblank => ?_
      rw [hs c (List.mem_of_mem_drop hc)] at hblank
      cases hblank
    · cases hb

end Lower

/-! ## The candidates that match -/

/-- A candidate, as the log query gives it. -/
def candidateOf (c : Str × Str) : Json := object [("nonce", .str c.1), ("tx", .str c.2)]

/-- A payload of version 2 with the method `eip3009` and an empty transaction. -/
structure Eip3009Payload (payload : Json) (commit payer : Str) : Prop where
  version : payload.find (lit "version") = .int 2
  method : payload.find (lit "authorizationMethod") = .str eip3009
  commitment : payload.find (lit "authorizationCommitment") = .str commit
  payer : payload.find (lit "payer") = .str payer
  transaction : payload.find (lit "transaction") = .str []

variable {R : Runtime}

theorem matching_eq {asset authorizer salt : Bytes} {commit : Str} {f : Str → Str}
    {cands : List (Str × Str)}
    (hf : ∀ c ∈ cands, ∃ b, hexBytes (.str c.1) 32 = some b ∧
      f c.1 = commitment R implementedMethod asset authorizer b salt) :
    matching R asset authorizer salt commit (cands.map candidateOf) =
      .ok ((cands.filter fun c => f c.1 = commit).map candidateOf) := by
  induction cands with
  | nil => rfl
  | cons c cands ih =>
    obtain ⟨⟨b, hb, hfc⟩, hcands⟩ := List.forall_mem_cons.mp hf
    have hnonce : (candidateOf c).get (lit "nonce") = .ok (.str c.1) := by
      rw [candidateOf, Json.get, Json.getD, object, List.map_cons, get?, lookup_cons_if, if_pos rfl]
      rfl
    rw [List.map_cons, matching, hnonce, ok_bind, ih hcands, ok_bind, hb]
    dsimp only
    rw [← hfc]
    by_cases heq : f c.1 = commit
    · rw [if_pos heq, List.filter_cons_of_pos (by simpa using heq)]
      rfl
    · rw [if_neg heq, List.filter_cons_of_neg (by simpa using heq)]
      rfl

theorem hits_eq {salt method asset authorizer : Json} {commit : Str} {f : Str → Str}
    {ns : List Str}
    (hf : ∀ n ∈ ns, AuthorizationCommitment.commit R method asset authorizer (.str n) salt =
      .ok (f n)) : hits R commit salt method asset authorizer ns =
        .ok (ns.filter fun n => f n = commit) := by
  induction ns with
  | nil => rfl
  | cons n ns ih =>
    obtain ⟨hn, hns⟩ := List.forall_mem_cons.mp hf
    rw [hits, hn, ok_bind, ih hns, ok_bind]
    by_cases heq : f n = commit
    · rw [if_pos heq, List.filter_cons_of_pos (by simpa using heq)]
      rfl
    · rw [if_neg heq, List.filter_cons_of_neg (by simpa using heq)]
      rfl

theorem mem_hits {salt method asset authorizer : Json} {commit : Str} {ns hs : List Str}
    (h : hits R commit salt method asset authorizer ns = .ok hs) :
    ∀ n ∈ hs, n ∈ ns ∧
      AuthorizationCommitment.commit R method asset authorizer (.str n) salt = .ok commit := by
  induction ns generalizing hs with
  | nil =>
    obtain rfl := Except.ok.inj h
    exact fun n hn => absurd hn List.not_mem_nil
  | cons m ns ih =>
    obtain ⟨c, hc, h⟩ := bind_ok.mp h
    obtain ⟨rest, hrest, h⟩ := bind_ok.mp h
    have hmem := ih hrest
    obtain rfl := Except.ok.inj h
    intro n hn
    split at hn
    · next heq =>
      rcases List.mem_cons.mp hn with rfl | hn
      · exact ⟨List.mem_cons_self, heq ▸ hc⟩
      · exact ⟨List.mem_cons_of_mem _ (hmem n hn).1, (hmem n hn).2⟩
    · exact ⟨List.mem_cons_of_mem _ (hmem n hn).1, (hmem n hn).2⟩

/-- The fields that a commitment was computed from. -/
theorem commit_ok {asset authorizer nonce salt : Json} {d : Str}
    (h : AuthorizationCommitment.commit R (.str eip3009) asset authorizer nonce salt = .ok d) :
    ∃ a p n s, addr R asset "asset" = .ok a ∧ addr R authorizer "authorizer" = .ok p ∧
      b32 R nonce "nonce" = .ok n ∧ b32 R salt "salt" = .ok s ∧
      d = commitment R implementedMethod a p n s := by
  unfold AuthorizationCommitment.commit at h
  rw [if_neg (not_not.mpr rfl)] at h
  obtain ⟨a, ha, h⟩ := bind_ok.mp h
  obtain ⟨p, hp, h⟩ := bind_ok.mp h
  obtain ⟨n, hn, h⟩ := bind_ok.mp h
  obtain ⟨s, hs, h⟩ := bind_ok.mp h
  exact ⟨a, p, n, s, ha, hp, hn, hs, (Except.ok.inj h).symm⟩

theorem commit_eq {asset authorizer nonce salt : Json} {a p n s : Bytes}
    (ha : addr R asset "asset" = .ok a) (hp : addr R authorizer "authorizer" = .ok p)
    (hn : b32 R nonce "nonce" = .ok n) (hs : b32 R salt "salt" = .ok s) :
    AuthorizationCommitment.commit R (.str eip3009) asset authorizer nonce salt =
      .ok (commitment R implementedMethod a p n s) := by
  unfold AuthorizationCommitment.commit
  rw [if_neg (not_not.mpr rfl), ha, hp, hn, hs]
  rfl

/-- What `link` is linked through. -/
theorem link_linked_iff {payload salt asset : Json} {commit payer : Str} {cs : List Json}
    {nonce tx : Json} (hp : Eip3009Payload payload commit payer) :
    link R payload salt asset (some cs) = .ok (.linked nonce tx) ↔
    ∃ s a p ms, (hexBytes (.str commit) 32).isSome = true ∧ hexBytes salt 32 = some s ∧
      hexBytes asset 20 = some a ∧ hexBytes (.str payer) 20 = some p ∧
      matching R a p s (R.lower commit) cs = .ok ms ∧
      linkMatches R payload ms = .ok (.linked nonce tx) := by
  have hversion := getD_of_find hp.version Json.noConfusion .null
  have hmethod := getD_of_find hp.method Json.noConfusion (.str [])
  have hcommit := getD_of_find hp.commitment Json.noConfusion (.str [])
  have hpayer := getD_of_find hp.payer Json.noConfusion .null
  have htwo : (Json.int 2).pyEq (.int 2) = true := (pyEq_int _ _).mpr rfl
  have heip : (Json.str eip3009).orElse (.str []) = .str eip3009 := rfl
  have hnonempty : (Json.str eip3009).pyEq (.str []) = false := by decide
  have himplemented : (Json.str eip3009).pyEq (.str implementedMethod) = true :=
    (pyEq_str _ _).mpr rfl
  have horElse : (Json.str commit).orElse (.str []) = .str commit := by
    cases commit <;> rfl
  unfold link
  simp only [Json.get, hversion, hmethod, hcommit, hpayer, ok_bind, htwo, heip, hnonempty, horElse,
    himplemented, hashable, Bool.not_true, Bool.false_eq_true, if_false, Bool.false_bne]
  cases hgate : hexBytes (.str commit) 32 with
  | none =>
    constructor
    · intro h
      split at h
      · cases h
      · cases h
    · rintro ⟨_, _, _, _, hsome, -⟩
      cases hsome
  | some c =>
    have hne : (Json.str commit).pyEq (.str []) = false := by
      refine Bool.eq_false_iff.mpr fun h => ?_
      obtain rfl := Json.str.inj ((pyEq_str _ _).mp h)
      cases hgate
    rw [hne, if_neg Bool.false_ne_true, if_neg (by simp)]
    cases hs : hexBytes salt 32 with
    | none =>
      constructor
      · intro h
        cases h
      · rintro ⟨_, _, _, _, -, hs, -⟩
        cases hs
    | some sb =>
      cases ha : hexBytes asset 20 with
      | none =>
        constructor
        · intro h
          cases h
        · rintro ⟨_, _, _, _, -, -, ha, -⟩
          cases ha
      | some ab =>
        cases hpay : hexBytes (.str payer) 20 with
        | none =>
          constructor
          · intro h
            cases h
          · rintro ⟨_, _, _, _, -, -, -, hp, -⟩
            cases hp
        | some pb =>
          dsimp only [lowerOf, ok_bind]
          rw [bind_ok]
          constructor
          · rintro ⟨ms, hms, hlinked⟩
            exact ⟨sb, ab, pb, ms, rfl, rfl, rfl, rfl, hms, hlinked⟩
          · rintro ⟨_, _, _, ms, -, hs', ha', hp', hms, hlinked⟩
            obtain rfl := Option.some.inj hs'
            obtain rfl := Option.some.inj ha'
            obtain rfl := Option.some.inj hp'
            exact ⟨ms, hms, hlinked⟩

/-- With an empty transaction the one match is linked. -/
theorem linkMatches_linked {payload : Json} {commit payer : Str}
    (hp : Eip3009Payload payload commit payer) {cands : List (Str × Str)} {n tx : Json} :
    linkMatches R payload (cands.map candidateOf) = .ok (.linked n tx) ↔
      ∃ c, cands = [c] ∧ n = .str c.1 ∧ tx = .str c.2 := by
  have htx := getD_of_find hp.transaction Json.noConfusion (.str [])
  have hitem (c : Str × Str) : (candidateOf c).item (lit "nonce") = .ok (.str c.1) ∧
      (candidateOf c).item (lit "tx") = .ok (.str c.2) := by
    unfold candidateOf
    rw [item_object_cons, item_object_cons_ne (by decide), item_object_cons]
    exact ⟨rfl, rfl⟩
  cases cands with
  | nil =>
    refine iff_of_false (fun h => by cases h) ?_
    rintro ⟨c, h, -⟩
    cases h
  | cons c rest =>
    cases rest with
    | nil =>
      obtain ⟨hnonce, hitx⟩ := hitem c
      have hrun : linkMatches R payload [candidateOf c] = .ok (.linked (.str c.1) (.str c.2)) := by
        unfold linkMatches
        dsimp only
        rw [htx, ok_bind, hnonce, hitx]
        rfl
      rw [List.map_singleton, hrun, Except.ok.injEq, LinkResult.linked.injEq]
      constructor
      · rintro ⟨rfl, rfl⟩
        exact ⟨c, rfl, rfl, rfl⟩
      · rintro ⟨c', hc, rfl, rfl⟩
        obtain rfl := List.singleton_injective hc
        exact ⟨rfl, rfl⟩
    | cons d rest =>
      refine iff_of_false (fun h => by cases h) ?_
      rintro ⟨c', h, -⟩
      cases h

theorem link_commitment_linked {commitment salt method asset authorizer : Json} {ns : List Str}
    {nonce : Str} :
    AuthorizationCommitment.link R commitment salt method asset authorizer ns = .ok (.linked nonce) ↔
    ∃ b c n, b32 R commitment "commitment" = .ok b ∧ lowerOf R commitment = .ok c ∧
      hits R c salt method asset authorizer ns = .ok [n] ∧ R.lower n = nonce := by
  unfold AuthorizationCommitment.link
  simp only [bind_ok]
  constructor
  · rintro ⟨b, hb, c, hc, hs, hhits, h⟩
    have hlow : lowerOf R commitment = .ok c := by
      cases hl : lowerOf R commitment with
      | ok s =>
        rw [hl] at hc
        exact Except.ok.inj hc ▸ rfl
      | error e =>
        rw [hl] at hc
        cases hc
    split at h
    · cases h
    · next n => exact ⟨b, c, n, hb, hlow, hhits,
        AuthorizationCommitment.LinkResult.linked.inj (Except.ok.inj h)⟩
    · cases h
  · rintro ⟨b, c, n, hb, hc, hhits, rfl⟩
    exact ⟨b, hb, c, by rw [hc]; rfl, [n], hhits, rfl⟩

theorem lowerPrefix_of_prefixed {n : Nat} {s : Str} (h : isPrefixedHex n s = true) :
    lowerPrefix s = s := by
  simp only [isPrefixedHex, Bool.and_eq_true, beq_iff_eq] at h
  rw [lowerPrefix, if_neg]
  rw [h.1.2]
  decide

section Lower

variable (hlower : ∀ s, (∀ c ∈ s, c.val < 0x80) → R.lower s = Runtime.asciiLower s)

include hlower

/-- Over fields that both gates read alike, the same candidates match. -/
theorem matches_agree {salt asset authorizer : Json} {s a p : Bytes}
    (hs : b32 R salt "salt" = .ok s) (ha : addr R asset "asset" = .ok a)
    (hp : addr R authorizer "authorizer" = .ok p) {cands : List (Str × Str)}
    (hcands : ∀ c ∈ cands, isPrefixedHex 64 c.1 = true) (target : Str) :
    ∃ found : List (Str × Str),
      matching R a p s target (cands.map candidateOf) = .ok (found.map candidateOf) ∧
      hits R target salt (.str eip3009) asset authorizer (cands.map (·.1)) =
        .ok (found.map (·.1)) ∧
      ∀ c ∈ found, ∃ b, target = commitment R implementedMethod a p b s := by
  have hgate : ∀ c ∈ cands, ∃ b, hexBytes (.str c.1) 32 = some b ∧
      b32 R (.str c.1) "nonce" = .ok b := by
    intro c hc
    have hform := hcands c hc
    have hsame := lowerPrefix_of_prefixed hform
    have h := gates_digits hlower (n := 32) (s := c.1) (by rw [hsame]; exact hform)
      ("nonce" ++ "_not_bytes32")
    rwa [hsame] at h
  let f (n : Str) : Str := commitment R implementedMethod a p ((hexBytes (.str n) 32).getD []) s
  have hmatching : matching R a p s target (cands.map candidateOf) =
      .ok ((cands.filter fun c => f c.1 = target).map candidateOf) := by
    refine matching_eq fun c hc => ?_
    obtain ⟨b, hb, -⟩ := hgate c hc
    exact ⟨b, hb, by simp only [f, hb, Option.getD_some]⟩
  have hhits : hits R target salt (.str eip3009) asset authorizer (cands.map (·.1)) =
      .ok ((cands.map (·.1)).filter fun n => f n = target) := by
    refine hits_eq fun n hn => ?_
    obtain ⟨c, hc, rfl⟩ := List.mem_map.mp hn
    obtain ⟨b, hb, hfield⟩ := hgate c hc
    simp only [f, hb, Option.getD_some]
    exact commit_eq ha hp hfield hs
  refine ⟨cands.filter fun c => f c.1 = target, hmatching, ?_, fun c hc => ?_⟩
  · rw [hhits, List.filter_map]
    rfl
  · exact ⟨_, (of_decide_eq_true (List.mem_filter.mp hc).2).symm⟩

/-- A commitment of hex digits, up to the case of its prefix, is the one text in lower
case that it stands for. -/
theorem lower_lowerPrefix {s : Str} (h : ∀ c ∈ s, c.val < 0x80) :
    R.lower (lowerPrefix s) = R.lower s := by
  unfold lowerPrefix
  split
  · next hprefix =>
    have hsplit : s = lit "0X" ++ s.drop 2 := by
      rw [← hprefix, List.take_append_drop]
    have hrest : ∀ c ∈ s.drop 2, c.val < 0x80 := fun c hc => h c (List.mem_of_mem_drop hc)
    have hlow : ∀ c ∈ lit "0x" ++ s.drop 2, c.val < 0x80 := by
      intro c hc
      rcases List.mem_append.mp hc with hc | hc
      · exact of_decide_eq_true (List.all_eq_true.mp (by decide :
          (lit "0x").all (·.val < 0x80) = true) c hc)
      · exact hrest c hc
    rw [hlower _ hlow, hlower _ h]
    conv_rhs => rw [hsplit]
    rw [asciiLower_eq_map, asciiLower_eq_map, List.map_append, List.map_append]
    rfl
  · rfl

omit hlower in
theorem ascii_of_hexBytes {s : Str} {n : Nat} {b : Bytes} (h : hexBytes (.str s) n = some b) :
    ∀ c ∈ s, c.val < 0x80 := by
  unfold hexBytes at h
  dsimp only at h
  split at h
  · next hform =>
    intro c hc
    rw [← List.take_append_drop 2 s, List.mem_append] at hc
    rcases hc with hc | hc
    · have hall : (lit "0x" ++ lit "0X").all (·.val < 0x80) = true := by decide
      refine of_decide_eq_true (List.all_eq_true.mp hall c ?_)
      rcases hform.1 with hp | hp
      · exact List.mem_append_left _ (hp ▸ hc)
      · exact List.mem_append_right _ (hp ▸ hc)
    · rcases mem_of_fromHex h c hc with hdigit | hblank
      · exact val_of_isHexDigit hdigit
      · simp only [isSpace, Bool.or_eq_true, Bool.and_eq_true, beq_iff_eq, decide_eq_true_eq] at hblank
        omega
  · cases h

/-- A text that is a digest in lower case has no blank. -/
theorem noBlank_of_digest {s : Str} {b : Bytes} (hascii : ∀ c ∈ s, c.val < 0x80)
    (h : R.lower s = lit "0x" ++ hexStr b) : NoBlank s := by
  rw [hlower s hascii, asciiLower_eq_map] at h
  intro c hc
  cases hblank : isSpace c with
  | false => rfl
  | true =>
    have hkeep : lowerPoint c = c := by
      simp only [isSpace, Bool.or_eq_true, Bool.and_eq_true, beq_iff_eq, decide_eq_true_eq] at hblank
      exact if_neg (by omega)
    have hmem : c ∈ lit "0x" ++ hexStr b := by
      rw [← h, ← hkeep]
      exact List.mem_map_of_mem hc
    rcases List.mem_append.mp hmem with hm | hm
    · have hall : (lit "0x").all (fun c => !isSpace c) = true := by decide
      have := List.all_eq_true.mp hall c hm
      rw [hblank] at this
      cases this
    · obtain ⟨n, hn, rfl⟩ := mem_hexStr hm
      rw [isSpace_hexDigit n hn] at hblank
      cases hblank

end Lower

/-- Texts that are linked by the one are linked by the other, once the prefixes are in
lower case. -/
theorem link_agrees (hlower : ∀ s, (∀ c ∈ s, c.val < 0x80) → R.lower s = Runtime.asciiLower s)
    {payload : Json} {commit payer salt asset : Str} (hp : Eip3009Payload payload commit payer)
    (hsalt : NoBlank salt) (hasset : NoBlank asset) (hpayer : NoBlank payer)
    {cands : List (Str × Str)} (hcands : ∀ c ∈ cands, isPrefixedHex 64 c.1 = true) (nonce : Str) :
    (∃ n tx, link R payload (.str salt) (.str asset) (some (cands.map candidateOf)) =
        .ok (.linked (.str n) tx) ∧ R.lower n = nonce) ↔
      AuthorizationCommitment.link R (.str (lowerPrefix commit)) (.str (lowerPrefix salt))
        (.str eip3009) (.str (lowerPrefix asset)) (.str (lowerPrefix payer)) (cands.map (·.1)) =
        .ok (.linked nonce) := by
  rw [link_commitment_linked]
  simp only [link_linked_iff hp]
  constructor
  · rintro ⟨n, tx, ⟨s, a, p, ms, hcommit, hs, ha, hpay, hms, hlinked⟩, hn⟩
    obtain ⟨found, hfound, hhits, hdigest⟩ := matches_agree hlower
      ((gates hlower hsalt _ s).mp hs) ((gates hlower hasset _ a).mp ha)
      ((gates hlower hpayer _ p).mp hpay) hcands (R.lower commit)
    obtain rfl := Except.ok.inj (hfound.symm.trans hms)
    obtain ⟨c, rfl, hnc, -⟩ := (linkMatches_linked hp).mp hlinked
    obtain rfl := Json.str.inj hnc
    obtain ⟨b, hb⟩ := Option.isSome_iff_exists.mp hcommit
    have hascii := ascii_of_hexBytes hb
    obtain ⟨_, hdig⟩ := hdigest c List.mem_cons_self
    have hblank := noBlank_of_digest hlower hascii hdig
    exact ⟨b, R.lower commit, c.1, (gates hlower hblank _ b).mp hb,
      congrArg Except.ok (lower_lowerPrefix hlower hascii), hhits, hn⟩
  · rintro ⟨b, c, n, hb, hc, hhits, hn⟩
    obtain ⟨-, hok⟩ := mem_hits hhits n List.mem_cons_self
    obtain ⟨a, p, _, s, ha, hpay, -, hs, -⟩ := commit_ok hok
    have hform : isPrefixedHex 64 (lowerPrefix commit) = true := by
      by_contra hno
      rw [b32, hexField, if_neg hno] at hb
      cases hb
    obtain ⟨b', hb', -⟩ := gates_digits hlower (n := 32) hform ""
    have hlow : c = R.lower commit :=
      (Except.ok.inj hc).symm.trans (lower_lowerPrefix hlower (ascii_of_hexBytes hb'))
    obtain ⟨found, hfound, hhits', -⟩ := matches_agree hlower hs ha hpay hcands c
    obtain ⟨f, rfl, hf⟩ : ∃ f, found = [f] ∧ f.1 = n :=
      List.map_eq_singleton_iff.mp (Except.ok.inj (hhits'.symm.trans hhits))
    refine ⟨n, .str f.2, ⟨s, a, p, [candidateOf f], by rw [hb']; rfl,
      (gates hlower hsalt _ s).mpr hs, (gates hlower hasset _ a).mpr ha,
      (gates hlower hpayer _ p).mpr hpay, by rw [← hlow]; exact hfound, ?_⟩, hn⟩
    have hone : linkMatches R payload ([f].map candidateOf) = .ok (.linked (.str n) (.str f.2)) :=
      (linkMatches_linked hp).mpr ⟨f, rfl, by rw [hf], rfl⟩
    exact hone

/-! ## Texts that link -/

/-- A prefix and `n` times the digit. -/
def digits (start : String) (n : Nat) (digit : Char) : Str :=
  lit start ++ List.replicate n (ofChar digit)

def samplePayload (commit : Str) : Json := object
  [("version", .int 2), ("authorizationMethod", .str eip3009),
    ("authorizationCommitment", .str commit), ("payer", .str (digits "0x" 40 'B')),
    ("transaction", .str [])]

/-- The commitment to the nonce of ones, for a salt of `n` octets. -/
def sampleCommit (n : Nat) : Str :=
  commitment .sample implementedMethod (List.replicate 20 0xaa) (List.replicate 20 0xbb)
    (List.replicate 32 0x11) (List.replicate n 0x22)

def sampleCandidates : List (Str × Str) :=
  [(digits "0x" 63 '1' ++ lit "3", lit "0xc1"), (digits "0x" 64 '1', lit "0xc2")]

theorem samplePayload_eip3009 (commit : Str) :
    Eip3009Payload (samplePayload commit) commit (digits "0x" 40 'B') := by
  unfold samplePayload
  constructor <;> simp (disch := decide) only [find_object_cons, find_object_cons_ne]

/-- A salt with the prefix `0X`, which the other implementation links as `0x`. -/
theorem upperSalt_links : ∃ n tx, link .sample (samplePayload (sampleCommit 32))
    (.str (digits "0X" 64 '2')) (.str (digits "0x" 40 'a'))
    (some (sampleCandidates.map candidateOf)) = .ok (.linked (.str n) tx) ∧
    Runtime.sample.lower n = digits "0x" 64 '1' := by
  have hblank : ∀ s : Str, s.all (fun c => !isSpace c) = true → NoBlank s := by
    intro s h c hc
    simpa using List.all_eq_true.mp h c hc
  refine (link_agrees (fun _ _ => rfl) (samplePayload_eip3009 _) (hblank _ (by decide))
    (hblank _ (by decide)) (hblank _ (by decide)) ?_ _).mpr (by decide +kernel)
  decide +kernel

/-- The prefix `0X` is linked by the one and malformed for the other; so is a salt with
two blanks in the place of its last octet. -/
theorem upperSalt_differs :
    (link .sample (samplePayload (sampleCommit 32)) (.str (digits "0X" 64 '2'))
        (.str (digits "0x" 40 'a')) (some (sampleCandidates.map candidateOf)) =
        .ok (.linked (.str (digits "0x" 64 '1')) (.str (lit "0xc2"))) ∧
      AuthorizationCommitment.link .sample (.str (sampleCommit 32)) (.str (digits "0X" 64 '2'))
        (.str eip3009) (.str (digits "0x" 40 'a')) (.str (digits "0x" 40 'B'))
        (sampleCandidates.map (·.1)) = .error (.malformed (lit "salt_not_bytes32"))) ∧
    (link .sample (samplePayload (sampleCommit 31)) (.str (digits "0x" 62 '2' ++ lit "  "))
        (.str (digits "0x" 40 'a')) (some (sampleCandidates.map candidateOf)) =
        .ok (.linked (.str (digits "0x" 64 '1')) (.str (lit "0xc2"))) ∧
      AuthorizationCommitment.link .sample (.str (sampleCommit 31))
        (.str (digits "0x" 62 '2' ++ lit "  ")) (.str eip3009) (.str (digits "0x" 40 'a'))
        (.str (digits "0x" 40 'B')) (sampleCandidates.map (·.1)) =
        .error (.malformed (lit "salt_not_bytes32"))) := by
  decide +kernel

end Preaction.ReceiptCheck
