import Preaction.Lib.Tally
import Preaction.LiveCheck

/-!
# `adapters/live_check.py` — the claim level

Beside the admission invariant `run` counts signers: the legs of a JWS, where it
has one over the canonical bytes, and else the co-signers that verify, with the
primary. A count that reaches the number declared is reported as the claim level
`admission_multisig_recomputable`. The count is one of legs and of co-signer
entries, not of keys: the leg of a signer counts once more each time it is
repeated, and the primary counts before it was verified.
`multisig_signers_iff` says when as many different keys are behind the level, and
which repetitions change the count.

Mirroring notes:
- Of the audit record the level, the count and the cross-check of the evidence
  mode are kept; the ceiling of a mode never lowers the level of
  `embedded_fixture`, the only mode that is derived.
- The texts of `multisig_gap`, the names of the signers and the hashes of the keys
  do not feed the level and are left out, with what they raise.
-/

namespace Preaction.LiveCheck

open Preaction.Py Preaction.Bip340 Preaction.Loop

variable (R : Runtime) (S : Schemes)

/-! ## Counting signers -/

/-- `verified`, `total_signers` and `used_jws`. -/
structure Count where
  verified : Nat
  total : Nat
  usedJws : Bool
  deriving DecidableEq, Repr

/-- `co_pubkeys` -/
def coPubkeys (inp : Inputs) : List Json := (inp.coSigners.filter Json.isObj).map coPubkey

/-- The legs of the JWS, where they are counted: there are some, and the payload is the
canonical bytes. -/
def countedLegs (inp : Inputs) : Except PyError (Option Legs) := do
  match inp.jws with
  | .obj _ =>
    if !(inp.jws.find (lit "signatures")).truthy then return none
    let legs ← verifyJwsLegs S inp.jws inp.canonicalBytes (inp.pubkey :: coPubkeys inp)
    return if legs.payloadOk && legs.total != 0 then some legs else none
  | _ => return none

/-- The arguments `_verify_admission` has for a co-signer: its own scheme, key and
signature, over the hash of the response, and no event. -/
def coInputs (inp : Inputs) (c : Json) : Inputs :=
  { inp with
    scheme := (c.find (lit "sig_scheme")).orElse inp.scheme
    pubkey := coPubkey c
    signature := (c.find (lit "jws_signature")).orElse (c.find (lit "signature"))
    event := .null }

/-- The body of the loop over `co`. -/
def coSignerVerifies (inp : Inputs) (c : Json) : Except PyError Bool := do
  if !c.isObj then return false
  let asked := coInputs inp c
  if !(asked.pubkey.truthy && asked.signature.truthy) then return false
  let (valid, _) ← verifyAdmission R S asked
  return valid == some true

/-- `verified`, `total_signers` -/
def countSigners (inp : Inputs) : Except PyError Count := do
  match ← countedLegs S inp with
  | some legs => return ⟨legs.verified, legs.total, true⟩
  | none =>
    let verified ← inp.coSigners.mapM (coSignerVerifies R S inp)
    return ⟨1 + verified.count true, 1 + inp.coSigners.length, false⟩

/-! ## The level -/

/-- `board_claim_level` -/
inductive ClaimLevel
  | multisigUnverifiable
  | independent
  | multisigRecomputable
  deriving DecidableEq, Repr

/-- `_CLAIM_RANK` -/
def ClaimLevel.rank : ClaimLevel → Nat
  | .multisigUnverifiable => 0
  | .independent => 1
  | .multisigRecomputable => 2

/-- `cross_check` -/
inductive CrossCheck
  | missing
  | unverifiable
  | matchesReferee
  | contradictsReferee
  deriving DecidableEq, Repr

/-- What `classify_evidence_mode` returns. -/
structure Classified where
  crossCheck : CrossCheck
  evidenceMode : Str
  level : ClaimLevel
  deriving DecidableEq, Repr

/-- `_MODE_CONTRACT_FIELD`: a mode, and whether its contract asks for the key. -/
def modeContracts : List (Str × Bool) :=
  [(lit "embedded_fixture", true), (lit "pinned_registry", false),
    (lit "external_resolution", false), (lit "cached_prior", false)]

/-- `classify_evidence_mode(declared_hint, derived_mode, key_recomputed,
external_evidence, base_claim)` -/
def classifyEvidenceMode (hint : Json) (derived : Str) (keyRecomputed externalEvidence : Bool)
    (base : ClaimLevel) : Except PyError Classified := do
  if !hint.truthy then return ⟨.missing, derived, base⟩
  hint.hashable
  let mode := match hint with
    | .str s => (modeContracts.lookup s).map (s, ·)
    | _ => none
  match mode with
  | none => return ⟨.unverifiable, derived, base⟩
  | some (declared, needsKey) =>
    let contractOk := if needsKey then keyRecomputed else externalEvidence
    if contractOk && declared == derived then return ⟨.matchesReferee, derived, base⟩
    let fallback := if keyRecomputed then ClaimLevel.independent else .multisigUnverifiable
    return ⟨.contradictsReferee,
      if contractOk then derived else declared ++ lit "_unverifiable",
      if fallback.rank ≤ base.rank then fallback else base⟩

/-- `producer_mode_hint` -/
def modeHint (mapping resp : Json) : Except PyError Json := do
  let fields ← mapping.getD (lit "fields") (.obj [])
  let gov ← dig resp (← governancePath mapping)
  dig gov (← fields.getD (lit "evidence_mode") (.str (lit "evidence_mode")))

/-- The level the count earns. -/
def baseLevel (c : Count) : ClaimLevel :=
  if 1 < c.total ∧ c.total ≤ c.verified then .multisigRecomputable else .independent

/-- What `run` reports beside the admission invariant; the record is attached to a pass
and to a failure. -/
structure ClaimReport where
  admission : Admission
  detail : Detail
  count : Count
  classified : Classified
  deriving DecidableEq, Repr

/-- The reported `board_claim_level`. -/
def ClaimReport.level (rep : ClaimReport) : Option ClaimLevel :=
  if rep.admission = .unverifiedHere then none else some rep.classified.level

/-- `run(mapping)`, for the claim level; none for `no_governance_block`. -/
def runClaim (mapping resp : Json) : Except PyError (Option ClaimReport) := do
  match ← readInputs R mapping resp with
  | none => return none
  | some inp =>
    let count ← countSigners R S inp
    let classified ← classifyEvidenceMode (← modeHint mapping resp) (lit "embedded_fixture")
      inp.pubkey.truthy false (baseLevel count)
    let (state, detail) ← admission R S inp
    return some ⟨state, detail, count, classified⟩

/-! ## The signers behind a level -/

/-- The bytes of those keys that are hex texts. -/
def keyBytes (keys : List Json) : List Bytes := keys.filterMap fun k => (bytesFromHex k).toOption

/-- The run verified a signature by `k` over the envelope: that of the primary, a leg that
was counted, or that of a co-signer where these are counted. -/
inductive SignedBy (inp : Inputs) (d : Detail) : Bytes → Prop
  | primary {check : Check} (hver : Verified R S inp d check) (htied : Tied inp check) :
    SignedBy inp d check.key
  | leg {legs : Legs} {s : Str} {check : Check} (hlegs : countedLegs S inp = .ok (some legs))
      (hs : s ∈ legs.verifiedPubkeys)
      (hver : Verified R S { inp with pubkey := .str s } .jwsLeg check)
      (htied : Tied { inp with pubkey := .str s } check) : SignedBy inp d check.key
  | coSigner {c : Json} {d' : Detail} {check : Check} (hnone : countedLegs S inp = .ok none)
      (hc : c ∈ inp.coSigners) (hver : Verified R S (coInputs inp c) d' check)
      (htied : Tied (coInputs inp c) check) : SignedBy inp d check.key

/-- At least as many different keys as were counted signed the envelope, and the admission
passed on a signature by the primary key. -/
def DistinctSigners (inp : Inputs) (rep : ClaimReport) : Prop :=
  (∃ ks : List Bytes, ks.Nodup ∧ rep.count.total ≤ ks.length ∧
    ∀ k ∈ ks, SignedBy R S inp rep.detail k) ∧
  rep.admission = .pass ∧ ∃ check, Verified R S inp rep.detail check ∧ Tied inp check

/-- The primary signature is valid and, where the event decides, the event is that key's
over the hash; the key is trusted and is not the actor's. -/
def Admitted (inp : Inputs) : Prop :=
  (∃ d, primarySignature R S inp = .ok (some true, d)) ∧ trusted inp = .ok true ∧
    (inp.actorPubkey.truthy && inp.pubkey.pyEq inp.actorPubkey) = false ∧
    (NostrDecides R S inp → EventIsEnvelope inp)

/-- No signer is counted twice. Where the legs are counted, all but one of them are by
different keys, none of them the primary's; else the primary's key and those of the
co-signers are all different. -/
def SignersDistinct (inp : Inputs) : Prop :=
  ∃ primary, bytesFromHex inp.pubkey = .ok primary ∧
    match countedLegs S inp with
    | .ok (some legs) => ∃ others : List Bytes, others.length + 1 = legs.total ∧
        (primary :: others).Nodup ∧ others.Subperm (keyBytes (legs.verifiedPubkeys.map .str))
    | _ => (primary :: keyBytes (inp.coSigners.map coPubkey)).Nodup

variable {R S}

theorem mem_keyBytes {keys : List Json} {b : Bytes} :
    b ∈ keyBytes keys ↔ ∃ k ∈ keys, bytesFromHex k = .ok b := by
  rw [keyBytes, List.mem_filterMap]
  refine exists_congr fun k => and_congr_right fun _ => ?_
  cases bytesFromHex k with
  | error e => exact ⟨nofun, nofun⟩
  | ok c => exact ⟨fun h => congrArg Except.ok (Option.some.inj h),
      fun h => congrArg some (Except.ok.inj h)⟩

theorem length_keyBytes {keys : List Json} (h : ∀ k ∈ keys, ∃ b, bytesFromHex k = .ok b) :
    (keyBytes keys).length = keys.length := by
  induction keys with
  | nil => rfl
  | cons k keys ih =>
    obtain ⟨⟨b, hb⟩, hkeys⟩ := List.forall_mem_cons.mp h
    have hcons : keyBytes (k :: keys) = b :: keyBytes keys := by
      rw [keyBytes, List.filterMap_cons, hb]
      rfl
    rw [hcons, List.length_cons, List.length_cons, ih hkeys]

/-! ### The legs -/

/-- The parts of a run over the legs. -/
structure LegsRun (S : Schemes) (jws canonicalBytes : Json) (candidates : List Json)
    (legs : Legs) where
  ed25519 : Bytes → Bytes → Bytes → Bool
  sigs : List Json
  payload : Json
  keys : List (Str × Bytes)
  hits : List (Option Str)
  scheme : S.ed25519 = some ed25519
  listed : ∃ v, jws.get (lit "signatures") = .ok v ∧ (v.orElse (.arr [])).iter = .ok sigs
  payload_eq : jws.getD (lit "payload") (.str []) = .ok payload
  canonical : payloadIsCanonical payload canonicalBytes = .ok legs.payloadOk
  keys_eq : (candidates.filter (·.truthy)).mapM candidateKey = .ok keys
  hits_eq : sigs.mapM (verifyLeg ed25519 keys payload) = .ok hits
  result : legs = ⟨(hits.filterMap id).length, sigs.length, legs.payloadOk, hits.filterMap id⟩

/-- Without PyNaCl no leg is counted and no payload is the canonical bytes. -/
theorem verifyJwsLegs_run {jws canonicalBytes : Json} {candidates : List Json} {legs : Legs}
    (h : verifyJwsLegs S jws canonicalBytes candidates = .ok legs) :
    (S.ed25519 = none ∧ legs.payloadOk = false) ∨
      Nonempty (LegsRun S jws canonicalBytes candidates legs) := by
  unfold verifyJwsLegs at h
  split at h
  next hnone =>
    obtain rfl := Except.ok.inj h
    exact .inl ⟨hnone, rfl⟩
  next ed hed =>
    obtain ⟨v, hv, h⟩ := bind_ok.mp h
    obtain ⟨sigs, hsigs, h⟩ := bind_ok.mp h
    obtain ⟨payload, hpayload, h⟩ := bind_ok.mp h
    obtain ⟨payloadOk, hok, h⟩ := bind_ok.mp h
    obtain ⟨keys, hkeys, h⟩ := bind_ok.mp h
    obtain ⟨hits, hhits, h⟩ := bind_ok.mp h
    obtain rfl := Except.ok.inj h
    exact .inr ⟨⟨ed, sigs, payload, keys, hits, hed, ⟨v, hv, hsigs⟩, hpayload, hok, hkeys, hhits,
      rfl⟩⟩

theorem LegsRun.run {jws canonicalBytes : Json} {candidates : List Json} {legs : Legs}
    (run : LegsRun S jws canonicalBytes candidates legs) :
    verifyJwsLegs S jws canonicalBytes candidates = .ok legs := by
  obtain ⟨v, hv, hsigs⟩ := run.listed
  unfold verifyJwsLegs
  rw [run.scheme]
  refine bind_ok.mpr ⟨v, hv, bind_ok.mpr ⟨run.sigs, hsigs, ?_⟩⟩
  refine bind_ok.mpr ⟨run.payload, run.payload_eq, ?_⟩
  refine bind_ok.mpr ⟨legs.payloadOk, run.canonical, bind_ok.mpr ⟨run.keys, run.keys_eq, ?_⟩⟩
  exact bind_ok.mpr ⟨run.hits, run.hits_eq, congrArg Except.ok run.result.symm⟩

/-- There is a JWS with legs. -/
def hasLegs (inp : Inputs) : Bool := inp.jws.isObj && (inp.jws.find (lit "signatures")).truthy

/-- Legs are counted where there are some, over the canonical bytes. -/
theorem countedLegs_eq (inp : Inputs) : countedLegs S inp =
    if hasLegs inp = true then
      (verifyJwsLegs S inp.jws inp.canonicalBytes (inp.pubkey :: coPubkeys inp)).map fun legs =>
        if legs.payloadOk && legs.total != 0 then some legs else none
    else .ok none := by
  unfold countedLegs hasLegs
  cases hjws : inp.jws with
  | obj kvs =>
    dsimp only
    cases (Json.find (.obj kvs) (lit "signatures")).truthy with
    | false => rfl
    | true =>
      cases verifyJwsLegs S (.obj kvs) inp.canonicalBytes (inp.pubkey :: coPubkeys inp) <;> rfl
  | _ => rfl

theorem countedLegs_some {inp : Inputs} {legs : Legs} :
    countedLegs S inp = .ok (some legs) ↔ hasLegs inp = true ∧
      verifyJwsLegs S inp.jws inp.canonicalBytes (inp.pubkey :: coPubkeys inp) = .ok legs ∧
      legs.payloadOk = true ∧ legs.total ≠ 0 := by
  rw [countedLegs_eq]
  split
  next hhas =>
    rw [map_ok]
    constructor
    · rintro ⟨legs', hlegs, hsome⟩
      split at hsome
      next hcounted =>
        obtain rfl := Option.some.inj hsome
        rw [Bool.and_eq_true, bne_iff_ne] at hcounted
        exact ⟨hhas, hlegs, hcounted⟩
      next => cases hsome
    · rintro ⟨-, hlegs, hok, htotal⟩
      refine ⟨legs, hlegs, if_pos ?_⟩
      rw [Bool.and_eq_true, bne_iff_ne]
      exact ⟨hok, htotal⟩
  next hno => exact ⟨nofun, fun h => absurd h.1 hno⟩

theorem countedLegs_none {inp : Inputs} :
    countedLegs S inp = .ok none ↔ (hasLegs inp = true → ∃ legs,
      verifyJwsLegs S inp.jws inp.canonicalBytes (inp.pubkey :: coPubkeys inp) = .ok legs ∧
      (legs.payloadOk = true → legs.total = 0)) := by
  rw [countedLegs_eq]
  split
  next hhas =>
    rw [map_ok, forall_prop_of_true hhas]
    refine exists_congr fun legs => and_congr_right fun _ => ?_
    cases hok : legs.payloadOk <;> simp
  next hno => exact ⟨fun _ h => absurd h hno, fun _ => rfl⟩

/-- As many legs are counted as there are keys reported. -/
theorem countedLegs_verified {inp : Inputs} {legs : Legs}
    (h : countedLegs S inp = .ok (some legs)) : legs.verified = legs.verifiedPubkeys.length := by
  obtain ⟨-, hlegs, hok, -⟩ := countedLegs_some.mp h
  rcases verifyJwsLegs_run hlegs with ⟨-, hfalse⟩ | ⟨⟨run⟩⟩
  · rw [hok] at hfalse
    cases hfalse
  · rw [run.result]

/-- Behind each key that is reported there is a leg, by it and over the canonical bytes. -/
theorem countedLegs_signed {inp : Inputs} {legs : Legs} (h : countedLegs S inp = .ok (some legs))
    {s : Str} (hs : s ∈ legs.verifiedPubkeys) :
    ∃ check, Verified R S { inp with pubkey := .str s } .jwsLeg check ∧
      Tied { inp with pubkey := .str s } check := by
  obtain ⟨-, hlegs, hpay, -⟩ := countedLegs_some.mp h
  obtain ⟨ed, payload, leg, si, raw, k, hed, hpayload, hcanon, hsi, hk, hver⟩ :=
    verifyJwsLegs_verified S hlegs hs
  rw [hpay] at hcanon
  obtain ⟨p, t, hp, ht, htp⟩ := payloadIsCanonical_true hcanon
  exact ⟨⟨k, .payload p⟩, .jws hed hpayload hp hsi hk hver, hk, t, ht, htp⟩

/-! ### The co-signers -/

/-- A co-signer that verifies has a key, and its signature is by it and over the hash. -/
theorem coSignerVerifies_true {inp : Inputs} {c : Json}
    (h : coSignerVerifies R S inp c = .ok true) :
    ∃ d check, Verified R S (coInputs inp c) d check ∧ Tied (coInputs inp c) check := by
  unfold coSignerVerifies at h
  split at h
  next => cases h
  next =>
    extract_lets asked at h
    split at h
    next => cases h
    next =>
      obtain ⟨⟨valid, d⟩, hver, h⟩ := bind_ok.mp h
      obtain rfl := beq_iff_eq.mp (Except.ok.inj h)
      obtain ⟨s, -, hver⟩ := bind_ok.mp hver
      split at hver
      next r hr =>
        obtain rfl := Except.ok.inj hver
        obtain ⟨check, hcheck, htied⟩ := verifyScheme_true R S hr
        refine ⟨d, check, hcheck, htied.mpr ?_⟩
        -- there is no event, so the scheme was not `nostr-event`
        rintro rfl
        cases hr
      next => cases hver

/-! ### The primary -/

/-- A valid signature of the event is reported as one. -/
theorem detail_of_nostrDecides {inp : Inputs} {d : Detail} (hn : NostrDecides R S inp)
    (h : primarySignature R S inp = .ok (some true, d)) : d = .nostrEvent := by
  obtain ⟨byJws, hjws, h⟩ := bind_ok.mp h
  obtain rfl := Except.ok.inj (hjws.symm.trans hn.2)
  obtain ⟨s, hs, h⟩ := bind_ok.mp h
  obtain rfl := Except.ok.inj (hs.symm.trans hn.1)
  split at h
  next r hr =>
    obtain rfl := Except.ok.inj h
    obtain ⟨check, hver, -⟩ := verifyScheme_true R S hr
    rw [verifyScheme, if_neg (by decide), if_pos rfl] at hr
    split at hr
    next => cases hr
    next =>
      obtain ⟨id, -, hr⟩ := bind_ok.mp hr
      obtain ⟨evId, -, hr⟩ := bind_ok.mp hr
      split at hr
      next => cases hr
      next =>
        obtain ⟨_, -, hr⟩ := bind_ok.mp hr
        obtain ⟨_, -, hr⟩ := bind_ok.mp hr
        obtain ⟨_, -, hr⟩ := bind_ok.mp hr
        obtain ⟨_, -, hr⟩ := bind_ok.mp hr
        obtain ⟨_, -, hr⟩ := bind_ok.mp hr
        obtain ⟨_, -, hr⟩ := bind_ok.mp hr
        exact (congrArg Prod.snd (Except.ok.inj hr)).symm
  next => cases h

theorem tied_iff {inp : Inputs} {d : Detail} (h : primarySignature R S inp = .ok (some true, d)) :
    (∃ check, Verified R S inp d check ∧ Tied inp check) ↔
      (NostrDecides R S inp → EventIsEnvelope inp) := by
  constructor
  · rintro ⟨check, hver, htied⟩ hn
    obtain rfl := detail_of_nostrDecides hn h
    cases hver with
    | nostr _ _ hm hk _ _ => exact ⟨hk.trans htied.1.symm, hm.trans htied.2.symm⟩
  · intro hn
    obtain ⟨check, hver, htied⟩ := primarySignature_true R S h
    exact ⟨check, hver, htied.mpr hn⟩

/-- The admission passes on a signature by the primary key over the envelope exactly where
the inputs are admitted. -/
theorem admitted_iff {inp : Inputs} {state : Admission} {d : Detail}
    (h : admission R S inp = .ok (state, d)) :
    Admitted R S inp ↔ state = .pass ∧ ∃ check, Verified R S inp d check ∧ Tied inp check := by
  constructor
  · rintro ⟨⟨d', hsig⟩, htrust, hactor, hevent⟩
    have hno : ¬ (inp.actorPubkey.truthy && inp.pubkey.pyEq inp.actorPubkey) = true := by
      rw [hactor]
      exact Bool.false_ne_true
    have hpass : admission R S inp = .ok (.pass, d') :=
      bind_ok.mpr ⟨(some true, d'), hsig, bind_ok.mpr ⟨true, htrust, if_neg hno⟩⟩
    obtain ⟨rfl, rfl⟩ := Prod.mk.inj (Except.ok.inj (h.symm.trans hpass))
    exact ⟨rfl, (tied_iff hsig).mpr hevent⟩
  · rintro ⟨rfl, hcheck⟩
    obtain ⟨hsig, htrust, hactor⟩ := admission_pass R S h
    refine ⟨⟨d, hsig⟩, ?_, ?_, (tied_iff hsig).mp hcheck⟩
    · unfold trusted
      split
      next ht => exact htrust ht
      next => rfl
    · cases ha : inp.actorPubkey.truthy with
      | true => rw [hactor ha]; rfl
      | false => rfl

/-! ### All signers -/

/-- Where the legs are counted, the signers are the primary and those of the legs. -/
theorem signedBy_legs {inp : Inputs} {d : Detail} {legs : Legs} {check : Check}
    (hlegs : countedLegs S inp = .ok (some legs)) (hver : Verified R S inp d check)
    (htied : Tied inp check) (k : Bytes) :
    SignedBy R S inp d k ↔
      k = check.key ∨ k ∈ keyBytes (legs.verifiedPubkeys.map .str) := by
  constructor
  · intro h
    cases h with
    | primary _ h => exact .inl (Except.ok.inj (h.1.symm.trans htied.1))
    | leg h hs _ ht =>
      obtain rfl := Option.some.inj (Except.ok.inj (hlegs.symm.trans h))
      exact .inr (mem_keyBytes.mpr ⟨_, List.mem_map_of_mem hs, ht.1⟩)
    | coSigner h => cases hlegs.symm.trans h
  · rintro (rfl | hk)
    · exact .primary hver htied
    · obtain ⟨_, hmem, hk⟩ := mem_keyBytes.mp hk
      obtain ⟨s, hs, rfl⟩ := List.mem_map.mp hmem
      obtain ⟨check', hver', htied'⟩ := countedLegs_signed hlegs hs
      obtain rfl := Except.ok.inj (htied'.1.symm.trans hk)
      exact .leg hlegs hs hver' htied'

/-- Where the co-signers are counted and all verify, the signers are the primary and they. -/
theorem signedBy_coSigners {inp : Inputs} {d : Detail} {check : Check}
    (hnone : countedLegs S inp = .ok none)
    (hall : ∀ c ∈ inp.coSigners, coSignerVerifies R S inp c = .ok true)
    (hver : Verified R S inp d check) (htied : Tied inp check) (k : Bytes) :
    SignedBy R S inp d k ↔ k = check.key ∨ k ∈ keyBytes (inp.coSigners.map coPubkey) := by
  constructor
  · intro h
    cases h with
    | primary _ h => exact .inl (Except.ok.inj (h.1.symm.trans htied.1))
    | leg h => cases hnone.symm.trans h
    | coSigner _ hc _ ht => exact .inr (mem_keyBytes.mpr ⟨_, List.mem_map_of_mem hc, ht.1⟩)
  · rintro (rfl | hk)
    · exact .primary hver htied
    · obtain ⟨_, hmem, hk⟩ := mem_keyBytes.mp hk
      obtain ⟨c, hc, rfl⟩ := List.mem_map.mp hmem
      obtain ⟨d', check', hver', htied'⟩ := coSignerVerifies_true (hall c hc)
      obtain rfl := Except.ok.inj (htied'.1.symm.trans hk)
      exact .coSigner hnone hc hver' htied'

/-! ## The level and its count -/

/-- The count is of the legs, or of the primary and the co-signers. -/
theorem countSigners_ok {inp : Inputs} {count : Count}
    (h : countSigners R S inp = .ok count) :
    (∃ legs, countedLegs S inp = .ok (some legs) ∧ count = ⟨legs.verified, legs.total, true⟩) ∨
      countedLegs S inp = .ok none ∧ ∃ vs, inp.coSigners.mapM (coSignerVerifies R S inp) = .ok vs ∧
        count = ⟨1 + vs.count true, 1 + inp.coSigners.length, false⟩ := by
  obtain ⟨legs, hlegs, h⟩ := bind_ok.mp h
  cases legs with
  | some legs => exact .inl ⟨legs, hlegs, (Except.ok.inj h).symm⟩
  | none =>
    obtain ⟨vs, hvs, h⟩ := bind_ok.mp h
    exact .inr ⟨hlegs, vs, hvs, (Except.ok.inj h).symm⟩

/-- The evidence mode never raises the level. -/
theorem classifyEvidenceMode_multisig {hint : Json} {derived : Str} {keyRecomputed ext : Bool}
    {base : ClaimLevel} {cls : Classified}
    (h : classifyEvidenceMode hint derived keyRecomputed ext base = .ok cls)
    (hlevel : cls.level = .multisigRecomputable) : base = .multisigRecomputable := by
  unfold classifyEvidenceMode at h
  split at h
  next =>
    obtain rfl := Except.ok.inj h
    exact hlevel
  next =>
    obtain ⟨_, -, h⟩ := bind_ok.mp h
    dsimp only at h
    split at h
    next =>
      obtain rfl := Except.ok.inj h
      exact hlevel
    next declared needsKey _ =>
      generalize (if needsKey = true then keyRecomputed else ext) = contractOk at h
      split at h
      next =>
        obtain rfl := Except.ok.inj h
        exact hlevel
      next =>
        obtain rfl := Except.ok.inj h
        -- the level that is fallen back to is not the highest
        dsimp only at hlevel
        revert hlevel
        cases keyRecomputed <;> cases base <;> decide

theorem baseLevel_multisig {c : Count} (h : baseLevel c = .multisigRecomputable) :
    1 < c.total ∧ c.total ≤ c.verified := by
  unfold baseLevel at h
  split at h
  next hc => exact hc
  next => cases h

/-- A reported level of the highest kind: more than one signer, and as many as declared. -/
theorem ClaimReport.level_multisig {inp : Inputs} {rep : ClaimReport}
    (hcls : ∃ hint, classifyEvidenceMode hint (lit "embedded_fixture") inp.pubkey.truthy false
      (baseLevel rep.count) = .ok rep.classified)
    (h : rep.level = some .multisigRecomputable) :
    1 < rep.count.total ∧ rep.count.total ≤ rep.count.verified := by
  obtain ⟨hint, hcls⟩ := hcls
  unfold ClaimReport.level at h
  split at h
  next => cases h
  next => exact baseLevel_multisig (classifyEvidenceMode_multisig hcls (Option.some.inj h))

/-- Enough different signers exactly where no signer is counted twice. -/
theorem exists_signers_iff {inp : Inputs} {count : Count} {d : Detail} {check : Check}
    (hcount : countSigners R S inp = .ok count)
    (hlevel : 1 < count.total ∧ count.total ≤ count.verified)
    (hver : Verified R S inp d check) (htied : Tied inp check) :
    (∃ ks : List Bytes, ks.Nodup ∧ count.total ≤ ks.length ∧ ∀ k ∈ ks, SignedBy R S inp d k) ↔
      SignersDistinct S inp := by
  rcases countSigners_ok hcount with ⟨legs, hlegs, rfl⟩ | ⟨hnone, vs, hvs, rfl⟩
  · -- one of the legs may be the primary's
    dsimp only at hlevel
    obtain ⟨n, hn⟩ : ∃ n, legs.total = n + 1 := ⟨legs.total - 1, by omega⟩
    simp only [signedBy_legs hlegs hver htied, hn, Tally.exists_distinct_iff, SignersDistinct,
      htied.1, hlegs, Except.ok.injEq, exists_eq_left', Nat.add_right_cancel_iff]
  · -- the count is full, so every co-signer has verified and has a key
    dsimp only at hlevel
    have hall : ∀ c ∈ inp.coSigners, coSignerVerifies R S inp c = .ok true := by
      intro c hc
      obtain ⟨v, hv, hcv⟩ := mem_mapM_of_mem hvs hc
      have hlen := (mapM_ok.mp hvs).length_eq
      have hfull : vs.count true = vs.length := by
        have := List.count_le_length (a := true) (l := vs)
        omega
      rw [hcv, ← List.count_eq_length.mp hfull v hv]
    have hkeys : (keyBytes (inp.coSigners.map coPubkey)).length = inp.coSigners.length := by
      rw [length_keyBytes, List.length_map]
      intro k hk
      obtain ⟨c, hc, rfl⟩ := List.mem_map.mp hk
      obtain ⟨d', check', -, htied'⟩ := coSignerVerifies_true (hall c hc)
      exact ⟨check'.key, htied'.1⟩
    simp only [signedBy_coSigners hnone hall hver htied, SignersDistinct, htied.1, hnone,
      Except.ok.injEq, exists_eq_left']
    rw [← Tally.exists_distinct_all_iff, hkeys, Nat.add_comm]

/-- What the highest level says of its signers is so exactly where the inputs are admitted
and no signer is counted twice. -/
theorem distinctSigners_iff {inp : Inputs} {rep : ClaimReport}
    (hcount : countSigners R S inp = .ok rep.count)
    (hadm : admission R S inp = .ok (rep.admission, rep.detail))
    (hlevel : 1 < rep.count.total ∧ rep.count.total ≤ rep.count.verified) :
    DistinctSigners R S inp rep ↔ Admitted R S inp ∧ SignersDistinct S inp := by
  constructor
  · rintro ⟨hks, hpass, check, hver, htied⟩
    exact ⟨(admitted_iff hadm).mpr ⟨hpass, check, hver, htied⟩,
      (exists_signers_iff hcount hlevel hver htied).mp hks⟩
  · rintro ⟨hadmitted, hdistinct⟩
    obtain ⟨hpass, check, hver, htied⟩ := (admitted_iff hadm).mp hadmitted
    exact ⟨(exists_signers_iff hcount hlevel hver htied).mpr hdistinct, hpass, check, hver, htied⟩

/-! ## One entry once more -/

/-- An entry of one of the two lists that are counted. -/
inductive Entry
  | leg (leg : Json)
  | coSigner (c : Json)

/-- The inputs of a response that has one of its legs, or one of its co-signers, once more. -/
inductive RepeatsEntry (inp : Inputs) : Entry → Inputs → Prop
  | leg {kvs : List (Str × Json)} {leg : Json} {sigs sigs' : List Json} (hjws : inp.jws = .obj kvs)
      (hsigs : kvs.lookup (lit "signatures") = some (.arr sigs))
      (h : Tally.Repeats leg sigs sigs') :
      RepeatsEntry inp (.leg leg)
        { inp with jws := .obj (setKey (lit "signatures") (.arr sigs') kvs) }
  | coSigner {c : Json} {co' : List Json} (h : Tally.Repeats c inp.coSigners co') :
      RepeatsEntry inp (.coSigner c) { inp with coSigners := co' }

/-- The key a leg verifies under. -/
def legSigner (S : Schemes) (jws : Json) (candidates : List Json) (leg : Json) :
    Except PyError (Option Str) := do
  match S.ed25519 with
  | none => return none
  | some ed25519 =>
    let payload ← jws.getD (lit "payload") (.str [])
    let keys ← (candidates.filter (·.truthy)).mapM candidateKey
    verifyLeg ed25519 keys payload leg

/-- The entry is one of those that are counted, and it verifies. -/
def Counted (R : Runtime) (S : Schemes) (inp : Inputs) : Entry → Prop
  | .leg leg => (∃ legs, countedLegs S inp = .ok (some legs)) ∧
      ∃ s, legSigner S inp.jws (inp.pubkey :: coPubkeys inp) leg = .ok (some s)
  | .coSigner c => countedLegs S inp = .ok none ∧ coSignerVerifies R S inp c = .ok true

/-- Without PyNaCl no legs verify. -/
theorem verifyJwsLegs_none (hS : S.ed25519 = none) (jws canonicalBytes : Json)
    (candidates : List Json) :
    verifyJwsLegs S jws canonicalBytes candidates = .ok ⟨0, 0, false, []⟩ := by
  rw [verifyJwsLegs, hS]
  rfl

/-- One leg more is counted once more where it verifies. -/
theorem LegsRun.repeatLeg {kvs : List (Str × Json)} {canonicalBytes leg : Json}
    {candidates sigs sigs' : List Json} {legs : Legs}
    (run : LegsRun S (.obj kvs) canonicalBytes candidates legs)
    (hsigs : kvs.lookup (lit "signatures") = some (.arr sigs))
    (h : Tally.Repeats leg sigs sigs') :
    ∃ b legs', legSigner S (.obj kvs) candidates leg = .ok b ∧
      verifyJwsLegs S (.obj (setKey (lit "signatures") (.arr sigs') kvs)) canonicalBytes candidates
        = .ok legs' ∧
      legs'.payloadOk = legs.payloadOk ∧ legs.total ≠ 0 ∧ legs'.total = legs.total + 1 ∧
      legs'.verified = legs.verified + if b.isSome then 1 else 0 := by
  -- the run reads the listed legs, and only them
  have htruthy : ∀ {xs : List Json}, leg ∈ xs → (Json.arr xs).orElse (.arr []) = .arr xs := by
    intro xs hx
    cases xs with
    | nil => cases hx
    | cons => rfl
  have hread : run.sigs = sigs := by
    obtain ⟨v, hv, hiter⟩ := run.listed
    obtain rfl := Json.get_eq_find hv
    rw [Json.find, hsigs, Option.getD_some, htruthy h.1] at hiter
    exact (Except.ok.inj hiter).symm
  have hhits := run.hits_eq
  rw [hread] at hhits
  obtain ⟨b, hits', hleg, hhits', hrep⟩ := h.mapM hhits
  have hcount : ∀ hits : List (Option Str),
      (hits.filterMap id).length = hits.countP Option.isSome := by
    intro hits
    rw [List.length_filterMap_eq_countP]
    rfl
  have run' : LegsRun S (.obj (setKey (lit "signatures") (.arr sigs') kvs)) canonicalBytes
      candidates ⟨(hits'.filterMap id).length, sigs'.length, legs.payloadOk,
        hits'.filterMap id⟩ := {
    ed25519 := run.ed25519
    sigs := sigs'
    payload := run.payload
    keys := run.keys
    hits := hits'
    scheme := run.scheme
    listed := by
      refine ⟨.arr sigs', ?_, ?_⟩
      · show Except.ok _ = _
        rw [lookup_setKey, if_pos rfl]
        rfl
      · rw [htruthy ((h.sameElems leg).mp h.1)]
        rfl
    payload_eq := by
      rw [← run.payload_eq]
      show Except.ok _ = Except.ok _
      rw [lookup_setKey, if_neg (by decide)]
    canonical := run.canonical
    keys_eq := run.keys_eq
    hits_eq := hhits'
    result := rfl }
  refine ⟨b, _, ?_, run'.run, rfl, ?_, ?_, ?_⟩
  · rw [legSigner, run.scheme]
    exact bind_ok.mpr ⟨run.payload, run.payload_eq, bind_ok.mpr ⟨run.keys, run.keys_eq, hleg⟩⟩
  · rw [congrArg Legs.total run.result, hread]
    exact (List.length_pos_of_mem h.1).ne'
  · rw [congrArg Legs.total run.result, hread]
    exact h.perm.length_eq
  · rw [congrArg Legs.verified run.result]
    show (hits'.filterMap id).length = _
    rw [hcount, hrep.countP, hcount]

/-- The legs that verify do not depend on the order and repetition of the candidate keys. -/
theorem LegsRun.sameCandidates {jws canonicalBytes : Json} {candidates candidates' : List Json}
    {legs : Legs} (run : LegsRun S jws canonicalBytes candidates legs)
    (h : SameElems candidates candidates') :
    ∃ legs', verifyJwsLegs S jws canonicalBytes candidates' = .ok legs' ∧
      legs'.payloadOk = legs.payloadOk ∧ legs'.total = legs.total ∧
      legs'.verified = legs.verified := by
  have hfilter : SameElems (candidates.filter (·.truthy)) (candidates'.filter (·.truthy)) := by
    intro k
    rw [List.mem_filter, List.mem_filter, h k]
  obtain ⟨keys', hkeys', hsame⟩ := mapM_sameElems hfilter run.keys_eq
  have hleg : ∀ {leg : Json} {hit : Option Str},
      verifyLeg run.ed25519 run.keys run.payload leg = .ok hit →
      ∃ hit', verifyLeg run.ed25519 keys' run.payload leg = .ok hit' ∧
        hit'.isSome = hit.isSome := by
    intro leg hit hhit
    obtain ⟨si, hsi, hhit⟩ := bind_ok.mp hhit
    obtain ⟨v, hv, hhit⟩ := bind_ok.mp hhit
    obtain ⟨raw, hraw, hhit⟩ := bind_ok.mp hhit
    obtain rfl := Except.ok.inj hhit
    refine ⟨_, bind_ok.mpr ⟨si, hsi, bind_ok.mpr ⟨v, hv, bind_ok.mpr ⟨raw, hraw, rfl⟩⟩⟩, ?_⟩
    rw [Option.isSome_map, Option.isSome_map, Bool.eq_iff_iff, List.find?_isSome,
      List.find?_isSome]
    exact exists_congr fun k => and_congr_left fun _ => (hsame k).symm
  obtain ⟨hits', hhits', hcount⟩ : ∃ hits',
      run.sigs.mapM (verifyLeg run.ed25519 keys' run.payload) = .ok hits' ∧
        (hits'.filterMap id).length = (run.hits.filterMap id).length := by
    have hhits := mapM_ok.mp run.hits_eq
    revert hhits
    generalize run.sigs = sigs, run.hits = hits
    intro hhits
    induction hhits with
    | nil => exact ⟨[], List.mapM_nil, rfl⟩
    | cons hhit _ ih =>
      obtain ⟨hit', hhit', hsome⟩ := hleg hhit
      obtain ⟨hits', hhits', hlen⟩ := ih
      refine ⟨hit' :: hits', mapM_ok.mpr (.cons hhit' (mapM_ok.mp hhits')), ?_⟩
      simp only [List.length_filterMap_eq_countP, List.countP_cons, id] at hlen ⊢
      rw [hlen, hsome]
  have run' : LegsRun S jws canonicalBytes candidates' ⟨(hits'.filterMap id).length,
      run.sigs.length, legs.payloadOk, hits'.filterMap id⟩ := {
    ed25519 := run.ed25519
    sigs := run.sigs
    payload := run.payload
    keys := keys'
    hits := hits'
    scheme := run.scheme
    listed := run.listed
    payload_eq := run.payload_eq
    canonical := run.canonical
    keys_eq := hkeys'
    hits_eq := hhits'
    result := rfl }
  refine ⟨_, run'.run, rfl, ?_, ?_⟩
  · exact (congrArg Legs.total run.result).symm
  · exact hcount.trans (congrArg Legs.verified run.result).symm

/-- The legs of a response that has one of them once more. -/
theorem countedLegs_repeatLeg {inp : Inputs} {kvs : List (Str × Json)} {leg : Json}
    {sigs sigs' : List Json} {o : Option Legs} (hjws : inp.jws = .obj kvs)
    (hsigs : kvs.lookup (lit "signatures") = some (.arr sigs)) (h : Tally.Repeats leg sigs sigs')
    (ho : countedLegs S inp = .ok o) :
    ∃ o', countedLegs S
        { inp with jws := .obj (setKey (lit "signatures") (.arr sigs') kvs) } = .ok o' ∧
      match o with
      | none => o' = none
      | some legs => ∃ b legs', o' = some legs' ∧
          legSigner S inp.jws (inp.pubkey :: coPubkeys inp) leg = .ok b ∧
          legs'.verified = legs.verified + if b.isSome then 1 else 0 := by
  have hne : ∀ {xs : List Json}, leg ∈ xs → (Json.arr xs).truthy = true := by
    intro xs hx
    cases xs with
    | nil => cases hx
    | cons => rfl
  have hhas : hasLegs inp = true := by
    rw [hasLegs, hjws, Json.find, hsigs, Option.getD_some, hne h.1]
    rfl
  have hhas' : hasLegs { inp with jws := .obj (setKey (lit "signatures") (.arr sigs') kvs) }
      = true := by
    rw [hasLegs, Json.find, lookup_setKey, if_pos rfl, Option.getD_some,
      hne ((h.sameElems leg).mp h.1)]
    rfl
  cases o with
  | none =>
    refine ⟨none, countedLegs_none.mpr fun _ => ?_, rfl⟩
    obtain ⟨legs, hlegs, hok⟩ := countedLegs_none.mp ho hhas
    rcases verifyJwsLegs_run hlegs with ⟨hS, -⟩ | ⟨⟨run⟩⟩
    · exact ⟨_, verifyJwsLegs_none hS _ _ _, fun _ => rfl⟩
    · rw [hjws] at run
      obtain ⟨b, legs', -, hlegs', hok', htotal, -⟩ := run.repeatLeg hsigs h
      -- there is a leg, so the payload is not the canonical bytes
      exact ⟨legs', hlegs', fun hpay => absurd (hok (hok' ▸ hpay)) htotal⟩
  | some legs =>
    obtain ⟨-, hlegs, hpay, htotal⟩ := countedLegs_some.mp ho
    rcases verifyJwsLegs_run hlegs with ⟨-, hfalse⟩ | ⟨⟨run⟩⟩
    · rw [hpay] at hfalse
      cases hfalse
    · rw [hjws] at run ⊢
      obtain ⟨b, legs', hleg, hlegs', hok', -, htotal', hverified⟩ := run.repeatLeg hsigs h
      refine ⟨some legs', countedLegs_some.mpr ⟨hhas', hlegs', ?_, ?_⟩, b, legs', rfl, hleg,
        hverified⟩
      · rw [hok', hpay]
      · omega

/-- The legs of a response that has one of its co-signers once more. -/
theorem countedLegs_repeatCoSigner {inp : Inputs} {c : Json} {co' : List Json} {o : Option Legs}
    (h : Tally.Repeats c inp.coSigners co') (ho : countedLegs S inp = .ok o) :
    ∃ o', countedLegs S { inp with coSigners := co' } = .ok o' ∧
      match o with
      | none => o' = none
      | some legs => ∃ legs', o' = some legs' ∧ legs'.verified = legs.verified := by
  have hcandidates : SameElems (inp.pubkey :: coPubkeys inp)
      (inp.pubkey :: coPubkeys { inp with coSigners := co' }) := by
    intro k
    rw [List.mem_cons, List.mem_cons, coPubkeys, coPubkeys, List.mem_map, List.mem_map]
    refine or_congr_right (exists_congr fun d => and_congr_left fun _ => ?_)
    rw [List.mem_filter, List.mem_filter, h.sameElems d]
  cases o with
  | none =>
    refine ⟨none, countedLegs_none.mpr fun hhas => ?_, rfl⟩
    obtain ⟨legs, hlegs, hok⟩ := countedLegs_none.mp ho hhas
    rcases verifyJwsLegs_run hlegs with ⟨hS, -⟩ | ⟨⟨run⟩⟩
    · exact ⟨_, verifyJwsLegs_none hS _ _ _, fun _ => rfl⟩
    · obtain ⟨legs', hlegs', hok', htotal, -⟩ := run.sameCandidates hcandidates
      exact ⟨legs', hlegs', fun hpay => htotal.trans (hok (hok' ▸ hpay))⟩
  | some legs =>
    obtain ⟨hhas, hlegs, hpay, htotal⟩ := countedLegs_some.mp ho
    rcases verifyJwsLegs_run hlegs with ⟨-, hfalse⟩ | ⟨⟨run⟩⟩
    · rw [hpay] at hfalse
      cases hfalse
    · obtain ⟨legs', hlegs', hok', htotal', hverified⟩ := run.sameCandidates hcandidates
      refine ⟨some legs', countedLegs_some.mpr ⟨hhas, hlegs', ?_, ?_⟩, legs', rfl, hverified⟩
      · rw [hok', hpay]
      · rwa [htotal']

/-- **One entry once more.** The count goes up exactly where the entry is counted. -/
theorem countSigners_repeat {inp inp' : Inputs} {entry : Entry} {count : Count}
    (h : RepeatsEntry inp entry inp') (hcount : countSigners R S inp = .ok count) :
    ∃ count', countSigners R S inp' = .ok count' ∧
      (count'.verified ≤ count.verified ↔ ¬ Counted R S inp entry) := by
  cases h with
  | leg hjws hsigs hrep =>
    rcases countSigners_ok hcount with ⟨legs, hlegs, rfl⟩ | ⟨hnone, vs, hvs, rfl⟩
    · obtain ⟨_, ho', b, legs', rfl, hleg, hverified⟩ := countedLegs_repeatLeg hjws hsigs hrep hlegs
      refine ⟨_, bind_ok.mpr ⟨_, ho', rfl⟩, ?_⟩
      show legs'.verified ≤ legs.verified ↔ ¬ (_ ∧ _)
      rw [hverified, hleg]
      cases b with
      | none => simp
      | some s => simp [hlegs]
    · obtain ⟨_, ho', rfl⟩ := countedLegs_repeatLeg hjws hsigs hrep hnone
      refine ⟨_, bind_ok.mpr ⟨_, ho', bind_ok.mpr ⟨vs, hvs, rfl⟩⟩, ?_⟩
      refine iff_of_true (Nat.le_refl _) fun hc => ?_
      obtain ⟨⟨legs, hlegs⟩, -⟩ := hc
      cases hnone.symm.trans hlegs
  | coSigner hrep =>
    rcases countSigners_ok hcount with ⟨legs, hlegs, rfl⟩ | ⟨hnone, vs, hvs, rfl⟩
    · obtain ⟨_, ho', legs', rfl, hverified⟩ := countedLegs_repeatCoSigner hrep hlegs
      refine ⟨_, bind_ok.mpr ⟨_, ho', rfl⟩, ?_⟩
      refine iff_of_true (Nat.le_of_eq hverified) fun hc => ?_
      cases hlegs.symm.trans hc.1
    · obtain ⟨_, ho', rfl⟩ := countedLegs_repeatCoSigner hrep hnone
      obtain ⟨b, vs', hb, hvs', hrepeats⟩ := hrep.mapM hvs
      refine ⟨_, bind_ok.mpr ⟨_, ho', bind_ok.mpr ⟨vs', hvs', rfl⟩⟩, ?_⟩
      show 1 + vs'.count true ≤ 1 + vs.count true ↔ ¬ (_ ∧ _)
      rw [List.count, hrepeats.countP, hb]
      cases b with
      | false => simp
      | true => simp [hnone]

/-- The parts of a report. -/
theorem runClaim_some {mapping resp : Json} {rep : ClaimReport}
    (h : runClaim R S mapping resp = .ok (some rep)) :
    ∃ inp, readInputs R mapping resp = .ok (some inp) ∧
      countSigners R S inp = .ok rep.count ∧
      admission R S inp = .ok (rep.admission, rep.detail) ∧
      ∃ hint, classifyEvidenceMode hint (lit "embedded_fixture") inp.pubkey.truthy false
        (baseLevel rep.count) = .ok rep.classified := by
  obtain ⟨inputs, hinputs, h⟩ := bind_ok.mp h
  cases inputs with
  | none => cases h
  | some inp =>
    obtain ⟨count, hcount, h⟩ := bind_ok.mp h
    obtain ⟨hint, -, h⟩ := bind_ok.mp h
    obtain ⟨classified, hcls, h⟩ := bind_ok.mp h
    obtain ⟨⟨state, detail⟩, hadm, h⟩ := bind_ok.mp h
    obtain rfl := Option.some.inj (Except.ok.inj h)
    exact ⟨inp, hinputs, hcount, hadm, hint, hcls⟩

/-- **The signers behind `admission_multisig_recomputable`.** Behind the level are as many
different keys as it counts, with an admission by the primary key, exactly where the inputs
are admitted and no signer is counted twice; and an entry that is repeated leaves the count
exactly where that entry is not counted. -/
theorem multisig_signers_iff {mapping resp : Json} {rep : ClaimReport}
    (h : runClaim R S mapping resp = .ok (some rep)) :
    ∃ inp, readInputs R mapping resp = .ok (some inp) ∧
      (rep.level = some .multisigRecomputable →
        (DistinctSigners R S inp rep ↔ Admitted R S inp ∧ SignersDistinct S inp)) ∧
      ∀ entry inp', RepeatsEntry inp entry inp' →
        ∃ count', countSigners R S inp' = .ok count' ∧
          (count'.verified ≤ rep.count.verified ↔ ¬ Counted R S inp entry) := by
  obtain ⟨inp, hinputs, hcount, hadm, hcls⟩ := runClaim_some h
  refine ⟨inp, hinputs, fun hlevel => ?_, fun entry inp' hrep => countSigners_repeat hrep hcount⟩
  exact distinctSigners_iff hcount hadm (ClaimReport.level_multisig hcls hlevel)

/-! ## Two responses with a co-signer -/

/-- A mapping of the `bip340` scheme. -/
def coMapping : Json := object
  [("response_file", text "response.json"), ("sig_scheme", text "bip340"),
    ("fields", object [("envelope_hash", text "envelope_hash"), ("pubkey", text "pubkey"),
      ("signature", text "signature")])]

/-- A response signed by the key `a` and by a co-signer of the key `c`. -/
def coResponse (c : Char) : Json := object
  [("envelope_hash", .str (keyText 'e')), ("pubkey", .str (keyText 'a')),
    ("signature", .str (List.replicate 128 (ofChar '0'))),
    ("co_signers", .arr [object [("pubkey", .str (keyText c)),
      ("signature", .str (List.replicate 128 (ofChar '0')))]])]

/-- The report on either response. -/
def coReport : ClaimReport where
  admission := .pass
  detail := .bip340OverHash
  count := ⟨2, 2, false⟩
  classified := ⟨.missing, lit "embedded_fixture", .multisigRecomputable⟩

/-- The level of a response whose co-signer has a key of its own. -/
theorem coResponse_signers : ∃ inp,
    readInputs .sample coMapping (coResponse 'b') = .ok (some inp) ∧
      DistinctSigners .sample sampleSchemes inp coReport := by
  have hrun : runClaim .sample sampleSchemes coMapping (coResponse 'b') = .ok (some coReport) := by
    decide +kernel
  obtain ⟨inp, hinputs, hiff, -⟩ := multisig_signers_iff hrun
  refine ⟨inp, hinputs, (hiff (by decide)).mpr ?_⟩
  have hfacts : (readInputs .sample coMapping (coResponse 'b')).map (fun i => i.map fun inp =>
      decide (hasLegs inp = false ∧
        primarySignature .sample sampleSchemes inp = .ok (some true, .bip340OverHash) ∧
        trusted inp = .ok true ∧
        (inp.actorPubkey.truthy && inp.pubkey.pyEq inp.actorPubkey) = false ∧
        schemeName .sample inp.scheme = .ok (lit "bip340") ∧
        bytesFromHex inp.pubkey = bytesFromHex (.str (keyText 'a')) ∧
        keyBytes (inp.coSigners.map coPubkey) = keyBytes [.str (keyText 'b')]))
      = .ok (some true) := by decide +kernel
  obtain ⟨i, hi, hdec⟩ := map_ok.mp hfacts
  obtain rfl := Except.ok.inj (hinputs.symm.trans hi)
  obtain ⟨hlegs, hsig, htrust, hactor, hscheme, hpub, hco⟩ :=
    of_decide_eq_true (Option.some.inj hdec)
  have hnone : countedLegs sampleSchemes inp = .ok none :=
    countedLegs_none.mpr fun h => absurd h (by rw [hlegs]; exact Bool.false_ne_true)
  refine ⟨⟨⟨_, hsig⟩, htrust, hactor, fun hn => ?_⟩, List.replicate 32 0xaa, ?_, ?_⟩
  · -- the scheme is not `nostr-event`
    exact absurd (Except.ok.inj (hscheme.symm.trans hn.1)) (by decide)
  · rw [hpub]
    decide +kernel
  · rw [hnone, hco]
    decide +kernel

/-- The co-signer's key is the primary's: the level is reported for two signers, and only
one key has signed. -/
theorem coResponse_one_key :
    ¬ ∀ (R : Runtime) (S : Schemes) (mapping resp : Json) (rep : ClaimReport),
      runClaim R S mapping resp = .ok (some rep) → rep.level = some .multisigRecomputable →
      ∃ inp, readInputs R mapping resp = .ok (some inp) ∧ DistinctSigners R S inp rep := by
  intro hall
  have hrun : runClaim .sample sampleSchemes coMapping (coResponse 'a') = .ok (some coReport) := by
    decide +kernel
  obtain ⟨inp, hinputs, hsigners⟩ := hall _ _ _ _ _ hrun (by decide)
  obtain ⟨inp', hinputs', hcount, hadm, hcls⟩ := runClaim_some hrun
  obtain rfl := Option.some.inj (Except.ok.inj (hinputs.symm.trans hinputs'))
  obtain ⟨-, primary, hprimary, hdistinct⟩ :=
    (distinctSigners_iff hcount hadm (ClaimReport.level_multisig hcls (by decide))).mp hsigners
  have hfacts : (readInputs .sample coMapping (coResponse 'a')).map (fun i => i.map fun inp =>
      decide (hasLegs inp = false ∧ keyBytes (inp.coSigners.map coPubkey) = keyBytes [inp.pubkey]))
      = .ok (some true) := by decide +kernel
  obtain ⟨i, hi, hdec⟩ := map_ok.mp hfacts
  obtain rfl := Except.ok.inj (hinputs.symm.trans hi)
  obtain ⟨hlegs, hco⟩ := of_decide_eq_true (Option.some.inj hdec)
  have hnone : countedLegs sampleSchemes inp = .ok none :=
    countedLegs_none.mpr fun h => absurd h (by rw [hlegs]; exact Bool.false_ne_true)
  rw [hnone, hco] at hdistinct
  exact (List.nodup_cons.mp hdistinct).1 (mem_keyBytes.mpr ⟨_, List.mem_singleton_self _, hprimary⟩)

end Preaction.LiveCheck
