import Preaction.SequenceIntegrity.Run

/-!
# `build_sequence_fixture.py` — the log that is checked

The builder hashes the leaves, signs two tree heads, and reads an inclusion proof off the levels for
each leaf. What it builds passes, up to the entries (`fixture_passes`), and no other proof of a leaf
passes than the one it builds (`applyInclusion_iff`).

Mirroring notes:
- `Ed25519PrivateKey.sign` is an argument, with its public key.
- `jcs` is the one of the checker: on texts, integers and dicts they are one text.
- The sizes of the two heads, 4 and 7 there, are arguments; the second is the number of leaves.
-/

namespace Preaction.SequenceIntegrity

open Preaction.Py Preaction.Loop Json Merkle
open Edwards (toBytesLittle sign_spec)
open VendoredEd25519 (ed25519Verify)

variable (R : Runtime)

/-- `build_tree(leaves)` -/
def buildTree (leaves : List Bytes) : Except PyError (Bytes × List (List Bytes)) :=
  let lvls := levels (nodeHash R) leaves
  match lvls.getLast?.bind List.head? with
  | some root => .ok (root, lvls)
  | none => .error .indexError

/-- The text of a side. -/
def sideText : Side → Json
  | .left => text "left"
  | .right => text "right"

/-- A step of a proof. -/
def stepJson (step : Bytes × Side) : Json :=
  object [("sibling", .str (hexStr step.1)), ("position", sideText step.2)]

/-- `inclusion_proof(levels, index)` -/
def builtProof (lvls : List (List Bytes)) (i : Nat) : Json :=
  .arr ((inclusionProof lvls i).map stepJson)

/-- `sth_payload` -/
def sthPayload (root : Bytes) (tMs : Int) (size : Nat) : Json :=
  object [("root_hash", .str (hexStr root)), ("sth_time_ms", .int tMs), ("tree_size", .int size)]

/-- What `make_sth` returns for a payload and its signature. -/
def sthJson (payload : Json) (kid : Str) (signature : Bytes) : Json :=
  object [("payload", payload), ("kid", .str kid),
    ("signature", .str (urlsafeB64bare signature))]

/-- `make_sth(size, t_ms)` -/
def makeSth (sign : Bytes → Bytes) (kid : Str) (leaves : List Bytes) (size : Nat) (tMs : Int) :
    Except PyError (Json × List (List Bytes)) := do
  let (root, lvls) ← buildTree R (leaves.take size)
  let pb ← utf8 (← jcs R (sthPayload root tMs size))
  return (sthJson (sthPayload root tMs size) kid (sign pb), lvls)

/-- `log/jwks-log.json` -/
def logJwks (kid : Str) (key : Bytes) : Json :=
  object [("keys", .arr [object [("kty", text "OKP"), ("crv", text "Ed25519"), ("kid", .str kid),
    ("x", .str (urlsafeB64bare key))]])]

/-- The files that `main` writes for these leaves, beside the issuers' keys and the entries. -/
def fixture (key : Bytes) (sign : Bytes → Bytes) (kid : Str) (baseMs : Int) (leaves : List Bytes)
    (older newer : Nat) (jwks : List Json) (entry : Nat → Option Json) : Except PyError Files := do
  let (sth1, _) ← makeSth R sign kid leaves older (baseMs + 10000)
  let (sth2, levels2) ← makeSth R sign kid leaves newer (baseMs + 20000)
  let proofs := (List.range newer).map fun i => (decimal (i + 1), builtProof levels2 i)
  return ⟨jwks, logJwks kid key, sth1, sth2, proofs, entry⟩

variable {R}

/-! ## Proofs -/

theorem readStep_stepJson (step : Bytes × Side) : readStep (stepJson step) = .ok step := by
  obtain ⟨sib, side⟩ := step
  have hsib : bytesFromHex (.str (hexStr sib)) = .ok sib := by
    rw [bytesFromHex, fromHex_hexStr]
  have hsibling : (stepJson (sib, side)).item (lit "sibling") = .ok (.str (hexStr sib)) :=
    item_object_cons _ _ _
  have hposition : (stepJson (sib, side)).item (lit "position") = .ok (sideText side) :=
    (item_object_cons_ne (by decide) _ _).trans (item_object_cons _ _ _)
  unfold readStep
  rw [hsibling, ok_bind, hsib, ok_bind, hposition, ok_bind]
  cases side with
  | left => rfl
  | right => rfl

theorem applyInclusion_built (leaf : Bytes) (lvls : List (List Bytes)) (i : Nat) :
    applyInclusion R leaf (builtProof lvls i) =
      .ok (applyProof (nodeHash R) leaf (inclusionProof lvls i)) := by
  have hsteps : ((inclusionProof lvls i).map stepJson).mapM readStep =
      .ok (inclusionProof lvls i) := by
    refine mapM_ok.mpr ?_
    rw [List.forall₂_map_left_iff]
    exact List.forall₂_same.mpr fun step _ => readStep_stepJson step
  unfold applyInclusion builtProof
  rw [Json.iter, ok_bind, hsteps]
  rfl

/-- The steps of a proof. -/
def stepsOf (proof : Json) : Except PyError (List (Bytes × Side)) := do (← proof.iter).mapM readStep

/-- **A proof passes exactly where it is the one that is built for that leaf.** -/
theorem applyInclusion_iff (hlen : ∀ b, (R.sha256 b).length = 32) {ts : List Bytes} {r t : Bytes}
    {proof : Json} {steps : List (Bytes × Side)}
    (hr : buildRoot (nodeHash R) (ts.map (leafHash R)) = some r)
    (hsteps : stepsOf proof = .ok steps)
    (hno : ∀ i ∈ leafInput t :: proofInputs nodeInput R.sha256 (leafHash R t) steps,
      ∀ j ∈ treeInputs R ts, R.sha256 i = R.sha256 j → i = j) :
    applyInclusion R (leafHash R t) proof = .ok r ↔ ∃ i, ts[i]? = some t ∧
      steps = inclusionProof (levels (nodeHash R) (ts.map (leafHash R))) i := by
  have hproof : applyInclusion R (leafHash R t) proof =
      .ok (applyProof (nodeHash R) (leafHash R t) steps) := by
    unfold stepsOf at hsteps
    obtain ⟨xs, hxs, hsteps⟩ := bind_ok.mp hsteps
    unfold applyInclusion
    rw [hxs, ok_bind, hsteps]
    rfl
  have hiff := apply_eq_root_iff (D := fun b => b.length = 32) hlen
    (fun x y x' y' => nodeInput_inj) (fun b l r => leafInput_ne b l r) hno hr
  rw [hproof, Except.ok.injEq]
  refine Iff.trans hiff ?_
  constructor
  · intro h
    obtain ⟨i, b, hi, hb, hsteps⟩ := h
    obtain rfl := (List.cons.inj hb).2
    exact ⟨i, hi, hsteps⟩
  · intro h
    obtain ⟨i, hi, hsteps⟩ := h
    exact ⟨i, t, hi, rfl, hsteps⟩

/-! ## The heads -/

section Built

variable {key : Bytes} {sign : Bytes → Bytes} {kid : Str} {leaves : List Bytes}

/-- A head that was made. -/
structure Head (R : Runtime) (sign : Bytes → Bytes) (kid : Str) (leaves : List Bytes) (size : Nat)
    (sth : Json) (lvls : List (List Bytes)) : Prop where
  lvls_eq : lvls = levels (nodeHash R) (leaves.take size)
  made : ∃ root tMs t pb, buildRoot (nodeHash R) (leaves.take size) = some root ∧
    jcs R (sthPayload root tMs size) = .ok t ∧ utf8 t = .ok pb ∧
      sth = sthJson (sthPayload root tMs size) kid (sign pb)

theorem makeSth_head {size : Nat} {tMs : Int} {sth : Json} {lvls : List (List Bytes)}
    (h : makeSth R sign kid leaves size tMs = .ok (sth, lvls)) :
    Head R sign kid leaves size sth lvls := by
  obtain ⟨⟨root, lvls'⟩, hbuild, h⟩ := bind_ok.mp h
  obtain ⟨t, ht, h⟩ := bind_ok.mp h
  obtain ⟨pb, hpb, h⟩ := bind_ok.mp h
  obtain ⟨rfl, rfl⟩ := Prod.mk.inj (Except.ok.inj h)
  unfold buildTree at hbuild
  dsimp only at hbuild
  rw [levels_root] at hbuild
  split at hbuild
  next root' hroot =>
    obtain ⟨rfl, rfl⟩ := Prod.mk.inj (Except.ok.inj hbuild)
    exact ⟨rfl, root', tMs, t, pb, hroot, ht, hpb, rfl⟩
  next => cases hbuild

theorem logJwks_keys (kid : Str) (key : Bytes) :
    loadJwks [] (logJwks kid key) = .ok [(.str kid, key)] := by
  have hx : b64uD (.str (urlsafeB64bare key)) = .ok key := by
    rw [b64uD, urlsafeB64decode_bare]
  have hkeys : (logJwks kid key).item (lit "keys") = .ok (.arr [object [("kty", text "OKP"),
      ("crv", text "Ed25519"), ("kid", .str kid), ("x", .str (urlsafeB64bare key))]]) :=
    item_object_cons _ _ _
  unfold loadJwks
  rw [hkeys, ok_bind, Json.iter, ok_bind, List.foldlM_cons]
  simp only [List.foldlM_nil, loadKey, item_object_cons, item_object_cons_ne, ne_eq, ok_bind, hx,
    String.reduceEq, not_false_eq_true]
  rfl

/-- The signature of a head that was made verifies. -/
theorem Head.verifies (hsign : ∀ m, ed25519Verify R key m (sign m) = true) {size : Nat} {sth : Json}
    {lvls : List (List Bytes)} (h : Head R sign kid leaves size sth lvls) :
    verifySth R sth [(.str kid, key)] = .ok true := by
  obtain ⟨root, tMs, t, pb, -, ht, hpb, rfl⟩ := h.made
  have hsig : b64uD (.str (urlsafeB64bare (sign pb))) = .ok (sign pb) := by
    rw [b64uD, urlsafeB64decode_bare]
  have hfind : Keys.find [(.str kid, key)] (.str kid) = .ok (some key) := by
    have heq : (Json.str kid).pyEq (.str kid) = true := (pyEq_str _ _).mpr rfl
    unfold Keys.find
    rw [List.find?_cons, heq]
    rfl
  unfold verifySth sthJson
  rw [item_object_cons, ok_bind, ht, ok_bind, hpb, ok_bind, item_object_cons_ne (by decide),
    item_object_cons, ok_bind, hfind, ok_bind, item_object_cons_ne (by decide),
    item_object_cons_ne (by decide), item_object_cons]
  dsimp only
  rw [ok_bind, hsig, ok_bind, hsign]
  rfl

theorem Head.payload {size : Nat} {sth : Json} {lvls : List (List Bytes)}
    (h : Head R sign kid leaves size sth lvls) : ∃ root payload,
      buildRoot (nodeHash R) (leaves.take size) = some root ∧
      sth.item (lit "payload") = .ok payload ∧
      payload.item (lit "tree_size") = .ok (.int size) ∧
      payload.item (lit "root_hash") = .ok (.str (hexStr root)) := by
  obtain ⟨root, tMs, t, pb, hroot, -, -, rfl⟩ := h.made
  refine ⟨root, sthPayload root tMs size, hroot, item_object_cons _ _ _, ?_, item_object_cons _ _ _⟩
  unfold sthPayload
  rw [item_object_cons_ne (by decide), item_object_cons_ne (by decide), item_object_cons]

theorem rootHex_some {leaves : List Bytes} {r : Bytes}
    (h : buildRoot (nodeHash R) leaves = some r) : rootHex R leaves = .ok (hexStr r) := by
  rw [rootHex, h]

theorem pyGe_int {m n : Nat} (h : n ≤ m) : pyGe (.int m) (.int n) = .ok true := by
  have hge : ¬ (m : Rat) < n := not_lt.mpr (Nat.cast_le.mpr h)
  simp [pyGe, num?, Num.ge, Num.lt, hge]

theorem Head.older {size : Nat} {sth : Json} {lvls : List (List Bytes)}
    (h : Head R sign kid leaves size sth lvls) (hle : size ≤ leaves.length) {payload : Json}
    (hpayload : sth.item (lit "payload") = .ok payload) :
    olderOk R leaves payload (.int size) = .ok true := by
  obtain ⟨root, payload', hroot, hpayload', -, hroothash⟩ := h.payload
  obtain rfl := Except.ok.inj (hpayload.symm.trans hpayload')
  have htake : takeTo leaves (size : Int) = leaves.take size := by
    rw [takeTo, if_pos (Int.natCast_nonneg size), Int.toNat_natCast]
  have hindex : indexOf (.int size) = .ok (size : Int) := rfl
  unfold olderOk
  rw [pyGe_int hle, ok_bind]
  show (do
    let root ← rootHex R (takeTo leaves (← indexOf (.int size)))
    return (Json.str root).pyEq (← payload.item (lit "root_hash"))) = _
  rw [hindex, ok_bind, htake, rootHex_some hroot, ok_bind, hroothash, ok_bind,
    (pyEq_str _ _).mpr rfl]
  rfl

theorem Head.newer {sth : Json} {lvls : List (List Bytes)}
    (h : Head R sign kid leaves leaves.length sth lvls) {payload : Json}
    (hpayload : sth.item (lit "payload") = .ok payload) :
    newerOk R leaves payload (.int leaves.length) = .ok true := by
  obtain ⟨root, payload', hroot, hpayload', -, hroothash⟩ := h.payload
  obtain rfl := Except.ok.inj (hpayload.symm.trans hpayload')
  rw [List.take_length] at hroot
  have hsize : (Json.int leaves.length).pyEq (.int leaves.length) = true :=
    (pyEq_int _ _).mpr rfl
  unfold newerOk
  rw [hsize]
  show (do
    let root ← rootHex R leaves
    return (Json.str root).pyEq (← payload.item (lit "root_hash"))) = _
  rw [rootHex_some hroot, ok_bind, hroothash, ok_bind, (pyEq_str _ _).mpr rfl]
  rfl

/-- The proof that is built for a leaf passes. -/
theorem Head.included {sth : Json} {ts : List Bytes} {lvls : List (List Bytes)}
    (h : Head R sign kid (ts.map (leafHash R)) (ts.map (leafHash R)).length sth lvls) {i : Nat}
    (hi : i < ts.length) :
    inclusionOk R (ts.map (leafHash R)) sth i (builtProof lvls i) = .ok true := by
  obtain ⟨root, payload, hroot, hpayload, -, hroothash⟩ := h.payload
  have hlvls := h.lvls_eq
  rw [List.take_length] at hroot hlvls
  have happly : applyProof (nodeHash R) (leafHash R ts[i]) (inclusionProof lvls i) = root := by
    have hroot' := hroot
    unfold buildRoot at hroot'
    rw [show Merkle.root (nodeHash R) id (ts.map (leafHash R)) = _ from
      root_eq_digest leafInput nodeInput R.sha256 id id (fun _ => rfl) ts,
      Option.map_eq_some_iff] at hroot'
    obtain ⟨t, ht, rfl⟩ := hroot'
    rw [hlvls]
    exact ((at_tree ht).mpr ⟨i, List.getElem?_eq_getElem hi, rfl⟩).apply
  have hnth : nthOf (ts.map (leafHash R)) (i : Int) = .ok (leafHash R ts[i]) := by
    have hget : (ts.map (leafHash R))[i]? = some (leafHash R ts[i]) := by
      rw [List.getElem?_map, List.getElem?_eq_getElem hi]
      rfl
    unfold nthOf
    rw [if_pos (Int.natCast_nonneg i), Int.toNat_natCast, hget]
  have hlt : ((i : Int) < (ts.map (leafHash R)).length) := by
    rw [List.length_map]
    exact_mod_cast hi
  unfold inclusionOk
  rw [decide_eq_true hlt]
  show (do
    let root ← applyInclusion R (← nthOf (ts.map (leafHash R)) i) (builtProof lvls i)
    return (Json.str (hexStr root)).pyEq
      (← (← sth.item (lit "payload")).item (lit "root_hash"))) = _
  rw [hnth, ok_bind, applyInclusion_built, ok_bind, hpayload, ok_bind, hroothash, ok_bind, happly,
    (pyEq_str _ _).mpr rfl]
  rfl

/-- The proofs come in the order of their numbers, whatever order the keys are in. -/
theorem sortedProofs_built {n : Nat}
    (hint : ∀ m ≤ n, R.intOfStr (decimal m) = some (m : Int)) (proof : Nat → Json) :
    ∃ ips, sortedProofs R ((List.range n).map fun i => (decimal (i + 1), proof i)) = .ok ips ∧
      ∀ ip ∈ ips, ∃ i < n, ip = ((i : Int), proof i) := by
  have hindexed : ((List.range n).map fun i => (decimal (i + 1), proof i)).mapM
      (fun kv : Str × Json => do return ((← R.int (.str kv.1)) - 1, kv.2)) =
      .ok ((List.range n).map fun i : Nat => ((i : Int), proof i)) := by
    refine mapM_ok.mpr ?_
    rw [List.forall₂_map_left_iff, List.forall₂_map_right_iff]
    refine List.forall₂_same.mpr fun i hi => ?_
    show (do return ((← R.int (.str (decimal (i + 1)))) - 1, proof i)) = _
    have hint' : R.int (.str (decimal (i + 1))) = .ok ((i + 1 : Nat) : Int) := by
      rw [Runtime.int, hint _ (List.mem_range.mp hi)]
    rw [hint', ok_bind, Nat.cast_succ, add_sub_cancel_right]
    rfl
  refine ⟨_, bind_ok.mpr ⟨_, hindexed, rfl⟩, ?_⟩
  intro ip hip
  rw [(List.perm_insertionSort _ _).mem_iff] at hip
  obtain ⟨i, hi, rfl⟩ := List.mem_map.mp hip
  exact ⟨i, List.mem_range.mp hi, rfl⟩

/-- The heads and the proofs that are built pass. -/
theorem headsOk_fixture (hsign : ∀ m, ed25519Verify R key m (sign m) = true)
    {ts : List Bytes} (hint : ∀ m ≤ ts.length, R.intOfStr (decimal m) = some (m : Int))
    {older : Nat} (hle : older ≤ ts.length) {baseMs : Int} {jwks : List Json}
    {entry : Nat → Option Json} {files : Files} (hfiles : fixture R key sign kid baseMs (ts.map (leafHash R)) older ts.length
      jwks entry = .ok files) :
    headsOk R (ts.map (leafHash R)) files [(.str kid, key)] = .ok true ∧
      files.logJwks = logJwks kid key ∧ files.jwks = jwks ∧ files.entry = entry := by
  have hlen : (ts.map (leafHash R)).length = ts.length := List.length_map _
  obtain ⟨⟨sth1, lvls1⟩, h1, hfiles⟩ := bind_ok.mp hfiles
  obtain ⟨⟨sth2, lvls2⟩, h2, hfiles⟩ := bind_ok.mp hfiles
  obtain rfl := Except.ok.inj hfiles
  have head1 := makeSth_head h1
  have head2 := makeSth_head h2
  rw [← hlen] at head2
  obtain ⟨root1, payload1, -, hpayload1, hsize1, -⟩ := head1.payload
  obtain ⟨root2, payload2, -, hpayload2, hsize2, -⟩ := head2.payload
  obtain ⟨ips, hips, hbuilt⟩ := sortedProofs_built hint (builtProof lvls2)
  refine ⟨?_, rfl, rfl, rfl⟩
  have hincluded : ips.mapM (fun ip => inclusionOk R (ts.map (leafHash R)) sth2 ip.1 ip.2) =
      .ok (ips.map fun _ => true) := by
    refine mapM_eq_map ?_
    intro ip hip
    obtain ⟨i, hi, rfl⟩ := hbuilt ip hip
    exact head2.included hi
  unfold headsOk
  dsimp only
  rw [head1.verifies hsign, ok_bind, head2.verifies hsign, ok_bind, hpayload1, ok_bind, hsize1,
    ok_bind, hpayload2, ok_bind, hsize2, ok_bind, head1.older (by rwa [hlen]) hpayload1, ok_bind,
    head2.newer hpayload2, ok_bind]
  show (do
    let included ← (← sortedProofs R _).mapM fun ip : Int × Json =>
      inclusionOk R (ts.map (leafHash R)) sth2 ip.1 ip.2
    return (true && true && true && true && included.all id)) = _
  rw [hips, ok_bind, hincluded, ok_bind]
  have hall : (ips.map fun _ => true).all id = true := by
    rw [List.all_map]
    exact List.all_eq_true.mpr fun _ _ => rfl
  rw [hall]
  rfl

end Built

/-! ## The entries -/

variable {loads loadsText : Bytes → Except PyError Json}

/-- The loop over the leaves ends well where each entry does. -/
theorem checkEntries_iff {keys : Keys} {entry : Nat → Option Json} (lps : List Json) :
    ∀ {n : Nat} {ts : List Bytes}, lps.mapM (payloadText R) = .ok ts →
      ((∃ leaves, checkEntries R loads loadsText keys entry n lps = .ok (true, leaves)) ↔
        ∀ i lp, lps[i]? = some lp →
          entryOk R loads loadsText keys lp (entry (n + i)) = .ok true) := by
  induction lps with
  | nil =>
    intro n ts hts
    constructor
    · intro _ i lp hi
      cases hi
    · intro _
      exact ⟨[], rfl⟩
  | cons lp lps ih =>
    intro n ts hts
    obtain ⟨t, us, ht, hus, rfl⟩ := List.forall₂_cons_left_iff.mp (mapM_ok.mp hts)
    have hleaf : payloadLeaf R lp = .ok (leafHash R t) := by
      obtain ⟨s, hs, ht⟩ := bind_ok.mp ht
      exact bind_ok.mpr ⟨s, hs, bind_ok.mpr ⟨t, ht, rfl⟩⟩
    have hrest := @ih (n + 1) us (mapM_ok.mpr hus)
    constructor
    · intro h i lp' hi
      obtain ⟨leaves, h⟩ := h
      rw [checkEntries] at h
      obtain ⟨ok, hok, h⟩ := bind_ok.mp h
      obtain ⟨leaf, -, h⟩ := bind_ok.mp h
      obtain ⟨⟨rest, leaves'⟩, hrest', h⟩ := bind_ok.mp h
      obtain ⟨hand, -⟩ := Prod.mk.inj (Except.ok.inj h)
      rw [Bool.and_eq_true] at hand
      obtain ⟨rfl, rfl⟩ := hand
      cases i with
      | zero =>
        obtain rfl := Option.some.inj hi
        exact hok
      | succ i =>
        rw [Nat.add_succ, ← Nat.succ_add]
        exact hrest.mp ⟨leaves', hrest'⟩ i lp' hi
    · intro h
      have htail : ∀ i lp', lps[i]? = some lp' →
          entryOk R loads loadsText keys lp' (entry (n + 1 + i)) = .ok true := by
        intro i lp' hi
        rw [Nat.add_assoc, Nat.add_comm 1]
        exact h (i + 1) lp' hi
      obtain ⟨leaves, hleaves⟩ := hrest.mpr htail
      refine ⟨leafHash R t :: leaves, ?_⟩
      have hfirst : entryOk R loads loadsText keys lp (entry n) = .ok true := h 0 lp rfl
      rw [checkEntries, hfirst, ok_bind, hleaf, ok_bind, hleaves, ok_bind]
      rfl

/-- What `run` asks of the entries and of the heads. -/
theorem run_iff {lps : List Json} {files : Files} {keys logKeys : Keys}
    (hkeys : files.jwks.foldlM loadJwks [] = .ok keys)
    (hlog : loadJwks [] files.logJwks = .ok logKeys) :
    run R loads loadsText lps files false = .ok true ↔ ∃ leaves,
      checkEntries R loads loadsText keys files.entry 1 lps = .ok (true, leaves) ∧
        headsOk R leaves files logKeys = .ok true := by
  unfold run
  rw [hkeys, ok_bind, hlog, ok_bind, bind_ok]
  constructor
  · intro h
    obtain ⟨⟨entriesOk, leaves⟩, hentries, h⟩ := h
    obtain ⟨heads, hheads, h⟩ := bind_ok.mp h
    dsimp only at h
    split at h
    next => cases h
    next =>
      have hverdict := Except.ok.inj h
      rw [Bool.and_eq_true] at hverdict
      obtain ⟨rfl, rfl⟩ := hverdict
      exact ⟨leaves, hentries, hheads⟩
  · intro h
    obtain ⟨leaves, hentries, hheads⟩ := h
    exact ⟨(true, leaves), hentries, bind_ok.mpr ⟨true, hheads, rfl⟩⟩

/-- **What is built passes**, where the entries do that are there. -/
theorem fixture_passes {key : Bytes} {sign : Bytes → Bytes}
    (hsign : ∀ m, ed25519Verify R key m (sign m) = true) {lps : List Json} {ts : List Bytes}
    (hts : lps.mapM (payloadText R) = .ok ts)
    (hint : ∀ m ≤ ts.length, R.intOfStr (decimal m) = some (m : Int)) {older : Nat}
    (hle : older ≤ ts.length) {kid : Str} {baseMs : Int} {jwks : List Json}
    {entry : Nat → Option Json} {files : Files}
    (hfiles : fixture R key sign kid baseMs (ts.map (leafHash R)) older ts.length jwks entry =
      .ok files) {keys : Keys} (hkeys : jwks.foldlM loadJwks [] = .ok keys) :
    run R loads loadsText lps files false = .ok true ↔ ∀ i lp, lps[i]? = some lp →
      entryOk R loads loadsText keys lp (entry (1 + i)) = .ok true := by
  obtain ⟨hheads, hlog, rfl, rfl⟩ := headsOk_fixture hsign hint hle hfiles
  have hlogKeys : loadJwks [] files.logJwks = .ok [(.str kid, key)] := by
    rw [hlog]
    exact logJwks_keys kid key
  rw [run_iff hkeys hlogKeys, ← checkEntries_iff lps hts]
  constructor
  · intro h
    obtain ⟨leaves, hentries, -⟩ := h
    exact ⟨leaves, hentries⟩
  · intro h
    obtain ⟨leaves, hentries⟩ := h
    obtain ⟨ts', hts', rfl⟩ := checkEntries_leaves lps hentries
    obtain rfl := Except.ok.inj (hts.symm.trans hts')
    exact ⟨_, hentries, hheads⟩

/-! ## Logs of two and three leaves -/

/-- A constant hash for the signatures, and a number of the bytes for the tree. -/
def fixtureRuntime : Runtime :=
  { Ed25519Ref.constantRuntime with
    sha256 := fun b => toBytesLittle 32 (b.foldl (fun n x => 257 * n + x.toNat + 1) 0)
    intOfStr := fun s => if s.all isDigit then some (decimalValue s) else none }

theorem length_fixtureRuntime (b : Bytes) : (fixtureRuntime.sha256 b).length = 32 := rfl

theorem fixture_int (m : Nat) : fixtureRuntime.intOfStr (decimal m) = some (m : Int) := by
  have hdigits : (decimal m).all isDigit = true :=
    List.all_eq_true.mpr fun c hc => isDigit_of_mem_decimal hc
  show (if (decimal m).all isDigit then some ((decimalValue (decimal m) : Nat) : Int) else none) = _
  rw [if_pos hdigits, decimalValue_decimal]

/-- The signer whose secret is zeros. -/
def fixtureSign (m : Bytes) : Bytes :=
  match Ed25519Ref.sign fixtureRuntime (List.replicate 32 0) m with
  | .ok sig => sig
  | .error _ => []

theorem exists_fixtureKey :
    ∃ key, ∀ m, ed25519Verify fixtureRuntime key m (fixtureSign m) = true := by
  obtain ⟨key, hkey⟩ : ∃ key, Ed25519Ref.publicKey fixtureRuntime (List.replicate 32 0) =
    .ok key := ⟨_, rfl⟩
  refine ⟨key, fun m => ?_⟩
  obtain ⟨sig, hsig⟩ : ∃ sig, Ed25519Ref.sign fixtureRuntime (List.replicate 32 0) m =
    .ok sig := ⟨_, rfl⟩
  obtain ⟨_, _, _, _, _, h⟩ := sign_spec hkey hsig
  unfold fixtureSign
  rw [hsig]
  exact VendoredEd25519.verify_iff.mpr ⟨_, _, _, h.toEquation⟩

/-- Payloads that count, with their two keys in one order or the other. -/
def samplePayloads (turned : Bool) (n : Nat) : List Json :=
  (List.range n).map fun i : Nat =>
    if turned then object [("typ", text "t"), ("n", .int i)]
    else object [("n", .int i), ("typ", text "t")]

/-- The texts of the payloads of `n` leaves. -/
def sampleTexts (n : Nat) : List Bytes := texts fixtureRuntime (samplePayloads false n)

/-- Whether `make_sth` has a root, and a payload it can write. -/
def sthWritten (R : Runtime) (leaves : List Bytes) (size : Nat) (tMs : Int) : Bool :=
  match buildRoot (nodeHash R) (leaves.take size) with
  | some root => (do utf8 (← jcs R (sthPayload root tMs size)) : Except PyError Bytes).isOk
  | none => false

theorem makeSth_written {sign : Bytes → Bytes} {kid : Str} {leaves : List Bytes} {size : Nat}
    {tMs : Int} (h : sthWritten R leaves size tMs = true) :
    ∃ head, makeSth R sign kid leaves size tMs = .ok head := by
  unfold sthWritten at h
  split at h
  next root hroot =>
    have hbuild : buildTree R (leaves.take size) =
        .ok (root, levels (nodeHash R) (leaves.take size)) := by
      unfold buildTree
      dsimp only
      rw [levels_root, show Merkle.root (nodeHash R) id (leaves.take size) = some root from hroot]
    obtain ⟨pb, hpb⟩ : ∃ pb, (do utf8 (← jcs R (sthPayload root tMs size))) = Except.ok pb := by
      cases hwrite : (do utf8 (← jcs R (sthPayload root tMs size)) : Except PyError Bytes) with
      | ok pb => exact ⟨pb, rfl⟩
      | error e =>
        rw [hwrite] at h
        cases h
    obtain ⟨t, ht, hpb⟩ := bind_ok.mp hpb
    unfold makeSth
    rw [hbuild, ok_bind]
    dsimp only
    rw [ht, ok_bind, hpb, ok_bind]
    exact ⟨_, rfl⟩
  next => cases h

/-- The log of `n` leaves. -/
def sampleLog (key : Bytes) (older n : Nat) : Except PyError Files :=
  fixture fixtureRuntime key fixtureSign (lit "log") 0
    ((sampleTexts n).map (leafHash fixtureRuntime)) older (sampleTexts n).length []
    fun _ => none

/-- Everything that is hashed for the logs of up to three leaves. -/
def sampleInputs : List Bytes :=
  (List.range 4).flatMap fun n => treeInputs fixtureRuntime (sampleTexts n)

/-- A leaf beside its neighbour. -/
def sampleSteps : List (Bytes × Side) := [(leafHash fixtureRuntime [2], .right)]

/-- What evaluation says of these logs. -/
theorem sample_evaluated :
    (∀ turned, ∀ n < 4, (samplePayloads turned n).mapM (payloadText fixtureRuntime) =
      .ok (sampleTexts n)) ∧
    (∀ n < 4, ∀ m ≤ n, (sampleTexts n).take m = sampleTexts m) ∧
    (∀ n < 4, 0 < n → ∀ tMs ∈ [10000, 20000], sthWritten fixtureRuntime
      ((sampleTexts n).map (leafHash fixtureRuntime)) n tMs = true) ∧
    NoCollision fixtureRuntime sampleInputs ∧
    ∀ i ∈ leafInput [1] ::
        proofInputs nodeInput fixtureRuntime.sha256 (leafHash fixtureRuntime [1]) sampleSteps,
      ∀ j ∈ treeInputs fixtureRuntime [[1], [2]],
        fixtureRuntime.sha256 i = fixtureRuntime.sha256 j → i = j := by
  decide +kernel

theorem length_sampleTexts {n : Nat} (hn : n < 4) : (sampleTexts n).length = n := by
  have hlen := (mapM_ok.mp (sample_evaluated.1 false n hn)).length_eq
  rw [← hlen]
  exact (List.length_map _).trans List.length_range

theorem texts_samplePayloads (turned : Bool) {n : Nat} (hn : n < 4) :
    texts fixtureRuntime (samplePayloads turned n) = sampleTexts n := by
  unfold texts
  rw [sample_evaluated.1 turned n hn]

theorem sample_written {n m : Nat} (hn : n < 4) (hm : 0 < m) (hle : m ≤ n) {tMs : Int}
    (hms : tMs ∈ ([10000, 20000] : List Int)) : sthWritten fixtureRuntime
      ((sampleTexts n).map (leafHash fixtureRuntime)) m tMs = true := by
  have hsmall := sample_evaluated.2.2.1 m (hle.trans_lt hn) hm tMs hms
  have htake := sample_evaluated.2.1 n hn m hle
  have hself := sample_evaluated.2.1 m (hle.trans_lt hn) m le_rfl
  unfold sthWritten at hsmall ⊢
  rw [← List.map_take, htake]
  rwa [← List.map_take, hself] at hsmall

/-- The root over `n` leaves, as it is written. -/
def sampleRoot (n : Nat) : Json :=
  match buildRoot (nodeHash fixtureRuntime) ((sampleTexts n).map (leafHash fixtureRuntime)) with
  | some r => .str (hexStr r)
  | none => .null

theorem Head.sample {n size : Nat} {sign : Bytes → Bytes} {kid : Str} {sth : Json}
    {lvls : List (List Bytes)} (hn : n < 4) (hle : size ≤ n)
    (h : Head fixtureRuntime sign kid ((sampleTexts n).map (leafHash fixtureRuntime)) size sth
      lvls) :
    rootOf sth = sampleRoot size ∧ sizeOf sth = .int size := by
  obtain ⟨root, payload, hroot, hpayload, hsize, hroothash⟩ := h.payload
  rw [← List.map_take, sample_evaluated.2.1 n hn size hle] at hroot
  obtain rfl := item_eq_find hpayload
  unfold rootOf sizeOf sampleRoot
  rw [hroot, ← item_eq_find hroothash, ← item_eq_find hsize]
  exact ⟨rfl, rfl⟩

/-- The log is built, with two heads. -/
theorem exists_sampleLog (key : Bytes) {older n : Nat} (hpos : 0 < older) (hle : older ≤ n)
    (hn : n < 4) : ∃ sth1 lvls1 sth2 lvls2,
      Head fixtureRuntime fixtureSign (lit "log") ((sampleTexts n).map (leafHash fixtureRuntime))
        older sth1 lvls1 ∧
      Head fixtureRuntime fixtureSign (lit "log") ((sampleTexts n).map (leafHash fixtureRuntime))
        n sth2 lvls2 ∧
      sampleLog key older n = .ok ⟨[], logJwks (lit "log") key, sth1, sth2,
        (List.range n).map fun i => (decimal (i + 1), builtProof lvls2 i), fun _ => none⟩ := by
  have hlen := length_sampleTexts hn
  obtain ⟨⟨sth1, lvls1⟩, h1⟩ := @makeSth_written fixtureRuntime fixtureSign (lit "log") _ _ _
    (sample_written hn hpos hle (List.mem_cons_self ..))
  obtain ⟨⟨sth2, lvls2⟩, h2⟩ := @makeSth_written fixtureRuntime fixtureSign (lit "log") _ _ _
    (sample_written hn (hpos.trans_le hle) le_rfl (List.mem_cons_of_mem _ (List.mem_cons_self ..)))
  refine ⟨sth1, lvls1, sth2, lvls2, makeSth_head h1, makeSth_head h2, ?_⟩
  unfold sampleLog fixture
  rw [hlen, zero_add, h1, ok_bind]
  dsimp only
  rw [zero_add, h2, ok_bind]
  rfl

/-- The log of `n` leaves, and its run. -/
structure Sample (loads loadsText : Bytes → Except PyError Json) (turned : Bool) (older n : Nat)
    (files : Files) : Prop where
  passes : run fixtureRuntime loads loadsText (samplePayloads turned n) files false = .ok true
  older : rootOf files.sth1 = sampleRoot older
  newer : rootOf files.sth2 = sampleRoot n
  hashed : ∀ i ∈ hashed fixtureRuntime (samplePayloads turned n) files, i ∈ sampleInputs

theorem exists_sample (turned : Bool) {older n : Nat} (hpos : 0 < older) (hle : older ≤ n)
    (hn : n < 4) : ∃ files, Sample loads loadsText turned older n files := by
  obtain ⟨key, hkey⟩ := exists_fixtureKey
  have hlen := length_sampleTexts hn
  obtain ⟨sth1, lvls1, sth2, lvls2, h1, h2, hlog⟩ := exists_sampleLog key hpos hle hn
  obtain ⟨hroot1, hsize1⟩ := h1.sample hn hle
  obtain ⟨hroot2, -⟩ := h2.sample hn le_rfl
  refine ⟨⟨[], logJwks (lit "log") key, sth1, sth2,
    (List.range n).map fun i => (decimal (i + 1), builtProof lvls2 i), fun _ => none⟩, ?_, hroot1,
    hroot2, ?_⟩
  · have hheads := headsOk_fixture hkey (fun m _ => fixture_int m) (by rwa [hlen]) hlog
    refine (run_iff rfl (logJwks_keys _ _)).mpr ?_
    obtain ⟨leaves, hentries⟩ : ∃ leaves, checkEntries fixtureRuntime loads loadsText []
        (fun _ => none) 1 (samplePayloads turned n) = .ok (true, leaves) :=
      (checkEntries_iff _ (sample_evaluated.1 turned n hn)).mpr fun _ _ _ => rfl
    obtain ⟨ts, hts, rfl⟩ := checkEntries_leaves _ hentries
    obtain rfl := Except.ok.inj ((sample_evaluated.1 turned n hn).symm.trans hts)
    exact ⟨_, hentries, hheads.1⟩
  · intro i hi
    rw [hashed_eq (n := (older : Int)) (by dsimp only; rw [hsize1]; rfl),
      texts_samplePayloads turned hn] at hi
    have htake : takeTo (sampleTexts n) (older : Int) = sampleTexts older := by
      rw [takeTo, if_pos (Int.natCast_nonneg older), Int.toNat_natCast]
      exact sample_evaluated.2.1 n hn older hle
    rw [htake] at hi
    rcases List.mem_append.mp hi with hi | hi
    · exact List.mem_flatMap.mpr ⟨n, List.mem_range.mpr hn, hi⟩
    · exact List.mem_flatMap.mpr ⟨older, List.mem_range.mpr (hle.trans_lt hn), hi⟩

/-! ## Runs of these logs -/

/-- A reader of keys that finds none. -/
def readNull (_ : Bytes) : Except PyError Json := .ok .null

theorem sample_noCollision {inputs : List Bytes} (h : ∀ i ∈ inputs, i ∈ sampleInputs) :
    NoCollision fixtureRuntime inputs := by
  intro i hi j hj
  exact sample_evaluated.2.2.2.1 i (h i hi) j (h j hj)

/-- Two leaves, and the proof of the first. -/
theorem applyInclusion_iff_pair :
    applyInclusion fixtureRuntime (leafHash fixtureRuntime [1])
        (.arr (sampleSteps.map stepJson)) =
      .ok (nodeHash fixtureRuntime (leafHash fixtureRuntime [1]) (leafHash fixtureRuntime [2])) ↔
      ∃ i, ([[1], [2]] : List Bytes)[i]? = some [1] ∧
        sampleSteps = inclusionProof (levels (nodeHash fixtureRuntime)
          (([[1], [2]] : List Bytes).map (leafHash fixtureRuntime))) i := by
  have hsteps : stepsOf (.arr (sampleSteps.map stepJson)) = .ok sampleSteps :=
    mapM_ok.mpr (.cons (readStep_stepJson _) .nil)
  exact applyInclusion_iff length_fixtureRuntime rfl hsteps sample_evaluated.2.2.2.2

/-- The log of three leaves, without entries. -/
theorem fixture_passes_three : ∃ files,
    run fixtureRuntime readNull readNull (samplePayloads true 3) files false = .ok true := by
  obtain ⟨key, hkey⟩ := exists_fixtureKey
  have hlen : (sampleTexts 3).length = 3 := length_sampleTexts (by decide)
  obtain ⟨sth1, lvls1, sth2, lvls2, -, -, hlog⟩ := @exists_sampleLog key 2 3 (by decide) (by decide)
    (by decide)
  refine ⟨_, (fixture_passes hkey (sample_evaluated.1 true 3 (by decide)) (fun m _ => fixture_int m)
    (by rw [hlen]; decide) hlog rfl).mpr ?_⟩
  intro _ _ _
  rfl

/-- The members of the payloads in another order, under the same head. -/
theorem run_binds_turned : ∃ files files',
    run fixtureRuntime readNull readNull (samplePayloads true 3) files false = .ok true ∧
    run fixtureRuntime readNull readNull (samplePayloads false 3) files' false = .ok true ∧
    List.Forall₂ (fun lp lp' => ∃ t, payloadText fixtureRuntime lp = .ok t ∧
      payloadText fixtureRuntime lp' = .ok t) (samplePayloads true 3) (samplePayloads false 3) := by
  obtain ⟨files, h⟩ : ∃ files, Sample readNull readNull true 2 3 files :=
    exists_sample true (by decide) (by decide) (by decide)
  obtain ⟨files', h'⟩ : ∃ files, Sample readNull readNull false 2 3 files :=
    exists_sample false (by decide) (by decide) (by decide)
  refine ⟨files, files', h.passes, h'.passes, ?_⟩
  refine run_binds length_fixtureRuntime h.passes h'.passes (h.newer.trans h'.newer.symm) ?_
  refine sample_noCollision fun i hi => ?_
  exact (List.mem_append.mp hi).elim (h.hashed i) (h'.hashed i)

/-- Two leaves, then a third. -/
theorem runs_append_only_three : ∃ files files',
    run fixtureRuntime readNull readNull (samplePayloads true 2) files false = .ok true ∧
    run fixtureRuntime readNull readNull (samplePayloads false 3) files' false = .ok true ∧
    [(⟨samplePayloads true 2, files⟩ : Run), ⟨samplePayloads false 3, files'⟩].Pairwise fun a b =>
      texts fixtureRuntime a.payloads <+: texts fixtureRuntime b.payloads := by
  obtain ⟨files, h⟩ : ∃ files, Sample readNull readNull true 1 2 files :=
    exists_sample true (by decide) (by decide) (by decide)
  obtain ⟨files', h'⟩ : ∃ files, Sample readNull readNull false 2 3 files :=
    exists_sample false (by decide) (by decide) (by decide)
  have hfollows : Follows ⟨samplePayloads true 2, files⟩ ⟨samplePayloads false 3, files'⟩ :=
    h'.older.trans h.newer.symm
  have hpass : ∀ a ∈ [(⟨samplePayloads true 2, files⟩ : Run), ⟨samplePayloads false 3, files'⟩],
      run fixtureRuntime readNull readNull a.payloads a.files false = .ok true := by
    intro a ha
    rcases List.mem_cons.mp ha with rfl | ha
    · exact h.passes
    · obtain rfl := List.mem_singleton.mp ha
      exact h'.passes
  refine ⟨files, files', h.passes, h'.passes, ?_⟩
  refine runs_append_only length_fixtureRuntime hpass (.cons_cons hfollows (.singleton _)) ?_
  refine sample_noCollision fun i hi => ?_
  obtain ⟨a, ha, hi⟩ := List.mem_flatMap.mp hi
  rcases List.mem_cons.mp ha with rfl | ha
  · exact h.hashed i hi
  · obtain rfl := List.mem_singleton.mp ha
    exact h'.hashed i hi

end Preaction.SequenceIntegrity
