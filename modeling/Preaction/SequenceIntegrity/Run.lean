import Preaction.Lib.MerkleInclusion
import Preaction.Py.Base64Url
import Preaction.ScanSubject.Bound
import Preaction.SequenceIntegrity
import Preaction.VendoredEd25519

/-!
# `check_sequence_integrity.py` — the sequence under two tree heads

`run` recomputes two signed tree heads from the payloads of the leaves, applies the inclusion
proofs, and checks the entries that are there. What it says of the payloads is in the heads: they
are the only ones that pass under a head (`run_binds`), and over runs whose heads follow on one
another they only grow (`runs_append_only`).

Mirroring notes:
- `json.loads` of bytes, and of decoded ones, are arguments (`loads`, `loadsText`).
- The files are values; `proofs` is a dict. An entry that does not exist is none.
- `print` is left out, up to the errors of its `%d`.
-/

namespace Preaction.SequenceIntegrity

open Preaction.Py Preaction.Loop Json Merkle
open VendoredEd25519 (ed25519Verify)
open ScanSubject (pyEq_str_left)

variable (R : Runtime)

/-- `b64u_d(s)` -/
def b64uD (s : Json) : Except PyError Bytes :=
  match s with
  | .str s =>
    match urlsafeB64decode (repadded s) with
    | some b => .ok b
    | none => .error .valueError
  | _ => .error .typeError

/-- What is hashed for a leaf. -/
def leafInput (b : Bytes) : Bytes := 0x00 :: b

/-- What is hashed for two joined nodes. -/
def nodeInput (l r : Bytes) : Bytes := 0x01 :: (l ++ r)

/-- `leaf_hash(b)` -/
def leafHash (b : Bytes) : Bytes := R.sha256 (leafInput b)

/-- `node_hash(l, r)` -/
def nodeHash (l r : Bytes) : Bytes := R.sha256 (nodeInput l r)

/-! ## Keys and signatures -/

/-- Keys by their `kid`, the last one set in front. -/
abbrev Keys := List (Json × Bytes)

/-- `keys[kid]`, where `kid in keys`. -/
def Keys.find (keys : Keys) (kid : Json) : Except PyError (Option Bytes) := do
  kid.hashable
  return (List.find? (fun k => k.1.pyEq kid) keys).map (·.2)

/-- The body of the loop of `load_jwks`. -/
def loadKey (keys : Keys) (k : Json) : Except PyError Keys := do
  if !(← k.item (lit "kty")).pyEq (text "OKP") then throw .assertionError
  if !(← k.item (lit "crv")).pyEq (text "Ed25519") then throw .assertionError
  let x ← b64uD (← k.item (lit "x"))
  let kid ← k.item (lit "kid")
  kid.hashable
  return (kid, x) :: keys

/-- `keys.update(load_jwks(path))` -/
def loadJwks (keys : Keys) (jwks : Json) : Except PyError Keys := do
  (← (← jwks.item (lit "keys")).iter).foldlM loadKey keys

/-- A part of the signing input, which `b64u_d` has decoded. -/
def textOf : Json → Str
  | .str s => s
  | _ => []

variable (loads loadsText : Bytes → Except PyError Json)

/-- `ok` of one signature. -/
def signatureOk (issuerKeys : Keys) (payload s : Json) : Except PyError Bool := do
  let prot64 ← s.item (lit "protected")
  let prot ← loads (← b64uD prot64)
  let kid ← prot.get (lit "kid")
  let si := utf8Bytes (textOf prot64 ++ lit "." ++ textOf payload)
  if !(← prot.get (lit "alg")).pyEq (text "EdDSA") then return false
  match ← issuerKeys.find kid with
  | none => return false
  | some key => return ed25519Verify R key si (← b64uD (← s.item (lit "signature")))

/-- `verify_envelope(path, issuer_keys)`, the answer and the hash. -/
def verifyEnvelope (env : Json) (issuerKeys : Keys) : Except PyError (Bool × Str) := do
  let payload ← env.item (lit "payload")
  let pb ← b64uD payload
  let canonOk := (← utf8 (← jcs R (← loadsText pb))) == pb
  let oks ← (← (← env.item (lit "signatures")).iter).mapM (signatureOk R loads issuerKeys payload)
  return (canonOk && oks.all id, R.sha256Hex pb)

/-- `verify_sth(sth, log_keys)` -/
def verifySth (sth : Json) (logKeys : Keys) : Except PyError Bool := do
  let pb ← utf8 (← jcs R (← sth.item (lit "payload")))
  match ← logKeys.find (← sth.item (lit "kid")) with
  | none => return false
  | some key => return ed25519Verify R key pb (← b64uD (← sth.item (lit "signature")))

/-! ## Roots and proofs -/

/-- `build_root(leaves).hex()` -/
def rootHex (leaves : List Bytes) : Except PyError Str :=
  match buildRoot (nodeHash R) leaves with
  | some r => .ok (hexStr r)
  | none => .error .indexError

/-- A step of a proof. -/
def readStep (step : Json) : Except PyError (Bytes × Side) := do
  let sib ← bytesFromHex (← step.item (lit "sibling"))
  return (sib, if (← step.item (lit "position")).pyEq (text "right") then .right else .left)

/-- `apply_inclusion(leaf, proof)` -/
def applyInclusion (leaf : Bytes) (proof : Json) : Except PyError Bytes := do
  return applyProof (nodeHash R) leaf (← (← proof.iter).mapM readStep)

/-- An integer to cut or to index with. -/
def indexOf : Json → Except PyError Int
  | .int n => .ok n
  | .bool b => .ok (if b then 1 else 0)
  | _ => .error .typeError

/-- `xs[:size]` -/
def takeTo {β : Type} (xs : List β) (size : Int) : List β :=
  if 0 ≤ size then xs.take size.toNat else xs.take (xs.length - size.natAbs)

/-- `xs[i]` -/
def nthOf {β : Type} (xs : List β) (i : Int) : Except PyError β :=
  let found := if 0 ≤ i then xs[i.toNat]?
    else if i.natAbs ≤ xs.length then xs[xs.length - i.natAbs]? else none
  match found with
  | some x => .ok x
  | none => .error .indexError

/-- `"%d" % x` -/
def formatD : Json → Except PyError Unit
  | .float .nan => .error .valueError
  | .float (.inf _) => .error .overflowError
  | .float _ | .int _ | .bool _ => .ok ()
  | _ => .error .typeError

/-- `r1_ok` -/
def olderOk (leaves : List Bytes) (payload size : Json) : Except PyError Bool := do
  if !(← pyGe (.int leaves.length) size) then return false
  let root ← rootHex R (takeTo leaves (← indexOf size))
  return (Json.str root).pyEq (← payload.item (lit "root_hash"))

/-- `r2_ok` -/
def newerOk (leaves : List Bytes) (payload size : Json) : Except PyError Bool := do
  if !(Json.int leaves.length).pyEq size then return false
  let root ← rootHex R leaves
  return (Json.str root).pyEq (← payload.item (lit "root_hash"))

/-- `got` of the proof for `i`. -/
def inclusionOk (leaves : List Bytes) (sth : Json) (i : Int) (proof : Json) :
    Except PyError Bool := do
  if !(i < leaves.length) then return false
  let root ← applyInclusion R (← nthOf leaves i) proof
  return (Json.str (hexStr root)).pyEq (← (← sth.item (lit "payload")).item (lit "root_hash"))

/-- `sorted(proofs, key=int)`, each key as the index it stands for. -/
def sortedProofs (proofs : List (Str × Json)) : Except PyError (List (Int × Json)) := do
  let indexed ← proofs.mapM fun kv => do return ((← R.int (.str kv.1)) - 1, kv.2)
  return indexed.insertionSort fun a b => a.1 ≤ b.1

/-! ## The run -/

/-- The files that `run` reads, and the entries by their number. -/
structure Files where
  jwks : List Json
  logJwks : Json
  sth1 : Json
  sth2 : Json
  proofs : List (Str × Json)
  entry : Nat → Option Json

/-- Whether an entry verifies, and is what its leaf commits to; true where there is none. -/
def entryOk (issuerKeys : Keys) (lp : Json) : Option Json → Except PyError Bool
  | none => .ok true
  | some env => do
    let (envOk, envHash) ← verifyEnvelope R loads loadsText env issuerKeys
    let commits := (← lp.item (lit "envelope_hash")).pyEq (.str (lit "sha256-" ++ envHash))
    return envOk && commits

/-- The loop over the leaves, from number `n` on. -/
def checkEntries (issuerKeys : Keys) (entry : Nat → Option Json) :
    Nat → List Json → Except PyError (Bool × List Bytes)
  | _, [] => .ok (true, [])
  | n, lp :: lps => do
    let ok ← entryOk R loads loadsText issuerKeys lp (entry n)
    let leaf ← payloadLeaf R lp
    let (rest, leaves) ← checkEntries issuerKeys entry (n + 1) lps
    return (ok && rest, leaf :: leaves)

/-- What `run` says of the heads and the proofs. -/
def headsOk (leaves : List Bytes) (files : Files) (logKeys : Keys) : Except PyError Bool := do
  let sig1 ← verifySth R files.sth1 logKeys
  let sig2 ← verifySth R files.sth2 logKeys
  let payload1 ← files.sth1.item (lit "payload")
  let size1 ← payload1.item (lit "tree_size")
  let payload2 ← files.sth2.item (lit "payload")
  let size2 ← payload2.item (lit "tree_size")
  let r1 ← olderOk R leaves payload1 size1
  let r2 ← newerOk R leaves payload2 size2
  formatD size1
  formatD size2
  let included ← (← sortedProofs R files.proofs).mapM fun ip =>
    inclusionOk R leaves files.sth2 ip.1 ip.2
  return sig1 && sig2 && r1 && r2 && included.all id

/-- `run(leaf_payloads, entries_dir, expect_fail=expect_fail)` -/
def run (leafPayloads : List Json) (files : Files) (expectFail : Bool) : Except PyError Bool := do
  let issuerKeys ← files.jwks.foldlM loadJwks []
  let logKeys ← loadJwks [] files.logJwks
  let (entriesOk, leaves) ← checkEntries R loads loadsText issuerKeys files.entry 1 leafPayloads
  let verdict := (← headsOk R leaves files logKeys) && entriesOk
  if verdict = expectFail then throw .assertionError
  return verdict

/-! ## What passes -/

/-- `jcs(lp).encode()` -/
def payloadText (lp : Json) : Except PyError Bytes := do utf8 (← jcs R lp)

/-- The texts of the leaves; none where one has no text. -/
def texts (lps : List Json) : List Bytes :=
  match lps.mapM (payloadText R) with
  | .ok ts => ts
  | .error _ => []

/-- `sth["payload"]["root_hash"]` -/
def rootOf (sth : Json) : Json := (sth.find (lit "payload")).find (lit "root_hash")

/-- `sth["payload"]["tree_size"]` -/
def sizeOf (sth : Json) : Json := (sth.find (lit "payload")).find (lit "tree_size")

/-- The two roots of a run that passes. -/
structure Recomputed (leaves : List Bytes) (files : Files) : Prop where
  newer : ∃ r, buildRoot (nodeHash R) leaves = some r ∧ rootOf files.sth2 = .str (hexStr r)
  older : ∃ n r, indexOf (sizeOf files.sth1) = .ok n ∧
    buildRoot (nodeHash R) (takeTo leaves n) = some r ∧ rootOf files.sth1 = .str (hexStr r)

variable {R loads loadsText}

theorem rootHex_ok {leaves : List Bytes} {t : Str} (h : rootHex R leaves = .ok t) :
    ∃ r, buildRoot (nodeHash R) leaves = some r ∧ t = hexStr r := by
  unfold rootHex at h
  split at h
  next r hr => exact ⟨r, hr, (Except.ok.inj h).symm⟩
  next => cases h

theorem olderOk_true {leaves : List Bytes} {payload size : Json}
    (h : olderOk R leaves payload size = .ok true) : ∃ n r, indexOf size = .ok n ∧
      buildRoot (nodeHash R) (takeTo leaves n) = some r ∧
        payload.find (lit "root_hash") = .str (hexStr r) := by
  unfold olderOk at h
  obtain ⟨ge, -, h⟩ := bind_ok.mp h
  cases ge with
  | false => cases h
  | true =>
    obtain ⟨n, hn, h⟩ := bind_ok.mp h
    obtain ⟨t, ht, h⟩ := bind_ok.mp h
    obtain ⟨root, hroot, h⟩ := bind_ok.mp h
    obtain ⟨r, hr, rfl⟩ := rootHex_ok ht
    obtain rfl := item_eq_find hroot
    exact ⟨n, r, hn, hr, pyEq_str_left.mp (Except.ok.inj h)⟩

theorem newerOk_true {leaves : List Bytes} {payload size : Json}
    (h : newerOk R leaves payload size = .ok true) : ∃ r,
      buildRoot (nodeHash R) leaves = some r ∧
        payload.find (lit "root_hash") = .str (hexStr r) := by
  unfold newerOk at h
  split at h
  next => cases h
  next =>
    obtain ⟨t, ht, h⟩ := bind_ok.mp h
    obtain ⟨root, hroot, h⟩ := bind_ok.mp h
    obtain ⟨r, hr, rfl⟩ := rootHex_ok ht
    obtain rfl := item_eq_find hroot
    exact ⟨r, hr, pyEq_str_left.mp (Except.ok.inj h)⟩

theorem headsOk_true {leaves : List Bytes} {files : Files} {logKeys : Keys}
    (h : headsOk R leaves files logKeys = .ok true) : Recomputed R leaves files := by
  unfold headsOk at h
  obtain ⟨sig1, -, h⟩ := bind_ok.mp h
  obtain ⟨sig2, -, h⟩ := bind_ok.mp h
  obtain ⟨payload1, hp1, h⟩ := bind_ok.mp h
  obtain ⟨size1, hs1, h⟩ := bind_ok.mp h
  obtain ⟨payload2, hp2, h⟩ := bind_ok.mp h
  obtain ⟨size2, hs2, h⟩ := bind_ok.mp h
  obtain ⟨r1, hr1, h⟩ := bind_ok.mp h
  obtain ⟨r2, hr2, h⟩ := bind_ok.mp h
  obtain ⟨_, -, h⟩ := bind_ok.mp h
  obtain ⟨_, -, h⟩ := bind_ok.mp h
  obtain ⟨proofs, -, h⟩ := bind_ok.mp h
  obtain ⟨included, -, h⟩ := bind_ok.mp h
  have hall := Except.ok.inj h
  simp only [Bool.and_eq_true] at hall
  obtain ⟨⟨⟨⟨-, -⟩, rfl⟩, rfl⟩, -⟩ := hall
  obtain rfl := item_eq_find hp1
  obtain rfl := item_eq_find hp2
  obtain rfl := item_eq_find hs1
  exact ⟨newerOk_true hr2, olderOk_true hr1⟩

/-- The leaves are those of the texts, whatever the entries are. -/
theorem checkEntries_leaves {issuerKeys : Keys} {entry : Nat → Option Json} (lps : List Json) :
    ∀ {n : Nat} {ok : Bool} {leaves : List Bytes},
      checkEntries R loads loadsText issuerKeys entry n lps = .ok (ok, leaves) →
      ∃ ts, lps.mapM (payloadText R) = .ok ts ∧ leaves = ts.map (leafHash R) := by
  induction lps with
  | nil =>
    intro n ok leaves h
    obtain ⟨-, rfl⟩ := Prod.mk.inj (Except.ok.inj h)
    exact ⟨[], rfl, rfl⟩
  | cons lp lps ih =>
    intro n ok leaves h
    rw [checkEntries] at h
    obtain ⟨okHere, -, h⟩ := bind_ok.mp h
    obtain ⟨leaf, hleaf, h⟩ := bind_ok.mp h
    obtain ⟨⟨rest, leaves'⟩, hrest, h⟩ := bind_ok.mp h
    obtain ⟨-, rfl⟩ := Prod.mk.inj (Except.ok.inj h)
    obtain ⟨ts, hts, rfl⟩ := ih hrest
    obtain ⟨t, ht, h⟩ := bind_ok.mp hleaf
    obtain ⟨b, hb, h⟩ := bind_ok.mp h
    obtain rfl := Except.ok.inj h
    refine ⟨b :: ts, mapM_ok.mpr (.cons ?_ (mapM_ok.mp hts)), rfl⟩
    exact bind_ok.mpr ⟨t, ht, hb⟩

theorem run_passes {lps : List Json} {files : Files}
    (h : run R loads loadsText lps files false = .ok true) :
    lps.mapM (payloadText R) = .ok (texts R lps) ∧
      Recomputed R ((texts R lps).map (leafHash R)) files := by
  unfold run at h
  obtain ⟨issuerKeys, -, h⟩ := bind_ok.mp h
  obtain ⟨logKeys, -, h⟩ := bind_ok.mp h
  obtain ⟨⟨entriesOk, leaves⟩, hentries, h⟩ := bind_ok.mp h
  obtain ⟨heads, hheads, h⟩ := bind_ok.mp h
  dsimp only at h
  split at h
  next => cases h
  next =>
    have hverdict := Except.ok.inj h
    rw [Bool.and_eq_true] at hverdict
    obtain ⟨rfl, -⟩ := hverdict
    obtain ⟨ts, hts, rfl⟩ := checkEntries_leaves lps hentries
    have htexts : texts R lps = ts := by
      unfold texts
      rw [hts]
    rw [htexts]
    exact ⟨hts, headsOk_true hheads⟩

/-! ## What the heads bind -/

/-- Everything that is hashed for the root over these texts. -/
def treeInputs (R : Runtime) (ts : List Bytes) : List Bytes :=
  Merkle.inputs leafInput nodeInput R.sha256 id ts

/-- No two of these are hashed to one value. -/
def NoCollision (R : Runtime) (inputs : List Bytes) : Prop :=
  ∀ i ∈ inputs, ∀ j ∈ inputs, R.sha256 i = R.sha256 j → i = j

instance decidableNoCollision (R : Runtime) (inputs : List Bytes) :
    Decidable (NoCollision R inputs) :=
  inferInstanceAs (Decidable (∀ i ∈ inputs, ∀ j ∈ inputs, R.sha256 i = R.sha256 j → i = j))

theorem leafInput_ne (b l r : Bytes) : leafInput b ≠ nodeInput l r := by
  intro h
  exact absurd (List.cons.inj h).1 (by decide)

/-- One value of a known length on the same side tells two joined nodes apart. -/
theorem nodeInput_inj {x y x' y' : Bytes}
    (hlen : (x.length = 32 ∧ x'.length = 32) ∨ (y.length = 32 ∧ y'.length = 32))
    (h : nodeInput x y = nodeInput x' y') : x = x' ∧ y = y' := by
  have happ := (List.cons.inj h).2
  rcases hlen with ⟨hx, hx'⟩ | ⟨hy, hy'⟩
  · exact List.append_inj happ (hx.trans hx'.symm)
  · exact List.append_inj' happ (hy.trans hy'.symm)

/-- Two lists of texts with one root are one. -/
theorem eq_of_root (hlen : ∀ b, (R.sha256 b).length = 32) {ts us : List Bytes} {r : Bytes}
    (hno : ∀ i ∈ treeInputs R ts, ∀ j ∈ treeInputs R us, R.sha256 i = R.sha256 j → i = j)
    (ht : buildRoot (nodeHash R) (ts.map (leafHash R)) = some r)
    (hu : buildRoot (nodeHash R) (us.map (leafHash R)) = some r) : ts = us := by
  obtain ⟨t, u, htree, hutree, hleaves⟩ := leafInputs_eq_of_root_eq leafInput nodeInput R.sha256
    id id (fun _ => rfl) hlen (fun x y x' y' hx hx' => nodeInput_inj (Or.inl ⟨hx, hx'⟩))
    (fun _ _ _ _ a _ x y _ => leafInput_ne a x y) hno ht hu
  rw [leaves_promote htree, leaves_promote hutree] at hleaves
  exact List.map_injective_iff.mpr (fun a b h => (List.cons.inj h).2) hleaves

theorem takeTo_map {β γ : Type} (f : β → γ) (xs : List β) (n : Int) :
    takeTo (xs.map f) n = (takeTo xs n).map f := by
  unfold takeTo
  split
  · exact List.map_take.symm
  · rw [List.length_map]
    exact List.map_take.symm

theorem takeTo_prefix {β : Type} (xs : List β) (n : Int) : takeTo xs n <+: xs := by
  unfold takeTo
  split
  · exact List.take_prefix _ _
  · exact List.take_prefix _ _

/-- What is hashed in a run. -/
def hashed (R : Runtime) (lps : List Json) (files : Files) : List Bytes :=
  treeInputs R (texts R lps) ++
    match indexOf (sizeOf files.sth1) with
    | .ok n => treeInputs R (takeTo (texts R lps) n)
    | .error _ => []

theorem hashed_eq {lps : List Json} {files : Files} {n : Int}
    (hn : indexOf (sizeOf files.sth1) = .ok n) : hashed R lps files =
      treeInputs R (texts R lps) ++ treeInputs R (takeTo (texts R lps) n) := by
  unfold hashed
  rw [hn]

/-- **One head, one sequence**: of all payloads, those pass under a head that were recomputed for
it, in that order. -/
theorem run_binds (hlen : ∀ b, (R.sha256 b).length = 32) {lps lps' : List Json}
    {files files' : Files} (h : run R loads loadsText lps files false = .ok true)
    (h' : run R loads loadsText lps' files' false = .ok true)
    (hroot : rootOf files.sth2 = rootOf files'.sth2)
    (hno : NoCollision R (hashed R lps files ++ hashed R lps' files')) :
    List.Forall₂ (fun lp lp' => ∃ t, payloadText R lp = .ok t ∧ payloadText R lp' = .ok t)
      lps lps' := by
  obtain ⟨hts, heads⟩ := run_passes h
  obtain ⟨hts', heads'⟩ := run_passes h'
  obtain ⟨r, hr, heq⟩ := heads.newer
  obtain ⟨r', hr', heq'⟩ := heads'.newer
  rw [heq, heq'] at hroot
  obtain rfl := hexStr_injective (Json.str.inj hroot)
  have htexts : texts R lps = texts R lps' := by
    refine eq_of_root hlen (fun i hi j hj => hno i ?_ j ?_) hr hr'
    · exact List.mem_append_left _ (List.mem_append_left _ hi)
    · exact List.mem_append_right _ (List.mem_append_left _ hj)
  have hleft := mapM_ok.mp hts
  have hright := mapM_ok.mp hts'
  rw [← htexts] at hright
  generalize texts R lps = ts at hleft hright
  clear * - hleft hright
  induction hleft generalizing lps' with
  | nil =>
    cases hright
    exact .nil
  | cons hlp _ ih =>
    cases hright with
    | cons hlp' hright => exact .cons ⟨_, hlp, hlp'⟩ (ih hright)

/-- A run: the payloads and the files. -/
structure Run where
  payloads : List Json
  files : Files

/-- The older head of a run is the newer head of the run before it. -/
def Follows (a b : Run) : Prop := rootOf b.files.sth1 = rootOf a.files.sth2

/-- The next run only adds payloads. -/
theorem prefix_of_follows (hlen : ∀ b, (R.sha256 b).length = 32) {a b : Run}
    (ha : run R loads loadsText a.payloads a.files false = .ok true)
    (hb : run R loads loadsText b.payloads b.files false = .ok true) (hfollows : Follows a b)
    (hno : ∀ i ∈ hashed R a.payloads a.files, ∀ j ∈ hashed R b.payloads b.files,
      R.sha256 i = R.sha256 j → i = j) :
    texts R a.payloads <+: texts R b.payloads := by
  obtain ⟨-, heads⟩ := run_passes ha
  obtain ⟨-, heads'⟩ := run_passes hb
  obtain ⟨r, hr, heq⟩ := heads.newer
  obtain ⟨n, r', hn, hr', heq'⟩ := heads'.older
  rw [Follows, heq, heq'] at hfollows
  obtain rfl := hexStr_injective (Json.str.inj hfollows)
  rw [takeTo_map] at hr'
  have htexts : texts R a.payloads = takeTo (texts R b.payloads) n := by
    refine eq_of_root hlen (fun i hi j hj => hno i ?_ j ?_) hr hr'
    · exact List.mem_append_left _ hi
    · rw [hashed_eq hn]
      exact List.mem_append_right _ hj
  rw [htexts]
  exact takeTo_prefix _ _

/-- **The log is append-only** over any number of runs whose heads follow on one another. -/
theorem runs_append_only (hlen : ∀ b, (R.sha256 b).length = 32) {runs : List Run}
    (hpass : ∀ a ∈ runs, run R loads loadsText a.payloads a.files false = .ok true)
    (hfollows : runs.IsChain Follows)
    (hno : NoCollision R (runs.flatMap fun a => hashed R a.payloads a.files)) :
    runs.Pairwise fun a b => texts R a.payloads <+: texts R b.payloads := by
  induction runs with
  | nil => exact .nil
  | cons a runs ih =>
    have hmem {b : Run} (hb : b ∈ a :: runs) {i : Bytes} (hi : i ∈ hashed R b.payloads b.files) :
        i ∈ (a :: runs).flatMap fun a => hashed R a.payloads a.files :=
      List.mem_flatMap.mpr ⟨b, hb, hi⟩
    have hrest := ih (fun b hb => hpass b (List.mem_cons_of_mem _ hb)) hfollows.tail
      fun i hi j hj => hno i (List.mem_append_right _ hi) j (List.mem_append_right _ hj)
    refine .cons ?_ hrest
    intro b hb
    cases runs with
    | nil => cases hb
    | cons c runs =>
      have hc : c ∈ a :: c :: runs := List.mem_cons_of_mem _ (List.mem_cons_self ..)
      have hfirst := prefix_of_follows hlen (hpass a (List.mem_cons_self ..)) (hpass c hc)
        (List.isChain_cons_cons.mp hfollows).1
        fun i hi j hj => hno i (hmem (List.mem_cons_self ..) hi) j (hmem hc hj)
      rcases List.mem_cons.mp hb with rfl | hb
      · exact hfirst
      · exact hfirst.trans (List.rel_of_pairwise_cons hrest hb)

end Preaction.SequenceIntegrity
