import Preaction.Lib.Walk
import Preaction.Lib.While
import Preaction.Py.Date
import Preaction.Py.Runtime

/-!
# `tsa_sig.py` — the certificate chain of the time-stamp authority

`_chain` walks from the signer's certificate to a trust anchor. At every certificate
it goes on with the first of pool and anchors that issued it and never comes
back to try another one, so it says whether a chain exists only where its choices
make no difference.

Mirroring notes:
- A certificate is what the code reads of it; `verify_directly_issued_by` is a
  relation. It raises nothing but the three errors that the code takes for a no.
- The loop has no bound in the source. Here it has one more round than there are
  certificates, and `chainAux_eq` says that more change nothing. `chainRound` is its
  body alone, and `chain_run` says that the loop over it ends.
-/

namespace Preaction.TsaSig

open Preaction.Py

/-- What is read of a certificate; the names are of any type. -/
structure Cert (N : Type) where
  /-- `public_bytes(DER)` -/
  der : Bytes
  subject : N
  issuer : N
  /-- The DER of the SubjectPublicKeyInfo. -/
  spki : Bytes
  notBefore : DateTime
  notAfter : DateTime
  /-- The `ca` of the BasicConstraints, where the extension is there. -/
  ca : Option Bool
  deriving DecidableEq

section Model

variable {N : Type} [DecidableEq N] (R : Runtime) (issuedBy : Cert N → Cert N → Bool)
  (pool anchors : List (Cert N)) (t : DateTime)

/-- `_same_cert(a, b)` -/
def sameCert (a b : Cert N) : Bool := a.der == b.der

/-- `_is_anchor(c, anchors)`: a trust anchor is a name and a key. -/
def isAnchor (c : Cert N) : Bool := anchors.any fun a => c.subject == a.subject && c.spki == a.spki

/-- `cur.fingerprint(SHA256)` -/
def fingerprint (c : Cert N) : Bytes := R.sha256 c.der

/-- `_valid_at(cert, t)` -/
def validAt (c : Cert N) : Bool :=
  c.notBefore.timegm ≤ t.timegm && t.timegm ≤ c.notAfter.timegm

/-- `_is_ca(cert)` -/
def isCa (c : Cert N) : Bool := c.ca.getD false

/-- The certificates with the name of the issuer, other than the certificate itself. -/
def issuers (cur : Cert N) : List (Cert N) :=
  (pool ++ anchors).filter fun c => c.subject == cur.issuer && !sameCert c cur

/-- `nxt`: the first of them that issued the certificate. -/
def firstIssuer (cur : Cert N) : Option (Cert N) := (issuers pool anchors cur).find? (issuedBy cur)

/-- What is appended for an issuer. -/
def issuerFailures (nxt : Cert N) : List Str :=
  if isAnchor anchors nxt then []
  else (if validAt t nxt then [] else [lit "issuer not valid at genTime"]) ++
    if isCa nxt then [] else [lit "issuer is not a CA"]

/-- The loop of `_chain`: the answer and the failures. -/
def chainAux : Nat → List Bytes → Cert N → List Str → Bool × List Str
  | 0, _, _, failures => (false, failures)
  | fuel + 1, seen, cur, failures =>
    if isAnchor anchors cur then (true, failures)
    else if fingerprint R cur ∈ seen then (false, failures)
    else match firstIssuer issuedBy pool anchors cur with
      | none => (false, failures)
      | some nxt => chainAux fuel (fingerprint R cur :: seen) nxt
          (failures ++ issuerFailures anchors t nxt)

/-- `_chain(signer, pool, anchors, t, failures)` -/
def chain (signer : Cert N) (failures : List Str) : Bool × List Str :=
  chainAux R issuedBy pool anchors t (pool.length + anchors.length + 2) [] signer failures

/-- A certificate of pool or anchors issued another one. -/
def Issued (cur c : Cert N) : Prop :=
  c ∈ pool ++ anchors ∧ c.subject = cur.issuer ∧ c.der ≠ cur.der ∧ issuedBy cur c = true

/-- Certificates that issued each the one before lead to a trust anchor. -/
def ReachesAnchor (signer : Cert N) : Prop :=
  Walk.Reaches (isAnchor anchors) (Issued issuedBy pool anchors) signer

/-- Following the first issuers from the signer never goes from a certificate with
a chain to an anchor to one without, nor comes to one twice. -/
def NoWrongTurn (signer : Cert N) : Prop :=
  Walk.NoWrongTurn (firstIssuer issuedBy pool anchors) (isAnchor anchors) (fingerprint R)
    (Issued issuedBy pool anchors) signer

end Model

variable {N : Type} [DecidableEq N] {R : Runtime} {issuedBy : Cert N → Cert N → Bool}
  {pool anchors : List (Cert N)} {t : DateTime}

theorem mem_issuers {cur c : Cert N} : c ∈ issuers pool anchors cur ↔
    c ∈ pool ++ anchors ∧ c.subject = cur.issuer ∧ c.der ≠ cur.der := by
  rw [issuers, List.mem_filter]
  simp [sameCert]

theorem issued_of_firstIssuer {cur c : Cert N}
    (h : firstIssuer issuedBy pool anchors cur = some c) : Issued issuedBy pool anchors cur c := by
  obtain ⟨hmem, hname, hder⟩ := mem_issuers.mp (List.mem_of_find?_eq_some h)
  exact ⟨hmem, hname, hder, List.find?_some h⟩

/-- The fingerprints of all certificates. -/
def fingerprints (R : Runtime) (pool anchors : List (Cert N)) (signer : Cert N) : List Bytes :=
  (signer :: (pool ++ anchors)).map (fingerprint R)

theorem fingerprint_firstIssuer (signer cur c : Cert N)
    (h : firstIssuer issuedBy pool anchors cur = some c) :
    fingerprint R c ∈ fingerprints R pool anchors signer :=
  List.mem_map_of_mem (List.mem_cons_of_mem _ (issued_of_firstIssuer h).1)

omit [DecidableEq N] in
theorem length_fingerprints (signer : Cert N) :
    (fingerprints R pool anchors signer).length = pool.length + anchors.length + 1 := by
  simp [fingerprints]

/-- The answer is that of the walk along the first issuers. -/
theorem chainAux_fst (fuel : Nat) (seen : List Bytes) (cur : Cert N) (failures : List Str) :
    (chainAux R issuedBy pool anchors t fuel seen cur failures).1 =
      Walk.greedy (firstIssuer issuedBy pool anchors) (isAnchor anchors) (fingerprint R)
        fuel seen cur := by
  induction fuel generalizing seen cur failures with
  | zero => rfl
  | succ fuel ih =>
    rw [chainAux, Walk.greedy]
    split
    · rfl
    · split
      · rfl
      · cases firstIssuer issuedBy pool anchors cur with
        | none => rfl
        | some nxt => exact ih _ _ _

/-- More rounds than there are certificates change nothing. -/
theorem chainAux_succ {signer cur : Cert N} {seen : List Bytes}
    (h : Walk.Visits (firstIssuer issuedBy pool anchors) (isAnchor anchors) (fingerprint R)
      signer seen cur) {fuel : Nat} (hfuel : pool.length + anchors.length + 1 < fuel + seen.length)
    (failures : List Str) : chainAux R issuedBy pool anchors t (fuel + 1) seen cur failures =
      chainAux R issuedBy pool anchors t fuel seen cur failures := by
  induction fuel generalizing seen cur failures with
  | zero =>
    have hlen := h.length_le (fingerprint_firstIssuer signer) List.mem_cons_self
    rw [length_fingerprints] at hlen
    omega
  | succ fuel ih =>
    rw [chainAux, chainAux]
    split
    · rfl
    · next hgoal =>
      split
      · rfl
      · next hkey =>
        cases hfirst : firstIssuer issuedBy pool anchors cur with
        | none => rfl
        | some nxt =>
          refine ih (h.step (by simpa using hgoal) hkey hfirst) ?_ _
          rw [List.length_cons]
          omega

/-- The loop ends by itself: no bound above the number of certificates is felt. -/
theorem chainAux_eq (signer : Cert N) (failures : List Str) (extra : Nat) :
    chainAux R issuedBy pool anchors t (pool.length + anchors.length + 2 + extra) [] signer
        failures = chain R issuedBy pool anchors t signer failures := by
  induction extra with
  | zero => rfl
  | succ extra ih =>
    rw [← Nat.add_assoc, chainAux_succ .start (by simp only [List.length_nil]; omega), ih]

/-- Whether an anchor is reached does not depend on the order of the pool. -/
theorem reachesAnchor_perm {pool' : List (Cert N)} (h : pool'.Perm pool) {signer : Cert N} :
    ReachesAnchor issuedBy pool' anchors signer ↔ ReachesAnchor issuedBy pool anchors signer := by
  have hissued : Issued issuedBy pool' anchors = Issued issuedBy pool anchors := by
    funext cur c
    simp only [Issued, List.mem_append, h.mem_iff]
  rw [ReachesAnchor, ReachesAnchor, hissued]

/-- The answer is whether an anchor is reached exactly when the walk makes no
wrong turn. -/
theorem chain_iff_reachesAnchor (signer : Cert N) (failures : List Str) :
    ((chain R issuedBy pool anchors t signer failures).1 = true ↔
      ReachesAnchor issuedBy pool anchors signer) ↔ NoWrongTurn R issuedBy pool anchors signer := by
  rw [chain, chainAux_fst]
  refine Walk.greedy_iff_reaches (fingerprint_firstIssuer signer)
    (fun _ _ => issued_of_firstIssuer) List.mem_cons_self ?_
  rw [length_fingerprints]
  omega

/-- The answer is whether an anchor is reached, and the same in every order of the
pool, exactly when the walk makes no wrong turn in any of these orders. -/
theorem chain_answers_iff (R : Runtime) (issuedBy : Cert N → Cert N → Bool)
    (pool anchors : List (Cert N)) (t : DateTime) (signer : Cert N) (failures : List Str) :
    (((chain R issuedBy pool anchors t signer failures).1 = true ↔
        ReachesAnchor issuedBy pool anchors signer) ↔
      NoWrongTurn R issuedBy pool anchors signer) ∧
    ((((chain R issuedBy pool anchors t signer failures).1 = true ↔
        ReachesAnchor issuedBy pool anchors signer) ∧
      ∀ pool', pool'.Perm pool → (chain R issuedBy pool' anchors t signer failures).1 =
        (chain R issuedBy pool anchors t signer failures).1) ↔
      ∀ pool', pool'.Perm pool → NoWrongTurn R issuedBy pool' anchors signer) := by
  refine ⟨chain_iff_reachesAnchor signer failures, fun ⟨hiff, hsame⟩ pool' hperm => ?_,
    fun hturn => ?_⟩
  · rw [← chain_iff_reachesAnchor (t := t) signer failures, hsame pool' hperm, hiff,
      reachesAnchor_perm hperm]
  · have hall : ∀ pool', pool'.Perm pool →
        ((chain R issuedBy pool' anchors t signer failures).1 = true ↔
          ReachesAnchor issuedBy pool anchors signer) := by
      intro pool' hperm
      rw [← reachesAnchor_perm hperm]
      exact (chain_iff_reachesAnchor signer failures).mpr (hturn pool' hperm)
    refine ⟨hall pool (List.Perm.refl pool), fun pool' hperm => ?_⟩
    exact Bool.eq_iff_iff.mpr ((hall pool' hperm).trans (hall pool (List.Perm.refl pool)).symm)

/-! ## The run of the loop -/

/-- The variables of the loop. -/
structure ChainState (N : Type) where
  cur : Cert N
  seen : List Bytes
  failures : List Str

/-- The body of the loop of `_chain`. -/
def chainRound (R : Runtime) (issuedBy : Cert N → Cert N → Bool) (pool anchors : List (Cert N))
    (t : DateTime) (s : ChainState N) : While.Round (ChainState N) (Bool × List Str) :=
  if isAnchor anchors s.cur then .done (true, s.failures)
  else if fingerprint R s.cur ∈ s.seen then .done (false, s.failures)
  else match firstIssuer issuedBy pool anchors s.cur with
    | none => .done (false, s.failures)
    | some nxt => .next ⟨nxt, fingerprint R s.cur :: s.seen,
        s.failures ++ issuerFailures anchors t nxt⟩

/-- A run of the loop from the variables before it. -/
def ChainRun (R : Runtime) (issuedBy : Cert N → Cert N → Bool) (pool anchors : List (Cert N))
    (t : DateTime) (signer : Cert N) (failures : List Str) (states : List (ChainState N))
    (result : Bool × List Str) : Prop :=
  While.Ends (chainRound R issuedBy pool anchors t) ⟨signer, [], failures⟩ states result

/-- A round that goes on has found the first issuer of a certificate that is no anchor
and was not met before. -/
theorem chainRound_next {s s' : ChainState N} :
    chainRound R issuedBy pool anchors t s = .next s' ↔
      isAnchor anchors s.cur = false ∧ fingerprint R s.cur ∉ s.seen ∧
        ∃ nxt, firstIssuer issuedBy pool anchors s.cur = some nxt ∧
          s' = ⟨nxt, fingerprint R s.cur :: s.seen, s.failures ++ issuerFailures anchors t nxt⟩ := by
  unfold chainRound
  by_cases hanchor : isAnchor anchors s.cur = true
  · simp [hanchor]
  by_cases hseen : fingerprint R s.cur ∈ s.seen
  · simp [hanchor, hseen]
  rw [if_neg hanchor, if_neg hseen]
  cases firstIssuer issuedBy pool anchors s.cur with
  | none => simp
  | some nxt => simp [hanchor, hseen, eq_comm]

/-- A round that leaves the loop with true is at an anchor. -/
theorem chainRound_done {s : ChainState N} {answer : Bool} {failures : List Str}
    (h : chainRound R issuedBy pool anchors t s = .done (answer, failures)) :
    answer = isAnchor anchors s.cur ∧ failures = s.failures := by
  unfold chainRound at h
  by_cases hanchor : isAnchor anchors s.cur = true
  · rw [if_pos hanchor] at h
    cases h
    exact ⟨hanchor.symm, rfl⟩
  rw [if_neg hanchor] at h
  rw [Bool.not_eq_true] at hanchor
  by_cases hseen : fingerprint R s.cur ∈ s.seen
  · rw [if_pos hseen] at h
    cases h
    exact ⟨hanchor.symm, rfl⟩
  rw [if_neg hseen] at h
  cases hfirst : firstIssuer issuedBy pool anchors s.cur with
  | none =>
    rw [hfirst] at h
    cases h
    exact ⟨hanchor.symm, rfl⟩
  | some nxt =>
    rw [hfirst] at h
    cases h

/-- The loop ends: every round meets a fingerprint that it has not met before. -/
theorem exists_chainRun (signer : Cert N) (failures : List Str) :
    ∃ states result, ChainRun R issuedBy pool anchors t signer failures states result ∧
      states.length ≤ pool.length + anchors.length + 2 := by
  have hseen (seen : List Bytes) (cur : Cert N) (h : Walk.Visits (firstIssuer issuedBy pool anchors)
      (isAnchor anchors) (fingerprint R) signer seen cur) :
      seen.length ≤ pool.length + anchors.length + 1 := by
    rw [← length_fingerprints (R := R) signer]
    exact h.length_le (fingerprint_firstIssuer signer) List.mem_cons_self
  refine While.exists_ends
    (I := fun s : ChainState N => Walk.Visits (firstIssuer issuedBy pool anchors)
      (isAnchor anchors) (fingerprint R) signer s.seen s.cur)
    (m := fun s : ChainState N => pool.length + anchors.length + 1 - s.seen.length)
    (fun s s' hvisit hround => ?_) .start
  obtain ⟨hanchor, hkey, nxt, hfirst, rfl⟩ := chainRound_next.mp hround
  have hnext := hvisit.step hanchor hkey hfirst
  have hlen := hseen _ _ hnext
  refine ⟨hnext, ?_⟩
  rw [List.length_cons] at hlen ⊢
  omega

/-- The run gives what the loop with a bound gives. -/
theorem chainAux_of_ends {s : ChainState N} {states : List (ChainState N)}
    {result : Bool × List Str}
    (h : While.Ends (chainRound R issuedBy pool anchors t) s states result) {fuel : Nat}
    (hfuel : states.length ≤ fuel) :
    chainAux R issuedBy pool anchors t fuel s.seen s.cur s.failures = result := by
  induction h generalizing fuel with
  | @done s result hround =>
    rw [List.length_singleton] at hfuel
    obtain ⟨fuel, rfl⟩ : ∃ n, fuel = n + 1 := ⟨fuel - 1, by omega⟩
    unfold chainRound at hround
    rw [chainAux]
    by_cases hanchor : isAnchor anchors s.cur = true
    · rw [if_pos hanchor] at hround ⊢
      cases hround
      rfl
    rw [if_neg hanchor] at hround ⊢
    by_cases hseen : fingerprint R s.cur ∈ s.seen
    · rw [if_pos hseen] at hround ⊢
      cases hround
      rfl
    rw [if_neg hseen] at hround ⊢
    cases hfirst : firstIssuer issuedBy pool anchors s.cur with
    | none =>
      rw [hfirst] at hround
      cases hround
      rfl
    | some nxt =>
      rw [hfirst] at hround
      cases hround
  | next hround _ ih =>
    rw [List.length_cons] at hfuel
    obtain ⟨fuel, rfl⟩ : ∃ n, fuel = n + 1 := ⟨fuel - 1, by omega⟩
    obtain ⟨hanchor, hkey, nxt, hfirst, rfl⟩ := chainRound_next.mp hround
    rw [chainAux, if_neg (by rw [hanchor]; exact Bool.false_ne_true), if_neg hkey, hfirst]
    exact ih (by omega)

/-- What the failures say at the end: those from before, and those of every issuer on the
way. -/
theorem failures_of_ends {s : ChainState N} {states : List (ChainState N)} {answer : Bool}
    {failures : List Str}
    (h : While.Ends (chainRound R issuedBy pool anchors t) s states (answer, failures)) :
    failures = s.failures ++
      ((states.map ChainState.cur).tail.flatMap (issuerFailures anchors t)) := by
  generalize hresult : (answer, failures) = result at h
  induction h with
  | done hround =>
    subst hresult
    obtain ⟨-, rfl⟩ := chainRound_done hround
    simp
  | @next s s' states _ hround hends ih =>
    obtain ⟨-, -, nxt, -, rfl⟩ := chainRound_next.mp hround
    obtain ⟨rest, rfl⟩ := hends.head
    rw [ih hresult]
    simp

/-- What is recorded of an issuer that is no anchor. -/
theorem mem_issuerFailures {c : Cert N} (hanchor : isAnchor anchors c = false) :
    (validAt t c = false → lit "issuer not valid at genTime" ∈ issuerFailures anchors t c) ∧
      (isCa c = false → lit "issuer is not a CA" ∈ issuerFailures anchors t c) := by
  rw [issuerFailures, if_neg (by rw [hanchor]; exact Bool.false_ne_true)]
  constructor
  · intro hvalid
    simp [hvalid]
  · intro hca
    simp [hca]

/-- **The loop of `_chain` ends**, whatever pool, anchors and signatures there are, and
with the result of `chain`. The certificates it went through are each issued by the next one;
where it returns true the last of them has name and key of an anchor; and the failures
say of each that is no anchor whether it was no CA or not valid. -/
theorem chain_run (R : Runtime) (issuedBy : Cert N → Cert N → Bool) (pool anchors : List (Cert N))
    (t : DateTime) (signer : Cert N) (failures : List Str) :
    ∃ states answer recorded,
      ChainRun R issuedBy pool anchors t signer failures states (answer, recorded) ∧
      states.length ≤ pool.length + anchors.length + 2 ∧
      chain R issuedBy pool anchors t signer failures = (answer, recorded) ∧
      ∃ certs, certs = states.map ChainState.cur ∧ certs.head? = some signer ∧
        certs.IsChain (Issued issuedBy pool anchors) ∧
        (answer = true → ∃ last, certs.getLast? = some last ∧
          ∃ a ∈ anchors, last.subject = a.subject ∧ last.spki = a.spki) ∧
        recorded = failures ++ certs.tail.flatMap (issuerFailures anchors t) ∧
        ∀ c ∈ certs.tail, isAnchor anchors c = false →
          (validAt t c = false → lit "issuer not valid at genTime" ∈ recorded) ∧
          (isCa c = false → lit "issuer is not a CA" ∈ recorded) := by
  obtain ⟨states, ⟨answer, recorded⟩, hrun, hlen⟩ :=
    @exists_chainRun _ _ R issuedBy pool anchors t signer failures
  have hrecorded := failures_of_ends hrun
  refine ⟨states, answer, recorded, hrun, hlen, chainAux_of_ends hrun hlen, _, rfl, ?_, ?_, ?_,
    hrecorded, ?_⟩
  · obtain ⟨rest, rfl⟩ := hrun.head
    rfl
  · refine (List.isChain_map _).mpr (hrun.isChain.imp fun s s' hround => ?_)
    obtain ⟨-, -, nxt, hfirst, rfl⟩ := chainRound_next.mp hround
    exact issued_of_firstIssuer hfirst
  · intro htrue
    obtain ⟨last, hlast, hround⟩ := hrun.last
    obtain ⟨hanswer, -⟩ := chainRound_done hround
    refine ⟨last.cur, by rw [List.getLast?_map, hlast]; rfl, ?_⟩
    have hanchor : isAnchor anchors last.cur = true := hanswer.symm.trans htrue
    simpa [isAnchor] using hanchor
  · intro c hc hanchor
    obtain ⟨hvalid, hca⟩ := mem_issuerFailures (t := t) hanchor
    have hmem (f : Str) (hf : f ∈ issuerFailures anchors t c) : f ∈ recorded := by
      rw [hrecorded]
      exact List.mem_append_right _ (List.mem_flatMap.mpr ⟨c, hc, hf⟩)
    exact ⟨fun h => hmem _ (hvalid h), fun h => hmem _ (hca h)⟩

/-! ## Two issuers of one name and key -/

/-- A certificate; the names are numbers, and it is valid in the year 2026. -/
def sampleCert (der : UInt8) (subject issuer : Nat) (spki : UInt8) : Cert Nat :=
  ⟨[der], subject, issuer, [spki], ⟨2026, 1, 1, 0, 0, 0⟩, ⟨2027, 1, 1, 0, 0, 0⟩, some true⟩

def sampleSigner : Cert Nat := sampleCert 0 0 1 10
def sampleAnchor : Cert Nat := sampleCert 3 2 2 12

/-- The issuer of the signer, certified by an authority nobody trusts and by the anchor. -/
def sampleDeadEnd : Cert Nat := sampleCert 1 1 9 11
def sampleIssuer : Cert Nat := sampleCert 2 1 2 11

/-- The key of the issuer verifies the signer's certificate, that of the anchor
the second one of the issuer. -/
def sampleIssuedBy (cur c : Cert Nat) : Bool :=
  (cur.der == [0] && c.spki == [11]) || (cur.der == [2] && c.spki == [12])

/-- The walk takes the untrusted one where it comes first. -/
theorem deadEnd_first_not_reached :
    ¬ (∀ (issuedBy : Cert Nat → Cert Nat → Bool) (pool anchors : List (Cert Nat)) (t : DateTime)
      (signer : Cert Nat) (failures : List Str),
      (chain .sample issuedBy pool anchors t signer failures).1 = true ↔
        ReachesAnchor issuedBy pool anchors signer) ∧
    ¬ (∀ (issuedBy : Cert Nat → Cert Nat → Bool) (pool pool' anchors : List (Cert Nat))
      (t : DateTime) (signer : Cert Nat) (failures : List Str), pool'.Perm pool →
      (chain .sample issuedBy pool' anchors t signer failures).1 =
        (chain .sample issuedBy pool anchors t signer failures).1) := by
  have hfirst : (chain .sample sampleIssuedBy [sampleDeadEnd, sampleIssuer] [sampleAnchor]
      ⟨2026, 6, 1, 0, 0, 0⟩ sampleSigner []).1 = false := by decide
  have hlast : (chain .sample sampleIssuedBy [sampleIssuer, sampleDeadEnd] [sampleAnchor]
      ⟨2026, 6, 1, 0, 0, 0⟩ sampleSigner []).1 = true := by decide
  refine ⟨fun hall => ?_, fun hall => ?_⟩
  · have hreach : ReachesAnchor sampleIssuedBy [sampleDeadEnd, sampleIssuer] [sampleAnchor]
        sampleSigner := by
      refine ⟨sampleAnchor, ?_, by decide⟩
      have hissuer : Issued sampleIssuedBy [sampleDeadEnd, sampleIssuer] [sampleAnchor]
          sampleSigner sampleIssuer := ⟨by decide, by decide, by decide, by decide⟩
      have hanchor : Issued sampleIssuedBy [sampleDeadEnd, sampleIssuer] [sampleAnchor]
          sampleIssuer sampleAnchor := ⟨by decide, by decide, by decide, by decide⟩
      exact (Relation.ReflTransGen.single hissuer).tail hanchor
    have htrue := (hall sampleIssuedBy _ _ ⟨2026, 6, 1, 0, 0, 0⟩ _ []).mpr hreach
    rw [hfirst] at htrue
    cases htrue
  · have heq := hall sampleIssuedBy [sampleDeadEnd, sampleIssuer] [sampleIssuer, sampleDeadEnd]
      [sampleAnchor] ⟨2026, 6, 1, 0, 0, 0⟩ sampleSigner [] (List.Perm.swap _ _ _)
    rw [hfirst, hlast] at heq
    cases heq

end Preaction.TsaSig
