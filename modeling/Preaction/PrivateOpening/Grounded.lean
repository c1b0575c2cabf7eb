import Mathlib.Data.List.ReduceOption
import Preaction.Ed25519Agreement
import Preaction.Lib.FirstWins
import Preaction.PrivateOpening.Statement

/-!
# `x402-receipt-private-opening/statement.py` — the log that is kept, and what it grounds

`make_statement` is given `seq` and `prev`; `build_vectors.py` gives it the number of statements
before and the digest of the last. A log that is kept like this is accepted, whoever signs and
whatever was found (`keptLog_logOk`): one more statement is `logFrom_concat`, and what was signed
verifies. `grounded_pairs` then holds the pairs that trusted verifiers found open, each once
(`groundedPairs_kept`).

Mirroring notes:
- A set is a list without two equal elements.
- Every statement of the log has a signer of its own, so a log can mix verifiers.
-/

namespace Preaction.PrivateOpening

open Preaction.Py Preaction.Chain Preaction.FirstWins Preaction.Loop Json

variable (R : Runtime)

/-- What a verifier states. -/
structure Finding where
  secret : Bytes
  receipt : Json
  result : Result
  rater : Str
  agent : Str
  asset : Str
  checkedAt : Str
  readAt : Json

/-- The next statement of a log. -/
def nextStatement (log : List Json) (f : Finding) : Except PyError Json :=
  makeStatement R f.receipt f.result.text (.str f.rater) (.str f.agent) (.str f.asset)
    (.str f.checkedAt) (.int log.length) (.str (head (statementHash R) zero log)) f.secret f.readAt

/-- The log with one more statement. -/
def keepStatement (log : List Json) (f : Finding) : Except PyError (List Json) := do
  return log ++ [← nextStatement R log f]

/-- The log of these findings. -/
def keptLog (fs : List Finding) : Except PyError (List Json) := fs.foldlM (keepStatement R) []

/-- The pair that one statement grounds, if it counts. -/
def groundedPair (trusted : List Str) (s : Json) : Except PyError (Option (Json × Json)) := do
  if !(← s.get (lit "result")).pyEq (text "opens_to_settlement") then return none
  let verifier ← s.get (lit "verifier")
  verifier.hashable
  if !verifier.pyIn (trusted.map .str) then return none
  if !(← signatureOk R s) then return none
  if !(← s.get (lit "type")).pyEq (.str openingType) then return none
  if !readAtOk (← s.get (lit "read_at")) then return none
  let rater ← s.item (lit "rater")
  let agent ← s.item (lit "agent")
  rater.hashable
  agent.hashable
  return some (rater, agent)

/-- Two pairs are one element of a set. -/
def samePair (p q : Json × Json) : Bool := p.1.pySame q.1 && p.2.pySame q.2

/-- `grounded_pairs(statements, trusted_verifiers)` -/
def groundedPairs (trusted : List Str) (statements : List Json) :
    Except PyError (List (Json × Json)) := do
  let pairs ← statements.mapM (groundedPair R trusted)
  return keep samePair [] pairs.reduceOption

variable {R}

/-! ## One more statement -/

theorem logFrom_concat {prev : Str} {i : Nat} {xs : List Json} {x : Json} :
    logFrom R prev i (xs ++ [x]) = .ok true ↔ logFrom R prev i xs = .ok true ∧
      statementOk R (head (statementHash R) prev xs) (i + xs.length) x = .ok true := by
  induction xs generalizing prev i with
  | nil =>
    rw [List.nil_append, logFrom_cons]
    exact and_comm
  | cons y xs ih =>
    rw [List.cons_append, logFrom_cons, ih, logFrom_cons, and_assoc, List.length_cons,
      Nat.add_assoc i 1, Nat.add_comm 1]
    rfl

/-- What the next statement of a log holds. -/
structure Next (R : Runtime) (log : List Json) (f : Finding) (readAt st : Json)
    (fields : List (Str × Json)) (signature : Bytes) : Prop extends
    Made R f.receipt f.result.text (.str f.rater) f.secret readAt st fields signature where
  seq : fields.lookup (lit "seq") = some (.int log.length)
  prev : fields.lookup (lit "prev") = some (.str (head (statementHash R) zero log))
  agent : fields.lookup (lit "agent") = some (.str f.agent)

theorem nextStatement_spec {log : List Json} {f : Finding} {st : Json}
    (h : nextStatement R log f = .ok st) :
    ∃ ra fields signature, Next R log f ra st fields signature := by
  unfold nextStatement makeStatement at h
  split at h
  next => cases h
  next =>
    obtain ⟨ra, -, h⟩ := bind_ok.mp h
    split at h
    next => cases h
    next hok =>
      obtain ⟨fields, hfields, h⟩ := bind_ok.mp h
      obtain ⟨signature, hsign, h⟩ := bind_ok.mp h
      obtain rfl := Except.ok.inj h
      rw [Bool.not_eq_true', Bool.not_eq_false] at hok
      have hheld := unsigned_spec hfields
      unfold unsigned at hfields
      obtain ⟨_, -, hfields⟩ := bind_ok.mp hfields
      obtain ⟨_, -, hfields⟩ := bind_ok.mp hfields
      obtain ⟨_, -, hfields⟩ := bind_ok.mp hfields
      obtain ⟨_, -, hfields⟩ := bind_ok.mp hfields
      obtain ⟨_, -, hfields⟩ := bind_ok.mp hfields
      obtain ⟨_, -, hfields⟩ := bind_ok.mp hfields
      obtain ⟨_, -, hfields⟩ := bind_ok.mp hfields
      obtain rfl := Except.ok.inj hfields
      exact ⟨ra, _, signature, ⟨rfl, hok, hheld, hsign⟩, rfl, rfl, rfl⟩

/-- What `sign` returns, `verify` accepts. -/
theorem signVerifies (R : Runtime) : Ed25519Ref.SignVerifies R := by
  intro secret msg key signature hkey hsign
  obtain ⟨_, _, _, _, _, h⟩ := Edwards.sign_spec hkey hsign
  exact Edwards.refVerify_iff.mpr ⟨_, _, _, h⟩

namespace Next

variable {log : List Json} {f : Finding} {readAt st : Json} {fields : List (Str × Json)}
  {signature : Bytes}

theorem statementOk (h : Next R log f readAt st fields signature) :
    statementOk R (head (statementHash R) zero log) log.length st = .ok true := by
  have hseq := (pyEq_int (.int log.length) _).mpr rfl
  have hprev := (pyEq_str (.str (head (statementHash R) zero log)) _).mpr rfl
  unfold PrivateOpening.statementOk
  rw [h.get h.seq, ok_bind, hseq, h.find h.prev, hprev]
  exact h.signatureOk (signVerifies R)

end Next

/-! ## The log that is kept -/

/-- A statement of the log, with what was found. -/
def States (R : Runtime) (f : Finding) (st : Json) : Prop :=
  ∃ log readAt fields signature, Next R log f readAt st fields signature

/-- One step: an accepted log is kept accepted. -/
theorem keepStatement_spec {log log' : List Json} {f : Finding} (hlog : logOk R log = .ok true)
    (h : keepStatement R log f = .ok log') :
    logOk R log' = .ok true ∧ ∃ st, log' = log ++ [st] ∧ States R f st := by
  obtain ⟨st, hst, h⟩ := bind_ok.mp h
  obtain rfl := Except.ok.inj h
  obtain ⟨ra, fields, signature, hnext⟩ := nextStatement_spec hst
  refine ⟨?_, st, rfl, log, ra, fields, signature, hnext⟩
  unfold logOk at hlog ⊢
  refine logFrom_concat.mpr ⟨hlog, ?_⟩
  rw [Nat.zero_add]
  exact hnext.statementOk

theorem foldlM_keepStatement {fs : List Finding} :
    ∀ {log log' : List Json}, logOk R log = .ok true →
      fs.foldlM (keepStatement R) log = .ok log' →
      logOk R log' = .ok true ∧ ∃ sts, log' = log ++ sts ∧ List.Forall₂ (States R) fs sts := by
  induction fs with
  | nil =>
    intro log log' hlog h
    obtain rfl := Except.ok.inj h
    exact ⟨hlog, [], (List.append_nil _).symm, .nil⟩
  | cons f fs ih =>
    intro log log' hlog h
    rw [List.foldlM_cons] at h
    obtain ⟨log₁, hstep, h⟩ := bind_ok.mp h
    obtain ⟨hlog₁, st, rfl, hst⟩ := keepStatement_spec hlog hstep
    obtain ⟨hlog', sts, rfl, hsts⟩ := ih hlog₁ h
    exact ⟨hlog', st :: sts, by rw [List.append_assoc, List.singleton_append], .cons hst hsts⟩

/-- **A log that is kept is accepted**, and holds one statement for each finding. -/
theorem keptLog_logOk {fs : List Finding} {log : List Json} (h : keptLog R fs = .ok log) :
    logOk R log = .ok true ∧ List.Forall₂ (States R) fs log := by
  obtain ⟨hlog, sts, rfl, hsts⟩ := @foldlM_keepStatement R fs [] log rfl h
  exact ⟨hlog, hsts⟩

/-! ## What it grounds -/

/-- The pair of a finding. -/
def Finding.pair (R : Runtime) (f : Finding) : Json × Json := (.str (R.lower f.rater), .str f.agent)

/-- A trusted verifier found it open. -/
def Finding.Grounds (R : Runtime) (trusted : List Str) (f : Finding) : Prop :=
  f.result = .opensToSettlement ∧
    ∃ key, Ed25519Ref.publicKey R f.secret = .ok key ∧ b64u key ∈ trusted

theorem text_eq_opens {r : Result} :
    (Json.str r.text).pyEq (text "opens_to_settlement") = true ↔ r = .opensToSettlement := by
  refine (pyEq_str _ _).trans ?_
  rw [Json.str.injEq]
  cases r <;> decide

theorem pyIn_texts {s : Str} {xs : List Str} :
    (Json.str s).pyIn (xs.map .str) = true ↔ s ∈ xs := by
  unfold Json.pyIn
  rw [List.any_map, List.any_eq_true]
  constructor
  · intro h
    obtain ⟨x, hx, hsame⟩ := h
    obtain rfl := Json.str.inj ((pySame_str _ _).mp hsame)
    exact hx
  · intro hs
    exact ⟨s, hs, pySame_refl _⟩

/-- What a statement grounds is decided by what was found, and by the signer. -/
theorem groundedPair_states {f : Finding} {st : Json} (h : States R f st) (trusted : List Str) :
    ∃ o, groundedPair R trusted st = .ok o ∧
      ∀ p, o = some p ↔ f.Grounds R trusted ∧ p = f.pair R := by
  obtain ⟨log, ra, fields, signature, h⟩ := h
  obtain ⟨key, hkey, hverifier⟩ := h.holds.verifier
  obtain ⟨s, hs, hrater⟩ := h.holds.rater
  obtain rfl := Json.str.inj hs
  have hsigned := h.signatureOk (signVerifies R)
  have htype := (pyEq_str (.str openingType) _).mpr rfl
  unfold groundedPair
  rw [h.get h.holds.result, ok_bind, h.get hverifier, ok_bind]
  by_cases hres : f.result = .opensToSettlement
  · have htext := text_eq_opens.mpr hres
    by_cases htrust : b64u key ∈ trusted
    · refine ⟨some (f.pair R), ?_, ?_⟩
      · simp only [htext, pyIn_texts.mpr htrust, hsigned, h.get h.holds.type, htype,
          h.get h.holds.readAt, h.readAtOk, h.item hrater, h.item h.agent, ok_bind, Bool.not_true,
          Bool.false_eq_true, if_false]
        rfl
      · intro p
        constructor
        · intro hp
          exact ⟨⟨hres, key, hkey, htrust⟩, (Option.some.inj hp).symm⟩
        · intro hp
          rw [hp.2]
    · have hout : (Json.str (b64u key)).pyIn (trusted.map .str) = false :=
        Bool.eq_false_iff.mpr (mt pyIn_texts.mp htrust)
      refine ⟨none, ?_, ?_⟩
      · simp only [htext, hout, Bool.not_true, Bool.not_false, Bool.false_eq_true, if_false,
          if_true]
        rfl
      · intro p
        constructor
        · intro hp
          cases hp
        · intro hp
          obtain ⟨⟨-, key', hkey', hin⟩, -⟩ := hp
          obtain rfl := Except.ok.inj (hkey.symm.trans hkey')
          exact (htrust hin).elim
  · have htext := Bool.eq_false_iff.mpr (mt text_eq_opens.mp hres)
    refine ⟨none, ?_, ?_⟩
    · rw [htext]
      rfl
    · intro p
      constructor
      · intro hp
        cases hp
      · intro hp
        exact (hres hp.1.1).elim

theorem samePair_str {p : Json × Json} {a b : Str} :
    samePair p (.str a, .str b) = true ↔ p = (.str a, .str b) := by
  unfold samePair
  rw [Bool.and_eq_true, pySame_str, pySame_str, Prod.ext_iff]

theorem samePair_refl (p : Json × Json) : samePair p p = true := by
  unfold samePair
  rw [pySame_refl, pySame_refl]
  rfl

theorem samePair_symm (p q : Json × Json) (h : samePair p q = true) : samePair q p = true := by
  unfold samePair at h ⊢
  obtain ⟨hfst, hsnd⟩ := (Bool.and_eq_true _ _).mp h
  rw [pySame_symm hfst, pySame_symm hsnd]
  rfl

/-- What statements ground, in whatever order they come. -/
theorem groundedPairs_states {fs : List Finding} {sts : List Json}
    (h : List.Forall₂ (States R) fs sts) (trusted : List Str) :
    ∃ pairs, groundedPairs R trusted sts = .ok pairs ∧ pairs.Nodup ∧
      ∀ p, p ∈ pairs ↔ ∃ f ∈ fs, f.Grounds R trusted ∧ p = f.pair R := by
  have hreturns : ∀ st ∈ sts, ∃ o, groundedPair R trusted st = .ok o := by
    intro st hst
    obtain ⟨f, -, hf⟩ := exists_left h hst
    obtain ⟨o, ho, -⟩ := groundedPair_states hf trusted
    exact ⟨o, ho⟩
  obtain ⟨os, hos⟩ := mapM_of_ok hreturns
  have hmem : ∀ p, p ∈ os.reduceOption ↔ ∃ f ∈ fs, f.Grounds R trusted ∧ p = f.pair R := by
    intro p
    rw [List.reduceOption_mem_iff, mem_mapM hos]
    constructor
    · intro hp
      obtain ⟨st, hst, hp⟩ := hp
      obtain ⟨f, hf, hstates⟩ := exists_left h hst
      obtain ⟨o, ho, hiff⟩ := groundedPair_states hstates trusted
      obtain rfl := Except.ok.inj (ho.symm.trans hp)
      exact ⟨f, hf, (hiff p).mp rfl⟩
    · intro hp
      obtain ⟨f, hf, hp⟩ := hp
      obtain ⟨st, hst, hstates⟩ := exists_right h hf
      obtain ⟨o, ho, hiff⟩ := groundedPair_states hstates trusted
      rw [(hiff p).mpr hp] at ho
      exact ⟨st, hst, ho⟩
  refine ⟨keep samePair [] os.reduceOption, ?_, ?_, ?_⟩
  · unfold groundedPairs
    rw [hos]
    rfl
  · refine (pairwise_keep samePair_symm .nil).imp ?_
    intro p q hdiffer heq
    rw [heq, samePair_refl] at hdiffer
    cases hdiffer
  · intro p
    rw [← hmem]
    constructor
    · intro hp
      exact (mem_keep hp).resolve_left List.not_mem_nil
    · intro hp
      obtain ⟨q, hq, hsame⟩ := exists_kept samePair_refl (Or.inr hp)
      have hq' := (mem_keep hq).resolve_left List.not_mem_nil
      obtain ⟨f, -, -, rfl⟩ := (hmem q).mp hq'
      rwa [samePair_str.mp hsame]

/-- **What a log that is kept grounds**: the pairs that trusted verifiers found open, each once. -/
theorem groundedPairs_kept {fs : List Finding} {log : List Json} (h : keptLog R fs = .ok log)
    (trusted : List Str) : ∃ pairs, groundedPairs R trusted log = .ok pairs ∧ pairs.Nodup ∧
      ∀ p, p ∈ pairs ↔ ∃ f ∈ fs, f.Grounds R trusted ∧ p = f.pair R := by
  obtain ⟨-, sts, rfl, hsts⟩ := @foldlM_keepStatement R fs [] log rfl h
  exact groundedPairs_states hsts trusted

/-! ## A log of two verifiers -/

open Ed25519Ref (constantRuntime)

def sampleFinding (secret : UInt8) (agent : String) : Finding :=
  ⟨List.replicate 32 secret, openedReceipt, .opensToSettlement, prefixedDigits 40 'b', lit agent,
    prefixedDigits 40 'A', lit "2026-10-01T00:00:00Z", sampleReadAt⟩

def sampleFindings : List Finding := [sampleFinding 0 "a", sampleFinding 1 "b", sampleFinding 0 "a"]

theorem exists_keptSample : ∃ log, keptLog constantRuntime sampleFindings = .ok log := by
  obtain ⟨log, hlog, -⟩ := map_ok.mp (show (keptLog constantRuntime sampleFindings).map
    (fun _ => ()) = .ok () by decide +kernel)
  exact ⟨log, hlog⟩

theorem keptLog_logOk_three : ∃ log, keptLog constantRuntime sampleFindings = .ok log ∧
    logOk constantRuntime log = .ok true ∧
    List.Forall₂ (States constantRuntime) sampleFindings log := by
  obtain ⟨log, hlog⟩ := exists_keptSample
  exact ⟨log, hlog, keptLog_logOk hlog⟩

theorem groundedPairs_kept_three : ∃ log, keptLog constantRuntime sampleFindings = .ok log ∧
    ∀ trusted, ∃ pairs, groundedPairs constantRuntime trusted log = .ok pairs ∧ pairs.Nodup ∧
      ∀ p, p ∈ pairs ↔ ∃ f ∈ sampleFindings,
        f.Grounds constantRuntime trusted ∧ p = f.pair constantRuntime := by
  obtain ⟨log, hlog⟩ := exists_keptSample
  exact ⟨log, hlog, groundedPairs_kept hlog⟩

end Preaction.PrivateOpening
