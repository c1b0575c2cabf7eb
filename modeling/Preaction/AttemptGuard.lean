import Preaction.Lib.Chain
import Preaction.Lib.Loop
import Preaction.Lib.Run
import Preaction.Py.JsonAscii

/-!
# `decision_record_per_attempt.py` — a record for every attempted call

`AttemptGuard` stands at the callable boundary: every entry to a guarded
callable gets a number, a decision and a record that names the digest of the
record before, whether the call is allowed, denied or does not bind. A verifier
that kept a head, the number of records and the digest of the last, can tell
when a log has lost, changed or reordered a record up to it.

The main result is about every run (`run_sound`): the records verify under the
current head, the attempt ids are distinct, the executions are the allowed
records, and a list of records that verifies under an earlier head has the
run's records up to that head.

Mirroring notes:
- A policy is asked once for a call, so an event carries the policy's behaviour
  at that call: its answer to the tool and the snapshot, with the snapshot as
  the policy leaves it. Nothing changes a snapshot after the record is written.
- A tool body that calls guarded callables adds the events of these calls behind
  its own; the state is complete before the body runs.
- `json.dumps` escapes what is not ASCII, so `encode` does not fail on its text.
- `inspect.signature` can itself raise, as it does for some built-ins.
-/

namespace Preaction.AttemptGuard

open Preaction.Py Preaction.Chain Preaction.Loop Preaction.Run Json

variable (R : Runtime)

/-- `jcs(obj)` -/
def jcs (o : Json) : Bytes := utf8Bytes (R.asciiText o)

/-- `h(obj)` -/
def hashOf (o : Json) : Str := R.sha256Hex (jcs R o)

/-- What `AttemptGuard` is made with. -/
structure Guard where
  runId : Json
  agentId : Json
  policyVersion : Json

structure State where
  step : Nat
  callIndex : Nat
  records : List Json
  executions : Nat

/-- The state `__init__` leaves. -/
def State.init : State := ⟨0, 0, [], 0⟩

/-- A policy's answer, with the snapshot as it leaves it. -/
structure Answer where
  allowed : Bool
  reason : Json
  args : Json

/-- `{"run_id": …, "step": …, "call_index": …}` -/
def attempt (G : Guard) (step callIndex : Nat) : Json := object
  [("run_id", G.runId), ("step", .int step), ("call_index", .int callIndex)]

/-- What `preimage_hash` is the digest of. -/
def preimage (toolHash : Str) (args agentId policyVersion : Json) : Json := object
  [("tool_hash", .str toolHash), ("args_hash", .str (hashOf R args)), ("agent_id", agentId),
    ("policy_version", policyVersion)]

/-- `h(records[-1]) if records else None` -/
def tip (records : List Json) : Json :=
  match records.getLast? with
  | some r => .str (hashOf R r)
  | none => .null

/-- `rec` of an attempt. -/
def makeRecord (G : Guard) (s : State) (tool toolHash : Str) (toolCallId : Json) (answer : Answer) :
    Json := object
  [("attempt_id", .str (hashOf R (attempt G s.step s.callIndex))),
    ("run_id", G.runId), ("step", .int s.step), ("call_index", .int s.callIndex),
    ("tool_call_id", toolCallId),
    ("preimage_hash", .str (hashOf R (preimage R toolHash answer.args G.agentId G.policyVersion))),
    ("tool", .str tool), ("args", answer.args), ("agent_id", G.agentId),
    ("policy_version", G.policyVersion), ("allowed", .bool answer.allowed),
    ("reason", answer.reason), ("decider", text "AttemptGuard/v1"), ("prev", tip R s.records)]

/-- The answer to a call: of the policy, or a denial where the call does not bind. -/
def answerOf (policy : Str → Json → Answer) (tool : Str) (args : Json) : Option Str → Answer
  | some bindError => ⟨false, .str (lit "binding: " ++ bindError), args⟩
  | none => policy tool args

/-- `_decide(tool, args, tool_call_id, bind_error)` -/
def _decide (G : Guard) (s : State) (policy : Str → Json → Answer) (tool : Str) (args : Json)
    (toolCallId : Json) (bindError : Option Str) : State × Except PyError Json :=
  match R.loads (R.asciiText args) with
  | none => (s, .error .valueError)
  | some args =>
    let answer := answerOf policy tool args bindError
    match R.sha256Text tool with
    | .error e => ({ s with callIndex := s.callIndex + 1 }, .error e)
    | .ok toolHash =>
      let record := makeRecord R G s tool toolHash toolCallId answer
      ({ s with callIndex := s.callIndex + 1, records := s.records ++ [record] }, .ok record)

/-- What can happen to a guard. -/
inductive Event
  | newStep
  /-- A guarded callable is entered; `bind` is what `inspect.signature(fn).bind` does. -/
  | call (tool : Str) (kwargs : List (Str × Json)) (toolCallId : Json)
      (bind : Except PyError (Option Str)) (policy : Str → Json → Answer)

/-- `guarded(…)` up to the call of the tool's body. -/
def guarded (G : Guard) (s : State) (tool : Str) (kwargs : List (Str × Json)) (toolCallId : Json)
    (bindError : Option Str) (policy : Str → Json → Answer) : State :=
  let (s, out) := _decide R G s policy tool (.obj kwargs) toolCallId bindError
  match out with
  | .ok record => if (record.find (lit "allowed")).truthy then
      { s with executions := s.executions + 1 } else s
  | .error _ => s

def step (G : Guard) (s : State) : Event → State
  | .newStep => { s with step := s.step + 1, callIndex := 0 }
  | .call tool kwargs toolCallId (.ok bindError) policy =>
    guarded R G s tool kwargs toolCallId bindError policy
  | .call _ _ _ (.error _) _ => s

/-- The state of a guard after some events. -/
def stateAfter (G : Guard) (es : List Event) : State := run (step R G) State.init es

/-! ## Verification -/

/-- `head()` -/
structure Head where
  n : Nat
  tip : Json

def headOf (s : State) : Head := ⟨s.records.length, tip R s.records⟩

/-- `r["tool"].encode()`, hashed. -/
def toolHashOf : Json → Except PyError Str
  | .str tool => R.sha256Text tool
  | _ => .error .attributeError

/-- `r["preimage_hash"]` is the digest of what the record says. -/
def preimageOk (r : Json) : Except PyError Bool := do
  let stated ← r.item (lit "preimage_hash")
  let toolHash ← toolHashOf R (← r.item (lit "tool"))
  let args ← r.item (lit "args")
  let agentId ← r.item (lit "agent_id")
  let policyVersion ← r.item (lit "policy_version")
  return stated.pyEq (.str (hashOf R (preimage R toolHash args agentId policyVersion)))

/-- One record behind another. -/
def recordOk (prev r : Json) : Except PyError Bool := do
  if !(← r.item (lit "prev")).pyEq prev then return false
  preimageOk R r

/-- The loop of `verify_chain`. -/
def verifyFrom : Json → List Json → Except PyError Bool
  | _, [] => .ok true
  | prev, r :: rs => do
    if !(← recordOk R prev r) then return false
    verifyFrom (.str (hashOf R r)) rs

/-- The records go up to the head. -/
def reaches (records : List Json) (head : Head) : Bool :=
  head.n ≤ records.length &&
    (head.n == 0 || records[head.n - 1]?.any fun r => (Json.str (hashOf R r)).pyEq head.tip)

/-- `verify_chain(records, head)` -/
def verifyChain (records : List Json) (head : Option Head) : Except PyError Bool := do
  if !(← verifyFrom R .null records) then return false
  return head.all (reaches R records)

/-! ## The record of an attempt -/

variable {R}

section

variable (G : Guard) (s : State) (tool toolHash : Str) (toolCallId : Json) (answer : Answer)

theorem makeRecord_allowed : ((makeRecord R G s tool toolHash toolCallId answer).find
    (lit "allowed")).truthy = answer.allowed := by
  have hfind : (makeRecord R G s tool toolHash toolCallId answer).find (lit "allowed") =
      .bool answer.allowed := by
    simp [makeRecord, find_object_cons, find_object_cons_ne]
  rw [hfind]
  rfl

theorem makeRecord_attemptId : (makeRecord R G s tool toolHash toolCallId answer).find
    (lit "attempt_id") = .str (hashOf R (attempt G s.step s.callIndex)) :=
  find_object_cons ..

theorem preimageOk_makeRecord (h : R.sha256Text tool = .ok toolHash) :
    preimageOk R (makeRecord R G s tool toolHash toolCallId answer) = .ok true := by
  refine bind_ok.mpr ⟨.str (hashOf R (preimage R toolHash answer.args G.agentId G.policyVersion)),
    ?_, bind_ok.mpr ⟨.str tool, ?_, bind_ok.mpr ⟨toolHash, h, bind_ok.mpr ⟨answer.args, ?_,
      bind_ok.mpr ⟨G.agentId, ?_, bind_ok.mpr ⟨G.policyVersion, ?_, ?_⟩⟩⟩⟩⟩⟩
  · simp [makeRecord, item_object_cons, item_object_cons_ne]
  · simp [makeRecord, item_object_cons, item_object_cons_ne]
  · simp [makeRecord, item_object_cons, item_object_cons_ne]
  · simp [makeRecord, item_object_cons, item_object_cons_ne]
  · simp [makeRecord, item_object_cons, item_object_cons_ne]
  · exact congrArg Except.ok ((pyEq_str _ _).mpr rfl)

theorem tip_pyEq (records : List Json) : (tip R records).pyEq (tip R records) = true := by
  unfold tip
  split
  · exact (pyEq_str _ _).mpr rfl
  · rfl

/-- The record fits behind the records of its state. -/
theorem recordOk_makeRecord (h : R.sha256Text tool = .ok toolHash) :
    recordOk R (tip R s.records) (makeRecord R G s tool toolHash toolCallId answer) = .ok true := by
  refine bind_ok.mpr ⟨tip R s.records, ?_, ?_⟩
  · simp [makeRecord, item_object_cons, item_object_cons_ne]
  · rw [tip_pyEq]
    exact preimageOk_makeRecord G s tool toolHash toolCallId answer h

end

/-! ## What one event does -/

theorem guarded_cases (G : Guard) (s : State) (tool : Str) (kwargs : List (Str × Json))
    (toolCallId : Json) (bindError : Option Str) (policy : Str → Json → Answer) :
    guarded R G s tool kwargs toolCallId bindError policy = s ∨
    guarded R G s tool kwargs toolCallId bindError policy =
      { s with callIndex := s.callIndex + 1 } ∨
    ∃ toolHash answer, R.sha256Text tool = .ok toolHash ∧
      guarded R G s tool kwargs toolCallId bindError policy =
        { s with
          callIndex := s.callIndex + 1
          records := s.records ++ [makeRecord R G s tool toolHash toolCallId answer]
          executions := s.executions + answer.allowed.toNat } := by
  unfold guarded _decide
  cases R.loads (R.asciiText (.obj kwargs)) with
  | none => exact Or.inl rfl
  | some args =>
    dsimp only
    cases htool : R.sha256Text tool with
    | error e => exact Or.inr (Or.inl rfl)
    | ok toolHash =>
      refine Or.inr (Or.inr ⟨toolHash, answerOf policy tool args bindError, rfl, ?_⟩)
      dsimp only
      rw [makeRecord_allowed]
      cases (answerOf policy tool args bindError).allowed <;> rfl

/-! ## The records verify -/

theorem verifyFrom_cons {prev r : Json} {rs : List Json} :
    verifyFrom R prev (r :: rs) = .ok true ↔
      recordOk R prev r = .ok true ∧ verifyFrom R (.str (hashOf R r)) rs = .ok true := by
  constructor
  · intro h
    obtain ⟨b, hb, h⟩ := bind_ok.mp h
    cases b with
    | false => cases h
    | true => exact ⟨hb, h⟩
  · rintro ⟨hr, hrs⟩
    exact bind_ok.mpr ⟨true, hr, hrs⟩

/-- The digest of a record, as a value. -/
def link (R : Runtime) (r : Json) : Json := .str (hashOf R r)

/-- `r["prev"]` -/
def prevOf (r : Json) : Json := r.find (lit "prev")

theorem tip_eq_head (records : List Json) : tip R records = head (link R) .null records := by
  rcases List.eq_nil_or_concat records with rfl | ⟨rs, r, rfl⟩
  · rfl
  · rw [List.concat_eq_append, head_concat, tip, List.getLast?_concat]
    rfl

theorem verifyFrom_concat {prev r : Json} {rs : List Json}
    (hrs : verifyFrom R prev rs = .ok true)
    (hr : recordOk R (head (link R) prev rs) r = .ok true) :
    verifyFrom R prev (rs ++ [r]) = .ok true := by
  induction rs generalizing prev with
  | nil => exact verifyFrom_cons.mpr ⟨hr, rfl⟩
  | cons x rs ih =>
    obtain ⟨hx, hrest⟩ := verifyFrom_cons.mp hrs
    exact verifyFrom_cons.mpr ⟨hx, ih hrest hr⟩

/-! ## Attempt ids -/

/-- Attempt numbers in the order of execution: by step, then by call. -/
def Before (a b : Nat × Nat) : Prop := a.1 < b.1 ∨ a.1 = b.1 ∧ a.2 < b.2

/-- The attempt id of a number, as a value. -/
def attemptId (R : Runtime) (G : Guard) (n : Nat × Nat) : Json :=
  .str (hashOf R (attempt G n.1 n.2))

theorem asciiText_eq_of_hashOf_eq (hsha : Function.Injective R.sha256) {a b : Json}
    (h : hashOf R a = hashOf R b) : R.asciiText a = R.asciiText b :=
  utf8Bytes_injective (hsha (hexStr_injective h))

theorem attemptId_injective (hsha : Function.Injective R.sha256) (hf : R.dumpsFormat.Lawful)
    (G : Guard) : Function.Injective (attemptId R G) := by
  intro m n h
  have htext := asciiText_eq_of_hashOf_eq hsha (Json.str.inj h)
  have hstep := Runtime.asciiText_find hf (show Plain (lit "step") by decide) htext
  have hcall := Runtime.asciiText_find hf (show Plain (lit "call_index") by decide) htext
  simp only [attempt, find_object_cons, find_object_cons_ne, ne_eq, String.reduceEq,
    not_false_eq_true] at hstep hcall
  exact Prod.ext (Int.natCast_inj.mp (Json.int.inj hstep)) (Int.natCast_inj.mp (Json.int.inj hcall))

/-! ## Every run -/

/-- The record is of an allowed call. -/
def isAllowed (r : Json) : Bool := (r.find (lit "allowed")).truthy

/-- What holds of a guard at any time. -/
structure Invariant (R : Runtime) (G : Guard) (s : State) : Prop where
  verified : verifyFrom R .null s.records = .ok true
  counted : s.executions = s.records.countP isAllowed
  numbered : ∃ ns : List (Nat × Nat), s.records.map (·.find (lit "attempt_id")) =
    ns.map (attemptId R G) ∧ ns.Pairwise Before ∧ ∀ n ∈ ns, Before n (s.step, s.callIndex)

theorem invariant_init (G : Guard) : Invariant R G .init :=
  ⟨rfl, rfl, [], rfl, .nil, nofun⟩

/-- A guard whose counters only went up. -/
theorem Invariant.advance {G : Guard} {s : State} (hs : Invariant R G s) {step callIndex : Nat}
    (h : ∀ n, Before n (s.step, s.callIndex) → Before n (step, callIndex)) :
    Invariant R G { s with step := step, callIndex := callIndex } := by
  obtain ⟨ns, hids, hpair, hbound⟩ := hs.numbered
  exact ⟨hs.verified, hs.counted, ns, hids, hpair, fun n hn => h n (hbound n hn)⟩

/-- A guard with one record more. -/
theorem Invariant.record {G : Guard} {s : State} (hs : Invariant R G s) {tool toolHash : Str}
    (htool : R.sha256Text tool = .ok toolHash) (toolCallId : Json) (answer : Answer) :
    Invariant R G { s with
      callIndex := s.callIndex + 1
      records := s.records ++ [makeRecord R G s tool toolHash toolCallId answer]
      executions := s.executions + answer.allowed.toNat } := by
  have hok := recordOk_makeRecord G s tool toolHash toolCallId answer htool
  rw [tip_eq_head] at hok
  obtain ⟨ns, hids, hpair, hbound⟩ := hs.numbered
  refine ⟨verifyFrom_concat hs.verified hok, ?_, ns ++ [(s.step, s.callIndex)], ?_, ?_, ?_⟩
  · rw [List.countP_append, ← hs.counted, List.countP_singleton, isAllowed, makeRecord_allowed]
    cases answer.allowed <;> rfl
  · rw [List.map_append, List.map_append, hids, List.map_singleton, makeRecord_attemptId]
    rfl
  · rw [List.pairwise_append]
    exact ⟨hpair, List.pairwise_singleton .., fun n hn m hm =>
      List.mem_singleton.mp hm ▸ hbound n hn⟩
  · intro n hn
    rcases List.mem_append.mp hn with hn | hn
    · rcases hbound n hn with hlt | ⟨heq, hlt⟩
      · exact Or.inl hlt
      · exact Or.inr ⟨heq, Nat.lt_succ_of_lt hlt⟩
    · rw [List.mem_singleton.mp hn]
      exact Or.inr ⟨rfl, Nat.lt_succ_self _⟩

theorem invariant_step (G : Guard) (s : State) (e : Event) (hs : Invariant R G s) :
    Invariant R G (step R G s e) := by
  cases e with
  | newStep =>
    refine hs.advance fun n hn => Or.inl ?_
    rcases hn with hlt | ⟨heq, -⟩
    · exact Nat.lt_succ_of_lt hlt
    · exact heq ▸ Nat.lt_succ_self _
  | call tool kwargs toolCallId bind policy =>
    cases bind with
    | error e => exact hs
    | ok bindError =>
      rw [step]
      obtain h | h | ⟨toolHash, answer, htool, h⟩ :=
        guarded_cases G s tool kwargs toolCallId bindError policy
      · rwa [h]
      · rw [h]
        exact hs.advance fun n hn => hn.imp_right fun hn => ⟨hn.1, Nat.lt_succ_of_lt hn.2⟩
      · rw [h]
        exact hs.record htool toolCallId answer

theorem invariant_stateAfter (G : Guard) (es : List Event) : Invariant R G (stateAfter R G es) :=
  run_invariant (invariant_step G) (invariant_init G) es

/-- No event takes a record away. -/
theorem records_step (G : Guard) (s : State) (e : Event) :
    s.records <+: (step R G s e).records := by
  cases e with
  | newStep => exact List.prefix_refl _
  | call tool kwargs toolCallId bind policy =>
    cases bind with
    | error e => exact List.prefix_refl _
    | ok bindError =>
      rw [step]
      obtain h | h | ⟨toolHash, answer, htool, h⟩ :=
        guarded_cases G s tool kwargs toolCallId bindError policy
      · exact (congrArg State.records h).symm ▸ List.prefix_refl _
      · exact (congrArg State.records h).symm ▸ List.prefix_refl _
      · exact (congrArg State.records h).symm ▸ List.prefix_append ..

theorem records_stateAfter (G : Guard) {fs es : List Event} (h : fs <+: es) :
    (stateAfter R G fs).records <+: (stateAfter R G es).records :=
  run_grows (r := fun a b : State => a.records <+: b.records) (fun _ => List.prefix_refl _)
    (fun _ _ _ => List.IsPrefix.trans) (records_step G) State.init h

/-! ## A head binds the records below it -/

/-- What `prev` of a record can be: nothing, or a digest. -/
def IsLink (v : Json) : Prop := v = .null ∨ ∃ b, v = .str (hexStr b)

theorem plain_hexStr (b : Bytes) : Plain (hexStr b) := by
  refine List.all_eq_true.mpr fun c hc => ?_
  obtain ⟨n, hn, rfl⟩ := mem_hexStr hc
  exact (show ∀ n < 16, decide ((hexDigit n).val < 0xD800) = true by decide) n hn

theorem IsLink.mapStr_units {v : Json} (hv : IsLink v) : (normWith id v).mapStr units = v := by
  rcases hv with rfl | ⟨b, rfl⟩
  · rfl
  · exact congrArg Json.str (units_of_plain (plain_hexStr b))

/-- Only a link itself equals it. -/
theorem IsLink.eq_of_pyEq {v w : Json} (hw : IsLink w) (h : v.pyEq w = true) : v = w := by
  rcases hw with rfl | ⟨b, rfl⟩
  · exact (pyEq_null _).mp h
  · exact (pyEq_str _ _).mp h

theorem isLink_tip (records : List Json) : IsLink (tip R records) := by
  unfold tip
  split
  · exact Or.inr ⟨_, rfl⟩
  · exact Or.inl rfl

theorem recordOk_true {prev r : Json} (h : recordOk R prev r = .ok true) :
    (prevOf r).pyEq prev = true := by
  obtain ⟨v, hv, h⟩ := bind_ok.mp h
  rw [item_eq_find hv] at h
  split at h
  · cases h
  next hne => rwa [Bool.not_eq_true', Bool.not_eq_false] at hne

/-- The records of a verified list are linked, and each names nothing or a digest. -/
theorem linked_of_verifyFrom {prev : Json} {rs : List Json} (hprev : IsLink prev)
    (h : verifyFrom R prev rs = .ok true) :
    Linked prevOf (link R) prev rs ∧ ∀ r ∈ rs, IsLink (prevOf r) := by
  induction rs generalizing prev with
  | nil => exact ⟨trivial, nofun⟩
  | cons r rs ih =>
    obtain ⟨hr, hrs⟩ := verifyFrom_cons.mp h
    have heq : prevOf r = prev := hprev.eq_of_pyEq (recordOk_true hr)
    obtain ⟨hlinked, hall⟩ := ih (Or.inr ⟨_, rfl⟩) hrs
    exact ⟨⟨heq, hlinked⟩, List.forall_mem_cons.mpr ⟨heq ▸ hprev, hall⟩⟩

/-- Two records are one: they have one canonical text, so they are one value
where no text in them splits a surrogate pair. -/
def SameRecord (R : Runtime) (a b : Json) : Prop :=
  R.asciiText a = R.asciiText b ∧ (a.paired = true → b.paired = true → SameValue a b)

/-- Records with one digest are one, and name one predecessor. -/
theorem sameRecord_of_link_eq (hsha : Function.Injective R.sha256) (hf : R.dumpsFormat.Lawful)
    {a b : Json} (ha : IsLink (prevOf a)) (hb : IsLink (prevOf b)) (h : link R a = link R b) :
    SameRecord R a b ∧ prevOf a = prevOf b := by
  have htext := asciiText_eq_of_hashOf_eq hsha (Json.str.inj h)
  refine ⟨⟨htext, fun hpa hpb => Runtime.asciiText_inj hf hpa hpb htext⟩, ?_⟩
  have hprev := Runtime.asciiText_find hf (show Plain (lit "prev") by decide) htext
  exact (ha.mapStr_units.symm.trans hprev).trans hb.mapStr_units

/-- Two verified lists of records that have one head agree up to it. -/
theorem agree_up_to_head (hsha : Function.Injective R.sha256) (hf : R.dumpsFormat.Lawful)
    {rs ss : List Json} (hrs : verifyFrom R .null rs = .ok true)
    (hss : verifyFrom R .null ss = .ok true) {n : Nat} (hn : n ≤ rs.length) (hn' : n ≤ ss.length)
    (htip : tip R (rs.take n) = tip R (ss.take n)) :
    List.Forall₂ (SameRecord R) (rs.take n) (ss.take n) := by
  obtain ⟨hlr, hpr⟩ := linked_of_verifyFrom (Or.inl rfl) hrs
  obtain ⟨hls, hps⟩ := linked_of_verifyFrom (Or.inl rfl) hss
  rw [tip_eq_head, tip_eq_head] at htip
  rw [← List.take_append_drop n rs, linked_append] at hlr
  rw [← List.take_append_drop n ss, linked_append] at hls
  refine hlr.1.forall₂_of_head_eq (fun a ha b hb hab => ?_) hls.1 ?_ htip
  · exact sameRecord_of_link_eq hsha hf (hpr a (List.mem_of_mem_take ha))
      (hps b (List.mem_of_mem_take hb)) hab
  · rw [List.length_take, List.length_take, min_eq_left hn, min_eq_left hn']

theorem verifyChain_true {rs : List Json} {head : Head}
    (h : verifyChain R rs (some head) = .ok true) :
    verifyFrom R .null rs = .ok true ∧ reaches R rs head = true := by
  obtain ⟨b, hb, h⟩ := bind_ok.mp h
  cases b with
  | false => cases h
  | true => exact ⟨hb, Except.ok.inj h⟩

/-- What `reaches` compares with the head. -/
theorem tip_take {records : List Json} {n : Nat} (h0 : n ≠ 0) {r : Json}
    (h : records[n - 1]? = some r) : tip R (records.take n) = .str (hashOf R r) := by
  rw [tip, List.getLast?_take, if_neg h0, h]
  rfl

theorem reaches_iff {records : List Json} {head : Head} (hhead : IsLink head.tip)
    (hempty : head.n = 0 → head.tip = .null) :
    reaches R records head = true ↔
      head.n ≤ records.length ∧ tip R (records.take head.n) = head.tip := by
  rw [reaches, Bool.and_eq_true, decide_eq_true_eq]
  refine and_congr_right fun hlen => ?_
  by_cases h0 : head.n = 0
  · rw [h0, hempty h0]
    exact ⟨fun _ => rfl, fun _ => rfl⟩
  · obtain ⟨r, hr⟩ : ∃ r, records[head.n - 1]? = some r :=
      ⟨_, List.getElem?_eq_getElem (by omega)⟩
    rw [tip_take h0 hr, hr, Option.any_some, beq_false_of_ne h0, Bool.false_or]
    refine ⟨hhead.eq_of_pyEq, fun heq => ?_⟩
    rw [← heq]
    exact (pyEq_str _ _).mpr rfl

theorem reaches_headOf {s : State} {records : List Json} :
    reaches R records (headOf R s) = true ↔
      s.records.length ≤ records.length ∧
        tip R (records.take s.records.length) = tip R s.records := by
  refine reaches_iff (isLink_tip _) fun h => ?_
  rw [headOf, List.length_eq_zero_iff.mp h]
  rfl

/-- **Every run.** The records verify under the head, the attempt ids are distinct,
the executions are the allowed records, and a list of records that verifies under
an earlier head has the records of the run up to that head. -/
theorem run_sound (hsha : Function.Injective R.sha256) (hf : R.dumpsFormat.Lawful) (G : Guard)
    (es : List Event) :
    verifyChain R (stateAfter R G es).records (some (headOf R (stateAfter R G es))) = .ok true ∧
    ((stateAfter R G es).records.map (·.find (lit "attempt_id"))).Nodup ∧
    (stateAfter R G es).executions = (stateAfter R G es).records.countP isAllowed ∧
    ∀ fs, fs <+: es → ∀ rs, verifyChain R rs (some (headOf R (stateAfter R G fs))) = .ok true →
      (headOf R (stateAfter R G fs)).n ≤ rs.length ∧
      List.Forall₂ (SameRecord R) (rs.take (headOf R (stateAfter R G fs)).n)
        ((stateAfter R G es).records.take (headOf R (stateAfter R G fs)).n) := by
  have hinv := invariant_stateAfter (R := R) G es
  refine ⟨?_, ?_, hinv.counted, ?_⟩
  · refine bind_ok.mpr ⟨true, hinv.verified, congrArg Except.ok (reaches_headOf.mpr ⟨le_refl _, ?_⟩)⟩
    rw [List.take_length]
  · obtain ⟨ns, hids, hpair, -⟩ := hinv.numbered
    rw [hids, List.nodup_map_iff (attemptId_injective hsha hf G)]
    refine hpair.imp fun {a b} hab => ?_
    rintro rfl
    rcases hab with hlt | ⟨-, hlt⟩
    · exact lt_irrefl _ hlt
    · exact lt_irrefl _ hlt
  · intro fs hfs rs hrs
    obtain ⟨hverified, hreach⟩ := verifyChain_true hrs
    obtain ⟨hlen, htip⟩ := reaches_headOf.mp hreach
    -- the records at the time of the head come first in those of the run
    obtain ⟨gs, hgs⟩ := records_stateAfter (R := R) G hfs
    refine ⟨hlen, agree_up_to_head hsha hf hverified hinv.verified hlen ?_ ?_⟩
    · rw [← hgs, List.length_append]
      exact Nat.le_add_right ..
    · rw [← hgs]
      exact htip.trans (congrArg (tip R) List.take_left.symm)

def sampleGuard : Guard := ⟨text "run-1", text "support-agent-1", text "v3"⟩

/-- A read-only grant. -/
def readOnly (tool : Str) (args : Json) : Answer :=
  if tool = lit "read_balance" then ⟨true, text "ok", args⟩
  else ⟨false, text "capability: read-only", args⟩

/-- An allowed call, a denied one, and in the next step one that does not bind. -/
def sampleEvents : List Event :=
  [.newStep, .call (lit "read_balance") [(lit "customer", text "A")] .null (.ok none) readOnly,
    .call (lit "refund") [(lit "amount", .int 100)] .null (.ok none) readOnly, .newStep,
    .call (lit "read_balance") [(lit "unexpected", .bool true)] (text "call_abc")
      (.ok (some (lit "missing a required argument"))) readOnly]

/-- The guard after the sample events, and after the first three of them. -/
def sampleState : State := stateAfter .transparent sampleGuard sampleEvents

def earlierState : State := stateAfter .transparent sampleGuard (sampleEvents.take 3)

theorem sampleState_sound :
    verifyChain .transparent sampleState.records (some (headOf .transparent sampleState)) =
      .ok true ∧
    (sampleState.records.map (·.find (lit "attempt_id"))).Nodup ∧
    sampleState.executions = sampleState.records.countP isAllowed ∧
    List.Forall₂ (SameRecord .transparent) (earlierState.records.take 2)
      (sampleState.records.take 2) := by
  obtain ⟨hchain, hids, hcount, hbound⟩ := run_sound Runtime.transparent_injective
    (Runtime.floatToken_lawful false) sampleGuard sampleEvents
  refine ⟨hchain, hids, hcount, ?_⟩
  have hn : (headOf .transparent earlierState).n = 2 := by decide +kernel
  have hearlier := run_sound Runtime.transparent_injective
    (Runtime.floatToken_lawful false) sampleGuard (sampleEvents.take 3)
  have hagree := hbound (sampleEvents.take 3) (List.take_prefix ..) earlierState.records hearlier.1
  rw [show headOf .transparent (stateAfter .transparent sampleGuard (sampleEvents.take 3)) =
    headOf .transparent earlierState from rfl, hn] at hagree
  exact hagree.2

end Preaction.AttemptGuard
