import Preaction.Ledger.Continuity
import Preaction.Ledger.Session

/-!
# The two checkers of the ledger agree

`check_sequence` and `session_chain_check.check` run over the same entries with
different state: a null sentinel and one flag per entry there, the first
entry's own `prev_head_hash` and accumulated reasons here. Without external
heads they raise on the same logs, and a log is not FAIL exactly when the
sequence is continuous and numbered without gaps (`check_iff_checkSequence`).

One reading differs: `session_chain_check` compares the first
`prev_head_hash` with itself, which a NaN does not survive, and
`check_sequence` takes it as given.
-/

namespace Preaction.Ledger

open Preaction.Py Preaction.Chain Preaction.Loop

variable {R : Runtime}

/-- The entry numbers count up by one. -/
def Consecutive (entries : List Entry) : Prop :=
  entries.IsChain fun a b => b.entry = a.entry + 1

/-- Both hashes of an entry, in the order in which either checker computes them. -/
def hashes (R : Runtime) (e : Entry) : Except PyError (Str × Str) := do
  let c ← contentHash R e.record
  let h ← headHash R e.chain.contentHash e.chain.prevHeadHash
  return (c, h)

theorem hashes_error {e : Entry} {x : PyError} : hashes R e = .error x ↔
    contentHash R e.record = .error x ∨ ∃ c, contentHash R e.record = .ok c ∧
      headHash R e.chain.contentHash e.chain.prevHeadHash = .error x := by
  unfold hashes
  rw [bind_error]
  refine or_congr_right (exists_congr fun c => and_congr_right fun _ => ?_)
  rw [bind_error]
  exact or_iff_left fun ⟨_, _, h⟩ => nomatch h

theorem checkEntry_error {prevOkHead : Json} {e : Entry} {x : PyError} :
    checkEntry R prevOkHead e = .error x ↔ hashes R e = .error x := by
  unfold checkEntry
  rw [hashes_error, bind_error]
  refine or_congr_right (exists_congr fun c => and_congr_right fun _ => ?_)
  rw [bind_error]
  exact or_iff_left fun ⟨_, _, h⟩ => nomatch h

theorem entryReasons_error {i : Nat} {before : Option Entry} {prev : Json} {e : Entry}
    {x : PyError} : Session.entryReasons R i before prev e = .error x ↔
      hashes R e = .error x := by
  unfold Session.entryReasons
  rw [hashes_error, bind_error]
  refine or_congr_right (exists_congr fun c => and_congr_right fun _ => ?_)
  rw [bind_error]
  exact or_iff_left fun ⟨_, _, h⟩ => nomatch h

/-- A loop over the entries whose step raises where the hashes of its entry do. -/
theorem loop_error {α β : Type} {step : Except PyError α} {rest : Except PyError β}
    {out : α → β → γ} {e : Entry} {es : List Entry} {x : PyError}
    (hstep : ∀ y, step = .error y ↔ hashes R e = .error y)
    (hrest : ∀ y, rest = .error y ↔ es.mapM (hashes R) = .error y) :
    (step >>= fun a => rest >>= fun b => pure (out a b)) = .error x ↔
      (e :: es).mapM (hashes R) = .error x := by
  rw [List.mapM_cons, bind_error, bind_error, hstep]
  have hthen (y : β → γ) : (rest >>= fun b => pure (y b)) = .error x ↔ rest = .error x := by
    rw [bind_error]
    exact or_iff_left fun ⟨_, _, h⟩ => nomatch h
  have hthen' (y : List (Str × Str) → List (Str × Str)) :
      (es.mapM (hashes R) >>= fun b => pure (y b)) = .error x ↔
        es.mapM (hashes R) = .error x := by
    rw [bind_error]
    exact or_iff_left fun ⟨_, _, h⟩ => nomatch h
  have hok := exists_ok_of_raises hstep
  constructor
  · intro h
    rcases h with h | ⟨a, ha, h⟩
    · exact Or.inl h
    · obtain ⟨b, hb⟩ := hok.mp ⟨a, ha⟩
      exact Or.inr ⟨b, hb, (hthen' _).mpr ((hrest x).mp ((hthen _).mp h))⟩
  · intro h
    rcases h with h | ⟨b, hb, h⟩
    · exact Or.inl h
    · obtain ⟨a, ha⟩ := hok.mpr ⟨b, hb⟩
      exact Or.inr ⟨a, ha, (hthen _).mpr ((hrest x).mpr ((hthen' _).mp h))⟩

theorem entriesReasons_error {i : Nat} {before : Option Entry} {prev : Json} {es : List Entry}
    {x : PyError} : Session.entriesReasons R i before prev es = .error x ↔
      es.mapM (hashes R) = .error x := by
  induction es generalizing i before prev x with
  | nil => exact ⟨nofun, nofun⟩
  | cons e es ih => exact loop_error (fun _ => entryReasons_error) fun _ => ih

theorem checkEntries_error {prevOkHead : Json} {es : List Entry} {x : PyError} :
    checkEntries R prevOkHead es = .error x ↔ es.mapM (hashes R) = .error x := by
  induction es generalizing prevOkHead x with
  | nil => exact ⟨nofun, nofun⟩
  | cons e es ih => exact loop_error (fun _ => checkEntry_error) fun _ => ih

/-! ## What is accepted -/

/-- The session's loop after an entry that recomputes. -/
theorem entriesReasons_iff {i : Nat} {b : Entry} {es : List Entry} (hb : Recomputes R b) :
    Session.entriesReasons R i (some b) b.chain.headHash es = .ok [] ↔
      (∀ e ∈ es, Recomputes R e) ∧ LinkedFrom b.chain.headHash es ∧ Consecutive (b :: es) := by
  induction es generalizing i b with
  | nil => exact ⟨fun _ => ⟨nofun, trivial, .singleton b⟩, fun _ => rfl⟩
  | cons e es ih =>
    obtain ⟨t, -, ht⟩ := hb.head
    have hlink : e.chain.prevHeadHash.pyEq b.chain.headHash = true ↔
        e.chain.prevHeadHash = b.chain.headHash := by
      rw [ht]
      exact Json.pyEq_str _ _
    rw [Session.entriesReasons_cons, Session.entryReasons_nil, hlink, List.forall_mem_cons]
    unfold Consecutive at ih ⊢
    rw [List.isChain_cons_cons]
    constructor
    · intro ⟨⟨hnum, hprev, hrec⟩, hrest⟩
      obtain ⟨hall, hlinked, hchain⟩ := (ih hrec).mp hrest
      exact ⟨⟨hrec, hall⟩, ⟨hprev, hlinked⟩, hnum b rfl, hchain⟩
    · intro ⟨⟨hrec, hall⟩, ⟨hprev, hlinked⟩, hnum, hchain⟩
      refine ⟨⟨?_, hprev, hrec⟩, (ih hrec).mpr ⟨hall, hlinked, hchain⟩⟩
      intro c hc
      obtain rfl := Option.some.inj hc
      exact hnum

/-- A non-empty log without external heads is not FAIL when its loop finds nothing. -/
theorem check_nil_heads {e : Entry} {es : List Entry} :
    (∃ r why, Session.check R (e :: es) [] = .ok (r, why) ∧ r ≠ .fail) ↔
      Session.entriesReasons R 0 none e.chain.prevHeadHash (e :: es) = .ok [] := by
  constructor
  · intro ⟨r, why, h, hr⟩
    obtain ⟨reasons, hreasons, h⟩ := bind_ok.mp h
    cases reasons with
    | nil => exact hreasons
    | cons w ws =>
      obtain ⟨rfl, -⟩ := Prod.mk.inj (Except.ok.inj h)
      exact absurd rfl hr
  · intro h
    exact ⟨.cannotEstablish, _, bind_ok.mpr ⟨[], h, rfl⟩, nofun⟩

theorem pyEq_self_iff (a : Json) : a.pyEq a = true ↔ a ≠ .float .nan := by
  unfold Json.pyEq
  rw [Json.pySame_refl, Bool.true_and, bne_iff_ne]

/-- Without external heads the two checkers raise on the same logs, and the session
is not FAIL exactly when the sequence is continuous, its numbers count up by one
and the first head that it names is no NaN. -/
theorem check_iff_checkSequence {entries : List Entry} (h : entries ≠ []) :
    (∀ x, Session.check R entries [] = .error x ↔ checkSequence R entries = .error x) ∧
      ((∃ r why, Session.check R entries [] = .ok (r, why) ∧ r ≠ .fail) ↔
        Continuous R entries ∧ Consecutive entries ∧
          ∀ e ∈ entries.head?, e.chain.prevHeadHash ≠ .float .nan) := by
  cases entries with
  | nil => exact absurd rfl h
  | cons e es =>
    constructor
    · intro x
      have hsession : Session.check R (e :: es) [] = .error x ↔
          (e :: es).mapM (hashes R) = .error x := by
        rw [← @entriesReasons_error R 0 none e.chain.prevHeadHash]
        unfold Session.check
        dsimp only
        rw [bind_error]
        refine or_iff_left ?_
        intro ⟨why, _, h⟩
        cases why with
        | nil => cases h
        | cons w ws => cases h
      have hsequence : checkSequence R (e :: es) = .error x ↔
          (e :: es).mapM (hashes R) = .error x := by
        rw [← @checkEntries_error R .null]
        unfold checkSequence
        rw [bind_error]
        exact or_iff_left fun ⟨_, _, h⟩ => nomatch h
      rw [hsession, hsequence]
    · have hfirst : (∀ b ∈ (e :: es).head?, b.chain.prevHeadHash ≠ .float .nan) ↔
          e.chain.prevHeadHash.pyEq e.chain.prevHeadHash = true := by
        rw [pyEq_self_iff]
        exact ⟨fun h => h e rfl, fun h b hb => Option.some.inj hb ▸ h⟩
      rw [check_nil_heads, Session.entriesReasons_cons, Session.entryReasons_nil, hfirst,
        continuous_iff, List.forall_mem_cons]
      constructor
      · intro h
        obtain ⟨⟨-, hself, hrec⟩, hrest⟩ := h
        obtain ⟨hall, hlinked, hchain⟩ := (entriesReasons_iff hrec).mp hrest
        exact ⟨⟨⟨hrec, hall⟩, _, rfl, hlinked⟩, hchain, hself⟩
      · intro h
        obtain ⟨⟨⟨hrec, hall⟩, root, -, hlinked⟩, hchain, hself⟩ := h
        exact ⟨⟨nofun, hself, hrec⟩, (entriesReasons_iff hrec).mpr ⟨hall, hlinked, hchain⟩⟩

/-- The two checkers raise and accept alike on the sample ledger. -/
theorem sampleLedger_agree :
    (∀ x, Session.check .sample (sampleLedger .sample) [] = .error x ↔
      checkSequence .sample (sampleLedger .sample) = .error x) ∧
      ((∃ r why, Session.check .sample (sampleLedger .sample) [] = .ok (r, why) ∧ r ≠ .fail) ↔
        Continuous .sample (sampleLedger .sample) ∧ Consecutive (sampleLedger .sample) ∧
          ∀ e ∈ (sampleLedger .sample).head?, e.chain.prevHeadHash ≠ .float .nan) :=
  check_iff_checkSequence (by decide +kernel)

/-- A runtime that writes a NaN as Python does. -/
def nanRuntime : Runtime :=
  { Runtime.sample with strOf := fun x => if x = .float .nan then lit "nan" else [] }

/-- One entry on a head that is a NaN. -/
def nanLedger : List Entry :=
  let c := nanRuntime.sha256Hex (utf8Bytes (nanRuntime.canonText (text "a")))
  let h := nanRuntime.sha256Hex (utf8Bytes (headText nanRuntime (.str c) (.float .nan)))
  [⟨40, text "a", ⟨.float .nan, .str c, .str h⟩⟩]

/-- A NaN as the first head is continuous to one checker and FAIL to the other. -/
theorem nanLedger_disagree : Continuous nanRuntime nanLedger ∧ Consecutive nanLedger ∧
    ¬ ∃ r why, Session.check nanRuntime nanLedger [] = .ok (r, why) ∧ r ≠ .fail := by
  refine ⟨?_, .singleton _, ?_⟩
  · obtain ⟨result, hresult, hall⟩ := map_ok.mp (show
      (checkSequence nanRuntime nanLedger).map (·.allContinuous) = .ok true by decide +kernel)
    exact ⟨result, hresult, hall⟩
  · intro ⟨r, why, h, hr⟩
    obtain ⟨⟨q, why'⟩, hrun, hq⟩ := map_ok.mp (show
      (Session.check nanRuntime nanLedger []).map (·.1) = .ok .fail by decide +kernel)
    rw [hrun] at h
    obtain ⟨rfl, -⟩ := Prod.mk.inj (Except.ok.inj h)
    exact hr hq

end Preaction.Ledger
