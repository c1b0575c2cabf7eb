import Mathlib.Data.List.Infix
import Preaction.Ledger.Entry
import Preaction.Lib.Chain
import Preaction.Lib.Loop

/-!
# `check_chain_continuity.py` — the ledger's linking invariant

`check_sequence` recomputes both hashes of every entry of a window and compares
the head an entry names with the stored head of the entry before it. A window
is continuous when every entry passes.

`continuous_iff` says what that is: both hashes of every entry recompute, and
the entries are linked. With heads that occur once, the continuous lists over
the entries of a window are its segments (`continuous_iff_segment`): leaving
one out, moving one or showing one twice is always seen.
-/

namespace Preaction.Ledger

open Preaction.Py Preaction.Chain Preaction.Loop

variable (R : Runtime)

/-- What is reported for an entry. -/
structure EntryResult where
  entry : Int
  contentHashOk : Bool
  prevLinkOk : Bool
  headHashOk : Bool
  sound : Bool
  deriving DecidableEq, Repr

/-- What `check_sequence` returns. -/
structure SequenceResult where
  entries : List EntryResult
  allContinuous : Bool
  deriving DecidableEq, Repr

/-- The checks on an entry; `prevOkHead` is null where no entry is before it. -/
def checkEntry (prevOkHead : Json) (e : Entry) : Except PyError EntryResult := do
  let contentHashOk := e.chain.contentHash.pyEq (.str (← contentHash R e.record))
  let prevLinkOk := if prevOkHead = .null then true else e.chain.prevHeadHash.pyEq prevOkHead
  let recomputed ← headHash R e.chain.contentHash e.chain.prevHeadHash
  let headHashOk := e.chain.headHash.pyEq (.str recomputed)
  return {
    entry := e.entry
    contentHashOk := contentHashOk
    prevLinkOk := prevLinkOk
    headHashOk := headHashOk
    sound := contentHashOk && prevLinkOk && headHashOk }

/-- The loop over the entries. It carries the stored head, whatever the checks said. -/
def checkEntries : Json → List Entry → Except PyError (List EntryResult)
  | _, [] => .ok []
  | prevOkHead, e :: es => do
    let result ← checkEntry R prevOkHead e
    return result :: (← checkEntries e.chain.headHash es)

/-- `check_sequence(entries)` -/
def checkSequence (entries : List Entry) : Except PyError SequenceResult := do
  let results ← checkEntries R .null entries
  return { entries := results, allContinuous := results.all (·.sound) }

/-- `check_sequence` reports the entries continuous. -/
def Continuous (entries : List Entry) : Prop :=
  ∃ result, checkSequence R entries = .ok result ∧ result.allContinuous = true

/-! ## What the checks establish -/

variable {R}

/-- An entry passes when its hashes recompute and it names the head before it. -/
theorem checkEntry_sound {prevOkHead : Json} {e : Entry} :
    (∃ r, checkEntry R prevOkHead e = .ok r ∧ r.sound = true) ↔
      Recomputes R e ∧ (prevOkHead ≠ .null → e.chain.prevHeadHash.pyEq prevOkHead = true) := by
  constructor
  · rintro ⟨r, hr, hsound⟩
    obtain ⟨c, hc, hr⟩ := bind_ok.mp hr
    obtain ⟨h, hh, hr⟩ := bind_ok.mp hr
    obtain rfl := Except.ok.inj hr
    simp only [Bool.and_eq_true] at hsound
    obtain ⟨⟨hcontent, hlink⟩, hhead⟩ := hsound
    refine ⟨⟨⟨c, hc, (Json.pyEq_str _ _).mp hcontent⟩, ⟨h, hh, (Json.pyEq_str _ _).mp hhead⟩⟩, ?_⟩
    intro hne
    rwa [if_neg hne] at hlink
  · rintro ⟨⟨⟨c, hc, hc'⟩, ⟨h, hh, hh'⟩⟩, hlink⟩
    refine ⟨_, bind_ok.mpr ⟨c, hc, bind_ok.mpr ⟨h, hh, rfl⟩⟩, ?_⟩
    have hprev : (if prevOkHead = .null then true else e.chain.prevHeadHash.pyEq prevOkHead) =
        true := by
      by_cases hne : prevOkHead = .null
      · rw [if_pos hne]
      · rw [if_neg hne, hlink hne]
    simp only [Bool.and_eq_true]
    exact ⟨⟨(Json.pyEq_str _ _).mpr hc', hprev⟩, (Json.pyEq_str _ _).mpr hh'⟩

/-- A step of the loop: the entry passes, and the rest does after its head. -/
theorem checkEntries_cons {prevOkHead : Json} {e : Entry} {es : List Entry} :
    (∃ rs, checkEntries R prevOkHead (e :: es) = .ok rs ∧ rs.all (·.sound) = true) ↔
      (∃ r, checkEntry R prevOkHead e = .ok r ∧ r.sound = true) ∧
        ∃ rs, checkEntries R e.chain.headHash es = .ok rs ∧ rs.all (·.sound) = true := by
  constructor
  · rintro ⟨rs, hrs, hall⟩
    obtain ⟨r, hr, hrs⟩ := bind_ok.mp hrs
    obtain ⟨rest, hrest, hrs⟩ := bind_ok.mp hrs
    obtain rfl := Except.ok.inj hrs
    rw [List.all_cons, Bool.and_eq_true] at hall
    exact ⟨⟨r, hr, hall.1⟩, rest, hrest, hall.2⟩
  · rintro ⟨⟨r, hr, hsound⟩, rs, hrs, hall⟩
    refine ⟨r :: rs, bind_ok.mpr ⟨r, hr, bind_ok.mpr ⟨rs, hrs, rfl⟩⟩, ?_⟩
    rw [List.all_cons, Bool.and_eq_true]
    exact ⟨hsound, hall⟩

/-- The entries are linked from `root` on. -/
abbrev LinkedFrom (root : Json) (es : List Entry) : Prop :=
  Linked (fun e : Entry => e.chain.prevHeadHash) (fun e => e.chain.headHash) root es

/-- The loop from a known head. -/
theorem checkEntries_iff {head : Str} {es : List Entry} :
    (∃ rs, checkEntries R (.str head) es = .ok rs ∧ rs.all (·.sound) = true) ↔
      (∀ e ∈ es, Recomputes R e) ∧ LinkedFrom (.str head) es := by
  induction es generalizing head with
  | nil => exact ⟨fun _ => ⟨nofun, trivial⟩, fun _ => ⟨[], rfl, rfl⟩⟩
  | cons e es ih =>
    rw [checkEntries_cons, checkEntry_sound, List.forall_mem_cons]
    have hlink : ((Json.str head ≠ .null) → e.chain.prevHeadHash.pyEq (.str head) = true) ↔
        e.chain.prevHeadHash = .str head := by
      rw [Json.pyEq_str]
      exact ⟨fun h => h nofun, fun h _ => h⟩
    rw [hlink]
    -- the head of an entry that recomputes is a text, which the rest starts from
    constructor
    · rintro ⟨⟨hrec, hprev⟩, hrest⟩
      obtain ⟨h, -, hh⟩ := hrec.head
      rw [hh, ih] at hrest
      exact ⟨⟨hrec, hrest.1⟩, hprev, show LinkedFrom e.chain.headHash es from hh ▸ hrest.2⟩
    · rintro ⟨⟨hrec, hall⟩, hprev, hlinked⟩
      obtain ⟨h, -, hh⟩ := hrec.head
      refine ⟨⟨hrec, hprev⟩, ?_⟩
      rw [hh, ih]
      exact ⟨hall, hh ▸ hlinked⟩

/-- A window is continuous when every hash recomputes and every entry names the
head of the one before it. -/
theorem continuous_iff {es : List Entry} :
    Continuous R es ↔ (∀ e ∈ es, Recomputes R e) ∧ ∃ root, LinkedFrom root es := by
  have hrun : Continuous R es ↔
      ∃ rs, checkEntries R .null es = .ok rs ∧ rs.all (·.sound) = true := by
    constructor
    · rintro ⟨result, h, hall⟩
      obtain ⟨rs, hrs, h⟩ := bind_ok.mp h
      obtain rfl := Except.ok.inj h
      exact ⟨rs, hrs, hall⟩
    · rintro ⟨rs, hrs, hall⟩
      exact ⟨_, bind_ok.mpr ⟨rs, hrs, rfl⟩, hall⟩
  rw [hrun]
  cases es with
  | nil => exact ⟨fun _ => ⟨nofun, .null, trivial⟩, fun _ => ⟨[], rfl, rfl⟩⟩
  | cons e es =>
    rw [checkEntries_cons, checkEntry_sound, List.forall_mem_cons]
    constructor
    · rintro ⟨⟨hrec, -⟩, hrest⟩
      obtain ⟨h, -, hh⟩ := hrec.head
      rw [hh, checkEntries_iff] at hrest
      exact ⟨⟨hrec, hrest.1⟩, _, rfl, show LinkedFrom e.chain.headHash es from hh ▸ hrest.2⟩
    · rintro ⟨⟨hrec, hall⟩, root, -, hlinked⟩
      obtain ⟨h, -, hh⟩ := hrec.head
      refine ⟨⟨hrec, fun h => absurd rfl h⟩, ?_⟩
      rw [hh, checkEntries_iff]
      exact ⟨hall, hh ▸ hlinked⟩

/-- Every omission, reorder and repetition inside a window is seen: the continuous
lists over its entries are its segments. -/
theorem continuous_iff_segment {es l : List Entry} (h : Continuous R es)
    (hdistinct : ((es.head?.map (·.chain.prevHeadHash)).toList ++
      es.map (·.chain.headHash)).Nodup) (hl : ∀ e ∈ l, e ∈ es) :
    Continuous R l ↔ l <:+: es ∧ l.Nodup := by
  obtain ⟨hrec, root, hlinked⟩ := continuous_iff.mp h
  cases es with
  | nil =>
    obtain rfl : l = [] := List.eq_nil_iff_forall_not_mem.mpr fun e he => nomatch hl e he
    exact ⟨fun _ => ⟨List.nil_infix, List.nodup_nil⟩, fun _ => h⟩
  | cons e es =>
    have hroot : root = e.chain.prevHeadHash := hlinked.1.symm
    have hnd : (root :: (e :: es).map (·.chain.headHash)).Nodup := hroot ▸ hdistinct
    have hall : ∀ x ∈ l, Recomputes R x := fun x hx => hrec x (hl x hx)
    have hseg := exists_linked_iff_infix hlinked hnd hl
    rw [continuous_iff]
    constructor
    · rintro ⟨-, hl⟩
      have hpart := hseg.mp hl
      exact ⟨hpart, (List.Nodup.of_map _ (List.nodup_cons.mp hnd).2).sublist hpart.sublist⟩
    · rintro ⟨hpart, -⟩
      exact ⟨hall, hseg.mpr hpart⟩

/-- Leaving the middle entry out is seen. -/
theorem sampleLedger_omission :
    ¬ Continuous .sample ((sampleLedger .sample).take 1 ++ (sampleLedger .sample).drop 2) := by
  have hcont : Continuous .sample (sampleLedger .sample) := by
    obtain ⟨result, hresult, hall⟩ := map_ok.mp (show
      (checkSequence .sample (sampleLedger .sample)).map (·.allContinuous) = .ok true by
        decide +kernel)
    exact ⟨result, hresult, hall⟩
  intro h
  have hseg := (continuous_iff_segment hcont (by decide +kernel) (by decide +kernel)).mp h
  exact absurd hseg.1 (by decide +kernel)

end Preaction.Ledger
