import Preaction.EvidenceSet
import Preaction.ScanSubject
import Preaction.VendoredJcs

/-!
# `check_sequence_integrity.py` — the root over a receipt sequence

`build_root` joins neighbours level after level and promotes an odd last value.
The level loop of `evidence_root` does the same over the pinned sources, and
`mth` of `scan-subject-binding` splits at the largest power of two instead. The
three are one tree (`buildRoot_eq_mth`), whatever joins two values.

Mirroring notes:
- `node_hash` is a global of the source; here it is an argument.
- `cur[0]` of an empty list raises; here the root is none.
-/

namespace Preaction.SequenceIntegrity

open Preaction.Py

variable {β : Type}

/-- `build_root(leaves)` -/
def buildRoot (nodeHash : β → β → β) (leaves : List β) : Option β :=
  Merkle.root nodeHash id leaves

/-- The level loop computes the root of the recursive split, for every way to join two
values; so does the one inside `evidence_root`, over the leaves of the pinned sources. -/
theorem buildRoot_eq_mth :
    (∀ (node : β → β → β) (leaves : List β), leaves ≠ [] →
      ∃ r, buildRoot node leaves = some r ∧ Merkle.mth node leaves = some r) ∧
    (∀ (R : Runtime) (ls : List Bytes), buildRoot (ScanSubject.node R) ls = ScanSubject.mth R ls) ∧
    ∀ (R : Runtime) (sources : List Json) (keys : List (List Bytes)),
      EvidenceSet.pinnedKeys sources = .ok keys → EvidenceSet.evidenceRoot R sources =
        .ok ((Merkle.mth (EvidenceSet.node R) (keys.map (EvidenceSet.leaf R))).map hexStr) := by
  refine ⟨?_, ?_, ?_⟩
  · intro node leaves h
    obtain ⟨r, hr⟩ := Merkle.exists_mth node h
    exact ⟨r, (Merkle.root_eq_mth leaves).trans hr, hr⟩
  · intro R ls
    exact Merkle.root_eq_mth ls
  · intro R sources keys h
    unfold EvidenceSet.evidenceRoot
    rw [h, ← Merkle.root_eq_mth]
    rfl

/-- Five leaves, one more than a power of two, with nodes that show the tree. -/
theorem buildRoot_five : ∃ r, buildRoot (fun l r => "(" ++ l ++ " " ++ r ++ ")")
    ["a", "b", "c", "d", "e"] = some r ∧
    Merkle.mth (fun l r => "(" ++ l ++ " " ++ r ++ ")") ["a", "b", "c", "d", "e"] = some r :=
  buildRoot_eq_mth.1 _ _ (by simp)

/-! ## The leaves -/

variable (R : Runtime)

/-- `jcs(obj)` -/
def jcs (obj : Json) : Except PyError Str := VendoredJcs.jcs R obj

/-- `leaf_hash(jcs(lp).encode())` -/
def payloadLeaf (lp : Json) : Except PyError Bytes := do
  return R.sha256 (0x00 :: (← utf8 (← jcs R lp)))

end Preaction.SequenceIntegrity
