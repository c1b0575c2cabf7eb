import Mathlib.Data.List.DropRight
import Preaction.Py.Base64

/-!
# Base64 without padding

What the signers write and the checkers read: `urlsafe_b64encode` with its `=` stripped, and
`urlsafe_b64decode` of the text with as many `=` as its length asks for.
-/

namespace Preaction.Py

/-- `base64.urlsafe_b64encode(b).rstrip(b"=").decode()` -/
def urlsafeB64bare (b : Bytes) : Str := (urlsafeB64encode b).rdropWhile (· == ofChar '=')

/-- `s + "=" * (-len(s) % 4)` -/
def repadded (s : Str) : Str := s ++ List.replicate ((4 - s.length % 4) % 4) (ofChar '=')

theorem rdropWhile_padded {ds : Str} (hds : ∀ c ∈ ds, c ≠ ofChar '=') (pads : Nat) :
    (ds ++ List.replicate pads (ofChar '=')).rdropWhile (· == ofChar '=') = ds := by
  induction pads with
  | zero =>
    rw [List.replicate_zero, List.append_nil, List.rdropWhile_eq_self_iff]
    intro hne
    rw [beq_iff_eq]
    exact hds _ (List.getLast_mem hne)
  | succ pads ih =>
    rw [List.replicate_succ', ← List.append_assoc]
    exact (List.rdropWhile_concat_pos (fun x => x == ofChar '=') _ _ (beq_self_eq_true _)).trans ih

/-- What is stripped is what `repadded` adds. -/
theorem repadded_bare (b : Bytes) : repadded (urlsafeB64bare b) = urlsafeB64encode b := by
  obtain ⟨ds, pads, heq, hds, hpads, hlen⟩ := urlsafeB64encode_eq b
  have hstrip : urlsafeB64bare b = ds := by
    unfold urlsafeB64bare
    rw [heq]
    exact rdropWhile_padded hds pads
  have hpad : (4 - ds.length % 4) % 4 = pads := by omega
  rw [hstrip, heq, repadded, hpad]

/-- **Base64 without padding is read back.** -/
theorem urlsafeB64decode_bare (b : Bytes) :
    urlsafeB64decode (repadded (urlsafeB64bare b)) = some b := by
  rw [repadded_bare, urlsafeB64decode_encode]

end Preaction.Py
