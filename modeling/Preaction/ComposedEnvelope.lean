import Preaction.SequenceIntegrity

/-!
# `check_composed_envelope.py` — the payload is its own canonical form

The bytes of a payload have to be what `jcs` writes of the value they denote. That
`jcs`, and the copy of it in `check_sequence_integrity.py`, is `tools/_rfc8785.jcs` on
integers that are exact (`vendored_agree_iff`); from `2^53` on most are not, and the
two ask for different bytes.

Mirroring notes:
- The value of the payload is an argument.
- `UnicodeEncodeError` is a `ValueError`; an `AssertionError` is not caught.
-/

namespace Preaction.ComposedEnvelope

open Preaction.Py Preaction.Loop Rfc8785 VendoredJcs

variable (R : Runtime)

/-- `jcs(obj)` -/
def jcs (obj : Json) : Except PyError Str := VendoredJcs.jcs R obj

/-- `canon_ok` of a payload that denotes `payloadObj`. -/
def canonOk (payloadObj : Json) (payload : Bytes) : Except PyError Bool :=
  match (do utf8 (← jcs R payloadObj)) with
  | .ok recomputed => .ok (recomputed == payload)
  | .error .valueError | .error .unicodeEncodeError => .ok false
  | .error e => .error e

variable {R}

/-- On a value whose numbers are integers both vendored canonicalizers give the texts of
`tools/_rfc8785.py` exactly where both raise, at a key or at an integer of too many
digits, or all integers are exact. -/
theorem vendored_agree_iff {v : Json} (hlimit : DigitLimit R)
    (hlower : ∀ s, (∀ c ∈ s, c.val < 0x80) → R.lower s = Runtime.asciiLower s)
    (hints : ∀ x, ¬ Within (.float x) v) (hrepr : ∀ n, Within (.int n) v → ReprAt R n) :
    ((∀ t, jcs R v = .ok t ↔ Rfc8785.jcs R v = .ok t) ∧
      ∀ t, SequenceIntegrity.jcs R v = .ok t ↔ Rfc8785.jcs R v = .ok t) ↔
      (ScalarKeys v → (∃ n, Within (.int n) v ∧ TooLong R n) ∨
        ∀ n, Within (.int n) v → Exact n) := by
  have hagree := agree_iff hlimit hlower hints hrepr
  exact ⟨fun h => hagree.mp h.1, fun h => ⟨hagree.mpr h, hagree.mpr h⟩⟩

/-- The sizes of two trees, the first of them `2^53 + 2`. -/
def sampleSizes : Json := object [("tree_sizes", .arr [.int 9007199254740994, .int 7])]

/-- `repr(float(2 ** 53 + 2))` -/
def sampleForm : DecimalForm := ⟨lit "9007199254740994", some (lit "0"), none⟩

def sampleRuntime : Runtime := { Runtime.sample with floatRepr := fun _ => sampleForm.text }

theorem sampleForm_value : sampleForm.value = (9007199254740994 : Nat) := by
  have hdigits : decimalValue (sampleForm.whole ++ sampleForm.fraction) = 90071992547409940 := by
    decide
  have hexp : sampleForm.exponent - sampleForm.fraction.length = -1 := by
    decide
  rw [DecimalForm.value, hdigits, hexp]
  norm_num

theorem sampleForm_shortest : Decimal.Shortest (ReadsAs 1076 1) (integralValue 1076 1)
    (9007199254740994 : Nat) := by
  have hvalue : integralValue 1076 1 = 9007199254740994 := by decide
  refine ⟨readsAs_natCast.mpr ⟨by decide, by decide⟩, ?_, ?_⟩
  · rintro r D hr ⟨d, k, hd, rfl⟩
    by_cases hD : 16 ≤ D
    · refine ⟨9007199254740994, 0, ?_, by simp⟩
      exact lt_of_lt_of_le (by norm_num) (Nat.pow_le_pow_right (by decide) hD)
    · -- a decimal of fewer digits this large is a multiple of ten
      have hnear := hr.near (by decide)
      rw [hvalue, show (1076 : Fin 2047).val - 1076 = 0 from rfl, pow_zero, abs_le] at hnear
      push_cast at hnear
      have hd15 : d < 10 ^ 15 :=
        lt_of_lt_of_le hd (Nat.pow_le_pow_right (by decide) (by omega))
      rcases le_or_gt k 0 with hk | hk
      · have hone : (10 : Rat) ^ k ≤ 1 := zpow_le_one_of_nonpos₀ (by norm_num) hk
        have hd' : (d : Rat) < 10 ^ 15 := by exact_mod_cast hd15
        have hle : d * (10 : Rat) ^ k ≤ d * 1 := mul_le_mul_of_nonneg_left hone (Nat.cast_nonneg d)
        linarith
      · obtain ⟨j, rfl⟩ := Int.eq_succ_of_zero_lt hk
        have hpow : (10 : Rat) ^ ((j : Int) + 1) = 10 ^ (j + 1) := by
          rw [← zpow_natCast]
          rfl
        rw [hpow] at hnear
        have hlow : 9007199254740994 ≤ d * 10 ^ (j + 1) + 1 := by
          have : (9007199254740994 : Rat) ≤ d * 10 ^ (j + 1) + 1 := by
            linarith [hnear.1]
          exact_mod_cast this
        have hhigh : d * 10 ^ (j + 1) ≤ 9007199254740994 + 1 := by
          have : (d : Rat) * 10 ^ (j + 1) ≤ 9007199254740994 + 1 := by
            linarith [hnear.2]
          exact_mod_cast this
        rw [pow_succ, ← mul_assoc] at hlow hhigh
        omega
  · intro r _ _
    rw [hvalue, sub_self, abs_zero]
    exact abs_nonneg _

theorem sampleForm_repr : ReprOf sampleRuntime 1076 1 sampleForm where
  text := rfl
  wellFormed := by
    refine ⟨by decide, rfl, ?_, ?_⟩
    · rintro f ⟨⟩
      exact ⟨by decide, rfl⟩
    · rintro e ⟨⟩
  exponent neg ds h := by cases h
  shortest := by
    rw [sampleForm_value]
    exact sampleForm_shortest

theorem within_sampleSizes {w : Json} (h : Within w sampleSizes) :
    w = sampleSizes ∨ w = .arr [.int 9007199254740994, .int 7] ∨ w = .int 9007199254740994 ∨
      w = .int 7 := by
  rcases h with _ | _ | ⟨hx, hw⟩
  · exact Or.inl rfl
  · obtain ⟨-, rfl⟩ : _ ∧ _ := by
      simpa [sampleSizes, object] using mem_of_lookup hx
    rcases hw with _ | ⟨hx, hw⟩
    · exact Or.inr (Or.inl rfl)
    · rcases List.mem_cons.mp hx with rfl | hx
      · cases hw
        exact Or.inr (Or.inr (Or.inl rfl))
      · obtain rfl := List.mem_singleton.mp hx
        cases hw
        exact Or.inr (Or.inr (Or.inr rfl))

theorem vendored_agree_sample :
    ((∀ t, jcs sampleRuntime sampleSizes = .ok t ↔ Rfc8785.jcs sampleRuntime sampleSizes = .ok t) ∧
      ∀ t, SequenceIntegrity.jcs sampleRuntime sampleSizes = .ok t ↔
        Rfc8785.jcs sampleRuntime sampleSizes = .ok t) ↔
      (ScalarKeys sampleSizes → (∃ n, Within (.int n) sampleSizes ∧ TooLong sampleRuntime n) ∨
        ∀ n, Within (.int n) sampleSizes → Exact n) := by
  refine vendored_agree_iff (Or.inr (by decide)) (fun _ _ => rfl) ?_ ?_
  · intro x hx
    rcases within_sampleSizes hx with h | h | h | h <;> cases h
  · intro n hn hlarge exp frac hround
    rcases within_sampleSizes hn with h | h | h | h
    · cases h
    · cases h
    · obtain rfl := Json.int.inj h
      have hdouble : roundToDouble false 9007199254740994 1 = .fin false 1076 1 := by decide
      obtain ⟨-, rfl, rfl⟩ := PyFloat.fin.inj (hround.symm.trans hdouble)
      exact ⟨sampleForm, sampleForm_repr⟩
    · obtain rfl := Json.int.inj h
      exact absurd hlarge (by decide)

/-- A tree size that is no double. -/
def oddSize : Json := object [("tree_size", .int 9007199254740993)]

theorem oddSize_differs : (∀ x, ¬ Within (.float x) oddSize) ∧
    jcs WarCheck.exactRuntime oddSize = .ok (lit "\x7b\"tree_size\":9007199254740993\x7d") ∧
    SequenceIntegrity.jcs WarCheck.exactRuntime oddSize =
      .ok (lit "\x7b\"tree_size\":9007199254740993\x7d") ∧
    Rfc8785.jcs WarCheck.exactRuntime oddSize =
      .ok (lit "\x7b\"tree_size\":9007199254740992\x7d") := by
  refine ⟨?_, by decide +kernel, by decide +kernel, by decide +kernel⟩
  rintro x (_ | _ | ⟨hx, hw⟩)
  obtain ⟨-, rfl⟩ : _ ∧ _ := by
    simpa [oddSize, object] using mem_of_lookup hx
  cases hw

/-- Where the texts agree a payload passes exactly when it is the RFC 8785 bytes. -/
theorem canonOk_iff {v : Json} (h : ∀ t, jcs R v = .ok t ↔ Rfc8785.jcs R v = .ok t)
    (payload : Bytes) :
    canonOk R v payload = .ok true ↔ (do utf8 (← Rfc8785.jcs R v)) = .ok payload := by
  have hbytes (b : Bytes) : (do utf8 (← jcs R v)) = .ok b ↔
      (do utf8 (← Rfc8785.jcs R v)) = .ok b := by
    rw [bind_ok, bind_ok]
    exact exists_congr fun t => and_congr_left fun _ => h t
  rw [← hbytes, canonOk]
  cases (do utf8 (← jcs R v) : Except PyError Bytes) with
  | error e => cases e <;> simp
  | ok b => rw [Except.ok.injEq, Except.ok.injEq, beq_iff_eq]

/-- Where the texts agree a leaf is the hash of the RFC 8785 bytes. -/
theorem payloadLeaf_iff {v : Json}
    (h : ∀ t, SequenceIntegrity.jcs R v = .ok t ↔ Rfc8785.jcs R v = .ok t) (leaf : Bytes) :
    SequenceIntegrity.payloadLeaf R v = .ok leaf ↔
      (do return R.sha256 (0x00 :: (← utf8 (← Rfc8785.jcs R v)))) = .ok leaf := by
  rw [SequenceIntegrity.payloadLeaf, bind_ok, bind_ok]
  exact exists_congr fun t => and_congr_left fun _ => h t

end Preaction.ComposedEnvelope
