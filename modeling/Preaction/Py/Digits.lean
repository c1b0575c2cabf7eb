import Mathlib.Data.List.Induction
import Preaction.Py.Runtime

/-!
# Hex texts in either case, and canonical decimals

Two forms that a text can have for one value. A hex text denotes bytes whatever
its case, and its lower-case form is the hex of these bytes
(`lower_hexDigits`). A decimal without leading zeros is the only one of its
value (`decimalValue_inj`).
-/

namespace Preaction.Py

/-! ## Hex -/

/-- `[0-9a-fA-F]` -/
def isHexDigit (c : CodePoint) : Bool := (hexVal c).isSome

/-- `str.lower` on one ASCII character. -/
def lowerPoint (c : CodePoint) : CodePoint :=
  if 0x41 ≤ c.val ∧ c.val ≤ 0x5A then c + 0x20 else c

theorem asciiLower_eq_map (s : Str) : Runtime.asciiLower s = s.map lowerPoint := rfl

/-- The lower-case form of a hex digit is the digit of its value. -/
theorem lowerPoint_of_hexVal {c : CodePoint} {v : Nat} (h : hexVal c = some v) :
    v < 16 ∧ lowerPoint c = hexDigit v := by
  have hc := c.isLt
  unfold hexVal at h
  split at h
  · next hdig =>
    obtain rfl := Option.some.inj h
    refine ⟨by omega, Fin.ext ?_⟩
    rw [lowerPoint, if_neg (by omega), hexDigit, if_pos (by omega)]
    show c.val = (0x30 + (c.val - 0x30)) % 0x110000
    omega
  · split at h
    · next hlow =>
      obtain rfl := Option.some.inj h
      refine ⟨by omega, Fin.ext ?_⟩
      rw [lowerPoint, if_neg (by omega), hexDigit, if_neg (by omega)]
      show c.val = (0x57 + (c.val - 0x57)) % 0x110000
      omega
    · split at h
      · next hup =>
        obtain rfl := Option.some.inj h
        refine ⟨by omega, Fin.ext ?_⟩
        rw [lowerPoint, if_pos (by omega), hexDigit, if_neg (by omega)]
        show (c.val + 0x20) % 0x110000 = (0x57 + (c.val - 0x37)) % 0x110000
        omega
      · cases h

/-- A hex digit is no blank. -/
theorem isSpace_of_hexVal {c : CodePoint} {v : Nat} (h : hexVal c = some v) :
    isSpace c = false := by
  obtain ⟨hv, hc⟩ := lowerPoint_of_hexVal h
  cases hs : isSpace c with
  | false => rfl
  | true =>
    have hval : c.val ≤ 0x20 := by
      simp only [isSpace, Bool.or_eq_true, Bool.and_eq_true, beq_iff_eq, decide_eq_true_eq] at hs
      omega
    unfold hexVal at h
    rw [if_neg (by omega), if_neg (by omega), if_neg (by omega)] at h
    cases h

/-- A text of `2 * n` hex digits denotes `n` bytes, and is their hex up to case. -/
theorem lower_hexDigits {n : Nat} {s : Str} (hlen : s.length = 2 * n)
    (hs : s.all isHexDigit = true) :
    ∃ b, fromHex s = some b ∧ b.length = n ∧ Runtime.asciiLower s = hexStr b := by
  induction n generalizing s with
  | zero =>
    obtain rfl := List.length_eq_zero_iff.mp hlen
    exact ⟨[], rfl, rfl, rfl⟩
  | succ n ih =>
    match s with
    | [] => simp at hlen
    | [c] =>
      rw [List.length_singleton] at hlen
      omega
    | c :: d :: s =>
      simp only [List.all_cons, Bool.and_eq_true, isHexDigit] at hs
      obtain ⟨hc, hd, hs⟩ := hs
      obtain ⟨v, hv⟩ := Option.isSome_iff_exists.mp hc
      obtain ⟨w, hw⟩ := Option.isSome_iff_exists.mp hd
      obtain ⟨b, hb, hblen, hblow⟩ := ih (s := s)
        (by simp only [List.length_cons] at hlen; omega) hs
      obtain ⟨hv16, hvlow⟩ := lowerPoint_of_hexVal hv
      obtain ⟨hw16, hwlow⟩ := lowerPoint_of_hexVal hw
      have hbyte : (UInt8.ofNat (16 * v + w)).toNat = 16 * v + w := by
        rw [UInt8.toNat_ofNat']
        omega
      refine ⟨UInt8.ofNat (16 * v + w) :: b, ?_, by rw [List.length_cons, hblen], ?_⟩
      · rw [fromHex, isSpace_of_hexVal hv, if_neg Bool.false_ne_true]
        simp only [hv, hw, hb, Option.map_some]
      · rw [asciiLower_eq_map, List.map_cons, List.map_cons, hvlow, hwlow, ← asciiLower_eq_map,
          hblow, hexStr, hbyte, show (16 * v + w) / 16 = v by omega,
          show (16 * v + w) % 16 = w by omega]

/-! ## Decimals -/

/-- The value of a text of decimal digits. -/
def decimalValue (s : Str) : Nat := s.foldl (fun n c => 10 * n + (c.val - 0x30)) 0

theorem decimalValue_concat (s : Str) (c : CodePoint) :
    decimalValue (s ++ [c]) = 10 * decimalValue s + (c.val - 0x30) := by
  simp only [decimalValue, List.foldl_append, List.foldl_cons, List.foldl_nil]

theorem val_of_isDigit {c : CodePoint} (h : isDigit c = true) : 0x30 ≤ c.val ∧ c.val ≤ 0x39 := by
  simpa only [isDigit, Bool.and_eq_true, decide_eq_true_eq] using h

/-- A text of `n` digits is less than `10 ^ n`. -/
theorem decimalValue_lt {s : Str} (h : s.all isDigit = true) :
    decimalValue s < 10 ^ s.length := by
  induction s using List.reverseRecOn with
  | nil => decide
  | append_singleton s c ih =>
    rw [List.all_append, Bool.and_eq_true, List.all_cons, Bool.and_eq_true] at h
    have hc := val_of_isDigit h.2.1
    have hs := ih h.1
    rw [decimalValue_concat, List.length_append, List.length_singleton, Nat.pow_succ]
    omega

/-- The first digit is not a zero. -/
def NoLeadingZero (s : Str) : Prop := ∀ c ∈ s.head?, c.val ≠ 0x30

theorem decimalValue_pos {s : Str} (h : s.all isDigit = true) (hz : NoLeadingZero s)
    (hne : s ≠ []) : 0 < decimalValue s := by
  induction s using List.reverseRecOn with
  | nil => exact absurd rfl hne
  | append_singleton s c ih =>
    rw [List.all_append, Bool.and_eq_true, List.all_cons, Bool.and_eq_true] at h
    have hc := val_of_isDigit h.2.1
    rw [decimalValue_concat]
    cases s with
    | nil =>
      have := hz c rfl
      omega
    | cons d s =>
      have := ih h.1 hz (List.cons_ne_nil d s)
      omega

/-- Texts of digits without a leading zero are equal when their values are. -/
theorem decimalValue_inj {s t : Str} (hs : s.all isDigit = true) (ht : t.all isDigit = true)
    (hsz : NoLeadingZero s) (htz : NoLeadingZero t) (h : decimalValue s = decimalValue t) :
    s = t := by
  induction s using List.reverseRecOn generalizing t with
  | nil =>
    by_contra hne
    have := decimalValue_pos ht htz (Ne.symm hne)
    rw [← h] at this
    exact absurd this (by decide)
  | append_singleton s c ih =>
    have hpos := decimalValue_pos hs hsz (by simp)
    rcases List.eq_nil_or_concat' t with rfl | ⟨t, d, rfl⟩
    · rw [h] at hpos
      exact absurd hpos (by decide)
    rw [decimalValue_concat, decimalValue_concat] at h
    rw [List.all_append, Bool.and_eq_true, List.all_cons, Bool.and_eq_true] at hs ht
    have hc := val_of_isDigit hs.2.1
    have hd := val_of_isDigit ht.2.1
    have hhead (u : Str) (x : CodePoint) (hz : NoLeadingZero (u ++ [x])) : NoLeadingZero u := by
      intro y hy
      cases u with
      | nil => cases hy
      | cons z u => exact hz y hy
    obtain rfl := ih hs.1 ht.1 (hhead s c hsz) (hhead t d htz) (by omega)
    rw [Fin.ext (show c.val = d.val by omega)]

end Preaction.Py
