import Mathlib.Data.List.Basic
import Mathlib.Tactic.Linarith

/-!
# Python text and bytes

The runtime layer under every checker of the repository: a `str` is a list
of code points, a `bytes` is a list of octets. Lone surrogates are code
points like any other (a `str` read from JSON can hold them), and it is
only `utf8` that refuses them, as `str.encode` does.

What the checkers do with text is small and concrete: UTF-8, hex in both
directions, decimal digits, prefixes. Each of these is defined here with
the one or two facts the proofs above rest on: `utf8` and `decimal` are
injective, `hexStr` is read back by `fromHex`.

Mirroring notes:
- `str.lower` is Unicode case conversion in Python and in JavaScript. The
  tables are not modelled; the models take the function as a parameter.
- `bytes.fromhex` skips ASCII whitespace between two pairs of digits and
  raises on anything else; here it returns `none` where Python raises.
-/

namespace Preaction.Py

/-- A Unicode code point, surrogates included. -/
abbrev CodePoint := Fin 0x110000

/-- A Python `str`. -/
abbrev Str := List CodePoint

instance neZeroCodePoint : NeZero 0x110000 := ⟨by decide⟩

instance lawfulBEqStr : LawfulBEq Str := inferInstance

/-- A Python `bytes`. -/
abbrev Bytes := List UInt8

/-- The exceptions the modelled code can raise. -/
inductive PyError
  | typeError
  | keyError
  | indexError
  | attributeError
  | valueError
  | unicodeEncodeError
  | stopIteration
  | overflowError
  | assertionError
  deriving DecidableEq, Repr

/-- A Lean character as a code point. -/
def ofChar (c : Char) : CodePoint := Fin.ofNat _ c.toNat

/-- A string literal of the source. -/
def lit (s : String) : Str := s.toList.map ofChar

theorem ofChar_val (c : Char) : (ofChar c).val = c.toNat := by
  have h : c.toNat < 0x110000 := by
    rcases c.valid with h | ⟨_, h⟩
    · exact Nat.lt_trans h (by decide)
    · exact h
  exact Nat.mod_eq_of_lt h

theorem ofChar_injective : Function.Injective ofChar := by
  intro c d h
  have hv := congrArg Fin.val h
  rw [ofChar_val, ofChar_val] at hv
  exact Char.toNat_inj.mp hv

theorem lit_injective : Function.Injective lit := by
  intro s t h
  exact String.toList_inj.mp (List.map_injective_iff.mpr ofChar_injective h)

/-! ## UTF-8 -/

/-- `0xD800 <= o <= 0xDFFF`. -/
def isSurrogate (c : CodePoint) : Bool := 0xD800 ≤ c.val && c.val ≤ 0xDFFF

/-- The UTF-8 form of one code point. -/
def utf8Point (c : CodePoint) : Bytes :=
  let n := c.val
  if n < 0x80 then [UInt8.ofNat n]
  else if n < 0x800 then [UInt8.ofNat (0xC0 + n / 64), UInt8.ofNat (0x80 + n % 64)]
  else if n < 0x10000 then
    [UInt8.ofNat (0xE0 + n / 4096), UInt8.ofNat (0x80 + n / 64 % 64), UInt8.ofNat (0x80 + n % 64)]
  else
    [UInt8.ofNat (0xF0 + n / 262144), UInt8.ofNat (0x80 + n / 4096 % 64),
      UInt8.ofNat (0x80 + n / 64 % 64), UInt8.ofNat (0x80 + n % 64)]

/-- The UTF-8 form of a text, surrogates encoded like any code point. -/
def utf8Bytes : Str → Bytes
  | [] => []
  | c :: cs => utf8Point c ++ utf8Bytes cs

/-- `s.encode("utf-8")`: a lone surrogate raises `UnicodeEncodeError`. -/
def utf8 (s : Str) : Except PyError Bytes :=
  if s.any isSurrogate then .error .unicodeEncodeError else .ok (utf8Bytes s)

theorem utf8_ok {s : Str} {b : Bytes} (h : utf8 s = .ok b) : b = utf8Bytes s := by
  unfold utf8 at h
  split at h
  next => cases h
  next => exact (Except.ok.inj h).symm

/-- Only NUL has a zero octet. -/
theorem zero_notMem_utf8Bytes {s : Str} (h : (0 : CodePoint) ∉ s) :
    (0 : UInt8) ∉ utf8Bytes s := by
  have hbyte {n : Nat} (hn : n % 256 ≠ 0) : (0 : UInt8) ≠ UInt8.ofNat n := by
    intro he
    have := congrArg UInt8.toNat he
    rw [UInt8.toNat_ofNat', UInt8.toNat_zero] at this
    omega
  induction s with
  | nil => exact List.not_mem_nil
  | cons c s ih =>
    have hc : c.val ≠ 0 := fun h0 => h (List.mem_cons.mpr (Or.inl (Fin.ext h0.symm)))
    have hlt := c.isLt
    rw [utf8Bytes, List.mem_append, not_or]
    refine ⟨?_, ih fun hs => h (List.mem_cons_of_mem _ hs)⟩
    unfold utf8Point
    dsimp only
    split
    · rw [List.mem_singleton]
      exact hbyte (by omega)
    split
    · simp only [List.mem_cons, List.not_mem_nil, or_false, not_or]
      exact ⟨hbyte (by omega), hbyte (by omega)⟩
    split
    · simp only [List.mem_cons, List.not_mem_nil, or_false, not_or]
      exact ⟨hbyte (by omega), hbyte (by omega), hbyte (by omega)⟩
    · simp only [List.mem_cons, List.not_mem_nil, or_false, not_or]
      exact ⟨hbyte (by omega), hbyte (by omega), hbyte (by omega), hbyte (by omega)⟩

/-- The code point at the front of a UTF-8 text, with what follows it. The
leading byte fixes the width. -/
def readPoint : Bytes → Option (Nat × Bytes)
  | a :: r =>
    if a.toNat < 0x80 then some (a.toNat, r)
    else match r with
      | b :: r =>
        if a.toNat < 0xE0 then some ((a.toNat - 0xC0) * 64 + (b.toNat - 0x80), r)
        else match r with
          | c :: r =>
            if a.toNat < 0xF0 then
              some ((a.toNat - 0xE0) * 4096 + (b.toNat - 0x80) * 64 + (c.toNat - 0x80), r)
            else match r with
              | d :: r =>
                some ((a.toNat - 0xF0) * 262144 + (b.toNat - 0x80) * 4096
                  + (c.toNat - 0x80) * 64 + (d.toNat - 0x80), r)
              | [] => none
          | [] => none
      | [] => none
  | [] => none

/-- Reading back the code point that was written first. -/
theorem readPoint_utf8Point (c : CodePoint) (r : Bytes) :
    readPoint (utf8Point c ++ r) = some (c.val, r) := by
  have hc := c.isLt
  have byte {n : Nat} (h : n < 256) : (UInt8.ofNat n).toNat = n :=
    UInt8.toNat_ofNat_of_lt' h
  simp only [utf8Point]
  split
  next h1 =>
    simp [readPoint, byte (show c.val < 256 by omega), h1]
  next h1 =>
    split
    next h2 =>
      have ha := byte (show 0xC0 + c.val / 64 < 256 by omega)
      have hb := byte (show 0x80 + c.val % 64 < 256 by omega)
      simp only [readPoint, List.cons_append, List.nil_append, ha, hb]
      rw [if_neg (by omega), if_pos (by omega)]
      simp only [Option.some.injEq, Prod.mk.injEq, and_true]
      omega
    next h2 =>
      split
      next h3 =>
        have ha := byte (show 0xE0 + c.val / 4096 < 256 by omega)
        have hb := byte (show 0x80 + c.val / 64 % 64 < 256 by omega)
        have hd := byte (show 0x80 + c.val % 64 < 256 by omega)
        simp only [readPoint, List.cons_append, List.nil_append, ha, hb, hd]
        rw [if_neg (by omega), if_neg (by omega), if_pos (by omega)]
        simp only [Option.some.injEq, Prod.mk.injEq, and_true]
        omega
      next h3 =>
        have ha := byte (show 0xF0 + c.val / 262144 < 256 by omega)
        have hb := byte (show 0x80 + c.val / 4096 % 64 < 256 by omega)
        have hd := byte (show 0x80 + c.val / 64 % 64 < 256 by omega)
        have he := byte (show 0x80 + c.val % 64 < 256 by omega)
        simp only [readPoint, List.cons_append, List.nil_append, ha, hb, hd, he]
        rw [if_neg (by omega), if_neg (by omega), if_neg (by omega)]
        simp only [Option.some.injEq, Prod.mk.injEq, and_true]
        omega

/-- UTF-8 is injective on code point sequences. -/
theorem utf8Bytes_injective : Function.Injective utf8Bytes := by
  intro s t h
  induction s generalizing t with
  | nil =>
    cases t with
    | nil => rfl
    | cons d ds =>
      have hr := readPoint_utf8Point d (utf8Bytes ds)
      rw [show utf8Point d ++ utf8Bytes ds = [] from h.symm] at hr
      simp [readPoint] at hr
  | cons c cs ih =>
    have hc := readPoint_utf8Point c (utf8Bytes cs)
    rw [show utf8Point c ++ utf8Bytes cs = utf8Bytes t from h] at hc
    cases t with
    | nil => simp [utf8Bytes, readPoint] at hc
    | cons d ds =>
      rw [show utf8Bytes (d :: ds) = utf8Point d ++ utf8Bytes ds from rfl,
        readPoint_utf8Point] at hc
      simp only [Option.some.injEq, Prod.mk.injEq] at hc
      rw [Fin.ext hc.1, ih hc.2.symm]

theorem utf8_injective {s t : Str} {b : Bytes} (hs : utf8 s = .ok b) (ht : utf8 t = .ok b) :
    s = t := by
  unfold utf8 at hs ht
  split at hs
  next => cases hs
  next =>
    split at ht
    next => cases ht
    next =>
      simp only [Except.ok.injEq] at hs ht
      exact utf8Bytes_injective (hs.trans ht.symm)

/-! ## Hex -/

/-- One hex digit, lower case. -/
def hexDigit (n : Nat) : CodePoint :=
  if n < 10 then Fin.ofNat _ (0x30 + n) else Fin.ofNat _ (0x57 + n)

/-- The value of a hex digit, in either case. -/
def hexVal (c : CodePoint) : Option Nat :=
  if 0x30 ≤ c.val ∧ c.val ≤ 0x39 then some (c.val - 0x30)
  else if 0x61 ≤ c.val ∧ c.val ≤ 0x66 then some (c.val - 0x57)
  else if 0x41 ≤ c.val ∧ c.val ≤ 0x46 then some (c.val - 0x37)
  else none

theorem hexVal_hexDigit : ∀ n < 16, hexVal (hexDigit n) = some n := by decide

/-- `b.hex()`: two lower-case digits a byte. -/
def hexStr : Bytes → Str
  | [] => []
  | b :: bs => hexDigit (b.toNat / 16) :: hexDigit (b.toNat % 16) :: hexStr bs

theorem hexStr_length (b : Bytes) : (hexStr b).length = 2 * b.length := by
  induction b with
  | nil => rfl
  | cons x xs ih => simp only [hexStr, List.length_cons, ih]; omega

theorem hexStr_append (a b : Bytes) : hexStr (a ++ b) = hexStr a ++ hexStr b := by
  induction a with
  | nil => rfl
  | cons x a ih => rw [List.cons_append, hexStr, hexStr, ih, List.cons_append, List.cons_append]

/-- `str.isspace` on ASCII, the set `bytes.fromhex` skips. -/
def isSpace (c : CodePoint) : Bool := c.val == 0x20 || (0x09 ≤ c.val && c.val ≤ 0x0D)

/-- `bytes.fromhex(s)`; `none` where Python raises `ValueError`. -/
def fromHex : Str → Option Bytes
  | [] => some []
  | c :: cs =>
    if isSpace c then fromHex cs
    else match cs with
      | [] => none
      | d :: ds =>
        match hexVal c, hexVal d with
        | some a, some b => (fromHex ds).map (UInt8.ofNat (16 * a + b) :: ·)
        | _, _ => none

theorem isSpace_hexDigit : ∀ n < 16, isSpace (hexDigit n) = false := by decide

/-- `bytes.fromhex` reads back what `.hex()` wrote. -/
theorem fromHex_hexStr (b : Bytes) : fromHex (hexStr b) = some b := by
  induction b with
  | nil => rfl
  | cons x xs ih =>
    have hx : x.toNat < 256 := x.toNat_lt
    have hhi : x.toNat / 16 < 16 := by omega
    have hlo : x.toNat % 16 < 16 := by omega
    simp only [hexStr, fromHex, isSpace_hexDigit _ hhi, hexVal_hexDigit _ hhi,
      hexVal_hexDigit _ hlo, ih, Bool.false_eq_true, if_false, Option.map_some]
    rw [Nat.div_add_mod, UInt8.ofNat_toNat]

theorem hexStr_injective : Function.Injective hexStr := fun a b h => by
  have := congrArg fromHex h
  rwa [fromHex_hexStr, fromHex_hexStr, Option.some.injEq] at this

/-- A hex text holds hex digits only. -/
theorem mem_hexStr {c : CodePoint} {b : Bytes} (h : c ∈ hexStr b) : ∃ n < 16, c = hexDigit n := by
  induction b with
  | nil => cases h
  | cons x xs ih =>
    have hx : x.toNat < 256 := x.toNat_lt
    rcases List.mem_cons.mp h with rfl | h
    · exact ⟨_, by omega, rfl⟩
    · rcases List.mem_cons.mp h with rfl | h
      · exact ⟨_, by omega, rfl⟩
      · exact ih h

/-- What stands before the first `x` and after it. -/
theorem append_cons_inj {α : Type} {x : α} {a b s t : List α} (ha : x ∉ a) (hb : x ∉ b)
    (h : a ++ x :: s = b ++ x :: t) : a = b ∧ s = t := by
  induction a generalizing b with
  | nil =>
    cases b with
    | nil => exact ⟨rfl, (List.cons.inj h).2⟩
    | cons y b => exact absurd (List.mem_cons.mpr (Or.inl (List.cons.inj h).1)) hb
  | cons y a ih =>
    cases b with
    | nil => exact absurd (List.mem_cons.mpr (Or.inl (List.cons.inj h).1.symm)) ha
    | cons z b =>
      obtain ⟨rfl, htail⟩ := List.cons.inj h
      obtain ⟨rfl, hst⟩ := ih (fun hx => ha (List.mem_cons_of_mem _ hx))
        (fun hx => hb (List.mem_cons_of_mem _ hx)) htail
      exact ⟨rfl, hst⟩

/-! ## Decimal numbers -/

/-- `str(n)` for a natural number. -/
def decimal (n : Nat) : Str := (Nat.toDigits 10 n).map ofChar

/-- `str(n)` for an `int`. -/
def intStr : Int → Str
  | .ofNat n => decimal n
  | .negSucc n => ofChar '-' :: decimal (n + 1)

theorem decimal_injective : Function.Injective decimal := by
  intro m n h
  have hd : Nat.toDigits 10 m = Nat.toDigits 10 n :=
    List.map_injective_iff.mpr ofChar_injective h
  have := congrArg (Nat.ofDigitChars 10 · 0) hd
  simpa [Nat.ofDigitChars_toDigits] using this

/-- `0`..`9`. -/
def isDigit (c : CodePoint) : Bool := 0x30 ≤ c.val && c.val ≤ 0x39

theorem isDigit_of_mem_decimal {n : Nat} {c : CodePoint} (h : c ∈ decimal n) :
    isDigit c = true := by
  obtain ⟨d, hd, rfl⟩ := List.mem_map.mp h
  have hdig : d.isDigit = true :=
    Nat.isDigit_of_mem_toDigits (b := 10) (by decide) (by decide) hd
  simp only [Char.isDigit, Bool.and_eq_true, decide_eq_true_eq, ge_iff_le,
    UInt32.le_iff_toNat_le] at hdig
  simp only [isDigit, ofChar_val, Bool.and_eq_true, decide_eq_true_eq]
  exact hdig

theorem decimal_ne_nil (n : Nat) : decimal n ≠ [] := by
  simp [decimal, Nat.toDigits_ne_nil]

end Preaction.Py
