import Preaction.Py.Json

/-!
# Base64

`binascii.a2b_base64` as the checkers call it, through two front ends:

- `urlsafeB64decode`, which is not strict: a character outside the alphabet
  is skipped, and the first padding that completes a quad ends the text;
- `b64Canonical`, which reads only what `b64encode` writes: the alphabet,
  padding to a multiple of four, zero trailing bits.

Both read back what the encoders write (`a2bLoop_b64encode`,
`urlsafeB64decode_encode`).
-/

namespace Preaction.Py

/-- The value of a base64 character. -/
def b64Val (c : CodePoint) : Option Nat :=
  let n := c.val
  if 0x41 ≤ n ∧ n ≤ 0x5A then some (n - 0x41)
  else if 0x61 ≤ n ∧ n ≤ 0x7A then some (n - 0x61 + 26)
  else if 0x30 ≤ n ∧ n ≤ 0x39 then some (n - 0x30 + 52)
  else if n = 0x2B then some 62
  else if n = 0x2F then some 63
  else none

/-- The base64 character of a value. -/
def b64Char (n : Nat) : CodePoint :=
  if n < 26 then Fin.ofNat _ (0x41 + n)
  else if n < 52 then Fin.ofNat _ (0x61 + (n - 26))
  else if n < 62 then Fin.ofNat _ (0x30 + (n - 52))
  else if n = 62 then 0x2B
  else 0x2F

/-- The loop of `a2b_base64`: `quad` characters of the current group are read,
`left` holds their bits not yet written, `pads` counts the padding after them. -/
def a2bLoop (quad left pads : Nat) : Str → Option Bytes
  | [] => if quad = 0 then some [] else none
  | c :: cs =>
    if c = ofChar '=' then
      if 2 ≤ quad then
        if 4 ≤ quad + (pads + 1) then some [] else a2bLoop quad left (pads + 1) cs
      else a2bLoop quad left pads cs
    else match b64Val c with
      | none => a2bLoop quad left pads cs
      | some v =>
        match quad with
        | 0 => a2bLoop 1 v 0 cs
        | 1 => (a2bLoop 2 (v % 16) 0 cs).map (UInt8.ofNat (left * 4 + v / 16) :: ·)
        | 2 => (a2bLoop 3 (v % 4) 0 cs).map (UInt8.ofNat (left * 16 + v / 4) :: ·)
        | _ => (a2bLoop 0 0 0 cs).map (UInt8.ofNat (left * 64 + v) :: ·)

/-- `base64.urlsafe_b64decode(s)` of a `str`; none where it raises `ValueError`. -/
def urlsafeB64decode (s : Str) : Option Bytes :=
  if s.any (fun c => 0x80 ≤ c.val) then none
  else a2bLoop 0 0 0 (s.map fun c =>
    if c = ofChar '-' then ofChar '+' else if c = ofChar '_' then ofChar '/' else c)

/-- `base64.b64encode(b).decode()` -/
def b64encode : Bytes → Str
  | [] => []
  | [a] => [b64Char (a.toNat / 4), b64Char (a.toNat % 4 * 16), ofChar '=', ofChar '=']
  | [a, b] => [b64Char (a.toNat / 4), b64Char (a.toNat % 4 * 16 + b.toNat / 16),
      b64Char (b.toNat % 16 * 4), ofChar '=']
  | a :: b :: c :: rest => b64Char (a.toNat / 4) :: b64Char (a.toNat % 4 * 16 + b.toNat / 16) ::
      b64Char (b.toNat % 16 * 4 + c.toNat / 64) :: b64Char (c.toNat % 64) :: b64encode rest

/-- `re.fullmatch(r"[A-Za-z0-9+/]*={0,2}", s)` -/
def isB64Text (s : Str) : Bool :=
  let pad := s.dropWhile fun c => (b64Val c).isSome
  pad.length ≤ 2 && pad.all (· == ofChar '=')

/-- Canonical base64; none for anything else. On a text of this form of a length
divisible by four, the strict decoder reads what the other one does. -/
def b64Canonical (x : Json) : Option Bytes :=
  match x with
  | .str s =>
    if s.length % 4 = 0 ∧ isB64Text s then
      match a2bLoop 0 0 0 s with
      | some b => if b64encode b = s then some b else none
      | none => none
    else none
  | _ => none

/-! ## Encoding and decoding -/

/-- `base64.urlsafe_b64encode(b).decode()` -/
def urlsafeB64encode (b : Bytes) : Str :=
  (b64encode b).map fun c =>
    if c = ofChar '+' then ofChar '-' else if c = ofChar '/' then ofChar '_' else c

theorem b64Val_b64Char : ∀ n < 64, b64Val (b64Char n) = some n := by decide

theorem b64Char_ne_pad : ∀ n < 64, b64Char n ≠ ofChar '=' := by decide

theorem a2bLoop_first {n : Nat} (hn : n < 64) (left pads : Nat) (cs : Str) :
    a2bLoop 0 left pads (b64Char n :: cs) = a2bLoop 1 n 0 cs := by
  rw [a2bLoop, if_neg (b64Char_ne_pad n hn), b64Val_b64Char n hn]
  rfl

theorem a2bLoop_second {n : Nat} (hn : n < 64) (left pads : Nat) (cs : Str) :
    a2bLoop 1 left pads (b64Char n :: cs) =
    (a2bLoop 2 (n % 16) 0 cs).map (UInt8.ofNat (left * 4 + n / 16) :: ·) := by
  rw [a2bLoop, if_neg (b64Char_ne_pad n hn), b64Val_b64Char n hn]
  rfl

theorem a2bLoop_third {n : Nat} (hn : n < 64) (left pads : Nat) (cs : Str) :
    a2bLoop 2 left pads (b64Char n :: cs) =
    (a2bLoop 3 (n % 4) 0 cs).map (UInt8.ofNat (left * 16 + n / 4) :: ·) := by
  rw [a2bLoop, if_neg (b64Char_ne_pad n hn), b64Val_b64Char n hn]
  rfl

theorem a2bLoop_fourth {n : Nat} (hn : n < 64) (left pads : Nat) (cs : Str) :
    a2bLoop 3 left pads (b64Char n :: cs) =
    (a2bLoop 0 0 0 cs).map (UInt8.ofNat (left * 64 + n) :: ·) := by
  rw [a2bLoop, if_neg (b64Char_ne_pad n hn), b64Val_b64Char n hn]
  rfl

/-- The decoder reads what the encoder writes. -/
theorem a2bLoop_b64encode (b : Bytes) : a2bLoop 0 0 0 (b64encode b) = some b := by
  have hbyte (x : UInt8) {n : Nat} (h : n = x.toNat) : UInt8.ofNat n = x := by
    rw [h, UInt8.ofNat_toNat]
  fun_induction b64encode b with
  | case1 => rfl
  | case2 a =>
    have ha : a.toNat < 256 := a.toNat_lt
    have hpad : a2bLoop 2 (a.toNat % 4 * 16 % 16) 0 [ofChar '=', ofChar '='] = some [] := by
      simp [a2bLoop]
    rw [a2bLoop_first (by omega), a2bLoop_second (by omega), hpad, Option.map_some,
      hbyte a (by omega)]
  | case3 a b =>
    have ha : a.toNat < 256 := a.toNat_lt
    have hb : b.toNat < 256 := b.toNat_lt
    have hpad (left : Nat) : a2bLoop 3 left 0 [ofChar '='] = some [] := by
      simp [a2bLoop]
    rw [a2bLoop_first (by omega), a2bLoop_second (by omega), a2bLoop_third (by omega), hpad,
      Option.map_some, Option.map_some, hbyte a (by omega), hbyte b (by omega)]
  | case4 a b c rest ih =>
    have ha : a.toNat < 256 := a.toNat_lt
    have hb : b.toNat < 256 := b.toNat_lt
    have hc : c.toNat < 256 := c.toNat_lt
    rw [a2bLoop_first (by omega), a2bLoop_second (by omega), a2bLoop_third (by omega),
      a2bLoop_fourth (by omega), ih, Option.map_some, Option.map_some, Option.map_some,
      hbyte a (by omega), hbyte b (by omega), hbyte c (by omega)]

/-- The characters the encoder writes, and the padding behind them. -/
theorem b64encode_eq (b : Bytes) : ∃ ds pads, b64encode b = ds ++ List.replicate pads (ofChar '=') ∧
    (∀ c ∈ ds, ∃ n < 64, c = b64Char n) ∧ pads < 4 ∧ (ds.length + pads) % 4 = 0 := by
  fun_induction b64encode b with
  | case1 => exact ⟨[], 0, rfl, nofun, by omega, rfl⟩
  | case2 a =>
    have ha : a.toNat < 256 := a.toNat_lt
    refine ⟨[b64Char (a.toNat / 4), b64Char (a.toNat % 4 * 16)], 2, rfl, ?_, by omega, by simp⟩
    rw [List.forall_mem_cons, List.forall_mem_cons]
    exact ⟨⟨_, by omega, rfl⟩, ⟨_, by omega, rfl⟩, nofun⟩
  | case3 a b =>
    have ha : a.toNat < 256 := a.toNat_lt
    have hb : b.toNat < 256 := b.toNat_lt
    refine ⟨[b64Char (a.toNat / 4), b64Char (a.toNat % 4 * 16 + b.toNat / 16),
      b64Char (b.toNat % 16 * 4)], 1, rfl, ?_, by omega, by simp⟩
    rw [List.forall_mem_cons, List.forall_mem_cons, List.forall_mem_cons]
    exact ⟨⟨_, by omega, rfl⟩, ⟨_, by omega, rfl⟩, ⟨_, by omega, rfl⟩, nofun⟩
  | case4 a b c rest ih =>
    have ha : a.toNat < 256 := a.toNat_lt
    have hb : b.toNat < 256 := b.toNat_lt
    have hc : c.toNat < 256 := c.toNat_lt
    obtain ⟨ds, pads, heq, hds, hpads, hlen⟩ := ih
    refine ⟨b64Char (a.toNat / 4) :: b64Char (a.toNat % 4 * 16 + b.toNat / 16) ::
      b64Char (b.toNat % 16 * 4 + c.toNat / 64) :: b64Char (c.toNat % 64) :: ds, pads,
      by rw [heq]; rfl, ?_, hpads, ?_⟩
    · simp only [List.forall_mem_cons]
      exact ⟨⟨_, by omega, rfl⟩, ⟨_, by omega, rfl⟩, ⟨_, by omega, rfl⟩, ⟨_, by omega, rfl⟩, hds⟩
    · simp only [List.length_cons]
      omega

theorem mem_b64encode {c : CodePoint} {b : Bytes} (h : c ∈ b64encode b) :
    c = ofChar '=' ∨ ∃ n < 64, c = b64Char n := by
  obtain ⟨ds, pads, heq, hds, -⟩ := b64encode_eq b
  rw [heq, List.mem_append] at h
  rcases h with h | h
  · exact .inr (hds c h)
  · exact .inl (List.mem_replicate.mp h).2

/-- The urlsafe alphabet, `=` apart. -/
theorem urlsafeB64encode_eq (b : Bytes) : ∃ ds pads,
    urlsafeB64encode b = ds ++ List.replicate pads (ofChar '=') ∧ (∀ c ∈ ds, c ≠ ofChar '=') ∧
      pads < 4 ∧ (ds.length + pads) % 4 = 0 := by
  have hchar : ∀ n < 64, (if b64Char n = ofChar '+' then ofChar '-'
      else if b64Char n = ofChar '/' then ofChar '_' else b64Char n) ≠ ofChar '=' := by decide
  obtain ⟨ds, pads, heq, hds, hpads, hlen⟩ := b64encode_eq b
  unfold urlsafeB64encode
  rw [heq, List.map_append, List.map_replicate]
  refine ⟨_, pads, rfl, fun c hc => ?_, hpads, by rwa [List.length_map]⟩
  obtain ⟨d, hd, rfl⟩ := List.mem_map.mp hc
  obtain ⟨n, hn, rfl⟩ := hds d hd
  exact hchar n hn

theorem urlsafeB64decode_encode (b : Bytes) : urlsafeB64decode (urlsafeB64encode b) = some b := by
  have hchar : ∀ n < 64, (b64Char n).val < 0x80 ∧ b64Char n ≠ ofChar '-' ∧
      b64Char n ≠ ofChar '_' := by decide
  have hback : (urlsafeB64encode b).map (fun c =>
      if c = ofChar '-' then ofChar '+' else if c = ofChar '_' then ofChar '/' else c) =
      b64encode b := by
    unfold urlsafeB64encode
    rw [List.map_map, List.map_congr_left (g := id), List.map_id]
    intro c hc
    rcases mem_b64encode hc with rfl | ⟨n, hn, rfl⟩
    · decide
    · obtain ⟨-, hminus, hscore⟩ := hchar n hn
      simp only [Function.comp_apply, id]
      by_cases hplus : b64Char n = ofChar '+'
      · rw [if_pos hplus, if_pos rfl, hplus]
      · rw [if_neg hplus]
        by_cases hslash : b64Char n = ofChar '/'
        · rw [if_pos hslash, if_neg (by decide), if_pos rfl, hslash]
        · rw [if_neg hslash, if_neg hminus, if_neg hscore]
  have hascii : (urlsafeB64encode b).any (fun c => 0x80 ≤ c.val) = false := by
    rw [List.any_eq_false]
    intro c hc
    obtain ⟨d, hd, rfl⟩ := List.mem_map.mp hc
    rw [decide_eq_true_eq, Nat.not_le]
    split
    next => decide
    next =>
      split
      next => decide
      next =>
        rcases mem_b64encode hd with rfl | ⟨n, hn, rfl⟩
        · decide
        · exact (hchar n hn).1
  unfold urlsafeB64decode
  rw [hascii, if_neg Bool.false_ne_true, hback, a2bLoop_b64encode]

end Preaction.Py
