import Preaction.Py.Json

/-!
# Compact JSON text, and why it determines the value

`json.dumps(o, separators=(",", ":"), ensure_ascii=False)`, the canonical
forms built on it and `JSON.stringify` all print with one shape: no
whitespace, the same string escapes, objects as `{"k":v,…}`. `print` is that
shape over a `Format` that fixes the two points where they differ (how a
`float` is written, whether a lone surrogate is escaped). Sorting the keys is
not printing: a canonical form is `print` of a normal form.

Every "same hash, same record" argument of the repository ends in one fact
proved here, `print_injective`: a compact text has exactly one value. The
proof reads the text from the left (`print_append_inj`): the first character
fixes the kind of value, strings end at the first unescaped quote, numbers
run up to a delimiter, and containers recurse.

The digits Python or ECMAScript choose for a double are not modelled. A
`Format` carries what any such choice satisfies: distinct doubles get
distinct tokens, a token is never an integer's and holds no delimiter.
-/

namespace Preaction.Py

/-! ## Strings -/

/-- One character inside a JSON string. With `surr`, a lone surrogate is
written as `\\udXXX`. -/
def escapeChar (surr : Bool) (c : CodePoint) : Str :=
  if c.val = 0x22 then lit "\\\""
  else if c.val = 0x5C then lit "\\\\"
  else if c.val = 0x0A then lit "\\n"
  else if c.val = 0x0D then lit "\\r"
  else if c.val = 0x09 then lit "\\t"
  else if c.val = 0x0C then lit "\\f"
  else if c.val = 0x08 then lit "\\b"
  else if c.val < 0x20 || (surr && isSurrogate c) then
    [ofChar '\\', ofChar 'u', hexDigit (c.val / 4096), hexDigit (c.val / 256 % 16),
      hexDigit (c.val / 16 % 16), hexDigit (c.val % 16)]
  else [c]

/-- The body of a JSON string. -/
def escape (surr : Bool) (s : Str) : Str := s.flatMap (escapeChar surr)

/-- A quoted JSON string. -/
def quote (surr : Bool) (s : Str) : Str := ofChar '"' :: (escape surr s ++ [ofChar '"'])

/-- The character a two-character escape stands for. -/
def shortEscape (c : CodePoint) : Option CodePoint :=
  if c.val = 0x22 ∨ c.val = 0x5C then some c
  else if c.val = 0x6E then some 0x0A
  else if c.val = 0x72 then some 0x0D
  else if c.val = 0x74 then some 0x09
  else if c.val = 0x66 then some 0x0C
  else if c.val = 0x62 then some 0x08
  else none

/-- The code point four hex digits stand for. -/
def hex4 (a b c d : CodePoint) : Option CodePoint :=
  match hexVal a, hexVal b, hexVal c, hexVal d with
  | some a, some b, some c, some d => some (Fin.ofNat _ (((a * 16 + b) * 16 + c) * 16 + d))
  | _, _, _, _ => none

/-- The first character of the body of a JSON string, with what follows it;
`none` at the closing quote. -/
def unescapeChar : Str → Option (CodePoint × Str)
  | [] => none
  | c :: r =>
    if c.val = 0x22 then none
    else if c.val = 0x5C then
      match r with
      | d :: r =>
        if d.val = 0x75 then
          match r with
          | a :: b :: e :: f :: r => (hex4 a b e f).map (·, r)
          | _ => none
        else (shortEscape d).map (·, r)
      | [] => none
    else some (c, r)

/-- The four hex digits of a code point below `0x10000`. -/
theorem hex4_hexDigit {c : CodePoint} (h : c.val < 65536) :
    hex4 (hexDigit (c.val / 4096)) (hexDigit (c.val / 256 % 16)) (hexDigit (c.val / 16 % 16))
      (hexDigit (c.val % 16)) = some c := by
  rw [hex4, hexVal_hexDigit _ (by omega), hexVal_hexDigit _ (by omega),
    hexVal_hexDigit _ (by omega), hexVal_hexDigit _ (by omega)]
  refine congrArg some (Fin.ext ?_)
  rw [Fin.val_ofNat, Nat.mod_eq_of_lt (by omega)]
  omega

theorem unescapeChar_escapeChar (surr : Bool) (c : CodePoint) (r : Str) :
    unescapeChar (escapeChar surr c ++ r) = some (c, r) := by
  unfold escapeChar
  split
  next h => obtain rfl : c = 0x22 := Fin.ext h; rfl
  split
  next h => obtain rfl : c = 0x5C := Fin.ext h; rfl
  split
  next h => obtain rfl : c = 0x0A := Fin.ext h; rfl
  split
  next h => obtain rfl : c = 0x0D := Fin.ext h; rfl
  split
  next h => obtain rfl : c = 0x09 := Fin.ext h; rfl
  split
  next h => obtain rfl : c = 0x0C := Fin.ext h; rfl
  split
  next h => obtain rfl : c = 0x08 := Fin.ext h; rfl
  split
  next h =>
    have hlt : c.val < 65536 := by
      simp only [Bool.or_eq_true, decide_eq_true_eq, Bool.and_eq_true, isSurrogate] at h
      omega
    show Option.map (·, r) (hex4 _ _ _ _) = _
    rw [hex4_hexDigit hlt, Option.map_some]
  next h1 h2 _ _ _ _ _ _ =>
    rw [List.singleton_append, unescapeChar.eq_def]
    simp only [h1, h2, if_false]

/-- A quoted string ends where its own closing quote stands, when each of its
characters is written so that it can be read back. -/
theorem quoted_append_inj {esc : CodePoint → Str}
    (hesc : ∀ c r, unescapeChar (esc c ++ r) = some (c, r)) {s t r u : Str}
    (h : ofChar '"' :: (s.flatMap esc ++ [ofChar '"']) ++ r =
      ofChar '"' :: (t.flatMap esc ++ [ofChar '"']) ++ u) : s = t ∧ r = u := by
  simp only [List.cons_append, List.append_assoc, List.cons.injEq, true_and,
    List.nil_append] at h
  induction s generalizing t with
  | nil =>
    cases t with
    | nil => exact ⟨rfl, by simpa using h⟩
    | cons d ds =>
      have hd := hesc d (ds.flatMap esc ++ ofChar '"' :: u)
      simp only [List.flatMap_nil, List.nil_append, List.flatMap_cons, List.append_assoc] at h hd
      rw [← h] at hd
      cases hd
  | cons c cs ih =>
    have hc := hesc c (cs.flatMap esc ++ ofChar '"' :: r)
    simp only [List.flatMap_cons, List.append_assoc] at h hc
    rw [h] at hc
    cases t with
    | nil => cases hc
    | cons d ds =>
      rw [List.flatMap_cons, List.append_assoc, hesc] at hc
      simp only [Option.some.injEq, Prod.mk.injEq] at hc
      obtain ⟨hs, hr⟩ := ih hc.2.symm
      exact ⟨by rw [hc.1, hs], hr⟩

/-- A quoted string ends where its own closing quote stands. -/
theorem quote_append_inj {surr : Bool} {s t r u : Str}
    (h : quote surr s ++ r = quote surr t ++ u) : s = t ∧ r = u :=
  quoted_append_inj (unescapeChar_escapeChar surr) h

/-! ## Values -/

/-- The two free choices of a compact JSON printer. -/
structure Format where
  /-- Lone surrogates are escaped. -/
  surr : Bool
  /-- The token of a `float`. -/
  float : PyFloat → Str

/-- `,`, `]` and `}`: what can stand after a value. -/
def isDelim (c : CodePoint) : Bool := c.val == 0x2C || c.val == 0x5D || c.val == 0x7D

/-- What a number token can start with: a digit, `-`, or the `I` and `N` of
`Infinity` and `NaN`. -/
def isNumHead (c : CodePoint) : Bool :=
  isDigit c || c.val == 0x2D || c.val == 0x49 || c.val == 0x4E

/-- What every printer of doubles the repository uses satisfies. -/
structure Format.Lawful (fmt : Format) : Prop where
  inj : Function.Injective fmt.float
  ne_int : ∀ x n, fmt.float x ≠ intStr n
  head : ∀ x, ∃ c r, fmt.float x = c :: r ∧ isNumHead c = true
  no_delim : ∀ x, ∀ c ∈ fmt.float x, isDelim c = false

mutual
/-- The compact text of a value, bindings in list order. -/
def print (fmt : Format) : Json → Str
  | .null => lit "null"
  | .bool true => lit "true"
  | .bool false => lit "false"
  | .int n => intStr n
  | .float x => fmt.float x
  | .str s => quote fmt.surr s
  | .arr [] => lit "[]"
  | .arr (x :: xs) => ofChar '[' :: (print fmt x ++ printElems fmt xs)
  | .obj [] => lit "\x7b\x7d"
  | .obj ((k, x) :: kvs) =>
    ofChar '{' :: (quote fmt.surr k ++ ofChar ':' :: (print fmt x ++ printKvs fmt kvs))

/-- The elements after the first, with the closing bracket. -/
def printElems (fmt : Format) : List Json → Str
  | [] => lit "]"
  | x :: xs => ofChar ',' :: (print fmt x ++ printElems fmt xs)

/-- The bindings after the first, with the closing brace. -/
def printKvs (fmt : Format) : List (Str × Json) → Str
  | [] => lit "\x7d"
  | (k, x) :: kvs =>
    ofChar ',' :: (quote fmt.surr k ++ ofChar ':' :: (print fmt x ++ printKvs fmt kvs))
end

/-- The kinds of value that differ in their first character. -/
inductive Kind
  | null | true | false | num | str | arr | obj
  deriving DecidableEq

/-- The kind a first character announces; none for a character no value
starts with. -/
def kindOfHead (c : CodePoint) : Option Kind :=
  if c.val = 0x6E then some .null
  else if c.val = 0x74 then some .true
  else if c.val = 0x66 then some .false
  else if c.val = 0x22 then some .str
  else if c.val = 0x5B then some .arr
  else if c.val = 0x7B then some .obj
  else if isNumHead c then some .num
  else none

def Json.kind : Json → Kind
  | .null => .null
  | .bool true => .true
  | .bool false => .false
  | .int _ => .num
  | .float _ => .num
  | .str _ => .str
  | .arr _ => .arr
  | .obj _ => .obj

theorem kindOfHead_isNumHead {c : CodePoint} (h : isNumHead c = true) :
    kindOfHead c = some .num := by
  have hc := h
  simp only [isNumHead, isDigit, Bool.or_eq_true, Bool.and_eq_true, decide_eq_true_eq,
    beq_iff_eq] at hc
  unfold kindOfHead
  rw [if_neg (by omega), if_neg (by omega), if_neg (by omega), if_neg (by omega),
    if_neg (by omega), if_neg (by omega), if_pos h]

theorem intStr_head (n : Int) : ∃ c r, intStr n = c :: r ∧ isNumHead c = true := by
  cases n with
  | ofNat n =>
    cases h : decimal n with
    | nil => exact absurd h (decimal_ne_nil n)
    | cons c r =>
      refine ⟨c, r, h, ?_⟩
      rw [isNumHead, isDigit_of_mem_decimal (n := n) (h ▸ List.mem_cons_self ..)]
      rfl
  | negSucc n => exact ⟨ofChar '-', decimal (n + 1), rfl, by decide⟩

theorem intStr_no_delim (n : Int) : ∀ c ∈ intStr n, isDelim c = false := by
  have hdig : ∀ m, ∀ c ∈ decimal m, isDelim c = false := by
    intro m c hc
    have := isDigit_of_mem_decimal hc
    simp only [isDigit, Bool.and_eq_true, decide_eq_true_eq] at this
    simp only [isDelim, Bool.or_eq_false_iff, beq_eq_false_iff_ne]
    omega
  cases n with
  | ofNat n => exact hdig n
  | negSucc n =>
    intro c hc
    rcases List.mem_cons.mp hc with rfl | hc
    · decide
    · exact hdig _ c hc

theorem intStr_injective : Function.Injective intStr := by
  have hminus : ∀ m n, decimal m ≠ ofChar '-' :: decimal n := by
    intro m n h
    have := isDigit_of_mem_decimal (n := m) (c := ofChar '-') (by rw [h]; exact List.mem_cons_self ..)
    revert this
    decide
  intro m n h
  cases m with
  | ofNat m =>
    cases n with
    | ofNat n => exact congrArg Int.ofNat (decimal_injective h)
    | negSucc n => exact absurd h (hminus m (n + 1))
  | negSucc m =>
    cases n with
    | ofNat n => exact absurd h.symm (hminus n (m + 1))
    | negSucc n =>
      have := decimal_injective (List.cons.inj h).2
      exact congrArg Int.negSucc (Nat.succ.inj this)

/-- A text that continues a value: nothing, or a delimiter first. -/
def Stops (r : Str) : Prop := ∀ c ∈ r.head?, isDelim c = true

/-- Two delimiter-free tokens, each followed by a stop, that make one text are
one token. -/
theorem token_append_inj {t u r s : Str} (ht : ∀ c ∈ t, isDelim c = false)
    (hu : ∀ c ∈ u, isDelim c = false) (hr : Stops r) (hs : Stops s)
    (h : t ++ r = u ++ s) : t = u ∧ r = s := by
  induction t generalizing u with
  | nil =>
    cases u with
    | nil => exact ⟨rfl, h⟩
    | cons d ds =>
      have hd : isDelim d = true := hr d (by rw [show r = d :: (ds ++ s) from h]; rfl)
      rw [hu d (List.mem_cons_self ..)] at hd
      cases hd
  | cons c cs ih =>
    cases u with
    | nil =>
      have hc : isDelim c = true := hs c (by rw [show s = c :: (cs ++ r) from h.symm]; rfl)
      rw [ht c (List.mem_cons_self ..)] at hc
      cases hc
    | cons d ds =>
      obtain ⟨hcd, htail⟩ := List.cons.inj h
      obtain ⟨h1, h2⟩ := ih (fun x hx => ht x (List.mem_cons_of_mem _ hx))
        (fun x hx => hu x (List.mem_cons_of_mem _ hx)) htail
      exact ⟨by rw [hcd, h1], h2⟩

/-! ## Any way to quote a string

The read-back argument does not depend on how a string is quoted, so it is made
for `printWith`, which takes the quoting as an argument. -/

mutual
/-- The compact text of a value with strings written by `q`. -/
def printWith (q : Str → Str) (fmt : Format) : Json → Str
  | .null => lit "null"
  | .bool true => lit "true"
  | .bool false => lit "false"
  | .int n => intStr n
  | .float x => fmt.float x
  | .str s => q s
  | .arr [] => lit "[]"
  | .arr (x :: xs) => ofChar '[' :: (printWith q fmt x ++ printElemsWith q fmt xs)
  | .obj [] => lit "\x7b\x7d"
  | .obj ((k, x) :: kvs) =>
    ofChar '{' :: (q k ++ ofChar ':' :: (printWith q fmt x ++ printKvsWith q fmt kvs))

/-- The elements after the first, with the closing bracket. -/
def printElemsWith (q : Str → Str) (fmt : Format) : List Json → Str
  | [] => lit "]"
  | x :: xs => ofChar ',' :: (printWith q fmt x ++ printElemsWith q fmt xs)

/-- The bindings after the first, with the closing brace. -/
def printKvsWith (q : Str → Str) (fmt : Format) : List (Str × Json) → Str
  | [] => lit "\x7d"
  | (k, x) :: kvs =>
    ofChar ',' :: (q k ++ ofChar ':' :: (printWith q fmt x ++ printKvsWith q fmt kvs))
end

theorem printElems_eq {fmt : Format} {xs : List Json}
    (ih : ∀ x ∈ xs, print fmt x = printWith (quote fmt.surr) fmt x) :
    printElems fmt xs = printElemsWith (quote fmt.surr) fmt xs := by
  induction xs with
  | nil => rfl
  | cons x xs ihxs =>
    rw [printElems, printElemsWith, ih x (List.mem_cons_self ..),
      ihxs fun y hy => ih y (List.mem_cons_of_mem _ hy)]

theorem printKvs_eq {fmt : Format} {kvs : List (Str × Json)}
    (ih : ∀ kv ∈ kvs, print fmt kv.2 = printWith (quote fmt.surr) fmt kv.2) :
    printKvs fmt kvs = printKvsWith (quote fmt.surr) fmt kvs := by
  induction kvs with
  | nil => rfl
  | cons kv kvs ihkvs =>
    obtain ⟨k, x⟩ := kv
    rw [printKvs, printKvsWith, ih (k, x) (List.mem_cons_self ..),
      ihkvs fun y hy => ih y (List.mem_cons_of_mem _ hy)]

theorem print_eq_printWith (fmt : Format) (j : Json) :
    print fmt j = printWith (quote fmt.surr) fmt j := by
  induction j with
  | bool b => cases b <;> rfl
  | arr xs ih =>
    cases xs with
    | nil => rfl
    | cons x xs =>
      rw [print, printWith, ih x (List.mem_cons_self ..),
        printElems_eq fun y hy => ih y (List.mem_cons_of_mem _ hy)]
  | obj kvs ih =>
    cases kvs with
    | nil => rfl
    | cons kv kvs =>
      obtain ⟨k, x⟩ := kv
      rw [print, printWith, ih (k, x) (List.mem_cons_self ..),
        printKvs_eq fun y hy => ih y (List.mem_cons_of_mem _ hy)]
  | _ => rfl

/-- A quoted string starts with a quote and ends where its own closing quote stands. -/
structure Quotes (q : Str → Str) : Prop where
  head : ∀ s, ∃ r, q s = ofChar '"' :: r
  inj : ∀ {s t r u : Str}, q s ++ r = q t ++ u → s = t ∧ r = u

theorem quotes_quote (surr : Bool) : Quotes (quote surr) where
  head _ := ⟨_, rfl⟩
  inj := quote_append_inj

section

variable {q : Str → Str} {fmt : Format}

theorem printWith_head (hq : Quotes q) (hf : fmt.Lawful) (j : Json) :
    ∃ c r, printWith q fmt j = c :: r ∧ kindOfHead c = some j.kind := by
  have num {t : Str} (h : ∃ c r, t = c :: r ∧ isNumHead c = true) :
      ∃ c r, t = c :: r ∧ kindOfHead c = some .num := by
    obtain ⟨c, r, hc, hn⟩ := h
    exact ⟨c, r, hc, kindOfHead_isNumHead hn⟩
  cases j with
  | null => exact ⟨_, _, rfl, rfl⟩
  | bool b => cases b <;> exact ⟨_, _, rfl, rfl⟩
  | int n => exact num (intStr_head n)
  | float x => exact num (hf.head x)
  | str s =>
    obtain ⟨r, hr⟩ := hq.head s
    exact ⟨_, r, hr, rfl⟩
  | arr xs => cases xs <;> exact ⟨_, _, rfl, rfl⟩
  | obj kvs =>
    cases kvs with
    | nil => exact ⟨_, _, rfl, rfl⟩
    | cons kv kvs => exact ⟨_, _, by rw [printWith], rfl⟩

/-- Two texts that continue alike announce one kind of value. -/
theorem kind_eq_of_printWith_append (hq : Quotes q) (hf : fmt.Lawful) {a b : Json} {r s : Str}
    (h : printWith q fmt a ++ r = printWith q fmt b ++ s) : a.kind = b.kind := by
  obtain ⟨c, cs, hc, hck⟩ := printWith_head hq hf a
  obtain ⟨d, ds, hd, hdk⟩ := printWith_head hq hf b
  rw [hc, hd] at h
  rw [(List.cons.inj h).1, hdk] at hck
  exact (Option.some.inj hck).symm

/-- No value starts with a closing bracket. -/
theorem printWith_append_ne_close (hq : Quotes q) (hf : fmt.Lawful) {a : Json} {r s : Str}
    (h : printWith q fmt a ++ r = ofChar ']' :: s) : False := by
  obtain ⟨c, cs, hc, hck⟩ := printWith_head hq hf a
  rw [hc] at h
  rw [(List.cons.inj h).1] at hck
  revert hck
  rw [show kindOfHead (ofChar ']') = none from rfl]
  exact nofun

theorem stops_printElemsWith (xs : List Json) (r : Str) :
    Stops (printElemsWith q fmt xs ++ r) := by
  cases xs <;> simp [Stops, printElemsWith, isDelim, lit, ofChar_val]

theorem stops_printKvsWith (kvs : List (Str × Json)) (r : Str) :
    Stops (printKvsWith q fmt kvs ++ r) := by
  cases kvs <;> simp [Stops, printKvsWith, isDelim, lit, ofChar_val]

/-- Reading one value off the front of a text. -/
def ReadsBack (q : Str → Str) (fmt : Format) (a : Json) : Prop :=
  ∀ {b : Json} {r s : Str}, Stops r → Stops s →
    printWith q fmt a ++ r = printWith q fmt b ++ s → a = b ∧ r = s

/-- The rest of a list is read back when each of its elements is. -/
theorem printElemsWith_append_inj {xs ys : List Json} {r s : Str}
    (ih : ∀ x ∈ xs, ReadsBack q fmt x)
    (h : printElemsWith q fmt xs ++ r = printElemsWith q fmt ys ++ s) :
    xs = ys ∧ r = s := by
  induction xs generalizing ys with
  | nil =>
    cases ys with
    | nil => exact ⟨rfl, (List.cons.inj h).2⟩
    | cons y ys => exact absurd (List.cons.inj h).1 (by decide)
  | cons x xs ihxs =>
    cases ys with
    | nil => exact absurd (List.cons.inj h).1 (by decide)
    | cons y ys =>
      simp only [printElemsWith, List.cons_append, List.append_assoc, List.cons.injEq, true_and] at h
      obtain ⟨hxy, hrest⟩ := ih x (List.mem_cons_self ..) (stops_printElemsWith xs r)
        (stops_printElemsWith ys s) h
      obtain ⟨hxs, hrs⟩ := ihxs (fun z hz => ih z (List.mem_cons_of_mem _ hz)) hrest
      exact ⟨by rw [hxy, hxs], hrs⟩

/-- The same for the rest of an object. -/
theorem printKvsWith_append_inj {xs ys : List (Str × Json)} {r s : Str}
    (hq : Quotes q) (ih : ∀ kv ∈ xs, ReadsBack q fmt kv.2)
    (h : printKvsWith q fmt xs ++ r = printKvsWith q fmt ys ++ s) :
    xs = ys ∧ r = s := by
  induction xs generalizing ys with
  | nil =>
    cases ys with
    | nil => exact ⟨rfl, (List.cons.inj h).2⟩
    | cons y ys => exact absurd (List.cons.inj h).1 (by decide)
  | cons x xs ihxs =>
    obtain ⟨k, x⟩ := x
    cases ys with
    | nil => exact absurd (List.cons.inj h).1 (by decide)
    | cons y ys =>
      obtain ⟨l, y⟩ := y
      simp only [printKvsWith, List.cons_append, List.append_assoc, List.cons.injEq, true_and] at h
      obtain ⟨hkl, hval⟩ := hq.inj h
      obtain ⟨hxy, hrest⟩ := ih (k, x) (List.mem_cons_self ..) (stops_printKvsWith xs r)
        (stops_printKvsWith ys s) (List.cons.inj hval).2
      obtain ⟨hxs, hrs⟩ := ihxs (fun z hz => ih z (List.mem_cons_of_mem _ hz)) hrest
      exact ⟨by rw [hkl, show x = y from hxy, hxs], hrs⟩

/-- Every value is read back from the front of a text. -/
theorem printWith_append_inj (hq : Quotes q) (hf : fmt.Lawful) (a : Json) : ReadsBack q fmt a := by
  induction a with
  | null =>
    intro b r s _ _ h
    have hk := kind_eq_of_printWith_append hq hf h
    cases b with
    | null => exact ⟨rfl, List.append_cancel_left h⟩
    | bool b => cases b <;> cases hk
    | _ => cases hk
  | bool x =>
    intro b r s _ _ h
    have hk := kind_eq_of_printWith_append hq hf h
    cases b with
    | bool y =>
      cases x <;> cases y
      · exact ⟨rfl, List.append_cancel_left h⟩
      · cases hk
      · cases hk
      · exact ⟨rfl, List.append_cancel_left h⟩
    | _ => cases x <;> cases hk
  | int n =>
    intro b r s hr hs h
    have hk := kind_eq_of_printWith_append hq hf h
    cases b with
    | int m =>
      obtain ⟨ht, hrs⟩ := token_append_inj (intStr_no_delim n) (intStr_no_delim m) hr hs h
      exact ⟨by rw [intStr_injective ht], hrs⟩
    | float x =>
      obtain ⟨ht, -⟩ := token_append_inj (intStr_no_delim n) (hf.no_delim x) hr hs h
      exact absurd ht.symm (hf.ne_int x n)
    | bool b => cases b <;> cases hk
    | _ => cases hk
  | float x =>
    intro b r s hr hs h
    have hk := kind_eq_of_printWith_append hq hf h
    cases b with
    | int m =>
      obtain ⟨ht, -⟩ := token_append_inj (hf.no_delim x) (intStr_no_delim m) hr hs h
      exact absurd ht (hf.ne_int x m)
    | float y =>
      obtain ⟨ht, hrs⟩ := token_append_inj (hf.no_delim x) (hf.no_delim y) hr hs h
      exact ⟨by rw [hf.inj ht], hrs⟩
    | bool b => cases b <;> cases hk
    | _ => cases hk
  | str t =>
    intro b r s _ _ h
    have hk := kind_eq_of_printWith_append hq hf h
    cases b with
    | str u =>
      obtain ⟨htu, hrs⟩ := hq.inj h
      exact ⟨by rw [htu], hrs⟩
    | bool b => cases b <;> cases hk
    | _ => cases hk
  | arr xs ih =>
    intro b r s _ _ h
    have hk := kind_eq_of_printWith_append hq hf h
    cases b with
    | arr ys =>
      -- `[` and the first element, or `[]`; the rest is `printElemsWith`
      cases xs with
      | nil =>
        cases ys with
        | nil => exact ⟨rfl, List.append_cancel_left h⟩
        | cons y ys =>
          simp only [printWith, List.cons_append, List.append_assoc] at h
          exact (printWith_append_ne_close hq hf (List.cons.inj h).2.symm).elim
      | cons x xs =>
        cases ys with
        | nil =>
          simp only [printWith, List.cons_append, List.append_assoc] at h
          exact (printWith_append_ne_close hq hf (List.cons.inj h).2).elim
        | cons y ys =>
          simp only [printWith, List.cons_append, List.append_assoc, List.cons.injEq, true_and] at h
          obtain ⟨hxy, hrest⟩ := ih x (List.mem_cons_self ..) (stops_printElemsWith xs r)
            (stops_printElemsWith ys s) h
          obtain ⟨hxs, hrs⟩ :=
            printElemsWith_append_inj (fun z hz => ih z (List.mem_cons_of_mem _ hz)) hrest
          exact ⟨by rw [hxy, hxs], hrs⟩
    | bool b => cases b <;> cases hk
    | _ => cases hk
  | obj kvs ih =>
    intro b r s _ _ h
    have hk := kind_eq_of_printWith_append hq hf h
    cases b with
    | obj lvs =>
      cases kvs with
      | nil =>
        cases lvs with
        | nil => exact ⟨rfl, List.append_cancel_left h⟩
        | cons y ys =>
          obtain ⟨t, ht⟩ := hq.head y.1
          rw [printWith, printWith, ht] at h
          exact absurd (List.cons.inj (List.cons.inj h).2).1 (by decide)
      | cons x xs =>
        obtain ⟨k, x⟩ := x
        cases lvs with
        | nil =>
          obtain ⟨t, ht⟩ := hq.head k
          rw [printWith, printWith, ht] at h
          exact absurd (List.cons.inj (List.cons.inj h).2).1 (by decide)
        | cons y ys =>
          obtain ⟨l, y⟩ := y
          simp only [printWith, List.cons_append, List.append_assoc, List.cons.injEq, true_and] at h
          obtain ⟨hkl, hval⟩ := hq.inj h
          obtain ⟨hxy, hrest⟩ := ih (k, x) (List.mem_cons_self ..) (stops_printKvsWith xs r)
            (stops_printKvsWith ys s) (List.cons.inj hval).2
          obtain ⟨hxs, hrs⟩ :=
            printKvsWith_append_inj hq (fun z hz => ih z (List.mem_cons_of_mem _ hz)) hrest
          exact ⟨by rw [hkl, show x = y from hxy, hxs], hrs⟩
    | bool b => cases b <;> cases hk
    | _ => cases hk

theorem printWith_injective (hq : Quotes q) (hf : fmt.Lawful) :
    Function.Injective (printWith q fmt) := by
  intro a b h
  have hnil : Stops [] := nofun
  exact (printWith_append_inj hq hf a hnil hnil (by rw [List.append_nil, List.append_nil, h])).1

end

/-- **One text, one value.** -/
theorem print_injective {fmt : Format} (hf : fmt.Lawful) :
    Function.Injective (print fmt) := by
  intro a b h
  rw [print_eq_printWith, print_eq_printWith] at h
  exact printWith_injective (quotes_quote fmt.surr) hf h

/-! ## Where all formats agree -/

/-- No lone surrogate occurs. -/
def Scalar (s : Str) : Prop := s.any isSurrogate = false

instance (s : Str) : Decidable (Scalar s) := inferInstanceAs (Decidable (_ = _))

theorem scalar_append {s t : Str} : Scalar (s ++ t) ↔ Scalar s ∧ Scalar t := by
  simp [Scalar, List.any_append]

theorem scalar_cons {c : CodePoint} {s : Str} :
    Scalar (c :: s) ↔ isSurrogate c = false ∧ Scalar s := by
  simp [Scalar]

theorem utf8_of_scalar {s : Str} (h : Scalar s) : utf8 s = .ok (utf8Bytes s) := by
  rw [utf8, show s.any isSurrogate = false from h]
  rfl

theorem scalar_decimal (n : Nat) : Scalar (decimal n) := by
  refine List.any_eq_false.mpr fun c hc => ?_
  have := isDigit_of_mem_decimal hc
  simp only [isDigit, Bool.and_eq_true, decide_eq_true_eq] at this
  simp only [isSurrogate, Bool.and_eq_true, decide_eq_true_eq]
  omega

theorem scalar_intStr (n : Int) : Scalar (intStr n) := by
  cases n with
  | ofNat n => exact scalar_decimal n
  | negSucc n => exact scalar_cons.mpr ⟨by decide, scalar_decimal _⟩

theorem isSurrogate_hexDigit : ∀ n < 16, isSurrogate (hexDigit n) = false := by decide

/-- A scalar character is escaped alike in both modes, to scalar text. -/
theorem escapeChar_scalar {c : CodePoint} (h : isSurrogate c = false) (surr : Bool) :
    escapeChar surr c = escapeChar false c ∧ Scalar (escapeChar false c) := by
  refine ⟨by simp [escapeChar, h], ?_⟩
  unfold escapeChar
  split; · decide
  split; · decide
  split; · decide
  split; · decide
  split; · decide
  split; · decide
  split; · decide
  split
  next hlt =>
    have hc : c.val < 0x20 := by simpa using hlt
    simp only [scalar_cons, isSurrogate_hexDigit _ (show c.val / 4096 < 16 by omega),
      isSurrogate_hexDigit _ (show c.val / 256 % 16 < 16 by omega),
      isSurrogate_hexDigit _ (show c.val / 16 % 16 < 16 by omega),
      isSurrogate_hexDigit _ (show c.val % 16 < 16 by omega), true_and]
    decide
  next => exact scalar_cons.mpr ⟨h, rfl⟩

theorem quote_scalar {s : Str} (h : Scalar s) (surr : Bool) :
    quote surr s = quote false s ∧ Scalar (quote false s) := by
  have hesc : escape surr s = escape false s ∧ Scalar (escape false s) := by
    induction s with
    | nil => exact ⟨rfl, rfl⟩
    | cons c cs ih =>
      obtain ⟨hc, hcs⟩ := scalar_cons.mp h
      obtain ⟨h1, h2⟩ := escapeChar_scalar hc surr
      obtain ⟨h3, h4⟩ := ih hcs
      simp only [escape, List.flatMap_cons] at h3 h4 ⊢
      exact ⟨by rw [h1, h3], scalar_append.mpr ⟨h2, h4⟩⟩
  refine ⟨by rw [quote, quote, hesc.1], ?_⟩
  exact scalar_cons.mpr ⟨by decide, scalar_append.mpr ⟨hesc.2, by decide⟩⟩

mutual
/-- No double and no lone surrogate in the value. -/
def Json.clean : Json → Bool
  | .float _ => false
  | .str s => !s.any isSurrogate
  | .arr xs => cleanList xs
  | .obj kvs => cleanKvs kvs
  | _ => true

def cleanList : List Json → Bool
  | [] => true
  | x :: xs => x.clean && cleanList xs

def cleanKvs : List (Str × Json) → Bool
  | [] => true
  | (k, x) :: kvs => !k.any isSurrogate && x.clean && cleanKvs kvs
end

/-- Printing `j` does not depend on the format, and gives scalar text. -/
def PrintsScalar (j : Json) : Prop :=
  ∀ f g : Format, print f j = print g j ∧ Scalar (print g j)

theorem printElems_clean {xs : List Json} (ih : ∀ x ∈ xs, PrintsScalar x) (f g : Format) :
    printElems f xs = printElems g xs ∧ Scalar (printElems g xs) := by
  induction xs with
  | nil => exact ⟨rfl, by rw [printElems]; decide⟩
  | cons x xs ihxs =>
    obtain ⟨h1, h2⟩ := ih x (List.mem_cons_self ..) f g
    obtain ⟨h3, h4⟩ := ihxs fun y hy => ih y (List.mem_cons_of_mem _ hy)
    simp only [printElems]
    exact ⟨by rw [h1, h3], scalar_cons.mpr ⟨by decide, scalar_append.mpr ⟨h2, h4⟩⟩⟩

theorem printKvs_clean {kvs : List (Str × Json)} (hk : ∀ kv ∈ kvs, Scalar kv.1)
    (ih : ∀ kv ∈ kvs, PrintsScalar kv.2) (f g : Format) :
    printKvs f kvs = printKvs g kvs ∧ Scalar (printKvs g kvs) := by
  induction kvs with
  | nil => exact ⟨rfl, by rw [printKvs]; decide⟩
  | cons kv kvs ihkvs =>
    obtain ⟨k, x⟩ := kv
    have hq (surr : Bool) := quote_scalar (hk (k, x) (List.mem_cons_self ..)) surr
    obtain ⟨h1, h2⟩ := ih (k, x) (List.mem_cons_self ..) f g
    obtain ⟨h3, h4⟩ := ihkvs (fun y hy => hk y (List.mem_cons_of_mem _ hy))
      fun y hy => ih y (List.mem_cons_of_mem _ hy)
    simp only [printKvs, (hq f.surr).1, (hq g.surr).1]
    exact ⟨by rw [h1, h3], scalar_cons.mpr ⟨by decide, scalar_append.mpr ⟨(hq false).2,
      scalar_cons.mpr ⟨by decide, scalar_append.mpr ⟨h2, h4⟩⟩⟩⟩⟩

theorem cleanList_iff {xs : List Json} : cleanList xs = true ↔ ∀ x ∈ xs, x.clean = true := by
  induction xs with
  | nil => simp [cleanList]
  | cons x xs ih => simp [cleanList, ih]

theorem cleanKvs_iff {kvs : List (Str × Json)} :
    cleanKvs kvs = true ↔ ∀ kv ∈ kvs, Scalar kv.1 ∧ kv.2.clean = true := by
  induction kvs with
  | nil => simp [cleanKvs]
  | cons kv kvs ih => simp [cleanKvs, ih, Scalar]

/-- All formats print a clean value alike. -/
theorem print_clean {j : Json} (h : j.clean = true) : PrintsScalar j := by
  induction j with
  | null => exact fun _ _ => ⟨rfl, by rw [print]; decide⟩
  | bool b => cases b <;> exact fun _ _ => ⟨rfl, by rw [print]; decide⟩
  | int n => exact fun _ _ => ⟨rfl, scalar_intStr n⟩
  | float x => cases h
  | str s =>
    have hs : Scalar s := by simpa [Json.clean, Scalar] using h
    intro f g
    rw [print, print, (quote_scalar hs f.surr).1, (quote_scalar hs g.surr).1]
    exact ⟨rfl, (quote_scalar hs false).2⟩
  | arr xs ih =>
    intro f g
    rw [Json.clean, cleanList_iff] at h
    cases xs with
    | nil => exact ⟨rfl, by rw [print]; decide⟩
    | cons x xs =>
      have hx := ih x (List.mem_cons_self ..) (h x (List.mem_cons_self ..)) f g
      have hxs := printElems_clean (fun y hy =>
        ih y (List.mem_cons_of_mem x hy) (h y (List.mem_cons_of_mem x hy))) f g
      simp only [print]
      exact ⟨by rw [hx.1, hxs.1],
        scalar_cons.mpr ⟨by decide, scalar_append.mpr ⟨hx.2, hxs.2⟩⟩⟩
  | obj kvs ih =>
    intro f g
    rw [Json.clean, cleanKvs_iff] at h
    cases kvs with
    | nil => exact ⟨rfl, by rw [print]; decide⟩
    | cons kv kvs =>
      obtain ⟨k, x⟩ := kv
      have hk := (h (k, x) (List.mem_cons_self ..)).1
      have hx := ih (k, x) (List.mem_cons_self ..) (h (k, x) (List.mem_cons_self ..)).2 f g
      have hkvs := printKvs_clean (fun y hy => (h y (List.mem_cons_of_mem (k, x) hy)).1)
        (fun y hy => ih y (List.mem_cons_of_mem _ hy) (h y (List.mem_cons_of_mem _ hy)).2) f g
      simp only [print, (quote_scalar hk f.surr).1, (quote_scalar hk g.surr).1]
      exact ⟨by rw [hx.1, hkvs.1], scalar_cons.mpr ⟨by decide,
        scalar_append.mpr ⟨(quote_scalar hk false).2, scalar_cons.mpr ⟨by decide,
          scalar_append.mpr ⟨hx.2, hkvs.2⟩⟩⟩⟩⟩

end Preaction.Py
