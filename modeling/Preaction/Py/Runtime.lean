import Preaction.Py.JsonParse

/-!
# What the models take from the Python runtime as given

A `Runtime` collects the built-ins whose definition is a table or an
algorithm the repository only calls: SHA-256 and SHA-512, Unicode case
conversion and whitespace stripping, `int` of a text, the text of a value
that is not a `str`, the digits of a double. Every model is a function of
it, so a theorem about a model holds for every choice of these; the few
properties a result needs are named hypotheses.
-/

namespace Preaction.Py

/-- The built-ins that are not modelled. -/
structure Runtime where
  /-- `hashlib.sha256(b).digest()` -/
  sha256 : Bytes → Bytes
  /-- `hashlib.sha512(b).digest()` -/
  sha512 : Bytes → Bytes
  /-- `s.lower()` -/
  lower : Str → Str
  /-- `s.strip()` -/
  strip : Str → Str
  /-- `int(s)`; none where it raises `ValueError`. -/
  intOfStr : Str → Option Int
  /-- `int(s, 16)`; none where it raises `ValueError`. -/
  intOfHexStr : Str → Option Int
  /-- `str(x)` of a value that is not a `str`. -/
  strOf : Json → Str
  /-- `repr(x)` -/
  repr : Json → Str
  /-- `repr(x)` of a `float`, as `json.dumps` writes it. -/
  floatRepr : PyFloat → Str
  /-- `sys.get_int_max_str_digits()` -/
  maxStrDigits : Nat
  /-- The value of a decimal digit of any script: what `\\d` matches and `int` reads. -/
  digitVal : CodePoint → Option Nat

namespace Runtime

/-- `str.lower` on ASCII letters. -/
def asciiLower (s : Str) : Str :=
  s.map fun c => if 0x41 ≤ c.val ∧ c.val ≤ 0x5A then c + 0x20 else c

/-- A 32-byte checksum, in the place of a hash in concrete runs. -/
def checksum (b : Bytes) : Bytes := List.replicate 32 (b.foldl (fun h x => 31 * h + x) 7)

/-- The fields of a double as one number. -/
def floatCode : PyFloat → Nat
  | .nan => 0
  | .inf neg => 1 + neg.toNat
  | .fin neg exp frac => 3 + (neg.toNat + 2 * (exp.val * 4503599627370496 + frac.val))

theorem floatCode_injective : Function.Injective floatCode := by
  have hbool : ∀ a b : Bool, a.toNat = b.toNat → a = b := by decide
  intro x y h
  cases x with
  | nan => cases y <;> simp only [floatCode] at h <;> first | rfl | omega
  | inf a =>
    have ha := a.toNat_lt
    cases y with
    | nan => simp only [floatCode] at h; omega
    | inf b => rw [hbool a b (by simpa [floatCode] using h)]
    | fin b exp frac => simp only [floatCode] at h; omega
  | fin a exp frac =>
    have ha := a.toNat_lt
    cases y with
    | nan => simp only [floatCode] at h; omega
    | inf b => have hb := b.toNat_lt; simp only [floatCode] at h; omega
    | fin b exp' frac' =>
      have hb := b.toNat_lt
      simp only [floatCode] at h
      rw [hbool a b (by omega), Fin.ext (show exp.val = exp'.val by omega),
        Fin.ext (show frac.val = frac'.val by omega)]

/-- A double as `N` and a number, in the place of its shortest decimal form in
concrete runs. -/
def floatToken (x : PyFloat) : Str := ofChar 'N' :: decimal (floatCode x)

theorem floatToken_lawful (surr : Bool) : Format.Lawful ⟨surr, floatToken⟩ where
  inj x y h := floatCode_injective (decimal_injective (List.cons.inj h).2)
  ne_int x n h := by
    cases n with
    | ofNat n =>
      have := isDigit_of_mem_decimal (n := n) (c := ofChar 'N') (by
        rw [show decimal n = floatToken x from h.symm]
        exact List.mem_cons_self ..)
      exact absurd this (by decide)
    | negSucc n => exact absurd (List.cons.inj h).1 (by decide)
  head x := ⟨_, _, rfl, by decide⟩
  no_delim x c hc := by
    rcases List.mem_cons.mp hc with rfl | hc
    · decide
    · have := isDigit_of_mem_decimal hc
      simp only [isDigit, Bool.and_eq_true, decide_eq_true_eq] at this
      simp only [isDelim, Bool.or_eq_false_iff, beq_eq_false_iff_ne]
      omega

/-- A runtime to run concrete inputs in: the built-ins are right on the ASCII
texts and the numbers that such inputs hold, the hashes are checksums. -/
def sample : Runtime where
  sha256 := checksum
  sha512 b := checksum b ++ checksum b
  lower := asciiLower
  strip s := s
  intOfStr s := if s ≠ [] ∧ s.all isDigit then some (digitsVal (spanDigits s).1) else none
  intOfHexStr s := match stripPrefix (lit "0x") s with
    | some ds => (ds.mapM hexVal).map fun ns => (ns.foldl (fun n d => 16 * n + d) 0 : Nat)
    | none => none
  strOf _ := []
  repr _ := []
  floatRepr := floatToken
  maxStrDigits := 4300
  digitVal c := if isDigit c then some (c.val - 0x30) else none

/-- The sample runtime with the identity for a hash, where a run needs one that is
injective. -/
def transparent : Runtime := { sample with sha256 := id }

theorem transparent_injective : Function.Injective transparent.sha256 := Function.injective_id

variable (R : Runtime)

/-- `hashlib.sha256(b).hexdigest()` -/
def sha256Hex (b : Bytes) : Str := hexStr (R.sha256 b)

/-- `hashlib.sha256(s.encode("utf-8")).hexdigest()` -/
def sha256Text (s : Str) : Except PyError Str := (utf8 s).map R.sha256Hex

/-- `str(x)` -/
def str : Json → Str
  | .str s => s
  | j => R.strOf j

/-- `int(x)` -/
def int : Json → Except PyError Int
  | .int n => .ok n
  | .bool b => .ok (if b then 1 else 0)
  | .float x => match x with
    | .fin neg exp frac =>
      -- truncation towards zero
      let m := PyFloat.significand exp frac
      let e := PyFloat.scale exp
      let n := if 1075 ≤ e then m * 2 ^ (e - 1075) else m / 2 ^ (1075 - e)
      .ok (if neg then -(n : Int) else n)
    | _ => .error .valueError
  | .str s => match R.intOfStr s with
    | some n => .ok n
    | none => .error .valueError
  | _ => .error .typeError

/-- The format of `json.dumps(…, separators=(",", ":"), ensure_ascii=False)`. -/
def dumpsFormat : Format := { surr := false, float := R.floatRepr }

/-- `json.loads(s)` of a `str`; none where it raises `ValueError`. -/
def loads (s : Str) : Option Json := parse (pythonDialect R.maxStrDigits) s

/-- `json.dumps(o, sort_keys=True, separators=(",", ":"), ensure_ascii=False)`. -/
def canonText (o : Json) : Str := print R.dumpsFormat (Json.normWith id o)

variable {R} in
/-- A digest is the digest of some bytes. -/
theorem sha256Text_ok {s d : Str} (h : R.sha256Text s = .ok d) :
    ∃ b, utf8 s = .ok b ∧ R.sha256Hex b = d := by
  unfold sha256Text at h
  cases hb : utf8 s with
  | error e =>
    rw [hb] at h
    cases h
  | ok b =>
    rw [hb] at h
    exact ⟨b, rfl, Except.ok.inj h⟩

variable {R} in
/-- Texts with one digest are one text. -/
theorem sha256Text_inj (hsha : Function.Injective R.sha256) {s t d : Str}
    (hs : R.sha256Text s = .ok d) (ht : R.sha256Text t = .ok d) : s = t := by
  obtain ⟨b, hb, rfl⟩ := sha256Text_ok hs
  obtain ⟨c, hc, hd⟩ := sha256Text_ok ht
  obtain rfl := hsha (hexStr_injective hd)
  exact utf8_injective hb hc

/-- The sorted form has one value up to key order. -/
theorem normWith_eq_of_canonText_eq (hf : R.dumpsFormat.Lawful) {a b : Json}
    (h : R.canonText a = R.canonText b) : Json.normWith id a = Json.normWith id b :=
  print_injective hf h

end Runtime

/-- An object with string literals as keys. -/
def object (kvs : List (String × Json)) : Json := .obj (kvs.map fun kv => (lit kv.1, kv.2))

theorem item_object_cons (k : String) (v : Json) (kvs : List (String × Json)) :
    (object ((k, v) :: kvs)).item (lit k) = .ok v := by
  rw [object, List.map_cons, Json.item, lookup_cons_if, if_pos rfl]

theorem item_object_cons_ne {j k : String} (h : j ≠ k) (v : Json) (kvs : List (String × Json)) :
    (object ((k, v) :: kvs)).item (lit j) = (object kvs).item (lit j) := by
  rw [object, List.map_cons, Json.item, lookup_cons_if, if_neg (lit_injective.ne h)]
  rfl

theorem find_object_cons (k : String) (v : Json) (kvs : List (String × Json)) :
    (object ((k, v) :: kvs)).find (lit k) = v := by
  rw [object, List.map_cons, Json.find, lookup_cons_if, if_pos rfl, Option.getD_some]

theorem find_object_cons_ne {j k : String} (h : j ≠ k) (v : Json) (kvs : List (String × Json)) :
    (object ((k, v) :: kvs)).find (lit j) = (object kvs).find (lit j) := by
  rw [object, List.map_cons, Json.find, lookup_cons_if, if_neg (lit_injective.ne h)]
  rfl

/-- A string literal as a value. -/
def text (s : String) : Json := .str (lit s)

/-- `int.from_bytes(b, "big")` -/
def fromBytesBig (b : Bytes) : Nat := b.foldl (fun n x => 256 * n + x.toNat) 0

/-- `int.from_bytes(b, "little")` -/
def fromBytesLittle (b : Bytes) : Nat := b.foldr (fun x n => x.toNat + 256 * n) 0

/-- `bytes.fromhex(x)` where `x` can be any value. -/
def bytesFromHex : Json → Except PyError Bytes
  | .str s => match fromHex s with
    | some b => .ok b
    | none => .error .valueError
  | _ => .error .typeError

end Preaction.Py
