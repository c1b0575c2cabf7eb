import Preaction.Py.JsonPrint

/-!
# Reading JSON text

`json.loads` and `JSON.parse` accept the same grammar up to a few documented
points, so there is one recursive-descent reader over a `Dialect`:

- Python also reads `NaN`, `Infinity` and `-Infinity`; ECMAScript refuses
  them;
- Python reads a number without fraction and exponent as an `int`, and
  refuses one of more digits than `sys.get_int_max_str_digits()`; every
  ECMAScript number is a double.

A repeated key keeps the last value, in the place of the first. Decimal
literals are rounded to the nearest double, ties to even (`roundToDouble`).
Neither recursion limit is modelled.
-/

namespace Preaction.Py

/-! ## Decimal to double -/

/-- `n / d` rounded to an integer, ties to even. -/
def roundHalfEven (n d : Nat) : Nat :=
  let q := n / d
  let r := n % d
  if 2 * r < d then q else if d < 2 * r then q + 1 else if q % 2 = 0 then q else q + 1

/-- The biased exponent of the binade of `n / d`, at least the subnormal one. -/
def binade (n d : Nat) : Nat :=
  let l : Int := (Nat.log2 n : Int) - (Nat.log2 d : Int)
  let below := if 0 ≤ l then n < d * 2 ^ l.toNat else n * 2 ^ (-l).toNat < d
  let k := if below then l - 1 else l
  (max 1 (k + 1023)).toNat

/-- The double nearest to `±n / d`. -/
def roundToDouble (neg : Bool) (n d : Nat) : PyFloat :=
  if n = 0 then .fin neg 0 0
  else
    let e := binade n d
    let m := if e ≤ 1075 then roundHalfEven (n * 2 ^ (1075 - e)) d
      else roundHalfEven n (d * 2 ^ (e - 1075))
    -- rounding up can reach the next binade
    let e' := if m = 9007199254740992 then e + 1 else e
    let m' := if m = 9007199254740992 then 4503599627370496 else m
    if 2047 ≤ e' then .inf neg
    else if m' < 4503599627370496 then .fin neg 0 (Fin.ofNat _ m')
    else .fin neg (Fin.ofNat _ e') (Fin.ofNat _ (m' - 4503599627370496))

/-! ## Lexical level -/

/-- A number as it is spelled. -/
structure NumLexeme where
  neg : Bool
  digits : List Nat
  frac : Option (List Nat)
  exp : Option Int

def digitsVal (ds : List Nat) : Nat := ds.foldl (fun n d => 10 * n + d) 0

/-- The leading digits of a text. -/
def spanDigits : Str → List Nat × Str
  | [] => ([], [])
  | c :: r =>
    if isDigit c then
      let (ds, rest) := spanDigits r
      ((c.val - 0x30) :: ds, rest)
    else ([], c :: r)

/-- The double a number is read as. -/
def NumLexeme.toFloat (l : NumLexeme) : PyFloat :=
  let fracDigits := l.frac.getD []
  let n := digitsVal (l.digits ++ fracDigits)
  let e : Int := l.exp.getD 0 - fracDigits.length
  if 0 ≤ e then roundToDouble l.neg (n * 10 ^ e.toNat) 1
  else roundToDouble l.neg n (10 ^ (-e).toNat)

/-- The points where JSON readers differ. -/
structure Dialect where
  /-- `NaN`, `Infinity` and `-Infinity` are values. -/
  constants : Bool
  /-- The value of a number; none where reading it fails. -/
  num : NumLexeme → Option Json

/-- `json.loads`, with the digit limit of `int`. -/
def pythonDialect (maxStrDigits : Nat) : Dialect where
  constants := true
  num l :=
    if l.frac.isNone && l.exp.isNone then
      if maxStrDigits < l.digits.length then none
      else some (.int (if l.neg then -(digitsVal l.digits : Int) else digitsVal l.digits))
    else some (.float l.toFloat)

/-- `JSON.parse`. -/
def ecmaDialect : Dialect where
  constants := false
  num l := some (.float l.toFloat)

/-- JSON whitespace. -/
def isWs (c : CodePoint) : Bool :=
  c.val == 0x20 || c.val == 0x09 || c.val == 0x0A || c.val == 0x0D

def skipWs : Str → Str
  | [] => []
  | c :: r => if isWs c then skipWs r else c :: r

/-- What follows the literal `t`, when the text starts with it. -/
def stripPrefix : Str → Str → Option Str
  | [], r => some r
  | c :: t, d :: r => if c = d then stripPrefix t r else none
  | _ :: _, [] => none

/-- `(\\.[0-9]+)?` -/
def readFrac : Str → Option (List Nat) × Str
  | c :: r =>
    if c.val = 0x2E then
      match spanDigits r with
      | ([], _) => (none, c :: r)
      | (ds, rest) => (some ds, rest)
    else (none, c :: r)
  | [] => (none, [])

/-- `([eE][-+]?[0-9]+)?` -/
def readExp : Str → Option Int × Str
  | c :: r =>
    if c.val = 0x65 ∨ c.val = 0x45 then
      let (neg, body) : Bool × Str := match r with
        | d :: r' => if d.val = 0x2D then (true, r') else if d.val = 0x2B then (false, r')
          else (false, d :: r')
        | [] => (false, [])
      match spanDigits body with
      | ([], _) => (none, c :: r)
      | (ds, rest) => (some (if neg then -(digitsVal ds : Int) else digitsVal ds), rest)
    else (none, c :: r)
  | [] => (none, [])

/-- `-?(?:0|[1-9][0-9]*)(\\.[0-9]+)?([eE][-+]?[0-9]+)?` -/
def readNum (s : Str) : Option (NumLexeme × Str) :=
  let (neg, body) : Bool × Str := match s with
    | c :: r => if c.val = 0x2D then (true, r) else (false, c :: r)
    | [] => (false, [])
  let intPart : Option (List Nat × Str) := match spanDigits body with
    | ([], _) => none
    -- a leading zero stands alone; what follows it is left unread
    | (0 :: _, _) => some ([0], body.drop 1)
    | (ds, rest) => some (ds, rest)
  intPart.map fun (ds, rest) =>
    let (frac, rest) := readFrac rest
    let (exp, rest) := readExp rest
    ({ neg := neg, digits := ds, frac := frac, exp := exp }, rest)

/-- The body of a string up to its closing quote, which is consumed. A
`\\uD8XX\\uDCXX` pair is one code point; a control character is refused. -/
def readString : Nat → Str → Option (Str × Str)
  | 0, _ => none
  | _ + 1, [] => none
  | fuel + 1, c :: r =>
    if c.val = 0x22 then some ([], r)
    else if c.val < 0x20 then none
    else if c.val = 0x5C then
      match r with
      | [] => none
      | d :: r =>
        if d.val = 0x75 then
          match r with
          | a :: b :: e :: f :: r =>
            match hex4 a b e f with
            | none => none
            | some hi =>
              let lone := (readString fuel r).map fun (s, rest) => (hi :: s, rest)
              if 0xD800 ≤ hi.val ∧ hi.val ≤ 0xDBFF then
                match r with
                | x :: y :: a :: b :: e :: f :: r' =>
                  if x.val = 0x5C ∧ y.val = 0x75 then
                    match hex4 a b e f with
                    | none => none
                    | some lo =>
                      if 0xDC00 ≤ lo.val ∧ lo.val ≤ 0xDFFF then
                        (readString fuel r').map fun (s, rest) =>
                          (Fin.ofNat _ (0x10000 + (hi.val - 0xD800) * 0x400 + (lo.val - 0xDC00))
                            :: s, rest)
                      else lone
                  else lone
                | _ => lone
              else lone
          | _ => none
        else if d.val = 0x2F then (readString fuel r).map fun (s, rest) => (d :: s, rest)
        else match shortEscape d with
          | none => none
          | some e => (readString fuel r).map fun (s, rest) => (e :: s, rest)
    else (readString fuel r).map fun (s, rest) => (c :: s, rest)

/-! ## Grammar -/

/-- `NaN`, `Infinity` or `-Infinity`. -/
def readConstant (s : Str) : Option (Json × Str) :=
  match stripPrefix (lit "NaN") s with
  | some r => some (.float .nan, r)
  | none => match stripPrefix (lit "Infinity") s with
    | some r => some (.float (.inf false), r)
    | none => (stripPrefix (lit "-Infinity") s).map (Json.float (.inf true), ·)

/-- `null`, `true`, `false`, a number, or a constant where the dialect has
them. -/
def readScalar (d : Dialect) (s : Str) : Option (Json × Str) :=
  match stripPrefix (lit "null") s with
  | some r => some (.null, r)
  | none => match stripPrefix (lit "true") s with
    | some r => some (.bool true, r)
    | none => match stripPrefix (lit "false") s with
      | some r => some (.bool false, r)
      | none => match readNum s with
        | some (l, r) => (d.num l).map (·, r)
        | none => if d.constants then readConstant s else none

mutual
/-- One value, whitespace before it skipped. -/
def readValue (d : Dialect) : Nat → Str → Option (Json × Str)
  | 0, _ => none
  | fuel + 1, s =>
    match skipWs s with
    | [] => none
    | c :: r =>
      if c.val = 0x22 then (readString (r.length + 1) r).map fun (t, rest) => (.str t, rest)
      else if c.val = 0x5B then
        match skipWs r with
        | c' :: r' =>
          if c'.val = 0x5D then some (.arr [], r')
          else (readElems d fuel (c' :: r')).map fun (xs, rest) => (.arr xs, rest)
        | [] => none
      else if c.val = 0x7B then
        match skipWs r with
        | c' :: r' =>
          if c'.val = 0x7D then some (.obj [], r')
          else (readMembers d fuel [] (c' :: r')).map fun (kvs, rest) => (.obj kvs, rest)
        | [] => none
      else readScalar d (c :: r)

/-- The elements of an array up to its closing bracket. -/
def readElems (d : Dialect) : Nat → Str → Option (List Json × Str)
  | 0, _ => none
  | fuel + 1, s =>
    match readValue d fuel s with
    | none => none
    | some (x, rest) =>
      match skipWs rest with
      | c :: r =>
        if c.val = 0x2C then (readElems d fuel r).map fun (xs, rest) => (x :: xs, rest)
        else if c.val = 0x5D then some ([x], r)
        else none
      | [] => none

/-- The members of an object up to its closing brace, on top of those read. -/
def readMembers (d : Dialect) : Nat → List (Str × Json) → Str → Option (List (Str × Json) × Str)
  | 0, _, _ => none
  | fuel + 1, kvs, s =>
    match skipWs s with
    | q :: r =>
      if q.val = 0x22 then
        match readString (r.length + 1) r with
        | none => none
        | some (k, rest) =>
          match skipWs rest with
          | c :: rest =>
            if c.val = 0x3A then
              match readValue d fuel rest with
              | none => none
              | some (v, rest) =>
                match skipWs rest with
                | c :: r =>
                  if c.val = 0x2C then readMembers d fuel (setKey k v kvs) r
                  else if c.val = 0x7D then some (setKey k v kvs, r)
                  else none
                | [] => none
            else none
          | [] => none
      else none
    | [] => none
end

/-- A whole text: one value, then whitespace only. -/
def parse (d : Dialect) (s : Str) : Option Json :=
  match readValue d (2 * s.length + 2) s with
  | some (j, rest) => if (skipWs rest).isEmpty then some j else none
  | none => none

end Preaction.Py
