import Preaction.Py.Text

/-!
# Dates as the checkers read them

Several checkers read a timestamp by a pattern and then ask `datetime` whether
the fields are a date. The calendar is the proleptic Gregorian one of
`datetime`, for the years 1 to 9999.
-/

namespace Preaction.Py

/-- The value of ASCII digits. -/
def intOf (s : Str) : Nat := s.foldl (fun n c => 10 * n + (c.val - 0x30)) 0

/-- `t[i:j]` -/
def slice (t : Str) (i j : Nat) : Str := (t.take j).drop i

/-- The number that the next `n` digits stand for, by the given value of a digit. -/
def readDigits (digitVal : CodePoint → Option Nat) (n : Nat) (s : Str) : Option (Nat × Str) :=
  if s.length < n then none
  else ((s.take n).mapM digitVal).map fun ds => (ds.foldl (fun n d => 10 * n + d) 0, s.drop n)

/-- A character that a pattern names. -/
def readChar (c : Char) : Str → Option Str
  | d :: s => if d = ofChar c then some s else none
  | [] => none

def isLeap (y : Nat) : Bool := y % 4 == 0 && (y % 100 != 0 || y % 400 == 0)

/-- The length of each month. -/
def daysInMonth (y : Nat) : List Nat :=
  [31, if isLeap y then 29 else 28, 31, 30, 31, 30, 31, 31, 30, 31, 30, 31]

/-- `datetime.date(y, m, d).toordinal()`; none where the date raises `ValueError`. -/
def toOrdinal (y m d : Nat) : Option Nat :=
  let before := (daysInMonth y).take (m - 1)
  if 1 ≤ y ∧ 1 ≤ m ∧ m ≤ 12 ∧ 1 ≤ d ∧ d ≤ (daysInMonth y).getD (m - 1) 0 then
    some ((y - 1) * 365 + (y - 1) / 4 - (y - 1) / 100 + (y - 1) / 400 + before.sum + d)
  else none

/-- The fields of a `datetime` without its fraction. -/
structure DateTime where
  year : Nat
  month : Nat
  day : Nat
  hour : Nat
  minute : Nat
  second : Nat
  deriving DecidableEq, Repr

/-- `datetime.datetime(y, m, d, h, mi, s)` raises nothing. -/
def DateTime.isValid (t : DateTime) : Bool :=
  (toOrdinal t.year t.month t.day).isSome && t.hour < 24 && t.minute < 60 && t.second < 60

/-- `calendar.timegm` of a valid time: the seconds since the epoch. -/
def DateTime.timegm (t : DateTime) : Int :=
  let days : Int := ((toOrdinal t.year t.month t.day).getD 0 : Nat) - 719163
  ((days * 24 + t.hour) * 60 + t.minute) * 60 + t.second

/-! ## `datetime.date` -/

/-- A `datetime.date`. -/
structure Date where
  year : Nat
  month : Nat
  day : Nat
  deriving DecidableEq, Repr

/-- `datetime.date(y, m, d)` -/
def Date.of (y m d : Nat) : Except PyError Date :=
  if y ≤ 9999 && (toOrdinal y m d).isSome then .ok ⟨y, m, d⟩ else .error .valueError

/-- `x.toordinal()` -/
def Date.ordinal (x : Date) : Nat := (toOrdinal x.year x.month x.day).getD 0

/-- The month and the day of the `n`-th day, counted from the month `m`. -/
def splitMonth (m n : Nat) : List Nat → Nat × Nat
  | [] => (m, n + 1)
  | days :: rest => if n < days then (m, n + 1) else splitMonth (m + 1) (n - days) rest

/-- The date with an ordinal; a date outside the years 1 to 9999 raises
`OverflowError`. -/
def Date.ofOrdinal (n : Int) : Except PyError Date :=
  if n < 1 ∨ 3652059 < n then .error .overflowError
  else
    let n := n.toNat - 1
    let n400 := n / 146097
    let n := n % 146097
    let n100 := n / 36524
    let n := n % 36524
    let n4 := n / 1461
    let n := n % 1461
    let n1 := n / 365
    let y := n400 * 400 + 1 + n100 * 100 + n4 * 4 + n1
    if n1 = 4 ∨ n100 = 4 then .ok ⟨y - 1, 12, 31⟩
    else
      let (m, d) := splitMonth 1 (n % 365) (daysInMonth y)
      .ok ⟨y, m, d⟩

/-- `x + datetime.timedelta(days=k)` -/
def Date.addDays (x : Date) (k : Int) : Except PyError Date :=
  Date.ofOrdinal (x.ordinal + k)

/-- A number with at least `n` digits. -/
def padded (n : Nat) (k : Nat) : Str :=
  let ds := decimal k
  List.replicate (n - ds.length) (ofChar '0') ++ ds

/-- `x.isoformat()` -/
def Date.isoformat (x : Date) : Str :=
  padded 4 x.year ++ ofChar '-' :: (padded 2 x.month ++ ofChar '-' :: padded 2 x.day)

/-- The value of an ASCII digit. -/
def asciiDigit (c : CodePoint) : Option Nat := if isDigit c then some (c.val - 0x30) else none

/-- The Monday of the first ISO week of a year, as an ordinal. -/
def isoWeekOne (y : Nat) : Int :=
  let first : Int := (toOrdinal y 1 1).getD 0
  let weekday := (first + 6) % 7
  if 3 < weekday then first - weekday + 7 else first - weekday

/-- The date of an ISO week and a day in it. -/
def Date.ofIsoWeek (y w d : Nat) : Except PyError Date :=
  let first : Int := (toOrdinal y 1 1).getD 0
  let weekday := (first + 6) % 7
  let long := weekday = 3 ∨ (weekday = 2 ∧ isLeap y)
  if 1 ≤ y ∧ 1 ≤ w ∧ (w ≤ 52 ∨ (w = 53 ∧ long)) ∧ 1 ≤ d ∧ d ≤ 7 then
    (Date.ofOrdinal (isoWeekOne y + (w - 1) * 7 + (d - 1))).mapError fun _ => .valueError
  else .error .valueError

/-- The numbers that an ISO date is written with: a week and a day, or a month and a day. -/
def readIso (s : Str) : Option (Nat × Bool × Nat × Nat) := do
  let (y, s) ← readDigits asciiDigit 4 s
  let sep := (readChar '-' s).isSome
  let s := (readChar '-' s).getD s
  match readChar 'W' s with
  | some s =>
    let (w, s) ← readDigits asciiDigit 2 s
    if s.isEmpty then return (y, true, w, 1)
    let (d, s) ← readDigits asciiDigit 1 (← if sep then readChar '-' s else some s)
    if s.isEmpty then return (y, true, w, d) else none
  | none =>
    let (m, s) ← readDigits asciiDigit 2 s
    let (d, s) ← readDigits asciiDigit 2 (← if sep then readChar '-' s else some s)
    if s.isEmpty then return (y, false, m, d) else none

/-- `datetime.date.fromisoformat(s)` -/
def Date.fromisoformat (s : Str) : Except PyError Date :=
  if !([7, 8, 10].contains s.length) then .error .valueError
  else match readIso s with
    | some (y, true, w, d) => Date.ofIsoWeek y w d
    | some (y, false, m, d) => Date.of y m d
    | none => .error .valueError

def oneOf (chars : String) (c : CodePoint) : Bool := (lit chars).contains c

/-- The month of `strptime`: `1[0-2]|0[1-9]|[1-9]`. -/
def readMonth : Str → Option (Nat × Str)
  | a :: b :: s =>
    if a = ofChar '1' ∧ oneOf "012" b then some (10 + (b.val - 0x30), s)
    else if a = ofChar '0' ∧ oneOf "123456789" b then some (b.val - 0x30, s)
    else if oneOf "123456789" a then some (a.val - 0x30, b :: s)
    else none
  | _ => none

/-- The day of `strptime`: `3[0-1]|[1-2]\d|0[1-9]|[1-9]| [1-9]`. -/
def readDay (digitVal : CodePoint → Option Nat) : Str → Option (Nat × Str)
  | [] => none
  | [a] => if oneOf "123456789" a then some (a.val - 0x30, []) else none
  | a :: b :: s =>
    let single := if oneOf "123456789" a then some (a.val - 0x30, b :: s) else none
    if a = ofChar '3' ∧ oneOf "01" b then some (30 + (b.val - 0x30), s)
    else if oneOf "12" a then
      match digitVal b with
      | some v => some (10 * (a.val - 0x30) + v, s)
      | none => single
    else if (a = ofChar '0' ∨ a = ofChar ' ') ∧ oneOf "123456789" b then some (b.val - 0x30, s)
    else single

/-- `datetime.datetime.strptime(s, "%Y-%m-%d")`, as a date. -/
def Date.strptime (digitVal : CodePoint → Option Nat) (s : Str) : Except PyError Date :=
  let fields := do
    let (y, s) ← readDigits digitVal 4 s
    let (m, s) ← readMonth (← readChar '-' s)
    let (d, s) ← readDay digitVal (← readChar '-' s)
    if s.isEmpty then some (y, m, d) else none
  match fields with
  | some (y, m, d) => Date.of y m d
  | none => .error .valueError

/-- The seconds from the epoch to the start of a day, in UTC. -/
def Date.timestamp (x : Date) : Int := ((x.ordinal : Int) - 719163) * 86400

example : Date.fromisoformat (lit "2026-W45-1") = .ok ⟨2026, 11, 2⟩ := by decide

example : (DateTime.mk 2026 3 1 0 0 5).timegm = 1772323205 := by decide

end Preaction.Py
