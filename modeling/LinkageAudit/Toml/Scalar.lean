import LinkageAudit.Toml.Text
import LinkageAudit.Toml.Value

/-!
# Numbers, truth values and date-times of TOML

These values have no delimiters. The reader takes the longest run of characters that can belong
to one, and the whole run must be a value of some kind.

* `Toml.integer?`: integers fit 64 bits with a sign.
* `Toml.float?`: floats do not overflow to positive infinity.
* `Toml.dateTime?`: dates exist and times are within their ranges.
-/

namespace LinkageAudit.Toml

/-- A character that can belong to a value without delimiters. -/
def isScalarChar (c : Char) : Bool :=
  c.isAlphanum || c = '+' || c = '-' || c = '_' || c = '.' || c = ':'

/-! ## Numbers -/

/-- A digit of a base. -/
def isDigitOf (base : Nat) (c : Char) : Bool := (digitValue? c).any (· < base)

/-- The digits of a number without the underscores between them. There is at least one digit, and
each underscore stands between two. -/
def digits? (base : Nat) : List Char → Option (List Char)
  | [] => none
  | [c] => if isDigitOf base c then some [c] else none
  | c :: '_' :: r => if isDigitOf base c then (digits? base r).map (c :: ·) else none
  | c :: r => if isDigitOf base c then (digits? base r).map (c :: ·) else none

/-- The number that digits make in a base. -/
def numberOf (base : Nat) (digits : List Char) : Nat :=
  digits.foldl (fun n c => n * base + (digitValue? c).getD 0) 0

/-- A sign, if there is one, and the rest; `true` for minus. -/
def sign : List Char → Bool × List Char
  | '+' :: r => (false, r)
  | '-' :: r => (true, r)
  | s => (false, s)

/-- Decimal digits without a needless zero in front. -/
def decimal? (s : List Char) : Option (List Char) := do
  let digits ← digits? 10 s
  if digits.length ≠ 1 ∧ digits.head? = some '0' then none else some digits

/-- An integer that fits 64 bits with a sign. -/
def fitting? (n : Int) : Option Int :=
  if -0x8000_0000_0000_0000 ≤ n ∧ n < 0x8000_0000_0000_0000 then some n else none

/-- An integer: decimal with or without a sign, or in base 16, 8 or 2 without. -/
def integer? : List Char → Option Int
  | '0' :: 'x' :: s => (digits? 16 s).bind fun d => fitting? (numberOf 16 d)
  | '0' :: 'o' :: s => (digits? 8 s).bind fun d => fitting? (numberOf 8 d)
  | '0' :: 'b' :: s => (digits? 2 s).bind fun d => fitting? (numberOf 2 d)
  | s =>
    let (negative, s) := sign s
    (decimal? s).bind fun d =>
      let n : Int := numberOf 10 d
      fitting? (if negative then -n else n)

/-- The least natural number that rounds to infinity as a 64-bit float: half a unit in the last
place above the largest finite one. -/
def floatOverflow : Nat := Nat.pow 2 1024 - Nat.pow 2 970

/-- The number `mantissa * 10 ^ exponent` rounds to infinity. The number of decimal places decides
all but the numbers of 309 places, which are compared exactly. -/
def overflows (mantissa : Nat) (exponent : Int) : Bool :=
  if mantissa = 0 then false
  else
    let places : Int := (Nat.toDigits 10 mantissa).length + exponent
    if places < 309 then false
    else if 309 < places then true
    else if 0 ≤ exponent then floatOverflow ≤ mantissa * Nat.pow 10 exponent.toNat
    else floatOverflow * Nat.pow 10 (-exponent).toNat ≤ mantissa

/-- A digit or an underscore. -/
def isDigitOrUnderscore (c : Char) : Bool := c.isDigit || c = '_'

/-- The exponent of a float, after the letter. -/
def exponent? (s : List Char) : Option Int :=
  let (negative, s) := sign s
  (digits? 10 s).map fun d =>
    let n : Int := numberOf 10 d
    if negative then -n else n

/-- The part of a float after its whole digits: the digits after the point and the exponent. One
of the two must be there. -/
def fraction? : List Char → Option (List Char × Int)
  | '.' :: s => do
    let places ← digits? 10 (s.takeWhile isDigitOrUnderscore)
    match s.dropWhile isDigitOrUnderscore with
    | [] => some (places, 0)
    | e :: r => if e = 'e' ∨ e = 'E' then (exponent? r).map (places, ·) else none
  | e :: r => if e = 'e' ∨ e = 'E' then (exponent? r).map ([], ·) else none
  | [] => none

/-- A float without its sign is a named one. -/
def isNamedFloat (s : List Char) : Bool := s == "inf".toList || s == "nan".toList

/-- Characters that write a float. -/
def float? (s : List Char) : Option String :=
  let (negative, magnitude) := sign s
  if isNamedFloat magnitude then some (String.ofList s)
  else do
    let whole ← decimal? (magnitude.takeWhile isDigitOrUnderscore)
    let (places, exponent) ← fraction? (magnitude.dropWhile isDigitOrUnderscore)
    let tooLarge := overflows (numberOf 10 (whole ++ places)) (exponent - places.length)
    if tooLarge && !negative then none else some (String.ofList s)

/-! ## Date-times -/

/-- A number of exactly `n` digits in front, and the rest. -/
def fixed? (n : Nat) : Reader Nat := fun s =>
  let digits := s.take n
  if digits.length = n ∧ digits.all Char.isDigit then some (numberOf 10 digits, s.drop n) else none

/-- The rest after a character. -/
def after? (c : Char) : List Char → Option (List Char)
  | x :: r => if x = c then some r else none
  | [] => none

/-- The number of days of a month. -/
def daysIn (year month : Nat) : Nat :=
  if month = 2 then
    if year % 4 = 0 ∧ (year % 100 ≠ 0 ∨ year % 400 = 0) then 29 else 28
  else if month = 4 ∨ month = 6 ∨ month = 9 ∨ month = 11 then 30
  else 31

/-- The rest after a date that exists. -/
def date? (s : List Char) : Option (List Char) := do
  let (year, s) ← fixed? 4 s
  let (month, s) ← fixed? 2 (← after? '-' s)
  let (day, s) ← fixed? 2 (← after? '-' s)
  if 1 ≤ month ∧ month ≤ 12 ∧ 1 ≤ day ∧ day ≤ daysIn year month then some s else none

/-- The rest after hours and minutes. -/
def hourMinute? (s : List Char) : Option (List Char) := do
  let (hour, s) ← fixed? 2 s
  let (minute, s) ← fixed? 2 (← after? ':' s)
  if hour ≤ 23 ∧ minute ≤ 59 then some s else none

/-- The rest after a time of day. Seconds may be 60, for leap seconds. -/
def time? (s : List Char) : Option (List Char) := do
  let s ← hourMinute? s
  let (second, s) ← fixed? 2 (← after? ':' s)
  if 60 < second then none
  else match s with
    | '.' :: r =>
      if (r.takeWhile Char.isDigit).isEmpty then none else some (r.dropWhile Char.isDigit)
    | s => some s

/-- The characters are a time of day, with or without an offset. -/
def isOffsetTime (s : List Char) : Bool :=
  match time? s with
  | none => false
  | some [] => true
  | some [c] => c = 'Z' || c = 'z'
  | some (c :: r) => (c = '+' || c = '-') && hourMinute? r == some []

/-- The characters are a date, a time of day, or both; only both may have an offset. -/
def isDateTime (s : List Char) : Bool :=
  match date? s with
  | some [] => true
  | some (c :: r) => (c = 'T' || c = 't') && isOffsetTime r
  | none => time? s == some []

/-- The characters are a date alone. -/
def isDate (s : List Char) : Bool := date? s == some []

/-! ## Scalars -/

/-- The value that characters write. -/
def scalarOf? (s : List Char) : Option Value :=
  if s == "true".toList then some (.boolean true)
  else if s == "false".toList then some (.boolean false)
  else if isDateTime s then some (.dateTime (String.ofList s))
  else ((float? s).map .float) <|> ((integer? s).map .integer)

/-- Reads a value without delimiters. A date may go on with a time after one space. -/
def scalar : Reader Value := fun s =>
  let run := s.takeWhile isScalarChar
  let rest := s.dropWhile isScalarChar
  match rest with
  | ' ' :: more =>
    let time := more.takeWhile isScalarChar
    if isDate run && !time.isEmpty then
      if isOffsetTime time then
        some (.dateTime (String.ofList (run ++ ' ' :: time)), more.dropWhile isScalarChar)
      else none
    else (scalarOf? run).map (·, rest)
  | _ => (scalarOf? run).map (·, rest)

end LinkageAudit.Toml
