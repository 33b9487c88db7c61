import DocPress.Toml.Quoted
import DocPress.Toml.Value

-- Numbers, dates and truth values.

namespace DocPress.Toml

open Text

-- Digits with single underscores between them.
def digits? (base : Nat) (x : Text) : Option Nat :=
  let groups := x.splitOn '_'
  if groups.any (·.isEmpty) then none else numeral base groups.flatten

-- A decimal number has no zeros in front.
def decimal? (x : Text) : Option Nat :=
  if x.head? = some '0' ∧ x ≠ ['0'] then none else digits? 10 x

def signed : Text → Bool × Text
  | '-' :: x => (true, x)
  | '+' :: x => (false, x)
  | x        => (false, x)

-- Numbers beyond 128 bits are refused.
def bounded (n : Int) : Option Int :=
  match n with
  | .ofNat k   => if k < Nat.pow 2 128 then some n else none
  | .negSucc k => if k < Nat.pow 2 127 then some n else none

def integer? (x : Text) : Option Int :=
  match x with
  | '0' :: 'x' :: y => (digits? 16 y).bind fun n => bounded n
  | '0' :: 'o' :: y => (digits? 8 y).bind fun n => bounded n
  | '0' :: 'b' :: y => (digits? 2 y).bind fun n => bounded n
  | _               =>
    let (minus, y) := signed x
    (decimal? y).bind fun n => bounded (if minus then -n else n)

-- The double floats end at this number, where rounding leads past the largest one.
def floatBound : Nat :=
  Nat.pow 2 1024 - Nat.pow 2 970

-- A decimal fraction, given by its digits as a number and the power of ten that they are scaled by,
-- lies within the double floats. Far from the bound the number of digits decides.
def isFinite (mantissa : Nat) (scale : Int) : Bool :=
  let magnitude := (Nat.toDigits 10 mantissa).length + scale
  if mantissa = 0 ∨ magnitude < 300 then true
  else if 400 < magnitude then false
  else mantissa * Nat.pow 10 scale.toNat < floatBound * Nat.pow 10 (-scale).toNat

-- The exponent of a float: nothing, or a number after an E.
def exponent? : Text → Option Int
  | []     => some 0
  | c :: x =>
    if c = 'e' ∨ c = 'E' then
      let (minus, y) := signed x
      (digits? 10 y).map fun n => if minus then -n else n
    else none

def isDigitPart (c : Char) : Bool :=
  c.isDigit || c = '_'

def isFloat (x : Text) : Bool :=
  let (_, y) := signed x
  if y = "inf" ∨ y = "nan" then true
  else
    let whole := y.takeWhile isDigitPart
    let rest := y.dropWhile isDigitPart
    let parts : Option (Text × Int) :=
      match rest with
      | '.' :: z =>
        let fraction := z.takeWhile isDigitPart
        (digits? 10 fraction).bind fun _ =>
          (exponent? (z.dropWhile isDigitPart)).map fun e => (fraction.filter (· ≠ '_'), e)
      | []       => none
      | _        => (exponent? rest).map fun e => ([], e)
    match decimal? whole, parts with
    | some _, some (fraction, e) =>
      match numeral 10 (whole.filter (· ≠ '_') ++ fraction) with
      | some n => isFinite n (e - fraction.length)
      | none   => false
    | _, _ => false

def twoDigits? : Text → Option (Nat × Text)
  | a :: b :: x => if a.isDigit && b.isDigit then (numeral 10 [a, b]).map (·, x) else none
  | _           => none

def after? (c : Char) : Text → Option Text
  | d :: x => if d = c then some x else none
  | []     => none

def isLeapYear (y : Nat) : Bool :=
  y % 4 = 0 && (y % 100 ≠ 0 || y % 400 = 0)

def daysOf (year month : Nat) : Nat :=
  if month = 2 then if isLeapYear year then 29 else 28
  else if month ∈ [4, 6, 9, 11] then 30
  else 31

-- Reads a date and gives what follows it.
def date? (x : Text) : Option Text := do
  let (century, x) ← twoDigits? x
  let (year, x) ← twoDigits? x
  let (month, x) ← after? '-' x >>= twoDigits?
  let (day, x) ← after? '-' x >>= twoDigits?
  if 1 ≤ month ∧ month ≤ 12 ∧ 1 ≤ day ∧ day ≤ daysOf (century * 100 + year) month then some x
  else none

def fraction? : Text → Option Text
  | '.' :: x => if (x.head?.any Char.isDigit) then some (x.dropWhile Char.isDigit) else none
  | x        => some x

-- Seconds may be left out.
def time? (x : Text) : Option Text := do
  let (hour, x) ← twoDigits? x
  let (minute, x) ← after? ':' x >>= twoDigits?
  if 23 < hour ∨ 59 < minute then none
  else
    match after? ':' x with
    | none   => some x
    | some y => do
      let (second, y) ← twoDigits? y
      if 60 < second then none else fraction? y

def isOffset : Text → Bool
  | []     => true
  | c :: x =>
    if c = 'Z' || c = 'z' then x.isEmpty
    else if c = '+' || c = '-' then
      match twoDigits? x with
      | some (hour, ':' :: y) =>
        match twoDigits? y with
        | some (minute, z) => hour ≤ 23 && minute ≤ 59 && z.isEmpty
        | none             => false
      | _ => false
    else false

def isDatetime (x : Text) : Bool :=
  match date? x with
  | none => time? x = some []
  | some [] => true
  | some (c :: y) =>
    (c = 'T' || c = 't' || c = ' ') && ((time? y).any isOffset)

def isScalarChar (c : Char) : Bool :=
  c.isAlphanum || c = '_' || c = '+' || c = '-' || c = '.' || c = ':'

-- Cuts off what may be a scalar. A space may stand between a date and a time.
def scalarToken (x : Text) : Text × Text :=
  let token := x.takeWhile isScalarChar
  let rest := x.dropWhile isScalarChar
  match rest with
  | ' ' :: c :: _ =>
    if date? token = some [] ∧ c.isDigit then
      (token ++ ' ' :: (rest.drop 1).takeWhile isScalarChar, (rest.drop 1).dropWhile isScalarChar)
    else (token, rest)
  | _ => (token, rest)

def scalarOf? (token : Text) : Option Value :=
  if token = "true" then some (.boolean true)
  else if token = "false" then some (.boolean false)
  else
    match integer? token with
    | some n => some (.integer n)
    | none   =>
      if isFloat token then some (.float token)
      else if isDatetime token then some (.datetime token)
      else none

def scalar? (x : Text) : Option (Value × Text) :=
  let (token, rest) := scalarToken x
  (scalarOf? token).map (·, rest)

end DocPress.Toml
