import MediaCatalog.Text.Numeral
import MediaCatalog.Toml.Value

/-!
Values written without quotes or brackets: numbers, truth values, dates and times.
An integer has 64 bits with sign. A number with a fraction or exponent must not be
too large for its 64 bits, and its value is not needed beyond that.
-/

namespace MediaCatalog.Toml

open Text

/-- The digits of a numeral without the underscores between them. -/
def ungrouped? (isDigit : Char → Bool) (cs : List Char) : Option (List Char) :=
  let groups := cs.splitOnP (· == '_')
  if groups.all fun group => !group.isEmpty && group.all isDigit then some groups.flatten
  else none

def digitValue (c : Char) : Nat :=
  if c.isDigit then c.toNat - 48
  else if c.isLower then c.toNat - 87
  else c.toNat - 55

def isDigitOf (base : Nat) (c : Char) : Bool :=
  c.isAlphanum && digitValue c < base

def valueIn (base : Nat) (digits : List Char) : Nat :=
  digits.foldl (fun n c => base * n + digitValue c) 0

/-- The number after the mark of its base. -/
def marked? (base : Nat) (cs : List Char) : Option Int := do
  let n := valueIn base (← ungrouped? (isDigitOf base) cs)
  if n < signedBound then some n else none

def unsign : List Char → Bool × List Char
  | '-' :: cs => (true, cs)
  | '+' :: cs => (false, cs)
  | cs => (false, cs)

/-- The digits of a decimal numeral without leading zeros. -/
def decimalDigits? (cs : List Char) : Option (List Char) :=
  match cs, ungrouped? Char.isDigit cs with
  | '0' :: _ :: _, _ => none
  | _, digits => digits

def integer? : List Char → Option Int
  | '0' :: 'x' :: cs => marked? 16 cs
  | '0' :: 'o' :: cs => marked? 8 cs
  | '0' :: 'b' :: cs => marked? 2 cs
  | cs => do
      let (negative, rest) := unsign cs
      let digits ← decimalDigits? rest
      signed64? (if negative then '-' :: digits else digits)

/-- The least number that rounds to infinity in 64 bits. -/
def overflow : Nat :=
  (1 <<< 54 - 1) <<< 970

/-- Whether a decimal, its digits times a power of ten, rounds to infinity. It
does not if it has no more than 308 places before the point, and does if it
has more than 309. -/
def overflows (digits : List Char) (exponent : Int) : Bool :=
  let digits := digits.dropWhile (· == '0')
  let places := digits.length + exponent
  if digits.isEmpty || places ≤ 308 then false
  else if 309 < places then true
  else
    overflow * Nat.pow 10 (-exponent).toNat ≤
      valueIn 10 digits * Nat.pow 10 exponent.toNat

def exponent? (cs : List Char) : Option Int := do
  let (negative, rest) := unsign cs
  let n := valueIn 10 (← ungrouped? Char.isDigit rest)
  some (if negative then -(n : Int) else n)

def isFloat (cs : List Char) : Bool :=
  let (negative, rest) := unsign cs
  if rest = ['i', 'n', 'f'] || rest = ['n', 'a', 'n'] then true
  else
    let isMark := fun c : Char => c == 'e' || c == 'E'
    let exact := rest.takeWhile fun c => !isMark c
    let power := rest.dropWhile fun c => !isMark c
    let whole := exact.takeWhile (· != '.')
    let point := exact.dropWhile (· != '.')
    let parts := do
      let whole ← decimalDigits? whole
      let fraction ← if point.isEmpty then some [] else ungrouped? Char.isDigit point.tail
      let exponent ← if power.isEmpty then some 0 else exponent? power.tail
      some (whole ++ fraction, exponent - fraction.length)
    match parts with
    | some (digits, exponent) =>
        (!point.isEmpty || !power.isEmpty) && (negative || !overflows digits exponent)
    | none => false

/-- The number of exactly `n` digits, if it is in the range. -/
def within? (n least most : Nat) (cs : List Char) : Option Nat := do
  if cs.length ≠ n then none
  let value ← natural? cs
  if least ≤ value && value ≤ most then some value else none

def isLeapYear (year : Nat) : Bool :=
  year % 4 = 0 && (year % 100 ≠ 0 || year % 400 = 0)

def daysIn (year month : Nat) : Nat :=
  if month = 2 then (if isLeapYear year then 29 else 28)
  else if month = 4 || month = 6 || month = 9 || month = 11 then 30
  else 31

def isDate (cs : List Char) : Bool :=
  match cs.splitOnP (· == '-') with
  | [year, month, day] =>
      let parts := do
        let year ← within? 4 0 9999 year
        let month ← within? 2 1 12 month
        within? 2 1 (daysIn year month) day
      parts.isSome
  | _ => false

/-- Whether this is an hour, minute and second, which may have a fraction and
may be a leap second. -/
def isTime (cs : List Char) : Bool :=
  let exact := cs.takeWhile (· != '.')
  let point := cs.dropWhile (· != '.')
  match exact.splitOnP (· == ':') with
  | [hour, minute, second] =>
      (within? 2 0 23 hour).isSome && (within? 2 0 59 minute).isSome &&
        (within? 2 0 60 second).isSome &&
        (point.isEmpty || (natural? point.tail).isSome)
  | _ => false

/-- Whether this says how far a time is from that of Greenwich. -/
def isOffset : List Char → Bool
  | ['Z'] | ['z'] => true
  | sign :: cs =>
      match cs.splitOnP (· == ':') with
      | [hour, minute] =>
          (sign == '+' || sign == '-') && (within? 2 0 23 hour).isSome &&
            (within? 2 0 59 minute).isSome
      | _ => false
  | [] => false

def isZonedTime (cs : List Char) : Bool :=
  let inTime := fun c : Char => c.isDigit || c == ':' || c == '.'
  isTime (cs.takeWhile inTime) &&
    (let offset := cs.dropWhile inTime
     offset.isEmpty || isOffset offset)

def isMoment (cs : List Char) : Bool :=
  isDate cs || isTime cs ||
    (isDate (cs.take 10) && (cs[10]? == some 'T' || cs[10]? == some 't') &&
      isZonedTime (cs.drop 11))

def scalar? (cs : List Char) : Option Value :=
  if cs = "true".toList then some (.truth true)
  else if cs = "false".toList then some (.truth false)
  else if isMoment cs then some (.moment (.ofList cs))
  else
    match integer? cs with
    | some n => some (.integer n)
    | none => if isFloat cs then some (.float (.ofList cs)) else none

def isScalarChar (c : Char) : Bool :=
  c.isAlphanum || c == '+' || c == '-' || c == '_' || c == '.' || c == ':'

/-- The value at the beginning of a text, and the rest. A blank may stand
between a date and a time. -/
def readScalar? (cs : List Char) : Option (Value × List Char) :=
  let first := cs.takeWhile isScalarChar
  match cs.dropWhile isScalarChar with
  | ' ' :: d :: rest =>
      if isDate first && d.isDigit then
        let time := (d :: rest).takeWhile isScalarChar
        if isZonedTime time then
          some (.moment (.ofList (first ++ ' ' :: time)), (d :: rest).dropWhile isScalarChar)
        else
          none
      else
        (scalar? first).map (·, ' ' :: d :: rest)
  | rest => (scalar? first).map (·, rest)

end MediaCatalog.Toml
