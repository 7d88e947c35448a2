/-!
Decimal numerals in ASCII digits. A sign may stand in front; blanks, separators
and other digits may not. A number out of range is no numeral of that range.
-/

namespace MediaCatalog.Text

def natural? : List Char → Option Nat
  | [] => none
  | c :: cs =>
      if (c :: cs).all Char.isDigit then
        some ((c :: cs).foldl (fun n d => 10 * n + (d.toNat - 48)) 0)
      else
        none

/-- The bound of the numbers of 64 bits with sign. -/
def signedBound : Nat := UInt64.size / 2

def signed64? (text : List Char) : Option Int :=
  match text with
  | '-' :: digits => do
      let n ← natural? digits
      if n ≤ signedBound then some (-(n : Int)) else none
  | '+' :: digits => do
      let n ← natural? digits
      if n < signedBound then some (n : Int) else none
  | digits => do
      let n ← natural? digits
      if n < signedBound then some (n : Int) else none

/-- A number of 64 bits without sign; a plus in front is allowed. -/
def unsigned64? (text : List Char) : Option UInt64 :=
  let digits := match text with
    | '+' :: digits => digits
    | digits => digits
  match natural? digits with
  | some n => if n < UInt64.size then some (.ofNat n) else none
  | none => none

end MediaCatalog.Text
