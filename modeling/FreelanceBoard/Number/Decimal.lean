import FreelanceBoard.Number.Double

/-! Decimal numerals: a sign, a whole number of digits and a power of ten. `ofChars?` reads the
general written form, with a point on either side of the digits and an exponent, and `toDouble`
gives the nearest double. -/
namespace FreelanceBoard

/-- The number `digits * 10 ^ scale`, below zero if `negative`. -/
structure Decimal where
  negative : Bool
  digits : Nat
  scale : Int
  deriving DecidableEq

namespace Decimal

def digitValue (c : Char) : Nat := c.toNat - '0'.toNat

/-- No whole number of more digits than this is read or written. -/
def maxDigits : Nat := 4300

/-- The whole number that a run of digits stands for. -/
def natOfDigits (cs : List Char) : Nat :=
  cs.foldl (fun n c => 10 * n + digitValue c) 0

def magnitude (d : Decimal) : Rat := (d.digits : Rat) * (10 : Rat) ^ d.scale

/-- Numbers far beyond the largest double, or far below the smallest, are not written out. -/
def toDouble (d : Decimal) : Double :=
  let bits : Int := (Nat.log2 d.digits : Int) + 3 * d.scale
  if d.digits = 0 then .zero d.negative
  else if 0 ≤ d.scale ∧ 1400 < bits then .infinite d.negative
  else if d.scale < 0 ∧ bits < -1400 then .zero d.negative
  else .ofRat (if d.negative then -d.magnitude else d.magnitude)

/-- A sign, if the text starts with one, and the text after it. -/
def splitSign : List Char → Bool × List Char
  | '-' :: cs => (true, cs)
  | '+' :: cs => (false, cs)
  | cs => (false, cs)

/-- An exponent that has to end the text. -/
def exponent? : List Char → Option Int
  | [] => some 0
  | c :: cs =>
    if c = 'e' ∨ c = 'E' then
      let (negative, ds) := splitSign cs
      if ds ≠ [] ∧ ds.all Char.isDigit then
        some (if negative then -(natOfDigits ds : Int) else natOfDigits ds)
      else none
    else none

def fraction? : List Char → List Char × List Char
  | '.' :: cs => (cs.takeWhile Char.isDigit, cs.dropWhile Char.isDigit)
  | cs => ([], cs)

/-- Reads digits with an optional point before, within or after them, then an optional exponent. -/
def ofUnsigned? (negative : Bool) (cs : List Char) : Option Decimal :=
  let whole := cs.takeWhile Char.isDigit
  let (part, rest) := fraction? (cs.dropWhile Char.isDigit)
  if whole = [] ∧ part = [] then none
  else (exponent? rest).map fun e =>
    { negative, digits := natOfDigits (whole ++ part), scale := e - part.length }

def ofChars? (cs : List Char) : Option Decimal :=
  let (negative, rest) := splitSign cs
  ofUnsigned? negative rest

end Decimal

namespace Double

/-- Reads a decimal numeral, `nan`, `inf` or `infinity` in any case of letters. -/
def ofChars? (cs : List Char) : Option Double :=
  let (negative, rest) := Decimal.splitSign cs
  let word := String.ofList (rest.map Char.toLower)
  if word = "nan" then some .nan
  else if word = "inf" ∨ word = "infinity" then some (.infinite negative)
  else (Decimal.ofUnsigned? negative rest).map Decimal.toDouble

end Double

end FreelanceBoard
