import FreelanceBoard.Number.Double

/-! The text of a double: the fewest decimal digits that read back as the same double, the nearest
such digits if there are several, written without an exponent where the point falls near them. -/
namespace FreelanceBoard

namespace Double

/-- The exponent `e` of the leading decimal digit: `10 ^ e ≤ q < 10 ^ (e + 1)` for `0 < q`. -/
def decimalExponent (q : Rat) : Int :=
  let e := Int.fdiv (binaryExponent q * 30103) 100000
  if (10 : Rat) ^ (e + 1) ≤ q then e + 1
  else if q < (10 : Rat) ^ e then e - 1
  else e

/-- A decimal of whole digits on the grid `10 ^ scale`. -/
structure Digits where
  digits : Nat
  scale : Int

def Digits.value (d : Digits) : Rat := (d.digits : Rat) * (10 : Rat) ^ d.scale

/-- The neighbour of `q` on a decimal grid that rounds to `q`, of two such the nearer one. -/
def onGrid? (q : Rat) (scale : Int) : Option Digits :=
  let k := (q / (10 : Rat) ^ scale).floor.toNat
  let low : Digits := { digits := k, scale }
  let high : Digits := { digits := k + 1, scale }
  let reads (d : Digits) : Bool := decide (ofRat d.value = .finite q)
  if reads low then
    if reads high ∧ high.value - q < q - low.value then some high else some low
  else if reads high then some high
  else none

/-- The shortest digits of a positive double, tried on ever finer grids. -/
def shortestFrom (q : Rat) (top : Int) (count : Nat) : Nat → Digits
  | 0 => { digits := (q / (10 : Rat) ^ (top - 16)).floor.toNat, scale := top - 16 }
  | fuel + 1 =>
    match onGrid? q (top - count) with
    | some d => d
    | none => shortestFrom q top (count + 1) fuel

/-- Seventeen digits always suffice. -/
def shortest (q : Rat) : Digits := shortestFrom q (decimalExponent q) 0 17

def padLeft (width : Nat) (cs : List Char) : List Char :=
  List.replicate (width - cs.length) '0' ++ cs

def exponentText (e : Int) : List Char :=
  (if e < 0 then '-' else '+') :: padLeft 2 (Nat.toDigits 10 e.natAbs)

/-- The digits without trailing zeros. -/
def trimZeros (cs : List Char) : List Char :=
  (cs.reverse.dropWhile (· == '0')).reverse

/-- Digits with a leading digit of weight `10 ^ e`: positional from `1e-4` to below `1e16`. -/
def layout (cs : List Char) (e : Int) : List Char :=
  if e < -4 ∨ 16 ≤ e then
    match cs with
    | [] => []
    | [c] => c :: 'e' :: exponentText e
    | c :: rest => c :: '.' :: rest ++ 'e' :: exponentText e
  else if e < 0 then
    '0' :: '.' :: List.replicate (-e - 1).toNat '0' ++ cs
  else
    let width := e.toNat + 1
    let whole := cs.take width
    let part := cs.drop width
    whole ++ List.replicate (width - cs.length) '0' ++ '.' :: (if part = [] then ['0'] else part)

def positiveText (q : Rat) : List Char :=
  let d := shortest q
  let cs := Nat.toDigits 10 d.digits
  layout (trimZeros cs) (d.scale + cs.length - 1)

def text : Double → String
  | .nan => "nan"
  | .infinite true => "-inf"
  | .infinite false => "inf"
  | .negativeZero => "-0.0"
  | .finite q =>
    if q = 0 then "0.0"
    else if q < 0 then String.ofList ('-' :: positiveText (-q))
    else String.ofList (positiveText q)

end Double

end FreelanceBoard
