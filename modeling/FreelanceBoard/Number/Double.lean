/-! Binary floating-point numbers of 53 significant bits, held as exact data: a finite one is the
rational number it stands for. Order is exact, also against whole numbers, and `ofRat` rounds a
rational to the nearest double, a tie to the even neighbour. -/
namespace FreelanceBoard

/-- A point of the rational line with an end added on either side. -/
inductive Extended where
  | bottom
  | rat (q : Rat)
  | top
  deriving DecidableEq

namespace Extended

def lt : Extended → Extended → Bool
  | .bottom, .bottom => false
  | .bottom, _ => true
  | .rat a, .rat b => decide (a < b)
  | .rat _, .top => true
  | _, _ => false

def le (a b : Extended) : Bool := a.lt b || decide (a = b)

def ofInt (n : Int) : Extended := .rat n

@[simp] theorem lt_rat (a b : Rat) : (rat a).lt (rat b) = decide (a < b) := rfl

@[simp] theorem bottom_lt_rat (a : Rat) : bottom.lt (rat a) = true := rfl

@[simp] theorem rat_lt_top (a : Rat) : (rat a).lt top = true := rfl

@[simp] theorem ofInt_inj {m n : Int} : ofInt m = ofInt n ↔ m = n := by
  simp [ofInt]

end Extended

/-- A zero below zero is kept apart from `finite 0`, to which it is equal as a number. -/
inductive Double where
  | nan
  | infinite (negative : Bool)
  | negativeZero
  | finite (q : Rat)
  deriving DecidableEq

namespace Double

/-- The point that a double marks on the line; a nan marks none. -/
def point? : Double → Option Extended
  | .nan => none
  | .infinite true => some .bottom
  | .infinite false => some .top
  | .negativeZero => some (.rat 0)
  | .finite q => some (.rat q)

def isFinite : Double → Bool
  | .nan => false
  | .infinite _ => false
  | _ => true

def isZero : Double → Bool
  | .negativeZero => true
  | .finite q => decide (q = 0)
  | _ => false

def zero (negative : Bool) : Double := if negative then .negativeZero else .finite 0

/-- The exponent `e` of the leading binary digit: `2 ^ e ≤ |q| < 2 ^ (e + 1)` for `q ≠ 0`. -/
def binaryExponent (q : Rat) : Int :=
  let e : Int := (Nat.log2 q.num.natAbs : Int) - (Nat.log2 q.den : Int)
  if (2 : Rat) ^ e ≤ q.abs then e else e - 1

/-- The distance between neighbouring doubles at `q`. -/
def quantum (q : Rat) : Rat := (2 : Rat) ^ (max (binaryExponent q) (-1022) - 52)

/-- The nearest whole number, of two equally near ones the even one. -/
def nearestInt (q : Rat) : Int :=
  let k := q.floor
  if q - (k : Rat) < 1 / 2 then k
  else if 1 / 2 < q - (k : Rat) then k + 1
  else k + k % 2

/-- Every double is less than this bound in absolute value, unless it is infinite. -/
def limit : Rat := (2 : Rat) ^ (1024 : Int)

def ofRat (q : Rat) : Double :=
  let r := (nearestInt (q / quantum q) : Rat) * quantum q
  if limit ≤ r.abs then .infinite (decide (q < 0))
  else if r = 0 then zero (decide (q < 0))
  else .finite r

/-- The nearest double of a whole number, if it is not too large to have one. -/
def ofInt? (n : Int) : Option Double :=
  match ofRat n with
  | .infinite _ => none
  | x => some x

/-- The whole number that a double is equal to, if there is one. -/
def toInt? : Double → Option Int
  | .negativeZero => some 0
  | .finite q => if q.den = 1 then some q.num else none
  | _ => none

@[simp] theorem point?_eq_none {x : Double} : x.point? = none ↔ x = nan := by
  cases x with
  | infinite negative => cases negative <;> simp [point?]
  | _ => simp [point?]

end Double

end FreelanceBoard
