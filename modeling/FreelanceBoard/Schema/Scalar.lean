import FreelanceBoard.Number.Decimal
import FreelanceBoard.Schema.Checked
import FreelanceBoard.Text.Blank

/-! Reading single values. A strict reading takes a value of its own kind alone; a lax one also
takes what stands for such a value, as the numeral for a number or octets for the text that they
encode. -/
namespace FreelanceBoard

/-- A number that is kept as it was given. -/
inductive Number where
  | int (n : Int)
  | float (x : Double)
  deriving DecidableEq

namespace Number

def toValue : Number → Value
  | .int n => .int n
  | .float x => .float x

/-- The nearest double, if the number is not too large to have one. -/
def toDouble? : Number → Option Double
  | .int n => Double.ofInt? n
  | .float x => some x

end Number

namespace Reader

def strictText : Reader String
  | .text s => .valid s
  | _ => .issue .notText

/-- Reads the text that octets encode; `cause` is what is wrong where they encode none. -/
def ofOctets {α : Type} (read : String → Checked α) (cause : Cause) (octets : ByteArray) :
    Checked α :=
  match String.fromUTF8? octets with
  | some s => read s
  | none => .issue cause

def laxText : Reader String
  | .text s => .valid s
  | .bytes _ octets => ofOctets .valid .notUnicode octets
  | _ => .issue .notText

def strictBool : Reader Bool
  | .bool b => .valid b
  | _ => .issue .notBool

/-- A value of neither kind is refused once for each. -/
def strictNumber : Reader Number
  | .int n => .valid (.int n)
  | .float x => .valid (.float x)
  | _ => .invalid [⟨.notInt, ["int"]⟩, ⟨.notNumber, ["float"]⟩]

/-- Digits with single underscores between them, without the underscores. -/
def plainDigits? : List Char → Option (List Char)
  | [] => none
  | [c] => if c.isDigit then some [c] else none
  | c :: '_' :: rest => if c.isDigit then (plainDigits? rest).map (c :: ·) else none
  | c :: rest => if c.isDigit then (plainDigits? rest).map (c :: ·) else none

/-- Digits that may end in a point and zeros, without these. -/
def wholeDigits? (cs : List Char) : Option (List Char) :=
  match cs.dropWhile (· != '.') with
  | [] => plainDigits? cs
  | _ :: zeros =>
    if zeros ≠ [] ∧ zeros.all (· == '0') then plainDigits? (cs.takeWhile (· != '.')) else none

def intOfText (s : String) : Checked Int :=
  let cs := Text.trimBy Text.isSpace s.toList
  let (negative, rest) := Decimal.splitSign cs
  match wholeDigits? rest with
  | none => .issue .unreadableInt
  | some ds =>
    if Decimal.maxDigits < ds.length then .issue .intTooLong
    else
      let n : Int := Decimal.natOfDigits ds
      .valid (if negative then -n else n)

/-- A double is read as a whole number only if that has fewer than 64 binary digits. -/
def intOfDouble (x : Double) : Checked Int :=
  if x.isFinite then
    match x.toInt? with
    | none => .issue .fractionalInt
    | some n => if n.natAbs < 9223372036854775808 then .valid n else .issue .intTooLong
  else .issue .infiniteInt

/-- Only fixed octets stand for a number or a truth value. -/
def laxInt : Reader Int
  | .int n => .valid n
  | .bool b => .valid (if b then 1 else 0)
  | .float x => intOfDouble x
  | .text s => intOfText s
  | .bytes true octets => ofOctets intOfText .unreadableInt octets
  | _ => .issue .notInt

/-- The text without its underscores, if each of them stands between two other characters. -/
def withoutUnderscores? (cs : List Char) : Option (List Char) :=
  let pairs := cs.zip (cs.drop 1)
  if cs.head? = some '_' ∨ cs.getLast? = some '_' ∨ pairs.contains ('_', '_') ∨ !cs.contains '_' then
    none
  else some (cs.filter (· != '_'))

def numberOfText (s : String) : Checked Double :=
  match Double.ofChars? (Text.trimBy Text.isSpace s.toList) with
  | some x => .valid x
  | none =>
    match (withoutUnderscores? s.toList).bind Double.ofChars? with
    | some x => .valid x
    | none => .issue .unreadableNumber

def laxNumber : Reader Double
  | .float x => .valid x
  | .int n => match Double.ofInt? n with
    | some x => .valid x
    | none => .issue .notNumber
  | .bool b => .valid (.finite (if b then 1 else 0))
  | .text s => numberOfText s
  | .bytes true octets => ofOctets numberOfText .unreadableNumber octets
  | _ => .issue .notNumber

def wordsForFalse : List String := ["0", "off", "f", "false", "n", "no"]

def wordsForTrue : List String := ["1", "on", "t", "true", "y", "yes"]

/-- A whole number of 64 binary digits or more stands for no truth value, not even a wrong one. -/
def boolOfInt (n : Int) : Checked Bool :=
  if n = 0 then .valid false
  else if n = 1 then .valid true
  else if n.natAbs < 9223372036854775808 then .issue .unreadableBool
  else .issue .notBool

def boolOfText (s : String) : Checked Bool :=
  let word := s.toLower
  if word ∈ wordsForFalse then .valid false
  else if word ∈ wordsForTrue then .valid true
  else .issue .unreadableBool

def laxBool : Reader Bool
  | .bool b => .valid b
  | .int n => boolOfInt n
  | .float x => match x.toInt? with
    | some n => boolOfInt n
    | none => .issue .notBool
  | .text s => boolOfText s
  | .bytes true octets => ofOctets boolOfText .unreadableBool octets
  | _ => .issue .notBool

/-- A key whose value, if it is there, has to be the name of the schema. -/
def literal (expected : String) : Reader Unit
  | .text s => if s = expected then .valid () else .issue (.notLiteral expected)
  | _ => .issue (.notLiteral expected)

end Reader

end FreelanceBoard
