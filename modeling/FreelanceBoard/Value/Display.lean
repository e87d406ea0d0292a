import FreelanceBoard.Number.Decimal
import FreelanceBoard.Number.Shortest
import FreelanceBoard.Text.Quoted
import FreelanceBoard.Value

/-! The text of a value in messages. -/
namespace FreelanceBoard

namespace Value

def commaSeparated (parts : List String) : String := String.intercalate ", " parts

mutual

/-- The value as it would be written down, with quotes around text. -/
def display : Value → String
  | .null => "None"
  | .bool b => if b then "True" else "False"
  | .int n => toString n
  | .float x => x.text
  | .text s => Text.quoted s
  | .bytes fixed octets =>
    let shown := Text.quotedOctets octets.data.toList
    if fixed then shown else "bytearray(" ++ shown ++ ")"
  | .list items => "[" ++ commaSeparated (displayItems items) ++ "]"
  | .tuple items => match displayItems items with
    | [part] => "(" ++ part ++ ",)"
    | parts => "(" ++ commaSeparated parts ++ ")"
  | .set items => match displayItems items with
    | [] => "set()"
    | parts => "\x7b" ++ commaSeparated parts ++ "\x7d"
  | .object fields => "\x7b" ++ commaSeparated (displayFields fields) ++ "\x7d"
termination_by structural v => v

def displayItems : List Value → List String
  | [] => []
  | x :: xs => display x :: displayItems xs
termination_by structural xs => xs

def displayFields : List (String × Value) → List String
  | [] => []
  | (k, x) :: fs => (Text.quoted k ++ ": " ++ display x) :: displayFields fs
termination_by structural fs => fs

end

mutual

/-- Whether no whole number in a value has too many digits to be written down. -/
def isPrintable : Value → Bool
  | .int n => decide ((Nat.toDigits 10 n.natAbs).length ≤ Decimal.maxDigits)
  | .list items => arePrintable items
  | .tuple items => arePrintable items
  | .set items => arePrintable items
  | .object fields => arePrintableFields fields
  | _ => true
termination_by structural v => v

def arePrintable : List Value → Bool
  | [] => true
  | x :: xs => isPrintable x && arePrintable xs
termination_by structural xs => xs

def arePrintableFields : List (String × Value) → Bool
  | [] => true
  | (_, x) :: fs => isPrintable x && arePrintableFields fs
termination_by structural fs => fs

end

/-- Text as it is, all else as it would be written down. -/
def plain : Value → String
  | .text s => s
  | v => v.display

@[simp] theorem plain_text (s : String) : plain (.text s) = s := rfl

end Value

end FreelanceBoard
