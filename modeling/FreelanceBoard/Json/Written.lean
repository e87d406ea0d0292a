import FreelanceBoard.Json
import FreelanceBoard.Number.Shortest
import FreelanceBoard.Text.Quoted

/-! Writing values as JSON text, on one line. Tuples and sets are written as arrays, octets as the
text that they encode. -/
namespace FreelanceBoard

namespace Json

def escapedChar (c : Char) : List Char :=
  if c = '"' ∨ c = '\\' then ['\\', c]
  else if c = '\n' then ['\\', 'n']
  else if c = '\r' then ['\\', 'r']
  else if c = '\t' then ['\\', 't']
  else if c.toNat < 0x20 then '\\' :: 'u' :: Text.hexDigits 4 c.toNat
  else [c]

def writtenText (s : String) : String :=
  String.ofList ('"' :: s.toList.flatMap escapedChar ++ ['"'])

def writtenDouble : Double → String
  | .nan => "NaN"
  | .infinite true => "-Infinity"
  | .infinite false => "Infinity"
  | x => x.text

def between (left right : String) (parts : List String) : String :=
  left ++ String.intercalate ", " parts ++ right

mutual

def written : Value → String
  | .null => "null"
  | .bool b => if b then "true" else "false"
  | .int n => toString n
  | .float x => writtenDouble x
  | .text s => writtenText s
  | .bytes _ octets => writtenText ((String.fromUTF8? octets).getD "")
  | .list items => between "[" "]" (writtenItems items)
  | .tuple items => between "[" "]" (writtenItems items)
  | .set items => between "[" "]" (writtenItems items)
  | .object fields => between "\x7b" "\x7d" (writtenFields fields)
termination_by structural v => v

def writtenItems : List Value → List String
  | [] => []
  | x :: xs => written x :: writtenItems xs
termination_by structural xs => xs

def writtenFields : List (String × Value) → List String
  | [] => []
  | (k, x) :: fs => (writtenText k ++ ": " ++ written x) :: writtenFields fs
termination_by structural fs => fs

end

end Json

end FreelanceBoard
