import FreelanceBoard.Number.Decimal
import FreelanceBoard.Value

/-! Reading JSON text. Besides the standard it admits the numbers NaN, Infinity and -Infinity; of
equal keys the last one counts. What is wrong with a text is told together with the place. -/
namespace FreelanceBoard

inductive JsonProblem where
  | noValue
  | noName
  | noColon
  | noComma
  | openText
  | controlCharacter
  | badEscape
  | badCode
  | extraData
  | byteOrderMark
  deriving DecidableEq

namespace JsonProblem

def message : JsonProblem → String
  | .noValue => "Expecting value"
  | .noName => "Expecting property name enclosed in double quotes"
  | .noColon => "Expecting ':' delimiter"
  | .noComma => "Expecting ',' delimiter"
  | .openText => "Unterminated string starting at"
  | .controlCharacter => "Invalid control character at"
  | .badEscape => "Invalid \\escape"
  | .badCode => "Invalid \\uXXXX escape"
  | .extraData => "Extra data"
  | .byteOrderMark => "Unexpected UTF-8 BOM (decode using utf-8-sig)"

end JsonProblem

inductive JsonFailure where
  | malformed (problem : JsonProblem) (position : Nat)
  | numeralTooLong (digits : Nat)
  deriving DecidableEq

namespace Json

/-- What was read, the position after it and the rest of the text. -/
abbrev Reading (α : Type) := Except JsonFailure (α × Nat × List Char)

def fail {α : Type} (problem : JsonProblem) (position : Nat) : Except JsonFailure α :=
  .error (.malformed problem position)

def isGap (c : Char) : Bool := c == ' ' || c == '\t' || c == '\n' || c == '\r'

def skipGap (pos : Nat) : List Char → Nat × List Char
  | [] => (pos, [])
  | c :: cs => if isGap c then skipGap (pos + 1) cs else (pos, c :: cs)

def hexValue? (c : Char) : Option Nat :=
  if c.isDigit then some (c.toNat - '0'.toNat)
  else if 'a' ≤ c ∧ c ≤ 'f' then some (c.toNat - 'a'.toNat + 10)
  else if 'A' ≤ c ∧ c ≤ 'F' then some (c.toNat - 'A'.toNat + 10)
  else none

def hexCode? (cs : List Char) : Option Nat :=
  cs.foldlM (fun n c => (hexValue? c).map (16 * n + ·)) 0

def isHighSurrogate (n : Nat) : Bool := 0xd800 ≤ n && n < 0xdc00

def isLowSurrogate (n : Nat) : Bool := 0xdc00 ≤ n && n < 0xe000

/-- The character of two surrogates. -/
def joinSurrogates (high low : Nat) : Char :=
  Char.ofNat (0x10000 + (high - 0xd800) * 0x400 + (low - 0xdc00))

/-- A surrogate that stands alone is no character, and is replaced. -/
def charOfCode (n : Nat) : Char :=
  if isHighSurrogate n || isLowSurrogate n then '\ufffd' else Char.ofNat n

def simpleEscape? (c : Char) : Option Char :=
  match c with
  | '"' => some '"'
  | '\\' => some '\\'
  | '/' => some '/'
  | 'b' => some '\x08'
  | 'f' => some '\x0c'
  | 'n' => some '\n'
  | 'r' => some '\r'
  | 't' => some '\t'
  | _ => none

/-- The second half of a character in two escapes, if it stands next: its code and what follows.
An escape is only read if something follows it. -/
def nextCode? : List Char → Option (Option Nat × List Char)
  | '\\' :: 'u' :: a :: b :: c :: d :: rest =>
    if rest.isEmpty then none else some (hexCode? [a, b, c, d], rest)
  | _ => none

/-- Reads the rest of a text in quotes that was opened at `start`; `read` holds the characters
before `pos` backwards, and `fuel` is at least the number of characters left. -/
def readText (start : Nat) : Nat → Nat → List Char → List Char → Reading String
  | 0, _, _, _ => fail .openText start
  | _ + 1, _, _, [] => fail .openText start
  | fuel + 1, pos, read, c :: cs =>
    if c = '"' then .ok (String.ofList read.reverse, pos + 1, cs)
    else if c = '\\' then
      match cs with
      | [] => fail .openText start
      | e :: more =>
        if e = 'u' then
          match nextCode? (c :: cs) with
          | none => fail .badCode (pos + 1)
          | some (none, _) => fail .badCode (pos + 1)
          | some (some n, rest) =>
            if isHighSurrogate n then
              match nextCode? rest with
              | none => readText start fuel (pos + 6) (charOfCode n :: read) rest
              | some (none, _) => fail .badCode (pos + 7)
              | some (some m, after) =>
                if isLowSurrogate m then
                  readText start fuel (pos + 12) (joinSurrogates n m :: read) after
                else readText start fuel (pos + 6) (charOfCode n :: read) rest
            else readText start fuel (pos + 6) (charOfCode n :: read) rest
        else match simpleEscape? e with
          | none => fail .badEscape pos
          | some d => readText start fuel (pos + 2) (d :: read) more
    else if c.toNat < 0x20 then fail .controlCharacter pos
    else readText start fuel (pos + 1) (c :: read) cs

/-- The fraction at the start of a text: a point and digits, or nothing. -/
def fractionOf : List Char → List Char × List Char
  | '.' :: cs =>
    let ds := cs.takeWhile Char.isDigit
    if ds.isEmpty then ([], '.' :: cs) else ('.' :: ds, cs.dropWhile Char.isDigit)
  | cs => ([], cs)

/-- The exponent at the start of a text: a letter, a sign or none, and digits, or nothing. -/
def exponentOf : List Char → List Char × List Char
  | c :: cs =>
    if c = 'e' ∨ c = 'E' then
      let sign := match cs with
        | '-' :: _ => ['-']
        | '+' :: _ => ['+']
        | _ => []
      let digits := cs.drop sign.length
      let ds := digits.takeWhile Char.isDigit
      if ds.isEmpty then ([], c :: cs) else (c :: sign ++ ds, digits.dropWhile Char.isDigit)
    else ([], c :: cs)
  | [] => ([], [])

/-- The digits before the point: a zero alone, or digits that start with another one. -/
def wholeOf : List Char → List Char × List Char
  | '0' :: cs => (['0'], cs)
  | cs => (cs.takeWhile Char.isDigit, cs.dropWhile Char.isDigit)

def readNumber (pos : Nat) (cs : List Char) : Reading Value :=
  let (sign, unsigned) : List Char × List Char := match cs with
    | '-' :: rest => (['-'], rest)
    | _ => ([], cs)
  let (whole, afterWhole) := wholeOf unsigned
  if whole.isEmpty then fail .noValue pos
  else
    let (fraction, afterFraction) := fractionOf afterWhole
    let (exponent, rest) := exponentOf afterFraction
    let written := sign ++ whole ++ fraction ++ exponent
    let next := pos + written.length
    if fraction.isEmpty && exponent.isEmpty then
      if Decimal.maxDigits < whole.length then .error (.numeralTooLong whole.length)
      else
        let n : Int := Decimal.natOfDigits whole
        .ok (.int (if sign.isEmpty then n else -n), next, rest)
    else match Decimal.ofChars? written with
      | some d => .ok (.float d.toDouble, next, rest)
      | none => fail .noValue pos

/-- The values that are written as words. -/
def words : List (List Char × Value) :=
  [("null".toList, .null), ("true".toList, .bool true), ("false".toList, .bool false),
   ("NaN".toList, .float .nan), ("Infinity".toList, .float (.infinite false)),
   ("-Infinity".toList, .float (.infinite true))]

def word? (cs : List Char) : Option (List Char × Value) :=
  words.find? fun (w, _) => w.isPrefixOf cs

mutual

/-- Reads a value; `fuel` is at least twice the number of characters left. -/
def readValue : Nat → Nat → List Char → Reading Value
  | 0, pos, _ => fail .noValue pos
  | _ + 1, pos, [] => fail .noValue pos
  | fuel + 1, pos, c :: cs =>
    if c = '"' then
      match readText pos fuel (pos + 1) [] cs with
      | .ok (s, next, rest) => .ok (.text s, next, rest)
      | .error e => .error e
    else if c = '\x7b' then
      match skipGap (pos + 1) cs with
      | (p, '\x7d' :: rest) => .ok (.object [], p + 1, rest)
      | (p, rest) => readFields fuel p rest []
    else if c = '[' then
      match skipGap (pos + 1) cs with
      | (p, ']' :: rest) => .ok (.list [], p + 1, rest)
      | (p, rest) => readItems fuel p rest []
    else match word? (c :: cs) with
      | some (w, v) => .ok (v, pos + w.length, (c :: cs).drop w.length)
      | none => readNumber pos (c :: cs)

/-- Reads the rest of an array, from a value on; `items` are those before it, backwards. -/
def readItems : Nat → Nat → List Char → List Value → Reading Value
  | 0, pos, _, _ => fail .noValue pos
  | fuel + 1, pos, cs, items =>
    match readValue fuel pos cs with
    | .error e => .error e
    | .ok (v, next, rest) =>
      match skipGap next rest with
      | (p, ']' :: after) => .ok (.list (v :: items).reverse, p + 1, after)
      | (p, ',' :: after) =>
        let (q, more) := skipGap (p + 1) after
        readItems fuel q more (v :: items)
      | (p, _) => fail .noComma p

/-- Reads the rest of an object, from a name on. -/
def readFields : Nat → Nat → List Char → Fields → Reading Value
  | 0, pos, _, _ => fail .noName pos
  | fuel + 1, pos, cs, fields =>
    match cs with
    | '"' :: named =>
      match readText pos fuel (pos + 1) [] named with
      | .error e => .error e
      | .ok (name, afterName, rest) =>
        match skipGap afterName rest with
        | (p, ':' :: after) =>
          let (q, value) := skipGap (p + 1) after
          match readValue fuel q value with
          | .error e => .error e
          | .ok (v, next, more) =>
            let known := Fields.put fields name v
            match skipGap next more with
            | (r, '\x7d' :: done) => .ok (.object known, r + 1, done)
            | (r, ',' :: left) =>
              let (s, others) := skipGap (r + 1) left
              readFields fuel s others known
            | (r, _) => fail .noComma r
        | (p, _) => fail .noColon p
    | _ => fail .noName pos

end

def ofChars (cs : List Char) : Except JsonFailure Value :=
  match cs with
  | '\ufeff' :: _ => fail .byteOrderMark 0
  | _ =>
    let (start, text) := skipGap 0 cs
    match readValue (2 * cs.length + 2) start text with
    | .error e => .error e
    | .ok (v, next, rest) => match skipGap next rest with
      | (_, []) => .ok v
      | (p, _) => fail .extraData p

/-- The line of a position and its place in the line, both counted from one. -/
def lineAndColumn (cs : List Char) (position : Nat) : Nat × Nat :=
  let before := cs.take position
  (before.count '\n' + 1, (before.reverse.takeWhile (· != '\n')).length + 1)

def explain (cs : List Char) (problem : JsonProblem) (position : Nat) : String :=
  let (line, column) := lineAndColumn cs position
  problem.message ++ ": line " ++ toString line ++ " column " ++ toString column ++
    " (char " ++ toString position ++ ")"

end Json

end FreelanceBoard
