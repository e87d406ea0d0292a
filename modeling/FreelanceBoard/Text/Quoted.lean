import FreelanceBoard.Text.Printable

/-! Quoted text, as it stands in messages: between single quotes, or between double quotes where
that saves escaping, with a backslash before what cannot stand as it is. -/
namespace FreelanceBoard

namespace Text

/-- The last `width` hexadecimal digits of a code point, with leading zeros. -/
def hexDigits (width n : Nat) : List Char :=
  let ds := Nat.toDigits 16 n
  List.replicate (width - ds.length) '0' ++ ds

def escapeCode (c : Char) : List Char :=
  if c.toNat < 0x100 then '\\' :: 'x' :: hexDigits 2 c.toNat
  else if c.toNat < 0x10000 then '\\' :: 'u' :: hexDigits 4 c.toNat
  else '\\' :: 'U' :: hexDigits 8 c.toNat

def escapeChar (quote c : Char) : List Char :=
  if c = quote ∨ c = '\\' then ['\\', c]
  else if c = '\n' then ['\\', 'n']
  else if c = '\r' then ['\\', 'r']
  else if c = '\t' then ['\\', 't']
  else if isPrintable c then [c]
  else escapeCode c

def quoteFor (cs : List Char) : Char :=
  if '\'' ∈ cs ∧ '"' ∉ cs then '"' else '\''

def quoted (s : String) : String :=
  let cs := s.toList
  let q := quoteFor cs
  String.ofList (q :: cs.flatMap (escapeChar q) ++ [q])

/-- Octets between quotes, of which only those stand as they are that are printable in ASCII. -/
def quotedOctets (octets : List UInt8) : String :=
  let cs := octets.map fun b => Char.ofNat b.toNat
  let q := quoteFor cs
  let escape (c : Char) := if c.toNat < 0x7f then escapeChar q c else escapeCode c
  String.ofList ('b' :: q :: cs.flatMap escape ++ [q])

end Text

end FreelanceBoard
