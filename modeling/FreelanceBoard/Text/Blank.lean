import FreelanceBoard.Text.Ranges

/-! Blank characters, and text without the blanks at its ends. Numerals admit fewer blanks around
them than other text: the four information separators are blank in text only. -/
namespace FreelanceBoard

namespace Text

def spaceRanges : Ranges :=
  [(0x9, 0xd), (0x20, 0x20), (0x85, 0x85), (0xa0, 0xa0), (0x1680, 0x1680), (0x2000, 0x200a),
   (0x2028, 0x2029), (0x202f, 0x202f), (0x205f, 0x205f), (0x3000, 0x3000)]

/-- White space in the narrow sense, as it may stand around a numeral. -/
def isSpace (c : Char) : Bool := spaceRanges.contains c.toNat

def isBlank (c : Char) : Bool :=
  isSpace c || (decide (0x1c ≤ c.toNat) && decide (c.toNat ≤ 0x1f))

/-- The text without the characters of the class `p` at either end. -/
def trimBy (p : Char → Bool) (cs : List Char) : List Char :=
  ((cs.dropWhile p).reverse.dropWhile p).reverse

def strip (s : String) : String := String.ofList (trimBy isBlank s.toList)

end Text

end FreelanceBoard
