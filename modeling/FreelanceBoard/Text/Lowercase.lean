import FreelanceBoard.Text.LetterCase

/-! The lower-case form of a text. Each character has its own form but the capital sigma, which
takes its final form where a cased letter stands before it and none after it. -/
namespace FreelanceBoard

namespace Text

/-- Whether the next character that counts for case is a cased one. -/
def facesCased (cs : List Char) : Bool :=
  match cs.dropWhile isCaseIgnorable with
  | [] => false
  | c :: _ => isCased c

/-- The form of a capital sigma between the characters `before`, nearest first, and `after`. -/
def lowerSigma (before after : List Char) : Char :=
  if facesCased before && !facesCased after then 'ς' else 'σ'

def lowerFrom (before : List Char) : List Char → List Char
  | [] => []
  | c :: cs =>
    (if c = 'Σ' then [lowerSigma before cs] else lowerChar c) ++ lowerFrom (c :: before) cs

def lower (cs : List Char) : List Char := lowerFrom [] cs

@[simp] theorem lower_nil : lower [] = [] := rfl

end Text

end FreelanceBoard
