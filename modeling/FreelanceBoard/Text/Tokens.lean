import FreelanceBoard.Text.Lowercase
import FreelanceBoard.Text.WordChar

/-! The tokens of a text: the longest runs of word characters of its lower-case form, in order. -/
namespace FreelanceBoard

namespace Text

/-- A run that has been read, unless it is empty; `current` holds it backwards. -/
def closeRun (current : List Char) : List (List Char) :=
  if current = [] then [] else [current.reverse]

/-- The longest runs of characters of the class `p`, after a run that is still open. -/
def runsFrom (p : Char → Bool) (current : List Char) : List Char → List (List Char)
  | [] => closeRun current
  | c :: cs =>
    if p c then runsFrom p (c :: current) cs
    else closeRun current ++ runsFrom p [] cs

def runs (p : Char → Bool) (cs : List Char) : List (List Char) := runsFrom p [] cs

def tokens (text : String) : List (List Char) := runs isWordChar (lower text.toList)

@[simp] theorem closeRun_nil : closeRun [] = [] := rfl

@[simp] theorem runs_nil (p : Char → Bool) : runs p [] = [] := rfl

end Text

end FreelanceBoard
