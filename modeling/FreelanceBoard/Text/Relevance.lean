import FreelanceBoard.Text.EditDistance
import FreelanceBoard.Text.Tokens

/-! How well a text answers a query. Scores count halves: a token of the query counts two where
the text has it, one where the text only has a token within the edits allowed. -/
namespace FreelanceBoard

namespace Text

/-- Texts whose lengths differ by more than `edits` are that far apart, and not compared further. -/
def withinEdits (edits : Int) (s t : List Char) : Bool :=
  decide ((((s.length : Int) - t.length).natAbs : Int) ≤ edits) &&
    decide ((editDistance s t : Int) ≤ edits)

def tokenScore (edits : Int) (text : List (List Char)) (token : List Char) : Nat :=
  if token ∈ text then 2
  else if text.any (withinEdits edits token) then 1
  else 0

/-- Repeated tokens count each time. -/
def totalScore (edits : Int) (text : List (List Char)) : List (List Char) → Nat
  | [] => 0
  | token :: rest => tokenScore edits text token + totalScore edits text rest

def fuzzyScore (query text : String) (edits : Int) : Nat :=
  totalScore edits (tokens text) (tokens query)

end Text

end FreelanceBoard
