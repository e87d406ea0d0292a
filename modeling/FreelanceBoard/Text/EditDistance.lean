/-! The distance between two texts: the least number of characters to insert, delete or replace
that turns one into the other. It is computed row by row; the row of a start of the one text holds
its distance to every start of the other. -/
namespace FreelanceBoard

namespace Text

/-- The rest of the row below `diagonal :: above :: rest`, after the entry `left`. -/
def rowFrom (x : Char) (left : Nat) : List Char → List Nat → List Nat
  | y :: ys, diagonal :: above :: rest =>
    let d := min (min (above + 1) (left + 1)) (diagonal + if x = y then 0 else 1)
    d :: rowFrom x d ys (above :: rest)
  | _, _ => []

def nextRow (ys : List Char) (x : Char) : List Nat → List Nat
  | [] => []
  | first :: rest => (first + 1) :: rowFrom x (first + 1) ys (first :: rest)

def lastRow (xs ys : List Char) : List Nat :=
  xs.foldl (fun row x => nextRow ys x row) (List.range (ys.length + 1))

/-- What the last row ends in. -/
def lastEntry (xs ys : List Char) : Nat := (lastRow xs ys).getLast?.getD 0

/-- The rows run over the shorter text. -/
def editDistance (xs ys : List Char) : Nat :=
  if xs.length < ys.length then lastEntry ys xs else lastEntry xs ys

@[simp] theorem nextRow_nil (ys : List Char) (x : Char) : nextRow ys x [] = [] := rfl

@[simp] theorem lastRow_nil (ys : List Char) : lastRow [] ys = List.range (ys.length + 1) := rfl

theorem lastRow_concat (xs ys : List Char) (x : Char) :
    lastRow (xs ++ [x]) ys = nextRow ys x (lastRow xs ys) := by
  simp [lastRow]

end Text

end FreelanceBoard
