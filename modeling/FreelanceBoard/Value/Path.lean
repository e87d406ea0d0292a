import FreelanceBoard.Value

/-! Dotted paths into a record: the keys to follow, one after the other, from object to object. -/
namespace FreelanceBoard

/-- The keys of a path, outermost first. -/
abbrev Path := List (List Char)

namespace Path

/-- The parts between the dots, of which there is one more than there are dots. -/
def ofChars : List Char → Path
  | [] => [[]]
  | c :: cs =>
    if c = '.' then [] :: ofChars cs
    else match ofChars cs with
      | [] => [[c]]
      | part :: parts => (c :: part) :: parts

def ofString (path : String) : Path := ofChars path.toList

@[simp] theorem ofChars_nil : ofChars [] = [[]] := rfl

@[simp] theorem ofChars_dot (cs : List Char) : ofChars ('.' :: cs) = [] :: ofChars cs := rfl

theorem ofChars_ne_nil (cs : List Char) : ofChars cs ≠ [] := by
  cases cs with
  | nil => simp
  | cons c cs =>
    by_cases h : c = '.'
    · simp [ofChars, h]
    · simp only [ofChars, h, if_false]
      split <;> simp

end Path

namespace Value

/-- The value under a key; nothing where there is no object or no such key. -/
def child (v : Value) (key : String) : Value :=
  match v with
  | .object fields => Fields.get fields key
  | _ => .null

/-- The value reached by following the keys of a path. -/
def follow (v : Value) (path : Path) : Value :=
  path.foldl (fun w key => w.child (String.ofList key)) v

def resolve (v : Value) (path : String) : Value := v.follow (Path.ofString path)

@[simp] theorem follow_nil (v : Value) : v.follow [] = v := rfl

@[simp] theorem follow_cons (v : Value) (key : List Char) (rest : Path) :
    v.follow (key :: rest) = (v.child (String.ofList key)).follow rest := rfl

theorem follow_append (v : Value) (p q : Path) : v.follow (p ++ q) = (v.follow p).follow q := by
  simp [follow]

@[simp] theorem child_null (key : String) : Value.null.child key = .null := rfl

end Value

end FreelanceBoard
