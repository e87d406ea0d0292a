import FreelanceBoard.Schema.Issue
import FreelanceBoard.Value

/-! Reading against a schema. A reading either gives a value or every issue that was found: parts
are read side by side, and the issues of all of them are kept in order. -/
namespace FreelanceBoard

inductive Checked (α : Type) where
  | valid (a : α)
  | invalid (issues : List Issue)

namespace Checked

variable {α β : Type}

def issue (cause : Cause) : Checked α := .invalid [⟨cause, []⟩]

def issues : Checked α → List Issue
  | .valid _ => []
  | .invalid is => is

def value? : Checked α → Option α
  | .valid a => some a
  | .invalid _ => none

def map (f : α → β) : Checked α → Checked β
  | .valid a => .valid (f a)
  | .invalid is => .invalid is

/-- Both readings, one beside the other. -/
def apply : Checked (α → β) → Checked α → Checked β
  | .valid f, .valid a => .valid (f a)
  | .valid _, .invalid js => .invalid js
  | .invalid is, .valid _ => .invalid is
  | .invalid is, .invalid js => .invalid (is ++ js)

instance : Applicative Checked where
  pure := .valid
  map := map
  seq f a := apply f (a ())

/-- A further reading of a value, once it is valid. -/
def andThen (c : Checked α) (next : α → Checked β) : Checked β :=
  match c with
  | .valid a => next a
  | .invalid is => .invalid is

def under (key : String) : Checked α → Checked α
  | .valid a => .valid a
  | .invalid is => .invalid (is.map (Issue.under key))

@[simp] theorem map_eq (f : α → β) (c : Checked α) : f <$> c = c.map f := rfl

@[simp] theorem seq_eq (f : Checked (α → β)) (c : Checked α) : f <*> c = f.apply c := rfl

@[simp] theorem pure_eq (a : α) : (pure a : Checked α) = .valid a := rfl

theorem apply_eq_valid_iff {f : Checked (α → β)} {c : Checked α} {b : β} :
    f.apply c = .valid b ↔ ∃ g a, f = .valid g ∧ c = .valid a ∧ g a = b := by
  cases f <;> cases c <;> simp [apply]

theorem map_eq_valid_iff {f : α → β} {c : Checked α} {b : β} :
    c.map f = .valid b ↔ ∃ a, c = .valid a ∧ f a = b := by
  cases c <;> simp [map]

@[simp] theorem under_eq_valid_iff {key : String} {c : Checked α} {a : α} :
    c.under key = .valid a ↔ c = .valid a := by
  cases c <;> simp [under]

end Checked

/-- A way to read a value of any shape. -/
abbrev Reader (α : Type) := Value → Checked α

namespace Fields

variable {α : Type}

/-- The reading of a key that has to be there. -/
def required (fields : Fields) (key : String) (read : Reader α) : Checked α :=
  match fields.lookup key with
  | some v => (read v).under key
  | none => .invalid [⟨.missing, [key]⟩]

/-- The reading of a key that may be missing. -/
def optional (fields : Fields) (key : String) (default : α) (read : Reader α) : Checked α :=
  match fields.lookup key with
  | some v => (read v).under key
  | none => .valid default

/-- One issue for each key that the schema does not have. -/
def onlyKeys (fields : Fields) (keys : List String) : Checked Unit :=
  match fields.filter (fun (k, _) => !keys.contains k) with
  | [] => .valid ()
  | unknown => .invalid (unknown.map fun (k, _) => ⟨.unknownKey, [k]⟩)

end Fields

namespace Reader

variable {α : Type}

/-- Reads an object; `schema` names it in the issue that any other value gives. -/
def object (schema : String) (read : Fields → Checked α) : Reader α
  | .object fields => read fields
  | _ => .issue (.notObject schema)

/-- Reads nothing as `none`. -/
def nullable (read : Reader α) : Reader (Option α)
  | .null => .valid none
  | v => (read v).map some

/-- Reads every item, each under its number, from `index` on. -/
def itemsFrom (read : Reader α) (index : Nat) : List Value → Checked (List α)
  | [] => .valid []
  | v :: vs => List.cons <$> (read v).under (toString index) <*> itemsFrom read (index + 1) vs

/-- Reads a list, tuple or set item by item. -/
def items (cause : Cause) (read : Reader α) : Reader (List α)
  | .list vs => itemsFrom read 0 vs
  | .tuple vs => itemsFrom read 0 vs
  | .set vs => itemsFrom read 0 vs
  | _ => .issue cause

def listOf (read : Reader α) : Reader (List α) := items .notList read

def tupleOf (read : Reader α) : Reader (List α) := items .notTuple read

end Reader

end FreelanceBoard
