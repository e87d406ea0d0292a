import FreelanceBoard.Failure
import FreelanceBoard.Schema.Scalar

/-! The filter of a project search as a client states it. Nothing is converted on the way in: a
value of the wrong kind or an unknown key refuses the filter, with one issue for each fault. -/
namespace FreelanceBoard

/-- How a project is paid. -/
inductive Pricing where
  | fixed
  | hourly
  deriving DecidableEq

namespace Pricing

def all : List Pricing := [.fixed, .hourly]

def name : Pricing → String
  | .fixed => "fixed rate"
  | .hourly => "hourly rate"

def toValue (p : Pricing) : Value := .text p.name

def ofName (s : String) : Checked Pricing :=
  match all.find? (fun p => p.name == s) with
  | some p => .valid p
  | none => .issue (.notOneOf (all.map name))

def read : Reader Pricing
  | .text s => ofName s
  | .bytes _ octets => Reader.ofOctets ofName (.notOneOf (all.map name)) octets
  | _ => .issue (.notOneOf (all.map name))

theorem name_inj {p q : Pricing} : p.name = q.name ↔ p = q := by
  cases p <;> cases q <;> simp [name]

@[simp] theorem read_toValue (p : Pricing) : read p.toValue = .valid p := by
  cases p <;> rfl

end Pricing

/-- The bounds on the budget of the projects of one pricing. -/
structure BudgetFilter where
  checked : Bool
  currency : Option String
  min : Option Number
  max : Option Number

/-- Absent values are written as nothing. -/
def Value.ofOption {α : Type} (write : α → Value) : Option α → Value
  | none => .null
  | some a => write a

namespace BudgetFilter

def readBound : Reader (Option Number)
  | .null => .valid none
  | .bool _ => .issue (.refused "Budget bounds must be numeric")
  | .float x =>
    if x.isFinite then .valid (some (.float x))
    else .issue (.refused "Budget bounds must be finite")
  | v => (Reader.strictNumber v).map some

def keys : List String := ["checked", "currency", "min", "max"]

def readFields (fields : Fields) : Checked BudgetFilter :=
  BudgetFilter.mk
    <$> fields.optional "checked" false Reader.strictBool
    <*> fields.optional "currency" none (Reader.nullable Reader.strictText)
    <*> fields.optional "min" none readBound
    <*> fields.optional "max" none readBound
    <* fields.onlyKeys keys

def read : Reader BudgetFilter := Reader.object "BudgetFilter" readFields

def toValue (b : BudgetFilter) : Value :=
  .object [("checked", .bool b.checked), ("currency", .ofOption .text b.currency),
    ("min", .ofOption Number.toValue b.min), ("max", .ofOption Number.toValue b.max)]

end BudgetFilter

structure ProjectFilter where
  title : Option String
  skills : Option (List String)
  fixed : Option BudgetFilter
  hourly : Option BudgetFilter

namespace ProjectFilter

def keys : List String := ["title", "skills", "fixed", "hourly"]

def readFields (fields : Fields) : Checked ProjectFilter :=
  ProjectFilter.mk
    <$> fields.optional "title" none (Reader.nullable Reader.strictText)
    <*> fields.optional "skills" none (Reader.nullable (Reader.listOf Reader.strictText))
    <*> fields.optional "fixed" none (Reader.nullable BudgetFilter.read)
    <*> fields.optional "hourly" none (Reader.nullable BudgetFilter.read)
    <* fields.onlyKeys keys

def read : Reader ProjectFilter := Reader.object "ProjectFilter" readFields

def toValue (f : ProjectFilter) : Value :=
  .object [("title", .ofOption .text f.title),
    ("skills", .ofOption (fun skills => .list (skills.map .text)) f.skills),
    ("fixed", .ofOption BudgetFilter.toValue f.fixed),
    ("hourly", .ofOption BudgetFilter.toValue f.hourly)]

def budgetFor (f : ProjectFilter) : Pricing → Option BudgetFilter
  | .fixed => f.fixed
  | .hourly => f.hourly

/-- No filter at all is a filter, too. -/
def validate : Value → Except Failure (Option ProjectFilter)
  | .null => .ok none
  | .object fields => match readFields fields with
    | .valid f => .ok (some f)
    | .invalid issues => .error (.filterInvalid issues)
  | v => .error (.filterNotObject v.kindName)

end ProjectFilter

end FreelanceBoard
