import FreelanceBoard.Failure
import FreelanceBoard.Schema.Scalar
import FreelanceBoard.Value.Path

/-! Predicates on records, as a tree of comparisons of the value at a dotted path. -/
namespace FreelanceBoard

/-- One end of a range, which belongs to it unless it is strict. -/
structure Limit where
  strict : Bool
  bound : Double
  deriving DecidableEq

inductive Predicate where
  | eq (path : String) (value : Value)
  | ne (path : String) (value : Value)
  | among (path : String) (values : List Value)
  | range (path : String) (lower upper : Option Limit)
  | containsAll (path : String) (texts : List String)
  | allOf (parts : List Predicate)
  | anyOf (parts : List Predicate)

namespace Limit

/-- Whether the limit lies below a point, or above it if `upper`. -/
def admits (upper : Bool) (l : Limit) (p : Extended) : Bool :=
  match l.bound.point? with
  | none => false
  | some q =>
    let low := if upper then p else q
    let high := if upper then q else p
    if l.strict then low.lt high else low.le high

/-- A missing limit admits everything, a limit no value that marks no point. -/
def admitsOption (upper : Bool) (l : Option Limit) (p : Option Extended) : Bool :=
  match l with
  | none => true
  | some l => match p with
    | none => false
    | some p => l.admits upper p

end Limit

namespace Predicate

def inRange (lower upper : Option Limit) (v : Value) : Bool :=
  v.isNumber && Limit.admitsOption false lower v.point? && Limit.admitsOption true upper v.point?

/-- A collection with a member that cannot be a key cannot be searched. -/
def holdsAll (texts : List String) (items : List Value) : Except Fault Bool :=
  if Value.areKeys items then .ok (texts.all fun t => (Value.text t).memberOf items)
  else .error .wrongKind

def containsTexts (texts : List String) : Value → Except Fault Bool
  | .list items => holdsAll texts items
  | .tuple items => holdsAll texts items
  | .set items => holdsAll texts items
  | _ => .ok false

mutual

/-- Whether the predicate admits a record. Parts of a tree are asked in order, until one of them
settles the answer. -/
def admits : Predicate → Value → Except Fault Bool
  | .eq path w, r => .ok ((r.resolve path).same w)
  | .ne path w, r => .ok !(r.resolve path).same w
  | .among path ws, r => .ok ((r.resolve path).memberOf ws)
  | .range path lower upper, r => .ok (inRange lower upper (r.resolve path))
  | .containsAll path texts, r => containsTexts texts (r.resolve path)
  | .allOf parts, r => admitsAll parts r
  | .anyOf parts, r => admitsAny parts r
termination_by structural p => p

def admitsAll : List Predicate → Value → Except Fault Bool
  | [], _ => .ok true
  | p :: ps, r => match admits p r with
    | .ok true => admitsAll ps r
    | .ok false => .ok false
    | .error f => .error f
termination_by structural ps => ps

def admitsAny : List Predicate → Value → Except Fault Bool
  | [], _ => .ok false
  | p :: ps, r => match admits p r with
    | .ok true => .ok true
    | .ok false => admitsAny ps r
    | .error f => .error f
termination_by structural ps => ps

end

/-- All the parts joined; a single part stands for itself. -/
def all : List Predicate → Predicate
  | [p] => p
  | ps => .allOf ps

/-- Any of the parts; a single part stands for itself. -/
def any : List Predicate → Predicate
  | [p] => p
  | ps => .anyOf ps

@[simp] theorem all_singleton (p : Predicate) : all [p] = p := rfl

@[simp] theorem any_singleton (p : Predicate) : any [p] = p := rfl

@[simp] theorem admitsAll_nil (r : Value) : admitsAll [] r = .ok true := rfl

@[simp] theorem admitsAny_nil (r : Value) : admitsAny [] r = .ok false := rfl

end Predicate

end FreelanceBoard
