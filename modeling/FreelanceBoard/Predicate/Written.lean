import FreelanceBoard.Filter
import FreelanceBoard.Predicate

/-! The written form of predicates: an object whose `op` names the comparison. `read` takes such an
object apart again, and `toValue` writes a predicate with all its fields. -/
namespace FreelanceBoard

/-- The comparisons and joins that a written predicate can name. -/
inductive Operator where
  | eq
  | ne
  | among
  | range
  | containsAll
  | allOf
  | anyOf
  deriving DecidableEq

namespace Operator

def all : List Operator := [.eq, .ne, .among, .range, .containsAll, .allOf, .anyOf]

def name : Operator → String
  | .eq => "eq"
  | .ne => "ne"
  | .among => "in"
  | .range => "range"
  | .containsAll => "contains_all"
  | .allOf => "all_of"
  | .anyOf => "any_of"

def schema : Operator → String
  | .eq => "Eq"
  | .ne => "Ne"
  | .among => "In"
  | .range => "Range"
  | .containsAll => "ContainsAll"
  | .allOf => "AllOf"
  | .anyOf => "AnyOf"

def ofValue? : Value → Option Operator
  | .text s => all.find? (fun o => o.name == s)
  | _ => none

@[simp] theorem ofValue?_name (o : Operator) : ofValue? (.text o.name) = some o := by
  cases o <;> rfl

end Operator

namespace Predicate

/-- A limit is given either with or without its own point. -/
def readLimit (reason : String) (strict lax : Option Double) : Checked (Option Limit) :=
  match strict, lax with
  | some _, some _ => .issue (.refused reason)
  | some x, none => .valid (some ⟨true, x⟩)
  | none, some x => .valid (some ⟨false, x⟩)
  | none, none => .valid none

structure RangeFields where
  path : String
  gt : Option Double
  gte : Option Double
  lt : Option Double
  lte : Option Double

def RangeFields.check (f : RangeFields) : Checked Predicate :=
  (readLimit "gt and gte are mutually exclusive" f.gt f.gte).andThen fun lower =>
    (readLimit "lt and lte are mutually exclusive" f.lt f.lte).map fun upper =>
      .range f.path lower upper

def readBound (fields : Fields) (key : String) : Checked (Option Double) :=
  fields.optional key none (Reader.nullable Reader.laxNumber)

/-- Reads the fields of one comparison; the parts of a join have been read before. -/
def readAs (o : Operator) (fields : Fields) (parts : Checked (List Predicate)) :
    Checked Predicate :=
  let op := fields.optional "op" () (Reader.literal o.name)
  let path := fields.required "field" Reader.laxText
  match o with
  | .eq => (fun _ => .eq) <$> op <*> path <*> fields.required "value" .valid
  | .ne => (fun _ => .ne) <$> op <*> path <*> fields.required "value" .valid
  | .among =>
    (fun _ => .among) <$> op <*> path <*> fields.required "values" (Reader.tupleOf .valid)
  | .range =>
    ((fun _ => RangeFields.mk) <$> op <*> path <*> readBound fields "gt" <*> readBound fields "gte"
      <*> readBound fields "lt" <*> readBound fields "lte").andThen RangeFields.check
  | .containsAll =>
    (fun _ => .containsAll) <$> op <*> path
      <*> fields.required "values" (Reader.tupleOf Reader.laxText)
  | .allOf => (fun _ => .allOf) <$> op <*> parts
  | .anyOf => (fun _ => .anyOf) <$> op <*> parts

mutual

def read : Value → Checked Predicate
  | .object fields => match fields.lookup "op" with
    | none => .issue (.noTag "op")
    | some tag => match Operator.ofValue? tag with
      | none => .issue (.unknownTag "op" tag.plain (Operator.all.map Operator.name))
      | some o => (readAs o fields (readParts fields)).under o.name
  | _ => .issue .notTagged
termination_by structural v => v

/-- The parts of a join, under the first key of their name. -/
def readParts : List (String × Value) → Checked (List Predicate)
  | [] => .invalid [⟨.missing, ["predicates"]⟩]
  | (k, v) :: rest => if k = "predicates" then (readItems v).under k else readParts rest
termination_by structural fields => fields

def readItems : Value → Checked (List Predicate)
  | .list vs => readFrom 0 vs
  | .tuple vs => readFrom 0 vs
  | .set vs => readFrom 0 vs
  | _ => .issue .notTuple
termination_by structural v => v

def readFrom (index : Nat) : List Value → Checked (List Predicate)
  | [] => .valid []
  | v :: vs => List.cons <$> (read v).under (toString index) <*> readFrom (index + 1) vs
termination_by structural vs => vs

end

/-- Reads an object as the one comparison or join that is asked for. -/
def readOnly (o : Operator) : Reader Predicate :=
  Reader.object o.schema fun fields => readAs o fields (readParts fields)

def boundOf (strict : Bool) (l : Option Limit) : Value :=
  .ofOption Value.float ((l.filter fun l => l.strict == strict).map Limit.bound)

mutual

def toValue : Predicate → Value
  | .eq path v => .object [("op", .text "eq"), ("field", .text path), ("value", v)]
  | .ne path v => .object [("op", .text "ne"), ("field", .text path), ("value", v)]
  | .among path vs => .object [("op", .text "in"), ("field", .text path), ("values", .tuple vs)]
  | .range path lower upper =>
    .object [("op", .text "range"), ("field", .text path), ("gt", boundOf true lower),
      ("gte", boundOf false lower), ("lt", boundOf true upper), ("lte", boundOf false upper)]
  | .containsAll path texts =>
    .object [("op", .text "contains_all"), ("field", .text path),
      ("values", .tuple (texts.map .text))]
  | .allOf parts => .object [("op", .text "all_of"), ("predicates", .tuple (toValues parts))]
  | .anyOf parts => .object [("op", .text "any_of"), ("predicates", .tuple (toValues parts))]
termination_by structural p => p

def toValues : List Predicate → List Value
  | [] => []
  | p :: ps => toValue p :: toValues ps
termination_by structural ps => ps

end

end Predicate

end FreelanceBoard
