import FreelanceBoard.Clause
import FreelanceBoard.Predicate.Written

/-! Search plans: a sequence of stages, each of which searches by relevance or keeps the records
that a predicate admits. -/
namespace FreelanceBoard

structure SearchStage where
  field : String
  query : String
  edits : Int

structure MatchStage where
  name : String
  predicate : Predicate

inductive Stage where
  | search (s : SearchStage)
  | keep (m : MatchStage)

structure Plan where
  stages : List Stage

namespace SearchStage

def readFields (fields : Fields) : Checked SearchStage :=
  (fun _ => SearchStage.mk) <$> fields.optional "kind" () (Reader.literal "search")
    <*> fields.required "field" Reader.laxText <*> fields.required "query" Reader.laxText
    <*> fields.optional "fuzzy_max_edits" titleEdits Reader.laxInt

def read : Reader SearchStage := Reader.object "SearchStage" readFields

def toValue (s : SearchStage) : Value :=
  .object [("kind", .text "search"), ("field", .text s.field), ("query", .text s.query),
    ("fuzzy_max_edits", .int s.edits)]

end SearchStage

namespace MatchStage

def readFields (fields : Fields) : Checked MatchStage :=
  (fun _ => MatchStage.mk) <$> fields.optional "kind" () (Reader.literal "match")
    <*> fields.required "name" Reader.laxText <*> fields.required "predicate" Predicate.read

def read : Reader MatchStage := Reader.object "MatchStage" readFields

def toValue (m : MatchStage) : Value :=
  .object [("kind", .text "match"), ("name", .text m.name), ("predicate", m.predicate.toValue)]

end MatchStage

namespace Stage

def kinds : List String := ["search", "match"]

def readTagged (fields : Fields) (tag : Value) : Checked Stage :=
  match tag with
  | .text "search" => (Stage.search <$> SearchStage.readFields fields).under "search"
  | .text "match" => (Stage.keep <$> MatchStage.readFields fields).under "match"
  | _ => .issue (.unknownTag "kind" tag.plain kinds)

def read : Reader Stage
  | .object fields => match fields.lookup "kind" with
    | none => .issue (.noTag "kind")
    | some tag => readTagged fields tag
  | _ => .issue .notTagged

def toValue : Stage → Value
  | .search s => s.toValue
  | .keep m => m.toValue

/-- A search has no name of its own. -/
def name : Stage → String
  | .search _ => "search"
  | .keep m => m.name

end Stage

namespace Plan

def read : Reader Plan :=
  Reader.object "QueryPlan" fun fields =>
    Plan.mk <$> fields.optional "stages" [] (Reader.tupleOf Stage.read)

def toValue (p : Plan) : Value := .object [("stages", .tuple (p.stages.map Stage.toValue))]

def searches (p : Plan) : List SearchStage :=
  p.stages.filterMap fun
    | .search s => some s
    | .keep _ => none

def search? (p : Plan) : Option SearchStage := p.searches.head?

def matchStages (p : Plan) : List MatchStage :=
  p.stages.filterMap fun
    | .search _ => none
    | .keep m => some m

def stageNames (p : Plan) : List String := p.stages.map Stage.name

/-- The predicates of all match stages together; relevance is left aside. -/
def admits (p : Plan) (record : Value) : Except Fault Bool :=
  Predicate.admitsAll (p.matchStages.map MatchStage.predicate) record

end Plan

end FreelanceBoard
