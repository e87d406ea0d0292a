import FreelanceBoard.Plan

/-! Queries of the search server, and the query that stands for each predicate and search stage. -/
namespace FreelanceBoard

inductive Query where
  | matchAll
  | term (path : String) (value : Value)
  | terms (path : String) (values : List Value)
  | range (path : String) (lower upper : Option Limit)
  | filter (parts : List Query)
  | mustNot (parts : List Query)
  | should (parts : List Query)
  | fullText (field query : String) (edits : Int)

/-- The orders in which the server is asked to list what it finds. -/
inductive SortOrder where
  | byId
  | byRelevance
  deriving DecidableEq

namespace SortOrder

def ascendingId : Value := .object [("id", .text "asc")]

def toValue : SortOrder → Value
  | .byId => .list [ascendingId]
  | .byRelevance => .list [.object [("_score", .text "desc")], ascendingId]

end SortOrder

namespace Query

/-- An object of one key. -/
def single (key : String) (v : Value) : Value := .object [(key, v)]

def limitFields (strict lax : String) : Option Limit → Fields
  | none => []
  | some l => [(if l.strict then strict else lax, .float l.bound)]

mutual

def toValue : Query → Value
  | .matchAll => single "match_all" (.object [])
  | .term path v => single "term" (single path v)
  | .terms path vs => single "terms" (single path (.list vs))
  | .range path lower upper =>
    single "range" (single path
      (.object (limitFields "gt" "gte" lower ++ limitFields "lt" "lte" upper)))
  | .filter parts => single "bool" (single "filter" (.list (toValues parts)))
  | .mustNot parts => single "bool" (single "must_not" (.list (toValues parts)))
  | .should parts =>
    single "bool" (.object [("should", .list (toValues parts)), ("minimum_should_match", .int 1)])
  | .fullText field query edits =>
    single "match" (single field (.object [("query", .text query), ("fuzziness", .int edits)]))
termination_by structural q => q

def toValues : List Query → List Value
  | [] => []
  | q :: qs => toValue q :: toValues qs
termination_by structural qs => qs

end

end Query

namespace Predicate

mutual

def toQuery : Predicate → Query
  | .eq path v => .term path v
  | .ne path v => .mustNot [.term path v]
  | .among path vs => .terms path vs
  | .range path lower upper => .range path lower upper
  | .containsAll path texts => .filter (texts.map fun t => .term path (.text t))
  | .allOf parts => .filter (toQueries parts)
  | .anyOf parts => .should (toQueries parts)
termination_by structural p => p

def toQueries : List Predicate → List Query
  | [] => []
  | p :: ps => toQuery p :: toQueries ps
termination_by structural ps => ps

end

end Predicate

namespace SearchStage

def toQuery (s : SearchStage) : Query := .fullText s.field s.query s.edits

end SearchStage

end FreelanceBoard
