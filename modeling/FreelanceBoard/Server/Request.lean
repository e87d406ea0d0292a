import FreelanceBoard.Program
import FreelanceBoard.Server.Query

/-! Requests to the search server, and programs that make them. A request is answered by a value of
any shape or fails in one of the ways of the client; between requests a program may pause, and it
may report lines to its user. -/
namespace FreelanceBoard

/-- A document to be stored in an index under an id. -/
structure IndexAction where
  index : String
  id : String
  document : Value

namespace IndexAction

def toValue (a : IndexAction) : Value :=
  .object [("_index", .text a.index), ("_id", .text a.id), ("_source", a.document)]

end IndexAction

inductive Request where
  | search (index : String) (query : Query) (size : Int) (sort : Option SortOrder)
      (after : Option Value)
  | get (index : String) (id : Value)
  | put (index : String) (id : Value) (document : Fields)
  | update (index : String) (id : Value) (changes : Fields)
  | delete (index : String) (id : Value)
  | aliasExists (name : String)
  | indexExists (index : String)
  | createIndex (index : String) (mappings : Value)
  | putAlias (index name : String)
  | bulk (actions : List IndexAction)
  | close

namespace Request

def method : Request → String
  | .search _ _ _ _ _ => "search"
  | .get _ _ => "get"
  | .put _ _ _ => "index"
  | .update _ _ _ => "update"
  | .delete _ _ => "delete"
  | .aliasExists _ => "indices.exists_alias"
  | .indexExists _ => "indices.exists"
  | .createIndex _ _ => "indices.create"
  | .putAlias _ _ => "indices.put_alias"
  | .bulk _ => "bulk"
  | .close => "close"

/-- Writes wait until they can be found. -/
def refresh : String × Value := ("refresh", .text "wait_for")

def optionalField (key : String) : Option Value → Fields
  | none => []
  | some v => [(key, v)]

def arguments : Request → Fields
  | .search index query size sort after =>
    [("index", .text index), ("query", query.toValue), ("size", .int size)]
      ++ optionalField "sort" (sort.map SortOrder.toValue) ++ optionalField "search_after" after
  | .get index id => [("index", .text index), ("id", id)]
  | .put index id document =>
    [("index", .text index), ("id", id), ("document", .object document), refresh]
  | .update index id changes =>
    [("index", .text index), ("id", id), ("doc", .object changes), refresh]
  | .delete index id => [("index", .text index), ("id", id), refresh]
  | .aliasExists name => [("name", .text name)]
  | .indexExists index => [("index", .text index)]
  | .createIndex index mappings => [("index", .text index), ("mappings", mappings)]
  | .putAlias index name => [("index", .text index), ("name", .text name)]
  | .bulk actions => [("actions", .list (actions.map IndexAction.toValue)), refresh]
  | .close => []

end Request

inductive ServerCall where
  | request (r : Request)
  | pause (seconds : Nat)
  | report (line : String)

namespace ServerCall

@[reducible] def Reply : ServerCall → Type
  | .request _ => Except ClientFailure Value
  | .pause _ => Unit
  | .report _ => Unit

end ServerCall

abbrev Server : Interface := ⟨ServerCall, ServerCall.Reply⟩

abbrev ServerProgram (α : Type) := Program Server Failure α

namespace Server

/-- The outcome of a request, whatever it is. -/
def outcome (r : Request) : ServerProgram (Except ClientFailure Value) := .call (.request r) .done

/-- The reply to a request; a failure of the client ends the program. -/
def reply (r : Request) : ServerProgram Value :=
  .call (.request r) fun
    | .ok v => .done v
    | .error c => .failed (.client c)

def pause (seconds : Nat) : ServerProgram Unit := .call (.pause seconds) .done

def report (line : String) : ServerProgram Unit := .call (.report line) .done

def attempt {α : Type} (x : Except Fault α) : ServerProgram α := .ofExcept (Fault.lift x)

/-- A program followed by a last step, however it ends; a failure of the last step prevails. -/
def ensuring {α : Type} (last : ServerProgram Unit) : ServerProgram α → ServerProgram α
  | .done a => last.bind fun _ => .done a
  | .failed e => last.bind fun _ => .failed e
  | .call c next => .call c fun r => ensuring last (next r)

end Server

end FreelanceBoard
