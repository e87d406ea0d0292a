import FreelanceBoard.Schema.Issue
import FreelanceBoard.Value.Access
import FreelanceBoard.Value.Display

/-! Why an operation of the board fails, and what the failure says to its caller. -/
namespace FreelanceBoard

/-- How a call to the search server can fail. -/
inductive ClientFailure where
  | api
  | notFound
  | conflict
  | badRequest
  | unauthorized
  | transport
  | connection
  | tls
  | timeout
  | serialization
  deriving DecidableEq

namespace ClientFailure

/-- Whether the server was not reached at all, so that a second attempt may help. -/
def isConnection : ClientFailure → Bool
  | .connection => true
  | .tls => true
  | _ => false

end ClientFailure

inductive Failure where
  | fault (f : Fault)
  | client (c : ClientFailure)
  | invalid (issues : List Issue)
  | filterNotObject (kind : String)
  | filterInvalid (issues : List Issue)
  | projectInvalid (id : Value) (issues : List Issue)
  | projectNotFound (id : Value)
  | proposalNotFound (id : Value)
  | forbidden
  | notLoggedIn
  | searchFailed (index : String)
  | pagesExhausted
  | noActor
  | recordWithoutId
  | unknownCollection (name : String)
  | lockedFields (names : List Value)
  | emptyPage
  | tooManyParts
  | tooFewParts (count : Nat)
  | numeralTooLong (digits : Nat)
  | notPredicate (v : Value)

namespace Failure

/-- What the failure says; most faults, refused readings and failures of the server's client say nothing
of their own. -/
def message : Failure → Option String
  | .fault .unprintable =>
    some ("Exceeds the limit (4300 digits) for integer string conversion; " ++
      "use sys.set_int_max_str_digits() to increase the limit")
  | .fault _ => none
  | .client _ => none
  | .invalid _ => none
  | .pagesExhausted => none
  | .filterNotObject kind => some ("Filter must be an object, got " ++ kind)
  | .filterInvalid _ => some "Invalid project filter"
  | .projectInvalid id _ => some ("Invalid changes for project '" ++ id.plain ++ "'")
  | .projectNotFound id => some ("Project '" ++ id.plain ++ "' not found")
  | .proposalNotFound id => some ("Proposal '" ++ id.plain ++ "' not found")
  | .forbidden => some "You are not allowed to do this action"
  | .notLoggedIn => some "You must be logged in"
  | .searchFailed index => some ("Search on '" ++ index ++ "' failed")
  | .noActor => some "actor_id must be a non-empty identifier"
  | .recordWithoutId => some "Record data missing 'id'"
  | .unknownCollection name => some ("Unknown collection '" ++ name ++ "'")
  | .lockedFields names => some ("Fields cannot be updated: " ++ (Value.list names).display)
  | .emptyPage => some "range() arg 3 must not be zero"
  | .tooManyParts => some "too many values to unpack (expected 2)"
  | .tooFewParts count =>
    some ("not enough values to unpack (expected 2, got " ++ toString count ++ ")")
  | .numeralTooLong digits =>
    some ("Exceeds the limit (4300 digits) for integer string conversion: value has " ++
      toString digits ++ " digits; use sys.set_int_max_str_digits() to increase the limit")
  | .notPredicate v => some ("Unsupported predicate: " ++ v.display)

/-- The issues that a refused filter, project or reading carries. -/
def issues? : Failure → Option (List Issue)
  | .invalid issues => some issues
  | .filterNotObject _ => some []
  | .filterInvalid issues => some issues
  | .projectInvalid _ issues => some issues
  | _ => none

end Failure

/-- The outcome of an attempt on a value of unknown shape, as an outcome of an operation. -/
def Fault.lift {α : Type} : Except Fault α → Except Failure α
  | .ok a => .ok a
  | .error f => .error (.fault f)

end FreelanceBoard
