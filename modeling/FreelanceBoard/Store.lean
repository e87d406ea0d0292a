import FreelanceBoard.Plan
import FreelanceBoard.Program

/-! What a record store can be asked to do, whichever store it is. -/
namespace FreelanceBoard

namespace Collection

def projects : String := "projects"

def users : String := "users"

def proposals : String := "proposals"

/-- The collections that every store has. -/
def known : List String := [projects, users, proposals]

end Collection

inductive StoreCall where
  | findById (collection : String) (id : Value)
  | find (collection : String) (predicate : Option Predicate)
  | insert (collection : String) (record : Fields)
  | update (collection : String) (id : Value) (changes : Fields)
  | delete (collection : String) (id : Value)
  | search (stage : SearchStage)
  | narrow (stage : MatchStage) (candidates : Option (List Value))

namespace StoreCall

/-- A record that is not there is no record; deleting tells whether there was one. -/
@[reducible] def Reply : StoreCall → Type
  | .findById _ _ => Option Value
  | .find _ _ => List Value
  | .insert _ _ => Value
  | .update _ _ _ => Option Value
  | .delete _ _ => Bool
  | .search _ => List Value
  | .narrow _ _ => List Value

end StoreCall

abbrev Store : Interface := ⟨StoreCall, StoreCall.Reply⟩

/-- Programs on a store. -/
abbrev StoreProgram (α : Type) := Program Store Failure α

namespace Store

def findById (collection : String) (id : Value) : StoreProgram (Option Value) :=
  .call (.findById collection id) .done

def find (collection : String) (predicate : Option Predicate) : StoreProgram (List Value) :=
  .call (.find collection predicate) .done

def insert (collection : String) (record : Fields) : StoreProgram Value :=
  .call (.insert collection record) .done

def update (collection : String) (id : Value) (changes : Fields) : StoreProgram (Option Value) :=
  .call (.update collection id changes) .done

def delete (collection : String) (id : Value) : StoreProgram Bool :=
  .call (.delete collection id) .done

def search (stage : SearchStage) : StoreProgram (List Value) := .call (.search stage) .done

def narrow (stage : MatchStage) (candidates : Option (List Value)) : StoreProgram (List Value) :=
  .call (.narrow stage candidates) .done

end Store

/-- The fields of what is to be stored as a record. Anything but an object is refused: as a record
without an id if it has no part of that name, else as of the wrong kind. -/
def Fields.ofRecord (record : Value) : Except Failure Fields :=
  match record with
  | .object fields => .ok fields
  | v => match v.has "id" with
    | .ok false => .error .recordWithoutId
    | _ => .error (.fault .wrongKind)

end FreelanceBoard
