import FreelanceBoard.Plan.Compiled
import FreelanceBoard.Store

/-! Searching projects: the stages of a plan, one after the other, on whichever store there is. -/
namespace FreelanceBoard

namespace Plan

/-- A search starts anew, a match stage narrows what the stages before it have left. -/
def runStages : List Stage → Option (List Value) → StoreProgram (Option (List Value))
  | [], candidates => .done candidates
  | .search s :: rest, _ => do
    let found ← Store.search s
    runStages rest (some found)
  | .keep m :: rest, candidates => do
    let kept ← Store.narrow m candidates
    runStages rest (some kept)

/-- A plan without stages finds every project. -/
def execute (p : Plan) : StoreProgram (List Value) := do
  match ← runStages p.stages none with
  | some records => pure records
  | none => Store.find Collection.projects none

end Plan

/-- A filter that is refused reaches no store. -/
def searchProjects (filter actor : Value) : StoreProgram (List Value) :=
  match Plan.ofFilter filter actor with
  | .error e => .failed e
  | .ok plan => plan.execute

end FreelanceBoard
