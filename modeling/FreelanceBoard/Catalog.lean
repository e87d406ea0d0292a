import FreelanceBoard.Board
import FreelanceBoard.Document

/-! The operations on projects and proposals. Users are found through the lists of project and
proposal ids in their records; a user gets a record with the first project or proposal. -/
namespace FreelanceBoard

namespace Catalog

open Board Collection

def hired : Value := .text "hired"

def editableFields : List String := ["title", "description", "skills", "scope", "budget"]

def findById (collection : String) (id : Value) : BoardProgram (Option Value) :=
  onStore (Store.findById collection id)

def find (collection : String) (predicate : Predicate) : BoardProgram (List Value) :=
  onStore (Store.find collection (some predicate))

def insert (collection : String) (record : Fields) : BoardProgram Value :=
  onStore (Store.insert collection record)

def update (collection : String) (id : Value) (changes : Fields) : BoardProgram (Option Value) :=
  onStore (Store.update collection id changes)

def requireActor (actor : Value) : BoardProgram Unit :=
  if actor.truthy then .done () else .failed .notLoggedIn

/-- The items of a list in a record, which may be missing. -/
def itemsOf (record : Value) (field : String) : Except Fault (List Value) :=
  match record.field field with
  | .ok v => v.elementsOrNone
  | .error f => .error f

def userItems (user : Value) (field : String) : BoardProgram (List Value) := do
  match ← findById users user with
  | none => pure []
  | some record => attempt (itemsOf record field)

def projectsByIds (ids : List Value) : BoardProgram (List Value) :=
  if ids.isEmpty then .done [] else find projects (.among "id" ids)

def getProject (id : Value) : BoardProgram Value := do
  match ← findById projects id with
  | some project => pure project
  | none => .failed (.projectNotFound id)

def getUserProjects (user : Value) : BoardProgram (List Value) := do
  let ids ← userItems user "projects"
  projectsByIds ids

/-- Whether a project is published and someone has been hired for it. -/
def isCurrent (project : Value) : Except Fault Bool :=
  match project.field "is_published" with
  | .error f => .error f
  | .ok published =>
    if published.truthy then (project.field "freelancers").map Value.truthy else .ok false

def getUserCurrentProjects (user : Value) : BoardProgram (List Value) := do
  let found ← getUserProjects user
  attempt (Value.keepIf isCurrent found)

/-- The projects of the proposals that a predicate on the proposals finds. -/
def projectsOfProposals (predicate : Predicate) : BoardProgram (List Value) := do
  let found ← find proposals predicate
  let ids ← attempt (Value.collect (fun p => p.item "project_id") found)
  projectsByIds ids

def getUserActiveProjects (user : Value) : BoardProgram (List Value) := do
  let ids ← userItems user "proposals"
  if ids.isEmpty then pure []
  else projectsOfProposals (.all [.among "id" ids, .eq "verdict" hired])

def getProjectsByUserProposals (user : Value) : BoardProgram (List Value) := do
  let ids ← userItems user "proposals"
  if ids.isEmpty then pure []
  else projectsOfProposals (.among "id" ids)

def getProposal (id : Value) : BoardProgram Value := do
  match ← findById proposals id with
  | some proposal => pure proposal
  | none => .failed (.proposalNotFound id)

def getProposalsByUser (user : Value) : BoardProgram (List Value) :=
  find proposals (.eq "freelancer_id" user)

def getProjectProposals (project : Value) : BoardProgram (List Value) := do
  let _ ← getProject project
  find proposals (.eq "project_id" project)

/-- What a project is read from when it is added. -/
def newProject (id : String) (actor title scope budget skills : Value) : Fields :=
  [("id", .text id), ("owner", actor), ("title", title), ("scope", scope), ("budget", budget),
    ("skills", if skills.truthy then skills else .list []), ("is_published", .bool false)]

/-- What a proposal is read from when it is added. -/
def newProposal (id : String) (actor project coverLetter budget : Value) : Fields :=
  [("id", .text id), ("project_id", project), ("freelancer_id", actor), ("cover_letter", coverLetter),
    ("budget", budget)]

/-- The record of a user whose first entry on the board is a project. -/
def ownerRecord (actor : Value) (id : String) : Fields :=
  [("id", actor), ("projects", .list [.text id]), ("proposals", .list [])]

/-- The record of a user whose first entry on the board is a proposal. -/
def proposerRecord (actor : Value) (id : String) : Fields :=
  [("id", actor), ("projects", .list []), ("proposals", .list [.text id])]

def checked {α : Type} : Checked α → BoardProgram α
  | .valid a => .done a
  | .invalid issues => .failed (.invalid issues)

/-- Appends an id to a list of the user's record, or else stores the record `first`. -/
def appendToUser (user : Value) (field : String) (id : String) (first : Fields) :
    BoardProgram Unit := do
  let items ← userItems user field
  match ← update users user [(field, .list (items ++ [.text id]))] with
  | some _ => pure ()
  | none =>
    let _ ← insert users first
    pure ()

def addProposal (actor project coverLetter budget : Value) : BoardProgram Value := do
  requireActor actor
  let record ← getProject project
  let id ← freshId
  let proposal ← checked (Proposal.readFields (newProposal id actor project coverLetter budget))
  let created ← insert proposals proposal.fields
  appendToUser actor "proposals" id (proposerRecord actor id)
  let proposers ← attempt (itemsOf record "proposers")
  if actor.memberOf proposers then pure created
  else
    let _ ← update projects project [("proposers", .list (proposers ++ [actor]))]
    pure created

/-- A project that belongs to the actor. -/
def ownedProject (actor id : Value) : BoardProgram Value := do
  let project ← getProject id
  let owner ← attempt (project.field "owner")
  if owner.same actor then pure project else .failed .forbidden

def addProject (actor title scope budget skills : Value) : BoardProgram Value := do
  requireActor actor
  let id ← freshId
  let project ← checked (Project.readFields (newProject id actor title scope budget skills))
  let created ← insert projects project.fields
  appendToUser actor "projects" id (ownerRecord actor id)
  pure created

/-- The names of changed fields that may not be changed. -/
def lockedFields (changes : Value) : Except Fault (List Value) :=
  match changes.elements with
  | .error f => .error f
  | .ok items => match Value.keySet items with
    | .error f => .error f
    | .ok names => .ok (names.filter fun n => !n.memberOf (editableFields.map .text))

def refuseLocked (changes : Value) : BoardProgram Unit := do
  let locked ← attempt (lockedFields changes)
  if locked.isEmpty then pure ()
  else
    let names ← attempt (Value.sorted locked)
    .failed (.lockedFields names)

/-- The changed record as a whole has to be a project. -/
def changedProject (id project changes : Value) : Except Failure Fields :=
  match project, changes with
  | .object fields, .object changed => match Project.readFields (Fields.putAll fields changed) with
    | .valid p => .ok (changed.map fun (k, _) => (k, Fields.get p.fields k))
    | .invalid issues => .error (.projectInvalid id issues)
  | _, _ => .error (.fault .wrongKind)

def updateProject (actor id changes : Value) : BoardProgram (Option Value) := do
  requireActor actor
  let project ← ownedProject actor id
  refuseLocked changes
  let updates ← .ofExcept (changedProject id project changes)
  update projects id updates

def deleteProject (actor id : Value) : BoardProgram Unit := do
  requireActor actor
  let _ ← ownedProject actor id
  let ids ← userItems actor "projects"
  if id.memberOf ids then
    let _ ← update users actor [("projects", .list (id.eraseSame ids))]
  let _ ← onStore (Store.delete projects id)

def hireFreelancer (project proposal freelancer : Value) : BoardProgram (Option Value) := do
  let record ← getProject project
  let _ ← getProposal proposal
  match ← update proposals proposal [("verdict", hired)] with
  | none => .failed (.proposalNotFound proposal)
  | some _ =>
    let freelancers ← attempt (itemsOf record "freelancers")
    update projects project
      [("freelancers",
        .list (if freelancer.memberOf freelancers then freelancers
          else freelancers ++ [freelancer]))]

end Catalog

end FreelanceBoard
