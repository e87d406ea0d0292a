import FreelanceBoard.Document
import FreelanceBoard.Json
import FreelanceBoard.Server.Indices

/-! Indexing projects from a file: what is no project is skipped, the others are written to the
search server in one go. -/
namespace FreelanceBoard

/-- The actions for a list of projects, the lines about those that were skipped, and what stopped
the work before the end of the list, if anything did. -/
structure Batch where
  actions : List IndexAction
  lines : List String
  stoppedBy : Option Fault

namespace Batch

def skipLine (id : Value) (issues : List Issue) : String :=
  "Skipping invalid project " ++ id.display ++ ": " ++ toString issues.length ++ " error(s)"

def ofItems (index : String) : List Value → Batch
  | [] => ⟨[], [], none⟩
  | v :: vs => match Project.read v with
    | .valid p =>
      let rest := ofItems index vs
      { rest with actions := ⟨index, p.id, p.toDocument⟩ :: rest.actions }
    | .invalid issues => match v.field "id" with
      | .error f => ⟨[], [], some f⟩
      | .ok id =>
        if id.isPrintable then
          let rest := ofItems index vs
          { rest with lines := skipLine id issues :: rest.lines }
        else ⟨[], [], some .unprintable⟩

/-- What cannot be listed stops the work at once. -/
def ofValue (index : String) (data : Value) : Batch :=
  match data.elements with
  | .ok items => ofItems index items
  | .error f => ⟨[], [], some f⟩

end Batch

namespace Indexing

/-- Line ends of any kind, as line feeds. -/
def normalizeLines : List Char → List Char
  | [] => []
  | '\r' :: '\n' :: cs => '\n' :: normalizeLines cs
  | '\r' :: cs => '\n' :: normalizeLines cs
  | c :: cs => c :: normalizeLines cs

def unreadable (path reason : String) : String :=
  "Error reading projects from " ++ path ++ ": " ++ reason

/-- What a file holds, none of which there is if it is missing or malformed. -/
def loadProjects (path : String) (content : Option String) : ServerProgram Value :=
  match content with
  | none => do
    Server.report (unreadable path
      ("[Errno 2] No such file or directory: " ++ Text.quoted path))
    pure (.list [])
  | some text =>
    let cs := normalizeLines text.toList
    match Json.ofChars cs with
    | .ok v => .done v
    | .error (.malformed problem position) => do
      Server.report (unreadable path (Json.explain cs problem position))
      pure (.list [])
    | .error (.numeralTooLong digits) => .failed (.numeralTooLong digits)

def reportAll : List String → ServerProgram Unit
  | [] => .done ()
  | line :: rest => do
    Server.report line
    reportAll rest

/-- The two parts of what a bulk request replies. -/
def twoParts (reply : Value) : Except Failure (Value × Value) :=
  match reply.elements with
  | .error f => .error (.fault f)
  | .ok [a, b] => .ok (a, b)
  | .ok items =>
    .error (if items.length < 2 then .tooFewParts items.length else .tooManyParts)

def sendBatch (batch : Batch) : ServerProgram Unit := do
  reportAll batch.lines
  match batch.stoppedBy with
  | some f => .failed (.fault f)
  | none =>
    let reply ← Server.reply (.bulk batch.actions)
    let (indexed, failed) ← .ofExcept (twoParts reply)
    Server.report ("Successfully indexed: " ++ indexed.plain ++ ", Failed: " ++ failed.plain)

def indexProjects (config : ServerConfig) (data : Value) : ServerProgram Unit := do
  Indices.ensure config
  let count ← Server.attempt data.count
  Server.report ("Indexing " ++ toString count ++ " projects into '" ++ config.projectIndex ++
    "'...")
  sendBatch (Batch.ofValue config.projectIndex data)

/-- Nothing is asked of the server where there is nothing to index; else its client is closed
whatever happens. -/
def run (config : ServerConfig) (path : String) (content : Option String) :
    ServerProgram Unit := do
  Server.report "Starting indexation process..."
  let data ← loadProjects path content
  if data.truthy then Server.ensuring Server.close (indexProjects config data)
  else Server.report "No projects found to index. Exiting."

end Indexing

end FreelanceBoard
