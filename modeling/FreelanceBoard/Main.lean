import FreelanceBoard.Indexing
import FreelanceBoard.Json.Written
import FreelanceBoard.Settings

/-! The command line. `bootstrap` sets up the indices, `index` fills the index of projects from a
file. Requests to the search server go to standard error, one JSON object a line, and each is
answered by a line of JSON on standard input; a line that is no JSON, or none, is a lost
connection. -/
namespace FreelanceBoard

namespace Command

def requestLine (r : Request) : String :=
  Json.written (.object [("method", .text r.method), ("args", .object r.arguments)])

def replyOfLine (line : String) : Except ClientFailure Value :=
  match Json.ofChars line.toList with
  | .ok v => .ok v
  | .error _ => .error .connection

/-- What one call of a program does. -/
def answer : (c : ServerCall) → IO c.Reply
  | .request r => do
    (← IO.getStderr).putStrLn (requestLine r)
    return replyOfLine (← (← IO.getStdin).getLine)
  | .pause seconds => IO.sleep (UInt32.ofNat (1000 * seconds))
  | .report line => IO.println line

def perform {α : Type} : ServerProgram α → IO (Except Failure α)
  | .done a => return .ok a
  | .failed e => return .error e
  | .call c next => do
    let r ← answer c
    perform (next r)

def fileContent (path : String) : IO (Option String) := do
  try return some (← IO.FS.readFile path)
  catch _ => return none

def givenValue (name : String) : IO (Option (String × String)) := do
  return (← IO.getEnv name).map (name, ·)

def configOf (s : Settings) : ServerConfig :=
  { projectIndex := s.projectIndex, userIndex := s.userIndex, proposalIndex := s.proposalIndex,
    searchSize := s.searchSize, attempts := s.retryAttempts.toNat }

def readConfig : IO (Checked ServerConfig) := do
  let given ← Settings.names.filterMapM givenValue
  return (Settings.read given).map configOf

def issueLine (i : Issue) : String := String.intercalate "." i.place ++ ": " ++ i.cause.message

/-- What is said of a failure to the user of the command line. -/
def complaint (e : Failure) : List String :=
  (e.message.getD "The command failed.") :: (e.issues?.getD []).map issueLine

def finish {α : Type} (outcome : Except Failure α) : IO UInt32 := do
  match outcome with
  | .ok _ => return 0
  | .error e =>
    for line in complaint e do (← IO.getStderr).putStrLn line
    return 1

def run (config : ServerConfig) : List String → IO UInt32
  | "index" :: rest => do
    let path := rest.headD "projects.json"
    finish (← perform (Indexing.run config path (← fileContent path)))
  | _ => do finish (← perform (bootstrap config))

end Command

end FreelanceBoard

def main (args : List String) : IO UInt32 := do
  match ← FreelanceBoard.Command.readConfig with
  | .valid config => FreelanceBoard.Command.run config args
  | .invalid issues => FreelanceBoard.Command.finish (.error (.invalid issues) : Except _ Unit)
