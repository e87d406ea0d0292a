import FreelanceBoard.Schema.Scalar

/-! The settings of the service, read from environment variables whose names may be written in any
case. A setting that is not given has its usual value. -/
namespace FreelanceBoard

structure Settings where
  serverUrl : String
  requestTimeout : Double
  projectIndex : String
  userIndex : String
  proposalIndex : String
  searchSize : Int
  retryAttempts : Int
  logLevel : String

namespace Settings

def names : List String :=
  ["ELASTICSEARCH_URL", "ES_REQUEST_TIMEOUT", "PROJECT_INDEX", "USER_INDEX", "PROPOSAL_INDEX",
   "SEARCH_SIZE", "STORE_RETRY_ATTEMPTS", "LOG_LEVEL"]

/-- The variable of a setting, the last one if several differ in case only. -/
def givenFor? (environment : List (String × String)) (name : String) : Option String :=
  (environment.reverse.find? fun (n, _) => n.toLower == name.toLower).map Prod.snd

def setting {α : Type} (environment : List (String × String)) (name : String) (default : α)
    (read : Reader α) : Checked α :=
  match givenFor? environment name with
  | some s => (read (.text s)).under name
  | none => .valid default

def read (environment : List (String × String)) : Checked Settings :=
  Settings.mk
    <$> setting environment "ELASTICSEARCH_URL" "http://localhost:9200" Reader.laxText
    <*> setting environment "ES_REQUEST_TIMEOUT" (.finite 10) Reader.laxNumber
    <*> setting environment "PROJECT_INDEX" "projects" Reader.laxText
    <*> setting environment "USER_INDEX" "users" Reader.laxText
    <*> setting environment "PROPOSAL_INDEX" "proposals" Reader.laxText
    <*> setting environment "SEARCH_SIZE" 500 Reader.laxInt
    <*> setting environment "STORE_RETRY_ATTEMPTS" 3 Reader.laxInt
    <*> setting environment "LOG_LEVEL" "INFO" Reader.laxText

def toValue (s : Settings) : Value :=
  .object
    [("ELASTICSEARCH_URL", .text s.serverUrl),
     ("ES_REQUEST_TIMEOUT", .float s.requestTimeout),
     ("PROJECT_INDEX", .text s.projectIndex),
     ("USER_INDEX", .text s.userIndex),
     ("PROPOSAL_INDEX", .text s.proposalIndex),
     ("SEARCH_SIZE", .int s.searchSize),
     ("STORE_RETRY_ATTEMPTS", .int s.retryAttempts),
     ("LOG_LEVEL", .text s.logLevel)]

end Settings

end FreelanceBoard
