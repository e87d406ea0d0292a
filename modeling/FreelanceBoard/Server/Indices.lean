import FreelanceBoard.Server.Store

/-! Setting up the indices of the board. A collection whose alias exists is left as it is; else its
first index is created, if it is not there, and the alias is put on it. -/
namespace FreelanceBoard

namespace Indices

def ofType (name : String) : Value := .object [("type", .text name)]

def keyword : Value := ofType "keyword"

def properties (fields : Fields) : Value := .object [("properties", .object fields)]

def budgetMapping : Value :=
  properties [("type", keyword), ("currency", keyword), ("amount", ofType "integer")]

def scopeMapping : Value :=
  properties [("size", keyword), ("duration", keyword), ("experience", keyword)]

def projectMapping : Value :=
  properties
    [("id", keyword), ("owner", keyword), ("title", ofType "text"), ("description", ofType "text"),
     ("skills", keyword), ("scope", scopeMapping), ("budget", budgetMapping),
     ("is_published", ofType "boolean"), ("freelancers", keyword), ("proposers", keyword)]

def userMapping : Value :=
  properties [("id", keyword), ("projects", keyword), ("proposals", keyword)]

def proposalMapping : Value :=
  properties
    [("id", keyword), ("project_id", keyword), ("freelancer_id", keyword),
     ("cover_letter", ofType "text"), ("budget", budgetMapping), ("verdict", keyword)]

def mappingOf (collection : String) : Value :=
  if collection = Collection.projects then projectMapping
  else if collection = Collection.users then userMapping
  else proposalMapping

/-- The first index behind an alias. -/
def initialIndex (name : String) : String := name ++ "-initial"

def createMissing (index : String) (mapping : Value) : ServerProgram Unit := do
  let there ← Server.reply (.indexExists index)
  if there.truthy then pure ()
  else
    let _ ← Server.reply (.createIndex index mapping)
    pure ()

def ensureAlias (collection name : String) : ServerProgram Unit := do
  let there ← Server.reply (.aliasExists name)
  if there.truthy then pure ()
  else
    createMissing (initialIndex name) (mappingOf collection)
    let _ ← Server.reply (.putAlias (initialIndex name) name)
    pure ()

def ensureAll : List (String × String) → ServerProgram Unit
  | [] => .done ()
  | (collection, name) :: rest => do
    ensureAlias collection name
    ensureAll rest

def ensure (config : ServerConfig) : ServerProgram Unit := ensureAll config.aliases

end Indices

namespace Server

def close : ServerProgram Unit := do
  let _ ← reply .close
  pure ()

end Server

/-- Sets up the indices and closes the client. -/
def bootstrap (config : ServerConfig) : ServerProgram Unit :=
  Server.ensuring Server.close (Indices.ensure config)

end FreelanceBoard
