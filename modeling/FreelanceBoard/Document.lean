import FreelanceBoard.Filter

/-! The documents that the board keeps: projects, users and proposals. They are read laxly, unknown
keys are dropped, and what is missing is filled in; the document of what was read has every field. -/
namespace FreelanceBoard

structure Scope where
  size : Option String
  duration : Option String
  experience : Option String

structure Budget where
  pricing : Pricing
  currency : String
  amount : Int

structure Project where
  id : String
  owner : String
  title : Option String
  description : Option String
  skills : List String
  scope : Option Scope
  budget : Option Budget
  isPublished : Bool
  freelancers : List String
  proposers : List String

structure User where
  id : String
  projects : List String
  proposals : List String

structure Proposal where
  id : String
  projectId : String
  freelancerId : Option String
  coverLetter : Option String
  budget : Option Budget
  verdict : Option String

namespace Fields

def optionalText (fields : Fields) (key : String) : Checked (Option String) :=
  fields.optional key none (Reader.nullable Reader.laxText)

def optionalTexts (fields : Fields) (key : String) : Checked (List String) :=
  fields.optional key [] (Reader.listOf Reader.laxText)

end Fields

namespace Value

def texts (ts : List String) : Value := .list (ts.map .text)

end Value

namespace Scope

def readFields (fields : Fields) : Checked Scope :=
  Scope.mk <$> fields.optionalText "size" <*> fields.optionalText "duration"
    <*> fields.optionalText "experience"

def read : Reader Scope := Reader.object "Scope" readFields

def toDocument (s : Scope) : Value :=
  .object [("size", .ofOption .text s.size), ("duration", .ofOption .text s.duration),
    ("experience", .ofOption .text s.experience)]

end Scope

namespace Budget

def readFields (fields : Fields) : Checked Budget :=
  Budget.mk <$> fields.required "type" Pricing.read <*> fields.required "currency" Reader.laxText
    <*> fields.required "amount" Reader.laxInt

def read : Reader Budget := Reader.object "Budget" readFields

def toDocument (b : Budget) : Value :=
  .object [("type", b.pricing.toValue), ("currency", .text b.currency), ("amount", .int b.amount)]

end Budget

namespace Project

def readFields (fields : Fields) : Checked Project :=
  Project.mk
    <$> fields.required "id" Reader.laxText
    <*> fields.required "owner" Reader.laxText
    <*> fields.optionalText "title"
    <*> fields.optionalText "description"
    <*> fields.optionalTexts "skills"
    <*> fields.optional "scope" none (Reader.nullable Scope.read)
    <*> fields.optional "budget" none (Reader.nullable Budget.read)
    <*> fields.optional "is_published" false Reader.laxBool
    <*> fields.optionalTexts "freelancers"
    <*> fields.optionalTexts "proposers"

def read : Reader Project := Reader.object "Project" readFields

def fields (p : Project) : Fields :=
  [("id", .text p.id),
   ("owner", .text p.owner),
   ("title", .ofOption .text p.title),
   ("description", .ofOption .text p.description),
   ("skills", .texts p.skills),
   ("scope", .ofOption Scope.toDocument p.scope),
   ("budget", .ofOption Budget.toDocument p.budget),
   ("is_published", .bool p.isPublished),
   ("freelancers", .texts p.freelancers),
   ("proposers", .texts p.proposers)]

def toDocument (p : Project) : Value := .object p.fields

end Project

namespace User

def readFields (fields : Fields) : Checked User :=
  User.mk <$> fields.required "id" Reader.laxText <*> fields.optionalTexts "projects"
    <*> fields.optionalTexts "proposals"

def read : Reader User := Reader.object "User" readFields

def fields (u : User) : Fields :=
  [("id", .text u.id), ("projects", .texts u.projects), ("proposals", .texts u.proposals)]

def toDocument (u : User) : Value := .object u.fields

end User

namespace Proposal

def readFields (fields : Fields) : Checked Proposal :=
  Proposal.mk
    <$> fields.required "id" Reader.laxText
    <*> fields.required "project_id" Reader.laxText
    <*> fields.optionalText "freelancer_id"
    <*> fields.optionalText "cover_letter"
    <*> fields.optional "budget" none (Reader.nullable Budget.read)
    <*> fields.optionalText "verdict"

def read : Reader Proposal := Reader.object "Proposal" readFields

def fields (p : Proposal) : Fields :=
  [("id", .text p.id),
   ("project_id", .text p.projectId),
   ("freelancer_id", .ofOption .text p.freelancerId),
   ("cover_letter", .ofOption .text p.coverLetter),
   ("budget", .ofOption Budget.toDocument p.budget),
   ("verdict", .ofOption .text p.verdict)]

def toDocument (p : Proposal) : Value := .object p.fields

end Proposal

end FreelanceBoard
