import FreelanceBoard.Filter

/-! The conditions that a filter makes on projects, each of one kind, and lists of them. -/
namespace FreelanceBoard

structure TextSearch where
  field : String
  query : String
  edits : Int

structure BudgetRange where
  pricing : Pricing
  currency : String
  min : Option Double
  max : Option Double

/-- The skills of a clause are kept without repetition. -/
inductive Clause where
  | textSearch (search : TextSearch)
  | budgetRange (range : BudgetRange)
  | skills (required : List String)
  | excludeOwner (actor : String)

/-- One typing mistake is forgiven in a title, unless a clause or stage says otherwise. -/
def titleEdits : Int := 1

/-- The texts without those that stand earlier in the list. -/
def distinctTexts (texts : List String) : List String :=
  texts.foldl (fun kept t => if t ∈ kept then kept else kept ++ [t]) []

inductive ClauseKind where
  | textSearch
  | budgetRange
  | skills
  | excludeOwner
  deriving DecidableEq

namespace ClauseKind

def all : List ClauseKind := [.textSearch, .budgetRange, .skills, .excludeOwner]

def name : ClauseKind → String
  | .textSearch => "text_search"
  | .budgetRange => "budget_range"
  | .skills => "skills_contains_all"
  | .excludeOwner => "exclude_owner"

def schema : ClauseKind → String
  | .textSearch => "TextSearch"
  | .budgetRange => "BudgetRange"
  | .skills => "SkillsContainsAll"
  | .excludeOwner => "ExcludeOwner"

def ofValue? : Value → Option ClauseKind
  | .text s => all.find? (fun k => k.name == s)
  | _ => none

end ClauseKind

namespace TextSearch

def toValue (s : TextSearch) : Value :=
  .object [("kind", .text "text_search"), ("field", .text s.field), ("query", .text s.query),
    ("fuzzy_edit_distance", .int s.edits)]

end TextSearch

namespace BudgetRange

def toValue (r : BudgetRange) : Value :=
  .object [("kind", .text "budget_range"), ("discriminant", r.pricing.toValue),
    ("currency", .text r.currency), ("min", .ofOption .float r.min), ("max", .ofOption .float r.max)]

end BudgetRange

namespace Clause

def readBound (fields : Fields) (key : String) : Checked (Option Double) :=
  fields.optional key none (Reader.nullable Reader.laxNumber)

def textSet : Reader (List String)
  | v => (Reader.items .notSet Reader.laxText v).map distinctTexts

def readAs (k : ClauseKind) (fields : Fields) : Checked Clause :=
  let kind := fields.optional "kind" () (Reader.literal k.name)
  match k with
  | .textSearch =>
    (fun _ field query edits => .textSearch ⟨field, query, edits⟩) <$> kind
      <*> fields.required "field" Reader.laxText <*> fields.required "query" Reader.laxText
      <*> fields.optional "fuzzy_edit_distance" titleEdits Reader.laxInt
  | .budgetRange =>
    (fun _ pricing currency min max => .budgetRange ⟨pricing, currency, min, max⟩) <$> kind
      <*> fields.required "discriminant" Pricing.read <*> fields.required "currency" Reader.laxText
      <*> readBound fields "min" <*> readBound fields "max"
  | .skills => (fun _ => .skills) <$> kind <*> fields.required "skills" textSet
  | .excludeOwner => (fun _ => .excludeOwner) <$> kind <*> fields.required "actor_id" Reader.laxText

def read : Reader Clause
  | .object fields => match fields.lookup "kind" with
    | none => .issue (.noTag "kind")
    | some tag => match ClauseKind.ofValue? tag with
      | none => .issue (.unknownTag "kind" tag.plain (ClauseKind.all.map ClauseKind.name))
      | some k => (readAs k fields).under k.name
  | _ => .issue .notTagged

/-- Reads an object as a clause of the one kind that is asked for. -/
def readOnly (k : ClauseKind) : Reader Clause := Reader.object k.schema (readAs k)

def toValue : Clause → Value
  | .textSearch s => s.toValue
  | .budgetRange r => r.toValue
  | .skills required =>
    .object [("kind", .text "skills_contains_all"), ("skills", .set (required.map .text))]
  | .excludeOwner actor => .object [("kind", .text "exclude_owner"), ("actor_id", .text actor)]

end Clause

/-- The conditions that are to hold together. -/
structure Conditions where
  clauses : List Clause

namespace Conditions

def read : Reader Conditions :=
  Reader.object "NormalizedFilter" fun fields =>
    Conditions.mk <$> fields.required "clauses" (Reader.tupleOf Clause.read)

def toValue (c : Conditions) : Value :=
  .object [("clauses", .tuple (c.clauses.map Clause.toValue))]

def textSearches (c : Conditions) : List TextSearch :=
  c.clauses.filterMap fun
    | .textSearch s => some s
    | _ => none

def budgetRanges (c : Conditions) : List BudgetRange :=
  c.clauses.filterMap fun
    | .budgetRange r => some r
    | _ => none

def skillSets (c : Conditions) : List (List String) :=
  c.clauses.filterMap fun
    | .skills required => some required
    | _ => none

def owners (c : Conditions) : List String :=
  c.clauses.filterMap fun
    | .excludeOwner actor => some actor
    | _ => none

/-- Of several title searches, skill sets and owners the first counts. -/
def textSearch? (c : Conditions) : Option TextSearch := c.textSearches.head?

def skills? (c : Conditions) : Option (List String) := c.skillSets.head?

def owner? (c : Conditions) : Option String := c.owners.head?

end Conditions

end FreelanceBoard
