import FreelanceBoard.Clause
import FreelanceBoard.Text.Blank

/-! From a filter to the conditions that it makes: those parts that say nothing are left out, and
one condition is always there, that the actor does not own the project. -/
namespace FreelanceBoard

namespace BudgetFilter

/-- Whether the filter says anything: it is checked, names a currency and has a bound. -/
def isActive (b : BudgetFilter) : Bool :=
  b.checked && b.currency.any (fun c => !c.isEmpty) && (b.min.isSome || b.max.isSome)

end BudgetFilter

namespace Conditions

/-- The double that a bound is compared as; a bound too large to have one is refused. -/
def boundToDouble (key : String) : Option Number → Checked (Option Double)
  | none => .valid none
  | some n => match n.toDouble? with
    | some x => .valid (some x)
    | none => .invalid [⟨.notNumber, [key]⟩]

def budgetClause (p : Pricing) (b : BudgetFilter) : Checked Clause :=
  (fun min max => .budgetRange ⟨p, b.currency.getD "", min, max⟩)
    <$> boundToDouble "min" b.min <*> boundToDouble "max" b.max

def titleClauses (title : Option String) : List Clause :=
  match title with
  | some t => if Text.strip t = "" then [] else [.textSearch ⟨"title", t, titleEdits⟩]
  | none => []

def budgetClauses (f : ProjectFilter) : List Pricing → Except Failure (List Clause)
  | [] => .ok []
  | p :: ps => match f.budgetFor p with
    | none => budgetClauses f ps
    | some b =>
      if b.isActive then
        match budgetClause p b with
        | .valid c => (budgetClauses f ps).map (c :: ·)
        | .invalid issues => .error (.invalid issues)
      else budgetClauses f ps

/-- The skills that are not blank, without the blanks around them. -/
def wantedSkills (skills : Option (List String)) : List String :=
  distinctTexts (((skills.getD []).map Text.strip).filter (fun s => !s.isEmpty))

def skillClauses (skills : Option (List String)) : List Clause :=
  match wantedSkills skills with
  | [] => []
  | required => [.skills required]

def filterClauses (f : ProjectFilter) : Except Failure (List Clause) :=
  match budgetClauses f Pricing.all with
  | .ok budgets => .ok (titleClauses f.title ++ budgets ++ skillClauses f.skills)
  | .error e => .error e

/-- The actor has to be given, and as text. -/
def ofFilter (filter : Option ProjectFilter) (actor : Value) : Except Failure Conditions :=
  if actor.truthy then
    match filter.elim (.ok []) filterClauses with
    | .error e => .error e
    | .ok clauses => match (Reader.laxText actor).under "actor_id" with
      | .valid a => .ok ⟨clauses ++ [.excludeOwner a]⟩
      | .invalid issues => .error (.invalid issues)
  else .error .noActor

end Conditions

end FreelanceBoard
