import FreelanceBoard.Filter.Normalized
import FreelanceBoard.Plan

/-! From conditions to a plan. Its stages come in a fixed order: the search, the owner, the budget
and the skills; the ranges of several budgets are alternatives. -/
namespace FreelanceBoard

namespace BudgetRange

/-- Both bounds are strict. -/
def predicate (r : BudgetRange) : Predicate :=
  .all [.eq "budget.type" r.pricing.toValue,
    .range "budget.amount" (r.min.map (⟨true, ·⟩)) (r.max.map (⟨true, ·⟩)),
    .eq "budget.currency" (.text r.currency)]

end BudgetRange

namespace Plan

def searchStages (c : Conditions) : List Stage :=
  match c.textSearch? with
  | some s => [.search ⟨s.field, s.query, s.edits⟩]
  | none => []

def ownerStage (actor : String) : Stage := .keep ⟨"exclude_owner", .ne "owner" (.text actor)⟩

def budgetStages (c : Conditions) : List Stage :=
  match c.budgetRanges with
  | [] => []
  | ranges => [.keep ⟨"budget", .any (ranges.map BudgetRange.predicate)⟩]

/-- Texts in the order of their code points. -/
def sortedTexts (texts : List String) : List String := texts.mergeSort (fun s t => decide (s ≤ t))

def skillStages (c : Conditions) : List Stage :=
  match c.skills? with
  | some required => [.keep ⟨"skills", .containsAll "skills" (sortedTexts required)⟩]
  | none => []

/-- Conditions that exclude no owner have no plan. -/
def ofConditions (c : Conditions) : Except Failure Plan :=
  match c.owner? with
  | some actor => .ok ⟨searchStages c ++ [ownerStage actor] ++ budgetStages c ++ skillStages c⟩
  | none => .error (.fault .noSuchItem)

def ofFilter (raw actor : Value) : Except Failure Plan :=
  match ProjectFilter.validate raw with
  | .error e => .error e
  | .ok filter => match Conditions.ofFilter filter actor with
    | .error e => .error e
    | .ok c => ofConditions c

end Plan

end FreelanceBoard
