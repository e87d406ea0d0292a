import FreelanceBoard.Catalog

/-! The public operations of the catalog, each with its arguments, as data. Arguments are values of
any shape; what an operation gives back is a value, too. -/
namespace FreelanceBoard

inductive Operation where
  | getProject (id : Value)
  | getProposal (id : Value)
  | getUserProjects (user : Value)
  | getUserCurrentProjects (user : Value)
  | getUserActiveProjects (user : Value)
  | getProjectsByUserProposals (user : Value)
  | getProposalsByUser (user : Value)
  | getProjectProposals (project : Value)
  | addProposal (actor project coverLetter budget : Value)
  | addProject (actor title scope budget skills : Value)
  | updateProject (actor id changes : Value)
  | deleteProject (actor id : Value)
  | hireFreelancer (project proposal freelancer : Value)

namespace Operation

def giveList (p : BoardProgram (List Value)) : BoardProgram Value := p.bind fun vs => .done (.list vs)

def giveOption (p : BoardProgram (Option Value)) : BoardProgram Value :=
  p.bind fun v => .done (v.getD .null)

def program : Operation → BoardProgram Value
  | .getProject id => Catalog.getProject id
  | .getProposal id => Catalog.getProposal id
  | .getUserProjects user => giveList (Catalog.getUserProjects user)
  | .getUserCurrentProjects user => giveList (Catalog.getUserCurrentProjects user)
  | .getUserActiveProjects user => giveList (Catalog.getUserActiveProjects user)
  | .getProjectsByUserProposals user => giveList (Catalog.getProjectsByUserProposals user)
  | .getProposalsByUser user => giveList (Catalog.getProposalsByUser user)
  | .getProjectProposals project => giveList (Catalog.getProjectProposals project)
  | .addProposal actor project coverLetter budget =>
    Catalog.addProposal actor project coverLetter budget
  | .addProject actor title scope budget skills => Catalog.addProject actor title scope budget skills
  | .updateProject actor id changes => giveOption (Catalog.updateProject actor id changes)
  | .deleteProject actor id => (Catalog.deleteProject actor id).bind fun _ => .done .null
  | .hireFreelancer project proposal freelancer =>
    giveOption (Catalog.hireFreelancer project proposal freelancer)

/-- The operations one after the other; each has an outcome, and a failure stops none of those
after it. -/
def runAll {σ : Type} (handle : Handler Board Failure σ) :
    List Operation → σ → List (Except Failure Value) × σ
  | [], s => ([], s)
  | o :: rest, s =>
    let (outcome, t) := o.program.run handle s
    let (outcomes, u) := runAll handle rest t
    (outcome :: outcomes, u)

@[simp] theorem runAll_nil {σ : Type} (handle : Handler Board Failure σ) (s : σ) :
    runAll handle [] s = ([], s) := rfl

theorem runAll_cons {σ : Type} (handle : Handler Board Failure σ) (o : Operation)
    (rest : List Operation) (s : σ) :
    runAll handle (o :: rest) s =
      ((o.program.run handle s).1 :: (runAll handle rest (o.program.run handle s).2).1,
        (runAll handle rest (o.program.run handle s).2).2) := rfl

theorem runAll_append {σ : Type} (handle : Handler Board Failure σ) (ops rest : List Operation) (s : σ) :
    runAll handle (ops ++ rest) s =
      ((runAll handle ops s).1 ++ (runAll handle rest (runAll handle ops s).2).1,
        (runAll handle rest (runAll handle ops s).2).2) := by
  induction ops generalizing s with
  | nil => rfl
  | cons o ops ih => simp only [List.cons_append, runAll_cons, ih]

end Operation

end FreelanceBoard
