import FreelanceBoard.Catalog.Operation

/-! Operations of the catalog that only read: all that they call for is records. -/
namespace FreelanceBoard

namespace Program

variable {I : Interface} {ε σ α β : Type} {P : I.Call → Prop}

/-- Every call that a program can make, whatever the replies, is of a kind. -/
def Only (P : I.Call → Prop) : Program I ε α → Prop
  | .done _ => True
  | .failed _ => True
  | .call c next => P c ∧ ∀ r, Only P (next r)

theorem Only.bind {p : Program I ε α} {f : α → Program I ε β} (hp : p.Only P)
    (hf : ∀ a, (f a).Only P) : (p.bind f).Only P := by
  induction p with
  | done a => exact hf a
  | failed e => trivial
  | call c next ih => exact ⟨hp.1, fun r => ih r (hp.2 r)⟩

theorem only_ofExcept (x : Except ε α) : (ofExcept x : Program I ε α).Only P := by
  cases x <;> trivial

/-- A program that makes only calls that leave the state alone leaves it alone, too. -/
theorem Only.run_state {p : Program I ε α} (hp : p.Only P) {handle : Handler I ε σ}
    (h : ∀ c, P c → ∀ s, (handle c s).2 = s) (s : σ) : (p.run handle s).2 = s := by
  induction p generalizing s with
  | done a => rfl
  | failed e => rfl
  | call c next ih =>
    have hc := h c hp.1 s
    rw [run_call]
    cases hreply : handle c s with
    | mk reply t =>
      obtain rfl : t = s := by rw [← hc, hreply]
      cases reply with
      | error e => rfl
      | ok r => exact ih r (hp.2 r) t

end Program

namespace BoardCall

/-- Calls that look for records. -/
def IsRead : BoardCall → Prop
  | .store (.findById _ _) => True
  | .store (.find _ _) => True
  | _ => False

end BoardCall

namespace Catalog

open Program

abbrev Reads {α : Type} (p : BoardProgram α) : Prop := p.Only BoardCall.IsRead

theorem reads_findById (collection : String) (id : Value) : Reads (findById collection id) :=
  ⟨trivial, fun _ => trivial⟩

theorem reads_find (collection : String) (predicate : Predicate) : Reads (find collection predicate) :=
  ⟨trivial, fun _ => trivial⟩

theorem reads_attempt {α : Type} (x : Except Fault α) : Reads (Board.attempt x) :=
  only_ofExcept _

theorem reads_projectsByIds (ids : List Value) : Reads (projectsByIds ids) := by
  rw [projectsByIds]
  split
  · trivial
  · exact reads_find _ _

theorem reads_userItems (user : Value) (field : String) : Reads (userItems user field) := by
  refine (reads_findById _ _).bind fun found => ?_
  cases found with
  | none => trivial
  | some record => exact reads_attempt _

theorem reads_getProject (id : Value) : Reads (getProject id) := by
  refine (reads_findById _ _).bind fun found => ?_
  cases found <;> trivial

theorem reads_getProposal (id : Value) : Reads (getProposal id) := by
  refine (reads_findById _ _).bind fun found => ?_
  cases found <;> trivial

theorem reads_getUserProjects (user : Value) : Reads (getUserProjects user) :=
  (reads_userItems _ _).bind fun ids => reads_projectsByIds ids

theorem reads_projectsOfProposals (predicate : Predicate) : Reads (projectsOfProposals predicate) :=
  (reads_find _ _).bind fun _ => (reads_attempt _).bind fun ids => reads_projectsByIds ids

theorem reads_getUserActiveProjects (user : Value) : Reads (getUserActiveProjects user) := by
  refine (reads_userItems _ _).bind fun ids => ?_
  split
  · trivial
  · exact reads_projectsOfProposals _

theorem reads_getProjectsByUserProposals (user : Value) : Reads (getProjectsByUserProposals user) := by
  refine (reads_userItems _ _).bind fun ids => ?_
  split
  · trivial
  · exact reads_projectsOfProposals _

end Catalog

namespace Operation

/-- Operations that give what is stored and store nothing. -/
def OnlyReads : Operation → Prop
  | .addProposal _ _ _ _ => False
  | .addProject _ _ _ _ _ => False
  | .updateProject _ _ _ => False
  | .deleteProject _ _ => False
  | .hireFreelancer _ _ _ => False
  | _ => True

theorem OnlyReads.reads {o : Operation} (h : o.OnlyReads) : Catalog.Reads o.program := by
  cases o with
  | getProject id => exact Catalog.reads_getProject id
  | getProposal id => exact Catalog.reads_getProposal id
  | getUserProjects user => exact (Catalog.reads_getUserProjects user).bind fun _ => trivial
  | getUserCurrentProjects user =>
    exact ((Catalog.reads_getUserProjects user).bind fun _ => Catalog.reads_attempt _).bind
      fun _ => trivial
  | getUserActiveProjects user =>
    exact (Catalog.reads_getUserActiveProjects user).bind fun _ => trivial
  | getProjectsByUserProposals user =>
    exact (Catalog.reads_getProjectsByUserProposals user).bind fun _ => trivial
  | getProposalsByUser user => exact (Catalog.reads_find _ _).bind fun _ => trivial
  | getProjectProposals project =>
    exact ((Catalog.reads_getProject project).bind fun _ => Catalog.reads_find _ _).bind
      fun _ => trivial
  | addProposal actor project letter budget => cases h
  | addProject actor title scope budget skills => cases h
  | updateProject actor id changes => cases h
  | deleteProject actor id => cases h
  | hireFreelancer project proposal freelancer => cases h

end Operation

end FreelanceBoard
