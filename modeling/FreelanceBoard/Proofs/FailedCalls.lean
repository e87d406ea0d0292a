import FreelanceBoard.Proofs.Deeds
import FreelanceBoard.Proofs.FiledRecords

/-! A call of the catalog that fails has stored nothing. An operation could fail between its writes
where a list that it extends cannot be read, and where who adds something cannot be a key. While the
lists of a store in memory are lists, or are not there, they stay so, and no call on it that can be
recorded fails half done. -/
namespace FreelanceBoard

/-- A list, or nothing. -/
def Value.ListOrNull (v : Value) : Prop := v = .null ∨ ∃ items, v = .list items

namespace Catalog

open Collection

/-- The lists in the records of a collection that the operations extend. -/
def listFields (name : String) : List String :=
  if name = users then ["projects", "proposals"]
  else if name = projects then ["freelancers", "proposers"]
  else []

theorem mem_listFields_users {field : String} :
    field ∈ listFields users ↔ field = "projects" ∨ field = "proposals" := by
  simp [listFields]

theorem mem_listFields_projects {field : String} :
    field ∈ listFields projects ↔ field = "freelancers" ∨ field = "proposers" := by
  simp [listFields, users, projects]

theorem exists_itemsOf {r : Fields} {field : String} (h : (Fields.get r field).ListOrNull) :
    ∃ items, itemsOf (.object r) field = .ok items := by
  have hfield : itemsOf (.object r) field = (Fields.get r field).elementsOrNone := rfl
  rw [hfield]
  obtain hnull | ⟨items, hlist⟩ := h
  · exact ⟨[], by rw [hnull]; rfl⟩
  · rw [hlist]
    cases items with
    | nil => exact ⟨[], rfl⟩
    | cons v vs => exact ⟨v :: vs, rfl⟩

end Catalog

/-- The lists in a record of a collection are lists, or are not there. -/
def Fields.Listed (name : String) (r : Fields) : Prop :=
  ∀ field ∈ Catalog.listFields name, (Fields.get r field).ListOrNull

namespace Fields.Listed

variable {name : String} {r : Fields}

theorem of_project (hfreelancers : (Fields.get r "freelancers").ListOrNull)
    (hproposers : (Fields.get r "proposers").ListOrNull) : r.Listed Collection.projects := by
  intro field hfield
  rcases Catalog.mem_listFields_projects.1 hfield with rfl | rfl
  · exact hfreelancers
  · exact hproposers

theorem of_user (hprojects : (Fields.get r "projects").ListOrNull)
    (hproposals : (Fields.get r "proposals").ListOrNull) : r.Listed Collection.users := by
  intro field hfield
  rcases Catalog.mem_listFields_users.1 hfield with rfl | rfl
  · exact hprojects
  · exact hproposals

theorem of_lookup_eq {other : Fields} (h : r.Listed name)
    (heq : ∀ field ∈ Catalog.listFields name, other.lookup field = r.lookup field) :
    other.Listed name := by
  intro field hfield
  have hsame : Fields.get other field = Fields.get r field := by
    rw [Fields.get, Fields.get, heq field hfield]
  rw [hsame]
  exact h field hfield

theorem put (h : r.Listed name) (key : String) (items : List Value) :
    (Fields.put r key (.list items)).Listed name := by
  intro field hfield
  by_cases hkey : field = key
  · rw [hkey, Fields.get_put_self]
    exact .inr ⟨items, rfl⟩
  · rw [Fields.get_put_of_ne _ _ hkey]
    exact h field hfield

/-- The fields that an owner may edit are none of the lists. -/
theorem putAll (h : r.Listed Collection.projects) {changes : Fields}
    (hchanges : ∀ key ∈ Fields.keys changes, key ∈ Catalog.editableFields) :
    (Fields.putAll r changes).Listed Collection.projects := by
  refine h.of_lookup_eq fun field hfield => Fields.lookup_putAll_of_notMem fun hmem => ?_
  have hedited := hchanges field hmem
  rcases Catalog.mem_listFields_projects.1 hfield with rfl | rfl <;>
    simp [Catalog.editableFields] at hedited

end Fields.Listed

theorem Project.listed_fields (p : Project) : p.fields.Listed Collection.projects :=
  .of_project (.inr ⟨_, rfl⟩) (.inr ⟨_, rfl⟩)

theorem Catalog.listed_newUser (id : Value) (ownProjects ownProposals : List Value) :
    Fields.Listed Collection.users
      [("id", id), ("projects", .list ownProjects), ("proposals", .list ownProposals)] :=
  .of_user (.inr ⟨_, rfl⟩) (.inr ⟨_, rfl⟩)

namespace Memory

open Collection

/-- The lists in all records are lists, or are not there. -/
def Listed (m : Memory) : Prop := ∀ name, ∀ e ∈ m.entries name, e.record.Listed name

namespace Listed

variable {m : Memory} {name : String} {key : Value} {r : Fields}

/-- Only projects and users have lists that are extended. -/
theorem of_known (hprojects : ∀ e ∈ m.entries projects, e.record.Listed projects)
    (husers : ∀ e ∈ m.entries users, e.record.Listed users) : m.Listed := by
  intro name e he field hfield
  by_cases hnameUsers : name = users
  · subst hnameUsers
    exact husers e he field hfield
  · by_cases hnameProjects : name = projects
    · subst hnameProjects
      exact hprojects e he field hfield
    · rw [Catalog.listFields, if_neg hnameUsers, if_neg hnameProjects] at hfield
      cases hfield

theorem setTable {t : Table} (h : m.Listed) (ht : ∀ e ∈ t.entries, e.record.Listed name) :
    (m.setTable name t).Listed := by
  intro other
  by_cases hname : other = name
  · subst hname
    rw [entries_setTable_self]
    exact ht
  · rw [entries_setTable_of_ne m t hname]
    exact h other

theorem write (h : m.Listed) (key : Value) (hr : r.Listed name) : (m.write name key r).Listed := by
  refine h.setTable fun e he => ?_
  rcases Entries.mem_put he with he | ⟨f, -, -, rfl⟩ | ⟨-, rfl⟩
  · exact h name e he
  · exact hr
  · exact hr

theorem without (h : m.Listed) (name : String) (key : Value) : (m.without name key).Listed :=
  h.setTable fun e he => h name e (List.mem_of_mem_filter he)

theorem record (h : m.Listed) (hr : m.record? name key = some r) : r.Listed name := by
  obtain ⟨e, hslot, rfl⟩ := slotOf?_of_record? hr
  exact h name e (Entries.mem_of_slotOf? hslot)

theorem listing (h : m.Listed) (user : Value) (field : String) (items : List Value) (id : String)
    {first : Fields} (hfirst : first.Listed users) :
    (m.listing user field items id first).Listed := by
  rw [Memory.listing]
  cases hr : m.record? users user with
  | some r => exact h.write user ((h.record hr).put field _)
  | none => exact h.write user hfirst

theorem unlisting (h : m.Listed) (owner : Value) (items : List Value) (id : Value) :
    (m.unlisting owner items id).Listed := by
  rw [Memory.unlisting]
  cases hr : m.record? users owner with
  | some r =>
    by_cases hmem : id.memberOf items = true
    · simp only [hmem, if_true]
      exact h.write owner ((h.record hr).put "projects" _)
    · simpa [hmem] using h
  | none => exact h

theorem proposing (h : m.Listed) (project : Value) {record : Fields} (hrecord : record.Listed projects)
    (proposers : List Value) (actor : Value) : (m.proposing project record proposers actor).Listed := by
  rw [Memory.proposing]
  by_cases hmem : actor.memberOf proposers = true
  · rw [if_pos hmem]
    exact h
  · rw [if_neg hmem]
    exact h.write project (hrecord.put "proposers" _)

/-- A proposal has no lists. -/
theorem writeProposal (h : m.Listed) (key : Value) (r : Fields) : (m.write proposals key r).Listed := by
  refine h.write key fun field hfield => ?_
  simp [Catalog.listFields, users, projects, proposals] at hfield

theorem exists_userItems (h : m.Listed) {user : Value} (hkey : user.isKey = true) {field : String}
    (hfield : field ∈ Catalog.listFields users) : ∃ items, m.userItems user field = .ok items := by
  rw [userItems, if_pos hkey]
  cases hr : m.record? users user with
  | some r => exact Catalog.exists_itemsOf (h.record hr field hfield)
  | none => exact ⟨[], rfl⟩

end Listed

end Memory

namespace Operation

/-- Who adds something to the board. -/
def adder? : Operation → Option Value
  | .addProject actor _ _ _ _ => some actor
  | .addProposal actor _ _ _ => some actor
  | _ => none

def arguments : Operation → List Value
  | .getProject id => [id]
  | .getProposal id => [id]
  | .getUserProjects user => [user]
  | .getUserCurrentProjects user => [user]
  | .getUserActiveProjects user => [user]
  | .getProjectsByUserProposals user => [user]
  | .getProposalsByUser user => [user]
  | .getProjectProposals project => [project]
  | .addProposal actor project coverLetter budget => [actor, project, coverLetter, budget]
  | .addProject actor title scope budget skills => [actor, title, scope, budget, skills]
  | .updateProject actor id changes => [actor, id, changes]
  | .deleteProject actor id => [actor, id]
  | .hireFreelancer project proposal freelancer => [project, proposal, freelancer]

/-- A call that can be recorded. Octets that can be changed are read as a text while they cannot be a
key; and the line of the log with which a call ends writes down what it was given. -/
structure Recordable (o : Operation) : Prop where
  adder : ∀ actor, o.adder? = some actor → actor.IsOctets → actor.isKey = true
  arguments : ∀ v ∈ o.arguments, v.isPrintable = true

theorem Recordable.isKey_of_spells {o : Operation} {actor : Value} {s : String} (ho : o.Recordable)
    (hadder : o.adder? = some actor) (h : actor.Spells s) : actor.isKey = true := by
  by_contra hkey
  exact hkey (ho.adder actor hadder (h.isOctets (by simpa using hkey)))

end Operation

namespace Deed

open Memory Collection

variable {ids : Nat → String} {o : Operation} {s t : Memory × Nat} {outcome : Except Failure Value}

/-- An operation leaves lists where there were lists. -/
theorem listed (h : Deed ids o s outcome t) (hs : s.1.Listed) : t.1.Listed := by
  cases h with
  | read h => exact hs
  | refused hissued he => exact hs
  | projectAdded hactor hread hitems =>
    exact (hs.write _ (Project.listed_fields _)).listing _ _ _ _ (Catalog.listed_newUser _ _ _)
  | projectUnlisted hactor hread hitems => exact hs.write _ (Project.listed_fields _)
  | proposalAdded hactor hproject hread hitems hothers =>
    exact ((hs.writeProposal _ _).listing _ _ _ _ (Catalog.listed_newUser _ _ _)).proposing _
      (hs.record hproject) _ _
  | proposalUnlisted hactor hproject hread hitems => exact hs.writeProposal _ _
  | proposerUnlisted hactor hproject hread hitems hothers =>
    exact (hs.writeProposal _ _).listing _ _ _ _ (Catalog.listed_newUser _ _ _)
  | changesInvalid hactor hproject howner hnames hread => exact hs
  | @projectChanged m n actor id record changed p hactor hproject howner hnames hread =>
    have hkeys : Fields.keys (Catalog.revision changed p) = Fields.keys changed := by
      simp [Fields.keys, Catalog.revision]
    exact hs.write _ ((hs.record hproject).putAll (hkeys ▸ hnames))
  | projectDeleted hactor hproject howner hitems => exact (hs.unlisting _ _ _).without _ _
  | freelancerHired hproject hproposal hothers =>
    exact (hs.writeProposal _ _).write _ ((hs.record hproject).put "freelancers" _)
  | freelancerUnlisted hproject hproposal hothers => exact hs.writeProposal _ _

/-- Where there are lists, all that an operation reads is read before it writes. -/
theorem memory_eq_of_error {e : Failure} (h : Deed ids o s (.error e) t) (ho : o.Recordable)
    (hs : s.1.Listed) : t.1 = s.1 := by
  cases h with
  | read h => rfl
  | refused hissued he => rfl
  | changesInvalid hactor hproject howner hnames hread => rfl
  | projectUnlisted hactor hread hitems =>
    obtain ⟨-, hspells, -⟩ := Project.readFields_new hread
    obtain ⟨items, hok⟩ := hs.exists_userItems (ho.isKey_of_spells rfl hspells)
      (show "projects" ∈ Catalog.listFields Collection.users by decide)
    rw [hok] at hitems
    cases hitems
  | proposalUnlisted hactor hproject hread hitems =>
    obtain ⟨-, -, ⟨a, hspells, -⟩, -⟩ := Proposal.readFields_new hread hactor
    obtain ⟨items, hok⟩ := hs.exists_userItems (ho.isKey_of_spells rfl hspells)
      (show "proposals" ∈ Catalog.listFields Collection.users by decide)
    rw [hok] at hitems
    cases hitems
  | proposerUnlisted hactor hproject hread hitems hothers =>
    obtain ⟨others, hok⟩ := Catalog.exists_itemsOf (hs.record hproject "proposers" (by decide))
    rw [hok] at hothers
    cases hothers
  | freelancerUnlisted hproject hproposal hothers =>
    obtain ⟨others, hok⟩ := Catalog.exists_itemsOf (hs.record hproject "freelancers" (by decide))
    rw [hok] at hothers
    cases hothers

end Deed

/-- Where a list is a number the call fails once the project is stored. -/
example :
    let m : Memory := .holding [("users", [⟨.text "U1", [("id", .text "U1"), ("projects", .int 5)]⟩])]
    let o := Operation.addProject (.text "U1") (.text "Site") .null .null .null
    let t := o.program.run (Board.withIds longerIds Memory.handle) (m, 0)
    t.1 = .error (.fault .wrongKind) ∧ (t.2.1.contents "projects").length = 1 := ⟨rfl, rfl⟩

end FreelanceBoard
