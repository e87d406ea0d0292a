import FreelanceBoard.Catalog.Operation
import FreelanceBoard.Proofs.Documents
import FreelanceBoard.Proofs.Keyed
import Mathlib.Logic.Function.Basic

/-! The contents of a store that only the catalog has written: projects, users and proposals, each
under its id. What an operation can do to them is said once, by `Effect`. -/
namespace FreelanceBoard

theorem Project.mem_keys_of_editable {key : String} (h : key ∈ Catalog.editableFields) (p : Project) :
    key ∈ Fields.keys p.fields := by
  rw [p.keys_fields]
  exact (by decide : Catalog.editableFields ⊆ _) h

/-- A project as it is stored. Those who have made proposals for it and those who have been hired for it
are kept as they were given, and not read again. -/
structure Posting where
  project : Project
  proposed : List Name
  hired : List Value

namespace Posting

def id (q : Posting) : String := q.project.id

def owner (q : Posting) : String := q.project.owner

def fields (q : Posting) : Fields :=
  (q.project.fields.put "freelancers" (.list q.hired)).put "proposers"
    (.list (q.proposed.map Name.value))

def toDocument (q : Posting) : Value := .object q.fields

/-- With a further proposer, unless there is one of that name. -/
def withProposer (q : Posting) (actor : Name) : Posting :=
  if actor ∈ q.proposed then q else { q with proposed := q.proposed ++ [actor] }

def hiring (q : Posting) (freelancer : Value) : Posting :=
  if freelancer.memberOf q.hired then q else { q with hired := q.hired ++ [freelancer] }

theorem lookup_freelancers (q : Posting) : q.fields.lookup "freelancers" = some (.list q.hired) :=
  (Fields.lookup_put_of_ne _ _ (by decide)).trans (Fields.lookup_put_self _ _ _)

theorem lookup_proposers (q : Posting) :
    q.fields.lookup "proposers" = some (.list (q.proposed.map Name.value)) :=
  Fields.lookup_put_self _ _ _

theorem lookup_fields (q : Posting) {key : String} (h : key ∉ ["freelancers", "proposers"]) :
    q.fields.lookup key = q.project.fields.lookup key := by
  simp only [List.mem_cons, List.not_mem_nil, or_false, not_or] at h
  rw [fields, Fields.lookup_put_of_ne _ _ h.2, Fields.lookup_put_of_ne _ _ h.1]

theorem get_fields (q : Posting) {key : String} (h : key ∉ ["freelancers", "proposers"]) :
    Fields.get q.fields key = Fields.get q.project.fields key := by
  rw [Fields.get, q.lookup_fields h, Fields.get]

theorem get_freelancers (q : Posting) : Fields.get q.fields "freelancers" = .list q.hired :=
  Fields.get_of_lookup q.lookup_freelancers

theorem get_proposers (q : Posting) :
    Fields.get q.fields "proposers" = .list (q.proposed.map Name.value) :=
  Fields.get_of_lookup q.lookup_proposers

theorem lookup_id (q : Posting) : q.fields.lookup "id" = some (.text q.id) :=
  q.lookup_fields (by decide)

theorem get_id (q : Posting) : Fields.get q.fields "id" = .text q.id :=
  Fields.get_of_lookup q.lookup_id

theorem get_owner (q : Posting) : Fields.get q.fields "owner" = .text q.owner :=
  q.get_fields (by decide)

theorem keys_fields (q : Posting) : Fields.keys q.fields = Fields.keys q.project.fields := rfl

@[simp] theorem idName_fields (q : Posting) : Fields.idName q.fields = .text q.id :=
  Fields.idName_of_lookup q.lookup_id

@[simp] theorem id_withProposer (q : Posting) (actor : Name) : (q.withProposer actor).id = q.id := by
  rw [withProposer]
  split <;> rfl

@[simp] theorem owner_withProposer (q : Posting) (actor : Name) :
    (q.withProposer actor).owner = q.owner := by
  rw [withProposer]
  split <;> rfl

@[simp] theorem id_hiring (q : Posting) (freelancer : Value) : (q.hiring freelancer).id = q.id := by
  rw [hiring]
  split <;> rfl

@[simp] theorem owner_hiring (q : Posting) (freelancer : Value) :
    (q.hiring freelancer).owner = q.owner := by
  rw [hiring]
  split <;> rfl

theorem fields_withProposer {q : Posting} {actor : Name} (h : actor ∉ q.proposed) :
    (q.withProposer actor).fields =
      q.fields.put "proposers" (.list (q.proposed.map Name.value ++ [actor.value])) := by
  rw [withProposer, if_neg h, fields, List.map_append]
  rfl

/-- A freelancer is put into the record also where this changes nothing. -/
theorem fields_hiring (q : Posting) (freelancer : Value) :
    (q.hiring freelancer).fields = q.fields.put "freelancers" (.list
      (if freelancer.memberOf q.hired then q.hired else q.hired ++ [freelancer])) := by
  rw [hiring]
  split <;> rfl

/-- What a reading of a changed record has in common with the record: all that the catalog does not
let anyone change, as it is read, and each field that has not been changed. -/
structure Revised (q : Posting) (names : List String) (p : Project) : Prop where
  id : p.id = q.id
  owner : p.owner = q.owner
  published : p.isPublished = q.project.isPublished
  proposers : p.proposers = q.proposed.map Name.string
  hired : List.Forall₂ Value.Spells q.hired p.freelancers
  rest : ∀ key ∈ Fields.keys q.fields, key ∉ names →
    Fields.get q.fields key = Fields.get (fields { q with project := p }) key

theorem revised_of_readFields {q : Posting} {changed : Fields} {p : Project}
    (hread : Project.readFields (q.fields.putAll changed) = .valid p)
    (hnames : ∀ key ∈ Fields.keys changed, key ∈ Catalog.editableFields) :
    q.Revised (Fields.keys changed) p := by
  have hkeep : ∀ key ∈ Fields.keys q.project.fields, key ∉ ["freelancers", "proposers"] →
      key ∉ Fields.keys changed → Fields.get p.fields key = Fields.get q.project.fields key :=
    fun key hkey hread' hnew => Project.get_of_readFields hread hkey
      ((Fields.lookup_putAll_of_notMem hnew).trans (q.lookup_fields hread'))
  have hfixed : ∀ key ∈ Fields.keys q.project.fields, key ∉ ["freelancers", "proposers"] →
      key ∉ Catalog.editableFields → Fields.get p.fields key = Fields.get q.project.fields key :=
    fun key hkey hread' hlocked => hkeep key hkey hread' fun hmem => hlocked (hnames key hmem)
  have hid : Value.text p.id = .text q.id :=
    hfixed "id" (by simp) (by decide) (by decide)
  have howner : Value.text p.owner = .text q.owner :=
    hfixed "owner" (by simp) (by decide) (by decide)
  have hpublished : Value.bool p.isPublished = .bool q.project.isPublished :=
    hfixed "is_published" (by simp) (by decide) (by decide)
  have hunchanged : ∀ {key v}, key ∉ Catalog.editableFields → q.fields.lookup key = some v →
      (q.fields.putAll changed).lookup key = some v := fun hlocked hlookup =>
    (Fields.lookup_putAll_of_notMem fun hmem => hlocked (hnames _ hmem)).trans hlookup
  obtain ⟨-, -, -, -, -, -, -, -, hfreelancers, hproposers⟩ := Project.readFields_eq_valid_iff.1 hread
  rw [Fields.optionalTexts,
    Fields.optional_eq_valid_iff (hunchanged (by decide) q.lookup_freelancers)] at hfreelancers
  rw [Fields.optionalTexts,
    Fields.optional_eq_valid_iff (hunchanged (by decide) q.lookup_proposers)] at hproposers
  refine ⟨Value.text.inj hid, Value.text.inj howner, Value.bool.inj hpublished,
    Name.forall₂_spells_iff.1 (Reader.itemsFrom_laxText_eq_valid_iff.1 hproposers),
    Reader.itemsFrom_laxText_eq_valid_iff.1 hfreelancers, ?_⟩
  intro key hkey hnew
  by_cases hraw : key ∈ ["freelancers", "proposers"]
  · simp only [List.mem_cons, List.not_mem_nil, or_false] at hraw
    rcases hraw with rfl | rfl
    · rw [get_freelancers, get_freelancers]
    · rw [get_proposers, get_proposers]
  · rw [get_fields _ hraw, get_fields _ hraw]
    exact (hkeep key hkey hraw hnew).symm

/-- Setting the changed fields to what was read makes the record that of the reading. -/
theorem Revised.putAll_eq {q : Posting} {names : List String} {p : Project} (h : q.Revised names p)
    (hnames : ∀ key ∈ names, key ∈ Catalog.editableFields) :
    q.fields.putAll (names.map fun key => (key, Fields.get p.fields key)) =
      fields { q with project := p } := by
  have hread : ∀ key ∈ names, key ∉ ["freelancers", "proposers"] := fun key hkey hraw => by
    have hlocked : ∀ k ∈ ["freelancers", "proposers"], k ∉ Catalog.editableFields := by decide
    exact hlocked key hraw (hnames key hkey)
  have hmap : names.map (fun key => (key, Fields.get p.fields key)) =
      names.map fun key => (key, Fields.get (fields { q with project := p }) key) :=
    List.map_congr_left fun key hkey =>
      congrArg (Prod.mk key) (get_fields { q with project := p } (hread key hkey)).symm
  rw [hmap]
  refine Fields.putAll_get_eq rfl q.project.nodup_keys (fun key hkey => ?_) h.rest
  exact q.project.mem_keys_of_editable (hnames key hkey)

end Posting

/-- What is kept of a user, under the name that was given. -/
structure Account where
  name : Name
  projects : List String
  proposals : List String

namespace Account

def fields (u : Account) : Fields :=
  [("id", u.name.value), ("projects", .texts u.projects), ("proposals", .texts u.proposals)]

theorem get_projects (u : Account) : Fields.get u.fields "projects" = .texts u.projects := rfl

theorem get_proposals (u : Account) : Fields.get u.fields "proposals" = .texts u.proposals := rfl

theorem idName_fields (u : Account) : Fields.idName u.fields = u.name :=
  Fields.idName_of_lookup rfl

end Account

theorem Proposal.idName_fields (r : Proposal) : Fields.idName r.fields = .text r.id :=
  Fields.idName_of_lookup rfl

structure Ledger where
  postings : List Posting
  users : List Account
  proposals : List Proposal

namespace Ledger

def empty : Ledger := ⟨[], [], []⟩

/-- The records of each collection. -/
def contents (L : Ledger) (name : String) : List Fields :=
  if name = Collection.projects then L.postings.map Posting.fields
  else if name = Collection.users then L.users.map Account.fields
  else if name = Collection.proposals then L.proposals.map Proposal.fields
  else []

def posting? (L : Ledger) (id : String) : Option Posting := Keyed.find? Posting.id id L.postings

def proposal? (L : Ledger) (id : String) : Option Proposal := Keyed.find? Proposal.id id L.proposals

def user? (L : Ledger) (name : Name) : Option Account := Keyed.find? Account.name name L.users

/-- The user of a name; one who has no record has no projects and no proposals. -/
def user (L : Ledger) (name : Name) : Account := (L.user? name).getD ⟨name, [], []⟩

def withPosting (L : Ledger) (q : Posting) : Ledger :=
  { L with postings := Keyed.put Posting.id q L.postings }

def withUser (L : Ledger) (u : Account) : Ledger :=
  { L with users := Keyed.put Account.name u L.users }

def withProposal (L : Ledger) (r : Proposal) : Ledger :=
  { L with proposals := Keyed.put Proposal.id r L.proposals }

def withoutPosting (L : Ledger) (id : String) : Ledger :=
  { L with postings := Keyed.erase Posting.id id L.postings }

/-- A project added to the list of its owner. -/
def listing (L : Ledger) (owner : Name) (id : String) : Ledger :=
  L.withUser { L.user owner with projects := (L.user owner).projects ++ [id] }

def listingProposal (L : Ledger) (actor : Name) (id : String) : Ledger :=
  L.withUser { L.user actor with proposals := (L.user actor).proposals ++ [id] }

/-- A project taken from the list of its owner, if it is there. -/
def unlisting (L : Ledger) (owner : Name) (id : String) : Ledger :=
  if id ∈ (L.user owner).projects then
    L.withUser { L.user owner with projects := (L.user owner).projects.erase id }
  else L

@[simp] theorem contents_projects (L : Ledger) :
    L.contents Collection.projects = L.postings.map Posting.fields := rfl

@[simp] theorem contents_users (L : Ledger) :
    L.contents Collection.users = L.users.map Account.fields := rfl

@[simp] theorem contents_proposals (L : Ledger) :
    L.contents Collection.proposals = L.proposals.map Proposal.fields := rfl

theorem name_user (L : Ledger) (name : Name) : (L.user name).name = name := by
  rw [user]
  cases h : L.user? name with
  | none => rfl
  | some u => exact Keyed.key_of_find? h

theorem posting?_unlisting (L : Ledger) (owner : Name) (id id' : String) :
    (L.unlisting owner id).posting? id' = L.posting? id' := by
  rw [unlisting]
  split <;> rfl

theorem contents_withPosting (L : Ledger) (q : Posting) :
    (L.withPosting q).contents = Function.update L.contents Collection.projects
      (Keyed.put Fields.idName q.fields (L.contents Collection.projects)) := by
  funext name
  by_cases h : name = Collection.projects
  · rw [h, Function.update_self, contents_projects, contents_projects, withPosting,
      Keyed.map_put Name.text_injective fun _ _ => Posting.idName_fields _]
  · rw [Function.update_of_ne h]
    simp [contents, withPosting, h]

theorem contents_withUser (L : Ledger) (u : Account) :
    (L.withUser u).contents = Function.update L.contents Collection.users
      (Keyed.put Fields.idName u.fields (L.contents Collection.users)) := by
  funext name
  by_cases h : name = Collection.users
  · rw [h, Function.update_self, contents_users, contents_users, withUser,
      Keyed.map_put Function.injective_id fun _ _ => Account.idName_fields _]
  · rw [Function.update_of_ne h]
    simp [contents, withUser, h]

theorem contents_withProposal (L : Ledger) (r : Proposal) :
    (L.withProposal r).contents = Function.update L.contents Collection.proposals
      (Keyed.put Fields.idName r.fields (L.contents Collection.proposals)) := by
  funext name
  by_cases h : name = Collection.proposals
  · rw [h, Function.update_self, contents_proposals, contents_proposals, withProposal,
      Keyed.map_put Name.text_injective fun _ _ => Proposal.idName_fields _]
  · rw [Function.update_of_ne h]
    simp [contents, withProposal, h]

theorem contents_withoutPosting (L : Ledger) (id : String) :
    (L.withoutPosting id).contents = Function.update L.contents Collection.projects
      (Keyed.erase Fields.idName (.text id) (L.contents Collection.projects)) := by
  funext name
  by_cases h : name = Collection.projects
  · rw [h, Function.update_self, contents_projects, contents_projects, withoutPosting,
      Keyed.map_erase Name.text_injective fun _ _ => Posting.idName_fields _]
  · rw [Function.update_of_ne h]
    simp [contents, withoutPosting, h]

end Ledger

/-- What an operation can do to the contents of a store and to the number of ids that have been
issued. Reading changes nothing, and an operation that fails changes nothing either, but for an id
that it may have been issued, and for what it has stored for an actor who can have no record. -/
inductive Effect (ids : Nat → String) : Operation → Ledger × Nat → Ledger × Nat → Prop
  | nothing {o : Operation} {L : Ledger} {n m : Nat} (h : n ≤ m) : Effect ids o (L, n) (L, m)
  | projectAdded {L : Ledger} {n : Nat} {actor : Name} {title scope budget skills : Value} {p : Project}
      (hactor : p.owner ≠ "") (howner : actor.string = p.owner) (hid : p.id = ids n)
      (hpublished : p.isPublished = false) :
      Effect ids (.addProject actor.value title scope budget skills) (L, n)
        ((L.withPosting ⟨p, [], []⟩).listing actor p.id, n + 1)
  | projectUnlisted {L : Ledger} {n : Nat} {actor title scope budget skills : Value} {p : Project}
      (hkey : actor.isKey = false) (howner : actor.Spells p.owner) (hid : p.id = ids n) :
      Effect ids (.addProject actor title scope budget skills) (L, n)
        (L.withPosting ⟨p, [], []⟩, n + 1)
  | proposalAdded {L : Ledger} {n : Nat} {letter budget : Value} {actor : Name} {q : Posting}
      {r : Proposal} (hactor : actor.string ≠ "") (hq : L.posting? q.id = some q) (hid : r.id = ids n)
      (hproject : r.projectId = q.id) (hfreelancer : r.freelancerId = some actor.string)
      (hverdict : r.verdict = none) :
      Effect ids (.addProposal actor.value (.text q.id) letter budget) (L, n)
        (((L.withProposal r).listingProposal actor r.id).withPosting (q.withProposer actor), n + 1)
  | proposalUnlisted {L : Ledger} {n : Nat} {actor project letter budget : Value} {r : Proposal}
      {s : String} (hkey : actor.isKey = false) (hactor : actor.Spells s) (hid : r.id = ids n) :
      Effect ids (.addProposal actor project letter budget) (L, n) (L.withProposal r, n + 1)
  | projectChanged {L : Ledger} {n : Nat} {q : Posting} {changed : Fields} {p : Project}
      (hactor : q.owner ≠ "") (hq : L.posting? q.id = some q)
      (hrevised : q.Revised (Fields.keys changed) p)
      (hnames : ∀ key ∈ Fields.keys changed, key ∈ Catalog.editableFields) :
      Effect ids (.updateProject (.text q.owner) (.text q.id) (.object changed)) (L, n)
        (L.withPosting { q with project := p }, n)
  | projectDeleted {L : Ledger} {n : Nat} {q : Posting} (hactor : q.owner ≠ "")
      (hq : L.posting? q.id = some q) :
      Effect ids (.deleteProject (.text q.owner) (.text q.id)) (L, n)
        ((L.unlisting (.text q.owner) q.id).withoutPosting q.id, n)
  | freelancerHired {L : Ledger} {n : Nat} {q : Posting} {r : Proposal} {freelancer : Value}
      (hq : L.posting? q.id = some q) (hr : L.proposal? r.id = some r) :
      Effect ids (.hireFreelancer (.text q.id) (.text r.id) freelancer) (L, n)
        ((L.withProposal { r with verdict := some "hired" }).withPosting (q.hiring freelancer), n)

end FreelanceBoard
