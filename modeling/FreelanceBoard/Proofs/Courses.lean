import FreelanceBoard.Proofs.Trails

/-! What each mutation of the catalog amounts to while another operation is under way: the moves that
it makes, in their order. -/
namespace FreelanceBoard

namespace Move

abbrev post (p : Project) : Move := put .project (.text p.id) ⟨p, [], []⟩

abbrev file (r : Proposal) : Move := put .proposal (.text r.id) r

abbrev list (owner : Name) (project : String) : Move :=
  enter .user owner ⟨owner, [], []⟩ fun u => { u with projects := u.projects ++ [project] }

abbrev listProposal (actor : Name) (proposal : String) : Move :=
  enter .user actor ⟨actor, [], []⟩ fun u => { u with proposals := u.proposals ++ [proposal] }

abbrev unlist (owner project : String) : Move :=
  alter .user (.text owner) fun u => { u with projects := u.projects.erase project }

abbrev propose (project : String) (actor : Name) : Move :=
  alter .project (.text project) fun q => q.withProposer actor

abbrev revise (project : String) (names : List String) (p : Project) : Move :=
  alter .project (.text project) fun q => q.taking names p

abbrev accept (proposal : String) : Move :=
  alter .proposal (.text proposal) fun r => { r with verdict := some "hired" }

abbrev hire (project : String) (freelancer : Value) : Move :=
  alter .project (.text project) fun q => q.hiring freelancer

abbrev withdraw (project : String) : Move := remove .project (.text project)

/-- Finds a project or a proposal, whatever it is like. -/
abbrev seek (k : Kind) (i : String) : Move := look k (.text i) fun _ => True

/-- Finds a project of a given owner. -/
abbrev seekOwned (project owner : String) : Move :=
  look .project (.text project) fun q => q.owner = owner

/-- Finds a project of a given owner that can be read. -/
abbrev seekReadable (project owner : String) : Move :=
  look .project (.text project) fun q => q.owner = owner ∧ q.Readable

end Move

open Move

/-- The moves of a mutation that is issued an id. -/
inductive Course (id : String) : Operation → List Move → Prop
  | addProject {actor : Name} {title scope budget skills : Value} {p : Project}
      (hactor : actor.value.truthy = true)
      (hread : Project.readFields (Catalog.newProject id actor.value title scope budget skills) =
        .valid p) :
      Course id (.addProject actor.value title scope budget skills) [post p, list actor id]
  /-- Someone who is a proposer already, is seen to be one when the project is looked up. -/
  | addProposal {actor : Name} {project : String} {letter budget : Value} {r : Proposal}
      {xs : List Move} (hactor : actor.value.truthy = true)
      (hread : Proposal.readFields
        (Catalog.newProposal id actor.value (.text project) letter budget) = .valid r)
      (hxs : xs = [seek .project project, file r, listProposal actor id, propose project actor] ∨
        xs = [seek .project project, propose project actor, file r, listProposal actor id]) :
      Course id (.addProposal actor.value (.text project) letter budget) xs
  | updateProject {owner project : String} {changed : Fields} {q : Posting} {p : Project}
      (howner : owner ≠ "") (hlocked : Catalog.refuseLocked (.object changed) = .done ())
      (hread : Project.readFields (q.fields.putAll changed) = .valid p) :
      Course id (.updateProject (.text owner) (.text project) (.object changed))
        [seekReadable project owner, revise project (Fields.keys changed) p]
  | deleteProject {owner project : String} (howner : owner ≠ "") :
      Course id (.deleteProject (.text owner) (.text project))
        [seekOwned project owner, unlist owner project, withdraw project]
  | hireFreelancer {project proposal : String} {freelancer : Value} :
      Course id (.hireFreelancer (.text project) (.text proposal) freelancer)
        [seek .project project, seek .proposal proposal, accept proposal, hire project freelancer]

namespace Traced

open Collection

variable {id : String} {s : Trail}

theorem appendProject {actor : Name} {i : String} {Q : Unit → Trail → Prop}
    (h : ∀ v : Trail, s.events ⊆ v.events → v.moves = s.moves ++ [list actor i] → Q () v) :
    Traced id (Catalog.appendToUser actor.value "projects" i (Catalog.ownerRecord actor.value i)) s
      Q := by
  let extend : Account → Account := fun u => { u with projects := u.projects ++ [i] }
  have hname : ∀ u, (extend u).name = u.name := fun _ => rfl
  exact appendToUser (by decide) Account.get_projects (fun _ => rfl) hname (fun _ => rfl) h

theorem appendProposal {actor : Name} {i : String} {Q : Unit → Trail → Prop}
    (h : ∀ v : Trail, s.events ⊆ v.events → v.moves = s.moves ++ [listProposal actor i] → Q () v) :
    Traced id (Catalog.appendToUser actor.value "proposals" i (Catalog.proposerRecord actor.value i)) s
      Q := by
  let extend : Account → Account := fun u => { u with proposals := u.proposals ++ [i] }
  have hname : ∀ u, (extend u).name = u.name := fun _ => rfl
  exact appendToUser (by decide) Account.get_proposals (fun _ => rfl) hname (fun _ => rfl) h

/-- No list of anyone is extended who is not a name. -/
theorem appendToUser_of_ne_value {actor : Value} {field i : String} {first : Fields}
    {Q : Unit → Trail → Prop} (hactor : actor.isKey = false) :
    Traced id (Catalog.appendToUser actor field i first) s Q := by
  refine bind (bind (call fun m D r m' _ _ hcall => ?_))
  rw [Memory.handle, Memory.lookup, hactor] at hcall
  cases hcall

theorem insert {k : Kind} {a : k.Item} (ha : k.plain a = a) {Q : Value → Trail → Prop}
    (h : ∀ r m, Q r (s.and (.insert k.collection (k.fields a)) m [put k (k.key a) a])) :
    Traced id (Catalog.insert k.collection (k.fields a)) s Q := by
  refine answered fun m D hD _ => ?_
  obtain ⟨t, hinsert, ht⟩ := hD.insert k a
  rw [ha] at ht
  exact ⟨_, t, hinsert, _, _, .put, ht, h _ m⟩

theorem addProject (actor title scope budget skills : Value) :
    Traced id (Catalog.addProject actor title scope budget skills) .start
      fun _ s => Course id (.addProject actor title scope budget skills) s.moves := by
  refine bind (requireActor fun hactor => bind (freshId (bind (checked fun p hread => ?_))))
  obtain ⟨-, hspells, -, hfreelancers, hproposers⟩ := Project.readFields_new hread
  have hplain : Posting.plain ⟨p, [], []⟩ = ⟨p, [], []⟩ := Posting.plain_eq_self hfreelancers hproposers
  have hfields : p.fields = Posting.fields ⟨p, [], []⟩ := by
    rw [Posting.fields, Project.fields, hfreelancers, hproposers]
    rfl
  rw [hfields]
  refine bind (insert (k := .project) hplain fun _ m => bind ?_)
  cases hkey : actor.isKey with
  | true =>
    obtain ⟨u, rfl, -⟩ := Name.exists_of_spells hspells hkey
    refine appendProject fun v _ hmoves => done ?_
    rw [hmoves]
    exact .addProject hactor hread
  | false => exact appendToUser_of_ne_value hkey

/-- What an update finds in a shared list of a project is what was found there when the project was
looked up. -/
theorem get_of_found {c : StoreCall} {m m' : Memory} {D D' : Desk} {i : Name} {q q' : Posting}
    (field : String) (h : Event.Undisturbed ⟨.findById projects i.value, m⟩ ⟨c, m'⟩)
    (hsets : c.Sets projects i.value field) (hfield : field ∈ sharedLists) (hD : m.Shows D)
    (hq : D ⟨.project, i⟩ = some q) (hD' : m'.Shows D') (hq' : D' ⟨.project, i⟩ = some q') :
    Fields.get q'.fields field = Fields.get q.fields field := by
  refine (h.get_eq (k := .project) field ⟨rfl, rfl⟩ hfield hsets hD' hq').trans ?_
  rw [hD.listAt, hq]
  rfl

/-- A proposer is appended to what the list has at that moment. -/
theorem updateProposers {actor : Name} {m : Memory} {D : Desk} {q : Posting} (hD : m.Shows D)
    (hq : D ⟨.project, .text q.id⟩ = some q)
    (hevent : ⟨.findById projects (.text q.id), m⟩ ∈ s.events) (hmem : actor ∉ q.proposed)
    {Q : Option Value → Trail → Prop} (h : ∀ r v, v.moves = s.moves ++ [propose q.id actor] → Q r v) :
    Traced id (Catalog.update projects (.text q.id)
      [("proposers", .list (q.proposed.map Name.value ++ [actor.value]))]) s Q := by
  refine update (k := .project) (i := .text q.id) (f := fun q : Posting => q.withProposer actor)
    (fun q => congrArg Name.text (q.id_withProposer actor)) (fun q => q.plain_withProposer actor)
    (fun m' D' q' hD' hq' hundisturbed => ?_) fun r _ => h r _ rfl
  have hfound := get_of_found (i := .text q.id) "proposers" (hundisturbed _ hevent)
    ⟨rfl, rfl, List.mem_singleton_self _⟩ (by decide) hD hq hD' hq'
  rw [q'.get_proposers, q.get_proposers] at hfound
  have hsame : q'.proposed = q.proposed := Name.value_injective.list_map (Value.list.inj hfound)
  rw [← hsame] at hmem ⊢
  exact (Posting.fields_withProposer hmem).symm

theorem addProposal (actor project letter budget : Value) :
    Traced id (Catalog.addProposal actor project letter budget) .start
      fun _ s => Course id (.addProposal actor project letter budget) s.moves := by
  refine bind (requireActor fun hactor => bind (getProject fun m D q hD hproject hq => ?_))
  subst hproject
  cases hread : Proposal.readFields (Catalog.newProposal id actor (.text q.id) letter budget) with
  | invalid issues =>
    refine ⟨[], rfl, bind (freshId (bind (checked fun r hvalid => ?_)))⟩
    rw [hread] at hvalid
    cases hvalid
  | valid r =>
    obtain ⟨-, -, ⟨a, hspells, -⟩, -⟩ := Proposal.readFields_new hread hactor
    have hseek : Runs [seek .project q.id] D D := .look hq trivial
    cases hkey : actor.isKey with
    | false =>
      refine ⟨_, hseek, bind (freshId (bind (checked fun r' _ => ?_)))⟩
      exact bind (insert (k := .proposal) rfl fun _ _ => bind (appendToUser_of_ne_value hkey))
    | true =>
      obtain ⟨u, rfl, -⟩ := Name.exists_of_spells hspells hkey
      have hcourse := fun xs => @Course.addProposal id u q.id letter budget r xs hactor hread
      by_cases hmem : u ∈ q.proposed
      · have hpropose : Runs [propose q.id u] D D := .alter_same hq (if_pos hmem)
        refine ⟨_, hseek.append hpropose, bind (freshId (bind (checked fun r' hvalid => ?_)))⟩
        obtain rfl := Checked.valid.inj (hread.symm.trans hvalid)
        refine bind (insert (k := .proposal) rfl fun _ m' => ?_)
        refine bind (appendProposal fun v _ hmoves => ?_)
        refine bind (attempt fun vs hvs => ?_)
        obtain rfl := Except.ok.inj ((Gives.itemsOf_proposers q).symm.trans hvs)
        rw [if_pos (Name.memberOf_names.2 hmem)]
        exact done (hmoves ▸ hcourse _ (.inr rfl))
      · refine ⟨_, hseek, bind (freshId (bind (checked fun r' hvalid => ?_)))⟩
        obtain rfl := Checked.valid.inj (hread.symm.trans hvalid)
        refine bind (insert (k := .proposal) rfl fun _ m' => ?_)
        refine bind (appendProposal fun v hevents hmoves => ?_)
        refine bind (attempt fun vs hvs => ?_)
        obtain rfl := Except.ok.inj ((Gives.itemsOf_proposers q).symm.trans hvs)
        rw [if_neg fun h => hmem (Name.memberOf_names.1 h)]
        refine bind (updateProposers hD hq (hevents ?_) hmem fun _ w hmoves' => done ?_)
        · exact Trail.mem_and_of_mem Trail.mem_and
        · rw [hmoves', hmoves]
          exact hcourse _ (.inl rfl)

/-- What comes of the freelancers as they are at that moment. -/
theorem updateFreelancers {m : Memory} {D : Desk} {q : Posting} (hD : m.Shows D)
    (hq : D ⟨.project, .text q.id⟩ = some q)
    (hevent : ⟨.findById projects (.text q.id), m⟩ ∈ s.events) (freelancer : Value)
    {Q : Option Value → Trail → Prop} (h : ∀ r v, v.moves = s.moves ++ [hire q.id freelancer] → Q r v) :
    Traced id (Catalog.update projects (.text q.id)
      [("freelancers", .list (if freelancer.memberOf q.hired then q.hired
        else q.hired ++ [freelancer]))]) s Q := by
  refine update (k := .project) (i := .text q.id) (f := fun q : Posting => q.hiring freelancer)
    (fun q => congrArg Name.text (q.id_hiring freelancer)) (fun q => q.plain_hiring freelancer)
    (fun m' D' q' hD' hq' hundisturbed => ?_) fun r _ => h r _ rfl
  have hfound := get_of_found (i := .text q.id) "freelancers" (hundisturbed _ hevent)
    ⟨rfl, rfl, List.mem_singleton_self _⟩ (by decide) hD hq hD' hq'
  rw [q'.get_freelancers, q.get_freelancers] at hfound
  have hsame : q'.hired = q.hired := Value.list.inj hfound
  rw [← hsame]
  exact (q'.fields_hiring freelancer).symm

theorem hireFreelancer (project proposal freelancer : Value) :
    Traced id (Catalog.hireFreelancer project proposal freelancer) .start
      fun _ s => Course id (.hireFreelancer project proposal freelancer) s.moves := by
  refine bind (getProject fun m D q hD hproject hq => ?_)
  subst hproject
  refine ⟨[seek .project q.id], .look hq trivial, bind (getProposal fun m' D' r hD' hproposal hr => ?_)⟩
  subst hproposal
  refine ⟨[seek .proposal r.id], .look hr trivial, bind ?_⟩
  refine update (k := .proposal) (i := .text r.id) (f := fun r => { r with verdict := some "hired" })
    (fun _ => rfl) (fun _ => rfl) (fun _ _ _ _ _ _ => rfl) fun reply m'' => ?_
  cases reply with
  | none => exact failed
  | some _ =>
    refine bind (attempt fun vs hvs => ?_)
    obtain rfl := Except.ok.inj ((Gives.itemsOf_freelancers q).symm.trans hvs)
    refine updateFreelancers hD hq ?_ freelancer fun _ v hmoves => ?_
    · exact Trail.mem_and_of_mem (Trail.mem_and_of_mem Trail.mem_and)
    · rw [hmoves]
      exact .hireFreelancer

/-- A project that belongs to the actor. -/
theorem ownedProject {actor v : Value} {Q : Value → Trail → Prop}
    (h : ∀ m D (q : Posting), m.Shows D → actor = .text q.owner → v = .text q.id →
      D ⟨.project, .text q.id⟩ = some q →
        ∃ xs, Runs xs D D ∧ Q q.toDocument (s.and (.findById projects v) m xs)) :
    Traced id (Catalog.ownedProject actor v) s Q := by
  refine bind (getProject fun m D q hD hproject hq => ?_)
  have howner : q.toDocument.field "owner" = .ok (.text q.owner) := by
    rw [Posting.toDocument, Value.field, q.get_fields (by decide)]
    rfl
  by_cases hactor : actor = .text q.owner
  · obtain ⟨xs, hxs, hQ⟩ := h m D q hD hactor hproject hq
    refine ⟨xs, hxs, bind (attempt fun w hw => ?_)⟩
    obtain rfl := Except.ok.inj (howner.symm.trans hw)
    rw [if_pos (Value.text_same_iff.2 hactor)]
    exact done hQ
  · refine ⟨[], rfl, bind (attempt fun w hw => ?_)⟩
    obtain rfl := Except.ok.inj (howner.symm.trans hw)
    rw [if_neg fun h => hactor (Value.text_same_iff.1 h)]
    exact failed

/-- A project is taken from what the list of its owner has at that moment. -/
theorem updateProjects {owner i : String} {m : Memory} {D : Desk} (hD : m.Shows D)
    (hevent : ⟨.findById users (.text owner), m⟩ ∈ s.events) {Q : Option Value → Trail → Prop}
    (h : ∀ r v, v.moves = s.moves ++ [unlist owner i] → Q r v) :
    Traced id (Catalog.update users (.text owner)
      [("projects", .texts ((D.user (.text owner)).projects.erase i))]) s Q := by
  refine update (k := .user) (i := .text owner)
    (f := fun u : Account => { u with projects := u.projects.erase i }) (fun _ => rfl) (fun _ => rfl) (fun m' D' u hD' hu hundisturbed => ?_) fun r _ => h r _ rfl
  have hfound := (hundisturbed _ hevent).get_eq (k := .user) "projects" ⟨rfl, rfl⟩ (by decide)
    ⟨rfl, rfl, List.mem_singleton_self _⟩ hD' hu
  have hread : m.listAt users (.text owner) "projects" = .texts (D.user (.text owner)).projects :=
    hD.listAt_user (fun _ => rfl) (fun _ => rfl) (.text owner)
  have hsame : u.projects = (D.user (.text owner)).projects :=
    Value.texts_injective (hfound.trans hread)
  rw [← hsame]
  rfl

theorem delete {i : String} {Q : Bool → Trail → Prop}
    (h : ∀ r v, v.moves = s.moves ++ [withdraw i] → Q r v) :
    Traced id (Board.onStore (Store.delete projects (.text i))) s Q :=
  call fun _ _ r _ hD _ hcall => ⟨_, _, .remove, hD.delete i hcall, h r _ rfl⟩

theorem deleteProject (actor project : Value) :
    Traced id (Catalog.deleteProject actor project) .start
      fun _ s => Course id (.deleteProject actor project) s.moves := by
  refine bind (requireActor fun hactor => bind (ownedProject fun m D q hD hown hproject hq => ?_))
  subst hproject
  subst hown
  have hcourse := @Course.deleteProject id q.owner q.id (Gives.truthy_text_ne hactor)
  refine ⟨[seekOwned q.id q.owner], .look hq rfl, bind ?_⟩
  refine userItems (u := .text q.owner) Account.get_projects (fun _ => rfl) fun m' D' hD' => ?_
  by_cases hmem : q.id ∈ (D'.user (.text q.owner)).projects
  · refine ⟨[], rfl, ?_⟩
    rw [if_pos (Value.text_memberOf_texts.2 hmem), Value.eraseSame_texts]
    refine bind (updateProjects hD' Trail.mem_and fun _ v hmoves => ?_)
    refine bind (delete fun _ w hmoves' => done ?_)
    rw [hmoves', hmoves]
    exact hcourse
  · have hunlist : Runs [unlist q.owner q.id] D' D' := by
      rw [Desk.user] at hmem
      cases hu : D' ⟨.user, .text q.owner⟩ with
      | none => exact .alter_none hu
      | some u =>
        rw [hu, Option.getD_some] at hmem
        have hsame : u.projects.erase q.id = u.projects := List.erase_of_not_mem hmem
        exact .alter_same hu (congrArg (fun ps => { u with projects := ps }) hsame)
    refine ⟨_, hunlist, ?_⟩
    rw [if_neg fun h => hmem (Value.text_memberOf_texts.1 h)]
    refine bind (delete fun _ w hmoves => done ?_)
    rw [hmoves]
    exact hcourse

theorem updateProject (actor project changes : Value) :
    Traced id (Catalog.updateProject actor project changes) .start
      fun _ s => Course id (.updateProject actor project changes) s.moves := by
  refine bind (requireActor fun hactor => bind (ownedProject fun m D q hD hown hproject hq => ?_))
  subst hproject
  subst hown
  obtain ⟨hlocked, hnames⟩ | ⟨e, hlocked⟩ := Gives.refuseLocked_cases changes
  · cases hchanged : Catalog.changedProject (.text q.id) q.toDocument changes with
    | error e =>
      refine ⟨[], rfl, ?_⟩
      rw [hlocked]
      exact bind (done (bind failed))
    | ok updates =>
      obtain ⟨changed, p, rfl, hread, rfl⟩ := Gives.changedProject_eq_ok hchanged
      have hreadable : q.Readable :=
        ⟨p.freelancers, (Posting.revised_of_readFields hread (hnames changed rfl)).hired⟩
      refine ⟨[seekReadable q.id q.owner], .look hq ⟨rfl, hreadable⟩, ?_⟩
      rw [hlocked]
      refine bind (done (bind (done ?_)))
      refine update (k := .project) (i := .text q.id)
        (f := fun q : Posting => q.taking (Fields.keys changed) p)
        (fun _ => rfl) (fun _ => rfl) (fun _ _ q' _ _ _ => ?_) fun _ _ => ?_
      · exact Posting.putAll_taking (hnames changed rfl) q'
      · exact .updateProject (Gives.truthy_text_ne hactor) hlocked hread
  · refine ⟨[], rfl, ?_⟩
    rw [hlocked]
    exact bind failed

end Traced

/-- Whatever else is done to the store, an undisturbed mutation keeps to its course. -/
theorem Operation.leaves_course (o : Operation) (ho : ¬ o.OnlyReads) (id : String) :
    Leaves (o.calls id) .start fun _ s => Course id o s.moves := by
  cases o with
  | addProposal actor project letter budget => exact Traced.addProposal actor project letter budget
  | addProject actor title scope budget skills =>
    exact Traced.addProject actor title scope budget skills
  | updateProject actor project changes =>
    exact Traced.bind (Traced.updateProject actor project changes)
  | deleteProject actor project => exact Traced.bind (Traced.deleteProject actor project)
  | hireFreelancer project proposal freelancer =>
    exact Traced.bind (Traced.hireFreelancer project proposal freelancer)
  | _ => exact absurd trivial ho

end FreelanceBoard
