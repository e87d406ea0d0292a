import FreelanceBoard.Proofs.Courses

/-! Mutations with nothing between their calls: where the moves of its course can be made one after
the other, a mutation makes them. -/
namespace FreelanceBoard

open Move

namespace Ledger

variable {L : Ledger} {k : Kind} {i : Name}

theorem desk_project (L : Ledger) (i : String) :
    L.desk ⟨.project, .text i⟩ = (L.posting? i).map Posting.plain :=
  congrArg (Option.map Posting.plain) (Keyed.find?_comp Name.text_injective i L.postings)

theorem desk_user (L : Ledger) (name : Name) : L.desk ⟨.user, name⟩ = L.user? name := Option.map_id'

theorem desk_proposal (L : Ledger) (i : String) : L.desk ⟨.proposal, .text i⟩ = L.proposal? i :=
  Option.map_id'.trans (Keyed.find?_comp Name.text_injective i L.proposals)

theorem user_desk (L : Ledger) (name : Name) : L.desk.user name = L.user name := by
  rw [Desk.user, desk_user, user]

theorem runs_put {a : k.Item} (ha : k.plain a = a) (hi : k.key a = i) :
    Runs [put k i a] L.desk (L.storing k a).desk := by
  rw [desk_storing, ha, hi]
  exact .put

theorem runs_alter {f : k.Item → k.Item} {a : k.Item} (hkey : k.key (f a) = i)
    (hplain : k.plain (f a) = f (k.plain a)) (ha : L.desk ⟨k, i⟩ = some (k.plain a)) :
    Runs [alter k i f] L.desk (L.storing k (f a)).desk := by
  rw [desk_storing, hkey, hplain]
  exact .alter ha

theorem runs_enter (L : Ledger) (name : Name) {f : Account → Account} (hname : ∀ v, (f v).name = v.name) :
    Runs [enter .user name ⟨name, [], []⟩ f] L.desk (L.withUser (f (L.user name))).desk := by
  have hdesk : (L.withUser (f (L.user name))).desk =
      Function.update L.desk ⟨.user, (f (L.user name)).name⟩ (some (f (L.user name))) :=
    L.desk_storing .user (f (L.user name))
  rw [hdesk, hname, L.name_user]
  exact .enter (L.user_desk name)

theorem runs_unlisting (L : Ledger) (owner project : String) :
    Runs [unlist owner project] L.desk (L.unlisting (.text owner) project).desk := by
  cases hu : L.user? (.text owner) with
  | none =>
    have hnone : L.desk ⟨.user, .text owner⟩ = none := (L.desk_user _).trans hu
    have hmem : project ∉ (L.user (.text owner)).projects := by
      rw [user, hu]
      exact List.not_mem_nil
    rw [unlisting, if_neg hmem]
    exact .alter_none hnone
  | some u =>
    have hsome : L.desk ⟨.user, .text owner⟩ = some u := (L.desk_user _).trans hu
    have huser : L.user (.text owner) = u := by rw [user, hu, Option.getD_some]
    rw [unlisting, huser]
    by_cases hmem : project ∈ u.projects
    · rw [if_pos hmem]
      have hkey : u.name = .text owner := Keyed.key_of_find? hu
      exact runs_alter (k := .user) hkey rfl hsome
    · have hsame : u.projects.erase project = u.projects := List.erase_of_not_mem hmem
      rw [if_neg hmem]
      exact .alter_same hsome (congrArg (fun ps => { u with projects := ps }) hsame)

theorem runs_withoutPosting (L : Ledger) (id : String) :
    Runs [withdraw id] L.desk (L.withoutPosting id).desk := by
  rw [desk_withoutPosting]
  exact .remove

theorem desk_posting {q : Posting} (hq : L.posting? q.id = some q) :
    L.desk ⟨.project, .text q.id⟩ = some q.plain := by
  rw [desk_project, hq, Option.map_some]

theorem runs_posting {f : Posting → Posting} {q : Posting} (hid : (f q).id = q.id)
    (hplain : (f q).plain = f q.plain) (hq : L.posting? q.id = some q) :
    Runs [alter .project (.text q.id) f] L.desk (L.withPosting (f q)).desk :=
  runs_alter (k := .project) (congrArg Name.text hid) hplain (desk_posting hq)

/-- What a look that comes first has found. -/
theorem posting_of_runs {project : String} {g : Posting → Prop} {xs : List Move} {E : Desk}
    (h : Runs (look .project (.text project) g :: xs) L.desk E) :
    ∃ q : Posting, L.posting? q.id = some q ∧ q.id = project ∧ g q.plain := by
  obtain ⟨_, ⟨⟨a, ha, hg⟩, -⟩, -⟩ := h
  obtain ⟨q, hq, rfl⟩ := Option.map_eq_some_iff.1 ((L.desk_project project).symm.trans ha)
  have hkey : q.id = project := Keyed.key_of_find? hq
  exact ⟨q, by rw [hkey]; exact hq, hkey, hg⟩

theorem Distinct.unlisting (h : L.Distinct) (owner : Name) (project : String) :
    (L.unlisting owner project).Distinct := by
  rw [Ledger.unlisting]
  split
  · exact h.storing .user _
  · exact h

end Ledger

namespace Operation

/-- From any store that shows the one desk, an operation leads to a store that shows the other. -/
def Yields (o : Operation) (id : String) (D E : Desk) : Prop :=
  ∀ m : Memory, m.Shows D → (o.after id m).Shows E

variable {o : Operation} {id : String} {L : Ledger}

variable {D E : Desk}

/-- An operation that leads to a ledger, where moves lead to its desk. -/
theorem shows_of_gives {outcome : Except Failure Value} {last : Ledger × Nat} {m : Memory}
    {xs : List Move} (h : Gives (fun _ => True) (fun _ => id) o.program (L, 0) (· = outcome) last)
    (hm : m.Holds L.contents) (hlast : last.1.Distinct) (hmade : Runs xs L.desk last.1.desk)
    (hruns : Runs xs L.desk E) : (o.after id m).Shows E := by
  obtain ⟨_, t, hrun, ht, -⟩ := h Memory.serves m hm
  obtain ⟨n, hissuing⟩ := Board.run_issuing Memory.handle o.program m 0
  obtain rfl : o.after id m = t := congrArg (fun r => r.2.1) (hissuing.symm.trans hrun)
  exact ⟨last.1, ht, hlast, hmade.unique hruns⟩

theorem yields_addProject {actor : Name} {title scope budget skills : Value} {p : Project}
    (hactor : actor.value.truthy = true)
    (hread : Project.readFields (Catalog.newProject id actor.value title scope budget skills) = .valid p)
    (hruns : Runs [post p, list actor id] D E) :
    (addProject actor.value title scope budget skills).Yields id D E := by
  rintro m ⟨L, hm, hdistinct, rfl⟩
  have hgives : Gives (fun _ => True) (fun _ => id)
      (addProject actor.value title scope budget skills).program (L, 0) (· = .ok p.toDocument)
      ((L.withPosting ⟨p, [], []⟩).listing actor p.id, 1) :=
    Gives.addProject_listed (fun _ => trivial) hactor trivial hread
  obtain ⟨hid, -, -, hfreelancers, hproposers⟩ := Project.readFields_new hread
  have hplain : Posting.plain ⟨p, [], []⟩ = ⟨p, [], []⟩ := Posting.plain_eq_self hfreelancers hproposers
  have hmade : Runs [post p, list actor p.id] L.desk
      ((L.withPosting ⟨p, [], []⟩).listing actor p.id).desk :=
    (L.runs_put (k := .project) hplain rfl).append
      ((L.withPosting ⟨p, [], []⟩).runs_enter actor fun _ => rfl)
  rw [← hid] at hruns
  exact shows_of_gives hgives hm ((hdistinct.storing .project _).storing .user _) hmade hruns

theorem yields_addProposal {actor : Name} {project : String} {letter budget : Value} {r : Proposal}
    (hactor : actor.value.truthy = true)
    (hread : Proposal.readFields (Catalog.newProposal id actor.value (.text project) letter budget) =
      .valid r)
    (hruns : Runs [seek .project project, file r, listProposal actor id, propose project actor] D E) :
    (addProposal actor.value (.text project) letter budget).Yields id D E := by
  rintro m ⟨L, hm, hdistinct, rfl⟩
  obtain ⟨q, hq, rfl, -⟩ := Ledger.posting_of_runs hruns
  have hgives : Gives (fun _ => True) (fun _ => id)
      (addProposal actor.value (.text q.id) letter budget).program (L, 0) (· = .ok r.toDocument)
      (((L.withProposal r).listingProposal actor r.id).withPosting (q.withProposer actor), 1) :=
    Gives.addProposal_listed (fun _ => trivial) hactor trivial hq hread
  obtain ⟨hid, -, -, -⟩ := Proposal.readFields_new hread hactor
  have hseek : Runs [seek .project q.id] L.desk L.desk := .look (Ledger.desk_posting hq) trivial
  have hfile : Runs [file r] L.desk (L.withProposal r).desk := L.runs_put (k := .proposal) rfl rfl
  have hlist : Runs [listProposal actor r.id] (L.withProposal r).desk
      ((L.withProposal r).listingProposal actor r.id).desk := Ledger.runs_enter _ actor fun _ => rfl
  have hpropose : Runs [propose q.id actor] ((L.withProposal r).listingProposal actor r.id).desk
      (((L.withProposal r).listingProposal actor r.id).withPosting (q.withProposer actor)).desk :=
    Ledger.runs_posting (f := fun q => q.withProposer actor) (q.id_withProposer actor)
      (q.plain_withProposer actor) hq
  have hmade : Runs [seek .project q.id, file r, listProposal actor r.id, propose q.id actor] L.desk
      (((L.withProposal r).listingProposal actor r.id).withPosting (q.withProposer actor)).desk :=
    ((hseek.append hfile).append hlist).append hpropose
  rw [← hid] at hruns
  exact shows_of_gives hgives hm
    (((hdistinct.storing .proposal _).storing .user _).storing .project _) hmade hruns

theorem yields_updateProject {owner project : String} {changed : Fields} {q : Posting} {p : Project}
    (howner : owner ≠ "") (hlocked : Catalog.refuseLocked (.object changed) = .done ())
    (hread : Project.readFields (q.fields.putAll changed) = .valid p)
    (hruns : Runs [seekReadable project owner, revise project (Fields.keys changed) p] D E) :
    (updateProject (.text owner) (.text project) (.object changed)).Yields id D E := by
  rintro m ⟨L, hm, hdistinct, rfl⟩
  obtain ⟨q', hq', rfl, howned, hplain⟩ := Ledger.posting_of_runs hruns
  obtain rfl : q'.owner = owner := howned
  have hreadable : q'.Readable := hplain
  obtain ⟨-, hnames⟩ | ⟨e, hrefused⟩ := Gives.refuseLocked_cases (.object changed)
  · have hnames := hnames changed rfl
    obtain ⟨p', hread', htaking⟩ := Posting.readFields_taking hread hnames hreadable
    have hrevised := Posting.revised_of_readFields hread' hnames
    have hgives : Gives (fun _ => True) (fun _ => id)
        (updateProject (.text q'.owner) (.text q'.id) (.object changed)).program (L, 0)
        (· = .ok (Posting.toDocument { q' with project := p' }))
        (L.withPosting { q' with project := p' }, 0) :=
      (Gives.updateProject_valid (fun _ => trivial) howner hq' hlocked hnames hread').map _
    have hseek : Runs [seekReadable q'.id q'.owner] L.desk L.desk :=
      .look (Ledger.desk_posting hq') ⟨rfl, hreadable⟩
    have hrevise : Runs [revise q'.id (Fields.keys changed) p] L.desk
        (L.withPosting { q' with project := p' }).desk := by
      have hdesk : (L.withPosting { q' with project := p' }).desk = Function.update L.desk
          ⟨.project, .text p'.id⟩ (some (Posting.plain { q' with project := p' })) :=
        L.desk_storing .project _
      rw [hdesk, htaking, hrevised.id]
      exact .alter (Ledger.desk_posting hq')
    exact shows_of_gives hgives hm (hdistinct.storing .project _) (hseek.append hrevise) hruns
  · rw [hlocked] at hrefused
    cases hrefused

theorem yields_deleteProject {owner project : String} (howner : owner ≠ "")
    (hruns : Runs [seekOwned project owner, unlist owner project, withdraw project] D E) :
    (deleteProject (.text owner) (.text project)).Yields id D E := by
  rintro m ⟨L, hm, hdistinct, rfl⟩
  obtain ⟨q, hq, rfl, howned⟩ := Ledger.posting_of_runs hruns
  obtain rfl : q.owner = owner := howned
  have hgives : Gives (fun _ => True) (fun _ => id)
      (deleteProject (.text q.owner) (.text q.id)).program (L, 0) (· = .ok .null)
      ((L.unlisting (.text q.owner) q.id).withoutPosting q.id, 0) :=
    (Gives.deleteProject_owned (fun _ => trivial) howner hq).map _
  have hseek : Runs [seekOwned q.id q.owner] L.desk L.desk := .look (Ledger.desk_posting hq) rfl
  have hmade : Runs [seekOwned q.id q.owner, unlist q.owner q.id, withdraw q.id] L.desk
      ((L.unlisting (.text q.owner) q.id).withoutPosting q.id).desk :=
    (hseek.append (L.runs_unlisting q.owner q.id)).append (Ledger.runs_withoutPosting _ q.id)
  exact shows_of_gives hgives hm ((hdistinct.unlisting (.text q.owner) q.id).withoutPosting q.id) hmade hruns

/-- Deleting a project that is not there leaves all as it is. -/
theorem yields_deleteProject_missing {project : String} (actor : Value)
    (hnone : D ⟨.project, .text project⟩ = none) :
    (deleteProject actor (.text project)).Yields id D D := by
  rintro m ⟨L, hm, hdistinct, rfl⟩
  have hends : ∃ outcome last, Effect (fun _ => id) (deleteProject actor (.text project)) (L, 0) last ∧
      Gives (fun _ => True) (fun _ => id) (deleteProject actor (.text project)).program (L, 0)
        (· = outcome) last :=
    gives_effect (fun _ => trivial) _ L 0 trivial fun h => h
  obtain ⟨outcome, last, heffect, hgives⟩ := hends
  cases heffect with
  | nothing h =>
    have hnothing : Runs [] L.desk L.desk := rfl
    exact shows_of_gives hgives hm hdistinct hnothing hnothing
  | projectDeleted _ hq =>
    rw [Ledger.desk_posting hq] at hnone
    cases hnone

theorem yields_hireFreelancer {project proposal : String} {freelancer : Value}
    (hruns : Runs [seek .project project, seek .proposal proposal, accept proposal,
      hire project freelancer] D E) :
    (hireFreelancer (.text project) (.text proposal) freelancer).Yields id D E := by
  rintro m ⟨L, hm, hdistinct, rfl⟩
  obtain ⟨q, hq, rfl, -⟩ := Ledger.posting_of_runs hruns
  have hseek : Runs [seek .project q.id] L.desk L.desk := .look (Ledger.desk_posting hq) trivial
  obtain ⟨r, hr, rfl⟩ : ∃ r : Proposal, L.proposal? r.id = some r ∧ r.id = proposal := by
    obtain ⟨E', hfirst, ⟨_, ⟨⟨r, hr, -⟩, -⟩, -⟩⟩ := hruns
    have hfirst : Runs [seek .project q.id] L.desk E' := ⟨E', hfirst, rfl⟩
    obtain rfl := hfirst.unique hseek
    have hfound : L.proposal? proposal = some r := (L.desk_proposal proposal).symm.trans hr
    have hkey : r.id = proposal := Keyed.key_of_find? hfound
    exact ⟨r, by rw [hkey, hfound], hkey⟩
  have hfound : L.desk ⟨.proposal, .text r.id⟩ = some r := (L.desk_proposal r.id).trans hr
  have hgives : Gives (fun _ => True) (fun _ => id)
      (hireFreelancer (.text q.id) (.text r.id) freelancer).program (L, 0)
      (· = .ok (q.hiring freelancer).toDocument)
      ((L.withProposal { r with verdict := some "hired" }).withPosting (q.hiring freelancer), 0) :=
    (Gives.hireFreelancer_found (fun _ => trivial) freelancer hq hr).map _
  have hsought : Runs [seek .proposal r.id] L.desk L.desk := .look hfound trivial
  have haccept : Runs [accept r.id] L.desk (L.withProposal { r with verdict := some "hired" }).desk :=
    Ledger.runs_alter (k := .proposal) (a := r) rfl rfl hfound
  have hhire : Runs [hire q.id freelancer] (L.withProposal { r with verdict := some "hired" }).desk
      ((L.withProposal { r with verdict := some "hired" }).withPosting (q.hiring freelancer)).desk :=
    Ledger.runs_posting (f := fun q => q.hiring freelancer) (q.id_hiring freelancer)
      (q.plain_hiring freelancer) hq
  exact shows_of_gives hgives hm ((hdistinct.storing .proposal _).storing .project _)
    (((hseek.append hsought).append haccept).append hhire) hruns

/-- Where all moves of its course can be made, a mutation makes them. -/
theorem yields_of_course {xs : List Move} (h : Course id o xs) (hxs : Runs xs D E) :
    o.Yields id D E := by
  cases h with
  | addProject hactor hread => exact yields_addProject hactor hread hxs
  | @addProposal actor project letter budget r xs hactor hread hcourse =>
    rcases hcourse with rfl | rfl
    · exact yields_addProposal hactor hread hxs
    · obtain ⟨F, hseek, hrest⟩ := hxs
      have hproposed : Runs ([propose project actor] ++ [file r, listProposal actor id]) F E := hrest
      have hlast : Runs ([file r, listProposal actor id] ++ [propose project actor]) F E :=
        hproposed.swap (by simp)
      exact yields_addProposal hactor hread ⟨F, hseek, hlast⟩
  | updateProject howner hlocked hread => exact yields_updateProject howner hlocked hread hxs
  | deleteProject howner => exact yields_deleteProject howner hxs
  | hireFreelancer => exact yields_hireFreelancer hxs

end Operation

end FreelanceBoard
