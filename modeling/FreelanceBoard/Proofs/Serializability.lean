import FreelanceBoard.Proofs.OwnedProjects
import FreelanceBoard.Proofs.SerialRuns

/-! Two mutations at the same time. If each of them sets the shared lists as it has found them, the
calls of one of the two might as well all have been made before those of the other. -/
namespace FreelanceBoard

open Move

namespace Move

@[simp] theorem list_before_listProposal (owner actor : Name) (project proposal : String) :
    (list owner project).Before (listProposal actor proposal) :=
  enter_before_enter (fun _ _ => rfl) fun h => by rw [h]

@[simp] theorem listProposal_before_unlist (actor : Name) (proposal owner project : String) :
    (listProposal actor proposal).Before (unlist owner project) :=
  enter_before_alter (fun _ _ => rfl) rfl

@[simp] theorem list_before_unlist {owner : Name} {project owner' project' : String}
    (h : project ≠ project') :
    (list owner project).Before (unlist owner' project') := by
  refine enter_before_alter (fun _ u => ?_) rfl
  have herase : (u.projects ++ [project]).erase project' = u.projects.erase project' ++ [project] := by
    by_cases hmem : project' ∈ u.projects
    · exact List.erase_append_left _ hmem
    · rw [List.erase_append_right _ hmem, List.erase_of_not_mem hmem,
        List.erase_of_not_mem fun e => h (List.mem_singleton.1 e).symm]
  exact congrArg (fun ps => { u with projects := ps }) herase

@[simp] theorem unlist_before_unlist (owner project owner' project' : String) :
    (unlist owner project).Before (unlist owner' project') :=
  alter_before_alter fun u =>
    congrArg (fun ps => { u with projects := ps }) (List.erase_comm project project')

@[simp] theorem seekReadable_before_hire (project owner project' : String) (freelancer : Value) :
    (seekReadable project owner).Before (hire project' freelancer) :=
  look_before_alter fun q hq =>
    ⟨(q.owner_hiring freelancer).symm.trans hq.1, Posting.readable_hiring hq.2⟩

end Move

def Desk.Vacant (D : Desk) (id : String) : Prop :=
  D ⟨.project, .text id⟩ = none ∧ D ⟨.proposal, .text id⟩ = none

theorem Memory.Shows.vacant {m : Memory} {D : Desk} (h : m.Shows D) {id : String} (hid : m.Vacant id) :
    D.Vacant id := by
  obtain ⟨hproject, hproposal⟩ := hid
  exact ⟨Option.map_eq_none_iff.1 ((h.record? .project (.text id)).symm.trans hproject),
    Option.map_eq_none_iff.1 ((h.record? .proposal (.text id)).symm.trans hproposal)⟩

namespace Operation

/-- Of two mutations at the same time the one of the lower rank can come first. -/
def rank : Operation → Nat
  | .addProject _ _ _ _ _ => 0
  | .addProposal _ _ _ _ => 1
  | .updateProject _ _ _ => 2
  | .hireFreelancer _ _ _ => 3
  | .deleteProject _ _ => 4
  | _ => 5

end Operation

namespace Course

variable {D F : Desk} {i j : String} {o o' : Operation} {xs ys : List Move}

theorem perm_addProposal {actor : Name} {project : String} {r : Proposal}
    (h : xs = [seek .project project, file r, listProposal actor i, propose project actor] ∨
      xs = [seek .project project, propose project actor, file r, listProposal actor i]) :
    xs.Perm [propose project actor, seek .project project, file r, listProposal actor i] := by
  rcases h with rfl | rfl
  · exact List.perm_append_singleton _ [_, _, _]
  · exact .swap _ _ _

theorem runs_post {p : Project} {owner : Name} {project : String} {g : Posting → Prop}
    (hnone : D ⟨.project, .text p.id⟩ = none) (hpost : p.id ≠ project → ∀ y ∈ ys, (post p).Before y)
    (hlist : ∀ y ∈ ys, (list owner i).Before y)
    (h : Shuffled [post p, list owner i] (look .project (.text project) g :: ys) D F) :
    Runs ([post p, list owner i] ++ look .project (.text project) g :: ys) D F := by
  by_cases hproject : p.id = project
  · subst hproject
    have hblocked : ¬ (look .project (.text p.id) g).guard (D (look .project (.text p.id) g).place) := by
      rintro ⟨q, hq, -⟩
      cases hnone.symm.trans hq
    obtain ⟨E, hfirst, hrest⟩ := h.of_blocked hblocked
    exact ⟨E, hfirst, hrest.serial (by simpa using hlist)⟩
  · exact h.serial (by simpa [hproject] using ⟨hpost hproject, hlist⟩)

theorem runs_file (as bs : List Move) {r : Proposal} {project : String}
    (h : Shuffled (as ++ file r :: bs) (seek .project project :: seek .proposal r.id :: ys) D F)
    (hnone : D ⟨.proposal, .text r.id⟩ = none)
    (hseek : ∀ a ∈ as ++ file r :: bs, a.Commutes (seek .project project))
    (hplaces : ∀ a ∈ as, a.place ≠ ⟨.proposal, .text r.id⟩)
    (has : ∀ a ∈ as ++ bs, ∀ b ∈ seek .proposal r.id :: ys, a.Before b) :
    Runs ((as ++ file r :: bs) ++ seek .project project :: seek .proposal r.id :: ys) D F := by
  refine h.serial_of_blocked hseek (fun a ha => has a (List.mem_append_left bs ha))
    (fun a ha => has a (List.mem_append_right as ha)) ?_
  rintro E hruns ⟨r', hr', -⟩
  have hsame : E ⟨.proposal, .text r.id⟩ = D ⟨.proposal, .text r.id⟩ := by
    refine hruns.eq_of_forall_ne fun a ha => ?_
    rcases List.mem_cons.1 ha with rfl | ha
    · exact fun e => by cases congrArg Place.kind e
    · exact hplaces a ha
  cases (hsame.trans hnone).symm.trans hr'

/-- A mutation of a lower rank than the one that it is mixed with may come before it. -/
theorem runs_of_rank_lt (h : Course i o xs) (h' : Course j o' ys) (hrank : o.rank < o'.rank)
    (hi : D.Vacant i) (hspares : o'.Spares i) (hmixed : Shuffled xs ys D F) :
    Runs (xs ++ ys) D F := by
  obtain ⟨hproject, hproposal⟩ := hi
  -- All moves of the lower rank may come before those of the higher, but for one that adds what the
  -- other side looks for, and until then that is not there to be found.
  cases h with
  | addProject howner hread =>
    obtain ⟨rfl, -⟩ := Project.readFields_new hread
    cases h' with
    | addProject => simp [Operation.rank] at hrank
    | addProposal hactor hread' hys =>
      rcases hys with rfl | rfl <;>
        exact runs_post hproject (by simp +contextual) (by simp) hmixed
    | updateProject => exact runs_post hproject (by simp +contextual) (by simp) hmixed
    | hireFreelancer => exact runs_post hproject (by simp +contextual) (by simp) hmixed
    | @deleteProject owner' project =>
      have hother : _ ≠ project := fun e => hspares (congrArg Value.text e.symm)
      exact runs_post hproject (by simp [hother]) (by simp [hother]) hmixed
  | @addProposal actor project letter budget r xs hactor hread hxs =>
    cases h' with
    | addProject => simp [Operation.rank] at hrank
    | addProposal => simp [Operation.rank] at hrank
    | updateProject => rcases hxs with rfl | rfl <;> exact hmixed.serial (by simp)
    | @hireFreelancer project' proposal freelancer =>
      obtain ⟨hid, -⟩ := Proposal.readFields_new hread hactor
      by_cases hsame : r.id = proposal
      · subst hsame
        rw [← hid] at hproposal
        rcases hxs with rfl | rfl
        · exact runs_file [_] [_, _] hmixed hproposal (by simp [Commutes]) (by simp) (by simp)
        · exact runs_file [_, _] [_] hmixed hproposal (by simp [Commutes]) (by simp) (by simp)
      · rcases hxs with rfl | rfl <;> exact hmixed.serial (by simp [hsame])
    | deleteProject => rcases hxs with rfl | rfl <;> exact hmixed.serial (by simp)
  | updateProject =>
    cases h' with
    | hireFreelancer => exact hmixed.serial (by simp)
    | deleteProject => exact hmixed.serial (by simp)
    | _ => simp [Operation.rank] at hrank
  | hireFreelancer =>
    cases h' with
    | deleteProject => exact hmixed.serial (by simp)
    | _ => simp [Operation.rank] at hrank
  | deleteProject => cases h' <;> simp [Operation.rank] at hrank

theorem runs_unlist_remove {owner project : String}
    (hnodup : ∀ u : Account, D ⟨.user, .text owner⟩ = some u → u.projects.Nodup)
    (h : Runs [unlist owner project, withdraw project] D F) :
    F ⟨.project, .text project⟩ = none ∧ Runs [unlist owner project, withdraw project] F F := by
  obtain ⟨E, ⟨-, hE⟩, hremove⟩ := h
  have hproject : F ⟨.project, .text project⟩ = none := by
    rw [← Runs.remove.unique hremove, Function.update_self]
  have huser : F ⟨.user, .text owner⟩ = (D ⟨.user, .text owner⟩).map fun u =>
      { u with projects := u.projects.erase project } := by
    rw [hremove.eq_of_forall_ne (by simp), hE]
    exact Function.update_self _ _ D
  have hunlist : Runs [unlist owner project] F F := by
    cases hu : D ⟨.user, .text owner⟩ with
    | none => exact .alter_none (by rw [huser, hu, Option.map_none])
    | some u =>
      have hsame : (u.projects.erase project).erase project = u.projects.erase project :=
        List.erase_of_not_mem (hnodup u hu).not_mem_erase
      refine .alter_same (huser.trans (congrArg _ hu)) ?_
      exact congrArg (fun ps => { u with projects := ps }) hsame
  exact ⟨hproject, hunlist.append (.remove_none hproject)⟩

theorem runs_of_deletions {owner owner' project : String}
    (hnodup : ∀ u : Account, D ⟨.user, .text owner⟩ = some u → u.projects.Nodup)
    (hmixed : Shuffled [seekOwned project owner, unlist owner project, withdraw project]
      [seekOwned project owner', unlist owner' project, withdraw project] D F) :
    Runs [seekOwned project owner, unlist owner project, withdraw project] D F ∧
      F ⟨.project, .text project⟩ = none := by
  obtain ⟨_, hseek, hrest⟩ := hmixed.bring (by simp)
  obtain ⟨⟨q, hq, rfl⟩, rfl⟩ := leads_look_iff.1 hseek
  obtain ⟨_, hseek', hboth⟩ := hrest.symm.bring (by simp)
  obtain ⟨⟨q', hq', rfl⟩, rfl⟩ := leads_look_iff.1 hseek'
  obtain rfl : q = q' := Option.some.inj (hq.symm.trans hq')
  obtain ⟨E, hfirst, hagain⟩ := (hboth.serial (by simp)).of_append
  obtain ⟨hnone, hsame⟩ := runs_unlist_remove hnodup hfirst
  obtain rfl := hsame.unique hagain
  exact ⟨⟨_, hseek, hfirst⟩, hnone⟩

/-- Of two mutations of one kind, other than deletions, the one comes first whose part of the only two
moves that cannot be exchanged does. -/
theorem runs_of_rank_eq (h : Course i o xs) (h' : Course j o' ys) (hij : i ≠ j)
    (hrank : o.rank = o'.rank) (hdelete : ∀ actor project, o ≠ .deleteProject actor project)
    (hmixed : Shuffled xs ys D F) :
    Runs (xs ++ ys) D F ∨ Runs (ys ++ xs) D F := by
  cases h with
  | addProject howner hread =>
    cases h' with
    | addProject howner' hread' =>
      obtain ⟨hid, -⟩ := Project.readFields_new hread
      obtain ⟨hid', -⟩ := Project.readFields_new hread'
      refine hmixed.eitherFirst (.swap _ _ _) (.swap _ _ _) ?_ ?_ <;>
        simp [Commutes, hid, hid', hij, hij.symm]
    | _ => simp [Operation.rank] at hrank
  | @addProposal actor project letter budget r xs hactor hread hxs =>
    cases h' with
    | @addProposal actor' project' letter' budget' r' ys hactor' hread' hys =>
      obtain ⟨hid, -⟩ := Proposal.readFields_new hread hactor
      obtain ⟨hid', -⟩ := Proposal.readFields_new hread' hactor'
      by_cases hactors : actor = actor'
      · subst hactors
        refine hmixed.eitherFirst
          ((perm_addProposal hxs).trans (List.perm_append_singleton _ [_, _, _]))
          ((perm_addProposal hys).trans (List.perm_append_singleton _ [_, _, _])) ?_ ?_ <;>
          simp [Commutes, hid, hid', hij, hij.symm]
      · refine hmixed.eitherFirst (perm_addProposal hxs) (perm_addProposal hys) ?_ ?_ <;>
          simp [Commutes, hid, hid', hij, hij.symm, hactors, Ne.symm hactors]
    | _ => simp [Operation.rank] at hrank
  | updateProject =>
    cases h' with
    | updateProject =>
      refine hmixed.eitherFirst (.swap _ _ _) (.swap _ _ _) ?_ ?_ <;> simp [Commutes]
    | _ => simp [Operation.rank] at hrank
  | hireFreelancer =>
    cases h' with
    | hireFreelancer =>
      refine hmixed.eitherFirst (List.perm_append_singleton _ [_, _, _])
        (List.perm_append_singleton _ [_, _, _]) ?_ ?_ <;> simp [Commutes]
    | _ => simp [Operation.rank] at hrank
  | deleteProject => exact absurd rfl (hdelete _ _)

theorem yields_of_runs (h : Course i o xs) (h' : Course j o' ys) (hruns : Runs (xs ++ ys) D F) :
    ∃ E, o.Yields i D E ∧ o'.Yields j E F := by
  obtain ⟨E, hxs, hys⟩ := hruns.of_append
  exact ⟨E, Operation.yields_of_course h hxs, Operation.yields_of_course h' hys⟩

theorem yields_of_deletions {actor project : Value} (h : Course i (.deleteProject actor project) xs)
    (h' : Course j o' ys) (hrank : (Operation.deleteProject actor project).rank = o'.rank)
    (hnodup : ∀ (u : Name) (v : Account), D ⟨.user, u⟩ = some v → v.projects.Nodup)
    (hmixed : Shuffled xs ys D F) :
    ∃ E, (Operation.deleteProject actor project).Yields i D E ∧ o'.Yields j E F := by
  cases h with
  | @deleteProject owner project howner =>
    cases h' with
    | @deleteProject owner' project' howner' =>
      by_cases hsame : project = project'
      · subst hsame
        obtain ⟨hruns, hnone⟩ := runs_of_deletions (hnodup (.text owner)) hmixed
        exact ⟨F, Operation.yields_of_course (.deleteProject howner) hruns,
          Operation.yields_deleteProject_missing _ hnone⟩
      · refine yields_of_runs (.deleteProject howner) (.deleteProject howner') (hmixed.serial ?_)
        simp [hsame]
    | _ => simp [Operation.rank] at hrank

/-- Two mutations that are mixed with each other lead where they lead in one of the two orders. -/
theorem yields_of_shuffled (h : Course i o xs) (h' : Course j o' ys) (hij : i ≠ j) (hi : D.Vacant i)
    (hj : D.Vacant j) (hspares : o.Spares j) (hspares' : o'.Spares i)
    (hnodup : ∀ (u : Name) (v : Account), D ⟨.user, u⟩ = some v → v.projects.Nodup)
    (hmixed : Shuffled xs ys D F) :
    (∃ E, o.Yields i D E ∧ o'.Yields j E F) ∨ ∃ E, o'.Yields j D E ∧ o.Yields i E F := by
  rcases Nat.lt_trichotomy o.rank o'.rank with hlt | heq | hgt
  · exact .inl (yields_of_runs h h' (runs_of_rank_lt h h' hlt hi hspares' hmixed))
  · by_cases hdelete : ∃ actor project, o = .deleteProject actor project
    · obtain ⟨actor, project, rfl⟩ := hdelete
      exact .inl (yields_of_deletions h h' heq hnodup hmixed)
    · have hdelete' : ∀ actor project, o ≠ .deleteProject actor project :=
        fun actor project e => hdelete ⟨actor, project, e⟩
      rcases runs_of_rank_eq h h' hij heq hdelete' hmixed with hruns | hruns
      · exact .inl (yields_of_runs h h' hruns)
      · exact .inr (yields_of_runs h' h hruns)
  · exact .inr (yields_of_runs h' h (runs_of_rank_lt h' h hgt hj hspares hmixed.symm))

end Course

namespace Ledger

variable {ids : Nat → String} {L L' : Ledger} {n k : Nat} {o : Operation} {a b : Ledger × Nat}

theorem Distinct.of_effect (he : Effect ids o a b) (h : a.1.Distinct) : b.1.Distinct := by
  cases he with
  | nothing => exact h
  | projectAdded => exact (h.storing .project _).storing .user _
  | projectUnlisted => exact h.storing .project _
  | proposalAdded => exact ((h.storing .proposal _).storing .user _).storing .project _
  | proposalUnlisted => exact h.storing .proposal _
  | projectChanged => exact h.storing .project _
  | projectDeleted => exact (h.unlisting _ _).withoutPosting _
  | freelancerHired => exact (h.storing .proposal _).storing .project _

/-- No user lists a project twice, and only ids that have been issued are listed. -/
structure ListsOnce (ids : Nat → String) (L : Ledger) (n : Nat) : Prop where
  issued : ∀ u, ∀ id ∈ (L.user u).projects, ∃ k < n, id = ids k
  nodup : ∀ u, (L.user u).projects.Nodup

namespace ListsOnce

theorem of_sublist (h : L.ListsOnce ids n) (hnk : n ≤ k)
    (hprojects : ∀ u, List.Sublist (L'.user u).projects (L.user u).projects) : L'.ListsOnce ids k where
  issued u id hid := by
    obtain ⟨i, hi, rfl⟩ := h.issued u id ((hprojects u).subset hid)
    exact ⟨i, by omega, rfl⟩
  nodup u := (h.nodup u).sublist (hprojects u)

theorem listing (h : L.ListsOnce ids n) (hids : Function.Injective ids) (owner : Name) :
    (L.listing owner (ids n)).ListsOnce ids (n + 1) := by
  have hnew : ∀ u, ids n ∉ (L.user u).projects := by
    intro u hmem
    obtain ⟨i, hi, heq⟩ := h.issued u _ hmem
    have hin : n = i := hids heq
    omega
  constructor
  · intro u id hid
    rw [projects_listing, List.mem_append] at hid
    rcases hid with hid | hid
    · obtain ⟨i, hi, rfl⟩ := h.issued u id hid
      exact ⟨i, by omega, rfl⟩
    · split at hid
      · exact ⟨n, by omega, List.mem_singleton.1 hid⟩
      · cases hid
  · intro u
    rw [projects_listing]
    split
    · rw [← List.concat_eq_append]
      exact (h.nodup u).concat (hnew u)
    · rw [List.append_nil]
      exact h.nodup u

theorem of_effect (hids : Function.Injective ids) (he : Effect ids o a b)
    (h : a.1.ListsOnce ids a.2) : b.1.ListsOnce ids b.2 := by
  cases he with
  | nothing hnm => exact h.of_sublist hnm fun _ => .refl _
  | @projectAdded L n actor _ _ _ _ p _ _ hid =>
    have hsame : (L.withPosting ⟨p, [], []⟩).ListsOnce ids n :=
      h.of_sublist (Nat.le_refl n) fun _ => .refl _
    rw [hid]
    exact hsame.listing hids actor
  | projectUnlisted => exact h.of_sublist (Nat.le_succ _) fun _ => .refl _
  | @proposalAdded L _ _ _ actor _ r =>
    refine h.of_sublist (Nat.le_succ _) fun u => ?_
    have hsame := (L.withProposal r).projects_listingProposal actor r.id u
    exact hsame ▸ .refl _
  | proposalUnlisted => exact h.of_sublist (Nat.le_succ _) fun _ => .refl _
  | projectChanged => exact h.of_sublist (Nat.le_refl _) fun _ => .refl _
  | @projectDeleted L _ q =>
    refine h.of_sublist (Nat.le_refl _) fun u => ?_
    have hprojects := L.projects_unlisting (.text q.owner) q.id u
    split at hprojects
    · exact hprojects ▸ List.erase_sublist
    · exact hprojects ▸ .refl _
  | freelancerHired => exact h.of_sublist (Nat.le_refl _) fun _ => .refl _

end ListsOnce

end Ledger

/-- Whatever is done through the catalog, one operation after the other, the store is consistent. -/
theorem Memory.consistent_of_runAll {ids : Nat → String} (hids : Function.Injective ids)
    (ops : List Operation) :
    (Operation.runAll (Board.withIds ids Memory.handle) ops (Memory.empty, 0)).2.1.Consistent := by
  have hempty : Ledger.empty.ListsOnce ids 0 ∧ Ledger.empty.Distinct := by
    refine ⟨⟨fun u id hid => ?_, fun u => List.nodup_nil⟩, fun k => ?_⟩
    · cases hid
    · cases k <;> exact List.nodup_nil
  obtain ⟨m, L, n, hrun, hholds, honce, hdistinct⟩ := Memory.run_operations
    (fun a => a.1.ListsOnce ids a.2 ∧ a.1.Distinct)
    (fun o a b he ha => ⟨ha.1.of_effect hids he, ha.2.of_effect he⟩) ops Memory.holds_empty hempty
  rw [hrun]
  refine ⟨L, hholds, hdistinct, fun u hu => ?_⟩
  have hfound : L.user? u.name = some u := (Keyed.find?_eq_some_iff (hdistinct .user)).2 ⟨hu, rfl⟩
  have huser : L.user u.name = u := by rw [Ledger.user, hfound, Option.getD_some]
  rw [← huser]
  exact honce.nodup u.name

/-- Two mutations at the same time leave what they leave one after the other, in one of the two orders,
if no list is set by one of them that the other has changed in the meantime. -/
theorem interleaving_serializable {m t : Memory} {o o' : Operation} {i j : String} {es fs : List Event}
    (hm : m.Consistent) (ho : ¬ o.OnlyReads) (ho' : ¬ o'.OnlyReads) (hij : i ≠ j)
    (hi : m.Vacant i) (hj : m.Vacant j) (hspares : o.Spares j) (hspares' : o'.Spares i)
    (h : Interleaving (o.calls i) (o'.calls j) m es fs t)
    (hes : es.Pairwise Event.Undisturbed) (hfs : fs.Pairwise Event.Undisturbed) :
    t.SameRecords (o'.after j (o.after i m)) ∨ t.SameRecords (o.after i (o'.after j m)) := by
  obtain ⟨L, hholds, hdistinct, hnodup⟩ := hm
  have hD : m.Shows L.desk := ⟨L, hholds, hdistinct, rfl⟩
  have hnodup' : ∀ (u : Name) (v : Account), L.desk ⟨.user, u⟩ = some v → v.projects.Nodup := by
    intro u v hv
    rw [L.desk_user] at hv
    exact hnodup v (Keyed.mem_of_find? hv)
  obtain ⟨xs, ys, F, hxs, hys, hmixed, hF⟩ :=
    h.shuffled (o.leaves_course ho i) (o'.leaves_course ho' j) hes hfs hD
  rcases Course.yields_of_shuffled hxs hys hij (hD.vacant hi) (hD.vacant hj) hspares hspares' hnodup'
    hmixed with ⟨E, hfirst, hsecond⟩ | ⟨E, hfirst, hsecond⟩
  · exact .inl (hF.sameRecords (hsecond _ (hfirst m hD)))
  · exact .inr (hF.sameRecords (hsecond _ (hfirst m hD)))

section

abbrev Operation.adding (title : String) : Operation :=
  .addProject (.text "U1") (.text title) .null .null .null

abbrev Operation.deleting (project : String) : Operation := .deleteProject (.text "U1") (.text project)

abbrev Memory.oneProject : Memory :=
  (Operation.runAll (Board.withIds longerIds Memory.handle) [.adding "Site"] (Memory.empty, 0)).2.1

open Operation Memory

theorem Memory.consistent_oneProject : oneProject.Consistent :=
  consistent_of_runAll longerIds_injective _

def Memory.projectLists (m : Memory) : List Value :=
  (m.contents Collection.users).map fun r => r.child "projects"

/-- A project is deleted while another is added. -/
theorem interleaving_serializable_delisting :
    ∃ es fs t, Interleaving ((adding "Shop").calls "p0") ((deleting "p").calls "p00") oneProject es fs t ∧
      es.Pairwise Event.Undisturbed ∧ fs.Pairwise Event.Undisturbed ∧
      t.projectLists = [.texts ["p0"]] ∧
      (t.SameRecords ((deleting "p").after "p00" ((adding "Shop").after "p0" oneProject)) ∨
        t.SameRecords ((adding "Shop").after "p0" ((deleting "p").after "p00" oneProject))) := by
  have hmixed : ∃ es fs t,
      Interleaving ((adding "Shop").calls "p0") ((deleting "p").calls "p00") oneProject es fs t ∧
        es.Pairwise Event.Undisturbed ∧ fs.Pairwise Event.Undisturbed ∧
        t.projectLists = [.texts ["p0"]] := by
    refine ⟨_, _, _, .second rfl (.first rfl (.first rfl (.first rfl (.second rfl (.second rfl
      (.second rfl (.done _ _ _))))))), ?_, ?_, rfl⟩
    · simp [Event.Undisturbed.of_insert, Event.Undisturbed.of_before_eq]
    · simp [Event.Undisturbed.findById, Event.Undisturbed.delete, Event.Undisturbed.of_before_eq,
        Event.Undisturbed.update_of_ne, Collection.projects, Collection.users]
  obtain ⟨es, fs, t, h, hes, hfs, hlists⟩ := hmixed
  refine ⟨es, fs, t, h, hes, hfs, hlists, ?_⟩
  exact interleaving_serializable consistent_oneProject not_false not_false (by decide)
    ⟨rfl, rfl⟩ ⟨rfl, rfl⟩ trivial (fun h => absurd (Value.text.inj h) (by decide)) h hes hfs

theorem Memory.SameRecords.projects_eq {m m' : Memory} (h : m.SameRecords m') {ps ps' : List String}
    (hps : m.projectLists = [.texts ps]) (hps' : m'.projectLists = [.texts ps']) : ps = ps' := by
  have hperm : m.projectLists.Perm m'.projectLists := (h Collection.users (by decide)).map _
  rw [hps, hps'] at hperm
  exact Value.texts_injective (List.singleton_inj.1 (List.perm_singleton.1 hperm))

/-- Some interleaving of two operations leaves what neither of their orders leaves. -/
def Operation.Clashes (o o' : Operation) (i j : String) (m : Memory) : Prop :=
  ∃ es fs t, Interleaving (o.calls i) (o'.calls j) m es fs t ∧
    ¬ t.SameRecords (o'.after j (o.after i m)) ∧ ¬ t.SameRecords (o.after i (o'.after j m))

theorem adding_clashes_adding : (adding "Shop").Clashes (adding "Blog") "p0" "p00" oneProject := by
  have hmixed : ∃ es fs t,
      Interleaving ((adding "Shop").calls "p0") ((adding "Blog").calls "p00") oneProject es fs t ∧
        t.projectLists = [.texts ["p", "p00"]] :=
    ⟨_, _, _, .first rfl (.second rfl (.first rfl (.second rfl (.first rfl (.second rfl
      (.done _ _ _)))))), rfl⟩
  have hfirst : ((adding "Blog").after "p00" ((adding "Shop").after "p0" oneProject)).projectLists =
    [.texts ["p", "p0", "p00"]] := rfl
  have hlast : ((adding "Shop").after "p0" ((adding "Blog").after "p00" oneProject)).projectLists =
    [.texts ["p", "p00", "p0"]] := rfl
  obtain ⟨es, fs, t, h, hlists⟩ := hmixed
  exact ⟨es, fs, t, h, fun h => absurd (h.projects_eq hlists hfirst) (by decide),
    fun h => absurd (h.projects_eq hlists hlast) (by decide)⟩

theorem adding_clashes_deleting : (adding "Shop").Clashes (deleting "p0") "p0" "p00" oneProject := by
  have hmixed : ∃ es fs t,
      Interleaving ((adding "Shop").calls "p0") ((deleting "p0").calls "p00") oneProject es fs t ∧
        t.projectLists = [.texts ["p", "p0"]] ∧ (t.contents Collection.projects).length = 1 :=
    ⟨_, _, _, .first rfl (.second rfl (.second rfl (.second rfl (.first rfl (.first rfl
      (.done _ _ _)))))), rfl, rfl⟩
  have hfirst : ((deleting "p0").after "p00" ((adding "Shop").after "p0" oneProject)).projectLists =
    [.texts ["p"]] := rfl
  have hlast : (((adding "Shop").after "p0" ((deleting "p0").after "p00" oneProject)).contents
    Collection.projects).length = 2 := rfl
  obtain ⟨es, fs, t, h, hlists, hprojects⟩ := hmixed
  refine ⟨es, fs, t, h, fun h => absurd (h.projects_eq hlists hfirst) (by decide), fun h => ?_⟩
  have hlength := (h Collection.projects (by decide)).length_eq
  omega

/-- Of two projects that are added one is missing from the list afterwards, and one that is deleted
while it is being added is listed. -/
theorem interleaving_loses_project :
    oneProject.Consistent ∧ oneProject.Vacant "p0" ∧ oneProject.Vacant "p00" ∧
      (adding "Shop").Clashes (adding "Blog") "p0" "p00" oneProject ∧
      (adding "Shop").Clashes (deleting "p0") "p0" "p00" oneProject :=
  ⟨consistent_oneProject, ⟨rfl, rfl⟩, ⟨rfl, rfl⟩, adding_clashes_adding, adding_clashes_deleting⟩

end

end FreelanceBoard
