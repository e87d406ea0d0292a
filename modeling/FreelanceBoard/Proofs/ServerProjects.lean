import FreelanceBoard.Proofs.DocumentServer
import FreelanceBoard.Proofs.ServerSearch

/-! Searching the projects of the board on a search server. The fields of a project are of the kinds
that a plan compares, so its stages agree with the queries that stand for them. -/
namespace FreelanceBoard

namespace Project

theorem resolve_owner (p : Project) : p.toDocument.resolve "owner" = .text p.owner := rfl

theorem resolve_skills (p : Project) : p.toDocument.resolve "skills" = .texts p.skills := rfl

theorem textOrNull_budget (p : Project) :
    (p.toDocument.resolve "budget.type").TextOrNull ∧
      (p.toDocument.resolve "budget.currency").TextOrNull := by
  have htype : p.toDocument.resolve "budget.type" =
    (Value.ofOption Budget.toDocument p.budget).child "type" := rfl
  have hcurrency : p.toDocument.resolve "budget.currency" =
    (Value.ofOption Budget.toDocument p.budget).child "currency" := rfl
  rw [htype, hcurrency]
  cases p.budget with
  | none => exact ⟨.inl rfl, .inl rfl⟩
  | some b => exact ⟨.inr ⟨_, rfl⟩, .inr ⟨_, rfl⟩⟩

/-- The document of a project suits every stage of a plan. -/
theorem suits_matchStages (p : Project) (f : ProjectFilter) (actor : String) {stage : MatchStage}
    (h : stage ∈ f.matchStages actor) : stage.predicate.Suits p.toDocument := by
  simp only [ProjectFilter.matchStages, List.mem_append, List.mem_ite_nil_left,
    List.mem_singleton] at h
  obtain (rfl | ⟨-, rfl⟩) | ⟨hne, rfl⟩ := h
  · exact ⟨⟨actor, rfl⟩, .inr ⟨p.owner, p.resolve_owner⟩⟩
  · refine Predicate.suits_any (Predicate.suitAll_of_forall fun branch hbranch => ?_)
    obtain ⟨range, -, rfl⟩ := List.mem_map.1 hbranch
    have hbudget := p.textOrNull_budget
    exact ⟨⟨⟨_, rfl⟩, hbudget.1⟩, trivial, ⟨⟨_, rfl⟩, hbudget.2⟩, trivial⟩
  · refine ⟨?_, .inr ⟨_, p.resolve_skills, ?_⟩⟩
    · intro hnil
      have hlength := congrArg List.length hnil
      rw [Plan.sortedTexts, List.length_mergeSort] at hlength
      exact hne (List.length_eq_zero_iff.1 hlength)
    · intro v hv
      obtain ⟨t, -, rfl⟩ := List.mem_map.1 hv
      exact ⟨t, rfl⟩

theorem identified_fields {projects : List Project} (h : (projects.map Project.id).Nodup) :
    Identified (projects.map Project.fields) where
  named source hsource := by
    obtain ⟨p, -, rfl⟩ := List.mem_map.1 hsource
    exact ⟨p.id, rfl⟩
  distinct := by
    rw [List.map_map]
    exact h

end Project

namespace Plan

theorem admitsAll_eq_keeps (score : Scoring) {stages : List MatchStage} {source : Fields}
    (h : ∀ stage ∈ stages, stage.predicate.Suits (.object source)) :
    Predicate.admitsAll (stages.map MatchStage.predicate) (.object source) =
      .ok (keeps score stages source) := by
  induction stages with
  | nil => rfl
  | cons stage stages ih =>
    have hstage := Predicate.admits_eq_holds score stage.predicate (h stage (by simp))
    have hstages := ih fun other hother => h other (by simp [hother])
    rw [List.map_cons, Predicate.admitsAll, hstage, hstages, keeps_cons]
    cases stage.predicate.toQuery.holds score (.object source) <;> rfl

/-- No document is offered twice. -/
theorem nodup_offered {sources : List Fields} (h : Identified sources) (score : Scoring)
    (p : Plan) : ((p.offered score sources).map Fields.idText).Nodup := by
  rw [offered]
  cases p.search? with
  | none => exact (((List.mergeSort_perm sources _).map Fields.idText).nodup_iff).2 h.distinct
  | some stage =>
    rw [List.map_map]
    exact (((List.mergeSort_perm _ _).map Hit.id).nodup_iff).2 (h.nodup_hits score _)

end Plan

/-- A search on a server that holds documents of projects comes to one filter: of all that the plan
has to choose from it gives, in that order and each once, the documents that the match stages admit;
and it leaves the documents as they are. The size of a page makes no difference. -/
theorem searchProjects_filters_offered {σ : Type} {server : SearchServer σ}
    {docs : σ → String → List Document} {score : Scoring} {config : ServerConfig}
    (hserver : AnswersSearches server docs score) (hsize : 0 < config.searchSize) {s : σ}
    {projects : List Project} (hdistinct : (projects.map Project.id).Nodup)
    (hdocs : (docs s config.projectIndex).map Document.source = projects.map Project.fields)
    {raw actor : Value} {plan : Plan} (hplan : Plan.ofFilter raw actor = .ok plan) :
    ∃ t found, ∃ admitted : Fields → Bool, docs t = docs s ∧
      (searchProjects raw actor).run (server.store config) s = (.ok (found.map .object), t) ∧
      (∀ p ∈ projects, plan.admits p.toDocument = .ok (admitted p.fields)) ∧
      found = (plan.offered score (projects.map Project.fields)).filter admitted ∧
      (found.map Fields.idText).Nodup := by
  obtain ⟨filter, a, -, -, -, -, rfl⟩ := Plan.ofFilter_eq_ok_iff.1 hplan
  obtain ⟨f, hf⟩ : ∃ f, f = filter.getD .blank := ⟨_, rfl⟩
  rw [← hf] at hplan ⊢
  have hsources := Project.identified_fields hdistinct
  rw [← hdocs] at hsources
  obtain ⟨t, ht, hrun⟩ := Plan.run_execute_server hserver hsize f a hsources
  rw [hdocs] at hrun hsources
  refine ⟨t, _, Plan.keeps score (f.matchStages a), ht, ?_, ?_, rfl, ?_⟩
  · rw [searchProjects, hplan]
    exact hrun
  · intro p _
    rw [Plan.admits, Plan.matchStages_asking]
    exact Plan.admitsAll_eq_keeps score fun stage hstage => p.suits_matchStages f a hstage
  · exact (Plan.nodup_offered hsources score _).sublist (List.filter_sublist.map _)

/-- On pages of a single hit, one project in three has the title and the skill and another owner. -/
theorem searchProjects_filters_offered_css :
    let score : Scoring := fun stage r => match r.child stage.field with
      | .text _ => some 1
      | _ => none
    let projects : List Project :=
      [⟨"p3", "U1", some "Landing page", none, ["css"], none, none, true, [], []⟩,
       ⟨"p1", "U2", some "Landing page", none, ["css"], none, none, true, [], []⟩,
       ⟨"p2", "U2", none, none, ["css"], none, none, true, [], []⟩]
    let s : Indices := [("projects", projects.map fun p => ⟨p.id, p.fields⟩)]
    let config : ServerConfig := { searchSize := 1 }
    let raw : Value := .object [("title", .text "landing"), ("skills", .list [.text "css"])]
    let plan : Plan := ⟨[.search ⟨"title", "landing", 1⟩,
      .keep ⟨"exclude_owner", .ne "owner" (.text "U1")⟩,
      .keep ⟨"skills", .containsAll "skills" ["css"]⟩]⟩
    0 < config.searchSize ∧ (projects.map Project.id).Nodup ∧
      (s.documents config.projectIndex).map Document.source = projects.map Project.fields ∧
      Plan.ofFilter raw (.text "U1") = .ok plan ∧
      ∃ t found, ∃ admitted : Fields → Bool, t.documents = s.documents ∧
        (searchProjects raw (.text "U1")).run ((documentServer score).store config) s =
          (.ok (found.map .object), t) ∧
        (∀ p ∈ projects, plan.admits p.toDocument = .ok (admitted p.fields)) ∧
        found = (plan.offered score (projects.map Project.fields)).filter admitted ∧
        (found.map Fields.idText).Nodup := by
  intro score projects s config raw plan
  have hsize : 0 < config.searchSize := by decide
  have hdistinct : (projects.map Project.id).Nodup := by decide
  have hdocs : (s.documents config.projectIndex).map Document.source =
      projects.map Project.fields := rfl
  let f : ProjectFilter := ⟨some "landing", some ["css"], none, none⟩
  have hraw : ProjectFilter.validate raw = .ok (some f) := rfl
  have hfits : f.Fits := by
    intro p b hb _
    cases p <;> cases hb
  have hasking : Plan.asking f "U1" = plan := by
    have hquery : f.query? = some "landing" := by decide +kernel
    have hrequired : f.required = ["css"] := by decide +kernel
    have hranges : f.ranges = [] := rfl
    have hsorted : Plan.sortedTexts ["css"] = ["css"] := by simp [Plan.sortedTexts]
    simp [Plan.asking, ProjectFilter.searchStage?, ProjectFilter.matchStages, hquery, hrequired,
      hranges, hsorted, plan]
    rfl
  have hplan : Plan.ofFilter raw (.text "U1") = .ok plan :=
    Plan.ofFilter_eq_ok_iff.2 ⟨some f, "U1", hraw, .inl rfl, by decide, hfits, hasking⟩
  exact ⟨hsize, hdistinct, hdocs, hplan,
    searchProjects_filters_offered (answersSearches_documentServer score) hsize hdistinct hdocs hplan⟩

end FreelanceBoard
