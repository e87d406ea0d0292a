import FreelanceBoard.Proofs.CompiledStages
import FreelanceBoard.Proofs.MemorySearch
import Mathlib.Data.List.DropRight

/-! Running a plan stage by stage on a store in memory, against one pass with all its predicates. A
search forgets what the stages before it have left, so that the last one and the match stages after it
give the result; what stands before the last search can only fail. -/
namespace FreelanceBoard

open Collection

def Stage.isMatch : Stage → Bool
  | .search _ => false
  | .keep _ => true

namespace Plan

/-- The match stages after the last search, as a plan of their own. -/
def sinceSearch (p : Plan) : Plan := ⟨p.stages.rtakeWhile Stage.isMatch⟩

/-- The records that these stages start with: what the last search lists, or all projects. -/
def base (p : Plan) (m : Memory) : List Value :=
  match p.searches.getLast? with
  | some s => Memory.ranked s (m.entries projects)
  | none => m.contents projects

/-- The records of a list that a plan admits, in order, if it fails on none of the list. -/
def Narrows (p : Plan) (records kept : List Value) : Prop :=
  ∃ keep : Value → Bool, (∀ r ∈ records, p.admits r = .ok (keep r)) ∧ kept = records.filter keep

/-- A search can only be the first stage. -/
def SearchesFirst (p : Plan) : Prop := ∀ s, .search s ∉ p.stages.tail

/-- Some predicate of the plan fails on some project. -/
def FailsSomewhere (p : Plan) (m : Memory) : Prop :=
  ∃ stage, .keep stage ∈ p.stages ∧ ∃ r ∈ m.contents projects, ∃ f,
    stage.predicate.admits r = .error f

/-- Every list of stages ends in match stages, with a search before them unless they are all. -/
theorem stages_cases (stages : List Stage) : ∃ ms : List MatchStage,
    stages = ms.map .keep ∨ ∃ before s, stages = before ++ .search s :: ms.map .keep := by
  induction stages with
  | nil => exact ⟨[], .inl rfl⟩
  | cons stage rest ih =>
    obtain ⟨ms, rfl | ⟨before, s, rfl⟩⟩ := ih
    · cases stage with
      | search s => exact ⟨ms, .inr ⟨[], s, rfl⟩⟩
      | keep k => exact ⟨k :: ms, .inl rfl⟩
    · exact ⟨ms, .inr ⟨stage :: before, s, rfl⟩⟩

section

variable (ms : List MatchStage) (before : List Stage) (s : SearchStage) (m : Memory)

theorem admits_matches :
    (⟨ms.map .keep⟩ : Plan).admits = Predicate.admitsAll (ms.map MatchStage.predicate) := by
  funext r
  simp [admits, matchStages, List.filterMap_map]

theorem admits_search :
    (⟨.search s :: ms.map .keep⟩ : Plan).admits =
      Predicate.admitsAll (ms.map MatchStage.predicate) := by
  funext r
  simp [admits, matchStages, List.filterMap_map]

theorem sinceSearch_matches : (⟨ms.map .keep⟩ : Plan).sinceSearch = ⟨ms.map .keep⟩ := by
  simp [sinceSearch, List.rtakeWhile_eq_self_iff, Stage.isMatch]

theorem sinceSearch_search :
    (⟨before ++ .search s :: ms.map .keep⟩ : Plan).sinceSearch = ⟨ms.map .keep⟩ := by
  have hms : ∀ stage ∈ (ms.map Stage.keep).reverse, stage.isMatch = true := by
    simp [Stage.isMatch]
  rw [sinceSearch, List.rtakeWhile, List.reverse_append, List.reverse_cons, List.append_assoc,
    List.takeWhile_append_of_pos hms, List.singleton_append,
    List.takeWhile_cons_of_neg (by simp [Stage.isMatch]), List.append_nil, List.reverse_reverse]

theorem base_matches : (⟨ms.map .keep⟩ : Plan).base m = m.contents projects := by
  simp [base, searches, List.filterMap_map]

theorem base_search :
    (⟨before ++ .search s :: ms.map .keep⟩ : Plan).base m = Memory.ranked s (m.entries projects) := by
  simp [base, searches, List.filterMap_append, List.filterMap_map]

end

theorem mem_of_ranked {s : SearchStage} {m : Memory} {r : Value}
    (h : r ∈ Memory.ranked s (m.entries projects)) : r ∈ m.contents projects := by
  rw [Memory.ranked_eq, Memory.byRelevance, List.mem_mergeSort] at h
  exact List.mem_of_mem_filter h

theorem mem_of_base {p : Plan} {m : Memory} {r : Value} (h : r ∈ p.base m) :
    r ∈ m.contents projects := by
  rw [base] at h
  cases hs : p.searches.getLast? with
  | none => rwa [hs] at h
  | some s =>
    rw [hs] at h
    exact mem_of_ranked h

theorem runStages_append (before after : List Stage) (candidates : Option (List Value)) :
    runStages (before ++ after) candidates = (runStages before candidates).bind (runStages after) := by
  induction before generalizing candidates with
  | nil => rfl
  | cons stage before ih =>
    cases stage with
    | search s =>
      simp only [List.cons_append, runStages, Store.search, Program.bind_eq, Program.call_bind,
        Program.done_bind, ih]
    | keep k =>
      simp only [List.cons_append, runStages, Store.narrow, Program.bind_eq, Program.call_bind,
        Program.done_bind, ih]

/-- Stages that start with projects of the store leave projects of the store, or fail because one of
their predicates fails on one. -/
theorem run_runStages_cases (m : Memory) {stages : List Stage} {candidates : Option (List Value)}
    (h : ∀ r ∈ candidates.getD (m.contents projects), r ∈ m.contents projects) :
    (∃ left, (runStages stages candidates).run Memory.handle m = (.ok left, m)) ∨
      (runStages stages candidates).run Memory.handle m = (.error (.fault .wrongKind), m) ∧
        FailsSomewhere ⟨stages⟩ m := by
  induction stages generalizing candidates with
  | nil => exact .inl ⟨candidates, rfl⟩
  | cons stage rest ih =>
    have hlater : FailsSomewhere ⟨rest⟩ m → FailsSomewhere ⟨stage :: rest⟩ m := by
      rintro ⟨k, hk, hfails⟩
      exact ⟨k, List.mem_cons_of_mem _ hk, hfails⟩
    cases stage with
    | search s =>
      rw [runStages, Store.search, Program.bind_eq, Program.call_bind, Program.run_call]
      exact (@ih (some _) fun r hr => mem_of_ranked hr).imp_right (And.imp_right hlater)
    | keep k =>
      rw [runStages, Store.narrow, Program.bind_eq, Program.call_bind, Program.run_call]
      simp only [Memory.handle]
      obtain ⟨-, hkept⟩ | ⟨r, hr, f, hfails, hends⟩ :=
        Value.keepIf_cases k.predicate.admits (candidates.getD (m.contents projects))
      · rw [hkept]
        exact (@ih (some _) fun r hr => h r (List.mem_of_mem_filter hr)).imp_right
          (And.imp_right hlater)
      · rw [hends, Predicate.fault_of_admits _ hfails]
        exact .inr ⟨rfl, k, List.mem_cons_self, r, h r hr, f, hfails⟩

theorem run_execute_matches (ms : List MatchStage) (m : Memory) :
    (execute ⟨ms.map .keep⟩).run Memory.handle m =
      (Fault.lift (Value.keepIf (Predicate.admitsAll (ms.map MatchStage.predicate))
        (m.contents projects)), m) := by
  have hrun := run_matches ms (m.contents projects) m
  rw [execute, Program.bind_eq, Program.run_bind]
  cases ms with
  | nil =>
    have hall : Value.keepIf (Predicate.admitsAll []) (m.contents projects) =
        .ok ((m.contents projects).filter fun _ => true) := Value.keepIf_eq_filter fun r _ => rfl
    rw [List.map_nil, List.map_nil, hall, List.filter_true]
    rfl
  | cons k ms =>
    rw [run_runStages_none (by simp), hrun]
    cases Value.keepIf (Predicate.admitsAll ((k :: ms).map MatchStage.predicate))
      (m.contents projects) <;> rfl

theorem run_execute_search (before : List Stage) (s : SearchStage) (ms : List MatchStage) (m : Memory)
    {left : Option (List Value)} (h : (runStages before none).run Memory.handle m = (.ok left, m)) :
    (execute ⟨before ++ .search s :: ms.map .keep⟩).run Memory.handle m =
      (Fault.lift (Value.keepIf (Predicate.admitsAll (ms.map MatchStage.predicate))
        (Memory.ranked s (m.entries projects))), m) := by
  have hrun : (runStages (.search s :: ms.map .keep) left).run Memory.handle m =
      (runStages (ms.map .keep) (some (Memory.ranked s (m.entries projects)))).run Memory.handle m :=
    rfl
  rw [run_matches] at hrun
  simp only [execute, Program.bind_eq, Program.run_bind, runStages_append, h, hrun]
  cases Value.keepIf (Predicate.admitsAll (ms.map MatchStage.predicate))
      (Memory.ranked s (m.entries projects)) <;> rfl

/-- A plan gives one pass over its base with the match stages since the last search, unless a stage
before it fails. -/
theorem run_execute_cases (p : Plan) (m : Memory) :
    p.execute.run Memory.handle m =
        (Fault.lift (Value.keepIf p.sinceSearch.admits (p.base m)), m) ∨
      p.execute.run Memory.handle m = (.error (.fault .wrongKind), m) ∧ p.FailsSomewhere m := by
  obtain ⟨stages⟩ := p
  obtain ⟨ms, rfl | ⟨before, s, rfl⟩⟩ := stages_cases stages
  · refine .inl ?_
    rw [run_execute_matches, sinceSearch_matches, admits_matches, base_matches]
  · obtain ⟨left, hleft⟩ | ⟨hends, k, hk, hfails⟩ :=
      @run_runStages_cases m before none fun r hr => hr
    · refine .inl ?_
      rw [run_execute_search before s ms m hleft, sinceSearch_search, admits_matches, base_search]
    · refine .inr ⟨?_, k, List.mem_append_left _ hk, hfails⟩
      simp only [execute, Program.bind_eq, Program.run_bind, runStages_append, hends]

/-- If there is no search before a match stage, that is one pass with all of them. -/
theorem run_execute_searchesFirst {p : Plan} (h : p.SearchesFirst) (m : Memory) :
    p.execute.run Memory.handle m = (Fault.lift (Value.keepIf p.admits (p.base m)), m) := by
  obtain ⟨stages⟩ := p
  obtain ⟨ms, rfl | ⟨before, s, rfl⟩⟩ := stages_cases stages
  · rw [run_execute_matches, admits_matches, base_matches]
  · cases before with
    | nil =>
      have hbase := base_search ms [] s m
      rw [List.nil_append] at hbase ⊢
      rw [admits_search, hbase]
      exact run_execute_search [] s ms m rfl
    | cons stage before => exact absurd (by simp) (h s)

theorem exists_of_admitsAll {ps : List Predicate} {r : Value} {f : Fault}
    (h : Predicate.admitsAll ps r = .error f) : ∃ p ∈ ps, ∃ g, p.admits r = .error g := by
  induction ps with
  | nil => cases h
  | cons p ps ih =>
    cases hp : p.admits r with
    | error g => exact ⟨p, List.mem_cons_self, g, hp⟩
    | ok b =>
      rw [Predicate.admitsAll, hp] at h
      cases b with
      | false => cases h
      | true =>
        obtain ⟨q, hq, hfails⟩ := ih h
        exact ⟨q, List.mem_cons_of_mem _ hq, hfails⟩

theorem failsSomewhere_of_sinceSearch {p : Plan} {m : Memory} {r : Value} {f : Fault}
    (hr : r ∈ p.base m) (h : p.sinceSearch.admits r = .error f) : p.FailsSomewhere m := by
  obtain ⟨q, hq, g, hfails⟩ := exists_of_admitsAll h
  obtain ⟨k, hk, rfl⟩ := List.mem_map.1 hq
  have hmem : .keep k ∈ p.sinceSearch.stages := by
    obtain ⟨stage, hstage, hsome⟩ := List.mem_filterMap.1 hk
    cases stage with
    | search s => cases hsome
    | keep l =>
      cases hsome
      exact hstage
  exact ⟨k, (List.rtakeWhile_suffix _ _).subset hmem, r, mem_of_base hr, g, hfails⟩

theorem fault_of_admits {p : Plan} (r : Value) (f : Fault) (h : p.admits r = .error f) :
    f = .wrongKind :=
  Predicate.fault_of_admitsAll _ h

theorem keepIf_eq_ok_iff {p : Plan} {records kept : List Value} :
    Value.keepIf p.admits records = .ok kept ↔ p.Narrows records kept := by
  constructor
  · intro h
    obtain ⟨hall, hkept⟩ | ⟨r, -, f, -, hends⟩ := Value.keepIf_cases p.admits records
    · exact ⟨_, hall, Except.ok.inj (h.symm.trans hkept)⟩
    · rw [hends] at h
      cases h
  · rintro ⟨keep, hall, rfl⟩
    exact Value.keepIf_eq_filter hall

theorem searchesFirst_of_ofConditions {c : Conditions} {p : Plan} (h : ofConditions c = .ok p) :
    p.SearchesFirst := by
  obtain ⟨actor, -, rfl⟩ := ofConditions_eq_ok_iff.1 h
  intro s hs
  obtain ⟨i, hi⟩ := List.mem_iff_getElem?.1 hs
  rw [List.getElem?_tail] at hi
  exact Nat.succ_ne_zero i ((arranged_compiled c actor).searchAtStart _ s hi)

end Plan

/-- A plan gives the records of its base that the match stages since the last search admit, in order,
unless some predicate of it fails on some project. If it searches first or not at all, as plans of
conditions do, it gives the records of its base that it admits as a whole, and fails exactly if it
fails on one of them. -/
theorem execute_narrows_base (p : Plan) (m : Memory) :
    ((∃ kept, p.sinceSearch.Narrows (p.base m) kept ∧
        p.execute.run Memory.handle m = (.ok kept, m)) ∨
      p.execute.run Memory.handle m = (.error (.fault .wrongKind), m) ∧ p.FailsSomewhere m) ∧
    (p.SearchesFirst →
      (∀ kept, p.execute.run Memory.handle m = (.ok kept, m) ↔ p.Narrows (p.base m) kept) ∧
      (p.execute.run Memory.handle m = (.error (.fault .wrongKind), m) ↔
        ∃ r ∈ p.base m, ∃ f, p.admits r = .error f)) ∧
    ∀ c, Plan.ofConditions c = .ok p → p.SearchesFirst := by
  refine ⟨?_, fun hfirst => ?_, fun c => Plan.searchesFirst_of_ofConditions⟩
  · obtain hrun | hfails := p.run_execute_cases m
    · rw [hrun]
      obtain ⟨hall, hkept⟩ | ⟨r, hr, f, hfails, hends⟩ :=
        Value.keepIf_cases p.sinceSearch.admits (p.base m)
      · rw [hkept]
        exact .inl ⟨_, ⟨_, hall, rfl⟩, rfl⟩
      · rw [hends, Plan.fault_of_admits r f hfails]
        exact .inr ⟨rfl, Plan.failsSomewhere_of_sinceSearch hr hfails⟩
    · exact .inr hfails
  · rw [Plan.run_execute_searchesFirst hfirst m]
    refine ⟨fun kept => ?_, ?_⟩
    · rw [← Plan.keepIf_eq_ok_iff]
      cases Value.keepIf p.admits (p.base m) <;> simp [Fault.lift]
    · rw [← Value.keepIf_eq_error_iff Plan.fault_of_admits]
      cases Value.keepIf p.admits (p.base m) <;> simp [Fault.lift]

/-- The skills of the actor's own project cannot be searched. A plan that leaves it out before it looks
at skills gives the other one, a plan that looks at them first fails. -/
theorem execute_narrows_base_order :
    let own : Fields := [("id", .text "p1"), ("owner", .text "U1"), ("skills", .list [.list []])]
    let other : Fields := [("id", .text "p2"), ("owner", .text "U2"), ("skills", .list [.text "css"])]
    let m : Memory := .holding [(projects, [⟨.text "p1", own⟩, ⟨.text "p2", other⟩])]
    let foreign : Stage := .keep ⟨"exclude_owner", .ne "owner" (.text "U1")⟩
    let skilled : Stage := .keep ⟨"skills", .containsAll "skills" ["css"]⟩
    let p : Plan := ⟨[foreign, skilled]⟩
    let q : Plan := ⟨[skilled, foreign]⟩
    let c : Conditions := ⟨[.skills ["css"], .excludeOwner "U1"]⟩
    Plan.ofConditions c = .ok p ∧ p.SearchesFirst ∧ p.Narrows (p.base m) [.object other] ∧
      p.execute.run Memory.handle m = (.ok [.object other], m) ∧
      q.SearchesFirst ∧ (∃ r ∈ q.base m, ∃ f, q.admits r = .error f) ∧
      q.execute.run Memory.handle m = (.error (.fault .wrongKind), m) := by
  intro own other m foreign skilled p q c
  have hc : Plan.ofConditions c = .ok p := by
    have hsorted : Plan.sortedTexts ["css"] = ["css"] := List.mergeSort_singleton "css"
    refine Plan.ofConditions_eq_ok_iff.2 ⟨"U1", rfl, ?_⟩
    simp [Plan.compiled, Plan.searchStages, Plan.budgetStages, Plan.skillStages, Plan.ownerStage,
      Conditions.textSearch?, Conditions.textSearches, Conditions.budgetRanges, Conditions.skills?,
      Conditions.skillSets, c, p, foreign, skilled, hsorted]
  have hp : p.SearchesFirst := (execute_narrows_base p m).2.2 c hc
  have hq : q.SearchesFirst := by simp [Plan.SearchesFirst, q, foreign]
  have hbase : ∀ plan : Plan, plan.searches = [] → plan.base m = [.object own, .object other] := by
    intro plan hnone
    rw [Plan.base, hnone]
    rfl
  have hkept : p.Narrows (p.base m) [.object other] := by
    rw [hbase p rfl]
    refine ⟨fun r => !(r.child "owner").same (.text "U1"), ?_, rfl⟩
    simp only [List.forall_mem_cons]
    exact ⟨rfl, rfl, by simp⟩
  have hfails : ∃ r ∈ q.base m, ∃ f, q.admits r = .error f := by
    rw [hbase q rfl]
    exact ⟨_, List.mem_cons_self, _, rfl⟩
  exact ⟨hc, hp, hkept, (((execute_narrows_base p m).2.1 hp).1 _).2 hkept, hq, hfails,
    ((execute_narrows_base q m).2.1 hq).2.2 hfails⟩

end FreelanceBoard
