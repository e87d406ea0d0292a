import FreelanceBoard.Plan.Compiled
import Mathlib.Data.List.Basic

/-! How the plan of conditions is laid out. Which stages there are depends on the kinds of the clauses
alone, and the whole plan on the clauses of each kind alone: how clauses of different kinds stand
between each other makes no difference. -/
namespace FreelanceBoard

def Clause.kind : Clause → ClauseKind
  | .textSearch _ => .textSearch
  | .budgetRange _ => .budgetRange
  | .skills _ => .skills
  | .excludeOwner _ => .excludeOwner

namespace Conditions

/-- The clauses of one kind, in the order they have. -/
def ofKind (c : Conditions) (k : ClauseKind) : List Clause := c.clauses.filter fun x => x.kind == k

def HasKind (c : Conditions) (k : ClauseKind) : Prop := ∃ x ∈ c.clauses, x.kind = k

/-- A clause with none of its kind before it. -/
def First (c : Conditions) (x : Clause) : Prop := (c.ofKind x.kind).head? = some x

/-- The clauses of a kind are those that a selection of this kind takes apart. -/
theorem ofKind_eq_map {α : Type} {k : ClauseKind} (make : α → Clause) {select : Clause → Option α}
    (hmake : ∀ a, (make a).kind = k ∧ select (make a) = some a)
    (hselect : ∀ x, (∃ a, x = make a) ∨ x.kind ≠ k ∧ select x = none) (c : Conditions) :
    c.ofKind k = (c.clauses.filterMap select).map make := by
  rw [ofKind]
  induction c.clauses with
  | nil => rfl
  | cons x rest ih =>
    obtain ⟨a, rfl⟩ | ⟨hkind, hnone⟩ := hselect x
    · obtain ⟨hkind, hsome⟩ := hmake a
      rw [List.filterMap_cons_some hsome, List.filter_cons_of_pos (by simpa using hkind), ih,
        List.map_cons]
    · rw [List.filterMap_cons_none hnone, List.filter_cons_of_neg (by simpa using hkind), ih]

theorem ofKind_textSearch (c : Conditions) :
    c.ofKind .textSearch = c.textSearches.map .textSearch :=
  ofKind_eq_map .textSearch (fun _ => ⟨rfl, rfl⟩) (fun x => by cases x <;> simp [Clause.kind]) c

theorem ofKind_budgetRange (c : Conditions) :
    c.ofKind .budgetRange = c.budgetRanges.map .budgetRange :=
  ofKind_eq_map .budgetRange (fun _ => ⟨rfl, rfl⟩) (fun x => by cases x <;> simp [Clause.kind]) c

theorem ofKind_skills (c : Conditions) : c.ofKind .skills = c.skillSets.map .skills :=
  ofKind_eq_map .skills (fun _ => ⟨rfl, rfl⟩) (fun x => by cases x <;> simp [Clause.kind]) c

theorem ofKind_excludeOwner (c : Conditions) :
    c.ofKind .excludeOwner = c.owners.map .excludeOwner :=
  ofKind_eq_map .excludeOwner (fun _ => ⟨rfl, rfl⟩) (fun x => by cases x <;> simp [Clause.kind]) c

variable {c d : Conditions}

theorem mem_ofKind {k : ClauseKind} {x : Clause} : x ∈ c.ofKind k ↔ x ∈ c.clauses ∧ x.kind = k := by
  simp [ofKind]

theorem hasKind_iff {k : ClauseKind} : c.HasKind k ↔ c.ofKind k ≠ [] := by
  simp [HasKind, ofKind, List.filter_eq_nil_iff]

theorem hasKind_textSearch_iff : c.HasKind .textSearch ↔ c.textSearch? ≠ none := by
  simp [hasKind_iff, ofKind_textSearch, textSearch?]

theorem hasKind_budgetRange_iff : c.HasKind .budgetRange ↔ c.budgetRanges ≠ [] := by
  simp [hasKind_iff, ofKind_budgetRange]

theorem hasKind_skills_iff : c.HasKind .skills ↔ c.skills? ≠ none := by
  simp [hasKind_iff, ofKind_skills, skills?]

theorem hasKind_excludeOwner_iff : c.HasKind .excludeOwner ↔ c.owner? ≠ none := by
  simp [hasKind_iff, ofKind_excludeOwner, owner?]

theorem budgetRange_mem_iff {range : BudgetRange} :
    .budgetRange range ∈ c.clauses ↔ range ∈ c.budgetRanges := by
  have hmem := @mem_ofKind c .budgetRange (.budgetRange range)
  rw [ofKind_budgetRange] at hmem
  simpa [Clause.kind] using hmem.symm

theorem first_skills_iff {required : List String} :
    c.First (.skills required) ↔ c.skills? = some required := by
  simp [First, Clause.kind, ofKind_skills, skills?]

theorem first_excludeOwner_iff {actor : String} :
    c.First (.excludeOwner actor) ↔ c.owner? = some actor := by
  simp [First, Clause.kind, ofKind_excludeOwner, owner?]

end Conditions

namespace Plan

/-- The plan of conditions that exclude an owner. -/
def compiled (c : Conditions) (actor : String) : Plan :=
  ⟨searchStages c ++ [ownerStage actor] ++ budgetStages c ++ skillStages c⟩

variable {c d : Conditions} {p : Plan}

theorem ofConditions_eq_ok_iff :
    ofConditions c = .ok p ↔ ∃ actor, c.owner? = some actor ∧ compiled c actor = p := by
  rw [ofConditions]
  cases c.owner? <;> simp [compiled]

theorem ofConditions_eq_error_iff {e : Failure} :
    ofConditions c = .error e ↔ e = .fault .noSuchItem ∧ ¬ c.HasKind .excludeOwner := by
  rw [Conditions.hasKind_excludeOwner_iff, ofConditions]
  cases c.owner? <;> simp [eq_comm]

/-- Clauses of different kinds may change places. -/
theorem ofConditions_congr (h : ∀ k, d.ofKind k = c.ofKind k) : ofConditions d = ofConditions c := by
  have htexts : d.textSearches = c.textSearches :=
    List.map_injective_iff.2 (fun _ _ => Clause.textSearch.inj)
      (by rw [← Conditions.ofKind_textSearch, ← Conditions.ofKind_textSearch, h])
  have hranges : d.budgetRanges = c.budgetRanges :=
    List.map_injective_iff.2 (fun _ _ => Clause.budgetRange.inj)
      (by rw [← Conditions.ofKind_budgetRange, ← Conditions.ofKind_budgetRange, h])
  have hskills : d.skillSets = c.skillSets :=
    List.map_injective_iff.2 (fun _ _ => Clause.skills.inj)
      (by rw [← Conditions.ofKind_skills, ← Conditions.ofKind_skills, h])
  have howners : d.owners = c.owners :=
    List.map_injective_iff.2 (fun _ _ => Clause.excludeOwner.inj)
      (by rw [← Conditions.ofKind_excludeOwner, ← Conditions.ofKind_excludeOwner, h])
  simp only [ofConditions, searchStages, budgetStages, skillStages, Conditions.owner?,
    Conditions.textSearch?, Conditions.skills?, htexts, hranges, hskills, howners]

/-- The names of the match stages in order. -/
def matchNames (p : Plan) : List String := p.matchStages.map MatchStage.name

/-- A plan laid out in the fixed order, with those stages that conditions have clauses for. -/
structure Arranged (p : Plan) (c : Conditions) : Prop where
  searchAtStart : ∀ (i : Nat) s, p.stages[i]? = some (.search s) → i = 0
  ownerFirst : p.matchNames.head? = some "exclude_owner"
  inOrder : p.matchNames.Sublist ["exclude_owner", "budget", "skills"]
  search_iff : (∃ s, .search s ∈ p.stages) ↔ c.HasKind .textSearch
  budget_iff : "budget" ∈ p.matchNames ↔ c.HasKind .budgetRange
  skills_iff : "skills" ∈ p.matchNames ↔ c.HasKind .skills

theorem stages_compiled (c : Conditions) (actor : String) :
    (compiled c actor).stages =
      searchStages c ++ (ownerStage actor :: (budgetStages c ++ skillStages c)) := by
  simp [compiled]

/-- After the search there are match stages only. -/
theorem search_notMem (c : Conditions) (actor : String) (s : SearchStage) :
    .search s ∉ ownerStage actor :: (budgetStages c ++ skillStages c) := by
  rw [ownerStage, budgetStages, skillStages]
  cases c.budgetRanges <;> cases c.skills? <;> simp

theorem matchNames_compiled (c : Conditions) (actor : String) :
    (compiled c actor).matchNames =
      "exclude_owner" :: ((if c.budgetRanges = [] then [] else ["budget"]) ++
        if c.skills? = none then [] else ["skills"]) := by
  rw [matchNames, matchStages, stages_compiled, searchStages, budgetStages, skillStages, ownerStage]
  cases c.textSearch? <;> cases c.budgetRanges <;> cases c.skills? <;> rfl

theorem arranged_compiled (c : Conditions) (actor : String) : (compiled c actor).Arranged c where
  searchAtStart := by
    intro i s hi
    rw [stages_compiled, searchStages] at hi
    cases ht : c.textSearch? with
    | none =>
      rw [ht, List.nil_append] at hi
      exact absurd (List.mem_of_getElem? hi) (search_notMem c actor s)
    | some text =>
      rw [ht, List.singleton_append] at hi
      cases i with
      | zero => rfl
      | succ i =>
        rw [List.getElem?_cons_succ] at hi
        exact absurd (List.mem_of_getElem? hi) (search_notMem c actor s)
  ownerFirst := by rw [matchNames_compiled]; rfl
  inOrder := by
    rw [matchNames_compiled]
    by_cases hb : c.budgetRanges = [] <;> by_cases hs : c.skills? = none <;> simp [hb, hs]
  search_iff := by
    have hmem : ∀ s, .search s ∈ (compiled c actor).stages ↔ .search s ∈ searchStages c := by
      intro s
      rw [stages_compiled, List.mem_append, or_iff_left (search_notMem c actor s)]
    simp only [hmem, Conditions.hasKind_textSearch_iff, searchStages]
    cases c.textSearch? <;> simp
  budget_iff := by
    rw [matchNames_compiled, Conditions.hasKind_budgetRange_iff]
    by_cases hb : c.budgetRanges = [] <;> simp [hb]
  skills_iff := by
    rw [matchNames_compiled, Conditions.hasKind_skills_iff]
    by_cases hs : c.skills? = none <;> simp [hs]

end Plan

/-- Conditions without an owner to leave out have no plan, for want of an item, and all others have
one. It searches first if at all, then leaves out the owner, and then looks at budgets and skills, each
once and only if there is a clause for it. Conditions with the same clauses of each kind have the same
plan. -/
theorem compiledPlan_arranged (c : Conditions) :
    (∀ e, Plan.ofConditions c = .error e ↔
      e = .fault .noSuchItem ∧ ¬ c.HasKind .excludeOwner) ∧
    (∀ p, Plan.ofConditions c = .ok p → p.Arranged c) ∧
    ∀ d : Conditions, (∀ k, d.ofKind k = c.ofKind k) → Plan.ofConditions d = Plan.ofConditions c := by
  refine ⟨fun e => Plan.ofConditions_eq_error_iff, fun p hp => ?_, fun d => Plan.ofConditions_congr⟩
  obtain ⟨actor, -, rfl⟩ := Plan.ofConditions_eq_ok_iff.1 hp
  exact Plan.arranged_compiled c actor

/-- Two owners and two budgets stand between the other clauses, and in one row each. -/
theorem compiledPlan_arranged_interleaved :
    let text : TextSearch := ⟨"title", "shop", 1⟩
    let hourly : BudgetRange := ⟨.hourly, "EUR", none, some .nan⟩
    let fixed : BudgetRange := ⟨.fixed, "USD", some (.finite 100), none⟩
    let c : Conditions := ⟨[.skills [], .excludeOwner "U1", .budgetRange hourly, .textSearch text,
      .excludeOwner "U2", .budgetRange fixed]⟩
    let d : Conditions := ⟨[.textSearch text, .budgetRange hourly, .budgetRange fixed, .skills [],
      .excludeOwner "U1", .excludeOwner "U2"]⟩
    (∀ k, d.ofKind k = c.ofKind k) ∧
      ∃ p, Plan.ofConditions c = .ok p ∧ p.Arranged c ∧ Plan.ofConditions d = .ok p := by
  intro text hourly fixed c d
  obtain ⟨-, harranged, hcongr⟩ := compiledPlan_arranged c
  have hkinds : ∀ k, d.ofKind k = c.ofKind k := by
    intro k
    cases k <;> rfl
  have hplan : Plan.ofConditions c = .ok (Plan.compiled c "U1") := rfl
  exact ⟨hkinds, _, hplan, harranged _ hplan, (hcongr d hkinds).trans hplan⟩

end FreelanceBoard
