import FreelanceBoard.Proofs.CompiledStages
import FreelanceBoard.Proofs.Spellings

/-! The plan of a filter in one piece. A filter has a plan exactly if it can be read, its actor is
named and the bounds of its active budgets are not too large to be doubles; the stages of the plan
can then be told from the filter. -/
namespace FreelanceBoard

namespace BudgetFilter

/-- A budget filter that says something, about amounts in a currency. -/
structure Active (b : BudgetFilter) (currency : String) : Prop where
  checked : b.checked = true
  inCurrency : b.currency = some currency
  named : currency ≠ ""
  bounded : b.min ≠ none ∨ b.max ≠ none

theorem isActive_iff {b : BudgetFilter} : b.isActive = true ↔ ∃ c, b.Active c := by
  constructor
  · intro h
    simp only [isActive, Bool.and_eq_true, Bool.or_eq_true] at h
    obtain ⟨⟨hchecked, hcurrency⟩, hbounded⟩ := h
    obtain ⟨c, hc, hne⟩ := (Option.any_eq_true _ _).1 hcurrency
    refine ⟨c, hchecked, hc, by simpa using hne, ?_⟩
    simpa [Option.isSome_iff_ne_none] using hbounded
  · rintro ⟨c, hchecked, hc, hne, hbounded⟩
    simpa [isActive, hchecked, hc, hne, Option.isSome_iff_ne_none] using hbounded

/-- The range of an active filter, its bounds as doubles. -/
def toRange (p : Pricing) (b : BudgetFilter) : BudgetRange :=
  ⟨p, b.currency.getD "", b.min.bind Number.toDouble?, b.max.bind Number.toDouble?⟩

/-- Whether each bound that is given has a double. -/
def Fits (b : BudgetFilter) : Prop :=
  (∀ n ∈ b.min, n.toDouble? ≠ none) ∧ ∀ n ∈ b.max, n.toDouble? ≠ none

end BudgetFilter

namespace Conditions

theorem boundToDouble_eq_valid_iff {key : String} {bound : Option Number} {x : Option Double} :
    boundToDouble key bound = .valid x ↔
      (∀ n ∈ bound, n.toDouble? ≠ none) ∧ bound.bind Number.toDouble? = x := by
  cases bound with
  | none => simp [boundToDouble]
  | some n => cases h : n.toDouble? <;> simp [boundToDouble, h]

theorem budgetClause_eq_valid_iff {p : Pricing} {b : BudgetFilter} {c : Clause} :
    budgetClause p b = .valid c ↔ b.Fits ∧ .budgetRange (b.toRange p) = c := by
  simp only [budgetClause, Checked.map_eq, Checked.seq_eq, Checked.apply_eq_valid_iff,
    Checked.map_eq_valid_iff, boundToDouble_eq_valid_iff]
  constructor
  · rintro ⟨g, y, ⟨x, ⟨hmin, rfl⟩, rfl⟩, ⟨hmax, rfl⟩, rfl⟩
    exact ⟨⟨hmin, hmax⟩, rfl⟩
  · rintro ⟨⟨hmin, hmax⟩, rfl⟩
    exact ⟨_, _, ⟨_, ⟨hmin, rfl⟩, rfl⟩, ⟨hmax, rfl⟩, rfl⟩

end Conditions

namespace ProjectFilter

/-- The filter that asks for nothing, for which no filter at all stands. -/
def blank : ProjectFilter := ⟨none, none, none, none⟩

/-- Whether the bounds of every active budget have doubles. -/
def Fits (f : ProjectFilter) : Prop :=
  ∀ p b, f.budgetFor p = some b → b.isActive = true → b.Fits

/-- The range of one pricing, if the filter is active there. -/
def range? (f : ProjectFilter) (p : Pricing) : Option BudgetRange :=
  ((f.budgetFor p).filter BudgetFilter.isActive).map (BudgetFilter.toRange p)

/-- The active ranges, in the order of the pricings. -/
def ranges (f : ProjectFilter) : List BudgetRange := Pricing.all.filterMap f.range?

theorem mem_ranges_iff {f : ProjectFilter} {r : BudgetRange} :
    r ∈ f.ranges ↔
      ∃ p b, f.budgetFor p = some b ∧ b.isActive = true ∧ b.toRange p = r := by
  simp only [ranges, List.mem_filterMap, range?, Option.map_eq_some_iff, Option.filter_eq_some_iff]
  constructor
  · rintro ⟨p, -, b, ⟨hb, hactive⟩, rfl⟩
    exact ⟨p, b, hb, hactive, rfl⟩
  · rintro ⟨p, b, hb, hactive, rfl⟩
    exact ⟨p, by cases p <;> simp [Pricing.all], b, ⟨hb, hactive⟩, rfl⟩

theorem fits_blank : blank.Fits := by
  intro p b hb
  cases p <;> cases hb

/-- The title that is searched for, unless it is blank. -/
def query? (f : ProjectFilter) : Option String :=
  f.title.filter fun t => decide (Text.strip t ≠ "")

/-- The skills that are asked for, each once. -/
def required (f : ProjectFilter) : List String := Conditions.wantedSkills f.skills

theorem query?_eq_some_iff {f : ProjectFilter} {t : String} :
    f.query? = some t ↔ f.title = some t ∧ Text.strip t ≠ "" := by
  simp [query?, Option.filter_eq_some_iff]

theorem mem_distinctTexts {t : String} {texts : List String} :
    t ∈ distinctTexts texts ↔ t ∈ texts := by
  suffices h : ∀ kept : List String,
      t ∈ texts.foldl (fun kept t => if t ∈ kept then kept else kept ++ [t]) kept ↔
        t ∈ kept ∨ t ∈ texts by
    simpa [distinctTexts] using h []
  induction texts with
  | nil => simp
  | cons s rest ih =>
    intro kept
    rw [List.foldl_cons, ih]
    by_cases hs : s ∈ kept
    · simp only [hs, if_true, List.mem_cons]
      constructor
      · rintro (h | h)
        · exact .inl h
        · exact .inr (.inr h)
      · rintro (h | rfl | h)
        · exact .inl h
        · exact .inl hs
        · exact .inr h
    · simp [hs, or_assoc]

theorem mem_required_iff {f : ProjectFilter} {t : String} :
    t ∈ f.required ↔ ∃ s ∈ f.skills.getD [], Text.strip s ≠ "" ∧ Text.strip s = t := by
  simp only [required, Conditions.wantedSkills, mem_distinctTexts, List.mem_filter, List.mem_map]
  constructor
  · rintro ⟨⟨s, hs, rfl⟩, hne⟩
    exact ⟨s, hs, by simpa using hne, rfl⟩
  · rintro ⟨s, hs, hne, rfl⟩
    exact ⟨⟨s, hs, rfl⟩, by simpa using hne⟩

end ProjectFilter

namespace Conditions

theorem map_eq_ok_iff {ε α β : Type} {f : α → β} {x : Except ε α} {b : β} :
    x.map f = .ok b ↔ ∃ a, x = .ok a ∧ f a = b := by
  cases x <;> simp [Except.map]

theorem budgetClauses_eq_ok_iff {f : ProjectFilter} {ps : List Pricing} {cs : List Clause} :
    budgetClauses f ps = .ok cs ↔
      (∀ p ∈ ps, ∀ b, f.budgetFor p = some b → b.isActive = true → b.Fits) ∧
        (ps.filterMap f.range?).map .budgetRange = cs := by
  induction ps generalizing cs with
  | nil => simp [budgetClauses]
  | cons p ps ih =>
    rw [budgetClauses]
    cases hb : f.budgetFor p with
    | none => simp [ih, hb, ProjectFilter.range?]
    | some b =>
      cases hactive : b.isActive with
      | false => simp [ih, hb, hactive, ProjectFilter.range?]
      | true =>
        have hclause := @budgetClause_eq_valid_iff p b
        cases hc : budgetClause p b with
        | valid c =>
          obtain ⟨hfits, rfl⟩ := hclause.1 hc
          simp [hc, map_eq_ok_iff, ih, hb, hactive, hfits, ProjectFilter.range?]
        | invalid issues =>
          have hno : ¬ b.Fits := by
            intro hfits
            rw [hclause.2 ⟨hfits, rfl⟩] at hc
            cases hc
          simp [hc, hb, hactive, hno]

/-- The clauses of a filter, and last the owner that is left out. -/
def asking (f : ProjectFilter) (actor : String) : Conditions :=
  ⟨titleClauses f.title ++ f.ranges.map .budgetRange ++ skillClauses f.skills
    ++ [.excludeOwner actor]⟩

theorem filterClauses_eq_ok_iff {f : ProjectFilter} {cs : List Clause} :
    filterClauses f = .ok cs ↔ f.Fits ∧
      titleClauses f.title ++ f.ranges.map .budgetRange ++ skillClauses f.skills = cs := by
  have hfits : (∀ p ∈ Pricing.all, ∀ b, f.budgetFor p = some b → b.isActive = true → b.Fits) ↔
      f.Fits :=
    ⟨fun h p b => h p (by cases p <;> simp [Pricing.all]) b, fun h p _ b => h p b⟩
  have hbudgets := @budgetClauses_eq_ok_iff f Pricing.all
  rw [hfits] at hbudgets
  rw [filterClauses]
  cases hcs : budgetClauses f Pricing.all with
  | ok budgets =>
    obtain ⟨h, rfl⟩ := hbudgets.1 hcs
    simp [h, ProjectFilter.ranges]
  | error e =>
    have hno : ¬ f.Fits := by
      intro h
      rw [hbudgets.2 ⟨h, rfl⟩] at hcs
      cases hcs
    simp [hno]

theorem elim_filterClauses_eq_ok_iff {filter : Option ProjectFilter} {cs : List Clause} :
    filter.elim (.ok []) filterClauses = .ok cs ↔ (filter.getD .blank).Fits ∧
      titleClauses (filter.getD .blank).title ++ (filter.getD .blank).ranges.map .budgetRange ++
        skillClauses (filter.getD .blank).skills = cs := by
  cases filter with
  | none => exact ⟨fun h => ⟨ProjectFilter.fits_blank, Except.ok.inj h⟩, fun h => congrArg _ h.2⟩
  | some f => exact filterClauses_eq_ok_iff

/-- When a filter and an actor make conditions, and which. -/
theorem ofFilter_eq_ok_iff {filter : Option ProjectFilter} {actor : Value} {c : Conditions} :
    ofFilter filter actor = .ok c ↔ ∃ a, actor.Spells a ∧ a ≠ "" ∧
      (filter.getD .blank).Fits ∧ asking (filter.getD .blank) a = c := by
  cases htruthy : actor.truthy with
  | false =>
    have hno : ¬ ∃ a, actor.Spells a ∧ a ≠ "" ∧ (filter.getD .blank).Fits ∧
        asking (filter.getD .blank) a = c := by
      rintro ⟨a, ha, hne, -⟩
      rw [ha.truthy_iff.2 hne] at htruthy
      cases htruthy
    simp [ofFilter, htruthy, hno]
  | true =>
    rw [ofFilter, if_pos htruthy]
    cases hcs : filter.elim (.ok []) filterClauses with
    | error e =>
      have hno : ¬ (filter.getD .blank).Fits := by
        intro hfits
        rw [elim_filterClauses_eq_ok_iff.2 ⟨hfits, rfl⟩] at hcs
        cases hcs
      simp [hno]
    | ok cs =>
      obtain ⟨hfits, rfl⟩ := elim_filterClauses_eq_ok_iff.1 hcs
      cases hread : (Reader.laxText actor).under "actor_id" with
      | invalid issues =>
        have hno : ∀ a, ¬ actor.Spells a := by
          intro a ha
          rw [← Reader.laxText_eq_valid_iff, ← Checked.under_eq_valid_iff, hread] at ha
          cases ha
        simp [hno]
      | valid a =>
        rw [Checked.under_eq_valid_iff, Reader.laxText_eq_valid_iff] at hread
        have hunique : ∀ b, actor.Spells b → b = a := fun b hb => hb.unique hread
        have hne : a ≠ "" := hread.truthy_iff.1 htruthy
        constructor
        · intro h
          exact ⟨a, hread, hne, hfits, Except.ok.inj h⟩
        · rintro ⟨b, hb, -, -, rfl⟩
          rw [hunique b hb]
          rfl

theorem titleClauses_eq (f : ProjectFilter) :
    titleClauses f.title = f.query?.toList.map fun t => .textSearch ⟨"title", t, titleEdits⟩ := by
  cases ht : f.title with
  | none => simp [titleClauses, ProjectFilter.query?, ht]
  | some t =>
    by_cases hblank : Text.strip t = ""
    · simp [titleClauses, ProjectFilter.query?, ht, hblank]
    · simp [titleClauses, ProjectFilter.query?, ht, hblank, Option.filter]

theorem skillClauses_eq (f : ProjectFilter) :
    skillClauses f.skills = if f.required = [] then [] else [.skills f.required] := by
  rw [skillClauses, ProjectFilter.required]
  cases wantedSkills f.skills <;> simp

theorem textSearches_asking (f : ProjectFilter) (actor : String) :
    (asking f actor).textSearches = f.query?.toList.map fun t => ⟨"title", t, titleEdits⟩ := by
  rw [textSearches, asking, titleClauses_eq, skillClauses_eq]
  cases f.query? <;> by_cases hs : f.required = [] <;>
    simp [hs, List.filterMap_append, List.filterMap_map]

theorem budgetRanges_asking (f : ProjectFilter) (actor : String) :
    (asking f actor).budgetRanges = f.ranges := by
  rw [budgetRanges, asking, titleClauses_eq, skillClauses_eq]
  cases f.query? <;> by_cases hs : f.required = [] <;>
    simp [hs, List.filterMap_append, List.filterMap_map]

theorem skillSets_asking (f : ProjectFilter) (actor : String) :
    (asking f actor).skillSets = if f.required = [] then [] else [f.required] := by
  rw [skillSets, asking, titleClauses_eq, skillClauses_eq]
  cases f.query? <;> by_cases hs : f.required = [] <;>
    simp [hs, List.filterMap_append, List.filterMap_map]

theorem owners_asking (f : ProjectFilter) (actor : String) :
    (asking f actor).owners = [actor] := by
  rw [owners, asking, titleClauses_eq, skillClauses_eq]
  cases f.query? <;> by_cases hs : f.required = [] <;>
    simp [hs, List.filterMap_append, List.filterMap_map]

theorem textSearch?_asking (f : ProjectFilter) (actor : String) :
    (asking f actor).textSearch? =
      f.query?.map fun t => ⟨"title", t, titleEdits⟩ := by
  rw [textSearch?, textSearches_asking]
  cases f.query? <;> rfl

theorem skills?_asking (f : ProjectFilter) (actor : String) :
    (asking f actor).skills? = if f.required = [] then none else some f.required := by
  rw [skills?, skillSets_asking]
  by_cases h : f.required = [] <;> simp [h]

end Conditions

namespace ProjectFilter

/-- The match stages of the plan: the owner always, budget and skills where they are asked for. -/
def matchStages (f : ProjectFilter) (actor : String) : List MatchStage :=
  [⟨"exclude_owner", .ne "owner" (.text actor)⟩]
    ++ (if f.ranges = [] then [] else [⟨"budget", .any (f.ranges.map BudgetRange.predicate)⟩])
    ++ if f.required = [] then []
      else [⟨"skills", .containsAll "skills" (Plan.sortedTexts f.required)⟩]

def searchStage? (f : ProjectFilter) : Option SearchStage :=
  f.query?.map fun t => ⟨"title", t, titleEdits⟩

end ProjectFilter

namespace Plan

/-- The plan of a filter: a search if there is a title, and then the match stages. -/
def asking (f : ProjectFilter) (actor : String) : Plan :=
  ⟨f.searchStage?.toList.map .search ++ (f.matchStages actor).map .keep⟩

theorem compiled_asking (f : ProjectFilter) (actor : String) :
    compiled (Conditions.asking f actor) actor = asking f actor := by
  have hsearch : searchStages (Conditions.asking f actor) =
      f.searchStage?.toList.map .search := by
    rw [searchStages, Conditions.textSearch?_asking, ProjectFilter.searchStage?]
    cases f.query? <;> rfl
  have hbudget : budgetStages (Conditions.asking f actor) =
      if f.ranges = [] then []
      else [.keep ⟨"budget", .any (f.ranges.map BudgetRange.predicate)⟩] := by
    rw [budgetStages, Conditions.budgetRanges_asking]
    cases f.ranges <;> simp
  have hskills : skillStages (Conditions.asking f actor) =
      if f.required = [] then []
      else [.keep ⟨"skills", .containsAll "skills" (sortedTexts f.required)⟩] := by
    rw [skillStages, Conditions.skills?_asking]
    by_cases h : f.required = [] <;> simp [h]
  rw [compiled, hsearch, hbudget, hskills]
  by_cases hr : f.ranges = [] <;> by_cases hs : f.required = [] <;>
    simp [asking, ProjectFilter.matchStages, ownerStage, hr, hs]

theorem ofConditions_asking (f : ProjectFilter) (actor : String) :
    ofConditions (Conditions.asking f actor) = .ok (asking f actor) :=
  ofConditions_eq_ok_iff.2
    ⟨actor, by rw [Conditions.owner?, Conditions.owners_asking]; rfl, compiled_asking f actor⟩

theorem search?_asking (f : ProjectFilter) (actor : String) :
    (asking f actor).search? = f.searchStage? := by
  rw [search?, searches, asking, List.filterMap_append, List.filterMap_map, List.filterMap_map]
  cases f.searchStage? <;> simp

theorem matchStages_asking (f : ProjectFilter) (actor : String) :
    (asking f actor).matchStages = f.matchStages actor := by
  rw [matchStages, asking, List.filterMap_append, List.filterMap_map, List.filterMap_map]
  cases f.searchStage? <;> simp

/-- When a raw filter and an actor have a plan, and which. -/
theorem ofFilter_eq_ok_iff {raw actor : Value} {plan : Plan} :
    ofFilter raw actor = .ok plan ↔ ∃ filter a, ProjectFilter.validate raw = .ok filter ∧
      actor.Spells a ∧ a ≠ "" ∧ (filter.getD .blank).Fits ∧
      asking (filter.getD .blank) a = plan := by
  rw [ofFilter]
  cases hraw : ProjectFilter.validate raw with
  | error e => simp
  | ok filter =>
    have hconditions := @Conditions.ofFilter_eq_ok_iff filter actor
    cases hc : Conditions.ofFilter filter actor with
    | error e =>
      have hno : ∀ a, actor.Spells a → a ≠ "" → ¬ (filter.getD .blank).Fits := by
        intro a ha hne hfits
        rw [hconditions.2 ⟨a, ha, hne, hfits, rfl⟩] at hc
        cases hc
      simp only [hc]
      constructor
      · intro h
        cases h
      · rintro ⟨_, a, heq, ha, hne, hfits, -⟩
        cases heq
        exact absurd hfits (hno a ha hne)
    | ok c =>
      obtain ⟨a, ha, hne, hfits, rfl⟩ := hconditions.1 hc
      simp only [hc, ofConditions_asking, Except.ok.injEq]
      constructor
      · rintro rfl
        exact ⟨filter, a, rfl, ha, hne, hfits, rfl⟩
      · rintro ⟨_, b, rfl, hb, -, -, rfl⟩
        rw [hb.unique ha]

end Plan

end FreelanceBoard
