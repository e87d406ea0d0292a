import FreelanceBoard.Proofs.Admission
import FreelanceBoard.Proofs.StagedSearch

/-! What a search gives, told from the filter alone: the stored projects that the filter wants, in
the order of how well they answer its title. -/
namespace FreelanceBoard

namespace ProjectFilter

/-- Whether an actor who searches with a filter wants a record. Each part of the filter that says
nothing leaves every record. -/
structure Wants (f : ProjectFilter) (actor : String) (r : Value) : Prop where
  notOwned : r.child "owner" ≠ .text actor
  titled : ∀ t, f.title = some t → Text.strip t ≠ "" →
    ∃ s, r.child "title" = .text s ∧ 0 < Text.fuzzyScore t s 1
  affordable : (∃ p b c, f.budgetFor p = some b ∧ b.Active c) →
    ∃ p b c, f.budgetFor p = some b ∧ b.Active c ∧
      (r.child "budget").child "type" = .text p.name ∧
      (r.child "budget").child "currency" = .text c ∧
      ((r.child "budget").child "amount").StrictlyBetween (b.min.bind Number.toDouble?)
        (b.max.bind Number.toDouble?)
  skilled : ∀ skills, f.skills = some skills → (∃ s ∈ skills, Text.strip s ≠ "") →
    ∃ items, r.child "skills" = .list items ∧
      ∀ s ∈ skills, Text.strip s ≠ "" → .text (Text.strip s) ∈ items

/-- How well the title of a record answers a query. -/
def titleScore (query : String) (r : Value) : Nat :=
  match r.child "title" with
  | .text s => Text.fuzzyScore query s 1
  | _ => 0

/-- Records in the order in which a search lists them: by falling score of their titles if the
filter has one, equal ones and all others in the order they had. -/
def inOrder (f : ProjectFilter) (records : List Value) : List Value :=
  match f.query? with
  | some query => records.mergeSort fun a b => decide (titleScore query b ≤ titleScore query a)
  | none => records

theorem titleScore_pos_iff {query : String} {r : Value} :
    0 < titleScore query r ↔ ∃ s, r.child "title" = .text s ∧ 0 < Text.fuzzyScore query s 1 := by
  rw [titleScore]
  cases r.child "title" <;> simp

theorem relevanceOf_title (query : String) :
    Memory.relevanceOf ⟨"title", query, titleEdits⟩ = titleScore query := by
  funext r
  cases r with
  | object record =>
    rw [Memory.relevanceOf, Memory.relevance, titleScore, Value.child_object, Fields.get]
    cases record.lookup "title" with
    | none => rfl
    | some v => cases v <;> rfl
  | _ => rfl

theorem exists_covers_iff {f : ProjectFilter} {r : Value} :
    (∃ range ∈ f.ranges, range.Covers r) ↔
      ∃ p b c, f.budgetFor p = some b ∧ b.Active c ∧
        (r.child "budget").child "type" = .text p.name ∧
        (r.child "budget").child "currency" = .text c ∧
        ((r.child "budget").child "amount").StrictlyBetween (b.min.bind Number.toDouble?)
          (b.max.bind Number.toDouble?) := by
  constructor
  · rintro ⟨range, hrange, hpricing, hamount, hcurrency⟩
    obtain ⟨p, b, hb, hactive, rfl⟩ := mem_ranges_iff.1 hrange
    obtain ⟨c, hc⟩ := BudgetFilter.isActive_iff.1 hactive
    refine ⟨p, b, c, hb, hc, hpricing, ?_, hamount⟩
    simpa [BudgetFilter.toRange, hc.inCurrency] using hcurrency
  · rintro ⟨p, b, c, hb, hc, hpricing, hcurrency, hamount⟩
    have hactive := BudgetFilter.isActive_iff.2 ⟨c, hc⟩
    refine ⟨b.toRange p, mem_ranges_iff.2 ⟨p, b, hb, hactive, rfl⟩, hpricing, hamount, ?_⟩
    simpa [BudgetFilter.toRange, hc.inCurrency] using hcurrency

theorem ranges_ne_nil_iff {f : ProjectFilter} :
    f.ranges ≠ [] ↔ ∃ p b c, f.budgetFor p = some b ∧ b.Active c := by
  constructor
  · intro h
    obtain ⟨range, hrange⟩ := List.exists_mem_of_ne_nil _ h
    obtain ⟨p, b, hb, hactive, -⟩ := mem_ranges_iff.1 hrange
    obtain ⟨c, hc⟩ := BudgetFilter.isActive_iff.1 hactive
    exact ⟨p, b, c, hb, hc⟩
  · rintro ⟨p, b, c, hb, hc⟩
    exact List.ne_nil_of_mem (mem_ranges_iff.2 ⟨p, b, hb, BudgetFilter.isActive_iff.2 ⟨c, hc⟩, rfl⟩)

theorem required_ne_nil_iff {f : ProjectFilter} :
    f.required ≠ [] ↔ ∃ s ∈ f.skills.getD [], Text.strip s ≠ "" := by
  constructor
  · intro h
    obtain ⟨t, ht⟩ := List.exists_mem_of_ne_nil _ h
    obtain ⟨s, hs, hne, -⟩ := mem_required_iff.1 ht
    exact ⟨s, hs, hne⟩
  · rintro ⟨s, hs, hne⟩
    exact List.ne_nil_of_mem (mem_required_iff.2 ⟨s, hs, hne, rfl⟩)

theorem hasSkills_required_iff {f : ProjectFilter} {r : Value} :
    r.HasSkills f.required ↔ ∃ items, r.child "skills" = .list items ∧
      ∀ s ∈ f.skills.getD [], Text.strip s ≠ "" → .text (Text.strip s) ∈ items := by
  constructor
  · rintro ⟨items, hitems, hall⟩
    exact ⟨items, hitems, fun s hs hne => hall _ (mem_required_iff.2 ⟨s, hs, hne, rfl⟩)⟩
  · rintro ⟨items, hitems, hall⟩
    refine ⟨items, hitems, fun t ht => ?_⟩
    obtain ⟨s, hs, hne, rfl⟩ := mem_required_iff.1 ht
    exact hall s hs hne

/-- What a filter wants, sorted by the stages of its plan. -/
theorem wants_iff {f : ProjectFilter} {actor : String} {r : Value} :
    f.Wants actor r ↔
      (r.child "owner" ≠ .text actor ∧ (f.ranges ≠ [] → ∃ range ∈ f.ranges, range.Covers r) ∧
        (f.required ≠ [] → r.HasSkills f.required)) ∧
      ∀ query, f.query? = some query → 0 < titleScore query r := by
  rw [ranges_ne_nil_iff, exists_covers_iff, required_ne_nil_iff, hasSkills_required_iff]
  constructor
  · rintro ⟨hown, htitle, hbudget, hskills⟩
    refine ⟨⟨hown, hbudget, ?_⟩, ?_⟩
    · intro hsome
      cases hs : f.skills with
      | none => simp [hs] at hsome
      | some skills => exact hskills skills hs (by simpa [hs] using hsome)
    · intro query hquery
      obtain ⟨ht, hne⟩ := query?_eq_some_iff.1 hquery
      exact titleScore_pos_iff.2 (htitle query ht hne)
  · rintro ⟨⟨hown, hbudget, hskills⟩, htitle⟩
    refine ⟨hown, ?_, hbudget, ?_⟩
    · intro t ht hne
      exact titleScore_pos_iff.1 (htitle t (query?_eq_some_iff.2 ⟨ht, hne⟩))
    · intro skills hs hsome
      simpa [hs] using hskills (by simpa [hs] using hsome)

theorem inOrder_title {f : ProjectFilter} {query : String} (h : f.query? = some query)
    (records : List Value) :
    f.inOrder records = Memory.byRelevance ⟨"title", query, titleEdits⟩ records := by
  rw [inOrder, h, Memory.byRelevance, relevanceOf_title]

end ProjectFilter

namespace Plan

/-- The plan of a filter on a store in memory, where its match stages do not fail. -/
theorem run_execute_asking {f : ProjectFilter} {actor : String} {m : Memory}
    {keep : Value → Bool}
    (h : ∀ r ∈ m.contents Collection.projects,
      Predicate.admitsAll ((f.matchStages actor).map MatchStage.predicate) r = .ok (keep r)) :
    (asking f actor).execute.run Memory.handle m =
      (.ok (f.inOrder ((m.contents Collection.projects).filter fun r =>
        keep r && f.query?.all fun query => decide (0 < ProjectFilter.titleScore query r))), m) := by
  have hfirst : (asking f actor).SearchesFirst :=
    searchesFirst_of_ofConditions (ofConditions_asking f actor)
  have hadmits : ∀ r ∈ (asking f actor).base m, (asking f actor).admits r = .ok (keep r) := by
    intro r hr
    rw [admits, matchStages_asking]
    exact h r (mem_of_base hr)
  rw [run_execute_searchesFirst hfirst, Value.keepIf_eq_filter hadmits, Fault.lift]
  cases hquery : f.query? with
  | none =>
    have hbase : (asking f actor).base m = m.contents Collection.projects := by
      simp [base, searches, asking, ProjectFilter.searchStage?, hquery, List.filterMap_map]
    simp [hbase, ProjectFilter.inOrder, hquery]
  | some query =>
    have hbase : (asking f actor).base m =
        Memory.ranked ⟨"title", query, titleEdits⟩ (m.entries Collection.projects) := by
      simp [base, searches, asking, ProjectFilter.searchStage?, hquery, List.filterMap_map]
    simp only [hbase, ProjectFilter.inOrder_title hquery, Memory.ranked_eq,
      Memory.filter_byRelevance, List.filter_filter, ProjectFilter.relevanceOf_title,
      Option.all_some]
    rfl

end Plan

/-- A search on a store in memory gives exactly the projects that the filter wants, each as often as
it is stored, in the order of the filter, and leaves the store as it is. -/
theorem searchProjects_gives_wanted {m : Memory} {raw : Value} {filter : Option ProjectFilter}
    {actor : String} (hskills : ∀ r ∈ m.contents Collection.projects, r.PlainSkills)
    (hraw : ProjectFilter.validate raw = .ok filter) (hfits : (filter.getD .blank).Fits)
    (hactor : actor ≠ "") :
    ∃ wanted : Value → Bool,
      (∀ r ∈ m.contents Collection.projects,
        wanted r = true ↔ (filter.getD .blank).Wants actor r) ∧
      (searchProjects raw (.text actor)).run Memory.handle m =
        (.ok ((filter.getD .blank).inOrder ((m.contents Collection.projects).filter wanted)), m) := by
  have hplan := Plan.ofFilter_eq_ok_iff.2 ⟨filter, actor, hraw, .inl rfl, hactor, hfits, rfl⟩
  obtain ⟨f, hf⟩ : ∃ f, f = filter.getD .blank := ⟨_, rfl⟩
  rw [← hf] at hplan ⊢
  have hdecides := fun r hr => f.decides_matchStages actor (hskills r hr)
  have hrun := Plan.run_execute_asking (m := m) fun r hr => (hdecides r hr).eq_ok
  refine ⟨_, ?_, by rw [searchProjects, hplan]; exact hrun⟩
  intro r hr
  rw [Bool.and_eq_true, (hdecides r hr).getD_eq_true_iff, ProjectFilter.wants_iff]
  simp [Option.all_eq_true]

/-- Of three projects one is the actor's own and one has no budget; a mistyped title, a padded skill
and one bound find the third. -/
theorem searchProjects_gives_wanted_landing :
    let m : Memory := .holding [(Collection.projects,
      [⟨.text "p1", [("id", .text "p1"), ("owner", .text "U1"), ("title", .text "Landing page")]⟩,
       ⟨.text "p2", [("id", .text "p2"), ("owner", .text "U2"), ("title", .text "Landing page"),
         ("skills", .list [.text "css"]),
         ("budget", .object [("type", .text "fixed rate"), ("currency", .text "USD"),
           ("amount", .int 300)])]⟩,
       ⟨.text "p3", [("id", .text "p3"), ("owner", .int 3), ("budget", .null)]⟩])]
    let raw : Value := .object [("title", .text "Landng"), ("skills", .list [.text " css "]),
      ("fixed", .object [("checked", .bool true), ("currency", .text "USD"), ("min", .int 100)])]
    let f : ProjectFilter :=
      ⟨some "Landng", some [" css "], some ⟨true, some "USD", some (.int 100), none⟩, none⟩
    (∀ r ∈ m.contents Collection.projects, r.PlainSkills) ∧
      ProjectFilter.validate raw = .ok (some f) ∧ f.Fits ∧ "U1" ≠ "" ∧
      ∃ wanted : Value → Bool,
        (∀ r ∈ m.contents Collection.projects, wanted r = true ↔ f.Wants "U1" r) ∧
        (searchProjects raw (.text "U1")).run Memory.handle m =
          (.ok (f.inOrder ((m.contents Collection.projects).filter wanted)), m) := by
  intro m raw f
  have hskills : ∀ r ∈ m.contents Collection.projects, r.PlainSkills := by
    intro r hr
    rcases List.mem_cons.1 hr with rfl | hr
    · exact trivial
    · rcases List.mem_pair.1 hr with rfl | rfl
      · exact fun v hv => ⟨"css", List.mem_singleton.1 hv⟩
      · exact trivial
  have hraw : ProjectFilter.validate raw = .ok (some f) := rfl
  have hfits : f.Fits := by
    intro p b hb _
    cases p with
    | fixed =>
      cases hb
      have h100 : (Number.int 100).toDouble? ≠ none := by decide +kernel
      exact ⟨by rintro n ⟨⟩; exact h100, by rintro n ⟨⟩⟩
    | hourly => cases hb
  have hactor : "U1" ≠ "" := by decide
  exact ⟨hskills, hraw, hfits, hactor, searchProjects_gives_wanted hskills hraw hfits hactor⟩

end FreelanceBoard
